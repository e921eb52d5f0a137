import Enclave.Syntax.Height

/-!
# Trees up to numbers and regions

`erased` forgets of a syntax tree what depends on where it was read: the numbers of its nodes, their
regions, and the heights that are kept with the numbers. Two trees that are the same once erased
agree node for node in everything else.
-/

namespace Enclave

mutual

def Expr.erased : Expr → Expr
  | ⟨_, _, _, form⟩ => ⟨⟨0⟩, default, 0, form.erased⟩

def ExprForm.erased : ExprForm → ExprForm
  | .number value => .number value
  | .string value => .string value
  | .bool value => .bool value
  | .null => .null
  | .undefined => .undefined
  | .ident name => .ident name
  | .this => .this
  | .object properties => .object (propertiesErased properties)
  | .functionDef f => .functionDef f.erased
  | .classDef c => .classDef c.erased
  | .unary op operand => .unary op operand.erased
  | .binary op left right => .binary op left.erased right.erased
  | .logical op left right => .logical op left.erased right.erased
  | .assign target value => .assign target.erased value.erased
  | .member e name => .member e.erased name
  | .index e key => .index e.erased key.erased
  | .call callee args => .call callee.erased (exprsErased args)
  | .new callee args => .new callee.erased (exprsErased args)
  | .slot accessor key => .slot accessor.erased key.erased
  | .hasSlot key accessor => .hasSlot key.erased accessor.erased
  | .superCall args => .superCall (exprsErased args)
  | .superMember name => .superMember name

def Property.erased : Property → Property
  | ⟨name, value⟩ => ⟨name, value.erased⟩

def Accessor.erased : Accessor → Accessor
  | .ofReceiver _ => .ofReceiver default
  | .ofTarget _ target => .ofTarget default target.erased
  | .ofClass _ => .ofClass default

def SlotKey.erased : SlotKey → SlotKey
  | .named name => .named name
  | .computed key => .computed key.erased

def propertiesErased : List Property → List Property
  | [] => []
  | p :: rest => p.erased :: propertiesErased rest

def exprsErased : List Expr → List Expr
  | [] => []
  | e :: rest => e.erased :: exprsErased rest

def optionalErased : Option Expr → Option Expr
  | none => none
  | some e => some e.erased

def FunctionDef.erased : FunctionDef → FunctionDef
  | ⟨_, name, kind, params, body, _, _⟩ => ⟨⟨0⟩, name, kind, params, stmtsErased body, default, 0⟩

def ClassDef.erased : ClassDef → ClassDef
  | ⟨_, name, superclass, constructor, members, _, _⟩ =>
    ⟨⟨0⟩, name, optionalErased superclass, constructorErased constructor, membersErased members,
      default, 0⟩

def constructorErased : Option FunctionDef → Option FunctionDef
  | none => none
  | some f => some f.erased

def membersErased : List Member → List Member
  | [] => []
  | m :: rest => m.erased :: membersErased rest

def Member.erased : Member → Member
  | ⟨name, form, _⟩ => ⟨name, form.erased, default⟩

def MemberForm.erased : MemberForm → MemberForm
  | .method f => .method f.erased
  | .privateMethod f => .privateMethod f.erased
  | .staticMethod f => .staticMethod f.erased
  | .privateField initializer => .privateField (optionalErased initializer)
  | .staticField initializer => .staticField (optionalErased initializer)

def Stmt.erased : Stmt → Stmt
  | ⟨form, _⟩ => ⟨form.erased, default⟩

def StmtForm.erased : StmtForm → StmtForm
  | .declare name isMutable initializer => .declare name isMutable (optionalErased initializer)
  | .expr e => .expr e.erased
  | .block body => .block (stmtsErased body)
  | .cond test yes none => .cond test.erased yes.erased none
  | .cond test yes (some no) => .cond test.erased yes.erased (some no.erased)
  | .loop test body => .loop test.erased body.erased
  | .ret value => .ret (optionalErased value)
  | .raise value => .raise value.erased
  | .attempt body param handler => .attempt (stmtsErased body) param (stmtsErased handler)
  | .functionDef f => .functionDef f.erased
  | .classDef c => .classDef c.erased

def stmtsErased : List Stmt → List Stmt
  | [] => []
  | s :: rest => s.erased :: stmtsErased rest

end

/-! ### Lists and options -/

theorem exprsErased_eq (es : List Expr) : exprsErased es = es.map Expr.erased := by
  induction es with
  | nil => rfl
  | cons e rest ih => rw [exprsErased, ih, List.map_cons]

theorem propertiesErased_eq (ps : List Property) :
    propertiesErased ps = ps.map Property.erased := by
  induction ps with
  | nil => rfl
  | cons p rest ih => rw [propertiesErased, ih, List.map_cons]

theorem stmtsErased_eq (body : List Stmt) : stmtsErased body = body.map Stmt.erased := by
  induction body with
  | nil => rfl
  | cons s rest ih => rw [stmtsErased, ih, List.map_cons]

theorem membersErased_eq (members : List Member) :
    membersErased members = members.map Member.erased := by
  induction members with
  | nil => rfl
  | cons m rest ih => rw [membersErased, ih, List.map_cons]

theorem constructorErased_eq (f : Option FunctionDef) :
    constructorErased f = f.map FunctionDef.erased := by
  cases f <;> rfl

/-! ### What erasing keeps -/

theorem Property.erased_eq (p : Property) : p.erased = ⟨p.name, p.value.erased⟩ := by
  obtain ⟨name, value⟩ := p
  rw [erased]

theorem Expr.erased_form (e : Expr) : e.erased.form = e.form.erased := by
  obtain ⟨id, span, height, form⟩ := e
  rw [erased]

theorem ExprForm.isMember_erased (form : ExprForm) : form.erased.isMember = form.isMember := by
  cases form <;> rfl

theorem ExprForm.isAssignable_erased (form : ExprForm) :
    form.erased.isAssignable = form.isAssignable := by
  cases form <;> rfl

variable {e e' : Expr}

theorem Expr.erased_congr (h : e'.form.erased = e.form.erased) : e'.erased = e.erased := by
  obtain ⟨id, span, height, form⟩ := e
  obtain ⟨id', span', height', form'⟩ := e'
  rw [erased, erased, show form'.erased = form.erased from h]

theorem Expr.isMember_congr (h : e'.erased = e.erased) : e'.form.isMember = e.form.isMember := by
  rw [← ExprForm.isMember_erased, ← erased_form, h, erased_form, ExprForm.isMember_erased]

theorem Expr.isAssignable_congr (h : e'.erased = e.erased) :
    e'.form.isAssignable = e.form.isAssignable := by
  rw [← ExprForm.isAssignable_erased, ← erased_form, h, erased_form, ExprForm.isAssignable_erased]

/-- The statements of a program, erased. -/
def Program.erased (p : Program) : List Stmt := p.body.map Stmt.erased

end Enclave
