import Enclave.Syntax.Height

/-!
# Trees up to regions

`unplaced` forgets of a syntax tree where its nodes stand in the source, and nothing else: numbers
and heights stay. What a parser asks of a tree that it has read, how high it is and whether it may
be assigned to or deleted, does not depend on regions.
-/

namespace Enclave

mutual

def Expr.unplaced : Expr → Expr
  | ⟨id, _, height, form⟩ => ⟨id, default, height, form.unplaced⟩

def ExprForm.unplaced : ExprForm → ExprForm
  | .number value => .number value
  | .string value => .string value
  | .bool value => .bool value
  | .null => .null
  | .undefined => .undefined
  | .ident name => .ident name
  | .this => .this
  | .object properties => .object (propertiesUnplaced properties)
  | .functionDef f => .functionDef f.unplaced
  | .classDef c => .classDef c.unplaced
  | .unary op operand => .unary op operand.unplaced
  | .binary op left right => .binary op left.unplaced right.unplaced
  | .logical op left right => .logical op left.unplaced right.unplaced
  | .assign target value => .assign target.unplaced value.unplaced
  | .member e name => .member e.unplaced name
  | .index e key => .index e.unplaced key.unplaced
  | .call callee args => .call callee.unplaced (exprsUnplaced args)
  | .new callee args => .new callee.unplaced (exprsUnplaced args)
  | .slot accessor key => .slot accessor.unplaced key.unplaced
  | .hasSlot key accessor => .hasSlot key.unplaced accessor.unplaced
  | .superCall args => .superCall (exprsUnplaced args)
  | .superMember name => .superMember name

def Property.unplaced : Property → Property
  | ⟨name, value⟩ => ⟨name, value.unplaced⟩

def Accessor.unplaced : Accessor → Accessor
  | .ofReceiver _ => .ofReceiver default
  | .ofTarget _ target => .ofTarget default target.unplaced
  | .ofClass _ => .ofClass default

def SlotKey.unplaced : SlotKey → SlotKey
  | .named name => .named name
  | .computed key => .computed key.unplaced

def propertiesUnplaced : List Property → List Property
  | [] => []
  | p :: rest => p.unplaced :: propertiesUnplaced rest

def exprsUnplaced : List Expr → List Expr
  | [] => []
  | e :: rest => e.unplaced :: exprsUnplaced rest

def optionalUnplaced : Option Expr → Option Expr
  | none => none
  | some e => some e.unplaced

def FunctionDef.unplaced : FunctionDef → FunctionDef
  | ⟨site, name, kind, params, body, _, height⟩ =>
    ⟨site, name, kind, params, stmtsUnplaced body, default, height⟩

def ClassDef.unplaced : ClassDef → ClassDef
  | ⟨site, name, superclass, constructor, members, _, height⟩ =>
    ⟨site, name, optionalUnplaced superclass, constructorUnplaced constructor,
      membersUnplaced members, default, height⟩

def constructorUnplaced : Option FunctionDef → Option FunctionDef
  | none => none
  | some f => some f.unplaced

def membersUnplaced : List Member → List Member
  | [] => []
  | m :: rest => m.unplaced :: membersUnplaced rest

def Member.unplaced : Member → Member
  | ⟨name, form, _⟩ => ⟨name, form.unplaced, default⟩

def MemberForm.unplaced : MemberForm → MemberForm
  | .method f => .method f.unplaced
  | .privateMethod f => .privateMethod f.unplaced
  | .staticMethod f => .staticMethod f.unplaced
  | .privateField initializer => .privateField (optionalUnplaced initializer)
  | .staticField initializer => .staticField (optionalUnplaced initializer)

def Stmt.unplaced : Stmt → Stmt
  | ⟨form, _⟩ => ⟨form.unplaced, default⟩

def StmtForm.unplaced : StmtForm → StmtForm
  | .declare name isMutable initializer => .declare name isMutable (optionalUnplaced initializer)
  | .expr e => .expr e.unplaced
  | .block body => .block (stmtsUnplaced body)
  | .cond test yes none => .cond test.unplaced yes.unplaced none
  | .cond test yes (some no) => .cond test.unplaced yes.unplaced (some no.unplaced)
  | .loop test body => .loop test.unplaced body.unplaced
  | .ret value => .ret (optionalUnplaced value)
  | .raise value => .raise value.unplaced
  | .attempt body param handler => .attempt (stmtsUnplaced body) param (stmtsUnplaced handler)
  | .functionDef f => .functionDef f.unplaced
  | .classDef c => .classDef c.unplaced

def stmtsUnplaced : List Stmt → List Stmt
  | [] => []
  | s :: rest => s.unplaced :: stmtsUnplaced rest

end

/-- A program without regions. -/
def Program.unplaced (p : Program) : Program := { p with body := stmtsUnplaced p.body }

/-! ### Lists and options -/

/-- Forgetting regions in a list of expressions. -/
theorem exprsUnplaced_eq (es : List Expr) : exprsUnplaced es = es.map Expr.unplaced := by
  induction es with
  | nil => rfl
  | cons e rest ih => rw [exprsUnplaced, ih, List.map_cons]

/-- Forgetting regions in the properties of a literal. -/
theorem propertiesUnplaced_eq (ps : List Property) :
    propertiesUnplaced ps = ps.map Property.unplaced := by
  induction ps with
  | nil => rfl
  | cons p rest ih => rw [propertiesUnplaced, ih, List.map_cons]

/-- Forgetting regions in a list of statements. -/
theorem stmtsUnplaced_eq (body : List Stmt) : stmtsUnplaced body = body.map Stmt.unplaced := by
  induction body with
  | nil => rfl
  | cons s rest ih => rw [stmtsUnplaced, ih, List.map_cons]

/-- Forgetting regions in the members of a class. -/
theorem membersUnplaced_eq (members : List Member) :
    membersUnplaced members = members.map Member.unplaced := by
  induction members with
  | nil => rfl
  | cons m rest ih => rw [membersUnplaced, ih, List.map_cons]

/-- Forgetting regions in a constructor that may be missing. -/
theorem constructorUnplaced_eq (f? : Option FunctionDef) :
    constructorUnplaced f? = f?.map FunctionDef.unplaced := by
  cases f? <;> rfl

/-- Forgetting regions in a conditional, with an alternative or without. -/
theorem StmtForm.cond_unplaced (test : Expr) (yes : Stmt) (no? : Option Stmt) :
    (cond test yes no?).unplaced = cond test.unplaced yes.unplaced (no?.map Stmt.unplaced) := by
  cases no? <;> rw [unplaced] <;> rfl

/-! ### What does not depend on regions -/

/-- Forgetting regions in a property leaves its name. -/
theorem Property.unplaced_eq (p : Property) : p.unplaced = ⟨p.name, p.value.unplaced⟩ := by
  obtain ⟨name, value⟩ := p
  rw [unplaced]

theorem Expr.form_unplaced (e : Expr) : e.unplaced.form = e.form.unplaced := by
  obtain ⟨id, span, height, form⟩ := e
  rw [unplaced]

/-- Whether a form is a member does not depend on regions. -/
theorem ExprForm.isMember_unplaced (form : ExprForm) : form.unplaced.isMember = form.isMember := by
  cases form <;> rfl

/-- Whether a form may be assigned to does not depend on regions. -/
theorem ExprForm.isAssignable_unplaced (form : ExprForm) :
    form.unplaced.isAssignable = form.isAssignable := by
  cases form <;> rfl

/-- The height of an expression does not depend on regions. -/
theorem Expr.height_unplaced (e : Expr) : e.unplaced.height = e.height := by
  obtain ⟨id, span, height, form⟩ := e
  rw [unplaced]

/-- The height of a function does not depend on regions. -/
theorem FunctionDef.height_unplaced (f : FunctionDef) : f.unplaced.height = f.height := by
  obtain ⟨site, name, kind, params, body, span, height⟩ := f
  rw [unplaced]

/-- The height of a class does not depend on regions. -/
theorem ClassDef.height_unplaced (c : ClassDef) : c.unplaced.height = c.height := by
  obtain ⟨site, name, superclass, constructor, members, span, height⟩ := c
  rw [unplaced]

/-- The height below an accessor does not depend on regions. -/
theorem Accessor.heightBelow_unplaced (a : Accessor) : a.unplaced.heightBelow = a.heightBelow := by
  cases a <;> simp [unplaced, heightBelow, Expr.height_unplaced]

/-- The height below a key does not depend on regions. -/
theorem SlotKey.heightBelow_unplaced (key : SlotKey) :
    key.unplaced.heightBelow = key.heightBelow := by
  cases key <;> simp [unplaced, heightBelow, Expr.height_unplaced]

/-- The height of an initializer does not depend on regions. -/
theorem initializerHeight_unplaced (e? : Option Expr) :
    initializerHeight (optionalUnplaced e?) = initializerHeight e? := by
  cases e? <;> simp [optionalUnplaced, initializerHeight, Expr.height_unplaced]

/-- The heights in a list of expressions do not depend on regions. -/
theorem heights_unplaced (es : List Expr) :
    (exprsUnplaced es).map (·.height) = es.map (·.height) := by
  rw [exprsUnplaced_eq, List.map_map]
  exact List.map_congr_left fun e _ => e.height_unplaced

/-- The height below a form of an expression does not depend on regions. -/
theorem ExprForm.heightBelow_unplaced (form : ExprForm) :
    form.unplaced.heightBelow = form.heightBelow := by
  cases form with
  -- the values of a literal stand inside its properties
  | object properties =>
    rw [unplaced, heightBelow, heightBelow, propertiesUnplaced_eq, List.map_map]
    refine congrArg greatest (List.map_congr_left fun p _ => ?_)
    rw [Function.comp_apply, p.unplaced_eq, Expr.height_unplaced]
  | _ =>
    simp [unplaced, heightBelow, Expr.height_unplaced, FunctionDef.height_unplaced,
      ClassDef.height_unplaced, Accessor.heightBelow_unplaced, SlotKey.heightBelow_unplaced,
      heights_unplaced]

mutual

/-- The height of a statement does not depend on regions. -/
theorem Stmt.height_unplaced : ∀ s : Stmt, s.unplaced.height = s.height
  | ⟨form, _⟩ => by
    rw [Stmt.unplaced, Stmt.height, Stmt.height, form.heightBelow_unplaced]

/-- The height below a form of a statement does not depend on regions. -/
theorem StmtForm.heightBelow_unplaced : ∀ form : StmtForm,
    form.unplaced.heightBelow = form.heightBelow
  | .declare _ _ initializer => initializerHeight_unplaced initializer
  | .ret value => initializerHeight_unplaced value
  | .expr e | .raise e => e.height_unplaced
  | .functionDef f => f.height_unplaced
  | .classDef c => c.height_unplaced
  | .block body => heightOfAll_unplaced body
  | .cond test yes none => by
    simp only [StmtForm.unplaced, StmtForm.heightBelow, test.height_unplaced, yes.height_unplaced]
  | .cond test yes (some no) => by
    simp only [StmtForm.unplaced, StmtForm.heightBelow, test.height_unplaced, yes.height_unplaced,
      no.height_unplaced]
  | .loop test body => by
    simp only [StmtForm.unplaced, StmtForm.heightBelow, test.height_unplaced, body.height_unplaced]
  | .attempt body param handler => by
    simp only [StmtForm.unplaced, StmtForm.heightBelow, heightOfAll_unplaced body,
      heightOfAll_unplaced handler]

/-- The height of a list of statements does not depend on regions. -/
theorem heightOfAll_unplaced : ∀ body : List Stmt,
    heightOfAll (stmtsUnplaced body) = heightOfAll body
  | [] => rfl
  | s :: rest => by
    rw [stmtsUnplaced, heightOfAll, heightOfAll, s.height_unplaced, heightOfAll_unplaced rest]

end

/-- The height below a form of a member does not depend on regions. -/
theorem MemberForm.heightBelow_unplaced (form : MemberForm) :
    form.unplaced.heightBelow = form.heightBelow := by
  cases form <;>
    simp [unplaced, heightBelow, FunctionDef.height_unplaced, initializerHeight_unplaced]

/-- The height below a class does not depend on regions. -/
theorem classHeightBelow_unplaced (superclass : Option Expr) (constructor : Option FunctionDef)
    (members : List Member) :
    classHeightBelow (optionalUnplaced superclass) (constructorUnplaced constructor)
      (membersUnplaced members) = classHeightBelow superclass constructor members := by
  have hconstructor : (constructorUnplaced constructor).elim 0 (·.height) =
      constructor.elim 0 (·.height) := by
    cases constructor <;> simp [constructorUnplaced, FunctionDef.height_unplaced]
  -- Of the members, the forms alone have heights.
  have hmembers : (membersUnplaced members).map (·.form.heightBelow) =
      members.map (·.form.heightBelow) := by
    rw [membersUnplaced_eq, List.map_map]
    refine List.map_congr_left fun m _ => ?_
    obtain ⟨name, form, span⟩ := m
    exact form.heightBelow_unplaced
  rw [classHeightBelow, classHeightBelow, initializerHeight_unplaced, hconstructor, hmembers]

end Enclave
