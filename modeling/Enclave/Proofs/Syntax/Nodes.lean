import Enclave.Binding
import Mathlib.Data.List.Count
import Mathlib.Data.List.Nodup

/-!
# The expressions of a program

`Expr.nodes` lists an expression with all expressions inside it, at whatever depth and through
functions and classes. The walk that binds accessors meets each of them at most once
(`siteIds_findings`), so if no two have the same number, an accessor is bound to one class only.
-/

namespace Enclave

/-- What the parts of an expression have to be: `delete` takes a member, and what is assigned to can
be assigned to. -/
def ExprForm.IsProper : ExprForm → Prop
  | .unary .delete operand => operand.form.isMember = true
  | .assign target _ => target.form.isAssignable = true
  | _ => True

mutual

def Expr.nodes : Expr → List Expr
  | ⟨id, span, height, form⟩ => ⟨id, span, height, form⟩ :: form.inner

/-- The expressions below one of this form. -/
def ExprForm.inner : ExprForm → List Expr
  | .number _ | .string _ | .bool _ | .null | .undefined | .ident _ | .this | .superMember _ => []
  | .object properties => propertiesNodes properties
  | .functionDef f => f.nodes
  | .classDef c => c.nodes
  | .unary _ operand => operand.nodes
  | .binary _ left right | .logical _ left right => left.nodes ++ right.nodes
  | .assign target value => target.nodes ++ value.nodes
  | .member e _ => e.nodes
  | .index e key => e.nodes ++ key.nodes
  | .call callee args | .new callee args => callee.nodes ++ exprsNodes args
  | .slot accessor key => accessor.nodes ++ key.nodes
  | .hasSlot key accessor => key.nodes ++ accessor.nodes
  | .superCall args => exprsNodes args

def Accessor.nodes : Accessor → List Expr
  | .ofReceiver _ | .ofClass _ => []
  | .ofTarget _ target => target.nodes

def SlotKey.nodes : SlotKey → List Expr
  | .named _ => []
  | .computed key => key.nodes

def propertiesNodes : List Property → List Expr
  | [] => []
  | ⟨_, value⟩ :: rest => value.nodes ++ propertiesNodes rest

def exprsNodes : List Expr → List Expr
  | [] => []
  | e :: rest => e.nodes ++ exprsNodes rest

def optionalNodes : Option Expr → List Expr
  | none => []
  | some e => e.nodes

def FunctionDef.nodes : FunctionDef → List Expr
  | ⟨_, _, _, _, body, _, _⟩ => stmtsNodes body

def ClassDef.nodes : ClassDef → List Expr
  | ⟨_, _, superclass, constructor, members, _, _⟩ =>
    optionalNodes superclass ++ constructorNodes constructor ++ membersNodes members

def constructorNodes : Option FunctionDef → List Expr
  | none => []
  | some f => f.nodes

def membersNodes : List Member → List Expr
  | [] => []
  | ⟨_, form, _⟩ :: rest => form.nodes ++ membersNodes rest

def MemberForm.nodes : MemberForm → List Expr
  | .method f | .privateMethod f | .staticMethod f => f.nodes
  | .privateField initializer | .staticField initializer => optionalNodes initializer

def Stmt.nodes : Stmt → List Expr
  | ⟨form, _⟩ => form.nodes

def StmtForm.nodes : StmtForm → List Expr
  | .declare _ _ initializer => optionalNodes initializer
  | .expr e | .raise e => e.nodes
  | .block body => stmtsNodes body
  | .cond test yes none => test.nodes ++ yes.nodes
  | .cond test yes (some no) => test.nodes ++ yes.nodes ++ no.nodes
  | .loop test body => test.nodes ++ body.nodes
  | .ret value => optionalNodes value
  | .attempt body _ handler => stmtsNodes body ++ stmtsNodes handler
  | .functionDef f => f.nodes
  | .classDef c => c.nodes

def stmtsNodes : List Stmt → List Expr
  | [] => []
  | s :: rest => s.nodes ++ stmtsNodes rest

end

/-- The expressions in an expression are it and those below it. -/
theorem Expr.nodes_eq (e : Expr) : e.nodes = e :: e.form.inner := by
  obtain ⟨id, span, height, form⟩ := e
  rw [nodes]

/-! ### Numbers of accessors -/

/-- The numbers of the accessors among some findings. -/
def siteIds (findings : List Finding) : List ExprId :=
  (findings.filterMap Finding.site?).map (·.expr)

@[simp] theorem siteIds_nil : siteIds [] = [] := rfl

/-- The numbers found in two lists of findings are those of both. -/
@[simp] theorem siteIds_append (a b : List Finding) :
    siteIds (a ++ b) = siteIds a ++ siteIds b := by
  simp [siteIds]

@[simp] theorem siteIds_class (c : ClassDef) : siteIds [.class c] = [] := rfl

/-- A complaint about `super(...)` gives no accessor a number. -/
@[simp] theorem siteIds_ofSuperCall (context : ScopeContext) (span : Span) :
    siteIds (Finding.ofSuperCall context span) = [] := by
  unfold Finding.ofSuperCall
  split <;> rfl

/-- A complaint about a member of `super` gives no accessor a number. -/
@[simp] theorem siteIds_ofSuperMember (context : ScopeContext) (span : Span) :
    siteIds (Finding.ofSuperMember context span) = [] := by
  unfold Finding.ofSuperMember
  split <;> rfl

/-- An accessor gives its own number or none. -/
theorem count_ofAccessor (i : ExprId) (context : ScopeContext) (id : ExprId) (span : Span)
    (accessor : Accessor) :
    (siteIds (Finding.ofAccessor context id span accessor)).count i ≤ [id].count i := by
  unfold Finding.ofAccessor
  split
  · exact Nat.le_refl _
  · exact Nat.zero_le _

/-- The number of times that an expression's number occurs. -/
def countId (i : ExprId) (nodes : List Expr) : Nat := (nodes.map (·.id)).count i

@[simp] theorem countId_nil (i : ExprId) : countId i [] = 0 := rfl

/-- The count of a number in two lists is the sum. -/
@[simp] theorem countId_append (i : ExprId) (a b : List Expr) :
    countId i (a ++ b) = countId i a + countId i b := by
  simp [countId]

/-- The count of a number in front of a list. -/
theorem countId_cons (i : ExprId) (e : Expr) (nodes : List Expr) :
    countId i (e :: nodes) = [e.id].count i + countId i nodes := by
  simp [countId, List.count_cons, Nat.add_comm]

section Counting

variable (i : ExprId)

mutual

/-- In an expression a number is found at most as often as expressions have it. -/
theorem count_exprFindings (context : ScopeContext) :
    ∀ e : Expr, (siteIds (e.findings context)).count i ≤ countId i e.nodes
  | ⟨id, span, height, form⟩ => by
    rw [Expr.findings, Expr.nodes, countId_cons]
    exact count_formFindings context id span form

/-- The same for the form of an expression, with the number of the expression itself. -/
theorem count_formFindings (context : ScopeContext) (id : ExprId) (span : Span) :
    ∀ form : ExprForm,
      (siteIds (form.findings context id span)).count i ≤ [id].count i + countId i form.inner
  | .number _ | .string _ | .bool _ | .null | .undefined | .ident _ | .this => by
    simp [ExprForm.findings]
  | .superMember _ => by simp [ExprForm.findings]
  | .object properties => by
    rw [ExprForm.findings, ExprForm.inner]
    exact Nat.le_add_left_of_le (count_propertiesFindings context properties)
  | .functionDef f => by
    rw [ExprForm.findings, ExprForm.inner]
    exact Nat.le_add_left_of_le (count_functionFindings _ f)
  | .classDef c => by
    rw [ExprForm.findings, ExprForm.inner]
    exact Nat.le_add_left_of_le (count_classFindings context c)
  -- a form with one part binds what the part binds
  | .unary _ operand => by
    rw [ExprForm.findings, ExprForm.inner]
    exact Nat.le_add_left_of_le (count_exprFindings context operand)
  | .binary _ left right | .logical _ left right => by
    have hleft := count_exprFindings context left
    have hright := count_exprFindings context right
    simp only [ExprForm.findings, ExprForm.inner, siteIds_append, List.count_append,
      countId_append]
    omega
  | .assign target value => by
    have htarget := count_exprFindings context target
    have hvalue := count_exprFindings context value
    simp only [ExprForm.findings, ExprForm.inner, siteIds_append, List.count_append,
      countId_append]
    omega
  | .member e _ => by
    rw [ExprForm.findings, ExprForm.inner]
    exact Nat.le_add_left_of_le (count_exprFindings context e)
  | .index e key => by
    have he := count_exprFindings context e
    have hkey := count_exprFindings context key
    simp only [ExprForm.findings, ExprForm.inner, siteIds_append, List.count_append,
      countId_append]
    omega
  | .call callee args | .new callee args => by
    have hcallee := count_exprFindings context callee
    have hargs := count_exprsFindings context args
    simp only [ExprForm.findings, ExprForm.inner, siteIds_append, List.count_append,
      countId_append]
    omega
  -- an accessor is bound once itself, besides what its parts bind
  | .slot accessor key => by
    have hown := count_ofAccessor i context id span accessor
    have haccessor := count_accessorFindings context accessor
    have hkey := count_keyFindings context key
    simp only [ExprForm.findings, ExprForm.inner, siteIds_append, List.count_append,
      countId_append]
    omega
  | .hasSlot key accessor => by
    have hown := count_ofAccessor i context id span accessor
    have haccessor := count_accessorFindings context accessor
    have hkey := count_exprFindings context key
    simp only [ExprForm.findings, ExprForm.inner, siteIds_append, List.count_append,
      countId_append]
    omega
  -- a call of the parent's constructor binds no site
  | .superCall args => by
    have hargs := count_exprsFindings context args
    simp only [ExprForm.findings, ExprForm.inner, siteIds_append, siteIds_ofSuperCall,
      List.nil_append]
    omega

/-- The same for an accessor. -/
theorem count_accessorFindings (context : ScopeContext) :
    ∀ accessor : Accessor,
      (siteIds (accessor.findings context)).count i ≤ countId i accessor.nodes
  | .ofReceiver _ | .ofClass _ => by simp [Accessor.findings]
  | .ofTarget _ target => by
    rw [Accessor.findings, Accessor.nodes]
    exact count_exprFindings context target

/-- The same for the key of a slot. -/
theorem count_keyFindings (context : ScopeContext) :
    ∀ key : SlotKey, (siteIds (key.findings context)).count i ≤ countId i key.nodes
  | .named _ => by simp [SlotKey.findings]
  | .computed key => by
    rw [SlotKey.findings, SlotKey.nodes]
    exact count_exprFindings context key

/-- The same for the properties of an object literal. -/
theorem count_propertiesFindings (context : ScopeContext) :
    ∀ properties : List Property,
      (siteIds (propertiesFindings context properties)).count i ≤
        countId i (propertiesNodes properties)
  | [] => by simp [propertiesFindings]
  | ⟨_, value⟩ :: rest => by
    have hvalue := count_exprFindings context value
    have hrest := count_propertiesFindings context rest
    simp only [propertiesFindings, propertiesNodes, siteIds_append, List.count_append,
      countId_append]
    omega

/-- The same for a list of expressions. -/
theorem count_exprsFindings (context : ScopeContext) :
    ∀ es : List Expr,
      (siteIds (exprsFindings context es)).count i ≤ countId i (exprsNodes es)
  | [] => by simp [exprsFindings]
  | e :: rest => by
    have he := count_exprFindings context e
    have hrest := count_exprsFindings context rest
    simp only [exprsFindings, exprsNodes, siteIds_append, List.count_append, countId_append]
    omega

/-- The same for an expression that may be missing. -/
theorem count_optionalFindings (context : ScopeContext) :
    ∀ e : Option Expr,
      (siteIds (optionalFindings context e)).count i ≤ countId i (optionalNodes e)
  | none => by simp [optionalFindings]
  | some e => by
    rw [optionalFindings, optionalNodes]
    exact count_exprFindings context e

/-- The same for a function. -/
theorem count_functionFindings (context : ScopeContext) :
    ∀ f : FunctionDef, (siteIds (f.findings context)).count i ≤ countId i f.nodes
  | ⟨_, _, _, _, body, _, _⟩ => by
    rw [FunctionDef.findings, FunctionDef.nodes]
    exact count_stmtsFindings context body

/-- The same for a class. -/
theorem count_classFindings (context : ScopeContext) :
    ∀ c : ClassDef, (siteIds (c.findings context)).count i ≤ countId i c.nodes
  | ⟨site, _, superclass, constructor, members, _, _⟩ => by
    have hsuper := count_optionalFindings context superclass
    have hconstructor :=
      count_constructorFindings (.inConstructor site superclass.isSome) constructor
    have hmembers := count_membersFindings site superclass.isSome members
    simp only [ClassDef.findings, ClassDef.nodes, siteIds_append, siteIds_class,
      List.count_append, countId_append, List.count_nil]
    omega

/-- The same for a constructor that may be missing. -/
theorem count_constructorFindings (context : ScopeContext) :
    ∀ f : Option FunctionDef,
      (siteIds (constructorFindings context f)).count i ≤ countId i (constructorNodes f)
  | none => by simp [constructorFindings]
  | some f => by
    rw [constructorFindings, constructorNodes]
    exact count_functionFindings context f

/-- The same for the members of a class. -/
theorem count_membersFindings (site : ClassSite) (isDerived : Bool) :
    ∀ members : List Member,
      (siteIds (membersFindings site isDerived members)).count i ≤
        countId i (membersNodes members)
  | [] => by simp [membersFindings]
  | ⟨_, form, _⟩ :: rest => by
    have hform := count_memberFindings site isDerived form
    have hrest := count_membersFindings site isDerived rest
    simp only [membersFindings, membersNodes, siteIds_append, List.count_append, countId_append]
    omega

/-- The same for one member. -/
theorem count_memberFindings (site : ClassSite) (isDerived : Bool) :
    ∀ form : MemberForm,
      (siteIds (form.findings site isDerived)).count i ≤ countId i form.nodes
  | .method f | .privateMethod f | .staticMethod f => by
    rw [MemberForm.findings, MemberForm.nodes]
    exact count_functionFindings _ f
  | .privateField initializer | .staticField initializer => by
    rw [MemberForm.findings, MemberForm.nodes]
    exact count_optionalFindings _ initializer

/-- The same for a statement. -/
theorem count_stmtFindings (context : ScopeContext) :
    ∀ s : Stmt, (siteIds (s.findings context)).count i ≤ countId i s.nodes
  | ⟨form, _⟩ => by
    rw [Stmt.findings, Stmt.nodes]
    exact count_stmtFormFindings context form

/-- The same for the form of a statement. -/
theorem count_stmtFormFindings (context : ScopeContext) :
    ∀ form : StmtForm, (siteIds (form.findings context)).count i ≤ countId i form.nodes
  | .declare _ _ initializer => by
    rw [StmtForm.findings, StmtForm.nodes]
    exact count_optionalFindings context initializer
  | .expr e | .raise e => by
    rw [StmtForm.findings, StmtForm.nodes]
    exact count_exprFindings context e
  | .block body => by
    rw [StmtForm.findings, StmtForm.nodes]
    exact count_stmtsFindings context body
  -- a form with several parts: what each of them binds is counted in its own nodes
  | .cond test yes none => by
    have htest := count_exprFindings context test
    have hyes := count_stmtFindings context yes
    simp only [StmtForm.findings, StmtForm.nodes, siteIds_append, List.count_append,
      countId_append]
    omega
  | .cond test yes (some no) => by
    have htest := count_exprFindings context test
    have hyes := count_stmtFindings context yes
    have hno := count_stmtFindings context no
    simp only [StmtForm.findings, StmtForm.nodes, siteIds_append, List.count_append,
      countId_append]
    omega
  -- a body that is one statement, or two lists of them, is counted alike
  | .loop test body => by
    have htest := count_exprFindings context test
    have hbody := count_stmtFindings context body
    simp only [StmtForm.findings, StmtForm.nodes, siteIds_append, List.count_append,
      countId_append]
    omega
  | .ret value => by
    rw [StmtForm.findings, StmtForm.nodes]
    exact count_optionalFindings context value
  | .attempt body _ handler => by
    have hbody := count_stmtsFindings context body
    have hhandler := count_stmtsFindings context handler
    simp only [StmtForm.findings, StmtForm.nodes, siteIds_append, List.count_append,
      countId_append]
    omega
  | .functionDef f => by
    rw [StmtForm.findings, StmtForm.nodes]
    exact count_functionFindings _ f
  | .classDef c => by
    rw [StmtForm.findings, StmtForm.nodes]
    exact count_classFindings context c

/-- The same for a list of statements. -/
theorem count_stmtsFindings (context : ScopeContext) :
    ∀ body : List Stmt,
      (siteIds (stmtsFindings context body)).count i ≤ countId i (stmtsNodes body)
  | [] => by simp [stmtsFindings]
  | s :: rest => by
    have hs := count_stmtFindings context s
    have hrest := count_stmtsFindings context rest
    simp only [stmtsFindings, stmtsNodes, siteIds_append, List.count_append, countId_append]
    omega

end

end Counting

/-- If no two expressions of a program have the same number, no two accessors have. -/
theorem nodup_siteIds (p : Program) (h : ((stmtsNodes p.body).map (·.id)).Nodup) :
    (siteIds p.findings).Nodup :=
  List.nodup_iff_count_le_one.mpr fun i =>
    Nat.le_trans (count_stmtsFindings i .top p.body) (List.nodup_iff_count_le_one.mp h i)

end Enclave
