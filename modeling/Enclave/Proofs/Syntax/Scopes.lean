import Enclave.Binding
import Enclave.Proofs.Syntax.Places
import Mathlib.Data.List.Perm.Basic

/-!
# Scopes

Which class an accessor belongs to and what `super` may stand for is decided by where they stand:
by the innermost class body around them (`SyntaxNode.enclosingClass?`) and by the innermost function
or initializer around them (`SyntaxNode.innermostCode?`). The walk that binds a program keeps track
of both while it descends. What it finds is what there is to be found at each place of the program
(`Program.findings_perm`), though not in the order of places.
-/

namespace Enclave

/-- Whether a declaration is that of a method with an instance. -/
def MemberForm.isInstanceMethod : MemberForm → Bool
  | .method _ | .privateMethod _ => true
  | _ => false

/-- A function or initializer, by where it stands: the constructor of a class, a method or
initializer that a class declares, or a function outside of all that. -/
inductive Code
  | constructor (c : ClassDef)
  | declared (m : Member) (c : ClassDef)
  | plain

/-- Whether `super(...)` may be called in it. -/
def Code.mayCallSuper : Code → Bool
  | .constructor c => c.superclass.isSome
  | .declared _ _ | .plain => false

/-- Whether `super` may stand for the parent's prototype in it. -/
def Code.mayUseSuper : Code → Bool
  | .constructor c => c.superclass.isSome
  | .declared m c => m.form.isInstanceMethod && c.superclass.isSome
  | .plain => false

namespace SyntaxNode

def isExpr : SyntaxNode → Bool
  | .expr _ => true
  | _ => false

/-- The innermost class whose body is around a node. An expression right below a class is the clause
after `extends`, which is outside of its body. -/
def enclosingClass? (n : SyntaxNode) : (above : List SyntaxNode) → Option ClassDef
  | [] => none
  | .class c :: above => if n.isExpr then enclosingClass? (.class c) above else some c
  | k :: above => enclosingClass? k above

/-- The innermost function or initializer among some nodes. An initializer is met as the declaration
around it, before any function. -/
def innermostCode? : (above : List SyntaxNode) → Option Code
  | .function _ :: .class c :: _ => some (.constructor c)
  | .function _ :: .member m :: .class c :: _ => some (.declared m c)
  | .function _ :: _ => some .plain
  | .member m :: .class c :: _ => some (.declared m c)
  | _ :: above => innermostCode? above
  | [] => none

end SyntaxNode

open SyntaxNode

/-- What `super` stands for in the innermost function or initializer. -/
def superUseIn : Option Code → SuperUse
  | none => .nothing
  | some code =>
    if code.mayCallSuper then .construction else if code.mayUseSuper then .member else .nothing

/-- What surrounds a node. -/
def SyntaxNode.scope (n : SyntaxNode) (above : List SyntaxNode) : ScopeContext :=
  ⟨(n.enclosingClass? above).map (·.site), superUseIn (innermostCode? above)⟩

/-- What there is to be found at a place. -/
def SyntaxNode.Place.findings : Place → List Finding
  | ⟨.expr e, above⟩ =>
    match e.form with
    | .slot a _ | .hasSlot _ a => Finding.ofAccessor ((expr e).scope above) e.id e.span a
    | .superCall _ => Finding.ofSuperCall ((expr e).scope above) e.span
    | .superMember _ => Finding.ofSuperMember ((expr e).scope above) e.span
    | _ => []
  | ⟨.class c, _⟩ => [.class c]
  | _ => []

/-! ### The walk, node by node -/

/-- What the walk finds in a tree that stands below the given nodes. A declaration is met in a
class. -/
def SyntaxNode.findings (above : List SyntaxNode) : SyntaxNode → List Finding
  | .stmt s => s.findings ((stmt s).scope above)
  | .expr e => e.findings ((expr e).scope above)
  | .accessor a => a.findings ((accessor a).scope above)
  | .function f =>
    f.findings ⟨((function f).enclosingClass? above).map (·.site),
      superUseIn (innermostCode? (.function f :: above))⟩
  | .class c => c.findings ((«class» c).scope above)
  | .member m =>
    match above with
    | .class c :: _ => m.form.findings c.site c.superclass.isSome
    | _ => []

section Walk

variable {context : ScopeContext}

/-- What the walk finds in a list of expressions. -/
theorem exprsFindings_eq (es : List Expr) :
    exprsFindings context es = es.flatMap (Expr.findings context) := by
  induction es with
  | nil => rfl
  | cons e rest ih => rw [exprsFindings, ih, List.flatMap_cons]

/-- What the walk finds in the properties of a literal. -/
theorem propertiesFindings_eq (ps : List Property) :
    propertiesFindings context ps = ps.flatMap (·.value.findings context) := by
  induction ps with
  | nil => rfl
  | cons p rest ih =>
    obtain ⟨name, value⟩ := p
    rw [propertiesFindings, ih, List.flatMap_cons]

/-- What the walk finds in a list of statements. -/
theorem stmtsFindings_eq (body : List Stmt) :
    stmtsFindings context body = body.flatMap (Stmt.findings context) := by
  induction body with
  | nil => rfl
  | cons s rest ih => rw [stmtsFindings, ih, List.flatMap_cons]

/-- What the walk finds in the members of a class. -/
theorem membersFindings_eq (site : ClassSite) (isDerived : Bool) (members : List Member) :
    membersFindings site isDerived members = members.flatMap (·.form.findings site isDerived) := by
  induction members with
  | nil => rfl
  | cons m rest ih =>
    obtain ⟨name, form, span⟩ := m
    rw [membersFindings, ih, List.flatMap_cons]

/-- What the walk finds in an expression that may be missing. -/
theorem optionalFindings_eq (e? : Option Expr) :
    optionalFindings context e? = e?.toList.flatMap (Expr.findings context) := by
  cases e? <;> simp [optionalFindings]

/-- What the walk finds in a constructor that may be missing. -/
theorem constructorFindings_eq (f? : Option FunctionDef) :
    constructorFindings context f? = f?.toList.flatMap (FunctionDef.findings context) := by
  cases f? <;> simp [constructorFindings]

end Walk

namespace SyntaxNode

variable {above : List SyntaxNode}

/-- Statements, expressions and accessors have around them what the nodes in them have. -/
def isTransparent : SyntaxNode → Bool
  | .stmt _ | .expr _ | .accessor _ => true
  | .function _ | .class _ | .member _ => false

/-- Below a node that opens no scope the scope is the same. -/
theorem scope_below {n : SyntaxNode} (hn : n.isTransparent = true) (k : SyntaxNode) :
    k.scope (n :: above) = n.scope above := by
  cases n <;> first | rfl | cases hn

section Transparent

variable {n : SyntaxNode} (hn : n.isTransparent = true)

include hn

/-- Below such a node a function is walked with the node's scope, and without `super`. -/
theorem findings_below_function (f : FunctionDef) :
    (function f).findings (n :: above) = f.findings ((n.scope above).withSuper .nothing) := by
  cases n <;> first | rfl | cases hn

/-- Below such a node an expression is walked with the node's scope. -/
theorem findings_below_expr (e : Expr) :
    (expr e).findings (n :: above) = e.findings (n.scope above) :=
  congrArg (Expr.findings · e) (scope_below hn _)

/-- Below such a node a statement is walked with the node's scope. -/
theorem findings_below_stmt (s : Stmt) :
    (stmt s).findings (n :: above) = s.findings (n.scope above) :=
  congrArg (Stmt.findings · s) (scope_below hn _)

/-- Below such a node an accessor is walked with the node's scope. -/
theorem findings_below_accessor (a : Accessor) :
    (accessor a).findings (n :: above) = a.findings (n.scope above) :=
  congrArg (Accessor.findings · a) (scope_below hn _)

/-- Below such a node a class is walked with the node's scope. -/
theorem findings_below_class (c : ClassDef) :
    («class» c).findings (n :: above) = c.findings (n.scope above) :=
  congrArg (ClassDef.findings · c) (scope_below hn _)

/-- Below such a node a list of expressions is walked with the node's scope. -/
theorem findings_below_exprs (es : List Expr) :
    (es.map SyntaxNode.expr).flatMap (findings (n :: above)) =
      exprsFindings (n.scope above) es := by
  rw [exprsFindings_eq, List.flatMap_map]
  exact List.flatMap_congr fun e _ => findings_below_expr hn e

/-- Below such a node the properties of a literal are walked with the node's scope. -/
theorem findings_below_properties (ps : List Property) :
    (ps.map (SyntaxNode.expr ·.value)).flatMap (findings (n :: above)) =
      propertiesFindings (n.scope above) ps := by
  rw [propertiesFindings_eq, List.flatMap_map]
  exact List.flatMap_congr fun p _ => findings_below_expr hn p.value

/-- Below such a node an expression that may be missing is walked with the node's scope. -/
theorem findings_below_optional (e? : Option Expr) :
    (e?.toList.map SyntaxNode.expr).flatMap (findings (n :: above)) =
      optionalFindings (n.scope above) e? := by
  rw [optionalFindings_eq, ← exprsFindings_eq, findings_below_exprs hn]

/-- Below such a node a list of statements is walked with the node's scope. -/
theorem findings_below_stmts (body : List Stmt) :
    (body.map SyntaxNode.stmt).flatMap (findings (n :: above)) =
      stmtsFindings (n.scope above) body := by
  rw [stmtsFindings_eq, List.flatMap_map]
  exact List.flatMap_congr fun s _ => findings_below_stmt hn s

end Transparent

/-- What the walk finds in a statement is found below it. -/
theorem findings_stmt (s : Stmt) :
    (stmt s).findings above = s.form.children.flatMap (findings (.stmt s :: above)) := by
  obtain ⟨form, span⟩ := s
  have hn : (stmt ⟨form, span⟩).isTransparent = true := rfl
  change Stmt.findings ((stmt ⟨form, span⟩).scope above) ⟨form, span⟩ = _
  rw [Stmt.findings]
  -- Every form lists its children in the order of the walk.
  cases form with
  | cond test yes no =>
    cases no <;> simp [StmtForm.findings, StmtForm.children, findings_below_expr hn,
      findings_below_stmt hn]
  | _ =>
    simp [StmtForm.findings, StmtForm.children, findings_below_expr hn,
      findings_below_stmt hn, findings_below_stmts hn, findings_below_optional hn,
      findings_below_function hn, findings_below_class hn]

/-- What the walk finds in an expression is found at it and below it. -/
theorem findings_expr (e : Expr) :
    ((expr e).findings above).Perm
      (Place.findings ⟨.expr e, above⟩ ++
        e.form.children.flatMap (findings (.expr e :: above))) := by
  obtain ⟨id, span, height, form⟩ := e
  have hn : (expr ⟨id, span, height, form⟩).isTransparent = true := rfl
  change (Expr.findings ((expr ⟨id, span, height, form⟩).scope above)
    ⟨id, span, height, form⟩).Perm _
  rw [Expr.findings]
  cases form with
  | slot a key =>
    cases key <;> simp [ExprForm.findings, ExprForm.children, Place.findings, SlotKey.children,
      SlotKey.findings, findings_below_expr hn, findings_below_accessor hn]
  | hasSlot key a =>
    -- the walk meets the key before the accessor
    simp only [ExprForm.findings, ExprForm.children, Place.findings, List.flatMap_cons,
      List.flatMap_nil, List.append_nil, findings_below_expr hn, findings_below_accessor hn,
      ← List.append_assoc]
    exact List.perm_append_comm.append_right _
  | _ =>
    simp [ExprForm.findings, ExprForm.children, Place.findings,
      findings_below_expr hn, findings_below_exprs hn, findings_below_properties hn,
      findings_below_function hn, findings_below_class hn]

/-- What the walk finds in an accessor is found below it. -/
theorem findings_accessor (a : Accessor) :
    (accessor a).findings above = a.children.flatMap (findings (.accessor a :: above)) := by
  cases a with
  | ofReceiver span | ofClass span => simp [findings, Accessor.findings, Accessor.children]
  | ofTarget span target =>
    rw [Accessor.children, List.flatMap_singleton, findings_below_expr rfl, findings,
      Accessor.findings]

/-- What the walk finds in a function is found in its body. -/
theorem findings_function (f : FunctionDef) :
    (function f).findings above =
      (f.body.map SyntaxNode.stmt).flatMap (findings (.function f :: above)) := by
  obtain ⟨site, name, kind, params, body, span, height⟩ := f
  rw [findings, FunctionDef.findings, stmtsFindings_eq]
  exact (List.flatMap_map SyntaxNode.stmt (findings (.function _ :: above)) body).symm

/-- What the walk finds in a class is the class, and what is found below it. -/
theorem findings_class (c : ClassDef) :
    ((«class» c).findings above).Perm
      (.class c :: c.children.flatMap (findings (.class c :: above))) := by
  have hsuper : (c.superclass.toList.map SyntaxNode.expr).flatMap (findings (.class c :: above)) =
      optionalFindings ((«class» c).scope above) c.superclass := by
    rw [optionalFindings_eq]
    exact List.flatMap_map SyntaxNode.expr _ _
  have hconstructor :
      (c.constructor.toList.map SyntaxNode.function).flatMap (findings (.class c :: above)) =
        constructorFindings (.inConstructor c.site c.superclass.isSome) c.constructor := by
    have hscope : superUseIn (some (.constructor c)) =
        if c.superclass.isSome then .construction else .nothing := by
      cases h : c.superclass <;> simp [superUseIn, Code.mayCallSuper, Code.mayUseSuper, h]
    rw [constructorFindings_eq, ScopeContext.inConstructor, ← hscope]
    exact List.flatMap_map SyntaxNode.function _ _
  have hmembers : (c.members.map SyntaxNode.member).flatMap (findings (.class c :: above)) =
      membersFindings c.site c.superclass.isSome c.members := by
    rw [membersFindings_eq]
    exact List.flatMap_map SyntaxNode.member _ _
  rw [ClassDef.children, List.flatMap_append, List.flatMap_append, hsuper, hconstructor, hmembers]
  obtain ⟨site, name, superclass, constructor, members, span, height⟩ := c
  rw [findings, ClassDef.findings]
  -- the walk meets the clause after `extends` before the class
  simp only [List.append_assoc]
  exact List.perm_middle

/-- A declaration in a class. -/
theorem findings_member (m : Member) (c : ClassDef) :
    (member m).findings (.class c :: above) =
      m.form.children.flatMap (findings (.member m :: .class c :: above)) := by
  have hmethod : ∀ f : FunctionDef, (function f).findings (.member m :: .class c :: above) =
      f.findings ⟨some c.site, superUseIn (some (.declared m c))⟩ := fun _ => rfl
  have hfield : ∀ e? : Option Expr,
      (e?.toList.map SyntaxNode.expr).flatMap (findings (.member m :: .class c :: above)) =
        optionalFindings ⟨some c.site, superUseIn (some (.declared m c))⟩ e? := by
    intro e?
    rw [optionalFindings_eq]
    exact List.flatMap_map SyntaxNode.expr _ _
  -- `super` may be used in an instance method of a class with a superclass
  have huse : superUseIn (some (.declared m c)) =
      if m.form.isInstanceMethod && c.superclass.isSome then .member else .nothing := rfl
  obtain ⟨name, form, span⟩ := m
  change MemberForm.findings c.site c.superclass.isSome form = _
  cases form <;> simp [MemberForm.findings, MemberForm.children, hmethod, hfield, huse,
    MemberForm.isInstanceMethod, ScopeContext.inMethod, ScopeContext.inClass]

/-! ### All places -/

/-- A declaration is in a class. -/
theorem exists_class_of_member {n : SyntaxNode} {m : Member} (h : .member m ∈ n.children) :
    ∃ c, n = .class c := by
  -- No other node has a member below it.
  cases n with
  | «class» c => exact ⟨c, rfl⟩
  | stmt s =>
    obtain ⟨form, span⟩ := s
    cases form <;> simp [children, StmtForm.children] at h
  | expr e =>
    obtain ⟨id, span, height, form⟩ := e
    cases form with
    | slot a key => cases key <;> simp [children, ExprForm.children, SlotKey.children] at h
    | _ => simp [children, ExprForm.children] at h
  | accessor a => cases a <;> simp [children, Accessor.children] at h
  | function f => simp [children] at h
  | member m =>
    obtain ⟨name, form, span⟩ := m
    cases form <;> simp [children, MemberForm.children] at h

/-- **The walk** finds in a tree what there is to be found at its places. -/
theorem findings_perm (n : SyntaxNode)
    (hmember : ∀ m, n = .member m → ∃ c rest, above = .class c :: rest) :
    (n.findings above).Perm ((n.places above).flatMap Place.findings) := by
  induction n using byChildren generalizing above with
  | node n ih =>
    -- below, the children are reordered already, each under the node itself
    have hbelow : (n.children.flatMap (findings (n :: above))).Perm
        ((n.children.flatMap (places (n :: above))).flatMap Place.findings) := by
      rw [List.flatMap_assoc]
      refine List.Perm.flatMap_left _ fun k hk => ih k hk fun m hm => ?_
      subst hm
      obtain ⟨c, rfl⟩ := exists_class_of_member hk
      exact ⟨c, above, rfl⟩
    rw [places_eq, List.flatMap_cons]
    refine List.Perm.trans ?_ (hbelow.append_left _)
    cases n with
    | stmt s => exact .of_eq (findings_stmt s)
    | expr e => exact findings_expr e
    | accessor a => exact .of_eq (findings_accessor a)
    | function f => exact .of_eq (findings_function f)
    | «class» c => exact findings_class c
    | member m =>
      obtain ⟨c, rest, rfl⟩ := hmember m rfl
      exact .of_eq (findings_member m c)

end SyntaxNode

/-- What the walk over a program meets is what there is to be found at its places. -/
theorem Program.findings_perm (p : Program) :
    p.findings.Perm (p.places.flatMap Place.findings) := by
  have htop : p.findings = (p.body.map SyntaxNode.stmt).flatMap (SyntaxNode.findings []) := by
    rw [Program.findings, stmtsFindings_eq]
    exact (List.flatMap_map SyntaxNode.stmt (SyntaxNode.findings []) p.body).symm
  rw [htop, Program.places, List.flatMap_assoc]
  refine List.Perm.flatMap_left _ fun n hn => SyntaxNode.findings_perm n fun m hm => ?_
  subst hm
  obtain ⟨s, -, hs⟩ := List.mem_map.mp hn
  cases hs

end Enclave
