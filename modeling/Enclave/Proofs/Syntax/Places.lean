import Enclave.Proofs.Syntax.Children

/-!
# Places in a tree

A place in a syntax tree is a node together with the nodes around it (`SyntaxNode.Place`), and
`SyntaxNode.places` lists all places in a tree, each node in front of those below it. So every node
is listed as often as the tree refers to it (`SyntaxNode.all`). What holds everywhere in a tree
holds of all that is listed, and the expressions listed are those of `Expr.nodes`.
-/

namespace Enclave

/-! ### Sizes -/

/-- What may be left out is smaller than the option. -/
theorem sizeOf_lt_of_mem_toList {α : Type} [SizeOf α] {x : α} {x? : Option α}
    (h : x ∈ x?.toList) : sizeOf x < sizeOf x? := by
  cases x? with
  | none => cases h
  | some y =>
    obtain rfl := List.mem_singleton.mp h
    rw [Option.some.sizeOf_spec]
    omega

section Sizes

variable {k : SyntaxNode}

/-- An expression of a list is no larger than the list. -/
theorem sizeOf_le_of_mem_exprs {es : List Expr} (h : k ∈ es.map .expr) : sizeOf k ≤ sizeOf es := by
  obtain ⟨e, he, rfl⟩ := List.mem_map.mp h
  have := List.sizeOf_lt_of_mem he
  rw [SyntaxNode.expr.sizeOf_spec]
  omega

/-- A statement of a list is no larger than the list. -/
theorem sizeOf_le_of_mem_stmts {body : List Stmt} (h : k ∈ body.map .stmt) :
    sizeOf k ≤ sizeOf body := by
  obtain ⟨s, hs, rfl⟩ := List.mem_map.mp h
  have := List.sizeOf_lt_of_mem hs
  rw [SyntaxNode.stmt.sizeOf_spec]
  omega

/-- An expression that may be missing is no larger than the option. -/
theorem sizeOf_le_of_mem_optional {e? : Option Expr} (h : k ∈ e?.toList.map .expr) :
    sizeOf k ≤ sizeOf e? := by
  obtain ⟨e, he, rfl⟩ := List.mem_map.mp h
  have := sizeOf_lt_of_mem_toList he
  rw [SyntaxNode.expr.sizeOf_spec]
  omega

/-- What is below an accessor is no larger than it. -/
theorem Accessor.sizeOf_child {a : Accessor} (h : k ∈ a.children) : sizeOf k ≤ sizeOf a := by
  cases a with
  | ofTarget span target =>
    obtain rfl := List.mem_singleton.mp h
    rw [SyntaxNode.expr.sizeOf_spec, Accessor.ofTarget.sizeOf_spec]
    omega
  | ofReceiver span => cases h
  | ofClass span => cases h

/-- What is below the key of a slot is no larger than it. -/
theorem SlotKey.sizeOf_child {key : SlotKey} (h : k ∈ key.children) : sizeOf k ≤ sizeOf key := by
  cases key with
  | computed e =>
    obtain rfl := List.mem_singleton.mp h
    simp
  | named name => cases h

/-- What is below a form of an expression is no larger than it. -/
theorem ExprForm.sizeOf_child {form : ExprForm} (h : k ∈ form.children) :
    sizeOf k ≤ sizeOf form := by
  cases form <;> simp only [ExprForm.children, List.mem_cons, List.not_mem_nil, or_false] at h
  case object properties =>
    obtain ⟨⟨name, e⟩, hp, rfl⟩ := List.mem_map.mp h
    have := List.sizeOf_lt_of_mem hp
    simp only [SyntaxNode.expr.sizeOf_spec, ExprForm.object.sizeOf_spec,
      Property.mk.sizeOf_spec] at *
    omega
  -- arguments and the parts of accessors are compared through their lists
  case call callee args | new callee args =>
    simp only [ExprForm.call.sizeOf_spec, ExprForm.new.sizeOf_spec]
    obtain rfl | h := h
    · rw [SyntaxNode.expr.sizeOf_spec]
      omega
    · have := sizeOf_le_of_mem_exprs h
      omega
  case slot accessor key =>
    rw [ExprForm.slot.sizeOf_spec]
    obtain rfl | h := h
    · rw [SyntaxNode.accessor.sizeOf_spec]
      omega
    · have := SlotKey.sizeOf_child h
      omega
  case superCall args =>
    have := sizeOf_le_of_mem_exprs h
    rw [ExprForm.superCall.sizeOf_spec]
    omega
  -- the others have their operands at fixed places
  all_goals
    obtain rfl | rfl := h <;> simp <;> omega

/-- What is below a form of a statement is no larger than it. -/
theorem StmtForm.sizeOf_child {form : StmtForm} (h : k ∈ form.children) :
    sizeOf k ≤ sizeOf form := by
  -- a form without children has none to compare, and is closed here
  cases form <;> simp only [StmtForm.children, List.mem_cons, List.not_mem_nil, or_false] at h
  case declare name isMutable initializer =>
    have := sizeOf_le_of_mem_optional h
    rw [StmtForm.declare.sizeOf_spec]
    omega
  case block body =>
    have := sizeOf_le_of_mem_stmts h
    rw [StmtForm.block.sizeOf_spec]
    omega
  -- the second branch may be missing, and is compared through a list
  case cond test yes no =>
    rw [StmtForm.cond.sizeOf_spec]
    obtain rfl | rfl | h := h
    · rw [SyntaxNode.expr.sizeOf_spec]
      omega
    · rw [SyntaxNode.stmt.sizeOf_spec]
      omega
    · obtain ⟨s, hs, rfl⟩ := List.mem_map.mp h
      have := sizeOf_lt_of_mem_toList hs
      rw [SyntaxNode.stmt.sizeOf_spec]
      omega
  case ret value =>
    have := sizeOf_le_of_mem_optional h
    rw [StmtForm.ret.sizeOf_spec]
    omega
  case attempt body param handler =>
    rw [StmtForm.attempt.sizeOf_spec]
    rcases List.mem_append.mp h with h | h
    · have := sizeOf_le_of_mem_stmts h
      omega
    · have := sizeOf_le_of_mem_stmts h
      omega
  all_goals
    obtain rfl | rfl := h <;> simp

/-- What is below a class is no larger than it. -/
theorem ClassDef.sizeOf_child {c : ClassDef} (h : k ∈ c.children) : sizeOf k ≤ sizeOf c := by
  obtain ⟨site, name, superclass, constructor, members, span, height⟩ := c
  rw [ClassDef.mk.sizeOf_spec]
  simp only [ClassDef.children, List.mem_append] at h
  -- Below a class stand its parent, its constructor and its members.
  obtain (h | h) | h := h
  · have := sizeOf_le_of_mem_optional h
    omega
  · obtain ⟨f, hf, rfl⟩ := List.mem_map.mp h
    have := sizeOf_lt_of_mem_toList hf
    rw [SyntaxNode.function.sizeOf_spec]
    omega
  · obtain ⟨m, hm, rfl⟩ := List.mem_map.mp h
    have := List.sizeOf_lt_of_mem hm
    rw [SyntaxNode.member.sizeOf_spec]
    omega

/-- What is below a form of a member is no larger than it. -/
theorem MemberForm.sizeOf_child {form : MemberForm} (h : k ∈ form.children) :
    sizeOf k ≤ sizeOf form := by
  cases form <;> simp only [MemberForm.children, List.mem_cons, List.not_mem_nil, or_false] at h
  case privateField initializer | staticField initializer =>
    have := sizeOf_le_of_mem_optional h
    simp only [MemberForm.privateField.sizeOf_spec, MemberForm.staticField.sizeOf_spec]
    omega
  all_goals
    subst h
    simp

end Sizes

namespace SyntaxNode

/-- What is below a node is smaller. -/
theorem sizeOf_child {n k : SyntaxNode} (h : k ∈ n.children) : sizeOf k < sizeOf n := by
  -- A node is larger than its form, and its form at least as large as what is below.
  cases n with
  | stmt s =>
    obtain ⟨form, span⟩ := s
    have := StmtForm.sizeOf_child h
    simp only [stmt.sizeOf_spec, Stmt.mk.sizeOf_spec] at *
    omega
  | expr e =>
    obtain ⟨id, span, height, form⟩ := e
    have := ExprForm.sizeOf_child h
    simp only [expr.sizeOf_spec, Expr.mk.sizeOf_spec] at *
    omega
  -- the others have no region or height of their own to take apart
  | accessor a =>
    have := Accessor.sizeOf_child h
    rw [accessor.sizeOf_spec]
    omega
  | function f =>
    obtain ⟨site, name, kind, params, body, span, height⟩ := f
    have := sizeOf_le_of_mem_stmts h
    simp only [function.sizeOf_spec, FunctionDef.mk.sizeOf_spec] at *
    omega
  | «class» c =>
    have := ClassDef.sizeOf_child h
    rw [class.sizeOf_spec]
    omega
  | member m =>
    obtain ⟨name, form, span⟩ := m
    have := MemberForm.sizeOf_child h
    simp only [member.sizeOf_spec, Member.mk.sizeOf_spec] at *
    omega

/-- **Induction over a tree**, from the children of a node to the node. -/
@[elab_as_elim]
theorem byChildren {motive : SyntaxNode → Prop}
    (node : ∀ n, (∀ k ∈ n.children, motive k) → motive n) (n : SyntaxNode) : motive n :=
  node n fun k _hk => byChildren node k
termination_by sizeOf n
decreasing_by exact sizeOf_child _hk

/-! ### Places -/

/-- A node and the nodes around it, from the innermost one outwards. -/
structure Place where
  node : SyntaxNode
  above : List SyntaxNode

/-- The places in a tree that stands below the given nodes. -/
def places (above : List SyntaxNode) (n : SyntaxNode) : List Place :=
  ⟨n, above⟩ :: n.children.attach.flatMap fun k => k.val.places (n :: above)
termination_by sizeOf n
decreasing_by exact sizeOf_child k.property

/-- The places in a tree: its root, and the places below each child. -/
theorem places_eq (above : List SyntaxNode) (n : SyntaxNode) :
    n.places above = ⟨n, above⟩ :: n.children.flatMap (places (n :: above)) := by
  rw [places, List.flatMap_subtype (g := places (n :: above)) fun _ _ => rfl, List.unattach_attach]

/-- A node and all nodes below it. -/
def all (n : SyntaxNode) : List SyntaxNode := (n.places []).map (·.node)

/-- The nodes at the places are the nodes of the tree. -/
theorem node_places (above : List SyntaxNode) (n : SyntaxNode) :
    (n.places above).map (·.node) = n.all := by
  induction n using byChildren generalizing above with
  | node n ih =>
    have hbelow : ∀ above, (n.places above).map (·.node) = n :: n.children.flatMap all := by
      intro above
      rw [places_eq, List.map_cons, List.map_flatMap]
      exact congrArg (n :: ·) (List.flatMap_congr fun k hk => ih k hk _)
    rw [hbelow, all, hbelow]

/-- The nodes of a tree: its root, and the nodes below each child. -/
theorem all_eq (n : SyntaxNode) : n.all = n :: n.children.flatMap all := by
  rw [all, places_eq, List.map_cons, List.map_flatMap]
  exact congrArg (n :: ·) (List.flatMap_congr fun k _ => node_places _ k)

/-- What holds everywhere in a tree holds at its root. -/
theorem Everywhere.here {P : SyntaxNode → Prop} {n : SyntaxNode} (h : n.Everywhere P) : P n := by
  cases h with
  | intro here _ => exact here

/-- What holds everywhere in a tree holds everywhere below each of its nodes. -/
theorem Everywhere.of_mem {P : SyntaxNode → Prop} {n k : SyntaxNode} (h : n.Everywhere P)
    (hk : k ∈ n.all) : k.Everywhere P := by
  induction h with
  | @intro n here below ih =>
    rw [all_eq] at hk
    rcases List.mem_cons.mp hk with rfl | hk
    · exact .intro here below
    · obtain ⟨child, hchild, hk⟩ := List.mem_flatMap.mp hk
      exact ih child hchild hk

/-! ### Expressions -/

/-- The expression that a node is. -/
def expr? : SyntaxNode → Option Expr
  | .expr e => some e
  | _ => none

/-- The expressions in a tree. -/
def exprs : SyntaxNode → List Expr
  | .stmt s => s.nodes
  | .expr e => e.nodes
  | .accessor a => a.nodes
  | .function f => f.nodes
  | .class c => c.nodes
  | .member m => m.form.nodes

end SyntaxNode

open SyntaxNode

/-- The expressions in a list of expressions, node by node. -/
theorem exprsNodes_eq (es : List Expr) :
    exprsNodes es = (es.map SyntaxNode.expr).flatMap exprs := by
  induction es with
  | nil => rfl
  | cons e rest ih => rw [exprsNodes, ih, List.map_cons, List.flatMap_cons, exprs]

/-- The expressions in the properties of a literal, node by node. -/
theorem propertiesNodes_eq (ps : List Property) :
    propertiesNodes ps = (ps.map (SyntaxNode.expr ·.value)).flatMap exprs := by
  induction ps with
  | nil => rfl
  | cons p rest ih =>
    obtain ⟨name, value⟩ := p
    rw [propertiesNodes, ih, List.map_cons, List.flatMap_cons, exprs]

/-- The expressions in a list of statements, node by node. -/
theorem stmtsNodes_eq (body : List Stmt) :
    stmtsNodes body = (body.map SyntaxNode.stmt).flatMap exprs := by
  induction body with
  | nil => rfl
  | cons s rest ih => rw [stmtsNodes, ih, List.map_cons, List.flatMap_cons, exprs]

/-- The expressions in the members of a class, node by node. -/
theorem membersNodes_eq (members : List Member) :
    membersNodes members = (members.map SyntaxNode.member).flatMap exprs := by
  induction members with
  | nil => rfl
  | cons m rest ih =>
    obtain ⟨name, form, span⟩ := m
    rw [membersNodes, ih, List.map_cons, List.flatMap_cons, exprs]

/-- The expressions in an expression that may be missing. -/
theorem optionalNodes_eq (e? : Option Expr) :
    optionalNodes e? = (e?.toList.map SyntaxNode.expr).flatMap exprs := by
  cases e? <;> simp [optionalNodes, exprs]

/-- The expressions in a constructor that may be missing. -/
theorem constructorNodes_eq (f? : Option FunctionDef) :
    constructorNodes f? = (f?.toList.map SyntaxNode.function).flatMap exprs := by
  cases f? <;> simp [constructorNodes, exprs]

/-- The expressions below a form of an expression, child by child. -/
theorem ExprForm.inner_eq (form : ExprForm) : form.inner = form.children.flatMap exprs := by
  cases form with
  | slot accessor key =>
    cases key <;> simp [ExprForm.inner, ExprForm.children, SlotKey.children, SlotKey.nodes, exprs]
  | _ =>
    simp [ExprForm.inner, ExprForm.children, exprs, exprsNodes_eq, propertiesNodes_eq]

/-- The expressions below a form of a statement, child by child. -/
theorem StmtForm.nodes_eq (form : StmtForm) : form.nodes = form.children.flatMap exprs := by
  cases form with
  | cond test yes no => cases no <;> simp [StmtForm.nodes, StmtForm.children, exprs]
  | _ => simp [StmtForm.nodes, StmtForm.children, exprs, stmtsNodes_eq, optionalNodes_eq]

namespace SyntaxNode

/-- The expressions in a tree: its root, if it is one, and those below each child. -/
theorem exprs_eq (n : SyntaxNode) : n.exprs = n.expr?.toList ++ n.children.flatMap exprs := by
  -- each kind of node lists its children the way it lists the expressions below it
  cases n with
  | stmt s =>
    obtain ⟨form, span⟩ := s
    rw [exprs, Stmt.nodes, StmtForm.nodes_eq]
    rfl
  | expr e =>
    rw [exprs, Expr.nodes_eq, ExprForm.inner_eq]
    rfl
  | accessor a => cases a <;> simp [exprs, children, Accessor.nodes, Accessor.children, expr?]
  | function f =>
    obtain ⟨site, name, kind, params, body, span, height⟩ := f
    rw [exprs, FunctionDef.nodes, stmtsNodes_eq]
    rfl
  -- the superclass, the constructor and the members come in that order in both
  | «class» c =>
    obtain ⟨site, name, superclass, constructor, members, span, height⟩ := c
    rw [exprs, ClassDef.nodes, optionalNodes_eq, constructorNodes_eq, membersNodes_eq,
      ← List.flatMap_append, ← List.flatMap_append]
    rfl
  | member m =>
    obtain ⟨name, form, span⟩ := m
    cases form <;>
      simp [exprs, children, MemberForm.nodes, MemberForm.children, expr?, optionalNodes_eq]

/-- The expressions in a tree are those among its nodes. -/
theorem exprs_eq_filterMap (n : SyntaxNode) : n.exprs = n.all.filterMap expr? := by
  induction n using byChildren with
  | node n ih =>
    rw [exprs_eq, all_eq, List.filterMap_cons, List.filterMap_flatMap, List.flatMap_congr ih]
    cases n.expr? <;> rfl

end SyntaxNode

/-- The places in a program. -/
def Program.places (p : Program) : List Place :=
  (p.body.map SyntaxNode.stmt).flatMap (SyntaxNode.places [])

/-- The nodes of a program. -/
def Program.nodes (p : Program) : List SyntaxNode := (p.body.map SyntaxNode.stmt).flatMap all

end Enclave
