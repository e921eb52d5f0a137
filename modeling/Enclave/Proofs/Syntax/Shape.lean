import Enclave.Proofs.Syntax.Grammar
import Mathlib.Order.Bounds.Defs
import Mathlib.Order.Nat

/-!
# The shape of programs

In a program that was read the heights are right: each is the greatest number of levels on any path
down from its node (`SyntaxNode.isGreatest_height`), where statements, expressions, functions and
classes make up a level each. So heights decrease on the way down, and none is beyond the limit,
not even where it is not kept with the node, as with statements.

With the numbers, which are those that were handed out, this is the whole shape of a program
(`Program.isForest_of_read`): what hangs off its statements are trees that share nothing, and no
node was made in vain.
-/

namespace Enclave

/-! ### The greatest of some heights -/

theorem greatest_append (a b : List Nat) : greatest (a ++ b) = max (greatest a) (greatest b) := by
  induction a with
  | nil => exact (Nat.zero_max _).symm
  | cons x a ih =>
    change max x (greatest (a ++ b)) = max (max x (greatest a)) (greatest b)
    rw [ih, Nat.max_assoc]

theorem le_greatest {x : Nat} {xs : List Nat} (h : x ∈ xs) : x ≤ greatest xs := by
  induction xs with
  | nil => cases h
  | cons y xs ih =>
    change x ≤ max y (greatest xs)
    rcases List.mem_cons.mp h with rfl | h
    · exact Nat.le_max_left _ _
    · exact (ih h).trans (Nat.le_max_right _ _)

/-- Unless there is none, it is one of them. -/
theorem greatest_eq_zero_or_mem (xs : List Nat) : greatest xs = 0 ∨ greatest xs ∈ xs := by
  induction xs with
  | nil => exact .inl rfl
  | cons x xs ih =>
    change max x (greatest xs) = 0 ∨ max x (greatest xs) ∈ x :: xs
    -- The first is the greatest, or the greatest is behind it.
    rcases Nat.le_total x (greatest xs) with hle | hle
    · rw [Nat.max_eq_right hle]
      exact ih.imp id (List.mem_cons_of_mem x)
    · rw [Nat.max_eq_left hle]
      exact .inr List.mem_cons_self

theorem heightOfAll_eq (body : List Stmt) : heightOfAll body = greatest (body.map Stmt.height) := by
  induction body with
  | nil => rfl
  | cons s body ih => rw [heightOfAll, ih, List.map_cons, greatest, greatest, List.foldr_cons]

namespace SyntaxNode

/-! ### Levels -/

/-- The levels that a node makes up; accessors and declarations are part of the node around them. -/
def level : SyntaxNode → Nat
  | .stmt _ | .expr _ | .function _ | .class _ => 1
  | .accessor _ | .member _ => 0

/-- The height of a node: what is kept with it, or what is computed from it. -/
def height : SyntaxNode → Nat
  | .stmt s => s.height
  | .expr e => e.height
  | .accessor a => a.heightBelow
  | .function f => f.height
  | .class c => c.height
  | .member m => m.form.heightBelow

/-- From a node a path leads down over so many levels. -/
inductive Path : SyntaxNode → Nat → Prop
  | here (n : SyntaxNode) : Path n n.level
  | down {n k : SyntaxNode} {levels : Nat} (child : k ∈ n.children) (path : Path k levels) :
    Path n (n.level + levels)

variable {n k : SyntaxNode}

theorem heightBelow_exprForm (form : ExprForm) :
    form.heightBelow = greatest (form.children.map height) := by
  have hargs : ∀ es : List Expr, es.map (·.height) = (es.map SyntaxNode.expr).map height :=
    fun es => (List.map_map (f := SyntaxNode.expr) (g := height)).symm
  -- Forms with lists of children first; all others have one or two.
  cases form with
  | object properties =>
    exact congrArg greatest
      (List.map_map (f := fun p : Property => SyntaxNode.expr p.value) (g := height)).symm
  | call callee args | new callee args =>
    exact congrArg (max callee.height <| greatest ·) (hargs args)
  | superCall args => exact congrArg greatest (hargs args)
  | slot accessor key =>
    cases key <;> simp [ExprForm.heightBelow, ExprForm.children, SlotKey.heightBelow,
      SlotKey.children, greatest, height]
  | _ => simp [ExprForm.heightBelow, ExprForm.children, greatest, height]

theorem heightBelow_optional (e? : Option Expr) :
    initializerHeight e? = greatest ((e?.toList.map SyntaxNode.expr).map height) := by
  cases e? <;> simp [initializerHeight, greatest, height]

theorem heightBelow_stmts (body : List Stmt) :
    heightOfAll body = greatest ((body.map SyntaxNode.stmt).map height) := by
  rw [heightOfAll_eq]
  exact congrArg greatest (List.map_map (f := SyntaxNode.stmt) (g := height)).symm

theorem heightBelow_stmtForm (form : StmtForm) :
    form.heightBelow = greatest (form.children.map height) := by
  cases form with
  | declare name isMutable initializer => exact heightBelow_optional initializer
  | ret value => exact heightBelow_optional value
  | block body => exact heightBelow_stmts body
  -- both blocks count
  | attempt body param handler =>
    rw [StmtForm.heightBelow, StmtForm.children, List.map_append, greatest_append,
      heightBelow_stmts, heightBelow_stmts]
  | cond test yes no =>
    cases no <;> simp [StmtForm.heightBelow, StmtForm.children, greatest, height, Nat.max_assoc]
  | _ => simp [StmtForm.heightBelow, StmtForm.children, greatest, height]

theorem heightBelow_class (c : ClassDef) :
    classHeightBelow c.superclass c.constructor c.members =
      greatest (c.children.map height) := by
  have hconstructor : c.constructor.elim 0 (·.height) =
      greatest ((c.constructor.toList.map SyntaxNode.function).map height) := by
    cases c.constructor <;> simp [greatest, height]
  have hmembers : c.members.map (·.form.heightBelow) =
      (c.members.map SyntaxNode.member).map height :=
    (List.map_map (f := SyntaxNode.member) (g := height)).symm
  rw [classHeightBelow, heightBelow_optional, hconstructor, hmembers, ClassDef.children,
    List.map_append, List.map_append, greatest_append, greatest_append, Nat.max_assoc]

/-- The height of a node is that of its children and the level of its own. -/
theorem height_eq (h : n.IsMade) : n.height = n.level + greatest (n.children.map height) := by
  cases n with
  | stmt s =>
    obtain ⟨form, span⟩ := s
    exact (Stmt.height.eq_1 form span).trans (congrArg (1 + ·) (heightBelow_stmtForm form))
  | expr e => exact h.2.1.trans (congrArg (1 + ·) (heightBelow_exprForm e.form))
  -- an accessor and a member add no level of their own
  | accessor a => cases a <;> simp [height, level, children, Accessor.children,
      Accessor.heightBelow, greatest]
  | function f => exact h.1.trans (congrArg (1 + ·) (heightBelow_stmts f.body))
  | «class» c => exact h.1.trans (congrArg (1 + ·) (heightBelow_class c))
  | member m =>
    obtain ⟨name, form, span⟩ := m
    cases form with
    | privateField initializer | staticField initializer =>
      exact (heightBelow_optional initializer).trans (Nat.zero_add _).symm
    | _ => simp [height, level, children, MemberForm.children, MemberForm.heightBelow, greatest]

theorem height_child (h : n.IsMade) (hk : k ∈ n.children) : n.level + k.height ≤ n.height := by
  rw [height_eq h]
  exact Nat.add_le_add_left (le_greatest (List.mem_map_of_mem hk)) _

/-- **Heights.** The height of a node is the number of levels on a longest path down from it. -/
theorem isGreatest_height (h : n.Everywhere IsMade) :
    IsGreatest {levels | n.Path levels} n.height := by
  induction h with
  | @intro n here below ih =>
    refine ⟨?_, ?_⟩
    · -- a longest path below the highest child, unless there are only nodes without height
      rw [height_eq here]
      rcases greatest_eq_zero_or_mem (n.children.map height) with hzero | hmem
      · rw [hzero]
        exact .here n
      · obtain ⟨k, hk, hheight⟩ := List.mem_map.mp hmem
        rw [← hheight]
        exact .down hk (ih k hk).1
    · intro levels hpath
      cases hpath with
      | here =>
        rw [height_eq here]
        exact Nat.le_add_right _ _
      | down hk hpath =>
        exact (Nat.add_le_add_left ((ih _ hk).2 hpath) _).trans (height_child here hk)

/-- No node is higher than one above it. -/
theorem height_le (h : n.Everywhere IsMade) : ∀ k ∈ n.all, k.height ≤ n.height := by
  -- Down the tree: a child is lower than its node.
  induction h with
  | @intro n here below ih =>
    intro k hk
    rw [all_eq] at hk
    rcases List.mem_cons.mp hk with rfl | hk
    · exact Nat.le_refl _
    · obtain ⟨child, hchild, hk⟩ := List.mem_flatMap.mp hk
      exact (ih child hchild k hk).trans
        ((Nat.le_add_left _ _).trans (height_child here hchild))

/-- Nodes that make up a level are higher than those below them. -/
theorem height_lt (h : n.Everywhere IsMade) (hlevel : n.level = 1) :
    ∀ k ∈ n.children.flatMap all, k.height < n.height := by
  obtain ⟨here, below⟩ := h
  intro k hk
  obtain ⟨child, hchild, hk⟩ := List.mem_flatMap.mp hk
  have hle := height_le (below child hchild) k hk
  have hchild := height_child here hchild
  omega

theorem height_le_maxNesting (h : n.Everywhere IsMade) : n.height ≤ maxNesting := by
  induction h with
  | @intro n here below ih =>
    have hlevel : n.level = 1 ∨ n.level = 0 := by cases n <;> simp [level]
    -- a node with a level is checked where it is made; another is as high as a child
    rcases hlevel with hlevel | hlevel
    · cases n with
      | stmt s => exact here
      | expr e => exact here.2.2
      | function f => exact here.2
      | «class» c => exact here.2
      | accessor a => cases hlevel
      | member m => cases hlevel
    · rw [height_eq here, hlevel, Nat.zero_add]
      rcases greatest_eq_zero_or_mem (n.children.map height) with hzero | hmem
      · rw [hzero]
        exact Nat.zero_le _
      · obtain ⟨k, hk, hheight⟩ := List.mem_map.mp hmem
        rw [← hheight]
        exact ih k hk

end SyntaxNode

open SyntaxNode

/-! ### Programs -/

/-- What it is for a program to be a forest of the nodes that were made while reading it. -/
structure Program.IsForest (p : Program) : Prop where
  /-- The statements lead to each expression that was made, once. -/
  exprs : (p.nodes.filterMap exprIndex?).Perm (List.range p.exprCount)
  /-- The statements lead to each function that was made, once. -/
  functions : (p.nodes.filterMap functionIndex?).Perm (List.range p.functionCount)
  /-- The statements lead to each class that was made, once. -/
  classes : (p.nodes.filterMap classIndex?).Perm (List.range p.classCount)
  /-- Heights are the lengths of longest paths. -/
  heights : ∀ n ∈ p.nodes, IsGreatest {levels | n.Path levels} n.height
  /-- A statement, expression, function or class is higher than all that is below it. -/
  decreasing : ∀ n ∈ p.nodes, n.level = 1 → ∀ k ∈ n.children.flatMap all, k.height < n.height
  /-- Nothing is too high. -/
  bounded : ∀ n ∈ p.nodes, n.height ≤ maxNesting

/-- **Shape.** A program that was read is a forest of the nodes that were made for it. -/
theorem Program.isForest_of_read {source : List UInt8} {p : Program} (h : read source = .ok p) :
    p.IsForest := by
  obtain ⟨hexprs, hfunctions, hclasses, hmade⟩ := read_numbers h
  exact ⟨hexprs, hfunctions, hclasses, fun n hn => isGreatest_height (hmade n hn),
    fun n hn => height_lt (hmade n hn), fun n hn => height_le_maxNesting (hmade n hn)⟩

/-- The numbers of a program in words of thirty-two bits are still each one's own, if there are no
more of them than words. -/
theorem nodup_words {indices : List Nat} {count : Nat} (h : indices.Perm (List.range count))
    (hcount : count ≤ UInt32.size) : (indices.map UInt32.ofNat).Nodup := by
  refine (h.nodup_iff.mpr List.nodup_range).map_on fun i hi j hj heq => ?_
  have hi := Nat.lt_of_lt_of_le (List.mem_range.mp (h.mem_iff.mp hi)) hcount
  have hj := Nat.lt_of_lt_of_le (List.mem_range.mp (h.mem_iff.mp hj)) hcount
  have hwords := congrArg UInt32.toNat heq
  rwa [UInt32.toNat_ofNat_of_lt' hi, UInt32.toNat_ofNat_of_lt' hj] at hwords

/-- So words of thirty-two bits do for the numbers of nodes, unless there are more than `2 ^ 32`
expressions, functions or classes. -/
theorem Program.IsForest.words {p : Program} (h : p.IsForest) :
    (p.exprCount ≤ UInt32.size → ((p.nodes.filterMap exprIndex?).map UInt32.ofNat).Nodup) ∧
    (p.functionCount ≤ UInt32.size → ((p.nodes.filterMap functionIndex?).map UInt32.ofNat).Nodup) ∧
    (p.classCount ≤ UInt32.size → ((p.nodes.filterMap classIndex?).map UInt32.ofNat).Nodup) :=
  ⟨nodup_words h.exprs, nodup_words h.functions, nodup_words h.classes⟩

/-- Functions in classes in functions, with an accessor on the way. -/
def nestedSource : List UInt8 :=
  ("function f() \x7b class A \x7b static m = (new f()); " ++
    "m() \x7b return !private(f).k; \x7d \x7d \x7d").toUTF8.toList

theorem Program.isForest_nestedSource : ∃ p, Program.read nestedSource = .ok p ∧
    (p.exprCount, p.functionCount, p.classCount, p.body.map Stmt.height) = (5, 2, 1, [9]) ∧
    p.IsForest := by
  -- Evaluated once, for the counts and the height.
  have hread : (Program.read nestedSource).toOption.map (fun p =>
      (p.exprCount, p.functionCount, p.classCount, p.body.map Stmt.height)) =
        some (5, 2, 1, [9]) := by
    decide +kernel
  cases h : Program.read nestedSource with
  | error errors =>
    rw [h] at hread
    cases hread
  | ok p =>
    rw [h] at hread
    exact ⟨p, rfl, Option.some.inj hread, isForest_of_read h⟩

end Enclave
