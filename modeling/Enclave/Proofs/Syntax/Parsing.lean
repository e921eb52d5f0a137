import Enclave.Proofs.Syntax.Places
import Enclave.Syntax.Reading
import Mathlib.Data.List.Perm.Basic

/-!
# What parsers keep

The expressions, functions and classes that have been read have the numbers that were handed out,
each its own, and each node is made as it should be (`Cursor.Tracks`). A parser that is given some
nodes and gives a tree `Yields` if this is kept, with the nodes of the tree in place of those it was
given, whatever else has been read before. The rules for `Yields` follow the way in which parsers
are composed.
-/

namespace Enclave

namespace SyntaxNode

/-- How a node is made: `delete` and assignments have operands that fit them, and heights are one
more than those below and within the limit. -/
def IsMade : SyntaxNode → Prop
  | .stmt s => s.height ≤ maxNesting
  | .expr e => e.form.IsProper ∧ e.height = 1 + e.form.heightBelow ∧ e.height ≤ maxNesting
  | .accessor _ | .member _ => True
  | .function f => f.height = 1 + heightOfAll f.body ∧ f.height ≤ maxNesting
  | .class c =>
    c.height = 1 + classHeightBelow c.superclass c.constructor c.members ∧ c.height ≤ maxNesting

/-- The number of a node that is an expression. -/
def exprIndex? : SyntaxNode → Option Nat
  | .expr e => some e.id.index
  | _ => none

/-- The number of a node that is a function. -/
def functionIndex? : SyntaxNode → Option Nat
  | .function f => some f.site.index
  | _ => none

/-- The number of a node that is a class. -/
def classIndex? : SyntaxNode → Option Nat
  | .class c => some c.site.index
  | _ => none

def HasNoNumber (n : SyntaxNode) : Prop :=
  n.exprIndex? = none ∧ n.functionIndex? = none ∧ n.classIndex? = none

/-- The numbers of one kind in some trees. -/
def indices (index? : SyntaxNode → Option Nat) (nodes : List SyntaxNode) : List Nat :=
  (nodes.flatMap all).filterMap index?

variable {index? : SyntaxNode → Option Nat}

/-- The numbers of some nodes do not depend on their order. -/
theorem indices_perm {nodes nodes' : List SyntaxNode} (h : nodes.Perm nodes') :
    (indices index? nodes).Perm (indices index? nodes') :=
  (h.flatMap_right all).filterMap index?

/-- The next number goes with those before it. -/
theorem perm_range_succ {is : List Nat} {i : Nat} (h : is.Perm (List.range i)) :
    (i :: is).Perm (List.range (i + 1)) := by
  rw [List.range_succ]
  exact (h.cons i).trans (List.perm_append_singleton i _).symm

/-- The number of a node is in front of those below it. -/
theorem indices_cons (n : SyntaxNode) (rest : List SyntaxNode) :
    indices index? (n :: rest) = (index? n).toList ++ indices index? (n.children ++ rest) := by
  rw [indices, List.flatMap_cons, all_eq, List.cons_append, List.filterMap_cons, indices,
    List.flatMap_append]
  cases index? n <;> rfl

end SyntaxNode

open SyntaxNode

/-- What numbers have been handed out. -/
def Cursor.numbers (c : Cursor) : Nat × Nat × Nat := (c.exprs, c.functions, c.classes)

/-- The nodes that have been read so far. -/
structure Cursor.Tracks (c : Cursor) (nodes : List SyntaxNode) : Prop where
  exprs : (indices exprIndex? nodes).Perm (List.range c.exprs)
  functions : (indices functionIndex? nodes).Perm (List.range c.functions)
  classes : (indices classIndex? nodes).Perm (List.range c.classes)
  made : ∀ n ∈ nodes, n.Everywhere IsMade

namespace Cursor.Tracks

variable {c c' : Cursor} {nodes nodes' : List SyntaxNode}

/-- The order in which nodes are tracked does not matter. -/
theorem perm (h : c.Tracks nodes) (hperm : nodes.Perm nodes') : c.Tracks nodes' where
  exprs := (indices_perm hperm.symm).trans h.exprs
  functions := (indices_perm hperm.symm).trans h.functions
  classes := (indices_perm hperm.symm).trans h.classes
  made n hn := h.made n (hperm.mem_iff.mpr hn)

/-- Only the numbers handed out matter to what is tracked. -/
theorem of_numbers (h : c.Tracks nodes) (hnumbers : c'.numbers = c.numbers) : c'.Tracks nodes := by
  obtain ⟨hexprs, hfunctions, hclasses⟩ : c'.exprs = c.exprs ∧ c'.functions = c.functions ∧
      c'.classes = c.classes := by
    simpa [numbers] using hnumbers
  obtain ⟨exprs, functions, classes, made⟩ := h
  exact ⟨hexprs ▸ exprs, hfunctions ▸ functions, hclasses ▸ classes, made⟩

/-- A node from its children, with the number that is handed out to it. -/
theorem node {n : SyntaxNode} {rest : List SyntaxNode} (h : c.Tracks (n.children ++ rest))
    (hmade : n.IsMade)
    (hexprs : ∀ is, is.Perm (List.range c.exprs) →
      (n.exprIndex?.toList ++ is).Perm (List.range c'.exprs))
    (hfunctions : ∀ is, is.Perm (List.range c.functions) →
      (n.functionIndex?.toList ++ is).Perm (List.range c'.functions))
    (hclasses : ∀ is, is.Perm (List.range c.classes) →
      (n.classIndex?.toList ++ is).Perm (List.range c'.classes)) : c'.Tracks (n :: rest) where
  exprs := indices_cons n rest ▸ hexprs _ h.exprs
  functions := indices_cons n rest ▸ hfunctions _ h.functions
  classes := indices_cons n rest ▸ hclasses _ h.classes
  made k hk := by
    rcases List.mem_cons.mp hk with rfl | hk
    · exact .intro hmade fun k hk => h.made k (List.mem_append_left rest hk)
    · exact h.made k (List.mem_append_right _ hk)

/-- A node that has no number. -/
theorem wrap {n : SyntaxNode} {rest : List SyntaxNode} (h : c.Tracks (n.children ++ rest))
    (hmade : n.IsMade) (hnumber : n.HasNoNumber) : c.Tracks (n :: rest) :=
  h.node hmade (fun _ h => hnumber.1 ▸ h) (fun _ h => hnumber.2.1 ▸ h) fun _ h => hnumber.2.2 ▸ h

end Cursor.Tracks

namespace Parser

variable {α β : Type}

/-- The parser hands out no numbers. -/
def Quiet (p : Parser α) : Prop := ∀ c a c', p c = .ok a c' → c'.numbers = c.numbers

/-- The parser puts the nodes of its result in place of some that were read before. -/
def Yields (p : Parser α) (before : List SyntaxNode) (after : α → List SyntaxNode) : Prop :=
  ∀ rest c a c', c.Tracks (before ++ rest) → p c = .ok a c' → c'.Tracks (after a ++ rest)

/-! ### Rules -/

/-- A parser that goes on behind another one is run on the cursor that this leaves. -/
theorem bind_eq_ok {p : Parser α} {f : α → Parser β} {c c'' : Cursor} {b : β}
    (h : (p >>= f) c = .ok b c'') : ∃ a c', p c = .ok a c' ∧ f a c' = .ok b c'' := by
  change EStateM.bind p f c = _ at h
  unfold EStateM.bind at h
  split at h
  · next a c' hp => exact ⟨a, c', hp, h⟩
  · cases h

/-- A quiet parser hands out no numbers: giving a value is quiet, -/
theorem Quiet.pure (a : α) : Quiet (pure a : Parser α) := by
  rintro c _ _ ⟨⟩
  rfl

/-- and so are two quiet parsers in turn, -/
theorem Quiet.bind {p : Parser α} {f : α → Parser β} (hp : Quiet p) (hf : ∀ a, Quiet (f a)) :
    Quiet (p >>= f) := by
  intro c b c'' h
  obtain ⟨a, c', hpc, hfc⟩ := bind_eq_ok h
  exact (hf a c' b c'' hfc).trans (hp c a c' hpc)

/-- and the choice of one of them. -/
theorem Quiet.ite {p q : Parser α} {P : Prop} [Decidable P] (hp : Quiet p) (hq : Quiet q) :
    Quiet (if P then p else q) := by
  split
  · exact hp
  · exact hq

/-- A value gives back the nodes that it was given, in any order. -/
theorem Yields.pure {before : List SyntaxNode} {after : α → List SyntaxNode} {a : α}
    (h : before.Perm (after a)) : Yields (pure a : Parser α) before after := by
  rintro rest c _ _ htracks ⟨⟩
  exact htracks.perm (h.append_right rest)

/-- The nodes in the middle are handed on. -/
theorem Yields.bind {p : Parser α} {f : α → Parser β} {before : List SyntaxNode}
    {middle : α → List SyntaxNode} {after : β → List SyntaxNode} (hp : Yields p before middle)
    (hf : ∀ a, Yields (f a) (middle a) after) : Yields (p >>= f) before after := by
  intro rest c b c'' htracks h
  obtain ⟨a, c', hpc, hfc⟩ := bind_eq_ok h
  exact hf a rest c' b c'' (hp rest c a c' htracks hpc) hfc

/-- What was read before stays as it is while something is read beside it. -/
theorem Yields.beside {p : Parser α} {before : List SyntaxNode} {after : α → List SyntaxNode}
    (hp : Yields p before after) (others : List SyntaxNode) :
    Yields p (before ++ others) (fun a => after a ++ others) := by
  intro rest c a c' htracks h
  rw [List.append_assoc] at htracks ⊢
  exact hp (others ++ rest) c a c' htracks h

/-- Reading something more and going on with both. -/
theorem Yields.andThen {p : Parser α} {f : α → Parser β} {before : List SyntaxNode}
    {middle : α → List SyntaxNode} {after : β → List SyntaxNode} (hp : Yields p [] middle)
    (hf : ∀ a, Yields (f a) (middle a ++ before) after) : Yields (p >>= f) before after :=
  (hp.beside before).bind hf

/-- Reading something that holds no nodes. -/
theorem Yields.skip {p : Parser α} {f : α → Parser β} {before : List SyntaxNode}
    {after : β → List SyntaxNode} (hp : Quiet p) (hf : ∀ a, Yields (f a) before after) :
    Yields (p >>= f) before after := by
  intro rest c b c'' htracks h
  obtain ⟨a, c', hpc, hfc⟩ := bind_eq_ok h
  exact hf a rest c' b c'' (htracks.of_numbers (hp c a c' hpc)) hfc

/-- Both branches of a choice have to give the nodes. -/
theorem Yields.ite {p q : Parser α} {P : Prop} [Decidable P] {before : List SyntaxNode}
    {after : α → List SyntaxNode} (hp : P → Yields p before after)
    (hq : ¬P → Yields q before after) : Yields (if P then p else q) before after := by
  split
  · next h => exact hp h
  · next h => exact hq h

/-- A parser that fails gives nothing, so it may promise anything. -/
theorem Yields.fail (fault : SyntaxFault) (span : Span) (before : List SyntaxNode)
    (after : α → List SyntaxNode) : Yields (fail fault span : Parser α) before after := by
  rintro rest c a c' - ⟨⟩

/-- A value may be put in at once. -/
theorem Yields.pure_bind {f : α → Parser β} {before : List SyntaxNode}
    {after : β → List SyntaxNode} {a : α} (h : Yields (f a) before after) :
    Yields (Pure.pure a >>= f) before after :=
  h

/-- What stands behind a failure is not reached. -/
theorem Yields.fail_bind (fault : SyntaxFault) (span : Span) (f : α → Parser β)
    (before : List SyntaxNode) (after : β → List SyntaxNode) :
    Yields (Parser.fail fault span >>= f) before after := by
  intro rest c b c' _ h
  obtain ⟨a, c₁, hfail, -⟩ := bind_eq_ok h
  cases hfail

/-- Going on with what is known of the result. -/
theorem Yields.bind_of {p : Parser α} {f : α → Parser β} {P : α → Prop} {before : List SyntaxNode}
    {middle : α → List SyntaxNode} {after : β → List SyntaxNode} (hp : Yields p before middle)
    (hP : ∀ c a c', p c = .ok a c' → P a) (hf : ∀ a, P a → Yields (f a) (middle a) after) :
    Yields (p >>= f) before after := by
  intro rest c b c'' htracks h
  obtain ⟨a, c', hpc, hfc⟩ := bind_eq_ok h
  exact hf a (hP c a c' hpc) rest c' b c'' (hp rest c a c' htracks hpc) hfc

/-- A function of the result names the nodes. -/
theorem Yields.map {p : Parser α} {f : α → β} {before : List SyntaxNode}
    {after : β → List SyntaxNode} (hp : Yields p before fun a => after (f a)) :
    Yields (f <$> p) before after := by
  rw [map_eq_pure_bind]
  exact hp.bind fun _ => .pure (.refl _)

/-- Nodes may be given and named in another order. -/
theorem Yields.perm {p : Parser α} {before before' : List SyntaxNode}
    {after after' : α → List SyntaxNode} (hp : Yields p before after)
    (hbefore : before'.Perm before) (hafter : ∀ a, (after a).Perm (after' a)) :
    Yields p before' after' := by
  intro rest c a c' htracks h
  exact (hp rest c a c' (htracks.perm (hbefore.append_right rest)) h).perm
    ((hafter a).append_right rest)

/-! ### Loops -/

/-- What a round leaves: the state of the next round, or the result. -/
def stepNodes (state : α → List SyntaxNode) (result : β → List SyntaxNode) :
    Step α β → List SyntaxNode
  | .again a => state a
  | .done b => result b

/-- A loop is quiet if its step is. -/
theorem Quiet.repeatStep {step : α → Parser (Step α β)} (h : ∀ a, Quiet (step a)) (a : α) :
    Quiet (repeatStep step a) := by
  -- out of rounds, it fails; before that, each round is quiet
  have hwithin : ∀ budget a, Quiet (repeatWithin step budget a) := by
    intro budget
    induction budget with
    | nil =>
      intro a
      refine (h a).bind fun s => ?_
      cases s with
      | done b => exact .pure b
      | again _ =>
        -- a step that would go on finds no room, and that is an error
        rintro c b c' hc
        obtain ⟨span, c'', -, hc'⟩ := bind_eq_ok hc
        cases hc'
    | cons t budget ih =>
      intro a
      refine (h a).bind fun s => ?_
      cases s with
      | done b => exact .pure b
      | again a => exact ih a
  intro c b c' hc
  obtain ⟨c₁, c₂, hget, hc⟩ := bind_eq_ok hc
  cases hget
  exact hwithin _ a _ b c' hc

/-- A loop keeps the nodes of its state, up to those of its result. -/
theorem Yields.repeatStep {step : α → Parser (Step α β)} (state : α → List SyntaxNode)
    (result : β → List SyntaxNode) (h : ∀ a, Yields (step a) (state a) (stepNodes state result))
    (a : α) : Yields (repeatStep step a) (state a) result := by
  -- each round goes on from the nodes of the state that the one before it left
  have hwithin : ∀ budget a, Yields (repeatWithin step budget a) (state a) result := by
    intro budget
    induction budget with
    | nil =>
      intro a
      refine (h a).bind fun s => ?_
      cases s with
      | done b => exact .pure (.refl _)
      | again a =>
        -- out of rounds, it fails, and yields nothing
        rintro rest c b c' - hc
        obtain ⟨span, c'', -, hc'⟩ := bind_eq_ok hc
        cases hc'
    | cons t budget ih =>
      intro a
      refine (h a).bind fun s => ?_
      cases s with
      | done b => exact .pure (.refl _)
      | again a => exact ih a
  intro rest c b c' htracks hc
  obtain ⟨c₁, c₂, hget, hc⟩ := bind_eq_ok hc
  cases hget
  exact hwithin _ a rest _ b c' htracks hc

/-! ### Tokens -/

theorem Quiet.fail (fault : SyntaxFault) (span : Span) : Quiet (fail fault span : Parser α) := by
  rintro c a c' ⟨⟩

/-- Looking at tokens hands out nothing, and neither does passing them. -/
theorem quiet_peek : Quiet peek := by
  intro c kind c' h
  obtain ⟨tokens, last, finished, exprs, functions, classes⟩ := c
  cases tokens <;> cases h <;> rfl

theorem quiet_peekSpan : Quiet peekSpan := by
  intro c span c' h
  obtain ⟨tokens, last, finished, exprs, functions, classes⟩ := c
  cases tokens <;> cases h <;> rfl

theorem quiet_lastSpan : Quiet lastSpan := by
  rintro c span c' ⟨⟩
  rfl

theorem quiet_next : Quiet next := by
  intro c t c' h
  obtain ⟨tokens, last, finished, exprs, functions, classes⟩ := c
  cases tokens <;> cases h <;> rfl

theorem quiet_isAtMark (sign : Mark) : Quiet (isAtMark sign) :=
  quiet_peek.bind fun _ => .pure _

theorem quiet_isAtKeyword (word : Keyword) : Quiet (isAtKeyword word) :=
  quiet_peek.bind fun _ => .pure _

theorem quiet_isAtEnd : Quiet isAtEnd := quiet_peek.bind fun _ => .pure _

theorem quiet_unexpected (what : Expectation) : Quiet (unexpected what : Parser α) := by
  refine quiet_next.bind fun t => ?_
  split <;> exact .fail _ _

/-- Complaining about a token gives no result, -/
theorem unexpected_ne_ok (what : Expectation) (c c' : Cursor) (a : α) :
    (unexpected what : Parser α) c ≠ .ok a c' := by
  intro h
  obtain ⟨t, c₁, -, h⟩ := bind_eq_ok h
  cases hkind : t.kind <;> rw [hkind] at h <;> cases h

/-- so it may promise any nodes. -/
theorem Yields.unexpected (what : Expectation) (before : List SyntaxNode)
    (after : α → List SyntaxNode) : Yields (unexpected what : Parser α) before after :=
  fun _ c a c' _ h => absurd h (unexpected_ne_ok what c c' a)

theorem quiet_skipMark (sign : Mark) : Quiet (skipMark sign) :=
  (quiet_isAtMark sign).bind fun _ => .ite (quiet_next.bind fun _ => .pure _) (.pure _)

theorem quiet_expectMark (sign : Mark) : Quiet (expectMark sign) :=
  (quiet_isAtMark sign).bind fun _ => .ite quiet_next (quiet_unexpected _)

theorem quiet_expectKeyword (word : Keyword) : Quiet (expectKeyword word) :=
  (quiet_isAtKeyword word).bind fun _ => .ite quiet_next (quiet_unexpected _)

theorem quiet_expectIdentifier : Quiet expectIdentifier := by
  refine quiet_peek.bind fun kind => ?_
  split
  · exact quiet_next.bind fun _ => .pure _
  · exact quiet_unexpected _

theorem quiet_expectPropertyName : Quiet expectPropertyName := by
  refine quiet_peek.bind fun kind => ?_
  split
  · exact quiet_next.bind fun _ => .pure _
  · exact quiet_next.bind fun _ => .pure _
  · exact quiet_unexpected _

theorem quiet_endStatement : Quiet endStatement := by
  refine (quiet_skipMark _).bind fun isSkipped => .ite (.pure _) ?_
  refine quiet_peek.bind fun kind => ?_
  split
  · exact .pure _
  · exact .pure _
  · exact quiet_unexpected _

theorem quiet_params : Quiet params := by
  refine (quiet_expectMark _).bind fun _ => Quiet.bind (.repeatStep (fun names => ?_) _) fun _ =>
    (quiet_expectMark _).bind fun _ => .pure _
  refine (quiet_isAtMark _).bind fun _ => .ite (.pure _) ?_
  refine quiet_expectIdentifier.bind fun name => .ite ?_ ?_
  · exact (Quiet.fail _ _).bind fun _ => (quiet_skipMark _).bind fun _ => .ite (.pure _) (.pure _)
  · exact (quiet_skipMark _).bind fun _ => .ite (.pure _) (.pure _)

theorem quiet_definedName (missing : Expectation) (isRequired : Bool) :
    Quiet (definedName missing isRequired) := by
  refine quiet_peek.bind fun kind => ?_
  split
  · exact quiet_expectIdentifier.bind fun _ => .pure _
  · exact .ite (quiet_unexpected _) (.pure _)

theorem quiet_propertyName : Quiet propertyName := by
  refine quiet_peek.bind fun kind => ?_
  split
  · exact quiet_next.bind fun _ => .pure _
  · exact quiet_next.bind fun _ => .pure _
  · exact quiet_expectPropertyName.bind fun _ => .pure _

theorem quiet_isAtAccessor : Quiet isAtAccessor := by
  refine quiet_peek.bind fun kind => ?_
  split <;> exact .pure _

/-! ### New nodes -/

/-- An expression gets the next number before its height is checked. -/
theorem newExpr_eq (form : ExprForm) (span : Span) (c : Cursor) :
    newExpr form span c =
      (if maxNesting < 1 + form.heightBelow then do
        let _ ← (fail .nestedTooDeeply span : Parser Unit)
        return ⟨⟨c.exprs⟩, span, 1 + form.heightBelow, form⟩
      else return ⟨⟨c.exprs⟩, span, 1 + form.heightBelow, form⟩ : Parser Expr)
        { c with exprs := c.exprs + 1 } := rfl

/-- So does a function, -/
theorem newFunction_eq (name : Option String) (kind : FunctionKind) (params : List String)
    (body : List Stmt) (span : Span) (c : Cursor) :
    newFunction name kind params body span c =
      (if maxNesting < 1 + heightOfAll body then do
        let _ ← (fail .nestedTooDeeply span : Parser Unit)
        return ⟨⟨c.functions⟩, name, kind, params, body, span, 1 + heightOfAll body⟩
      else return ⟨⟨c.functions⟩, name, kind, params, body, span, 1 + heightOfAll body⟩ :
        Parser FunctionDef) { c with functions := c.functions + 1 } := rfl

/-- and so does a class. -/
theorem newClass_eq (name : Option String) (superclass : Option Expr)
    (constructor : Option FunctionDef) (members : List Member) (span : Span) (c : Cursor) :
    newClass name superclass constructor members span c =
      (if maxNesting < 1 + classHeightBelow superclass constructor members then do
        let _ ← (fail .nestedTooDeeply span : Parser Unit)
        return ⟨⟨c.classes⟩, name, superclass, constructor, members, span,
          1 + classHeightBelow superclass constructor members⟩
      else return ⟨⟨c.classes⟩, name, superclass, constructor, members, span,
        1 + classHeightBelow superclass constructor members⟩ : Parser ClassDef)
        { c with classes := c.classes + 1 } := rfl

/-- What has a result has passed the check in front of it. -/
theorem eq_ok_of_unless {P : Prop} [Decidable P] {fault : SyntaxFault} {span : Span}
    {p : Parser α} {c c' : Cursor} {a : α}
    (h : (if P then do
      let _ ← (fail fault span : Parser PUnit)
      p
    else p) c = .ok a c') : ¬P ∧ p c = .ok a c' := by
  split at h
  · cases h
  · next hnot => exact ⟨hnot, h⟩

/-- A new expression has the given parts for its children, one level above them. -/
theorem yields_newExpr {form : ExprForm} (hproper : form.IsProper) (span : Span) :
    Yields (newExpr form span) form.children fun e => [.expr e] := by
  intro rest c e c' htracks h
  rw [newExpr_eq] at h
  obtain ⟨hheight, h⟩ := eq_ok_of_unless h
  cases h
  exact Cursor.Tracks.node (c := c) htracks ⟨hproper, rfl, Nat.not_lt.mp hheight⟩
    (fun _ => perm_range_succ) (fun _ h => h) fun _ h => h

/-- A new expression from its parts. -/
theorem Yields.node {form : ExprForm} {before : List SyntaxNode} (hproper : form.IsProper)
    (span : Span) (hperm : before.Perm form.children) :
    Yields (newExpr form span) before fun e => [.expr e] :=
  (yields_newExpr hproper span).perm hperm fun _ => .refl _

/-- A new function has its statements, -/
theorem yields_newFunction (name : Option String) (kind : FunctionKind) (params : List String)
    (body : List Stmt) (span : Span) :
    Yields (newFunction name kind params body span) (body.map .stmt) fun f => [.function f] := by
  intro rest c f c' htracks h
  rw [newFunction_eq] at h
  obtain ⟨hheight, h⟩ := eq_ok_of_unless h
  cases h
  exact Cursor.Tracks.node (c := c) htracks ⟨rfl, Nat.not_lt.mp hheight⟩ (fun _ h => h)
    (fun _ => perm_range_succ) fun _ h => h

/-- and a new class its superclass, its constructor and its members. -/
theorem yields_newClass (name : Option String) (superclass : Option Expr)
    (constructor : Option FunctionDef) (members : List Member) (span : Span) :
    Yields (newClass name superclass constructor members span)
      (superclass.toList.map .expr ++ constructor.toList.map .function ++ members.map .member)
      fun c => [.class c] := by
  intro rest c d c' htracks h
  rw [newClass_eq] at h
  obtain ⟨hheight, h⟩ := eq_ok_of_unless h
  cases h
  exact Cursor.Tracks.node (c := c) htracks ⟨rfl, Nat.not_lt.mp hheight⟩ (fun _ h => h)
    (fun _ h => h) fun _ => perm_range_succ

/-- A node that has no number, from its children. -/
theorem Yields.wrap {f : α → SyntaxNode} {before : List SyntaxNode} {a : α}
    (hperm : before.Perm (f a).children) (hmade : (f a).IsMade) (hnumber : (f a).HasNoNumber) :
    Yields (Pure.pure a : Parser α) before fun a => [f a] := by
  rintro rest c _ _ htracks ⟨⟩
  exact (htracks.perm (hperm.append_right rest)).wrap hmade hnumber

/-! ### Parts of constructs -/

/-- What has been read of a class body. -/
def ClassBody.children (body : ClassBody) : List SyntaxNode :=
  body.constructor.toList.map .function ++ body.members.map .member

/-- An accessor with its member, or the accessor alone. -/
def accessorNode (a : Accessor) : Option Expr → SyntaxNode
  | some e => .expr e
  | none => .accessor a

end Parser

end Enclave
