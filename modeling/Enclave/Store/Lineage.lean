/-!
# Lines of ancestors

Scopes, objects and classes each have at most one parent, and a parent is older than its children.
`lineage` lists a thing with its ancestors.
-/

namespace Enclave

/-- A thing, its parent, that one's parent and so on, at most `bound` of them. Where parents are
older than their children, a thing with `n` older ones needs no bound beyond `n + 1`. -/
def lineage {α : Type} (parent : α → Option α) : (bound : Nat) → α → List α
  | 0, _ => []
  | bound + 1, a =>
    a :: match parent a with
      | some p => lineage parent bound p
      | none => []

variable {α : Type} {parent : α → Option α}

@[simp] theorem lineage_zero (a : α) : lineage parent 0 a = [] := rfl

theorem lineage_of_none {a : α} (h : parent a = none) (bound : Nat) :
    lineage parent (bound + 1) a = [a] := by
  rw [lineage, h]

theorem lineage_of_some {a p : α} (h : parent a = some p) (bound : Nat) :
    lineage parent (bound + 1) a = a :: lineage parent bound p := by
  rw [lineage, h]

/-- Where each parent has a smaller rank than its child, any bound above the rank gives the whole
line. -/
theorem lineage_eq_of_rank (rank : α → Nat)
    (decreasing : ∀ a p, parent a = some p → rank p < rank a) :
    ∀ (a : α) (m n : Nat), rank a < m → rank a < n → lineage parent m a = lineage parent n a
  | _, 0, _, hm, _ => absurd hm (Nat.not_lt_zero _)
  | _, _, 0, _, hn => absurd hn (Nat.not_lt_zero _)
  | a, m + 1, n + 1, hm, hn => by
    cases h : parent a with
    | none => rw [lineage_of_none h, lineage_of_none h]
    | some p =>
      -- the rank falls from child to parent, so either bound is enough
      have hlt := decreasing a p h
      rw [lineage_of_some h, lineage_of_some h]
      exact congrArg (a :: ·)
        (lineage_eq_of_rank rank decreasing p m n (by omega) (by omega))

/-- What passes from a thing to its parent holds of the whole line. -/
theorem of_mem_lineage {p : α → Prop} (hparent : ∀ a b, p a → parent a = some b → p b) :
    ∀ {bound : Nat} {a b : α}, p a → b ∈ lineage parent bound a → p b
  | 0, _, _, _, hb => by cases hb
  | bound + 1, a, b, ha, hb => by
    -- The line ends at one without parent, or goes on with the parent.
    cases h : parent a with
    | none =>
      rw [lineage_of_none h] at hb
      exact List.mem_singleton.mp hb ▸ ha
    | some c =>
      rw [lineage_of_some h] at hb
      rcases List.mem_cons.mp hb with rfl | hb
      · exact ha
      · exact of_mem_lineage hparent (hparent a c ha h) hb

end Enclave
