import Enclave.Proofs.Eval.Relations

/-!
# Counting calls

The journal tells which calls have begun and have not ended (`unfinishedCalls`). A machine counts
its calls (`Machine.CountsCalls`) if its depth is their number, which is never more than may be, and
if every call in the journal began, was refused, or ended when it should have.

Whatever is evaluated leaves the same calls unfinished as before, and a machine that counted its
calls counts them still (`Machine.Balances`). The relation is kept by everything that happens in
runs (`isKept_balances`): a call undoes at its end what it did to the count at its beginning,
however the function ended, and nothing else touches the count.
-/

namespace Enclave

/-! ### Unfinished calls -/

/-- The functions whose calls have begun and not ended, the innermost first. -/
def unfinishedCalls : List Event → List FunctionRef
  | [] => []
  | .invoked f _ :: past => f :: unfinishedCalls past
  | .returned _ :: past => (unfinishedCalls past).tail
  | _ :: past => unfinishedCalls past

theorem unfinishedCalls_cons {e : Event} (he : e.isCall = false) (past : List Event) :
    unfinishedCalls (e :: past) = unfinishedCalls past := by
  cases e with
  | invoked | returned | refused => cases he
  | _ => rfl

theorem unfinishedCalls_append {new : List Event} (hnew : ∀ e ∈ new, e.isCall = false)
    (past : List Event) : unfinishedCalls (new ++ past) = unfinishedCalls past := by
  induction new with
  | nil => rfl
  | cons e new ih =>
    have he := hnew e List.mem_cons_self
    rw [List.cons_append, unfinishedCalls_cons he]
    exact ih fun x hx => hnew x (List.mem_cons_of_mem e hx)

/-- Calls begin while fewer are unfinished than may be, they are refused if no more may be, and the
innermost is the one that ends. -/
def IsCounted (maxDepth : ℕ) (past : List Event) : Event → Prop
  | .invoked _ _ => (unfinishedCalls past).length < maxDepth
  | .refused _ => (unfinishedCalls past).length = maxDepth
  | .returned f => (unfinishedCalls past).head? = some f
  | _ => True

theorem isCounted_of_not_call {e : Event} (he : e.isCall = false) (maxDepth : ℕ)
    (past : List Event) : IsCounted maxDepth past e := by
  cases e with
  | invoked | returned | refused => cases he
  | _ => trivial

namespace Machine

variable {m m' m'' : Machine}

/-- The depth is the number of unfinished calls. -/
structure CountsCalls (m : Machine) : Prop where
  depth : m.depth = (unfinishedCalls m.journal).length
  bounded : m.depth ≤ m.maxDepth
  events : EachAfter (IsCounted m.maxDepth) m.journal

/-- The same calls are unfinished as before. -/
structure Balances (m m' : Machine) : Prop where
  depth : m'.depth = m.depth
  maxDepth : m'.maxDepth = m.maxDepth
  unfinished : unfinishedCalls m'.journal = unfinishedCalls m.journal
  events : m.CountsCalls → EachAfter (IsCounted m.maxDepth) m'.journal

theorem CountsCalls.balances (hm : m.CountsCalls) (h : m.Balances m') : m'.CountsCalls where
  depth := by rw [h.depth, h.unfinished, hm.depth]
  bounded := by
    rw [h.depth, h.maxDepth]
    exact hm.bounded
  events := by
    rw [h.maxDepth]
    exact h.events hm

theorem Balances.refl (m : Machine) : m.Balances m := ⟨rfl, rfl, rfl, CountsCalls.events⟩

theorem Balances.trans (h : m.Balances m') (h' : m'.Balances m'') : m.Balances m'' where
  depth := h'.depth.trans h.depth
  maxDepth := h'.maxDepth.trans h.maxDepth
  unfinished := h'.unfinished.trans h.unfinished
  events hm := by
    rw [← h.maxDepth]
    exact h'.events (hm.balances h)

/-- What is no call leaves the calls as they are. -/
theorem balances_of_append (hdepth : m'.depth = m.depth) (hmax : m'.maxDepth = m.maxDepth)
    (new : List Event) (hjournal : m'.journal = new ++ m.journal)
    (hnew : ∀ e ∈ new, e.isCall = false) : m.Balances m' where
  depth := hdepth
  maxDepth := hmax
  unfinished := by rw [hjournal, unfinishedCalls_append hnew]
  events hm := by
    rw [hjournal]
    exact hm.events.append fun e he past => isCounted_of_not_call (hnew e he) _ past

theorem balances_note (m : Machine) {e : Event} (he : e.isCall = false) :
    m.Balances { m with journal := e :: m.journal } :=
  balances_of_append rfl rfl [e] rfl fun _ hx => List.mem_singleton.mp hx ▸ he

theorem Beside.balances (h : m.Beside m') : m.Balances m' := by
  obtain ⟨new, hjournal, hnew⟩ := h.journal
  exact balances_of_append h.depth h.maxDepth new hjournal fun e he =>
    Event.isCall_of_isAccess (hnew e he)

/-! ### Calls -/

/-- A call that may begin is counted. -/
theorem CountsCalls.enter (hm : m.CountsCalls) (f : FunctionRef) (this : Value)
    (hdepth : m.depth < m.maxDepth) : (Eval.enter f this m).CountsCalls where
  depth := congrArg (· + 1) hm.depth
  bounded := hdepth
  events := ⟨show (unfinishedCalls m.journal).length < m.maxDepth from hm.depth ▸ hdepth, hm.events⟩

/-- A call that is refused is refused because no more calls may be unfinished. -/
theorem balances_refused (f : FunctionRef) (hdepth : m.maxDepth ≤ m.depth) :
    m.Balances { m with journal := .refused f :: m.journal } where
  depth := rfl
  maxDepth := rfl
  unfinished := rfl
  events hm := by
    refine ⟨?_, hm.events⟩
    change (unfinishedCalls m.journal).length = m.maxDepth
    rw [← hm.depth]
    exact Nat.le_antisymm hm.bounded hdepth

/-- A call leaves the calls as they were before it, if what runs in it leaves them as they were when
it had begun. -/
theorem balances_call (f : FunctionRef) (this : Value) (hdepth : m.depth < m.maxDepth)
    (h : (Eval.enter f this m).Balances m') : m.Balances (Eval.leave f m') where
  depth := by
    change m'.depth - 1 = m.depth
    rw [h.depth]
    exact Nat.add_sub_cancel m.depth 1
  maxDepth := h.maxDepth
  -- leaving takes off the call that entering put there
  unfinished := by
    change (unfinishedCalls m'.journal).tail = unfinishedCalls m.journal
    rw [h.unfinished]
    rfl
  events hm := by
    refine ⟨?_, h.events (hm.enter f this hdepth)⟩
    change (unfinishedCalls m'.journal).head? = some f
    rw [h.unfinished]
    rfl

end Machine

open Machine in
/-- **Balance.** Whatever happens in a run leaves the same calls unfinished. -/
theorem isKept_balances : Eval.IsKept Machine.Balances where
  refl := .refl
  trans := .trans
  -- only a call and its refusal are about calls; any other step leaves the calls as they are
  atom h _ := h.beside.balances
  record m _ he := balances_note m he
  register _ _ _ := balances_of_append rfl rfl [] rfl fun _ h => nomatch h
  newConstruction := balances_of_append rfl rfl [] rfl fun _ h => nomatch h
  callSuper m id := balances_of_append rfl rfl [_] rfl fun _ hx =>
    List.mem_singleton.mp hx ▸ rfl
  makeClass _ hmade := by
    refine balances_of_append hmade.depth hmade.extends_.maxDepth [_] hmade.journal ?_
    exact fun _ hx => List.mem_singleton.mp hx ▸ rfl
  refused _ f hdepth := balances_refused f hdepth
  call f this hdepth h := balances_call f this hdepth h

end Enclave
