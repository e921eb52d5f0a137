import Enclave.Proofs.Eval.Notes
import Enclave.Proofs.Run.Registrations

/-!
# Pieces of a run

What is shown of a piece of a run is that it `Meets` a condition: it changes the machine by steps
only, never evaluates what binding has ruled out, and if it gives a value, the condition holds of
the value and the machine. An error that a script has thrown carries a value that may turn up.

Pieces are put together by `Meets.bind`. Of the machine that the first part leaves, the second knows
that it is sound and has grown, besides what the first part met.
-/

namespace Enclave.Eval

variable {gone : Node → Prop} {α β : Type} {m : Machine}

/-- Whatever a script has thrown may turn up. -/
def Catchable (gone : Node → Prop) (w : World) (e : RuntimeError) : Prop :=
  ∀ v, e = .thrown v → w.Admits gone v

/-- How a piece of a run ends. -/
def Meets (gone : Node → Prop) (x : Eval α) (m : Machine) (post : α → Machine → Prop) : Prop :=
  match x m with
  | .ok a m' => m.Steps gone m' ∧ post a m'
  | .error (.raised e) m' => m.Steps gone m' ∧ Catchable gone m'.world e
  | .error (.broken _) _ => False
  | .error .exhausted m' => m.Steps gone m'

/-- A piece that gives a value of a script. -/
def Yields (gone : Node → Prop) (x : Eval Value) (m : Machine) : Prop :=
  Meets gone x m fun v m' => m'.world.Admits gone v

/-- A piece of which only the changes matter. -/
def Runs (gone : Node → Prop) (x : Eval α) (m : Machine) : Prop :=
  Meets gone x m fun _ _ => True

variable {x : Eval α} {f : α → Eval β} {p : α → Machine → Prop} {q : β → Machine → Prop}

/-! ### Putting pieces together -/

/-- A value at hand meets what holds of it where it stands. -/
theorem Meets.pure {a : α} (h : p a m) : Meets gone (pure a) m p := ⟨.refl, h⟩

/-- **Sequences.** -/
theorem Meets.bind (hm : m.Sound gone) (hx : Meets gone x m p)
    (hf : ∀ a m', m'.Sound gone → m.Grows m' → p a m' → Meets gone (f a) m' q) :
    Meets gone (x >>= f) m q := by
  -- by what the first part and then the rest come to: their steps are put together
  change match EStateM.bind x f m with
    | .ok a m' => _
    | .error (.raised e) m' => _
    | .error (.broken _) _ => _
    | .error .exhausted m' => _
  unfold EStateM.bind
  unfold Meets at hx
  cases hrun : x m with
  | error stop m' =>
    rw [hrun] at hx
    cases stop with
    | raised e => exact hx
    | broken fault => exact hx
    | exhausted => exact hx
  | ok a m' =>
    rw [hrun] at hx
    -- the rest starts from a machine that is sound, and has grown from `m`
    obtain ⟨hsteps, ha⟩ := hx
    obtain ⟨hm', hg⟩ := hsteps.keeps hm
    have hrest := hf a m' hm' hg ha
    unfold Meets at hrest
    dsimp only
    cases hrun' : f a m' with
    | error stop m'' =>
      rw [hrun'] at hrest
      cases stop with
      | raised e => exact ⟨hsteps.trans hrest.1, hrest.2⟩
      | broken fault => exact hrest
      | exhausted => exact hsteps.trans hrest
    | ok b m'' =>
      rw [hrun'] at hrest
      exact ⟨hsteps.trans hrest.1, hrest.2⟩

/-- A piece meets whatever follows from what it meets. -/
theorem Meets.imp {p' : α → Machine → Prop} (hm : m.Sound gone) (hx : Meets gone x m p)
    (h : ∀ a m', m'.Sound gone → m.Grows m' → p a m' → p' a m') : Meets gone x m p' := by
  have hbind : Meets gone (x >>= fun a => Pure.pure a) m p' :=
    hx.bind hm fun a m' hm' hg ha => Meets.pure (h a m' hm' hg ha)
  rwa [bind_pure] at hbind

/-- A piece that meets something runs. -/
theorem Meets.runs (hm : m.Sound gone) (hx : Meets gone x m p) : Runs gone x m :=
  hx.imp hm fun _ _ _ _ _ => trivial

/-! ### Ends -/

/-- What is known of a value that a piece gives, and of the machine then. -/
theorem Meets.of_ok {a : α} {m' : Machine} (hx : Meets gone x m p) (h : x m = .ok a m') :
    m.Steps gone m' ∧ p a m' := by
  unfold Meets at hx
  rwa [h] at hx

/-! ### Errors -/

/-- Raising an error whose value may turn up meets anything. -/
theorem meets_raise {e : RuntimeError} (he : Catchable gone m.world e) :
    Meets gone (raise e : Eval α) m p := ⟨.refl, he⟩

/-- Raising a type error meets anything. -/
theorem meets_raiseType (fault : TypeFault) : Meets gone (raiseType fault : Eval α) m p :=
  meets_raise fun _ h => nomatch h

/-- Running out of steps meets anything. -/
theorem meets_exhausted : Meets gone (throw .exhausted : Eval α) m p := Relation.ReflTransGen.refl

/-- A caught error is passed on as a value. -/
theorem Meets.catching (hx : Meets gone x m p) :
    Meets gone (catching x) m fun result m' =>
      match result with
      | .ok a => p a m'
      | .error e => Catchable gone m'.world e := by
  unfold Meets at hx ⊢
  unfold Eval.catching
  cases hrun : x m with
  | ok a m' =>
    rw [hrun] at hx
    exact hx
  | error stop m' =>
    rw [hrun] at hx
    -- Only what was raised becomes a value; other stops stay.
    cases stop with
    | raised e => exact hx
    | broken fault => exact hx
    | exhausted => exact hx

/-- A change that is made however the piece ends. -/
theorem Meets.thenAlways {change : Machine → Machine} (hx : Meets gone x m p)
    (hsteps : ∀ m', Machine.Steps gone m' (change m'))
    (hpost : ∀ a m', p a m' → p a (change m'))
    (hworld : ∀ m', (change m').world = m'.world) : Meets gone (thenAlways x change) m p := by
  unfold Meets at hx ⊢
  unfold Eval.thenAlways
  -- the change is one more step, whether the run gave a value or stopped
  cases hrun : x m with
  | ok a m' =>
    rw [hrun] at hx
    exact ⟨hx.1.trans (hsteps m'), hpost a m' hx.2⟩
  | error stop m' =>
    rw [hrun] at hx
    cases stop with
    | raised e =>
      refine ⟨hx.1.trans (hsteps m'), ?_⟩
      rw [hworld]
      exact hx.2
    | broken fault => exact hx
    | exhausted => exact Relation.ReflTransGen.trans hx (hsteps m')

/-! ### Reading and changing the machine -/

theorem world_bind (f : World → Eval β) (m : Machine) : (world >>= f) m = f m.world m := rfl

/-- Looking at the machine, in front of the rest of a piece. -/
theorem Meets.get_bind {f : Machine → Eval β} (h : Meets gone (f m) m q) :
    Meets gone (get >>= f) m q := h

/-- Looking at the world, in front of the rest of a piece. -/
theorem Meets.world_bind {f : World → Eval β} (h : Meets gone (f m.world) m q) :
    Meets gone (world >>= f) m q := h

/-- A note that is warranted is one step. -/
theorem meets_record {e : Event} (h : m.Warrants gone e) :
    Meets gone (record e) m fun _ m' => m' = { m with journal := e :: m.journal } :=
  ⟨.single (.record h), rfl⟩

/-- A change that alters the world is one step. -/
theorem meets_changeWorld {g : World → World}
    (h : World.Alters gone m.world (g m.world)) :
    Meets gone (changeWorld g) m fun _ m' => m' = { m with world := g m.world } :=
  ⟨.single (.alter h), rfl⟩

/-- A change with a value that alters the world is one step. -/
theorem meets_onWorld {g : World → α × World}
    (h : World.Alters gone m.world (g m.world).2) :
    Meets gone (onWorld g) m fun a m' =>
      a = (g m.world).1 ∧ m' = { m with world := (g m.world).2 } :=
  ⟨.single (.alter h), rfl, rfl⟩

/-! ### Pieces that only alter the world

While a class is being defined its token is already there, and the machine is not settled. What is
done meanwhile cannot fail. -/

/-- A piece that alters the world and gives something. -/
def Makes (gone : Node → Prop) (x : Eval α) (m : Machine) (post : α → World → Prop) : Prop :=
  ∃ a w, x m = .ok a { m with world := w } ∧ m.world.Alterations gone w ∧ post a w

variable {r : α → World → Prop} {t : β → World → Prop}

/-- A value at hand makes nothing. -/
theorem Makes.pure {a : α} (h : r a m.world) : Makes gone (pure a) m r :=
  ⟨a, m.world, rfl, .refl, h⟩

/-- In sequence: the rest starts with the world that the first piece made. -/
theorem Makes.bind (hw : m.world.Sound gone) (hx : Makes gone x m r)
    (hf : ∀ a w, w.Sound gone → m.world.Grows w → r a w →
      Makes gone (f a) { m with world := w } t) :
    Makes gone (x >>= f) m t := by
  obtain ⟨a, w, hrun, halters, ha⟩ := hx
  obtain ⟨hw', hg, -⟩ := halters.keeps hw
  obtain ⟨b, w', hrun', halters', hb⟩ := hf a w hw' hg ha
  refine ⟨b, w', ?_, halters.trans halters', hb⟩
  change EStateM.bind x f m = _
  rw [EStateM.bind, hrun]
  exact hrun'

/-- No class is made by such a piece. -/
theorem Makes.sameClasses (hw : m.world.Sound gone) (hx : Makes gone x m r) :
    Makes gone x m fun a w => r a w ∧ w.classes = m.world.classes := by
  obtain ⟨a, w, hrun, halters, ha⟩ := hx
  obtain ⟨-, -, hclasses, -⟩ := halters.keeps hw
  exact ⟨a, w, hrun, halters, ha, hclasses⟩

/-- Looking at the world, in front of the rest of a piece. -/
theorem Makes.world_bind {f : World → Eval β} (h : Makes gone (f m.world) m t) :
    Makes gone (world >>= f) m t := h

/-- A change that alters the world makes the world it says. -/
theorem makes_changeWorld {g : World → World}
    (h : World.Alters gone m.world (g m.world)) :
    Makes gone (changeWorld g) m fun _ w => w = g m.world :=
  ⟨(), _, rfl, .single h, rfl⟩

/-- A change with a value makes both. -/
theorem makes_onWorld {g : World → α × World}
    (h : World.Alters gone m.world (g m.world).2) :
    Makes gone (onWorld g) m fun a w => (a, w) = g m.world :=
  ⟨_, _, rfl, .single h, rfl⟩

/-- On a settled machine such a piece makes steps. -/
theorem Makes.meets (hx : Makes gone x m r) : Meets gone x m fun a m' => r a m'.world := by
  obtain ⟨a, w, hrun, halters, ha⟩ := hx
  unfold Meets
  rw [hrun]
  refine ⟨?_, ha⟩
  exact halters.lift (fun w => { m with world := w }) fun w _ h =>
    Machine.Step.alter (m := { m with world := w }) h

end Enclave.Eval
