import Enclave.Proofs.Run.Registrations
import Enclave.Session

/-!
# Machines that are reached

A machine is reached from the start by steps of runs, and by reclaiming what nothing holds between
them. What is gone changes with every reclamation. All machines that are reached are sound
(`Machine.Reached.sound`), whatever was run before.
-/

namespace Enclave

variable {gone : Node → Prop} {m : Machine}

/-- The machines that are reached, with what is gone. -/
inductive Machine.Reached : (Node → Prop) → Machine → Prop
  | start (maxDepth : ℕ) : Reached (fun _ => False) (Session.start maxDepth).machine
  | step {gone : Node → Prop} {m m' : Machine} (h : Reached gone m) (hstep : m.Step gone m') :
    Reached gone m'
  | reclaim {gone : Node → Prop} {m : Machine} {roots : List Node} (h : Reached gone m)
    (hroots : ∀ n ∈ roots, m.world.Knows gone n) (hroot : .scope Scopes.rootId ∈ roots) :
    Reached (m.world.IsLost roots m.callFunction) { m with world := m.world.reclaim roots }

theorem Machine.Reached.steps {m' : Machine} (h : m.Reached gone) (hsteps : m.Steps gone m') :
    m'.Reached gone := by
  induction hsteps with
  | refl => exact h
  | tail _ hstep ih => exact ih.step hstep

/-! ### The start -/

namespace World

/-- At first there is one scope that holds nothing. -/
theorem sound_empty : empty.Sound fun _ => False := by
  -- the root scope is the only node there is, and nothing is bound in it
  have honly : ∀ n, empty.Has n → n = .scope Scopes.rootId := fun n hn => by
    cases n with
    | scope s =>
      obtain ⟨i⟩ := s
      obtain rfl := Nat.lt_one_iff.mp (show i < 1 from hn)
      rfl
    -- every other part is a promise about nodes, and holds of none
    | _ => exact absurd hn (Nat.not_lt_zero _)
  exact
    { registry := isRegistry_of_none rfl rfl
      made := fun n hn m hm => by
        obtain rfl := honly n hn
        cases hm
      goneMade := fun _ h => h.elim
      closed := fun _ _ _ _ _ h => h
      tables := fun _ _ _ _ h => h
      grounded := fun S hS n hn => (hS n hn).1
      stored := fun n hn v hv => by
        obtain rfl := honly n hn
        cases hv
      functions := fun i hi => absurd hi (Nat.not_lt_zero i)
      classes := fun i hi => absurd hi (Nat.not_lt_zero i)
      tokens := Nat.le_refl _ }

/-- Functions that are there from the start are made of nothing. -/
theorem alters_native {w : World} (hw : w.Sound gone) (name : String) (n : Native) :
    Alters gone w (w.newFunction name (.native n)).2 :=
  alters_newFunction hw name (fun _ h => nomatch h) fun _ h => nomatch h

/-- What a world with some functions of its own has. -/
structure IsPrepared (w : World) : Prop where
  sound : w.Sound fun _ => False
  noClass : w.classes.size = 0
  noToken : w.tokens.size = 0
  root : w.Has (.scope Scopes.rootId)

theorem isPrepared_empty : empty.IsPrepared := ⟨sound_empty, rfl, rfl, Nat.zero_lt_one⟩

theorem IsPrepared.addBuiltin {w : World} (h : w.IsPrepared) (name : String) (n : Native) :
    (Session.addBuiltin w name n).IsPrepared := by
  have hnew := alters_native h.sound name n
  have hs := h.sound.change hnew.toChange
  -- a native function is known once it is made, and is no script to be fitted
  have hadmits : (w.newFunction name (.native n)).2.Admits (fun _ => False)
      (.function (w.newFunction name (.native n)).1) := by
    refine ⟨⟨(knows_newFunction h.sound name _).1, fun c hc => ?_⟩, fun x hx => ?_⟩
    · have hat := functionAt_newFunction (w := w) name (.native n)
      rw [functionAt, hc] at hat
      cases hat
    · cases hx
      exact knows_newFunction h.sound name _
  have hdeclare := alters_declare hs (s := Scopes.rootId) (fun hgone => hgone) name hadmits false
  refine ⟨hs.change hdeclare.toChange, h.noClass, h.noToken, ?_⟩
  exact hdeclare.grows.has _ (hnew.grows.has _ h.root)

theorem isPrepared_initialWorld : Session.initialWorld.IsPrepared :=
  ((isPrepared_empty.addBuiltin "print" .print).addBuiltin "assert" .assert).addBuiltin "Symbol"
    .symbol

end World

theorem coherent_start (maxDepth : ℕ) :
    (Session.start maxDepth).machine.Coherent fun _ => False := by
  have hprepared := World.isPrepared_initialWorld
  -- The world is prepared, and `call` is added to it.
  have hnew := World.alters_native hprepared.sound "call" .call
  exact
    { world := hprepared.sound.change hnew.toChange
      settled := hprepared.noClass.trans hprepared.noToken.symm
      root := ⟨hnew.grows.has _ hprepared.root, fun hgone => hgone⟩
      callKnown := World.knows_newFunction hprepared.sound "call" _
      callFunction := World.functionAt_newFunction "call" _
      superCalls := fun id hid => absurd hid (Nat.not_lt_zero _) }

/-- At first nothing is registered. -/
theorem isRegistered_start (maxDepth : ℕ) :
    (Session.start maxDepth).machine.IsRegistered fun _ => False := by
  have hnoClass : ∀ c, ¬(Session.start maxDepth).machine.world.HasClass c := fun c hc =>
    Nat.not_lt_zero c.index (World.isPrepared_initialWorld.noClass ▸ hc.1)
  refine ⟨fun _ _ hc => (nomatch hc), fun _ _ _ hc => (nomatch hc), fun _ _ _ hc => (nomatch hc),
    fun t d => ?_, fun t o hsome => ?_, fun _ _ hc => (nomatch hc), trivial⟩
  · exact iff_of_false (fun hd => nomatch hd) fun hd => hnoClass d hd.1
  · obtain ⟨table, htable⟩ := Option.isSome_iff_exists.mp hsome
    have htoken := (coherent_start maxDepth).world.registry.lt_of_lookup htable
    exact absurd (World.isPrepared_initialWorld.noToken ▸ htoken.1) (Nat.not_lt_zero t.index)

theorem sound_start (maxDepth : ℕ) : (Session.start maxDepth).machine.Sound fun _ => False :=
  ⟨coherent_start maxDepth, isRegistered_start maxDepth⟩

/-! ### All the way -/

/-- **Reached machines are sound.** -/
theorem Machine.Reached.sound (h : m.Reached gone) : m.Sound gone := by
  induction h with
  | start maxDepth => exact sound_start maxDepth
  | step _ hstep ih => exact (hstep.keeps ih).1
  | @reclaim gone m roots _ hroots hroot ih =>
    have hhas := fun n hn => (hroots n hn).1
    have hsame := World.sameContents_reclaim m.world roots
    have hregistered := ih.registered.reclaim ih.toCoherent hroots
    refine ⟨
      { world := ih.world.reclaim hhas ih.callFunction
        settled := ?settled
        root := ?root
        callKnown := ?callKnown
        callFunction := ?callFunction
        superCalls := ih.superCalls }, hregistered⟩
    -- a reclaim empties what is not alive, and removes no class and no token
    case settled =>
      rw [hsame.classes, hsame.tokenCount]
      exact ih.settled
    -- the root scope is among the roots, so it stays alive
    case root =>
      exact World.knows_reclaim ih.root.1
        (Or.inr ⟨ih.root.1, World.isAlive_of_mem ih.root.1 hroot⟩)
    case callKnown =>
      exact World.knows_reclaim ih.callKnown.1 (Or.inl rfl)
    case callFunction =>
      change (m.world.reclaim roots).functions.getD _ default = _
      rw [hsame.functions]
      exact ih.callFunction

end Enclave
