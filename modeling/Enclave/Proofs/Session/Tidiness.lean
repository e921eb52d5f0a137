import Enclave.Proofs.Eval.Relations
import Enclave.Proofs.Session.Histories

/-!
# Sessions stay tidy

The machine behind every session that is reached is tidy, and whatever the host can get hold of may
be passed (`Session.Hosted.isTidy`). So what is shown of pieces that run on tidy machines holds of
all operations of all sessions.
-/

namespace Enclave

namespace World

/-- At first there is nothing that could be out of order. -/
theorem isTidy_empty : empty.IsTidy where
  registry := sound_empty.registry
  stored n v hv := by
    cases n with
    | scope s =>
      obtain ⟨i⟩ := s
      -- the one scope binds nothing
      cases i <;> cases hv
    | _ => cases hv
  homes _ _ hc := nomatch hc
  classes i hi := absurd hi (Nat.not_lt_zero i)
  tokens := Nat.le_refl _

theorem IsTidy.addBuiltin {w : World} (hw : w.IsTidy) (name : String) (n : Native) :
    (Session.addBuiltin w name n).IsTidy := by
  have hnew := (hw.newFunction name (f := .native n) fun _ hc => nomatch hc).1
  exact (hnew.declare Scopes.rootId name (hw.passes_newFunction name _) false).1

end World

theorem isTidy_start (maxDepth : ℕ) : (Session.start maxDepth).machine.IsTidy := by
  have hw : Session.initialWorld.IsTidy :=
    ((World.isTidy_empty.addBuiltin "print" .print).addBuiltin "assert" .assert).addBuiltin "Symbol"
      .symbol
  exact
    { world := (hw.newFunction "call" (f := .native .call) fun _ hc => nomatch hc).1
      settled := rfl
      callFunction := hw.passes_newFunction "call" _
      constructions := fun _ hid => absurd hid (Nat.not_lt_zero _) }

theorem Machine.IsTidy.reclaim {m : Machine} (hm : m.IsTidy) (roots : List Node) :
    { m with world := m.world.reclaim roots }.IsTidy := by
  have hsame := World.sameContents_reclaim m.world roots
  refine ⟨hm.world.reclaim roots, ?_, World.passes_reclaim hm.callFunction roots, fun id hid => ?_⟩
  · rw [hsame.classes, hsame.tokenCount]
    exact hm.settled
  · rw [hsame.classes, hsame.objectCount]
    exact hm.constructions id hid

namespace Eval

variable {m : Machine}

/-- The statements of a unit, when no call is unfinished any more. -/
def runProgram (self : Evaluator) (unit : CompiledUnit) : Eval Value := do
  hoist (topContext unit) unit.program.body
  runStatements self (topContext unit) .undefined unit.program.body

theorem runUnit_eq (self : Evaluator) (unit : CompiledUnit) (m : Machine) :
    runUnit self unit m = runProgram self unit { m with depth := 0 } := rfl

theorem built_runProgram {R : Terms} {own : Pieces} (hs : Supports R own) (unit : CompiledUnit)
    (hcode : ∀ s ∈ unit.program.body, R.code (.stmt s)) (hminted : R.minted ≤ m.world.tokens.size) :
    Built R own (fun self => runProgram self unit) m Gives := by
  have hsuits : R.Suits m (topContext unit).frame :=
    ⟨⟨trivial, fun _ h => (nomatch h), fun _ h => nomatch h⟩, fun _ h => (nomatch h),
      fun _ h => (nomatch h), hminted⟩
  refine .bind (built_hoist hs hsuits _ hcode) ?_
  intro _ m₁ _ hext _
  exact built_runStatements hs (hsuits.extends hext) (World.passes_undefined _) _ hcode

theorem keeps_runUnit {self : Evaluator} (hself : self.Keeps) (hm : m.IsTidy)
    (unit : CompiledUnit) : Keeps (runUnit self unit) m Gives := by
  obtain ⟨htidy, hext⟩ := hm.count 0 m.output
  refine Keeps.bind (x := modify fun m => { m with depth := 0 }) ⟨htidy, hext, trivial⟩
    (p := fun _ _ => True) fun _ m₁ hm₁ _ _ => ?_
  have hprogram : Built .anything (Primitive .anything) (fun self => runProgram self unit) m₁
      Gives :=
    built_runProgram supports_primitive unit (fun _ _ => trivial) (Nat.zero_le _)
  exact hprogram.keeps_anything hself hm₁

theorem keeps_callValue {self : Evaluator} (hself : self.Keeps) (hm : m.IsTidy) (held : List Node)
    {callee this : Value} {args : List Value} (hcallee : m.world.Passes callee)
    (hthis : m.world.Passes this) (hargs : ∀ v ∈ args, m.world.Passes v) :
    Keeps (callValue self held callee this args) m Gives :=
  Built.keeps_anything (built_callValue held hcallee hthis hargs) hself hm

end Eval

namespace Session

variable {s : Session} {held : List Value}

/-- Whatever the host gets hold of may be passed. -/
theorem passes_of_offers (hm : s.machine.IsTidy)
    (hheld : ∀ v ∈ held, s.machine.world.Passes v) {v : Value} (h : s.Offers held v) :
    s.machine.world.Passes v := by
  -- what is offered is held by the host, named, or found in what is offered
  induction h with
  | held h => exact hheld _ h
  | @plain v h =>
    cases v with
    | function f => cases h
    | «class» c => cases h
    | _ => trivial
  | global h => exact hm.world.passes_of_lookup h
  | property _ h _ => exact hm.world.passes_of_getProperty? h
  | slot _ _ ht h _ _ =>
    obtain ⟨table, -, rfl⟩ := Option.map_eq_some_iff.mp ht
    exact hm.world.passes_of_get? h
  | prototype _ _ => trivial

theorem keeps_of_operation (hm : s.machine.IsTidy)
    (hheld : ∀ v ∈ held, s.machine.world.Passes v) {x : Eval Value} (hx : s.Operation held x) :
    Eval.Keeps x s.machine Eval.Gives := by
  cases hx with
  | run steps _ => exact Eval.keeps_runUnit (keeps_evaluator steps) hm _
  | call steps hcallee hthis hargs =>
    exact Eval.keeps_callValue (keeps_evaluator steps) hm _ (passes_of_offers hm hheld hcallee)
      (passes_of_offers hm hheld hthis) fun v hv => passes_of_offers hm hheld (hargs v hv)

/-- Where no call is unfinished, operations are built, on terms on which everything may be
evaluated. -/
theorem built_of_operation {R : Terms} {own : Eval.Pieces} (hs : Eval.Supports R own)
    (hcode : ∀ p, R.code p) (hminted : R.minted ≤ s.machine.world.tokens.size)
    (hm : s.machine.IsTidy)
    (hheld : ∀ v ∈ held, s.machine.world.Passes v) (hdepth : s.machine.depth = 0) {x : Eval Value}
    (hx : s.Operation held x) :
    ∃ (y : Evaluator → Eval Value) (steps : ℕ), x s.machine = y (evaluator steps) s.machine ∧
      Eval.Built R own y s.machine Eval.Gives := by
  -- A run of a source, or a call of a value that the host was offered.
  cases hx with
  | @run source unit steps _ =>
    refine ⟨fun self => Eval.runProgram self unit, steps, ?_, ?_⟩
    · rw [Eval.runUnit_eq, ← hdepth]
    · exact Eval.built_runProgram hs unit (fun _ _ => hcode _) hminted
  | @call callee this args steps hcallee hthis hargs =>
    refine ⟨fun self => Eval.callValue self [.scope Scopes.rootId] callee this args, steps, rfl, ?_⟩
    exact Eval.built_callValue _ (passes_of_offers hm hheld hcallee)
      (passes_of_offers hm hheld hthis) fun v hv => passes_of_offers hm hheld (hargs v hv)

/-- What an operation leaves, if it keeps machines tidy. -/
theorem final_of_keeps {x : Eval Value} (hx : Eval.Keeps x s.machine Eval.Gives) :
    (Eval.final x s.machine).IsTidy ∧ s.machine.Extends (Eval.final x s.machine) ∧
      ∀ v ∈ (s.perform x).1.values, (Eval.final x s.machine).world.Passes v := by
  unfold Eval.Keeps Eval.Ends at hx
  unfold perform Eval.final
  -- a value is handed out only if the run returns it or throws it
  cases hrun : x s.machine with
  | ok v m =>
    rw [hrun] at hx
    refine ⟨hx.1, hx.2.1, fun w hw => ?_⟩
    exact List.mem_singleton.mp hw ▸ hx.2.2
  | error stop m =>
    rw [hrun] at hx
    refine ⟨hx.1, hx.2.1, fun w hw => ?_⟩
    cases stop with
    | raised e =>
      cases e with
      | thrown v => exact List.mem_singleton.mp hw ▸ hx.2.2 _ rfl v rfl
      | _ => cases hw
    | broken f => cases hw
    | exhausted => cases hw

/-- The object that a host makes is in its place, and nothing else has changed. -/
theorem tidy_newObject (hm : s.machine.IsTidy) (proto : Option ObjectId) :
    (s.withWorld (s.machine.world.newObject proto).2).machine.IsTidy ∧
      s.machine.Extends (s.withWorld (s.machine.world.newObject proto).2).machine :=
  hm.alter (hm.world.newObject proto) rfl rfl

/-- A host that edits an object stores what may be passed. -/
theorem tidy_edit (hm : s.machine.IsTidy) (o : ObjectId) {e : SlotTable.Edit}
    (hvalue : ∀ v ∈ e.value?, s.machine.world.Passes v) :
    (s.withWorld (s.machine.world.edit (.object o) e)).machine.IsTidy ∧
      s.machine.Extends (s.withWorld (s.machine.world.edit (.object o) e)).machine := by
  cases e with
  | set key v => exact hm.alter (hm.world.setProperty o key (hvalue v rfl)) rfl rfl
  | delete key => exact hm.alter (hm.world.deleteProperty o key) rfl rfl

/-- **Sessions stay tidy**, and the values that the host keeps may be passed. -/
theorem Hosted.isTidy (h : s.Hosted held) :
    s.machine.IsTidy ∧ ∀ v ∈ held, s.machine.world.Passes v := by
  -- on what the host has done: it stores nothing that it has not got hold of
  induction h with
  | start maxDepth => exact ⟨isTidy_start maxDepth, fun _ hv => nomatch hv⟩
  | perform _ hx ih =>
    obtain ⟨htidy, hext, hvalues⟩ := final_of_keeps (keeps_of_operation ih.1 ih.2 hx)
    refine ⟨htidy, fun v hv => ?_⟩
    rcases List.mem_append.mp hv with hv | hv
    · exact hvalues v hv
    · exact (ih.2 v hv).extends hext.world
  | newObject _ _ ih =>
    obtain ⟨htidy, hext⟩ := tidy_newObject ih.1 _
    refine ⟨htidy, List.forall_mem_cons.mpr ⟨trivial, fun v hv => ?_⟩⟩
    exact (ih.2 v hv).extends hext.world
  | edit _ _ hvalue ih =>
    obtain ⟨htidy, hext⟩ := tidy_edit ih.1 _ fun v hv => passes_of_offers ih.1 ih.2 (hvalue v hv)
    exact ⟨htidy, fun v hv => (ih.2 v hv).extends hext.world⟩
  | take _ hv ih => exact ⟨ih.1, List.forall_mem_cons.mpr ⟨passes_of_offers ih.1 ih.2 hv, ih.2⟩⟩
  | settle _ hheld ih =>
    exact ⟨ih.1.reclaim _, fun v hv => World.passes_reclaim (ih.2 v (hheld hv)) _⟩
  | @takeOutput s held _ ih => exact ⟨(ih.1.count s.machine.depth "").1, ih.2⟩

end Session

end Enclave
