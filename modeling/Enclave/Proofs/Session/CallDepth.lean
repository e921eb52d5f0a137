import Enclave.Proofs.Eval.Agreement
import Enclave.Proofs.Eval.CallDepth
import Enclave.Proofs.Session.Tidiness

/-!
# The depth of calls

In every session the depth of the machine is the number of unfinished calls, and no call is
unfinished between operations. Whatever is evaluated, wherever in an operation, ends at the depth it
began at, with whatever result; so a script that catches an error has as many calls left as it had
before. A call is refused, and nothing of the function runs, exactly if as many calls are unfinished
as may be (`Session.Hosted.calls_counted`).

That something holds at every evaluation in an operation is said by observers: an observer may do
anything at all around an evaluation where it does not hold, and makes no difference to the
operation.
-/

namespace Enclave

/-- An observer that lets evaluations be where the machine is tidy and counts its calls, and what is
left of it has the same depth and counts its calls too. -/
def Observer.MindsCalls (around : Observer) : Prop :=
  ∀ {α : Type} (a : Activity) (x : Eval α) {m : Machine}, m.IsTidy → a.Fits m → m.CountsCalls →
    (Eval.final x m).CountsCalls → (Eval.final x m).depth = m.depth → around a x m = x m

variable {m : Machine}

/-- Observers of calls make no difference to what runs on machines that count their calls. -/
theorem Observer.MindsCalls.eq {around : Observer} (h : around.MindsCalls) {α : Type}
    {x : Evaluator → Eval α} {q : α → Machine → Prop}
    (hx : Eval.Built .anything (Eval.Primitive .anything) x m q) (hm : m.IsTidy)
    (hcounts : m.CountsCalls) (steps : ℕ) : x (observed around steps) m = x (evaluator steps) m :=
  observed_eq isKept_balances (fun hi hT => hi.balances hT)
    (fun f this hi hdepth => hi.enter f this hdepth)
    (fun a x _ hm hfits hi hT => h a x hm hfits hi (hi.balances hT) hT.depth) hx hm hcounts steps

/-- What is built leaves the same calls unfinished. -/
theorem Eval.Built.balances {α : Type} {x : Evaluator → Eval α} {q : α → Machine → Prop}
    (hx : Built .anything (Primitive .anything) x m q) (hm : m.IsTidy) (steps : ℕ) :
    m.Balances (final (x (evaluator steps)) m) :=
  hx.leaves_anything isKept_balances (keeps_evaluator steps)
    (leaves_evaluator isKept_balances steps) hm

/-- A call is refused, without anything of the function being run, if and only if as many calls are
unfinished as may be. -/
theorem Machine.CountsCalls.refuses_iff (hm : m.CountsCalls) (self : Evaluator) (held : List Node)
    (f : FunctionRef) (this : Value) (args : List Value) (construction : Option ConstructionId) :
    Eval.invoke self held f this args construction m =
        .error (.raised .callDepth) { m with journal := .refused f :: m.journal } ↔
      (unfinishedCalls m.journal).length = m.maxDepth := by
  rw [← hm.depth]
  obtain ⟨hdepth, hrun⟩ | ⟨hdepth, hrun⟩ :=
    Eval.invoke_cases self held f this args construction m
  · exact iff_of_true hrun (Nat.le_antisymm hm.bounded hdepth)
  · -- a call that began is the last to be noted, by its end
    refine iff_of_false (fun hrefused => ?_) (Nat.ne_of_lt hdepth)
    have hleft := Eval.final_of_error hrefused
    rw [Eval.final, hrun, ← Eval.final, Eval.final_thenAlways] at hleft
    have hjournal := congrArg Machine.journal hleft
    cases hjournal

namespace Session

variable {s : Session} {held : List Value}

/-- In every session calls are counted, and none is unfinished. -/
theorem Hosted.countsCalls (h : s.Hosted held) :
    s.machine.CountsCalls ∧ s.machine.depth = 0 := by
  -- between operations no call is open, and each operation closes those that it opens
  induction h with
  | start maxDepth => exact ⟨⟨rfl, Nat.zero_le _, trivial⟩, rfl⟩
  | @perform s held x h hx ih =>
    obtain ⟨hm, hheld⟩ := h.isTidy
    obtain ⟨hcounts, hdepth⟩ := ih
    obtain ⟨y, steps, hrun, hy⟩ := built_of_operation Eval.supports_primitive (fun _ => trivial)
      (Nat.zero_le _) hm hheld hdepth hx
    have hbalances : s.machine.Balances (Eval.final x s.machine) := by
      rw [Eval.final, hrun, ← Eval.final]
      exact hy.balances hm steps
    exact ⟨hcounts.balances hbalances, hbalances.depth.trans hdepth⟩
  -- nothing else that a host does touches the calls
  | take _ _ ih => exact ih
  | newObject _ _ ih | edit _ _ _ ih | settle _ _ ih | takeOutput _ ih =>
    exact ⟨⟨ih.1.depth, ih.1.bounded, ih.1.events⟩, ih.2⟩

/-- An observer that minds calls sees nothing in an operation that it would have to stop. -/
theorem Hosted.observed_calls (h : s.Hosted held) {around : Observer} (haround : around.MindsCalls)
    (steps : ℕ) :
    (∀ unit, Eval.runUnit (observed around steps) unit s.machine =
      Eval.runUnit (evaluator steps) unit s.machine) ∧
    ∀ callee this args, s.Offers held callee → s.Offers held this →
      (∀ v ∈ args, s.Offers held v) →
      Eval.callValue (observed around steps) [.scope Scopes.rootId] callee this args s.machine =
        Eval.callValue (evaluator steps) [.scope Scopes.rootId] callee this args s.machine := by
  obtain ⟨hm, hheld⟩ := h.isTidy
  obtain ⟨hcounts, hdepth⟩ := h.countsCalls
  -- the depth that running a unit starts from is the one it has
  have hsame : { s.machine with depth := 0 } = s.machine := by rw [← hdepth]
  refine ⟨fun unit => ?_, fun callee this args hcallee hthis hargs => ?_⟩
  · rw [Eval.runUnit_eq, Eval.runUnit_eq, hsame]
    exact haround.eq (Eval.built_runProgram Eval.supports_primitive unit (fun _ _ => trivial)
      (Nat.zero_le _)) hm hcounts steps
  · exact haround.eq (Eval.built_callValue _ (passes_of_offers hm hheld hcallee)
      (passes_of_offers hm hheld hthis) fun v hv => passes_of_offers hm hheld (hargs v hv)) hm
      hcounts steps

/-- **Call depth.** Calls are counted and none is unfinished between operations. At every evaluation
of an operation they are counted, and the depth is the same after it as before; so it is with the
construction of instances and with class definitions. Where calls are counted, one is refused
exactly if as many are unfinished as may be, and then nothing but that is noted. -/
theorem Hosted.calls_counted (h : s.Hosted held) :
    (s.machine.CountsCalls ∧ s.machine.depth = 0) ∧
    (∀ around : Observer, around.MindsCalls → ∀ steps,
      (∀ unit, Eval.runUnit (observed around steps) unit s.machine =
        Eval.runUnit (evaluator steps) unit s.machine) ∧
      ∀ callee this args, s.Offers held callee → s.Offers held this →
        (∀ v ∈ args, s.Offers held v) →
        Eval.callValue (observed around steps) [.scope Scopes.rootId] callee this args s.machine =
          Eval.callValue (evaluator steps) [.scope Scopes.rootId] callee this args s.machine) ∧
    (∀ m : Machine, m.IsTidy → m.CountsCalls → ∀ steps,
      (∀ nodes c args, m.world.Passes (.class c) → (∀ v ∈ args, m.world.Passes v) →
        let m' := Eval.final (Eval.construct (evaluator steps) nodes c args) m
        m'.CountsCalls ∧ m'.depth = m.depth) ∧
      (∀ context args, m.Suits context.frame → (∀ v ∈ args, m.world.Passes v) →
        let m' := Eval.final (Eval.superCall (evaluator steps) context args) m
        m'.CountsCalls ∧ m'.depth = m.depth) ∧
      ∀ context definition, m.Suits context.frame →
        let m' := Eval.final (Eval.defineClass (evaluator steps) context definition) m
        m'.CountsCalls ∧ m'.depth = m.depth) ∧
    ∀ m : Machine, m.CountsCalls → ∀ self nodes f this args construction,
      Eval.invoke self nodes f this args construction m =
          .error (.raised .callDepth) { m with journal := .refused f :: m.journal } ↔
        (unfinishedCalls m.journal).length = m.maxDepth := by
  obtain ⟨hcounts, hdepth⟩ := h.countsCalls
  refine ⟨⟨hcounts, hdepth⟩, fun around haround steps => h.observed_calls haround steps,
    fun m hm hcounts steps => ?_, fun m hcounts self nodes f this args construction =>
      hcounts.refuses_iff self nodes f this args construction⟩
  have hkept : ∀ {m' : Machine}, m.Balances m' → m'.CountsCalls ∧ m'.depth = m.depth :=
    fun hbalances => ⟨hcounts.balances hbalances, hbalances.depth⟩
  have hsuits : ∀ {context : Context}, m.Suits context.frame →
      Terms.anything.Suits m context.frame := fun hc => Terms.suits_anything hc
  -- constructions and class definitions are built from what balances
  refine ⟨fun nodes c args hc hargs => ?_, fun context args hc hargs => ?_,
    fun context definition hc => ?_⟩
  · -- any class that is there may be installed by these rules
    have hchain : ∀ d ∈ m.world.classChain c, Eval.MayInstall .anything m.world d := fun d hd =>
      Eval.mayInstall_anything (hm.world.lt_of_mem_classChain hc hd)
    exact hkept ((Eval.built_construct Eval.installs_primitive (fun _ => trivial) hm nodes hargs
      hchain).balances hm steps)
  · exact hkept ((Eval.supports_primitive.superCall hm (hsuits hc) hargs).balances hm steps)
  · have hbuilt := Eval.built_defineClass Eval.supports_primitive (hsuits hc)
      (c := definition) trivial
    exact hkept (hbuilt.balances hm steps)

/-- A function calls itself until it is refused, and the error is caught. -/
def refused : Session :=
  left 2 "function f(){f();}try{f();}catch(e){}".toUTF8.toList 16

/-- An observer that stops where an evaluation ends at another depth. -/
def checkingDepth : Observer := fun _ x m =>
  if (Eval.final x m).depth = m.depth then x m else .error .exhausted m

theorem calls_counted_refused :
    .refused ⟨4, "f"⟩ ∈ refused.machine.journal ∧ refused.machine.depth = 0 ∧
      ∀ unit, Eval.runUnit (observed checkingDepth 16) unit refused.machine =
        Eval.runUnit (evaluator 16) unit refused.machine := by
  have hrefused : .refused ⟨4, "f"⟩ ∈ refused.machine.journal := by decide +kernel
  have hhosted : refused.Hosted _ := hosted_left _ _ _
  have hobserver : checkingDepth.MindsCalls := fun _ _ _ _ _ _ _ hdepth => if_pos hdepth
  obtain ⟨⟨-, hdepth⟩, hobserved, -⟩ := hhosted.calls_counted
  exact ⟨hrefused, hdepth, (hobserved checkingDepth hobserver 16).1⟩

end Session

end Enclave
