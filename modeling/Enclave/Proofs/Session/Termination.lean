import Enclave.Proofs.Eval.Nesting
import Enclave.Proofs.Eval.Termination
import Enclave.Proofs.Session.CallDepth

/-!
# Programs without loops

A program without loops finishes, with a value or with an error, exactly if there is a bound on how
often a class begins to install private fields that construct instances
(`Session.finishes_iff_bounded`). Where no class has such fields it finishes; the limit on the depth
of calls cuts off everything else. A class whose private field constructs an instance of that class
itself is not cut off (`Session.not_finishes_endless`).
-/

namespace Enclave

/-- A program in which nothing is a loop, wherever it is nested. -/
def Program.IsLoopFree (p : Program) : Prop := ∀ s ∈ p.body, (Part.stmt s).All Part.IsPlain

/-- A piece of syntax that, if it is a class, has no private field whose initializer constructs
instances. -/
def Part.InitializesPlainly : Part → Prop
  | .class c => ∀ e ∈ c.initializers, (Part.expr e).constructs = false
  | _ => True

/-- A test that nothing in a program is a loop, if nothing is nested deeper than a bound. -/
def Program.isLoopFreeWithin (bound : ℕ) (p : Program) : Bool :=
  p.body.all fun s => (Part.stmt s).allWithin (fun q => !q.isLoop) bound

theorem Program.isLoopFree_of_within {bound : ℕ} {p : Program}
    (h : p.isLoopFreeWithin bound = true) : p.IsLoopFree := fun s hs =>
  (Part.all_of_allWithin (List.all_eq_true.mp h s hs)).imp fun q hq => by
    rwa [Bool.not_eq_true'] at hq

/-- A value, or an error of the script. -/
def Outcome.IsAnswer : Outcome → Prop
  | .value _ | .failed _ => True
  | .rejected _ | .broken _ | .exhausted => False

namespace Session

/-- From some number of steps on, a source comes to one and the same answer. -/
def Finishes (maxDepth : ℕ) (source : List UInt8) : Prop :=
  ∃ outcome session, outcome.IsAnswer ∧
    ∃ n, ∀ k, n ≤ k → ran maxDepth source k = (outcome, session)

variable {maxDepth : ℕ} {source : List UInt8} {unit : CompiledUnit} {ok : Part → Prop}

/-- What the end of an operation comes to. -/
def answer : EStateM.Result Stop Machine Value → Outcome × Session
  | .ok v m => (.value v, (Session.mk m).settle [v])
  | .error (.raised e) m => (.failed e, (Session.mk m).settle (Outcome.failed e).values)
  | .error (.broken fault) m => (.broken fault, (Session.mk m).settle [])
  | .error .exhausted m => (.exhausted, (Session.mk m).settle [])

theorem perform_eq_answer (s : Session) (x : Eval Value) : s.perform x = answer (x s.machine) := by
  unfold perform
  cases x s.machine with
  | ok v m => rfl
  | error stop m => cases stop <;> rfl

/-! ### The start -/

/-- At first there are no functions of a script and no classes. -/
theorem madeOf_start (maxDepth : ℕ) (ok : Part → Prop) : (start maxDepth).machine.MadeOf ok where
  functions i c hc := by
    have hnative : ∀ f ∈ (start maxDepth).machine.world.functions.toList, ∃ n, f = .native n := by
      simp [start, initialWorld, addBuiltin, World.newFunction, World.declare, World.empty]
    -- Every function that is there is a native one.
    by_cases hi : i < (start maxDepth).machine.world.functions.size
    · rw [Array.getD_eq_getD_getElem?, Array.getElem?_eq_getElem hi] at hc
      obtain ⟨n, hn⟩ := hnative _ (Array.getElem_mem_toList hi)
      rw [Option.getD_some, hn] at hc
      cases hc
    · rw [getD_of_size_le (Nat.le_of_not_lt hi)] at hc
      cases hc
  classes _ _ hf := nomatch hf

/-- Reclaiming touches neither classes nor what has happened. -/
theorem recursions_settle (s : Session) (held : List Value) :
    (s.settle held).machine.recursions = s.machine.recursions := by
  have hclasses := (World.sameContents_reclaim s.machine.world
    (.scope Scopes.rootId :: nodesOf held)).classes
  -- a reclaim leaves the classes and the journal as they are, so the same are recursions
  have hsame : (s.settle held).machine.world.isRecursion = s.machine.world.isRecursion :=
    funext fun e => by
      cases e with
      | installing c o =>
        change (((s.settle held).machine.world.classAt c).recurs) = _
        rw [World.classAt, show (s.settle held).machine.world.classes = s.machine.world.classes from
          hclasses]
        rfl
      | _ => rfl
  rw [Machine.recursions, hsame]
  rfl

section Compiled

variable (hcompile : compile source = .ok unit)

include hcompile

/-- What running the source comes to. -/
theorem ran_eq (steps : ℕ) : ran maxDepth source steps =
    answer (Eval.runProgram (evaluator steps) unit (start maxDepth).machine) := by
  rw [ran, hcompile]
  exact perform_eq_answer _ _

/-- What has happened by then. -/
theorem recursions_ran (steps : ℕ) :
    (ran maxDepth source steps).2.machine.recursions =
      (Eval.final (Eval.runProgram (evaluator steps) unit)
        (start maxDepth).machine).recursions := by
  rw [ran_eq hcompile, Eval.final]
  cases Eval.runProgram (evaluator steps) unit (start maxDepth).machine with
  | ok v m => exact recursions_settle ⟨m⟩ _
  | error stop m => cases stop <;> exact recursions_settle ⟨m⟩ _

/-- A unit that is compiled does not run into what binding rules out. -/
theorem not_broken (steps : ℕ) (fault : Fault) :
    (ran maxDepth source steps).1 ≠ .broken fault := by
  have hx : (start maxDepth).Operation [] (Eval.runUnit (evaluator steps) unit) :=
    .run steps hcompile
  have hheld : ∀ v ∈ ([] : List Value),
      (start maxDepth).machine.world.Admits (fun _ => False) v := fun _ hv => nomatch hv
  have hyields := yields_of_operation (sound_start maxDepth) hheld hx
  rw [ran, hcompile]
  exact (steps_final hyields).2.2 fault

/-- Whatever a source comes to for good is an answer, unless it runs out of steps. -/
theorem finishes_of_constant {r : EStateM.Result Stop Machine Value} {n : ℕ}
    (hrun : ∀ k, n ≤ k → Eval.runProgram (evaluator k) unit (start maxDepth).machine = r)
    (hends : ∀ m', r ≠ .error .exhausted m') : Finishes maxDepth source := by
  have hsame : ∀ k, n ≤ k → ran maxDepth source k = answer r := fun k hk => by
    rw [ran_eq hcompile, hrun k hk]
  refine ⟨(answer r).1, (answer r).2, ?_, n, hsame⟩
  -- the one answer is not broken, since no run is
  have hbroken : ∀ fault, (ran maxDepth source n).1 ≠ .broken fault :=
    not_broken hcompile n
  rw [hsame n (Nat.le_refl n)] at hbroken
  cases r with
  | ok v m => trivial
  | error stop m =>
    cases stop with
    | raised e => trivial
    | broken fault => exact absurd rfl (hbroken fault)
    | exhausted => exact absurd rfl (hends m)

/-- If the recursions are bounded, no number of steps exceeds the bound, so the program settles. -/
theorem finishes_of_bounded (hfree : unit.program.IsLoopFree) {bound : ℕ}
    (hbound : ∀ k, (ran maxDepth source k).2.machine.recursions ≤ bound) :
    Finishes maxDepth source := by
  -- the bound leaves one installation more than can be recorded without exceeding it
  have hleft : (start maxDepth).machine.HasLeft bound maxDepth (bound + 1) :=
    ⟨madeOf_start maxDepth _, Nat.le_add_left _ _, by omega⟩
  have hbuilt : Eval.Built .plain (Eval.Whole .plain) (fun self => Eval.runProgram self unit)
      (start maxDepth).machine Eval.Gives :=
    Eval.built_runProgram Eval.supports_plain unit hfree (Nat.zero_le _)
  cases hbuilt.settles_plain (Eval.callsSettle bound maxDepth) (isTidy_start maxDepth) hleft with
  | gives v m' n hrun =>
    exact finishes_of_constant hcompile hrun fun _ h => nomatch h
  | stops stop m' n hstop hrun =>
    refine finishes_of_constant hcompile hrun fun m'' h => ?_
    cases h
    exact hstop rfl
  -- a run that exceeds the bound would be one of those that it bounds
  | exceeds n hrun =>
    obtain ⟨m', hrun, hexceeds⟩ := hrun n (Nat.le_refl n)
    have hle := hbound n
    rw [recursions_ran hcompile, Eval.final_of_error hrun] at hle
    exact absurd hexceeds (Nat.not_lt_of_le hle)

/-- Where no class anywhere has a private field that constructs instances, nothing recurs. -/
theorem recursions_eq_zero
    (hplain : ∀ s ∈ unit.program.body, (Part.stmt s).All Part.InitializesPlainly) (steps : ℕ) :
    (ran maxDepth source steps).2.machine.recursions = 0 := by
  have hbuilt : Eval.Built (.madeOf Part.InitializesPlainly)
      (Eval.Whole (.madeOf Part.InitializesPlainly)) (fun self => Eval.runProgram self unit)
      (start maxDepth).machine Eval.Gives :=
    Eval.built_runProgram (Eval.supports_madeOf _) unit hplain (Nat.zero_le _)
  -- every class that is there by then was made from a class of the program
  have hmade := (hbuilt.proceeds_whole (keeps_evaluator steps) (proceeds_evaluator _ steps)
    (isTidy_start maxDepth) (madeOf_start maxDepth _)).1
  rw [recursions_ran hcompile]
  refine List.countP_eq_zero.mpr fun e _ he => ?_
  cases e with
  | installing c o =>
    obtain ⟨f, hf, hrecurs⟩ := List.any_eq_true.mp he
    obtain ⟨definition, hfield, hall⟩ := hmade.classes c f hf
    cases hinitializer : f.initializer with
    | none =>
      rw [hinitializer] at hrecurs
      cases hrecurs
    | some e =>
      have hplain := hall.self e (ClassDef.mem_initializers hfield hinitializer)
      rw [hinitializer, Option.any_some, hplain] at hrecurs
      cases hrecurs
  | _ => cases he

end Compiled

/-- With fewer steps than it takes to finish there are only finitely many counts. -/
theorem Finishes.bounded (h : Finishes maxDepth source) :
    ∃ bound, ∀ k, (ran maxDepth source k).2.machine.recursions ≤ bound := by
  obtain ⟨outcome, session, -, n, hsame⟩ := h
  let count := fun k => (ran maxDepth source k).2.machine.recursions
  refine ⟨(Finset.range (n + 1)).sup count, fun k => ?_⟩
  -- From `n` steps on nothing changes, so the largest count up to there bounds all.
  by_cases hk : k ≤ n
  · exact Finset.le_sup (f := count) (Finset.mem_range.mpr (Nat.lt_succ_of_le hk))
  · have hcount : count k = count n := by
      change (ran maxDepth source k).2.machine.recursions = _
      rw [hsame k (Nat.le_of_not_le hk), ← hsame n (Nat.le_refl n)]
    change count k ≤ _
    rw [hcount]
    exact Finset.le_sup (f := count) (Finset.mem_range.mpr (Nat.lt_succ_self n))

/-! ### Main result -/

/-- **Termination.** Consider a program without loops, under any limit on the depth of calls. It
finishes if and only if the installations of private fields that construct instances are bounded in
number, however many steps it is given. If no class anywhere in it has such a field, it finishes. -/
theorem finishes_iff_bounded (maxDepth : ℕ) (hcompile : compile source = .ok unit)
    (hfree : unit.program.IsLoopFree) :
    (Finishes maxDepth source ↔
      ∃ bound, ∀ k, (ran maxDepth source k).2.machine.recursions ≤ bound) ∧
    ((∀ s ∈ unit.program.body, (Part.stmt s).All Part.InitializesPlainly) →
      Finishes maxDepth source) :=
  ⟨⟨Finishes.bounded, fun ⟨_, hbound⟩ => finishes_of_bounded hcompile hfree hbound⟩, fun hplain =>
    finishes_of_bounded hcompile hfree fun k => Nat.le_of_eq (recursions_eq_zero hcompile hplain k)⟩

/-- Initializers construct nothing, down to a depth of four, in a form that can be computed. -/
def constructsNothing : Part → Bool
  | .class c => c.initializers.all fun e => (Part.expr e).allWithin (fun q => !q.isNew) 4
  | _ => true

/-- A method calls itself until it is refused; its class has a private field. -/
def recursing : List UInt8 :=
  "class A{private x=1;f(){this.f();}}try{new A().f();}catch(e){}".toUTF8.toList

theorem finishes_iff_bounded_recursing : Finishes 4 recursing ∧
    ∃ bound, ∀ k, (ran 4 recursing k).2.machine.recursions ≤ bound := by
  obtain ⟨unit, hcompile, htest⟩ := exists_compiled recursing
    (fun unit => unit.program.isLoopFreeWithin 8 &&
      unit.program.body.all fun s => (Part.stmt s).allWithin constructsNothing 8)
    (by decide +kernel)
  obtain ⟨hfree, hplain⟩ := Bool.and_eq_true_iff.mp htest
  obtain ⟨hiff, hfinishes⟩ :=
    finishes_iff_bounded 4 hcompile (Program.isLoopFree_of_within hfree)
  have hrecursing : Finishes 4 recursing := hfinishes fun s hs => by
    refine (Part.all_of_allWithin (List.all_eq_true.mp hplain s hs)).imp fun q hq => ?_
    cases q with
    | «class» c =>
      intro e he
      refine Part.All.constructs_eq_false ?_
      exact (Part.all_of_allWithin (List.all_eq_true.mp hq e he)).imp fun p hp => by
        rwa [Bool.not_eq_true'] at hp
    | _ => trivial
  exact ⟨hrecursing, hiff.mp hrecursing⟩

/-- A class constructs an instance of itself for its private field. -/
def endless : List UInt8 := "class A{private x=new A();}new A();".toUTF8.toList

/-- A class statement has made a class that constructs instances of itself, and the expression
constructs one. -/
def NestsIn (e : Expr) : EStateM.Result Stop Machine Flow → Prop
  | .ok .normal m => m.world.Nests ⟨0, "A"⟩ "A" ∧
      m.world.scopes.lookup Scopes.rootId "A" = some (.class ⟨0, "A"⟩) ∧ e.constructed? = some "A"
  | _ => False

instance (e : Expr) : (r : EStateM.Result Stop Machine Flow) → Decidable (NestsIn e r)
  | .ok .normal _ => inferInstanceAs (Decidable (_ ∧ _ ∧ _))
  | .ok (.returned _) _ | .error .. => .isFalse id

/-- What comes of the class statement is not changed by more steps, and none suffice for the
expression. -/
theorem exhausts_runProgram {definition : ClassDef} {span span' : Span} {e : Expr}
    (hbody : unit.program.body = [⟨.classDef definition, span⟩, ⟨.expr e, span'⟩])
    (hnests : NestsIn e ((evaluator 1).exec ((Eval.topContext unit).holdingValues [.undefined])
      ⟨.classDef definition, span⟩ (start maxDepth).machine)) (k : ℕ) :
    Eval.Exhausts (Eval.runProgram (evaluator (k + 1)) unit) (start maxDepth).machine := by
  let context := (Eval.topContext unit).holdingValues [.undefined]
  let s : Stmt := ⟨.classDef definition, span⟩
  have hsuits : (start maxDepth).machine.Suits context.frame :=
    ⟨trivial, fun _ h => (nomatch h), fun _ h => nomatch h⟩
  -- one step is enough for the class, so any number of steps defines it alike
  have hagree : Eval.Agree True ((evaluator 1).exec context s (start maxDepth).machine)
      ((evaluator (k + 1)).exec context s (start maxDepth).machine) :=
    (agrees_evaluator_le (Nat.le_add_left 1 k)).exec s (isTidy_start maxDepth) trivial hsuits
  unfold NestsIn at hnests
  split at hnests
  · next m hrun =>
    obtain ⟨hclass, hlookup, he⟩ := hnests
    have hrun' : (evaluator (k + 1)).exec context s (start maxDepth).machine = .ok .normal m := by
      obtain hsame | ⟨-, m', hexhausted⟩ := hagree
      · exact hsame.symm.trans hrun
      · rw [hrun] at hexhausted
        cases hexhausted
    unfold Eval.runProgram
    rw [hbody]
    refine Eval.exhausts_bind rfl (Eval.exhausts_bind hrun' ?_)
    exact (Eval.exhausts_evaluator _ "A" (k + 1) he hclass hlookup).bind _
  · cases hnests

/-- A unit is made of a class statement and an expression that calls itself without end. -/
def nestsAtOnce (unit : CompiledUnit) : Bool :=
  match unit.program.body with
  | [⟨.classDef definition, span⟩, ⟨.expr e, _⟩] =>
    decide (NestsIn e ((evaluator 1).exec ((Eval.topContext unit).holdingValues [.undefined])
      ⟨.classDef definition, span⟩ (start 128).machine))
  | _ => false

/-- **No end.** It is not so that every program without loops finishes. -/
theorem not_finishes_endless :
    ¬∀ (maxDepth : ℕ) (source : List UInt8) (unit : CompiledUnit), compile source = .ok unit →
      unit.program.IsLoopFree → Finishes maxDepth source := by
  intro hall
  obtain ⟨unit, hcompile, htest⟩ := exists_compiled endless
    (fun unit => unit.program.isLoopFreeWithin 8 && nestsAtOnce unit) (by decide +kernel)
  obtain ⟨hfree, htest⟩ := Bool.and_eq_true_iff.mp htest
  obtain ⟨outcome, session, hanswer, n, hsame⟩ :=
    hall 128 endless unit hcompile (Program.isLoopFree_of_within hfree)
  unfold nestsAtOnce at htest
  split at htest
  · next definition span e span' hbody =>
    -- one step more than is said to be enough, and it is exhausted all the same
    obtain ⟨m, hrun⟩ := exhausts_runProgram hbody (of_decide_eq_true htest) n
    have hexhausted := hsame (n + 1) (Nat.le_succ n)
    rw [ran_eq hcompile, hrun] at hexhausted
    obtain ⟨rfl, -⟩ := Prod.mk.inj hexhausted
    exact hanswer
  · cases htest

end Session

end Enclave
