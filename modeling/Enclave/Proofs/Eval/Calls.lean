import Enclave.Eval.Calls
import Enclave.Proofs.Eval.Contexts

/-!
# Calls

A function that is made of syntax where binding met it may be called, wherever it turns up: it knows
its scope and its home. Its body runs in a context that suits.
-/

namespace Enclave

variable {gone : Node → Prop} {m : Machine} {context : Context} {sc : ScopeContext}
  {self : Evaluator}

/-! ### Making functions -/

/-- Without `super`, a context fits every home that it fitted. -/
theorem World.Surrounds.withNothing {w : World} {home : Option Home} (h : w.Surrounds sc home) :
    w.Surrounds (sc.withSuper .nothing) home :=
  ⟨h.fits, h.enclosing, fun hne => absurd rfl hne⟩

namespace Eval

section MakeFunction

variable {unit : CompiledUnit} {definition : FunctionDef} {scope : ScopeId} {home : Option Home}
  (hw : m.world.Sound gone) (hunit : unit.IsBound) (hcovers : unit.CoversFunction sc definition)
  (hsurrounds : m.world.Surrounds sc home) (hscope : m.world.Knows gone (.scope scope))
  (hhome : ∀ h ∈ home, ∀ n ∈ h.holds, m.world.Knows gone n)

include hw hunit hcovers hsurrounds hscope hhome

/-- A function is made of syntax and of what surrounds it. -/
theorem makes_makeFunction :
    Makes gone (makeFunction unit definition scope home) m fun f w =>
      w.Knows gone f.node ∧ w.functionAt f = .script ⟨unit, definition, scope, home⟩ := by
  have hfits : (Function.script ⟨unit, definition, scope, home⟩).Fits m.world := fun c hc => by
    cases hc
    exact ⟨sc, hunit, hcovers, hsurrounds⟩
  -- a closure holds its scope, and the home it was made in if it has one
  have hholds : ∀ n ∈ (Function.script ⟨unit, definition, scope, home⟩).holds,
      m.world.Knows gone n := by
    intro n hn
    rcases List.mem_cons.mp hn with rfl | hn
    · exact hscope
    · cases home with
      | none => cases hn
      | some home => exact hhome home rfl n hn
  obtain ⟨f, w, hrun, halters, heq⟩ := makes_onWorld (g := (·.newFunction _ _))
    (World.alters_newFunction hw (definition.name.getD "") hfits hholds)
  refine ⟨f, w, hrun, halters, ?_⟩
  cases heq
  let name := definition.name.getD ""
  exact ⟨World.knows_newFunction hw name _, World.functionAt_newFunction name _⟩

/-- A function that is no derived constructor may turn up as a value. -/
theorem makes_value (hsuper : sc.superUse ≠ .construction) :
    Makes gone (makeFunction unit definition scope home) m fun f w =>
      w.Admits gone (.function f) := by
  obtain ⟨f, w, hrun, halters, hknows, hat⟩ :=
    makes_makeFunction hw hunit hcovers hsurrounds hscope hhome
  refine ⟨f, w, hrun, halters, ⟨hknows.1, fun c hc => ?_⟩, fun n hn => by cases hn; exact hknows⟩
  -- The only function to be found at the new place is the one just made.
  obtain rfl : ⟨unit, definition, scope, home⟩ = c := by
    rw [World.functionAt, hc] at hat
    cases hat
    rfl
  obtain ⟨-, hg, -⟩ := halters.keeps hw
  exact ⟨sc, hsuper, hunit, hcovers, hsurrounds.grows hw.tokens hg⟩

end MakeFunction

/-- A new scope is known. -/
theorem makes_newScope (hw : m.world.Sound gone) {parent : ScopeId}
    (hparent : m.world.Knows gone (.scope parent)) :
    Makes gone (newScope parent) m fun scope w => w.Knows gone (.scope scope) := by
  obtain ⟨scope, w, hrun, halters, heq⟩ := makes_onWorld (g := (·.childScope parent))
    (World.alters_childScope hw hparent)
  refine ⟨scope, w, hrun, halters, ?_⟩
  cases heq
  exact World.knows_childScope hw parent

/-! ### Blocks -/

/-- A function written inside another one. -/
theorem yields_function (hm : m.Sound gone) (hc : context.Suits gone m sc)
    {definition : FunctionDef}
    (hcovers : context.frame.unit.CoversFunction (sc.withSuper .nothing) definition) :
    Meets gone (makeFunction context.frame.unit definition context.scope context.frame.home) m
      fun f m' => m'.world.Admits gone (.function f) :=
  (makes_value hm.world hc.unit hcovers hc.surrounds.withNothing hc.scope hc.home
    (by decide : SuperUse.nothing ≠ .construction)).meets

/-- Hoisting the functions of a list of statements runs. -/
theorem runs_hoist (hm : m.Sound gone) (hc : context.Suits gone m sc) {body : List Stmt}
    (hbody : context.frame.unit.CoversStmts sc body) : Runs gone (hoist context body) m := by
  induction body generalizing m with
  | nil => exact Meets.pure trivial
  | cons s body ih =>
    obtain ⟨hs, hrest⟩ := hbody.cons
    obtain ⟨form, span⟩ := s
    cases form with
    -- a declared function is made, then bound in the scope before the rest are made
    | functionDef definition =>
      change Runs gone (do
        let f ← makeFunction context.frame.unit definition context.scope context.frame.home
        changeWorld (·.declare context.scope f.name (.function f) true)
        hoist context body) m
      refine (yields_function hm hc (hs.functionDef rfl)).bind hm ?_
      intro f m' hm' hg hf
      have halters := World.alters_declare hm'.world hc.scope.2 f.name hf true
      refine (meets_changeWorld halters).bind hm' ?_
      intro _ m'' hm'' hg' _
      exact ih hm'' (hc.grows hm hm'' (hg.trans hg')) hrest
    | _ => exact ih hm hc hrest

/-- Statements that are executed in turn end in a flow whose value may turn up. -/
theorem meets_execAll (hself : Evaluator.IsSound gone self) (hm : m.Sound gone)
    (hc : context.Suits gone m sc) {body : List Stmt}
    (hbody : context.frame.unit.CoversStmts sc body) :
    Meets gone (execAll self context body) m fun flow m' => flow.Fits gone m'.world := by
  -- Statement by statement, up to one that returns.
  induction body generalizing m with
  | nil => exact Meets.pure Flow.fits_normal
  | cons s body ih =>
    obtain ⟨hs, hrest⟩ := hbody.cons
    refine (hself.exec hm hc hs).bind hm ?_
    intro flow m' hm' hg hflow
    cases flow with
    | returned v => exact Meets.pure hflow
    | normal => exact ih hm' (hc.grows hm hm' hg) hrest

/-- A block ends in a flow whose value may turn up. -/
theorem meets_execBlock (hself : Evaluator.IsSound gone self) (hm : m.Sound gone)
    (hc : context.Suits gone m sc) {body : List Stmt}
    (hbody : context.frame.unit.CoversStmts sc body) :
    Meets gone (execBlock self context body) m fun flow m' => flow.Fits gone m'.world := by
  refine (runs_hoist hm hc hbody).bind hm ?_
  exact fun _ m' hm' hg _ => meets_execAll hself hm' (hc.grows hm hm' hg) hbody

/-! ### Functions that are there from the start -/

/-- Printing yields a value. -/
theorem yields_print (args : List Value) : Yields gone (print args) m :=
  ⟨.single (.count m m.depth _), World.admits_undefined⟩

/-- An assertion yields a value. -/
theorem yields_assert (args : List Value) : Yields gone (assert args) m := by
  unfold assert
  split
  · exact Meets.pure World.admits_undefined
  · exact meets_raise fun _ h => nomatch h

/-- Making a symbol yields a value. -/
theorem yields_makeSymbol (hm : m.Sound gone) (args : List Value) :
    Yields gone (makeSymbol args) m := by
  unfold makeSymbol
  exact (meets_onWorld (World.alters_newSymbol hm.world _)).bind hm fun _ _ _ _ _ =>
    Meets.pure (World.admits_symbol _)

section Held

variable {held : List Node} {this : Value} {args : List Value}
  (hself : Evaluator.IsSound gone self) (hm : m.Sound gone)
  (hheld : ∀ n ∈ held, m.world.Knows gone n) (hthis : m.world.Admits gone this)
  (hargs : ∀ v ∈ args, m.world.Admits gone v)

include hself hm hheld hargs

/-- Calling a function that is a value. -/
theorem yields_function_call {f : FunctionRef} {this : Value}
    (hf : m.world.Admits gone (.function f)) (hthis : m.world.Admits gone this) :
    Yields gone (self.invoke (f.node :: held) f this args none) m := by
  refine hself.invoke hm (fun n hn => ?_) (Machine.mayCall_of_admits hf) hthis hargs
  rcases List.mem_cons.mp hn with rfl | hn
  · exact hf.known _ rfl
  · exact hheld n hn

include hthis

/-- Calling the receiver yields a value. -/
theorem yields_callReceiver : Yields gone (callReceiver self held this args) m := by
  cases this with
  | function f =>
    refine yields_function_call hself hm hheld (fun v hv => ?_) hthis (World.admits_headD hargs)
    exact hargs v (List.mem_of_mem_drop hv)
  | _ => exact meets_raiseType _

/-- Every function that is there from the start yields a value. -/
theorem yields_runNative (n : Native) : Yields gone (runNative self held n this args) m := by
  cases n with
  | print => exact yields_print args
  | assert => exact yields_assert args
  | symbol => exact yields_makeSymbol hm args
  | call => exact yields_callReceiver hself hm hheld hthis hargs

/-- Calling a value that may turn up yields a value. -/
theorem yields_callValue {callee : Value} (hcallee : m.world.Admits gone callee) :
    Yields gone (callValue self held callee this args) m := by
  cases callee with
  | function f => exact yields_function_call hself hm hheld hargs hcallee hthis
  | «class» c => exact meets_raiseType _
  | _ => exact meets_raiseType _

end Held

/-! ### Functions of a script -/

/-- Binding parameters runs. -/
theorem runs_bindParams (hm : m.Sound gone) {scope : ScopeId}
    (hscope : m.world.Knows gone (.scope scope)) {params : List String} {args : List Value}
    (hargs : ∀ v ∈ args, m.world.Admits gone v) : Runs gone (bindParams scope params args) m := by
  induction params generalizing m args with
  | nil => exact Meets.pure trivial
  | cons name params ih =>
    have halters := World.alters_declare hm.world hscope.2 name (World.admits_headD hargs) true
    refine (meets_changeWorld halters).bind hm ?_
    intro _ m' hm' hg _
    refine ih hm' (hscope.grows hg.world) fun v hv => ?_
    exact hm.admits_grows hg (hargs v (List.mem_of_mem_drop hv))

section Invoke

variable {held : List Node} {this : Value} {args : List Value}
  {construction : Option ConstructionId} (hself : Evaluator.IsSound gone self)
  (hm : m.Sound gone) (hheld : ∀ n ∈ held, m.world.Knows gone n)
  (hthis : m.world.Admits gone this) (hargs : ∀ v ∈ args, m.world.Admits gone v)

include hself hm hheld hthis hargs

/-- A function of a script yields a value. -/
theorem yields_runScript {c : Closure} (hbound : c.IsBound m.world sc)
    (hholds : ∀ n ∈ (Function.script c).holds, m.world.Knows gone n)
    (hconstruction : sc.superUse = .construction →
      ∃ id, construction = some id ∧ m.KnowsConstruction gone id) :
    Yields gone (runScript self held c this args construction) m := by
  -- what the closure holds is known: its scope, and all that its home holds
  have hparent : m.world.Knows gone (.scope c.scope) := hholds _ List.mem_cons_self
  have hhome : ∀ h ∈ c.home, ∀ n ∈ h.holds, m.world.Knows gone n := by
    intro h hh n hn
    refine hholds n (List.mem_cons_of_mem _ ?_)
    rw [Option.mem_def.mp hh]
    exact hn
  unfold runScript
  -- the new scope has the parameters bound in it before the body is run
  refine (makes_newScope hm.world hparent).meets.bind hm ?_
  intro scope m' hm' hg hscope
  refine (runs_bindParams hm' hscope fun v hv => hm.admits_grows hg (hargs v hv)).bind hm' ?_
  intro _ m'' hm'' hg' _
  have hg'' := hg.trans hg'
  have hc : Context.Suits gone m'' ⟨⟨c.unit, this, c.home, construction⟩, scope,
      nodesOf (args.drop c.definition.params.length) ++ held⟩ sc :=
    { unit := hbound.unit
      surrounds := hbound.surrounds.grows hm.world.tokens hg''.world
      this := hm.admits_grows hg'' hthis
      home := fun h hh n hn => (hhome h hh n hn).grows hg''.world
      scope := hscope.grows hg'.world
      held := fun n hn => by
        -- the body holds the arguments beyond the parameters, and what the caller held
        rcases List.mem_append.mp hn with hn | hn
        · refine (World.knows_of_mem_nodesOf (fun v hv => ?_) n hn).grows hg''.world
          exact hargs v (List.mem_of_mem_drop hv)
        · exact (hheld n hn).grows hg''.world
      construction := fun hsuper => by
        obtain ⟨id, hid, hknows⟩ := hconstruction hsuper
        exact ⟨id, hid, hknows.grows hm.toCoherent hm''.toCoherent hg''⟩ }
  refine (meets_execBlock hself hm'' hc hbound.covers).bind hm'' ?_
  intro flow m₃ _ _ hflow
  cases flow with
  | returned v => exact Meets.pure (hflow v rfl)
  | normal => exact Meets.pure World.admits_undefined

/-- **Calls.** -/
theorem yields_invoke {f : FunctionRef} (hf : m.MayCall gone f construction) :
    Yields gone (invoke self held f this args construction) m := by
  unfold invoke
  refine Meets.get_bind ?_
  split
  · -- the calls are too deep: only the refusal is recorded
    have hwarrants : m.Warrants gone (.refused f) := trivial
    exact (meets_record hwarrants).bind hm fun _ _ _ _ _ => meets_raise fun _ h => by cases h
  · have henter : Meets gone (modify (enter f this)) m fun _ m' => m' = enter f this m := by
      refine ⟨?_, rfl⟩
      exact .tail (.single (.count m (m.depth + 1) m.output)) (.record trivial)
    refine henter.bind hm ?_
    rintro _ _ hm' hg rfl
    have hheld' : ∀ n ∈ held, (enter f this m).world.Knows gone n := hheld
    -- however the call ends, the depth is set back
    refine Meets.thenAlways ?_ (fun m' => ?_) (fun _ _ h => h) fun _ => rfl
    · cases hat : m.world.functionAt f with
      | native n => exact yields_runNative hself hm' hheld' hthis hargs n
      | script c =>
        -- a function known is known with all that it holds, its closure included
        obtain ⟨sc, hbound, hconstruction⟩ := hf.fits c hat
        refine yields_runScript hself hm' hheld' hthis hargs hbound (fun n hn => ?_)
          fun hsuper => ?_
        · refine hm.world.knows_of_link hf.known (World.mem_links.mpr (Or.inl ?_))
          change n ∈ (m.world.functionAt f).holds
          rw [hat]
          exact hn
        · obtain ⟨id, hid, hknows⟩ := hconstruction hsuper
          exact ⟨id, hid, hknows.grows hm.toCoherent hm'.toCoherent hg⟩
    · exact .tail (.single (.count m' (m'.depth - 1) m'.output)) (.record trivial)

end Invoke

end Eval

end Enclave
