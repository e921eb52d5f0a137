import Enclave.Proofs.Eval.Pieces

/-!
# Contexts that suit

Syntax is evaluated in a context that suits the scope context in which binding met it
(`Context.Suits`): its home is the class around the syntax, everything it holds is known, and where
`super(...)` may stand there is a construction. What an evaluator has to do with its parts is
`Evaluator.IsSound`.
-/

namespace Enclave

variable {gone : Node → Prop} {m m' : Machine} {sc : ScopeContext}

/-! ### Contexts -/

/-- A context in which syntax may be evaluated that binding met in a scope context. -/
structure Context.Suits (gone : Node → Prop) (m : Machine) (context : Context) (sc : ScopeContext) :
    Prop where
  unit : context.frame.unit.IsBound
  surrounds : m.world.Surrounds sc context.frame.home
  this : m.world.Admits gone context.frame.this
  home : ∀ h ∈ context.frame.home, ∀ n ∈ h.holds, m.world.Knows gone n
  scope : m.world.Knows gone (.scope context.scope)
  held : ∀ n ∈ context.held, m.world.Knows gone n
  construction : sc.superUse = .construction →
    ∃ id, context.frame.construction = some id ∧ m.KnowsConstruction gone id

namespace Context.Suits

variable {context : Context} (h : context.Suits gone m sc)

include h

theorem grows (hm : m.Sound gone) (hm' : m'.Sound gone) (hg : m.Grows m') :
    context.Suits gone m' sc where
  unit := h.unit
  surrounds := h.surrounds.grows hm.world.tokens hg.world
  this := hm.admits_grows hg h.this
  home x hx n hn := (h.home x hx n hn).grows hg.world
  scope := h.scope.grows hg.world
  held n hn := (h.held n hn).grows hg.world
  construction hsuper := by
    obtain ⟨id, hid, hknows⟩ := h.construction hsuper
    exact ⟨id, hid, hknows.grows hm.toCoherent hm'.toCoherent hg⟩

theorem holding {nodes : List Node} (hnodes : ∀ n ∈ nodes, m.world.Knows gone n) :
    (context.holding nodes).Suits gone m sc :=
  { h with
    held := fun n hn => by
      rcases List.mem_append.mp hn with hn | hn
      · exact hnodes n hn
      · exact h.held n hn }

theorem holdingNode {n : Node} (hn : m.world.Knows gone n) :
    (context.holding [n]).Suits gone m sc :=
  h.holding fun _ hmem => List.mem_singleton.mp hmem ▸ hn

theorem holdingValues {values : List Value} (hvalues : ∀ v ∈ values, m.world.Admits gone v) :
    (context.holdingValues values).Suits gone m sc :=
  h.holding (World.knows_of_mem_nodesOf hvalues)

theorem holdingValue {v : Value} (hv : m.world.Admits gone v) :
    (context.holdingValues [v]).Suits gone m sc :=
  h.holdingValues fun _ hx => List.mem_singleton.mp hx ▸ hv

theorem within {scope : ScopeId} (hscope : m.world.Knows gone (.scope scope)) :
    (context.within scope).Suits gone m sc :=
  { h with scope := hscope }

/-- Everything that is held is known. -/
theorem nodes : ∀ n ∈ context.nodes, m.world.Knows gone n := by
  intro n hn
  -- held in a context are its scope, `this`, its home, and what the callers hold
  rcases List.mem_cons.mp hn with rfl | hn
  · exact h.scope
  rcases List.mem_append.mp hn with hn | hn
  · rcases List.mem_append.mp hn with hn | hn
    · exact World.knows_of_mem_nodesOf (fun v hv => List.mem_singleton.mp hv ▸ h.this) n hn
    · cases hhome : context.frame.home with
      | none =>
        rw [hhome] at hn
        cases hn
      | some home =>
        rw [hhome] at hn
        exact h.home home hhome n hn
  · exact h.held n hn

end Context.Suits

/-! ### Calls -/

/-- A function that may be called, with a construction if it is a derived constructor. -/
structure Machine.MayCall (gone : Node → Prop) (m : Machine) (f : FunctionRef)
    (construction : Option ConstructionId) : Prop where
  known : m.world.Knows gone f.node
  fits : ∀ c, m.world.functionAt f = .script c → ∃ sc : ScopeContext, c.IsBound m.world sc ∧
    (sc.superUse = .construction → ∃ id, construction = some id ∧ m.KnowsConstruction gone id)

/-- A function that is a value needs no construction. -/
theorem Machine.mayCall_of_admits {f : FunctionRef} (h : m.world.Admits gone (.function f)) :
    m.MayCall gone f none := by
  refine ⟨h.known _ rfl, fun c hc => ?_⟩
  obtain ⟨sc, hsuper, hbound⟩ := h.fits.2 c hc
  exact ⟨sc, hbound, fun h => absurd h hsuper⟩

/-- The value that a statement returns may turn up. -/
def Flow.Fits (gone : Node → Prop) (w : World) (flow : Flow) : Prop :=
  ∀ v, flow = .returned v → w.Admits gone v

theorem Flow.fits_normal {w : World} : Flow.normal.Fits gone w := fun _ h => nomatch h

theorem Flow.fits_returned {w : World} {v : Value} (h : w.Admits gone v) :
    (Flow.returned v).Fits gone w := fun _ heq => by cases heq; exact h

/-- An evaluator that does with the parts of a construct what it should. -/
structure Evaluator.IsSound (gone : Node → Prop) (parts : Evaluator) : Prop where
  eval : ∀ {m : Machine} {context : Context} {sc : ScopeContext} {e : Expr}, m.Sound gone →
    context.Suits gone m sc → context.frame.unit.CoversExpr sc e →
    Eval.Yields gone (parts.eval context e) m
  exec : ∀ {m : Machine} {context : Context} {sc : ScopeContext} {s : Stmt}, m.Sound gone →
    context.Suits gone m sc → context.frame.unit.CoversStmt sc s →
    Eval.Meets gone (parts.exec context s) m fun flow m' => flow.Fits gone m'.world
  invoke : ∀ {m : Machine} {held : List Node} {f : FunctionRef} {this : Value} {args : List Value}
    {construction : Option ConstructionId}, m.Sound gone → (∀ n ∈ held, m.world.Knows gone n) →
    m.MayCall gone f construction → m.world.Admits gone this →
    (∀ v ∈ args, m.world.Admits gone v) →
    Eval.Yields gone (parts.invoke held f this args construction) m

/-- An expression that may be left out gives a value. -/
theorem Eval.yields_evalOptional {parts : Evaluator} (hparts : parts.IsSound gone)
    {context : Context} (hm : m.Sound gone) (hc : context.Suits gone m sc) {e : Option Expr}
    (he : context.frame.unit.CoversOptional sc e) :
    Yields gone (evalOptional parts context e) m := by
  cases e with
  | none => exact Meets.pure World.admits_undefined
  | some e => exact hparts.eval hm hc he.of_some

end Enclave
