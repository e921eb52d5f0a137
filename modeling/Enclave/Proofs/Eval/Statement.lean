import Enclave.Eval.Statement
import Enclave.Proofs.Eval.ClassDefinition

/-!
# Statements

Every form of statement, with parts that are evaluated as they should be, is executed as it should
be (`flows_execStmt`). A handler is given what was thrown, which may turn up, or a new object.
-/

namespace Enclave.Eval

variable {gone : Node → Prop} {m : Machine} {context : Context} {sc : ScopeContext}
  {self : Evaluator}

theorem yields_errorValue (hm : m.Sound gone) {e : RuntimeError}
    (he : Catchable gone m.world e) : Yields gone (errorValue e) m := by
  unfold errorValue
  split
  · -- a thrown value is given back; another error becomes an object with a name and a message
    next v => exact Meets.pure (he v rfl)
  · have halters : World.Alters gone m.world (m.world.newObject none).2 :=
      World.alters_newObject hm.world fun _ h => nomatch h
    refine (meets_onWorld (g := (·.newObject none)) halters).bind hm ?_
    rintro o m₁ hm₁ hg₁ ⟨rfl, hm'⟩
    have ho : m₁.world.Knows gone (.object (m.world.newObject none).1) := by
      rw [hm']
      exact World.knows_newObject hm.world none
    have hname := World.alters_setProperty hm₁.world ho.2 (.string "name")
      (World.admits_string e.name)
    refine (meets_changeWorld hname).bind hm₁ ?_
    intro _ m₂ hm₂ hg₂ _
    have hmessage := World.alters_setProperty hm₂.world ho.2 (.string "message")
      (World.admits_string e.message)
    refine (meets_changeWorld hmessage).bind hm₂ ?_
    intro _ m₃ _ hg₃ _
    exact Meets.pure (World.admits_object.mpr ((ho.grows hg₂.world).grows hg₃.world))

/-- What a condition says of the flow of a statement. -/
abbrev Flows (gone : Node → Prop) (x : Eval Flow) (m : Machine) : Prop :=
  Meets gone x m fun flow m' => flow.Fits gone m'.world

section Parts

variable (hself : Evaluator.IsSound gone self) (hm : m.Sound gone) (hc : context.Suits gone m sc)

include hself hm hc

theorem flows_repeatRounds {test : Expr} {body : Stmt}
    (htest : context.frame.unit.CoversExpr sc test) (hbody : context.frame.unit.CoversStmt sc body)
    (rounds : ℕ) : Flows gone (repeatRounds (loopRound self context test body) rounds) m := by
  induction rounds generalizing m with
  | zero => exact meets_exhausted
  | succ rounds ih =>
    -- a round runs the body, or ends the loop when the test fails
    have hround : Meets gone (loopRound self context test body) m fun flow? m' =>
        ∀ flow ∈ flow?, flow.Fits gone m'.world := by
      unfold loopRound
      refine (hself.eval hm hc htest).bind hm ?_
      intro v m₁ hm₁ hg₁ _
      split
      · refine (hself.exec hm₁ (hc.grows hm hm₁ hg₁) hbody).bind hm₁ ?_
        intro flow m₂ _ _ hflow
        exact Meets.pure fun _ h => by cases h; exact hflow
      · exact Meets.pure fun _ h => nomatch h
    unfold repeatRounds
    refine hround.bind hm ?_
    intro flow? m₁ hm₁ hg₁ hflow
    match flow? with
    | none => exact Meets.pure Flow.fits_normal
    | some (.returned v) => exact Meets.pure (hflow _ rfl)
    | some .normal => exact ih hm₁ (hc.grows hm hm₁ hg₁)

theorem flows_attempt {body handler : List Stmt} (param : String)
    (hbody : context.frame.unit.CoversStmts sc body)
    (hhandler : context.frame.unit.CoversStmts sc handler) :
    Flows gone (attempt self context body param handler) m := by
  unfold attempt
  -- the body runs in a scope of its own
  refine (makes_newScope hm.world hc.scope).meets.bind hm ?_
  intro scope m₁ hm₁ hg₁ hscope
  have hc₁ := hc.grows hm hm₁ hg₁
  refine (meets_execBlock hself hm₁ (hc₁.within hscope) hbody).catching.bind hm₁ ?_
  intro result m₂ hm₂ hg₂ hresult
  cases result with
  | ok flow => exact Meets.pure hresult
  | error e =>
    -- the handler runs in another, where its parameter is bound to what was caught
    have hc₂ := hc₁.grows hm₁ hm₂ hg₂
    refine (makes_newScope hm₂.world hc₂.scope).meets.bind hm₂ ?_
    intro inner m₃ hm₃ hg₃ hinner
    have hcaught : Catchable gone m₃.world e := fun v hv => hm₂.admits_grows hg₃ (hresult v hv)
    refine (yields_errorValue hm₃ hcaught).bind hm₃ ?_
    intro v m₄ hm₄ hg₄ hv
    refine (meets_changeWorld (World.alters_declare hm₄.world hinner.2 param hv true)).bind hm₄ ?_
    intro _ m₅ hm₅ hg₅ _
    have hg := hg₄.trans hg₅
    have hc₅ := ((hc₂.grows hm₂ hm₃ hg₃).grows hm₃ hm₅ hg).within (hinner.grows hg.world)
    -- the scope of the body is still held, for what was made in it
    exact meets_execBlock hself hm₅ (hc₅.holdingNode
      (hscope.grows ((hg₂.trans hg₃).trans hg).world)) hhandler

/-- **Statements.** -/
theorem flows_execStmt {s : Stmt} (hs : context.frame.unit.CoversStmt sc s) :
    Flows gone (execStmt self context s) m := by
  unfold execStmt
  -- one case for each form: all but a return, and what holds statements, end normally
  cases hform : s.form with
  | declare name isMutable initializer =>
    refine (yields_evalOptional hself hm hc (hs.declare hform)).bind hm ?_
    intro v m₁ hm₁ _ hv
    -- the value is bound in the scope of the context, which is not gone
    have halters := World.alters_declare hm₁.world hc.scope.2 name hv isMutable
    exact (meets_changeWorld halters).bind hm₁ fun _ _ _ _ _ => Meets.pure Flow.fits_normal
  | expr e =>
    exact (hself.eval hm hc (hs.expr hform)).bind hm fun _ _ _ _ _ => Meets.pure Flow.fits_normal
  | block body =>
    refine (makes_newScope hm.world hc.scope).meets.bind hm ?_
    intro scope m₁ hm₁ hg₁ hscope
    exact meets_execBlock hself hm₁ ((hc.grows hm hm₁ hg₁).within hscope) (hs.block hform)
  | cond test yes no =>
    obtain ⟨htest, hyes, hno⟩ := hs.cond hform
    refine (hself.eval hm hc htest).bind hm ?_
    intro v m₁ hm₁ hg₁ _
    have hc₁ := hc.grows hm hm₁ hg₁
    split
    · exact hself.exec hm₁ hc₁ hyes
    · -- a condition without an `else` ends normally as well
      cases no with
      | none => exact Meets.pure Flow.fits_normal
      | some no => exact hself.exec hm₁ hc₁ (hno no rfl)
  | loop test body =>
    obtain ⟨htest, hbody⟩ := hs.loop hform
    exact flows_repeatRounds hself hm hc htest hbody self.rounds
  -- these carry a value, which is admitted where it was made
  | ret value =>
    refine (yields_evalOptional hself hm hc (hs.ret hform)).bind hm ?_
    exact fun _ _ _ _ hv => Meets.pure (Flow.fits_returned hv)
  | raise e =>
    refine (hself.eval hm hc (hs.raise hform)).bind hm ?_
    exact fun v _ _ _ hv => meets_raise fun _ heq => by cases heq; exact hv
  | attempt body param handler =>
    obtain ⟨hbody, hhandler⟩ := hs.attempt hform
    exact flows_attempt hself hm hc param hbody hhandler
  | functionDef definition => exact Meets.pure Flow.fits_normal
  | classDef definition =>
    refine (meets_defineClass hself hm hc (hs.classDef hform)).bind hm ?_
    intro r m₁ hm₁ _ hr
    have halters := World.alters_declare hm₁.world hc.scope.2 r.name hr true
    exact (meets_changeWorld halters).bind hm₁ fun _ _ _ _ _ => Meets.pure Flow.fits_normal

end Parts

end Enclave.Eval
