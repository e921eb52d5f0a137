import Enclave.Eval.Evaluator
import Enclave.Proofs.Eval.Expression
import Enclave.Proofs.Eval.Statement

/-!
# Evaluation

Whatever number of steps it has, the evaluator does with every construct what it should
(`isSound_evaluator`), so running a unit never meets what binding has ruled out.
-/

namespace Enclave

variable {gone : Node → Prop} {m : Machine}

/-- **Evaluation.** By induction on the steps: each form is evaluated with the evaluator that has
one step less. -/
theorem isSound_evaluator (gone : Node → Prop) (steps : ℕ) : (evaluator steps).IsSound gone := by
  induction steps with
  | zero =>
    exact ⟨fun _ _ _ => Eval.meets_exhausted, fun _ _ _ => Eval.meets_exhausted,
      fun _ _ _ _ _ => Eval.meets_exhausted⟩
  | succ steps ih =>
    exact ⟨fun hm hc he => Eval.yields_evalExpr ih hm hc he,
      fun hm hc hs => Eval.flows_execStmt ih hm hc hs,
      fun hm hheld hf hthis hargs => Eval.yields_invoke ih hm hheld hthis hargs hf⟩

namespace Eval

variable {context : Context} {sc : ScopeContext} {self : Evaluator}

theorem yields_runStatements (hself : Evaluator.IsSound gone self) (hm : m.Sound gone)
    (hc : context.Suits gone m sc) {last : Value} (hlast : m.world.Admits gone last)
    {body : List Stmt} (hbody : context.frame.unit.CoversStmts sc body) :
    Yields gone (runStatements self context last body) m := by
  -- on the statements, the value of the last expression being held by those that follow
  induction body generalizing m last with
  | nil => exact Meets.pure hlast
  | cons s body ih =>
    obtain ⟨hs, hrest⟩ := hbody.cons
    have hlast' := hc.holdingValue hlast
    obtain ⟨form, span⟩ := s
    cases form with
    | expr e =>
      unfold runStatements
      refine (hself.eval hm hlast' (hs.expr rfl)).bind hm ?_
      exact fun v m₁ hm₁ hg₁ hv => ih hm₁ (hc.grows hm hm₁ hg₁) hv hrest
    | _ =>
      refine (hself.exec hm hlast' hs).bind hm fun flow m₁ hm₁ hg₁ hflow => ?_
      cases flow with
      | returned v => exact Meets.pure (hflow v rfl)
      | normal => exact ih hm₁ (hc.grows hm hm₁ hg₁) (hm.admits_grows hg₁ hlast) hrest

/-- **Units.** A unit that is bound runs without a fault. -/
theorem yields_runUnit (hself : Evaluator.IsSound gone self) (hm : m.Sound gone)
    {unit : CompiledUnit} (hunit : unit.IsBound) : Yields gone (runUnit self unit) m := by
  unfold runUnit
  have hreset : Meets gone (modify fun m => { m with depth := 0 }) m fun _ _ => True :=
    ⟨.single (.count m 0 m.output), trivial⟩
  refine hreset.bind hm ?_
  intro _ m₁ hm₁ _ _
  -- at the top there is no home, so nothing private can be named
  have hc : (topContext unit).Suits gone m₁ .top :=
    { unit := hunit
      surrounds := ⟨fun _ h => (nomatch h), rfl, fun hne => absurd rfl hne⟩
      this := World.admits_undefined
      home := fun _ h => nomatch h
      scope := hm₁.root
      held := fun _ h => nomatch h
      construction := fun hsuper => nomatch hsuper }
  refine (runs_hoist hm₁ hc unit.covers_self).bind hm₁ ?_
  intro _ m₂ hm₂ hg₂ _
  exact yields_runStatements hself hm₂ (hc.grows hm₁ hm₂ hg₂) World.admits_undefined
    unit.covers_self

end Eval

end Enclave
