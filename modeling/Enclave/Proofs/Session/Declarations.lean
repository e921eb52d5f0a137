import Enclave.Proofs.Eval.Hoisting
import Enclave.Proofs.Session.Observation

/-!
# Declarations of functions in sessions

Programs, blocks, bodies of functions and of `try`, and handlers are lists of statements that are
run in scopes of their own, and wherever one of them has got to, the functions that it declares are
bound in its scope (`Session.Hosted.functions_declared`). A declaration that is the branch of an
`if` is an element of no list, and executing it declares nothing
(`Session.not_declared_of_unbraced`).
-/

namespace Enclave

open Eval

namespace Session

variable {s : Session} {held : List Value}

/-- **Declarations of functions.** Wherever the statements of a list have got to in a scope, the
scope itself binds the functions that the list declares, and their names can be read. This is how
blocks, bodies of functions and of `try`, and handlers are run, and in a session so are units. What
a scope binds it goes on binding, whatever is evaluated, and however that ends. -/
theorem Hosted.functions_declared (h : s.Hosted held) (steps : ℕ) :
    (∀ m context body, context.scope.index < m.world.scopes.all.size →
      DeclaresFunctions (evaluator steps) context body m) ∧
    (∀ m context body span, ∃ inner m',
      execStmt (evaluator steps) context ⟨.block body, span⟩ m =
          execBlock (evaluator steps) inner body m' ∧
        DeclaresFunctions (evaluator steps) inner body m') ∧
    (∀ m nodes (c : Closure) this args construction, ∃ inner m',
      runScript (evaluator steps) nodes c this args construction m =
          (execBlock (evaluator steps) inner c.definition.body >>= resultOf) m' ∧
        DeclaresFunctions (evaluator steps) inner c.definition.body m') ∧
    (∀ m context body param handler, ∃ inner m',
      attempt (evaluator steps) context body param handler m =
          (catching (execBlock (evaluator steps) inner body) >>=
            handle (evaluator steps) context inner.scope param handler) m' ∧
        DeclaresFunctions (evaluator steps) inner body m') ∧
    (∀ m context scope param handler e, ∃ inner m',
      handle (evaluator steps) context scope param handler (.error e) m =
          execBlock (evaluator steps) inner handler m' ∧
        DeclaresFunctions (evaluator steps) inner handler m') ∧
    (∀ unit, DeclaresInUnit (evaluator steps) unit s.machine) ∧
    ∀ (m : Machine) scope name, (m.world.bound? scope name).isSome = true →
      (∀ context e,
        ((final ((evaluator steps).eval context e) m).world.bound? scope name).isSome = true) ∧
      (∀ context st, context.scope.index < m.world.scopes.all.size →
        ((final ((evaluator steps).exec context st) m).world.bound? scope name).isSome = true) ∧
      ∀ nodes f this args construction,
        ((final ((evaluator steps).invoke nodes f this args construction) m).world.bound? scope
          name).isSome = true := by
  have hself := tracks_evaluator steps
  -- the scope of a unit is the root, which every session has
  have hroot := h.namesClasses.made _ rfl
  refine ⟨fun m context body hscope => declaresFunctions hself body hscope,
    fun m context body span => exists_block hself context body span m,
    fun m nodes c this args construction =>
      exists_functionBody hself nodes c this args construction m,
    fun m context body param handler => exists_tryBody hself context body param handler m,
    fun m context scope param handler e => exists_handler hself context scope param handler e m,
    fun unit => declaresInUnit hself unit hroot, fun m scope name hbound => ⟨?_, ?_, ?_⟩⟩
  · -- a name bound stays bound, whatever is evaluated, executed or invoked
    intro context e
    exact ((hself.eval context e none).respects m nofun).bound scope name hbound
  · intro context st hscope
    refine ((hself.exec context st).respects m fun s' hs' => ?_).bound scope name hbound
    cases hs'
    exact hscope
  · intro nodes f this args construction
    have hinvoke := (hself.invoke nodes f this args construction none).respects m nofun
    exact hinvoke.bound scope name hbound

/-- A function is called before its declaration, and in a block within its scope. -/
def calledEarly : Session :=
  left 128 "let x=f();function f(){return 1;}{let y=f();}".toUTF8.toList 16

theorem functions_declared_calledEarly :
    calledEarly.global? "x" = some (.number (.ofNat 1)) ∧
      (∀ unit, DeclaresInUnit (evaluator 16) unit calledEarly.machine) ∧
      ∀ context e, ((final ((evaluator 16).eval context e) calledEarly.machine).world.bound?
        Scopes.rootId "f").isSome = true := by
  have hbound : (calledEarly.machine.world.bound? Scopes.rootId "f").isSome = true := by
    decide +kernel
  have hhosted : calledEarly.Hosted _ := hosted_left _ _ _
  obtain ⟨-, -, -, -, -, hunit, hstays⟩ := hhosted.functions_declared 16
  exact ⟨by decide +kernel, hunit, (hstays _ _ _ hbound).1⟩

/-- An observer that stops at the execution of a declaration that has declared nothing. -/
def checkingDeclared : Observer := fun a x m =>
  match a with
  | .exec context st =>
    if (declaredNames [st]).all fun name => (m.world.bound? context.scope name).isSome then x m
    else .error .exhausted m
  | _ => x m

/-- **Branches that declare.** Not in every session is a function bound in the scope that its
declaration is executed in: the declaration may be a branch of its own, and then a call of the
function after it fails. -/
theorem not_declared_of_unbraced :
    ¬∀ (s : Session) (held : List Value) (around : Observer), s.Hosted held →
      (∀ {α : Type} (a : Activity) (x : Eval α) {m : Machine},
        (∀ context st, a = .exec context st → context.HasFunctions [st] m) → around a x m = x m) →
      ∀ steps source unit, compile source = .ok unit →
        Eval.runUnit (observed around steps) unit s.machine =
          Eval.runUnit (evaluator steps) unit s.machine := by
  intro hall
  -- an observer that fails when a function declared has no binding yet
  have hobserver : ∀ {α : Type} (a : Activity) (x : Eval α) {m : Machine},
      (∀ context st, a = .exec context st → context.HasFunctions [st] m) →
      checkingDeclared a x m = x m := by
    intro α a x m h
    cases a with
    | exec context st =>
      exact if_pos (List.all_eq_true.mpr fun name hname => (h context st rfl).bound name hname)
    | eval context e => rfl
    | invoke f this => rfl
  -- a function declared as the branch of an `if`, without a block to hoist it
  obtain ⟨unit, hcompile, hne⟩ := exists_observed_ne checkingDeclared 16
    "if (true) function f() {} try { f(); } catch (e) {}".toUTF8.toList (by decide +kernel)
  exact hne (hall (start 128) [] checkingDeclared (.start 128) hobserver 16 _ unit hcompile)

end Session

end Enclave
