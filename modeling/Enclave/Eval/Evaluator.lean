import Enclave.Eval.Expression
import Enclave.Eval.Statement

/-!
# Evaluation

`evaluator steps` evaluates expressions and statements whose parts nest no deeper than `steps`,
calls included, and runs loops of fewer rounds than that; beyond, it is exhausted. Whatever it
finishes it finishes in the same way with more steps.

`runUnit` runs the statements of a unit in the global scope and gives the value of the last
statement that is an expression.
-/

namespace Enclave

namespace Evaluator

/-- The evaluator whose parts are evaluated by another. -/
def step (rounds : Nat) (self : Evaluator) : Evaluator where
  eval := fun context e => Eval.evalExpr self context e
  exec := fun context s => Eval.execStmt self context s
  invoke := fun held f this args construction => Eval.invoke self held f this args construction
  rounds := rounds

/-- The evaluator that has no steps left. -/
def exhausted : Evaluator where
  eval := fun _ _ => throw .exhausted
  exec := fun _ _ => throw .exhausted
  invoke := fun _ _ _ _ _ => throw .exhausted
  rounds := 0

end Evaluator

/-- The evaluator with a number of steps to spend. -/
def evaluator : (steps : Nat) → Evaluator
  | 0 => .exhausted
  -- spelled out, so that the recursion is structural
  | steps + 1 =>
    { eval := fun context e => Eval.evalExpr (evaluator steps) context e
      exec := fun context s => Eval.execStmt (evaluator steps) context s
      invoke := fun held f this args construction =>
        Eval.invoke (evaluator steps) held f this args construction
      rounds := steps }

namespace Eval

/-- Runs statements in order, keeping the value of the last that is an expression. -/
def runStatements (self : Evaluator) (context : Context) (last : Value) : List Stmt → Eval Value
  | [] => return last
  -- the value so far is held, as it may be the result
  | ⟨.expr e, _⟩ :: rest => do
    let v ← self.eval (context.holdingValues [last]) e
    runStatements self context v rest
  | s :: rest => do
    match ← self.exec (context.holdingValues [last]) s with
    | .returned v => return v
    | .normal => runStatements self context last rest

/-- Where the statements of a unit are run: in the global scope, outside any function. -/
def topContext (unit : CompiledUnit) : Context :=
  ⟨⟨unit, .undefined, none, none⟩, Scopes.rootId, []⟩

/-- Runs a unit. No call is unfinished when it starts. -/
def runUnit (self : Evaluator) (unit : CompiledUnit) : Eval Value := do
  modify fun m => { m with depth := 0 }
  let context := topContext unit
  -- functions of the unit can be called before their declarations
  hoist context unit.program.body
  runStatements self context .undefined unit.program.body

end Eval

end Enclave
