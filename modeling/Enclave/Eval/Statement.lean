import Enclave.Eval.ClassDefinition

/-!
# Statements

One step of executing a statement, by its form. Blocks have scopes of their own; the branches of
`if` and the body of `while` have one only if they are blocks. A handler sees the error that was
caught as a value: what was thrown, or an object with the name and the message of any other error.
-/

namespace Enclave.Eval

/-- The value that a handler binds for an error. -/
def errorValue (e : RuntimeError) : Eval Value :=
  match e with
  -- what was thrown is handed over as it is
  | .thrown v => return v
  | e => do
    let o ← onWorld (·.newObject none)
    changeWorld (·.setProperty o (.string "name") (.string e.name))
    changeWorld (·.setProperty o (.string "message") (.string e.message))
    return .object o

/-- One round of a loop: nothing if it is over. -/
def loopRound (self : Evaluator) (context : Context) (test : Expr) (body : Stmt) :
    Eval (Option Flow) := do
  if (← self.eval context test).isTruthy then return some (← self.exec context body)
  else return none

/-- Makes rounds until one returns or the loop is over. -/
def repeatRounds (round : Eval (Option Flow)) : (rounds : Nat) → Eval Flow
  | 0 => throw .exhausted
  | rounds + 1 => do
    match ← round with
    | none => return .normal
    | some (.returned v) => return .returned v
    | some .normal => repeatRounds round rounds

/-- Runs the body of a `try`, and the handler if the body fails. The scope of the body is held until
the handler is done. -/
def attempt (self : Evaluator) (context : Context) (body : List Stmt) (param : String)
    (handler : List Stmt) : Eval Flow := do
  let scope ← newScope context.scope
  match ← catching (execBlock self (context.within scope) body) with
  | .ok flow => return flow
  | .error e =>
    -- the handler gets a scope next to that of the body
    let inner ← newScope context.scope
    let v ← errorValue e
    changeWorld (·.declare inner param v true)
    execBlock self ((context.within inner).holding [.scope scope]) handler

/-- Executes a statement, its parts by `self`. Functions have been declared with their block. -/
def execStmt (self : Evaluator) (context : Context) (s : Stmt) : Eval Flow := do
  match s.form with
  | .declare name isMutable initializer =>
    let v ← evalOptional self context initializer
    changeWorld (·.declare context.scope name v isMutable)
    return .normal
  | .expr e =>
    let _ ← self.eval context e
    return .normal
  | .block body =>
    let scope ← newScope context.scope
    execBlock self (context.within scope) body
  -- the branches run in the scope around, unless they are blocks
  | .cond test yes no =>
    if (← self.eval context test).isTruthy then self.exec context yes
    else
      match no with
      | some no => self.exec context no
      | none => return .normal
  | .loop test body => repeatRounds (loopRound self context test body) self.rounds
  | .ret value => return .returned (← evalOptional self context value)
  | .raise e => raise (.thrown (← self.eval context e))
  | .attempt body param handler => attempt self context body param handler
  -- hoisting has made it
  | .functionDef _ => return .normal
  -- bound as a variable here, beside the constant in its own scope
  | .classDef definition =>
    let c ← defineClass self context definition
    changeWorld (·.declare context.scope c.name (.class c) true)
    return .normal

end Enclave.Eval
