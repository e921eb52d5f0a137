import Enclave.Binding
import Enclave.Source.Excerpt
import Enclave.Syntax.Reading

/-!
# Compiled units

A source that has been read and whose accessors are bound. Only such a unit is run.
-/

namespace Enclave

/-- A program and the bindings of its accessors. -/
structure CompiledUnit where
  program : Program
  bindings : Bindings

instance : Inhabited CompiledUnit := ⟨⟨⟨[], 0, 0, 0⟩, ⟨[], []⟩⟩⟩

/-- Why a source cannot be run: errors of syntax, or errors of scope. -/
inductive CompileError
  | syntaxErrors (errors : List SyntaxError)
  | scopeErrors (errors : List ScopeError)

/-- One line for each error. -/
def CompileError.text : CompileError → String
  | .syntaxErrors errors =>
    "\n".intercalate (errors.map fun e => "parse error at " ++ e.text)
  | .scopeErrors errors =>
    "\n".intercalate (errors.map fun e => "scope error at " ++ e.text)

/-- Each error with an excerpt of the source. -/
def CompileError.diagnosis (source : List UInt8) : CompileError → String
  | .syntaxErrors errors =>
    "\n".intercalate (errors.map fun e => diagnostic source "Parse error" e.fault.message e.span)
  | .scopeErrors errors =>
    "\n".intercalate (errors.map fun e => diagnostic source "Scope error" e.fault.message e.span)

/-- Reads a source and binds its accessors. -/
def compile (source : List UInt8) : Except CompileError CompiledUnit :=
  match Program.read source with
  | .error errors => .error (.syntaxErrors errors)
  | .ok program =>
    match program.bind with
    | .error errors => .error (.scopeErrors errors)
    | .ok bindings => .ok ⟨program, bindings⟩

end Enclave
