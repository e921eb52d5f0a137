import Enclave.CommandLine.Directory
import Enclave.CommandLine.Request
import Enclave.Text.Character

/-!
# The console

A session with what the program has written to its two outputs. Files are checked or run one after
another until one of them fails; interactive inputs are run a line at a time, and a failure is only
reported.
-/

namespace Enclave

/-- A session and what has been written. -/
structure Console where
  session : Session
  output : String
  errors : String

namespace Console

/-- A console before anything was written. -/
def start (settings : Settings) : Console := ⟨.start settings.maxDepth, "", ""⟩

/-- Writes a text to the output. -/
def write (c : Console) (text : String) : Console := { c with output := c.output ++ text }

/-- Writes a line to the errors. -/
def complain (c : Console) (text : String) : Console :=
  { c with errors := c.errors ++ text ++ "\n" }

/-- Runs a source that nothing holds the result of before, and writes what it prints. -/
def run (c : Console) (source : List UInt8) : Outcome × Console :=
  let (outcome, session) := c.session.rest.run source
  -- what was printed before an error is shown with it
  let (printed, session) := session.takeOutput
  (outcome, { c with session, output := c.output ++ printed })

/-! ### Files

A file either leaves a console to go on with or, as an `error`, one to end with. -/

/-- Checks a source and, if asked to, lists its classes. -/
def checkSource (c : Console) (options : Options) (name : String) (source : List UInt8) :
    Except Console Console :=
  match compile source with
  | .error e => .error (c.complain (e.diagnosis source))
  | .ok unit =>
    if options.dumpBindings then .ok (c.write ("== " ++ name ++ " ==\n" ++ unit.bindings.text))
    else .ok c

/-- Runs a source. -/
def runSource (c : Console) (name : String) (source : List UInt8) : Except Console Console :=
  let (outcome, c) := c.run source
  match outcome.diagnosis? source with
  | some text => .error (c.complain ("Error executing " ++ name ++ ":\n" ++ text))
  | none => .ok c

/-- Checks or runs what was found under the name of a file. -/
def openFile (c : Console) (options : Options) (name : String)
    (found : Except FileFault (List UInt8)) : Except Console Console :=
  match found with
  | .error fault =>
    .error (c.complain ("Error reading file '" ++ name ++ "': " ++ fault.text))
  | .ok source =>
    if options.runsFiles then c.runSource name source else c.checkSource options name source

/-! ### Interactive inputs -/

def greeting : String := "Cloister REPL\nType 'exit' to quit.\n"

def prompt : String := "> "

/-- Runs an input without blanks at its ends and echoes its value, unless it is undefined. -/
def runInput (c : Console) (settings : Settings) (input : String) : Console :=
  let source := Text.utf8 input
  let (outcome, c) := c.run source
  match outcome with
  -- statements have no value to echo
  | .value .undefined => c
  | .value v => if settings.echoResults then c.write (v.echo ++ "\n") else c
  | _ => c.complain ((outcome.diagnosis? source).getD "")

/-- Takes a line of input. As an `error`, it is the last one. -/
def enter (c : Console) (settings : Settings) (line : List UInt8) : Except Console Console :=
  match Text.decode? line with
  -- a line that is no text ends the conversation
  | none => .error (c.complain ("Error reading input: " ++ FileFault.notUtf8.text))
  | some text =>
    let input := String.ofList (Text.trimBlanks text.toList)
    if input = "exit" then .error c
    else if input.isEmpty then .ok c
    else .ok (c.runInput settings input)

end Console

end Enclave
