import Enclave.CommandLine.Program

/-!
# The program

Files are read from the file system and inputs from the terminal, and each output is written as soon
as there is any.
-/

namespace Enclave

/-- The number of a system error, which may be given with its sign turned. -/
def errorNumber (code : UInt32) : UInt32 := if code < 0x80000000 then code else 0 - code

/-- The fault behind an error of the system. -/
def FileFault.ofError : IO.Error → FileFault
  | .noFileOrDirectory .. => .missing
  | .permissionDenied .. => .other "Permission denied (os error 13)"
  | .inappropriateType _ code _ => if errorNumber code = 21 then .isDirectory else .notDirectory
  | .invalidArgument _ code details =>
    if errorNumber code = 36 then .nameTooLong
    else .other (details ++ " (os error " ++ toString (errorNumber code) ++ ")")
  | e => .other (toString e)

/-- What is found under a path of the file system. -/
def readSource (path : String) : IO (Except FileFault (List UInt8)) := do
  try return sourceText (← IO.FS.readBinFile path).toList
  catch e => return .error (.ofError e)

/-- Writes what the console has for its two outputs, and forgets it. -/
def Console.show (c : Console) : IO Console := do
  let (stdout, stderr) := (← IO.getStdout, ← IO.getStderr)
  stdout.putStr c.output
  stdout.flush
  stderr.putStr c.errors
  stderr.flush
  return { c with output := "", errors := "" }

/-- Opens files one after another; `none` if one of them fails. -/
def openAll (options : Options) : List String → Console → IO (Option Console)
  | [], c => return some c
  | name :: names, c => do
    match c.openFile options name (← readSource name) with
    | .ok c => openAll options names (← c.show)
    | .error c =>
      let _ ← c.show
      return none

/-- Reads bytes up to the end of a line or of the input, in front of which some have been read. -/
partial def readLine (input : IO.FS.Stream) (before : List UInt8) : IO (List UInt8) := do
  match (← input.read 1).toList with
  | [] => return before.reverse
  | b :: _ =>
    if b = 0x0A then return (b :: before).reverse
    else readLine input (b :: before)

/-- Takes lines from the terminal until they end or one of them ends the conversation. -/
partial def talk (settings : Settings) (c : Console) : IO Unit := do
  let c ← (c.write Console.prompt).show
  let line ← readLine (← IO.getStdin) []
  if line.isEmpty then return
  match c.enter settings line with
  | .ok c => talk settings c
  | .error c =>
    let _ ← c.show

def runOptions (options : Options) : IO UInt32 := do
  match ← openAll options options.files (.start options.settings) with
  | none => return 1
  | some c =>
    if CommandLine.isInteractive options then
      talk options.settings (c.write Console.greeting)
    return 0

/-- Does what the arguments ask for and gives the exit status. -/
def runRequest : Request → IO UInt32
  | .run options => runOptions options
  | .help => do
    IO.print CommandLine.helpText
    return 0
  | .version => do
    IO.print CommandLine.versionText
    return 0
  | .refused => do
    IO.eprint CommandLine.usageText
    return 2

end Enclave

def main (arguments : List String) : IO UInt32 :=
  Enclave.runRequest (.ofArguments arguments)
