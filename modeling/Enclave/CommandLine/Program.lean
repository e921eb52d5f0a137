import Enclave.CommandLine.Console

/-!
# A run of the program

From the arguments, the files and the standard input to the exit status and the two outputs.
-/

namespace Enclave

/-- What a run of the program leaves behind. -/
structure Report where
  status : Nat
  output : String
  errors : String

def Console.report (c : Console) (status : Nat) : Report := ⟨status, c.output, c.errors⟩

namespace CommandLine

/-- The name and version of the program. -/
def versionText : String := "cloister 0.1.0\n"

/-- What is said to those who ask for help. -/
def helpText : String :=
  "Usage: cloister [OPTIONS] [FILES]...\n\n" ++
  "Arguments:\n" ++
  "  [FILES]...  Source files to execute\n\n" ++
  "Options:\n" ++
  "      --repl                   Force REPL mode after file execution\n" ++
  "      --check                  Report parse and scope errors without running\n" ++
  "      --dump-bindings          Dump accessor bindings for inputs\n" ++
  "      --max-depth <MAX_DEPTH>  [default: 128]\n" ++
  "      --quiet                  Do not echo REPL results\n" ++
  "  -h, --help                   Print help\n" ++
  "  -V, --version                Print version\n"

/-- What is said to those whose arguments cannot be understood. -/
def usageText : String := "error: the arguments cannot be understood\n\n" ++ helpText

/-- The lines of an input, each with its line end. -/
def lines : List UInt8 → List (List UInt8)
  | [] => []
  | b :: rest =>
    -- the last line may be without a line end
    if b = 0x0A then [b] :: lines rest
    else
      match lines rest with
      | [] => [[b]]
      | line :: more => (b :: line) :: more

/-- Opens files one after another. -/
def openFiles (read : String → Except FileFault (List UInt8)) (options : Options) (c : Console) :
    List String → Except Console Console
  | [] => .ok c
  | name :: names => do openFiles read options (← c.openFile options name (read name)) names

/-- Takes lines of input until they end or one of them ends the conversation. -/
def converse (settings : Settings) (c : Console) : List (List UInt8) → Console
  -- at the end of the input the prompt has been shown once more
  | [] => c.write Console.prompt
  | line :: rest =>
    match (c.write Console.prompt).enter settings line with
    | .ok c => converse settings c rest
    | .error c => c

/-- Whether interactive inputs are read once all files have been opened. -/
def isInteractive (options : Options) : Bool :=
  options.runsFiles && (options.repl || options.files.isEmpty)

/-- Opens the files that the options name and, if it comes to that, takes interactive inputs. -/
def runOptions (options : Options) (read : String → Except FileFault (List UInt8))
    (input : List UInt8) : Report :=
  match openFiles read options (.start options.settings) options.files with
  -- a file that fails leaves no room for inputs
  | .error c => c.report 1
  | .ok c =>
    if isInteractive options then
      (converse options.settings (c.write Console.greeting) (lines input)).report 0
    else c.report 0

/-- Runs the program. -/
def run (arguments : List String) (read : String → Except FileFault (List UInt8))
    (input : List UInt8) : Report :=
  match Request.ofArguments arguments with
  | .run options => runOptions options read input
  | .help => ⟨0, helpText, ""⟩
  | .version => ⟨0, versionText, ""⟩
  | .refused => ⟨2, "", usageText⟩

end CommandLine

end Enclave
