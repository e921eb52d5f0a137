import Enclave.Session

/-!
# Command-line arguments

What the arguments of the program ask for. Options and files come in any order, and after `--`
everything is a file. An option is given once at most. Arguments are read from the left, and the
first one that asks for help or cannot be understood decides.
-/

namespace Enclave

/-- How the program is to work on which files. -/
structure Options where
  files : List String
  /-- Whether inputs are read interactively after the files. -/
  repl : Bool
  /-- Whether sources are only checked. -/
  check : Bool
  /-- Whether sources are only checked, and their classes listed. -/
  dumpBindings : Bool
  /-- Whether the values of interactive inputs are kept silent. -/
  quiet : Bool
  /-- The greatest depth of calls, if one is given. -/
  maxDepth : Option Nat

/-- What the arguments of the program ask for. -/
inductive Request
  | run (options : Options)
  | help
  | version
  /-- The arguments cannot be understood. -/
  | refused

/-- An option that takes no value. -/
inductive Flag
  | repl | check | dumpBindings | quiet
  deriving DecidableEq

/-- A single argument. -/
inductive Argument
  | file (name : String)
  | flag (f : Flag)
  /-- The option for the depth of calls, with the value if it is part of the same argument. -/
  | maxDepth (value : Option String)
  | help
  | version
  /-- The mark after which everything is a file. -/
  | endOfOptions
  | unknown

namespace Argument

/-- A long option, given by its name and what follows an equals sign after the name. -/
def ofLong (name : String) (value : Option String) : Argument :=
  match name, value with
  | "max-depth", value => .maxDepth value
  | "repl", none => .flag .repl
  | "check", none => .flag .check
  | "dump-bindings", none => .flag .dumpBindings
  | "quiet", none => .flag .quiet
  | "help", none => .help
  | "version", none => .version
  | _, _ => .unknown

/-- What an argument before the end of options is. A single hyphen is a file. -/
def ofText (text : String) : Argument :=
  match text.toList with
  | ['-', '-'] => .endOfOptions
  | '-' :: '-' :: rest =>
    let name := rest.takeWhile (· ≠ '=')
    let value := match rest.drop name.length with
      | [] => none
      | _ :: value => some (String.ofList value)
    ofLong (String.ofList name) value
  -- what is behind a short option does not matter for these two
  | '-' :: 'h' :: _ => .help
  | '-' :: 'V' :: _ => .version
  | ['-'] => .file text
  | '-' :: _ => .unknown
  | _ => .file text

end Argument

/-- A count is written in decimal digits, with a plus sign in front or none, and fits a word of
sixty-four bits. -/
def readCount? (text : String) : Option Nat :=
  let digits := match text.toList with
    | '+' :: digits => digits
    | digits => digits
  -- a sign alone is no count
  if digits.isEmpty || !digits.all Char.isDigit then none
  else
    let n := digits.foldl (fun n d => n * 10 + (d.toNat - '0'.toNat)) 0
    if n < UInt64.size then some n else none

namespace Options

/-- No files and no options. -/
def empty : Options := ⟨[], false, false, false, false, none⟩

def addFile (o : Options) (name : String) : Options := { o with files := o.files ++ [name] }

/-- Whether the files are run at all. -/
def runsFiles (o : Options) : Bool := !o.check && !o.dumpBindings

/-- Whether a flag is set. -/
def has (o : Options) : Flag → Bool
  | .repl => o.repl
  | .check => o.check
  | .dumpBindings => o.dumpBindings
  | .quiet => o.quiet

def set (o : Options) : Flag → Options
  | .repl => { o with repl := true }
  | .check => { o with check := true }
  | .dumpBindings => { o with dumpBindings := true }
  | .quiet => { o with quiet := true }

/-- Adds a flag that has not been given before. -/
def addFlag? (o : Options) (f : Flag) : Option Options :=
  if o.has f then none else some (o.set f)

/-- Adds a depth of calls if none has been given before. -/
def addMaxDepth? (o : Options) (value : String) : Option Options :=
  match o.maxDepth with
  | some _ => none
  | none => (readCount? value).map fun n => { o with maxDepth := some n }

/-- How sources are run under these options. -/
def settings (o : Options) : Settings :=
  ⟨o.maxDepth.getD Settings.default.maxDepth, !o.quiet⟩

end Options

/-- Reads arguments after some options have been read. -/
def Request.readAfter (o : Options) : List String → Request
  | [] => .run o
  | text :: rest =>
    match Argument.ofText text with
    | .file name => readAfter (o.addFile name) rest
    -- from here on nothing is taken for an option
    | .endOfOptions => .run { o with files := o.files ++ rest }
    | .help => .help
    | .version => .version
    | .unknown => .refused
    | .flag f =>
      match o.addFlag? f with
      | some o => readAfter o rest
      | none => .refused
    | .maxDepth (some value) =>
      match o.addMaxDepth? value with
      | some o => readAfter o rest
      | none => .refused
    -- the value is the next argument, whatever it looks like
    | .maxDepth none =>
      match rest with
      | [] => .refused
      | value :: rest =>
        match o.addMaxDepth? value with
        | some o => readAfter o rest
        | none => .refused

/-- Reads the arguments of the program. -/
def Request.ofArguments (arguments : List String) : Request := readAfter .empty arguments

end Enclave
