import Enclave.Text.Utf8

/-!
# Files in a directory

What the program finds under a path. `Directory` is a directory with files and nothing else, in
which relative paths are looked up; whatever lies outside of it is taken for empty.
-/

namespace Enclave

/-- Why there is no text under a path. -/
inductive FileFault
  | missing
  | notDirectory
  | isDirectory
  | nameTooLong
  | notUtf8
  /-- Any other failure, as the system words it. -/
  | other (text : String)

def FileFault.text : FileFault → String
  | .missing => "No such file or directory (os error 2)"
  | .notDirectory => "Not a directory (os error 20)"
  | .isDirectory => "Is a directory (os error 21)"
  | .nameTooLong => "File name too long (os error 36)"
  | .notUtf8 => "stream did not contain valid UTF-8"
  | .other text => text

/-- A file's bytes, if they are text. -/
def sourceText (bytes : List UInt8) : Except FileFault (List UInt8) :=
  match Text.decode? bytes with
  | some _ => .ok bytes
  | none => .error .notUtf8

/-- The files of a directory by name. -/
structure Directory where
  files : List (String × List UInt8)

namespace Directory

/-- Where one has come to on the way along a path. -/
inductive Place
  | here
  /-- A directory in which nothing is known. -/
  | outside
  | file (bytes : List UInt8)

/-- Splits a path at its slashes. -/
def splitPath : List Char → List String
  | [] => [""]
  | '/' :: rest => "" :: splitPath rest
  | c :: rest =>
    match splitPath rest with
    -- this list is never empty, but the match has to be told what to do
    | [] => [c.toString]
    | part :: parts => (c.toString ++ part) :: parts

/-- Takes one step along a path. -/
def step (d : Directory) (place : Place) (part : String) : Except FileFault Place :=
  match place with
  -- whatever comes behind a file, even nothing, asks it to be a directory
  | .file _ => .error .notDirectory
  | .here =>
    if part.isEmpty || part = "." then .ok .here
    else if part = ".." then .ok .outside
    -- names are measured before they are looked for
    else if part.utf8ByteSize > 255 then .error .nameTooLong
    else
      match d.files.lookup part with
      | some bytes => .ok (.file bytes)
      | none => .error .missing
  | .outside =>
    if part.isEmpty || part = "." || part = ".." then .ok .outside
    else if part.utf8ByteSize > 255 then .error .nameTooLong
    else .error .missing

/-- The text under a path. -/
def read (d : Directory) (path : String) : Except FileFault (List UInt8) := do
  if path.isEmpty then throw .missing
  -- the limit of the system counts the byte that ends a path
  if path.utf8ByteSize ≥ 4096 then throw .nameTooLong
  let start := if path.startsWith "/" then Place.outside else .here
  match ← (splitPath path.toList).foldlM d.step start with
  | .file bytes => sourceText bytes
  | .here | .outside => throw .isDirectory

end Directory

end Enclave
