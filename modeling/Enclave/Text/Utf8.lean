/-!
# Characters in bytes

Two ways to read bytes as text.

* `leadingChar` reads one character at the head of the input and says how many bytes follow its
  first. It takes a lead byte at its word: any run of lead and continuation bytes whose bits spell a
  character is that character, shorter spellings or not. What spells none is a replacement character
  of one byte.
* `decodeLossy` reads a whole text strictly: each longest run of bytes that begins a character but
  does not finish one becomes a single replacement character.
-/

namespace Enclave.Text

/-- What stands for bytes that spell no character. -/
def replacementChar : Char := '\uFFFD'

/-- The continuation bytes are `10xxxxxx`. -/
def isContinuation (b : UInt8) : Bool := b &&& 0xC0 == 0x80

/-- The character with this number, if there is one. -/
def charOfNat? (n : Nat) : Option Char :=
  if h : n.isValidChar then some (Char.ofNatAux n h) else none

/-- Appends the six bits of each of `count` continuation bytes to the bits read so far. -/
def continuationBits (bits : Nat) : (count : Nat) → List UInt8 → Option Nat
  | 0, _ => some bits
  | _ + 1, [] => none
  | count + 1, b :: rest =>
    if isContinuation b then continuationBits (bits * 64 + (b &&& 0x3F).toNat) count rest else none

/-- The number of continuation bytes a lead byte announces, and the bits it carries itself. -/
def leadByte? (b : UInt8) : Option (Nat × Nat) :=
  if b < 0x80 then some (0, b.toNat)
  -- a continuation byte leads nothing
  else if b < 0xC0 then none
  else if b < 0xE0 then some (1, (b &&& 0x1F).toNat)
  else if b < 0xF0 then some (2, (b &&& 0x0F).toNat)
  else if b < 0xF8 then some (3, (b &&& 0x07).toNat)
  else none

/-- The character that `b` and the bytes after it spell, with the number of continuation bytes. -/
def spelledChar? (b : UInt8) (rest : List UInt8) : Option (Char × Nat) := do
  let (count, bits) ← leadByte? b
  let n ← continuationBits bits count rest
  let c ← charOfNat? n
  return (c, count)

/-- The character at the head of the input and the number of bytes it takes after its first. -/
def leadingChar (b : UInt8) (rest : List UInt8) : Char × Nat :=
  -- any number of bytes may spell a character, also more than it needs
  (spelledChar? b rest).getD (replacementChar, 0)

/-- The least and greatest second byte of a well-formed character with this lead byte, and the
number of continuation bytes. -/
def secondByteRange? (lead : UInt8) : Option (UInt8 × UInt8 × Nat) :=
  if lead < 0xC2 then none
  else if lead < 0xE0 then some (0x80, 0xBF, 1)
  -- with a smaller second byte two bytes would have been enough
  else if lead = 0xE0 then some (0xA0, 0xBF, 2)
  -- a greater second byte would make a surrogate
  else if lead = 0xED then some (0x80, 0x9F, 2)
  else if lead < 0xF0 then some (0x80, 0xBF, 2)
  else if lead = 0xF0 then some (0x90, 0xBF, 3)
  else if lead < 0xF4 then some (0x80, 0xBF, 3)
  -- a greater second byte would go beyond the last character
  else if lead = 0xF4 then some (0x80, 0x8F, 3)
  else none

/-- How many bytes after a lead byte belong to a well-formed character that begins with it. -/
def wellFormedRun (lead : UInt8) (rest : List UInt8) : Nat :=
  match secondByteRange? lead, rest with
  | some (low, high, count), b :: rest =>
    if low ≤ b ∧ b ≤ high then 1 + ((rest.take (count - 1)).takeWhile isContinuation).length else 0
  | _, _ => 0

/-- The character at the head of a text read strictly: the whole character, or a replacement for the
longest run that begins one. Gives the number of bytes after the first. -/
def strictLeadingChar (b : UInt8) (rest : List UInt8) : Char × Nat :=
  if b < 0x80 then (Char.ofNat b.toNat, 0)
  else
    let run := wellFormedRun b rest
    match secondByteRange? b with
    | some (_, _, count) =>
      -- a run that breaks off is replaced as a whole
      if run = count then leadingChar b rest else (replacementChar, run)
    | none => (replacementChar, 0)

/-- Reads bytes after leaving out the first `skipped` of them. -/
def decodeSkipping (skipped : Nat) : List UInt8 → List Char
  | [] => []
  | b :: rest =>
    match skipped with
    | skipped + 1 => decodeSkipping skipped rest
    | 0 =>
      let (c, more) := strictLeadingChar b rest
      c :: decodeSkipping more rest

/-- The text that bytes spell, with replacements for whatever is not well formed. -/
def decodeLossy (bytes : List UInt8) : String := String.ofList (decodeSkipping 0 bytes)

/-- Whether the bytes after the first `skipped` are well-formed text throughout. -/
def wellFormedSkipping (skipped : Nat) : List UInt8 → Bool
  | [] => skipped = 0
  | b :: rest =>
    match skipped with
    | skipped + 1 => wellFormedSkipping skipped rest
    | 0 =>
      if b < 0x80 then wellFormedSkipping 0 rest
      else
        match secondByteRange? b with
        | some (_, _, count) => wellFormedRun b rest = count && wellFormedSkipping count rest
        | none => false

/-- The text that bytes spell, if they are well formed throughout. -/
def decode? (bytes : List UInt8) : Option String :=
  if wellFormedSkipping 0 bytes then some (decodeLossy bytes) else none

/-- The bytes of a text. -/
def utf8 (text : String) : List UInt8 := text.toUTF8.toList

end Enclave.Text
