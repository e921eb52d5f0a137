/-!
# Positions and spans

A `Position` is a point in the source, a `Span` the bytes between two points. Both carry line and
column beside the byte offset, so that a message needs no second look at the source. A position is
reached from `Position.origin` by stepping over the bytes before it (`Position.after`).
-/

namespace Enclave

/-- A point in the source. -/
structure Position where
  /-- Bytes before the point. -/
  offset : Nat
  /-- Counted from one. -/
  line : Nat
  /-- Counted in bytes from one. -/
  column : Nat
  deriving DecidableEq

namespace Position

/-- The beginning of the source. -/
def origin : Position := ⟨0, 1, 1⟩

instance : Inhabited Position := ⟨origin⟩

/-- The point behind one more byte; a line feed ends a line. -/
def advance (p : Position) (byte : UInt8) : Position :=
  -- a carriage return is a byte like any other
  if byte = 0x0A then ⟨p.offset + 1, p.line + 1, 1⟩ else ⟨p.offset + 1, p.line, p.column + 1⟩

/-- The point behind all the given bytes. -/
def after (p : Position) (bytes : List UInt8) : Position := bytes.foldl advance p

theorem after_append (p : Position) (before behind : List UInt8) :
    p.after (before ++ behind) = (p.after before).after behind := by
  simp [after]

@[simp] theorem offset_advance (p : Position) (byte : UInt8) :
    (p.advance byte).offset = p.offset + 1 := by
  unfold advance
  split <;> rfl

/-- The offset counts the bytes. -/
@[simp] theorem offset_after (p : Position) (bytes : List UInt8) :
    (p.after bytes).offset = p.offset + bytes.length := by
  induction bytes generalizing p with
  | nil => rfl
  | cons byte rest ih =>
    rw [after, List.foldl_cons, ← after, ih, offset_advance, List.length_cons]
    omega

/-- Line and column. -/
def text (p : Position) : String := toString p.line ++ ":" ++ toString p.column

end Position

/-- The bytes from one point up to another. -/
structure Span where
  start : Position
  stop : Position
  deriving DecidableEq, Inhabited

namespace Span

/-- The empty span at a point. -/
def point (p : Position) : Span := ⟨p, p⟩

/-- The least span that covers both; of two ends at the same offset the first span's is taken. -/
def merge (a b : Span) : Span where
  start := if a.start.offset ≤ b.start.offset then a.start else b.start
  stop := if b.stop.offset ≤ a.stop.offset then a.stop else b.stop

/-- The number of bytes covered. -/
def size (s : Span) : Nat := s.stop.offset - s.start.offset

def isEmpty (s : Span) : Bool := s.size = 0

/-- A span is named by the place where it starts. -/
def text (s : Span) : String := s.start.text

end Span

end Enclave
