import Enclave.Proofs.Syntax.Diagnostics

/-!
# Marks under spans

The mark that is printed under a line is laid out in characters, one blank for each byte of the line
in front of the span and one arrow head for each byte of the span in the line. So the mark stands
under the span just where all these bytes are characters of their own (`compile_marked`). A
character of two bytes in front of the span moves the mark off it
(`not_marked_of_accented`).
-/

namespace Enclave

open Text
open String (utf8EncodeChar)

/-! ### Bytes and characters -/

namespace Text

/-- A character takes one byte just if it is one of the first 128. -/
theorem length_encode_eq_one_iff (c : Char) : (utf8EncodeChar c).length = 1 ↔ c.toNat < 0x80 := by
  rw [String.length_utf8EncodeChar, Char.utf8Size_eq_one_iff, UInt32.le_iff_toNat_le]
  exact Nat.lt_succ_iff.symm

theorem length_encode_pos (c : Char) : 1 ≤ (utf8EncodeChar c).length := by
  rw [String.length_utf8EncodeChar]
  exact c.utf8Size_pos

/-- A text has as many bytes as characters just if it is made of the first 128. -/
theorem length_encoded (cs : List Char) : cs.length ≤ (cs.flatMap utf8EncodeChar).length ∧
    ((cs.flatMap utf8EncodeChar).length = cs.length ↔ ∀ c ∈ cs, c.toNat < 0x80) := by
  induction cs with
  | nil => exact ⟨Nat.le_refl _, by simp⟩
  | cons c cs ih =>
    obtain ⟨hle, hiff⟩ := ih
    have hpos := length_encode_pos c
    rw [List.flatMap_cons, List.length_append, List.length_cons, List.forall_mem_cons, ← hiff,
      ← length_encode_eq_one_iff]
    omega

theorem length_utf8 (text : String) : text.length ≤ (utf8 text).length ∧
    ((utf8 text).length = text.length ↔ ∀ c ∈ text.toList, c.toNat < 0x80) := by
  rw [utf8_eq, ← String.length_toList]
  exact length_encoded text.toList

end Text

/-! ### Marks -/

/-- A line that is printed in three: in front of the span, in the span, and behind it. -/
structure Span.Splits (span : Span) (source : List UInt8) (line before inside behind : String) :
    Prop where
  line : line = before ++ inside ++ behind
  before : utf8 before = lineBefore (source.take span.start.offset)
  inside : utf8 inside = lineBehind (span.bytes source)

/-- A mark is under what stands in the span, by characters: it has a blank for each that is in front
of the span, and an arrow head for each in it, at least one. -/
structure Underlines (mark before inside : String) : Prop where
  column : markColumn mark = before.length
  width : markWidth mark = max 1 inside.length

variable {source : List UInt8} {span : Span} {line mark before inside behind : String}

/-- A mark that is counted in bytes is under the span just if characters are bytes up to its end. -/
theorem underlines_iff (hcolumn : markColumn mark = (utf8 before).length)
    (hwidth : markWidth mark = max 1 (utf8 inside).length) :
    Underlines mark before inside ↔ ∀ c ∈ (before ++ inside).toList, c.toNat < 0x80 := by
  obtain ⟨hbefore, hbeforeIff⟩ := length_utf8 before
  obtain ⟨hinside, hinsideIff⟩ := length_utf8 inside
  rw [String.toList_append, List.forall_mem_append, ← hbeforeIff, ← hinsideIff]
  constructor
  · rintro ⟨hcolumn', hwidth'⟩
    -- a mark is under nothing at all as well as under one character, but nothing has no bytes
    have hnone : inside.length = 0 → (utf8 inside).length = 0 := fun hempty => by
      rw [String.length_eq_zero_iff.mp hempty]
      decide +kernel
    omega
  · rintro ⟨hbytes, hbytes'⟩
    exact ⟨hcolumn.trans hbytes, by rw [hwidth, hbytes']⟩

/-- What a span between two points of a text covers is a text. -/
theorem Span.isText_bytes (hstart : span.start.Cuts source) (hstop : span.stop.Cuts source) :
    IsText (span.bytes source) := by
  obtain ⟨before, rest, rfl, hbefore, -, hstart⟩ := hstart
  obtain ⟨upTo, behind, heq, hupTo, -, hstop⟩ := hstop
  rw [Position.after_origin] at hstart hstop
  rw [Span.bytes, Span.size, hstart, hstop, List.drop_left]
  rcases Nat.le_total before.length upTo.length with hle | hle
  · -- both ends cut between characters, so what is between them is text
    have hsplit : upTo = before ++ rest.take (upTo.length - before.length) := by
      have htake := congrArg (List.take upTo.length) heq
      rw [List.take_left, List.take_append, List.take_of_length_le hle] at htake
      exact htake.symm
    exact (hsplit ▸ hupTo).behind hbefore
  · rw [Nat.sub_eq_zero_of_le hle]
    exact isText_nil

/-- The part of a span in its line is as much of what the line goes on with. -/
theorem lineBehind_bytes {before : List UInt8} (rest : List UInt8)
    (hstart : span.start = Position.origin.after before) :
    lineBehind (span.bytes (before ++ rest)) = (lineBehind rest).take span.size := by
  rw [Span.bytes, hstart, Position.after_origin, List.drop_left]
  exact List.take_takeWhile.symm

/-- The line that is printed falls into three, and the mark is counted in bytes. -/
theorem Span.exists_splits (hstart : span.start.Cuts source) (hstop : span.stop.Cuts source)
    (kind message : String) :
    ∃ line mark before inside behind,
      printedLines (diagnostic source kind message span) =
        printedLines (kind ++ ": " ++ message) ++ excerptLines span.start line mark ∧
      span.Splits source line before inside behind ∧
      markColumn mark = (utf8 before).length ∧ markWidth mark = max 1 (utf8 inside).length := by
  have htext := Span.isText_bytes hstart hstop
  -- where the span starts and stops the text is cut, so each piece is text by itself
  obtain ⟨front, rest, rfl, hfront, hrest, hstart⟩ := hstart
  obtain ⟨line, hline, hof⟩ := Excerpt.of?_eq hfront hrest hstart
  have hinLine : ∀ b ∈ utf8 line, isInLine b = true := by
    rw [hline]
    exact isInLine_of_mem_line front rest
  obtain ⟨before, hbefore⟩ := hfront.lineBefore.exists_utf8
  obtain ⟨inside, hinside⟩ := htext.lineBehind.exists_utf8
  have hpart := lineBehind_bytes rest hstart
  rw [← hinside] at hpart
  -- the line behind the start is what is inside and then the rest
  have hend : utf8 inside ++ (lineBehind rest).drop span.size = lineBehind rest := by
    rw [hpart, List.take_append_drop]
  have hrestText : IsText (utf8 inside ++ (lineBehind rest).drop span.size) := by
    rw [hend]
    exact hrest.lineBehind
  obtain ⟨behind, hbehind⟩ := (hrestText.behind (isText_utf8 inside)).exists_utf8
  -- the three pieces make up the line, and are as long as column and width say
  refine ⟨line, _, before, inside, behind, printedLines_diagnostic hof hinLine kind message,
    ⟨utf8_injective ?_, ?_, hinside⟩, ?_, ?_⟩
  · rw [utf8_append, utf8_append, hbefore, hbehind, List.append_assoc, hend, hline]
  · rw [hbefore, hstart, Position.after_origin, List.take_left]
  · rw [Excerpt.markColumn_mark, hbefore]
  · rw [Excerpt.markWidth_mark, hpart, List.length_take]

/-- **Marks under spans.** Below the diagnosis of each error a line and a mark are printed, and the
mark is under the characters of the span just if the line has none but the first 128 up to where the
span ends in it. -/
theorem compile_marked {text : String} {err : CompileError}
    (h : compile (utf8 text) = .error err) :
    ∀ c ∈ err.complaints, ∃ line mark before inside behind,
      printedLines (diagnostic (utf8 text) c.kind c.message c.span) =
        printedLines (c.kind ++ ": " ++ c.message) ++ excerptLines c.span.start line mark ∧
      c.span.Splits (utf8 text) line before inside behind ∧
      (Underlines mark before inside ↔ ∀ x ∈ (before ++ inside).toList, x.toNat < 0x80) := by
  intro c hc
  obtain ⟨hstart, hstop⟩ := (isCut_of_compile_error h c hc).cuts
  obtain ⟨line, mark, before, inside, behind, hprinted, hsplits, hcolumn, hwidth⟩ :=
    Span.exists_splits hstart hstop c.kind c.message
  exact ⟨line, mark, before, inside, behind, hprinted, hsplits, underlines_iff hcolumn hwidth⟩

/-- A declaration without a name, all of the first 128 characters. -/
def nameless : String := "let = 1;"

theorem compile_marked_nameless : ∃ err c line mark before inside behind,
    compile (utf8 nameless) = .error err ∧ c ∈ err.complaints ∧
      printedLines (diagnostic (utf8 nameless) c.kind c.message c.span) =
        printedLines (c.kind ++ ": " ++ c.message) ++ excerptLines c.span.start line mark ∧
      c.span.Splits (utf8 nameless) line before inside behind ∧ inside = "=" ∧
      Underlines mark before inside := by
  let c : Complaint := ⟨"Parse error", "expected identifier, found `=`", ⟨⟨4, 1, 5⟩, ⟨5, 1, 6⟩⟩⟩
  obtain ⟨err, hcompile, hc⟩ := exists_complaint (utf8 nameless) c (by decide +kernel)
  obtain ⟨line, mark, before, inside, behind, hprinted, hsplits, hiff⟩ :=
    compile_marked hcompile c hc
  -- What stands before and inside is determined by its bytes.
  have hbefore : before = "let " := utf8_injective (hsplits.before.trans (by decide +kernel))
  have hinside : inside = "=" := utf8_injective (hsplits.inside.trans (by decide +kernel))
  refine ⟨err, c, line, mark, before, inside, behind, hcompile, hc, hprinted, hsplits, hinside,
    hiff.mpr ?_⟩
  rw [hbefore, hinside]
  -- Here all characters are of one byte, so the mark is right.
  have hascii : ("let " ++ "=").toList.all (fun x => decide (x.toNat < 0x80)) = true := by
    decide +kernel
  exact fun x hx => of_decide_eq_true (List.all_eq_true.mp hascii x hx)

/-- A character of two bytes in front of one that begins no token. -/
def accented : String := "\"é\" @"

/-- The complaint about the character that begins no token. -/
def accentedComplaint : Complaint :=
  ⟨"Parse error", "unexpected character: '@'", ⟨⟨5, 1, 6⟩, ⟨6, 1, 7⟩⟩⟩

/-- What is printed for the complaint. The arrow head is one place behind the character. -/
theorem printed_accented : printedLines (diagnostic (utf8 accented) accentedComplaint.kind
    accentedComplaint.message accentedComplaint.span) =
      ["Parse error: unexpected character: '@'", " --> 1:6", "  |", "1 | \"é\" @",
        "  |      ^"] := by
  decide +kernel

/-- **Marks off their spans.** Not every mark is under the characters of its span: the mark for the
character that begins no token is one place behind it. -/
theorem not_marked_of_accented : ¬∀ (text : String) (err : CompileError),
    compile (utf8 text) = .error err → ∀ c ∈ err.complaints, ∀ line mark before inside behind,
      printedLines (diagnostic (utf8 text) c.kind c.message c.span) =
        printedLines (c.kind ++ ": " ++ c.message) ++ excerptLines c.span.start line mark →
      c.span.Splits (utf8 text) line before inside behind → Underlines mark before inside := by
  intro hall
  obtain ⟨err, hcompile, hc⟩ :=
    exists_complaint (utf8 accented) accentedComplaint (by decide +kernel)
  have hlines : printedLines (accentedComplaint.kind ++ ": " ++ accentedComplaint.message) ++
      excerptLines accentedComplaint.span.start accented "     ^" =
        ["Parse error: unexpected character: '@'", " --> 1:6", "  |", "1 | \"é\" @",
          "  |      ^"] := by decide +kernel
  -- The region splits the line behind the accented letter.
  have hsplits : accentedComplaint.span.Splits (utf8 accented) accented "\"é\" " "@" "" :=
    ⟨by decide +kernel, by decide +kernel, by decide +kernel⟩
  -- The mark would begin behind four characters, but is printed behind five blanks.
  have hfour : markColumn "     ^" = "\"é\" ".length :=
    (hall accented err hcompile accentedComplaint hc _ _ _ _ _
      (printed_accented.trans hlines.symm) hsplits).column
  revert hfour
  decide +kernel

end Enclave
