import Enclave.Proofs.Source.Lines

/-!
# Excerpts as they are printed

Under the message of an error four lines are printed: an arrow to the place, a rule, the line of
the source behind its number, and a mark (`excerptLines`). Here the printed text is read back line
by line. The message is not limited to one line, as it may quote a lexeme with line feeds in it, but
the last four lines are always these (`printedLines_diagnostic`), since none of them has a line feed
of its own.

How far a mark is from the gutter, and how wide it is, is counted in the characters of the mark
(`markColumn`, `markWidth`).
-/

namespace Enclave

open Text
open String (utf8EncodeChar)

/-! ### Lines that are printed -/

/-- The lines of a printed text, without the line feeds that end them. -/
def printedLines (output : String) : List String :=
  (output.toList.splitOn '\n').map String.ofList

/-- The lines printed to show a line of a source: an arrow to the place, a rule, the line behind its
number, and the mark. Those without the number have a gutter of its width instead. -/
def excerptLines (place : Position) (line mark : String) : List String :=
  let number := toString place.line
  let gutter := copies ' ' number.length
  [gutter ++ "--> " ++ place.text, gutter ++ " |", number ++ " | " ++ line, gutter ++ " | " ++ mark]

/-- The characters of a mark in front of its first arrow head. -/
def markColumn (mark : String) : ℕ := (mark.toList.takeWhile (· ≠ '^')).length

/-- The arrow heads of a mark. -/
def markWidth (mark : String) : ℕ := mark.toList.count '^'

/-- Lines of what is printed before a line feed, and of what is printed after it. -/
theorem printedLines_feed (above below : String) :
    printedLines (above ++ "\n" ++ below) = printedLines above ++ printedLines below := by
  have hfeed : (above ++ "\n" ++ below).toList = above.toList ++ '\n' :: below.toList := by
    rw [String.toList_append, String.toList_append, List.append_assoc]
    rfl
  rw [printedLines, hfeed, List.splitOn_append_cons_self, List.map_append]
  rfl

/-- What has no line feed is one line. -/
theorem printedLines_of_not_mem {output : String} (h : '\n' ∉ output.toList) :
    printedLines output = [output] := by
  rw [printedLines, List.splitOn_eq_singleton h, List.map_singleton, String.ofList_toList]

/-! ### No line feeds within the lines -/

section Feeds

variable {c : Char} {text text' : String}

/-- A character that is in neither part is not in the whole. -/
theorem not_mem_append (h : c ∉ text.toList) (h' : c ∉ text'.toList) :
    c ∉ (text ++ text').toList := by
  rw [String.toList_append]
  exact fun hmem => (List.mem_append.mp hmem).elim h h'

theorem not_mem_copies {d : Char} (hne : c ≠ d) (n : ℕ) : c ∉ (copies d n).toList := by
  rw [copies, String.toList_ofList]
  exact fun hmem => hne (List.eq_of_mem_replicate hmem)

/-- Numbers are written in digits. -/
theorem not_mem_toString (hc : c.isDigit = false) (n : ℕ) : c ∉ (toString n).toList := by
  change c ∉ n.repr.toList
  rw [Nat.toList_repr]
  intro hmem
  have hdigit := Nat.isDigit_of_mem_toDigits (by decide) (by decide) hmem
  rw [hc] at hdigit
  cases hdigit

/-- A line of a source has no line feed, since this is a byte of its own. -/
theorem feed_not_mem_line (h : ∀ b ∈ utf8 text, isInLine b = true) : '\n' ∉ text.toList := by
  intro hmem
  have hbyte : (0x0A : UInt8) ∈ utf8 text := by
    rw [utf8_eq]
    exact List.mem_flatMap.mpr ⟨'\n', hmem, by decide⟩
  cases h _ hbyte

end Feeds

/-! ### Marks -/

/-- The blanks of a mark are what is in front of its arrow heads. -/
theorem markColumn_copies (column width : ℕ) :
    markColumn (copies ' ' column ++ copies '^' width) = column := by
  have hblank : ∀ c ∈ List.replicate column ' ', decide (c ≠ '^') = true := fun c hc => by
    rw [List.eq_of_mem_replicate hc]
    decide
  -- behind the blanks there is an arrow head or nothing
  have hheads : (List.replicate width '^').takeWhile (fun c => decide (c ≠ '^')) = [] := by
    cases width <;> rfl
  rw [markColumn, copies, copies, String.toList_append, String.toList_ofList, String.toList_ofList,
    List.takeWhile_append_of_pos hblank, hheads, List.append_nil, List.length_replicate]

theorem markWidth_copies (column width : ℕ) :
    markWidth (copies ' ' column ++ copies '^' width) = width := by
  rw [markWidth, copies, copies, String.toList_append, String.toList_ofList, String.toList_ofList,
    List.count_append, List.count_replicate, List.count_replicate]
  exact Nat.zero_add width

/-! ### Printed excerpts -/

/-- The mark of an excerpt. -/
def Excerpt.mark (e : Excerpt) : String := copies ' ' e.column ++ copies '^' e.width

@[simp]
theorem Excerpt.markColumn_mark (e : Excerpt) : markColumn e.mark = e.column :=
  markColumn_copies e.column e.width

@[simp]
theorem Excerpt.markWidth_mark (e : Excerpt) : markWidth e.mark = e.width :=
  markWidth_copies e.column e.width

/-- An excerpt is printed in four lines. -/
theorem Excerpt.printedLines_text {e : Excerpt} (h : '\n' ∉ e.line.toList) (place : Position) :
    printedLines (e.text place) = excerptLines place e.line e.mark := by
  have hnumber : ∀ n : ℕ, '\n' ∉ (toString n).toList := not_mem_toString (by decide)
  have hgutter : '\n' ∉ (copies ' ' (toString place.line).length).toList :=
    not_mem_copies (by decide) _
  have hplace : '\n' ∉ place.text.toList :=
    not_mem_append (not_mem_append (hnumber _) (by decide)) (hnumber _)
  have hmark : '\n' ∉ e.mark.toList :=
    not_mem_append (not_mem_copies (by decide) _) (not_mem_copies (by decide) _)
  -- The text is four lines with line feeds between them, none of which has one inside.
  have htext : e.text place =
      copies ' ' (toString place.line).length ++ "--> " ++ place.text ++ "\n" ++
        (copies ' ' (toString place.line).length ++ " |") ++ "\n" ++
        (toString place.line ++ " | " ++ e.line) ++ "\n" ++
        (copies ' ' (toString place.line).length ++ " | " ++ e.mark) := by
    have hrule : " |\n" = " |" ++ "\n" := rfl
    simp only [Excerpt.text, Excerpt.mark, hrule, String.append_assoc]
  rw [htext, printedLines_feed, printedLines_feed, printedLines_feed,
    printedLines_of_not_mem (not_mem_append (not_mem_append hgutter (by decide)) hplace),
    printedLines_of_not_mem (not_mem_append hgutter (by decide)),
    printedLines_of_not_mem (not_mem_append (not_mem_append (hnumber _) (by decide)) h),
    printedLines_of_not_mem (not_mem_append (not_mem_append hgutter (by decide)) hmark)]
  rfl

/-- **A diagnosis that has an excerpt** ends with its four lines. -/
theorem printedLines_diagnostic {source : List UInt8} {span : Span} {e : Excerpt}
    (hof : Excerpt.of? source span = some e) (hline : ∀ b ∈ utf8 e.line, isInLine b = true)
    (kind message : String) :
    printedLines (diagnostic source kind message span) =
      printedLines (kind ++ ": " ++ message) ++ excerptLines span.start e.line e.mark := by
  have htext : diagnostic source kind message span =
      kind ++ ": " ++ message ++ "\n" ++ e.text span.start := by
    rw [diagnostic, hof]
    exact String.append_assoc.symm
  rw [htext, printedLines_feed, Excerpt.printedLines_text (feed_not_mem_line hline)]

end Enclave
