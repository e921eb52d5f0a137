import Enclave.Proofs.Text.Texts
import Enclave.Source.Excerpt
import Mathlib.Data.List.DropRight

/-!
# Lines of a source

The bytes before a point of a source end with the part of its line that is before it. The line of
the point goes on behind it up to the next line feed. The position that is reached over the bytes
counts the lines before and the bytes of that part (`Position.after_origin`), and so it leads back
to the line: it is the one with that number among the parts that line feeds split the source into
(`getElem?_splitOn`).

An excerpt is cut out between characters wherever its span begins between two of a text
(`Excerpt.of?_eq`). It shows this line, and marks bytes: as many in front of the mark as the part
of the line has, and as many under it as the span has in the line, at least one.
-/

namespace Enclave

open Text

/-! ### Parts of lines -/

/-- The byte is none that ends a line. -/
def isInLine (b : UInt8) : Bool := b ≠ 0x0A

/-- The part of its line that is before a point, given the bytes before. -/
def lineBefore (before : List UInt8) : List UInt8 := before.rtakeWhile isInLine

/-- The lines before that of a point, with their ends. -/
def linesAbove (before : List UInt8) : List UInt8 := before.rdropWhile isInLine

/-- The part of its line that is behind a point, given the bytes behind. -/
def lineBehind (rest : List UInt8) : List UInt8 := rest.takeWhile isInLine

variable {before rest : List UInt8}

theorem linesAbove_append (before : List UInt8) : linesAbove before ++ lineBefore before = before :=
  List.rdropWhile_append_rtakeWhile

theorem isInLine_of_mem (before : List UInt8) : ∀ b ∈ lineBefore before, isInLine b = true :=
  fun _ hb => List.mem_rtakeWhile_imp hb

/-- Neither part of a line has the end of one in it. -/
theorem isInLine_of_mem_line (before rest : List UInt8) :
    ∀ b ∈ lineBefore before ++ lineBehind rest, isInLine b = true := fun b hb =>
  (List.mem_append.mp hb).elim (isInLine_of_mem before b) List.mem_takeWhile_imp

/-- The lines above end with a line feed, if there are any. -/
theorem linesAbove_cases (before : List UInt8) :
    linesAbove before = [] ∨ ∃ above, linesAbove before = above ++ [0x0A] := by
  by_cases hnil : linesAbove before = []
  · exact Or.inl hnil
  · have hlast : (linesAbove before).getLast hnil = 0x0A := by
      have hnot : ¬isInLine ((linesAbove before).getLast hnil) = true :=
        List.rdropWhile_last_not isInLine before hnil
      simpa only [isInLine, ne_eq, decide_not, Bool.not_eq_true', decide_eq_false_iff_not,
        not_not] using hnot
    exact Or.inr ⟨_, by rw [← hlast, List.dropLast_append_getLast]⟩

/-- A line feed or the end of the source is behind a line. -/
theorem lineBehind_cases (rest : List UInt8) :
    rest = lineBehind rest ∨ ∃ below, rest = lineBehind rest ++ 0x0A :: below := by
  have hsplit : lineBehind rest ++ rest.dropWhile isInLine = rest := List.takeWhile_append_dropWhile
  cases hdrop : rest.dropWhile isInLine with
  | nil =>
    rw [hdrop, List.append_nil] at hsplit
    exact Or.inl hsplit.symm
  | cons b below =>
    -- the first byte that is not in the line is the line feed
    have hb : b = 0x0A := by
      have hnot := List.head_dropWhile_not isInLine (by rw [hdrop]; exact List.cons_ne_nil b below)
      simpa [hdrop, isInLine] using hnot
    rw [hdrop, hb] at hsplit
    exact Or.inr ⟨below, hsplit.symm⟩

/-! ### Positions -/

/-- The position behind some bytes counts the line feeds among them, and the bytes behind the
last. -/
theorem Position.after_origin (before : List UInt8) : Position.origin.after before =
    ⟨before.length, before.count 0x0A + 1, (lineBefore before).length + 1⟩ := by
  induction before using List.reverseRecOn with
  | nil => rfl
  | append_singleton before b ih =>
    have hbehind : Position.origin.after (before ++ [b]) =
        (Position.origin.after before).advance b := after_append _ _ _
    rw [hbehind, ih, lineBefore, lineBefore, List.rtakeWhile_concat, List.count_append,
      List.length_append]
    -- a line feed starts an empty line; any other byte lengthens the one it stands in
    by_cases hb : b = 0x0A
    · subst hb
      rfl
    · have hline : isInLine b = true := decide_eq_true hb
      rw [if_pos hline, advance, if_neg hb, List.count_singleton, if_neg (by simpa using hb),
        List.length_append]
      rfl

theorem length_splitOn (bytes : List UInt8) :
    (bytes.splitOn 0x0A).length = bytes.count 0x0A + 1 := by
  induction bytes with
  | nil => rfl
  | cons b bytes ih =>
    rw [List.splitOn_cons_eq_if_modifyHead]
    by_cases hb : b = 0x0A
    · simp [hb, ih]
    · simp [hb, ih]

theorem head?_splitOn (bytes : List UInt8) :
    (bytes.splitOn 0x0A)[0]? = some (lineBehind bytes) := by
  have hnot : 0x0A ∉ lineBehind bytes := fun hmem => by
    have hline : isInLine 0x0A = true := List.mem_takeWhile_imp hmem
    cases hline
  -- The bytes are one line, or the line ends where it is split.
  rcases lineBehind_cases bytes with hend | ⟨below, hfeed⟩
  · rw [List.splitOn_eq_singleton (hend ▸ hnot), ← hend]
    rfl
  · conv_lhs => rw [hfeed]
    rw [List.splitOn_append_cons_self_of_not_mem hnot]
    rfl

theorem getElem?_splitOn_of {above part : List UInt8}
    (habove : above = [] ∨ ∃ before, above = before ++ [0x0A])
    (hpart : ∀ b ∈ part, isInLine b = true) (rest : List UInt8) :
    ((above ++ (part ++ rest)).splitOn 0x0A)[above.count 0x0A]? =
      some (part ++ lineBehind rest) := by
  have hline : lineBehind (part ++ rest) = part ++ lineBehind rest :=
    List.takeWhile_append_of_pos hpart
  rw [← hline]
  rcases habove with rfl | ⟨before, rfl⟩
  · exact head?_splitOn _
  · -- as many parts are in front as there are line feeds
    rw [List.append_assoc, List.singleton_append, List.splitOn_append_cons_self,
      List.count_append, List.count_singleton_self,
      List.getElem?_append_right (Nat.le_of_eq (length_splitOn before)), length_splitOn,
      Nat.sub_self]
    exact head?_splitOn _

/-- **The line of a point** is found by the number of line feeds before. -/
theorem getElem?_splitOn (before rest : List UInt8) :
    ((before ++ rest).splitOn 0x0A)[before.count 0x0A]? =
      some (lineBefore before ++ lineBehind rest) := by
  have hfound := getElem?_splitOn_of (linesAbove_cases before) (isInLine_of_mem before) rest
  have hnone : (lineBefore before).count 0x0A = 0 := List.count_eq_zero.mpr fun hmem => by
    cases isInLine_of_mem before _ hmem
  have hcount : (linesAbove before).count 0x0A = before.count 0x0A := by
    have happend := congrArg (List.count 0x0A) (linesAbove_append before)
    rwa [List.count_append, hnone] at happend
  rwa [← List.append_assoc, linesAbove_append, hcount] at hfound

/-! ### Cutting texts at lines -/

theorem Text.IsText.lineBehind (h : IsText rest) : IsText (Enclave.lineBehind rest) := by
  rcases lineBehind_cases rest with hend | ⟨below, hfeed⟩
  · rwa [← hend]
  · rw [hfeed] at h
    exact (h.cut (by decide)).1

theorem Text.IsText.linesAbove (h : IsText before) : IsText (Enclave.linesAbove before) := by
  rcases linesAbove_cases before with hnil | ⟨above, habove⟩
  · rw [hnil]
    exact isText_nil
  · have hsplit := linesAbove_append before
    rw [habove, List.append_assoc] at hsplit
    rw [← hsplit] at h
    rw [habove]
    exact (h.cut (by decide)).1.append (isText_ascii (by decide))

theorem Text.IsText.lineBefore (h : IsText before) : IsText (Enclave.lineBefore before) := by
  have hsplit := linesAbove_append before
  rw [← hsplit] at h
  exact h.behind (IsText.linesAbove (hsplit ▸ h))

/-! ### Excerpts -/

/-- **Excerpts of texts** show the line of the point where the span starts, if this is a point
between characters. -/
theorem Excerpt.of?_eq {span : Span} (hbefore : IsText before) (hrest : IsText rest)
    (hstart : span.start = Position.origin.after before) :
    ∃ line, utf8 line = lineBefore before ++ lineBehind rest ∧
      Excerpt.of? (before ++ rest) span = some ⟨line, (lineBefore before).length,
        max 1 (min span.size (lineBehind rest).length)⟩ := by
  obtain ⟨line, hline⟩ := (hbefore.lineBefore.append hrest.lineBehind).exists_utf8
  refine ⟨line, hline, ?_⟩
  have hlength := congrArg List.length (linesAbove_append before)
  rw [List.length_append] at hlength
  -- the column is how far into its line the span starts, so going back by it leaves the line
  have hcolumn : before.length - (linesAbove before).length = (lineBefore before).length := by
    omega
  have habove : before.length - ((lineBefore before).length + 1 - 1) =
      (linesAbove before).length := by
    omega
  -- from there, the line goes on up to the next line break
  have hbytes : ((before ++ rest).drop (linesAbove before).length).takeWhile
      (fun b => decide (b ≠ 0x0A)) = utf8 line := by
    have hsplit : before ++ rest = linesAbove before ++ (lineBefore before ++ rest) := by
      rw [← List.append_assoc, linesAbove_append]
    rw [hsplit, List.drop_left, hline]
    exact List.takeWhile_append_of_pos (isInLine_of_mem before)
  unfold Excerpt.of?
  rw [hstart, Position.after_origin]
  dsimp only
  rw [List.length_append, Nat.min_eq_left (Nat.le_add_right _ _), habove, hbytes, decode?_utf8,
    hcolumn, hline, List.length_append, Nat.add_sub_cancel_left]
  rfl

end Enclave
