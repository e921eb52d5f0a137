import Enclave.Proofs.Syntax.Lexing
import Enclave.Proofs.Text.Overlong

/-!
# How many bytes a token takes

Whatever is found at the head of the input is made of bytes that are there, one at least
(`Lexer.exists_takes_scan`). So the number of bytes behind the first, which the scanners give, is
never cut off at zero nor at the end of the input: a word takes the bytes of its characters, and a
number those of its digits (`Lexer.takes_word`, `Lexer.takes_number`).
-/

namespace Enclave.Lexer

open Text

variable {b quote : UInt8} {rest body bytes input : List UInt8}

/-- The lexeme is made of these bytes at the head of the input. -/
structure Lexeme.Takes (l : Lexeme) (bytes input : List UInt8) : Prop where
  front : bytes <+: input
  length : bytes.length = l.more + 1

/-- What a lexeme takes behind its first byte is there. -/
theorem Lexeme.Takes.more_le {l : Lexeme} (h : l.Takes bytes (b :: rest)) :
    l.more ≤ rest.length := by
  have hle := h.front.length_le
  rw [h.length, List.length_cons] at hle
  exact Nat.le_of_succ_le_succ hle

/-! ### Comments -/

/-- The body of a comment ends where its closing bracket stands. -/
theorem commentBody?_eq {nested : Nat} (h : commentBody? nested body = some bytes) :
    ∃ tail, body = bytes ++ 0x2A :: 0x2F :: tail := by
  -- the case that ends the comment gives the closing mark; the others pass it on
  fun_induction commentBody? nested body generalizing bytes with
  | case1 nested rest ih =>
    obtain ⟨inner, hinner, rfl⟩ := Option.map_eq_some_iff.mp h
    obtain ⟨tail, rfl⟩ := ih hinner
    exact ⟨tail, rfl⟩
  | case2 rest =>
    cases h
    exact ⟨rest, rfl⟩
  | case3 rest nested ih =>
    obtain ⟨inner, hinner, rfl⟩ := Option.map_eq_some_iff.mp h
    obtain ⟨tail, rfl⟩ := ih hinner
    exact ⟨tail, rfl⟩
  | case4 nested b rest _ _ ih =>
    obtain ⟨inner, hinner, rfl⟩ := Option.map_eq_some_iff.mp h
    obtain ⟨tail, rfl⟩ := ih hinner
    exact ⟨tail, rfl⟩
  | case5 => cases h

/-- A comment runs up to the end of its line, the two slashes included. -/
theorem takes_lineComment (body : List UInt8) :
    ∃ bytes, (lineComment body).Takes bytes (0x2F :: 0x2F :: body) := by
  refine ⟨0x2F :: 0x2F :: body.takeWhile (· ≠ 0x0A), ?_, ?_⟩
  · obtain ⟨behind, hbehind⟩ := List.takeWhile_prefix (l := body) fun b => decide (b ≠ 0x0A)
    exact ⟨behind, congrArg (fun tail => 0x2F :: 0x2F :: tail) hbehind⟩
  · rw [lineComment, List.length_cons, List.length_cons, Nat.add_comm 1]

/-- A comment between brackets takes these as well. -/
theorem takes_blockComment (body : List UInt8) :
    ∃ bytes, (blockComment body).Takes bytes (0x2F :: 0x2A :: body) := by
  unfold blockComment
  split
  · next bytes hbody =>
    obtain ⟨tail, rfl⟩ := commentBody?_eq hbody
    refine ⟨0x2F :: 0x2A :: (bytes ++ [0x2A, 0x2F]), ⟨tail, by simp⟩, ?_⟩
    rw [List.length_cons, List.length_cons, List.length_append]
    exact congrArg (· + 1) (Nat.add_comm _ 3)
  · -- a comment that is not closed runs up to the end of the input
    refine ⟨0x2F :: 0x2A :: body, List.prefix_rfl, ?_⟩
    rw [List.length_cons, List.length_cons]
    exact congrArg (· + 1) (Nat.add_comm _ 1)

/-! ### Strings -/

/-- A result that has been changed is one of a result. -/
theorem map_eq_ok {ε α β : Type} {f : α → β} {x : Except ε α} {b : β} (h : x.map f = .ok b) :
    ∃ a, x = .ok a ∧ f a = b := by
  cases x with
  | error e => cases h
  | ok a => exact ⟨a, rfl, Except.ok.inj h⟩

/-- A string ends within the input. -/
theorem width_stringBody_le (quote : UInt8) (body : List UInt8) {value : List UInt8} {width : ℕ}
    (h : stringBody quote body = .ok (value, width)) : width ≤ body.length := by
  -- a byte or an escape is passed, and the width grows as the input does
  fun_induction stringBody quote body generalizing value width with
  | case1 => cases h
  | case2 =>
    cases h
    exact Nat.le_refl 1
  | case3 => cases h
  | case4 => cases h
  | case5 e rest =>
    cases h
    exact Nat.le_add_left _ _
  | case6 e rest hquote ih =>
    obtain ⟨⟨value', width'⟩, hrest, heq⟩ := map_eq_ok h
    cases heq
    exact Nat.add_le_add_right (ih hrest) 2
  | case7 b e rest hquote hescape ih =>
    obtain ⟨⟨value', width'⟩, hrest, heq⟩ := map_eq_ok h
    cases heq
    exact Nat.add_le_add_right (ih hrest) 1

/-- A string takes its closing quote, or all there is if it has none. -/
theorem takes_string (quote : UInt8) (body : List UInt8) :
    ∃ bytes, (string quote body).Takes bytes (quote :: body) := by
  unfold string
  split
  · next bytes width hbody =>
    refine ⟨quote :: body.take width, List.prefix_cons_iff.mpr
      (Or.inr ⟨_, rfl, List.take_prefix _ _⟩), ?_⟩
    rw [List.length_cons, List.length_take_of_le (width_stringBody_le quote body hbody)]
  · exact ⟨quote :: body, List.prefix_rfl, rfl⟩

/-! ### Numbers -/

/-- A point before a digit begins a fraction. -/
theorem fraction_point {d : UInt8} (h : Number.isDigit d = true) (rest : List UInt8) :
    fraction (0x2E :: d :: rest) = 0x2E :: (d :: rest).takeWhile isDigitOrGap :=
  if_pos h

/-- Digits and gaps are single bytes. -/
theorem ascii_of_isDigitOrGap : ∀ b : UInt8, isDigitOrGap b = true → b < 0x80 :=
  forall_byte (by decide +kernel)

/-- Bytes at the head of the input, none of which is part of a longer character. -/
def IsAsciiPrefix (bytes input : List UInt8) : Prop := bytes <+: input ∧ ∀ b ∈ bytes, b < 0x80

/-- A prefix of single bytes, and one of what is left, make one. -/
theorem IsAsciiPrefix.append {bytes' input : List UInt8} (h : IsAsciiPrefix bytes input)
    (h' : IsAsciiPrefix bytes' (input.drop bytes.length)) :
    IsAsciiPrefix (bytes ++ bytes') input := by
  obtain ⟨⟨rest, rfl⟩, hbytes⟩ := h
  rw [List.drop_left] at h'
  obtain ⟨⟨rest', rfl⟩, hbytes'⟩ := h'
  refine ⟨⟨rest', List.append_assoc _ _ _⟩, fun b hb => ?_⟩
  rcases List.mem_append.mp hb with hb | hb
  · exact hbytes b hb
  · exact hbytes' b hb

theorem isAsciiPrefix_nil (input : List UInt8) : IsAsciiPrefix [] input :=
  ⟨List.nil_prefix, nofun⟩

/-- A run of digits is a prefix of single bytes. -/
theorem isAsciiPrefix_run (input : List UInt8) :
    IsAsciiPrefix (input.takeWhile isDigitOrGap) input :=
  ⟨List.takeWhile_prefix _, fun b hb =>
    ascii_of_isDigitOrGap b (List.all_eq_true.mp List.all_takeWhile b hb)⟩

theorem isAsciiPrefix_singleton (hb : b < 0x80) (rest : List UInt8) :
    IsAsciiPrefix [b] (b :: rest) :=
  ⟨⟨rest, rfl⟩, List.forall_mem_singleton.mpr hb⟩

/-- A fraction is a prefix of single bytes. -/
theorem isAsciiPrefix_fraction (input : List UInt8) : IsAsciiPrefix (fraction input) input := by
  unfold fraction
  -- The point, and then a run of digits and gaps; or nothing.
  split
  · next d rest =>
    split
    · have hpoint : IsAsciiPrefix [0x2E] (0x2E :: d :: rest) :=
        isAsciiPrefix_singleton (by decide) _
      exact hpoint.append (isAsciiPrefix_run (d :: rest))
    · exact isAsciiPrefix_nil _
  · exact isAsciiPrefix_nil _

/-- A sign is a prefix of single bytes. -/
theorem isAsciiPrefix_sign (input : List UInt8) :
    IsAsciiPrefix ((input.take 1).filter fun b => b = 0x2B || b = 0x2D) input := by
  cases input with
  | nil => exact isAsciiPrefix_nil _
  | cons b rest =>
    -- Either the next byte is a sign, and is taken, or nothing is.
    by_cases hb : (b = 0x2B || b = 0x2D) = true
    · rw [List.take_succ_cons, List.take_zero, List.filter_cons_of_pos (by simpa using hb)]
      refine isAsciiPrefix_singleton ?_ rest
      simp only [Bool.or_eq_true, decide_eq_true_eq] at hb
      rcases hb with rfl | rfl <;> decide
    · rw [List.take_succ_cons, List.take_zero, List.filter_cons_of_neg (by simpa using hb)]
      exact isAsciiPrefix_nil _

/-- A power is a prefix of single bytes. -/
theorem isAsciiPrefix_power (input : List UInt8) : IsAsciiPrefix (power input) input := by
  unfold power
  -- Letter, sign and digits, one behind the other; or nothing.
  split
  · next e rest =>
    split
    · next he =>
      dsimp only
      split
      · have hletter : e < 0x80 := by rcases he with rfl | rfl <;> decide
        exact (isAsciiPrefix_singleton hletter rest).append
          ((isAsciiPrefix_sign rest).append (isAsciiPrefix_run _))
      · exact isAsciiPrefix_nil _
    · exact isAsciiPrefix_nil _
  · exact isAsciiPrefix_nil _

/-- The bytes of a number are a prefix of single bytes. -/
theorem isAsciiPrefix_numberBytes (input : List UInt8) :
    IsAsciiPrefix (numberBytes input) input := by
  unfold numberBytes
  dsimp only
  refine ((isAsciiPrefix_run input).append (isAsciiPrefix_fraction _)).append ?_
  rw [List.length_append, ← List.drop_drop]
  exact isAsciiPrefix_power _

/-- A number has a byte. -/
theorem numberBytes_ne_nil
    (h : Number.isDigit b = true ∨ b = 0x2E ∧ (rest.take 1).any Number.isDigit = true) :
    numberBytes (b :: rest) ≠ [] := by
  unfold numberBytes
  dsimp only
  rcases h with hdigit | ⟨rfl, hdigit⟩
  · -- a digit begins the whole part
    have hrun : isDigitOrGap b = true := by rw [isDigitOrGap, hdigit, Bool.true_or]
    rw [List.takeWhile_cons_of_pos hrun]
    exact List.cons_ne_nil _ _
  · -- a point begins a fraction, since a digit follows it
    cases rest with
    | nil => cases hdigit
    | cons d rest =>
      have hd : Number.isDigit d = true := by simpa using hdigit
      rw [List.takeWhile_cons_of_neg (by decide), List.length_nil, List.drop_zero,
        fraction_point hd]
      exact List.cons_ne_nil _ _

/-- A number takes the bytes of its digits, and there are some. -/
theorem takes_number
    (h : Number.isDigit b = true ∨ b = 0x2E ∧ (rest.take 1).any Number.isDigit = true) :
    (number (b :: rest)).Takes (numberBytes (b :: rest)) (b :: rest) := by
  have hpos : 0 < (numberBytes (b :: rest)).length :=
    List.length_pos_iff.mpr (numberBytes_ne_nil h)
  refine ⟨(isAsciiPrefix_numberBytes _).1, ?_⟩
  unfold number
  dsimp only
  split <;> exact (Nat.sub_add_cancel hpos).symm

/-! ### Words -/

/-- As many bytes are there as bits were read from. -/
theorem count_le_of_continuationBits {bits count n : Nat} {rest : List UInt8}
    (h : continuationBits bits count rest = some n) : count ≤ rest.length := by
  induction count generalizing bits rest with
  | zero => exact Nat.zero_le _
  | succ count ih =>
    obtain ⟨x, -, rest', rfl, hrest⟩ := exists_of_continuationBits h
    exact Nat.succ_le_succ (ih hrest)

/-- What is read is there. -/
theorem leadingChar_le (b : UInt8) (rest : List UInt8) : (leadingChar b rest).2 ≤ rest.length := by
  unfold leadingChar
  cases h : spelledChar? b rest with
  | none => exact Nat.zero_le _
  | some p =>
    simp only [spelledChar?, Option.bind_eq_bind, Option.bind_eq_some_iff] at h
    obtain ⟨⟨count, bits⟩, -, n, hbits, c, -, heq⟩ := h
    cases heq
    exact count_le_of_continuationBits hbits

/-- A character that starts a word may stand in one. -/
theorem continuesWord_of_isWordStart {b : UInt8} {c : Char} (h : isWordStart b c = true) :
    continuesWord c = true := by
  have hbegins : beginsWord c = true := by
    unfold isWordStart at h
    split at h
    · exact h
    · rw [beginsWord, h, Bool.true_or, Bool.true_or]
  rw [continuesWord, hbegins, Bool.true_or]

/-- The bytes of the characters of a word are there. -/
theorem width_wordSkipping_le (skipped : ℕ) (input : List UInt8) :
    (wordSkipping skipped input).2 ≤ input.length := by
  -- Byte by byte: what is skipped and what is read both count one.
  induction input generalizing skipped with
  | nil => exact Nat.le_refl 0
  | cons b rest ih =>
    unfold wordSkipping
    split
    · exact Nat.succ_le_succ (ih _)
    · dsimp only
      split
      · exact Nat.succ_le_succ (ih _)
      · exact Nat.zero_le _

/-- A word has a first character, so it takes a byte at least. -/
theorem width_wordSkipping_pos (h : continuesWord (leadingChar b rest).1 = true) :
    0 < (wordSkipping 0 (b :: rest)).2 := by
  unfold wordSkipping
  dsimp only
  rw [if_pos h]
  exact Nat.succ_pos _

/-- The text of a word, and how many bytes it takes. -/
theorem word_eq (input : List UInt8) :
    (word input).text = String.ofList (wordSkipping 0 input).1 ∧
      (word input).more = (wordSkipping 0 input).2 - 1 := by
  unfold word
  dsimp only
  split <;> exact ⟨rfl, rfl⟩

/-- A word takes the bytes of its characters. -/
theorem takes_word (h : continuesWord (leadingChar b rest).1 = true) :
    (word (b :: rest)).Takes ((b :: rest).take (wordSkipping 0 (b :: rest)).2) (b :: rest) := by
  refine ⟨List.take_prefix _ _, ?_⟩
  rw [List.length_take_of_le (width_wordSkipping_le 0 _), (word_eq _).2,
    Nat.sub_add_cancel (width_wordSkipping_pos h)]

/-! ### Whatever is found -/

/-- Every symbol of the table is made of the bytes of its spelling, one at least. -/
theorem symbols_spelled : ∀ s ∈ symbols, utf8 s.spelling = s.bytes ∧ s.bytes ≠ [] := by
  decide +kernel

/-- Bytes that are found at the head of the input are those that a lexeme takes. -/
theorem take_of_front {taken : List UInt8} (hfront : taken <+: b :: rest) (hne : taken ≠ []) :
    b :: rest.take (taken.length - 1) = taken := by
  cases taken with
  | nil => exact absurd rfl hne
  | cons x taken =>
    obtain ⟨behind, hbehind⟩ := hfront
    obtain ⟨rfl, rfl⟩ := List.cons.inj hbehind
    exact congrArg _ List.take_left

/-- Marks and operators are looked up at the head of the input. -/
theorem takes_symbol {l : Lexeme} (h : symbol? (b :: rest) = some l) :
    ∃ bytes, l.Takes bytes (b :: rest) := by
  obtain ⟨s, hfind, rfl⟩ := Option.map_eq_some_iff.mp h
  obtain ⟨-, hne⟩ := symbols_spelled s (List.mem_of_find?_eq_some hfind)
  exact ⟨s.bytes, by simpa using List.find?_some hfind,
    (Nat.sub_add_cancel (List.length_pos_iff.mpr hne)).symm⟩

/-- Where nothing else begins, a word or one character is taken. -/
theorem takes_wordOrStray (b : UInt8) (rest : List UInt8) :
    ∃ bytes, (wordOrStray b rest).Takes bytes (b :: rest) := by
  unfold wordOrStray
  dsimp only
  split
  · next hstart => exact ⟨_, takes_word (continuesWord_of_isWordStart hstart)⟩
  · refine ⟨b :: rest.take (leadingChar b rest).2, List.prefix_cons_iff.mpr
      (Or.inr ⟨_, rfl, List.take_prefix _ _⟩), ?_⟩
    rw [List.length_cons, List.length_take_of_le (leadingChar_le b rest)]

/-- **Tokens take bytes that are there**, one at least. -/
theorem exists_takes_scan (b : UInt8) (rest : List UInt8) :
    ∃ bytes, (scan b rest).Takes bytes (b :: rest) := by
  -- in the order of the scan
  unfold scan
  split
  · exact takes_lineComment _
  · exact takes_blockComment _
  · split
    · exact takes_string b rest
    · split
      · next hnumber => exact ⟨_, takes_number hnumber⟩
      · cases hsymbol : symbol? (b :: rest) with
        | some l => exact takes_symbol hsymbol
        | none => exact takes_wordOrStray b rest

/-- What is found takes no bytes that are not there. -/
theorem more_scan_le (b : UInt8) (rest : List UInt8) : (scan b rest).more ≤ rest.length :=
  (exists_takes_scan b rest).elim fun _ h => h.more_le

/-- Words are found by their characters alone. -/
theorem scan_of_isWord {b : UInt8} {rest : List UInt8} (h : (scan b rest).kind.isWord = true) :
    scan b rest = word (b :: rest) ∧ continuesWord (leadingChar b rest).1 = true := by
  -- comments, strings, numbers and symbols are no words, so the scan came to the last case
  unfold scan at h ⊢
  split at h
  · cases h
  · unfold blockComment at h
    split at h <;> cases h
  · split at h
    · unfold string at h
      split at h <;> cases h
    · split at h
      · unfold number at h
        dsimp only at h
        split at h <;> cases h
      · next hquote hdigit =>
        rw [if_neg hquote, if_neg hdigit]
        cases hsymbol : symbol? (b :: rest) with
        | some l =>
          rw [hsymbol, Option.getD_some] at h
          rcases kind_symbol hsymbol with ⟨sign, hkind⟩ | ⟨sign, hkind⟩ <;> rw [hkind] at h <;>
            cases h
        | none =>
          rw [hsymbol, Option.getD_none] at h
          rw [Option.getD_none]
          unfold wordOrStray at h ⊢
          dsimp only at h ⊢
          split at h
          · -- what is left is a word, or a stray character
            next hstart => exact ⟨if_pos hstart, continuesWord_of_isWordStart hstart⟩
          · cases h

/-- So are numbers by their digits. -/
theorem scan_of_number {value : Number} (h : (scan b rest).kind = .number value) :
    scan b rest = number (b :: rest) ∧
      (Number.isDigit b = true ∨ b = 0x2E ∧ (rest.take 1).any Number.isDigit = true) := by
  -- Whatever is tried before numbers gives a token of another kind, and so does what is tried
  -- after.
  unfold scan at h ⊢
  split at h
  · cases h
  · unfold blockComment at h
    split at h <;> cases h
  · split at h
    · unfold string at h
      split at h <;> cases h
    · split at h
      · next hquote hnumber => exact ⟨by rw [if_neg hquote, if_pos hnumber], hnumber⟩
      · cases hsymbol : symbol? (b :: rest) with
        | some l =>
          rw [hsymbol, Option.getD_some] at h
          rcases kind_symbol hsymbol with ⟨sign, hkind⟩ | ⟨sign, hkind⟩ <;> rw [hkind] at h <;>
            cases h
        | none =>
          rw [hsymbol, Option.getD_none] at h
          unfold wordOrStray at h
          dsimp only at h
          split at h
          · unfold word at h
            dsimp only at h
            split at h <;> cases h
          · cases h

end Enclave.Lexer
