import Enclave.Proofs.Syntax.Lexemes
import Enclave.Proofs.Text.Texts

/-!
# Tokens and the bytes they cover

A token is what is found at the bytes that its region covers (`Lexer.Found`). The name that is found
is spelled by these bytes just where no overlong form stands among them (`Lexer.words_exact`).
-/

namespace Enclave

/-- The bytes of a source that the region covers. -/
def Span.bytes (s : Span) (source : List UInt8) : List UInt8 :=
  (source.drop s.start.offset).take s.size

namespace Lexer

open Text
open String (utf8EncodeChar)

/-! ### What is found -/

/-- A token of a source: nothing at its end, or what is found at some byte, where the rest of the
source has a certain property. -/
inductive Found (P : List UInt8 → Prop) (source : List UInt8) (t : Token) : Prop
  | ending (kind : t.kind = .endOfInput) (lexeme : t.lexeme = "") (bytes : t.span.bytes source = [])
  | token {before : List UInt8} {b : UInt8} {rest : List UInt8} (holds : P (b :: rest))
    (source_eq : source = before ++ b :: rest) (space : isSpace b = false)
    (kind : t.kind = (scan b rest).kind) (lexeme : t.lexeme = (scan b rest).text)
    (bytes : t.span.bytes source = b :: rest.take (scan b rest).more)

variable {P : List UInt8 → Prop}

/-- The property passes on behind a blank, and behind what is found. -/
structure Passes (P : List UInt8 → Prop) : Prop where
  blank : ∀ {b rest}, isSpace b = true → P (b :: rest) → P rest
  token : ∀ {b rest}, isSpace b = false → P (b :: rest) → P (rest.drop (scan b rest).more)

theorem Passes.found_tokensFrom (hP : Passes P) {source input before : List UInt8} {p : Position}
    (hp : p.offset = before.length) {pending : Nat} (hsource : source = before ++ input)
    (hinput : P (input.drop pending)) :
    ∀ t ∈ tokensFrom p pending input, Found P source t := by
  -- on the bytes: those pending belong to the token before, and `P` holds where it ends
  induction input generalizing p pending before with
  | nil =>
    intro t ht
    cases List.mem_singleton.mp ht
    exact .ending rfl rfl (by simp [Span.bytes, Span.point, Span.size])
  | cons b rest ih =>
    have hnext : (p.advance b).offset = (before ++ [b]).length := by
      rw [Position.offset_advance, hp, List.length_append]
      rfl
    have hbehind : source = before ++ [b] ++ rest := by rw [hsource, List.append_assoc]; rfl
    unfold tokensFrom
    cases pending with
    | succ pending => exact ih hnext hbehind hinput
    | zero =>
      dsimp only
      split
      · next hspace => exact ih hnext hbehind (hP.blank hspace hinput)
      · next hspace =>
        have hspace : isSpace b = false := Bool.eq_false_iff.mpr hspace
        intro t ht
        rcases List.mem_cons.mp ht with rfl | ht
        · refine .token hinput hsource hspace rfl rfl ?_
          -- the span is as long as what was scanned, cut off where the input ends
          have hsize : (p.advance b).offset + min (scan b rest).more rest.length - p.offset =
              min (scan b rest).more rest.length + 1 := by
            rw [Position.offset_advance]
            omega
          rw [Span.bytes, Span.size, Position.offset_after, List.length_take, hsize, hp, hsource,
            List.drop_left, List.take_succ_cons]
          exact congrArg _ (List.take_eq_take_min.symm)
        · exact ih hnext hbehind (hP.token hspace hinput) t ht

theorem Passes.found (hP : Passes P) {source : List UInt8} (h : P source) :
    ∀ t ∈ tokens source, Found P source t := by
  have hsource : source = [] ++ source := rfl
  exact hP.found_tokensFrom (show Position.origin.offset = _ from rfl) hsource h

/-! ### Words -/

theorem wordSkipping_stop {b : UInt8} {rest : List UInt8}
    (h : continuesWord (leadingChar b rest).1 = false) : wordSkipping 0 (b :: rest) = ([], 0) := by
  unfold wordSkipping
  dsimp only
  rw [if_neg (Bool.eq_false_iff.mp h)]

theorem wordSkipping_cons {b : UInt8} {rest : List UInt8} {c : Char} {more : Nat}
    (hread : leadingChar b rest = (c, more)) (hc : continuesWord c = true) :
    wordSkipping 0 (b :: rest) = (c :: (wordSkipping 0 (rest.drop more)).1,
      more + 1 + (wordSkipping 0 (rest.drop more)).2) := by
  have hle := leadingChar_le b rest
  rw [hread] at hle
  have hskip := wordSkipping_append (rest.take more) (rest.drop more)
  rw [List.length_take_of_le hle, List.take_append_drop] at hskip
  rw [wordSkipping, hread]
  dsimp only
  rw [if_pos hc, hskip]
  exact congrArg (Prod.mk _) (by omega)

theorem continuesWord_replacementChar : continuesWord replacementChar = false := by
  decide +kernel

/-- A word that holds no overlong form is spelled by its bytes. -/
theorem wordSkipping_exact (n : Nat) : ∀ input : List UInt8, input.length ≤ n →
    (∀ part, part <:+: input.take (wordSkipping 0 input).2 → ¬Overlong part) →
      input.take (wordSkipping 0 input).2 = (wordSkipping 0 input).1.flatMap utf8EncodeChar := by
  induction n with
  | zero =>
    intro input hlength _
    rw [List.length_eq_zero_iff.mp (Nat.le_zero.mp hlength)]
    rfl
  | succ n ih =>
    intro input hlength hnot
    cases input with
    | nil => rfl
    | cons b rest =>
      rcases hread : leadingChar b rest with ⟨c, more⟩
      cases hc : continuesWord c with
      | false =>
        rw [wordSkipping_stop (by rw [hread]; exact hc)]
        rfl
      | true =>
        rw [wordSkipping_cons hread hc, List.take_add] at hnot
        rw [wordSkipping_cons hread hc, List.take_add]
        dsimp only at hnot ⊢
        rw [List.take_succ_cons, List.drop_succ_cons] at hnot ⊢
        -- the rest of the word is that of a shorter input
        have hshorter : (rest.drop more).length ≤ n := by
          rw [List.length_drop]
          exact Nat.le_trans (Nat.sub_le _ _) (Nat.le_of_succ_le_succ hlength)
        have hrest := ih (rest.drop more) hshorter
          fun part hpart => hnot part (hpart.trans (List.suffix_append _ _).isInfix)
        -- an overlong form would stand at the head of the word
        have hhead : ¬Overlong (b :: rest) := by
          intro hover
          obtain ⟨c', more', hread', -, htaken⟩ := hover.leadingChar
          rw [hread] at hread'
          cases hread'
          exact hnot _ (List.prefix_append _ _).isInfix htaken
        have hne : (c, more) ≠ (replacementChar, 0) := by
          rintro heq
          cases heq
          rw [continuesWord_replacementChar] at hc
          cases hc
        obtain ⟨hencoded, hprefix⟩ := ((leadingChar_iff b rest).mpr hhead c more).mp ⟨hread, hne⟩
        -- so the bytes read are those that the character is encoded in
        have htake : utf8EncodeChar c = b :: rest.take more := by
          rw [← List.take_succ_cons, ← hencoded]
          exact List.prefix_iff_eq_take.mp hprefix
        rw [List.flatMap_cons, htake, hrest]

/-- No overlong form stands anywhere among the bytes. -/
def IsPlain (bytes : List UInt8) : Prop := ∀ part, part <:+: bytes → ¬Overlong part

/-- A word is spelled by the bytes it takes just if no overlong form stands among them. -/
theorem word_exact {b : UInt8} {rest : List UInt8}
    (hcontinues : continuesWord (leadingChar b rest).1 = true) :
    utf8 (word (b :: rest)).text = b :: rest.take (word (b :: rest)).more ↔
      IsPlain (b :: rest.take (word (b :: rest)).more) := by
  obtain ⟨htext, hmore⟩ := word_eq (b :: rest)
  -- The bytes of the token are those that the word was read from.
  have hbytes : b :: rest.take (word (b :: rest)).more =
      (b :: rest).take (wordSkipping 0 (b :: rest)).2 := by
    rw [hmore, ← List.take_succ_cons, Nat.sub_add_cancel (width_wordSkipping_pos hcontinues)]
  rw [hbytes, htext]
  constructor
  · intro heq
    rw [← heq]
    exact fun part => (isText_utf8 _).not_overlong
  · intro hplain
    rw [wordSkipping_exact _ (b :: rest) (Nat.le_refl _) hplain, utf8_eq, String.toList_ofList]

theorem Found.word_exact {source : List UInt8} {t : Token} (h : Found P source t)
    (hword : t.kind.isWord = true) :
    utf8 t.lexeme = t.span.bytes source ↔ IsPlain (t.span.bytes source) := by
  -- The end of input is no word; any other token was scanned.
  cases h with
  | ending kind _ _ =>
    rw [kind] at hword
    cases hword
  | token _ _ _ kind lexeme bytes =>
    rw [kind] at hword
    obtain ⟨hscan, hcontinues⟩ := scan_of_isWord hword
    rw [bytes, lexeme, hscan]
    exact Lexer.word_exact hcontinues

/-- **Reading characters and words.** A character is read as what is encoded in front, and what is
read in front is encoded there, except at overlong forms. Where nothing is encoded and no overlong
form stands, a replacement of one byte is read. A word is spelled by the bytes that it covers if no
overlong form stands among them, and only then; so two words of one name are spelled alike. -/
theorem words_exact (source : List UInt8) :
    (∀ b rest, (∀ c more, (leadingChar b rest = (c, more) ∧ (c, more) ≠ (replacementChar, 0)) ↔
        (utf8EncodeChar c).length = more + 1 ∧ utf8EncodeChar c <+: b :: rest) ↔
      ¬Overlong (b :: rest)) ∧
    (∀ b rest, ¬Overlong (b :: rest) → (∀ c, ¬utf8EncodeChar c <+: b :: rest) →
      leadingChar b rest = (replacementChar, 0)) ∧
    (∀ t ∈ tokens source, t.kind.isWord = true →
      (utf8 t.kind.wordText = t.span.bytes source ↔ IsPlain (t.span.bytes source))) ∧
    ∀ source', ∀ t ∈ tokens source, ∀ t' ∈ tokens source', t.kind.isWord = true →
      IsPlain (t.span.bytes source) → IsPlain (t'.span.bytes source') → t.kind = t'.kind →
        t.span.bytes source = t'.span.bytes source' := by
  have hpasses : Passes fun _ => True := ⟨fun _ _ => trivial, fun _ _ => trivial⟩
  -- a word is kept as it was decoded, which loses what is not plain and nothing else
  have hexact : ∀ source, ∀ t ∈ tokens source, t.kind.isWord = true →
      (utf8 t.kind.wordText = t.span.bytes source ↔ IsPlain (t.span.bytes source)) := by
    intro source t ht hword
    rw [← lexeme_of_mem ht hword]
    exact (hpasses.found trivial t ht).word_exact hword
  refine ⟨leadingChar_iff, ?_, hexact source, ?_⟩
  · intro b rest hnot hnone
    by_contra hne
    rcases hread : leadingChar b rest with ⟨c, more⟩
    have hread' := (leadingChar_iff b rest).mpr hnot c more
    exact hnone c (hread'.mp ⟨hread, fun heq => hne (hread.trans heq)⟩).2
  · -- equal kinds have equal texts, and both words have the bytes of theirs
    intro source' t ht t' ht' hword hplain hplain' hkind
    have hbytes := (hexact source t ht hword).mpr hplain
    have hbytes' := (hexact source' t' ht' (hkind ▸ hword)).mpr hplain'
    rw [← hbytes, ← hbytes', hkind]

/-- A word with a character of two bytes. -/
theorem words_exact_accented :
    let source := [0xC3, 0xA9, 0x20]
    let t : Token := ⟨.identifier "é", ⟨.origin, ⟨2, 1, 3⟩⟩, "é"⟩
    t ∈ tokens source ∧ utf8 t.kind.wordText = t.span.bytes source ∧
      ¬Overlong (0xC3 :: [0xA9, 0x20]) := by
  intro source t
  have ht : t ∈ tokens source := by decide +kernel
  have htext : t.span.bytes source = utf8 "é" := by decide +kernel
  -- Encoded text has no overlong form in it.
  have hplain : IsPlain (t.span.bytes source) := by
    rw [htext]
    exact fun part => (isText_utf8 "é").not_overlong
  obtain ⟨-, -, hwords, -⟩ := words_exact source
  refine ⟨ht, (hwords t ht rfl).mpr hplain, ?_⟩
  rintro (⟨h | h, -⟩) <;> cases h

/-- **Overlong forms are read.** Two bytes that encode nothing are read as a letter, and a word that
is spelled by them has the name of another one that is spelled by the letter. -/
theorem not_exact_of_overlong :
    (¬∀ b rest c more, (leadingChar b rest = (c, more) ∧ (c, more) ≠ (replacementChar, 0)) ↔
      (utf8EncodeChar c).length = more + 1 ∧ utf8EncodeChar c <+: b :: rest) ∧
    ¬∀ source source' t t', t ∈ tokens source → t' ∈ tokens source' → t.kind.isWord = true →
      t.kind = t'.kind → t.span.bytes source = t'.span.bytes source' := by
  constructor
  · intro hall
    have hread : leadingChar 0xC1 [0xA1] = ('a', 1) := by decide +kernel
    have hlength := ((hall 0xC1 [0xA1] 'a' 1).mp ⟨hread, fun h => nomatch h⟩).1
    exact absurd hlength (by decide)
  · intro hall
    have hspelled := hall [0xC1, 0xA1] [0x61] ⟨.identifier "a", ⟨.origin, ⟨2, 1, 3⟩⟩, "a"⟩
      ⟨.identifier "a", ⟨.origin, ⟨1, 1, 2⟩⟩, "a"⟩ (by decide +kernel) (by decide +kernel) rfl rfl
    revert hspelled
    decide +kernel

end Lexer

end Enclave
