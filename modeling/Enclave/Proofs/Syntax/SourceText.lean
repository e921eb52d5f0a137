import Enclave.Proofs.Syntax.Spans

/-!
# The text of tokens

In a source that is text, every token that is well-formed has for its own text the bytes that it
covers, with one exception: a string with a backslash has its value between the quotes
(`Lexer.lexemes_exact`). What is found is followed byte by byte (`Lexer.fits_scan`): whatever the
lexer finds in a text it cuts off in front of a character, so what is left is a text again.
-/

namespace Enclave.Lexer

open Text
open String (utf8EncodeChar)

variable {b quote : UInt8} {rest body bytes value : List UInt8}

/-- White space is one byte. -/
theorem ascii_of_isSpace : ∀ b : UInt8, isSpace b = true → b < 0x80 :=
  forall_byte (by decide +kernel)

/-! ### Comments -/

/-- What a lexeme has for its text are the bytes that it takes. -/
def Lexeme.Spells (l : Lexeme) (b : UInt8) (rest : List UInt8) : Prop :=
  utf8 l.text = b :: rest.take l.more

/-- Text that is decoded and put between texts is encoded as it was. -/
theorem utf8_decodeLossy_between (front behind : String) (h : IsText bytes) :
    utf8 (front ++ decodeLossy bytes ++ behind) = utf8 front ++ bytes ++ utf8 behind := by
  rw [utf8_append, utf8_append, h.utf8_decodeLossy]

/-- A line comment has for its text the bytes it covers. -/
theorem spells_lineComment (h : IsText body) :
    (lineComment body).Spells 0x2F (0x2F :: body) := by
  -- up to the line break the bytes are text by themselves, whether or not there is one
  have hbytes : IsText (body.takeWhile (· ≠ 0x0A)) := by
    cases hdrop : body.dropWhile (· ≠ 0x0A) with
    | nil =>
      rw [List.takeWhile_eq_self_iff.mpr (List.dropWhile_eq_nil_iff.mp hdrop)]
      exact h
    | cons b rest =>
      have hb : b = 0x0A := by
        have hhead := List.head?_dropWhile_not (· ≠ 0x0A) body
        rw [hdrop] at hhead
        simpa using hhead
      have hcut : IsText (body.takeWhile (· ≠ 0x0A) ++ b :: rest) := by
        rw [← hdrop, List.takeWhile_append_dropWhile]
        exact h
      exact (hcut.cut (hb ▸ by decide)).1
  have hslashes : utf8 "//" = [0x2F, 0x2F] := by decide +kernel
  unfold Lexeme.Spells lineComment
  dsimp only
  rw [utf8_append, hbytes.utf8_decodeLossy, hslashes, Nat.add_comm, List.take_succ_cons,
    ← List.prefix_iff_eq_take.mp (List.takeWhile_prefix _)]
  rfl

/-- A comment that is closed. -/
theorem spells_blockComment (h : IsText body) (hbody : commentBody? 0 body = some bytes) :
    (blockComment body).Spells 0x2F (0x2A :: body) := by
  obtain ⟨tail, rfl⟩ := commentBody?_eq hbody
  -- Between its marks the comment is text, so it is encoded as it was.
  have hbytes := (h.cut (by decide)).1
  have hopen : utf8 "/*" = [0x2F, 0x2A] := by decide +kernel
  have hclose : utf8 "*/" = [0x2A, 0x2F] := by decide +kernel
  have htake : (bytes ++ 0x2A :: 0x2F :: tail).take (bytes.length + 2) = bytes ++ [0x2A, 0x2F] := by
    rw [List.take_length_add_append]
    rfl
  unfold Lexeme.Spells blockComment
  rw [hbody]
  dsimp only
  rw [utf8_decodeLossy_between _ _ hbytes, hopen, hclose, Nat.add_comm, List.take_succ_cons, htake]
  rfl

/-! ### Strings -/

/-- Bytes that are neither quotes nor backslashes belong to the string as they are. -/
theorem stringBody_append (h : ∀ x ∈ bytes, x ≠ quote ∧ x ≠ 0x5C) (rest : List UInt8) :
    stringBody quote (bytes ++ rest) =
      (stringBody quote rest).map fun (value, width) => (bytes ++ value, width + bytes.length) := by
  -- Byte by byte, since none of them is a quote or a backslash.
  induction bytes with
  | nil =>
    rw [List.nil_append]
    cases stringBody quote rest <;> rfl
  | cons x bytes ih =>
    obtain ⟨hquote, hescape⟩ := h x List.mem_cons_self
    rw [List.cons_append, stringBody_byte hquote hescape,
      ih fun x' hx' => h x' (List.mem_cons_of_mem x hx')]
    cases stringBody quote rest <;> rfl

/-- An escape stands for a byte of its own kind: one byte for one, and otherwise for itself. -/
theorem unescape_spec : ∀ e : UInt8,
    (e < 0x80 → unescape e < 0x80) ∧ (¬e < 0x80 → unescape e = e) :=
  forall_byte (by decide +kernel)

/-- No continuation byte is a byte of a single character. -/
theorem ascii_of_continuation : ∀ b : UInt8, b < 0x80 → ∀ x, isContinuation x = true → x ≠ b := by
  rintro b hb x hx rfl
  rw [isContinuation_of_ascii x hb] at hx
  cases hx

/-- A character that begins with one of the first 128 bytes has no other. -/
theorem more_eq_nil {c : Char} {more : List UInt8} (h : utf8EncodeChar c = b :: more)
    (hb : b < 0x80) : more = [] := by
  have hread := leadingChar_encoded h []
  rw [leadingChar_ascii hb] at hread
  exact List.length_eq_zero_iff.mp (congrArg Prod.snd hread).symm

/-- What a backslash and a character stand for is a character. -/
theorem isText_unescape {c : Char} {more : List UInt8} (h : utf8EncodeChar c = b :: more) :
    IsText (unescape b :: more) := by
  obtain ⟨hascii, hother⟩ := unescape_spec b
  by_cases hb : b < 0x80
  · rw [more_eq_nil h hb]
    exact isText_ascii (hascii hb)
  · rw [hother hb]
    exact ⟨[c], by rw [List.flatMap_singleton, h]⟩

/-- How the value of a string is related to the bytes between the quotes: it is a text, the same as
the bytes if these are without a backslash, and else shorter. -/
structure ReadsAs (value inner : List UInt8) : Prop where
  text : IsText value
  same : 0x5C ∉ inner → value = inner
  shorter : 0x5C ∈ inner → value.length < inner.length

/-- A string is no longer than what it was read from. -/
theorem ReadsAs.length_le {inner : List UInt8} (h : ReadsAs value inner) :
    value.length ≤ inner.length := by
  by_cases hescape : 0x5C ∈ inner
  · exact Nat.le_of_lt (h.shorter hescape)
  · rw [h.same hescape]

/-- Plain text in a string reads as itself. -/
theorem ReadsAs.append {inner : List UInt8} (h : ReadsAs value inner) (hbytes : IsText bytes)
    (hplain : 0x5C ∉ bytes) : ReadsAs (bytes ++ value) (bytes ++ inner) where
  text := hbytes.append h.text
  same hnot := by rw [h.same fun hmem => hnot (List.mem_append_right _ hmem)]
  shorter hmem := by
    have hinner : 0x5C ∈ inner := by simpa [hplain] using hmem
    rw [List.length_append, List.length_append]
    exact Nat.add_lt_add_left (h.shorter hinner) _

/-- A backslash is not part of the value. -/
theorem ReadsAs.escape {inner : List UInt8} (h : ReadsAs value inner) {escaped : List UInt8}
    (hbytes : IsText bytes) (hlength : bytes.length = escaped.length) :
    ReadsAs (bytes ++ value) (0x5C :: escaped ++ inner) where
  text := hbytes.append h.text
  same hnot := absurd List.mem_cons_self hnot
  shorter _ := by
    have hle := h.length_le
    simp only [List.cons_append, List.length_cons, List.length_append]
    omega

/-- The bytes of a string up to its closing quote, and the value that they stand for. -/
def ClosesAt (quote : UInt8) (bytes value : List UInt8) (width : Nat) : Prop :=
  ∃ inner tail, bytes = inner ++ quote :: tail ∧ width = inner.length + 1 ∧ ReadsAs value inner

/-- Plain text in front of what closes the string moves the closing quote. -/
theorem ClosesAt.append {width : Nat} (h : ClosesAt quote rest value width)
    (hbytes : IsText bytes) (hplain : 0x5C ∉ bytes) :
    ClosesAt quote (bytes ++ rest) (bytes ++ value) (width + bytes.length) := by
  obtain ⟨inner, tail, rfl, rfl, hreads⟩ := h
  refine ⟨bytes ++ inner, tail, by rw [List.append_assoc], ?_, hreads.append hbytes hplain⟩
  rw [List.length_append]
  omega

/-- An escape in front of what closes the string moves the closing quote. -/
theorem ClosesAt.escape {width : Nat} (h : ClosesAt quote rest value width)
    (hbytes : IsText bytes) (escaped : List UInt8) (hlength : bytes.length = escaped.length) :
    ClosesAt quote (0x5C :: escaped ++ rest) (bytes ++ value) (width + escaped.length + 1) := by
  obtain ⟨inner, tail, rfl, rfl, hreads⟩ := h
  refine ⟨0x5C :: escaped ++ inner, tail, by rw [List.append_assoc], ?_,
    hreads.escape hbytes hlength⟩
  rw [List.length_append, List.length_cons]
  omega

/-- **The value of a string** whose bytes are part of a text. -/
theorem closesAt_stringBody (hquote : quote = 0x22 ∨ quote = 0x27) (n : Nat) :
    ∀ cs : List Char, cs.length ≤ n → ∀ {value width},
      stringBody quote (cs.flatMap utf8EncodeChar) = .ok (value, width) →
        ClosesAt quote (cs.flatMap utf8EncodeChar) value width := by
  have hascii : quote < 0x80 ∧ quote ≠ 0x5C := by rcases hquote with rfl | rfl <;> decide
  have hplain : ∀ x, isContinuation x = true → x ≠ quote ∧ x ≠ 0x5C := fun x hx =>
    ⟨ascii_of_continuation quote hascii.1 x hx, ascii_of_continuation 0x5C (by decide) x hx⟩
  -- on the number of characters, for an escape takes two of them
  induction n with
  | zero =>
    intro cs hlength value width hbody
    rw [List.length_eq_zero_iff.mp (Nat.le_zero.mp hlength)] at hbody
    cases hbody
  | succ n ih =>
    intro cs hlength value width hbody
    cases cs with
    | nil => cases hbody
    | cons c cs =>
      -- a character is the closing quote, or an escape, or part of the value with all its bytes
      obtain ⟨b, more, hencoded⟩ := exists_encoded c
      have hmore := (isContinuation_of_encoded hencoded).2
      rw [List.flatMap_cons, hencoded] at hbody ⊢
      by_cases hend : b = quote
      · subst hend
        rw [List.cons_append, stringBody_quote] at hbody
        cases hbody
        exact ⟨[], _, rfl, rfl, isText_nil, fun _ => rfl, nofun⟩
      by_cases hbackslash : b = 0x5C
      · -- the character behind the backslash stands for itself, or for one of four others
        subst hbackslash
        cases more_eq_nil hencoded (by decide)
        cases cs with
        | nil =>
          rw [List.flatMap_nil, List.append_nil, stringBody, if_neg hend, if_pos rfl] at hbody
          cases hbody
        | cons c' cs =>
          obtain ⟨e, more, hencoded'⟩ := exists_encoded c'
          have hmore := (isContinuation_of_encoded hencoded').2
          rw [List.flatMap_cons, hencoded'] at hbody ⊢
          change stringBody quote (0x5C :: e :: (more ++ cs.flatMap utf8EncodeChar)) = _ at hbody
          rw [stringBody_escape hascii.2,
            stringBody_append fun x hx => hplain x (hmore x hx)] at hbody
          obtain ⟨p, hmapped, hvalue⟩ := map_eq_ok hbody
          obtain ⟨⟨value', width'⟩, hrest, rfl⟩ := map_eq_ok hmapped
          cases hvalue
          have hcloses := ih cs (by simp only [List.length_cons] at hlength; omega) hrest
          exact hcloses.escape (isText_unescape hencoded') (e :: more) rfl
      · have hbytes : ∀ x ∈ b :: more, x ≠ quote ∧ x ≠ 0x5C := by
          intro x hx
          rcases List.mem_cons.mp hx with rfl | hx
          · exact ⟨hend, hbackslash⟩
          · exact hplain x (hmore x hx)
        rw [stringBody_append hbytes] at hbody
        obtain ⟨⟨value', width'⟩, hrest, hvalue⟩ := map_eq_ok hbody
        cases hvalue
        have hcloses := ih cs (Nat.le_of_succ_le_succ hlength) hrest
        have htext : IsText (b :: more) := ⟨[c], by rw [List.flatMap_singleton, hencoded]⟩
        have hescape : 0x5C ∉ b :: more := fun hmem => (hbytes _ hmem).2 rfl
        exact hcloses.append htext hescape

/-- A string that is closed. -/
theorem string_exact (hquote : quote = 0x22 ∨ quote = 0x27) {body : List UInt8}
    (hbody : IsText body) {width : Nat} (h : stringBody quote body = .ok (value, width)) :
    IsText (quote :: body.take width) ∧
      ((string quote body).Spells quote body ↔ 0x5C ∉ body.take width) := by
  obtain ⟨cs, rfl⟩ := hbody
  obtain ⟨inner, tail, htail, rfl, hreads⟩ := closesAt_stringBody hquote _ cs (Nat.le_refl _) h
  have hquoted : quote < 0x80 ∧ quote ≠ 0x5C ∧
      utf8 (String.singleton (Char.ofNat quote.toNat)) = [quote] := by
    rcases hquote with rfl | rfl <;> exact ⟨by decide, by decide, by decide +kernel⟩
  obtain ⟨hascii, hescape, hmark⟩ := hquoted
  have htext : IsText (inner ++ quote :: tail) := ⟨cs, htail.symm⟩
  -- the token is what is inside and the quote that ends it
  have htake : (inner ++ quote :: tail).take (inner.length + 1) = inner ++ [quote] := by
    rw [List.take_length_add_append]
    rfl
  have hinner := (htext.cut hascii).1
  refine ⟨?_, ?_⟩
  · rw [htail, htake]
    exact (isText_ascii hascii).append (hinner.append (isText_ascii hascii))
  · unfold Lexeme.Spells string
    rw [h]
    dsimp only
    rw [utf8_decodeLossy_between _ _ hreads.text, hmark, htail, htake]
    have hmem : 0x5C ∈ inner ++ [quote] ↔ 0x5C ∈ inner := by
      simp [hescape.symm]
    -- of the two quotes neither is a backslash
    rw [hmem]
    constructor
    · -- a value that is shorter is another one
      intro heq hin
      have hlength := congrArg List.length heq
      have hshorter := hreads.shorter hin
      simp only [List.length_append, List.length_cons, List.length_nil] at hlength
      omega
    · intro hnot
      rw [hreads.same hnot]
      rfl

/-! ### Numbers -/

/-- A number has for its text the bytes it covers. -/
theorem spells_number
    (h : Number.isDigit b = true ∨ b = 0x2E ∧ (rest.take 1).any Number.isDigit = true) :
    (number (b :: rest)).Spells b rest := by
  obtain ⟨hfront, hascii⟩ := isAsciiPrefix_numberBytes (b :: rest)
  have htext := (isText_of_ascii hascii).utf8_decodeLossy
  have htake := take_of_front hfront (numberBytes_ne_nil h)
  unfold Lexeme.Spells number
  dsimp only
  split <;> exact htext.trans htake.symm

/-! ### Marks, operators and words -/

/-- A mark or operator has for its text the bytes it covers. -/
theorem spells_symbol {l : Lexeme} (h : symbol? (b :: rest) = some l) : l.Spells b rest := by
  obtain ⟨s, hfind, rfl⟩ := Option.map_eq_some_iff.mp h
  obtain ⟨hspelling, hne⟩ := symbols_spelled s (List.mem_of_find?_eq_some hfind)
  have hfront : s.bytes <+: b :: rest := by simpa using List.find?_some hfind
  exact hspelling.trans (take_of_front hfront hne).symm

/-- A word has for its text the bytes it covers. -/
theorem spells_word (h : IsText (b :: rest))
    (hcontinues : continuesWord (leadingChar b rest).1 = true) :
    (word (b :: rest)).Spells b rest := by
  refine (word_exact hcontinues).mpr fun part hpart => h.not_overlong (hpart.trans ?_)
  rw [← List.take_succ_cons]
  exact (List.take_prefix _ _).isInfix

/-- A character that begins no token. -/
theorem spells_stray (h : IsText (b :: rest)) :
    utf8 (String.singleton (leadingChar b rest).1) = b :: rest.take (leadingChar b rest).2 := by
  obtain ⟨c, more, tail, hencoded, rfl, -⟩ := h.exists_encoded
  rw [leadingChar_encoded hencoded, List.take_left, utf8_eq, String.toList_singleton,
    List.flatMap_singleton, hencoded]

/-! ### Whatever is found -/

/-- What a lexeme is to the bytes of a text that it takes. -/
inductive Lexeme.Fits (l : Lexeme) (b : UInt8) (rest : List UInt8) : Prop
  | spelled (kind : ∀ value, l.kind ≠ .string value) (spells : l.Spells b rest)
  | unfinished (error : LexicalError) (kind : l.kind = .malformed error)
    (all : rest.take l.more = rest)
  | string (value : String) (kind : l.kind = .string value) (text : IsText (b :: rest.take l.more))
    (exact : l.Spells b rest ↔ 0x5C ∉ b :: rest.take l.more)

/-- A block comment fits, closed or not. -/
theorem fits_blockComment (h : IsText (0x2F :: 0x2A :: body)) :
    (blockComment body).Fits 0x2F (0x2A :: body) := by
  cases hbody : commentBody? 0 body with
  | some bytes =>
    have hkind : (blockComment body).kind = .blockComment (decodeLossy bytes) := by
      rw [blockComment, hbody]
    refine .spelled (fun value => hkind ▸ nofun) ?_
    exact spells_blockComment ((h.tail (by decide)).tail (by decide)) hbody
  -- without an end, the comment takes all that is left
  | none =>
    refine .unfinished .unterminatedComment (by rw [blockComment, hbody]) ?_
    have hmore : (blockComment body).more = 1 + body.length := by rw [blockComment, hbody]
    rw [hmore, Nat.add_comm]
    exact List.take_of_length_le (Nat.le_refl _)

/-- A string fits, closed or not. -/
theorem fits_string (hquote : quote = 0x22 ∨ quote = 0x27) (h : IsText (quote :: rest)) :
    (string quote rest).Fits quote rest := by
  obtain ⟨hascii, hescape⟩ : quote < 0x80 ∧ quote ≠ 0x5C := by
    rcases hquote with rfl | rfl <;> decide
  cases hbody : stringBody quote rest with
  | ok p =>
    obtain ⟨value, width⟩ := p
    obtain ⟨htext, hexact⟩ := string_exact hquote (h.tail hascii) hbody
    have hmore : (string quote rest).more = width := by rw [string, hbody]
    refine .string (decodeLossy value) (by rw [string, hbody]) ?_ ?_
    · rw [hmore]
      exact htext
    · -- the opening quote is not a backslash, so any backslash is in the body
      rw [hmore, hexact, List.mem_cons, not_or]
      exact ⟨fun h => ⟨hescape.symm, h⟩, fun h => h.2⟩
  | error error =>
    have hmore : (string quote rest).more = rest.length := by rw [string, hbody]
    refine .unfinished error (by rw [string, hbody]) ?_
    rw [hmore, List.take_length]

/-- A word fits, and so does a stray character. -/
theorem fits_wordOrStray (h : IsText (b :: rest)) : (wordOrStray b rest).Fits b rest := by
  unfold wordOrStray
  dsimp only
  split
  · -- a word, or else the character by itself
    next hstart =>
    refine .spelled (fun value => ?_) (spells_word h (continuesWord_of_isWordStart hstart))
    unfold word
    dsimp only
    split <;> exact nofun
  · exact .spelled nofun (spells_stray h)

/-- **Whatever is found in a text** has the bytes for its text that it takes, unless it takes all
there is and is malformed, or is a string with a backslash. -/
theorem fits_scan (h : IsText (b :: rest)) : (scan b rest).Fits b rest := by
  unfold scan
  -- Comments first, then strings, numbers, symbols and words, as the lexer tries them.
  split
  · exact .spelled nofun (spells_lineComment ((h.tail (by decide)).tail (by decide)))
  · exact fits_blockComment h
  · split
    · next hquote => exact fits_string hquote h
    · split
      · next hdigit =>
        refine .spelled (fun value => ?_) (spells_number hdigit)
        unfold number
        dsimp only
        split <;> exact nofun
      · cases hsymbol : symbol? (b :: rest) with
        | some l =>
          refine .spelled (fun value => ?_) (spells_symbol hsymbol)
          rcases kind_symbol hsymbol with ⟨sign, hkind⟩ | ⟨sign, hkind⟩ <;>
            exact hkind ▸ TokenKind.noConfusion
        | none => exact fits_wordOrStray h

/-- What is left behind a token of a text is a text. -/
theorem isText_of_fits {l : Lexeme} (h : IsText (b :: rest)) (hfits : l.Fits b rest) :
    IsText (rest.drop l.more) := by
  have hcut : IsText ((b :: rest.take l.more) ++ rest.drop l.more) := by
    rw [List.cons_append, List.take_append_drop]
    exact h
  refine hcut.behind ?_
  cases hfits with
  | spelled _ spells => exact spells ▸ isText_utf8 _
  | unfinished _ _ all => exact all.symm ▸ h
  | string _ _ text _ => exact text

/-- What is left of a text behind each token is a text. -/
theorem passes_isText : Passes IsText where
  blank hspace h := h.tail (ascii_of_isSpace _ hspace)
  token _ h := isText_of_fits h (fits_scan h)

/-- **Tokens of a text.** The text of every token that is not malformed is what the token covers,
but for strings with a backslash among the bytes that they cover, and for none of these. -/
theorem lexemes_exact (text : String) : ∀ t ∈ tokens (utf8 text), (∀ e, t.kind ≠ .malformed e) →
    (utf8 t.lexeme = t.span.bytes (utf8 text) ↔
      ¬((∃ value, t.kind = .string value) ∧ 0x5C ∈ t.span.bytes (utf8 text))) := by
  intro t ht hwell
  cases passes_isText.found (isText_utf8 text) t ht with
  -- the end of input has an empty lexeme and covers nothing
  | ending kind lexeme bytes =>
    have hempty : utf8 "" = [] := by decide +kernel
    rw [lexeme, bytes, hempty]
    exact ⟨fun _ h => (nomatch h.2), fun _ => rfl⟩
  | @token before b rest htext _ _ kind lexeme bytes =>
    rw [lexeme, bytes, kind]
    rw [kind] at hwell
    cases fits_scan htext with
    | spelled hkind spells => exact ⟨fun _ h => h.1.elim hkind, fun _ => spells⟩
    | unfinished error hkind _ => exact absurd hkind (hwell error)
    | string value hkind _ hexact =>
      refine hexact.trans (not_congr ?_)
      exact ⟨fun h => ⟨⟨value, hkind⟩, h⟩, fun h => h.2⟩

/-- A string without a backslash, in the other quotes. -/
theorem lexemes_exact_quoted :
    let t : Token := ⟨.string "\"é", ⟨.origin, ⟨5, 1, 6⟩⟩, "'\"é'"⟩
    t ∈ tokens (utf8 "'\"é'") ∧ utf8 t.lexeme = t.span.bytes (utf8 "'\"é'") := by
  intro t
  have ht : t ∈ tokens (utf8 "'\"é'") := by decide +kernel
  have hescape : 0x5C ∉ t.span.bytes (utf8 "'\"é'") := by decide +kernel
  exact ⟨ht, (lexemes_exact _ t ht nofun).mpr fun h => hescape h.2⟩

/-- **Strings with backslashes** have another text than the one that they cover. -/
theorem not_exact_of_escape : ¬∀ text, ∀ t ∈ tokens (utf8 text), (∀ e, t.kind ≠ .malformed e) →
    utf8 t.lexeme = t.span.bytes (utf8 text) := by
  intro hall
  have hlexeme := hall "\"a\\n\"" ⟨.string "a\n", ⟨.origin, ⟨5, 1, 6⟩⟩, "\"a\n\""⟩
    (by decide +kernel) nofun
  revert hlexeme
  decide +kernel

end Enclave.Lexer
