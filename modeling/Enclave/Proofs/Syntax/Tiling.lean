import Enclave.Proofs.Syntax.Widths

/-!
# Tiling

The lexer leaves nothing out of any sequence of bytes and counts nothing twice: what it gives is a
`Tiling` of the source, in which every byte is a blank or belongs to one token. From that follow
where tokens begin and end, that each is what is found where it begins and covers all that was
found, and that what is between them is blank (`Lexer.tiles_tokens`). A number that the lexer finds
is a decimal that can be read, so of the lexical errors one never comes up.
-/

namespace Enclave

/-! ### Decimals -/

namespace Number

/-- A fraction: nothing, or a point and digits, at least one. -/
inductive IsFraction : List UInt8 → Prop
  | none : IsFraction []
  | point (d : UInt8) (ds : List UInt8) (h : ∀ b ∈ d :: ds, isDigit b = true) :
    IsFraction (0x2E :: d :: ds)

/-- A power of ten: nothing, or the letter, a sign or none, and digits, at least one. -/
inductive IsPower : List UInt8 → Prop
  | none : IsPower []
  | letter (e : UInt8) (sign : List UInt8) (d : UInt8) (ds : List UInt8) (he : e = 0x65 ∨ e = 0x45)
    (hsign : sign = [] ∨ sign = [0x2B] ∨ sign = [0x2D]) (h : ∀ b ∈ d :: ds, isDigit b = true) :
    IsPower (e :: (sign ++ d :: ds))

/-- Only a digit begins with a digit: fractions and powers do not. -/
theorem IsPower.takeWhile {power : List UInt8} (h : IsPower power) :
    power.takeWhile isDigit = [] ∧ power.dropWhile isDigit = power := by
  cases h with
  | none => exact ⟨rfl, rfl⟩
  | letter e sign d ds he =>
    have hnot : isDigit e = false := by rcases he with rfl | rfl <;> rfl
    exact ⟨List.takeWhile_cons_of_neg (by simp [hnot]), List.dropWhile_cons_of_neg (by simp [hnot])⟩

theorem IsPower.isSome_read {power : List UInt8} (h : IsPower power) :
    (readPower? power).isSome = true := by
  cases h with
  | none => rfl
  | letter e sign d ds he hsign h =>
    have hd : isDigit d = true := h d List.mem_cons_self
    have hgood : ¬((d :: ds).isEmpty || !(d :: ds).all isDigit) = true := by
      rw [List.all_eq_true.mpr h]
      exact Bool.false_ne_true
    have hletter : ¬(e ≠ 0x65 ∧ e ≠ 0x45) := by rcases he with rfl | rfl <;> decide
    unfold readPower?
    dsimp only
    rw [if_neg hletter]
    rcases hsign with rfl | rfl | rfl
    · -- a digit is no sign
      split
      next rest digits heq => cases heq; exact absurd hd (by decide)
      next rest digits heq => cases heq; exact absurd hd (by decide)
      next => exact congrArg Option.isSome (if_neg hgood)
    · exact congrArg Option.isSome (if_neg hgood)
    · exact congrArg Option.isSome (if_neg hgood)

/-- **Decimals can be read**: digits, a fraction and a power of ten, of which the first two are not
both missing. -/
theorem isSome_ofDecimalText {whole fraction power : List UInt8}
    (hwhole : ∀ b ∈ whole, isDigit b = true) (hfraction : IsFraction fraction)
    (hpower : IsPower power) (hsome : whole ≠ [] ∨ fraction ≠ []) :
    (ofDecimalText? (whole ++ (fraction ++ power))).isSome = true := by
  obtain ⟨n, hread⟩ := Option.isSome_iff_exists.mp hpower.isSome_read
  have hdecimal : ∃ d, Decimal.read? (whole ++ (fraction ++ power)) = some d := by
    unfold Decimal.read?
    rw [List.takeWhile_append_of_pos hwhole, List.dropWhile_append_of_pos hwhole]
    -- the digits run up to the point, or else up to the power
    cases hfraction with
    | none =>
      -- without a fraction the whole part cannot be empty
      have hne : whole.isEmpty = false := by simpa using hsome
      obtain ⟨htake, hdrop⟩ := hpower.takeWhile
      rw [List.nil_append, htake, hdrop, List.append_nil]
      cases hpower with
      | none => simp [hne, readPower?]
      | letter e sign d ds he =>
        rcases he with rfl | rfl
        · simp [hne, hread]
        · simp [hne, hread]
    | point d ds h =>
      rw [List.cons_append, List.takeWhile_cons_of_neg (by decide),
        List.dropWhile_cons_of_neg (by decide)]
      -- the digits behind the point end where the power begins
      have htake : (d :: ds ++ power).takeWhile isDigit = d :: ds := by
        rw [List.takeWhile_append_of_pos h, hpower.takeWhile.1, List.append_nil]
      have hdrop : (d :: ds ++ power).dropWhile isDigit = power := by
        rw [List.dropWhile_append_of_pos h, hpower.takeWhile.2]
      simp only [htake, hdrop, hread]
      simp
  obtain ⟨d, hd⟩ := hdecimal
  rw [ofDecimalText?, hd]
  rfl

end Number

namespace Lexer

open Number

/-! ### Numbers in the source -/

/-- A run of digits and gaps without the gaps. -/
theorem isDigit_of_mem_run {input : List UInt8} {b : UInt8}
    (h : b ∈ (input.takeWhile isDigitOrGap).filter (· ≠ 0x5F)) : isDigit b = true := by
  obtain ⟨hmem, hgap⟩ := List.mem_filter.mp h
  have hrun := List.all_eq_true.mp List.all_takeWhile b hmem
  unfold isDigitOrGap at hrun
  rcases Bool.or_eq_true_iff.mp hrun with hdigit | hgap'
  · exact hdigit
  · exact absurd (of_decide_eq_true hgap') (of_decide_eq_true hgap)

theorem run_cons {d : UInt8} (hd : isDigit d = true) (rest : List UInt8) :
    ((d :: rest).takeWhile isDigitOrGap).filter (· ≠ 0x5F) =
      d :: (rest.takeWhile isDigitOrGap).filter (· ≠ 0x5F) := by
  have hgap : d ≠ 0x5F := by rintro rfl; exact absurd hd (by decide)
  rw [List.takeWhile_cons_of_pos (by simp [isDigitOrGap, hd]), List.filter_cons_of_pos (by simpa)]

theorem isFraction_fraction (input : List UInt8) :
    IsFraction ((fraction input).filter (· ≠ 0x5F)) := by
  unfold fraction
  -- A fraction is found only behind a point, and only where a digit follows it.
  split
  · next d rest =>
    split
    · next hd =>
      rw [List.filter_cons_of_pos (by decide), run_cons hd]
      refine .point d _ fun b hb => ?_
      rcases List.mem_cons.mp hb with rfl | hb
      · exact hd
      · exact isDigit_of_mem_run hb
    · exact .none
  · exact .none

/-- What is taken for a sign is none, or one of two. -/
theorem sign_cases (input : List UInt8) :
    let sign := (input.take 1).filter fun b => b = 0x2B || b = 0x2D
    sign = [] ∨ sign = [0x2B] ∨ sign = [0x2D] := by
  cases input with
  | nil => exact .inl rfl
  | cons b rest =>
    -- Only the first byte is looked at.
    by_cases hplus : b = 0x2B
    · subst hplus
      exact .inr (.inl rfl)
    · by_cases hminus : b = 0x2D
      · subst hminus
        exact .inr (.inr rfl)
      · exact .inl (by simp [hplus, hminus])

theorem isPower_power (input : List UInt8) : IsPower ((power input).filter (· ≠ 0x5F)) := by
  unfold power
  split
  · next e rest =>
    split
    · next he =>
      have hsign := sign_cases rest
      dsimp only at hsign ⊢
      generalize (rest.take 1).filter (fun b => b = 0x2B || b = 0x2D) = sign at hsign ⊢
      -- a sign is no gap, nor is the letter, so taking the gaps out leaves both
      have hkept : sign.filter (· ≠ 0x5F) = sign := by rcases hsign with rfl | rfl | rfl <;> rfl
      have hletter : e ≠ 0x5F := by rcases he with rfl | rfl <;> decide
      split
      · next hdigit =>
        cases hdigits : rest.drop sign.length with
        | nil =>
          rw [hdigits] at hdigit
          cases hdigit
        | cons d ds =>
          rw [hdigits] at hdigit
          -- The run behind the sign has been found to have a digit, and a gap does not begin one.
          have hd : isDigit d = true := by
            by_cases hrun : isDigitOrGap d = true
            · rw [List.takeWhile_cons_of_pos hrun] at hdigit
              simpa using hdigit
            · rw [List.takeWhile_cons_of_neg hrun] at hdigit
              cases hdigit
          rw [List.filter_cons_of_pos (by simpa), List.filter_append, hkept, run_cons hd]
          refine .letter e sign d _ he hsign fun b hb => ?_
          rcases List.mem_cons.mp hb with rfl | hb
          · exact hd
          · exact isDigit_of_mem_run hb
      · exact .none
    · exact .none
  · exact .none

/-- **Numbers are numbers**: what begins with a digit, or with a point and a digit, can be read. -/
theorem number_ne_malformed {b : UInt8} {rest : List UInt8}
    (h : isDigit b = true ∨ b = 0x2E ∧ (rest.take 1).any isDigit = true) :
    (number (b :: rest)).kind ≠ .malformed .malformedNumber := by
  -- without its gaps, what was taken for a number is a decimal text
  have hsome : (ofDecimalText? ((numberBytes (b :: rest)).filter (· ≠ 0x5F))).isSome = true := by
    unfold numberBytes
    dsimp only
    rw [List.append_assoc, List.filter_append, List.filter_append]
    refine isSome_ofDecimalText (fun _ => isDigit_of_mem_run) (isFraction_fraction _)
      (isPower_power _) ?_
    -- there is a digit in front of the point, or one right behind it
    rcases h with hdigit | ⟨rfl, hdigit⟩
    · refine .inl ?_
      rw [run_cons hdigit]
      exact List.cons_ne_nil _ _
    · cases rest with
      | nil => cases hdigit
      | cons d rest =>
        have hd : isDigit d = true := by simpa using hdigit
        have hwhole : (0x2E :: d :: rest).takeWhile isDigitOrGap = [] :=
          List.takeWhile_cons_of_neg (by decide)
        refine .inr ?_
        rw [hwhole, List.length_nil, List.drop_zero, fraction, if_pos hd,
          List.filter_cons_of_pos (by decide)]
        exact List.cons_ne_nil _ _
  obtain ⟨value, hvalue⟩ := Option.isSome_iff_exists.mp hsome
  unfold number
  dsimp only
  rw [hvalue]
  exact TokenKind.noConfusion

/-- What is wrong with a string is no number's fault. -/
theorem stringBody_ne_malformed (quote : UInt8) (body : List UInt8) :
    stringBody quote body ≠ .error .malformedNumber := by
  -- only the two cases that read on can end in an error found later
  fun_induction stringBody quote body with
  | case6 e rest _ ih =>
    cases hbody : stringBody quote rest with
    | ok value => rintro ⟨⟩
    | error error =>
      rintro ⟨⟩
      exact ih hbody
  | case7 b e rest _ _ ih =>
    cases hbody : stringBody quote (e :: rest) with
    | ok value => rintro ⟨⟩
    | error error =>
      rintro ⟨⟩
      exact ih hbody
  | _ => simp

theorem scan_ne_malformed (b : UInt8) (rest : List UInt8) :
    (scan b rest).kind ≠ .malformed .malformedNumber := by
  -- in the order of the scan: only a number could be malformed in this way
  unfold scan
  split
  · exact TokenKind.noConfusion
  · unfold blockComment
    split
    · exact TokenKind.noConfusion
    · simp
  · split
    · unfold string
      split
      · exact TokenKind.noConfusion
      · -- a string may be malformed, but only as one without an end
        next error h =>
        rintro ⟨⟩
        exact stringBody_ne_malformed _ _ h
    · split
      · next h => exact number_ne_malformed h
      · cases hsymbol : symbol? (b :: rest) with
        | some l =>
          rw [Option.getD_some]
          rcases kind_symbol hsymbol with ⟨sign, hkind⟩ | ⟨sign, hkind⟩ <;> rw [hkind] <;>
            exact TokenKind.noConfusion
        | none =>
          rw [Option.getD_none, wordOrStray]
          dsimp only
          split
          · unfold word
            dsimp only
            split <;> exact TokenKind.noConfusion
          · simp

/-! ### Tilings -/

/-- Blanks and tokens, one behind the other, from a position to the end of the bytes. Each token is
what is found at its first byte, and takes as many bytes as were found. -/
inductive Tiling : Position → List UInt8 → List Token → Prop
  | done (p : Position) : Tiling p [] [⟨.endOfInput, .point p, ""⟩]
  | blank {p : Position} {b : UInt8} {rest : List UInt8} {tokens : List Token}
    (space : isSpace b = true) (row : Tiling (p.advance b) rest tokens) :
    Tiling p (b :: rest) tokens
  | token {p : Position} {b : UInt8} {more rest : List UInt8} {tokens : List Token}
    (takes : (scan b (more ++ rest)).more = more.length)
    (row : Tiling (p.after (b :: more)) rest tokens) :
    Tiling p (b :: more ++ rest) (⟨(scan b (more ++ rest)).kind, ⟨p, p.after (b :: more)⟩,
      (scan b (more ++ rest)).text⟩ :: tokens)

/-- The tiles begin behind what is left of a token. -/
theorem tiling_tokensFrom (p : Position) (pending : Nat) (input : List UInt8) :
    Tiling (p.after (input.take pending)) (input.drop pending) (tokensFrom p pending input) := by
  induction input generalizing p pending with
  | nil =>
    rw [List.take_nil, List.drop_nil]
    exact .done p
  | cons b rest ih =>
    unfold tokensFrom
    cases pending with
    -- the byte belongs to the token read before
    | succ pending => exact ih (p.advance b) pending
    | zero =>
      dsimp only
      split
      · next hspace => exact .blank hspace (ih (p.advance b) 0)
      · have hsplit : rest.take (scan b rest).more ++ rest.drop (scan b rest).more = rest :=
          List.take_append_drop _ _
        -- all the bytes that were found are there to be taken
        have htakes : (scan b (rest.take (scan b rest).more ++ rest.drop (scan b rest).more)).more =
            (rest.take (scan b rest).more).length := by
          rw [hsplit, List.length_take_of_le (more_scan_le b rest)]
        have htoken := Tiling.token htakes (ih (p.advance b) (scan b rest).more)
        rw [List.cons_append, hsplit] at htoken
        exact htoken

theorem tiling_tokens (source : List UInt8) : Tiling .origin source (tokens source) :=
  tiling_tokensFrom .origin 0 source

namespace Tiling

variable {p q : Position} {source : List UInt8} {tokens : List Token}

/-- The end of the input comes last, and what comes before is not malformed as a number. -/
theorem ending (h : Tiling p source tokens) :
    ∃ row, tokens = row ++ [⟨.endOfInput, .point (p.after source), ""⟩] ∧
      ∀ t ∈ row, t.kind ≠ .endOfInput ∧ t.kind ≠ .malformed .malformedNumber := by
  -- Along the tiling; every piece that is put in front is a token of another kind.
  induction h with
  | done p => exact ⟨[], rfl, by simp⟩
  | blank space row ih => exact ih
  | @token p b more rest tokens takes row ih =>
    obtain ⟨row', hrow, hkinds⟩ := ih
    refine ⟨⟨(scan b (more ++ rest)).kind, ⟨p, p.after (b :: more)⟩,
      (scan b (more ++ rest)).text⟩ :: row', ?_, ?_⟩
    · rw [hrow, Position.after_append]
      rfl
    · intro t ht
      rcases List.mem_cons.mp ht with rfl | ht
      · exact ⟨(isSpelled_scan b _).1, scan_ne_malformed b _⟩
      · exact hkinds t ht

/-- A token is what is found where it begins, and has the size of that. -/
theorem scanned (h : Tiling p source tokens) {t : Token} (ht : t ∈ tokens)
    (hkind : t.kind ≠ .endOfInput) :
    ∃ n b rest, t.span.start.offset = p.offset + n ∧ source.drop n = b :: rest ∧
      t.kind = (scan b rest).kind ∧ t.lexeme = (scan b rest).text ∧
      t.span.size = (scan b rest).more + 1 := by
  -- Along the tiling: the place is counted on over each blank and each token.
  induction h with
  | done p =>
    cases List.mem_singleton.mp ht
    exact absurd rfl hkind
  | @blank p b rest tokens space row ih =>
    obtain ⟨n, b', rest', hstart, hdrop, hfound⟩ := ih ht
    rw [Position.offset_advance] at hstart
    exact ⟨n + 1, b', rest', by omega, hdrop, hfound⟩
  | @token p b more rest tokens takes row ih =>
    rcases List.mem_cons.mp ht with rfl | ht
    · -- the token in front, scanned where it stands
      refine ⟨0, b, more ++ rest, rfl, rfl, rfl, rfl, ?_⟩
      rw [takes, Span.size, Position.offset_after, Nat.add_sub_cancel_left, List.length_cons]
    · obtain ⟨n, b', rest', hstart, hdrop, hfound⟩ := ih ht
      rw [Position.offset_after] at hstart
      refine ⟨(b :: more).length + n, b', rest', by omega, ?_, hfound⟩
      rw [List.drop_length_add_append, hdrop]

/-- A position that is reached from another one over some of the bytes. -/
def Reaches (p : Position) (source : List UInt8) (q : Position) : Prop :=
  ∃ n ≤ source.length, q = p.after (source.take n)

theorem Reaches.append (bytes : List UInt8) (h : Reaches (p.after bytes) source q) :
    Reaches p (bytes ++ source) q := by
  obtain ⟨n, hn, rfl⟩ := h
  refine ⟨bytes.length + n, by rw [List.length_append]; omega, ?_⟩
  rw [List.take_length_add_append, Position.after_append]

/-- Counted from the beginning, the bytes lead to the place. -/
theorem Reaches.of_origin (h : Reaches .origin source q) :
    q.offset ≤ source.length ∧ q = Position.origin.after (source.take q.offset) := by
  obtain ⟨n, hn, hq⟩ := h
  have hoffset : q.offset = n := by
    rw [hq, Position.offset_after, List.length_take, Nat.min_eq_left hn]
    exact Nat.zero_add n
  rw [hoffset]
  exact ⟨hn, hq⟩

theorem reaches (h : Tiling p source tokens) {t : Token} (ht : t ∈ tokens) :
    Reaches p source t.span.start ∧ Reaches p source t.span.stop := by
  -- Along the tiling: what is reached behind a piece is reached with the piece in front.
  induction h with
  | done p =>
    cases List.mem_singleton.mp ht
    exact ⟨⟨0, Nat.le_refl 0, rfl⟩, ⟨0, Nat.le_refl 0, rfl⟩⟩
  | @blank p b rest tokens space row ih =>
    obtain ⟨hstart, hstop⟩ := ih ht
    exact ⟨hstart.append [b], hstop.append [b]⟩
  | @token p b more rest tokens takes row ih =>
    rcases List.mem_cons.mp ht with rfl | ht
    · refine ⟨⟨0, Nat.zero_le _, rfl⟩, ⟨(b :: more).length, ?_, ?_⟩⟩
      · rw [List.length_append]
        exact Nat.le_add_right _ _
      · rw [List.take_left]
    · exact ⟨(ih ht).1.append _, (ih ht).2.append _⟩

/-- What no token covers is blank. -/
theorem covers (h : Tiling p source tokens) {i : Nat} {b : UInt8} (hb : source[i]? = some b) :
    isSpace b = true ∨
      ∃ t ∈ tokens, t.span.start.offset ≤ p.offset + i ∧ p.offset + i < t.span.stop.offset := by
  -- on the tiling: a byte lies in the first tile, or in one of those behind it
  induction h generalizing i with
  | done p => cases hb
  | @blank p b' rest tokens space row ih =>
    cases i with
    | zero =>
      cases hb
      exact .inl space
    | succ i =>
      rw [List.getElem?_cons_succ] at hb
      rcases ih hb with hspace | ⟨t, ht, hstart, hstop⟩
      · exact .inl hspace
      · rw [Position.offset_advance] at hstart hstop
        exact .inr ⟨t, ht, by omega, by omega⟩
  | @token p b' more rest tokens takes row ih =>
    by_cases hi : i < (b' :: more).length
    · refine .inr ⟨_, List.mem_cons_self, Nat.le_add_right _ _, ?_⟩
      rw [Position.offset_after]
      omega
    · -- a byte behind the first token is further along in the rest
      rw [List.getElem?_append_right (by omega)] at hb
      rcases ih hb with hspace | ⟨t, ht, hstart, hstop⟩
      · exact .inl hspace
      · rw [Position.offset_after] at hstart hstop
        exact .inr ⟨t, List.mem_cons_of_mem _ ht, by omega, by omega⟩

end Tiling

/-- What it is for tokens to tile a source. -/
structure Tiles (source : List UInt8) (tokens : List Token) : Prop where
  /-- The end of the input comes last, behind all bytes, and nowhere else. -/
  ending : ∃ row, tokens = row ++ [⟨.endOfInput, .point (Position.origin.after source), ""⟩] ∧
    ∀ t ∈ row, t.kind ≠ .endOfInput
  /-- Every other token covers a byte. -/
  size : ∀ t ∈ tokens, t.kind ≠ .endOfInput → t.span.start.offset < t.span.stop.offset
  /-- It is what is found where it begins, and covers the bytes that were found, all of them. -/
  found : ∀ t ∈ tokens, t.kind ≠ .endOfInput → ∃ b rest,
    source.drop t.span.start.offset = b :: rest ∧ t.kind = (scan b rest).kind ∧
      t.lexeme = (scan b rest).text ∧ t.span.size = (scan b rest).more + 1 ∧
      (scan b rest).more ≤ rest.length
  /-- A word covers the bytes of its characters, -/
  word : ∀ t ∈ tokens, t.kind.isWord = true →
    t.span.size = (wordSkipping 0 (source.drop t.span.start.offset)).2
  /-- and a number those of its digits. -/
  number : ∀ t ∈ tokens, ∀ value, t.kind = .number value →
    t.span.size = (numberBytes (source.drop t.span.start.offset)).length
  /-- No token begins before those in front of it end. -/
  ordered : tokens.Pairwise fun t t' => t.span.stop.offset ≤ t'.span.start.offset
  /-- What is between tokens is blank. -/
  between : ∀ i b, source[i]? = some b →
    (∀ t ∈ tokens, ¬(t.span.start.offset ≤ i ∧ i < t.span.stop.offset)) → isSpace b = true
  /-- Tokens begin and end where the bytes before lead. -/
  places : ∀ t ∈ tokens, ∀ q, q = t.span.start ∨ q = t.span.stop →
    q.offset ≤ source.length ∧ q = Position.origin.after (source.take q.offset)
  /-- No number is malformed. -/
  numbers : ∀ t ∈ tokens, t.kind ≠ .malformed .malformedNumber

/-- **The lexer tiles its input**, whatever the bytes are. -/
theorem tiles_tokens (source : List UInt8) : Tiles source (tokens source) := by
  have htiling := tiling_tokens source
  have hrow := tokenRow_tokens source
  obtain ⟨row, heq, hkinds⟩ := htiling.ending
  -- What the tiling says of every token, counted from the beginning of the source.
  have hfound : ∀ t ∈ tokens source, t.kind ≠ .endOfInput → ∃ b rest,
      source.drop t.span.start.offset = b :: rest ∧ t.kind = (scan b rest).kind ∧
        t.lexeme = (scan b rest).text ∧ t.span.size = (scan b rest).more + 1 ∧
        (scan b rest).more ≤ rest.length := by
    intro t ht hkind
    obtain ⟨n, b, rest, hstart, hdrop, hscan, htext, hsize⟩ := htiling.scanned ht hkind
    rw [show Position.origin.offset = 0 from rfl, Nat.zero_add] at hstart
    exact ⟨b, rest, hstart ▸ hdrop, hscan, htext, hsize, more_scan_le b rest⟩
  exact
    { ending := ⟨row, heq, fun t ht => (hkinds t ht).1⟩
      size := fun t ht hkind => hrow.size_of_mem ht hkind
      found := hfound
      word := fun t ht hword => by
        -- the end of input is neither a word nor a number
        have hkind : t.kind ≠ .endOfInput := fun hkind => by
          rw [hkind] at hword
          cases hword
        obtain ⟨b, rest, hdrop, hscan, -, hsize, -⟩ := hfound t ht hkind
        obtain ⟨heq, hcontinues⟩ := scan_of_isWord (hscan ▸ hword)
        rw [hsize, heq, hdrop, (word_eq _).2,
          Nat.sub_add_cancel (width_wordSkipping_pos hcontinues)]
      number := fun t ht value hnumber => by
        have hkind : t.kind ≠ .endOfInput := fun hkind => by
          rw [hkind] at hnumber
          cases hnumber
        obtain ⟨b, rest, hdrop, hscan, -, hsize, -⟩ := hfound t ht hkind
        obtain ⟨heq, hdigit⟩ := scan_of_number (hscan ▸ hnumber)
        rw [hsize, heq, hdrop, (takes_number hdigit).length]
      ordered := hrow.pairwise
      between := fun i b hb hout => by
        -- a byte outside every token is a space
        refine (htiling.covers hb).resolve_right fun hcovered => ?_
        obtain ⟨t, ht, hstart, hstop⟩ := hcovered
        rw [show Position.origin.offset = 0 from rfl, Nat.zero_add] at hstart hstop
        exact hout t ht ⟨hstart, hstop⟩
      places := fun t ht q hq => by
        rcases hq with rfl | rfl
        · exact (htiling.reaches ht).1.of_origin
        · exact (htiling.reaches ht).2.of_origin
      -- the row has no such token, and the end of input is not one
      numbers := fun t ht => by
        rw [heq] at ht
        rcases List.mem_append.mp ht with ht | ht
        · exact (hkinds t ht).2
        · cases List.mem_singleton.mp ht
          exact TokenKind.noConfusion }

end Lexer

end Enclave
