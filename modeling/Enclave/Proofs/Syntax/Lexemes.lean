import Enclave.Proofs.Syntax.Printing
import Enclave.Proofs.Syntax.Stepping
import Enclave.Proofs.Syntax.Tiling
import Enclave.Proofs.Text.Utf8
import Mathlib.Data.List.Find

/-!
# Spelled tokens

Each kind of token has its legal spellings (`Spelling`): words, marks and operators have one each,
numbers and strings have several. The lexer finds a token in any of them, if a blank or nothing
follows (`Spelling.finds`), since a blank goes on with no word and no number, and makes no longer
operator of a shorter one.
-/

namespace Enclave

/-! ### Words in rows -/

/-- The lexeme of a word is its text. -/
theorem Token.lexeme_eq_wordText {t : Token} (h : t.kind.IsSpelled t.lexeme)
    (hword : t.kind.isWord = true) : t.lexeme = t.kind.wordText := by
  obtain ⟨kind, span, lexeme⟩ := t
  cases kind with
  | identifier name => exact h.1
  | keyword word =>
    have hfound : Keyword.ofSpelling? lexeme = some word := h
    have hspelling : word.spelling = lexeme := by simpa using List.find?_some hfound
    exact hspelling.symm
  | _ => cases hword

/-- In a row of tokens every lexeme spells the kind of its token. -/
theorem TokenRow.isSpelled {lo : Nat} {tokens : List Token} (h : TokenRow lo tokens) {t : Token}
    (ht : t ∈ tokens) : t.kind.IsSpelled t.lexeme := by
  -- From the last token, the end of input, back to the first.
  induction h with
  | last kind _ =>
    cases List.mem_singleton.mp ht
    rw [kind]
    trivial
  | cons _ spelled _ _ _ ih =>
    rcases List.mem_cons.mp ht with rfl | ht
    · exact spelled
    · exact ih ht

/-- The text of a word is in its kind. -/
theorem Lexer.lexeme_of_mem {source : List UInt8} {t : Token} (ht : t ∈ Lexer.tokens source)
    (hword : t.kind.isWord = true) : t.lexeme = t.kind.wordText :=
  Token.lexeme_eq_wordText ((tokenRow_tokens source).isSpelled ht) hword

namespace Lexer

open Text
open String (utf8EncodeChar)

/-! ### Spellings -/

/-- A digit, and digits or gaps behind it. -/
def IsRun : List UInt8 → Prop
  | [] => False
  | d :: rest => Number.isDigit d = true ∧ ∀ b ∈ rest, isDigitOrGap b = true

/-- Nothing, or a point and a run behind it. -/
inductive FractionSpelling : List UInt8 → Prop
  | none : FractionSpelling []
  | point {ds : List UInt8} (run : IsRun ds) : FractionSpelling (0x2E :: ds)

/-- Nothing, or the letter of powers with a sign or none and a run behind it. -/
inductive PowerSpelling : List UInt8 → Prop
  | none : PowerSpelling []
  | letter {e : UInt8} {sign ds : List UInt8} (letter : e = 0x65 ∨ e = 0x45)
    (sign_eq : sign = [] ∨ sign = [0x2B] ∨ sign = [0x2D]) (run : IsRun ds) :
    PowerSpelling (e :: (sign ++ ds))

/-- A run with a fraction or none, or a fraction; and then a power or none. -/
inductive NumberSpelling : List UInt8 → Prop
  | whole {ds fraction power : List UInt8} (run : IsRun ds)
    (fractional : FractionSpelling fraction) (powered : PowerSpelling power) :
    NumberSpelling (ds ++ fraction ++ power)
  | fraction {ds power : List UInt8} (run : IsRun ds) (powered : PowerSpelling power) :
    NumberSpelling (0x2E :: ds ++ power)

/-- Bytes with a backslash before each backslash and each of the quotes. -/
def escaped (quote : UInt8) (bytes : List UInt8) : List UInt8 :=
  bytes.flatMap fun b => if b = 0x5C ∨ b = quote then [0x5C, b] else [b]

/-- The legal spellings of tokens. -/
inductive Spelling : TokenKind → List UInt8 → Prop
  | keyword (word : Keyword) : Spelling (.keyword word) (utf8 word.spelling)
  | mark (sign : Mark) : Spelling (.mark sign) (utf8 sign.spelling)
  | operator (sign : Operator) : Spelling (.operator sign) (utf8 sign.spelling)
  | identifier {name : String} {c : Char} {cs : List Char} (toList : name.toList = c :: cs)
    (begins : beginsWord c = true) (continues : ∀ c ∈ cs, continuesWord c = true)
    (free : Keyword.ofSpelling? name = none) : Spelling (.identifier name) (utf8 name)
  | number {value : Number} {bytes : List UInt8} (spelling : NumberSpelling bytes)
    (reads : Number.ofDecimalText? (bytes.filter (· ≠ 0x5F)) = some value) :
    Spelling (.number value) bytes
  | string (text : String) {quote : UInt8} (quotes : quote = 0x22 ∨ quote = 0x27) :
    Spelling (.string text) (quote :: escaped quote (utf8 text) ++ [quote])

/-! ### What follows a token -/

/-- Nothing, or a blank and anything behind it. -/
def EndsToken (rest : List UInt8) : Prop := ∀ b ∈ rest.head?, isSpace b = true

/-- All that is said here of nothing or a blank depends on one byte at most. -/
def endings : List (List UInt8) := [[], [0x20], [0x09], [0x0A], [0x0D], [0x0B], [0x0C]]

/-- Each white space byte is one of the endings. -/
theorem isSpace_cases {b : UInt8} (h : isSpace b = true) : [b] ∈ endings := by
  simp only [isSpace, Bool.or_eq_true, decide_eq_true_eq] at h
  rcases h with ((((rfl | rfl) | rfl) | rfl) | rfl) | rfl <;> decide

/-- The first byte of what follows a token, if any, is one of the endings. -/
theorem EndsToken.take_one {rest : List UInt8} (h : EndsToken rest) : rest.take 1 ∈ endings := by
  cases rest with
  | nil => exact List.mem_cons_self
  | cons b rest => exact isSpace_cases (h b rfl)

/-- The end of input ends a token. -/
theorem EndsToken.nil : EndsToken [] := nofun

/-- White space ends a token. -/
theorem EndsToken.cons {b : UInt8} (h : isSpace b = true) (rest : List UInt8) :
    EndsToken (b :: rest) := by
  intro b' hb'
  cases hb'
  exact h

/-- A property of bytes that no ending has fails at the first byte that follows a token. -/
theorem EndsToken.head {p : UInt8 → Bool} {rest : List UInt8} (h : EndsToken rest)
    (hp : ∀ e ∈ endings, ∀ b ∈ e, p b = false) : ∀ b ∈ rest.head?, p b = false := by
  intro b hb
  exact hp [b] (isSpace_cases (h b hb)) b List.mem_cons_self

/-! ### Runs of bytes -/

/-- A run ends where the byte behind it does not go on with it. -/
theorem takeWhile_append {p : UInt8 → Bool} {bytes rest : List UInt8}
    (hbytes : ∀ b ∈ bytes, p b = true) (hrest : ∀ b ∈ rest.head?, p b = false) :
    (bytes ++ rest).takeWhile p = bytes := by
  have hnil : rest.takeWhile p = [] := by
    cases rest with
    | nil => rfl
    | cons b rest =>
      exact List.takeWhile_cons_of_neg (by rw [hrest b rfl]; exact Bool.false_ne_true)
  rw [List.takeWhile_append_of_pos hbytes, hnil, List.append_nil]

/-- Every byte of a run of digits is a digit or a gap. -/
theorem IsRun.all {ds : List UInt8} (h : IsRun ds) : ∀ b ∈ ds, isDigitOrGap b = true := by
  cases ds with
  | nil => cases h
  | cons d ds =>
    intro b hb
    rcases List.mem_cons.mp hb with rfl | hb
    · rw [isDigitOrGap, h.1, Bool.true_or]
    · exact h.2 b hb

/-- What follows the digits of a number when no further digit does. -/
def StopsRun (rest : List UInt8) : Prop := ∀ b ∈ rest.head?, isDigitOrGap b = false

/-- What ends a token stops a run of digits. -/
theorem EndsToken.stopsRun {rest : List UInt8} (h : EndsToken rest) : StopsRun rest :=
  h.head (by decide +kernel)

/-- A power stops the run of digits before it. -/
theorem PowerSpelling.stopsRun {power rest : List UInt8} (h : PowerSpelling power)
    (hrest : EndsToken rest) : StopsRun (power ++ rest) := by
  cases h with
  | none => exact hrest.stopsRun
  | letter hletter _ _ =>
    intro b hb
    cases hb
    rcases hletter with rfl | rfl <;> decide

/-- A fraction stops the run of digits before it. -/
theorem FractionSpelling.stopsRun {fraction rest : List UInt8} (h : FractionSpelling fraction)
    (hrest : StopsRun rest) : StopsRun (fraction ++ rest) := by
  cases h with
  | none => exact hrest
  | point _ =>
    intro b hb
    cases hb
    decide

/-! ### Numbers -/

/-- No fraction begins where no point stands. -/
theorem fraction_eq_nil {rest : List UInt8} (h : ∀ b ∈ rest.head?, b ≠ 0x2E) :
    fraction rest = [] := by
  unfold fraction
  split
  · exact absurd rfl (h _ rfl)
  · rfl

/-- A fraction is found where it is spelled, up to whatever stops its digits. -/
theorem FractionSpelling.found {fraction rest : List UInt8} (h : FractionSpelling fraction)
    (hrest : StopsRun rest) (hpoint : ∀ b ∈ rest.head?, b ≠ 0x2E) :
    Lexer.fraction (fraction ++ rest) = fraction := by
  cases h with
  | none => exact fraction_eq_nil hpoint
  | @point ds run =>
    cases ds with
    | nil => cases run
    | cons d ds =>
      change Lexer.fraction (0x2E :: d :: (ds ++ rest)) = _
      rw [fraction_point run.1, ← List.cons_append, takeWhile_append run.all hrest]

/-- A power is found where its letter, sign and digits are. -/
theorem power_letter {e : UInt8} {sign ds rest : List UInt8} (he : e = 0x65 ∨ e = 0x45)
    (hsign : sign = [] ∨ sign = [0x2B] ∨ sign = [0x2D]) (run : IsRun ds) (hrest : StopsRun rest) :
    power (e :: (sign ++ (ds ++ rest))) = e :: (sign ++ ds) := by
  cases ds with
  | nil => cases run
  | cons d ds =>
    -- a digit is not taken for a sign
    have hfound : ((sign ++ (d :: ds ++ rest)).take 1).filter (fun b => b = 0x2B || b = 0x2D) =
        sign := by
      rcases hsign with rfl | rfl | rfl
      · have hd : ¬(d = 0x2B || d = 0x2D) = true := by
          intro hd
          rcases (Bool.or_eq_true _ _).mp hd with hd | hd
          · exact absurd run.1 (of_decide_eq_true hd ▸ by decide)
          · exact absurd run.1 (of_decide_eq_true hd ▸ by decide)
        exact List.filter_cons_of_neg hd
      · rfl
      · rfl
    -- behind the sign come the digits, as far as they go
    have hdigits : ((sign ++ (d :: ds ++ rest)).drop sign.length).takeWhile isDigitOrGap =
        d :: ds := by
      rw [List.drop_left, takeWhile_append run.all hrest]
    have hfirst : ((d :: ds).take 1).any Number.isDigit = true := by
      simpa using run.1
    unfold power
    dsimp only
    rw [if_pos he, hfound, hdigits, if_pos hfirst]

/-- A power is found where it is spelled, up to the end of the token. -/
theorem PowerSpelling.found {power rest : List UInt8} (h : PowerSpelling power)
    (hrest : EndsToken rest) : Lexer.power (power ++ rest) = power := by
  cases h with
  | none =>
    -- Without a power, what follows must not be taken for one: no ending is an `e`.
    cases rest with
    | nil => rfl
    | cons b rest =>
      have hletter : ¬(b = 0x65 ∨ b = 0x45) := by
        rintro (rfl | rfl) <;> exact absurd (hrest _ rfl) (by decide)
      exact if_neg hletter
  | letter hletter hsign run =>
    rw [List.cons_append, List.append_assoc]
    exact power_letter hletter hsign run hrest.stopsRun

/-- Neither a power nor what ends a token begins with a point. -/
theorem PowerSpelling.head_ne_point {power rest : List UInt8} (h : PowerSpelling power)
    (hrest : EndsToken rest) : ∀ b ∈ (power ++ rest).head?, b ≠ 0x2E := by
  cases h with
  | none =>
    rintro b hb rfl
    exact absurd (hrest _ hb) (by decide)
  | letter hletter _ _ =>
    rintro b hb rfl
    cases hb
    rcases hletter with h | h <;> cases h

/-- The parts of a number are found one behind the other. -/
theorem numberBytes_spelled {whole fraction power rest : List UInt8}
    (hwhole : ∀ b ∈ whole, isDigitOrGap b = true) (hfraction : FractionSpelling fraction)
    (hpower : PowerSpelling power) (hrest : EndsToken rest) :
    numberBytes (whole ++ (fraction ++ (power ++ rest))) = whole ++ fraction ++ power := by
  have hstops := hpower.stopsRun hrest
  have hfound := hfraction.found hstops (hpower.head_ne_point hrest)
  unfold numberBytes
  dsimp only
  rw [takeWhile_append hwhole (hfraction.stopsRun hstops), List.drop_left, hfound, List.drop_left,
    hpower.found hrest]

/-! ### By their first bytes -/

/-- Neither a blank nor a comment nor a string nor a number begins here. -/
def startsPlain : List UInt8 → Bool
  | [] => false
  | b :: rest =>
    !isSpace b && !(b = 0x2F && (rest.take 1 = [0x2F] || rest.take 1 = [0x2A])) &&
      !(b = 0x22 || b = 0x27) &&
      !(Number.isDigit b || (b = 0x2E && (rest.take 1).any Number.isDigit))

/-- Whether a plain token starts here shows in the first two bytes. -/
theorem startsPlain_take (input : List UInt8) : startsPlain (input.take 2) = startsPlain input := by
  cases input with
  | nil => rfl
  | cons b rest =>
    rw [List.take_succ_cons, startsPlain, startsPlain, List.take_take, Nat.min_self]

/-- What is neither comment nor string nor number is looked up, and else a word. -/
theorem scan_plain {b : UInt8} {rest : List UInt8} (h : startsPlain (b :: rest) = true) :
    isSpace b = false ∧ scan b rest = (symbol? (b :: rest)).getD (wordOrStray b rest) := by
  simp only [startsPlain, Bool.and_eq_true, Bool.not_eq_true', Bool.and_eq_false_imp,
    Bool.or_eq_false_iff, decide_eq_true_eq, decide_eq_false_iff_not] at h
  obtain ⟨⟨⟨hspace, hcomment⟩, hdouble, hsingle⟩, hdigit, hpoint⟩ := h
  refine ⟨hspace, ?_⟩
  unfold scan
  split
  · exact absurd rfl (hcomment rfl).1
  · exact absurd rfl (hcomment rfl).2
  · -- a plain start opens neither a comment, nor a string, nor a number
    rw [if_neg (not_or.mpr ⟨hdouble, hsingle⟩), if_neg]
    rintro (h | ⟨h, hnext⟩)
    · rw [hdigit] at h
      cases h
    · rw [hpoint h] at hnext
      cases hnext

/-- Behind a quote a string is scanned. -/
theorem scan_string {quote : UInt8} (h : quote = 0x22 ∨ quote = 0x27) (rest : List UInt8) :
    scan quote rest = string quote rest := by
  rcases h with rfl | rfl <;> rfl

/-- Where a digit stands, or a point before a digit, a number is scanned. -/
theorem scan_number {b : UInt8} {rest : List UInt8}
    (h : Number.isDigit b = true ∨ b = 0x2E ∧ (rest.take 1).any Number.isDigit = true) :
    scan b rest = number (b :: rest) := by
  -- A digit or a point is neither the slash of a comment nor a quote.
  have hslash : b ≠ 0x2F := by
    rintro rfl
    rcases h with h | ⟨h, -⟩ <;> exact absurd h (by decide)
  have hquote : ¬(b = 0x22 ∨ b = 0x27) := by
    rintro (rfl | rfl) <;> rcases h with h | ⟨h, -⟩ <;> exact absurd h (by decide)
  unfold scan
  split
  · exact absurd rfl hslash
  · exact absurd rfl hslash
  · rw [if_neg hquote, if_pos h]

/-! ### Marks and operators -/

/-- They are one byte or two. -/
theorem symbols_short : ∀ s ∈ symbols, s.bytes.length ≤ 2 := by decide +kernel

/-- The mark or operator that starts here shows in the first two bytes. -/
theorem symbol?_take (input : List UInt8) : symbol? (input.take 2) = symbol? input := by
  unfold symbol?
  refine congrArg (Option.map _) (List.find?_congr fun s hs => Bool.eq_iff_iff.mpr ?_)
  rw [List.isPrefixOf_iff_prefix, List.isPrefixOf_iff_prefix, List.prefix_take_iff]
  exact ⟨fun h => h.1, fun h => ⟨h, symbols_short s hs⟩⟩

/-- Bytes that are found as a mark or operator of some kind, with any ending behind them. -/
def FindsSymbol (kind : TokenKind) (bytes : List UInt8) : Prop :=
  bytes ≠ [] ∧ ∀ ending ∈ endings, startsPlain (bytes ++ ending) = true ∧
    (symbol? (bytes ++ ending)).map (fun l => (l.kind, l.more + 1)) = some (kind, bytes.length)

instance (kind : TokenKind) (bytes : List UInt8) : Decidable (FindsSymbol kind bytes) :=
  inferInstanceAs (Decidable (_ ∧ _))

/-- Every mark is found where it is spelled. -/
theorem findsSymbol_mark : ∀ sign : Mark, FindsSymbol (.mark sign) (utf8 sign.spelling)
  | .leftParen | .rightParen | .leftBracket | .rightBracket | .leftBrace | .rightBrace
  | .comma | .semicolon | .colon | .dot | .assign => by decide +kernel

/-- Every operator is found where it is spelled. -/
theorem findsSymbol_operator : ∀ sign : Operator,
    FindsSymbol (.operator sign) (utf8 sign.spelling)
  | .plus | .minus | .star | .slash | .percent | .eq | .notEq | .lt | .ltEq | .gt | .gtEq
  | .and | .or | .not => by decide +kernel

/-- What the lexer finds in some bytes in front of others: it is of this kind and takes them all. -/
def Finds (kind : TokenKind) (bytes rest : List UInt8) : Prop :=
  ∃ b more, bytes = b :: more ∧ isSpace b = false ∧ (scan b (more ++ rest)).kind = kind ∧
    (scan b (more ++ rest)).more = more.length

/-- A symbol that is found before every ending is found at the end of any token. -/
theorem FindsSymbol.finds {kind : TokenKind} {bytes rest : List UInt8} (h : FindsSymbol kind bytes)
    (hrest : EndsToken rest) : Finds kind bytes rest := by
  obtain ⟨hne, hfinds⟩ := h
  cases bytes with
  | nil => exact absurd rfl hne
  | cons b more =>
    obtain ⟨hplain, hsymbol⟩ := hfinds _ hrest.take_one
    -- two bytes of the input decide, so at most one of what follows
    have htake : (b :: more ++ rest.take 1).take 2 = (b :: more ++ rest).take 2 := by
      cases more with
      | nil => simp [List.take_take]
      | cons b' more => simp
    rw [← startsPlain_take, htake, startsPlain_take] at hplain
    rw [← symbol?_take, htake, symbol?_take] at hsymbol
    rw [List.cons_append] at hplain hsymbol
    obtain ⟨hspace, hscan⟩ := scan_plain hplain
    obtain ⟨l, hl, heq⟩ := Option.map_eq_some_iff.mp hsymbol
    obtain ⟨hkind, hmore⟩ := Prod.mk.inj heq
    have hfound : scan b (more ++ rest) = l := by
      rw [hscan, hl, Option.getD_some]
    rw [← hfound] at hkind hmore
    exact ⟨b, more, rfl, hspace, hkind, Nat.succ.inj hmore⟩

/-! ### Numbers and strings -/

/-- The bytes of a number reach as far as its spelling. -/
theorem NumberSpelling.numberBytes {bytes rest : List UInt8} (h : NumberSpelling bytes)
    (hrest : EndsToken rest) : numberBytes (bytes ++ rest) = bytes := by
  cases h with
  | @whole ds fraction power run hfraction hpower =>
    have hfound := numberBytes_spelled run.all hfraction hpower hrest
    simpa using hfound
  | @fraction ds power run hpower =>
    have hfound := numberBytes_spelled (List.forall_mem_nil _) (.point run) hpower hrest
    simpa using hfound

/-- By the first byte, and the one behind it. -/
theorem NumberSpelling.starts {bytes : List UInt8} (h : NumberSpelling bytes) :
    ∃ b more, bytes = b :: more ∧ ∀ rest,
      Number.isDigit b = true ∨ b = 0x2E ∧ ((more ++ rest).take 1).any Number.isDigit = true := by
  -- A whole number starts with a digit, a mere fraction with its point and then a digit.
  cases h with
  | @whole ds fraction power run _ _ =>
    cases ds with
    | nil => cases run
    | cons d ds => exact ⟨d, ds ++ fraction ++ power, rfl, fun _ => .inl run.1⟩
  | @fraction ds power run _ =>
    cases ds with
    | nil => cases run
    | cons d ds =>
      exact ⟨0x2E, d :: ds ++ power, rfl, fun _ => .inr ⟨rfl, by simpa using run.1⟩⟩

/-- A number is found where it is spelled. -/
theorem NumberSpelling.finds {value : Number} {bytes rest : List UInt8} (h : NumberSpelling bytes)
    (hreads : Number.ofDecimalText? (bytes.filter (· ≠ 0x5F)) = some value)
    (hrest : EndsToken rest) : Finds (.number value) bytes rest := by
  obtain ⟨b, more, rfl, hstart⟩ := h.starts
  have hfound := h.numberBytes hrest
  -- a number starts with a digit or a point, and neither is a space
  have hspace : isSpace b = false := by
    rcases hstart rest with hdigit | ⟨rfl, -⟩
    · by_contra hspace
      have hnot := (EndsToken.cons (Bool.not_eq_false _ ▸ hspace) []).stopsRun b rfl
      rw [isDigitOrGap, hdigit] at hnot
      cases hnot
    · decide
  have hscan : scan b (more ++ rest) = ⟨.number value, decodeLossy (b :: more), more.length⟩ := by
    rw [scan_number (hstart rest), number, ← List.cons_append, hfound, hreads]
    rfl
  exact ⟨b, more, rfl, hspace, by rw [hscan], by rw [hscan]⟩

/-- A string ends at its quote. -/
theorem stringBody_quote (quote : UInt8) (rest : List UInt8) :
    stringBody quote (quote :: rest) = .ok ([], 1) := by
  cases rest <;> exact if_pos rfl

/-- A backslash in a string stands for the byte that its successor names. -/
theorem stringBody_escape {quote : UInt8} (hquote : quote ≠ 0x5C) (e : UInt8)
    (rest : List UInt8) :
    stringBody quote (0x5C :: e :: rest) =
      (stringBody quote rest).map fun (value, width) => (unescape e :: value, width + 2) := by
  rw [stringBody, if_neg hquote.symm, if_pos rfl]

/-- Any other byte of a string stands for itself. -/
theorem stringBody_byte {quote b : UInt8} (hquote : b ≠ quote) (hescape : b ≠ 0x5C)
    (rest : List UInt8) :
    stringBody quote (b :: rest) =
      (stringBody quote rest).map fun (value, width) => (b :: value, width + 1) := by
  cases rest with
  | nil => exact (if_neg hquote).trans (if_neg hescape)
  | cons e rest => exact (if_neg hquote).trans (if_neg hescape)

/-- Escaped bytes are read up to the closing quote. -/
theorem stringBody_escaped {quote : UInt8} (hquote : quote = 0x22 ∨ quote = 0x27)
    (bytes rest : List UInt8) :
    stringBody quote (escaped quote bytes ++ quote :: rest) =
      .ok (bytes, (escaped quote bytes).length + 1) := by
  have hescape : quote ≠ 0x5C := by rcases hquote with rfl | rfl <;> decide
  induction bytes with
  | nil => exact stringBody_quote quote rest
  | cons b bytes ih =>
    have hcons : escaped quote (b :: bytes) =
        (if b = 0x5C ∨ b = quote then [0x5C, b] else [b]) ++ escaped quote bytes := rfl
    rw [hcons]
    split
    · next hb =>
      -- neither a backslash nor a quote stands for anything else behind a backslash
      have hself : unescape b = b := by
        rcases hb with rfl | rfl
        · rfl
        · rcases hquote with rfl | rfl <;> rfl
      change stringBody quote (0x5C :: b :: (escaped quote bytes ++ quote :: rest)) = _
      rw [stringBody_escape hescape, ih, hself]
      rfl
    · next hb =>
      obtain ⟨hbackslash, hother⟩ := not_or.mp hb
      change stringBody quote (b :: (escaped quote bytes ++ quote :: rest)) = _
      rw [stringBody_byte hother hbackslash, ih]
      rfl

/-- Any text is found as a string where it is spelled with escapes between quotes. -/
theorem finds_string (text : String) {quote : UInt8} (hquote : quote = 0x22 ∨ quote = 0x27)
    (rest : List UInt8) :
    Finds (.string text) (quote :: escaped quote (utf8 text) ++ [quote]) rest := by
  -- The escaped text reads back as the text, and the closing quote ends it.
  have hbody : stringBody quote (escaped quote (utf8 text) ++ [quote] ++ rest) =
      .ok (utf8 text, (escaped quote (utf8 text)).length + 1) := by
    rw [List.append_assoc]
    exact stringBody_escaped hquote (utf8 text) rest
  refine ⟨quote, escaped quote (utf8 text) ++ [quote], rfl, ?_, ?_, ?_⟩
  · rcases hquote with rfl | rfl <;> decide
  · rw [scan_string hquote, string, hbody]
    dsimp only
    rw [decodeLossy_utf8]
  · rw [scan_string hquote, string, hbody]
    dsimp only
    rw [List.length_append, List.length_singleton]

/-! ### Words -/

/-- A byte with which a word may begin: that of a letter or sign, or the first of several. -/
def isWordByte (b : UInt8) : Bool := 0x80 ≤ b || beginsWord (Char.ofNat b.toNat)

/-- Nothing else begins with such a byte. -/
theorem isWordByte_spec : ∀ b : UInt8, isWordByte b = true →
    isSpace b = false ∧ Number.isDigit b = false ∧ b ∉ [0x2F, 0x22, 0x27, 0x2E] :=
  forall_byte (by decide +kernel)

/-- No mark or operator begins with a byte of a word. -/
theorem symbols_begin : ∀ s ∈ symbols, s.bytes.head?.any (!isWordByte ·) = true := by
  decide +kernel

/-- Where a word may start, a word or a stray character is scanned. -/
theorem scan_word {b : UInt8} (h : isWordByte b = true) (rest : List UInt8) :
    isSpace b = false ∧ scan b rest = wordOrStray b rest := by
  obtain ⟨hspace, hdigit, hne⟩ := isWordByte_spec b h
  simp only [List.mem_cons, List.not_mem_nil, or_false, not_or] at hne
  have hplain : startsPlain (b :: rest) = true := by
    rw [startsPlain, hspace, hdigit]
    simp [hne]
  -- no symbol begins with a byte of a word
  have hsymbol : symbol? (b :: rest) = none := by
    refine Option.map_eq_none_iff.mpr (List.find?_eq_none.mpr fun s hs hfront => ?_)
    have hhead := symbols_begin s hs
    generalize s.bytes = bytes at hhead hfront
    cases bytes with
    | nil => cases hhead
    | cons b' bytes =>
      rw [List.isPrefixOf, Bool.and_eq_true, beq_iff_eq] at hfront
      rw [List.head?_cons, Option.any_some, hfront.1, h] at hhead
      cases hhead
  refine ⟨hspace, ?_⟩
  rw [(scan_plain hplain).2, hsymbol, Option.getD_none]

/-- Behind a character its bytes are passed over. -/
theorem wordSkipping_append (skipped rest : List UInt8) :
    wordSkipping skipped.length (skipped ++ rest) =
      ((wordSkipping 0 rest).1, skipped.length + (wordSkipping 0 rest).2) := by
  induction skipped with
  | nil => simp
  | cons b skipped ih =>
    rw [List.length_cons, List.cons_append, wordSkipping, ih]
    exact Prod.ext rfl (by dsimp only; omega)

/-- What ends a token adds nothing to a word. -/
theorem EndsToken.wordSkipping {rest : List UInt8} (h : EndsToken rest) :
    wordSkipping 0 rest = ([], 0) := by
  cases rest with
  | nil => rfl
  | cons b rest =>
    -- no blank goes on with a word, and each is a character of one byte
    have hascii : b < 0x80 := by
      have hmany : decide (0x80 ≤ b) = false :=
        h.head (p := fun b => decide (0x80 ≤ b)) (by decide +kernel) b rfl
      exact UInt8.not_le.mp (of_decide_eq_false hmany)
    have hword : continuesWord (Char.ofNat b.toNat) = false :=
      h.head (p := fun b => continuesWord (Char.ofNat b.toNat)) (by decide +kernel) b rfl
    rw [Lexer.wordSkipping, leadingChar_ascii hascii]
    dsimp only
    rw [if_neg (Bool.eq_false_iff.mp hword)]

/-- A word ends where nothing goes on with it. -/
theorem wordSkipping_encoded {cs : List Char} (hcs : ∀ c ∈ cs, continuesWord c = true)
    {rest : List UInt8} (hrest : EndsToken rest) :
    wordSkipping 0 (cs.flatMap utf8EncodeChar ++ rest) =
      (cs, (cs.flatMap utf8EncodeChar).length) := by
  induction cs with
  | nil => exact hrest.wordSkipping
  | cons c cs ih =>
    -- One character: its bytes are skipped at once, then the rest of the word is read.
    obtain ⟨b, more, hencoded⟩ := exists_encoded c
    rw [List.flatMap_cons, hencoded, List.cons_append, List.cons_append, List.append_assoc,
      wordSkipping, leadingChar_encoded hencoded]
    dsimp only
    rw [if_pos (hcs c List.mem_cons_self), wordSkipping_append,
      ih fun c' hc' => hcs c' (List.mem_cons_of_mem c hc')]
    refine Prod.ext rfl ?_
    simp only [List.length_cons, List.length_append]

/-- The first byte of a character that may begin a word starts a word. -/
theorem beginsWord_of_encoded {c : Char} {b : UInt8} {more : List UInt8}
    (hencoded : utf8EncodeChar c = b :: more) (hbegins : beginsWord c = true) :
    isWordByte b = true ∧ isWordStart b c = true := by
  have hstrict := strictLeadingChar_encoded hencoded []
  unfold isWordByte isWordStart
  by_cases hascii : b < 0x80
  · rw [strictLeadingChar, if_pos hascii] at hstrict
    obtain ⟨rfl, -⟩ := Prod.mk.inj hstrict
    rw [if_pos hascii, hbegins, Bool.or_true]
    exact ⟨rfl, rfl⟩
  · have hmany : 0x80 ≤ b := UInt8.not_lt.mp hascii
    rw [if_neg hascii, decide_eq_true hmany, Bool.true_or]
    refine ⟨rfl, ?_⟩
    -- the two signs have a single byte each
    have hsign : ∀ sign : Char, c = sign → utf8EncodeChar sign = [UInt8.ofNat sign.toNat] →
        UInt8.ofNat sign.toNat < 0x80 → False := by
      rintro sign rfl hsingle hlt
      rw [hsingle] at hencoded
      cases hencoded
      exact hascii hlt
    simp only [beginsWord, Bool.or_eq_true, decide_eq_true_eq] at hbegins
    rcases hbegins with (hletter | h) | h
    · exact hletter
    · exact (hsign '_' h (by decide) (by decide)).elim
    · exact (hsign '$' h (by decide) (by decide)).elim

/-- A word is found where it is spelled. -/
theorem finds_word {name : String} {c : Char} {cs : List Char} (htext : name.toList = c :: cs)
    (hbegins : beginsWord c = true) (hcontinues : ∀ c ∈ cs, continuesWord c = true)
    {rest : List UInt8} (hrest : EndsToken rest) : Finds (.word name) (utf8 name) rest := by
  obtain ⟨b, more, hencoded⟩ := exists_encoded c
  have hall : ∀ c' ∈ name.toList, continuesWord c' = true := by
    rw [htext]
    intro c' hc'
    rcases List.mem_cons.mp hc' with rfl | hc'
    · rw [continuesWord, hbegins, Bool.true_or]
    · exact hcontinues c' hc'
  -- the first character tells the word from other tokens, the rest is skipped to its end
  have hbytes : utf8 name = b :: (more ++ cs.flatMap utf8EncodeChar) := by
    rw [utf8_eq, htext, List.flatMap_cons, hencoded, List.cons_append]
  obtain ⟨hbyte, hstart⟩ := beginsWord_of_encoded hencoded hbegins
  obtain ⟨hspace, hscan⟩ :=
    scan_word hbyte (more ++ cs.flatMap utf8EncodeChar ++ rest)
  have hskip : wordSkipping 0 (b :: (more ++ cs.flatMap utf8EncodeChar ++ rest)) =
      (name.toList, (utf8 name).length) := by
    have hall := wordSkipping_encoded hall hrest
    rw [← utf8_eq] at hall
    rw [← hall, hbytes]
    rfl
  -- scanned is the whole word, whether or not it is a keyword
  have hfound : scan b (more ++ cs.flatMap utf8EncodeChar ++ rest) =
      ⟨.word name, name, (utf8 name).length - 1⟩ := by
    rw [hscan, wordOrStray, List.append_assoc, leadingChar_encoded hencoded]
    dsimp only
    rw [if_pos hstart, ← List.append_assoc, word, hskip]
    dsimp only
    rw [String.ofList_toList, TokenKind.word]
    cases Keyword.ofSpelling? name <;> rfl
  refine ⟨b, more ++ cs.flatMap utf8EncodeChar, hbytes, hspace, ?_, ?_⟩
  · rw [hfound]
  · rw [hfound, hbytes]
    rfl

/-- Reserved words are spelled like words, each like itself alone. -/
theorem keyword_spelled : ∀ word : Keyword, Keyword.ofSpelling? word.spelling = some word ∧
    word.spelling.toList.head?.any beginsWord = true ∧
    word.spelling.toList.all continuesWord = true
  | .kwClass | .kwExtends | .kwConstructor | .kwNew | .kwThis | .kwSuper | .kwPrivate | .kwStatic
  | .kwLet | .kwConst | .kwFunction | .kwReturn | .kwIf | .kwElse | .kwWhile | .kwThrow | .kwTry
  | .kwCatch | .kwDelete | .kwIn | .kwTypeof | .kwTrue | .kwFalse | .kwNull
  | .kwUndefined => by decide +kernel

/-- A keyword is found where it is spelled. -/
theorem finds_keyword (word : Keyword) {rest : List UInt8} (hrest : EndsToken rest) :
    Finds (.keyword word) (utf8 word.spelling) rest := by
  obtain ⟨hself, hbegins, hcontinues⟩ := keyword_spelled word
  have hkind : TokenKind.word word.spelling = .keyword word := by
    rw [TokenKind.word, hself]
  rw [← hkind]
  -- The spelling of a keyword is never empty, so it begins as a word must.
  cases htext : word.spelling.toList with
  | nil =>
    rw [htext] at hbegins
    cases hbegins
  | cons c cs =>
    rw [htext, List.head?_cons, Option.any_some] at hbegins
    rw [htext, List.all_eq_true] at hcontinues
    exact finds_word htext hbegins (fun c' hc' => hcontinues c' (List.mem_cons_of_mem c hc')) hrest

/-- **Tokens are found** in all of their spellings, whatever follows behind a blank. -/
theorem Spelling.finds {kind : TokenKind} {bytes rest : List UInt8} (h : Spelling kind bytes)
    (hrest : EndsToken rest) : Finds kind bytes rest := by
  cases h with
  | keyword word => exact finds_keyword word hrest
  | mark sign => exact (findsSymbol_mark sign).finds hrest
  | operator sign => exact (findsSymbol_operator sign).finds hrest
  -- A name is a word that is no keyword.
  | @identifier name c cs htext hbegins hcontinues hfree =>
    have hword := finds_word htext hbegins hcontinues hrest
    rwa [TokenKind.word, hfree] at hword
  | number hspelling hreads => exact hspelling.finds hreads hrest
  | string text hquote => exact finds_string text hquote rest

end Lexer

end Enclave
