import Enclave.Proofs.Syntax.Lexemes
import Enclave.Proofs.Syntax.Placeless

/-!
# Layout

What a source says, apart from its layout, is a row of kinds of tokens. A source is written out of
such a row (`Written`) with any legal spelling of each token (`Spelling`), and with a separator
behind it: a blank, and then blanks and comments as one likes (`Filler`).

The lexer finds each token that is followed by a blank or by nothing (`Spelling.finds`), passes over
what is between them (`Filler.passed`), and so gives the row back (`Written.significant_tokens`).
What the parser can see of a token is determined by its kind, so sources that are written out of the
same row are read alike (`Written.read_unplaced`).
-/

namespace Enclave.Lexer

open Text
open String (utf8EncodeChar)

/-! ### Between tokens -/

/-- What may stand in a comment with two brackets: bytes that are no bracket together with the one
behind them, and other such comments. Behind the last byte stands the star of the closing
bracket. -/
inductive CommentBody : List UInt8 → Prop
  | nil : CommentBody []
  | byte {b : UInt8} {rest : List UInt8} (opens : ¬(b = 0x2F ∧ rest.headD 0x2A = 0x2A))
    (closes : ¬(b = 0x2A ∧ rest.headD 0x2A = 0x2F)) (body : CommentBody rest) :
    CommentBody (b :: rest)
  | nested {inner rest : List UInt8} (comment : CommentBody inner) (body : CommentBody rest) :
    CommentBody (0x2F :: 0x2A :: (inner ++ 0x2A :: 0x2F :: rest))

/-- Blanks, comments up to the end of their line, and comments with two brackets. -/
inductive Filler : List UInt8 → Prop
  | nil : Filler []
  | blank {b : UInt8} {rest : List UInt8} (space : isSpace b = true) (filler : Filler rest) :
    Filler (b :: rest)
  | line {text rest : List UInt8} (text_ne : ∀ b ∈ text, b ≠ 0x0A) (filler : Filler rest) :
    Filler (0x2F :: 0x2F :: (text ++ 0x0A :: rest))
  | block {body rest : List UInt8} (comment : CommentBody body) (filler : Filler rest) :
    Filler (0x2F :: 0x2A :: (body ++ 0x2A :: 0x2F :: rest))

/-- What separates tokens: a blank, and filler behind it. -/
def IsSeparator : List UInt8 → Prop
  | [] => False
  | b :: rest => isSpace b = true ∧ Filler rest

/-- White space and then filler separate. -/
theorem Filler.separates {b : UInt8} {rest : List UInt8} (h : Filler rest)
    (space : isSpace b = true) : IsSeparator (b :: rest) :=
  ⟨space, h⟩

/-- Tokens of these kinds, each in a legal spelling, with separators between them and perhaps one
behind the last. -/
inductive Row : List TokenKind → List UInt8 → Prop
  | nil : Row [] []
  | last {kind : TokenKind} {bytes : List UInt8} (spelling : Spelling kind bytes) : Row [kind] bytes
  | cons {kind : TokenKind} {kinds : List TokenKind} {bytes separator rest : List UInt8}
    (spelling : Spelling kind bytes) (separates : IsSeparator separator) (row : Row kinds rest) :
    Row (kind :: kinds) (bytes ++ (separator ++ rest))

/-- A source that consists of tokens of these kinds, with filler before the first. -/
inductive Written : List TokenKind → List UInt8 → Prop
  | intro {kinds : List TokenKind} {lead rest : List UInt8} (filler : Filler lead)
    (row : Row kinds rest) : Written kinds (lead ++ rest)

/-- A row is a source written out of its kinds. -/
theorem Row.written {kinds : List TokenKind} {source : List UInt8} (h : Row kinds source) :
    Written kinds source :=
  .intro .nil h

/-- The kinds of the tokens that are no comments. -/
def significant (tokens : List Token) : List TokenKind :=
  (tokens.filter (!·.isComment)).map (·.kind)

/-- A comment is not significant. -/
theorem significant_comment {t : Token} (h : t.isComment = true) (rest : List Token) :
    significant (t :: rest) = significant rest := by
  rw [significant, List.filter_cons_of_neg (by simp [h])]
  rfl

/-- Every other token is. -/
theorem significant_cons {t : Token} (h : t.isComment = false) (rest : List Token) :
    significant (t :: rest) = t.kind :: significant rest := by
  rw [significant, List.filter_cons_of_pos (by simp [h])]
  rfl

/-! ### Passing over filler -/

/-- Behind a token its bytes are passed over. -/
theorem tokensFrom_append (bytes rest : List UInt8) (p : Position) :
    tokensFrom p bytes.length (bytes ++ rest) = tokensFrom (p.after bytes) 0 rest := by
  induction bytes generalizing p with
  | nil => rfl
  | cons b bytes ih => exact ih (p.advance b)

/-- White space is passed over. -/
theorem tokensFrom_blank {b : UInt8} (h : isSpace b = true) (rest : List UInt8) (p : Position) :
    tokensFrom p 0 (b :: rest) = tokensFrom (p.advance b) 0 rest := by
  rw [tokensFrom]
  exact if_pos h

/-- A token that is found is the next one. -/
theorem Finds.tokensFrom {kind : TokenKind} {bytes rest : List UInt8} (h : Finds kind bytes rest)
    (p : Position) : ∃ span lexeme, tokensFrom p 0 (bytes ++ rest) =
      ⟨kind, span, lexeme⟩ :: tokensFrom (p.after bytes) 0 rest := by
  obtain ⟨b, more, rfl, hspace, rfl, hmore⟩ := h
  rw [List.cons_append, Lexer.tokensFrom]
  simp only [hspace, hmore, tokensFrom_append]
  exact ⟨_, _, rfl⟩

/-- A byte that neither opens nor closes a comment, together with the one behind it, belongs to the
comment around it. -/
theorem commentBody?_byte {b : UInt8} {rest : List UInt8}
    (hopens : ¬(b = 0x2F ∧ rest.head? = some 0x2A))
    (hcloses : ¬(b = 0x2A ∧ rest.head? = some 0x2F)) (nested : Nat) :
    commentBody? nested (b :: rest) = (commentBody? nested rest).map (b :: ·) := by
  rw [commentBody?.eq_def]
  -- One case for each pattern of the scanner; this byte neither opens nor closes a comment.
  split
  · next heq =>
    cases heq
    exact absurd ⟨rfl, rfl⟩ hopens
  · next heq =>
    cases heq
    exact absurd ⟨rfl, rfl⟩ hcloses
  · next heq =>
    cases heq
    rfl
  · next heq => cases heq

/-- The closing bracket that matches is found behind the body, however many others are open. -/
theorem CommentBody.passed {body : List UInt8} (h : CommentBody body) (nested : Nat)
    (rest : List UInt8) :
    commentBody? nested (body ++ 0x2A :: 0x2F :: rest) =
      (commentBody? nested (0x2A :: 0x2F :: rest)).map (body ++ ·) := by
  induction h generalizing nested rest with
  | nil => simp
  | @byte b body opens closes _ ih =>
    -- where the body ends, the star of the closing bracket is the byte behind
    have hhead : (body ++ 0x2A :: 0x2F :: rest).head? = some (body.headD 0x2A) := by
      cases body <;> rfl
    have hbyte : commentBody? nested (b :: (body ++ 0x2A :: 0x2F :: rest)) =
        (commentBody? nested (body ++ 0x2A :: 0x2F :: rest)).map (b :: ·) :=
      commentBody?_byte (by rwa [hhead, Option.some_inj]) (by rwa [hhead, Option.some_inj]) nested
    rw [List.cons_append, hbyte, ih, Option.map_map]
    rfl
  | @nested inner body _ _ ihinner ih =>
    have hassoc : (0x2F :: 0x2A :: (inner ++ 0x2A :: 0x2F :: body)) ++ 0x2A :: 0x2F :: rest =
        0x2F :: 0x2A :: (inner ++ 0x2A :: 0x2F :: (body ++ 0x2A :: 0x2F :: rest)) := by
      simp
    rw [hassoc, commentBody?, ihinner, commentBody?, ih]
    simp [Function.comp_def]

/-- A line comment is found up to the end of its line. -/
theorem finds_line {text : List UInt8} (htext : ∀ b ∈ text, b ≠ 0x0A) (rest : List UInt8) :
    Finds (.lineComment (decodeLossy text)) (0x2F :: 0x2F :: text) (0x0A :: rest) := by
  have htake : (text ++ 0x0A :: rest).takeWhile (· ≠ 0x0A) = text :=
    takeWhile_append (fun b hb => by simpa using htext b hb) (by simp)
  have hscan : scan 0x2F (0x2F :: text ++ 0x0A :: rest) = lineComment (text ++ 0x0A :: rest) := rfl
  refine ⟨0x2F, 0x2F :: text, rfl, rfl, ?_, ?_⟩
  · rw [hscan, lineComment, htake]
  · rw [hscan, lineComment, htake, List.length_cons, Nat.add_comm]

/-- A block comment is found up to its end. -/
theorem CommentBody.finds {body : List UInt8} (h : CommentBody body) (rest : List UInt8) :
    Finds (.blockComment (decodeLossy body)) (0x2F :: 0x2A :: (body ++ [0x2A, 0x2F])) rest := by
  have hassoc : body ++ [0x2A, 0x2F] ++ rest = body ++ 0x2A :: 0x2F :: rest := by simp
  -- The body ends at the first closing mark that belongs to it.
  have hbody : commentBody? 0 (body ++ [0x2A, 0x2F] ++ rest) = some body := by
    rw [hassoc, h.passed, commentBody?]
    exact congrArg some (List.append_nil body)
  have hscan : scan 0x2F (0x2A :: (body ++ [0x2A, 0x2F]) ++ rest) =
      blockComment (body ++ [0x2A, 0x2F] ++ rest) := rfl
  refine ⟨0x2F, 0x2A :: (body ++ [0x2A, 0x2F]), rfl, rfl, ?_, ?_⟩
  · rw [hscan, blockComment, hbody]
  · rw [hscan, blockComment, hbody]
    simp only [List.length_cons, List.length_append, List.length_nil]
    omega

/-- **Filler leaves nothing behind** but comments. -/
theorem Filler.passed {filler : List UInt8} (h : Filler filler) (rest : List UInt8)
    (p : Position) : ∃ q, significant (tokensFrom p 0 (filler ++ rest)) =
      significant (tokensFrom q 0 rest) := by
  induction h generalizing p with
  | nil => exact ⟨p, rfl⟩
  | @blank b filler space _ ih =>
    rw [List.cons_append, tokensFrom_blank space]
    exact ih (p.advance b)
  | @line text filler text_ne _ ih =>
    -- the line ends with a blank
    obtain ⟨span, lexeme, htokens⟩ := (finds_line text_ne (filler ++ rest)).tokensFrom p
    have hassoc : (0x2F :: 0x2F :: (text ++ 0x0A :: filler)) ++ rest =
        (0x2F :: 0x2F :: text) ++ 0x0A :: (filler ++ rest) := by
      simp
    rw [hassoc, htokens, significant_comment rfl, tokensFrom_blank rfl]
    exact ih _
  | @block body filler comment _ ih =>
    obtain ⟨span, lexeme, htokens⟩ := (comment.finds (filler ++ rest)).tokensFrom p
    have hassoc : (0x2F :: 0x2A :: (body ++ 0x2A :: 0x2F :: filler)) ++ rest =
        (0x2F :: 0x2A :: (body ++ [0x2A, 0x2F])) ++ (filler ++ rest) := by
      simp
    rw [hassoc, htokens, significant_comment rfl]
    exact ih _

/-! ### Rows -/

/-- No spelling is that of a comment. -/
theorem Spelling.isComment {kind : TokenKind} {bytes : List UInt8} (h : Spelling kind bytes) :
    kind.isComment = false := by
  cases h <;> rfl

/-- A separator ends a token. -/
theorem IsSeparator.endsToken {separator : List UInt8} (h : IsSeparator separator)
    (rest : List UInt8) : EndsToken (separator ++ rest) := by
  cases separator with
  | nil => cases h
  | cons b filler => exact EndsToken.cons h.1 _

/-- A separator is filler. -/
theorem IsSeparator.filler {separator : List UInt8} (h : IsSeparator separator) :
    Filler separator := by
  cases separator with
  | nil => cases h
  | cons b filler => exact .blank h.1 h.2

/-- A spelled token is the next significant one. -/
theorem Spelling.significant {kind : TokenKind} {bytes rest : List UInt8}
    (h : Spelling kind bytes) (hrest : EndsToken rest) (p : Position) :
    significant (tokensFrom p 0 (bytes ++ rest)) =
      kind :: Lexer.significant (tokensFrom (p.after bytes) 0 rest) := by
  obtain ⟨span, lexeme, htokens⟩ := (h.finds hrest).tokensFrom p
  have hcomment : Token.isComment ⟨kind, span, lexeme⟩ = false := h.isComment
  rw [htokens, significant_cons hcomment]

/-- One token after the other is found. -/
theorem Row.significant {kinds : List TokenKind} {bytes : List UInt8} (h : Row kinds bytes)
    (p : Position) : significant (tokensFrom p 0 bytes) = kinds ++ [.endOfInput] := by
  -- Token by token, each with the separator behind it.
  induction h generalizing p with
  | nil => rfl
  | @last kind bytes spelling =>
    have hlast := spelling.significant .nil p
    rw [List.append_nil] at hlast
    rw [hlast]
    rfl
  | @cons kind kinds bytes separator rest spelling separates _ ih =>
    obtain ⟨q, hpassed⟩ := separates.filler.passed rest (p.after bytes)
    rw [spelling.significant (separates.endsToken rest), hpassed, ih q]
    rfl

/-- The significant tokens of a source are those it was written out of. -/
theorem Written.significant_tokens {kinds : List TokenKind} {source : List UInt8}
    (h : Written kinds source) : significant (tokens source) = kinds ++ [.endOfInput] := by
  obtain ⟨filler, row⟩ := h
  obtain ⟨q, hpassed⟩ := filler.passed _ .origin
  rw [tokens, hpassed, row.significant q]

/-! ### What is read -/

/-- What can be seen of a token of this kind in a source. -/
def seenAs (kind : TokenKind) : TokenKind × Option String :=
  (kind, if kind.isWord then some kind.wordText else none)

/-- What the parser sees of a token is determined by its kind. -/
theorem seen_eq {source : List UInt8} {t : Token} (ht : t ∈ tokens source) :
    t.seen = seenAs t.kind := by
  unfold Token.seen seenAs
  split
  · next hword => rw [lexeme_of_mem ht hword]
  · rfl

/-- Kinds are all that is to be seen of a source. -/
theorem seen_tokens (source : List UInt8) :
    ((tokens source).filter (!·.isComment)).map Token.seen =
      (significant (tokens source)).map seenAs := by
  rw [significant, List.map_map]
  refine List.map_congr_left fun t ht => ?_
  exact seen_eq (List.mem_filter.mp ht).1

/-- **Layout does not matter.** Of a source that is written out of a row of kinds, with any spelling
and any separators, the lexer gives back the row; and of any two such sources the same program is
read up to regions, or the same is wrong with both. -/
theorem Written.read_unplaced {kinds : List TokenKind} {source source' : List UInt8}
    (h : Written kinds source) (h' : Written kinds source') :
    significant (tokens source) = kinds ++ [.endOfInput] ∧
      Program.withoutRegions (Program.read source) =
        Program.withoutRegions (Program.read source') := by
  refine ⟨h.significant_tokens, Program.ofTokens_unplaced ?_⟩
  rw [seen_tokens, seen_tokens, h.significant_tokens, h'.significant_tokens]

/-- The words `let a`, a blank between them, and then `/*/**/*/` behind the blank and `//` and a
line break behind the name. -/
theorem Written.read_unplaced_let :
    let kinds := [.keyword .kwLet, .identifier "a"]
    let source := utf8 "let" ++ ([0x20] ++ utf8 "a")
    let source' := utf8 "let" ++
      ([0x20, 0x2F, 0x2A, 0x2F, 0x2A, 0x2A, 0x2F, 0x2A, 0x2F] ++
        (utf8 "a" ++ ([0x20, 0x2F, 0x2F, 0x0A] ++ [])))
    Written kinds source ∧ Written kinds source' ∧
      significant (tokens source) = kinds ++ [.endOfInput] ∧
      Program.withoutRegions (Program.read source) =
        Program.withoutRegions (Program.read source') := by
  intro kinds source source'
  have name : Spelling (.identifier "a") (utf8 "a") :=
    .identifier rfl (by decide +kernel) nofun (by decide +kernel)
  -- a comment within a comment separates the words as a space does
  have comment := Filler.block (.nested .nil .nil) .nil
  have line := Filler.line (List.forall_mem_nil _) .nil
  have plain : Row kinds source :=
    .cons (.keyword .kwLet) (Filler.nil.separates rfl) (.last name)
  have laidOut : Row kinds source' :=
    .cons (.keyword .kwLet) (comment.separates rfl) (.cons name (line.separates rfl) .nil)
  exact ⟨plain.written, laidOut.written, plain.written.read_unplaced laidOut.written⟩

end Enclave.Lexer
