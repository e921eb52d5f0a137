import Enclave.Source.Lexer

/-!
# Rows of tokens

What the lexer gives is a row of tokens (`TokenRow`): each stands behind the one before and none is
empty, words have the text that makes them names or reserved words, and the end of the input stands
behind all others and nowhere else (`Lexer.tokenRow_tokens`). Leaving out comments leaves a row.
-/

namespace Enclave

/-- Names have their own text, which is no reserved word's, and reserved words have theirs. -/
def TokenKind.IsSpelled (text : String) : TokenKind → Prop
  | .identifier name => text = name ∧ Keyword.ofSpelling? name = none
  | .keyword word => Keyword.ofSpelling? text = some word
  | _ => True

/-- Whether a token may be the name of a property. -/
def TokenKind.isWord : TokenKind → Bool
  | .identifier _ | .keyword _ => true
  | _ => false

/-- Tokens one behind the other, the first not before `lo`, and the end of the input as the last. -/
inductive TokenRow : (lo : Nat) → List Token → Prop
  | last {lo : Nat} {t : Token} (kind : t.kind = .endOfInput)
    (behind : lo ≤ t.span.start.offset) : TokenRow lo [t]
  | cons {lo : Nat} {t : Token} {rest : List Token} (kind : t.kind ≠ .endOfInput)
    (spelled : t.kind.IsSpelled t.lexeme) (behind : lo ≤ t.span.start.offset)
    (size : t.span.start.offset < t.span.stop.offset)
    (row : TokenRow t.span.stop.offset rest) : TokenRow lo (t :: rest)

namespace TokenRow

variable {lo lo' : Nat} {tokens rest : List Token} {t : Token}

theorem mono (h : TokenRow lo tokens) (hle : lo' ≤ lo) : TokenRow lo' tokens := by
  cases h with
  | last kind behind => exact .last kind (Nat.le_trans hle behind)
  | cons kind spelled behind size row => exact .cons kind spelled (Nat.le_trans hle behind) size row

/-- All tokens of a row stand behind its beginning. -/
theorem le_start (h : TokenRow lo tokens) (ht : t ∈ tokens) : lo ≤ t.span.start.offset := by
  induction h with
  | last kind behind =>
    cases List.mem_singleton.mp ht
    exact behind
  | cons kind spelled behind size row ih =>
    rcases List.mem_cons.mp ht with rfl | ht
    · exact behind
    · exact Nat.le_trans behind (Nat.le_trans (Nat.le_of_lt size) (ih ht))

theorem size_of_mem (h : TokenRow lo tokens) (ht : t ∈ tokens) (hkind : t.kind ≠ .endOfInput) :
    t.span.start.offset < t.span.stop.offset := by
  induction h with
  | last kind behind =>
    cases List.mem_singleton.mp ht
    exact absurd kind hkind
  | cons kind spelled behind size row ih =>
    rcases List.mem_cons.mp ht with rfl | ht
    · exact size
    · exact ih ht

/-- None begins before those in front of it end. -/
theorem pairwise (h : TokenRow lo tokens) :
    tokens.Pairwise fun t t' => t.span.stop.offset ≤ t'.span.start.offset := by
  induction h with
  | last => exact List.pairwise_singleton _ _
  | cons kind spelled behind size row ih => exact List.pairwise_cons.mpr ⟨fun _ => row.le_start, ih⟩

/-- None begins before those in front of it. -/
theorem sorted (h : TokenRow lo tokens) :
    tokens.Pairwise fun t t' => t.span.start.offset ≤ t'.span.start.offset := by
  induction h with
  | last => exact List.pairwise_singleton _ _
  | cons kind spelled behind size row ih =>
    exact List.pairwise_cons.mpr
      ⟨fun _ ht => Nat.le_trans (Nat.le_of_lt size) (row.le_start ht), ih⟩

/-- Nothing stands behind the end of the input. -/
theorem eq_singleton (h : TokenRow lo (t :: rest)) (hkind : t.kind = .endOfInput) : rest = [] := by
  cases h with
  | last kind behind => rfl
  | cons kind => exact absurd hkind kind

/-- Comments may be left out. -/
theorem withoutComments (h : TokenRow lo tokens) : TokenRow lo (tokens.filter (!·.isComment)) := by
  -- Where a comment is left out, the next token begins even further behind.
  induction h with
  | @last lo t kind behind =>
    rw [List.filter_cons_of_pos (by simp [Token.isComment, kind, TokenKind.isComment])]
    exact .last kind behind
  | @cons lo t rest kind spelled behind size row ih =>
    by_cases hcomment : t.isComment = true
    · rw [List.filter_cons_of_neg (by simp [hcomment])]
      exact ih.mono (Nat.le_trans behind (Nat.le_of_lt size))
    · rw [List.filter_cons_of_pos (by simp [hcomment])]
      exact .cons kind spelled behind size ih

end TokenRow

namespace Lexer

/-- A lexeme is something, and it is spelled as what it is. -/
def Lexeme.IsSpelled (l : Lexeme) : Prop := l.kind ≠ .endOfInput ∧ l.kind.IsSpelled l.text

theorem isSpelled_blockComment (body : List UInt8) : (blockComment body).IsSpelled := by
  unfold blockComment
  split <;> exact ⟨nofun, trivial⟩

theorem isSpelled_string (quote : UInt8) (body : List UInt8) : (string quote body).IsSpelled := by
  unfold string
  split <;> exact ⟨nofun, trivial⟩

theorem isSpelled_number (input : List UInt8) : (number input).IsSpelled := by
  unfold number
  dsimp only
  split <;> exact ⟨nofun, trivial⟩

theorem isSpelled_word (input : List UInt8) : (word input).IsSpelled := by
  unfold word
  dsimp only
  split
  · next h => exact ⟨nofun, h⟩
  · next h => exact ⟨nofun, rfl, h⟩

/-- What is looked up is a mark or an operator. -/
theorem kind_symbol {input : List UInt8} {l : Lexeme} (h : symbol? input = some l) :
    (∃ sign, l.kind = .operator sign) ∨ ∃ sign, l.kind = .mark sign := by
  obtain ⟨s, hfind, rfl⟩ := Option.map_eq_some_iff.mp h
  have hmem : s ∈ symbols := List.mem_of_find?_eq_some hfind
  -- The table of symbols is made of operators and marks.
  have hall : s ∈ (Operator.all.map fun o => Symbol.mk (Text.utf8 o.spelling) o.spelling
        (.operator o)) ++
      (Mark.all.map fun m => Symbol.mk (Text.utf8 m.spelling) m.spelling (.mark m)) := by
    rcases List.mem_append.mp hmem with h | h <;> exact (List.mem_filter.mp h).1
  rcases List.mem_append.mp hall with h | h <;> obtain ⟨sign, -, rfl⟩ := List.mem_map.mp h
  · exact .inl ⟨sign, rfl⟩
  · exact .inr ⟨sign, rfl⟩

/-- Marks and operators are no words. -/
theorem isSpelled_symbol {input : List UInt8} {l : Lexeme} (h : symbol? input = some l) :
    l.IsSpelled := by
  unfold Lexeme.IsSpelled
  rcases kind_symbol h with ⟨sign, hkind⟩ | ⟨sign, hkind⟩ <;> rw [hkind] <;>
    exact ⟨TokenKind.noConfusion, trivial⟩

theorem isSpelled_wordOrStray (b : UInt8) (rest : List UInt8) :
    (wordOrStray b rest).IsSpelled := by
  unfold wordOrStray
  dsimp only
  split
  · exact isSpelled_word _
  · exact ⟨nofun, trivial⟩

theorem isSpelled_scan (b : UInt8) (rest : List UInt8) : (scan b rest).IsSpelled := by
  unfold scan
  -- In the order of the scan.
  split
  · exact ⟨nofun, trivial⟩
  · exact isSpelled_blockComment _
  · split
    · exact isSpelled_string _ _
    · split
      · exact isSpelled_number _
      · cases h : symbol? (b :: rest) with
        | none => exact isSpelled_wordOrStray b rest
        | some l => exact isSpelled_symbol h

/-- The rest of a token pushes the tokens behind it back by its bytes. -/
theorem tokenRow_tokensFrom (position : Position) (pending : Nat) (input : List UInt8) :
    TokenRow (position.offset + min pending input.length) (tokensFrom position pending input) := by
  -- on the bytes: those pending belong to the token before, and start none
  induction input generalizing position pending with
  | nil => exact .last rfl (by simp [Span.point])
  | cons b rest ih =>
    unfold tokensFrom
    cases pending with
    | succ pending =>
      refine (ih (position.advance b) pending).mono ?_
      rw [Position.offset_advance, List.length_cons]
      omega
    | zero =>
      dsimp only
      split
      · -- a space is passed over; any other byte starts the next token
        refine (ih (position.advance b) 0).mono ?_
        rw [Position.offset_advance]
        omega
      · obtain ⟨hkind, hspelled⟩ := isSpelled_scan b rest
        have hstop : ((position.advance b).after (rest.take (scan b rest).more)).offset =
            position.offset + 1 + min (scan b rest).more rest.length := by
          rw [Position.offset_after, Position.offset_advance, List.length_take]
        refine .cons hkind hspelled (by rw [Nat.zero_min]; exact Nat.le_refl _) ?_
          ((ih _ _).mono ?_)
        · dsimp only
          omega
        · exact Nat.le_of_eq (by rw [hstop, Position.offset_advance])

/-- **What the lexer gives is a row.** -/
theorem tokenRow_tokens (source : List UInt8) : TokenRow 0 (tokens source) :=
  (tokenRow_tokensFrom .origin 0 source).mono (Nat.zero_le _)

end Lexer

end Enclave
