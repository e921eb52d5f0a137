import Enclave.Proofs.Syntax.Complaints

/-!
# Malformed tokens in a source

The errors in a source are those of its statements, one after the other, so each of them is told in
the right words (`Parser.Rounds.isTold`). As no two tokens begin at one place, an error that stands
at a malformed token is about that token: it repeats what the token says
(`Program.read_malformed`), and only behind an accessor it does not.
-/

namespace Enclave

namespace TokenRow

variable {lo : Nat} {tokens base : List Token} {t t' : Token}

/-- Behind some tokens of a row there is a row, unless there is nothing. -/
theorem of_suffix (h : TokenRow lo base) (hsuffix : tokens <:+ base) (hne : tokens ≠ []) :
    ∃ lo', TokenRow lo' tokens := by
  -- Along the row, until the suffix begins.
  induction h with
  | last kind behind =>
    rcases List.suffix_cons_iff.mp hsuffix with rfl | hnil
    · exact ⟨_, .last kind behind⟩
    · exact absurd (List.suffix_nil.mp hnil) hne
  | cons kind spelled behind size row ih =>
    rcases List.suffix_cons_iff.mp hsuffix with rfl | hrest
    · exact ⟨_, .cons kind spelled behind size row⟩
    · exact ih hrest

/-- The end of the input is in every row. -/
theorem ends (h : TokenRow lo base) : ∃ t ∈ base, t.kind = .endOfInput := by
  induction h with
  | last kind behind => exact ⟨_, List.mem_singleton_self _, kind⟩
  | cons kind spelled behind size row ih =>
    obtain ⟨t, ht, hend⟩ := ih
    exact ⟨t, List.mem_cons_of_mem _ ht, hend⟩

/-- No two tokens begin at one place. -/
theorem eq_of_start (h : TokenRow lo base) (ht : t ∈ base) (ht' : t' ∈ base)
    (hstart : t.span.start = t'.span.start) : t = t' := by
  induction h with
  | last kind behind =>
    rw [List.mem_singleton.mp ht, List.mem_singleton.mp ht']
  | cons kind spelled behind size row ih =>
    -- A token behind another begins behind it, so two with one start are in one place.
    rcases List.mem_cons.mp ht with hhead | ht <;> rcases List.mem_cons.mp ht' with hhead' | ht'
    · exact hhead.trans hhead'.symm
    · exact absurd (row.le_start ht') (by rw [← hstart, hhead]; omega)
    · exact absurd (row.le_start ht) (by rw [hstart, hhead']; omega)
    · exact ih ht ht'

end TokenRow

/-- What begins with a text begins with its first letter. -/
theorem Text.head?_append {a b : String} {c : Char} (h : a.toList.head? = some c) :
    (a ++ b).toList.head? = some c := by
  rw [String.toList_append, List.head?_append, h, Option.some_or]

/-- No malformed token complains as an accessor without a member does, by the first letter. -/
theorem SyntaxFault.message_accessorAlone_ne (keyword : String) (found : TokenKind)
    (lexical : LexicalError) : (accessorAlone keyword found).message ≠ lexical.message := by
  -- The messages differ in their first letters.
  have hfirst : (accessorAlone keyword found).message.toList.head? = some 'e' := by
    have hword : "expected `.` or `[` after `".toList.head? = some 'e' := by decide +kernel
    exact Text.head?_append (Text.head?_append (Text.head?_append hword))
  have hother : lexical.message.toList.head? ≠ some 'e' := by
    cases lexical with
    | unexpectedCharacter c =>
      have hword : "unexpected character: ".toList.head? = some 'u' := by decide +kernel
      exact fun h => absurd ((Text.head?_append hword).symm.trans h) (by decide)
    | _ => decide +kernel
  exact fun h => hother (h ▸ hfirst)

namespace Parser

/-- Every statement that is not one is complained of in the right words, and reading on behind it
too. -/
theorem Rounds.isTold {lo : Nat} {base : List Token} {c : Cursor}
    {r : List Stmt × List SyntaxError × Cursor} (h : Rounds c r) (hrow : TokenRow lo base)
    (hsuffix : c.tokens <:+ base) : ∀ e ∈ r.2.1, e.fault ≠ .stalled ∧ e.IsTold base := by
  induction h with
  | stop _ => exact fun e he => absurd he List.not_mem_nil
  | statement next _ ih => exact ih ((nextStatement?_ok next).suffix.trans hsuffix)
  -- the error of this round is told of the tokens ahead; recovery leaves fewer of them
  | @error c c' _ e _ _ next _ ih =>
    obtain ⟨hne, htop⟩ := nextStatement?_eq_some next
    obtain ⟨hbegun, hstalled, -⟩ := nextStatement?_error next
    obtain ⟨lo', hahead⟩ := hrow.of_suffix hsuffix hne
    have hreports := reports_topStatement ⟨hsuffix, hahead.ends⟩
    unfold Reports at hreports
    rw [htop] at hreports
    intro e' he'
    rcases List.mem_cons.mp he' with rfl | he'
    · exact ⟨hstalled, hreports⟩
    · exact ih ((suffix_recover c').trans (hbegun.suffix.trans hsuffix)) e' he'

end Parser

namespace Program

variable {source : List UInt8} {errors : List SyntaxError} {e : SyntaxError} {t : Token}
  {lexical : LexicalError}

theorem read_isTold (h : read source = .error errors) (he : e ∈ errors) :
    e.fault ≠ .stalled ∧ e.IsTold ((Lexer.tokens source).filter (!·.isComment)) := by
  have hrow := (Lexer.tokenRow_tokens source).withoutComments
  have htold := (Parser.rounds_readWithin (c := .ofTokens (Lexer.tokens source))
    (Nat.le_refl _)).isTold hrow (List.suffix_refl _)
  unfold read ofTokens at h
  dsimp only at h
  -- A source that is read has no errors to tell.
  split at h
  · cases h
  · cases h
    exact htold e he

/-- The errors that reading finds, computed. -/
theorem read_eq_error (h : (match read source with
    | .error errors => some errors
    | .ok _ => none) = some errors) : read source = .error errors := by
  cases hread : read source with
  | ok p =>
    rw [hread] at h
    cases h
  | error errors' =>
    rw [hread] at h
    cases h
    rfl

/-- **Malformed tokens speak for themselves.** An error that stands at a malformed token, and is not
about the depth of nesting, has the words of that token, but for one that complains of an accessor
without a member, which never has them. Such a one is told only where the token in front, comments
left out, may end an accessor. -/
theorem read_malformed (h : read source = .error errors) (he : e ∈ errors)
    (hdepth : e.fault ≠ .nestedTooDeeply) (ht : t ∈ Lexer.tokens source)
    (hkind : t.kind = .malformed lexical) (hspan : e.span = t.span) :
    (e.fault.message = lexical.message ↔ ∀ keyword, e.fault ≠ .accessorAlone keyword t.kind) ∧
    ∀ keyword, e.fault = .accessorAlone keyword t.kind →
      ∃ before, before.kind.endsAccessor = true ∧
        [before, t] <:+: (Lexer.tokens source).filter (!·.isComment) := by
  have hrow := (Lexer.tokenRow_tokens source).withoutComments
  have hmem : t ∈ (Lexer.tokens source).filter (!·.isComment) :=
    List.mem_filter.mpr ⟨ht, by simp [Token.isComment, hkind, TokenKind.isComment]⟩
  -- the token that the error is about is the one that it stands at
  have hsame : ∀ t' ∈ (Lexer.tokens source).filter (!·.isComment),
      t'.span.start = e.span.start → t' = t := fun t' ht' hstart =>
    hrow.eq_of_start ht' hmem (hstart.trans (congrArg Span.start hspan))
  obtain ⟨hstalled, htold⟩ := read_isTold h he
  cases htold with
  | limit fault => exact absurd fault (not_or.mpr ⟨hdepth, hstalled⟩)
  | elsewhere mem start kind => exact absurd (hsame _ mem start ▸ hkind) (kind lexical)
  | @lexical t' lexical' mem start kind fault =>
    cases hsame t' mem start
    cases hkind.symm.trans kind
    refine ⟨⟨fun _ keyword h => ?_, fun _ => by rw [fault]; rfl⟩, fun keyword h => ?_⟩ <;>
      cases fault.symm.trans h
  | @accessorAlone before t' keyword row kind start fault =>
    cases hsame t' (row.subset (List.mem_cons_of_mem _ (List.mem_singleton_self _))) start
    refine ⟨⟨fun h => ?_, fun h => absurd fault (h keyword)⟩, fun _ _ => ⟨before, kind, row⟩⟩
    rw [fault] at h
    exact absurd h (SyntaxFault.message_accessorAlone_ne _ _ _)

/-- A character of no token in the place of an expression. -/
theorem read_malformed_stray :
    let e : SyntaxError := ⟨.lexical (.unexpectedCharacter '@'), ⟨⟨4, 1, 5⟩, ⟨5, 1, 6⟩⟩⟩
    read (Text.utf8 "x = @;") = .error [e] ∧
      e.fault.message = (LexicalError.unexpectedCharacter '@').message := by
  intro e
  have h : read (Text.utf8 "x = @;") = .error [e] := read_eq_error (by decide +kernel)
  have ht : ⟨.malformed (.unexpectedCharacter '@'), e.span, "@"⟩ ∈
      Lexer.tokens (Text.utf8 "x = @;") := by decide +kernel
  exact ⟨h, (read_malformed h (List.mem_singleton_self e) nofun ht rfl rfl).1.mpr nofun⟩

/-- **Behind an accessor** a malformed token is said to have been found, and not what it is. -/
theorem not_lexical_of_accessor : ¬∀ source errors e t lexical, read source = .error errors →
    e ∈ errors → e.fault ≠ .nestedTooDeeply → t ∈ Lexer.tokens source →
      t.kind = .malformed lexical → e.span = t.span → e.fault.message = lexical.message := by
  intro hall
  let e : SyntaxError := ⟨.accessorAlone "private" (.malformed (.unexpectedCharacter '@')),
    ⟨⟨8, 1, 9⟩, ⟨9, 1, 10⟩⟩⟩
  have h : read (Text.utf8 "private @;") = .error [e] := read_eq_error (by decide +kernel)
  have ht : ⟨.malformed (.unexpectedCharacter '@'), e.span, "@"⟩ ∈
      Lexer.tokens (Text.utf8 "private @;") := by decide +kernel
  have hmessage := hall _ _ e _ _ h (List.mem_singleton_self e) nofun ht rfl rfl
  exact SyntaxFault.message_accessorAlone_ne _ _ _ hmessage

end Program

end Enclave
