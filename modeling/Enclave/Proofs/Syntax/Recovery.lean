import Enclave.Proofs.Syntax.Progress
import Enclave.Proofs.Syntax.Tiling

/-!
# Going on after errors

Whatever the tokens are, reading a statement reads a token, so reading one statement after another
ends, and so does reading on behind errors (`Parser.Rounds`). As errors are about what has been read
since the statement began, up to the next token, none begins before an earlier one
(`Parser.Rounds.ordered`).

How deep constructs are nested is no part of a cursor: it is the room that a level has left
(`Level.atDepth`), given to each parser by the one around it. So there is no counter that a
statement given up in the middle could leave behind, and none to be put back. The next statement
outside all others begins at no depth because that is what it is given.
-/

namespace Enclave

/-- The parsers through which nesting goes, while so many of them are running. -/
def Level.atDepth (depth : Nat) : Level := .ofRoom (maxNesting - depth)

/-- At the limit they fail, below it they are run one deeper. -/
theorem Level.atDepth_eq (depth : Nat) :
    atDepth depth = if maxNesting ≤ depth then full else .over (atDepth (depth + 1)) := by
  unfold atDepth
  split
  · next h => rw [Nat.sub_eq_zero_of_le h, ofRoom]
  · next h =>
    rw [show maxNesting - depth = (maxNesting - (depth + 1)) + 1 by omega, ofRoom]

/-- The cursor with which reading a statement ends, in a statement or in an error. -/
def Parser.behind : EStateM.Result SyntaxError Cursor Stmt → Cursor
  | .ok _ c | .error _ c => c

namespace Parser

variable {c c' : Cursor} {s : Stmt} {e : SyntaxError} {tokens : List Token}

/-! ### Single statements -/

theorem nextStatement?_eq_some {r : EStateM.Result SyntaxError Cursor Stmt}
    (h : nextStatement? c = some r) : c.tokens ≠ [] ∧ topStatement c = r := by
  unfold nextStatement? at h
  split at h
  · cases h
  · cases h
  · -- a token is left, and it is not the end of input
    next t rest _ htokens =>
    refine ⟨by rw [htokens]; exact List.cons_ne_nil _ _, ?_⟩
    split at h
    · cases h
    · exact Option.some.inj h

/-- A statement is behind tokens. -/
theorem nextStatement?_ok (h : nextStatement? c = some (.ok s c')) : c'.Begun c.tokens := by
  obtain ⟨hne, htop⟩ := nextStatement?_eq_some h
  have hadvances := advances_topStatement (Cursor.along_self hne)
  unfold Advances at hadvances
  rw [htop] at hadvances
  exact hadvances.1.begun

/-- An error is behind tokens, and about them or the next one. -/
theorem nextStatement?_error (h : nextStatement? c = some (.error e c')) :
    c'.Begun c.tokens ∧ e.fault ≠ .stalled ∧
      e.span.IsCut (c'.readSince c.tokens ++ c'.tokens.take 1) := by
  obtain ⟨hne, htop⟩ := nextStatement?_eq_some h
  have hadvances := advances_topStatement (Cursor.along_self hne)
  unfold Advances at hadvances
  rw [htop] at hadvances
  exact hadvances

/-- Either way a token has been read. -/
theorem begun_behind {r : EStateM.Result SyntaxError Cursor Stmt}
    (h : nextStatement? c = some r) : (behind r).Begun c.tokens := by
  cases r with
  | ok s c' => exact nextStatement?_ok h
  | error e c' => exact (nextStatement?_error h).1

/-! ### One statement after another -/

/-- There are no more statements and errors than tokens. -/
theorem length_statements (limit : Nat) (c : Cursor) :
    (statements limit c).length ≤ c.tokens.length := by
  induction limit generalizing c with
  | zero => exact Nat.zero_le _
  | succ limit ih =>
    unfold statements
    split
    · exact Nat.zero_le _
    · next s c' h => exact (ih c').trans_lt (nextStatement?_ok h).less
    · next e c' h => exact (ih c').trans_lt (nextStatement?_error h).1.less

/-- Reading statements, with no bound but the end of the input, and on behind errors. -/
inductive Rounds : Cursor → List Stmt × List SyntaxError × Cursor → Prop
  | stop {c : Cursor} (next : nextStatement? c = none) : Rounds c ([], [], c)
  | statement {c c' c'' : Cursor} {s : Stmt} {body : List Stmt} {errors : List SyntaxError}
    (next : nextStatement? c = some (.ok s c')) (rest : Rounds c' (body, errors, c'')) :
    Rounds c (s :: body, errors, c'')
  | error {c c' c'' : Cursor} {e : SyntaxError} {body : List Stmt} {errors : List SyntaxError}
    (next : nextStatement? c = some (.error e c'))
    (rest : Rounds (recover c') (body, errors, c'')) : Rounds c (body, e :: errors, c'')

theorem suffix_synchronize (last : Span) (tokens : List Token) :
    (synchronize last tokens).1 <:+ tokens := by
  induction tokens generalizing last with
  | nil => exact List.suffix_refl _
  | cons t rest ih =>
    unfold synchronize
    split <;> first
      | exact List.suffix_refl _
      | exact List.suffix_cons t rest
      | exact (ih t.span).trans (List.suffix_cons t rest)

/-- Reading goes on at tokens ahead. -/
theorem suffix_recover (c : Cursor) : (recover c).tokens <:+ c.tokens :=
  suffix_synchronize c.last c.tokens

/-- Budgeted or not, the rounds are the same ones. -/
theorem rounds_readWithin {budget : List Token} (h : c.tokens.length ≤ budget.length) :
    Rounds c (readWithin budget c) := by
  -- each round leaves fewer tokens, so the budget lasts
  induction budget generalizing c with
  | nil =>
    have hnil : c.tokens = [] := List.eq_nil_of_length_eq_zero (Nat.le_zero.mp h)
    refine .stop ?_
    rw [nextStatement?, hnil]
    cases c.finished <;> rfl
  | cons t budget ih =>
    unfold readWithin
    split
    · next hnext => exact .stop hnext
    · next s c' hnext =>
      exact .statement hnext (ih (Nat.le_of_lt_succ ((nextStatement?_ok hnext).less.trans_le h)))
    · next e c' hnext =>
      have hless := (nextStatement?_error hnext).1.less
      exact .error hnext (ih (Nat.le_of_lt_succ
        (((suffix_recover c').length_le.trans_lt hless).trans_le h)))

/-! ### Errors in order -/

/-- Errors that are about tokens of a row, none before an earlier one. -/
structure Ordered (tokens : List Token) (errors : List SyntaxError) : Prop where
  cut : ∀ e ∈ errors, e.span.IsCut tokens
  sorted : errors.Pairwise fun e e' => e.span.start.offset ≤ e'.span.start.offset

/-- Of two tokens, one read or the next and the other ahead, the first does not begin behind the
second. -/
theorem start_le_start {t t' : Token} (hsuffix : c.tokens <:+ tokens)
    (hsorted : tokens.Pairwise fun t t' => t.span.start.offset ≤ t'.span.start.offset)
    (ht : t ∈ c.readSince tokens ++ c.tokens.take 1) (ht' : t' ∈ c.tokens) :
    t.span.start.offset ≤ t'.span.start.offset := by
  rw [← Cursor.readSince_append hsuffix, List.pairwise_append] at hsorted
  obtain ⟨-, hahead, hacross⟩ := hsorted
  -- a token read stands before those left; the next one is the first of them
  rcases List.mem_append.mp ht with ht | ht
  · exact hacross t ht t' ht'
  · cases htokens : c.tokens with
    | nil =>
      rw [htokens] at ht'
      cases ht'
    | cons next rest =>
      rw [htokens] at ht ht' hahead
      cases List.mem_singleton.mp ht
      rcases List.mem_cons.mp ht' with rfl | ht'
      · exact Nat.le_refl _
      · exact (List.pairwise_cons.mp hahead).1 t' ht'

theorem Rounds.ordered {r : List Stmt × List SyntaxError × Cursor} (h : Rounds c r)
    (hsorted : c.tokens.Pairwise fun t t' => t.span.start.offset ≤ t'.span.start.offset) :
    Ordered c.tokens r.2.1 := by
  -- each round goes on behind what it read, so the errors of later rounds lie further on
  induction h with
  | stop _ => exact ⟨fun e he => absurd he List.not_mem_nil, .nil⟩
  | statement next _ ih =>
    have hsuffix := (nextStatement?_ok next).suffix
    have hrest := ih (hsorted.sublist hsuffix.sublist)
    exact ⟨fun e he => (hrest.cut e he).mono hsuffix.subset, hrest.sorted⟩
  | @error c c' _ e _ _ next _ ih =>
    obtain ⟨hbegun, -, hcut⟩ := nextStatement?_error next
    have hsuffix := (suffix_recover c').trans hbegun.suffix
    have hrest := ih (hsorted.sublist hsuffix.sublist)
    have hsubset : c'.readSince c.tokens ++ c'.tokens.take 1 ⊆ c.tokens :=
      List.append_subset.mpr ⟨List.take_subset _ _,
        fun _ h => hbegun.suffix.subset (List.take_subset _ _ h)⟩
    refine ⟨fun e' he' => ?_, List.pairwise_cons.mpr ⟨fun e' he' => ?_, hrest.sorted⟩⟩
    · -- the error of this round, and those of the rounds behind it
      rcases List.mem_cons.mp he' with rfl | he'
      · exact hcut.mono hsubset
      · exact (hrest.cut e' he').mono hsuffix.subset
    · obtain ⟨t, ht, hstart⟩ := hcut.start
      obtain ⟨t', ht', hstart'⟩ := (hrest.cut e' he').start
      rw [← hstart, ← hstart']
      exact start_le_start hbegun.suffix hsorted ht ((suffix_recover c').subset ht')

end Parser

/-- The errors in a source are ordered. -/
theorem Program.read_error {source : List UInt8} {errors : List SyntaxError}
    (h : read source = .error errors) : Parser.Ordered (Lexer.tokens source) errors := by
  have hrow := (Lexer.tokenRow_tokens source).withoutComments
  have hordered := (Parser.rounds_readWithin (c := .ofTokens (Lexer.tokens source))
    (Nat.le_refl _)).ordered hrow.sorted
  unfold read ofTokens at h
  dsimp only at h
  -- A source that is read has no errors.
  split at h
  · cases h
  · cases h
    exact ⟨fun e he => (hordered.cut e he).mono (List.filter_subset_self _), hordered.sorted⟩

/-- **Reading goes on after errors and comes to an end.** From any tokens, what gives a statement or
an error reads a token, and no loop in it stands still; so there are no more statements and errors
than tokens. It starts at no depth: a cursor carries no counter of the nesting that a statement
before could have left over, but each construct gives those within it one level less, and none is
read at the limit. Going on behind errors comes to an end as well, of itself and not
because of the budget. The errors in a source are in order, and lie within it. -/
theorem reading_ends :
    (∀ (c : Cursor) (r : EStateM.Result SyntaxError Cursor Stmt), Parser.nextStatement? c = some r →
      r = Parser.statement (Level.atDepth 0) c ∧
      (∃ read, read ≠ [] ∧ c.tokens = read ++ (Parser.behind r).tokens) ∧
      ∀ e c', r = .error e c' → e.fault ≠ .stalled) ∧
    (∀ depth, Level.atDepth depth =
      if maxNesting ≤ depth then .full else .over (Level.atDepth (depth + 1))) ∧
    (∀ (limit : Nat) (tokens : List Token),
      (Parser.statements limit (Cursor.ofTokens tokens)).length ≤ tokens.length) ∧
    (∀ tokens : List Token, Parser.Rounds (Cursor.ofTokens tokens)
      (Parser.readWithin (Cursor.ofTokens tokens).tokens (Cursor.ofTokens tokens))) ∧
    ∀ (source : List UInt8) (errors : List SyntaxError), Program.read source = .error errors →
      errors.Pairwise (fun e e' => e.span.start.offset ≤ e'.span.start.offset) ∧
      ∀ e ∈ errors, e.span.start.offset ≤ source.length ∧ e.span.stop.offset ≤ source.length := by
  refine ⟨fun c r h => ⟨?_, ?_, ?_⟩, Level.atDepth_eq, fun limit tokens => ?_, fun tokens => ?_,
    fun source errors h => ?_⟩
  · exact (Parser.nextStatement?_eq_some h).2.symm
  · -- the tokens left are fewer, so some were read
    obtain ⟨hsuffix, hless, -⟩ := Parser.begun_behind h
    obtain ⟨read, hread⟩ := hsuffix
    refine ⟨read, fun hnil => ?_, hread.symm⟩
    rw [← hread, hnil] at hless
    exact Nat.lt_irrefl _ hless
  · rintro e c' rfl
    exact (Parser.nextStatement?_error h).2.1
  · exact (Parser.length_statements limit _).trans (List.length_filter_le _ _)
  · exact Parser.rounds_readWithin (Nat.le_refl _)
  · -- an error is at tokens, and those are within the source
    obtain ⟨hcut, hsorted⟩ := Program.read_error h
    refine ⟨hsorted, fun e he => ?_⟩
    obtain ⟨⟨t, ht, hstart⟩, t', ht', hstop⟩ := hcut e he
    have htiling := Lexer.tiling_tokens source
    rw [← hstart, ← hstop]
    exact ⟨(htiling.reaches ht).1.of_origin.1, (htiling.reaches ht').2.of_origin.1⟩

end Enclave
