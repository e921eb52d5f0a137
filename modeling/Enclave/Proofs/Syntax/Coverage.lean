import Enclave.Proofs.Syntax.Regions

/-!
# Programs and their sources

What the statements of a program have to do with the tokens of its source (`Covers`): the statements
follow one another, each token belongs to one of them, and every node stands where it should. A
reading without errors gives statements that cover the tokens ahead (`Parser.covers_readWithin`),
since each statement takes all tokens from where it begins up to where the next one does, and it
ends only at the end of the input. So it is for whole programs (`Program.covers_read`).
-/

namespace Enclave

variable {all : List Token} {c c' : Cursor}

/-- Some tokens are those of a program's statements, one statement behind the other from `lo` on. -/
structure Covers (all : List Token) (lo : Nat) (tokens : List Token) (body : List Stmt) :
    Prop where
  plain : ∀ t ∈ tokens, t.kind ≠ .endOfInput → t.kind.isPlain = true
  ordered : body.Pairwise fun s s' => s.span.stop.offset ≤ s'.span.start.offset
  within : ∀ s ∈ body, lo ≤ s.span.start.offset ∧
    (SyntaxNode.stmt s).Everywhere (SyntaxNode.IsRead all)
  covered : ∀ t ∈ tokens, t.kind ≠ .endOfInput → ∃ s ∈ body, s.span.Encloses t.span

/-- The tokens ahead of one of two cursors in a row are the last of those ahead of the other. -/
theorem Cursor.Past.length_lt (hc : c.Stands all) (hc' : c'.Past all c.here) :
    c'.tokens.length < c.tokens.length := by
  obtain ⟨rest, htokens⟩ := hc.tokens_eq
  obtain ⟨read, hall, -⟩ := hc.split
  obtain ⟨read', hall', -⟩ := hc'.split
  by_contra hge
  have hsuffix : c.tokens <:+ c'.tokens :=
    List.suffix_of_suffix_length_le ⟨read, hall.symm⟩ ⟨read', hall'.symm⟩ (not_lt.mp hge)
  have hmem : c.nextToken ∈ c'.tokens :=
    hsuffix.mem (htokens ▸ List.mem_cons_self)
  -- the next token of `c` would stand behind a token that stands behind it
  have hstart : c'.last.stop.offset ≤ c.here := hc'.row.le_start hmem
  have hlast := hc'.le_last
  have hsize := hc'.size
  omega

namespace Parser

theorem nextStatement?_of_stands (hc : c.Stands all) :
    nextStatement? c = if c.nextToken.isEndOfInput then none else some (topStatement c) := by
  obtain ⟨rest, htokens⟩ := hc.tokens_eq
  rw [nextStatement?, hc.finished, htokens]

section Statement

variable {s : Stmt} (hc : c.Stands all) (hread : c'.HasRead all c.here [.stmt s])
  (hspan : s.span = c.nextToken.span.merge c'.last)

include hc hread hspan

/-- What stands in front of a statement is behind it, or it is enclosed by the statement. -/
theorem mem_or_enclosed {t : Token} (ht : t ∈ c.tokens) :
    t ∈ c'.tokens ∨ t.kind.isPlain = true ∧ s.span.Encloses t.span := by
  have hstart : s.span.start.offset = c.here := by
    rw [hspan, Span.start_merge hread.le_last, Cursor.here]
  have hlast : c'.last.stop.offset ≤ s.span.stop.offset := by
    rw [hspan, Span.merge]
    dsimp only
    split
    · assumption
    · exact Nat.le_refl _
  -- what was read for the statement, and what is left
  obtain ⟨read, hall, -⟩ := hc.split
  obtain ⟨read', hall', hread'⟩ := hread.split
  have hmem : t ∈ read' ++ c'.tokens := hall' ▸ hall ▸ List.mem_append_right _ ht
  rcases List.mem_append.mp hmem with hmem | hmem
  · -- it starts no earlier than the first token of the statement
    refine .inr ⟨(hread' t hmem).1, ?_, (hread' t hmem).2.trans hlast⟩
    obtain ⟨rest, hrest⟩ := hc.tokens_eq
    have hrow := hc.row
    rw [hrest] at ht hrow
    rw [hstart]
    rcases List.mem_cons.mp ht with rfl | ht
    · exact Nat.le_refl _
    · cases hrow with
      | last => cases ht
      | cons _ _ _ hsize hrow => exact hsize.le.trans (hrow.le_start ht)
  · -- or it is left for the next one
    exact .inl hmem

/-- A statement and what covers the tokens behind it. -/
theorem covers_cons {body : List Stmt} (hrest : Covers all c'.here c'.tokens body) :
    Covers all c.here c.tokens (s :: body) := by
  obtain ⟨hs, hle, -, hstop⟩ := hread.nodes _ List.mem_cons_self
  change s.span.stop.offset ≤ c'.last.stop.offset at hstop
  -- the statements that follow start no earlier than this one stops
  have hhere := hread.last_le_here
  refine ⟨fun t ht hkind => ?plain, List.pairwise_cons.mpr ⟨fun s' hs' => ?apart, hrest.ordered⟩,
    fun s' hs' => ?within, fun t ht hkind => ?covered⟩
  case plain =>
    -- a token is one of those left behind the statement, or lies within it
    rcases mem_or_enclosed hc hread hspan ht with ht | ht
    · exact hrest.plain t ht hkind
    · exact ht.1
  case apart =>
    have hle' := (hrest.within s' hs').1
    omega
  case within =>
    rcases List.mem_cons.mp hs' with rfl | hs'
    · exact ⟨hle, hs⟩
    · obtain ⟨hle', hs'⟩ := hrest.within s' hs'
      have hbehind := hread.le_last
      have hsize := hread.size
      exact ⟨by omega, hs'⟩
  case covered =>
    rcases mem_or_enclosed hc hread hspan ht with ht | ht
    · obtain ⟨s', hs', henc⟩ := hrest.covered t ht hkind
      exact ⟨s', List.mem_cons_of_mem _ hs', henc⟩
    · exact ⟨s, List.mem_cons_self, ht.2⟩

end Statement

theorem covers_readWithin {budget : List Token} {body : List Stmt} (hc : c.Stands all)
    (hbudget : c.tokens.length ≤ budget.length) (h : readWithin budget c = (body, [], c')) :
    Covers all c.here c.tokens body := by
  induction budget generalizing c body with
  | nil =>
    obtain ⟨rest, htokens⟩ := hc.tokens_eq
    rw [htokens] at hbudget
    cases hbudget
  | cons t budget ih =>
    rw [readWithin, nextStatement?_of_stands hc] at h
    by_cases hend : c.nextToken.isEndOfInput = true
    · -- only the end of the input is left
      rw [if_pos hend] at h
      have hbody : [] = body := congrArg Prod.fst h
      subst hbody
      obtain ⟨rest, htokens⟩ := hc.tokens_eq
      have hkind : c.nextToken.kind = .endOfInput := of_decide_eq_true hend
      have hrow := hc.row
      rw [htokens] at hrow
      cases hrow.eq_singleton hkind
      have honly : ∀ t ∈ c.tokens, t.kind = .endOfInput := by
        intro t ht
        rw [htokens] at ht
        cases List.mem_singleton.mp ht
        exact hkind
      exact ⟨fun t ht hnot => absurd (honly t ht) hnot, .nil, nofun,
        fun t ht hnot => absurd (honly t ht) hnot⟩
    · rw [if_neg hend] at h
      cases hstatement : topStatement c with
      | ok s c₁ =>
        rw [hstatement] at h
        -- the statement read covers what it took, and the rest covers the rest
        obtain ⟨hread, hspan⟩ := (finds_topStatement hc).of_ok hstatement
        rcases hrest : readWithin budget c₁ with ⟨body', errors, c₂⟩
        dsimp only at h
        rw [hrest] at h
        cases h
        have hlength := hread.toPast.length_lt hc
        exact covers_cons hc hread hspan
          (ih hread.toStands (Nat.le_of_lt_succ (hlength.trans_le hbudget)) hrest)
      | error e c₁ =>
        rw [hstatement] at h
        cases h

end Parser

/-! ### Whole programs -/

theorem Cursor.stands_ofTokens {tokens : List Token} (h : TokenRow 0 tokens) :
    (Cursor.ofTokens tokens).Stands (tokens.filter (!·.isComment)) :=
  ⟨⟨[], rfl, nofun⟩, h.withoutComments, rfl⟩

/-- A program that was read without errors covers the tokens of its source but the comments. -/
theorem Program.covers_read {source : List UInt8} {p : Program}
    (h : Program.read source = .ok p) :
    ∃ lo, Covers ((Lexer.tokens source).filter (!·.isComment)) lo
      ((Lexer.tokens source).filter (!·.isComment)) p.body := by
  unfold Program.read Program.ofTokens at h
  have hstands := Cursor.stands_ofTokens (Lexer.tokenRow_tokens source)
  rcases hread : Parser.readWithin (Cursor.ofTokens (Lexer.tokens source)).tokens
    (Cursor.ofTokens (Lexer.tokens source)) with ⟨body, errors, c⟩
  dsimp only at h
  rw [hread] at h
  dsimp only at h
  split at h
  · -- a program is read only when no statement is malformed
    next hempty =>
    cases List.isEmpty_iff.mp hempty
    cases h
    exact ⟨_, Parser.covers_readWithin hstands (Nat.le_refl _) hread⟩
  · cases h

/-- **No token is lost, and regions nest.** The source of a program that was read without errors has
no malformed token; the regions of its statements follow one another, and each of its tokens but the
comments and the end of the input lies in the region of exactly one; every node below begins and
ends with tokens of the source, and its region encloses those of its children. -/
theorem Program.regions_nest {source : List UInt8} {p : Program} (h : Program.read source = .ok p) :
    (∀ t ∈ Lexer.tokens source, ∀ e, t.kind ≠ .malformed e) ∧
    p.body.Pairwise (fun s s' => s.span.stop.offset ≤ s'.span.start.offset) ∧
    (∀ t ∈ Lexer.tokens source, t.isComment = false → t.isEndOfInput = false →
      ∃! i : Nat, ∃ s, p.body[i]? = some s ∧ s.span.Encloses t.span) ∧
    ∀ s ∈ p.body, (SyntaxNode.stmt s).Everywhere fun n =>
      n.span.IsCut (Lexer.tokens source) ∧ ∀ k ∈ n.children, n.span.Encloses k.span := by
  obtain ⟨lo, hplain, hordered, hwithin, hcovered⟩ := Program.covers_read h
  have hmem : ∀ t ∈ Lexer.tokens source, t.isComment = false →
      t ∈ (Lexer.tokens source).filter (!·.isComment) := fun t ht hcomment =>
    List.mem_filter.mpr ⟨ht, by rw [hcomment]; rfl⟩
  have hsource : ∀ t ∈ (Lexer.tokens source).filter (!·.isComment), t ∈ Lexer.tokens source :=
    fun t ht => (List.mem_filter.mp ht).1
  refine ⟨fun t ht e hkind => ?_, hordered, fun t ht hcomment hend => ?_, fun s hs => ?_⟩
  · -- a malformed token would be plain, which no malformed token is
    have hisPlain := hplain t
      (hmem t ht (by rw [Token.isComment, hkind]; rfl)) (by rw [hkind]; exact TokenKind.noConfusion)
    rw [hkind] at hisPlain
    cases hisPlain
  · have hkind : t.kind ≠ .endOfInput := of_decide_eq_false hend
    have hsize := (Lexer.tokenRow_tokens source).size_of_mem ht hkind
    obtain ⟨s, hs, henc⟩ := hcovered t (hmem t ht hcomment) hkind
    obtain ⟨i, hi⟩ := List.mem_iff_getElem?.mp hs
    refine ⟨i, ⟨s, hi, henc⟩, ?_⟩
    rintro j ⟨s', hj, henc'⟩
    -- of two statements the earlier one ends before the later one begins
    have hbefore : ∀ {i j : Nat} {s s' : Stmt}, p.body[i]? = some s → p.body[j]? = some s' →
        s.span.Encloses t.span → s'.span.Encloses t.span → ¬ i < j := by
      rintro i j s s' hi hj ⟨-, hstop⟩ ⟨hstart, -⟩ hlt
      obtain ⟨hi', rfl⟩ := List.getElem?_eq_some_iff.mp hi
      obtain ⟨hj', rfl⟩ := List.getElem?_eq_some_iff.mp hj
      have hle := List.pairwise_iff_getElem.mp hordered i j hi' hj' hlt
      omega
    have h₁ := hbefore hi hj henc henc'
    have h₂ := hbefore hj hi henc' henc
    omega
  · -- the cuts of a region are at tokens of the source, comments or not
    refine (hwithin s hs).2.imp fun n hn => ⟨⟨?_, ?_⟩, hn.encloses⟩
    · obtain ⟨t, ht, hstart⟩ := hn.cut.start
      exact ⟨t, hsource t ht, hstart⟩
    · obtain ⟨t, ht, hstop⟩ := hn.cut.stop
      exact ⟨t, hsource t ht, hstop⟩

/-- A class and a call behind a comment. -/
def smallSource : List UInt8 :=
  "class A \x7b private x = (1); \x7d /* a */ f(new A(), );".toUTF8.toList

theorem Program.regions_nest_smallSource : ∃ p, Program.read smallSource = .ok p ∧
    p.body.length = 2 ∧ ∀ t ∈ Lexer.tokens smallSource, t.isComment = false →
      t.isEndOfInput = false → ∃! i : Nat, ∃ s, p.body[i]? = some s ∧ s.span.Encloses t.span := by
  -- Evaluated once, for the number of statements.
  have hread : (Program.read smallSource).toOption.map (·.body.length) = some 2 := by
    decide +kernel
  obtain ⟨p, hp, hlength⟩ := Option.map_eq_some_iff.mp hread
  have hok : Program.read smallSource = .ok p := by
    cases h : Program.read smallSource with
    | ok p' =>
      rw [h] at hp
      cases hp
      rfl
    | error errors =>
      rw [h] at hp
      cases hp
  exact ⟨p, hok, hlength, (Program.regions_nest hok).2.2.1⟩

end Enclave
