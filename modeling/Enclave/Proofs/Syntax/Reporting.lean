import Enclave.Proofs.Syntax.Advancing

/-!
# Complaints about malformed tokens

A malformed token says itself what is wrong with it, so whoever stumbles over one should repeat its
words, and not complain that something else was expected. What is shown here of a parser
(`Parser.Reports`) is that it reads plain tokens only, up to a value or up to a complaint, and that
a complaint about a malformed token is that token's own (`SyntaxError.IsTold`). There is one place
where it is not: behind an accessor without a member the next token is complained of whatever it is.

All tokens there are make up the row `base`, and the end of the input is among those ahead: no
parser reads it, except to complain of it.
-/

namespace Enclave

/-- Whether an accessor may end with a token. -/
def TokenKind.endsAccessor : TokenKind → Bool
  | .keyword .kwPrivate | .keyword .kwStatic | .mark .rightParen => true
  | _ => false

/-- Such a token is part of a program. -/
theorem TokenKind.isPlain_of_endsAccessor {kind : TokenKind} (h : kind.endsAccessor = true) :
    kind.isPlain = true := by
  unfold endsAccessor at h
  split at h
  · rfl
  · rfl
  · rfl
  · cases h

/-- A region that begins with a plain token. -/
def Span.BeginsPlain (base : List Token) (s : Span) : Prop :=
  ∃ t ∈ base, t.kind.isPlain = true ∧ t.span.start = s.start

/-- Where a complaint is about a malformed token, it is that token's own, unless the member of an
accessor is missing there. The limits of reading may be met with anywhere. -/
inductive SyntaxError.IsTold (base : List Token) (e : SyntaxError) : Prop
  | limit (fault : e.fault = .nestedTooDeeply ∨ e.fault = .stalled)
  | elsewhere {t : Token} (mem : t ∈ base) (start : t.span.start = e.span.start)
    (kind : ∀ lexical, t.kind ≠ .malformed lexical)
  | lexical {t : Token} {lexical : LexicalError} (mem : t ∈ base)
    (start : t.span.start = e.span.start) (kind : t.kind = .malformed lexical)
    (fault : e.fault = .lexical lexical)
  | accessorAlone {before t : Token} {keyword : String} (row : [before, t] <:+: base)
    (kind : before.kind.endsAccessor = true) (start : t.span.start = e.span.start)
    (fault : e.fault = .accessorAlone keyword t.kind)

variable {base : List Token}

/-- A region that begins at a plain token still does when it is extended. -/
theorem Span.BeginsPlain.merge {a b : Span} (ha : a.BeginsPlain base) (hb : b.BeginsPlain base) :
    (a.merge b).BeginsPlain base := by
  unfold BeginsPlain Span.merge
  dsimp only
  split
  · exact ha
  · exact hb

/-- What begins with a plain token is not about a malformed one. -/
theorem Span.BeginsPlain.isTold {span : Span} (h : span.BeginsPlain base) (fault : SyntaxFault) :
    SyntaxError.IsTold base ⟨fault, span⟩ := by
  obtain ⟨t, ht, hplain, hstart⟩ := h
  refine .elsewhere ht hstart fun lexical hkind => ?_
  rw [hkind] at hplain
  cases hplain

namespace Cursor

/-- Tokens of `base` are ahead, the end of the input among them. -/
structure Within (base : List Token) (c : Cursor) : Prop where
  suffix : c.tokens <:+ base
  ends : ∃ t ∈ c.tokens, t.kind = .endOfInput

/-- Besides, the last token read is of one of these kinds. -/
structure Follows (base : List Token) (kinds : TokenKind → Bool) (c : Cursor) : Prop
    extends c.Within base where
  read : ∃ t, t :: c.tokens <:+ base ∧ kinds t.kind = true ∧ t.span = c.last

variable {c c' : Cursor} {kinds kinds' : TokenKind → Bool} {k : TokenKind}

/-- Within the tokens, a next token is there. -/
theorem Within.tokens_eq (h : c.Within base) : c.tokens = c.nextToken :: c.behind.tokens := by
  obtain ⟨t, ht, -⟩ := h.ends
  exact Cursor.tokens_eq (List.ne_nil_of_mem ht)

/-- The next token is one of the tokens. -/
theorem Within.next_mem (h : c.Within base) : c.nextToken ∈ base :=
  h.suffix.subset (h.tokens_eq ▸ List.mem_cons_self)

/-- The region of a next token of a plain kind begins at a plain token. -/
theorem Within.beginsPlain (h : c.Within base) (hkind : c.kind = k) (hk : k.isPlain = true) :
    c.nextToken.span.BeginsPlain base := by
  subst hkind
  exact ⟨c.nextToken, h.next_mem, hk, rfl⟩

/-- The end of the input stays ahead when another token is read. -/
theorem Within.behind (h : c.Within base) (hkind : c.kind = k) (hk : k ≠ .endOfInput)
    (hkinds : kinds k = true) : c.behind.Follows base kinds := by
  subst hkind
  have hsuffix : c.nextToken :: c.behind.tokens <:+ base := h.tokens_eq ▸ h.suffix
  obtain ⟨t, ht, hend⟩ := h.ends
  rw [h.tokens_eq] at ht
  -- the end of the input is not the token that is read
  have hrest : t ∈ c.behind.tokens := by
    rcases List.mem_cons.mp ht with rfl | ht
    · exact absurd hend hk
    · exact ht
  exact ⟨⟨(List.suffix_cons _ _).trans hsuffix, t, hrest, hend⟩,
    c.nextToken, hsuffix, hkinds, (last_behind c).symm⟩

/-- A weaker condition on the token before. -/
theorem Follows.mono (h : c.Follows base kinds)
    (himp : ∀ kind, kinds kind = true → kinds' kind = true) : c.Follows base kinds' := by
  obtain ⟨t, ht, hkind, hlast⟩ := h.read
  exact ⟨h.toWithin, t, ht, himp _ hkind, hlast⟩

/-- Behind a plain token, the region read last begins at one. -/
theorem Follows.last (h : c.Follows base TokenKind.isPlain) : c.last.BeginsPlain base := by
  obtain ⟨t, ht, hkind, hlast⟩ := h.read
  exact ⟨t, ht.subset List.mem_cons_self, hkind, congrArg Span.start hlast⟩

/-- A cursor that has not moved follows the same token. -/
theorem Follows.stays (h : c.Follows base kinds) (hstays : c.Stays c') :
    c'.Follows base kinds := by
  obtain ⟨htokens, hlast, -⟩ := hstays
  exact ⟨⟨htokens ▸ h.suffix, htokens ▸ h.ends⟩, by rw [htokens, hlast]; exact h.read⟩

end Cursor

namespace Parser

variable {α β : Type} {c c' : Cursor} {Q : β → Cursor → Prop} {k : TokenKind}

/-! ### Outcomes -/

/-- From the cursor the parser reads plain tokens up to a value with a property, or it complains in
the right words. -/
def Reports (base : List Token) (p : Parser α) (c : Cursor) (Q : α → Cursor → Prop) : Prop :=
  match p c with
  | .ok a c' => c'.Follows base TokenKind.isPlain ∧ Q a c'
  | .error e _ => e.IsTold base

/-- A result at hand complains of nothing. -/
theorem Reports.pure {b : β} (hc : c.Follows base TokenKind.isPlain) (h : Q b c) :
    Reports base (Pure.pure b) c Q :=
  ⟨hc, h⟩

/-- A failure complains in the right words when its error is told. -/
theorem Reports.fail {fault : SyntaxFault} {span : Span}
    (h : SyntaxError.IsTold base ⟨fault, span⟩) :
    Reports base (Parser.fail fault span : Parser β) c Q :=
  h

/-- In sequence: the rest starts behind a plain token. -/
theorem Reports.bind {p : Parser α} {f : α → Parser β} {m : α → Cursor → Prop}
    (hp : Reports base p c m)
    (hf : ∀ a c', c'.Follows base TokenKind.isPlain → m a c' → Reports base (f a) c' Q) :
    Reports base (p >>= f) c Q := by
  unfold Reports at hp ⊢
  rw [bind_eq]
  -- Either the first parser's error is that of the whole, or the rest is run from where it stopped.
  cases h : p c with
  | ok a c₁ =>
    rw [h] at hp
    exact hf a c₁ hp.1 hp.2
  | error e c₁ =>
    rw [h] at hp
    exact hp

/-- The postcondition may be weakened. -/
theorem Reports.imp {p : Parser β} {Q' : β → Cursor → Prop} (h : Reports base p c Q)
    (himp : ∀ b c', Q b c' → Q' b c') : Reports base p c Q' := by
  unfold Reports at h ⊢
  cases hp : p c with
  | ok b c' =>
    rw [hp] at h
    exact ⟨h.1, himp b c' h.2⟩
  | error e c' =>
    rw [hp] at h
    exact h

/-- Applying a function to the result asks the postcondition of the value applied. -/
theorem Reports.map {p : Parser α} {f : α → β} (hp : Reports base p c fun a => Q (f a)) :
    Reports base (f <$> p) c Q := by
  rw [map_eq_pure_bind]
  exact hp.bind fun _ _ h hpost => .pure h hpost

/-- Finding out what comes next reads nothing. -/
theorem Reports.look {p : Parser α} {f : α → Parser β} {a : α} (hp : p c = .ok a c)
    (hf : Reports base (f a) c Q) : Reports base (p >>= f) c Q := by
  unfold Reports
  rw [bind_of_ok hp]
  exact hf

/-- A check that fails with a told error, in front of the rest. -/
theorem Reports.unless {fault : SyntaxFault} {span : Span} {P : Prop} [Decidable P]
    {p : Parser β} (hfault : SyntaxError.IsTold base ⟨fault, span⟩)
    (hp : ¬P → Reports base p c Q) :
    Reports base (if P then do
      let _ ← (Parser.fail fault span : Parser PUnit)
      p
    else p) c Q := by
  split
  · exact hfault
  · next h => exact hp h

/-! ### Single tokens -/

/-- Looking at the next kind, in front of the rest of a parser. -/
theorem Reports.peek {f : TokenKind → Parser β} (h : Reports base (f c.kind) c Q) :
    Reports base (Parser.peek >>= f) c Q :=
  .look (peek_eq c) h

/-- Looking at the next region, in front of the rest of a parser. -/
theorem Reports.peekSpan {f : Span → Parser β} (h : Reports base (f c.nextToken.span) c Q) :
    Reports base (Parser.peekSpan >>= f) c Q :=
  .look (peekSpan_eq c) h

/-- Looking at the region read last, in front of the rest of a parser. -/
theorem Reports.lastSpan {f : Span → Parser β} (h : Reports base (f c.last) c Q) :
    Reports base (Parser.lastSpan >>= f) c Q :=
  h

/-- The end of input is not a plain kind. -/
theorem ne_endOfInput_of_isPlain (h : k.isPlain = true) : k ≠ .endOfInput := by
  rintro rfl
  cases h

/-- Reading a token of a plain kind complains of nothing. -/
theorem reports_next (hc : c.Within base) (hk : c.kind.isPlain = true) :
    Reports base Parser.next c fun t c' => c' = c.behind ∧ t = c.nextToken := by
  unfold Reports
  rw [next_eq]
  exact ⟨hc.behind rfl (ne_endOfInput_of_isPlain hk) hk, rfl, rfl⟩

/-- Reading a token of a plain kind, in front of the rest of a parser. -/
theorem Reports.next {f : Token → Parser β} (hc : c.Within base) (hkind : c.kind = k)
    (hk : k.isPlain = true)
    (h : c.behind.Follows base TokenKind.isPlain → c.nextToken.span.BeginsPlain base →
      Reports base (f c.nextToken) c.behind Q) : Reports base (Parser.next >>= f) c Q := by
  subst hkind
  refine (reports_next hc hk).bind fun t c' hc' ht => ?_
  obtain ⟨rfl, rfl⟩ := ht
  exact h hc' (hc.beginsPlain rfl hk)

/-- Whatever token it is that nothing can be done with, it is complained of in the right words. -/
theorem Reports.unexpected (hc : c.Within base) (what : Expectation) :
    Reports base (Parser.unexpected what : Parser β) c Q := by
  unfold Reports
  rw [Parser.unexpected, bind_of_ok (next_eq c)]
  cases hkind : c.nextToken.kind
  case malformed lexical => exact .lexical hc.next_mem rfl hkind rfl
  all_goals exact .elsewhere hc.next_mem rfl fun lexical h => by rw [hkind] at h; cases h

/-- A test that reads nothing chooses the branch. -/
theorem Reports.test {P : Prop} [Decidable P] {test : Parser Bool} {p q : Parser β}
    (htest : test c = .ok (decide P) c) (hp : P → Reports base p c Q)
    (hq : ¬P → Reports base q c Q) :
    Reports base (test >>= fun holds => if holds then p else q) c Q := by
  refine .look htest ?_
  by_cases h : P
  · rw [if_pos (decide_eq_true h)]
    exact hp h
  · rw [if_neg (by simpa using h)]
    exact hq h

/-- The test for a mark chooses the branch. -/
theorem Reports.ifMark {sign : Mark} {p q : Parser β}
    (hp : c.kind = .mark sign → Reports base p c Q)
    (hq : c.kind ≠ .mark sign → Reports base q c Q) :
    Reports base (isAtMark sign >>= fun isThere => if isThere then p else q) c Q :=
  .test (isAtMark_eq sign c) hp hq

/-- The test for a keyword chooses the branch. -/
theorem Reports.ifKeyword {word : Keyword} {p q : Parser β}
    (hp : c.kind = .keyword word → Reports base p c Q)
    (hq : c.kind ≠ .keyword word → Reports base q c Q) :
    Reports base (isAtKeyword word >>= fun isThere => if isThere then p else q) c Q :=
  .test (isAtKeyword_eq word c) hp hq

/-- The test for the end of input chooses the branch. -/
theorem Reports.ifEnd {p q : Parser β} (hp : c.kind = .endOfInput → Reports base p c Q)
    (hq : c.kind ≠ .endOfInput → Reports base q c Q) :
    Reports base (isAtEnd >>= fun isThere => if isThere then p else q) c Q :=
  .test (isAtEnd_eq c) hp hq

/-- An optional mark chooses the branch, and is read where it stands. -/
theorem Reports.ifSkipMark {sign : Mark} {p q : Parser β}
    (hc : c.Follows base TokenKind.isPlain)
    (hp : c.behind.Follows base TokenKind.isPlain → Reports base p c.behind Q)
    (hq : Reports base q c Q) :
    Reports base (skipMark sign >>= fun isRead => if isRead then p else q) c Q := by
  refine Reports.bind (m := fun isRead c' => Reports base (if isRead then p else q) c' Q) ?_
    fun _ _ _ h => h
  rw [skipMark]
  refine .ifMark (fun hkind => ?_) fun _ => .pure hc hq
  exact .next hc.toWithin hkind rfl fun h _ => .pure h (hp h)

/-- A required mark, in front of the rest of a parser; its absence is reported as expected. -/
theorem Reports.expectMark {sign : Mark} {f : Token → Parser β} (hc : c.Within base)
    (h : c.kind = .mark sign → c.behind.Follows base TokenKind.isPlain →
      c.nextToken.span.BeginsPlain base → Reports base (f c.nextToken) c.behind Q) :
    Reports base (Parser.expectMark sign >>= f) c Q := by
  refine Reports.bind (m := fun t c' => Reports base (f t) c' Q) ?_ fun _ _ _ h => h
  rw [Parser.expectMark]
  refine .ifMark (fun hkind => ?_) fun _ => .unexpected hc _
  have hk : c.kind.isPlain = true := by rw [hkind]; rfl
  refine (reports_next hc hk).imp fun t c' ht => ?_
  obtain ⟨rfl, rfl⟩ := ht
  exact h hkind (hc.behind rfl (ne_endOfInput_of_isPlain hk) hk) (hc.beginsPlain rfl hk)

/-- A required keyword, in front of the rest of a parser; its absence is reported as expected. -/
theorem Reports.expectKeyword {word : Keyword} {f : Token → Parser β} (hc : c.Within base)
    (h : c.behind.Follows base TokenKind.isPlain → Reports base (f c.nextToken) c.behind Q) :
    Reports base (Parser.expectKeyword word >>= f) c Q := by
  refine Reports.bind (m := fun t c' => Reports base (f t) c' Q) ?_ fun _ _ _ h => h
  rw [Parser.expectKeyword]
  refine .ifKeyword (fun hkind => ?_) fun _ => .unexpected hc _
  have hk : c.kind.isPlain = true := by rw [hkind]; rfl
  refine (reports_next hc hk).imp fun t c' ht => ?_
  obtain ⟨rfl, rfl⟩ := ht
  exact h (hc.behind rfl (ne_endOfInput_of_isPlain hk) hk)

/-- A required identifier, in front of the rest of a parser; its absence is reported as expected. -/
theorem Reports.expectIdentifier {f : String × Span → Parser β} (hc : c.Within base)
    (h : ∀ name, c.behind.Follows base TokenKind.isPlain → c.nextToken.span.BeginsPlain base →
      Reports base (f (name, c.nextToken.span)) c.behind Q) :
    Reports base (Parser.expectIdentifier >>= f) c Q := by
  refine Reports.bind (m := fun a c' => Reports base (f a) c' Q) (.peek ?_) fun _ _ _ h => h
  split
  · next name hkind => exact .next hc hkind rfl fun h₁ hs => .pure h₁ (h name h₁ hs)
  · exact .unexpected hc _

/-- A required property name, in front of the rest of a parser; its absence is reported as expected.
-/
theorem Reports.expectPropertyName {f : String × Span → Parser β} (hc : c.Within base)
    (h : c.behind.Follows base TokenKind.isPlain → c.nextToken.span.BeginsPlain base →
      Reports base (f (c.nextToken.lexeme, c.nextToken.span)) c.behind Q) :
    Reports base (Parser.expectPropertyName >>= f) c Q := by
  refine Reports.bind (m := fun a c' => Reports base (f a) c' Q) (.peek ?_) fun _ _ _ h => h
  split
  · next name hkind => exact .next hc hkind rfl fun h₁ hs => .pure h₁ (h h₁ hs)
  · next word hkind => exact .next hc hkind rfl fun h₁ hs => .pure h₁ (h h₁ hs)
  · exact .unexpected hc _

/-- The end of a statement complains in the right words. -/
theorem reports_endStatement (hc : c.Follows base TokenKind.isPlain) :
    Reports base endStatement c fun _ _ => True := by
  refine .ifSkipMark hc (fun h => .pure h trivial) (.peek ?_)
  split
  · exact .pure hc trivial
  · exact .pure hc trivial
  · exact .unexpected hc.toWithin _

/-! ### Loops -/

/-- A loop complains as its rounds do. -/
theorem Reports.repeatStep {step : α → Parser (Step α β)} (inv : α → Cursor → Prop)
    (hstep : ∀ a c₁, c₁.Follows base TokenKind.isPlain → inv a c₁ →
      Reports base (step a) c₁ (Step.Leaves inv Q))
    (hc : c.Follows base TokenKind.isPlain) {a : α} (h : inv a c) :
    Reports base (repeatStep step a) c Q := by
  have hwithin : ∀ (budget : List Token) (a : α) (c₁ : Cursor),
      c₁.Follows base TokenKind.isPlain → inv a c₁ →
        Reports base (repeatWithin step budget a) c₁ Q := by
    intro budget
    induction budget with
    | nil =>
      intro a c₁ hc₁ hinv
      refine (hstep a c₁ hc₁ hinv).bind fun s c₂ hc₂ hs => ?_
      cases s with
      | done b => exact .pure hc₂ hs
      -- that a loop stands still is one of the limits
      | again a' => exact .peekSpan (.fail (.limit (.inr rfl)))
    | cons t budget ih =>
      intro a c₁ hc₁ hinv
      refine (hstep a c₁ hc₁ hinv).bind fun s c₂ hc₂ hs => ?_
      cases s with
      | done b => exact .pure hc₂ hs
      | again a' => exact ih a' c₂ hc₂ hs
  exact hwithin c.tokens a c hc h

/-! ### New nodes -/

/-- Handing out a number reads nothing. -/
theorem Reports.of_stays {p q : Parser β} {c₁ : Cursor} (heq : p c = q c₁)
    (hc : c.Follows base TokenKind.isPlain) (hstays : c.Stays c₁)
    (hq : c₁.Follows base TokenKind.isPlain → Reports base q c₁ Q) : Reports base p c Q := by
  unfold Reports
  rw [heq]
  exact hq (hc.stays hstays)

/-- Numbering an expression may only complain of the depth. -/
theorem reports_newExpr {form : ExprForm} {span : Span} (hc : c.Follows base TokenKind.isPlain)
    (hspan : span.BeginsPlain base) :
    Reports base (newExpr form span) c fun e _ => e.span.BeginsPlain base :=
  .of_stays (newExpr_eq form span c) hc ⟨rfl, rfl, rfl⟩ fun h =>
    .unless (.limit (.inl rfl)) fun _ => .pure h hspan

/-- Numbering a function may only complain of the depth. -/
theorem reports_newFunction {name : Option String} {kind : FunctionKind} {params : List String}
    {body : List Stmt} {span : Span} (hc : c.Follows base TokenKind.isPlain) :
    Reports base (newFunction name kind params body span) c fun _ _ => True :=
  .of_stays (newFunction_eq name kind params body span c) hc ⟨rfl, rfl, rfl⟩ fun h =>
    .unless (.limit (.inl rfl)) fun _ => .pure h trivial

/-- Numbering a class may only complain of the depth. -/
theorem reports_newClass {name : Option String} {superclass : Option Expr}
    {constructor : Option FunctionDef} {members : List Member} {span : Span}
    (hc : c.Follows base TokenKind.isPlain) :
    Reports base (newClass name superclass constructor members span) c fun _ _ => True :=
  .of_stays (newClass_eq name superclass constructor members span c) hc ⟨rfl, rfl, rfl⟩ fun h =>
    .unless (.limit (.inl rfl)) fun _ => .pure h trivial

end Parser

end Enclave
