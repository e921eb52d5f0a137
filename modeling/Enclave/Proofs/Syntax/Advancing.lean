import Enclave.Proofs.Syntax.Placing

/-!
# Advancing

Reading goes on after an error, so of a parser that fails it matters too where it stops. What is
shown here of a parser holds for any tokens and for both of its outcomes (`Parser.Advances`): it has
read a token since a given place, it has read on from where it started, and its complaint, if it has
one, is about tokens from that place up to the next one, and never that a loop stood still.

The place is given by the tokens that were ahead there (`base`). A parser may start at it, before
any token has been read, if it begins by reading one (`Cursor.Along`); all others start behind a
token that has been read since (`Cursor.Begun`).
-/

namespace Enclave

namespace Cursor

/-- What has been read since the tokens of `base` were ahead. -/
def readSince (base : List Token) (c : Cursor) : List Token :=
  base.take (base.length - c.tokens.length)

/-- A token of `base` has been read, and the last one read is among them. -/
structure Begun (base : List Token) (c : Cursor) : Prop where
  suffix : c.tokens <:+ base
  less : c.tokens.length < base.length
  last : c.last.IsCut (c.readSince base)

/-- Some of the tokens of `base` are ahead, or all have been read. -/
structure Along (base : List Token) (c : Cursor) : Prop where
  suffix : c.tokens <:+ base
  begun : c.tokens = [] → c.Begun base

variable {base : List Token} {c c' c'' : Cursor} {s s' : Span} {t : Token}

/-- A place where a token has been read is a place of the run. -/
theorem Begun.along (h : c.Begun base) : c.Along base := ⟨h.suffix, fun _ => h⟩

/-- Before the first token. -/
theorem along_self (h : c.tokens ≠ []) : c.Along c.tokens :=
  ⟨List.suffix_refl _, fun hnil => absurd hnil h⟩

/-- The tokens read since the start, followed by those still to come, are all the tokens. -/
theorem readSince_append (h : c.tokens <:+ base) : c.readSince base ++ c.tokens = base := by
  have hdrop := List.suffix_iff_eq_drop.mp h
  exact (congrArg (c.readSince base ++ ·) hdrop).trans (List.take_append_drop _ _)

/-- What has been read up to a place has been read up to every later one. -/
theorem readSince_subset (h : c'.tokens.length ≤ c.tokens.length) :
    c.readSince base ⊆ c'.readSince base :=
  (List.take_prefix_take_left (by omega)).subset

/-- What begins and ends with tokens that have been read goes on doing so. -/
theorem isCut_later (hs : s.IsCut (c.readSince base)) (h : c'.tokens.length ≤ c.tokens.length) :
    s.IsCut (c'.readSince base) :=
  hs.mono (readSince_subset h)

/-! ### Reading a token -/

/-- Where the next token is not the end of input, there is a token left. -/
theorem tokens_ne_nil (h : c.kind ≠ .endOfInput) : c.tokens ≠ [] := by
  intro hnil
  rw [kind, nextToken, hnil] at h
  exact h rfl

/-- A nonempty rest is the next token and the rest behind it. -/
theorem tokens_eq (h : c.tokens ≠ []) : c.tokens = c.nextToken :: c.behind.tokens := by
  cases htokens : c.tokens with
  | nil => exact absurd htokens h
  | cons t rest => rw [nextToken_of_tokens htokens, behind_of_tokens htokens]

/-- Behind a token, the region read last is that token's. -/
theorem last_behind (c : Cursor) : c.behind.last = c.nextToken.span := by
  unfold behind nextToken
  split <;> rfl

/-- Reading a token leaves fewer tokens. -/
theorem length_behind (h : c.tokens ≠ []) : c.behind.tokens.length < c.tokens.length := by
  rw [tokens_eq h]
  exact Nat.lt_succ_self _

/-- Behind any token of the run, a token has been read. -/
theorem Along.behind (h : c.Along base) : c.behind.Begun base := by
  by_cases htokens : c.tokens = []
  · -- the cursor stays where it is
    obtain ⟨hsuffix, hless, hlast⟩ := h.begun htokens
    have hbehind : c.behind = { c with finished := true } := by rw [Cursor.behind, htokens]
    rw [hbehind]
    exact ⟨hsuffix, hless, hlast⟩
  · have hlength := length_behind htokens
    have hsuffix : c.behind.tokens <:+ base :=
      .trans ⟨[c.nextToken], (tokens_eq htokens).symm⟩ h.suffix
    refine ⟨hsuffix, hlength.trans_le h.suffix.length_le, ?_⟩
    rw [last_behind]
    refine Span.isCut_of_mem ?_
    have hmem : c.nextToken ∈ c.readSince base ++ [c.nextToken] := by simp
    have hall : (c.readSince base ++ [c.nextToken]) ++ c.behind.tokens =
        c.behind.readSince base ++ c.behind.tokens := by
      rw [readSince_append hsuffix, List.append_assoc, List.singleton_append,
        ← tokens_eq htokens, readSince_append h.suffix]
    rwa [List.append_cancel_right hall] at hmem

/-! ### Reading on -/

/-- A cursor that is reached from another one. -/
structure Since (base : List Token) (c c' : Cursor) : Prop where
  begun : c'.Begun base
  le : c'.tokens.length ≤ c.tokens.length

/-- A cursor that is reached from another one by reading a token. -/
structure ReadOn (base : List Token) (c c' : Cursor) : Prop where
  begun : c'.Begun base
  lt : c'.tokens.length < c.tokens.length

/-- Besides, a region begins and ends with tokens that have been read. -/
structure ReadSpan (base : List Token) (c c' : Cursor) (s : Span) : Prop
    extends c.ReadOn base c' where
  cut : s.IsCut (c'.readSince base)

/-- Every place comes no earlier than itself. -/
theorem Since.refl (h : c.Begun base) : c.Since base c := ⟨h, Nat.le_refl _⟩

/-- Coming no earlier is transitive. -/
theorem Since.trans (h : c.Since base c') (h' : c'.Since base c'') : c.Since base c'' :=
  ⟨h'.begun, h'.le.trans h.le⟩

/-- A place further on comes no earlier. -/
theorem ReadOn.since (h : c.ReadOn base c') : c.Since base c' := ⟨h.begun, h.lt.le⟩

/-- Reading on and then going no further back is reading on. -/
theorem ReadOn.later (h : c.ReadOn base c') (h' : c'.Since base c'') : c.ReadOn base c'' :=
  ⟨h'.begun, h'.le.trans_lt h.lt⟩

/-- A region cut from the tokens read up to a place is cut from those read up to every later one. -/
theorem Since.isCut (h : c.Since base c') (hs : s.IsCut (c.readSince base)) :
    s.IsCut (c'.readSince base) :=
  isCut_later hs h.le

/-- A parser that reads nothing leaves a place no earlier than where it started. -/
theorem Begun.stays (h : c.Begun base) (hstays : c.Stays c') : c.Since base c' := by
  obtain ⟨htokens, hlast, -⟩ := hstays
  refine ⟨⟨htokens ▸ h.suffix, htokens ▸ h.less, ?_⟩, htokens ▸ Nat.le_refl _⟩
  rw [hlast, readSince, htokens]
  exact h.last

/-- Reading a token that is not the end of input reads on, and its region is cut from what was read.
-/
theorem Along.readSpan (h : c.Along base) (hkind : c.kind ≠ .endOfInput) :
    c.ReadSpan base c.behind c.nextToken.span where
  begun := h.behind
  lt := length_behind (tokens_ne_nil hkind)
  cut := last_behind c ▸ h.behind.last

/-- What has been read begins with the token that was the next one. -/
theorem ReadOn.isCut_next (h : c.ReadOn base c') (hc : c.Along base) :
    c.nextToken.span.IsCut (c'.readSince base) := by
  have hne : c.tokens ≠ [] := by
    intro hnil
    have hlt := h.lt
    rw [hnil] at hlt
    exact Nat.not_lt_zero _ hlt
  -- Reading on passes at least the next token, so what is left is no longer than the rest behind
  -- it.
  have hlength : c'.tokens.length ≤ c.behind.tokens.length := by
    have hlt := h.lt
    rw [tokens_eq hne] at hlt
    exact Nat.le_of_lt_succ hlt
  rw [← last_behind c]
  exact isCut_later hc.behind.last hlength

end Cursor

namespace Parser

variable {α β : Type} {base : List Token} {c c' : Cursor} {Q : β → Cursor → Prop}

/-! ### Outcomes -/

/-- From the cursor the parser reads on, to a value with a property or to an error about tokens of
`base` up to the next one. -/
def Advances (base : List Token) (p : Parser α) (c : Cursor) (Q : α → Cursor → Prop) : Prop :=
  match p c with
  | .ok a c' => c.Since base c' ∧ Q a c'
  | .error e c' => c'.Begun base ∧ e.fault ≠ .stalled ∧
      e.span.IsCut (c'.readSince base ++ c'.tokens.take 1)

/-- A result at hand advances when it satisfies the postcondition where it stands. -/
theorem Advances.pure {b : β} (hc : c.Begun base) (h : Q b c) :
    Advances base (Pure.pure b) c Q :=
  ⟨.refl hc, h⟩

/-- A failure advances when its fault is not a stall and its region is cut from the tokens read and
the next one. -/
theorem Advances.fail {fault : SyntaxFault} {span : Span} (hc : c.Begun base)
    (hfault : fault ≠ .stalled) (hspan : span.IsCut (c.readSince base ++ c.tokens.take 1)) :
    Advances base (Parser.fail fault span : Parser β) c Q :=
  ⟨hc, hfault, hspan⟩

/-- Advancing in sequence: the second parser starts no earlier than the first ended. -/
theorem Advances.bind {p : Parser α} {f : α → Parser β} {m : α → Cursor → Prop}
    (hp : Advances base p c m)
    (hf : ∀ a c', c.Since base c' → m a c' → Advances base (f a) c' Q) :
    Advances base (p >>= f) c Q := by
  unfold Advances at hp ⊢
  rw [bind_eq]
  -- where the first parser ends, the second goes on, or the error stands
  cases h : p c with
  | ok a c₁ =>
    rw [h] at hp
    have hfa := hf a c₁ hp.1 hp.2
    unfold Advances at hfa
    dsimp only
    cases h' : f a c₁ with
    | ok b c₂ =>
      rw [h'] at hfa
      exact ⟨hp.1.trans hfa.1, hfa.2⟩
    | error e c₂ =>
      rw [h'] at hfa
      exact hfa
  | error e c₁ =>
    rw [h] at hp
    exact hp

/-- The postcondition of an advancing parser may be weakened. -/
theorem Advances.imp {p : Parser β} {Q' : β → Cursor → Prop} (h : Advances base p c Q)
    (himp : ∀ b c', c.Since base c' → Q b c' → Q' b c') : Advances base p c Q' := by
  unfold Advances at h ⊢
  cases hp : p c with
  | ok b c' =>
    rw [hp] at h
    exact ⟨h.1, himp b c' h.1 h.2⟩
  | error e c' =>
    rw [hp] at h
    exact h

/-- Applying a function to the result asks the postcondition of the value applied. -/
theorem Advances.map {p : Parser α} {f : α → β} (hp : Advances base p c fun a => Q (f a)) :
    Advances base (f <$> p) c Q := by
  rw [map_eq_pure_bind]
  exact hp.bind fun _ _ h hpost => .pure h.begun hpost

/-- Finding out what comes next reads nothing. -/
theorem Advances.look {p : Parser α} {f : α → Parser β} {a : α} (hp : p c = .ok a c)
    (hf : Advances base (f a) c Q) : Advances base (p >>= f) c Q := by
  unfold Advances
  rw [bind_of_ok hp]
  exact hf

/-- A check that reports a fault at a region already read, then goes on, advances when the rest
does. -/
theorem Advances.unless {fault : SyntaxFault} {span : Span} {P : Prop} [Decidable P]
    {p : Parser β} (hc : c.Begun base) (hfault : fault ≠ .stalled)
    (hspan : span.IsCut (c.readSince base)) (hp : ¬P → Advances base p c Q) :
    Advances base (if P then do
      let _ ← (Parser.fail fault span : Parser PUnit)
      p
    else p) c Q := by
  split
  · exact ⟨hc, hfault, hspan.mono (List.subset_append_left _ _)⟩
  · next h => exact hp h

/-! ### Single tokens -/

/-- Looking at the next kind costs nothing. -/
theorem Advances.peek {f : TokenKind → Parser β} (h : Advances base (f c.kind) c Q) :
    Advances base (Parser.peek >>= f) c Q :=
  .look (peek_eq c) h

/-- Looking at the region of the next token costs nothing. -/
theorem Advances.peekSpan {f : Span → Parser β} (h : Advances base (f c.nextToken.span) c Q) :
    Advances base (Parser.peekSpan >>= f) c Q :=
  .look (peekSpan_eq c) h

/-- Looking at the region read last costs nothing. -/
theorem Advances.lastSpan {f : Span → Parser β} (h : Advances base (f c.last) c Q) :
    Advances base (Parser.lastSpan >>= f) c Q :=
  h

/-- The next token is one of those that an error may be about. -/
theorem isCut_ahead (hc : c.Begun base) :
    c.nextToken.span.IsCut (c.readSince base ++ c.tokens.take 1) := by
  cases htokens : c.tokens with
  | nil =>
    rw [Cursor.nextToken, htokens]
    exact hc.last.mono (List.subset_append_left _ _)
  | cons t rest =>
    rw [Cursor.nextToken_of_tokens htokens]
    exact Span.isCut_of_mem (by simp)

/-- Where the next token is not the end of input, reading it gives that token and stands behind it.
-/
theorem advances_next (hc : c.Along base) (hkind : c.kind ≠ .endOfInput) :
    Advances base Parser.next c fun t c' => c' = c.behind ∧ t = c.nextToken := by
  unfold Advances
  rw [next_eq]
  exact ⟨(hc.readSpan hkind).since, rfl, rfl⟩

/-- Reading a token of known kind, in front of the rest of a parser. -/
theorem Advances.next {f : Token → Parser β} {k : TokenKind} (hc : c.Along base)
    (hkind : c.kind = k) (hk : k ≠ .endOfInput)
    (h : c.ReadSpan base c.behind c.nextToken.span →
      Advances base (f c.nextToken) c.behind Q) : Advances base (Parser.next >>= f) c Q := by
  subst hkind
  refine (advances_next hc hk).bind fun t c' _ ht => ?_
  obtain ⟨rfl, rfl⟩ := ht
  exact h (hc.readSpan hk)

/-- Reporting an unexpected token advances: its region is the next token's, and it is no stall. -/
theorem Advances.unexpected (hc : c.Along base) (what : Expectation) :
    Advances base (Parser.unexpected what : Parser β) c Q := by
  have hspan : c.nextToken.span.IsCut (c.behind.readSince base) :=
    Cursor.last_behind c ▸ hc.behind.last
  have hall := hspan.mono (List.subset_append_left _ (c.behind.tokens.take 1))
  unfold Advances
  rw [Parser.unexpected, bind_of_ok (next_eq c)]
  cases c.nextToken.kind <;> exact ⟨hc.behind, by simp, hall⟩

/-- A test that reads nothing chooses the branch that has to advance. -/
theorem Advances.test {P : Prop} [Decidable P] {test : Parser Bool} {p q : Parser β}
    (htest : test c = .ok (decide P) c) (hp : P → Advances base p c Q)
    (hq : ¬P → Advances base q c Q) :
    Advances base (test >>= fun holds => if holds then p else q) c Q := by
  refine .look htest ?_
  by_cases h : P
  · rw [if_pos (decide_eq_true h)]
    exact hp h
  · rw [if_neg (by simpa using h)]
    exact hq h

/-- The test for a mark chooses the branch that has to advance. -/
theorem Advances.ifMark {sign : Mark} {p q : Parser β}
    (hp : c.kind = .mark sign → Advances base p c Q)
    (hq : c.kind ≠ .mark sign → Advances base q c Q) :
    Advances base (isAtMark sign >>= fun isThere => if isThere then p else q) c Q :=
  .test (isAtMark_eq sign c) hp hq

/-- The test for a keyword chooses the branch that has to advance. -/
theorem Advances.ifKeyword {word : Keyword} {p q : Parser β}
    (hp : c.kind = .keyword word → Advances base p c Q)
    (hq : c.kind ≠ .keyword word → Advances base q c Q) :
    Advances base (isAtKeyword word >>= fun isThere => if isThere then p else q) c Q :=
  .test (isAtKeyword_eq word c) hp hq

/-- The test for the end of input chooses the branch that has to advance. -/
theorem Advances.ifEnd {p q : Parser β} (hp : c.kind = .endOfInput → Advances base p c Q)
    (hq : c.kind ≠ .endOfInput → Advances base q c Q) :
    Advances base (isAtEnd >>= fun isThere => if isThere then p else q) c Q :=
  .test (isAtEnd_eq c) hp hq

/-- An optional mark: behind it one branch has to advance, in front of it the other. -/
theorem Advances.ifSkipMark {sign : Mark} {p q : Parser β} (hc : c.Begun base)
    (hp : c.ReadSpan base c.behind c.nextToken.span → Advances base p c.behind Q)
    (hq : Advances base q c Q) :
    Advances base (skipMark sign >>= fun isRead => if isRead then p else q) c Q := by
  refine Advances.bind (m := fun isRead c' => Advances base (if isRead then p else q) c' Q) ?_
    fun _ _ _ h => h
  rw [skipMark]
  refine .ifMark (fun hkind => ?_) fun _ => .pure hc hq
  exact .next hc.along hkind TokenKind.noConfusion fun h => .pure h.begun (hp h)

/-- A required mark, in front of the rest of a parser. -/
theorem Advances.expectMark {sign : Mark} {f : Token → Parser β} (hc : c.Along base)
    (h : c.ReadSpan base c.behind c.nextToken.span →
      Advances base (f c.nextToken) c.behind Q) :
    Advances base (Parser.expectMark sign >>= f) c Q := by
  refine Advances.bind (m := fun t c' => Advances base (f t) c' Q) ?_ fun _ _ _ h => h
  rw [Parser.expectMark]
  refine .ifMark (fun hkind => ?_) fun _ => .unexpected hc _
  have hne : c.kind ≠ .endOfInput := by rw [hkind]; exact TokenKind.noConfusion
  refine (advances_next hc hne).imp fun t c' _ ht => ?_
  obtain ⟨rfl, rfl⟩ := ht
  exact h (hc.readSpan hne)

/-- A required keyword, in front of the rest of a parser. -/
theorem Advances.expectKeyword {word : Keyword} {f : Token → Parser β} (hc : c.Along base)
    (h : c.ReadSpan base c.behind c.nextToken.span →
      Advances base (f c.nextToken) c.behind Q) :
    Advances base (Parser.expectKeyword word >>= f) c Q := by
  refine Advances.bind (m := fun t c' => Advances base (f t) c' Q) ?_ fun _ _ _ h => h
  rw [Parser.expectKeyword]
  refine .ifKeyword (fun hkind => ?_) fun _ => .unexpected hc _
  have hne : c.kind ≠ .endOfInput := by rw [hkind]; exact TokenKind.noConfusion
  refine (advances_next hc hne).imp fun t c' _ ht => ?_
  obtain ⟨rfl, rfl⟩ := ht
  exact h (hc.readSpan hne)

/-- A required identifier, in front of the rest of a parser. -/
theorem Advances.expectIdentifier {f : String × Span → Parser β} (hc : c.Along base)
    (h : ∀ name, c.ReadSpan base c.behind c.nextToken.span →
      Advances base (f (name, c.nextToken.span)) c.behind Q) :
    Advances base (Parser.expectIdentifier >>= f) c Q := by
  refine Advances.bind (m := fun a c' => Advances base (f a) c' Q) (.peek ?_) fun _ _ _ h => h
  split
  · next name hkind =>
    exact .next hc hkind TokenKind.noConfusion fun hread => .pure hread.begun (h name hread)
  · exact .unexpected hc _

/-- A required property name, in front of the rest of a parser. -/
theorem Advances.expectPropertyName {f : String × Span → Parser β} (hc : c.Along base)
    (h : c.ReadSpan base c.behind c.nextToken.span →
      Advances base (f (c.nextToken.lexeme, c.nextToken.span)) c.behind Q) :
    Advances base (Parser.expectPropertyName >>= f) c Q := by
  refine Advances.bind (m := fun a c' => Advances base (f a) c' Q) (.peek ?_) fun _ _ _ h => h
  split
  · next name hkind =>
    exact .next hc hkind TokenKind.noConfusion fun hread => .pure hread.begun (h hread)
  · next word hkind =>
    exact .next hc hkind TokenKind.noConfusion fun hread => .pure hread.begun (h hread)
  · exact .unexpected hc _

/-- The end of a statement is either a semicolon, or a place where none is needed, or an error. -/
theorem advances_endStatement (hc : c.Begun base) :
    Advances base endStatement c fun _ _ => True := by
  refine .ifSkipMark hc (fun h => .pure h.begun trivial) (.peek ?_)
  split
  · exact .pure hc trivial
  · exact .pure hc trivial
  · exact .unexpected hc.along _

/-! ### Loops -/

/-- A loop does not stand still if every round but the last reads a token. -/
theorem Advances.repeatStep {step : α → Parser (Step α β)} (inv : α → Cursor → Prop)
    (hstep : ∀ a c₁, c₁.Begun base → inv a c₁ → Advances base (step a) c₁
      (Step.Leaves (fun a' c₂ => c₁.ReadOn base c₂ ∧ inv a' c₂) Q))
    (hc : c.Begun base) {a : α} (h : inv a c) : Advances base (repeatStep step a) c Q := by
  -- each round reads on, so rounds as many as the tokens left are enough
  have hwithin : ∀ (budget : List Token) (a : α) (c₁ : Cursor), c₁.Begun base → inv a c₁ →
      c₁.tokens.length ≤ budget.length → Advances base (repeatWithin step budget a) c₁ Q := by
    intro budget
    induction budget with
    | nil =>
      intro a c₁ hc₁ hinv hle
      refine (hstep a c₁ hc₁ hinv).bind fun s c₂ hsince hs => ?_
      cases s with
      | done b => exact .pure hsince.begun hs
      -- no tokens are left for another round to have read
      | again a' => exact absurd (hs.1.lt.trans_le hle) (Nat.not_lt_zero _)
    | cons t budget ih =>
      intro a c₁ hc₁ hinv hle
      refine (hstep a c₁ hc₁ hinv).bind fun s c₂ hsince hs => ?_
      cases s with
      | done b => exact .pure hsince.begun hs
      | again a' => exact ih a' c₂ hsince.begun hs.2 (Nat.le_of_lt_succ (hs.1.lt.trans_le hle))
  exact hwithin c.tokens a c hc h (Nat.le_refl _)

/-! ### New nodes -/

/-- Handing out a number reads nothing. -/
theorem Advances.of_stays {p q : Parser β} {c₁ : Cursor} (heq : p c = q c₁) (hc : c.Begun base)
    (hstays : c.Stays c₁) (hq : c.Since base c₁ → Advances base q c₁ Q) :
    Advances base p c Q := by
  have hsince := hc.stays hstays
  have hq := hq hsince
  unfold Advances at hq ⊢
  rw [heq]
  -- Both parsers end alike, and what holds since the second's start holds since the first's.
  cases h : q c₁ with
  | ok b c₂ =>
    rw [h] at hq
    exact ⟨hsince.trans hq.1, hq.2⟩
  | error e c₂ =>
    rw [h] at hq
    exact hq

/-- Numbering an expression reads nothing, and the node keeps the region it is given. -/
theorem advances_newExpr {form : ExprForm} {span : Span} (hc : c.Begun base)
    (hspan : span.IsCut (c.readSince base)) :
    Advances base (newExpr form span) c fun e c' => e.span.IsCut (c'.readSince base) := by
  refine .of_stays (newExpr_eq form span c) hc ⟨rfl, rfl, rfl⟩ fun h => ?_
  refine .unless h.begun SyntaxFault.noConfusion (h.isCut hspan) fun _ => .pure h.begun ?_
  exact h.isCut hspan

/-- Numbering a function reads nothing. -/
theorem advances_newFunction {name : Option String} {kind : FunctionKind} {params : List String}
    {body : List Stmt} {span : Span} (hc : c.Begun base)
    (hspan : span.IsCut (c.readSince base)) :
    Advances base (newFunction name kind params body span) c fun _ _ => True := by
  refine .of_stays (newFunction_eq name kind params body span c) hc ⟨rfl, rfl, rfl⟩ fun h => ?_
  exact .unless h.begun SyntaxFault.noConfusion (h.isCut hspan) fun _ => .pure h.begun trivial

/-- Numbering a class reads nothing. -/
theorem advances_newClass {name : Option String} {superclass : Option Expr}
    {constructor : Option FunctionDef} {members : List Member} {span : Span} (hc : c.Begun base)
    (hspan : span.IsCut (c.readSince base)) :
    Advances base (newClass name superclass constructor members span) c fun _ _ => True := by
  refine .of_stays (newClass_eq name superclass constructor members span c) hc ⟨rfl, rfl, rfl⟩
    fun h => ?_
  exact .unless h.begun SyntaxFault.noConfusion (h.isCut hspan) fun _ => .pure h.begun trivial

end Parser

end Enclave
