import Enclave.Proofs.Syntax.Lexing
import Enclave.Proofs.Syntax.Parsing

/-!
# Stepping through parsers

What is found out about a parser on a cursor is an `Ends`: either the result is a value with a
certain property, or a fault of a kind that may happen. The rules for `Ends` follow the way in which
parsers are composed, and lead from one cursor to the next, so that a parser can be followed step by
step. `Finds` is the case in which any fault may happen.
-/

namespace Enclave

namespace Cursor

/-- The next token; behind the last one lies the end of the input. -/
def nextToken (c : Cursor) : Token :=
  match c.tokens with
  | t :: _ => t
  | [] => ⟨.endOfInput, c.last, ""⟩

/-- What the next token is. -/
def kind (c : Cursor) : TokenKind := c.nextToken.kind

/-- The cursor behind the next token. -/
def behind (c : Cursor) : Cursor :=
  match c.tokens with
  | t :: rest => { c with tokens := rest, last := t.span, finished := c.finished || t.isEndOfInput }
  | [] => { c with finished := true }

/-- Only the numbers to be handed out next may differ. -/
structure Stays (c c' : Cursor) : Prop where
  tokens : c'.tokens = c.tokens
  last : c'.last = c.last
  finished : c'.finished = c.finished

/-- The next token is the first of those to come. -/
theorem nextToken_of_tokens {c : Cursor} {t : Token} {rest : List Token}
    (h : c.tokens = t :: rest) : c.nextToken = t := by
  rw [nextToken, h]

/-- Where a cursor stands behind the first of the tokens to come. -/
theorem behind_of_tokens {c : Cursor} {t : Token} {rest : List Token} (h : c.tokens = t :: rest) :
    c.behind = { c with
      tokens := rest, last := t.span, finished := c.finished || t.isEndOfInput } := by
  rw [behind, h]

end Cursor

namespace Parser

variable {α β : Type} {c c' : Cursor}

/-! ### Equations of single steps -/

/-- A sequence of two parsers, by the outcome of the first. -/
theorem bind_eq (p : Parser α) (f : α → Parser β) (c : Cursor) :
    (p >>= f) c =
      match p c with
      | .ok a c' => f a c'
      | .error e c' => .error e c' := by
  change EStateM.bind p f c = _
  unfold EStateM.bind
  cases p c <;> rfl

/-- Behind a parser that succeeds, a sequence goes on as its rest. -/
theorem bind_of_ok {p : Parser α} {f : α → Parser β} {a : α} (h : p c = .ok a c') :
    (p >>= f) c = f a c' := by
  rw [bind_eq, h]

/-- Looking at the next kind gives that kind and moves nothing. -/
theorem peek_eq (c : Cursor) : peek c = .ok c.kind c := by
  obtain ⟨tokens, last, finished, exprs, functions, classes⟩ := c
  cases tokens <;> rfl

/-- Looking at the next region gives that region and moves nothing. -/
theorem peekSpan_eq (c : Cursor) : peekSpan c = .ok c.nextToken.span c := by
  obtain ⟨tokens, last, finished, exprs, functions, classes⟩ := c
  cases tokens <;> rfl

/-- Reading a token gives it and stands behind it. -/
theorem next_eq (c : Cursor) : next c = .ok c.nextToken c.behind := by
  obtain ⟨tokens, last, finished, exprs, functions, classes⟩ := c
  cases tokens <;> rfl

/-- The test for a mark decides whether it is next, and moves nothing. -/
theorem isAtMark_eq (sign : Mark) (c : Cursor) :
    isAtMark sign c = .ok (decide (c.kind = .mark sign)) c :=
  bind_of_ok (peek_eq c)

/-- The test for a keyword decides whether it is next, and moves nothing. -/
theorem isAtKeyword_eq (word : Keyword) (c : Cursor) :
    isAtKeyword word c = .ok (decide (c.kind = .keyword word)) c :=
  bind_of_ok (peek_eq c)

/-- The test for the end of input decides whether it is next, and moves nothing. -/
theorem isAtEnd_eq (c : Cursor) : isAtEnd c = .ok (decide (c.kind = .endOfInput)) c :=
  bind_of_ok (peek_eq c)

/-! ### Outcomes -/

/-- From the cursor the parser gets to a value with a property, or to a fault of a kind that may
happen. -/
def Ends (mayFail : SyntaxFault → Prop) (p : Parser α) (c : Cursor)
    (post : α → Cursor → Prop) : Prop :=
  match p c with
  | .ok a c' => post a c'
  | .error e _ => mayFail e.fault

variable {mayFail : SyntaxFault → Prop} {post : β → Cursor → Prop}

/-- A result at hand ends as the postcondition says of it. -/
theorem Ends.pure {b : β} (h : post b c) : Ends mayFail (Pure.pure b) c post := h

/-- A result at hand is handed to the rest of a parser. -/
theorem Ends.pure_bind {a : α} {f : α → Parser β} (h : Ends mayFail (f a) c post) :
    Ends mayFail (Pure.pure a >>= f) c post := h

/-- A failure ends as it may when its fault is among those allowed. -/
theorem Ends.fail {fault : SyntaxFault} {span : Span} (h : mayFail fault) :
    Ends mayFail (Parser.fail fault span) c post := h

/-- In sequence: the rest starts where the first parser left off, with what it found. -/
theorem Ends.bind {p : Parser α} {f : α → Parser β} {m : α → Cursor → Prop}
    (hp : Ends mayFail p c m) (hf : ∀ a c', m a c' → Ends mayFail (f a) c' post) :
    Ends mayFail (p >>= f) c post := by
  unfold Ends at hp ⊢
  rw [bind_eq]
  -- Either the first parser succeeds and the rest is run, or its error is that of the whole.
  cases h : p c with
  | ok a c' =>
    rw [h] at hp
    exact hf a c' hp
  | error e c' =>
    rw [h] at hp
    exact hp

/-- A sequence ends with a postcondition exactly when its first parser ends where the rest does. -/
theorem Ends.bind_iff {p : Parser α} {f : α → Parser β} :
    Ends mayFail (p >>= f) c post ↔ Ends mayFail p c fun a c' => Ends mayFail (f a) c' post := by
  refine ⟨fun h => ?_, fun h => h.bind fun _ _ h => h⟩
  unfold Ends at h ⊢
  rw [bind_eq] at h
  -- An error of the first parser is one of the whole, so it is allowed in both readings.
  cases hp : p c with
  | ok a c' =>
    rw [hp] at h
    exact h
  | error e c' =>
    rw [hp] at h
    exact h

/-- How a parser ends depends on its outcome only. -/
theorem Ends.of_eq {p q : Parser β} (h : p c = q c) (hq : Ends mayFail q c post) :
    Ends mayFail p c post := by
  unfold Ends
  rw [h]
  exact hq

/-- A step whose result is known. -/
theorem Ends.step_iff {p : Parser α} {f : α → Parser β} {a : α} (hp : p c = .ok a c') :
    Ends mayFail (p >>= f) c post ↔ Ends mayFail (f a) c' post := by
  unfold Ends
  rw [bind_of_ok hp]

/-- A step whose outcome is known, in front of the rest of a parser. -/
theorem Ends.step {p : Parser α} {f : α → Parser β} {a : α} (hp : p c = .ok a c')
    (hf : Ends mayFail (f a) c' post) : Ends mayFail (p >>= f) c post :=
  (step_iff hp).mpr hf

/-- The postcondition may be weakened. -/
theorem Ends.imp {p : Parser β} {post' : β → Cursor → Prop} (h : Ends mayFail p c post)
    (himp : ∀ b c', post b c' → post' b c') : Ends mayFail p c post' := by
  unfold Ends at h ⊢
  cases hp : p c with
  | ok b c' =>
    rw [hp] at h
    exact himp b c' h
  | error e c' =>
    rw [hp] at h
    exact h

/-- Applying a function to the result asks the postcondition of the value applied. -/
theorem Ends.map {p : Parser α} {f : α → β} (hp : Ends mayFail p c fun a => post (f a)) :
    Ends mayFail (f <$> p) c post := by
  rw [map_eq_pure_bind]
  exact hp.bind fun _ _ h => h

/-- A success satisfies the postcondition. -/
theorem Ends.of_ok {p : Parser β} {b : β} (h : Ends mayFail p c post) (hp : p c = .ok b c') :
    post b c' := by
  unfold Ends at h
  rw [hp] at h
  exact h

/-! ### Single tokens -/

/-- Looking at the next kind, in front of the rest of a parser. -/
theorem Ends.peek {f : TokenKind → Parser β} (h : Ends mayFail (f c.kind) c post) :
    Ends mayFail (Parser.peek >>= f) c post :=
  .step (peek_eq c) h

/-- Looking at the next region, in front of the rest of a parser. -/
theorem Ends.peekSpan {f : Span → Parser β} (h : Ends mayFail (f c.nextToken.span) c post) :
    Ends mayFail (Parser.peekSpan >>= f) c post :=
  .step (peekSpan_eq c) h

/-- Looking at the region read last, in front of the rest of a parser. -/
theorem Ends.lastSpan {f : Span → Parser β} (h : Ends mayFail (f c.last) c post) :
    Ends mayFail (Parser.lastSpan >>= f) c post :=
  h

/-- Reading a token, in front of the rest of a parser. -/
theorem Ends.next {f : Token → Parser β} (h : Ends mayFail (f c.nextToken) c.behind post) :
    Ends mayFail (Parser.next >>= f) c post :=
  .step (next_eq c) h

/-- The test for a mark chooses the branch. -/
theorem Ends.ifMark {sign : Mark} {p q : Parser β}
    (hp : c.kind = .mark sign → Ends mayFail p c post)
    (hq : c.kind ≠ .mark sign → Ends mayFail q c post) :
    Ends mayFail (isAtMark sign >>= fun isThere => if isThere then p else q) c post := by
  refine .step (isAtMark_eq sign c) ?_
  by_cases h : c.kind = .mark sign
  · rw [if_pos (decide_eq_true h)]
    exact hp h
  · rw [if_neg (by simpa using h)]
    exact hq h

/-- The test for a keyword chooses the branch. -/
theorem Ends.ifKeyword {word : Keyword} {p q : Parser β}
    (hp : c.kind = .keyword word → Ends mayFail p c post)
    (hq : c.kind ≠ .keyword word → Ends mayFail q c post) :
    Ends mayFail (isAtKeyword word >>= fun isThere => if isThere then p else q) c post := by
  refine .step (isAtKeyword_eq word c) ?_
  by_cases h : c.kind = .keyword word
  · rw [if_pos (decide_eq_true h)]
    exact hp h
  · rw [if_neg (by simpa using h)]
    exact hq h

/-- The test for the end of input chooses the branch. -/
theorem Ends.ifEnd {p q : Parser β} (hp : c.kind = .endOfInput → Ends mayFail p c post)
    (hq : c.kind ≠ .endOfInput → Ends mayFail q c post) :
    Ends mayFail (isAtEnd >>= fun isThere => if isThere then p else q) c post := by
  refine .step (isAtEnd_eq c) ?_
  by_cases h : c.kind = .endOfInput
  · rw [if_pos (decide_eq_true h)]
    exact hp h
  · rw [if_neg (by simpa using h)]
    exact hq h

/-- An optional mark chooses the branch, and is read where it stands. -/
theorem Ends.ifSkipMark {sign : Mark} {p q : Parser β}
    (hp : c.kind = .mark sign → Ends mayFail p c.behind post)
    (hq : c.kind ≠ .mark sign → Ends mayFail q c post) :
    Ends mayFail (skipMark sign >>= fun isRead => if isRead then p else q) c post := by
  rw [skipMark]
  refine Ends.bind (m := fun isRead c' => Ends mayFail (if isRead then p else q) c' post) ?_
    fun _ _ h => h
  refine .ifMark (fun h => .next (.pure ?_)) fun h => .pure ?_
  · exact hp h
  · exact hq h

/-- A required mark that is there is read. -/
theorem Ends.expectMark {sign : Mark} {f : Token → Parser β} (hkind : c.kind = .mark sign)
    (h : Ends mayFail (f c.nextToken) c.behind post) :
    Ends mayFail (Parser.expectMark sign >>= f) c post := by
  rw [Parser.expectMark]
  refine Ends.bind (m := fun t c' => Ends mayFail (f t) c' post) ?_ fun _ _ h => h
  refine .ifMark (fun _ => ?_) fun hnot => absurd hkind hnot
  unfold Ends
  rw [next_eq]
  exact h

/-- A required keyword that is there is read. -/
theorem Ends.expectKeyword {word : Keyword} {f : Token → Parser β}
    (hkind : c.kind = .keyword word) (h : Ends mayFail (f c.nextToken) c.behind post) :
    Ends mayFail (Parser.expectKeyword word >>= f) c post := by
  rw [Parser.expectKeyword]
  refine Ends.bind (m := fun t c' => Ends mayFail (f t) c' post) ?_ fun _ _ h => h
  refine .ifKeyword (fun _ => ?_) fun hnot => absurd hkind hnot
  unfold Ends
  rw [next_eq]
  exact h

/-! ### Loops -/

/-- A round leaves the invariant for the next one, or the result. -/
def Step.Leaves (inv : α → Cursor → Prop) (post : β → Cursor → Prop) :
    Step α β → Cursor → Prop
  | .again a => inv a
  | .done b => post b

/-- A loop keeps an invariant up to its last round, where it may stall. -/
theorem Ends.repeatWithin {step : α → Parser (Step α β)} (inv : α → Cursor → Prop)
    (hstep : ∀ a c, inv a c → Ends mayFail (step a) c (Step.Leaves inv post))
    (hstalled : mayFail .stalled) (budget : List Token) {a : α} (h : inv a c) :
    Ends mayFail (repeatWithin step budget a) c post := by
  induction budget generalizing a c with
  | nil =>
    refine (hstep a c h).bind fun s c' hs => ?_
    cases s with
    | done b => exact hs
    -- out of budget the loop stalls, which it may
    | again a' => exact .peekSpan (.fail hstalled)
  | cons t budget ih =>
    refine (hstep a c h).bind fun s c' hs => ?_
    cases s with
    | done b => exact hs
    | again a' => exact ih hs

/-- A loop keeps an invariant that each of its steps keeps; a stall has to be allowed. -/
theorem Ends.repeatStep {step : α → Parser (Step α β)} (inv : α → Cursor → Prop)
    (hstep : ∀ a c, inv a c → Ends mayFail (step a) c (Step.Leaves inv post))
    (hstalled : mayFail .stalled) {a : α} (h : inv a c) :
    Ends mayFail (repeatStep step a) c post :=
  Ends.repeatWithin inv hstep hstalled c.tokens h

/-- A loop whose result is as its states are. -/
theorem Ends.repeatSame {step : α → Parser (Step α α)} (inv : α → Cursor → Prop)
    (hstep : ∀ a c, inv a c → Ends mayFail (step a) c (Step.Leaves inv inv))
    (hstalled : mayFail .stalled) {a : α} (h : inv a c) :
    Ends mayFail (Parser.repeatStep step a) c inv :=
  Ends.repeatStep inv hstep hstalled h

/-! ### New nodes -/

/-- Going on unless a fault happens first. -/
theorem Ends.unless {fault : SyntaxFault} {span : Span} {P : Prop} [Decidable P] {p : Parser β}
    (hfault : P → mayFail fault) (hp : ¬P → Ends mayFail p c post) :
    Ends mayFail (if P then do
      let _ ← (Parser.fail fault span : Parser PUnit)
      p
    else p) c post := by
  split
  · next h => exact hfault h
  · next h => exact hp h

/-- A new expression has the form and region it is given; its number and height are left open. -/
theorem Ends.newExpr {form : ExprForm} {span : Span} {post : Expr → Cursor → Prop}
    (hdeep : mayFail .nestedTooDeeply)
    (h : ∀ id height c', c.Stays c' → post ⟨id, span, height, form⟩ c') :
    Ends mayFail (newExpr form span) c post := by
  unfold Ends
  rw [newExpr_eq]
  exact Ends.unless (fun _ => hdeep) fun _ => .pure (h _ _ _ ⟨rfl, rfl, rfl⟩)

/-- A new function has the parts it is given; its number and height are left open. -/
theorem Ends.newFunction {name : Option String} {kind : FunctionKind} {params : List String}
    {body : List Stmt} {span : Span} {post : FunctionDef → Cursor → Prop}
    (hdeep : mayFail .nestedTooDeeply)
    (h : ∀ site height c', c.Stays c' → post ⟨site, name, kind, params, body, span, height⟩ c') :
    Ends mayFail (newFunction name kind params body span) c post := by
  unfold Ends
  rw [newFunction_eq]
  exact Ends.unless (fun _ => hdeep) fun _ => .pure (h _ _ _ ⟨rfl, rfl, rfl⟩)

/-- A new class has the parts it is given; its number and height are left open. -/
theorem Ends.newClass {name : Option String} {superclass : Option Expr}
    {constructor : Option FunctionDef} {members : List Member} {span : Span}
    {post : ClassDef → Cursor → Prop} (hdeep : mayFail .nestedTooDeeply)
    (h : ∀ site height c', c.Stays c' →
      post ⟨site, name, superclass, constructor, members, span, height⟩ c') :
    Ends mayFail (newClass name superclass constructor members span) c post := by
  unfold Ends
  rw [newClass_eq]
  exact Ends.unless (fun _ => hdeep) fun _ => .pure (h _ _ _ ⟨rfl, rfl, rfl⟩)

/-! ### Results that are values -/

/-- If the result is a value, it has the property. -/
def Finds (p : Parser α) (c : Cursor) (post : α → Cursor → Prop) : Prop :=
  Ends (fun _ => True) p c post

/-- A report of an unexpected token finds nothing, so it finds what one likes. -/
theorem Finds.unexpected (what : Expectation) (c : Cursor) (post : α → Cursor → Prop) :
    Finds (unexpected what) c post := by
  unfold Finds Ends
  cases h : (Parser.unexpected what : Parser α) c with
  | ok a c' => exact absurd h (unexpected_ne_ok what c c' a)
  | error e c' => trivial

/-- Behind a required mark one may rely on it. -/
theorem Finds.expectMark {sign : Mark} {f : Token → Parser β}
    (h : c.kind = .mark sign → Finds (f c.nextToken) c.behind post) :
    Finds (expectMark sign >>= f) c post := by
  by_cases hk : c.kind = .mark sign
  · exact Ends.expectMark hk (h hk)
  · refine Ends.bind (m := fun _ _ => False) ?_ fun _ _ h => h.elim
    rw [Parser.expectMark]
    exact .ifMark (fun h => absurd h hk) fun _ => Finds.unexpected _ _ _

/-- Behind a required keyword one may rely on it. -/
theorem Finds.expectKeyword {word : Keyword} {f : Token → Parser β}
    (h : c.kind = .keyword word → Finds (f c.nextToken) c.behind post) :
    Finds (expectKeyword word >>= f) c post := by
  by_cases hk : c.kind = .keyword word
  · exact Ends.expectKeyword hk (h hk)
  · refine Ends.bind (m := fun _ _ => False) ?_ fun _ _ h => h.elim
    rw [Parser.expectKeyword]
    exact .ifKeyword (fun h => absurd h hk) fun _ => Finds.unexpected _ _ _

/-- Behind a required identifier one may rely on it. -/
theorem Finds.expectIdentifier {f : String × Span → Parser β}
    (h : ∀ name, c.kind = .identifier name → Finds (f (name, c.nextToken.span)) c.behind post) :
    Finds (expectIdentifier >>= f) c post := by
  refine Ends.bind (m := fun a c' => Finds (f a) c' post) (.peek ?_) fun _ _ h => h
  split
  · next name hkind => exact .next (.pure (h name hkind))
  · exact Finds.unexpected _ _ _

/-- Behind a required property name one may rely on a word having been there. -/
theorem Finds.expectPropertyName {f : String × Span → Parser β}
    (h : c.kind.isWord = true →
      Finds (f (c.nextToken.lexeme, c.nextToken.span)) c.behind post) :
    Finds (expectPropertyName >>= f) c post := by
  refine Ends.bind (m := fun a c' => Finds (f a) c' post) (.peek ?_) fun _ _ h => h
  split
  · next name hkind => exact .next (.pure (h (hkind ▸ rfl)))
  · next word hkind => exact .next (.pure (h (hkind ▸ rfl)))
  · exact Finds.unexpected _ _ _

/-- Behind the end of a statement either a semicolon has been read or nothing. -/
theorem Finds.endStatement {f : Unit → Parser β}
    (hread : c.kind = .mark .semicolon → Finds (f ()) c.behind post) (hnot : Finds (f ()) c post) :
    Finds (endStatement >>= f) c post := by
  refine Ends.bind (m := fun a c' => Finds (f a) c' post) ?_ fun _ _ h => h
  refine .ifSkipMark (fun hkind => .pure (hread hkind)) fun _ => .peek ?_
  split
  · exact .pure hnot
  · exact .pure hnot
  · exact Finds.unexpected _ _ _

end Parser

end Enclave
