import Enclave.Proofs.Syntax.Stepping
import Enclave.Proofs.Syntax.Unplaced

/-!
# Parsers that do not look at regions

What a parser can see of a token is its kind and, if it is a word, its text. Two parsers are alike
(`Parser.Alike`) if they do the same at any two cursors at which the same can be seen: both fail
with the same fault, or both find values of which the same is to be seen, and in both cases they get
to cursors of this kind again. How values are seen is given by a view, which for trees leaves out
their regions.

The rules for `Parser.Alike` follow the way in which parsers are composed.
-/

namespace Enclave

/-- What can be seen of a token. -/
def Token.seen (t : Token) : TokenKind × Option String :=
  (t.kind, if t.kind.isWord then some t.lexeme else none)

/-- Tokens that look the same are of one kind. -/
theorem Token.kind_of_seen {t t' : Token} (h : t.seen = t'.seen) : t.kind = t'.kind :=
  congrArg Prod.fst h

/-- Words that look the same have the same lexeme. -/
theorem Token.lexeme_of_seen {t t' : Token} (h : t.seen = t'.seen) (hword : t.kind.isWord = true) :
    t.lexeme = t'.lexeme := by
  have hword' : t'.kind.isWord = true := kind_of_seen h ▸ hword
  have htext := congrArg Prod.snd h
  dsimp only [seen] at htext
  rw [if_pos hword, if_pos hword'] at htext
  exact Option.some.inj htext

/-- Cursors at which the same can be seen. -/
structure Cursor.Like (c c' : Cursor) : Prop where
  tokens : c.tokens.map Token.seen = c'.tokens.map Token.seen
  finished : c.finished = c'.finished
  exprs : c.exprs = c'.exprs
  functions : c.functions = c'.functions
  classes : c.classes = c'.classes

namespace Cursor.Like

variable {c c' : Cursor}

/-- Cursors that are alike have as many tokens to come. -/
theorem length (h : c.Like c') : c.tokens.length = c'.tokens.length := by
  rw [← List.length_map Token.seen, h.tokens, List.length_map]

/-- Either no token is left in both, or both begin with tokens that look the same. -/
theorem cases (h : c.Like c') :
    c.tokens = [] ∧ c'.tokens = [] ∨
      ∃ t t' rest rest', c.tokens = t :: rest ∧ c'.tokens = t' :: rest' ∧ t.seen = t'.seen ∧
        rest.map Token.seen = rest'.map Token.seen := by
  have htokens := h.tokens
  -- Both rests are empty or both are not, since they look the same.
  cases hc : c.tokens with
  | nil =>
    rw [hc] at htokens
    exact .inl ⟨rfl, List.map_eq_nil_iff.mp htokens.symm⟩
  | cons t rest =>
    rw [hc, List.map_cons] at htokens
    obtain ⟨t', rest', hc', ht, hrest⟩ := List.map_eq_cons_iff.mp htokens.symm
    exact .inr ⟨t, t', rest, rest', rfl, hc', ht.symm, hrest.symm⟩

/-- The next tokens of cursors that are alike look the same. -/
theorem seen (h : c.Like c') : c.nextToken.seen = c'.nextToken.seen := by
  rcases h.cases with ⟨hc, hc'⟩ | ⟨t, t', rest, rest', hc, hc', ht, -⟩
  · rw [nextToken, nextToken, hc, hc']
    rfl
  · rw [nextToken_of_tokens hc, nextToken_of_tokens hc', ht]

/-- The next tokens of cursors that are alike are of one kind. -/
theorem kind (h : c.Like c') : c.kind = c'.kind := Token.kind_of_seen h.seen

/-- Reading a token leaves cursors of this kind. -/
theorem behind (h : c.Like c') : c.behind.Like c'.behind := by
  obtain ⟨htokens, hfinished, hexprs, hfunctions, hclasses⟩ := h
  rcases cases ⟨htokens, hfinished, hexprs, hfunctions, hclasses⟩ with
    ⟨hc, hc'⟩ | ⟨t, t', rest, rest', hc, hc', ht, hrest⟩
  · -- At the end of the tokens a cursor stays where it is.
    rw [Cursor.behind, Cursor.behind, hc, hc']
    exact ⟨rfl, rfl, hexprs, hfunctions, hclasses⟩
  · have hend : t.isEndOfInput = t'.isEndOfInput := by
      rw [Token.isEndOfInput, Token.isEndOfInput, Token.kind_of_seen ht]
    rw [behind_of_tokens hc, behind_of_tokens hc']
    exact ⟨hrest, by rw [hfinished, hend], hexprs, hfunctions, hclasses⟩

end Cursor.Like

namespace Parser

variable {α β γ δ : Type}

/-- What is to be seen of a round of a loop. -/
def Step.map (view : α → γ) (view' : β → δ) : Step α β → Step γ δ
  | .again a => .again (view a)
  | .done b => .done (view' b)

/-- The same fault, or values of which the same is to be seen, at cursors of this kind. -/
inductive SameOutcome (view : α → γ) :
    EStateM.Result SyntaxError Cursor α → EStateM.Result SyntaxError Cursor α → Prop
  | ok {a a' : α} {c c' : Cursor} (value : view a = view a') (cursor : c.Like c') :
    SameOutcome view (.ok a c) (.ok a' c')
  | error {e e' : SyntaxError} {c c' : Cursor} (fault : e.fault = e'.fault) (cursor : c.Like c') :
    SameOutcome view (.error e c) (.error e' c')

/-- Parsers that do the same wherever the same can be seen. -/
def Alike (view : α → γ) (p p' : Parser α) : Prop :=
  ∀ c c', c.Like c' → SameOutcome view (p c) (p' c')

namespace Alike

variable {view : α → γ} {view' : β → δ} {p p' q q' : Parser α}

/-- Results that look the same, at hand. -/
theorem pure {a a' : α} (h : view a = view a') :
    Alike view (Pure.pure a) (Pure.pure a') := fun _ _ hlike => .ok h hlike

/-- Failures with one fault are alike, wherever they are reported. -/
theorem fail (fault : SyntaxFault) (span span' : Span) :
    Alike view (Parser.fail fault span) (Parser.fail fault span') := fun _ _ hlike =>
  .error rfl hlike

/-- In sequence: the rests only have to be alike on results that look the same. -/
theorem bind {f f' : α → Parser β} (hp : Alike view p p')
    (hf : ∀ a a', view a = view a' → Alike view' (f a) (f' a')) :
    Alike view' (p >>= f) (p' >>= f') := by
  intro c c' hlike
  rw [bind_eq, bind_eq]
  have hsame := hp c c' hlike
  revert hsame
  generalize p c = r, p' c' = r'
  rintro (⟨hvalue, hlike⟩ | ⟨hfault, hlike⟩)
  · exact hf _ _ hvalue _ _ hlike
  · exact .error hfault hlike

/-- What is seen as a whole is the same. -/
theorem bindSame {f f' : α → Parser β} (hp : Alike id p p')
    (hf : ∀ a, Alike view' (f a) (f' a)) : Alike view' (p >>= f) (p' >>= f') := by
  refine hp.bind fun a a' h => ?_
  cases h
  exact hf a

/-- Of a name and its region, the name is seen. -/
theorem bindNamed {p p' : Parser (String × Span)} {f f' : String × Span → Parser β}
    (hp : Alike Prod.fst p p')
    (hf : ∀ name span span', Alike view' (f (name, span)) (f' (name, span'))) :
    Alike view' (p >>= f) (p' >>= f') := by
  refine hp.bind fun a a' h => ?_
  obtain ⟨name, span⟩ := a
  obtain ⟨name', span'⟩ := a'
  cases h
  exact hf name span span'

/-- Functions that keep the look of results keep parsers alike. -/
theorem map {f f' : α → β} (hp : Alike view p p')
    (hf : ∀ a a', view a = view a' → view' (f a) = view' (f' a')) :
    Alike view' (f <$> p) (f' <$> p') := by
  rw [map_eq_pure_bind, map_eq_pure_bind]
  exact hp.bind fun a a' h => .pure (hf a a' h)

/-- The same test on both sides chooses the branches. -/
theorem ite {P : Prop} [Decidable P] (hp : P → Alike view p p') (hq : ¬P → Alike view q q') :
    Alike view (if P then p else q) (if P then p' else q') := by
  split
  · next h => exact hp h
  · next h => exact hq h

/-! ### Single tokens -/

/-- Both see the same kind. -/
theorem peek : Alike id Parser.peek Parser.peek := by
  intro c c' hlike
  rw [peek_eq, peek_eq]
  exact .ok hlike.kind hlike

/-- Regions may differ, so nothing of them is compared. -/
theorem peekSpan : Alike (fun _ => ()) Parser.peekSpan Parser.peekSpan := by
  intro c c' hlike
  rw [peekSpan_eq, peekSpan_eq]
  exact .ok rfl hlike

/-- Regions may differ, so nothing of them is compared. -/
theorem lastSpan : Alike (fun _ => ()) Parser.lastSpan Parser.lastSpan := fun _ _ hlike =>
  .ok rfl hlike

/-- Both read tokens that look the same. -/
theorem next : Alike Token.seen Parser.next Parser.next := by
  intro c c' hlike
  rw [next_eq, next_eq]
  exact .ok hlike.seen hlike.behind

/-- Both see the mark or both do not. -/
theorem isAtMark (sign : Mark) : Alike id (Parser.isAtMark sign) (Parser.isAtMark sign) :=
  peek.bindSame fun _ => .pure rfl

/-- Both see the keyword or both do not. -/
theorem isAtKeyword (word : Keyword) :
    Alike id (Parser.isAtKeyword word) (Parser.isAtKeyword word) :=
  peek.bindSame fun _ => .pure rfl

/-- Both see the end of input or both do not. -/
theorem isAtEnd : Alike id Parser.isAtEnd Parser.isAtEnd :=
  peek.bindSame fun _ => .pure rfl

/-- Both report what they did not expect, in the same words. -/
theorem unexpected (what : Expectation) :
    Alike view (Parser.unexpected what) (Parser.unexpected what) := by
  refine next.bind fun t t' ht => ?_
  rw [Token.kind_of_seen ht]
  split
  · exact .fail _ _ _
  · exact .fail _ _ _

/-- Both skip the mark or both do not. -/
theorem skipMark (sign : Mark) : Alike id (Parser.skipMark sign) (Parser.skipMark sign) :=
  (isAtMark sign).bindSame fun _ =>
    .ite (fun _ => next.bind fun _ _ _ => .pure rfl) fun _ => .pure rfl

/-- Both find the mark or report its absence. -/
theorem expectMark (sign : Mark) :
    Alike Token.seen (Parser.expectMark sign) (Parser.expectMark sign) :=
  (isAtMark sign).bindSame fun _ => .ite (fun _ => next) fun _ => .unexpected _

/-- Both find the keyword or report its absence. -/
theorem expectKeyword (word : Keyword) :
    Alike Token.seen (Parser.expectKeyword word) (Parser.expectKeyword word) :=
  (isAtKeyword word).bindSame fun _ => .ite (fun _ => next) fun _ => .unexpected _

/-- Both find the same name or report its absence. -/
theorem expectIdentifier : Alike Prod.fst Parser.expectIdentifier Parser.expectIdentifier := by
  refine peek.bindSame fun kind => ?_
  split
  · exact next.bind fun _ _ _ => .pure rfl
  · exact .unexpected _

/-- The words ahead are the same. -/
theorem expectPropertyName :
    Alike Prod.fst Parser.expectPropertyName Parser.expectPropertyName := by
  intro c c' hlike
  -- A property name is the lexeme of a word, and words that look the same have one lexeme.
  have hword (hword : c.kind.isWord = true) : SameOutcome Prod.fst
      ((Parser.next >>= fun t => Pure.pure (t.lexeme, t.span)) c)
      ((Parser.next >>= fun t => Pure.pure (t.lexeme, t.span)) c') := by
    rw [bind_of_ok (next_eq c), bind_of_ok (next_eq c')]
    exact .ok (Token.lexeme_of_seen hlike.seen hword) hlike.behind
  rw [Parser.expectPropertyName, bind_of_ok (peek_eq c), bind_of_ok (peek_eq c'), ← hlike.kind]
  generalize c.kind = kind at hword
  cases kind with
  | identifier name => exact hword rfl
  | keyword word => exact hword rfl
  | _ => exact unexpected _ c c' hlike

/-- Both end the statement in the same way. -/
theorem endStatement : Alike id Parser.endStatement Parser.endStatement := by
  refine (skipMark _).bindSame fun isRead => .ite (fun _ => .pure rfl) fun _ => ?_
  refine peek.bindSame fun kind => ?_
  split
  · exact .pure rfl
  · exact .pure rfl
  · exact .unexpected _

/-! ### Loops -/

/-- Rounds that look the same either go on with states or end with results that do. -/
theorem round {κ ε : Type} {f f' : Step α β → Parser κ} {view'' : κ → ε}
    {p p' : Parser (Step α β)}
    (hp : Alike (Step.map view view') p p')
    (hagain : ∀ a a', view a = view a' → Alike view'' (f (.again a)) (f' (.again a')))
    (hdone : ∀ b b', view' b = view' b' → Alike view'' (f (.done b)) (f' (.done b'))) :
    Alike view'' (p >>= f) (p' >>= f') := by
  refine hp.bind fun s s' hs => ?_
  -- equal views of a step agree on whether the loop goes on
  cases s with
  | again a =>
    cases s' with
    | again a' => exact hagain a a' (Step.again.inj hs)
    | done b' => cases hs
  | done b =>
    cases s' with
    | again a' => cases hs
    | done b' => exact hdone b b' (Step.done.inj hs)

variable {step step' : α → Parser (Step α β)}

/-- Loops that may make the same number of rounds. -/
theorem repeatWithin
    (hstep : ∀ a a', view a = view a' → Alike (Step.map view view') (step a) (step' a'))
    {budget budget' : List Token} (hlength : budget.length = budget'.length) {a a' : α}
    (h : view a = view a') :
    Alike view' (Parser.repeatWithin step budget a) (Parser.repeatWithin step' budget' a') := by
  induction budget generalizing budget' a a' with
  | nil =>
    -- on both sides the rounds run out at once, and both then fail where they are
    cases List.length_eq_zero_iff.mp hlength.symm
    unfold Parser.repeatWithin
    refine (hstep a a' h).round (fun a a' _ => ?_) fun b b' h => ?_
    · exact peekSpan.bind fun span span' _ => .fail _ _ _
    · exact .pure h
  | cons t budget ih =>
    cases budget' with
    | nil => cases hlength
    | cons t' budget' =>
      unfold Parser.repeatWithin
      refine (hstep a a' h).round (fun a a' h => ?_) fun b b' h => ?_
      · exact ih (Nat.succ.inj hlength) h
      · exact .pure h

/-- Loops with steps that are alike are alike. -/
theorem repeatStep (view : α → γ) {view' : β → δ} {step step' : α → Parser (Step α β)}
    (hstep : ∀ a a', view a = view a' → Alike (Step.map view view') (step a) (step' a'))
    {a a' : α} (h : view a = view a') :
    Alike view' (Parser.repeatStep step a) (Parser.repeatStep step' a') := fun c c' hlike =>
  repeatWithin hstep hlike.length h c c' hlike

/-! ### New nodes -/

/-- Going on unless a fault happens first. -/
theorem guarded {P P' : Prop} [Decidable P] [Decidable P'] (hP : P ↔ P') {fault : SyntaxFault}
    {span span' : Span} (hp : Alike view p p') :
    Alike view
      (if P then do
        let _ ← (Parser.fail fault span : Parser PUnit)
        p
      else p)
      (if P' then do
        let _ ← (Parser.fail fault span' : Parser PUnit)
        p'
      else p') := by
  by_cases h : P
  · rw [if_pos h, if_pos (hP.mp h)]
    exact fun _ _ hlike => .error rfl hlike
  · rw [if_neg h, if_neg (mt hP.mpr h)]
    exact hp

/-- New expressions look the same when their forms do. -/
theorem newExpr {form form' : ExprForm} (h : form.unplaced = form'.unplaced) (span span' : Span) :
    Alike Expr.unplaced (Parser.newExpr form span) (Parser.newExpr form' span') := by
  intro c c' hlike
  obtain ⟨tokens, finished, exprs, functions, classes⟩ := hlike
  have hheight : form.heightBelow = form'.heightBelow := by
    rw [← form.heightBelow_unplaced, h, form'.heightBelow_unplaced]
  rw [newExpr_eq, newExpr_eq]
  refine guarded (by rw [hheight]) (.pure ?_) _ _
    ⟨tokens, finished, by rw [exprs], functions, classes⟩
  rw [Expr.unplaced, Expr.unplaced, exprs, hheight, h]

/-- New functions look the same when their parts do. -/
theorem newFunction {body body' : List Stmt} (h : stmtsUnplaced body = stmtsUnplaced body')
    (name : Option String) (kind : FunctionKind) (params : List String) (span span' : Span) :
    Alike FunctionDef.unplaced (Parser.newFunction name kind params body span)
      (Parser.newFunction name kind params body' span') := by
  intro c c' hlike
  obtain ⟨tokens, finished, exprs, functions, classes⟩ := hlike
  have hheight : heightOfAll body = heightOfAll body' := by
    rw [← heightOfAll_unplaced body, h, heightOfAll_unplaced]
  rw [newFunction_eq, newFunction_eq]
  refine guarded (by rw [hheight]) (.pure ?_) _ _
    ⟨tokens, finished, exprs, by rw [functions], classes⟩
  rw [FunctionDef.unplaced, FunctionDef.unplaced, functions, hheight, h]

/-- New classes look the same when their parts do. -/
theorem newClass {superclass superclass' : Option Expr}
    {constructor constructor' : Option FunctionDef}
    {members members' : List Member}
    (hsuperclass : optionalUnplaced superclass = optionalUnplaced superclass')
    (hconstructor : constructorUnplaced constructor = constructorUnplaced constructor')
    (hmembers : membersUnplaced members = membersUnplaced members') (name : Option String)
    (span span' : Span) :
    Alike ClassDef.unplaced (Parser.newClass name superclass constructor members span)
      (Parser.newClass name superclass' constructor' members' span') := by
  intro c c' hlike
  obtain ⟨tokens, finished, exprs, functions, classes⟩ := hlike
  -- the height of a class does not depend on places, so both limits agree
  have hheight : classHeightBelow superclass constructor members =
      classHeightBelow superclass' constructor' members' := by
    rw [← classHeightBelow_unplaced, hsuperclass, hconstructor, hmembers, classHeightBelow_unplaced]
  rw [newClass_eq, newClass_eq]
  refine guarded (by rw [hheight]) (.pure ?_) _ _
    ⟨tokens, finished, exprs, functions, by rw [classes]⟩
  rw [ClassDef.unplaced, ClassDef.unplaced, classes, hheight, hsuperclass, hconstructor, hmembers]

end Alike

end Parser

end Enclave
