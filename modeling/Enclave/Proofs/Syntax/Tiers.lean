import Enclave.Proofs.Syntax.Rereading

/-!
# Tiers of printed expressions

The tokens of an expression can be read by the parsers of its tier and of all looser ones
(`ReadsAt`), in front of any token that would not go on with it (`TokenKind.EndsTier`). For members,
calls and connectives, which group to the left, this is said of the loop that reads them: behind the
expression the loop goes on as if it had begun with the expression (`ReadsLoop`, `ReadsOperand`).
Parentheses make a single piece of any expression (`readsPrimary_inParens`), so what is printed
`within` a tier can be read at that tier (`ReadsAt.within`).
-/

namespace Enclave

namespace TokenKind

/-- Whether an expression can begin with the token. -/
def beginsExpression : TokenKind → Bool
  | .number _ | .string _ | .identifier _ => true
  | .keyword .kwTrue | .keyword .kwFalse | .keyword .kwNull | .keyword .kwUndefined => true
  | .keyword .kwThis | .keyword .kwFunction | .keyword .kwClass | .keyword .kwNew => true
  | .keyword .kwPrivate | .keyword .kwStatic | .keyword .kwSuper => true
  | .keyword .kwTypeof | .keyword .kwDelete | .operator .not | .operator .minus => true
  | .mark .leftParen | .mark .leftBrace => true
  | _ => false

/-- The token does not go on with an expression of this tier or a tighter one. -/
structure EndsTier (tier : Nat) (k : TokenKind) : Prop where
  suffix : k ≠ .mark .dot ∧ k ≠ .mark .leftBracket ∧ k ≠ .mark .leftParen
  connective : ∀ connective t, Parser.connective? k = some (connective, t) → t ≤ tier
  assign : tier = 0 → k ≠ .mark .assign

/-- What ends a tier ends every tighter one. -/
theorem EndsTier.mono {tier tier' : Nat} {k : TokenKind} (h : k.EndsTier tier)
    (hle : tier ≤ tier') : k.EndsTier tier' where
  suffix := h.suffix
  connective c t hc := (h.connective c t hc).trans hle
  assign hzero := h.assign (Nat.le_zero.mp (hzero ▸ hle))

/-- The marks behind which an expression has certainly ended. -/
def closes : TokenKind → Bool
  | .mark .rightParen | .mark .rightBracket | .mark .rightBrace | .mark .comma
  | .mark .semicolon | .mark .leftBrace | .endOfInput => true
  | _ => false

/-- What closes an expression ends every tier. -/
theorem endsTier_of_closes {k : TokenKind} (h : k.closes = true) (tier : Nat) :
    k.EndsTier tier := by
  refine ⟨⟨?_, ?_, ?_⟩, fun connective t hc => ?_, fun _ => ?_⟩
  all_goals first
    | (rintro rfl; cases h)
    | (unfold closes at h; split at h <;> first | cases hc | cases h)

/-- An operator ends its left operand. -/
theorem endsTier_of_connective {k : TokenKind} {connective : Parser.Connective} {tier : Nat}
    (h : Parser.connective? k = some (connective, tier)) (hpos : 0 < tier) : k.EndsTier tier where
  suffix := by refine ⟨?_, ?_, ?_⟩ <;> (rintro rfl; cases h)
  connective c t hc := by
    rw [h] at hc
    cases hc
    exact Nat.le_refl _
  assign hzero := absurd hzero hpos.ne'

end TokenKind

namespace Parser

variable {c c' : Cursor} {ks ts : List TokenKind} {e : Expr} {n m : Nat}

/-- The tiers of connectives are the first six. -/
theorem tier_le_of_connective? {k : TokenKind} {connective : Connective} {tier : Nat}
    (h : connective? k = some (connective, tier)) : tier ≤ 6 := by
  unfold connective? at h
  split at h <;> cases h <;> decide

/-! ### Reading at a tier -/

/-- A copy of the expression has been read, and the tokens lie ahead. -/
def Copy (e : Expr) (ks : List TokenKind) (e' : Expr) (c' : Cursor) : Prop :=
  e'.erased = e.erased ∧ c'.Ahead ks

def ReadsPrimary (ts : List TokenKind) (e : Expr) : Prop :=
  ∀ room c ks, c.Ahead (ts ++ ks) → Arrives (primary (.ofRoom room)) c (Copy e ks)

/-- A loop for what follows an expression goes on behind the expression. -/
def ReadsLoop (step : Level → Expr → Parser (Step Expr Expr)) (ts : List TokenKind) (e : Expr) :
    Prop :=
  ∀ room room' c ks post, c.Ahead (ts ++ ks) →
    (∀ e' c', Copy e ks e' c' → Loops (step (.ofRoom room')) post e' c') →
    Arrives (do repeatStep (step (.ofRoom room')) (← primary (.ofRoom room))) c post

def ReadsUnary (ts : List TokenKind) (e : Expr) : Prop :=
  ∀ room c ks, c.Ahead (ts ++ ks) → (headKind ks).EndsTier 7 →
    Arrives (unary (.ofRoom room)) c (Copy e ks)

/-- What is left of the loops for connectives arrives. -/
def Tails (deeper : Level) (tiers least : Nat) (post : Expr → Cursor → Prop) (e : Expr)
    (c : Cursor) : Prop :=
  match tiers with
  | 0 => post e c
  | tiers + 1 => Loops (binaryStep deeper (binaryTail deeper tiers) least) post e c

/-- The loop for connectives goes on behind the expression. -/
def ReadsOperand (n : Nat) (ts : List TokenKind) (e : Expr) : Prop :=
  ∀ room tiers least c ks post, 1 ≤ least → least ≤ n → 7 ≤ tiers + least → c.Ahead (ts ++ ks) →
    (headKind ks).EndsTier n →
    (∀ e' c', Copy e ks e' c' → Tails (.ofRoom room) tiers least post e' c') →
    Arrives (do binaryTail (.ofRoom room) tiers least (← unary (.ofRoom room))) c post

def ReadsAssignment (ts : List TokenKind) (e : Expr) : Prop :=
  ∀ room c ks, c.Ahead (ts ++ ks) → (headKind ks).EndsTier 0 →
    Arrives (assignment (.ofRoom room)) c (Copy e ks)

/-- The tokens begin as those of an expression do, and if the tier is that of a piece or of
something that follows one, then not with a unary operator. -/
def Begins (n : Nat) (ts : List TokenKind) : Prop :=
  ∃ k ts', ts = k :: ts' ∧ k.beginsExpression = true ∧ (8 ≤ n → unaryOp? k = none)

/-- The expression can be read from the tokens at a tier and at all that are looser. -/
structure ReadsAt (n : Nat) (ts : List TokenKind) (e : Expr) : Prop where
  begins : Begins n ts
  assignment : ReadsAssignment ts e
  operand : 1 ≤ n → ReadsOperand n ts e
  unary : 7 ≤ n → ReadsUnary ts e
  suffix : 8 ≤ n → ReadsLoop postfixStep ts e
  primary : 9 ≤ n → ReadsPrimary ts e

/-! ### Loops at their end -/

/-- The loop of postfixes is done at a token that ends the tightest tier. -/
theorem loops_postfixStep_done {deeper : Level} {post : Expr → Cursor → Prop}
    (h : c.kind.EndsTier 9) (hpost : post e c) : Loops (postfixStep deeper) post e c := by
  refine .round (.peek ?_)
  obtain ⟨hdot, hbracket, hparen⟩ := h.suffix
  split
  · next hkind => exact absurd hkind hdot
  · next hkind => exact absurd hkind hbracket
  · next hkind => exact absurd hkind hparen
  · exact .pure hpost

/-- The loop behind `new` is done where neither a dot nor a bracket stands. -/
theorem loops_newCalleeStep_done {deeper : Level} {post : Expr → Cursor → Prop}
    (hdot : c.kind ≠ .mark .dot) (hbracket : c.kind ≠ .mark .leftBracket) (hpost : post e c) :
    Loops (newCalleeStep deeper) post e c := by
  refine .round (.peek ?_)
  split
  · next hkind => exact absurd hkind hdot
  · next hkind => exact absurd hkind hbracket
  · exact .pure hpost

/-- The loop for tighter connectives ends before a connective of the tier. -/
theorem tails_done {deeper : Level} {tiers tier : Nat} {post : Expr → Cursor → Prop}
    (h : ∀ connective t, connective? c.kind = some (connective, t) → t ≤ tier) (hpost : post e c) :
    Tails deeper tiers (tier + 1) post e c := by
  -- The loop is over when no tier is left, or at a token that connects at a looser tier only.
  cases tiers with
  | zero => exact hpost
  | succ tiers =>
    refine .round (.peek ?_)
    split
    · exact .pure hpost
    · next connective t hconnective =>
      rw [if_pos (Nat.lt_succ_of_le (h _ _ hconnective))]
      exact .pure hpost

/-- A tail that ends well is read well. -/
theorem Tails.arrives {deeper : Level} {tiers least : Nat} {post : Expr → Cursor → Prop}
    (h : Tails deeper tiers least post e c) :
    Arrives (binaryTail deeper tiers least e) c post := by
  cases tiers with
  | zero => exact h
  | succ tiers => exact Loops.arrives h

/-! ### From tighter to looser tiers -/

/-- A primary expression can be read in front of any loop. -/
theorem ReadsPrimary.loop (h : ReadsPrimary ts e)
    (step : Level → Expr → Parser (Step Expr Expr)) : ReadsLoop step ts e := by
  intro room room' c ks post hc hpost
  exact (h room c ks hc).bind fun e' c' he => (hpost e' c' he).arrives

/-- What is read by the loop of postfixes can be read as a unary expression. -/
theorem ReadsLoop.unary (h : ReadsLoop postfixStep ts e) (hbegins : Begins 8 ts) :
    ReadsUnary ts e := by
  intro room c ks hc hends
  obtain ⟨k, ts', rfl, -, hop⟩ := hbegins
  refine .peek ?_
  rw [hc.kind, hop (Nat.le_refl _)]
  refine h room room c ks _ hc fun e' c' he => ?_
  exact loops_postfixStep_done (he.2.head ▸ hends.mono (by omega)) he

/-- A unary expression can be read as an operand of any connective. -/
theorem ReadsUnary.operand (h : ReadsUnary ts e) (n : Nat) : ReadsOperand n ts e := by
  intro room tiers least c ks post _ _ _ hc hends htails
  refine (h room c ks hc ⟨hends.suffix, fun connective t ht => ?_, nofun⟩).bind
    fun e' c' he => (htails e' c' he).arrives
  exact (tier_le_of_connective? ht).trans (by omega)

/-- An operand can be read as an assignment. -/
theorem ReadsOperand.assignment (h : ReadsOperand n ts e) (hn : 1 ≤ n) :
    ReadsAssignment ts e := by
  intro room c ks hc hends
  refine Ends.bind (m := Copy e ks) ?_ fun e' c' he => ?_
  · refine h room tierCount 1 c ks _ (Nat.le_refl _) hn (Nat.le_refl _) hc
      (hends.mono (Nat.zero_le _)) fun e' c' he => ?_
    exact tails_done (he.2.head ▸ hends.connective) he
  · exact .ifMark (fun hassign => absurd (he.2.head ▸ hassign) (hends.assign rfl)) fun _ =>
      .pure he

/-- An operand of a tier is one of every looser tier. -/
theorem ReadsOperand.mono (h : ReadsOperand n ts e) (hm : m ≤ n) : ReadsOperand m ts e := by
  intro room tiers least c ks post hone hleast htiers hc hends htails
  exact h room tiers least c ks post hone (hleast.trans hm) htiers hc (hends.mono hm) htails

/-- How tokens begin at a tier they begin at every looser one. -/
theorem Begins.mono (h : Begins n ts) (hm : m ≤ n) : Begins m ts := by
  obtain ⟨k, ts', hts, hk, hop⟩ := h
  exact ⟨k, ts', hts, hk, fun h8 => hop (h8.trans hm)⟩

/-- What is read at a tier is read at every looser one. -/
theorem ReadsAt.mono (h : ReadsAt n ts e) (hm : m ≤ n) : ReadsAt m ts e where
  begins := h.begins.mono hm
  assignment := h.assignment
  operand hone := (h.operand (hone.trans hm)).mono hm
  unary h7 := h.unary (h7.trans hm)
  suffix h8 := h.suffix (h8.trans hm)
  primary h9 := h.primary (h9.trans hm)

/-- What is read as an assignment is read at the loosest tier. -/
theorem ReadsAssignment.readsAt (h : ReadsAssignment ts e) (hbegins : Begins 0 ts) :
    ReadsAt 0 ts e :=
  ⟨hbegins, h, nofun, nofun, nofun, nofun⟩

/-- What is read as an operand of a tier is read at that tier. -/
theorem ReadsOperand.readsAt (h : ReadsOperand n ts e) (hbegins : Begins n ts) (hpos : 1 ≤ n)
    (hn : n < 7) : ReadsAt n ts e :=
  ⟨hbegins, h.assignment hpos, fun _ => h, fun _ => by omega, fun _ => by omega,
    fun _ => by omega⟩

/-- What is read as a unary expression is read at the seventh tier. -/
theorem ReadsUnary.readsAt (h : ReadsUnary ts e) (hbegins : Begins 7 ts) : ReadsAt 7 ts e :=
  ⟨hbegins, (h.operand 7).assignment (by omega), fun _ => h.operand 7,
    fun _ => h, fun _ => by omega, fun _ => by omega⟩

/-- What is read by the loop of postfixes is read at the eighth tier. -/
theorem ReadsLoop.readsAt (h : ReadsLoop postfixStep ts e) (hbegins : Begins 8 ts) :
    ReadsAt 8 ts e :=
  ⟨hbegins, ((h.unary hbegins).operand 8).assignment (by omega),
    fun _ => (h.unary hbegins).operand 8, fun _ => h.unary hbegins, fun _ => h,
    fun _ => by omega⟩

/-- What is read as a primary expression is read at the tightest tier. -/
theorem ReadsPrimary.readsAt (h : ReadsPrimary ts e) (hbegins : Begins 9 ts) :
    ReadsAt 9 ts e := by
  have hunary := (h.loop postfixStep).unary (hbegins.mono (by omega))
  exact ⟨hbegins, (hunary.operand 9).assignment (by omega),
    fun _ => hunary.operand 9, fun _ => hunary, fun _ => h.loop _, fun _ => h⟩

/-! ### Parentheses -/

/-- An expression is read up to a token that ends the loosest tier. -/
theorem arrives_expression (h : ReadsAssignment ts e) (room : Nat) (hc : c.Ahead (ts ++ ks))
    (hends : (headKind ks).EndsTier 0) : Arrives (expression (.ofRoom room)) c (Copy e ks) := by
  cases room with
  | zero => exact .peekSpan (.fail rfl)
  | succ room => exact h room c ks hc hends

/-- In parentheses any expression is a primary one. -/
theorem readsPrimary_inParens (h : ReadsAssignment ts e) : ReadsPrimary (inParens ts) e := by
  intro room c ks hc
  have hc₀ : c.Ahead (.mark .leftParen :: (ts ++ (.mark .rightParen :: ks))) := by
    rw [inParens, List.cons_append, List.append_assoc] at hc
    exact hc
  refine .peekSpan (.peek ?_)
  rw [hc₀.kind]
  refine Arrives.next hc₀ nofun fun t c₁ _ hc₁ => ?_
  -- The closing parenthesis ends the expression.
  refine (arrives_expression h room hc₁ (TokenKind.endsTier_of_closes rfl 0)).bind
    fun e' c₂ he => ?_
  exact Arrives.expectMark he.2 fun t c₃ hc₃ => .pure ⟨he.1, hc₃⟩

/-- Parentheses begin an expression of any tier. -/
theorem begins_inParens (n : Nat) (ts : List TokenKind) : Begins n (inParens ts) :=
  ⟨_, _, rfl, rfl, fun _ => rfl⟩

/-- What is printed within a tier can be read there. -/
theorem ReadsAt.within (h : ReadsAt n ts e) (hm : m ≤ 9) : ReadsAt m (within m n ts) e := by
  unfold Enclave.within
  split
  · exact ((readsPrimary_inParens h.assignment).readsAt (begins_inParens 9 ts)).mono hm
  · next hle => exact h.mono (not_lt.mp hle)

end Parser

end Enclave
