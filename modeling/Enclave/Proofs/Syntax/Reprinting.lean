import Enclave.Proofs.Syntax.Children
import Enclave.Proofs.Syntax.Operators

/-!
# Reading printed nodes

For every kind of node, what it means that its printed tokens are read as a copy of it
(`SyntaxNode.Rereads`), and why they are if those of its children are.
-/

namespace Enclave

structure Expr.Rereads (e : Expr) : Prop where
  reads : Parser.ReadsAt e.form.tier e.printed e
  callee : e.isCallee = true → 8 ≤ e.form.tier → Parser.ReadsLoop Parser.newCalleeStep e.printed e

def Accessor.Rereads (a : Accessor) : Prop :=
  ∀ room c ks, c.Ahead (a.printed ++ ks) → headKind ks ≠ .mark .leftParen →
    Parser.Arrives (Parser.accessorHead (.ofRoom room)) c fun a' c' =>
      a'.erased = a.erased ∧ c'.Ahead ks

def FunctionDef.Rereads (f : FunctionDef) : Prop :=
  ∀ room c ks start, c.Ahead (f.printed ++ ks) →
    Parser.Arrives (Parser.functionRest (.ofRoom room) f.name f.kind start) c fun f' c' =>
      f'.erased = f.erased ∧ c'.Ahead ks

def ClassDef.Rereads (d : ClassDef) : Prop :=
  ∀ room c ks isNameRequired, (isNameRequired = true → d.name.isSome = true) →
    c.Ahead (.keyword .kwClass :: (d.printed ++ ks)) →
    Parser.Arrives (Parser.classDef (.ofRoom room) isNameRequired) c fun d' c' =>
      d'.erased = d.erased ∧ c'.Ahead ks

/-- A declaration is read in one round of a class body. -/
def Member.Rereads (m : Member) : Prop :=
  ∀ room c ks (body : Parser.ClassBody), c.Ahead (m.printed ++ ks) →
    Parser.Arrives (Parser.classStep (.ofRoom room) body) c fun s c' =>
      ∃ m', s = .again { body with members := body.members ++ [m'] } ∧ m'.erased = m.erased ∧
        c'.Ahead ks

/-- Whether a block goes on with the token. -/
def TokenKind.continuesBlock : TokenKind → Bool
  | .mark .rightBrace | .endOfInput | .keyword .kwElse => false
  | _ => true

structure Stmt.Rereads (s : Stmt) : Prop where
  begins : ∃ k ts, s.printed = k :: ts ∧ k.continuesBlock = true
  reads : ∀ room c ks, c.Ahead (s.printed ++ ks) →
    (s.endsOpen = true → headKind ks ≠ .keyword .kwElse) →
    Parser.Arrives (Parser.statementBody (.ofRoom room)) c fun s' c' =>
      s'.erased = s.erased ∧ c'.Ahead ks

/-- The printed tokens of a node are read as a copy of it, unless it is nested too deeply. -/
def SyntaxNode.Rereads : SyntaxNode → Prop
  | .stmt s => s.Rereads
  | .expr e => e.Rereads
  | .accessor a => a.Rereads
  | .function f => f.Rereads
  | .class d => d.Rereads
  | .member m => m.Rereads

namespace Parser

variable {c c' : Cursor} {ks ts : List TokenKind} {room : Nat} {id : ExprId} {span : Span}
  {height : Nat}

/-- A cursor in front of printed tokens stands at a token that an expression may begin with. -/
theorem Begins.kind {n : Nat} (h : Begins n ts) (hc : c.Ahead (ts ++ ks)) :
    c.kind.beginsExpression = true := by
  obtain ⟨k, ts', rfl, hk, -⟩ := h
  rw [hc.kind]
  exact hk

/-- How printed tokens begin does not depend on what follows them. -/
theorem Begins.append {n : Nat} (h : Begins n ts) (ks : List TokenKind) : Begins n (ts ++ ks) := by
  obtain ⟨k, ts', rfl, hk, hop⟩ := h
  exact ⟨k, ts' ++ ks, rfl, hk, hop⟩

/-! ### Lists -/

/-- A comma or a closing mark ends an expression of the loosest tier. -/
theorem endsTier_separator {sign close : Mark} (h : sign = .comma ∨ sign = close)
    (hclose : (TokenKind.mark close).closes = true) : (TokenKind.mark sign).EndsTier 0 := by
  rcases h with rfl | rfl
  · exact TokenKind.endsTier_of_closes rfl 0
  · exact TokenKind.endsTier_of_closes hclose 0

/-- Printed arguments are read again as arguments that look the same. -/
theorem arrives_args {es : List Expr} (h : ∀ e ∈ es, e.Rereads)
    (hc : c.Ahead (inParens (separated (exprsPrinted es)) ++ ks)) :
    Arrives (args (.ofRoom room)) c fun es' c' =>
      es'.map Expr.erased = es.map Expr.erased ∧ c'.Ahead ks := by
  rw [inParens, exprsPrinted_eq, List.cons_append, List.append_assoc] at hc
  refine Arrives.expectMark hc fun t c₁ hc₁ => ?_
  refine Ends.bind (loops_separated Expr.erased Expr.printed .rightParen ?_ ?_ (by decide) hc₁)
    fun es' c₂ h₂ => Arrives.expectMark h₂.2 fun t c₃ hc₃ => .pure ⟨h₂.1, hc₃⟩
  · intro ks xs c hc
    exact .ifMark (fun _ => .pure ⟨rfl, hc⟩) fun hnot => absurd hc.kind hnot
  · intro before after xs x hitems _ sign ks c hsign hc
    have hx := (h x (by simp [hitems])).reads
    refine .ifMark (fun hclose => ?_) fun _ => ?_
    · -- an expression never begins with the closing mark
      have hbegins := hx.begins.kind hc
      rw [hclose] at hbegins
      cases hbegins
    · refine (arrives_expression hx.assignment room hc (endsTier_separator hsign rfl)).bind
        fun e c₁ he => ?_
      exact (arrives_separator he.2).imp fun s c' hs => ⟨e, he.1, hs⟩

/-- Printed parameters are read again as the same names. -/
theorem arrives_params {names : List String} (hnodup : names.Nodup)
    (hc : c.Ahead (printedParams names ++ ks)) :
    Arrives params c fun names' c' => names' = names ∧ c'.Ahead ks := by
  rw [printedParams, inParens, List.cons_append, List.append_assoc] at hc
  refine Arrives.expectMark hc fun t c₁ hc₁ => ?_
  refine Ends.bind (loops_separated id (fun name => [.identifier name]) .rightParen ?_ ?_
    (by decide) hc₁) fun names' c₂ h₂ => Arrives.expectMark h₂.2 fun t c₃ hc₃ =>
      .pure ⟨by simpa using h₂.1, hc₃⟩
  · intro ks xs c hc
    exact .ifMark (fun _ => .pure ⟨rfl, hc⟩) fun hnot => absurd hc.kind hnot
  · intro before after xs x hitems hxs sign ks c hsign hc
    refine .ifMark (fun hclose => ?_) fun _ => ?_
    · rw [hc.kind] at hclose
      cases hclose
    · refine Arrives.expectIdentifier hc fun span c₁ hc₁ => .unless (fun hold => ?_) fun _ => ?_
      · -- a name that occurs before would occur twice
        simp only [List.map_id] at hxs
        subst hxs
        rw [hitems, List.nodup_append] at hnodup
        exact absurd rfl (hnodup.2.2 x (by simpa using hold) x List.mem_cons_self)
      · exact (arrives_separator hc₁).imp fun s c' hs => ⟨x, rfl, hs⟩

/-- A printed property name is read again as itself. -/
theorem arrives_propertyName {name : String} (hc : c.Ahead (.string name :: ks)) :
    Arrives propertyName c fun name' c' => name' = name ∧ c'.Ahead ks := by
  refine .peek ?_
  rw [hc.kind]
  exact Arrives.next hc nofun fun t c₁ _ hc₁ => .pure ⟨rfl, hc₁⟩

/-- A printed object literal is read again as a primary expression. -/
theorem readsPrimary_object {ps : List Property} (h : ∀ p ∈ ps, p.value.Rereads) :
    ReadsPrimary (ExprForm.object ps).printed ⟨id, span, height, .object ps⟩ := by
  intro room c ks hc
  rw [ExprForm.printed, propertiesPrinted_eq, List.cons_append, List.append_assoc] at hc
  refine .peekSpan (.peek ?_)
  rw [hc.kind]
  refine Arrives.expectMark hc fun t c₁ hc₁ => ?_
  refine Ends.bind (loops_separated Property.erased Property.printed .rightBrace ?_ ?_ nofun hc₁)
    fun ps' c₂ h₂ => Arrives.expectMark h₂.2 fun t c₃ hc₃ => arrives_newExpr hc₃ ?_
  · -- no property is left: the brace closes the literal
    intro ks xs c hc
    exact .ifMark (fun _ => .pure ⟨rfl, hc⟩) fun hnot => absurd hc.kind hnot
  · -- a property is left, and its value is read up to the separator
    intro before after xs x hitems _ sign ks c hsign hc
    have hx := (h x (by simp [hitems])).reads
    rw [Property.printed, List.cons_append, List.cons_append] at hc
    refine .ifMark (fun hclose => ?_) fun _ => ?_
    · rw [hc.kind] at hclose
      cases hclose
    · refine (arrives_propertyName hc).bind ?_
      rintro _ c₁ ⟨rfl, hc₁⟩
      refine Arrives.expectMark hc₁ fun t c₂ hc₂ => ?_
      refine (arrives_expression hx.assignment room hc₂ (endsTier_separator hsign rfl)).bind
        fun e c₃ he => ?_
      refine (arrives_separator he.2).imp fun s c' hs => ⟨⟨x.name, e⟩, ?_, hs⟩
      rw [Property.erased_eq, Property.erased_eq, he.1]
  · rw [ExprForm.erased, ExprForm.erased, propertiesErased_eq, propertiesErased_eq, h₂.1]

/-- A printed statement is read again, unless an `else` behind it would be taken in. -/
theorem arrives_statement {s : Stmt} (h : s.Rereads) (hc : c.Ahead (s.printed ++ ks))
    (helse : s.endsOpen = true → headKind ks ≠ .keyword .kwElse) :
    Arrives (statement (.ofRoom room)) c fun s' c' => s'.erased = s.erased ∧ c'.Ahead ks := by
  refine Ends.bind (m := fun s' c' => s'.erased = s.erased ∧ c'.Ahead ks) ?_
    fun _ _ h => .unless (fun _ => rfl) fun _ => .pure h
  cases room with
  | zero => exact .peekSpan (.fail rfl)
  | succ room => exact h.reads room c ks hc helse

/-- No `else` stands behind a statement of a block. -/
theorem headKind_ne_else {body : List Stmt} (h : ∀ s ∈ body, s.Rereads)
    (hks : headKind ks ≠ .keyword .kwElse) :
    headKind (stmtsPrinted body ++ ks) ≠ .keyword .kwElse := by
  cases body with
  | nil => exact hks
  | cons s rest =>
    obtain ⟨k, ts, hts, hk⟩ := (h s List.mem_cons_self).begins
    rw [stmtsPrinted, hts]
    rintro hkind
    rw [show k = .keyword .kwElse from hkind] at hk
    cases hk

/-- A printed block is read again as statements that look the same. -/
theorem arrives_block {body : List Stmt} (h : ∀ s ∈ body, s.Rereads)
    (hc : c.Ahead (.mark .leftBrace :: (stmtsPrinted body ++ .mark .rightBrace :: ks))) :
    Arrives (block (.ofRoom room)) c fun body' c' =>
      body'.map Stmt.erased = body.map Stmt.erased ∧ c'.Ahead ks := by
  refine Arrives.expectMark hc fun t c₁ hc₁ => Loops.arrives ?_
  -- the statements read, which come in reverse, and those left make up the body
  refine Loops.along (fun rest read c => (∀ s ∈ rest, s.Rereads) ∧
    read.reverse.map Stmt.erased ++ rest.map Stmt.erased = body.map Stmt.erased ∧
    c.Ahead (stmtsPrinted rest ++ .mark .rightBrace :: ks)) ?_ ?_ ⟨h, rfl, hc₁⟩
  · rintro s rest read c ⟨hrest, hbody, hc⟩
    have hs := hrest s List.mem_cons_self
    have hrest' := fun s' hs' => hrest s' (List.mem_cons_of_mem s hs')
    -- a statement begins with a token that neither closes the block nor ends the input
    obtain ⟨k, ts, hts, hk⟩ := hs.begins
    rw [stmtsPrinted, List.append_assoc] at hc
    have hkind : c.kind = k := by
      rw [hts] at hc
      exact hc.kind
    refine .ifMark (fun hclose => ?_) fun _ => .ifEnd (fun hend => ?_) fun _ => ?_
    · rw [← hkind, hclose] at hk
      cases hk
    · rw [← hkind, hend] at hk
      cases hk
    · refine (arrives_statement hs hc fun _ => headKind_ne_else hrest' nofun).bind
        fun s' c' hs' => .pure ⟨_, rfl, ?_, hrest', ?_, hs'.2⟩
      · rw [hs'.2.length, hc.length, hts]
        simp only [List.length_append, List.length_cons]
        omega
      · rw [List.reverse_cons, List.map_append, List.append_assoc, List.map_singleton, hs'.1]
        exact hbody
  · rintro read c ⟨-, hbody, hc⟩
    refine .ifMark (fun _ => ?_) fun hnot => absurd hc.kind hnot
    exact Arrives.next hc nofun fun t c' _ hc' => .pure ⟨_, rfl, by simpa using hbody, hc'⟩

/-! ### Functions -/

/-- A function is printed as its parameters and then its statements in braces. -/
theorem FunctionDef.printed_eq (f : FunctionDef) :
    f.printed = printedParams f.params ++
      .mark .leftBrace :: (stmtsPrinted f.body ++ [.mark .rightBrace]) := by
  obtain ⟨site, name, kind, params, body, span, height⟩ := f
  rw [FunctionDef.printed]

/-- A function whose statements are read again is read again. -/
theorem rereads_function {f : FunctionDef} (h : ∀ s ∈ f.body, s.Rereads)
    (hnodup : f.params.Nodup) : f.Rereads := by
  intro room c ks start hc
  rw [FunctionDef.printed_eq, List.append_assoc, List.cons_append, List.append_assoc] at hc
  refine (arrives_params hnodup hc).bind ?_
  rintro _ c₁ ⟨rfl, hc₁⟩
  refine (arrives_block h hc₁).bind fun body c₂ hbody => .lastSpan ?_
  refine .newFunction rfl fun site height c₃ hstays => ⟨?_, hbody.2.stays hstays⟩
  obtain ⟨site, name, kind, params, body, span, height⟩ := f
  rw [FunctionDef.erased, FunctionDef.erased, stmtsErased_eq, stmtsErased_eq, hbody.1]

/-- A printed name, or the lack of one, is read again. -/
theorem arrives_definedName {missing : Expectation} {isRequired : Bool} {name : Option String}
    (hrequired : isRequired = true → name.isSome = true)
    (hks : ∀ other, headKind ks ≠ .identifier other) (hc : c.Ahead (printedName name ++ ks)) :
    Arrives (definedName missing isRequired) c fun name' c' => name' = name ∧ c'.Ahead ks := by
  refine .peek ?_
  cases name with
  | some name =>
    have hc : c.Ahead (.identifier name :: ks) := hc
    rw [hc.kind]
    exact Arrives.expectIdentifier hc fun _ c₁ hc₁ => .pure ⟨rfl, hc₁⟩
  | none =>
    split
    · -- without a name, what follows is no identifier
      next other hkind => exact absurd (hc.head.symm.trans hkind) (hks other)
    · split
      · next hisRequired => cases hrequired hisRequired
      · exact .pure ⟨rfl, hc⟩

/-- A printed function definition is read again behind its keyword. -/
theorem arrives_functionDef {f : FunctionDef} (h : f.Rereads) (hkind : f.kind = .plain)
    {isNameRequired : Bool} (hname : isNameRequired = true → f.name.isSome = true)
    (hc : c.Ahead (.keyword .kwFunction :: (printedName f.name ++ f.printed ++ ks))) :
    Arrives (functionDef (.ofRoom room) isNameRequired) c fun f' c' =>
      f'.erased = f.erased ∧ c'.Ahead ks := by
  rw [List.append_assoc] at hc
  refine Arrives.expectKeyword hc fun t c₁ hc₁ => ?_
  have hparens : ∀ other, headKind (f.printed ++ ks) ≠ .identifier other := by
    rw [FunctionDef.printed_eq]
    exact fun _ => nofun
  refine (arrives_definedName hname hparens hc₁).bind ?_
  rintro _ c₂ ⟨rfl, hc₂⟩
  exact hkind ▸ h room c₂ ks _ hc₂

/-! ### Pieces -/

/-- The token of a form that is a single one. -/
def literalKind? : ExprForm → Option TokenKind
  | .number value => some (.number value)
  | .string value => some (.string value)
  | .bool true => some (.keyword .kwTrue)
  | .bool false => some (.keyword .kwFalse)
  | .null => some (.keyword .kwNull)
  | .undefined => some (.keyword .kwUndefined)
  | .ident name => some (.identifier name)
  | .this => some (.keyword .kwThis)
  | _ => none

/-- A literal is printed as its one token. -/
theorem printed_of_literalKind? {form : ExprForm} {k : TokenKind} (h : literalKind? form = some k) :
    form.printed = [k] := by
  unfold literalKind? at h
  split at h <;> cases h <;> rfl

/-- A printed literal is read again as a primary expression. -/
theorem readsPrimary_literal {form : ExprForm} {k : TokenKind} (h : literalKind? form = some k) :
    ReadsPrimary [k] ⟨id, span, height, form⟩ := by
  intro room c ks hc
  -- Each literal is read by the same two steps; only the form differs.
  have hnew : ∀ start : Span, Arrives (do
      let _ ← next
      newExpr form (start.merge (← lastSpan))) c (Copy ⟨id, span, height, form⟩ ks) := by
    intro start
    refine Arrives.next hc ?_ fun t c₁ _ hc₁ => .lastSpan (arrives_newExpr hc₁ rfl)
    unfold literalKind? at h
    split at h <;> cases h <;> exact nofun
  refine .peekSpan (.peek ?_)
  rw [hc.kind]
  unfold literalKind? at h
  split at h <;> cases h <;> exact hnew _

/-- A printed function expression is read again as a primary expression. -/
theorem readsPrimary_functionDef {f : FunctionDef} (h : f.Rereads) (hkind : f.kind = .plain) :
    ReadsPrimary (ExprForm.functionDef f).printed ⟨id, span, height, .functionDef f⟩ := by
  intro room c ks hc
  refine .peekSpan (.peek ?_)
  rw [hc.kind]
  refine Ends.bind (arrives_functionDef h hkind nofun hc) fun f' c₁ hf => .lastSpan ?_
  exact arrives_newExpr hf.2 (by rw [ExprForm.erased, ExprForm.erased, hf.1])

/-- A printed class expression is read again as a primary expression. -/
theorem readsPrimary_classDef {d : ClassDef} (h : d.Rereads) :
    ReadsPrimary (ExprForm.classDef d).printed ⟨id, span, height, .classDef d⟩ := by
  intro room c ks hc
  refine .peekSpan (.peek ?_)
  rw [hc.kind]
  refine Ends.bind (h room c ks false nofun hc) fun d' c₁ hd => .lastSpan ?_
  exact arrives_newExpr hd.2 (by rw [ExprForm.erased, ExprForm.erased, hd.1])

/-- A printed call of `super` is read again as a primary expression. -/
theorem readsPrimary_superCall {args : List Expr} (h : ∀ e ∈ args, e.Rereads) :
    ReadsPrimary (ExprForm.superCall args).printed ⟨id, span, height, .superCall args⟩ := by
  intro room c ks hc
  rw [ExprForm.printed, List.cons_append] at hc
  refine .peekSpan (.peek ?_)
  rw [hc.kind]
  -- First the form behind the keyword, then the node around it.
  refine Ends.bind (m := fun form c' =>
    form.erased = (ExprForm.superCall args).erased ∧ c'.Ahead ks) ?_
    fun form c₁ hform => .lastSpan (arrives_newExpr hform.2 hform.1)
  refine Arrives.next hc nofun fun t c₁ _ hc₁ =>
    .ifMark (fun _ => ?_) fun hnot => absurd hc₁.kind hnot
  refine (arrives_args h hc₁).bind fun args' c₂ hargs => .pure ⟨?_, hargs.2⟩
  rw [ExprForm.erased, ExprForm.erased, exprsErased_eq, exprsErased_eq, hargs.1]

/-- A printed member of `super` is read again as a primary expression. -/
theorem readsPrimary_superMember (name : String) :
    ReadsPrimary (ExprForm.superMember name).printed ⟨id, span, height, .superMember name⟩ := by
  intro room c ks hc
  have hc : c.Ahead (.keyword .kwSuper :: .mark .dot :: .word name :: ks) := hc
  refine .peekSpan (.peek ?_)
  rw [hc.kind]
  refine Ends.bind (m := fun form c' => form = ExprForm.superMember name ∧ c'.Ahead ks) ?_ ?_
  · -- A dot stands there and no parenthesis, so it is not a call.
    refine Arrives.next hc nofun fun t c₁ _ hc₁ => .ifMark (fun hparen => ?_) fun _ => ?_
    · rw [hc₁.kind] at hparen
      cases hparen
    · refine .ifSkipMark (fun _ => ?_) fun hnot => absurd hc₁.kind hnot
      exact Arrives.expectPropertyName (hc₁.behind nofun) fun _ c₂ hc₂ => .pure ⟨rfl, hc₂⟩
  · rintro _ c₁ ⟨rfl, hc₁⟩
    exact .lastSpan (arrives_newExpr hc₁ rfl)

/-- A printed construction is read again as a primary expression. -/
theorem readsPrimary_new {callee : Expr} {args : List Expr} (hcallee : callee.Rereads)
    (hargs : ∀ e ∈ args, e.Rereads) :
    ReadsPrimary (ExprForm.new callee args).printed ⟨id, span, height, .new callee args⟩ := by
  -- a callee that is itself a call, or too loose, is printed within parentheses
  have htokens : ReadsLoop newCalleeStep
      (if callee.isCallee then within 8 callee.form.tier callee.printed
        else inParens callee.printed) callee := by
    have hparens := (readsPrimary_inParens hcallee.reads.assignment).loop newCalleeStep
    unfold within
    split
    · next his =>
      split
      · exact hparens
      · next htight => exact hcallee.callee his (not_lt.mp htight)
    · exact hparens
  intro room c ks hc
  rw [ExprForm.printed, List.cons_append, List.append_assoc] at hc
  refine .peekSpan (.peek ?_)
  rw [hc.kind]
  refine Arrives.next hc nofun fun t c₁ _ hc₁ => ?_
  -- the callee is read up to the parenthesis that opens the arguments
  have hloop : Arrives (Level.ofRoom room).primary c₁ fun e c' => Arrives
      (newCalleeTail (.ofRoom room) e) c'
      (Copy callee (inParens (separated (exprsPrinted args)) ++ ks)) := by
    refine arrives_deeperPrimary fun room' => Ends.bind_iff.mp ?_
    refine htokens room' room c₁ _ _ hc₁ fun e' c' he' => ?_
    have hkind : c'.kind = .mark .leftParen := he'.2.kind
    exact loops_newCalleeStep_done (by rw [hkind]; exact nofun) (by rw [hkind]; exact nofun) he'
  refine Ends.bind hloop fun e c₂ he => Ends.bind he fun callee' c₃ hcallee' => ?_
  refine .ifMark (fun _ => ?_) fun hnot => absurd hcallee'.2.kind hnot
  refine (arrives_args hargs hcallee'.2).bind fun args' c₄ hargs' => .lastSpan ?_
  refine arrives_newExpr hargs'.2 ?_
  rw [ExprForm.erased, ExprForm.erased, hcallee'.1, exprsErased_eq, exprsErased_eq, hargs'.1]

/-! ### Calls -/

/-- A printed call is read again as one round behind its callee. -/
theorem readsLoop_call {callee : Expr} {args : List Expr}
    (hcallee : ReadsLoop postfixStep ts callee) (hargs : ∀ e ∈ args, e.Rereads) :
    ReadsLoop postfixStep (ts ++ inParens (separated (exprsPrinted args)))
      ⟨id, span, height, .call callee args⟩ := by
  intro room room' c ks post hc hpost
  rw [List.append_assoc] at hc
  -- First the rounds of the callee, then the round of the arguments.
  refine hcallee room room' c _ post hc fun callee' c₁ hcallee' => .round (.peek ?_)
  have hc₁ := hcallee'.2
  rw [show c₁.kind = .mark .leftParen from hc₁.kind]
  refine (arrives_args hargs hc₁).bind fun args' c₂ hargs' => .lastSpan ?_
  refine arrives_again hpost hc₁ hargs'.2 ?_ ?_
  · simp only [inParens, List.length_append, List.length_cons]
    omega
  · rw [ExprForm.erased, ExprForm.erased, hcallee'.1, exprsErased_eq, exprsErased_eq, hargs'.1]

/-! ### Accessors -/

/-- An accessor whose target is read again is read again. -/
theorem rereads_accessor {a : Accessor} (h : ∀ span e, a = .ofTarget span e → e.Rereads) :
    a.Rereads := by
  intro room c ks hc hks
  cases a with
  | ofClass span =>
    have hc : c.Ahead (.keyword .kwStatic :: ks) := hc
    refine Arrives.next hc TokenKind.noConfusion fun t c₁ ht hc₁ => ?_
    rw [if_pos ht]
    exact .pure ⟨rfl, hc₁⟩
  | ofReceiver span =>
    have hc : c.Ahead (.keyword .kwPrivate :: ks) := hc
    refine Arrives.next hc TokenKind.noConfusion fun t c₁ ht hc₁ => ?_
    rw [if_neg (by rw [ht]; decide)]
    -- no parenthesis follows, or it would have been read as a target
    refine .ifSkipMark (fun hopen => absurd (hc₁.head.symm.trans hopen) hks) fun _ => ?_
    exact .pure ⟨rfl, hc₁⟩
  -- the target stands in parentheses, which close it
  | ofTarget span target =>
    rw [Accessor.printed, inParens, List.cons_append, List.cons_append, List.append_assoc] at hc
    refine Arrives.next hc TokenKind.noConfusion fun t c₁ ht hc₁ => ?_
    rw [if_neg (by rw [ht]; decide)]
    refine .ifSkipMark (fun _ => ?_) fun hnot => absurd hc₁.kind hnot
    refine (arrives_expression (h span target rfl).reads.assignment room
      (hc₁.behind TokenKind.noConfusion)
      (TokenKind.endsTier_of_closes rfl 0)).bind fun target' c₂ htarget => ?_
    refine Arrives.expectMark htarget.2 fun t c₃ hc₃ => .pure ⟨?_, hc₃⟩
    rw [Accessor.erased, Accessor.erased, htarget.1]

/-- An accessor begins with its keyword. -/
theorem kind_of_accessor {a : Accessor} (hc : c.Ahead (a.printed ++ ks)) :
    c.kind = .keyword .kwPrivate ∨ c.kind = .keyword .kwStatic := by
  cases a with
  | ofClass span => exact .inr hc.kind
  | ofReceiver span => exact .inl hc.kind
  | ofTarget span target => exact .inl hc.kind

/-- A printed slot is read again as a primary expression. -/
theorem readsPrimary_slot {a : Accessor} {key : SlotKey} (ha : a.Rereads)
    (hkey : ∀ e, key = .computed e → e.Rereads) :
    ReadsPrimary (ExprForm.slot a key).printed ⟨id, span, height, .slot a key⟩ := by
  intro room c ks hc
  rw [ExprForm.printed, List.append_assoc] at hc
  have hslot : Arrives (slot (.ofRoom room)) c (Copy ⟨id, span, height, .slot a key⟩ ks) := by
    -- the key starts with a dot or a bracket, so the accessor is not read on into it
    have hparen : headKind (key.printed ++ ks) ≠ .mark .leftParen := by
      cases key <;> rintro ⟨⟩
    refine (ha room c _ hc hparen).bind fun a' c₁ ha' => ?_
    have hc₁ := ha'.2
    -- the key is what makes a slot of the accessor, named or computed
    refine Ends.bind (m := fun e c' => ∃ e', e = some e' ∧
      Copy ⟨id, span, height, .slot a key⟩ ks e' c') (.peek ?_) ?_
    · cases key with
      | named name =>
        have hc₁ : c₁.Ahead (.mark .dot :: .word name :: ks) := hc₁
        rw [hc₁.kind]
        refine Arrives.next hc₁ TokenKind.noConfusion fun t c₂ _ hc₂ => ?_
        refine Arrives.expectPropertyName hc₂ fun nameSpan c₃ hc₃ => .map ?_
        refine Ends.imp (arrives_newExpr hc₃ ?_) fun e' c' he' => ⟨e', rfl, he'⟩
        rw [ExprForm.erased, ExprForm.erased, ha'.1]
      | computed key =>
        rw [SlotKey.printed, List.cons_append, List.append_assoc] at hc₁
        rw [hc₁.kind]
        refine Arrives.next hc₁ TokenKind.noConfusion fun t c₂ _ hc₂ => ?_
        refine (arrives_expression (hkey key rfl).reads.assignment room hc₂
          (TokenKind.endsTier_of_closes rfl 0)).bind fun key' c₃ hkey' => ?_
        refine Arrives.expectMark hkey'.2 fun t c₄ hc₄ => .map ?_
        refine Ends.imp (arrives_newExpr hc₄ ?_) fun e' c' he' => ⟨e', rfl, he'⟩
        rw [ExprForm.erased, ExprForm.erased, ha'.1, SlotKey.erased, SlotKey.erased, hkey'.1]
    · rintro _ c₂ ⟨e', rfl, he'⟩
      exact .pure he'
  refine .peekSpan (.peek ?_)
  rcases kind_of_accessor hc with hkind | hkind <;> rw [hkind] <;> exact hslot

/-- A printed `in` with an accessor is read again behind its key. -/
theorem readsOperand_hasSlot {key : Expr} {a : Accessor} (hkey : ReadsOperand 4 ts key)
    (ha : a.Rereads) :
    ReadsOperand 4 (ts ++ .keyword .kwIn :: a.printed) ⟨id, span, height, .hasSlot key a⟩ := by
  intro room tiers least c ks post hone hleast htiers hc hends hpost
  rw [List.append_assoc, List.cons_append] at hc
  have hkends := @TokenKind.endsTier_of_connective (.keyword .kwIn) _ 4 rfl (by omega)
  refine hkey room tiers least c _ post hone hleast htiers hc hkends fun key' c₁ hkey' => ?_
  have hc₁ := hkey'.2
  obtain ⟨tiers, rfl⟩ : ∃ t, tiers = t + 1 := ⟨tiers - 1, by omega⟩
  -- one more round of the tier of `in`, which the accessor ends at once
  refine Loops.round (.peek ?_)
  rw [hc₁.kind]
  change Ends _ (if 4 < least then _ else _) _ _
  rw [if_neg (not_lt.mpr hleast)]
  refine Arrives.next hc₁ nofun fun t c₂ _ hc₂ => ?_
  obtain ⟨hdot, hbracket, hparen⟩ := hends.suffix
  refine Ends.bind (m := fun side c' => ∃ e, side = .whole e ∧
    Copy ⟨id, span, height, .hasSlot key a⟩ ks e c') ?_ ?_
  · refine Ends.bind (m := fun isThere c' => isThere = true ∧ c' = c₂) (.peek ?_) ?_
    · rcases kind_of_accessor hc₂ with hkind | hkind <;> rw [hkind] <;> exact .pure ⟨rfl, rfl⟩
    · rintro _ _ ⟨rfl, rfl⟩
      -- nothing that could be a key follows, so the accessor stands for itself
      refine Ends.bind (ha room _ ks hc₂ hparen) fun a' c₃ ha' => ?_
      refine Ends.bind (m := fun e c' => e = none ∧ c'.Ahead ks) (.peek ?_) ?_
      · split
        · next hkind => exact absurd (ha'.2.head.symm.trans hkind) hdot
        · next hkind => exact absurd (ha'.2.head.symm.trans hkind) hbracket
        · exact .pure ⟨rfl, ha'.2⟩
      · rintro _ c₄ ⟨rfl, hc₄⟩
        refine Ends.bind (arrives_newExpr hc₄ ?_) fun e c₅ he => .pure ⟨e, rfl, he⟩
        rw [ExprForm.erased, ExprForm.erased, hkey'.1, ha'.1]
  · rintro _ c₃ ⟨e, rfl, he⟩
    refine .pure ⟨?_, hpost e c₃ he⟩
    rw [he.2.length, hc₁.length]
    simp only [List.length_cons, List.length_append]
    omega

/-! ### Classes -/

/-- A printed function begins with the parenthesis of its parameters. -/
theorem FunctionDef.headKind_printed (f : FunctionDef) :
    headKind (f.printed ++ ks) = .mark .leftParen := by
  rw [FunctionDef.printed_eq]
  rfl

/-- A public method whose function is read again is read again. -/
theorem rereads_method {name : String} {f : FunctionDef} (h : f.Rereads)
    (hregular : (MemberForm.method f).IsRegular name) :
    (⟨name, .method f, span⟩ : Member).Rereads := by
  intro room c ks body hc
  obtain ⟨hname, hkind, hword⟩ := hregular
  have hc : c.Ahead (.word name :: (f.printed ++ ks)) := hc
  have hmember : Arrives (publicMethod (.ofRoom room)) c fun m c' =>
      m.erased = (⟨name, .method f, span⟩ : Member).erased ∧ c'.Ahead ks := by
    refine Arrives.expectPropertyName hc fun start c₁ hc₁ => ?_
    have hrest := h room c₁ ks start hc₁
    rw [hname, hkind] at hrest
    refine Ends.bind hrest fun f' c₂ hf => .lastSpan (.pure ⟨?_, hf.2⟩)
    rw [Member.erased, Member.erased, MemberForm.erased, MemberForm.erased, hf.1]
  -- whatever word the name is, the round goes on as for a public method
  have hround : Arrives (do
      let member ← publicMethod (.ofRoom room)
      return Step.again (β := ClassBody) { body with members := body.members ++ [member] }) c
      fun s c' => ∃ m', s = .again { body with members := body.members ++ [m'] } ∧
        m'.erased = (⟨name, .method f, span⟩ : Member).erased ∧ c'.Ahead ks :=
    Ends.bind hmember fun m' c' hm => .pure ⟨m', rfl, hm⟩
  refine .peek ?_
  rw [hc.kind]
  -- a name that is a keyword is none of those that begin another kind of member
  unfold TokenKind.word
  cases hspelling : Keyword.ofSpelling? name with
  | none => exact hround
  | some word =>
    have hnot := hword word hspelling
    cases word <;> first | exact hround | cases hnot

/-- The keyword of a private or static declaration. -/
def declaredKind (isPrivate : Bool) : TokenKind :=
  .keyword (if isPrivate then .kwPrivate else .kwStatic)

/-- A declaration behind its keyword: a method. -/
theorem arrives_declaredMethod {name : String} {f : FunctionDef} (isPrivate : Bool)
    (h : f.Rereads) (hname : f.name = some name)
    (hkind : f.kind = if isPrivate then .privateMethod else .staticMethod)
    (hc : c.Ahead (declaredKind isPrivate :: .word name :: (f.printed ++ ks))) :
    Arrives (declaredMember (.ofRoom room) isPrivate) c fun m c' =>
      m.erased = (Member.mk name (if isPrivate then .privateMethod f else .staticMethod f)
        span).erased ∧ c'.Ahead ks := by
  refine Arrives.next hc nofun fun t c₁ _ hc₁ => Arrives.expectPropertyName hc₁ fun _ c₂ hc₂ => ?_
  have hparen : c₂.kind = .mark .leftParen := hc₂.head.trans (FunctionDef.headKind_printed f)
  -- A parenthesis behind the name tells a method from a field.
  refine .ifMark (fun _ => ?_) fun hnot => absurd hparen hnot
  have hrest := h room c₂ ks t.span hc₂
  rw [hname, hkind] at hrest
  cases isPrivate with
  | true =>
    refine Ends.bind hrest fun f' c₃ hf => .pure_bind (.lastSpan (.pure ⟨?_, hf.2⟩))
    simp only [Member.erased, MemberForm.erased, if_true, hf.1]
  | false =>
    refine Ends.bind hrest fun f' c₃ hf => .pure_bind (.lastSpan (.pure ⟨?_, hf.2⟩))
    simp only [Member.erased, MemberForm.erased, Bool.false_eq_true, if_false, hf.1]

/-- A printed initializer is read again, and without one the semicolon stands next. -/
theorem arrives_initializer {initializer : Option Expr} (room : Nat)
    (h : ∀ e ∈ initializer, e.Rereads)
    (hc : c.Ahead (initializerPrinted initializer ++ .mark .semicolon :: ks)) :
    (∃ e, initializer = some e ∧ c.kind = .mark .assign ∧
      Arrives (expression (.ofRoom room)) c.behind (Copy e (.mark .semicolon :: ks))) ∨
    (initializer = none ∧ c.Ahead (.mark .semicolon :: ks)) := by
  cases initializer with
  | none => exact .inr ⟨rfl, hc⟩
  | some e =>
    rw [initializerPrinted, List.cons_append] at hc
    exact .inl ⟨e, rfl, hc.kind, arrives_expression (h e rfl).reads.assignment room
      (hc.behind nofun) (TokenKind.endsTier_of_closes rfl 0)⟩

/-- A declaration behind its keyword: a field. -/
theorem arrives_declaredField {name : String} {initializer : Option Expr} (isPrivate : Bool)
    (h : ∀ e ∈ initializer, e.Rereads)
    (hc : c.Ahead (declaredKind isPrivate :: .word name ::
      (initializerPrinted initializer ++ .mark .semicolon :: ks))) :
    Arrives (declaredMember (.ofRoom room) isPrivate) c fun m c' =>
      m.erased = (Member.mk name (if isPrivate then .privateField initializer
        else .staticField initializer) span).erased ∧ c'.Ahead ks := by
  refine Arrives.next hc nofun fun t c₁ _ hc₁ => Arrives.expectPropertyName hc₁ fun _ c₂ hc₂ => ?_
  -- no parenthesis follows the name, or it would be a method
  refine .ifMark (fun hparen => ?_) fun _ => ?_
  · have hkind := hc₂.head
    rw [hparen] at hkind
    cases initializer <;> cases hkind
  · have hfield : ∀ (initializer' : Option Expr) (c₃ : Cursor),
        optionalErased initializer' = optionalErased initializer →
        c₃.Ahead (.mark .semicolon :: ks) →
        Arrives (do
          endStatement
          if isPrivate then
            return Member.mk name (.privateField initializer') (t.span.merge (← lastSpan))
          else return Member.mk name (.staticField initializer') (t.span.merge (← lastSpan))) c₃
          fun m c' =>
          m.erased = (Member.mk name (if isPrivate then .privateField initializer
            else .staticField initializer) span).erased ∧ c'.Ahead ks := by
      intro initializer' c₃ hinit hc₃
      refine Arrives.endStatement hc₃ fun c₄ hc₄ => ?_
      cases isPrivate with
      | true =>
        refine .lastSpan (.pure ⟨?_, hc₄⟩)
        simp only [Member.erased, MemberForm.erased, if_true, hinit]
      | false =>
        refine .lastSpan (.pure ⟨?_, hc₄⟩)
        simp only [Member.erased, MemberForm.erased, Bool.false_eq_true, if_false, hinit]
    -- the initializer is read, if one was printed
    rcases arrives_initializer room h hc₂ with ⟨e, rfl, hkind, he⟩ | ⟨rfl, hc₂⟩
    · refine .ifSkipMark (fun _ => ?_) fun hnot => absurd hkind hnot
      refine Ends.bind (m := fun initializer' c' => optionalErased initializer' =
        optionalErased (some e) ∧ c'.Ahead (.mark .semicolon :: ks)) (.map ?_)
        fun initializer' c₃ h₃ => hfield initializer' c₃ h₃.1 h₃.2
      exact Ends.imp he fun e' c' he' => ⟨congrArg some he'.1, he'.2⟩
    · refine .ifSkipMark (fun hassign => ?_) fun _ => hfield none c₂ rfl hc₂
      rw [hc₂.kind] at hassign
      cases hassign

/-- A round that reads a declaration behind its keyword. -/
theorem rereads_declared {m : Member} (isPrivate : Bool)
    (hprinted : ∃ ts, m.printed = declaredKind isPrivate :: ts)
    (h : ∀ room c ks, c.Ahead (m.printed ++ ks) →
      Arrives (declaredMember (.ofRoom room) isPrivate) c fun m' c' =>
        m'.erased = m.erased ∧ c'.Ahead ks) : m.Rereads := by
  intro room c ks body hc
  refine .peek ?_
  have hmember := h room c ks hc
  obtain ⟨ts, hts⟩ := hprinted
  rw [hts, List.cons_append] at hc
  rw [hc.kind]
  -- The word before the member chooses the branch of the class body.
  cases isPrivate with
  | true => exact Ends.bind hmember fun m' c' hm => .pure ⟨m', rfl, hm⟩
  | false => exact Ends.bind hmember fun m' c' hm => .pure ⟨m', rfl, hm⟩

/-- A member is read again if what is below it is. -/
theorem rereads_member {m : Member} (h : ∀ k ∈ m.form.children, k.Rereads)
    (hregular : m.form.IsRegular m.name) : m.Rereads := by
  obtain ⟨name, form, span⟩ := m
  -- a public method is read from its name, the others from the keyword in front of it
  cases form with
  | method f => exact rereads_method (h _ List.mem_cons_self) hregular
  | privateMethod f =>
    refine rereads_declared true ⟨_, rfl⟩ fun room c ks hc => ?_
    exact arrives_declaredMethod true (h _ List.mem_cons_self) hregular.1
      hregular.2 hc
  | staticMethod f =>
    refine rereads_declared false ⟨_, rfl⟩ fun room c ks hc => ?_
    exact arrives_declaredMethod false (h _ List.mem_cons_self) hregular.1
      hregular.2 hc
  -- a field rereads as its initializer does, if it has one
  | privateField initializer =>
    refine rereads_declared true ⟨_, rfl⟩ fun room c ks hc => ?_
    refine arrives_declaredField true (fun e he => ?_) ?_
    · exact h (.expr e) (List.mem_map.mpr ⟨e, Option.mem_toList.mpr he, rfl⟩)
    · rw [Member.printed, MemberForm.printed, List.cons_append, List.cons_append,
        List.append_assoc] at hc
      exact hc
  | staticField initializer =>
    refine rereads_declared false ⟨_, rfl⟩ fun room c ks hc => ?_
    refine arrives_declaredField false (fun e he => ?_) ?_
    · exact h (.expr e) (List.mem_map.mpr ⟨e, Option.mem_toList.mpr he, rfl⟩)
    · rw [Member.printed, MemberForm.printed, List.cons_append, List.cons_append,
        List.append_assoc] at hc
      exact hc

/-- A class body behind its constructor. -/
theorem loops_members {members : List Member} (body : ClassBody)
    (h : ∀ m ∈ members, m.Rereads) (hbody : body.members = [])
    (hc : c.Ahead (membersPrinted members ++ .mark .rightBrace :: ks)) (room : Nat) :
    Loops (classStep (.ofRoom room)) (fun body' c' => body'.constructor = body.constructor ∧
      body'.members.map Member.erased = members.map Member.erased ∧ c'.Ahead ks) body c := by
  -- the members read and those left make up the members of the class
  refine Loops.along (fun rest (body' : ClassBody) c => (∀ m ∈ rest, m.Rereads) ∧
    body'.constructor = body.constructor ∧
    body'.members.map Member.erased ++ rest.map Member.erased = members.map Member.erased ∧
    c.Ahead (membersPrinted rest ++ .mark .rightBrace :: ks)) ?_ ?_ ⟨h, rfl, by simp [hbody], hc⟩
  · rintro m rest body' c ⟨hrest, hconstructor, hmembers, hc⟩
    have hprinted : ∃ k ts, m.printed = k :: ts := by
      obtain ⟨name, form, span⟩ := m
      cases form <;> exact ⟨_, _, rfl⟩
    obtain ⟨k, ts, hk⟩ := hprinted
    rw [membersPrinted, List.append_assoc] at hc
    refine (hrest m List.mem_cons_self room c _ body' hc).imp ?_
    rintro _ c' ⟨m', rfl, hm', hc'⟩
    refine ⟨_, rfl, ?_, fun m hm => hrest m (List.mem_cons_of_mem _ hm), hconstructor, ?_, hc'⟩
    · -- a member has at least one token, so each round comes closer to the end
      rw [hc'.length, hc.length, hk]
      simp only [List.length_append, List.length_cons]
      omega
    · rw [List.map_append, List.append_assoc, List.map_singleton, hm']
      exact hmembers
  · -- at the closing brace all members have been read
    rintro body' c ⟨-, hconstructor, hmembers, hc⟩
    refine .peek ?_
    rw [show c.kind = .mark .rightBrace from hc.kind]
    exact Arrives.next hc nofun fun t c' _ hc' =>
      .pure ⟨body', rfl, hconstructor, by simpa using hmembers, hc'⟩

/-- A printed class body is read again, member by member. -/
theorem arrives_classBody {constructor : Option FunctionDef} {members : List Member}
    (hconstructor : ∀ f ∈ constructor, f.Rereads ∧ f.name = some "constructor" ∧
      f.kind = .constructor)
    (hmembers : ∀ m ∈ members, m.Rereads)
    (hc : c.Ahead (constructorPrinted constructor ++
      (membersPrinted members ++ .mark .rightBrace :: ks))) :
    Arrives (classBody (.ofRoom room)) c fun body c' =>
      body.constructor.map FunctionDef.erased = constructor.map FunctionDef.erased ∧
      body.members.map Member.erased = members.map Member.erased ∧ c'.Ahead ks := by
  refine Loops.arrives ?_
  -- the constructor is printed first, so it takes the first round if there is one
  cases constructor with
  | none =>
    have hloop := loops_members ⟨none, []⟩ hmembers rfl hc room
    exact fun budget hbudget => (hloop budget hbudget).imp
      fun body c' hbody => ⟨congrArg _ hbody.1, hbody.2⟩
  | some f =>
    obtain ⟨hf, hname, hkind⟩ := hconstructor f rfl
    rw [constructorPrinted, List.cons_append] at hc
    refine .round (.peek ?_)
    rw [hc.kind]
    refine Arrives.next hc nofun fun t c₁ _ hc₁ => .unless nofun fun _ => ?_
    have hrest := hf room c₁ _ t.span hc₁
    rw [hname, hkind] at hrest
    refine Ends.bind hrest fun f' c₂ hf' => .pure ⟨?_, ?_⟩
    · rw [hf'.2.length, hc.length]
      simp only [List.length_append, List.length_cons]
      omega
    · have hloop := loops_members ⟨some f', []⟩ hmembers rfl hf'.2 room
      refine fun budget hbudget => (hloop budget hbudget).imp fun body c' hbody => ⟨?_, hbody.2⟩
      rw [hbody.1, Option.map_some, Option.map_some, hf'.1]

/-- What is read behind the name and the superclass makes up the class. -/
theorem arrives_classRest {d : ClassDef}
    (hconstructor : ∀ f ∈ d.constructor, f.Rereads ∧ f.name = some "constructor" ∧
      f.kind = .constructor) (hmembers : ∀ m ∈ d.members, m.Rereads)
    {superclass : Option Expr} (hsuper : optionalErased superclass = optionalErased d.superclass)
    (hc : c.Ahead (.mark .leftBrace :: (constructorPrinted d.constructor ++
      (membersPrinted d.members ++ .mark .rightBrace :: ks)))) (start : Span) :
    Arrives (do
      let _ ← expectMark .leftBrace
      let body ← classBody (.ofRoom room)
      newClass d.name superclass body.constructor body.members (start.merge (← lastSpan))) c
      fun d' c' => d'.erased = d.erased ∧ c'.Ahead ks := by
  obtain ⟨site, name, own, constructor, members, span, height⟩ := d
  refine Arrives.expectMark hc fun t c₁ hc₁ => ?_
  refine (arrives_classBody hconstructor hmembers hc₁).bind fun body c₂ hread => .lastSpan ?_
  refine .newClass rfl fun site' height' c₃ hstays => ⟨?_, hread.2.2.stays hstays⟩
  rw [ClassDef.erased, ClassDef.erased, hsuper, constructorErased_eq, constructorErased_eq,
    hread.1, membersErased_eq, membersErased_eq, hread.2.1]

/-- The expression behind `extends` is read up to the brace that opens the class body. -/
theorem arrives_superclass {e : Expr} (h : e.Rereads)
    (hc : c.Ahead (within 8 e.form.tier e.printed ++ .mark .leftBrace :: ks)) :
    Arrives (Level.ofRoom room).primary c fun e' c' => Arrives (postfixTail (.ofRoom room) e') c'
      (Copy e (.mark .leftBrace :: ks)) := by
  have he := (h.reads.within (m := 8) (by omega)).suffix (Nat.le_refl _)
  refine arrives_deeperPrimary fun room' => Ends.bind_iff.mp ?_
  refine he room' room c _ _ hc fun e' c' he' => ?_
  exact loops_postfixStep_done (he'.2.head ▸ TokenKind.endsTier_of_closes rfl 9) he'

/-- A class is read again if what is below it is. -/
theorem rereads_class {d : ClassDef} (h : ∀ k ∈ d.children, k.Rereads)
    (hregular : ∀ f ∈ d.constructor, f.name = some "constructor" ∧ f.kind = .constructor) :
    d.Rereads := by
  intro room c ks isNameRequired hname hc
  have hconstructor : ∀ f ∈ d.constructor, f.Rereads ∧ f.name = some "constructor" ∧
      f.kind = .constructor := fun f hf =>
    ⟨h (.function f) (by simp [ClassDef.children, Option.mem_def.mp hf]), hregular f hf⟩
  have hmembers : ∀ m ∈ d.members, m.Rereads := fun m hm =>
    h (.member m) (by simp [ClassDef.children, hm])
  obtain ⟨site, name, superclass, constructor, members, span, height⟩ := d
  have hsuperclass : ∀ e ∈ superclass, e.Rereads := fun e he =>
    h (.expr e) (by simp [ClassDef.children, Option.mem_def.mp he])
  rw [ClassDef.printed] at hc
  simp only [List.append_assoc, List.cons_append, List.nil_append] at hc
  refine Arrives.expectKeyword hc fun t c₁ hc₁ => ?_
  -- what follows the name is `extends` or a brace, and no other name
  have hbehind : ∀ x, headKind (superclassPrinted superclass ++ .mark .leftBrace ::
      (constructorPrinted constructor ++ (membersPrinted members ++ .mark .rightBrace :: ks))) ≠
        .identifier x := by
    cases superclass <;> exact fun _ => TokenKind.noConfusion
  refine (arrives_definedName hname hbehind hc₁).bind ?_
  rintro name' c₂ ⟨hname', hc₂⟩
  rw [hname']
  -- with a superclass or without, the rest is read alike
  cases superclass with
  | none =>
    refine .ifKeyword (fun hextends => ?_) fun _ =>
      arrives_classRest hconstructor hmembers rfl hc₂ t.span
    rw [show c₂.kind = .mark .leftBrace from hc₂.kind] at hextends
    cases hextends
  | some e =>
    rw [superclassPrinted, List.cons_append] at hc₂
    refine .ifKeyword (fun _ => Arrives.next hc₂ TokenKind.noConfusion fun _ c₃ _ hc₃ => ?_)
      fun hnot => absurd hc₂.kind hnot
    refine Ends.bind (arrives_superclass (hsuperclass e rfl) hc₃) fun e' c₄ he' => ?_
    refine Ends.bind (m := fun superclass' c' => optionalErased superclass' =
      optionalErased (some e) ∧ c'.Ahead _) (.map ?_)
      fun superclass' c₅ h₅ => arrives_classRest hconstructor hmembers h₅.1 h₅.2 t.span
    exact Ends.imp he' fun e'' c' he'' => ⟨congrArg some he''.1, he''.2⟩

end Parser

end Enclave
