import Enclave.Proofs.Syntax.Recovery
import Enclave.Proofs.Syntax.Reporting

/-!
# The grammar reports malformed tokens

Every parser of the grammar complains in the right words (`Parser.Reports`), given that those one
level deeper do (`Level.Reports`), so all levels do. Expressions are followed with the place where
they begin, since `delete` may complain of its operand; the accessors of private and static members
are followed with the token they end with, since that is what the next one is complained of behind.
-/

namespace Enclave

variable {base : List Token} {c : Cursor}

/-- The parsers of a level complain in the right words where something has been read. -/
structure Level.Reports (base : List Token) (l : Level) : Prop where
  assignment : ∀ c : Cursor, c.Follows base TokenKind.isPlain →
    Parser.Reports base l.assignment c fun e _ => e.span.BeginsPlain base
  unary : ∀ c : Cursor, c.Follows base TokenKind.isPlain →
    Parser.Reports base l.unary c fun e _ => e.span.BeginsPlain base
  primary : ∀ c : Cursor, c.Follows base TokenKind.isPlain →
    Parser.Reports base l.primary c fun e _ => e.span.BeginsPlain base
  statement : ∀ c : Cursor, c.Follows base TokenKind.isPlain →
    Parser.Reports base l.statement c fun _ _ => True

namespace Parser

variable {deeper : Level} {k : TokenKind}

/-- A statement one level deeper complains in the right words, and so does the check of its depth.
-/
theorem reports_statement (h : Reports base deeper.statement c fun _ _ => True) :
    Reports base (statement deeper) c fun _ _ => True :=
  h.bind fun _ _ h _ => .unless (.limit (.inl rfl)) fun _ => .pure h trivial

/-- A parameter list complains in the right words, also of a name given twice. -/
theorem reports_params (hc : c.Within base) : Reports base params c fun _ _ => True := by
  refine .expectMark hc fun _ hopen _ => ?_
  refine (Reports.repeatStep (fun _ _ => True) (Q := fun _ _ => True) (fun names c₁ hc₁ _ => ?_)
    hopen trivial).bind fun names c₂ h _ =>
      .expectMark h.toWithin fun _ hclose _ => .pure hclose trivial
  refine .ifMark (fun _ => .pure hc₁ trivial) fun _ =>
    .expectIdentifier hc₁.toWithin fun name hname hspan => .unless (hspan.isTold _) fun _ => ?_
  exact .ifSkipMark hname (fun hcomma => .pure hcomma trivial) (.pure hname trivial)

/-- The name of a function or a class complains in the right words. -/
theorem reports_definedName {missing : Expectation} {isRequired : Bool}
    (hc : c.Follows base TokenKind.isPlain) :
    Reports base (definedName missing isRequired) c fun _ _ => True := by
  refine .peek ?_
  split
  · exact .expectIdentifier hc.toWithin fun _ hname _ => .pure hname trivial
  · split
    · exact .unexpected hc.toWithin _
    · exact .pure hc trivial

/-- A property name complains in the right words. -/
theorem reports_propertyName (hc : c.Follows base TokenKind.isPlain) :
    Reports base propertyName c fun _ _ => True := by
  refine .peek ?_
  split
  · next s hkind => exact .next hc.toWithin hkind rfl fun h _ => .pure h trivial
  · next n hkind => exact .next hc.toWithin hkind rfl fun h _ => .pure h trivial
  · exact .expectPropertyName hc.toWithin fun h _ => .pure h trivial

/-- The look at what may start an accessor reads nothing; what it sees is a word an accessor may end
with. -/
theorem reports_isAtAccessor (hc : c.Follows base TokenKind.isPlain) :
    Reports base isAtAccessor c fun isThere c' =>
      c' = c ∧ (isThere = true → c.kind.endsAccessor = true) := by
  refine .peek ?_
  split
  · next hkind => exact .pure hc ⟨rfl, fun _ => by rw [hkind]; rfl⟩
  · next hkind => exact .pure hc ⟨rfl, fun _ => by rw [hkind]; rfl⟩
  · exact .pure hc ⟨rfl, Bool.noConfusion⟩

/-- A node in a loop. -/
theorem reports_again {β : Type} {form : ExprForm} {span : Span} {Q : β → Cursor → Prop}
    (hc : c.Follows base TokenKind.isPlain) (hspan : span.BeginsPlain base) :
    Reports base (do return .again (← newExpr form span)) c
      (Step.Leaves (fun e _ => e.span.BeginsPlain base) Q) :=
  (reports_newExpr hc hspan).bind fun _ _ h he => .pure h he

variable (hd : deeper.Reports base)

include hd

/-- An expression inside of something else, wherever it begins. -/
theorem reports_inner (hc : c.Follows base TokenKind.isPlain) :
    Reports base (some <$> expression deeper) c fun _ _ => True :=
  .map ((hd.assignment c hc).imp fun _ _ _ => trivial)

/-! ### Lists in brackets -/

/-- A block complains in the right words. -/
theorem reports_block (hc : c.Within base) :
    Reports base (block deeper) c fun _ _ => True := by
  refine .expectMark hc fun _ hopen _ => ?_
  refine .repeatStep (fun _ _ => True) (fun body c₁ hc₁ _ => ?_) hopen trivial
  refine .ifMark (fun hclose => ?_) fun _ =>
    .ifEnd (fun _ => .unexpected hc₁.toWithin _) fun _ => ?_
  · exact .next hc₁.toWithin hclose rfl fun h _ => .pure h trivial
  · exact (reports_statement (hd.statement c₁ hc₁)).bind fun s c₂ h _ => .pure h trivial

/-- An argument list complains in the right words. -/
theorem reports_args (hc : c.Within base) :
    Reports base (args deeper) c fun _ _ => True := by
  refine .expectMark hc fun _ hopen _ => ?_
  refine (Reports.repeatStep (fun _ _ => True) (Q := fun _ _ => True) (fun es c₁ hc₁ _ => ?_)
    hopen trivial).bind fun es c₂ h _ =>
      .expectMark h.toWithin fun _ hclose _ => .pure hclose trivial
  refine .ifMark (fun _ => .pure hc₁ trivial) fun _ =>
    (hd.assignment c₁ hc₁).bind fun e c₂ h _ => ?_
  exact .ifSkipMark h (fun hcomma => .pure hcomma trivial) (.pure h trivial)

/-! ### Functions and classes -/

/-- Parameters and body of a function complain in the right words. -/
theorem reports_functionRest {name : Option String} {kind : FunctionKind} {start : Span}
    (hc : c.Follows base TokenKind.isPlain) :
    Reports base (functionRest deeper name kind start) c fun _ _ => True := by
  refine (reports_params hc.toWithin).bind fun params c₁ h₁ _ => ?_
  refine (reports_block hd h₁.toWithin).bind fun body c₂ h₂ _ => .lastSpan ?_
  exact reports_newFunction h₂

/-- A function definition complains in the right words. -/
theorem reports_functionDef {isNameRequired : Bool} (hc : c.Within base) :
    Reports base (functionDef deeper isNameRequired) c fun _ _ => True := by
  refine .expectKeyword hc fun hword => ?_
  exact (reports_definedName hword).bind fun name c₁ h₁ _ => reports_functionRest hd h₁

/-- Postfixes complain in the right words and leave an operand that begins where it began. -/
theorem reports_postfixTail {e : Expr} (hc : c.Follows base TokenKind.isPlain)
    (he : e.span.BeginsPlain base) :
    Reports base (postfixTail deeper e) c fun e _ => e.span.BeginsPlain base := by
  refine .repeatStep (fun e _ => e.span.BeginsPlain base) (fun e c₁ hc₁ he => .peek ?_) hc he
  -- A name, a key, arguments, or no postfix.
  split
  · next hkind =>
    exact .next hc₁.toWithin hkind rfl fun h₁ _ =>
      .expectPropertyName h₁.toWithin fun h₂ hs => reports_again h₂ (he.merge hs)
  · next hkind =>
    exact .next hc₁.toWithin hkind rfl fun h₁ _ => (hd.assignment _ h₁).bind fun key c₂ h₂ _ =>
      .expectMark h₂.toWithin fun _ h₃ hs => reports_again h₃ (he.merge hs)
  · exact (reports_args hd hc₁.toWithin).bind fun args c₂ h₂ _ =>
      .lastSpan (reports_again h₂ (he.merge h₂.last))
  · exact .pure hc₁ he

/-- A member behind `private` or `static` complains in the right words. -/
theorem reports_declaredMember {isPrivate : Bool} (hc : c.Within base) (hkind : c.kind = k)
    (hk : k.isPlain = true) :
    Reports base (declaredMember deeper isPrivate) c fun _ _ => True := by
  refine .next hc hkind hk fun h₁ _ => .expectPropertyName h₁.toWithin fun h₂ _ => ?_
  -- however the member goes on, it ends with what was just read
  have hmember : ∀ (form : MemberForm) {c₃ : Cursor}, c₃.Follows base TokenKind.isPlain →
      Reports base (do return ⟨c.behind.nextToken.lexeme, form,
        c.nextToken.span.merge (← lastSpan)⟩ : Parser Member) c₃ fun _ _ => True :=
    fun form _ h₃ => .lastSpan (.pure h₃ trivial)
  refine .ifMark (fun _ => ?_) fun _ => ?_
  · -- a member with parameters is a method, any other a field
    split
    · exact (reports_functionRest hd h₂).bind fun f _ h₃ _ => hmember (.privateMethod f) h₃
    · exact (reports_functionRest hd h₂).bind fun f _ h₃ _ => hmember (.staticMethod f) h₃
  · have hfield : ∀ (initializer : Option Expr) (c₃ : Cursor),
        c₃.Follows base TokenKind.isPlain → Reports base (do
          endStatement
          if isPrivate then
            return ⟨c.behind.nextToken.lexeme, .privateField initializer,
              c.nextToken.span.merge (← lastSpan)⟩
          else
            return ⟨c.behind.nextToken.lexeme, .staticField initializer,
              c.nextToken.span.merge (← lastSpan)⟩ : Parser Member) c₃ fun _ _ => True := by
      intro initializer c₃ h₃
      refine (reports_endStatement h₃).bind fun _ c₄ h₄ _ => ?_
      split
      · exact hmember (.privateField initializer) h₄
      · exact hmember (.staticField initializer) h₄
    refine .ifSkipMark h₂ (fun h₃ => ?_) (hfield none _ h₂)
    exact (reports_inner hd h₃).bind fun initializer c₄ h₄ _ => hfield initializer c₄ h₄

/-- A public method complains in the right words. -/
theorem reports_publicMethod (hc : c.Follows base TokenKind.isPlain) :
    Reports base (publicMethod deeper) c fun _ _ => True :=
  .expectPropertyName hc.toWithin fun h₁ _ => (reports_functionRest hd h₁).bind fun _ _ h₂ _ =>
    .lastSpan (.pure h₂ trivial)

/-- A class body complains in the right words, also of a second constructor. -/
theorem reports_classBody (hc : c.Follows base TokenKind.isPlain) :
    Reports base (classBody deeper) c fun _ _ => True := by
  refine .repeatStep (fun _ _ => True) (fun body c₁ hc₁ _ => .peek ?_) hc trivial
  have hw := hc₁.toWithin
  -- One case for each word a member may start with.
  split
  · next hkind => exact .next hw hkind rfl fun h _ => .pure h trivial
  · next hkind => exact .next hw hkind rfl fun h _ => .pure h trivial
  · exact .unexpected hw _
  · next hkind =>
    refine .next hw hkind rfl fun h₁ hs => .unless (hs.isTold _) fun _ => ?_
    exact (reports_functionRest hd h₁).bind fun f c₂ h₂ _ => .pure h₂ trivial
  · next hkind =>
    exact (reports_declaredMember hd hw hkind rfl).bind fun _ _ h _ => .pure h trivial
  · next hkind =>
    exact (reports_declaredMember hd hw hkind rfl).bind fun _ _ h _ => .pure h trivial
  · exact (reports_publicMethod hd hc₁).bind fun _ _ h _ => .pure h trivial
  · exact (reports_publicMethod hd hc₁).bind fun _ _ h _ => .pure h trivial
  · exact .unexpected hw _

/-- A class definition complains in the right words. -/
theorem reports_classDef {isNameRequired : Bool} (hc : c.Within base) :
    Reports base (classDef deeper isNameRequired) c fun _ _ => True := by
  refine .expectKeyword hc fun hword => (reports_definedName hword).bind fun name c₁ h₁ _ => ?_
  -- the rest is the same with and without a superclass
  have hbody : ∀ (superclass : Option Expr) (c₂ : Cursor), c₂.Follows base TokenKind.isPlain →
      Reports base (do
        let _ ← expectMark .leftBrace
        let body ← classBody deeper
        newClass name superclass body.constructor body.members
          (c.nextToken.span.merge (← lastSpan))) c₂ fun _ _ => True := fun superclass c₂ h₂ =>
    .expectMark h₂.toWithin fun _ hopen _ => (reports_classBody hd hopen).bind fun body c₃ h₃ _ =>
      .lastSpan (reports_newClass h₃)
  refine .ifKeyword (fun hkind => ?_) fun _ => hbody none _ h₁
  refine .next h₁.toWithin hkind rfl fun h₂ _ => (hd.primary _ h₂).bind fun e c₃ h₃ he => ?_
  refine Reports.bind (m := fun _ _ => True) (.map ?_) fun superclass c₄ h₄ _ =>
    hbody superclass c₄ h₄
  exact (reports_postfixTail hd h₃ he).imp fun _ _ _ => trivial

/-! ### Primary expressions -/

/-- An accessor ends with its keyword or with a closing parenthesis. -/
theorem reports_accessorHead (hc : c.Within base) (hends : c.kind.endsAccessor = true) :
    Reports base (accessorHead deeper) c fun a c' =>
      a.span.BeginsPlain base ∧ c'.Follows base TokenKind.endsAccessor := by
  have hplain := TokenKind.isPlain_of_endsAccessor hends
  have hword := hc.behind rfl (ne_endOfInput_of_isPlain hplain) hends
  refine .next hc rfl hplain fun h₁ hs₁ => ?_
  -- The accessor ends with its word, or with the parenthesis behind its target.
  split
  · exact .pure h₁ ⟨hs₁, hword⟩
  · refine .ifSkipMark h₁ (fun h₂ => ?_) (.pure h₁ ⟨hs₁, hword⟩)
    refine (hd.assignment _ h₂).bind fun target c₃ h₃ _ =>
      .expectMark h₃.toWithin fun hkind h₄ hs₄ => .pure h₄ ⟨hs₁.merge hs₄, ?_⟩
    exact h₃.toWithin.behind hkind TokenKind.noConfusion rfl

/-- Without a member nothing more has been read. -/
theorem reports_accessorMember? {a : Accessor} (hc : c.Follows base TokenKind.endsAccessor)
    (ha : a.span.BeginsPlain base) :
    Reports base (accessorMember? deeper a) c fun e? c' =>
      (∀ e ∈ e?, e.span.BeginsPlain base) ∧
        (e? = none → c'.Follows base TokenKind.endsAccessor) := by
  -- a member found begins where its accessor does
  have hsome : ∀ {form : ExprForm} {span : Span} {c₁ : Cursor},
      c₁.Follows base TokenKind.isPlain → span.BeginsPlain base →
        Reports base (some <$> newExpr form span) c₁ fun e? c' =>
          (∀ e ∈ e?, e.span.BeginsPlain base) ∧
            (e? = none → c'.Follows base TokenKind.endsAccessor) := fun h₁ hspan =>
    .map ((reports_newExpr h₁ hspan).imp fun e _ he =>
      ⟨fun e' he' => Option.some.inj he' ▸ he, fun hnone => by cases hnone⟩)
  refine .peek ?_
  split
  · next hkind =>
    exact .next hc.toWithin hkind rfl fun h₁ _ => .expectPropertyName h₁.toWithin fun h₂ hs =>
      hsome h₂ (ha.merge hs)
  · next hkind =>
    exact .next hc.toWithin hkind rfl fun h₁ _ => (hd.assignment _ h₁).bind fun key c₂ h₂ _ =>
      .expectMark h₂.toWithin fun _ h₃ hs => hsome h₃ (ha.merge hs)
  · exact .pure (hc.mono fun _ => TokenKind.isPlain_of_endsAccessor)
      ⟨fun e he => (by cases he), fun _ => hc⟩

/-- Where the member is missing, the next token is complained of as if it were well formed. -/
theorem reports_slot (hc : c.Within base) (hends : c.kind.endsAccessor = true) :
    Reports base (slot deeper) c fun e _ => e.span.BeginsPlain base := by
  refine (reports_accessorHead hd hc hends).bind fun a c₁ _ ha => ?_
  refine (reports_accessorMember? hd ha.2 ha.1).bind fun e? c₂ h₂ he => ?_
  cases e? with
  | some e => exact .pure h₂ (he.1 e rfl)
  | none =>
    -- the accessor's last token stands in front of the one that is complained of
    obtain ⟨t, ht, hkind, -⟩ := (he.2 rfl).read
    refine .peek (.peekSpan (.fail (.accessorAlone (t := c₂.nextToken) ?_ hkind rfl rfl)))
    rw [h₂.toWithin.tokens_eq] at ht
    exact .trans ⟨[], c₂.behind.tokens, rfl⟩ ht.isInfix

/-- An object literal complains in the right words. -/
theorem reports_objectLiteral (hc : c.Within base) :
    Reports base (objectLiteral deeper) c fun e _ => e.span.BeginsPlain base := by
  refine .expectMark hc fun _ hopen hs => ?_
  refine (Reports.repeatStep (fun _ _ => True) (Q := fun _ _ => True) (fun ps c₁ hc₁ _ => ?_)
    hopen trivial).bind fun ps c₂ h₂ _ => .expectMark h₂.toWithin fun _ hclose hs' =>
      reports_newExpr hclose (hs.merge hs')
  refine .ifMark (fun _ => .pure hc₁ trivial) fun _ =>
    (reports_propertyName hc₁).bind fun name c₂ h₂ _ => .expectMark h₂.toWithin fun _ h₃ _ =>
      (hd.assignment _ h₃).bind fun e c₄ h₄ _ => ?_
  exact .ifSkipMark h₄ (fun h₅ => .pure h₅ trivial) (.pure h₄ trivial)

/-- The members behind the callee of `new` complain in the right words. -/
theorem reports_newCalleeTail {e : Expr} (hc : c.Follows base TokenKind.isPlain)
    (he : e.span.BeginsPlain base) :
    Reports base (newCalleeTail deeper e) c fun _ _ => True := by
  refine .repeatStep (fun e _ => e.span.BeginsPlain base) (fun e c₁ hc₁ he => .peek ?_) hc he
  -- A name, a key, or nothing more.
  split
  · next hkind =>
    exact .next hc₁.toWithin hkind rfl fun h₁ _ =>
      .expectPropertyName h₁.toWithin fun h₂ hs => reports_again h₂ (he.merge hs)
  · next hkind =>
    exact .next hc₁.toWithin hkind rfl fun h₁ _ => (hd.assignment _ h₁).bind fun key c₂ h₂ _ =>
      .expectMark h₂.toWithin fun _ h₃ hs => reports_again h₃ (he.merge hs)
  · exact .pure hc₁ trivial

/-- A construction complains in the right words. -/
theorem reports_construction (hc : c.Within base) (hkind : c.kind = k) (hk : k.isPlain = true) :
    Reports base (construction deeper) c fun e _ => e.span.BeginsPlain base := by
  refine .next hc hkind hk fun h₁ hs => (hd.primary _ h₁).bind fun e c₂ h₂ he =>
    (reports_newCalleeTail hd h₂ he).bind fun callee c₃ h₃ _ => ?_
  have hnew : ∀ (args : List Expr) (c₄ : Cursor), c₄.Follows base TokenKind.isPlain →
      Reports base (do newExpr (.new callee args) (c.nextToken.span.merge (← lastSpan))) c₄
        fun e _ => e.span.BeginsPlain base := fun args c₄ h₄ =>
    .lastSpan (reports_newExpr h₄ (hs.merge h₄.last))
  refine .ifMark (fun _ => ?_) fun _ => hnew [] c₃ h₃
  exact (reports_args hd h₃.toWithin).bind fun args c₄ h₄ _ => hnew args c₄ h₄

/-- A use of `super` complains in the right words. -/
theorem reports_superForm (hc : c.Within base) (hkind : c.kind = k) (hk : k.isPlain = true) :
    Reports base (superForm deeper) c fun _ _ => True := by
  refine .next hc hkind hk fun h₁ _ => .ifMark (fun _ => ?_) fun _ => ?_
  · exact (reports_args hd h₁.toWithin).bind fun args c₂ h₂ _ => .pure h₂ trivial
  · exact .ifSkipMark h₁ (fun h₂ => .expectPropertyName h₂.toWithin fun h₃ _ => .pure h₃ trivial)
      (.unexpected h₁.toWithin _)

/-- A primary expression complains in the right words. -/
theorem reports_primary (hc : c.Within base) :
    Reports base (primary deeper) c fun e _ => e.span.BeginsPlain base := by
  have hliteral : ∀ (form : ExprForm) {k : TokenKind}, c.kind = k → k.isPlain = true →
      Reports base (do
        let _ ← next
        newExpr form (c.nextToken.span.merge (← lastSpan))) c fun e _ =>
          e.span.BeginsPlain base := fun form _ hkind hk =>
    .next hc hkind hk fun h hs => .lastSpan (reports_newExpr h (hs.merge h.last))
  -- a longer form has read its first token long ago, but that is still where it begins
  have hnode : ∀ {form : ExprForm} {k : TokenKind} {c₁ : Cursor}, c.kind = k → k.isPlain = true →
      c₁.Follows base TokenKind.isPlain →
        Reports base (do newExpr form (c.nextToken.span.merge (← lastSpan))) c₁ fun e _ =>
          e.span.BeginsPlain base := fun hkind hk h =>
    .lastSpan (reports_newExpr h ((hc.beginsPlain hkind hk).merge h.last))
  refine .peekSpan (.peek ?_)
  split
  · next hkind => exact hliteral _ hkind rfl
  · next hkind => exact hliteral _ hkind rfl
  · next hkind => exact hliteral _ hkind rfl
  · next hkind => exact hliteral _ hkind rfl
  · next hkind => exact hliteral _ hkind rfl
  · next hkind => exact hliteral _ hkind rfl
  · next hkind => exact hliteral _ hkind rfl
  · next hkind => exact hliteral _ hkind rfl
  · -- the forms that read on from a keyword
    next hkind => exact (reports_functionDef hd hc).bind fun f c₁ h _ => hnode hkind rfl h
  · next hkind => exact (reports_classDef hd hc).bind fun d c₁ h _ => hnode hkind rfl h
  · next hkind => exact reports_construction hd hc hkind rfl
  · next hkind => exact reports_slot hd hc (by rw [hkind]; rfl)
  · next hkind => exact reports_slot hd hc (by rw [hkind]; rfl)
  · next hkind =>
    exact (reports_superForm hd hc hkind rfl).bind fun form c₁ h _ => hnode hkind rfl h
  · next hkind =>
    -- in parentheses, it is an expression that begins behind the first of them
    exact .next hc hkind rfl fun h₁ _ => (hd.assignment _ h₁).bind fun e c₂ h₂ he =>
      .expectMark h₂.toWithin fun _ h₃ _ => .pure h₃ he
  · exact reports_objectLiteral hd hc
  · exact .unexpected hc _

/-! ### Operators -/

/-- A primary expression with its postfixes complains in the right words. -/
theorem reports_postfixed (hc : c.Within base) :
    Reports base (postfixed deeper) c fun e _ => e.span.BeginsPlain base :=
  (reports_primary hd hc).bind fun _ _ h he => reports_postfixTail hd h he

/-- What `delete` complains of begins with a token that has been read. -/
theorem reports_unary (hc : c.Within base) :
    Reports base (unary deeper) c fun e _ => e.span.BeginsPlain base := by
  refine .peek ?_
  split
  · exact reports_postfixed hd hc
  · next op hop =>
    exact .next hc rfl (isPlain_of_unaryOp? hop) fun h₁ hs => (hd.unary _ h₁).bind
      fun operand c₂ h₂ ho => .unless (ho.isTold _) fun _ => reports_newExpr h₂ (hs.merge ho)

/-- The right side of an operator complains in the right words. -/
theorem reports_rightSide {connective : Connective} {left : Expr}
    (hc : c.Follows base TokenKind.isPlain) (hleft : left.span.BeginsPlain base) :
    Reports base (rightSide deeper connective left) c fun side _ =>
      side.expr.span.BeginsPlain base := by
  -- an ordinary operand, unless an accessor follows `in`
  have hunary : Reports base (do return .operand (← unary deeper) : Parser RightSide) c
      fun side _ => side.expr.span.BeginsPlain base :=
    (reports_unary hd hc.toWithin).bind fun e c₁ h he => .pure h he
  unfold rightSide
  split
  · refine (reports_isAtAccessor hc).bind fun isThere c₁ _ hthere => ?_
    obtain ⟨rfl, hends⟩ := hthere
    split
    · refine (reports_accessorHead hd hc.toWithin (hends ‹_›)).bind fun a c₂ _ ha => ?_
      refine (reports_accessorMember? hd ha.2 ha.1).bind fun e? c₃ h₃ he => ?_
      cases e? with
      | some e =>
        exact (reports_postfixTail hd h₃ (he.1 e rfl)).bind fun e' c₄ h₄ he' => .pure h₄ he'
      | none => exact (reports_newExpr h₃ (hleft.merge ha.1)).bind fun e c₄ h₄ he' => .pure h₄ he'
    · exact hunary
  · exact hunary

/-- A chain of operators complains in the right words and begins where its left operand does. -/
theorem reports_binaryTail (tiers least : Nat) {left : Expr}
    (hc : c.Follows base TokenKind.isPlain) (hleft : left.span.BeginsPlain base) :
    Reports base (binaryTail deeper tiers least left) c fun e _ => e.span.BeginsPlain base := by
  induction tiers generalizing least left c with
  | zero => exact .pure hc hleft
  | succ tiers ih =>
    refine .repeatStep (fun e _ => e.span.BeginsPlain base) (fun e c₁ hc₁ he => .peek ?_) hc hleft
    split
    · exact .pure hc₁ he
    · next connective tier hconnective =>
      split
      · exact .pure hc₁ he
      · refine .next hc₁.toWithin rfl (isPlain_of_connective? hconnective) fun h₁ _ =>
          (reports_rightSide hd h₁ he).bind fun side c₂ h₂ hside => ?_
        cases side with
        -- behind a bare accessor there is no operand that could take in more
        | whole e' => exact .pure h₂ hside
        | operand right =>
          refine (ih (tier + 1) h₂ hside).bind fun right' c₃ h₃ hright => ?_
          cases connective <;> exact reports_again h₃ (he.merge hright)

/-- A chain of binary operators complains in the right words. -/
theorem reports_binary (hc : c.Within base) :
    Reports base (binary deeper) c fun e _ => e.span.BeginsPlain base :=
  (reports_unary hd hc).bind fun _ _ h he => reports_binaryTail hd tierCount 1 h he

/-- An assignment complains in the right words, also of a target that cannot be assigned. -/
theorem reports_assignment (hc : c.Within base) :
    Reports base (assignment deeper) c fun e _ => e.span.BeginsPlain base := by
  refine (reports_binary hd hc).bind fun target c₁ h₁ ht => .ifMark (fun hkind => ?_) fun _ =>
    .pure h₁ ht
  exact .next h₁.toWithin hkind rfl fun h₂ hs => .unless (hs.isTold _) fun _ =>
    (hd.assignment _ h₂).bind fun value c₃ h₃ hv => reports_newExpr h₃ (ht.merge hv)

/-! ### Statements -/

/-- A declaration complains in the right words, also of a constant without initializer. -/
theorem reports_declaration {isMutable : Bool} (hc : c.Within base) (hkind : c.kind = k)
    (hk : k.isPlain = true) :
    Reports base (declaration deeper isMutable) c fun _ _ => True := by
  refine .next hc hkind hk fun h₁ _ => .expectIdentifier h₁.toWithin fun name h₂ hs => ?_
  -- the rest is the same with and without an initial value
  have hrest : ∀ (initializer : Option Expr) (c₃ : Cursor), c₃.Follows base TokenKind.isPlain →
      Reports base (do
        endStatement
        return .declare name isMutable initializer : Parser StmtForm) c₃ fun _ _ => True :=
    fun initializer c₃ h₃ => (reports_endStatement h₃).bind fun _ c₄ h₄ _ => .pure h₄ trivial
  refine .ifSkipMark h₂ (fun h₃ => ?_) ?_
  · exact (reports_inner hd h₃).bind fun initializer c₄ h₄ _ => hrest initializer c₄ h₄
  · split
    · exact hrest none _ h₂
    · exact .fail (hs.isTold _)

/-- A condition complains in the right words. -/
theorem reports_condition (hc : c.Within base) :
    Reports base (condition deeper) c fun _ _ => True :=
  .expectMark hc fun _ h₁ _ => (hd.assignment _ h₁).bind fun _ _ h₂ _ =>
    .expectMark h₂.toWithin fun _ h₃ _ => .pure h₃ trivial

/-- A conditional complains in the right words. -/
theorem reports_conditional (hc : c.Within base) (hkind : c.kind = k) (hk : k.isPlain = true) :
    Reports base (conditional deeper) c fun _ _ => True := by
  refine .next hc hkind hk fun h₁ _ => (reports_condition hd h₁.toWithin).bind fun test c₂ h₂ _ =>
    (reports_statement (hd.statement c₂ h₂)).bind fun yes c₃ h₃ _ => ?_
  refine .ifKeyword (fun hkind => ?_) fun _ => .pure h₃ trivial
  refine .next h₃.toWithin hkind rfl fun h₄ _ => ?_
  exact (Reports.map (Q := fun _ _ => True) (reports_statement (hd.statement _ h₄))).bind
    fun no c₅ h₅ _ => .pure h₅ trivial

/-- A loop complains in the right words. -/
theorem reports_whileLoop (hc : c.Within base) (hkind : c.kind = k) (hk : k.isPlain = true) :
    Reports base (whileLoop deeper) c fun _ _ => True :=
  .next hc hkind hk fun h₁ _ => (reports_condition hd h₁.toWithin).bind fun _ c₂ h₂ _ =>
    (reports_statement (hd.statement c₂ h₂)).bind fun _ _ h₃ _ => .pure h₃ trivial

/-- A `return` complains in the right words. -/
theorem reports_returnStatement (hc : c.Within base) (hkind : c.kind = k)
    (hk : k.isPlain = true) :
    Reports base (returnStatement deeper) c fun _ _ => True := by
  refine .next hc hkind hk fun h₁ _ => .peek ?_
  -- With a value or without, the statement ends the same way.
  have hrest : ∀ (value : Option Expr) (c₂ : Cursor), c₂.Follows base TokenKind.isPlain →
      Reports base (do
        endStatement
        return .ret value : Parser StmtForm) c₂ fun _ _ => True :=
    fun value c₂ h₂ => (reports_endStatement h₂).bind fun _ c₃ h₃ _ => .pure h₃ trivial
  split
  · exact hrest none _ h₁
  · exact hrest none _ h₁
  · exact hrest none _ h₁
  · exact (reports_inner hd h₁).bind fun value c₂ h₂ _ => hrest value c₂ h₂

/-- A `throw` complains in the right words. -/
theorem reports_throwStatement (hc : c.Within base) (hkind : c.kind = k)
    (hk : k.isPlain = true) :
    Reports base (throwStatement deeper) c fun _ _ => True :=
  .next hc hkind hk fun h₁ _ => (hd.assignment _ h₁).bind fun _ _ h₂ _ =>
    (reports_endStatement h₂).bind fun _ _ h₃ _ => .pure h₃ trivial

/-- A `try` complains in the right words, also where neither `catch` nor `finally` follows. -/
theorem reports_tryStatement (hc : c.Within base) (hkind : c.kind = k) (hk : k.isPlain = true) :
    Reports base (tryStatement deeper) c fun _ _ => True := by
  refine .next hc hkind hk fun h₁ _ => (reports_block hd h₁.toWithin).bind fun body c₂ h₂ _ => ?_
  refine .expectKeyword h₂.toWithin fun h₃ => .expectMark h₃.toWithin fun _ h₄ _ =>
    .expectIdentifier h₄.toWithin fun param h₅ _ => .expectMark h₅.toWithin fun _ h₆ _ => ?_
  exact (reports_block hd h₆.toWithin).bind fun handler c₇ h₇ _ => .pure h₇ trivial

omit hd in
/-- An expression statement complains in the right words. -/
theorem reports_expressionStatement
    (he : Reports base deeper.assignment c fun e _ => e.span.BeginsPlain base) :
    Reports base (expressionStatement deeper) c fun _ _ => True :=
  he.bind fun _ _ h _ => (reports_endStatement h).bind fun _ _ h' _ => .pure h' trivial

/-- Every form of statement complains in the right words. -/
theorem reports_statementForm (hc : c.Within base)
    (he : Reports base deeper.assignment c fun e _ => e.span.BeginsPlain base) :
    Reports base (statementForm deeper) c fun _ _ => True := by
  refine .peek ?_
  -- One case for each word a statement may start with.
  split
  · next hkind => exact reports_declaration hd hc hkind rfl
  · next hkind => exact reports_declaration hd hc hkind rfl
  · exact (reports_functionDef hd hc).bind fun _ _ h _ => .pure h trivial
  · exact (reports_classDef hd hc).bind fun _ _ h _ => .pure h trivial
  · next hkind => exact reports_conditional hd hc hkind rfl
  · next hkind => exact reports_whileLoop hd hc hkind rfl
  · next hkind => exact reports_returnStatement hd hc hkind rfl
  · next hkind => exact reports_throwStatement hd hc hkind rfl
  · next hkind => exact reports_tryStatement hd hc hkind rfl
  · exact (reports_block hd hc).bind fun _ _ h _ => .pure h trivial
  · next hkind => exact .next hc hkind rfl fun h _ => .pure h trivial
  · exact reports_expressionStatement he

/-- A statement complains in the right words. -/
theorem reports_statementBody (hc : c.Within base)
    (he : Reports base deeper.assignment c fun e _ => e.span.BeginsPlain base) :
    Reports base (statementBody deeper) c fun _ _ => True :=
  .peekSpan ((reports_statementForm hd hc he).bind fun _ _ h _ => .lastSpan (.pure h trivial))

end Parser

/-! ### Levels -/

/-- If a level complains in the right words, so does the level over it. -/
theorem Level.Reports.over {deeper : Level} (hd : deeper.Reports base) :
    (Level.over deeper).Reports base where
  assignment _ hc := Parser.reports_assignment hd hc.toWithin
  unary _ hc := Parser.reports_unary hd hc.toWithin
  primary _ hc := Parser.reports_primary hd hc.toWithin
  statement c hc := Parser.reports_statementBody hd hc.toWithin (hd.assignment c hc)

/-- The level at which everything is too deep complains of that. -/
theorem Level.reports_full : Level.full.Reports base := by
  have htooDeep : ∀ {α : Type} (c : Cursor) {Q : α → Cursor → Prop}, Parser.Reports base
      (do Parser.fail .nestedTooDeeply (← Parser.peekSpan) : Parser α) c Q :=
    fun _ => .peekSpan (.fail (.limit (.inl rfl)))
  exact ⟨fun c _ => htooDeep c, fun c _ => htooDeep c, fun c _ => htooDeep c, fun c _ => htooDeep c⟩

/-- Every level complains in the right words, by induction on the room left. -/
theorem Level.reports_ofRoom (room : Nat) : (Level.ofRoom room).Reports base := by
  induction room with
  | zero => exact reports_full
  | succ room ih => exact ih.over

/-- So does a whole statement, even if nothing has been read before it. -/
theorem Parser.reports_topStatement (hc : c.Within base) :
    Reports base topStatement c fun _ _ => True :=
  reports_statement (reports_statementBody (Level.reports_ofRoom 127) hc
    (reports_assignment (Level.reports_ofRoom 126) hc))

end Enclave
