import Enclave.Proofs.Syntax.Advancing

/-!
# The grammar advances

Every parser of the grammar reads on (`Parser.Advances`), given that those one level deeper do
(`Level.Advances`), so all levels do. A parser that begins with a token of its own may even start
where nothing has been read yet: so it is with the four through which nesting goes, and with whole
statements (`Parser.advances_topStatement`).
-/

namespace Enclave

variable {base : List Token} {c c' c₁ : Cursor}

/-- The parsers of a level read on from where something has been read. -/
structure Level.Advances (l : Level) : Prop where
  assignment : ∀ (base : List Token) (c : Cursor), c.Begun base →
    Parser.Advances base l.assignment c fun e c' => c.ReadSpan base c' e.span
  unary : ∀ (base : List Token) (c : Cursor), c.Begun base →
    Parser.Advances base l.unary c fun e c' => c.ReadSpan base c' e.span
  primary : ∀ (base : List Token) (c : Cursor), c.Begun base →
    Parser.Advances base l.primary c fun e c' => c.ReadSpan base c' e.span
  statement : ∀ (base : List Token) (c : Cursor), c.Begun base →
    Parser.Advances base l.statement c fun s c' => c.ReadSpan base c' s.span

namespace Parser

variable {α : Type} {deeper : Level}

/-- A statement reads what the statements one level deeper read. -/
theorem advances_statement
    (h : Advances base deeper.statement c fun s c' => c.ReadSpan base c' s.span) :
    Advances base (statement deeper) c fun s c' => c.ReadSpan base c' s.span :=
  h.bind fun _ _ h hs => .unless h.begun SyntaxFault.noConfusion hs.cut fun _ => .pure h.begun hs

/-- A parameter list advances, and each round of it reads at least a name. -/
theorem advances_params (hc : c.Along base) : Advances base params c fun _ _ => True := by
  refine .expectMark hc fun hopen => ?_
  -- The loop leaves off at a place no earlier, where the closing mark is required.
  refine (Advances.repeatStep (fun _ _ => True) (Q := fun _ _ => True) (fun names c₁ hc₁ _ => ?_)
    hopen.begun trivial).bind fun names c₂ h _ =>
      .expectMark h.begun.along fun hclose => .pure hclose.begun trivial
  refine .ifMark (fun _ => .pure hc₁ trivial) fun _ => .expectIdentifier hc₁.along fun name hname =>
    -- A repeated parameter is reported at its own name, which has just been read.
    .unless hname.begun SyntaxFault.noConfusion hname.cut fun _ => ?_
  exact .ifSkipMark hname.begun
    (fun hcomma => .pure hcomma.begun ⟨hname.toReadOn.later hcomma.since, trivial⟩)
    (.pure hname.begun trivial)

/-- The name of a function or a class, required or not, advances. -/
theorem advances_definedName {missing : Expectation} {isRequired : Bool} (hc : c.Begun base) :
    Advances base (definedName missing isRequired) c fun _ _ => True := by
  refine .peek ?_
  split
  · exact .expectIdentifier hc.along fun _ hname => .pure hname.begun trivial
  · split
    · exact .unexpected hc.along _
    · exact .pure hc trivial

/-- A property name reads at least one token. -/
theorem advances_propertyName (hc : c.Begun base) :
    Advances base propertyName c fun _ c' => c.ReadOn base c' := by
  refine .peek ?_
  split
  · next s hkind =>
    exact .next hc.along hkind TokenKind.noConfusion fun h => .pure h.begun h.toReadOn
  · next n hkind =>
    exact .next hc.along hkind TokenKind.noConfusion fun h => .pure h.begun h.toReadOn
  · exact .expectPropertyName hc.along fun h => .pure h.begun h.toReadOn

/-- The expression that follows a connective. -/
def RightSide.expr : RightSide → Expr
  | .operand e | .whole e => e

/-- The look at what may start an accessor reads nothing, and sees no end of input there. -/
theorem advances_isAtAccessor (hc : c.Begun base) :
    Advances base isAtAccessor c fun isThere c' =>
      c' = c ∧ (isThere = true → c.kind ≠ .endOfInput) := by
  refine .peek ?_
  split
  · next hkind => exact .pure hc ⟨rfl, fun _ => by rw [hkind]; exact TokenKind.noConfusion⟩
  · next hkind => exact .pure hc ⟨rfl, fun _ => by rw [hkind]; exact TokenKind.noConfusion⟩
  · exact .pure hc ⟨rfl, Bool.noConfusion⟩

/-- A node of what has been read, in a loop. -/
theorem advances_again {β : Type} {form : ExprForm} {span : Span} {Q : β → Cursor → Prop}
    (h : c.ReadOn base c₁) (hspan : span.IsCut (c₁.readSince base)) :
    Advances base (do return .again (← newExpr form span)) c₁
      (Step.Leaves (fun e c' => c.ReadOn base c' ∧ e.span.IsCut (c'.readSince base)) Q) :=
  (advances_newExpr h.begun hspan).bind fun _ _ h' he => .pure h'.begun ⟨h.later h', he⟩

/-- A node of what has been read. -/
theorem advances_node {form : ExprForm} {span : Span} (h : c.ReadOn base c₁)
    (hspan : span.IsCut (c₁.readSince base)) :
    Advances base (newExpr form span) c₁ fun e c' => c.ReadSpan base c' e.span :=
  (advances_newExpr h.begun hspan).imp fun _ _ h' he => ⟨h.later h', he⟩

variable (hd : deeper.Advances)

include hd

/-! ### Lists in brackets -/

/-- A block reads at least its opening brace. -/
theorem advances_block (hc : c.Along base) :
    Advances base (block deeper) c fun _ c' => c.ReadOn base c' := by
  refine .expectMark hc fun hopen => ?_
  refine (Advances.repeatStep (fun _ _ => True) (Q := fun _ _ => True) (fun body c₁ hc₁ _ => ?_)
    hopen.begun trivial).imp fun _ _ h _ => hopen.toReadOn.later h
  refine .ifMark (fun hclose => ?_) fun _ => .ifEnd (fun _ => .unexpected hc₁.along _) fun _ => ?_
  · exact .next hc₁.along hclose TokenKind.noConfusion fun h => .pure h.begun trivial
  · exact (advances_statement (hd.statement base c₁ hc₁)).bind fun s c₂ h hs =>
      .pure h.begun ⟨hs.toReadOn, trivial⟩

/-- An argument list reads at least its opening parenthesis, and each round an argument. -/
theorem advances_args (hc : c.Along base) :
    Advances base (args deeper) c fun _ c' => c.ReadOn base c' := by
  refine .expectMark hc fun hopen => ?_
  refine (Advances.repeatStep (fun _ _ => True) (Q := fun _ _ => True) (fun es c₁ hc₁ _ => ?_)
    hopen.begun trivial).bind fun es c₂ h _ => .expectMark h.begun.along fun hclose =>
      .pure hclose.begun (hopen.toReadOn.later (h.trans hclose.since))
  -- Each round either stands at the closing mark or reads an argument.
  refine .ifMark (fun _ => .pure hc₁ trivial) fun _ =>
    (hd.assignment base c₁ hc₁).bind fun e c₂ h he => ?_
  exact .ifSkipMark h.begun
    (fun hcomma => .pure hcomma.begun ⟨he.toReadOn.later hcomma.since, trivial⟩)
    (.pure h.begun trivial)

/-! ### Functions and classes -/

/-- Parameters and body of a function advance from any region already read. -/
theorem advances_functionRest {name : Option String} {kind : FunctionKind} {start : Span}
    (hc : c.Begun base) (hstart : start.IsCut (c.readSince base)) :
    Advances base (functionRest deeper name kind start) c fun _ _ => True := by
  refine (advances_params hc.along).bind fun params c₁ h₁ _ => ?_
  refine (advances_block hd h₁.begun.along).bind fun body c₂ h₂ _ => .lastSpan ?_
  exact advances_newFunction h₂.begun (((h₁.trans h₂).isCut hstart).merge h₂.begun.last)

/-- A function definition reads at least its keyword. -/
theorem advances_functionDef {isNameRequired : Bool} (hc : c.Along base) :
    Advances base (functionDef deeper isNameRequired) c fun _ c' => c.ReadOn base c' := by
  refine .expectKeyword hc fun hword => ?_
  refine (advances_definedName hword.begun).bind fun name c₁ h₁ _ => ?_
  exact (advances_functionRest hd h₁.begun (h₁.isCut hword.cut)).imp fun f c₂ h₂ _ =>
    hword.toReadOn.later (h₁.trans h₂)

/-- One postfix either reads on and leaves a new operand, or leaves the operand as it is; its region
is cut from what was read. -/
theorem advances_postfixStep {e : Expr} (hc : c.Begun base)
    (he : e.span.IsCut (c.readSince base)) :
    Advances base (postfixStep deeper e) c
      (Step.Leaves (fun e c' => c.ReadOn base c' ∧ e.span.IsCut (c'.readSince base))
        fun e c' => e.span.IsCut (c'.readSince base)) := by
  refine .peek ?_
  -- each of the three ways to go on reads a token, and merges what it read into the span
  split
  · next hkind =>
    refine .next hc.along hkind TokenKind.noConfusion fun h₁ =>
      .expectPropertyName h₁.begun.along fun h₂ => ?_
    have h := h₁.toReadOn.later h₂.since
    exact advances_again h ((h.since.isCut he).merge h₂.cut)
  · next hkind =>
    refine .next hc.along hkind TokenKind.noConfusion fun h₁ =>
      (hd.assignment base _ h₁.begun).bind fun key c₂ h₂ _ =>
        .expectMark h₂.begun.along fun h₃ => ?_
    have h := h₁.toReadOn.later (h₂.trans h₃.since)
    exact advances_again h ((h.since.isCut he).merge h₃.cut)
  · refine (advances_args hd hc.along).bind fun args c₁ h₁ hread => .lastSpan ?_
    exact advances_again hread ((h₁.isCut he).merge h₁.begun.last)
  · exact .pure hc he

/-- Any number of postfixes leave an operand whose region is cut from what was read. -/
theorem advances_postfixTail {e : Expr} (hc : c.Begun base)
    (he : e.span.IsCut (c.readSince base)) :
    Advances base (postfixTail deeper e) c fun e c' => e.span.IsCut (c'.readSince base) :=
  .repeatStep (fun e c' => e.span.IsCut (c'.readSince base))
    (fun _ _ hc₁ he₁ => advances_postfixStep hd hc₁ he₁) hc he

/-- A member behind `private` or `static` reads at least that word. -/
theorem advances_declaredMember {isPrivate : Bool} {k : TokenKind} (hc : c.Begun base)
    (hkind : c.kind = k) (hk : k ≠ .endOfInput) :
    Advances base (declaredMember deeper isPrivate) c fun _ c' => c.ReadOn base c' := by
  refine .next hc.along hkind hk fun h₁ => .expectPropertyName h₁.begun.along fun h₂ => ?_
  have h := h₁.toReadOn.later h₂.since
  -- the keyword and the name were read, so whatever the form, the member reads on
  have hmember : ∀ (form : MemberForm) {c₃ : Cursor}, c.behind.behind.Since base c₃ →
      Advances base (do return ⟨c.behind.nextToken.lexeme, form,
        c.nextToken.span.merge (← lastSpan)⟩ : Parser Member) c₃ fun _ c' => c.ReadOn base c' :=
    fun form _ h₃ => .lastSpan (.pure h₃.begun (h.later h₃))
  refine .ifMark (fun _ => ?_) fun _ => ?_
  · have hstart := h₂.since.isCut h₁.cut
    split
    · exact (advances_functionRest hd h.begun hstart).bind fun f _ h₃ _ =>
        hmember (.privateMethod f) h₃
    · exact (advances_functionRest hd h.begun hstart).bind fun f _ h₃ _ =>
        hmember (.staticMethod f) h₃
  · -- a field ends with its statement, after its initializer if it has one
    have hfield : ∀ (initializer : Option Expr) (c₃ : Cursor), c.behind.behind.Since base c₃ →
        Advances base (do
          endStatement
          if isPrivate then
            return ⟨c.behind.nextToken.lexeme, .privateField initializer,
              c.nextToken.span.merge (← lastSpan)⟩
          else
            return ⟨c.behind.nextToken.lexeme, .staticField initializer,
              c.nextToken.span.merge (← lastSpan)⟩ : Parser Member) c₃
          fun _ c' => c.ReadOn base c' := by
      intro initializer c₃ h₃
      refine (advances_endStatement h₃.begun).bind fun _ c₄ h₄ _ => ?_
      split
      · exact hmember (.privateField initializer) (h₃.trans h₄)
      · exact hmember (.staticField initializer) (h₃.trans h₄)
    refine .ifSkipMark h.begun (fun h₃ => ?_) (hfield none _ (.refl h.begun))
    refine Advances.bind (m := fun _ _ => True) (.map ?_) fun initializer c₄ h₄ _ =>
      hfield initializer c₄ (h₃.since.trans h₄)
    exact (hd.assignment base _ h₃.begun).imp fun _ _ _ _ => trivial

/-- A public method reads at least its name. -/
theorem advances_publicMethod (hc : c.Begun base) :
    Advances base (publicMethod deeper) c fun _ c' => c.ReadOn base c' := by
  refine .expectPropertyName hc.along fun h₁ => ?_
  refine (advances_functionRest hd h₁.begun h₁.cut).bind fun f c₂ h₂ _ => .lastSpan ?_
  exact .pure h₂.begun (h₁.toReadOn.later h₂)

/-- A class body advances member by member. -/
theorem advances_classBody (hc : c.Begun base) :
    Advances base (classBody deeper) c fun _ _ => True := by
  refine .repeatStep (fun _ _ => True) (fun body c₁ hc₁ _ => .peek ?_) hc trivial
  -- each round reads a token: a brace, a semicolon, or the first token of a member
  split
  · next hkind =>
    exact .next hc₁.along hkind TokenKind.noConfusion fun h => .pure h.begun trivial
  · next hkind =>
    exact .next hc₁.along hkind TokenKind.noConfusion fun h => .pure h.begun ⟨h.toReadOn, trivial⟩
  · exact .unexpected hc₁.along _
  · next hkind =>
    refine .next hc₁.along hkind TokenKind.noConfusion fun h₁ =>
      .unless h₁.begun SyntaxFault.noConfusion h₁.cut fun _ => ?_
    exact (advances_functionRest hd h₁.begun h₁.cut).bind fun f c₂ h₂ _ =>
      .pure h₂.begun ⟨h₁.toReadOn.later h₂, trivial⟩
  · next hkind =>
    exact (advances_declaredMember hd hc₁ hkind TokenKind.noConfusion).bind fun _ _ h hread =>
      .pure h.begun ⟨hread, trivial⟩
  · next hkind =>
    exact (advances_declaredMember hd hc₁ hkind TokenKind.noConfusion).bind fun _ _ h hread =>
      .pure h.begun ⟨hread, trivial⟩
  · exact (advances_publicMethod hd hc₁).bind fun _ _ h hread => .pure h.begun ⟨hread, trivial⟩
  · exact (advances_publicMethod hd hc₁).bind fun _ _ h hread => .pure h.begun ⟨hread, trivial⟩
  · exact .unexpected hc₁.along _

/-- A class definition reads at least its keyword. -/
theorem advances_classDef {isNameRequired : Bool} (hc : c.Along base) :
    Advances base (classDef deeper isNameRequired) c fun _ c' => c.ReadOn base c' := by
  refine .expectKeyword hc fun hword => ?_
  refine (advances_definedName hword.begun).bind fun name c₁ h₁ _ => ?_
  -- the keyword was read first, so what follows only has to have begun
  have hbody : ∀ (superclass : Option Expr) (c₂ : Cursor), c.behind.Since base c₂ →
      Advances base (do
        let _ ← expectMark .leftBrace
        let body ← classBody deeper
        newClass name superclass body.constructor body.members
          (c.nextToken.span.merge (← lastSpan))) c₂ fun _ c' => c.ReadOn base c' := by
    intro superclass c₂ h₂
    refine .expectMark h₂.begun.along fun hopen => ?_
    refine (advances_classBody hd hopen.begun).bind fun body c₃ h₃ _ => .lastSpan ?_
    have h := h₂.trans (hopen.since.trans h₃)
    have hspan := (h.isCut hword.cut).merge h.begun.last
    exact (advances_newClass h.begun hspan).imp fun _ _ h' _ => hword.toReadOn.later (h.trans h')
  refine .ifKeyword (fun hkind => ?_) fun _ => hbody none _ h₁
  refine .next h₁.begun.along hkind TokenKind.noConfusion fun h₂ => ?_
  refine (hd.primary base _ h₂.begun).bind fun e c₃ h₃ he => ?_
  refine Advances.bind (m := fun _ _ => True) (.map ?_) fun superclass c₄ h₄ _ =>
    hbody superclass c₄ (h₁.trans (h₂.since.trans (h₃.trans h₄)))
  exact (advances_postfixTail hd h₃.begun he.cut).imp fun _ _ _ _ => trivial

/-! ### Primary expressions -/

/-- The head of an accessor reads its word, and its region is cut from what was read. -/
theorem advances_accessorHead {k : TokenKind} (hc : c.Along base) (hkind : c.kind = k)
    (hk : k ≠ .endOfInput) :
    Advances base (accessorHead deeper) c fun a c' => c.ReadSpan base c' a.span := by
  refine .next hc hkind hk fun h₁ => ?_
  split
  · exact .pure h₁.begun h₁
  · refine .ifSkipMark h₁.begun (fun h₂ => ?_) (.pure h₁.begun h₁)
    refine (hd.assignment base _ h₂.begun).bind fun target c₃ h₃ _ =>
      .expectMark h₃.begun.along fun h₄ => .pure h₄.begun ?_
    have h := h₂.since.trans (h₃.trans h₄.since)
    exact ⟨h₁.toReadOn.later h, (h.isCut h₁.cut).merge h₄.cut⟩

/-- The member behind an accessor, if there is one, has a region cut from what was read. -/
theorem advances_accessorMember? {a : Accessor} (hc : c.Begun base)
    (ha : a.span.IsCut (c.readSince base)) :
    Advances base (accessorMember? deeper a) c fun e? c' =>
      ∀ e ∈ e?, e.span.IsCut (c'.readSince base) := by
  -- the span of the member goes from that of the accessor to what was read last
  have hsome : ∀ {form : ExprForm} {span : Span} {c₁ : Cursor}, c₁.Begun base →
      span.IsCut (c₁.readSince base) → Advances base (some <$> newExpr form span) c₁ fun e? c' =>
        ∀ e ∈ e?, e.span.IsCut (c'.readSince base) := fun h₁ hspan =>
    .map ((advances_newExpr h₁ hspan).imp fun e _ _ he e' he' => Option.some.inj he' ▸ he)
  refine .peek ?_
  split
  · next hkind =>
    refine .next hc.along hkind TokenKind.noConfusion fun h₁ =>
      .expectPropertyName h₁.begun.along fun h₂ => ?_
    exact hsome h₂.begun (((h₁.since.trans h₂.since).isCut ha).merge h₂.cut)
  · next hkind =>
    refine .next hc.along hkind TokenKind.noConfusion fun h₁ =>
      (hd.assignment base _ h₁.begun).bind fun key c₂ h₂ _ =>
        .expectMark h₂.begun.along fun h₃ => ?_
    exact hsome h₃.begun (((h₁.since.trans (h₂.trans h₃.since)).isCut ha).merge h₃.cut)
  · exact .pure hc fun e he => by cases he

/-- An accessor with its member reads on, and its region is cut from what was read. -/
theorem advances_slot {k : TokenKind} (hc : c.Along base) (hkind : c.kind = k)
    (hk : k ≠ .endOfInput) :
    Advances base (slot deeper) c fun e c' => c.ReadSpan base c' e.span := by
  refine (advances_accessorHead hd hc hkind hk).bind fun a c₁ h₁ ha => ?_
  refine (advances_accessorMember? hd h₁.begun ha.cut).bind fun e? c₂ h₂ he => ?_
  cases e? with
  | some e => exact .pure h₂.begun ⟨ha.toReadOn.later h₂, he e rfl⟩
  | none => exact .peek (.peekSpan (.fail h₂.begun SyntaxFault.noConfusion (isCut_ahead h₂.begun)))

/-- An object literal reads on, and its region runs from one brace to the other. -/
theorem advances_objectLiteral (hc : c.Along base) :
    Advances base (objectLiteral deeper) c fun e c' => c.ReadSpan base c' e.span := by
  refine .expectMark hc fun hopen => ?_
  refine (Advances.repeatStep (fun _ _ => True) (Q := fun _ _ => True) (fun ps c₁ hc₁ _ => ?_)
    hopen.begun trivial).bind fun ps c₂ h₂ _ => .expectMark h₂.begun.along fun hclose => ?_
  · refine .ifMark (fun _ => .pure hc₁ trivial) fun _ =>
      -- A round reads name, colon and value, so it reads on even without a comma.
      (advances_propertyName hc₁).bind fun name c₂ h₂ hname =>
        .expectMark h₂.begun.along fun h₃ =>
          (hd.assignment base _ h₃.begun).bind fun e c₄ h₄ _ => ?_
    have h := hname.later (h₃.since.trans h₄)
    exact .ifSkipMark h₄.begun (fun h₅ => .pure h₅.begun ⟨h.later h₅.since, trivial⟩)
      (.pure h₄.begun trivial)
  · have h := h₂.trans hclose.since
    exact advances_node (hopen.toReadOn.later h) ((h.isCut hopen.cut).merge hclose.cut)

/-- The members behind the callee of `new` advance, each by at least a mark. -/
theorem advances_newCalleeTail {e : Expr} (hc : c.Begun base)
    (he : e.span.IsCut (c.readSince base)) :
    Advances base (newCalleeTail deeper e) c fun _ _ => True := by
  -- Only `.name` and `[key]` extend the callee; a parenthesis ends it.
  refine .repeatStep (fun e c' => e.span.IsCut (c'.readSince base)) (fun e c₁ hc₁ he => .peek ?_)
    hc he
  split
  · next hkind =>
    refine .next hc₁.along hkind TokenKind.noConfusion fun h₁ =>
      .expectPropertyName h₁.begun.along fun h₂ => ?_
    have h := h₁.toReadOn.later h₂.since
    exact advances_again h ((h.since.isCut he).merge h₂.cut)
  · next hkind =>
    refine .next hc₁.along hkind TokenKind.noConfusion fun h₁ =>
      (hd.assignment base _ h₁.begun).bind fun key c₂ h₂ _ =>
        .expectMark h₂.begun.along fun h₃ => ?_
    have h := h₁.toReadOn.later (h₂.trans h₃.since)
    exact advances_again h ((h.since.isCut he).merge h₃.cut)
  · exact .pure hc₁ trivial

/-- A construction reads on, and its region runs from `new` to the last token read. -/
theorem advances_construction {k : TokenKind} (hc : c.Along base) (hkind : c.kind = k)
    (hk : k ≠ .endOfInput) :
    Advances base (construction deeper) c fun e c' => c.ReadSpan base c' e.span := by
  refine .next hc hkind hk fun h₁ => (hd.primary base _ h₁.begun).bind fun e c₂ h₂ he => ?_
  refine (advances_newCalleeTail hd h₂.begun he.cut).bind fun callee c₃ h₃ _ => ?_
  -- The node is the same with arguments and without; only the place where it is numbered differs.
  have hnew : ∀ (args : List Expr) (c₄ : Cursor), c₃.Since base c₄ →
      Advances base (do newExpr (.new callee args) (c.nextToken.span.merge (← lastSpan))) c₄
        fun e c' => c.ReadSpan base c' e.span := fun args c₄ h₄ => .lastSpan <| by
    have h := h₂.trans (h₃.trans h₄)
    exact advances_node (h₁.toReadOn.later h) ((h.isCut h₁.cut).merge h₄.begun.last)
  refine .ifMark (fun _ => ?_) fun _ => hnew [] c₃ (.refl h₃.begun)
  exact (advances_args hd h₃.begun.along).bind fun args c₄ h₄ _ => hnew args c₄ h₄

/-- A use of `super` reads on. -/
theorem advances_superForm {k : TokenKind} (hc : c.Along base) (hkind : c.kind = k)
    (hk : k ≠ .endOfInput) :
    Advances base (superForm deeper) c fun _ c' => c.ReadOn base c' := by
  refine .next hc hkind hk fun h₁ => .ifMark (fun _ => ?_) fun _ => ?_
  · exact (advances_args hd h₁.begun.along).bind fun args c₂ h₂ _ =>
      .pure h₂.begun (h₁.toReadOn.later h₂)
  · refine .ifSkipMark h₁.begun (fun h₂ => .expectPropertyName h₂.begun.along fun h₃ => ?_)
      (.unexpected h₁.begun.along _)
    exact .pure h₃.begun (h₁.toReadOn.later (h₂.since.trans h₃.since))

/-- A primary expression begins with a token of its own. -/
theorem advances_primary (hc : c.Along base) :
    Advances base (primary deeper) c fun e c' => c.ReadSpan base c' e.span := by
  -- a literal is one token, and its span goes no further
  have hliteral : ∀ (form : ExprForm) {k : TokenKind}, c.kind = k → k ≠ .endOfInput →
      Advances base (do
        let _ ← next
        newExpr form (c.nextToken.span.merge (← lastSpan))) c fun e c' =>
          c.ReadSpan base c' e.span := fun form _ hkind hk =>
    .next hc hkind hk fun h => .lastSpan (advances_node h.toReadOn (h.cut.merge h.begun.last))
  -- any other node starts where its first token does
  have hnode : ∀ {form : ExprForm} {c₁ : Cursor}, c.ReadOn base c₁ →
      Advances base (do newExpr form (c.nextToken.span.merge (← lastSpan))) c₁ fun e c' =>
        c.ReadSpan base c' e.span := fun h =>
    .lastSpan (advances_node h ((h.isCut_next hc).merge h.begun.last))
  refine .peekSpan (.peek ?_)
  split
  · next hkind => exact hliteral _ hkind TokenKind.noConfusion
  · next hkind => exact hliteral _ hkind TokenKind.noConfusion
  · next hkind => exact hliteral _ hkind TokenKind.noConfusion
  · next hkind => exact hliteral _ hkind TokenKind.noConfusion
  · next hkind => exact hliteral _ hkind TokenKind.noConfusion
  · next hkind => exact hliteral _ hkind TokenKind.noConfusion
  · next hkind => exact hliteral _ hkind TokenKind.noConfusion
  · next hkind => exact hliteral _ hkind TokenKind.noConfusion
  · -- after the literals, the forms with parts of their own
    exact (advances_functionDef hd hc).bind fun f c₁ _ h => hnode h
  · exact (advances_classDef hd hc).bind fun d c₁ _ h => hnode h
  · next hkind => exact advances_construction hd hc hkind TokenKind.noConfusion
  · next hkind => exact advances_slot hd hc hkind TokenKind.noConfusion
  · next hkind => exact advances_slot hd hc hkind TokenKind.noConfusion
  · next hkind =>
    exact (advances_superForm hd hc hkind TokenKind.noConfusion).bind fun form c₁ _ h => hnode h
  · next hkind =>
    refine .next hc hkind TokenKind.noConfusion fun h₁ =>
      (hd.assignment base _ h₁.begun).bind fun e c₂ h₂ he =>
        .expectMark h₂.begun.along fun h₃ => .pure h₃.begun ?_
    exact ⟨h₁.toReadOn.later (h₂.trans h₃.since), h₃.since.isCut he.cut⟩
  · exact advances_objectLiteral hd hc
  · exact .unexpected hc _

/-! ### Operators -/

/-- A primary expression with its postfixes reads on. -/
theorem advances_postfixed (hc : c.Along base) :
    Advances base (postfixed deeper) c fun e c' => c.ReadSpan base c' e.span :=
  (advances_primary hd hc).bind fun _ _ h he =>
    (advances_postfixTail hd h.begun he.cut).imp fun _ _ h' he' => ⟨he.toReadOn.later h', he'⟩

/-- A unary operator with its operand reads on; its region runs from the operator to the operand's
end. -/
theorem advances_unary (hc : c.Along base) :
    Advances base (unary deeper) c fun e c' => c.ReadSpan base c' e.span := by
  refine .peek ?_
  split
  · exact advances_postfixed hd hc
  · next op hop =>
    -- A token that is a unary operator is not the end of input.
    have hk : c.kind ≠ .endOfInput := by
      intro hkind
      rw [hkind] at hop
      cases hop
    refine .next hc rfl hk fun h₁ => (hd.unary base _ h₁.begun).bind fun operand c₂ h₂ ho =>
      .unless h₂.begun SyntaxFault.noConfusion ho.cut fun _ => ?_
    exact advances_node (h₁.toReadOn.later h₂) ((h₂.isCut h₁.cut).merge ho.cut)

/-- The right side of an operator has a region cut from what was read. -/
theorem advances_rightSide {connective : Connective} {left : Expr} (hc : c.Begun base)
    (hleft : left.span.IsCut (c.readSince base)) :
    Advances base (rightSide deeper connective left) c fun side c' =>
      side.expr.span.IsCut (c'.readSince base) := by
  -- an ordinary operand, unless an accessor follows `in`
  have hunary : Advances base (do return .operand (← unary deeper) : Parser RightSide) c
      fun side c' => side.expr.span.IsCut (c'.readSince base) :=
    (advances_unary hd hc.along).bind fun e c₁ h he => .pure h.begun he.cut
  unfold rightSide
  split
  · refine (advances_isAtAccessor hc).bind fun isThere c₁ _ hthere => ?_
    obtain ⟨rfl, hkind⟩ := hthere
    split
    · refine (advances_accessorHead hd hc.along rfl (hkind ‹_›)).bind fun a c₂ h₂ ha => ?_
      refine (advances_accessorMember? hd h₂.begun ha.cut).bind fun e? c₃ h₃ he => ?_
      cases e? with
      | some e =>
        exact (advances_postfixTail hd h₃.begun (he e rfl)).bind fun e' c₄ h₄ he' =>
          .pure h₄.begun he'
      | none =>
        have hspan := ((h₂.trans h₃).isCut hleft).merge (h₃.isCut ha.cut)
        exact (advances_newExpr h₃.begun hspan).bind fun e c₄ h₄ he' => .pure h₄.begun he'
    · exact hunary
  · exact hunary

/-- Any number of operators and right sides leave an operand whose region is cut from what was read.
-/
theorem advances_binaryTail (tiers least : Nat) {left : Expr} (hc : c.Begun base)
    (hleft : left.span.IsCut (c.readSince base)) :
    Advances base (binaryTail deeper tiers least left) c fun e c' =>
      e.span.IsCut (c'.readSince base) := by
  -- on the tiers, the operands on the right being read one tier higher
  induction tiers generalizing least left c with
  | zero => exact .pure hc hleft
  | succ tiers ih =>
    refine .repeatStep (fun e c' => e.span.IsCut (c'.readSince base)) (fun e c₁ hc₁ he => ?_)
      hc hleft
    refine .peek ?_
    split
    · exact .pure hc₁ he
    · next connective tier hconnective =>
      -- an operator is a token to be read, so the round advances
      have hk : c₁.kind ≠ .endOfInput := by
        intro hkind
        rw [hkind] at hconnective
        cases hconnective
      split
      · exact .pure hc₁ he
      · refine .next hc₁.along rfl hk fun h₁ =>
          (advances_rightSide hd h₁.begun (h₁.since.isCut he)).bind fun side c₂ h₂ hside => ?_
        have h := h₁.toReadOn.later h₂
        cases side with
        | whole e' => exact .pure h₂.begun ⟨h, hside⟩
        | operand right =>
          refine (ih (tier + 1) h₂.begun hside).bind fun right' c₃ h₃ hright => ?_
          have hspan := ((h.since.trans h₃).isCut he).merge hright
          cases connective <;> exact advances_again (h.later h₃) hspan

/-- A chain of binary operators reads on. -/
theorem advances_binary (hc : c.Along base) :
    Advances base (binary deeper) c fun e c' => c.ReadSpan base c' e.span :=
  (advances_unary hd hc).bind fun _ _ h he =>
    (advances_binaryTail hd tierCount 1 h.begun he.cut).imp fun _ _ h' he' =>
      ⟨he.toReadOn.later h', he'⟩

/-- An assignment reads on. -/
theorem advances_assignment (hc : c.Along base) :
    Advances base (assignment deeper) c fun e c' => c.ReadSpan base c' e.span := by
  refine (advances_binary hd hc).bind fun target c₁ h₁ ht => .ifMark (fun hkind => ?_) fun _ =>
    .pure h₁.begun ht
  refine .next h₁.begun.along hkind TokenKind.noConfusion fun h₂ =>
    .unless h₂.begun SyntaxFault.noConfusion h₂.cut fun _ =>
      (hd.assignment base _ h₂.begun).bind fun value c₃ h₃ hv => ?_
  have h := h₂.since.trans h₃
  exact advances_node (ht.toReadOn.later h) ((h.isCut ht.cut).merge hv.cut)

/-! ### Statements -/

/-- A declaration reads at least its keyword. -/
theorem advances_declaration {isMutable : Bool} {k : TokenKind} (hc : c.Along base)
    (hkind : c.kind = k) (hk : k ≠ .endOfInput) :
    Advances base (declaration deeper isMutable) c fun _ c' => c.ReadOn base c' := by
  refine .next hc hkind hk fun h₁ => .expectIdentifier h₁.begun.along fun name h₂ => ?_
  -- what follows is the same with and without an initial value
  have hrest : ∀ (initializer : Option Expr) (c₃ : Cursor), c.behind.behind.Since base c₃ →
      Advances base (do
        endStatement
        return .declare name isMutable initializer : Parser StmtForm) c₃
        fun _ c' => c.ReadOn base c' := fun initializer c₃ h₃ =>
    (advances_endStatement h₃.begun).bind fun _ c₄ h₄ _ =>
      .pure h₄.begun (h₁.toReadOn.later (h₂.since.trans (h₃.trans h₄)))
  refine .ifSkipMark h₂.begun (fun h₃ => ?_) ?_
  · exact (Advances.map (Q := fun _ _ => True)
      ((hd.assignment base _ h₃.begun).imp fun _ _ _ _ => trivial)).bind
        fun initializer c₄ h₄ _ => hrest initializer c₄ (h₃.since.trans h₄)
  · split
    · exact hrest none _ (.refl h₂.begun)
    · exact .fail h₂.begun SyntaxFault.noConfusion (h₂.cut.mono (List.subset_append_left _ _))

/-- A condition in parentheses advances. -/
theorem advances_condition (hc : c.Along base) :
    Advances base (condition deeper) c fun _ _ => True := by
  refine .expectMark hc fun h₁ => (hd.assignment base _ h₁.begun).bind fun e c₂ h₂ _ => ?_
  exact .expectMark h₂.begun.along fun h₃ => .pure h₃.begun trivial

/-- A conditional reads at least `if`, with an `else` and without. -/
theorem advances_conditional {k : TokenKind} (hc : c.Along base) (hkind : c.kind = k)
    (hk : k ≠ .endOfInput) :
    Advances base (conditional deeper) c fun _ c' => c.ReadOn base c' := by
  refine .next hc hkind hk fun h₁ => (advances_condition hd h₁.begun.along).bind
    fun test c₂ h₂ _ => (advances_statement (hd.statement base c₂ h₂.begun)).bind
      fun yes c₃ h₃ _ => ?_
  have h := h₁.toReadOn.later (h₂.trans h₃)
  refine .ifKeyword (fun hkind => ?_) fun _ => .pure h₃.begun h
  refine .next h₃.begun.along hkind TokenKind.noConfusion fun h₄ => ?_
  -- Of the alternative only where it ends matters here, not its region.
  exact (Advances.map (Q := fun _ _ => True)
    ((advances_statement (hd.statement base _ h₄.begun)).imp fun _ _ _ _ => trivial)).bind
      fun no c₅ h₅ _ => .pure h₅.begun (h.later (h₄.since.trans h₅))

/-- A loop reads at least `while`. -/
theorem advances_whileLoop {k : TokenKind} (hc : c.Along base) (hkind : c.kind = k)
    (hk : k ≠ .endOfInput) :
    Advances base (whileLoop deeper) c fun _ c' => c.ReadOn base c' := by
  refine .next hc hkind hk fun h₁ => (advances_condition hd h₁.begun.along).bind
    fun test c₂ h₂ _ => (advances_statement (hd.statement base c₂ h₂.begun)).bind
      fun body c₃ h₃ _ => ?_
  exact .pure h₃.begun (h₁.toReadOn.later (h₂.trans h₃))

/-- A `return` reads at least its keyword, with a value and without. -/
theorem advances_returnStatement {k : TokenKind} (hc : c.Along base) (hkind : c.kind = k)
    (hk : k ≠ .endOfInput) :
    Advances base (returnStatement deeper) c fun _ c' => c.ReadOn base c' := by
  refine .next hc hkind hk fun h₁ => .peek ?_
  -- With a value or without, the statement ends the same way.
  have hrest : ∀ (value : Option Expr) (c₂ : Cursor), c.behind.Since base c₂ →
      Advances base (do
        endStatement
        return .ret value : Parser StmtForm) c₂ fun _ c' => c.ReadOn base c' :=
    fun value c₂ h₂ => (advances_endStatement h₂.begun).bind fun _ c₃ h₃ _ =>
      .pure h₃.begun (h₁.toReadOn.later (h₂.trans h₃))
  have hnone := hrest none _ (.refl h₁.begun)
  split
  · exact hnone
  · exact hnone
  · exact hnone
  · exact (Advances.map (Q := fun _ _ => True)
      ((hd.assignment base _ h₁.begun).imp fun _ _ _ _ => trivial)).bind
        fun value c₂ h₂ _ => hrest value c₂ h₂

/-- A `throw` reads at least its keyword. -/
theorem advances_throwStatement {k : TokenKind} (hc : c.Along base) (hkind : c.kind = k)
    (hk : k ≠ .endOfInput) :
    Advances base (throwStatement deeper) c fun _ c' => c.ReadOn base c' := by
  refine .next hc hkind hk fun h₁ => (hd.assignment base _ h₁.begun).bind fun value c₂ h₂ _ => ?_
  exact (advances_endStatement h₂.begun).bind fun _ c₃ h₃ _ =>
    .pure h₃.begun (h₁.toReadOn.later (h₂.trans h₃))

/-- A `try` reads at least its keyword. -/
theorem advances_tryStatement {k : TokenKind} (hc : c.Along base) (hkind : c.kind = k)
    (hk : k ≠ .endOfInput) :
    Advances base (tryStatement deeper) c fun _ c' => c.ReadOn base c' := by
  refine .next hc hkind hk fun h₁ => (advances_block hd h₁.begun.along).bind fun body c₂ h₂ _ => ?_
  refine .expectKeyword h₂.begun.along fun h₃ => .expectMark h₃.begun.along fun h₄ =>
    .expectIdentifier h₄.begun.along fun param h₅ => .expectMark h₅.begun.along fun h₆ => ?_
  have h := h₃.since.trans (h₄.since.trans (h₅.since.trans h₆.since))
  exact (advances_block hd h₆.begun.along).bind fun handler c₇ h₇ _ =>
    .pure h₇.begun (h₁.toReadOn.later (h₂.trans (h.trans h₇)))

omit hd in
/-- An expression statement reads as far as its expression at least. -/
theorem advances_expressionStatement
    (he : Advances base deeper.assignment c fun e c' => c.ReadSpan base c' e.span) :
    Advances base (expressionStatement deeper) c fun _ c' => c.ReadOn base c' :=
  he.bind fun _ _ h hspan => (advances_endStatement h.begun).bind fun _ _ h' _ =>
    .pure h'.begun (hspan.toReadOn.later h')

/-- Only a statement that is an expression begins with nothing of its own. -/
theorem advances_statementForm (hc : c.Along base)
    (he : Advances base deeper.assignment c fun e c' => c.ReadSpan base c' e.span) :
    Advances base (statementForm deeper) c fun _ c' => c.ReadOn base c' := by
  refine .peek ?_
  -- One case for each word a statement may start with; an expression statement starts with none.
  split
  · next hkind => exact advances_declaration hd hc hkind TokenKind.noConfusion
  · next hkind => exact advances_declaration hd hc hkind TokenKind.noConfusion
  · exact (advances_functionDef hd hc).bind fun _ _ h hread => .pure h.begun hread
  · exact (advances_classDef hd hc).bind fun _ _ h hread => .pure h.begun hread
  · next hkind => exact advances_conditional hd hc hkind TokenKind.noConfusion
  · next hkind => exact advances_whileLoop hd hc hkind TokenKind.noConfusion
  · next hkind => exact advances_returnStatement hd hc hkind TokenKind.noConfusion
  · next hkind => exact advances_throwStatement hd hc hkind TokenKind.noConfusion
  · next hkind => exact advances_tryStatement hd hc hkind TokenKind.noConfusion
  · exact (advances_block hd hc).bind fun _ _ h hread => .pure h.begun hread
  · next hkind =>
    exact .next hc hkind TokenKind.noConfusion fun h => .pure h.begun h.toReadOn
  · exact advances_expressionStatement he

/-- A statement reads on, and its region is cut from what was read. -/
theorem advances_statementBody (hc : c.Along base)
    (he : Advances base deeper.assignment c fun e c' => c.ReadSpan base c' e.span) :
    Advances base (statementBody deeper) c fun s c' => c.ReadSpan base c' s.span :=
  .peekSpan ((advances_statementForm hd hc he).bind fun _ _ h hread =>
    .lastSpan (.pure h.begun ⟨hread, (hread.isCut_next hc).merge h.begun.last⟩))

end Parser

/-! ### Levels -/

/-- If all parsers of a level advance, so do those of the level over it. -/
theorem Level.Advances.over {deeper : Level} (hd : deeper.Advances) :
    (Level.over deeper).Advances where
  assignment _ _ hc := Parser.advances_assignment hd hc.along
  unary _ _ hc := Parser.advances_unary hd hc.along
  primary _ _ hc := Parser.advances_primary hd hc.along
  statement base c hc := Parser.advances_statementBody hd hc.along (hd.assignment base c hc)

/-- The level at which everything is too deep advances: it reports the next token. -/
theorem Level.advances_full : Level.full.Advances := by
  have htooDeep : ∀ {α : Type} (base : List Token) (c : Cursor) {Q : α → Cursor → Prop},
      c.Begun base → Parser.Advances base
        (do Parser.fail .nestedTooDeeply (← Parser.peekSpan) : Parser α) c Q :=
    fun _ _ _ hc => .peekSpan (.fail hc SyntaxFault.noConfusion (Parser.isCut_ahead hc))
  exact ⟨fun base c => htooDeep base c, fun base c => htooDeep base c,
    fun base c => htooDeep base c, fun base c => htooDeep base c⟩

/-- Every level advances, by induction on the room left. -/
theorem Level.advances_ofRoom (room : Nat) : (Level.ofRoom room).Advances := by
  induction room with
  | zero => exact advances_full
  | succ room ih => exact ih.over

/-- A whole statement begins with a token of its own, whatever it is. -/
theorem Parser.advances_topStatement (hc : c.Along base) :
    Advances base topStatement c fun s c' => c.ReadSpan base c' s.span :=
  advances_statement (advances_statementBody (Level.advances_ofRoom 127) hc
    (advances_assignment (Level.advances_ofRoom 126) hc))

end Enclave
