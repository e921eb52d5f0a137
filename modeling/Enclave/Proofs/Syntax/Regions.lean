import Enclave.Proofs.Syntax.Placing

/-!
# What the grammar reads, and where

Every parser of the grammar finds nodes that stand where they should, given that those one level
deeper do (`Level.Reads`), so all levels do. Beside the regions it is kept in mind that the nodes
are regular, and that behind a statement that ends with an `if` without `else` no `else` follows.
-/

namespace Enclave

variable {all : List Token} {lo : Nat} {c c' : Cursor}

/-- The parsers of a level find nodes that stand where they should. -/
structure Level.Reads (all : List Token) (l : Level) : Prop where
  assignment : ∀ c : Cursor, c.Stands all →
    Parser.Finds l.assignment c fun e c' => c'.HasRead all c.here [.expr e]
  unary : ∀ c : Cursor, c.Stands all →
    Parser.Finds l.unary c fun e c' => c'.HasRead all c.here [.expr e]
  primary : ∀ c : Cursor, c.Stands all →
    Parser.Finds l.primary c fun e c' => c'.HasRead all c.here [.expr e]
  statement : ∀ c : Cursor, c.Stands all →
    Parser.Finds l.statement c fun s c' =>
      c'.HasRead all c.here [.stmt s] ∧ (s.endsOpen = true → c'.kind ≠ .keyword .kwElse)

namespace Parser

/-! ### Tokens -/

/-- A new expression stands where it should if it does without its number and height. -/
theorem finds_newExpr {form : ExprForm} {span : Span}
    (h : ∀ id height, c.HasRead all lo [.expr ⟨id, span, height, form⟩]) :
    Finds (newExpr form span) c fun e c' => c'.HasRead all lo [.expr e] :=
  Ends.newExpr trivial fun id height _ hstays => (h id height).stays hstays

/-- A parameter list is read, and no name stands in it twice. -/
theorem finds_params (hc : c.Stands all) :
    Finds params c fun names c' => c'.HasRead all c.here [] ∧ names.Nodup := by
  refine Finds.expectMark fun hopen => ?_
  refine Ends.bind (Ends.repeatSame (fun names c' => c'.HasRead all c.here [] ∧ names.Nodup)
    (fun names c₁ h => ?_) trivial ⟨hc.next hopen rfl, .nil⟩) fun names c₁ h => ?_
  · refine .ifMark (fun _ => .pure h) fun _ => Finds.expectIdentifier fun name hname => ?_
    refine .unless (fun _ => trivial) fun hnew => ?_
    -- a name that is there already is an error
    have hnodup : (names ++ [name]).Nodup := by
      simp only [List.contains_eq_mem, decide_eq_true_eq] at hnew
      exact List.nodup_append.mpr ⟨h.2, List.nodup_singleton _, by
        rintro a ha b hb rfl
        exact hnew (List.mem_singleton.mp hb ▸ ha)⟩
    exact .ifSkipMark (fun hcomma => .pure ⟨(h.1.next hname rfl).next hcomma rfl, hnodup⟩)
      fun _ => .pure ⟨h.1.next hname rfl, hnodup⟩
  · exact Finds.expectMark fun hclose => .pure ⟨h.1.next hclose rfl, h.2⟩

/-- The name of a function or a class is read; where it is required, there is one. -/
theorem finds_definedName {missing : Expectation} {isRequired : Bool} (h : c.HasRead all lo []) :
    Finds (definedName missing isRequired) c fun name c' =>
      c'.HasRead all lo [] ∧ (isRequired = true → name.isSome = true) := by
  refine .peek ?_
  split
  · exact Finds.expectIdentifier fun name hname => .pure ⟨h.next hname rfl, fun _ => rfl⟩
  · split
    · exact Finds.unexpected _ _ _
    · next hnot => exact .pure ⟨h, fun hrequired => absurd hrequired hnot⟩

variable {deeper : Level} (hd : deeper.Reads all)

include hd

/-! ### Lists in brackets -/

/-- A statement one level deeper is read where it stands. -/
theorem finds_statement (hc : c.Stands all) :
    Finds (statement deeper) c fun s c' =>
      c'.HasRead all c.here [.stmt s] ∧ (s.endsOpen = true → c'.kind ≠ .keyword .kwElse) :=
  (hd.statement c hc).bind fun _ _ h => .unless (fun _ => trivial) fun _ => .pure h

/-- A block is read from its opening brace to its closing one. -/
theorem finds_block (hc : c.Stands all) :
    Finds (block deeper) c fun body c' => c'.HasRead all c.here (body.map .stmt) := by
  refine Finds.expectMark fun hopen => ?_
  refine Ends.repeatStep (fun body c' => c'.HasRead all c.here (body.map .stmt))
    (fun body c₁ h => ?_) trivial (hc.next hopen rfl)
  refine .ifMark (fun hclose => .next (.pure ?_)) fun _ => .ifEnd (fun _ => ?_) fun _ => ?_
  · exact (h.next hclose rfl).of_subset (by simp)
  · exact Finds.unexpected _ _ _
  · refine (finds_statement hd h.toStands).bind fun s c₂ hs => .pure ?_
    exact (h.append hs.1).of_subset (by simp)

/-- The arguments are read in order between their parentheses. -/
theorem finds_args (hc : c.Stands all) :
    Finds (args deeper) c fun es c' => c'.HasRead all c.here (es.map .expr) := by
  refine Finds.expectMark fun hopen => ?_
  refine Ends.bind (Ends.repeatSame (fun es c' => c'.HasRead all c.here (es.map .expr))
    (fun es c₁ h => ?_) trivial (hc.next hopen rfl)) fun es c₁ h => ?_
  · -- The invariant of the loop is that exactly the arguments found so far have been read.
    refine .ifMark (fun _ => .pure h) fun _ => (hd.assignment c₁ h.toStands).bind fun e c₂ he => ?_
    have h₂ : c₂.HasRead all c.here ((es ++ [e]).map .expr) := by
      rw [List.map_append]
      exact h.append he
    exact .ifSkipMark (fun hcomma => .pure (h₂.next hcomma rfl)) fun _ => .pure h₂
  · exact Finds.expectMark fun hclose => .pure (h.next hclose rfl)

/-! ### Functions and classes -/

/-- Parameters and body are read as the rest of a function that begins further to the left. -/
theorem finds_functionRest {name : Option String} {kind : FunctionKind} {start : Span}
    (h : c.HasRead all lo []) (hstart : start.Begins all lo) :
    Finds (functionRest deeper name kind start) c fun f c' =>
      c'.HasRead all lo [.function f] ∧ f.name = name ∧ f.kind = kind := by
  refine (finds_params h.toStands).bind fun params c₁ hparams => ?_
  have h₁ := h.append hparams.1
  refine (finds_block hd h₁.toStands).bind fun body c₂ hbody => ?_
  have h₂ := h₁.append hbody
  refine .lastSpan (.newFunction trivial fun site height c₃ hstays => ⟨?_, rfl, rfl⟩)
  exact .stays (h₂.enclosed hstart rfl hparams.2) hstays

/-- A function definition is read from its keyword on, and is a plain function. -/
theorem finds_functionDef {isNameRequired : Bool} (hc : c.Stands all) :
    Finds (functionDef deeper isNameRequired) c fun f c' =>
      c'.HasRead all c.here [.function f] ∧ (isNameRequired = true → f.name.isSome = true) ∧
        f.kind = .plain := by
  refine Finds.expectKeyword fun hword => ?_
  refine (finds_definedName (hc.next hword rfl)).bind fun name c₁ hname => ?_
  refine (finds_functionRest hd hname.1 hc.begins).imp fun f c₂ hf => ?_
  exact ⟨hf.1, fun hrequired => hf.2.1 ▸ hname.2 hrequired, hf.2.2⟩

/-- Postfixes extend the operand, which stays the leftmost child. -/
theorem finds_postfixTail {e : Expr} (h : c.HasRead all lo [.expr e]) :
    Finds (postfixTail deeper e) c fun e c' => c'.HasRead all lo [.expr e] := by
  refine Ends.repeatSame (fun e c' => c'.HasRead all lo [.expr e]) (fun e c₁ h => .peek ?_)
    trivial h
  -- each round extends the expression before it, which becomes its first child
  have hagain : ∀ {form : ExprForm} {span : Span} {c₂ : Cursor},
      (∀ id height, c₂.HasRead all lo [.expr ⟨id, span, height, form⟩]) →
      Finds (do return .again (← newExpr form span)) c₂ (Step.Leaves
        (fun e c' => c'.HasRead all lo [.expr e]) fun e c' => c'.HasRead all lo [.expr e]) :=
    fun h => (finds_newExpr h).bind fun _ _ h => .pure h
  split
  · next hdot =>
    have h₁ := h.toStands.next hdot rfl
    refine .next (Finds.expectPropertyName fun hword => hagain fun id height => ?_)
    have h₂ := h₁.next rfl (TokenKind.isPlain_of_isWord hword)
    exact h.extended h₂ rfl (by rw [h₁.toStands.last_behind]; rfl) ⟨trivial, nofun⟩
  · next hopen =>
    have h₁ := h.toStands.next hopen rfl
    refine .next ((hd.assignment _ h₁.toStands).bind fun key c₂ hkey => ?_)
    refine Finds.expectMark fun hclose => hagain fun id height => ?_
    have h₂ := (h₁.append hkey).next hclose rfl
    exact h.extended h₂ rfl (by rw [hkey.toStands.last_behind]; rfl) ⟨trivial, nofun⟩
  · -- a call closes with the parenthesis of its arguments
    refine (finds_args hd h.toStands).bind fun args c₂ hargs => .lastSpan (hagain fun _ _ => ?_)
    exact h.extended hargs rfl rfl ⟨trivial, nofun⟩
  · exact .pure h

/-- A member behind `private` or `static` is read from that word on. -/
theorem finds_declaredMember {isPrivate : Bool} (hc : c.Stands all)
    (hplain : c.kind.isPlain = true) :
    Finds (declaredMember deeper isPrivate) c fun m c' => c'.HasRead all c.here [.member m] := by
  have h₁ := hc.next rfl hplain
  refine .next (Finds.expectPropertyName fun hword => ?_)
  have h₂ := h₁.next rfl (TokenKind.isPlain_of_isWord hword)
  -- the member encloses all that was read since its keyword
  have hmember : ∀ (form : MemberForm) {c₃ : Cursor}, c₃.HasRead all c.here form.children →
      form.IsRegular c.behind.nextToken.lexeme →
      Finds (do return ⟨c.behind.nextToken.lexeme, form, c.nextToken.span.merge (← lastSpan)⟩) c₃
        fun m c' => c'.HasRead all c.here [.member m] := fun form _ h hregular =>
    .lastSpan (.pure (h.enclosed hc.begins rfl hregular))
  refine .ifMark (fun _ => ?_) fun _ => ?_
  · -- a method, private or static as the keyword says
    split
    · refine (finds_functionRest hd h₂ hc.begins).bind fun f c₃ hf => ?_
      exact hmember (.privateMethod f) hf.1 hf.2
    · refine (finds_functionRest hd h₂ hc.begins).bind fun f c₃ hf => ?_
      exact hmember (.staticMethod f) hf.1 hf.2
  · -- a field ends with a semicolon, or before a line end that stands for one
    have hfield : ∀ (initializer : Option Expr) (c₃ : Cursor),
        c₃.HasRead all c.here (initializer.toList.map .expr) →
        Finds (do
          endStatement
          if isPrivate then
            return ⟨c.behind.nextToken.lexeme, .privateField initializer,
              c.nextToken.span.merge (← lastSpan)⟩
          else
            return ⟨c.behind.nextToken.lexeme, .staticField initializer,
              c.nextToken.span.merge (← lastSpan)⟩) c₃
          fun m c' => c'.HasRead all c.here [.member m] := by
      intro initializer c₃ h
      -- with or without the semicolon, the field is of the kind of its keyword
      have hrest : ∀ {c₄ : Cursor}, c₄.HasRead all c.here (initializer.toList.map .expr) →
          Finds (if isPrivate then
              return ⟨c.behind.nextToken.lexeme, .privateField initializer,
                c.nextToken.span.merge (← lastSpan)⟩
            else
              return ⟨c.behind.nextToken.lexeme, .staticField initializer,
                c.nextToken.span.merge (← lastSpan)⟩) c₄
            fun m c' => c'.HasRead all c.here [.member m] := by
        intro c₄ h
        split
        · exact hmember (.privateField initializer) h trivial
        · exact hmember (.staticField initializer) h trivial
      exact Finds.endStatement (fun hsemicolon => hrest (h.next hsemicolon rfl)) (hrest h)
    refine .ifSkipMark (fun hassign => ?_) fun _ => hfield none _ h₂
    have h₃ := h₂.next hassign rfl
    refine Ends.bind (.map ?_) hfield
    exact (hd.assignment _ h₃.toStands).imp fun e c₄ he => h₃.append he

/-- A public method is read from its name on. -/
theorem finds_publicMethod (hc : c.Stands all)
    (hword : ∀ word, c.kind = .keyword word → word.beginsMember = false) :
    Finds (publicMethod deeper) c fun m c' => c'.HasRead all c.here [.member m] := by
  refine Finds.expectPropertyName fun hisWord => ?_
  have hplain := TokenKind.isPlain_of_isWord hisWord
  have hspelled := hc.spelled hplain
  refine (finds_functionRest hd (hc.next rfl hplain) hc.begins).bind fun f c₁ hf => ?_
  refine .lastSpan (.pure (hf.1.enclosed hc.begins rfl ⟨hf.2.1, hf.2.2, fun word hmem => ?_⟩))
  -- the name is the token itself, which begins no other kind of member
  cases hkind : c.kind with
  | identifier name =>
    rw [hkind] at hspelled
    rw [hspelled.1, hspelled.2] at hmem
    cases hmem
  | keyword word' =>
    rw [hkind] at hspelled
    rw [show Keyword.ofSpelling? c.nextToken.lexeme = some word' from hspelled] at hmem
    cases hmem
    exact hword word hkind
  | _ =>
    rw [hkind] at hisWord
    cases hisWord

/-- The members of a class body are read in order behind what was read before, and its constructor
is one. -/
theorem finds_classBody {ks : List SyntaxNode} (h : c.HasRead all lo ks) :
    Finds (classBody deeper) c fun body c' => c'.HasRead all lo (ks ++ body.children) ∧
      ∀ f ∈ body.constructor, f.name = some "constructor" ∧ f.kind = .constructor := by
  refine Ends.repeatSame (fun (body : ClassBody) c' => c'.HasRead all lo (ks ++ body.children) ∧
    ∀ f ∈ body.constructor, f.name = some "constructor" ∧ f.kind = .constructor)
    (fun body c₁ h => .peek ?_) trivial
    ⟨by rwa [show ClassBody.children ⟨none, []⟩ = [] from rfl, List.append_nil],
      fun _ h => nomatch h⟩
  -- a member read is added to those read before it
  have hmember : ∀ {m : Member} {c₂ : Cursor}, c₂.HasRead all c₁.here [.member m] →
      c₂.HasRead all lo
        (ks ++ ClassBody.children { body with members := body.members ++ [m] }) := by
    intro m c₂ hm
    refine (h.1.append hm).of_subset ?_
    simp [ClassBody.children]
  split
  · next hclose => exact .next (.pure ⟨h.1.next hclose rfl, h.2⟩)
  · next hsemicolon => exact .next (.pure ⟨h.1.next hsemicolon rfl, h.2⟩)
  · exact Finds.unexpected _ _ _
  · next hword =>
    refine .next (.unless (fun _ => trivial) fun hnone => ?_)
    have hstands := h.1.toStands
    refine (finds_functionRest hd (hstands.next hword rfl) hstands.begins).bind fun f c₂ hf =>
      .pure ⟨(h.1.append hf.1).of_subset ?_, ?_⟩
    · simp only [ClassBody.children, Option.toList_some]
      grind
    · rintro _ ⟨⟩
      exact hf.2
  · next hword =>
    exact (finds_declaredMember hd h.1.toStands (hword ▸ rfl)).bind fun m c₂ hm =>
      .pure ⟨hmember hm, h.2⟩
  · next hword =>
    exact (finds_declaredMember hd h.1.toStands (hword ▸ rfl)).bind fun m c₂ hm =>
      .pure ⟨hmember hm, h.2⟩
  · next hname =>
    exact (finds_publicMethod hd h.1.toStands fun word hkind => by simp [hname] at hkind).bind
      fun m c₂ hm => .pure ⟨hmember hm, h.2⟩
  · next word hconstructor hprivate hstatic hword =>
    refine (finds_publicMethod hd h.1.toStands fun word' hkind => ?_).bind
      fun m c₂ hm => .pure ⟨hmember hm, h.2⟩
    -- the keywords that begin a member were the cases before
    cases hword.symm.trans hkind
    cases word <;> first | rfl | contradiction
  · exact Finds.unexpected _ _ _

/-- A class definition is read from its keyword on. -/
theorem finds_classDef {isNameRequired : Bool} (hc : c.Stands all) :
    Finds (classDef deeper isNameRequired) c fun d c' =>
      c'.HasRead all c.here [.class d] ∧ (isNameRequired = true → d.name.isSome = true) := by
  refine Finds.expectKeyword fun hword => ?_
  refine (finds_definedName (hc.next hword rfl)).bind fun name c₁ hname => ?_
  -- what follows the superclass, with one or without, is enclosed by the class
  have hbody : ∀ (superclass : Option Expr) (c₂ : Cursor),
      c₂.HasRead all c.here (superclass.toList.map .expr) →
      Finds (do
        let _ ← expectMark .leftBrace
        let body ← classBody deeper
        newClass name superclass body.constructor body.members
          (c.nextToken.span.merge (← lastSpan))) c₂
        fun d c' => c'.HasRead all c.here [.class d] ∧
          (isNameRequired = true → d.name.isSome = true) := by
    intro superclass c₂ h
    refine Finds.expectMark fun hopen => ?_
    refine (finds_classBody hd (h.next hopen rfl)).bind fun body c₃ hbody => ?_
    refine .lastSpan (.newClass trivial fun site height c₄ hstays => ⟨?_, hname.2⟩)
    -- the children are the superclass and then those of the body
    refine .stays (Cursor.HasRead.enclosed ?_ hc.begins rfl hbody.2) hstays
    have hread := hbody.1
    unfold ClassBody.children at hread
    rw [← List.append_assoc] at hread
    exact hread
  -- and the superclass is a primary expression with what is behind it
  refine .ifKeyword (fun hextends => .next ?_) fun _ => hbody none _ hname.1
  have h₂ := hname.1.next hextends rfl
  refine (hd.primary _ h₂.toStands).bind fun e c₃ he => ?_
  refine Ends.bind (.map ?_) hbody
  exact finds_postfixTail hd (h₂.append he)

/-! ### Primary expressions -/

/-- The head of an accessor is read, with its target in parentheses if it has one. -/
theorem finds_accessorHead (hc : c.Stands all) (hplain : c.kind.isPlain = true) :
    Finds (accessorHead deeper) c fun a c' => c'.HasRead all c.here [.accessor a] := by
  -- Without a target the accessor is the word alone.
  have hsingle : ∀ a : Accessor, a.children = [] → a.span = c.nextToken.span →
      c.behind.HasRead all c.here [.accessor a] := fun a hchildren hspan =>
    hc.single rfl hchildren hspan trivial hplain
  refine .next ?_
  split
  · exact .pure (hsingle _ rfl rfl)
  · refine .ifSkipMark (fun hopen => ?_) fun _ => .pure (hsingle _ rfl rfl)
    have h₁ := (hc.next rfl hplain).next hopen rfl
    refine (hd.assignment _ h₁.toStands).bind fun target c₂ htarget => ?_
    refine Finds.expectMark fun hclose => .pure ?_
    exact ((h₁.append htarget).next hclose rfl).enclosed hc.begins
      (by rw [htarget.toStands.last_behind]; rfl) trivial

/-- The member behind an accessor extends it to one node. -/
theorem finds_accessorMember? {a : Accessor} (h : c.HasRead all lo [.accessor a]) :
    Finds (accessorMember? deeper a) c fun e c' => c'.HasRead all lo [accessorNode a e] := by
  refine .peek ?_
  -- A name behind a dot, a key in brackets, or nothing.
  split
  · next hdot =>
    have h₁ := h.toStands.next hdot rfl
    refine .next (Finds.expectPropertyName fun hword => .map (finds_newExpr fun _ _ => ?_))
    have h₂ := h₁.next rfl (TokenKind.isPlain_of_isWord hword)
    exact h.extended h₂ rfl (by rw [h₁.toStands.last_behind]; rfl) ⟨trivial, nofun⟩
  · next hopen =>
    have h₁ := h.toStands.next hopen rfl
    refine .next ((hd.assignment _ h₁.toStands).bind fun key c₂ hkey => ?_)
    refine Finds.expectMark fun hclose => .map (finds_newExpr fun _ _ => ?_)
    have h₂ := (h₁.append hkey).next hclose rfl
    exact h.extended h₂ rfl (by rw [hkey.toStands.last_behind]; rfl) ⟨trivial, nofun⟩
  · exact .pure h

/-- An accessor with its member is read from its word on. -/
theorem finds_slot (hc : c.Stands all) (hplain : c.kind.isPlain = true) :
    Finds (slot deeper) c fun e c' => c'.HasRead all c.here [.expr e] := by
  refine (finds_accessorHead hd hc hplain).bind fun a c₁ h => ?_
  refine (finds_accessorMember? hd h).bind fun e c₂ h => ?_
  cases e with
  | some e => exact .pure h
  | none => exact .peek (.peekSpan (.fail trivial))

omit hd in
/-- A property name is read, and adds no node. -/
theorem finds_propertyName {ks : List SyntaxNode} (h : c.HasRead all lo ks) :
    Finds propertyName c fun _ c' => c'.HasRead all lo ks := by
  refine .peek ?_
  split
  · next hstring => exact .next (.pure (h.next hstring rfl))
  · next hnumber => exact .next (.pure (h.next hnumber rfl))
  · exact Finds.expectPropertyName fun hword =>
      .pure (h.next rfl (TokenKind.isPlain_of_isWord hword))

/-- The values of an object literal are read in order between its braces. -/
theorem finds_objectLiteral (hc : c.Stands all) :
    Finds (objectLiteral deeper) c fun e c' => c'.HasRead all c.here [.expr e] := by
  refine Finds.expectMark fun hopen => ?_
  refine Ends.bind (Ends.repeatSame
    (fun (ps : List Property) c' => c'.HasRead all c.here (ps.map (.expr ·.value)))
    (fun ps c₁ h => ?_) trivial
    (hc.next hopen rfl)) fun ps c₁ h => ?_
  · refine .ifMark (fun _ => .pure h) fun _ => (finds_propertyName h).bind fun name c₂ h₂ => ?_
    refine Finds.expectMark fun hcolon => ?_
    have h₃ := h₂.next hcolon rfl
    refine (hd.assignment _ h₃.toStands).bind fun e c₄ he => ?_
    -- The value read now stands last, behind those of the rounds before.
    have h₄ : c₄.HasRead all c.here ((ps ++ [Property.mk name e]).map (.expr ·.value)) := by
      rw [List.map_append]
      exact h₃.append he
    exact .ifSkipMark (fun hcomma => .pure (h₄.next hcomma rfl)) fun _ => .pure h₄
  · refine Finds.expectMark fun hclose => finds_newExpr fun _ _ => ?_
    exact (h.next hclose rfl).enclosed hc.begins (by rw [h.toStands.last_behind]; rfl)
      ⟨trivial, nofun⟩

/-- Members extend the callee of `new`, which stays the leftmost child. -/
theorem finds_newCalleeTail {e : Expr} (h : c.HasRead all lo [.expr e]) :
    Finds (newCalleeTail deeper e) c fun e c' => c'.HasRead all lo [.expr e] := by
  refine Ends.repeatSame (fun e c' => c'.HasRead all lo [.expr e]) (fun e c₁ h => .peek ?_)
    trivial h
  -- A name behind a dot, a key in brackets, or nothing.
  split
  · next hdot =>
    have h₁ := h.toStands.next hdot rfl
    refine .next (Finds.expectPropertyName fun hword => ?_)
    refine Ends.bind (finds_newExpr fun _ _ => ?_) fun _ _ h => .pure h
    have h₂ := h₁.next rfl (TokenKind.isPlain_of_isWord hword)
    exact h.extended h₂ rfl (by rw [h₁.toStands.last_behind]; rfl) ⟨trivial, nofun⟩
  · next hopen =>
    have h₁ := h.toStands.next hopen rfl
    refine .next ((hd.assignment _ h₁.toStands).bind fun key c₂ hkey => ?_)
    refine Finds.expectMark fun hclose => ?_
    refine Ends.bind (finds_newExpr fun _ _ => ?_) fun _ _ h => .pure h
    have h₂ := (h₁.append hkey).next hclose rfl
    exact h.extended h₂ rfl (by rw [hkey.toStands.last_behind]; rfl) ⟨trivial, nofun⟩
  · exact .pure h

/-- A construction is read from `new` to the last token of its arguments. -/
theorem finds_construction (hc : c.Stands all) (hplain : c.kind.isPlain = true) :
    Finds (construction deeper) c fun e c' => c'.HasRead all c.here [.expr e] := by
  have h₁ := hc.next rfl hplain
  refine .next ((hd.primary _ h₁.toStands).bind fun e c₂ he => ?_)
  refine (finds_newCalleeTail hd (h₁.append he)).bind fun callee c₃ hcallee => ?_
  -- With arguments or without, the node encloses what has been read since `new`.
  have hnew : ∀ (args : List Expr) (c₄ : Cursor),
      c₄.HasRead all c.here (.expr callee :: args.map .expr) →
      Finds (do newExpr (.new callee args) (c.nextToken.span.merge (← lastSpan))) c₄
        fun e c' => c'.HasRead all c.here [.expr e] := fun args c₄ h =>
    .lastSpan (finds_newExpr fun _ _ => h.enclosed hc.begins rfl ⟨trivial, nofun⟩)
  refine .ifMark (fun _ => ?_) fun _ => hnew [] _ hcallee
  exact (finds_args hd hcallee.toStands).bind fun args c₄ hargs =>
    hnew args _ (hcallee.append hargs)

/-- A use of `super` is read from its word on. -/
theorem finds_superForm (hc : c.Stands all) (hplain : c.kind.isPlain = true) :
    Finds (superForm deeper) c fun form c' =>
      c'.HasRead all c.here form.children ∧ form.IsRegular := by
  have h₁ := hc.next rfl hplain
  refine .next (.ifMark (fun _ => ?_) fun _ => .ifSkipMark (fun hdot => ?_) fun _ => ?_)
  · exact (finds_args hd h₁.toStands).bind fun args c₂ hargs =>
      .pure ⟨h₁.append hargs, trivial, nofun⟩
  · refine Finds.expectPropertyName fun hword => .pure ⟨?_, trivial, nofun⟩
    exact (h₁.next hdot rfl).next rfl (TokenKind.isPlain_of_isWord hword)
  · exact Finds.unexpected _ _ _

/-- A primary expression is read where it stands. -/
theorem finds_primary (hc : c.Stands all) :
    Finds (primary deeper) c fun e c' => c'.HasRead all c.here [.expr e] := by
  -- a node encloses all that was read since its first token
  have hnew : ∀ {form : ExprForm} {c₁ : Cursor}, c₁.HasRead all c.here form.children →
      form.IsRegular → Finds (do newExpr form (c.nextToken.span.merge (← lastSpan))) c₁
        fun e c' => c'.HasRead all c.here [.expr e] := fun h hregular =>
    .lastSpan (finds_newExpr fun _ _ => h.enclosed hc.begins rfl hregular)
  -- a literal is that one token
  have hliteral : ∀ {form : ExprForm} {kind : TokenKind}, c.kind = kind → kind.isPlain = true →
      form.children = [] → form.IsRegular → Finds (do
        let _ ← next
        newExpr form (c.nextToken.span.merge (← lastSpan))) c
        fun e c' => c'.HasRead all c.here [.expr e] := fun hkind hplain hchildren hregular =>
    .next (hnew (hchildren ▸ hc.next hkind hplain) hregular)
  refine .peekSpan (.peek ?_)
  split
  · next h => exact hliteral h rfl rfl ⟨trivial, nofun⟩
  · next h => exact hliteral h rfl rfl ⟨trivial, nofun⟩
  · next h => exact hliteral h rfl rfl ⟨trivial, nofun⟩
  · next h => exact hliteral h rfl rfl ⟨trivial, nofun⟩
  · next h => exact hliteral h rfl rfl ⟨trivial, nofun⟩
  · next h => exact hliteral h rfl rfl ⟨trivial, nofun⟩
  · next h => exact hliteral h rfl rfl ⟨trivial, nofun⟩
  · next h => exact hliteral h rfl rfl ⟨trivial, nofun⟩
  · -- after the literals, the forms with parts of their own
    refine (finds_functionDef hd hc).bind fun f c₁ h => ?_
    exact hnew h.1 ⟨trivial, fun _ heq => by cases heq; exact h.2.2⟩
  · exact (finds_classDef hd hc).bind fun d c₁ h => hnew h.1 ⟨trivial, nofun⟩
  · next h => exact finds_construction hd hc (h ▸ rfl)
  · next h => exact finds_slot hd hc (h ▸ rfl)
  · next h => exact finds_slot hd hc (h ▸ rfl)
  · next h => exact (finds_superForm hd hc (h ▸ rfl)).bind fun form c₁ h => hnew h.1 h.2
  · next hopen =>
    have h₁ := hc.next hopen rfl
    refine .next ((hd.assignment _ h₁.toStands).bind fun e c₂ he => ?_)
    exact Finds.expectMark fun hclose => .pure ((h₁.append he).next hclose rfl)
  · exact finds_objectLiteral hd hc
  · exact Finds.unexpected _ _ _

/-! ### Operators -/

/-- A primary expression with its postfixes is read where it stands. -/
theorem finds_postfixed (hc : c.Stands all) :
    Finds (postfixed deeper) c fun e c' => c'.HasRead all c.here [.expr e] :=
  (finds_primary hd hc).bind fun _ _ h => finds_postfixTail hd h

/-- A unary operator with its operand is read from the operator on. -/
theorem finds_unary (hc : c.Stands all) :
    Finds (unary deeper) c fun e c' => c'.HasRead all c.here [.expr e] := by
  refine .peek ?_
  split
  · exact finds_postfixed hd hc
  · next op hop =>
    have h₁ := hc.next rfl (isPlain_of_unaryOp? hop)
    refine .next ((hd.unary _ h₁.toStands).bind fun operand c₂ h => ?_)
    refine .unless (fun _ => trivial) fun hmember => finds_newExpr fun _ _ => ?_
    refine h₁.toPast.prefixed h hc.begins hc.last_behind rfl rfl ⟨?_, nofun⟩
    -- `delete` has been checked to stand before a member or an accessor.
    cases op with
    | delete => simpa [ExprForm.IsProper] using hmember
    | _ => trivial

omit hd in
/-- A left operand and a right one that follows it are joined to one expression. -/
theorem finds_join {connective : Connective} {left right : Expr}
    (hleft : c.HasRead all lo [.expr left]) (hright : c'.HasRead all c.here [.expr right]) :
    Finds (join connective left right) c' fun e c' => c'.HasRead all lo [.expr e] := by
  unfold join
  cases connective with
  | binary op => exact finds_newExpr fun _ _ => hleft.joined hright rfl rfl ⟨trivial, nofun⟩
  | logical op => exact finds_newExpr fun _ _ => hleft.joined hright rfl rfl ⟨trivial, nofun⟩

/-- What follows a connective has been read behind it, or takes in the left operand. -/
def RightSide.HasRead (all : List Token) (lo here : Nat) : RightSide → Cursor → Prop
  | .operand e, c => c.HasRead all here [.expr e]
  | .whole e, c => c.HasRead all lo [.expr e]

/-- The right side of an operator is read behind the left operand. -/
theorem finds_rightSide {connective : Connective} {left : Expr}
    (h : c.HasRead all lo [.expr left]) :
    Finds (rightSide deeper connective left) c (RightSide.HasRead all lo c.here) := by
  -- an ordinary operand, unless an accessor follows `in`
  have hunary : Finds (do return .operand (← unary deeper)) c
      (RightSide.HasRead all lo c.here) :=
    (finds_unary hd h.toStands).bind fun _ _ h => .pure h
  unfold rightSide
  split
  · -- looking ahead moves nothing, and tells that a keyword follows
    refine Ends.bind (m := fun isThere c' => c' = c ∧ (isThere = true → c.kind.isPlain = true))
      (.peek ?_) ?_
    · split
      · next hword => exact .pure ⟨rfl, fun _ => hword ▸ rfl⟩
      · next hword => exact .pure ⟨rfl, fun _ => hword ▸ rfl⟩
      · exact .pure ⟨rfl, nofun⟩
    · rintro isThere _ ⟨rfl, hplain⟩
      split
      · next hthere =>
        refine (finds_accessorHead hd h.toStands (hplain hthere)).bind fun a c₁ ha => ?_
        refine (finds_accessorMember? hd ha).bind fun e c₂ he => ?_
        -- with a member the accessor makes a slot, and without one the whole is a test for a slot
        cases e with
        | some e => exact (finds_postfixTail hd he).bind fun _ _ h => .pure h
        | none =>
          refine Ends.bind (finds_newExpr fun _ _ => ?_) fun _ _ h => .pure h
          exact h.joined he rfl rfl ⟨trivial, nofun⟩
      · exact hunary
  · exact hunary

/-- A chain of operators extends the left operand, which stays the leftmost child. -/
theorem finds_binaryTail (tiers least : Nat) {left : Expr} (h : c.HasRead all lo [.expr left]) :
    Finds (binaryTail deeper tiers least left) c fun e c' => c'.HasRead all lo [.expr e] := by
  -- the right operand is read with one tier less
  induction tiers generalizing least left c lo with
  | zero => exact .pure h
  | succ tiers ih =>
    refine Ends.repeatSame (fun e c' => c'.HasRead all lo [.expr e])
      (fun left c₁ h => .peek ?_) trivial h
    split
    · exact .pure h
    · next connective tier hconnective =>
      split
      · exact .pure h
      · have h₁ := h.next rfl (isPlain_of_connective? hconnective)
        refine .next ((finds_rightSide hd h₁).bind fun side c₂ hside => ?_)
        cases side with
        | whole e => exact .pure hside
        | operand right =>
          refine (ih (tier + 1) hside).bind fun right c₃ hright => ?_
          exact (finds_join h₁ hright).bind fun _ _ h => .pure h

/-- A chain of binary operators is read where it stands. -/
theorem finds_binary (hc : c.Stands all) :
    Finds (binary deeper) c fun e c' => c'.HasRead all c.here [.expr e] :=
  (finds_unary hd hc).bind fun _ _ h => finds_binaryTail hd _ _ h

/-- An assignment is read from its target on. -/
theorem finds_assignment (hc : c.Stands all) :
    Finds (assignment deeper) c fun e c' => c'.HasRead all c.here [.expr e] := by
  refine (finds_binary hd hc).bind fun target c₁ htarget => ?_
  refine .ifMark (fun hassign => .next ?_) fun _ => .pure htarget
  refine .unless (fun _ => trivial) fun hassignable => ?_
  have h₁ := htarget.next hassign rfl
  refine (hd.assignment _ h₁.toStands).bind fun value c₂ hvalue => finds_newExpr fun _ _ => ?_
  exact h₁.joined hvalue rfl rfl ⟨by simpa [ExprForm.IsProper] using hassignable, nofun⟩

/-! ### Statements -/

/-- The form of a statement has been read, and no `else` that an `if` in it could take follows. -/
structure FormRead (all : List Token) (lo : Nat) (form : StmtForm) (c : Cursor) : Prop where
  hasRead : c.HasRead all lo form.children
  regular : form.IsRegular
  closed : form.endsOpen = true → c.kind ≠ .keyword .kwElse

omit hd in
/-- Going on behind the end of a statement. -/
theorem finds_endStatement (form : StmtForm)
    (h : c.HasRead all lo form.children)
    (hregular : form.IsRegular) (hclosed : form.endsOpen = false) :
    Finds (do
      endStatement
      return form) c (FormRead all lo) := by
  have hread : ∀ {c' : Cursor}, c'.HasRead all lo form.children → FormRead all lo form c' :=
    fun h => ⟨h, hregular, fun hopen => by rw [hclosed] at hopen; cases hopen⟩
  exact Finds.endStatement (fun hsemicolon => .pure (hread (h.next hsemicolon rfl)))
    (.pure (hread h))

/-- A declaration is read from its keyword on, and a constant has an initializer. -/
theorem finds_declaration {isMutable : Bool} (hc : c.Stands all) (hplain : c.kind.isPlain = true) :
    Finds (declaration deeper isMutable) c (FormRead all c.here) := by
  refine .next (Finds.expectIdentifier fun name hname => ?_)
  have h₂ := (hc.next rfl hplain).next hname rfl
  refine .ifSkipMark (fun hassign => ?_) fun _ => ?_
  · have h₃ := h₂.next hassign rfl
    refine Ends.bind (m := fun initializer c' =>
      initializer.isSome = true ∧ c'.HasRead all c.here (initializer.toList.map .expr))
      (.map ?_) fun initializer c₄ h => ?_
    · exact (hd.assignment _ h₃.toStands).imp fun e c₄ he => ⟨rfl, h₃.append he⟩
    · exact finds_endStatement _ h.2 (.inr h.1) rfl
  · -- Without an initializer only `let` is allowed.
    split
    · next hmutable => exact finds_endStatement (.declare _ _ none) h₂ (.inl hmutable) rfl
    · exact trivial

/-- A condition is read with its parentheses. -/
theorem finds_condition (hc : c.Stands all) :
    Finds (condition deeper) c fun e c' => c'.HasRead all c.here [.expr e] := by
  refine Finds.expectMark fun hopen => ?_
  have h₁ := hc.next hopen rfl
  refine (hd.assignment _ h₁.toStands).bind fun e c₂ he => ?_
  exact Finds.expectMark fun hclose => .pure ((h₁.append he).next hclose rfl)

/-- A conditional is read from `if` on; the branch before an `else` does not end open. -/
theorem finds_conditional (hc : c.Stands all) (hplain : c.kind.isPlain = true) :
    Finds (conditional deeper) c (FormRead all c.here) := by
  have h₁ := hc.next rfl hplain
  refine .next ((finds_condition hd h₁.toStands).bind fun test c₂ htest => ?_)
  have h₂ := h₁.append htest
  refine (finds_statement hd h₂.toStands).bind fun yes c₃ hyes => ?_
  have h₃ := h₂.append hyes.1
  refine .ifKeyword (fun helse => .next ?_) fun hnot => .pure ⟨h₃, nofun, fun _ => hnot⟩
  have h₄ := h₃.next helse rfl
  refine Ends.bind (m := fun no c' => ∃ s, no = some s ∧
    c'.HasRead all c.here [.expr test, .stmt yes, .stmt s] ∧
    (s.endsOpen = true → c'.kind ≠ .keyword .kwElse)) (.map ?_) ?_
  · exact (finds_statement hd h₄.toStands).imp fun s c₅ hs => ⟨s, rfl, h₄.append hs.1, hs.2⟩
  · rintro _ c₅ ⟨s, rfl, h₅, hclosed⟩
    -- were the first branch open, it would have taken the `else`
    refine .pure ⟨h₅, fun _ => ?_, fun hopen => hclosed (by rwa [StmtForm.endsOpen] at hopen)⟩
    exact Bool.eq_false_iff.mpr fun hopen => hyes.2 hopen helse

/-- A loop is read from `while` on. -/
theorem finds_whileLoop (hc : c.Stands all) (hplain : c.kind.isPlain = true) :
    Finds (whileLoop deeper) c (FormRead all c.here) := by
  have h₁ := hc.next rfl hplain
  refine .next ((finds_condition hd h₁.toStands).bind fun test c₂ htest => ?_)
  have h₂ := h₁.append htest
  refine (finds_statement hd h₂.toStands).bind fun body c₃ hbody => .pure ⟨?_, trivial, ?_⟩
  · exact h₂.append hbody.1
  · exact fun hopen => hbody.2 (by rwa [StmtForm.endsOpen] at hopen)

/-- A `return` is read from its keyword on. -/
theorem finds_returnStatement (hc : c.Stands all) (hplain : c.kind.isPlain = true) :
    Finds (returnStatement deeper) c (FormRead all c.here) := by
  have h₁ := hc.next rfl hplain
  have hnone : Finds (do
      endStatement
      return .ret none) c.behind (FormRead all c.here) :=
    finds_endStatement (.ret none) h₁ trivial rfl
  refine .next (.peek ?_)
  -- A semicolon, a closing brace or the end of input follows, or else a value.
  split
  · exact hnone
  · exact hnone
  · exact hnone
  · refine Ends.bind (m := fun value c' => c'.HasRead all c.here (value.toList.map .expr))
      (.map ?_) fun value c₂ h => finds_endStatement (.ret value) h trivial rfl
    exact (hd.assignment _ h₁.toStands).imp fun e c₂ he => h₁.append he

/-- A `throw` is read from its keyword on. -/
theorem finds_throwStatement (hc : c.Stands all) (hplain : c.kind.isPlain = true) :
    Finds (throwStatement deeper) c (FormRead all c.here) := by
  have h₁ := hc.next rfl hplain
  refine .next ((hd.assignment _ h₁.toStands).bind fun value c₂ hvalue => ?_)
  exact finds_endStatement (.raise value) (h₁.append hvalue) trivial rfl

/-- A `try` is read from its keyword on. -/
theorem finds_tryStatement (hc : c.Stands all) (hplain : c.kind.isPlain = true) :
    Finds (tryStatement deeper) c (FormRead all c.here) := by
  have h₁ := hc.next rfl hplain
  refine .next ((finds_block hd h₁.toStands).bind fun body c₂ hbody => ?_)
  have h₂ := h₁.append hbody
  refine Finds.expectKeyword fun hcatch => Finds.expectMark fun hopen => ?_
  refine Finds.expectIdentifier fun param hparam => Finds.expectMark fun hclose => ?_
  have h₃ := (((h₂.next hcatch rfl).next hopen rfl).next hparam rfl).next hclose rfl
  exact (finds_block hd h₃.toStands).bind fun handler c₄ hhandler =>
    .pure ⟨h₃.append hhandler, trivial, nofun⟩

/-- An expression statement is read from its expression on. -/
theorem finds_expressionStatement (hc : c.Stands all) :
    Finds (expressionStatement deeper) c (FormRead all c.here) :=
  (hd.assignment c hc).bind fun e _ he => finds_endStatement (.expr e) he trivial rfl

/-- Every form of statement is read where it stands. -/
theorem finds_statementForm (hc : c.Stands all) :
    Finds (statementForm deeper) c (FormRead all c.here) := by
  refine .peek ?_
  -- One case for each word a statement may start with.
  split
  · next h => exact finds_declaration hd hc (h ▸ rfl)
  · next h => exact finds_declaration hd hc (h ▸ rfl)
  · exact (finds_functionDef hd hc).bind fun f c₁ hf =>
      .pure ⟨hf.1, ⟨hf.2.1 rfl, hf.2.2⟩, nofun⟩
  · exact (finds_classDef hd hc).bind fun d c₁ hd => .pure ⟨hd.1, hd.2 rfl, nofun⟩
  · next h => exact finds_conditional hd hc (h ▸ rfl)
  · next h => exact finds_whileLoop hd hc (h ▸ rfl)
  · next h => exact finds_returnStatement hd hc (h ▸ rfl)
  · next h => exact finds_throwStatement hd hc (h ▸ rfl)
  · next h => exact finds_tryStatement hd hc (h ▸ rfl)
  · exact (finds_block hd hc).bind fun body c₁ hbody => .pure ⟨hbody, trivial, nofun⟩
  · next h => exact .next (.pure ⟨hc.next h rfl, trivial, nofun⟩)
  · exact finds_expressionStatement hd hc

/-- A statement from its first token to the last token read. -/
theorem finds_statementBody (hc : c.Stands all) :
    Finds (statementBody deeper) c fun s c' => c'.HasRead all c.here [.stmt s] ∧
      (s.endsOpen = true → c'.kind ≠ .keyword .kwElse) ∧
      s.span = c.nextToken.span.merge c'.last := by
  refine .peekSpan ((finds_statementForm hd hc).bind fun form c₁ h => .lastSpan (.pure ?_))
  refine ⟨h.hasRead.enclosed hc.begins rfl h.regular, fun hopen => h.closed ?_, rfl⟩
  rwa [Stmt.endsOpen] at hopen

/-! ### Levels -/

omit hd in
/-- Nesting too deep finds nothing. -/
theorem finds_tooDeep {α : Type} (post : α → Cursor → Prop) :
    Finds (do fail .nestedTooDeeply (← peekSpan)) c post :=
  .peekSpan trivial

end Parser

/-- At every level all nodes stand where they should, by induction on the room left. -/
theorem Level.reads_ofRoom (all : List Token) (room : Nat) : (Level.ofRoom room).Reads all := by
  induction room with
  | zero =>
    exact ⟨fun _ _ => Parser.finds_tooDeep _, fun _ _ => Parser.finds_tooDeep _,
      fun _ _ => Parser.finds_tooDeep _, fun _ _ => Parser.finds_tooDeep _⟩
  | succ room ih =>
    exact ⟨fun _ hc => Parser.finds_assignment ih hc, fun _ hc => Parser.finds_unary ih hc,
      fun _ hc => Parser.finds_primary ih hc,
      fun _ hc => (Parser.finds_statementBody ih hc).imp fun _ _ h => ⟨h.1, h.2.1⟩⟩

/-- A statement outside all others stands from its first token to the last token read. -/
theorem Parser.finds_topStatement (hc : c.Stands all) :
    Finds topStatement c fun s c' =>
      c'.HasRead all c.here [.stmt s] ∧ s.span = c.nextToken.span.merge c'.last :=
  (finds_statementBody (Level.reads_ofRoom all _) hc).bind fun _ _ h =>
    .unless (fun _ => trivial) fun _ => .pure ⟨h.1, h.2.2⟩

end Enclave
