import Enclave.Proofs.Syntax.Coverage
import Enclave.Proofs.Syntax.Rendering
import Enclave.Proofs.Syntax.Reprinting

/-!
# Printing and reading again

Statements are read from their printed tokens like all other nodes (`Parser.rereads_stmt`), so all
regular trees are (`SyntaxNode.rereads_of_regular`). The trees of a program that was read are
regular, so printing it and reading the tokens again gives the program, or the second reading finds
that it is nested too deeply: a pair of parentheses takes a level of its own.
-/

namespace Enclave

namespace Parser

variable {c c' : Cursor} {ks ts : List TokenKind} {room : Nat} {id : ExprId} {span : Span}
  {height : Nat}

/-! ### Statements -/

-- What a form of a statement is printed as, and what a copy of it is, is rewritten throughout.
attribute [local simp] StmtForm.printed StmtForm.erased

/-- A copy of the form has been read. -/
def CopyForm (form : StmtForm) (ks : List TokenKind) (form' : StmtForm) (c' : Cursor) : Prop :=
  form'.erased = form.erased ∧ c'.Ahead ks

/-- A printed declaration is read again. -/
theorem arrives_declaration {name : String} {isMutable : Bool} {initializer : Option Expr}
    (h : ∀ e ∈ initializer, e.Rereads)
    (hregular : (StmtForm.declare name isMutable initializer).IsRegular)
    (hc : c.Ahead ((StmtForm.declare name isMutable initializer).printed ++ ks)) :
    Arrives (declaration (.ofRoom room) isMutable) c
      (CopyForm (.declare name isMutable initializer) ks) := by
  rw [StmtForm.printed, List.cons_append, List.cons_append, List.append_assoc] at hc
  refine Arrives.next hc TokenKind.noConfusion fun t c₁ _ hc₁ =>
    Arrives.expectIdentifier hc₁ fun nameSpan c₂ hc₂ => ?_
  -- the declaration ends with its statement, whatever it was initialized with
  have hrest : ∀ (initializer' : Option Expr) (c₃ : Cursor),
      optionalErased initializer' = optionalErased initializer → c₃.Ahead (.mark .semicolon :: ks) →
      Arrives (do
        endStatement
        return .declare name isMutable initializer') c₃
        (CopyForm (.declare name isMutable initializer) ks) := fun initializer' c₃ hinit hc₃ =>
    Arrives.endStatement hc₃ fun c₄ hc₄ =>
      .pure ⟨by rw [StmtForm.erased, StmtForm.erased, hinit], hc₄⟩
  rcases arrives_initializer room h hc₂ with ⟨e, rfl, hkind, he⟩ | ⟨rfl, hc₂⟩
  · refine .ifSkipMark (fun _ => ?_) fun hnot => absurd hkind hnot
    refine Ends.bind (m := fun initializer' c' => optionalErased initializer' =
      optionalErased (some e) ∧ c'.Ahead (.mark .semicolon :: ks)) (.map ?_)
      fun initializer' c₃ h₃ => hrest initializer' c₃ h₃.1 h₃.2
    exact Ends.imp he fun e' c' he' => ⟨congrArg some he'.1, he'.2⟩
  · refine .ifSkipMark (fun hassign => ?_) fun _ => ?_
    · rw [hc₂.kind] at hassign
      cases hassign
    · -- without an initializer it is no constant
      have hmutable : isMutable = true := hregular.resolve_right (by decide)
      rw [if_pos hmutable]
      exact .pure_bind (hrest none c₂ rfl hc₂)

/-- An expression in the place of a statement can be read there. -/
theorem readsAssignment_asStatement {e : Expr} (h : e.Rereads) :
    ReadsAssignment (asStatement e.printed) e := by
  unfold asStatement
  split
  · exact ((readsPrimary_inParens h.reads.assignment).readsAt (begins_inParens 9 _)).assignment
  · exact h.reads.assignment

/-- What stands as a statement begins like an expression and like nothing else. -/
theorem begins_asStatement {e : Expr} (h : e.Rereads) :
    ∃ k ts, asStatement e.printed = k :: ts ∧ k.beginsExpression = true ∧
      k.beginsOther = false := by
  obtain ⟨k, ts, hts, hk, -⟩ := h.reads.begins
  unfold asStatement
  rw [hts]
  split
  · exact ⟨_, _, rfl, rfl, rfl⟩
  · next hnot => exact ⟨k, ts, rfl, hk, by simpa using hnot⟩

/-- A printed expression statement is read again as one. -/
theorem arrives_expressionStatement {e : Expr} (h : e.Rereads)
    (hc : c.Ahead ((StmtForm.expr e).printed ++ ks)) :
    Arrives (statementForm (.ofRoom room)) c (CopyForm (.expr e) ks) := by
  rw [StmtForm.printed, List.append_assoc] at hc
  have hform : Arrives (expressionStatement (.ofRoom room)) c (CopyForm (.expr e) ks) := by
    refine Ends.bind (arrives_expression (readsAssignment_asStatement h) room hc
      (TokenKind.endsTier_of_closes rfl 0)) fun e' c₁ he => ?_
    exact Arrives.endStatement he.2 fun c₂ hc₂ =>
      .pure ⟨by rw [StmtForm.erased, StmtForm.erased, he.1], hc₂⟩
  obtain ⟨k, ts, hts, hk, hother⟩ := begins_asStatement h
  have hkind : c.kind = k := by
    rw [hts] at hc
    exact hc.kind
  refine .peek ?_
  rw [hkind]
  -- the token begins an expression, and neither a block nor a function nor a class
  split <;> first
    | exact hform
    | exact absurd hk (by decide)
    | exact absurd hother (by decide)

/-- A printed condition is read again. -/
theorem arrives_condition {e : Expr} (h : e.Rereads) (hc : c.Ahead (inParens e.printed ++ ks)) :
    Arrives (condition (.ofRoom room)) c (Copy e ks) := by
  rw [inParens, List.cons_append, List.append_assoc] at hc
  refine Arrives.expectMark hc fun t c₁ hc₁ => ?_
  refine (arrives_expression h.reads.assignment room hc₁
    (TokenKind.endsTier_of_closes rfl 0)).bind fun e' c₂ he => ?_
  exact Arrives.expectMark he.2 fun t c₃ hc₃ => .pure ⟨he.1, hc₃⟩

/-- A printed conditional is read again, its branches in their places. -/
theorem arrives_conditional {test : Expr} {yes : Stmt} {no : Option Stmt} (htest : test.Rereads)
    (hyes : yes.Rereads) (hno : ∀ s ∈ no, s.Rereads)
    (hregular : (StmtForm.cond test yes no).IsRegular)
    (hc : c.Ahead ((StmtForm.cond test yes no).printed ++ ks))
    (hks : (StmtForm.cond test yes no).endsOpen = true → headKind ks ≠ .keyword .kwElse) :
    Arrives (statementForm (.ofRoom room)) c (CopyForm (.cond test yes no) ks) := by
  cases no with
  | none =>
    rw [StmtForm.printed, List.cons_append, List.append_assoc] at hc
    -- no `else` follows, since it would have been read as one of this statement
    have helse := hks rfl
    refine .peek ?_
    rw [hc.kind]
    refine Arrives.next hc TokenKind.noConfusion fun t c₁ _ hc₁ => ?_
    refine Ends.bind (arrives_condition htest hc₁) fun test' c₂ htest' => ?_
    refine (arrives_statement hyes htest'.2 fun _ => helse).bind fun yes' c₃ hyes' => ?_
    refine .ifKeyword (fun hword => absurd (hyes'.2.head.symm.trans hword) helse) fun _ => ?_
    exact .pure ⟨by simp only [StmtForm.erased, htest'.1, hyes'.1], hyes'.2⟩
  | some no =>
    rw [StmtForm.printed, List.cons_append, List.append_assoc, List.append_assoc,
      List.cons_append] at hc
    -- a branch that could take the `else` itself is not printed in front of it
    have hclosed : yes.endsOpen = false := hregular rfl
    refine .peek ?_
    rw [hc.kind]
    refine Arrives.next hc TokenKind.noConfusion fun t c₁ _ hc₁ => ?_
    refine Ends.bind (arrives_condition htest hc₁) fun test' c₂ htest' => ?_
    refine (arrives_statement hyes htest'.2 fun hopen => by rw [hclosed] at hopen; cases hopen).bind
      fun yes' c₃ hyes' => ?_
    refine .ifKeyword (fun _ => Arrives.next hyes'.2 TokenKind.noConfusion fun t c₄ _ hc₄ => ?_)
      fun hnot => absurd hyes'.2.kind hnot
    refine Ends.bind (m := fun no' c' => ∃ s, no' = some s ∧ s.erased = no.erased ∧ c'.Ahead ks)
      (.map ?_) ?_
    · refine (arrives_statement (hno no rfl) hc₄ fun hopen => hks ?_).imp fun s c' hs =>
        ⟨s, rfl, hs⟩
      rwa [StmtForm.endsOpen]
    · rintro _ c₅ ⟨s, rfl, hs, hc₅⟩
      exact .pure ⟨by simp only [StmtForm.erased, htest'.1, hyes'.1, hs], hc₅⟩

/-- A printed `try` is read again, both blocks. -/
theorem arrives_tryStatement {body handler : List Stmt} {param : String}
    (hbody : ∀ s ∈ body, s.Rereads) (hhandler : ∀ s ∈ handler, s.Rereads)
    (hc : c.Ahead ((StmtForm.attempt body param handler).printed ++ ks)) :
    Arrives (statementForm (.ofRoom room)) c (CopyForm (.attempt body param handler) ks) := by
  rw [StmtForm.printed] at hc
  -- Word by word, in the order in which they are printed.
  simp only [inParens, List.cons_append, List.append_assoc, List.nil_append] at hc
  refine .peek ?_
  rw [hc.kind]
  refine Arrives.next hc TokenKind.noConfusion fun t c₁ _ hc₁ => ?_
  refine (arrives_block hbody hc₁).bind fun body' c₂ hbody' => ?_
  refine Arrives.expectKeyword hbody'.2 fun t c₃ hc₃ => Arrives.expectMark hc₃ fun t c₄ hc₄ => ?_
  refine Arrives.expectIdentifier hc₄ fun _ c₅ hc₅ => Arrives.expectMark hc₅ fun t c₆ hc₆ => ?_
  refine (arrives_block hhandler hc₆).bind fun handler' c₇ hhandler' => .pure ⟨?_, hhandler'.2⟩
  rw [StmtForm.erased, StmtForm.erased]
  simp only [stmtsErased_eq, hbody'.1, hhandler'.1]

/-- A printed `return` is read again, with its value or without. -/
theorem arrives_returnStatement {value : Option Expr} (h : ∀ e ∈ value, e.Rereads)
    (hc : c.Ahead ((StmtForm.ret value).printed ++ ks)) :
    Arrives (statementForm (.ofRoom room)) c (CopyForm (.ret value) ks) := by
  cases value with
  -- a bare `return` is followed by the semicolon at once
  | none =>
    have hc : c.Ahead (.keyword .kwReturn :: .mark .semicolon :: ks) := hc
    refine .peek ?_
    rw [hc.kind]
    refine Arrives.next hc nofun fun t c₁ _ hc₁ => .peek ?_
    rw [hc₁.kind]
    exact .pure_bind (Arrives.endStatement hc₁ fun c₂ hc₂ => .pure ⟨rfl, hc₂⟩)
  | some e =>
    rw [StmtForm.printed, List.cons_append, List.append_assoc] at hc
    have he := (h e rfl).reads
    refine .peek ?_
    rw [hc.kind]
    refine Arrives.next hc nofun fun t c₁ _ hc₁ => .peek ?_
    have hvalue : Arrives (do
        let value ← some <$> expression (.ofRoom room)
        endStatement
        return .ret value) c₁ (CopyForm (.ret (some e)) ks) := by
      refine Ends.bind (m := fun value c' => optionalErased value = optionalErased (some e) ∧
        c'.Ahead (.mark .semicolon :: ks)) (.map ?_) fun value c₂ h₂ => ?_
      · exact (arrives_expression he.assignment room hc₁
          (TokenKind.endsTier_of_closes rfl 0)).imp fun e' c' he' => ⟨congrArg some he'.1, he'.2⟩
      · exact Arrives.endStatement h₂.2 fun c₃ hc₃ =>
          .pure ⟨by rw [StmtForm.erased, StmtForm.erased, h₂.1], hc₃⟩
    -- the value begins with none of the tokens that end a bare `return`
    have hbegins := he.begins.kind hc₁
    split
    · next hkind =>
      rw [hkind] at hbegins
      cases hbegins
    · next hkind =>
      rw [hkind] at hbegins
      cases hbegins
    · next hkind =>
      rw [hkind] at hbegins
      cases hbegins
    · exact hvalue

/-- A printed block is read again as a statement. -/
theorem arrives_blockStatement {body : List Stmt} (h : ∀ s ∈ body, s.Rereads)
    (hc : c.Ahead ((StmtForm.block body).printed ++ ks)) :
    Arrives (statementForm (.ofRoom room)) c (CopyForm (.block body) ks) := by
  rw [StmtForm.printed, List.cons_append, List.append_assoc] at hc
  refine .peek ?_
  rw [hc.kind]
  refine (arrives_block h hc).bind fun body' c₁ hbody' => .pure ⟨?_, hbody'.2⟩
  rw [StmtForm.erased, StmtForm.erased, stmtsErased_eq, stmtsErased_eq, hbody'.1]

/-- A printed loop is read again. -/
theorem arrives_whileLoop {test : Expr} {body : Stmt} (htest : test.Rereads) (hbody : body.Rereads)
    (hc : c.Ahead ((StmtForm.loop test body).printed ++ ks))
    (hks : body.endsOpen = true → headKind ks ≠ .keyword .kwElse) :
    Arrives (statementForm (.ofRoom room)) c (CopyForm (.loop test body) ks) := by
  rw [StmtForm.printed, List.cons_append, List.append_assoc] at hc
  refine .peek ?_
  rw [hc.kind]
  refine Arrives.next hc TokenKind.noConfusion fun t c₁ _ hc₁ => ?_
  refine Ends.bind (arrives_condition htest hc₁) fun test' c₂ htest' => ?_
  refine (arrives_statement hbody htest'.2 hks).bind fun body' c₃ hbody' => .pure ⟨?_, hbody'.2⟩
  rw [StmtForm.erased, StmtForm.erased, htest'.1, hbody'.1]

/-- A printed `throw` is read again. -/
theorem arrives_throwStatement {value : Expr} (h : value.Rereads)
    (hc : c.Ahead ((StmtForm.raise value).printed ++ ks)) :
    Arrives (statementForm (.ofRoom room)) c (CopyForm (.raise value) ks) := by
  rw [StmtForm.printed, List.cons_append, List.append_assoc] at hc
  refine .peek ?_
  rw [hc.kind]
  refine Arrives.next hc TokenKind.noConfusion fun t c₁ _ hc₁ => ?_
  refine (arrives_expression h.reads.assignment room hc₁
    (TokenKind.endsTier_of_closes rfl 0)).bind fun value' c₂ hvalue' => ?_
  exact Arrives.endStatement hvalue'.2 fun c₃ hc₃ =>
    .pure ⟨by rw [StmtForm.erased, StmtForm.erased, hvalue'.1], hc₃⟩

/-- A printed function declaration is read again. -/
theorem arrives_functionStatement {f : FunctionDef} (h : f.Rereads)
    (hregular : (StmtForm.functionDef f).IsRegular)
    (hc : c.Ahead ((StmtForm.functionDef f).printed ++ ks)) :
    Arrives (statementForm (.ofRoom room)) c (CopyForm (.functionDef f) ks) := by
  rw [StmtForm.printed, List.cons_append] at hc
  refine .peek ?_
  rw [hc.kind]
  refine (arrives_functionDef h hregular.2 (fun _ => hregular.1) hc).bind fun f' c₁ hf' =>
    .pure ⟨by rw [StmtForm.erased, StmtForm.erased, hf'.1], hf'.2⟩

/-- A printed class declaration is read again. -/
theorem arrives_classStatement {d : ClassDef} (h : d.Rereads)
    (hregular : (StmtForm.classDef d).IsRegular)
    (hc : c.Ahead ((StmtForm.classDef d).printed ++ ks)) :
    Arrives (statementForm (.ofRoom room)) c (CopyForm (.classDef d) ks) := by
  rw [StmtForm.printed, List.cons_append] at hc
  refine .peek ?_
  rw [hc.kind]
  exact Ends.bind (h room c ks true (fun _ => hregular) hc) fun d' c₁ hd' =>
    .pure ⟨by rw [StmtForm.erased, StmtForm.erased, hd'.1], hd'.2⟩

/-- The first token tells the forms of a statement apart, and each is read as its copy. -/
theorem arrives_statementForm {form : StmtForm} (h : ∀ k ∈ form.children, k.Rereads)
    (hregular : form.IsRegular) (hc : c.Ahead (form.printed ++ ks))
    (hks : form.endsOpen = true → headKind ks ≠ .keyword .kwElse) :
    Arrives (statementForm (.ofRoom room)) c (CopyForm form ks) := by
  -- one lemma for each form, given that its children reread
  cases form with
  | declare name isMutable initializer =>
    have hinit : ∀ e ∈ initializer, e.Rereads := fun e he =>
      h (.expr e) (by simp [StmtForm.children, Option.mem_def.mp he])
    have harrives : Arrives (declaration (.ofRoom room) isMutable) c
        (CopyForm (.declare name isMutable initializer) ks) :=
      arrives_declaration hinit hregular hc
    rw [StmtForm.printed, List.cons_append] at hc
    refine .peek ?_
    rw [hc.kind]
    -- the keyword tells a variable from a constant
    cases isMutable <;> exact harrives
  | expr e => exact arrives_expressionStatement (h (.expr e) List.mem_cons_self) hc
  | block body =>
    exact arrives_blockStatement (fun s hs => h (.stmt s) (by simp [StmtForm.children, hs])) hc
  | cond test yes no =>
    refine arrives_conditional (h (.expr test) (by simp [StmtForm.children]))
      (h (.stmt yes) (by simp [StmtForm.children])) (fun s hs => ?_) hregular hc hks
    exact h (.stmt s) (by simp [StmtForm.children, Option.mem_def.mp hs])
  -- an open `if` may end the body, and then no `else` may follow
  | loop test body =>
    refine arrives_whileLoop (h (.expr test) (by simp [StmtForm.children]))
      (h (.stmt body) (by simp [StmtForm.children])) hc fun hopen => hks ?_
    rwa [StmtForm.endsOpen]
  | ret value =>
    exact arrives_returnStatement (fun e he =>
      h (.expr e) (by simp [StmtForm.children, Option.mem_def.mp he])) hc
  | raise value => exact arrives_throwStatement (h (.expr value) List.mem_cons_self) hc
  | attempt body param handler =>
    refine arrives_tryStatement (fun s hs => ?_) (fun s hs => ?_) hc
    · exact h (.stmt s) (by simp [StmtForm.children, hs])
    · exact h (.stmt s) (by simp [StmtForm.children, hs])
  | functionDef f =>
    exact arrives_functionStatement (h (.function f) List.mem_cons_self) hregular hc
  | classDef d => exact arrives_classStatement (h (.class d) List.mem_cons_self) hregular hc

/-- A printed statement begins with a token that does not end a block. -/
theorem begins_stmt {form : StmtForm} (h : ∀ k ∈ form.children, k.Rereads) :
    ∃ k ts, form.printed = k :: ts ∧ k.continuesBlock = true := by
  -- Only an expression statement has no word of its own to begin with.
  cases form with
  | expr e =>
    obtain ⟨k, ts, hts, hk, -⟩ := begins_asStatement (h (.expr e) List.mem_cons_self)
    refine ⟨k, ts ++ [.mark .semicolon], by rw [StmtForm.printed, hts, List.cons_append], ?_⟩
    unfold TokenKind.continuesBlock
    split <;> first | rfl | cases hk
  | declare name isMutable initializer => cases isMutable <;> exact ⟨_, _, rfl, rfl⟩
  | cond test yes no => cases no <;> exact ⟨_, _, rfl, rfl⟩
  | ret value => cases value <;> exact ⟨_, _, rfl, rfl⟩
  | _ => exact ⟨_, _, rfl, rfl⟩

/-- A statement is read again if what is below it is. -/
theorem rereads_stmt {s : Stmt} (h : ∀ k ∈ s.form.children, k.Rereads)
    (hregular : s.form.IsRegular) : s.Rereads := by
  obtain ⟨form, span⟩ := s
  refine ⟨begins_stmt h, fun room c ks hc hks => .peekSpan ?_⟩
  refine Ends.bind (arrives_statementForm h hregular hc fun hopen => hks ?_) fun form' c₁ hform =>
    .lastSpan (.pure ⟨?_, hform.2⟩)
  · rwa [Stmt.endsOpen]
  · rw [Stmt.erased, Stmt.erased, hform.1]

/-! ### Expressions -/

/-- An expression of the tightest tier is read again when it is as a primary expression. -/
theorem rereads_piece {form : ExprForm} (htier : form.tier = 9) (hbegins : Begins 9 form.printed)
    (h : ReadsPrimary form.printed ⟨id, span, height, form⟩) :
    (⟨id, span, height, form⟩ : Expr).Rereads :=
  ⟨htier.symm ▸ h.readsAt hbegins, fun _ _ => h.loop _⟩

/-- What binds less tightly than a member is put in parentheses behind `new`. -/
theorem rereads_loose {e : Expr} (tier : Nat) (htier : e.form.tier = tier) (hlt : tier < 8)
    (h : ReadsAt tier e.printed e) : e.Rereads :=
  ⟨htier.symm ▸ h, fun _ h8 => absurd (htier ▸ h8) (not_le.mpr hlt)⟩

/-- A literal is read again. -/
theorem rereads_literal {form : ExprForm} {k : TokenKind} (htier : form.tier = 9)
    (hk : literalKind? form = some k) (hbegins : k.beginsExpression = true)
    (hop : unaryOp? k = none) : (⟨id, span, height, form⟩ : Expr).Rereads := by
  have hprinted := printed_of_literalKind? hk
  refine rereads_piece htier ?_ ?_
  · exact ⟨k, [], hprinted, hbegins, fun _ => hop⟩
  · rw [hprinted]
    exact readsPrimary_literal hk

/-- The token of a binary operator is its connective, at its tier. -/
theorem connective?_binary (op : BinaryOp) : connective? op.kind = some (.binary op, op.tier) := by
  cases op <;> rfl

/-- The token of a logical operator is its connective, at its tier. -/
theorem connective?_logical (op : LogicalOp) :
    connective? op.kind = some (.logical op, op.tier) := by
  cases op <;> rfl

/-- Two operands, printed within the tier of the connective and the next tighter one. -/
theorem reads_connective {connective : Connective} {tier : Nat} {k : TokenKind} {left right : Expr}
    (hk : connective? k = some (connective, tier)) (hpos : 1 ≤ tier) (hleft : left.Rereads)
    (hright : right.Rereads) :
    ReadsAt tier (within tier left.form.tier left.printed ++
        k :: within (tier + 1) right.form.tier right.printed)
      ⟨id, span, height, connective.form left right⟩ := by
  have hle := tier_le_of_connective? hk
  have hleft' := hleft.reads.within (m := tier) (by omega)
  have hright' := hright.reads.within (m := tier + 1) (by omega)
  exact (readsOperand_connective hk (hleft'.operand hpos) (hright'.operand (by omega))).readsAt
    (hleft'.begins.append _) hpos (by omega)

/-- Behind `new`, too, what is printed within the tier of members can be read. -/
theorem readsLoop_within {o : Expr} (ho : o.Rereads) (hcallee : o.isCallee = true) :
    ReadsLoop newCalleeStep (within 8 o.form.tier o.printed) o := by
  unfold within
  split
  · exact (readsPrimary_inParens ho.reads.assignment).loop _
  · next htight => exact ho.callee hcallee (not_lt.mp htight)

/-- A unary expression is read again if its operand is. -/
theorem rereads_unary {op : UnaryOp} {operand : Expr} (h : operand.Rereads)
    (hregular : (ExprForm.unary op operand).IsRegular) :
    (⟨id, span, height, .unary op operand⟩ : Expr).Rereads := by
  have hoperand := (h.reads.within (m := 7) (by omega)).unary (Nat.le_refl _)
  refine rereads_loose 7 rfl (by decide) ((readsUnary_unary hoperand hregular.1).readsAt
    ⟨_, _, rfl, ?_, fun h8 => absurd h8 (by decide)⟩)
  cases op <;> rfl

/-- An assignment is read again if both sides are. -/
theorem rereads_assign {target value : Expr} (htarget : target.Rereads) (hvalue : value.Rereads)
    (hregular : (ExprForm.assign target value).IsRegular) :
    (⟨id, span, height, .assign target value⟩ : Expr).Rereads := by
  have hoperand := htarget.reads.within (m := 1) (by omega)
  exact rereads_loose 0 rfl (by decide)
    ((readsAssignment_assign (hoperand.operand (Nat.le_refl _)) hvalue.reads.assignment
      hregular.1).readsAt ((hoperand.begins.mono (by omega)).append _))

-- A member stands in the tail of an expression and in the tail of a callee behind `new`; the two
-- tails are loops over different steps.
/-- A member is read again if its object is. -/
theorem rereads_memberOf {o : Expr} (ho : o.Rereads) (name : String) :
    (⟨id, span, height, .member o name⟩ : Expr).Rereads := by
  have hwithin := ho.reads.within (m := 8) (by omega)
  exact ⟨(readsLoop_member readsMembers_postfixStep (hwithin.suffix (Nat.le_refl _)) name).readsAt
      (hwithin.begins.append _),
    fun hcallee _ => readsLoop_member readsMembers_newCalleeStep (readsLoop_within ho hcallee)
      name⟩

/-- An index expression is read again if its object and its key are. -/
theorem rereads_index {o key : Expr} (ho : o.Rereads) (hkey : key.Rereads) :
    (⟨id, span, height, .index o key⟩ : Expr).Rereads := by
  have hwithin := ho.reads.within (m := 8) (by omega)
  exact ⟨(readsLoop_index readsMembers_postfixStep (hwithin.suffix (Nat.le_refl _))
      hkey.reads.assignment).readsAt (hwithin.begins.append _),
    fun hcallee _ => readsLoop_index readsMembers_newCalleeStep (readsLoop_within ho hcallee)
      hkey.reads.assignment⟩

/-- A call is never a callee behind `new`, so it is read in one tail only. -/
theorem rereads_call {callee : Expr} {args : List Expr} (h : callee.Rereads)
    (hargs : ∀ e ∈ args, e.Rereads) : (⟨id, span, height, .call callee args⟩ : Expr).Rereads := by
  have hwithin := h.reads.within (m := 8) (by omega)
  exact ⟨(readsLoop_call (hwithin.suffix (Nat.le_refl _)) hargs).readsAt
    (hwithin.begins.append _), fun hcallee => by cases hcallee⟩

/-- A slot is read again if its accessor and its key are. -/
theorem rereads_slot {a : Accessor} {key : SlotKey} (ha : a.Rereads)
    (hkey : ∀ e, key = .computed e → e.Rereads) :
    (⟨id, span, height, .slot a key⟩ : Expr).Rereads := by
  have hbegins : Begins 9 (ExprForm.slot a key).printed := by
    cases a <;> exact ⟨_, _, rfl, rfl, fun _ => rfl⟩
  exact rereads_piece rfl hbegins (readsPrimary_slot ha hkey)

/-- An `in` with an accessor is read again if key and accessor are. -/
theorem rereads_hasSlot {key : Expr} {a : Accessor} (hkey : key.Rereads) (ha : a.Rereads) :
    (⟨id, span, height, .hasSlot key a⟩ : Expr).Rereads := by
  have hwithin := hkey.reads.within (m := 4) (by omega)
  exact rereads_loose 4 rfl (by decide) ((readsOperand_hasSlot (hwithin.operand (by omega))
    ha).readsAt (hwithin.begins.append _) (by decide) (by decide))

/-- An expression is read where its own tier is asked for, one case for every form. -/
theorem rereads_expr {e : Expr} (h : ∀ k ∈ e.form.children, k.Rereads)
    (hregular : e.form.IsRegular) : e.Rereads := by
  obtain ⟨id, span, height, form⟩ := e
  -- one lemma for each form: literals, pieces closed on both sides, and loose operators
  cases form with
  | number value => exact rereads_literal rfl rfl rfl rfl
  | string value => exact rereads_literal rfl rfl rfl rfl
  | bool value => cases value <;> exact rereads_literal rfl rfl rfl rfl
  | null => exact rereads_literal rfl rfl rfl rfl
  | undefined => exact rereads_literal rfl rfl rfl rfl
  | ident name => exact rereads_literal rfl rfl rfl rfl
  | this => exact rereads_literal rfl rfl rfl rfl
  | object ps =>
    refine rereads_piece rfl ⟨_, _, rfl, rfl, fun _ => rfl⟩ (readsPrimary_object fun p hp => ?_)
    exact h (.expr p.value) (List.mem_map.mpr ⟨p, hp, rfl⟩)
  | functionDef f =>
    exact rereads_piece rfl ⟨_, _, rfl, rfl, fun _ => rfl⟩
      (readsPrimary_functionDef (h (.function f) List.mem_cons_self) (hregular.2 f rfl))
  | classDef d =>
    exact rereads_piece rfl ⟨_, _, rfl, rfl, fun _ => rfl⟩
      (readsPrimary_classDef (h (.class d) List.mem_cons_self))
  | unary op operand => exact rereads_unary (h (.expr operand) List.mem_cons_self) hregular
  -- an operand in need of parentheses has been printed in them
  | binary op left right =>
    have hk := connective?_binary op
    exact rereads_loose _ rfl ((tier_le_of_connective? hk).trans_lt (by decide))
      (reads_connective hk (by cases op <;> decide) (h (.expr left) List.mem_cons_self)
        (h (.expr right) (by simp [ExprForm.children])))
  | logical op left right =>
    have hk := connective?_logical op
    exact rereads_loose _ rfl ((tier_le_of_connective? hk).trans_lt (by decide))
      (reads_connective hk (by cases op <;> decide) (h (.expr left) List.mem_cons_self)
        (h (.expr right) (by simp [ExprForm.children])))
  | assign target value =>
    exact rereads_assign (h (.expr target) List.mem_cons_self)
      (h (.expr value) (by simp [ExprForm.children])) hregular
  | member o name => exact rereads_memberOf (h (.expr o) List.mem_cons_self) name
  | index o key =>
    exact rereads_index (h (.expr o) List.mem_cons_self)
      (h (.expr key) (by simp [ExprForm.children]))
  | call callee args =>
    exact rereads_call (h (.expr callee) List.mem_cons_self) fun e he =>
      h (.expr e) (by simp [ExprForm.children, he])
  | new callee args =>
    refine rereads_piece rfl ⟨_, _, rfl, rfl, fun _ => rfl⟩
      (readsPrimary_new (h (.expr callee) List.mem_cons_self) fun e he => ?_)
    exact h (.expr e) (by simp [ExprForm.children, he])
  -- the key is an expression only in brackets
  | slot a key =>
    exact rereads_slot (h (.accessor a) List.mem_cons_self) fun e he =>
      h (.expr e) (by simp [ExprForm.children, he, SlotKey.children])
  | hasSlot key a =>
    exact rereads_hasSlot (h (.expr key) List.mem_cons_self)
      (h (.accessor a) (by simp [ExprForm.children]))
  | superCall args =>
    refine rereads_piece rfl ⟨_, _, rfl, rfl, fun _ => rfl⟩
      (readsPrimary_superCall fun e he => ?_)
    exact h (.expr e) (by simp [ExprForm.children, he])
  | superMember name =>
    exact rereads_piece rfl ⟨_, _, rfl, rfl, fun _ => rfl⟩ (readsPrimary_superMember name)

end Parser

/-! ### Trees -/

/-- **The printed tokens of a regular tree are read as a copy of it**, unless it is nested too
deeply. -/
theorem SyntaxNode.rereads_of_regular {n : SyntaxNode} (h : n.Everywhere SyntaxNode.IsRegular) :
    n.Rereads := by
  -- the induction goes over the children, so each kind of node needs its own step alone
  induction h with
  | @intro n here below ih =>
    cases n with
    | stmt s => exact Parser.rereads_stmt ih here
    | expr e => exact Parser.rereads_expr ih here
    | accessor a =>
      refine Parser.rereads_accessor fun span e ha => ih (.expr e) ?_
      rw [ha]
      exact List.mem_cons_self
    | function f =>
      exact Parser.rereads_function (fun s hs => ih (.stmt s) (List.mem_map_of_mem hs)) here
    | «class» d => exact Parser.rereads_class ih here
    | member m => exact Parser.rereads_member ih here

/-! ### Programs -/

namespace Parser

/-- The next statement is read, unless the end of input lies ahead. -/
theorem nextStatement?_of_ahead {c : Cursor} {k : TokenKind} {ks : List TokenKind}
    (hc : c.Ahead (k :: ks)) :
    nextStatement? c = if k = .endOfInput then none else some (topStatement c) := by
  obtain ⟨rest, htokens, -⟩ := hc.tokens_eq
  rw [nextStatement?, hc.finished, htokens]
  have hkind : c.nextToken.kind = k := hc.kind
  by_cases hk : k = .endOfInput <;> simp [Token.isEndOfInput, hkind, hk]

/-- Statement after statement, up to the first that is nested too deeply. -/
theorem readWithin_printed {c : Cursor} {body : List Stmt} {budget : List Token}
    (h : ∀ s ∈ body, s.Rereads) (hc : c.Ahead (stmtsPrinted body ++ [.endOfInput]))
    (hbudget : c.tokens.length ≤ budget.length) :
    (∃ e errors, (readWithin budget c).2.1 = e :: errors ∧ e.fault = .nestedTooDeeply) ∨
    ((readWithin budget c).2.1 = [] ∧
      (readWithin budget c).1.map Stmt.erased = body.map Stmt.erased) := by
  induction body generalizing budget c with
  -- at the end of the input nothing is left to read
  | nil =>
    have hc : c.Ahead [.endOfInput] := hc
    cases budget with
    | nil =>
      rw [hc.length] at hbudget
      cases hbudget
    | cons t budget =>
      rw [readWithin, nextStatement?_of_ahead hc, if_pos rfl]
      exact .inr ⟨rfl, rfl⟩
  | cons s rest ih =>
    have hs := h s List.mem_cons_self
    have hrest := fun s' hs' => h s' (List.mem_cons_of_mem s hs')
    -- a statement begins with a token of its own, so the end has not been reached
    obtain ⟨k, ts, hts, hk⟩ := hs.begins
    rw [stmtsPrinted, List.append_assoc] at hc
    have hnot : k ≠ .endOfInput := by
      rintro rfl
      cases hk
    have harrives : Arrives topStatement c fun s' c' =>
        s'.erased = s.erased ∧ c'.Ahead (stmtsPrinted rest ++ [.endOfInput]) :=
      arrives_statement hs hc fun _ => headKind_ne_else hrest TokenKind.noConfusion
    have hc₀ := hc
    rw [hts, List.cons_append] at hc₀
    cases budget with
    | nil =>
      rw [hc₀.length] at hbudget
      cases hbudget
    | cons t budget =>
      rw [readWithin, nextStatement?_of_ahead hc₀, if_neg hnot]
      unfold Arrives Ends at harrives
      cases hread : topStatement c with
      | error e c' =>
        rw [hread] at harrives
        exact .inl ⟨e, _, rfl, harrives⟩
      | ok s' c' =>
        rw [hread] at harrives
        obtain ⟨hs', hc'⟩ := harrives
        -- its tokens have been used up, so the budget lasts for what is behind it
        have hle : c'.tokens.length ≤ budget.length := by
          rw [hc₀.length] at hbudget
          rw [hc'.length]
          simp only [List.length_cons, List.length_append] at hbudget ⊢
          omega
        rcases ih hrest hc' hle with ⟨e, errors, herrors, hfault⟩ | ⟨herrors, hbody⟩
        · -- a later statement may be nested too deeply, or all are read again
          exact .inl ⟨e, errors, herrors, hfault⟩
        · refine .inr ⟨herrors, ?_⟩
          change s'.erased :: (readWithin budget c').1.map Stmt.erased = _
          rw [hbody, hs', List.map_cons]

end Parser

/-- The trees of a program that was read are regular. -/
theorem Program.regular_of_read {source : List UInt8} {p : Program}
    (h : Program.read source = .ok p) :
    ∀ s ∈ p.body, (SyntaxNode.stmt s).Everywhere SyntaxNode.IsRegular := by
  obtain ⟨lo, hcovers⟩ := Program.covers_read h
  exact fun s hs => (hcovers.within s hs).2.imp fun _ hn => hn.regular

/-- **Printing a program that was read and reading its tokens again gives the program**, up to
numbers and regions, or the tokens are rejected because they are nested too deeply. They may stand
anywhere, with comments among them. -/
theorem Program.read_printed {source : List UInt8} {p : Program}
    (h : Program.read source = .ok p) :
    p.IsPrintedAs p.rendered ∧ ∀ tokens : List Token, p.IsPrintedAs tokens →
      (∃ e errors, Program.ofTokens tokens = .error (e :: errors) ∧ e.fault = .nestedTooDeeply) ∨
      ∃ p', Program.ofTokens tokens = .ok p' ∧ p'.erased = p.erased := by
  have hregular := Program.regular_of_read h
  refine ⟨Program.isPrintedAs_rendered hregular, fun tokens hprinted => ?_⟩
  have hrereads : ∀ s ∈ p.body, s.Rereads := fun s hs =>
    SyntaxNode.rereads_of_regular (hregular s hs)
  -- the rendered tokens, seen from a cursor, are the statements and the end
  have hahead : (Cursor.ofTokens tokens).Ahead (stmtsPrinted p.body ++ [.endOfInput]) :=
    ⟨hprinted.kinds, fun t ht => hprinted.texts t (List.mem_filter.mp ht).1, rfl⟩
  unfold Program.ofTokens
  dsimp only
  rcases Parser.readWithin_printed hrereads hahead (Nat.le_refl _) with
    ⟨e, errors, herrors, hfault⟩ | ⟨herrors, hbody⟩
  · rw [herrors]
    exact .inl ⟨e, errors, rfl, hfault⟩
  · rw [herrors]
    exact .inr ⟨_, rfl, hbody⟩

/-- A source in which parentheses, a dangling `else` and the two readings of `in` matter. -/
def trickySource : List UInt8 :=
  ("class A extends (f()) \x7b private x = (1 + 2) * 3; in(o) " ++
    "\x7b return ('x' in private(o)) == !('y' in o); \x7d \x7d " ++
    "if (a) \x7b if (b) c; \x7d else new (g())(1,); (\x7b\x7d).k = d = f(e, 1)").toUTF8.toList

theorem Program.read_printed_trickySource : ∃ p, Program.read trickySource = .ok p ∧
    p.body.length = 3 ∧ p.IsPrintedAs p.rendered ∧
    ∃ p', Program.ofTokens p.rendered = .ok p' ∧ p'.erased = p.erased := by
  -- Evaluated once: that it is read, how long it is, and that its rendering is read.
  have hagain : (Program.read trickySource).toOption.map (fun p =>
      (p.body.length, (Program.ofTokens p.rendered).toBool)) = some (3, true) := by
    decide +kernel
  cases hread : Program.read trickySource with
  | error errors =>
    rw [hread] at hagain
    cases hagain
  | ok p =>
    rw [hread] at hagain
    obtain ⟨hlength, hok⟩ := Prod.mk.inj (Option.some.inj hagain)
    obtain ⟨hprinted, hreading⟩ := Program.read_printed hread
    refine ⟨p, rfl, hlength, hprinted, ?_⟩
    refine (hreading p.rendered hprinted).resolve_left fun ⟨e, errors, herror, _⟩ => ?_
    rw [herror] at hok
    cases hok

end Enclave
