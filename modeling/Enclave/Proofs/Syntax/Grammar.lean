import Enclave.Proofs.Syntax.Parsing

/-!
# What the grammar reads

Every parser of the grammar yields the nodes of what it reads, given that those one level deeper do
(`Level.IsTracked`), so all levels do. So the nodes of a program that was read without errors have
the numbers that were handed out, each its own, and all are made as they should be
(`Program.read_numbers`).
-/

namespace Enclave

open SyntaxNode

/-- The parsers of a level yield the nodes of what they read. Of a statement it is not known yet
that it is not too high, so its children stand for it. -/
structure Level.IsTracked (l : Level) : Prop where
  assignment : l.assignment.Yields [] fun e => [.expr e]
  unary : l.unary.Yields [] fun e => [.expr e]
  primary : l.primary.Yields [] fun e => [.expr e]
  statement : l.statement.Yields [] fun s => s.form.children

namespace Parser

/-- Reading an expression that may be left out. -/
theorem yields_some {p : Parser Expr} {before : List SyntaxNode}
    (hp : p.Yields before fun e => [.expr e]) :
    Yields (some <$> p) before fun e? => e?.toList.map .expr :=
  .map hp

variable {deeper : Level} (hd : deeper.IsTracked)

include hd

/-- A statement yields itself. -/
theorem yields_statement : Yields (statement deeper) [] fun s => [.stmt s] := by
  refine hd.statement.bind fun s => .ite (fun _ => ?_) fun hheight => ?_
  · exact .fail_bind _ _ _ _ _
  · exact .wrap (.refl _) (Nat.not_lt.mp hheight) ⟨rfl, rfl, rfl⟩

/-- A block yields its statements. -/
theorem yields_block : Yields (block deeper) [] fun body => body.map .stmt := by
  refine .skip (quiet_expectMark _) fun _ => ?_
  refine Yields.repeatStep (List.map .stmt) (List.map .stmt) (fun body => ?_) []
  refine .skip (quiet_isAtMark _) fun _ => .ite (fun _ => ?_) fun _ => ?_
  · refine .skip quiet_next fun _ => .pure ?_
    exact (body.reverse_perm.map SyntaxNode.stmt).symm
  · refine .skip quiet_isAtEnd fun _ => .ite (fun _ => ?_) fun _ => ?_
    · exact .unexpected _ _ _
    · exact (yields_statement hd).andThen fun s => .pure (.refl _)

/-- An argument list yields its arguments. -/
theorem yields_args : Yields (args deeper) [] fun es => es.map .expr := by
  refine .skip (quiet_expectMark _) fun _ => ?_
  refine Yields.bind (.repeatStep (List.map .expr) (List.map .expr) (fun es => ?_) [])
    fun es => ?_
  · refine .skip (quiet_isAtMark _) fun _ => .ite (fun _ => .pure (.refl _)) fun _ => ?_
    refine hd.assignment.andThen fun e => ?_
    -- The new argument is collected in front and stands last in the list.
    have hnodes : (SyntaxNode.expr e :: es.map .expr).Perm ((es ++ [e]).map .expr) := by
      rw [List.map_append]
      exact (List.perm_append_singleton _ _).symm
    exact .skip (quiet_skipMark _) fun _ => .ite (fun _ => .pure hnodes) fun _ => .pure hnodes
  · exact .skip (quiet_expectMark _) fun _ => .pure (.refl _)

/-! ### Functions and classes -/

/-- Parameters and body yield the function they belong to. -/
theorem yields_functionRest (name : Option String) (kind : FunctionKind) (start : Span) :
    Yields (functionRest deeper name kind start) [] fun f => [.function f] := by
  refine .skip quiet_params fun ps => (yields_block hd).bind fun body => ?_
  exact .skip quiet_lastSpan fun _ => yields_newFunction _ _ _ _ _

/-- A function definition yields the function. -/
theorem yields_functionDef (isNameRequired : Bool) :
    Yields (functionDef deeper isNameRequired) [] fun f => [.function f] :=
  .skip (quiet_expectKeyword _) fun _ => .skip (quiet_definedName _ _) fun _ =>
    yields_functionRest hd _ _ _

/-- Postfixes turn the operand they are given into one expression that contains it. -/
theorem yields_postfixTail (e : Expr) :
    Yields (postfixTail deeper e) [.expr e] fun e => [.expr e] := by
  -- Each postfix takes the operand as a child of the node it makes.
  refine Yields.repeatStep (fun e => [.expr e]) (fun e => [.expr e]) (fun e => ?_) e
  refine .skip quiet_peek fun kind => ?_
  split
  · refine .skip quiet_next fun _ => .skip quiet_expectPropertyName fun name => ?_
    exact (Yields.node (by trivial) _ (.refl _)).bind fun _ => .pure (.refl _)
  · refine .skip quiet_next fun _ => hd.assignment.andThen fun key => ?_
    refine .skip (quiet_expectMark _) fun _ => ?_
    exact (Yields.node (by trivial) _ List.perm_append_comm).bind fun _ => .pure (.refl _)
  · refine (yields_args hd).andThen fun args => .skip quiet_lastSpan fun _ => ?_
    exact (Yields.node (by trivial) _ List.perm_append_comm).bind fun _ => .pure (.refl _)
  · exact .pure (.refl _)

/-- A member behind `private` or `static` yields itself. -/
theorem yields_declaredMember (isPrivate : Bool) :
    Yields (declaredMember deeper isPrivate) [] fun m => [.member m] := by
  refine .skip quiet_next fun t => .skip quiet_expectPropertyName fun name => ?_
  -- the name and the brackets around it yield no node, so the member is all of it
  have hmember : ∀ form, Yields (do return ⟨name.1, form, t.span.merge (← lastSpan)⟩)
      form.children fun m => [.member m] := fun form =>
    .skip quiet_lastSpan fun _ => .wrap (.refl _) trivial ⟨rfl, rfl, rfl⟩
  refine .skip (quiet_isAtMark _) fun _ => .ite (fun _ => ?_) fun _ => ?_
  · refine .ite (fun _ => ?_) fun _ => ?_
    · exact (yields_functionRest hd _ _ _).bind fun f => .pure_bind (hmember (.privateMethod f))
    · exact (yields_functionRest hd _ _ _).bind fun f => .pure_bind (hmember (.staticMethod f))
  · -- a field yields its initializer, if it has one
    have hfield : ∀ initializer, Yields (do
        endStatement
        if isPrivate then return ⟨name.1, .privateField initializer, t.span.merge (← lastSpan)⟩
        else return ⟨name.1, .staticField initializer, t.span.merge (← lastSpan)⟩)
        (initializer.toList.map .expr) fun m => [.member m] := fun initializer =>
      .skip quiet_endStatement fun _ =>
        .ite (fun _ => hmember (.privateField initializer))
          fun _ => hmember (.staticField initializer)
    refine .skip (quiet_skipMark _) fun _ => .ite (fun _ => ?_) fun _ => .pure_bind (hfield none)
    exact (yields_some hd.assignment).bind hfield

/-- A public method yields itself. -/
theorem yields_publicMethod : Yields (publicMethod deeper) [] fun m => [.member m] := by
  refine .skip quiet_expectPropertyName fun name => ?_
  refine (yields_functionRest hd _ _ _).bind fun f => ?_
  exact .skip quiet_lastSpan fun _ => .wrap (.refl _) trivial ⟨rfl, rfl, rfl⟩

omit hd in
/-- Adding a member to a body adds it to the body's children. -/
theorem ClassBody.children_addMember (body : ClassBody) (m : Member) :
    (.member m :: body.children).Perm
      (ClassBody.children { body with members := body.members ++ [m] }) := by
  unfold ClassBody.children
  rw [List.map_append, ← List.append_assoc]
  exact (List.perm_append_singleton _ _).symm

/-- A class body yields its constructor and its members. -/
theorem yields_classBody : Yields (classBody deeper) [] ClassBody.children := by
  refine Yields.repeatStep ClassBody.children ClassBody.children (fun body => ?_) ⟨none, []⟩
  refine .skip quiet_peek fun kind => ?_
  split
  · exact .skip quiet_next fun _ => .pure (.refl _)
  · exact .skip quiet_next fun _ => .pure (.refl _)
  · exact .unexpected _ _ _
  · refine .skip quiet_next fun t => .ite (fun _ => .fail_bind _ _ _ _ _) fun hnone => ?_
    refine (yields_functionRest hd _ _ _).andThen fun f => .pure ?_
    -- A second constructor is an error, so the body had none.
    have hconstructor : body.constructor = none := by simpa using hnone
    simp [stepNodes, ClassBody.children, hconstructor]
  · exact (yields_declaredMember hd true).andThen fun m => .pure (body.children_addMember m)
  · exact (yields_declaredMember hd false).andThen fun m => .pure (body.children_addMember m)
  · exact (yields_publicMethod hd).andThen fun m => .pure (body.children_addMember m)
  · exact (yields_publicMethod hd).andThen fun m => .pure (body.children_addMember m)
  · exact .unexpected _ _ _

/-- A class definition yields the class. -/
theorem yields_classDef (isNameRequired : Bool) :
    Yields (classDef deeper isNameRequired) [] fun c => [.class c] := by
  refine .skip (quiet_expectKeyword _) fun t => .skip (quiet_definedName _ _) fun name => ?_
  have hbody : ∀ superclass, Yields (do
      let _ ← expectMark .leftBrace
      let body ← classBody deeper
      newClass name superclass body.constructor body.members (t.span.merge (← lastSpan)))
      (superclass.toList.map .expr) fun c => [.class c] := fun superclass => by
    refine .skip (quiet_expectMark _) fun _ => (yields_classBody hd).andThen fun body => ?_
    refine .skip quiet_lastSpan fun _ => (yields_newClass _ _ _ _ _).perm ?_ fun _ => .refl _
    -- the parts of the body come first in what is tracked, and last among the children
    rw [List.append_assoc]
    exact List.perm_append_comm
  refine .skip (quiet_isAtKeyword _) fun _ => .ite (fun _ => ?_) fun _ => .pure_bind (hbody none)
  refine .skip quiet_next fun _ => hd.primary.bind fun e => ?_
  exact (yields_some (yields_postfixTail hd e)).bind hbody

/-! ### Primary expressions -/

/-- The head of an accessor yields the accessor. -/
theorem yields_accessorHead : Yields (accessorHead deeper) [] fun a => [.accessor a] := by
  have hplain : ∀ a : Accessor, a.children = [] →
      Yields (Pure.pure a) [] fun a => [.accessor a] := fun a hchildren =>
    .wrap (.of_eq hchildren.symm) trivial ⟨rfl, rfl, rfl⟩
  refine .skip quiet_next fun t => .ite (fun _ => hplain _ rfl) fun _ => ?_
  refine .skip (quiet_skipMark _) fun _ => .ite (fun _ => ?_) fun _ => hplain _ rfl
  refine hd.assignment.bind fun target => .skip (quiet_expectMark _) fun _ => ?_
  exact .wrap (.refl _) trivial ⟨rfl, rfl, rfl⟩

/-- The member behind an accessor yields one node, the accessor's own or the member's. -/
theorem yields_accessorMember? (a : Accessor) :
    Yields (accessorMember? deeper a) [.accessor a] fun e? => [accessorNode a e?] := by
  refine .skip quiet_peek fun kind => ?_
  split
  · refine .skip quiet_next fun _ => .skip quiet_expectPropertyName fun name => .map ?_
    exact Yields.node (by trivial) _ (.refl _)
  · refine .skip quiet_next fun _ => hd.assignment.andThen fun key => ?_
    refine .skip (quiet_expectMark _) fun _ => .map ?_
    exact Yields.node (by trivial) _ List.perm_append_comm
  · exact .pure (.refl _)

/-- An accessor with its member yields one expression. -/
theorem yields_slot : Yields (slot deeper) [] fun e => [.expr e] := by
  refine (yields_accessorHead hd).bind fun a => (yields_accessorMember? hd a).bind fun e => ?_
  cases e with
  | some e => exact .pure (.refl _)
  | none => exact .skip quiet_peek fun _ => .skip quiet_peekSpan fun _ => .fail _ _ _ _

/-- An object literal yields one expression, with the values of its properties below it. -/
theorem yields_objectLiteral : Yields (objectLiteral deeper) [] fun e => [.expr e] := by
  refine .skip (quiet_expectMark _) fun _ => ?_
  refine Yields.bind (.repeatStep (List.map (.expr ·.value)) (List.map (.expr ·.value))
    (fun ps => ?_) []) fun ps => ?_
  · refine .skip (quiet_isAtMark _) fun _ => .ite (fun _ => .pure (.refl _)) fun _ => ?_
    refine .skip quiet_propertyName fun name => .skip (quiet_expectMark _) fun _ => ?_
    refine hd.assignment.andThen fun e => ?_
    -- The new value is collected in front and stands last in the list.
    have hnodes : (SyntaxNode.expr e :: ps.map (.expr ·.value)).Perm
        ((ps ++ [Property.mk name e]).map (.expr ·.value)) := by
      rw [List.map_append]
      exact (List.perm_append_singleton _ _).symm
    exact .skip (quiet_skipMark _) fun _ => .ite (fun _ => .pure hnodes) fun _ => .pure hnodes
  · exact .skip (quiet_expectMark _) fun _ => .node (by trivial) _ (.refl _)

/-- The members behind the callee of `new` yield one expression that contains the callee. -/
theorem yields_newCalleeTail (e : Expr) :
    Yields (newCalleeTail deeper e) [.expr e] fun e => [.expr e] := by
  -- The invariant is that exactly one expression is open.
  refine Yields.repeatStep (fun e => [.expr e]) (fun e => [.expr e]) (fun e => ?_) e
  refine .skip quiet_peek fun kind => ?_
  split
  · refine .skip quiet_next fun _ => .skip quiet_expectPropertyName fun name => ?_
    exact (Yields.node (by trivial) _ (.refl _)).bind fun _ => .pure (.refl _)
  · refine .skip quiet_next fun _ => hd.assignment.andThen fun key => ?_
    refine .skip (quiet_expectMark _) fun _ => ?_
    exact (Yields.node (by trivial) _ List.perm_append_comm).bind fun _ => .pure (.refl _)
  · exact .pure (.refl _)

/-- A construction yields one expression. -/
theorem yields_construction : Yields (construction deeper) [] fun e => [.expr e] := by
  refine .skip quiet_next fun t => hd.primary.bind fun e => ?_
  refine (yields_newCalleeTail hd e).bind fun callee => ?_
  have hnew : ∀ args : List Expr,
      Yields (do newExpr (.new callee args) (t.span.merge (← lastSpan)))
        (args.map .expr ++ [.expr callee]) fun e => [.expr e] := fun args =>
    .skip quiet_lastSpan fun _ => .node (by trivial) _ List.perm_append_comm
  refine .skip (quiet_isAtMark _) fun _ => .ite (fun _ => ?_) fun _ => .pure_bind (hnew [])
  exact (yields_args hd).andThen hnew

/-- A use of `super` yields the children of its form. -/
theorem yields_superForm : Yields (superForm deeper) [] ExprForm.children := by
  refine .skip quiet_next fun _ => .skip (quiet_isAtMark _) fun _ => .ite (fun _ => ?_) fun _ => ?_
  · exact (yields_args hd).bind fun args => .pure (.refl _)
  · refine .skip (quiet_skipMark _) fun _ => .ite (fun _ => ?_) fun _ => .unexpected _ _ _
    exact .skip quiet_expectPropertyName fun name => .pure (.refl _)

omit hd in
/-- A use of `super` is a form that the grammar allows. -/
theorem isProper_superForm {c c' : Cursor} {form : ExprForm}
    (h : superForm deeper c = .ok form c') : form.IsProper := by
  obtain ⟨_, c₁, -, h⟩ := bind_eq_ok h
  obtain ⟨_, c₂, -, h⟩ := bind_eq_ok h
  -- Behind `super` stand either arguments or a name; anything else is an error.
  split at h
  · obtain ⟨args, c₃, -, h⟩ := bind_eq_ok h
    cases h
    trivial
  · obtain ⟨_, c₃, -, h⟩ := bind_eq_ok h
    split at h
    · obtain ⟨name, c₄, -, h⟩ := bind_eq_ok h
      cases h
      trivial
    · exact absurd h (unexpected_ne_ok _ _ _ _)

/-- A primary expression yields itself. -/
theorem yields_primary : Yields (primary deeper) [] fun e => [.expr e] := by
  refine .skip quiet_peekSpan fun start => ?_
  -- a literal has no children: the eight kinds of literal come first below
  have hliteral : ∀ form : ExprForm, form.IsProper → form.children = [] →
      Yields (do
        let _ ← next
        newExpr form (start.merge (← lastSpan))) [] fun e => [.expr e] :=
    fun form hproper hchildren => .skip quiet_next fun _ => .skip quiet_lastSpan fun _ =>
      .node hproper _ (.of_eq hchildren.symm)
  refine .skip quiet_peek fun kind => ?_
  split
  · exact hliteral _ trivial rfl
  · exact hliteral _ trivial rfl
  · exact hliteral _ trivial rfl
  · exact hliteral _ trivial rfl
  · exact hliteral _ trivial rfl
  · exact hliteral _ trivial rfl
  · exact hliteral _ trivial rfl
  · exact hliteral _ trivial rfl
  · -- functions, classes and the forms with parts of their own
    refine (yields_functionDef hd false).bind fun f => .skip quiet_lastSpan fun _ => ?_
    exact .node (by trivial) _ (.refl _)
  · refine (yields_classDef hd false).bind fun c => .skip quiet_lastSpan fun _ => ?_
    exact .node (by trivial) _ (.refl _)
  · exact yields_construction hd
  · exact yields_slot hd
  · exact yields_slot hd
  · refine (yields_superForm hd).bind_of (fun _ _ _ h => isProper_superForm h)
      fun form hproper => ?_
    exact .skip quiet_lastSpan fun _ => .node hproper _ (.refl _)
  · refine .skip quiet_next fun _ => hd.assignment.bind fun e => ?_
    exact .skip (quiet_expectMark _) fun _ => .pure (.refl _)
  · exact yields_objectLiteral hd
  · exact .unexpected _ _ _

/-! ### Operators -/

/-- A primary expression with its postfixes yields one expression. -/
theorem yields_postfixed : Yields (postfixed deeper) [] fun e => [.expr e] :=
  (yields_primary hd).bind fun e => yields_postfixTail hd e

/-- A unary operator with its operand yields one expression. -/
theorem yields_unary : Yields (unary deeper) [] fun e => [.expr e] := by
  refine .skip quiet_peek fun kind => ?_
  split
  · exact yields_postfixed hd
  · next op _ =>
    refine .skip quiet_next fun t => hd.unary.bind fun operand =>
      .ite (fun _ => ?_) fun hmember => ?_
    · exact .fail_bind _ _ _ _ _
    · refine .node ?_ _ (.refl _)
      -- `delete` has been checked to stand before a member or an accessor.
      cases op with
      | delete => simpa [ExprForm.IsProper] using hmember
      | _ => trivial

omit hd in
/-- Joining two operands makes one expression of them. -/
theorem yields_join (connective : Connective) (left right : Expr) :
    Yields (join connective left right) [.expr right, .expr left] fun e => [.expr e] := by
  cases connective with
  | binary op => exact .node (by trivial) _ (List.Perm.swap _ _ _)
  | logical op => exact .node (by trivial) _ (List.Perm.swap _ _ _)

/-- What follows a connective, with the left operand unless that has become part of it. -/
def rightNodes (left : Expr) : RightSide → List SyntaxNode
  | .operand e => [.expr e, .expr left]
  | .whole e => [.expr e]

/-- The right side of an operator yields its operand, or with `in` the joined expression. -/
theorem yields_rightSide (connective : Connective) (left : Expr) :
    Yields (rightSide deeper connective left) [.expr left] (rightNodes left) := by
  -- Without an accessor the right side is a plain operand.
  have hunary : Yields (do return RightSide.operand (← unary deeper)) [.expr left]
      (rightNodes left) :=
    (yields_unary hd).andThen fun e => .pure (.refl _)
  unfold rightSide
  split
  · refine .skip quiet_isAtAccessor fun _ => .ite (fun _ => ?_) fun _ => hunary
    refine (yields_accessorHead hd).andThen fun a => ?_
    refine ((yields_accessorMember? hd a).beside [.expr left]).bind fun e => ?_
    cases e with
    | some e => exact ((yields_postfixTail hd e).beside [.expr left]).bind fun e => .pure (.refl _)
    | none =>
      exact Yields.bind (.node (by trivial) _ (List.Perm.swap _ _ _)) fun e => .pure (.refl _)
  · exact hunary

/-- A chain of operators makes one expression of all its operands. -/
theorem yields_binaryTail (tiers : ℕ) :
    ∀ (least : ℕ) (left : Expr),
      Yields (binaryTail deeper tiers least left) [.expr left] fun e => [.expr e] := by
  -- the right operand is read with one tier less
  induction tiers with
  | zero => exact fun _ left => .pure (.refl _)
  | succ tiers ih =>
    intro least left
    refine Yields.repeatStep (fun e => [.expr e]) (fun e => [.expr e]) (fun left => ?_) left
    refine .skip quiet_peek fun kind => ?_
    split
    · exact .pure (.refl _)
    · next connective tier _ =>
      refine .ite (fun _ => .pure (.refl _)) fun _ => .skip quiet_next fun _ => ?_
      refine (yields_rightSide hd connective left).bind fun right => ?_
      cases right with
      | whole e => exact .pure (.refl _)
      | operand right =>
        refine ((ih (tier + 1) right).beside [.expr left]).bind fun right => ?_
        exact (yields_join connective left right).bind fun e => .pure (.refl _)

/-- A chain of binary operators yields one expression. -/
theorem yields_binary : Yields (binary deeper) [] fun e => [.expr e] :=
  (yields_unary hd).bind fun e => yields_binaryTail hd _ _ e

/-- An assignment yields one expression. -/
theorem yields_assignment : Yields (assignment deeper) [] fun e => [.expr e] := by
  refine (yields_binary hd).bind fun target => ?_
  refine .skip (quiet_isAtMark _) fun _ => .ite (fun _ => ?_) fun _ => .pure (.refl _)
  refine .skip quiet_next fun sign => .ite (fun _ => .fail_bind _ _ _ _ _) fun hassignable => ?_
  refine hd.assignment.andThen fun value => .node ?_ _ (List.Perm.swap _ _ _)
  simpa [ExprForm.IsProper] using hassignable

/-! ### Statements -/

/-- A declaration yields its initializer, if it has one. -/
theorem yields_declaration (isMutable : Bool) :
    Yields (declaration deeper isMutable) [] StmtForm.children := by
  refine .skip quiet_next fun _ => .skip quiet_expectIdentifier fun name => ?_
  -- With an initializer or without, the statement ends the same way.
  have hend : ∀ initializer, Yields (do
      endStatement
      return StmtForm.declare name.1 isMutable initializer) (initializer.toList.map .expr)
      StmtForm.children := fun initializer =>
    .skip quiet_endStatement fun _ => .pure (.refl _)
  refine .skip (quiet_skipMark _) fun _ => .ite (fun _ => ?_) fun _ =>
    .ite (fun _ => ?_) fun _ => ?_
  · exact (yields_some hd.assignment).bind hend
  · exact .pure_bind (hend none)
  · exact .fail_bind _ _ _ _ _

/-- A condition yields its expression. -/
theorem yields_condition : Yields (condition deeper) [] fun e => [.expr e] :=
  .skip (quiet_expectMark _) fun _ => hd.assignment.bind fun _ =>
    .skip (quiet_expectMark _) fun _ => .pure (.refl _)

/-- A conditional yields its test and its branches. -/
theorem yields_conditional : Yields (conditional deeper) [] StmtForm.children := by
  refine .skip quiet_next fun _ => (yields_condition hd).bind fun test => ?_
  refine (yields_statement hd).andThen fun yes => .skip (quiet_isAtKeyword _) fun _ => ?_
  -- The branches were collected last first.
  have hcond : ∀ no : Option Stmt,
      (no.toList.map SyntaxNode.stmt ++ [SyntaxNode.stmt yes, SyntaxNode.expr test]).Perm
        (StmtForm.cond test yes no).children := fun no =>
    List.perm_append_comm.trans ((List.Perm.swap _ _ []).append_right _)
  refine .ite (fun _ => .skip quiet_next fun _ => ?_) fun _ => .pure_bind (.pure (hcond none))
  have hno : Yields (some <$> statement deeper) [] fun no => no.toList.map SyntaxNode.stmt :=
    .map (yields_statement hd)
  exact hno.andThen fun no => .pure (hcond no)

/-- A loop yields its test and its body. -/
theorem yields_whileLoop : Yields (whileLoop deeper) [] StmtForm.children := by
  refine .skip quiet_next fun _ => (yields_condition hd).bind fun test => ?_
  exact (yields_statement hd).andThen fun body => .pure (.swap _ _ _)

/-- A `return` yields its value, if it has one. -/
theorem yields_returnStatement : Yields (returnStatement deeper) [] StmtForm.children := by
  refine .skip quiet_next fun _ => .skip quiet_peek fun kind => ?_
  -- With a value or without, the statement ends the same way.
  have hend : ∀ value, Yields (do
      endStatement
      return StmtForm.ret value) (value.toList.map .expr) StmtForm.children := fun value =>
    .skip quiet_endStatement fun _ => .pure (.refl _)
  split
  · exact .pure_bind (hend none)
  · exact .pure_bind (hend none)
  · exact .pure_bind (hend none)
  · exact (yields_some hd.assignment).bind hend

/-- A `throw` yields its value. -/
theorem yields_throwStatement : Yields (throwStatement deeper) [] StmtForm.children := by
  refine .skip quiet_next fun _ => hd.assignment.bind fun value => ?_
  exact .skip quiet_endStatement fun _ => .pure (.refl _)

/-- A `try` yields the statements of its blocks. -/
theorem yields_tryStatement : Yields (tryStatement deeper) [] StmtForm.children := by
  refine .skip quiet_next fun _ => (yields_block hd).bind fun body => ?_
  refine .skip (quiet_expectKeyword _) fun _ => .skip (quiet_expectMark _) fun _ => ?_
  refine .skip quiet_expectIdentifier fun name => .skip (quiet_expectMark _) fun _ => ?_
  exact (yields_block hd).andThen fun handler => .pure List.perm_append_comm

/-- An expression statement yields its expression. -/
theorem yields_expressionStatement : Yields (expressionStatement deeper) [] StmtForm.children := by
  refine hd.assignment.bind fun e => ?_
  exact .skip quiet_endStatement fun _ => .pure (.refl _)

/-- Each form of statement yields its children. -/
theorem yields_statementForm : Yields (statementForm deeper) [] StmtForm.children := by
  refine .skip quiet_peek fun kind => ?_
  -- One case for each word a statement may start with.
  split
  · exact yields_declaration hd true
  · exact yields_declaration hd false
  · exact (yields_functionDef hd true).bind fun f => .pure (.refl _)
  · exact (yields_classDef hd true).bind fun c => .pure (.refl _)
  · exact yields_conditional hd
  · exact yields_whileLoop hd
  · exact yields_returnStatement hd
  · exact yields_throwStatement hd
  · exact yields_tryStatement hd
  · exact (yields_block hd).bind fun body => .pure (.refl _)
  · exact .skip quiet_next fun _ => .pure (.refl _)
  · exact yields_expressionStatement hd

/-- A statement yields what is below it. -/
theorem yields_statementBody : Yields (statementBody deeper) [] fun s => s.form.children :=
  .skip quiet_peekSpan fun _ => (yields_statementForm hd).bind fun _ =>
    .skip quiet_lastSpan fun _ => .pure (.refl _)

end Parser

/-! ### Levels -/

/-- If the nodes of a level are tracked, so are those of the level over it. -/
theorem Level.IsTracked.over {deeper : Level} (hd : deeper.IsTracked) :
    (Level.over deeper).IsTracked where
  assignment := Parser.yields_assignment hd
  unary := Parser.yields_unary hd
  primary := Parser.yields_primary hd
  statement := Parser.yields_statementBody hd

/-- The level at which everything is too deep yields nothing. -/
theorem Level.isTracked_full : Level.full.IsTracked :=
  ⟨.skip Parser.quiet_peekSpan fun _ => .fail _ _ _ _,
    .skip Parser.quiet_peekSpan fun _ => .fail _ _ _ _,
    .skip Parser.quiet_peekSpan fun _ => .fail _ _ _ _,
    .skip Parser.quiet_peekSpan fun _ => .fail _ _ _ _⟩

/-- At every level the nodes are tracked, by induction on the room left. -/
theorem Level.isTracked_ofRoom (room : ℕ) : (Level.ofRoom room).IsTracked := by
  induction room with
  | zero => exact isTracked_full
  | succ room ih => exact ih.over

/-! ### Programs -/

/-- A program that was read without errors. -/
theorem Parser.readWithin_tracks (budget : List Token) {c c' : Cursor} {body : List Stmt}
    {others : List SyntaxNode} (htracks : c.Tracks others)
    (hread : Parser.readWithin budget c = (body, [], c')) :
    c'.Tracks (body.map .stmt ++ others) := by
  -- on the tokens still allowed: each statement read adds its own nodes to those tracked
  induction budget generalizing c body others with
  | nil =>
    cases hread
    exact htracks
  | cons t budget ih =>
    rw [readWithin] at hread
    split at hread
    · cases hread
      exact htracks
    · next s c₁ hnext =>
      -- a statement found is one that was parsed at the top level
      have hs : topStatement c = .ok s c₁ := by
        unfold nextStatement? at hnext
        split at hnext
        · cases hnext
        · cases hnext
        · split at hnext
          · cases hnext
          · exact Option.some.inj hnext
      have hstatement := yields_statement (Level.isTracked_ofRoom maxNesting) others c s c₁
        htracks hs
      cases hrest : readWithin budget c₁ with
      | mk body' rest =>
        obtain ⟨errors', c₂⟩ := rest
        -- a statement that failed leaves an error, and `hread` says there are none
        rw [hrest] at hread
        cases hread
        exact (ih hstatement hrest).perm List.perm_middle
    · next e c₁ hnext =>
      cases hrest : readWithin budget (recover c₁) with
      | mk body' rest =>
        rw [hrest] at hread
        cases hread

/-- **Numbers.** The numbers of a program that was read are those that were handed out, and its
nodes are made as they should be. -/
theorem Program.read_numbers {source : List UInt8} {p : Program}
    (h : Program.read source = .ok p) :
    (p.nodes.filterMap exprIndex?).Perm (List.range p.exprCount) ∧
      (p.nodes.filterMap functionIndex?).Perm (List.range p.functionCount) ∧
      (p.nodes.filterMap classIndex?).Perm (List.range p.classCount) ∧
      ∀ n ∈ p.nodes, n.Everywhere IsMade := by
  unfold read ofTokens at h
  dsimp only at h
  cases hread : Parser.readWithin (Cursor.ofTokens (Lexer.tokens source)).tokens
      (Cursor.ofTokens (Lexer.tokens source)) with
  | mk body rest =>
    obtain ⟨errors, c⟩ := rest
    rw [hread] at h
    cases errors with
    | cons e errors => cases h
    | nil =>
      cases h
      -- at the first token nothing has been numbered yet
      have hstart : (Cursor.ofTokens (Lexer.tokens source)).Tracks [] :=
        ⟨.nil, .nil, .nil, fun n hn => absurd hn List.not_mem_nil⟩
      obtain ⟨hexprs, hfunctions, hclasses, hmade⟩ := Parser.readWithin_tracks _ hstart hread
      rw [List.append_nil] at hexprs hfunctions hclasses hmade
      refine ⟨hexprs, hfunctions, hclasses, fun n hn => ?_⟩
      obtain ⟨top, htop, hn⟩ := List.mem_flatMap.mp hn
      exact (hmade top htop).of_mem hn

/-- In a program that was read no two expressions have the same number, and all are proper. -/
theorem Program.read_tracks {source : List UInt8} {p : Program} (h : Program.read source = .ok p) :
    ((stmtsNodes p.body).map (·.id)).Nodup ∧ ∀ e ∈ stmtsNodes p.body, e.form.IsProper := by
  obtain ⟨hexprs, -, -, hmade⟩ := read_numbers h
  have hnodes : stmtsNodes p.body = p.nodes.filterMap expr? := by
    rw [stmtsNodes_eq, Program.nodes, List.filterMap_flatMap]
    exact List.flatMap_congr fun n _ => n.exprs_eq_filterMap
  refine ⟨?_, fun e he => ?_⟩
  · -- the numbers of the nodes are those of the expressions, each once
    have hindices : p.nodes.filterMap exprIndex? =
        ((stmtsNodes p.body).map (·.id)).map (·.index) := by
      rw [hnodes, List.map_filterMap, List.map_filterMap]
      refine List.filterMap_congr fun n _ => ?_
      cases n <;> rfl
    rw [hindices] at hexprs
    exact (hexprs.nodup_iff.mpr List.nodup_range).of_map _
  · rw [hnodes] at he
    obtain ⟨n, hn, hexpr⟩ := List.mem_filterMap.mp he
    cases n <;> cases hexpr
    exact (hmade _ hn).here.1

end Enclave
