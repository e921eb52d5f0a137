import Enclave.Proofs.Syntax.Alike

/-!
# Programs up to regions

No parser of the grammar looks at regions: at two cursors at which the same can be seen, it finds
trees that are the same without their regions, or the same fault (`Level.isPlaceless_ofRoom`). Nor
does what goes on behind an error. So what is read is the same up to regions for any two rows of
tokens that look the same, comments aside (`Program.ofTokens_unplaced`).
-/

namespace Enclave

open Enclave.Parser (Alike)

/-- The parsers of the level do not look at regions. -/
structure Level.IsPlaceless (level : Level) : Prop where
  assignment : Alike Expr.unplaced level.assignment level.assignment
  unary : Alike Expr.unplaced level.unary level.unary
  primary : Alike Expr.unplaced level.primary level.primary
  statement : Alike Stmt.unplaced level.statement level.statement

/-- What is to be seen of a class body. -/
def Parser.ClassBody.unplaced (body : ClassBody) : Option FunctionDef × List Member :=
  (constructorUnplaced body.constructor, membersUnplaced body.members)

/-- What is to be seen of what follows a connective. -/
def Parser.RightSide.unplaced : RightSide → RightSide
  | .operand e => .operand e.unplaced
  | .whole e => .whole e.unplaced

/-- The word with which an accessor begins is no matter of its place. -/
theorem Accessor.keyword_unplaced (a : Accessor) : a.unplaced.keyword = a.keyword := by
  cases a <;> rfl

/-- Lists are read from the front, so what has just been read comes last. -/
theorem exprsUnplaced_concat (es : List Expr) (e : Expr) :
    exprsUnplaced (es ++ [e]) = exprsUnplaced es ++ [e.unplaced] := by
  simp [exprsUnplaced_eq]

theorem propertiesUnplaced_concat (ps : List Property) (p : Property) :
    propertiesUnplaced (ps ++ [p]) = propertiesUnplaced ps ++ [p.unplaced] := by
  simp [propertiesUnplaced_eq]

theorem membersUnplaced_concat (members : List Member) (m : Member) :
    membersUnplaced (members ++ [m]) = membersUnplaced members ++ [m.unplaced] := by
  simp [membersUnplaced_eq]

/-- Statements are collected the other way round. -/
theorem stmtsUnplaced_reverse (body : List Stmt) :
    stmtsUnplaced body.reverse = (stmtsUnplaced body).reverse := by
  simp [stmtsUnplaced_eq]

namespace Parser

/-! ### Lists and names -/

/-- Parameters are names, which have no place. -/
theorem alike_params : Alike id params params := by
  refine (Alike.expectMark _).bind fun _ _ _ => Alike.bindSame ?_ fun names =>
    (Alike.expectMark _).bind fun _ _ _ => .pure rfl
  refine Alike.repeatStep id (fun names _ hnames => ?_) rfl
  cases hnames
  refine (Alike.isAtMark _).bindSame fun _ => .ite (fun _ => .pure rfl) fun _ => ?_
  refine Alike.expectIdentifier.bindNamed fun name span span' => .guarded Iff.rfl ?_
  exact (Alike.skipMark _).bindSame fun _ => .ite (fun _ => .pure rfl) fun _ => .pure rfl

/-- So is the name of a function or class, and whether it may be missing depends on the next token.
-/
theorem alike_definedName (missing : Expectation) (isRequired : Bool) :
    Alike id (definedName missing isRequired) (definedName missing isRequired) := by
  refine Alike.peek.bindSame fun kind => ?_
  split
  · exact Alike.expectIdentifier.bindNamed fun _ _ _ => .pure rfl
  · exact .ite (fun _ => .unexpected _) fun _ => .pure rfl

theorem alike_propertyName : Alike id propertyName propertyName := by
  refine Alike.peek.bindSame fun kind => ?_
  split
  · exact Alike.next.bind fun _ _ _ => .pure rfl
  · exact Alike.next.bind fun _ _ _ => .pure rfl
  · exact Alike.expectPropertyName.bindNamed fun _ _ _ => .pure rfl

section Deeper

variable {deeper : Level} (h : deeper.IsPlaceless)
include h

/-- The parsers of one level deeper are alike by assumption. -/
theorem alike_statement : Alike Stmt.unplaced (statement deeper) (statement deeper) := by
  refine h.statement.bind fun s s' hs => .guarded ?_ (.pure hs)
  rw [← s.height_unplaced, hs, s'.height_unplaced]

/-- A block is statements up to its bracket. -/
theorem alike_block : Alike stmtsUnplaced (block deeper) (block deeper) := by
  refine (Alike.expectMark _).bind fun _ _ _ => ?_
  refine Alike.repeatStep stmtsUnplaced (fun body body' hbody => ?_) rfl
  refine (Alike.isAtMark _).bindSame fun _ => .ite (fun _ => ?_) fun _ =>
    Alike.isAtEnd.bindSame fun _ => .ite (fun _ => .unexpected _) fun _ => ?_
  · refine Alike.next.bind fun _ _ _ => .pure (congrArg Step.done ?_)
    rw [stmtsUnplaced_reverse, stmtsUnplaced_reverse, hbody]
  · exact (alike_statement h).bind fun s s' hs => .pure
      (congrArg Step.again (congrArg₂ List.cons hs hbody))

theorem alike_args : Alike exprsUnplaced (args deeper) (args deeper) := by
  refine (Alike.expectMark _).bind fun _ _ _ => Alike.bind ?_ fun es es' hes =>
    (Alike.expectMark _).bind fun _ _ _ => .pure hes
  -- an argument more keeps the lists alike
  refine Alike.repeatStep exprsUnplaced (fun es es' hes => ?_) rfl
  refine (Alike.isAtMark _).bindSame fun _ => .ite (fun _ => .pure (congrArg Step.done hes))
    fun _ => h.assignment.bind fun e e' he => ?_
  have hmore : exprsUnplaced (es ++ [e]) = exprsUnplaced (es' ++ [e']) := by
    rw [exprsUnplaced_concat, exprsUnplaced_concat, hes, he]
  exact (Alike.skipMark _).bindSame fun _ =>
    .ite (fun _ => .pure (congrArg Step.again hmore)) fun _ => .pure (congrArg Step.done hmore)

/-! ### Functions and classes -/

/-- Behind its name a function is read in the same way wherever it began. -/
theorem alike_functionRest (name : Option String) (kind : FunctionKind) (start start' : Span) :
    Alike FunctionDef.unplaced (functionRest deeper name kind start)
      (functionRest deeper name kind start') :=
  alike_params.bindSame fun params => (alike_block h).bind fun _ _ hbody =>
    Alike.lastSpan.bind fun _ _ _ => .newFunction hbody name kind params _ _

/-- Functions are alike with their names and parameters. -/
theorem alike_functionDef (isNameRequired : Bool) :
    Alike FunctionDef.unplaced (functionDef deeper isNameRequired)
      (functionDef deeper isNameRequired) :=
  (Alike.expectKeyword _).bind fun _ _ _ => (alike_definedName _ _).bindSame fun name =>
    alike_functionRest h name .plain _ _

omit h in
/-- A node of which the same is to be seen, in a loop. -/
theorem alike_again {form form' : ExprForm} (hform : form.unplaced = form'.unplaced)
    (span span' : Span) :
    Alike (Step.map Expr.unplaced Expr.unplaced) (do return .again (← newExpr form span))
      (do return .again (← newExpr form' span')) :=
  (Alike.newExpr hform span span').bind fun _ _ he => .pure (congrArg Step.again he)

/-- One step of a chain of members, indices and calls. -/
theorem alike_postfixStep (e e' : Expr) (he : e.unplaced = e'.unplaced) :
    Alike (Step.map Expr.unplaced Expr.unplaced) (postfixStep deeper e)
      (postfixStep deeper e') := by
  refine Alike.peek.bindSame fun kind => ?_
  -- by the next token, which is of one kind on both sides
  split
  · refine Alike.next.bind fun _ _ _ => Alike.expectPropertyName.bindNamed fun name _ _ => ?_
    refine alike_again ?_ _ _
    exact congrArg (ExprForm.member · name) he
  · refine Alike.next.bind fun _ _ _ => h.assignment.bind fun key key' hkey =>
      (Alike.expectMark _).bind fun _ _ _ => ?_
    refine alike_again ?_ _ _
    exact congrArg₂ ExprForm.index he hkey
  · refine (alike_args h).bind fun args args' hargs => Alike.lastSpan.bind fun _ _ _ => ?_
    refine alike_again ?_ _ _
    exact congrArg₂ ExprForm.call he hargs
  · exact .pure (congrArg Step.done he)

/-- And so the whole chain. -/
theorem alike_postfixTail {e e' : Expr} (he : e.unplaced = e'.unplaced) :
    Alike Expr.unplaced (postfixTail deeper e) (postfixTail deeper e') :=
  .repeatStep Expr.unplaced (alike_postfixStep h) he

/-- A private or static member is a field or a method, by what comes behind its name. -/
theorem alike_declaredMember (isPrivate : Bool) :
    Alike Member.unplaced (declaredMember deeper isPrivate) (declaredMember deeper isPrivate) := by
  refine Alike.next.bind fun t t' _ => Alike.expectPropertyName.bindNamed fun name _ _ => ?_
  -- two members alike in name and form differ in their spans alone
  have hmember : ∀ {form form' : MemberForm}, form.unplaced = form'.unplaced →
      Alike Member.unplaced (do return ⟨name, form, t.span.merge (← lastSpan)⟩)
        (do return ⟨name, form', t'.span.merge (← lastSpan)⟩) := fun hform =>
    Alike.lastSpan.bind fun _ _ _ => .pure (by rw [Member.unplaced, Member.unplaced, hform])
  refine (Alike.isAtMark _).bindSame fun _ => .ite (fun _ => ?_) fun _ => ?_
  · refine .ite (fun _ => ?_) fun _ => ?_
    · exact (alike_functionRest h _ _ _ _).bind fun f f' hf =>
        hmember (congrArg MemberForm.privateMethod hf)
    · exact (alike_functionRest h _ _ _ _).bind fun f f' hf =>
        hmember (congrArg MemberForm.staticMethod hf)
  · -- the initializers, when there are any, are alike too
    have hfield : ∀ {init init' : Option Expr}, optionalUnplaced init = optionalUnplaced init' →
        Alike Member.unplaced
          (do
            endStatement
            if isPrivate then return ⟨name, .privateField init, t.span.merge (← lastSpan)⟩
            else return ⟨name, .staticField init, t.span.merge (← lastSpan)⟩)
          (do
            endStatement
            if isPrivate then return ⟨name, .privateField init', t'.span.merge (← lastSpan)⟩
            else return ⟨name, .staticField init', t'.span.merge (← lastSpan)⟩) := fun hinit =>
      Alike.endStatement.bindSame fun _ => .ite
        (fun _ => hmember (congrArg MemberForm.privateField hinit))
        fun _ => hmember (congrArg MemberForm.staticField hinit)
    refine (Alike.skipMark _).bindSame fun _ => .ite (fun _ => ?_) fun _ => hfield rfl
    have hinitializer : Alike optionalUnplaced (some <$> expression deeper)
        (some <$> expression deeper) := h.assignment.map fun _ _ he => congrArg some he
    exact hinitializer.bind fun _ _ => hfield

/-- A member without a word in front is a method or the constructor. -/
theorem alike_publicMethod :
    Alike Member.unplaced (publicMethod deeper) (publicMethod deeper) :=
  Alike.expectPropertyName.bindNamed fun name _ _ =>
    (alike_functionRest h _ _ _ _).bind fun f f' hf => Alike.lastSpan.bind fun _ _ _ =>
      .pure (by rw [Member.unplaced, Member.unplaced, MemberForm.unplaced, MemberForm.unplaced, hf])

omit h in
/-- One more member of a class. -/
theorem alike_member {p : Parser Member} (hp : Alike Member.unplaced p p)
    {body body' : ClassBody} (hbody : body.unplaced = body'.unplaced) :
    Alike (Step.map ClassBody.unplaced ClassBody.unplaced)
      (do
        let member ← p
        return .again { body with members := body.members ++ [member] })
      (do
        let member ← p
        return .again { body' with members := body'.members ++ [member] }) := by
  obtain ⟨hconstructor, hmembers⟩ := Prod.mk.inj hbody
  refine hp.bind fun m m' hm => .pure (congrArg Step.again (Prod.ext hconstructor ?_))
  change membersUnplaced (body.members ++ [m]) = membersUnplaced (body'.members ++ [m'])
  rw [membersUnplaced_concat, membersUnplaced_concat, hmembers, hm]

/-- One member more keeps the bodies alike. -/
theorem alike_classStep (body body' : ClassBody) (hbody : body.unplaced = body'.unplaced) :
    Alike (Step.map ClassBody.unplaced ClassBody.unplaced) (classStep deeper body)
      (classStep deeper body') := by
  refine Alike.peek.bindSame fun kind => ?_
  -- the two bodies so far have a constructor both or neither
  obtain ⟨hconstructor, hmembers⟩ := Prod.mk.inj hbody
  split
  · exact Alike.next.bind fun _ _ _ => .pure (congrArg Step.done hbody)
  · exact Alike.next.bind fun _ _ _ => .pure (congrArg Step.again hbody)
  · exact .unexpected _
  · refine Alike.next.bind fun t t' _ => .guarded ?_ ?_
    · have hsome := congrArg Option.isSome hconstructor
      rw [constructorUnplaced_eq, constructorUnplaced_eq, Option.isSome_map, Option.isSome_map]
        at hsome
      rw [hsome]
    · exact (alike_functionRest h _ _ _ _).bind fun f f' hf => .pure
        (congrArg Step.again (Prod.ext (congrArg some hf) hmembers))
  · exact alike_member (alike_declaredMember h _) hbody
  · exact alike_member (alike_declaredMember h _) hbody
  · exact alike_member (alike_publicMethod h) hbody
  · exact alike_member (alike_publicMethod h) hbody
  · exact .unexpected _

/-- Classes are alike with their names, superclasses and bodies. -/
theorem alike_classDef (isNameRequired : Bool) :
    Alike ClassDef.unplaced (classDef deeper isNameRequired) (classDef deeper isNameRequired) := by
  refine (Alike.expectKeyword _).bind fun t t' _ => (alike_definedName _ _).bindSame fun name => ?_
  -- what follows the superclass is alike, with one or without
  have hrest : ∀ superclass superclass' : Option Expr,
      optionalUnplaced superclass = optionalUnplaced superclass' →
        Alike ClassDef.unplaced
          (do
            let _ ← expectMark .leftBrace
            let body ← classBody deeper
            newClass name superclass body.constructor body.members (t.span.merge (← lastSpan)))
          (do
            let _ ← expectMark .leftBrace
            let body ← classBody deeper
            newClass name superclass' body.constructor body.members
              (t'.span.merge (← lastSpan))) := by
    intro superclass superclass' hsuperclass
    have hbody : Alike ClassBody.unplaced (classBody deeper) (classBody deeper) :=
      .repeatStep ClassBody.unplaced (alike_classStep h) rfl
    refine (Alike.expectMark _).bind fun _ _ _ => hbody.bind fun body body' hbody =>
      Alike.lastSpan.bind fun _ _ _ => ?_
    obtain ⟨hconstructor, hmembers⟩ := Prod.mk.inj hbody
    exact .newClass hsuperclass hconstructor hmembers name _ _
  -- both see the keyword of a superclass, or neither does
  refine (Alike.isAtKeyword _).bindSame fun _ => .ite (fun _ => ?_) fun _ => hrest none none rfl
  refine Alike.next.bind fun _ _ _ => h.primary.bind fun e e' he => ?_
  have hsuperclass : Alike optionalUnplaced (some <$> postfixTail deeper e)
      (some <$> postfixTail deeper e') :=
    (alike_postfixTail h he).map fun _ _ he => congrArg some he
  exact hsuperclass.bind hrest

/-! ### Primary expressions -/

/-- The head of an accessor may have a target between brackets. -/
theorem alike_accessorHead :
    Alike Accessor.unplaced (accessorHead deeper) (accessorHead deeper) := by
  refine Alike.next.bind fun t t' ht => ?_
  rw [Token.kind_of_seen ht]
  refine .ite (fun _ => .pure rfl) fun _ => (Alike.skipMark _).bindSame fun _ =>
    .ite (fun _ => ?_) fun _ => .pure rfl
  exact h.assignment.bind fun _ _ htarget => (Alike.expectMark _).bind fun _ _ _ =>
    .pure (congrArg (Accessor.ofTarget default) htarget)

/-- What follows the head makes a slot of it: a name, or a key between brackets. -/
theorem alike_accessorMember? {a a' : Accessor} (ha : a.unplaced = a'.unplaced) :
    Alike optionalUnplaced (accessorMember? deeper a) (accessorMember? deeper a') := by
  refine Alike.peek.bindSame fun kind => ?_
  -- without either there is no slot, on both sides
  split
  · refine Alike.next.bind fun _ _ _ => Alike.expectPropertyName.bindNamed fun name _ _ => ?_
    refine (Alike.newExpr ?_ _ _).map fun _ _ he => congrArg some he
    exact congrArg (ExprForm.slot · (.named name)) ha
  · refine Alike.next.bind fun _ _ _ => h.assignment.bind fun key key' hkey =>
      (Alike.expectMark _).bind fun _ _ _ => ?_
    refine (Alike.newExpr ?_ _ _).map fun _ _ he => congrArg some he
    exact congrArg₂ ExprForm.slot ha (congrArg SlotKey.computed hkey)
  · exact .pure rfl

omit h in
/-- Whether or not there is an expression, the same is seen of it. -/
theorem Alike.bindOptional {β γ : Type} {view : β → γ} {p p' : Parser (Option Expr)}
    {f f' : Option Expr → Parser β} (hp : Alike optionalUnplaced p p')
    (hnone : Alike view (f none) (f' none))
    (hsome : ∀ e e', e.unplaced = e'.unplaced → Alike view (f (some e)) (f' (some e'))) :
    Alike view (p >>= f) (p' >>= f') := by
  refine hp.bind fun e? e?' he => ?_
  -- of two that are alike, both are there or neither is
  cases e? with
  | none =>
    cases e?' with
    | none => exact hnone
    | some e' => cases he
  | some e =>
    cases e?' with
    | none => cases he
    | some e' => exact hsome e e' (Option.some.inj he)

/-- A slot is a head and a key. -/
theorem alike_slot : Alike Expr.unplaced (slot deeper) (slot deeper) := by
  refine (alike_accessorHead h).bind fun a a' ha => (alike_accessorMember? h ha).bindOptional ?_
    fun e e' he => .pure he
  have hkeyword : a.keyword = a'.keyword := by
    rw [← a.keyword_unplaced, ha, a'.keyword_unplaced]
  dsimp only
  rw [hkeyword]
  exact Alike.peek.bindSame fun _ => Alike.peekSpan.bind fun _ _ _ => .fail _ _ _

/-- The properties of a literal are read one by one. -/
theorem alike_objectLiteral :
    Alike Expr.unplaced (objectLiteral deeper) (objectLiteral deeper) := by
  refine (Alike.expectMark _).bind fun _ _ _ => Alike.bind ?_
    fun ps ps' (hps : propertiesUnplaced ps = propertiesUnplaced ps') =>
      (Alike.expectMark _).bind fun _ _ _ => .newExpr ?_ _ _
  case refine_2 => exact congrArg ExprForm.object hps
  -- a property more, with its name and its value, keeps the lists alike
  refine Alike.repeatStep propertiesUnplaced (fun ps ps' hps => ?_) rfl
  refine (Alike.isAtMark _).bindSame fun _ => .ite (fun _ => .pure (congrArg Step.done hps))
    fun _ => alike_propertyName.bindSame fun name => (Alike.expectMark _).bind fun _ _ _ =>
      h.assignment.bind fun e e' he => ?_
  have hmore :
      propertiesUnplaced (ps ++ [⟨name, e⟩]) = propertiesUnplaced (ps' ++ [⟨name, e'⟩]) := by
    rw [propertiesUnplaced_concat, propertiesUnplaced_concat, hps, Property.unplaced,
      Property.unplaced, he]
  exact (Alike.skipMark _).bindSame fun _ =>
    .ite (fun _ => .pure (congrArg Step.again hmore)) fun _ => .pure (congrArg Step.done hmore)

/-- What is constructed may be a member of something, but is not called. -/
theorem alike_newCalleeStep (e e' : Expr) (he : e.unplaced = e'.unplaced) :
    Alike (Step.map Expr.unplaced Expr.unplaced) (newCalleeStep deeper e)
      (newCalleeStep deeper e') := by
  refine Alike.peek.bindSame fun kind => ?_
  -- A name, a key, or nothing more.
  split
  · refine Alike.next.bind fun _ _ _ => Alike.expectPropertyName.bindNamed fun name _ _ => ?_
    refine alike_again ?_ _ _
    exact congrArg (ExprForm.member · name) he
  · refine Alike.next.bind fun _ _ _ => h.assignment.bind fun key key' hkey =>
      (Alike.expectMark _).bind fun _ _ _ => ?_
    refine alike_again ?_ _ _
    exact congrArg₂ ExprForm.index he hkey
  · exact .pure (congrArg Step.done he)

/-- And so with a chain of members. -/
theorem alike_newCalleeTail {e e' : Expr} (he : e.unplaced = e'.unplaced) :
    Alike Expr.unplaced (newCalleeTail deeper e) (newCalleeTail deeper e') :=
  .repeatStep Expr.unplaced (alike_newCalleeStep h) he

/-- A construction may do without arguments. -/
theorem alike_construction :
    Alike Expr.unplaced (construction deeper) (construction deeper) := by
  refine Alike.next.bind fun t t' _ => h.primary.bind fun e e' he =>
    (alike_newCalleeTail h he).bind fun callee callee' hcallee => ?_
  have hrest : ∀ args args' : List Expr, exprsUnplaced args = exprsUnplaced args' →
      Alike Expr.unplaced (do newExpr (.new callee args) (t.span.merge (← lastSpan)))
        (do newExpr (.new callee' args') (t'.span.merge (← lastSpan))) := fun _ _ hargs =>
    Alike.lastSpan.bind fun _ _ _ => .newExpr (by exact congrArg₂ ExprForm.new hcallee hargs) _ _
  exact (Alike.isAtMark _).bindSame fun _ =>
    .ite (fun _ => (alike_args h).bind hrest) fun _ => hrest [] [] rfl

/-- Behind the word for the parent there are arguments or a name. -/
theorem alike_superForm : Alike ExprForm.unplaced (superForm deeper) (superForm deeper) := by
  refine Alike.next.bind fun _ _ _ => (Alike.isAtMark _).bindSame fun _ => .ite (fun _ => ?_)
    fun _ => (Alike.skipMark _).bindSame fun _ => .ite (fun _ => ?_) fun _ => .unexpected _
  · exact (alike_args h).bind fun _ _ hargs => .pure (congrArg ExprForm.superCall hargs)
  · exact Alike.expectPropertyName.bindNamed fun _ _ _ => .pure rfl

/-- What an expression begins with is found by the next token. -/
theorem alike_primary : Alike Expr.unplaced (primary deeper) (primary deeper) := by
  refine Alike.peekSpan.bind fun start start' _ => Alike.peek.bindSame fun kind => ?_
  -- a node is made with the span read so far, which is all that may differ
  have hnode : ∀ {form form' : ExprForm}, form.unplaced = form'.unplaced →
      Alike Expr.unplaced (do newExpr form (start.merge (← lastSpan)))
        (do newExpr form' (start'.merge (← lastSpan))) := fun hform =>
    Alike.lastSpan.bind fun _ _ _ => .newExpr hform _ _
  have hliteral : ∀ form : ExprForm, Alike Expr.unplaced
      (do
        let _ ← next
        newExpr form (start.merge (← lastSpan)))
      (do
        let _ ← next
        newExpr form (start'.merge (← lastSpan))) := fun _ =>
    Alike.next.bind fun _ _ _ => hnode rfl
  split
  · exact hliteral _
  · exact hliteral _
  · exact hliteral _
  · exact hliteral _
  · exact hliteral _
  · exact hliteral _
  · exact hliteral _
  · exact hliteral _
  · -- after the literals, the forms with parts of their own
    exact (alike_functionDef h _).bind fun _ _ hf => hnode (congrArg ExprForm.functionDef hf)
  · exact (alike_classDef h _).bind fun _ _ hc => hnode (congrArg ExprForm.classDef hc)
  · exact alike_construction h
  · exact alike_slot h
  · exact alike_slot h
  · exact (alike_superForm h).bind fun _ _ => hnode
  · exact Alike.next.bind fun _ _ _ => h.assignment.bind fun _ _ he =>
      (Alike.expectMark _).bind fun _ _ _ => .pure he
  · exact alike_objectLiteral h
  · exact .unexpected _

/-! ### Operators -/

/-- An operand is what begins it and the chain behind. -/
theorem alike_postfixed : Alike Expr.unplaced (postfixed deeper) (postfixed deeper) :=
  (alike_primary h).bind fun _ _ => alike_postfixTail h

/-- An operator in front is applied to an operand. -/
theorem alike_unary : Alike Expr.unplaced (unary deeper) (unary deeper) := by
  refine Alike.peek.bindSame fun kind => ?_
  split
  · exact alike_postfixed h
  · next op _ =>
    refine Alike.next.bind fun _ _ _ => h.unary.bind fun operand operand' hoperand =>
      -- only a member may be deleted, and being one is no matter of places
      .guarded ?_ (.newExpr ?_ _ _)
    · rw [← ExprForm.isMember_unplaced, ← Expr.form_unplaced, hoperand, Expr.form_unplaced,
        ExprForm.isMember_unplaced]
    · exact congrArg (ExprForm.unary op) hoperand

omit h in
/-- Two operands with an operator between them become one expression. -/
theorem alike_join (connective : Connective) {left left' right right' : Expr}
    (hleft : left.unplaced = left'.unplaced) (hright : right.unplaced = right'.unplaced) :
    Alike Expr.unplaced (join connective left right) (join connective left' right') := by
  cases connective with
  | binary op =>
    refine .newExpr ?_ _ _
    exact congrArg₂ (ExprForm.binary op) hleft hright
  | logical op =>
    refine .newExpr ?_ _ _
    exact congrArg₂ (ExprForm.logical op) hleft hright

omit h in
/-- Whether an accessor begins depends on one or two tokens. -/
theorem alike_isAtAccessor : Alike id isAtAccessor isAtAccessor := by
  refine Alike.peek.bindSame fun kind => ?_
  split <;> exact .pure rfl

/-- Behind the word that asks for a key there may be an accessor, which is not taken for an operand
unless a key follows. -/
theorem alike_rightSide (connective : Connective) {left left' : Expr}
    (hleft : left.unplaced = left'.unplaced) :
    Alike RightSide.unplaced (rightSide deeper connective left)
      (rightSide deeper connective left') := by
  have hunary : Alike RightSide.unplaced (do return .operand (← unary deeper))
      (do return .operand (← unary deeper)) :=
    (alike_unary h).bind fun _ _ he => .pure (congrArg RightSide.operand he)
  -- only that operator looks out for an accessor
  unfold rightSide
  split
  · refine alike_isAtAccessor.bindSame fun _ => .ite (fun _ => ?_) fun _ => hunary
    refine (alike_accessorHead h).bind fun a a' ha =>
      (alike_accessorMember? h ha).bindOptional ?_ fun e e' he => ?_
    · refine (Alike.newExpr ?_ _ _).bind fun _ _ he => .pure (congrArg RightSide.whole he)
      exact congrArg₂ ExprForm.hasSlot hleft ha
    · exact (alike_postfixTail h he).bind fun _ _ he => .pure (congrArg RightSide.operand he)
  · exact hunary

/-- One operator more, as long as it binds tightly enough. -/
theorem alike_binaryStep {tail : Nat → Expr → Parser Expr}
    (htail : ∀ least {e e' : Expr}, e.unplaced = e'.unplaced →
      Alike Expr.unplaced (tail least e) (tail least e'))
    (least : Nat) (left left' : Expr) (hleft : left.unplaced = left'.unplaced) :
    Alike (Step.map Expr.unplaced Expr.unplaced) (binaryStep deeper tail least left)
      (binaryStep deeper tail least left') := by
  refine Alike.peek.bindSame fun kind => ?_
  cases connective? kind with
  | none => exact .pure (congrArg Step.done hleft)
  | some found =>
    obtain ⟨connective, tier⟩ := found
    refine .ite (fun _ => .pure (congrArg Step.done hleft)) fun _ => Alike.next.bind fun _ _ _ =>
      (alike_rightSide h connective hleft).bind fun side side' hside => ?_
    -- alike, the two sides are both whole or both operands
    cases side with
    | whole e =>
      cases side' with
      | whole e' => exact .pure (congrArg Step.again (RightSide.whole.inj hside))
      | operand e' => cases hside
    | operand e =>
      cases side' with
      | whole e' => cases hside
      | operand e' =>
        exact (htail (tier + 1) (RightSide.operand.inj hside)).bind fun _ _ hright =>
          (alike_join connective hleft hright).bind fun _ _ he => .pure (congrArg Step.again he)

/-- On the number of tiers, the tail of one tier reads those that bind more tightly. -/
theorem alike_binaryTail (tiers least : Nat) {left left' : Expr}
    (hleft : left.unplaced = left'.unplaced) :
    Alike Expr.unplaced (binaryTail deeper tiers least left)
      (binaryTail deeper tiers least left') := by
  induction tiers generalizing least left left' with
  | zero => exact .pure hleft
  | succ tiers ih => exact .repeatStep Expr.unplaced (alike_binaryStep h ih least) hleft

/-- An assignment takes the whole of the right side for its value. -/
theorem alike_assignment : Alike Expr.unplaced (assignment deeper) (assignment deeper) := by
  have hbinary : Alike Expr.unplaced (binary deeper) (binary deeper) :=
    (alike_unary h).bind fun _ _ => alike_binaryTail h _ _
  -- what is assigned to was read as an operand, so its form is checked afterwards
  refine hbinary.bind fun target target' htarget => (Alike.isAtMark _).bindSame fun _ =>
    .ite (fun _ => ?_) fun _ => .pure htarget
  refine Alike.next.bind fun _ _ _ => .guarded ?_ (h.assignment.bind fun _ _ hvalue =>
    .newExpr ?_ _ _)
  · rw [← ExprForm.isAssignable_unplaced, ← Expr.form_unplaced, htarget, Expr.form_unplaced,
      ExprForm.isAssignable_unplaced]
  · exact congrArg₂ ExprForm.assign htarget hvalue

/-! ### Statements -/

omit h in
/-- An expression that may be missing. -/
theorem alike_some {p : Parser Expr} (hp : Alike Expr.unplaced p p) :
    Alike optionalUnplaced (some <$> p) (some <$> p) := hp.map fun _ _ he => congrArg some he

/-- A constant must be given a value, a variable need not. -/
theorem alike_declaration (isMutable : Bool) :
    Alike StmtForm.unplaced (declaration deeper isMutable) (declaration deeper isMutable) := by
  refine Alike.next.bind fun _ _ _ => Alike.expectIdentifier.bindNamed fun name _ _ => ?_
  -- With an initializer or without, the statement ends alike.
  have hrest : ∀ init init' : Option Expr, optionalUnplaced init = optionalUnplaced init' →
      Alike StmtForm.unplaced
        (do
          endStatement
          return .declare name isMutable init)
        (do
          endStatement
          return .declare name isMutable init') := fun _ _ hinit =>
    Alike.endStatement.bindSame fun _ => .pure (congrArg (StmtForm.declare name isMutable) hinit)
  refine (Alike.skipMark _).bindSame fun _ => .ite (fun _ => ?_) fun _ =>
    .ite (fun _ => hrest none none rfl) fun _ => ?_
  · exact (alike_some h.assignment).bind hrest
  · exact fun _ _ hlike => .error rfl hlike

/-- A condition stands between brackets. -/
theorem alike_condition : Alike Expr.unplaced (condition deeper) (condition deeper) :=
  (Alike.expectMark _).bind fun _ _ _ => h.assignment.bind fun _ _ he =>
    (Alike.expectMark _).bind fun _ _ _ => .pure he

/-- The second branch belongs to the condition read last. -/
theorem alike_conditional :
    Alike StmtForm.unplaced (conditional deeper) (conditional deeper) := by
  refine Alike.next.bind fun _ _ _ => (alike_condition h).bind fun test test' htest =>
    (alike_statement h).bind fun yes yes' hyes => (Alike.isAtKeyword _).bindSame fun _ =>
      .ite (fun _ => Alike.next.bind fun _ _ _ => ?_) fun _ => .pure ?_
  · have hno : Alike (Option.map Stmt.unplaced) (some <$> statement deeper)
        (some <$> statement deeper) := (alike_statement h).map fun _ _ hs => congrArg some hs
    refine hno.bind fun no no' hno => .pure ?_
    rw [StmtForm.cond_unplaced, StmtForm.cond_unplaced, htest, hyes, hno]
  · rw [StmtForm.cond_unplaced, StmtForm.cond_unplaced, htest, hyes]

/-- A loop is a condition and a statement. -/
theorem alike_whileLoop : Alike StmtForm.unplaced (whileLoop deeper) (whileLoop deeper) :=
  Alike.next.bind fun _ _ _ => (alike_condition h).bind fun _ _ htest =>
    (alike_statement h).bind fun _ _ hs => .pure (congrArg₂ StmtForm.loop htest hs)

/-- A value may follow on the way back. -/
theorem alike_returnStatement :
    Alike StmtForm.unplaced (returnStatement deeper) (returnStatement deeper) := by
  have hrest : ∀ value value' : Option Expr, optionalUnplaced value = optionalUnplaced value' →
      Alike StmtForm.unplaced
        (do
          endStatement
          return .ret value)
        (do
          endStatement
          return .ret value') := fun _ _ hvalue =>
    Alike.endStatement.bindSame fun _ => .pure (congrArg StmtForm.ret hvalue)
  refine Alike.next.bind fun _ _ _ => Alike.peek.bindSame fun kind => ?_
  -- nothing follows before a semicolon, a bracket or the end of the input
  split
  · exact hrest none none rfl
  · exact hrest none none rfl
  · exact hrest none none rfl
  · exact (alike_some h.assignment).bind hrest

/-- An error that is thrown has a value. -/
theorem alike_throwStatement :
    Alike StmtForm.unplaced (throwStatement deeper) (throwStatement deeper) :=
  Alike.next.bind fun _ _ _ => h.assignment.bind fun _ _ he =>
    Alike.endStatement.bindSame fun _ => .pure (congrArg StmtForm.raise he)

/-- A block is tried, and a handler has a name for the error. -/
theorem alike_tryStatement :
    Alike StmtForm.unplaced (tryStatement deeper) (tryStatement deeper) := by
  refine Alike.next.bind fun _ _ _ => (alike_block h).bind fun body body' hbody =>
    (Alike.expectKeyword _).bind fun _ _ _ => (Alike.expectMark _).bind fun _ _ _ =>
      Alike.expectIdentifier.bindNamed fun param _ _ => (Alike.expectMark _).bind fun _ _ _ =>
        (alike_block h).bind fun handler handler' hhandler => .pure ?_
  exact congrArg₂ (StmtForm.attempt · param ·) hbody hhandler

/-- Everything else is an expression. -/
theorem alike_expressionStatement :
    Alike StmtForm.unplaced (expressionStatement deeper) (expressionStatement deeper) :=
  h.assignment.bind fun _ _ he => Alike.endStatement.bindSame fun _ =>
    .pure (congrArg StmtForm.expr he)

/-- Statements are told apart by the token that they begin with. -/
theorem alike_statementForm :
    Alike StmtForm.unplaced (statementForm deeper) (statementForm deeper) := by
  refine Alike.peek.bindSame fun kind => ?_
  -- the kinds of statements, in this order
  split
  · exact alike_declaration h true
  · exact alike_declaration h false
  · exact (alike_functionDef h true).bind fun _ _ hf => .pure (congrArg StmtForm.functionDef hf)
  · exact (alike_classDef h true).bind fun _ _ hc => .pure (congrArg StmtForm.classDef hc)
  · exact alike_conditional h
  · exact alike_whileLoop h
  · exact alike_returnStatement h
  · exact alike_throwStatement h
  · exact alike_tryStatement h
  · exact (alike_block h).bind fun _ _ hbody => .pure (congrArg StmtForm.block hbody)
  · exact Alike.next.bind fun _ _ _ => .pure rfl
  · exact alike_expressionStatement h

/-- Places are kept with the statement around a form, and nowhere else. -/
theorem alike_statementBody :
    Alike Stmt.unplaced (statementBody deeper) (statementBody deeper) :=
  Alike.peekSpan.bind fun _ _ _ => (alike_statementForm h).bind fun _ _ hform =>
    Alike.lastSpan.bind fun _ _ _ => .pure (by rw [Stmt.unplaced, Stmt.unplaced, hform])

end Deeper

end Parser

/-! ### Levels -/

/-- A level above one whose parsers are alike is like that, too. -/
theorem Level.IsPlaceless.over {deeper : Level} (h : deeper.IsPlaceless) :
    (Level.over deeper).IsPlaceless where
  assignment := Parser.alike_assignment h
  unary := Parser.alike_unary h
  primary := Parser.alike_primary h
  statement := Parser.alike_statementBody h

/-- At the limit all parsers fail in the same way. -/
theorem Level.isPlaceless_full : Level.full.IsPlaceless := by
  have htooDeep : ∀ {α γ : Type} (view : α → γ), Alike view
      (do Parser.fail .nestedTooDeeply (← Parser.peekSpan))
      (do Parser.fail .nestedTooDeeply (← Parser.peekSpan)) := fun _ =>
    Alike.peekSpan.bind fun _ _ _ => .fail _ _ _
  exact ⟨htooDeep _, htooDeep _, htooDeep _, htooDeep _⟩

/-- **The grammar does not look at regions.** -/
theorem Level.isPlaceless_ofRoom (room : Nat) : (Level.ofRoom room).IsPlaceless := by
  induction room with
  | zero => exact isPlaceless_full
  | succ room ih => exact ih.over

/-! ### Programs -/

namespace Parser

variable {c c' : Cursor}

/-- Reading goes on in the same place. -/
theorem like_recover (h : c.Like c') : (recover c).Like (recover c') := by
  -- where to go on is told by the kinds of the tokens left, which are alike
  have htokens : ∀ (tokens tokens' : List Token) (last last' : Span),
      tokens.map Token.seen = tokens'.map Token.seen →
        (synchronize last tokens).1.map Token.seen =
          (synchronize last' tokens').1.map Token.seen := by
    intro tokens
    induction tokens with
    | nil =>
      intro tokens' last last' hsame
      rw [List.map_eq_nil_iff.mp hsame.symm]
      rfl
    | cons t rest ih =>
      intro tokens' last last' hsame
      obtain ⟨t', rest', rfl, ht, hrest⟩ := List.map_eq_cons_iff.mp hsame.symm
      unfold synchronize
      rw [Token.kind_of_seen ht]
      split <;> first
        | exact hsame
        | exact hrest.symm
        | exact ih _ _ _ hrest.symm
  exact ⟨htokens _ _ _ _ h.tokens, h.finished, h.exprs, h.functions, h.classes⟩

/-- There is a statement to be read unless the input has ended. -/
theorem nextStatement?_of_tokens {t : Token} {rest : List Token} (h : c.tokens = t :: rest) :
    nextStatement? c = if c.finished || t.isEndOfInput then none else some (topStatement c) := by
  unfold nextStatement?
  rw [h]
  cases c.finished <;> rfl

/-- Without tokens there is none. -/
theorem nextStatement?_of_nil (h : c.tokens = []) : nextStatement? c = none := by
  unfold nextStatement?
  rw [h]
  cases c.finished <;> rfl

/-- The next statements end in the same way, or both of them are missing. -/
inductive SameNext : Option (EStateM.Result SyntaxError Cursor Stmt) →
    Option (EStateM.Result SyntaxError Cursor Stmt) → Prop
  | none : SameNext none none
  | some {r r' : EStateM.Result SyntaxError Cursor Stmt}
    (outcome : SameOutcome Stmt.unplaced r r') : SameNext (some r) (some r')

/-- Cursors that are alike have a next statement both or neither. -/
theorem nextStatement?_like (h : c.Like c') : SameNext (nextStatement? c) (nextStatement? c') := by
  rcases h.cases with ⟨hc, hc'⟩ | ⟨t, t', rest, rest', hc, hc', ht, -⟩
  · rw [nextStatement?_of_nil hc, nextStatement?_of_nil hc']
    exact .none
  · -- the end of the input is seen in the same place
    have hend : t.isEndOfInput = t'.isEndOfInput := by
      rw [Token.isEndOfInput, Token.isEndOfInput, Token.kind_of_seen ht]
    rw [nextStatement?_of_tokens hc, nextStatement?_of_tokens hc', h.finished, hend]
    split
    · exact .none
    · exact .some (alike_statement (Level.isPlaceless_ofRoom maxNesting) c c' h)

/-- What is read of two sources is the same up to regions. -/
structure SameReading (r r' : List Stmt × List SyntaxError × Cursor) : Prop where
  body : stmtsUnplaced r.1 = stmtsUnplaced r'.1
  faults : r.2.1.map (·.fault) = r'.2.1.map (·.fault)
  cursor : r.2.2.Like r'.2.2

/-- So they are read alike to the end. -/
theorem readWithin_like {budget budget' : List Token} (hlength : budget.length = budget'.length)
    (h : c.Like c') : SameReading (readWithin budget c) (readWithin budget' c') := by
  induction budget generalizing budget' c c' with
  | nil =>
    rw [List.length_eq_zero_iff.mp hlength.symm]
    exact ⟨rfl, rfl, h⟩
  | cons t budget ih =>
    cases budget' with
    | nil => cases hlength
    | cons t' budget' =>
      -- the budgets are spent alike, a token for each statement or error
      have hrest := Nat.succ.inj hlength
      have hnext := nextStatement?_like h
      unfold readWithin
      generalize nextStatement? c = next, nextStatement? c' = next' at hnext
      cases hnext with
      | none => exact ⟨rfl, rfl, h⟩
      | some houtcome =>
        cases houtcome with
        | ok hs hlike =>
          obtain ⟨hbody, hfaults, hcursor⟩ := ih hrest hlike
          exact ⟨congrArg₂ List.cons hs hbody, hfaults, hcursor⟩
        | error hfault hlike =>
          -- reading goes on behind the error, at the same token
          obtain ⟨hbody, hfaults, hcursor⟩ := ih hrest (like_recover hlike)
          exact ⟨hbody, congrArg₂ List.cons hfault hfaults, hcursor⟩

end Parser

/-- What a reading gives, up to regions: the tree of the program, or all that is wrong. -/
def Program.withoutRegions (r : Except (List SyntaxError) Program) :
    Except (List SyntaxFault) Program :=
  match r with
  | .ok p => .ok p.unplaced
  | .error errors => .error (errors.map (·.fault))

/-- **Programs up to regions.** From tokens that look the same, comments aside, the same program is
read up to regions, or the same is wrong with both. -/
theorem Program.ofTokens_unplaced {tokens tokens' : List Token}
    (h : (tokens.filter (!·.isComment)).map Token.seen =
      (tokens'.filter (!·.isComment)).map Token.seen) :
    withoutRegions (ofTokens tokens) = withoutRegions (ofTokens tokens') := by
  have hlike : (Cursor.ofTokens tokens).Like (Cursor.ofTokens tokens') := ⟨h, rfl, rfl, rfl, rfl⟩
  obtain ⟨hbody, hfaults, hcursor⟩ := Parser.readWithin_like hlike.length hlike
  -- reading fails on both sides or on neither
  have hempty := congrArg List.isEmpty hfaults
  rw [List.isEmpty_map, List.isEmpty_map] at hempty
  unfold ofTokens
  dsimp only
  rw [hempty]
  split
  · have hsame : ∀ body body' : List Stmt, stmtsUnplaced body = stmtsUnplaced body' →
        ∀ exprs functions classes, (Program.mk body exprs functions classes).unplaced =
          (Program.mk body' exprs functions classes).unplaced := by
      intro body body' hsame exprs functions classes
      rw [unplaced, unplaced, hsame]
    rw [withoutRegions, withoutRegions, hcursor.exprs, hcursor.functions, hcursor.classes,
      hsame _ _ hbody]
  · exact congrArg Except.error hfaults

end Enclave
