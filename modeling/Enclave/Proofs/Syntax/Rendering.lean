import Enclave.Proofs.Syntax.Children
import Enclave.Proofs.Syntax.Printing
import Enclave.Proofs.Syntax.Stepping

/-!
# Rendered programs

No node is printed with a comment (`SyntaxNode.noComments_printed`), so what the reader sees of the
printed tokens, with any comments written among them, is all of them. `Program.rendered` is the
tokens themselves, each with its text.
-/

namespace Enclave

/-! ### Tokens -/

/-- There is no comment among the tokens. -/
def NoComments (tokens : List TokenKind) : Prop := ∀ k ∈ tokens, k.isComment = false

@[simp] theorem noComments_nil : NoComments [] := nofun

/-- There is no comment in a list when there is none at its head nor in its tail. -/
@[simp] theorem noComments_cons {k : TokenKind} {ks : List TokenKind} :
    NoComments (k :: ks) ↔ k.isComment = false ∧ NoComments ks := List.forall_mem_cons

/-- There is no comment in two lists together when there is none in either. -/
@[simp] theorem noComments_append {ks ts : List TokenKind} :
    NoComments (ks ++ ts) ↔ NoComments ks ∧ NoComments ts := List.forall_mem_append

@[simp] theorem isComment_mark (mark : Mark) : (TokenKind.mark mark).isComment = false := rfl

@[simp] theorem isComment_keyword (word : Keyword) : (TokenKind.keyword word).isComment = false :=
  rfl

@[simp] theorem isComment_identifier (name : String) :
    (TokenKind.identifier name).isComment = false := rfl

@[simp] theorem isComment_string (value : String) : (TokenKind.string value).isComment = false :=
  rfl

@[simp] theorem isComment_number (value : Number) :
    (TokenKind.number value).isComment = false := rfl

/-- Parentheses add no comment. -/
@[simp] theorem noComments_inParens {ks : List TokenKind} :
    NoComments (inParens ks) ↔ NoComments ks := by
  simp [inParens]

/-- Parentheses that precedence asks for add no comment. -/
@[simp] theorem noComments_within {least tier : Nat} {ks : List TokenKind} :
    NoComments (within least tier ks) ↔ NoComments ks := by
  unfold within
  split <;> simp

/-- Parentheses around an expression that could not start a statement add no comment. -/
@[simp] theorem noComments_asStatement {ks : List TokenKind} :
    NoComments (asStatement ks) ↔ NoComments ks := by
  unfold asStatement
  split <;> simp

/-- Commas between items add no comment. -/
theorem noComments_separated {items : List (List TokenKind)} (h : ∀ ks ∈ items, NoComments ks) :
    NoComments (separated items) := by
  induction items with
  | nil => exact noComments_nil
  | cons ks rest ih =>
    have hks := h ks List.mem_cons_self
    have hrest := ih fun ts hts => h ts (List.mem_cons_of_mem ks hts)
    -- Only between two items does a comma stand.
    cases rest with
    | nil => exact hks
    | cons ts rest =>
      rw [separated, noComments_append, noComments_cons]
      · exact ⟨hks, rfl, hrest⟩
      · exact nofun

/-- A word is no comment, keyword or not. -/
@[simp] theorem isComment_word (name : String) : (TokenKind.word name).isComment = false := by
  unfold TokenKind.word
  split <;> rfl

@[simp] theorem isComment_unaryOp (op : UnaryOp) : op.kind.isComment = false := by
  cases op <;> rfl

@[simp] theorem isComment_binaryOp (op : BinaryOp) : op.kind.isComment = false := by
  cases op <;> rfl

@[simp] theorem isComment_logicalOp (op : LogicalOp) : op.kind.isComment = false := by
  cases op <;> rfl

/-- A printed name is no comment. -/
@[simp] theorem noComments_printedName (name : Option String) : NoComments (printedName name) := by
  cases name <;> simp [printedName]

/-- Printed parameters contain no comment. -/
@[simp] theorem noComments_printedParams (params : List String) :
    NoComments (printedParams params) := by
  refine noComments_inParens.mpr (noComments_separated fun ks hks => ?_)
  obtain ⟨name, -, rfl⟩ := List.mem_map.mp hks
  simp

/-! ### Lists of nodes -/

/-- Expressions without comments make a list without any. -/
theorem noComments_exprs {es : List Expr} (h : ∀ e ∈ es, NoComments e.printed) :
    NoComments (separated (exprsPrinted es)) := by
  rw [exprsPrinted_eq]
  exact noComments_separated (List.forall_mem_map.mpr h)

/-- Properties whose values have no comments make a list without any. -/
theorem noComments_properties {ps : List Property} (h : ∀ p ∈ ps, NoComments p.value.printed) :
    NoComments (separated (propertiesPrinted ps)) := by
  rw [propertiesPrinted_eq]
  refine noComments_separated (List.forall_mem_map.mpr fun p hp => ?_)
  simpa [Property.printed] using h p hp

/-- Statements without comments make a list without any. -/
theorem noComments_stmts {ss : List Stmt} (h : ∀ s ∈ ss, NoComments s.printed) :
    NoComments (stmtsPrinted ss) := by
  induction ss with
  | nil => exact noComments_nil
  | cons s rest ih =>
    rw [stmtsPrinted, noComments_append]
    exact ⟨h s List.mem_cons_self, ih fun s' hs' => h s' (List.mem_cons_of_mem s hs')⟩

/-- Members without comments make a list without any. -/
theorem noComments_members {ms : List Member} (h : ∀ m ∈ ms, NoComments m.printed) :
    NoComments (membersPrinted ms) := by
  induction ms with
  | nil => exact noComments_nil
  | cons m rest ih =>
    rw [membersPrinted, noComments_append]
    exact ⟨h m List.mem_cons_self, ih fun m' hm' => h m' (List.mem_cons_of_mem m hm')⟩

/-! ### Nodes -/

/-- The tokens that a node is printed as. -/
def SyntaxNode.printed : SyntaxNode → List TokenKind
  | .stmt s => s.printed
  | .expr e => e.printed
  | .accessor a => a.printed
  | .function f => f.printed
  | .class c => c.printed
  | .member m => m.printed

/-- An expression is printed without comments if what is below it is. -/
theorem noComments_expr {e : Expr} (ih : ∀ n ∈ e.form.children, NoComments n.printed) :
    NoComments e.printed := by
  obtain ⟨id, span, height, form⟩ := e
  rw [Expr.printed]
  -- a form with a list of parts needs the fact of the list; the others are concatenations
  cases form with
  | object properties =>
    have h := noComments_properties fun p hp => ih _ (List.mem_map_of_mem hp)
    simp [ExprForm.printed, h]
  | call callee args | new callee args =>
    have h := noComments_exprs fun e he => ih _ (List.mem_cons_of_mem _ (List.mem_map_of_mem he))
    have hcallee : NoComments callee.printed := ih _ List.mem_cons_self
    simp [ExprForm.printed, h, hcallee, apply_ite NoComments]
  | superCall args =>
    have h := noComments_exprs fun e he => ih _ (List.mem_map_of_mem he)
    simp [ExprForm.printed, h]
  | slot accessor key =>
    cases key <;>
      simp_all [ExprForm.printed, ExprForm.children, SlotKey.children, SlotKey.printed,
        SyntaxNode.printed]
  | _ =>
    simp_all [ExprForm.printed, ExprForm.children, SyntaxNode.printed]

/-- A function is printed without comments if its statements are. -/
theorem noComments_function {f : FunctionDef} (ih : ∀ s ∈ f.body, NoComments s.printed) :
    NoComments f.printed := by
  obtain ⟨id, kind, name, params, body, span, height⟩ := f
  simp [FunctionDef.printed, noComments_stmts ih]

/-- An initializer is printed without comments if its expression is. -/
theorem noComments_initializer {initializer : Option Expr}
    (ih : ∀ e ∈ initializer, NoComments e.printed) :
    NoComments (initializerPrinted initializer) := by
  cases initializer with
  | none => exact noComments_nil
  | some e => simp [initializerPrinted, ih e rfl]

/-- A class is printed without comments if what is below it is. -/
theorem noComments_class {c : ClassDef} (ih : ∀ n ∈ c.children, NoComments n.printed) :
    NoComments c.printed := by
  obtain ⟨id, name, superclass, constructor, members, span, height⟩ := c
  simp only [ClassDef.children, List.mem_append] at ih
  have hmembers := noComments_members fun m hm => ih _ (.inr (List.mem_map_of_mem hm))
  -- A parent adds its keyword only.
  have hsuper : NoComments (superclassPrinted superclass) := by
    cases superclass with
    | none => exact noComments_nil
    | some e =>
      have he : NoComments e.printed := ih (.expr e) (.inl (.inl List.mem_cons_self))
      simp [superclassPrinted, he]
  -- A constructor adds its word only.
  have hconstructor : NoComments (constructorPrinted constructor) := by
    cases constructor with
    | none => exact noComments_nil
    | some f =>
      have hf : NoComments f.printed := ih (.function f) (.inl (.inr List.mem_cons_self))
      simp [constructorPrinted, hf]
  simp [ClassDef.printed, hsuper, hconstructor, hmembers]

/-- A member is printed without comments if what is below it is. -/
theorem noComments_member {m : Member} (ih : ∀ n ∈ m.form.children, NoComments n.printed) :
    NoComments m.printed := by
  obtain ⟨name, form, span⟩ := m
  rw [Member.printed]
  -- Methods differ in the word before them, fields likewise.
  cases form with
  | method f | privateMethod f | staticMethod f =>
    have hf : NoComments f.printed := ih _ List.mem_cons_self
    simp [MemberForm.printed, hf]
  | privateField initializer | staticField initializer =>
    have h := noComments_initializer fun e he =>
      ih (.expr e) (List.mem_map_of_mem (Option.mem_toList.mpr he))
    simp [MemberForm.printed, h]

/-- A statement is printed without comments if what is below it is. -/
theorem noComments_stmt {s : Stmt} (ih : ∀ n ∈ s.form.children, NoComments n.printed) :
    NoComments s.printed := by
  obtain ⟨form, span⟩ := s
  rw [Stmt.printed]
  -- as for expressions: lists by their own facts, the rest as concatenations
  cases form with
  | declare name isMutable initializer =>
    have h := noComments_initializer fun e he =>
      ih (.expr e) (List.mem_map_of_mem (Option.mem_toList.mpr he))
    simp [StmtForm.printed, h]
  | block body =>
    have h := noComments_stmts fun s hs => ih _ (List.mem_map_of_mem hs)
    simp [StmtForm.printed, h]
  | attempt body param handler =>
    have hbody := noComments_stmts fun s hs =>
      ih _ (List.mem_append_left _ (List.mem_map_of_mem hs))
    have hhandler := noComments_stmts fun s hs =>
      ih _ (List.mem_append_right _ (List.mem_map_of_mem hs))
    simp [StmtForm.printed, hbody, hhandler]
  | cond test yes no =>
    cases no <;> simp_all [StmtForm.printed, StmtForm.children, SyntaxNode.printed]
  | ret value =>
    cases value <;> simp_all [StmtForm.printed, StmtForm.children, SyntaxNode.printed]
  | _ => simp_all [StmtForm.printed, StmtForm.children, SyntaxNode.printed]

/-- No node is printed with a comment. -/
theorem SyntaxNode.noComments_printed {P : SyntaxNode → Prop} {n : SyntaxNode}
    (h : n.Everywhere P) : NoComments n.printed := by
  -- From the leaves up, one case for each kind of node.
  induction h with
  | @intro n _ _ ih =>
    cases n with
    | stmt s => exact noComments_stmt ih
    | expr e => exact noComments_expr ih
    | accessor a =>
      cases a <;>
        simp_all [SyntaxNode.printed, Accessor.printed, children, Accessor.children]
    | function f => exact noComments_function fun s hs => ih _ (List.mem_map_of_mem hs)
    | «class» c => exact noComments_class ih
    | member m => exact noComments_member ih

/-! ### Programs -/

/-- Tokens are the printed ones of a program, wherever they stand and whatever comments are among
them: they are of the right kinds, and names and reserved words have their texts. -/
structure Program.IsPrintedAs (p : Program) (tokens : List Token) : Prop where
  kinds : (tokens.filter (!·.isComment)).map (·.kind) = p.printed
  texts : ∀ t ∈ tokens, t.kind.isWord = true → t.lexeme = t.kind.wordText

/-- The printed tokens, all in one place. -/
def Program.rendered (p : Program) : List Token := p.printed.map fun k => ⟨k, default, k.wordText⟩

/-- The rendered tokens of a program are its printed tokens, all of them seen by the reader. -/
theorem Program.isPrintedAs_rendered {P : SyntaxNode → Prop} {p : Program}
    (h : ∀ s ∈ p.body, (SyntaxNode.stmt s).Everywhere P) : p.IsPrintedAs p.rendered := by
  have hkinds : p.rendered.map (·.kind) = p.printed := by
    rw [rendered, List.map_map]
    exact List.map_id _
  have hbody := noComments_stmts fun s hs => SyntaxNode.noComments_printed (h s hs)
  -- None of the tokens is a comment, so the reader skips none.
  have hplain : NoComments p.printed :=
    noComments_append.mpr ⟨hbody, noComments_cons.mpr ⟨rfl, noComments_nil⟩⟩
  refine ⟨?_, fun t ht _ => ?_⟩
  · rw [List.filter_eq_self.mpr fun t ht => ?_, hkinds]
    have hkind : t.kind.isComment = false := hplain _ (hkinds ▸ List.mem_map_of_mem ht)
    simp [Token.isComment, hkind]
  · obtain ⟨k, -, rfl⟩ := List.mem_map.mp ht
    rfl

end Enclave
