import Enclave.CompiledUnit
import Enclave.Proofs.Syntax.Grammar

/-!
# What binding promises

In a unit that was compiled there are no faults of scope, every accessor is bound to the class that
was recorded for it, and every expression is proper (`isBound_of_compile`).

That a piece of syntax lies somewhere in a unit, in a certain context, is said by
`CompiledUnit.Covers`: what the walk meets in the piece it meets in the unit. It passes from every
construct to its parts, each in the context that the walk gives it.
-/

namespace Enclave

namespace CompiledUnit

/-- What holds of a unit that was compiled. -/
structure IsBound (u : CompiledUnit) : Prop where
  faultless : ∀ e, .error e ∉ u.program.findings
  bound : ∀ s, .site s ∈ u.program.findings → u.bindings.classOf? s.expr = some s.classSite
  proper : ∀ e ∈ stmtsNodes u.program.body, e.form.IsProper

/-- The unit meets these findings and contains these expressions. -/
structure Covers (u : CompiledUnit) (findings : List Finding) (nodes : List Expr) : Prop where
  findings : ∀ f ∈ findings, f ∈ u.program.findings
  nodes : ∀ e ∈ nodes, e ∈ stmtsNodes u.program.body

variable {u : CompiledUnit} {context : ScopeContext}

/-- A unit covers its whole program. -/
theorem covers_self (u : CompiledUnit) :
    u.Covers (stmtsFindings .top u.program.body) (stmtsNodes u.program.body) :=
  ⟨fun _ h => h, fun _ h => h⟩

/-- What covers two findings or nodes covers the first, -/
theorem Covers.left {f g : List Finding} {n m : List Expr} (h : u.Covers (f ++ g) (n ++ m)) :
    u.Covers f n :=
  ⟨fun x hx => h.findings x (List.mem_append_left g hx),
    fun x hx => h.nodes x (List.mem_append_left m hx)⟩

/-- and the second. -/
theorem Covers.right {f g : List Finding} {n m : List Expr} (h : u.Covers (f ++ g) (n ++ m)) :
    u.Covers g m :=
  ⟨fun x hx => h.findings x (List.mem_append_right f hx),
    fun x hx => h.nodes x (List.mem_append_right n hx)⟩

/-! ### Compiled units -/

/-- The bindings know the class of every site among the findings. -/
theorem classOf?_of_mem {findings : List Finding} (hnodup : (siteIds findings).Nodup)
    {s : BoundSite} (hs : .site s ∈ findings) :
    (Bindings.ofFindings findings).classOf? s.expr = some s.classSite := by
  have hmem : s ∈ findings.filterMap Finding.site? := List.mem_filterMap.mpr ⟨.site s, hs, rfl⟩
  -- a site is found by its expression, and no other site has the same
  have hfind : (findings.filterMap Finding.site?).find? (·.expr = s.expr) = some s := by
    cases h : (findings.filterMap Finding.site?).find? (·.expr = s.expr) with
    | none => exact absurd (List.find?_eq_none.mp h s hmem) (by simp)
    | some s' =>
      have hexpr : s'.expr = s.expr := by simpa using List.find?_some h
      rw [List.inj_on_of_nodup_map hnodup (List.mem_of_find?_eq_some h) hmem hexpr]
  change ((findings.filterMap Finding.site?).find? (·.expr = s.expr)).map (·.classSite) = _
  rw [hfind]
  rfl

/-- **Binding.** What was compiled is bound. -/
theorem isBound_of_compile {source : List UInt8} (h : compile source = .ok u) : u.IsBound := by
  unfold compile at h
  split at h
  · cases h
  · next p hread =>
    split at h
    · cases h
    · next bindings hbind =>
      cases h
      -- the parser has numbered the expressions apart and left no misplaced `super`
      obtain ⟨hnodup, hproper⟩ := Program.read_tracks hread
      unfold Program.bind at hbind
      dsimp only at hbind
      split at hbind
      · next hempty =>
        cases hbind
        refine ⟨fun e he => ?_, fun s hs => ?_, hproper⟩
        · -- an error among the findings would have been one of the errors, of which there are none
          have hmem : e ∈ p.findings.filterMap Finding.error? :=
            List.mem_filterMap.mpr ⟨.error e, he, rfl⟩
          rw [List.isEmpty_iff.mp hempty] at hmem
          cases hmem
        · exact classOf?_of_mem (nodup_siteIds p hnodup) hs
      · cases hbind

/-! ### Accessors and `super` -/

/-- In a unit whose accessors are bound, an accessor stands in a class, and that is the one it is
bound to. -/
theorem IsBound.accessor (hu : u.IsBound) {id : ExprId} {span : Span} {accessor : Accessor}
    (h : ∀ f ∈ Finding.ofAccessor context id span accessor, f ∈ u.program.findings) :
    ∃ site, context.enclosing = some site ∧ u.bindings.classOf? id = some site := by
  unfold Finding.ofAccessor at h
  cases hsite : context.enclosing with
  | none =>
    rw [hsite] at h
    exact absurd (h _ (List.mem_singleton.mpr rfl)) (hu.faultless _)
  | some site =>
    rw [hsite] at h
    exact ⟨site, rfl, hu.bound _ (h _ (List.mem_singleton.mpr rfl))⟩

/-- There `super(...)` stands in the constructor of a derived class, -/
theorem IsBound.superCall (hu : u.IsBound) {span : Span}
    (h : ∀ f ∈ Finding.ofSuperCall context span, f ∈ u.program.findings) :
    context.superUse = .construction := by
  unfold Finding.ofSuperCall at h
  by_contra hne
  rw [if_neg hne] at h
  exact hu.faultless _ (h _ (List.mem_singleton.mpr rfl))

/-- and `super.name` in a derived class. -/
theorem IsBound.superMember (hu : u.IsBound) {span : Span}
    (h : ∀ f ∈ Finding.ofSuperMember context span, f ∈ u.program.findings) :
    context.superUse ≠ .nothing := by
  unfold Finding.ofSuperMember at h
  intro heq
  rw [if_pos heq] at h
  exact hu.faultless _ (h _ (List.mem_singleton.mpr rfl))

/-! ### Kinds of syntax -/

def CoversExpr (u : CompiledUnit) (context : ScopeContext) (e : Expr) : Prop :=
  u.Covers (e.findings context) e.nodes

def CoversExprs (u : CompiledUnit) (context : ScopeContext) (es : List Expr) : Prop :=
  u.Covers (exprsFindings context es) (exprsNodes es)

def CoversOptional (u : CompiledUnit) (context : ScopeContext) (e : Option Expr) : Prop :=
  u.Covers (optionalFindings context e) (optionalNodes e)

def CoversProperties (u : CompiledUnit) (context : ScopeContext) (ps : List Property) : Prop :=
  u.Covers (propertiesFindings context ps) (propertiesNodes ps)

def CoversAccessor (u : CompiledUnit) (context : ScopeContext) (a : Accessor) : Prop :=
  u.Covers (a.findings context) a.nodes

def CoversKey (u : CompiledUnit) (context : ScopeContext) (k : SlotKey) : Prop :=
  u.Covers (k.findings context) k.nodes

def CoversStmt (u : CompiledUnit) (context : ScopeContext) (s : Stmt) : Prop :=
  u.Covers (s.findings context) s.nodes

def CoversStmts (u : CompiledUnit) (context : ScopeContext) (body : List Stmt) : Prop :=
  u.Covers (stmtsFindings context body) (stmtsNodes body)

/-- The context is that of the body. -/
def CoversFunction (u : CompiledUnit) (context : ScopeContext) (f : FunctionDef) : Prop :=
  u.CoversStmts context f.body

def CoversMembers (u : CompiledUnit) (site : ClassSite) (isDerived : Bool) (ms : List Member) :
    Prop :=
  u.Covers (membersFindings site isDerived ms) (membersNodes ms)

/-- The parts of a class, each in its own context. -/
structure CoversClass (u : CompiledUnit) (context : ScopeContext) (c : ClassDef) : Prop where
  superclass : u.CoversOptional context c.superclass
  constructor : ∀ f ∈ c.constructor,
    u.CoversFunction (.inConstructor c.site c.superclass.isSome) f
  members : u.CoversMembers c.site c.superclass.isSome c.members

/-! ### From constructs to their parts -/

/-- A function is covered with what is found in it. -/
theorem coversFunction_of {f : FunctionDef} (h : u.Covers (f.findings context) f.nodes) :
    u.CoversFunction context f := by
  obtain ⟨site, name, kind, params, body, span, height⟩ := f
  rw [FunctionDef.findings, FunctionDef.nodes] at h
  exact h

/-- So is a class. -/
theorem coversClass_of {c : ClassDef} (h : u.Covers (c.findings context) c.nodes) :
    u.CoversClass context c := by
  obtain ⟨site, name, superclass, constructor, members, span, height⟩ := c
  rw [ClassDef.findings, ClassDef.nodes] at h
  refine ⟨⟨fun f hf => h.left.findings f ?_, h.left.left.nodes⟩, fun f hf => ?_, h.right⟩
  · exact List.mem_append_left _ (List.mem_append_left _ hf)
  · obtain rfl := Option.mem_def.mp hf
    have hconstructor := h.left.right
    rw [constructorFindings, constructorNodes] at hconstructor
    exact coversFunction_of hconstructor

/-- What may be left out is covered if it is there. -/
theorem CoversOptional.of_some {e : Expr} (h : u.CoversOptional context (some e)) :
    u.CoversExpr context e := by
  rwa [CoversOptional, optionalFindings, optionalNodes] at h

/-- A list is covered with its first part and the rest. -/
theorem CoversExprs.cons {e : Expr} {es : List Expr} (h : u.CoversExprs context (e :: es)) :
    u.CoversExpr context e ∧ u.CoversExprs context es := by
  rw [CoversExprs, exprsFindings, exprsNodes] at h
  exact ⟨h.left, h.right⟩

theorem CoversProperties.cons {name : String} {e : Expr} {ps : List Property}
    (h : u.CoversProperties context (⟨name, e⟩ :: ps)) :
    u.CoversExpr context e ∧ u.CoversProperties context ps := by
  rw [CoversProperties, propertiesFindings, propertiesNodes] at h
  exact ⟨h.left, h.right⟩

/-- The target of an accessor is covered along with it. -/
theorem CoversAccessor.target {span : Span} {e : Expr}
    (h : u.CoversAccessor context (.ofTarget span e)) : u.CoversExpr context e := by
  rwa [CoversAccessor, Accessor.findings, Accessor.nodes] at h

/-- So is a key between brackets. -/
theorem CoversKey.computed {e : Expr} (h : u.CoversKey context (.computed e)) :
    u.CoversExpr context e := by
  rwa [CoversKey, SlotKey.findings, SlotKey.nodes] at h

/-- Statements are covered one by one, -/
theorem CoversStmts.cons {s : Stmt} {body : List Stmt} (h : u.CoversStmts context (s :: body)) :
    u.CoversStmt context s ∧ u.CoversStmts context body := by
  rw [CoversStmts, stmtsFindings, stmtsNodes] at h
  exact ⟨h.left, h.right⟩

/-- and so are the members of a class. -/
theorem CoversMembers.cons {site : ClassSite} {isDerived : Bool} {name : String} {form : MemberForm}
    {span : Span} {ms : List Member}
    (h : u.CoversMembers site isDerived (⟨name, form, span⟩ :: ms)) :
    u.Covers (form.findings site isDerived) form.nodes ∧ u.CoversMembers site isDerived ms := by
  rw [CoversMembers, membersFindings, membersNodes] at h
  exact ⟨h.left, h.right⟩

/-- An expression is met as its form. -/
theorem CoversExpr.form {e : Expr} (h : u.CoversExpr context e) :
    u.Covers (e.form.findings context e.id e.span) e.form.inner := by
  obtain ⟨id, span, height, form⟩ := e
  rw [CoversExpr, Expr.findings, Expr.nodes] at h
  exact ⟨h.findings, fun x hx => h.nodes x (List.mem_cons_of_mem _ hx)⟩

/-- Only a member is deleted and only a target assigned to. -/
theorem CoversExpr.isProper (hu : u.IsBound) {e : Expr} (h : u.CoversExpr context e) :
    e.form.IsProper :=
  hu.proper e (h.nodes e (by rw [Expr.nodes_eq]; exact List.mem_cons_self))

/-- A statement is covered with its form. -/
theorem CoversStmt.form {s : Stmt} (h : u.CoversStmt context s) :
    u.Covers (s.form.findings context) s.form.nodes := by
  obtain ⟨form, span⟩ := s
  rwa [CoversStmt, Stmt.findings, Stmt.nodes] at h

section Forms

variable {e : Expr} (h : u.CoversExpr context e)

include h

theorem CoversExpr.object {ps : List Property} (hform : e.form = .object ps) :
    u.CoversProperties context ps := by
  have hcovers := h.form
  rwa [hform, ExprForm.findings, ExprForm.inner] at hcovers

/-- A function in an expression has no parent to call. -/
theorem CoversExpr.functionDef {f : FunctionDef} (hform : e.form = .functionDef f) :
    u.CoversFunction (context.withSuper .nothing) f := by
  have hcovers := h.form
  rw [hform, ExprForm.findings, ExprForm.inner] at hcovers
  exact coversFunction_of hcovers

/-- The body of a class is covered in its own context. -/
theorem CoversExpr.classDef {c : ClassDef} (hform : e.form = .classDef c) :
    u.CoversClass context c := by
  have hcovers := h.form
  rw [hform, ExprForm.findings, ExprForm.inner] at hcovers
  exact coversClass_of hcovers

theorem CoversExpr.unary {op : UnaryOp} {operand : Expr} (hform : e.form = .unary op operand) :
    u.CoversExpr context operand := by
  have hcovers := h.form
  rwa [hform, ExprForm.findings, ExprForm.inner] at hcovers

theorem CoversExpr.binary {op : BinaryOp} {left right : Expr}
    (hform : e.form = .binary op left right) :
    u.CoversExpr context left ∧ u.CoversExpr context right := by
  have hcovers := h.form
  rw [hform, ExprForm.findings, ExprForm.inner] at hcovers
  exact ⟨hcovers.left, hcovers.right⟩

theorem CoversExpr.logical {op : LogicalOp} {left right : Expr}
    (hform : e.form = .logical op left right) :
    u.CoversExpr context left ∧ u.CoversExpr context right := by
  have hcovers := h.form
  rw [hform, ExprForm.findings, ExprForm.inner] at hcovers
  exact ⟨hcovers.left, hcovers.right⟩

/-- An assignment covers its target and its value. -/
theorem CoversExpr.assign {target value : Expr} (hform : e.form = .assign target value) :
    u.CoversExpr context target ∧ u.CoversExpr context value := by
  have hcovers := h.form
  rw [hform, ExprForm.findings, ExprForm.inner] at hcovers
  exact ⟨hcovers.left, hcovers.right⟩

theorem CoversExpr.member {object : Expr} {name : String} (hform : e.form = .member object name) :
    u.CoversExpr context object := by
  have hcovers := h.form
  rwa [hform, ExprForm.findings, ExprForm.inner] at hcovers

theorem CoversExpr.index {object key : Expr} (hform : e.form = .index object key) :
    u.CoversExpr context object ∧ u.CoversExpr context key := by
  have hcovers := h.form
  rw [hform, ExprForm.findings, ExprForm.inner] at hcovers
  exact ⟨hcovers.left, hcovers.right⟩

/-- A call covers what is called and the arguments. -/
theorem CoversExpr.call {callee : Expr} {args : List Expr} (hform : e.form = .call callee args) :
    u.CoversExpr context callee ∧ u.CoversExprs context args := by
  have hcovers := h.form
  rw [hform, ExprForm.findings, ExprForm.inner] at hcovers
  exact ⟨hcovers.left, hcovers.right⟩

theorem CoversExpr.new {callee : Expr} {args : List Expr} (hform : e.form = .new callee args) :
    u.CoversExpr context callee ∧ u.CoversExprs context args := by
  have hcovers := h.form
  rw [hform, ExprForm.findings, ExprForm.inner] at hcovers
  exact ⟨hcovers.left, hcovers.right⟩

theorem CoversExpr.superArgs {args : List Expr} (hform : e.form = .superCall args) :
    u.CoversExprs context args := by
  have hcovers := h.form
  rw [hform, ExprForm.findings, ExprForm.inner] at hcovers
  exact ⟨fun f hf => hcovers.findings f (List.mem_append_right _ hf), hcovers.nodes⟩

/-- A slot covers its accessor and its key. -/
theorem CoversExpr.slot {accessor : Accessor} {key : SlotKey}
    (hform : e.form = .slot accessor key) :
    u.CoversAccessor context accessor ∧ u.CoversKey context key := by
  have hcovers := h.form
  rw [hform, ExprForm.findings, ExprForm.inner] at hcovers
  exact ⟨⟨fun f hf => hcovers.left.findings f (List.mem_append_right _ hf), hcovers.left.nodes⟩,
    hcovers.right⟩

/-- So does the question whether a slot is there. -/
theorem CoversExpr.hasSlot {key : Expr} {accessor : Accessor}
    (hform : e.form = .hasSlot key accessor) :
    u.CoversExpr context key ∧ u.CoversAccessor context accessor := by
  have hcovers := h.form
  rw [hform, ExprForm.findings, ExprForm.inner] at hcovers
  exact ⟨⟨fun f hf => hcovers.left.findings f (List.mem_append_left _ hf), hcovers.left.nodes⟩,
    hcovers.right⟩

/-- **Accessors.** An accessor stands in a class, and is bound to it. -/
theorem CoversExpr.boundTo (hu : u.IsBound) {accessor : Accessor}
    (hform : (∃ key, e.form = .slot accessor key) ∨ ∃ key, e.form = .hasSlot key accessor) :
    ∃ site, context.enclosing = some site ∧ u.bindings.classOf? e.id = some site := by
  have hcovers := h.form
  obtain ⟨key, hform⟩ | ⟨key, hform⟩ := hform
  · rw [hform, ExprForm.findings] at hcovers
    exact hu.accessor fun f hf => hcovers.findings f
      (List.mem_append_left _ (List.mem_append_left _ hf))
  · rw [hform, ExprForm.findings] at hcovers
    exact hu.accessor fun f hf => hcovers.findings f
      (List.mem_append_left _ (List.mem_append_right _ hf))

/-- Where the arguments of `super(...)` are covered, a construction is under way. -/
theorem CoversExpr.superCall (hu : u.IsBound) {args : List Expr}
    (hform : e.form = .superCall args) : context.superUse = .construction := by
  have hcovers := h.form
  rw [hform, ExprForm.findings] at hcovers
  exact hu.superCall fun f hf => hcovers.findings f (List.mem_append_left _ hf)

/-- Where a member of the parent is read, there is one. -/
theorem CoversExpr.superMember (hu : u.IsBound) {name : String}
    (hform : e.form = .superMember name) : context.superUse ≠ .nothing := by
  have hcovers := h.form
  rw [hform, ExprForm.findings] at hcovers
  exact hu.superMember fun f hf => hcovers.findings f hf

end Forms

section StmtForms

variable {s : Stmt} (h : u.CoversStmt context s)

include h

theorem CoversStmt.declare {name : String} {isMutable : Bool} {initializer : Option Expr}
    (hform : s.form = .declare name isMutable initializer) :
    u.CoversOptional context initializer := by
  have hcovers := h.form
  rwa [hform, StmtForm.findings, StmtForm.nodes] at hcovers

theorem CoversStmt.expr {e : Expr} (hform : s.form = .expr e) : u.CoversExpr context e := by
  have hcovers := h.form
  rwa [hform, StmtForm.findings, StmtForm.nodes] at hcovers

theorem CoversStmt.raise {e : Expr} (hform : s.form = .raise e) : u.CoversExpr context e := by
  have hcovers := h.form
  rwa [hform, StmtForm.findings, StmtForm.nodes] at hcovers

theorem CoversStmt.block {body : List Stmt} (hform : s.form = .block body) :
    u.CoversStmts context body := by
  have hcovers := h.form
  rwa [hform, StmtForm.findings, StmtForm.nodes] at hcovers

/-- A condition covers its test and both branches. -/
theorem CoversStmt.cond {test : Expr} {yes : Stmt} {no : Option Stmt}
    (hform : s.form = .cond test yes no) :
    u.CoversExpr context test ∧ u.CoversStmt context yes ∧ ∀ s ∈ no, u.CoversStmt context s := by
  have hcovers := h.form
  -- the second branch may be missing
  cases no with
  | none =>
    rw [hform, StmtForm.findings, StmtForm.nodes] at hcovers
    exact ⟨hcovers.left, hcovers.right, fun _ h => nomatch h⟩
  | some no =>
    rw [hform, StmtForm.findings, StmtForm.nodes] at hcovers
    refine ⟨hcovers.left.left, hcovers.left.right, fun s hs => ?_⟩
    cases hs
    exact hcovers.right

/-- A loop covers its test and its body. -/
theorem CoversStmt.loop {test : Expr} {body : Stmt} (hform : s.form = .loop test body) :
    u.CoversExpr context test ∧ u.CoversStmt context body := by
  have hcovers := h.form
  rw [hform, StmtForm.findings, StmtForm.nodes] at hcovers
  exact ⟨hcovers.left, hcovers.right⟩

theorem CoversStmt.ret {value : Option Expr} (hform : s.form = .ret value) :
    u.CoversOptional context value := by
  have hcovers := h.form
  rwa [hform, StmtForm.findings, StmtForm.nodes] at hcovers

/-- What is tried is covered, and so is the handler. -/
theorem CoversStmt.attempt {body handler : List Stmt} {param : String}
    (hform : s.form = .attempt body param handler) :
    u.CoversStmts context body ∧ u.CoversStmts context handler := by
  have hcovers := h.form
  rw [hform, StmtForm.findings, StmtForm.nodes] at hcovers
  exact ⟨hcovers.left, hcovers.right⟩

/-- A function that is declared has no parent to call, either. -/
theorem CoversStmt.functionDef {f : FunctionDef} (hform : s.form = .functionDef f) :
    u.CoversFunction (context.withSuper .nothing) f := by
  have hcovers := h.form
  rw [hform, StmtForm.findings, StmtForm.nodes] at hcovers
  exact coversFunction_of hcovers

theorem CoversStmt.classDef {c : ClassDef} (hform : s.form = .classDef c) :
    u.CoversClass context c := by
  have hcovers := h.form
  rw [hform, StmtForm.findings, StmtForm.nodes] at hcovers
  exact coversClass_of hcovers

end StmtForms

section MemberForms

variable {site : ClassSite} {isDerived : Bool} {form : MemberForm}
  (h : u.Covers (form.findings site isDerived) form.nodes)

include h

/-- A method is met inside its class, where a constructor is not called. -/
theorem covers_method {f : FunctionDef} (hform : form = .method f ∨ form = .privateMethod f) :
    u.CoversFunction (.inMethod site isDerived) f := by
  obtain rfl | rfl := hform
  · rw [MemberForm.findings, MemberForm.nodes] at h
    exact coversFunction_of h
  · rw [MemberForm.findings, MemberForm.nodes] at h
    exact coversFunction_of h

/-- Static methods stand in the class, but not in a derived one's constructor. -/
theorem covers_staticMethod {f : FunctionDef} (hform : form = .staticMethod f) :
    u.CoversFunction (.inClass site) f := by
  subst hform
  rw [MemberForm.findings, MemberForm.nodes] at h
  exact coversFunction_of h

/-- Initializers of fields do, too. -/
theorem covers_field {initializer : Option Expr}
    (hform : form = .privateField initializer ∨ form = .staticField initializer) :
    u.CoversOptional (.inClass site) initializer := by
  obtain rfl | rfl := hform
  · rwa [MemberForm.findings, MemberForm.nodes] at h
  · rwa [MemberForm.findings, MemberForm.nodes] at h

end MemberForms

end CompiledUnit

end Enclave
