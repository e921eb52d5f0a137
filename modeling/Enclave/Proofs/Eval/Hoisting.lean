import Enclave.Proofs.Eval.Rejection
import Enclave.Proofs.Eval.Respecting

/-!
# Declarations of functions

Executing the declaration of a function does nothing: what declares it is the list of statements
that it is an element of, which declares all its functions in its scope before it runs its
statements. Names stay bound in the scopes that bind them, so wherever the statements of a list have
got to, the functions of the list are bound in the scope of the list itself (`declaresFunctions`,
`declaresInUnit`). Programs, blocks, bodies of functions and of `try`, and handlers are such lists.
The branches of `if` and the body of `while` are not.
-/

namespace Enclave

namespace Eval

variable {context : Context} {self : Evaluator} {m m' : Machine} {body : List Stmt}

/-- The names of the functions that a list of statements declares. -/
def declaredNames (body : List Stmt) : List String :=
  body.filterMap fun s =>
    match s.form with
    | .functionDef definition => some (definition.name.getD "")
    | _ => none

end Eval

/-- The scope of the context itself binds every function that the statements declare, and its name
can be read. -/
structure Context.HasFunctions (context : Context) (body : List Stmt) (m : Machine) : Prop where
  bound : ∀ name ∈ Eval.declaredNames body, (m.world.bound? context.scope name).isSome = true
  reads : ∀ name ∈ Eval.declaredNames body, ∃ v, Eval.readName context name m = .ok v m

namespace Eval

variable {context : Context} {self : Evaluator} {m m' : Machine} {body : List Stmt}

/-! ### What the scope itself binds -/

theorem lookup_of_bound {w : World} {s : ScopeId} {name : String}
    (h : (w.bound? s name).isSome = true) : (w.scopes.lookup s name).isSome = true := by
  obtain ⟨x, hx⟩ := Option.isSome_iff_exists.mp h
  have hpath : ∃ rest, w.scopes.path s = s :: rest := ⟨_, rfl⟩
  obtain ⟨rest, hrest⟩ := hpath
  unfold Scopes.lookup
  rw [hrest, List.findSome?_cons, show (w.scopes.scopeAt s).find? name = some x from hx]
  rfl

/-- A name that the scope itself binds can be read. -/
theorem readName_of_bound {name : String} (h : (m.world.bound? context.scope name).isSome = true) :
    ∃ v, readName context name m = .ok v m := by
  obtain ⟨v, hv⟩ := Option.isSome_iff_exists.mp (lookup_of_bound h)
  refine ⟨v, ?_⟩
  rw [readName, world_bind, hv]
  rfl

theorem hasFunctions_of_bound
    (h : ∀ name ∈ declaredNames body, (m.world.bound? context.scope name).isSome = true) :
    context.HasFunctions body m :=
  ⟨h, fun name hname => readName_of_bound (h name hname)⟩

end Eval

/-- Names stay bound, whatever is done that respects scopes. -/
theorem Context.HasFunctions.respects {context : Context} {body : List Stmt} {m m' : Machine}
    (h : context.HasFunctions body m) {but : Option ScopeId} (hs : m.world.Respects but m'.world) :
    context.HasFunctions body m' :=
  Eval.hasFunctions_of_bound fun name hname => hs.bound _ _ (h.bound name hname)

namespace Eval

variable {context : Context} {self : Evaluator} {m m' : Machine} {body : List Stmt}

/-! ### Hoisting -/

/-- Declaring the functions of a list always succeeds. -/
theorem exists_hoist (context : Context) (body : List Stmt) (m : Machine) :
    ∃ m', hoist context body m = .ok () m' := by
  induction body generalizing m with
  | nil => exact ⟨m, rfl⟩
  | cons s rest ih =>
    obtain ⟨form, span⟩ := s
    cases form with
    | functionDef definition => exact ih _
    | _ => exact ih m

/-- **Hoisting** binds all functions of the list in the scope of the context. -/
theorem hasFunctions_hoist (hscope : context.scope.index < m.world.scopes.all.size)
    (h : hoist context body m = .ok () m') : context.HasFunctions body m' := by
  refine hasFunctions_of_bound fun name hname => ?_
  induction body generalizing m with
  | nil => cases hname
  | cons s rest ih =>
    obtain ⟨form, span⟩ := s
    cases form with
    | functionDef definition =>
      -- the function is made and bound, and then comes the rest of the list
      let f := (m.world.newFunction (definition.name.getD "")
        (.script ⟨context.frame.unit, definition, context.scope, context.frame.home⟩)).1
      let w := (m.world.newFunction (definition.name.getD "")
        (.script ⟨context.frame.unit, definition, context.scope, context.frame.home⟩)).2
      let m₁ : Machine := { m with world := w.declare context.scope f.name (.function f) true }
      have hrest : hoist context rest m₁ = .ok () m' := h
      have hscope₁ : context.scope.index < m₁.world.scopes.all.size :=
        hscope.trans_eq (Array.size_modify ..).symm
      rcases List.mem_cons.mp hname with rfl | hname
      · -- the rest of the list binds more, and unbinds nothing
        have hrespects := (respects_hoist rest).of_ok hrest fun s hs => by
          cases hs
          exact hscope₁
        refine hrespects.bound _ _ ?_
        change ((w.declare context.scope f.name (.function f) true).bound? _ _).isSome = true
        rw [World.bound?_declare, if_pos ⟨rfl, hscope, rfl⟩]
        rfl
      · exact ih hscope₁ hrest hname
    | _ => exact ih hscope h hname

/-! ### Running a list -/

/-- A list whose first statements have run normally goes on with the others. -/
theorem execAll_append {before : List Stmt} (after : List Stmt)
    (h : execAll self context before m = .ok .normal m') :
    execAll self context (before ++ after) m = execAll self context after m' := by
  -- no statement in front returns, since they all end normally
  induction before generalizing m with
  | nil =>
    cases h
    rfl
  | cons s rest ih =>
    change EStateM.bind (self.exec context s) _ m = _ at h ⊢
    unfold EStateM.bind at h ⊢
    cases hrun : self.exec context s m with
    | ok flow m₁ =>
      rw [hrun] at h
      cases flow with
      | returned v => cases h
      | normal => exact ih h
    | error stop m₁ =>
      rw [hrun] at h
      cases h

/-- Wherever the statements of a list have got to in a context, the functions that the list declares
are bound in the scope of the context itself, and their names can be read. -/
def DeclaresFunctions (self : Evaluator) (context : Context) (body : List Stmt) (m : Machine) :
    Prop :=
  ∃ m₁, hoist context body m = .ok () m₁ ∧ ∀ before after m₂, body = before ++ after →
    execAll self context before m₁ = .ok .normal m₂ →
      execBlock self context body m = execAll self context after m₂ ∧
        context.HasFunctions body m₂

theorem declaresFunctions (hself : self.Tracks self) (body : List Stmt)
    (hscope : context.scope.index < m.world.scopes.all.size) :
    DeclaresFunctions self context body m := by
  obtain ⟨m₁, hhoist⟩ := exists_hoist context body m
  have hfunctions := hasFunctions_hoist hscope hhoist
  have hhas : ∀ s ∈ some context.scope, s.index < m.world.scopes.all.size := fun s hs => by
    cases hs
    exact hscope
  refine ⟨m₁, hhoist, fun before after m₂ hbody hbefore => ⟨?_, ?_⟩⟩
  · -- a block is run by hoisting, and then statement by statement
    have hblock : execBlock self context body m = execAll self context body m₁ :=
      bind_of_ok hhoist
    rw [hblock, hbody]
    exact execAll_append after hbefore
  · -- the statements in front leave the functions of the scope bound
    have hcount := ((respects_hoist body).of_ok hhoist hhas).scopeCount
    have hrespects : m₁.Respects (some context.scope) m₂ :=
      (tracks_execAll hself before).respects.of_ok hbefore
    exact hfunctions.respects (hrespects fun s hs => (hhas s hs).trans_le hcount)

/-! ### Where lists are run -/

/-- Blocks are run in a scope of their own. -/
theorem exists_block (hself : self.Tracks self) (context : Context) (body : List Stmt) (span : Span)
    (m : Machine) :
    ∃ inner m', execStmt self context ⟨.block body, span⟩ m = execBlock self inner body m' ∧
      DeclaresFunctions self inner body m' := by
  refine ⟨context.within (m.world.childScope context.scope).1,
    { m with world := (m.world.childScope context.scope).2 }, rfl, declaresFunctions hself body ?_⟩
  exact World.lt_size_childScope m.world context.scope

/-- What a function gives whose body ends in some way. -/
def resultOf : Flow → Eval Value
  | .returned v => return v
  | .normal => return .undefined

theorem exists_bindParams (scope : ScopeId) (names : List String) (args : List Value)
    (m : Machine) : ∃ m', bindParams scope names args m = .ok () m' := by
  induction names generalizing args m with
  | nil => exact ⟨m, rfl⟩
  | cons name names ih => exact ih _ _

/-- Bodies of functions are run in a scope of their own. -/
theorem exists_functionBody (hself : self.Tracks self) (held : List Node) (c : Closure)
    (this : Value) (args : List Value) (construction : Option ConstructionId) (m : Machine) :
    ∃ inner m', runScript self held c this args construction m =
        (execBlock self inner c.definition.body >>= resultOf) m' ∧
      DeclaresFunctions self inner c.definition.body m' := by
  let s := (m.world.childScope c.scope).1
  let m₁ : Machine := { m with world := (m.world.childScope c.scope).2 }
  have hs : s.index < m₁.world.scopes.all.size := World.lt_size_childScope m.world c.scope
  -- binding the parameters always succeeds, and leaves the body in a scope of its own
  obtain ⟨m₂, hparams⟩ := exists_bindParams s c.definition.params args m₁
  have hrespects := (respects_bindParams s c.definition.params args).of_ok hparams fun s' hs' => by
    cases hs'
    exact hs
  let inner : Context := ⟨⟨c.unit, this, c.home, construction⟩, s,
    nodesOf (args.drop c.definition.params.length) ++ held⟩
  refine ⟨inner, m₂, ?_, declaresFunctions hself _ (hs.trans_le hrespects.scopeCount)⟩
  change (bindParams s c.definition.params args >>= _) m₁ = _
  rw [bind_of_ok hparams]
  refine congrFun (bind_congr fun flow => ?_) m₂
  cases flow <;> rfl

/-- What is done when the body of a `try` has been run in a scope. -/
def handle (self : Evaluator) (context : Context) (scope : ScopeId) (param : String)
    (handler : List Stmt) (result : Except RuntimeError Flow) : Eval Flow :=
  match result with
  | .ok flow => return flow
  | .error e => do
    let inner ← newScope context.scope
    let v ← errorValue e
    changeWorld (·.declare inner param v true)
    execBlock self ((context.within inner).holding [.scope scope]) handler

/-- Bodies of `try` are run in a scope of their own. -/
theorem exists_tryBody (hself : self.Tracks self) (context : Context) (body : List Stmt)
    (param : String) (handler : List Stmt) (m : Machine) :
    ∃ inner m', attempt self context body param handler m =
        (catching (execBlock self inner body) >>=
          handle self context inner.scope param handler) m' ∧
      DeclaresFunctions self inner body m' := by
  refine ⟨context.within (m.world.childScope context.scope).1,
    { m with world := (m.world.childScope context.scope).2 }, ?_, declaresFunctions hself body ?_⟩
  · change (catching (execBlock self _ body) >>= _) _ = _
    refine congrFun (bind_congr fun result => ?_) _
    cases result <;> rfl
  · exact World.lt_size_childScope m.world context.scope

theorem exists_errorValue (e : RuntimeError) (m : Machine) : ∃ v m', errorValue e m = .ok v m' := by
  cases e with
  | thrown v => exact ⟨v, m, rfl⟩
  | _ => exact ⟨_, _, rfl⟩

/-- Handlers are run in a scope of their own. -/
theorem exists_handler (hself : self.Tracks self) (context : Context) (scope : ScopeId)
    (param : String) (handler : List Stmt) (e : RuntimeError) (m : Machine) :
    ∃ inner m', handle self context scope param handler (.error e) m =
        execBlock self inner handler m' ∧ DeclaresFunctions self inner handler m' := by
  -- the handler has a new scope, where only its parameter is bound so far
  let s := (m.world.childScope context.scope).1
  let m₁ : Machine := { m with world := (m.world.childScope context.scope).2 }
  have hs : s.index < m₁.world.scopes.all.size := World.lt_size_childScope m.world context.scope
  obtain ⟨v, m₂, hvalue⟩ := exists_errorValue e m₁
  have hrespects : m₁.Respects none m₂ := (respects_errorValue e).of_ok hvalue
  refine ⟨(context.within s).holding [.scope scope],
    { m₂ with world := m₂.world.declare s param v true }, ?_, declaresFunctions hself handler ?_⟩
  · change (errorValue e >>= _) m₁ = _
    rw [bind_of_ok hvalue]
    rfl
  · exact (hs.trans_le (hrespects nofun).scopeCount).trans_eq (Array.size_modify ..).symm

/-! ### Units -/

/-- Some statements of a unit end normally, with the value of the last that is an expression. -/
inductive GoesThrough (self : Evaluator) (context : Context) :
    Value → List Stmt → Machine → Value → Machine → Prop
  | nil {last : Value} {m : Machine} : GoesThrough self context last [] m last m
  | expr {last v last' : Value} {e : Expr} {span : Span} {rest : List Stmt} {m m₁ m' : Machine}
    (h : self.eval (context.holdingValues [last]) e m = .ok v m₁)
    (hrest : GoesThrough self context v rest m₁ last' m') :
    GoesThrough self context last (⟨.expr e, span⟩ :: rest) m last' m'
  | stmt {last last' : Value} {s : Stmt} {rest : List Stmt} {m m₁ m' : Machine}
    (hs : ∀ e, s.form ≠ .expr e)
    (h : self.exec (context.holdingValues [last]) s m = .ok .normal m₁)
    (hrest : GoesThrough self context last rest m₁ last' m') :
    GoesThrough self context last (s :: rest) m last' m'

theorem GoesThrough.runStatements {last last' : Value} {before : List Stmt}
    (h : GoesThrough self context last before m last' m') (after : List Stmt) :
    runStatements self context last (before ++ after) m =
      runStatements self context last' after m' := by
  -- Statement by statement: each leaves the rest to the machine it ends with.
  induction h with
  | nil => rfl
  | expr h _ ih =>
    refine Eq.trans ?_ ih
    exact bind_of_ok h
  | @stmt last last' s rest m m₁ m' hs h _ ih =>
    refine Eq.trans ?_ ih
    obtain ⟨form, span⟩ := s
    -- an expression statement has the other constructor, since it gives a value
    cases form with
    | expr e => exact absurd rfl (hs e)
    | _ => exact bind_of_ok h

theorem GoesThrough.respects (hself : self.Tracks self) {last last' : Value} {before : List Stmt}
    (h : GoesThrough self context last before m last' m') : m.Respects (some context.scope) m' := by
  induction h with
  | nil => exact fun _ => .refl _ _
  | expr h _ ih => exact respects_trans ((hself.eval _ _ _).respects.of_ok h) ih
  | @stmt last _ s _ _ _ _ _ h _ ih =>
    exact respects_trans ((hself.exec (context.holdingValues [last]) s).respects.of_ok h) ih

/-- Wherever the statements of a unit have got to, the functions that it declares are bound in the
global scope. -/
def DeclaresInUnit (self : Evaluator) (unit : CompiledUnit) (m : Machine) : Prop :=
  ∃ m₁, hoist (topContext unit) unit.program.body { m with depth := 0 } = .ok () m₁ ∧
    ∀ before after last m₂, unit.program.body = before ++ after →
      GoesThrough self (topContext unit) .undefined before m₁ last m₂ →
        runUnit self unit m = runStatements self (topContext unit) last after m₂ ∧
          (topContext unit).HasFunctions unit.program.body m₂

theorem declaresInUnit (hself : self.Tracks self) (unit : CompiledUnit)
    (hroot : Scopes.rootId.index < m.world.scopes.all.size) : DeclaresInUnit self unit m := by
  obtain ⟨m₁, hhoist⟩ := exists_hoist (topContext unit) unit.program.body { m with depth := 0 }
  have hfunctions := hasFunctions_hoist (m := { m with depth := 0 }) hroot hhoist
  -- Hoisting makes functions, and no scope goes away.
  have hcount := ((respects_hoist unit.program.body).of_ok hhoist fun s hs => by
    cases hs
    exact hroot).scopeCount
  refine ⟨m₁, hhoist, fun before after last m₂ hbody hbefore => ⟨?_, ?_⟩⟩
  · rw [← hbefore.runStatements after, ← hbody]
    exact bind_of_ok hhoist
  · refine hfunctions.respects (hbefore.respects hself fun s hs => ?_)
    cases hs
    exact Nat.lt_of_lt_of_le hroot hcount

end Eval

end Enclave
