import Enclave.Proofs.Eval.MakingClasses
import Enclave.Proofs.Eval.Scoping

/-!
# Evaluation respects scopes

One lemma for each function of the evaluator, from which it follows by induction on the number of
steps that evaluation respects scopes (`tracks_evaluator`), and that evaluators whose parts do the
same do the same with whole constructs (`Evaluator.Tracks.step`). Names are declared only where a
statement is run, in new scopes for parameters and caught errors, and in the new scope of a class;
and an assignment gives a value only to what is no constant.
-/

namespace Enclave

namespace Eval

variable {but : Option ScopeId} {self self' : Evaluator} {context : Context}

/-! ### Operators and members -/

/-- Operators on two values look at the world only. -/
theorem respects_binary (op : BinaryOp) (left right : Value) :
    Respects but (binary op left right) := by
  -- an operator gives a value or a type error, neither of which changes the world
  have hplus : Respects but (plus left right) := by
    unfold plus
    split <;> first | exact .pure _ | exact respects_raiseType _
  have harithmetic : ∀ sign f, Respects but (arithmetic sign f left right) := fun sign f => by
    unfold arithmetic
    split
    · exact .pure _
    · exact respects_raiseType _
  have horder : ∀ c, Respects but (order c left right) := fun c => by
    unfold order
    split <;> first | exact .pure _ | exact respects_raiseType _
  -- the operator `in` reads the world, and leaves it alone
  have hkey : Respects but (hasKey left right) := by
    unfold hasKey
    split
    · exact .world fun _ => .pure _
    · exact respects_raiseType _
  cases op with
  | eq | notEq => exact .pure _
  | add => exact hplus
  | sub | mul | div | rem => exact harithmetic _ _
  | lt | ltEq | gt | gtEq => exact horder _
  | hasKey => exact hkey

theorem respects_negated (v : Value) : Respects but (negated v) := by
  cases v with
  | number n => exact .pure _
  | _ => exact respects_raiseType _

/-- Members are looked up along prototypes, which changes nothing. -/
theorem respects_getMember (v : Value) (key : PropertyKey) : Respects but (getMember v key) := by
  -- reading a member gives a value or a type error, whatever it is read from
  have hfunction : ∀ f, Respects but (functionMember f key) := fun f => by
    unfold functionMember
    split
    · exact .pure _
    · exact .get fun _ => .pure _
    · exact .pure _
  have hclass : ∀ c, Respects but (classMember c key) := fun c => by
    unfold classMember
    split
    · exact .pure _
    · exact .world fun _ => .pure _
    · exact .pure _
  unfold getMember
  split
  · exact .world fun _ => .pure _
  · exact hfunction _
  · exact hclass _
  · exact .ite (.pure _) (.pure _)
  · exact respects_raiseType _
  · exact respects_raiseType _
  all_goals exact .pure _

/-- Setting a property changes an object, or a class, and no scope. -/
theorem respects_setMember (v : Value) (key : PropertyKey) (value : Value) :
    Respects but (setMember v key value) := by
  cases v with
  | object o => exact respects_setProperty o key value
  | _ => exact respects_raiseType _

theorem respects_deleteMember (v : Value) (key : PropertyKey) :
    Respects but (deleteMember v key) := by
  cases v with
  | object o =>
    refine .world fun w => .bind (respects_changeWorld fun _ => ?_) fun _ => .pure _
    exact World.respects_of_same rfl rfl rfl fun _ => rfl
  | undefined | null => exact respects_raiseType _
  | _ => exact .pure _

/-! ### Names -/

/-- A name that is read leaves its variable as it is. -/
theorem respects_readName (name : String) : Respects but (readName context name) :=
  .world fun w => by
    split
    · exact .pure _
    · exact respects_raise _

/-- Assignments of scripts are those of scopes. -/
theorem writeName_of_assign {name : String} {v : Value} {m : Machine} {scopes : Scopes}
    (h : m.world.scopes.assign context.scope name v = .ok scopes) :
    writeName context name v m = .ok () { m with world := { m.world with scopes } } := by
  obtain ⟨binder, hbinder, rfl⟩ := Scopes.exists_of_assign h
  unfold writeName
  rw [world_bind, hbinder]
  rfl

/-- An assignment that fails leaves the machine as it is. -/
theorem writeName_of_assign_error {name : String} {v : Value} {m : Machine} {e : RuntimeError}
    (h : m.world.scopes.assign context.scope name v = .error e) :
    writeName context name v m = .error (.raised e) m := by
  unfold writeName
  rw [world_bind, Scopes.assignable_of_assign_error h]
  rfl

/-- Assignment respects constants. -/
theorem respects_writeName (name : String) (v : Value) :
    Respects but (writeName context name v) := fun m => by
  cases hassign : m.world.scopes.assign context.scope name v with
  | error e =>
    rw [Leaves, final_of_error (writeName_of_assign_error hassign)]
    exact fun _ => .refl but m.world
  | ok scopes =>
    -- the variable that is found was there before, under the same name, and can be assigned to
    rw [Leaves, final_of_ok (writeName_of_assign hassign)]
    obtain ⟨binder, hbinder, rfl⟩ := Scopes.exists_of_assign hassign
    refine fun _ => World.respects_declare binder name v true (Or.inr ⟨rfl, ?_⟩)
    obtain ⟨-, w, hw⟩ := Scopes.bound?_of_assignable hbinder
    exact congrArg (Option.map Variable.isMutable) hw

/-! ### Private and static access -/

/-- The check of the class around an accessor is made on the context and the bindings alone. -/
theorem respects_boundHome (site : ExprId) : Respects but (boundHome context site) := by
  unfold boundHome
  split
  · exact .stop _
  · exact .world fun _ => .ite (.pure _) (.stop _)

/-- Asking a token for a table writes a note and nothing else. -/
theorem respects_instanceTable (t : TokenId) (v : Value) : Respects but (instanceTable t v) :=
  .world fun w => by
    dsimp only
    split
    · rw [noting_pure]
      exact .bind (respects_record _) fun _ => .pure _
    · exact .bind (respects_record _) fun _ => respects_raise _

theorem respects_receiver (access : Access) : Respects but (receiver context access) := by
  cases access with
  | ofInstance table target => exact .pure _
  | ofClass table home => exact .world fun _ => .ite (.pure _) (.pure _)

theorem respects_getSlot (t : TableId) (key : PropertyKey) : Respects but (getSlot t key) :=
  .world fun _ => .pure _

/-! ### Making classes -/

/-- Two worlds with the same scopes, classes and tokens. -/
structure SharesScopes (w w' : World) : Prop where
  scopes : w'.scopes = w.scopes
  classes : w'.classes = w.classes
  tokens : w'.tokens = w.tokens

/-- Sharing scopes is passed on. -/
theorem SharesScopes.trans {w w' w'' : World} (h : SharesScopes w w') (h' : SharesScopes w' w'') :
    SharesScopes w w'' :=
  ⟨h'.scopes.trans h.scopes, h'.classes.trans h.classes, h'.tokens.trans h.tokens⟩

/-- Methods are functions, which are made beside the scopes. -/
theorem shares_makeMethods (parts : ClassParts) (members : List Member) (m : Machine) :
    Produces (makeMethods parts members) m fun _ w => SharesScopes m.world w := by
  induction members generalizing m with
  | nil => exact ⟨[], m.world, rfl, rfl, rfl, rfl⟩
  | cons member rest ih =>
    obtain ⟨name, form, span⟩ := member
    -- making a method, like storing one, leaves the scopes as they are
    have hmake : ∀ (m : Machine) (definition : FunctionDef),
        Produces (makeMethod parts definition) m fun _ w => SharesScopes m.world w :=
      fun m definition => ⟨_, _, rfl, rfl, rfl, rfl⟩
    -- so the rest of the list shares the scopes of whatever the first member leaves
    have hrest : ∀ {w : World}, SharesScopes m.world w →
        Produces (makeMethods parts rest) { m with world := w } fun _ w' =>
          SharesScopes m.world w' := fun h => (ih _).imp fun _ _ h' => h.trans h'
    cases form with
    | method definition =>
      refine (hmake m definition).bind fun f w hw => ?_
      exact hrest (w := w.setProperty parts.prototype (.string name) (.function f))
        (hw.trans ⟨rfl, rfl, rfl⟩)
    | staticMethod definition =>
      refine (hmake m definition).bind fun f w hw => ?_
      exact hrest (w := w.setSlot parts.statics (.string name) (.function f))
        (hw.trans ⟨rfl, rfl, rfl⟩)
    -- a private method is only returned
    | privateMethod definition =>
      refine (hmake m definition).bind fun f w hw => (hrest hw).bind fun methods w' hw' => ?_
      exact ⟨_, _, rfl, hw'⟩
    | privateField initializer | staticField initializer => exact ih m

/-- So is the function of a constructor. -/
theorem shares_makeConstructor (parts : ClassParts) (definition? : Option FunctionDef)
    (m : Machine) :
    Produces (makeConstructor parts definition?) m fun _ w => SharesScopes m.world w := by
  cases definition? with
  | none => exact ⟨none, m.world, rfl, rfl, rfl, rfl⟩
  | some definition => exact ⟨_, _, rfl, rfl, rfl, rfl⟩

/-- A class that has been made, with its token and its scope. -/
structure ClassAdded (c : ClassDef) (parts : ClassParts) (w w' : World) : Prop where
  scope : parts.scope = ⟨w.scopes.all.size⟩
  classRef : parts.home.classRef = w.nextClass c.displayName
  scopes : ∃ parent, w'.scopes = (w.scopes.child parent).2
  token : ∃ token : DefinitionToken, token.name = c.displayName ∧ w'.tokens = w.tokens.push token
  added : ∃ d : Class, d.scope = parts.scope ∧ d.token = ⟨w.tokens.size⟩ ∧
    w'.classes = w.classes.push d

/-- Making a class adds one class and one scope to the world. -/
theorem added_makeClass (context : Context) (c : ClassDef) (parent : Option ClassRef)
    (m : Machine) :
    ∃ parts m', makeClass context c parent m = .ok parts m' ∧
      ClassAdded c parts m.world m'.world := by
  let parts := announcedParts m.world context c parent
  obtain ⟨methods, w₄, hmethods, h₄⟩ := shares_makeMethods parts c.members
    { m with world := announced m.world context c parent }
  obtain ⟨g?, w₅, hconstructor, h₅⟩ := shares_makeConstructor parts c.constructor
    { m with world := w₄ }
  -- the methods and the constructor share the scopes, classes and tokens announced
  have hshared := h₄.trans h₅
  have hclasses : w₅.classes = m.world.classes := hshared.classes
  refine ⟨parts, _, makeClass_eq hmethods hconstructor, ?_⟩
  exact
    { scope := rfl
      classRef := rfl
      scopes := ⟨context.scope, hshared.scopes⟩
      token := ⟨⟨c.site, c.displayName, _, .empty⟩, rfl, hshared.tokens⟩
      added := ⟨classOf c parts methods g?, rfl, rfl,
        congrArg (Array.push · (classOf c parts methods g?)) hclasses⟩ }

section Added

variable {c : ClassDef} {parts : ClassParts} {w w' w'' : World} (h : ClassAdded c parts w w')

include h

/-- The new scope is empty, so every scope binds what it bound before. -/
theorem ClassAdded.bound? (s : ScopeId) (name : String) : w'.bound? s name = w.bound? s name := by
  obtain ⟨parent, hscopes⟩ := h.scopes
  rw [← World.bound?_childScope w parent]
  exact congrArg (fun scopes : Scopes => (scopes.scopeAt s).find? name) hscopes

/-- It is one scope that comes with a class. -/
theorem ClassAdded.size_scopes : w'.scopes.all.size = w.scopes.all.size + 1 := by
  obtain ⟨parent, hscopes⟩ := h.scopes
  rw [hscopes]
  exact Array.size_push _

section After

variable (hsize : w''.scopes.all.size = w'.scopes.all.size) (hclasses : w''.classes = w'.classes)
  (htokens : w''.tokens = w'.tokens)

include hsize hclasses htokens

/-- The class that was added is the only new one, and it names itself in its scope. -/
theorem ClassAdded.names_itself
    (hself : c.displayName ≠ anonymousName → w''.bound? parts.scope c.displayName =
      some ⟨.class parts.home.classRef, false⟩) (i : ℕ) (hi : w.classes.size ≤ i)
    (hi' : i < w''.classes.size) :
    w.scopes.all.size ≤ (w''.classes.getD i default).scope.index ∧ w''.NamesItself i := by
  obtain ⟨token, hname, hpushed⟩ := h.token
  obtain ⟨d, hscope, hdtoken, hadded⟩ := h.added
  rw [hadded] at hclasses
  rw [hpushed] at htokens
  have hcount : w''.scopes.all.size = w.scopes.all.size + 1 := hsize.trans h.size_scopes
  rw [hclasses, Array.size_push] at hi'
  -- one class was added, so `i` is the new one, and its class and token are those pushed
  obtain rfl : i = w.classes.size := Nat.le_antisymm (Nat.le_of_lt_succ hi') hi
  have hclass : w''.classes.getD w.classes.size default = d := by
    rw [hclasses]
    exact (getD_push _ _ _ _).trans (if_pos rfl)
  have htoken : w''.tokenAt ⟨w.tokens.size⟩ = token := by
    rw [World.tokenAt, htokens]
    exact (getD_push _ _ _ _).trans (if_pos rfl)
  have href : w''.classRef w.classes.size = parts.home.classRef := by
    rw [World.classRef, hclass, hdtoken, htoken, hname, h.classRef]
    rfl
  rw [hclass, hscope, h.scope]
  refine ⟨Nat.le_refl _, ?_, ?_, fun hnamed => ?_⟩
  · rw [hclass, hdtoken, htokens, Array.size_push]
    exact Nat.lt_succ_self _
  · rw [hclass, hscope, h.scope, hcount]
    exact Nat.lt_succ_self _
  · -- a class that has a name is bound to it in its own scope
    have hrefName : parts.home.classRef.name = c.displayName :=
      congrArg ClassRef.name h.classRef
    rw [href, hrefName] at hnamed
    rw [href, hclass, hscope, hrefName]
    exact hself hnamed

/-- Scopes are respected if what is done after the class has been added makes it name itself, and
does no more than to bind names in its scope. -/
theorem ClassAdded.respects
    (hkept : ∀ s name, s ≠ parts.scope → w''.bound? s name = w'.bound? s name)
    (hself : c.displayName ≠ anonymousName → w''.bound? parts.scope c.displayName =
      some ⟨.class parts.home.classRef, false⟩) : w.Respects but w'' := by
  have hmade := h.names_itself hsize hclasses htokens hself
  -- the scope of the class is new, so the scopes from before keep what they bind
  have hold : ∀ s name, s.index < w.scopes.all.size → w''.bound? s name = w.bound? s name := by
    intro s name hs
    refine (hkept s name fun heq => ?_).trans (h.bound? s name)
    rw [heq, h.scope] at hs
    exact absurd hs (Nat.lt_irrefl _)
  have hsame : ∀ s name x, w.bound? s name = some x → w''.bound? s name = some x :=
    fun s name x hx => (hold s name (World.lt_of_bound hx)).trans hx
  -- the token and the class are new too, at the end of their arrays
  obtain ⟨token, -, hpushed⟩ := h.token
  obtain ⟨d, -, -, hadded⟩ := h.added
  rw [hadded] at hclasses
  rw [hpushed] at htokens
  exact
    { scopeCount := by rw [hsize, h.size_scopes]; exact Nat.le_succ _
      bound := fun s name hs => by
        obtain ⟨x, hx⟩ := Option.isSome_iff_exists.mp hs
        exact Option.isSome_of_eq_some (hsame s name x hx)
      constants := fun s name v _ hv => hsame s name _ hv
      mutability := fun s name _ hs => by
        rw [World.mutability?, hold s name hs, World.mutability?]
      tokenCount := by rw [htokens, Array.size_push]; exact Nat.le_succ _
      tokenNames := fun t ht => by
        rw [World.tokenAt, htokens]
        exact congrArg DefinitionToken.name ((getD_push _ _ _ _).trans (if_neg (Nat.ne_of_lt ht)))
      classCount := by rw [hclasses, Array.size_push]; exact Nat.le_succ _
      classes := fun i hi => by
        rw [hclasses]
        exact (getD_push _ _ _ _).trans (if_neg (Nat.ne_of_lt hi))
      made := hmade }

end After

end Added

section Parts

variable (h : self.Tracks self')

include h

theorem tracks_evalOptional (e : Option Expr) :
    Tracks self self' but (fun p => evalOptional p context e) := by
  cases e with
  | none => exact .pure _
  | some e => exact h.eval context e but

/-- Arguments are evaluated one after another, each by the evaluator. -/
theorem tracks_evalArgs (args : List Expr) :
    Tracks self self' but (fun p => evalArgs p context args) := by
  induction args generalizing context with
  | nil => exact .pure _
  | cons e rest ih => exact .bind (h.eval _ e but) fun _ => .bind ih fun _ => .pure _

/-- The target of an accessor is evaluated, and then its table is asked for. -/
theorem tracks_resolve (site : ExprId) (accessor : Accessor) :
    Tracks self self' but (fun p => resolve p context site accessor) := by
  refine .bind (.const (respects_boundHome site)) fun home => ?_
  cases accessor with
  | ofClass span => exact .world fun _ => .pure _
  | ofReceiver span => exact .bind (.const (respects_instanceTable _ _)) fun _ => .pure _
  | ofTarget span e =>
    exact .bind (h.eval _ e but) fun _ =>
      .bind (.const (respects_instanceTable _ _)) fun _ => .pure _

theorem tracks_slotKey (key : SlotKey) :
    Tracks self self' but (fun p => slotKey p context key) := by
  cases key with
  | named name => exact .pure _
  | computed e => exact .bind (h.eval _ e but) fun _ => .pure _

/-- Reading a slot adds nothing but its target and its key. -/
theorem tracks_readSlot (site : ExprId) (accessor : Accessor) (key : SlotKey) :
    Tracks self self' but (fun p => readSlot p context site accessor key) := by
  refine .bind (tracks_resolve h site accessor) fun access => ?_
  cases key with
  | named name => exact .const (respects_getSlot _ _)
  | computed e =>
    refine .bind (.const (respects_receiver access)) fun target => ?_
    exact .bind (tracks_slotKey h _) fun _ => .const (respects_getSlot _ _)

theorem tracks_readMethod (site : ExprId) (accessor : Accessor) (key : SlotKey) :
    Tracks self self' but (fun p => readMethod p context site accessor key) :=
  .bind (tracks_resolve h site accessor) fun access =>
    .bind (.const (respects_receiver access)) fun _ => .bind (tracks_slotKey h key) fun _ =>
      .bind (.const (respects_getSlot _ _)) fun _ => .pure _

/-- So does assigning to one, with the value. -/
theorem tracks_writeSlot (site : ExprId) (accessor : Accessor) (key : SlotKey) (e : Expr) :
    Tracks self self' but (fun p => writeSlot p context site accessor key e) :=
  .bind (tracks_resolve h site accessor) fun _ => .bind (tracks_slotKey h key) fun _ =>
    .bind (h.eval _ e but) fun _ => .bind (.const (respects_setSlot _ _ _)) fun _ => .pure _

theorem tracks_deleteSlot (site : ExprId) (accessor : Accessor) (key : SlotKey) :
    Tracks self self' but (fun p => deleteSlot p context site accessor key) :=
  .bind (tracks_resolve h site accessor) fun _ => .bind (tracks_slotKey h key) fun _ =>
    .world fun _ => .bind (.const (respects_changeWorld fun _ =>
      World.respects_of_same rfl rfl rfl fun _ => rfl)) fun _ => .pure _

theorem tracks_hasSlot (site : ExprId) (accessor : Accessor) (key : PropertyKey) :
    Tracks self self' but (fun p => hasSlot p context site accessor key) :=
  .bind (tracks_resolve h site accessor) fun _ => .world fun _ => .pure _

/-! ### Calls -/

/-- A value that can be called is run, and any other one raises an error. -/
theorem tracks_callValue (held : List Node) (callee this : Value) (args : List Value) :
    Tracks self self' but (fun p => callValue p held callee this args) := by
  cases callee with
  | function f => exact h.invoke _ f this args none but
  | _ => exact tracks_raiseType _

omit h in
/-- The functions of a block are declared in the scope it is run in. -/
theorem respects_hoist (body : List Stmt) : Respects (some context.scope) (hoist context body) := by
  induction body with
  | nil => exact .pure _
  | cons s rest ih =>
    -- only function declarations add to the scope, and they may: it is the one excepted
    unfold hoist
    split
    · next heq => cases heq
    · next heq =>
      cases heq
      refine .bind (respects_makeFunction _ _ _ _) fun f => .bind ?_ fun _ => ih
      exact respects_changeWorld fun w => World.respects_declare _ _ _ _ (Or.inl rfl)
    · next heq =>
      cases heq
      exact ih

/-- The statements of a block run in its own scope. -/
theorem tracks_execAll (body : List Stmt) :
    Tracks self self' (some context.scope) (fun p => execAll p context body) := by
  induction body with
  | nil => exact .pure _
  | cons s rest ih =>
    refine .bind (h.exec context s) fun flow => ?_
    cases flow with
    | returned v => exact .pure _
    | normal => exact ih

/-- A block has a new scope, in which it alone may declare. -/
theorem tracks_execBlock (body : List Stmt) :
    Tracks self self' (some context.scope) (fun p => execBlock p context body) :=
  .bind (.const (respects_hoist body)) fun _ => tracks_execAll h body

omit h in
/-- Parameters are declared in the scope of the call. -/
theorem respects_bindParams (scope : ScopeId) (names : List String) (args : List Value) :
    Respects (some scope) (bindParams scope names args) := by
  induction names generalizing args with
  | nil => exact .pure _
  | cons name names ih =>
    refine .bind (respects_changeWorld fun w => ?_) fun _ => ih _
    exact World.respects_declare _ _ _ _ (Or.inl rfl)

/-- A call makes a scope for the parameters and runs the body there. -/
theorem tracks_runScript (held : List Node) (c : Closure) (this : Value) (args : List Value)
    (construction : Option ConstructionId) :
    Tracks self self' but (fun p => runScript p held c this args construction) := by
  refine tracks_inNewScope c.scope fun s =>
    .bind (.const (respects_bindParams s _ args)) fun _ => ?_
  let inner : Context := ⟨⟨c.unit, this, c.home, construction⟩, s,
    nodesOf (args.drop c.definition.params.length) ++ held⟩
  have hblock : Tracks self self' (some inner.scope) fun p =>
      execBlock p inner c.definition.body := tracks_execBlock h _
  exact .bind hblock fun flow => by cases flow <;> exact .pure _

/-- What is built in touches no scope, except through a function that it calls. -/
theorem tracks_runNative (held : List Node) (n : Native) (this : Value) (args : List Value) :
    Tracks self self' but (fun p => runNative p held n this args) := by
  cases n with
  | print => exact .bind (.const (.beside fun _ => rfl)) fun _ => .pure _
  | assert => exact .ite (.pure _) (.const (respects_raise _))
  | symbol =>
    refine .bind (.const (respects_onWorld fun w => ?_)) fun _ => .pure _
    exact World.respects_of_same rfl rfl rfl fun _ => rfl
  -- it hands its arguments on to a function of the script
  | call =>
    cases this with
    | function f => exact h.invoke _ f _ _ none but
    | _ => exact tracks_raiseType _

/-- **Calls** respect all scopes. -/
theorem tracks_invoke (held : List Node) (f : FunctionRef) (this : Value) (args : List Value)
    (construction : Option ConstructionId) :
    Tracks self self' but (fun p => invoke p held f this args construction) := by
  refine .get fun m => .ite (.bind (tracks_record _) fun _ => .const (respects_raise _)) ?_
  refine .bind (.const (.beside fun _ => rfl)) fun _ => ?_
  refine Tracks.thenAlways ?_ fun _ => rfl
  split
  · exact tracks_runNative h held _ this args
  · exact tracks_runScript h held _ this args construction

/-! ### Classes -/

/-- The superclass is evaluated before anything of the class is made. -/
theorem tracks_parentOf (c : ClassDef) : Tracks self self' but (fun p => parentOf p context c) := by
  unfold parentOf
  split
  · exact .pure _
  · next e _ =>
    refine .bind (h.eval context e but) fun v => ?_
    cases v with
    | «class» c => exact .pure _
    | _ => exact tracks_raiseType _

/-- Static fields are evaluated and stored in the table of the class, one after another. -/
theorem tracks_storeStatics (statics : TableId) (members : List Member) :
    Tracks self self' but (fun p => storeStatics p context statics members) := by
  induction members with
  | nil => exact .pure _
  | cons member rest ih =>
    obtain ⟨name, form, span⟩ := member
    cases form with
    -- only a static field is evaluated here; the other members run later
    | staticField initializer =>
      refine .bind (tracks_evalOptional h initializer) fun _ => ?_
      exact .bind (.const (respects_setSlot _ _ _)) fun _ => ih
    | _ => exact ih

/-- **Class definitions** respect all scopes: what is declared is declared in the new one. -/
theorem tracks_defineClass (c : ClassDef) :
    Tracks self self' but (fun p => defineClass p context c) := by
  refine .bind (tracks_parentOf h c) fun parent => .advance fun m => ?_
  -- making the class and binding its name run the same on both sides
  obtain ⟨parts, m₁, hrun, hadded⟩ := added_makeClass context c parent m
  obtain ⟨unit, scope, home, prototype, statics⟩ := parts
  let inner : Context := ⟨⟨unit, .class home.classRef, some home, none⟩, scope, context.nodes⟩
  have hstatics : Tracks self self' but fun p => do
      storeStatics p inner statics c.members
      return home.classRef :=
    .bind (tracks_storeStatics h statics c.members) fun _ => .pure _
  have hscope : scope.index < m₁.world.scopes.all.size := by
    rw [hadded.size_scopes, show scope = ⟨m.world.scopes.all.size⟩ from hadded.scope]
    exact Nat.lt_succ_self _
  -- up to here both have run: what is left are the static fields
  cases hname : c.name with
  | some name =>
    refine ⟨_, { m₁ with world := m₁.world.declare scope name (.class home.classRef) false },
      fun p => ?_, hadded.respects (Array.size_modify ..) rfl rfl ?_ fun _ => ?_, hstatics⟩
    · change EStateM.bind (makeClass context c parent) _ m = _
      rw [EStateM.bind, hrun]
      rfl
    · intro s other hs
      change (m₁.world.declare _ _ _ _).bound? s other = _
      rw [World.bound?_declare, if_neg fun h => hs h.1.symm]
    · change (m₁.world.declare _ _ _ _).bound? scope c.displayName = _
      rw [World.bound?_declare, if_pos ⟨rfl, hscope, by rw [ClassDef.displayName, hname]; rfl⟩]
  | none =>
    refine ⟨_, m₁, fun p => ?_, hadded.respects rfl rfl rfl (fun _ _ _ => rfl) fun hnamed => ?_,
      hstatics⟩
    · change EStateM.bind (makeClass context c parent) _ m = _
      rw [EStateM.bind, hrun]
    · -- a class without a name has no name to be bound to
      rw [ClassDef.displayName, hname] at hnamed
      exact absurd rfl hnamed

/-! ### Construction -/

omit h in
theorem respects_storeMethods (c : ClassRef) (inst : ObjectId) (table : TableId)
    (methods : List (String × FunctionRef)) : Respects but (storeMethods c inst table methods) := by
  induction methods with
  | nil => exact .pure _
  | cons method rest ih =>
    rw [storeMethods_cons]
    exact .bind (respects_setSlot _ _ _) fun _ => .bind (respects_record _) fun _ => ih

/-- Field initializers run in the scope of the class. -/
theorem tracks_storeFields (c : ClassRef) (inst : ObjectId) (table : TableId)
    (fields : List Field) :
    Tracks self self' but (fun p => storeFields p context c inst table fields) := by
  induction fields with
  | nil => exact .pure _
  | cons field rest ih =>
    simp only [storeFields_cons]
    refine .bind (tracks_record _) fun _ => .bind (tracks_evalOptional h _) fun _ => ?_
    exact .bind (.const (respects_setSlot _ _ _)) fun _ => .bind (tracks_record _) fun _ => ih

/-- Methods and fields go into the table of the instance. -/
theorem tracks_installPrivate (held : List Node) (c : ClassRef) (inst : ObjectId) :
    Tracks self self' but (fun p => installPrivate p held c inst) := by
  simp only [installPrivate_stepwise, storePrivate_stepwise]
  refine .bind ?_ fun _ => tracks_record _
  refine .world fun w => .bind (.const (respects_registerInstance _ _)) fun table => ?_
  refine .bind (tracks_record _) fun _ => .bind (.const (respects_storeMethods _ _ _ _)) fun _ => ?_
  exact tracks_storeFields h c inst table _

omit h in
theorem respects_constructionAt (id : ConstructionId) : Respects but (constructionAt id) :=
  .get fun _ => .pure _

/-- The classes of a chain initialize an instance in turn, each by its constructor. -/
theorem tracks_initializeAs (held : List Node) (inst : ObjectId) (args : List Value)
    (chain : List ClassRef) :
    Tracks self self' but (fun p => initializeAs p held inst args chain) := by
  induction chain with
  | nil => exact .stop _
  | cons c ancestors ih =>
    simp only [initializeAs_cons]
    refine .bind (tracks_record _) fun _ => .world fun w => ?_
    have hinitialized : ∀ _ : Unit, Tracks self self' but fun _ => record (.initialized c inst) :=
      fun _ => tracks_record _
    -- the ways to initialize: nothing written, a base constructor, a parent first, `super` inside
    split
    · exact .bind (tracks_installPrivate h _ c inst) hinitialized
    · refine .bind (tracks_installPrivate h _ c inst) fun _ => ?_
      exact .bind (h.invoke held _ _ args none but) fun _ => tracks_record _
    · exact .bind ih fun _ => .bind (tracks_installPrivate h held c inst) hinitialized
    · refine .bind (.const fun m _ => World.Respects.refl but m.world) fun construction => ?_
      refine .bind (h.invoke held _ _ args _ but) fun _ =>
        .bind (.const (respects_constructionAt _)) fun _ => ?_
      split
      · exact .bind (tracks_raiseType _) hinitialized
      · exact tracks_record _

/-- The construction that runs goes on with the parent. -/
theorem tracks_superCall (args : List Value) :
    Tracks self self' but (fun p => superCall p context args) := by
  simp only [superCall_stepwise]
  split
  · exact .stop _
  · next id _ =>
    refine .bind (.const (respects_constructionAt id)) fun construction => ?_
    -- what follows the mark hands over, the same on both sides
    have hrest : Tracks self self' but fun p => (do
        markSuperCalled id
        let ancestors := ((← world).classChain construction.classRef).drop 1
        initializeAs p context.nodes construction.inst args ancestors
        installPrivate p context.nodes construction.classRef construction.inst
        record (.superReturned construction.classRef construction.inst) : Eval Unit) :=
      .bind (.const (.beside fun _ => rfl)) fun _ => .world fun w =>
        .bind (tracks_initializeAs h _ _ args _) fun _ =>
          .bind (tracks_installPrivate h _ _ _) fun _ => tracks_record _
    exact .ite (.bind (tracks_raiseType _) fun _ => hrest) hrest

omit h in
/-- Registering an instance makes tables, not variables. -/
theorem respects_registerAll (inst : ObjectId) (chain : List ClassRef) :
    Respects but (registerAll inst chain) := by
  induction chain with
  | nil => exact .pure _
  | cons c rest ih =>
    rw [registerAll_cons]
    refine .world fun w => .bind (respects_registerInstance _ _) fun _ => ?_
    exact .bind (respects_record _) fun _ => ih

/-- An instance is allocated and registered before its classes initialize it. -/
theorem tracks_construct (held : List Node) (c : ClassRef) (args : List Value) :
    Tracks self self' but (fun p => construct p held c args) := by
  have hallocate : Respects but (allocate c) := by
    rw [allocate_stepwise]
    refine .world fun w => .bind (respects_newObject _) fun inst =>
      .bind (respects_record _) fun _ => ?_
    exact .world fun w => .bind (respects_registerAll inst _) fun _ => .pure _
  -- allocation is no evaluation; from there on it is the initialization by the whole chain
  simp only [construct_stepwise]
  refine .bind (.const hallocate) fun inst => .world fun w => ?_
  refine .bind (tracks_initializeAs h _ inst args _) fun _ => ?_
  exact .bind (tracks_record _) fun _ => .pure _

/-! ### Expressions -/

/-- The properties of a literal are stored in the order in which they stand. -/
theorem tracks_storeProperties (o : ObjectId) (properties : List Property) :
    Tracks self self' but (fun p => storeProperties p context o properties) := by
  induction properties with
  | nil => exact .pure _
  | cons p rest ih =>
    obtain ⟨name, e⟩ := p
    exact .bind (h.eval _ e but) fun _ => .bind (.const (respects_setProperty _ _ _)) fun _ => ih

theorem tracks_indexed (e key : Expr) : Tracks self self' but (fun p => indexed p context e key) :=
  .bind (h.eval _ e but) fun _ => .bind (h.eval _ key but) fun _ => .pure _

theorem tracks_deleteTarget (operand : Expr) :
    Tracks self self' but (fun p => deleteTarget p context operand) := by
  unfold deleteTarget
  split
  · exact .bind (h.eval _ _ but) fun _ => .const (respects_deleteMember _ _)
  · exact .bind (tracks_indexed h _ _) fun _ => .const (respects_deleteMember _ _)
  · exact tracks_deleteSlot h _ _ _
  · exact .stop _

/-- A name that means nothing is not evaluated to find its type. -/
theorem tracks_typeOf (operand : Expr) :
    Tracks self self' but (fun p => typeOf p context operand) := by
  have hrest : ∀ isUnknown : Bool, Tracks self self' but fun p => (do
      if isUnknown then return .string "undefined"
      else return .string (← p.eval context operand).typeName : Eval Value) := fun isUnknown =>
    .ite (.pure _) (.bind (h.eval _ operand but) fun _ => .pure _)
  -- names that are looked up first, and everything else
  unfold typeOf
  split
  · exact .world fun _ => hrest _
  · exact hrest false

theorem tracks_unary (op : UnaryOp) (operand : Expr) :
    Tracks self self' but (fun p => unary p context op operand) := by
  cases op with
  | delete => exact tracks_deleteTarget h operand
  | typeof => exact tracks_typeOf h operand
  | not => exact .bind (h.eval _ operand but) fun _ => .pure _
  | negate => exact .bind (h.eval _ operand but) fun _ => .const (respects_negated _)

/-- The kinds of targets, each with the value after it. -/
theorem tracks_assign (target e : Expr) :
    Tracks self self' but (fun p => assign p context target e) := by
  -- a name, a property, an index, a slot; nothing else can be assigned to
  unfold assign
  split
  · exact .bind (h.eval _ e but) fun _ => .bind (.const (respects_writeName _ _)) fun _ => .pure _
  · exact .bind (h.eval _ _ but) fun _ => .bind (h.eval _ e but) fun _ =>
      .bind (.const (respects_setMember _ _ _)) fun _ => .pure _
  · exact .bind (tracks_indexed h _ _) fun _ => .bind (h.eval _ e but) fun _ =>
      .bind (.const (respects_setMember _ _ _)) fun _ => .pure _
  · exact tracks_writeSlot h _ _ _ e
  · exact .stop _

/-- What is called is evaluated along with its receiver, and then the arguments are. -/
theorem tracks_call (callee : Expr) (args : List Expr) :
    Tracks self self' but (fun p => call p context callee args) := by
  -- the receiver depends on the form of what is called
  have hcallee : Tracks self self' but (fun p => calleeOf p context callee) := by
    unfold calleeOf
    split
    · exact .bind (h.eval _ _ but) fun _ => .bind (.const (respects_getMember _ _)) fun _ => .pure _
    · exact .bind (tracks_indexed h _ _) fun _ => .bind (.const (respects_getMember _ _)) fun _ =>
        .pure _
    · exact tracks_readMethod h _ _ _
    · exact .bind (h.eval _ _ but) fun _ => .pure _
    · exact .bind (h.eval _ _ but) fun _ => .pure _
  exact .bind hcallee fun _ => .bind (tracks_evalArgs h args) fun _ => tracks_callValue h _ _ _ _

theorem tracks_new (callee : Expr) (args : List Expr) :
    Tracks self self' but (fun p => new p context callee args) := by
  refine .bind (h.eval _ callee but) fun v => .bind (tracks_evalArgs h args) fun values => ?_
  cases v with
  | «class» c => exact tracks_construct h _ c values
  | _ => exact tracks_raiseType _

/-- **Expressions** respect all scopes. -/
theorem tracks_evalExpr (e : Expr) : Tracks self self' but (fun p => evalExpr p context e) := by
  unfold evalExpr
  -- one case per form: what it evaluates by itself, and what the evaluator does for it
  cases e.form with
  | number | string | bool | null | undefined | this => exact .pure _
  | ident name => exact .const (respects_readName name)
  | object properties =>
    exact .bind (.const (respects_newObject _)) fun _ =>
      .bind (tracks_storeProperties h _ properties) fun _ => .pure _
  | functionDef definition =>
    exact .bind (.const (respects_makeFunction _ definition _ _)) fun _ => .pure _
  | classDef definition => exact .bind (tracks_defineClass h definition) fun _ => .pure _
  | unary op operand => exact tracks_unary h op operand
  | binary op left right =>
    exact .bind (h.eval _ left but) fun _ => .bind (h.eval _ right but) fun _ =>
      .const (respects_binary op _ _)
  | logical op left right =>
    exact .bind (h.eval _ left but) fun _ => .ite (.pure _) (h.eval _ right but)
  | assign target value => exact tracks_assign h target value
  | member object name =>
    exact .bind (h.eval _ object but) fun _ => .const (respects_getMember _ (.string name))
  | index object key =>
    exact .bind (tracks_indexed h object key) fun _ => .const (respects_getMember _ _)
  | call callee args => exact tracks_call h callee args
  | new callee args => exact tracks_new h callee args
  | slot accessor key => exact tracks_readSlot h _ accessor key
  | hasSlot key accessor =>
    exact .bind (h.eval _ key but) fun _ => tracks_hasSlot h _ accessor _
  | superCall args =>
    exact .bind (tracks_evalArgs h args) fun _ => .bind (tracks_superCall h _) fun _ => .pure _
  -- no code runs for it, and what is found is read from the world
  | superMember name =>
    change Tracks self self' but fun _ => superMember context name
    unfold superMember
    split
    · exact .stop _
    · exact .world fun _ => .pure _

/-! ### Statements -/

omit h in
theorem respects_errorValue (e : RuntimeError) : Respects but (errorValue e) := by
  unfold errorValue
  split
  · exact .pure _
  · exact .bind (respects_newObject _) fun _ => .bind (respects_setProperty _ _ _) fun _ =>
      .bind (respects_setProperty _ _ _) fun _ => .pure _

/-- The handler of an error runs in a scope of its own, with the error declared there. -/
theorem tracks_attempt (body handler : List Stmt) (param : String) :
    Tracks self self' but (fun p => attempt p context body param handler) := by
  refine tracks_inNewScope context.scope fun s => ?_
  -- body and handler have a scope each, which was not there before
  have hbody : Tracks self self' (some (context.within s).scope) fun p =>
      catching (execBlock p (context.within s) body) := .catching (tracks_execBlock h body)
  refine .bind hbody fun result => ?_
  cases result with
  | ok flow => exact .pure _
  | error e =>
    refine tracks_inNewScope context.scope fun inner =>
      .bind (.const (respects_errorValue e)) fun v => ?_
    have hdeclare : Respects (some inner) (changeWorld (·.declare inner param v true)) :=
      respects_changeWorld fun w => World.respects_declare _ _ _ _ (Or.inl rfl)
    let handling : Context := (context.within inner).holding [.scope s]
    have hhandler : Tracks self self' (some handling.scope) fun p => execBlock p handling handler :=
      tracks_execBlock h handler
    exact .bind (.const hdeclare) fun _ => hhandler

/-- **Statements** respect all scopes but the one they are run in. -/
theorem tracks_execStmt (s : Stmt) :
    Tracks self self' (some context.scope) fun p => execStmt p context s := by
  unfold execStmt
  -- a declaration changes a binding of the very scope that `but` leaves out
  have hdeclare : ∀ name v isMutable, Tracks self self' (some context.scope) fun _ =>
      changeWorld (·.declare context.scope name v isMutable) := fun name v isMutable =>
    .const (respects_changeWorld fun w => World.respects_declare _ _ _ _ (Or.inl rfl))
  cases s.form with
  | declare name isMutable initializer =>
    exact .bind (tracks_evalOptional h initializer) fun _ => .bind (hdeclare name _ isMutable)
      fun _ => .pure _
  | expr e => exact .bind (h.eval _ e _) fun _ => .pure _
  | block body =>
    -- a block changes a scope of its own, which was not there before
    have hbody : ∀ s, Tracks self self' (some (context.within s).scope)
        fun p => execBlock p (context.within s) body := fun s => tracks_execBlock h body
    exact tracks_inNewScope context.scope hbody
  | cond test yes no =>
    refine .bind (h.eval _ test _) fun v => ?_
    split
    · exact h.exec context yes
    · cases no with
      | some no => exact h.exec context no
      | none => exact .pure _
  | loop test body =>
    have hround : Tracks self self' (some context.scope) fun p => loopRound p context test body :=
      .bind (h.eval _ test _) fun v => .ite (.bind (h.exec context body) fun _ => .pure _) (.pure _)
    exact tracks_rounds h hround
  | ret value => exact .bind (tracks_evalOptional h value) fun _ => .pure _
  | raise e => exact .bind (h.eval _ e _) fun _ => .const (respects_raise _)
  | attempt body param handler => exact tracks_attempt h body handler param
  | functionDef definition => exact .pure _
  | classDef definition =>
    exact .bind (tracks_defineClass h definition) fun _ => .bind (hdeclare _ _ _) fun _ => .pure _

/-! ### Units -/

/-- The statements of a unit run in the outermost scope, and the value of the last one is kept. -/
theorem tracks_runStatements (last : Value) (body : List Stmt) :
    Tracks self self' (some context.scope) fun p => runStatements p context last body := by
  induction body generalizing last with
  | nil => exact .pure _
  | cons s rest ih =>
    obtain ⟨form, span⟩ := s
    cases form with
    | expr e => exact .bind (h.eval _ e _) fun v => ih v
    | _ =>
      -- anything else is executed, and a return ends the unit
      refine .bind (h.exec (context.holdingValues [last]) _) fun flow => ?_
      cases flow with
      | returned v => exact .pure _
      | normal => exact ih last

/-- **Units** respect all scopes but the global one. -/
theorem tracks_runUnit (unit : CompiledUnit) :
    Tracks self self' (some Scopes.rootId) fun p => runUnit p unit := by
  have hhoist : Respects (some (topContext unit).scope)
      (hoist (topContext unit) unit.program.body) := respects_hoist unit.program.body
  have hrun : Tracks self self' (some (topContext unit).scope) fun p =>
      runStatements p (topContext unit) .undefined unit.program.body :=
    tracks_runStatements h .undefined unit.program.body
  exact .bind (.const (.beside fun _ => rfl)) fun _ => .bind (.const hhoist) fun _ => hrun

end Parts

end Eval

/-- Evaluators whose parts track each other track each other. -/
theorem Evaluator.Tracks.step {self self' : Evaluator} (h : self.Tracks self') (rounds : ℕ) :
    (step rounds self).Tracks (step rounds self') where
  eval _ e _ := ⟨(Eval.tracks_evalExpr h e).respects, (Eval.tracks_evalExpr h e).same⟩
  exec _ s := ⟨(Eval.tracks_execStmt h s).respects, (Eval.tracks_execStmt h s).same⟩
  invoke held f this args construction _ :=
    have hcall := Eval.tracks_invoke h held f this args construction
    ⟨hcall.respects, hcall.same⟩
  rounds := rfl

/-- **Evaluation respects scopes**, in however many steps: expressions and calls respect all,
statements all but the one they are run in. -/
theorem tracks_evaluator (steps : ℕ) : (evaluator steps).Tracks (evaluator steps) := by
  induction steps with
  -- without steps left nothing runs, which respects everything
  | zero =>
    exact
      { eval := fun _ _ _ => ⟨.stop .exhausted, fun _ _ => Or.inl rfl⟩
        exec := fun _ _ => ⟨.stop .exhausted, fun _ _ => Or.inl rfl⟩
        invoke := fun _ _ _ _ _ _ => ⟨.stop .exhausted, fun _ _ => Or.inl rfl⟩
        rounds := rfl }
  | succ steps ih => exact ih.step steps

end Enclave
