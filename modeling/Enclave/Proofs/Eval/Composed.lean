import Enclave.Proofs.Eval.Composition

/-!
# Every form is built

Every form of expression and of statement, every call and every class definition is put together
from operations and parts, whatever the terms are, if what it is made of may be evaluated under them
(`built_evalExpr`, `built_execStmt`, `built_runScript`, `built_runNative`). The cases are those of
the evaluator, one lemma for each of its functions.
-/

namespace Enclave.Eval

variable {R : Terms} {own : Pieces} {m : Machine} {context : Context}

/-! ### Operators -/

/-- Errors of a type have a text for their value. -/
theorem built_raiseType {α : Type} {q : α → Machine → Prop} (fault : TypeFault) :
    Built R own (fun _ => raiseType fault) m q :=
  .raise fun _ h => nomatch h

/-- Arithmetic gives a number, or an error. -/
theorem built_arithmetic (sign : String) (op : Number → Number → Number) (left right : Value) :
    Built R own (fun _ => arithmetic sign op left right) m Gives := by
  unfold arithmetic
  split
  · exact .pure trivial
  · exact built_raiseType _

/-- A sum gives a number or a text. -/
theorem built_plus (left right : Value) : Built R own (fun _ => plus left right) m Gives := by
  unfold plus
  split
  all_goals first | exact .pure trivial | exact built_raiseType _

/-- Comparing gives a truth value. -/
theorem built_order (c : Comparison) (left right : Value) :
    Built R own (fun _ => order c left right) m Gives := by
  unfold order
  split
  all_goals first | exact .pure trivial | exact built_raiseType _

/-- Whether a key is there is looked up along prototypes. -/
theorem built_hasKey (key container : Value) :
    Built R own (fun _ => hasKey key container) m Gives := by
  unfold hasKey
  split
  · exact .world (fun _ => rfl) (.pure trivial)
  · exact built_raiseType _

/-- Operators on two values are made of these. -/
theorem built_binary (op : BinaryOp) (left right : Value) :
    Built R own (fun _ => binary op left right) m Gives := by
  cases op with
  | eq | notEq => exact .pure trivial
  | add => exact built_plus left right
  | sub | mul | div | rem => exact built_arithmetic _ _ left right
  | lt | ltEq | gt | gtEq => exact built_order _ left right
  | hasKey => exact built_hasKey left right

theorem built_negated (v : Value) : Built R own (fun _ => negated v) m Gives := by
  cases v with
  | number n => exact .pure trivial
  | _ => exact built_raiseType _

/-! ### Members -/

/-- Functions have few members, and these are built in. -/
theorem built_functionMember (f : FunctionRef) (key : PropertyKey) :
    Built R own (fun _ => functionMember f key) m Gives := by
  unfold functionMember
  split
  · exact .pure trivial
  · exact .atom .callFunction
  · exact .pure trivial

/-- A class has its static methods for members, and its prototype. -/
theorem built_classMember (c : ClassRef) (key : PropertyKey) :
    Built R own (fun _ => classMember c key) m Gives := by
  unfold classMember
  split
  · exact .pure trivial
  · exact .world (fun _ => rfl) (.pure trivial)
  · exact .pure trivial

/-- What a member comes to was in the world already. -/
theorem built_getMember (hm : m.IsTidy) (v : Value) (key : PropertyKey) :
    Built R own (fun _ => getMember v key) m Gives := by
  unfold getMember
  split
  · -- an object has its own properties and those of its prototypes
    refine .world (fun _ => rfl) (.pure ?_)
    exact World.passes_getD fun v hv => hm.world.passes_of_getProperty? hv
  · exact built_functionMember _ key
  · exact built_classMember _ key
  · split
    all_goals exact .pure trivial
  · exact built_raiseType _
  · exact built_raiseType _
  all_goals exact .pure trivial

/-- What is stored was passed to the operation. -/
theorem built_setMember (v : Value) (key : PropertyKey) {value : Value}
    (hvalue : m.world.Passes value) :
    Built R own (fun _ => setMember v key value) m fun _ _ => True := by
  cases v with
  | object o => exact .atom (.setProperty o key hvalue)
  | _ => exact built_raiseType _

theorem built_deleteMember (v : Value) (key : PropertyKey) :
    Built R own (fun _ => deleteMember v key) m Gives := by
  cases v with
  | object o =>
    refine .world (fun _ => rfl) ?_
    exact .bind (.atom (.deleteProperty o key)) fun _ _ _ _ _ => .pure trivial
  | undefined | null => exact built_raiseType _
  | _ => exact .pure trivial

/-! ### Blocks -/

/-- A new scope holds nothing yet. -/
theorem built_newScope (parent : ScopeId) :
    Built R own (fun _ => newScope parent) m fun _ _ => True :=
  .atom (.childScope parent)

/-- A variable holds what it is declared with. -/
theorem built_declare (s : ScopeId) (name : String) {v : Value} (isMutable : Bool)
    (hv : m.world.Passes v) :
    Built R own (fun _ => changeWorld fun w => w.declare s name v isMutable) m fun _ _ => True :=
  .atom (.declare s name isMutable hv)

/-- What runs in a call of a function. -/
def runFunction (self : Evaluator) (held : List Node) (g : Function) (this : Value)
    (args : List Value) (construction : Option ConstructionId) : Eval Value :=
  match g with
  | .native n => runNative self held n this args
  | .script c => runScript self held c this args construction

section Parts

variable (hR : Supports R own)

include hR

/-- A function is made and declared for each declaration among the statements. -/
theorem built_hoist (hc : R.Suits m context.frame) (body : List Stmt)
    (hbody : ∀ s ∈ body, R.code (.stmt s)) :
    Built R own (fun _ => hoist context body) m fun _ _ => True := by
  -- the cases are those of `hoist`: nothing left, a function declaration, any other statement
  induction body generalizing m with
  | nil => exact .pure trivial
  | cons s rest ih =>
    have hrest : ∀ s ∈ rest, R.code (.stmt s) := fun s hs => hbody s (List.mem_cons_of_mem _ hs)
    unfold hoist
    split
    · next heq => cases heq
    · next definition span rest' heq =>
      cases heq
      have hdefinition : R.code (.function definition) :=
        (hR.covers _ (hbody _ List.mem_cons_self)).parts _ List.mem_cons_self
      refine .bind (.atom (.makeFunction _ _ hdefinition hc.allows)) fun f m₁ hm₁ hext₁ hf => ?_
      refine .bind (built_declare _ _ _ hf) fun _ m₂ _ hext₂ _ => ?_
      exact ih ((hc.extends hext₁).extends hext₂) hrest
    · next heq =>
      cases heq
      exact ih hc hrest

omit hR in
/-- Statements are executed in turn, up to one that returns. -/
theorem built_execAll (hc : R.Suits m context.frame) (body : List Stmt)
    (hbody : ∀ s ∈ body, R.code (.stmt s)) :
    Built R own (fun self => execAll self context body) m Returns := by
  induction body generalizing m with
  | nil => exact .pure fun _ h => nomatch h
  | cons s rest ih =>
    refine .bind (.exec hc (hbody s List.mem_cons_self)) fun flow m₁ _ hext hflow => ?_
    cases flow with
    | returned v => exact .pure hflow
    | normal => exact ih (hc.extends hext) fun s hs => hbody s (List.mem_cons_of_mem _ hs)

/-- So they are in a new scope. -/
theorem built_execBlock (hc : R.Suits m context.frame) (body : List Stmt)
    (hbody : ∀ s ∈ body, R.code (.stmt s)) :
    Built R own (fun self => execBlock self context body) m Returns :=
  .bind (built_hoist hR hc body hbody) fun _ _ _ hext _ =>
    built_execAll (hc.extends hext) body hbody

/-! ### Calls -/

omit hR in
/-- A symbol holds nothing. -/
theorem built_makeSymbol (args : List Value) :
    Built R own (fun _ => makeSymbol args) m Gives :=
  .bind (.atom (.newSymbol _)) fun _ _ _ _ _ => .pure trivial

omit hR in
/-- A function that is called for its receiver gets values that are passed on. -/
theorem built_callReceiver (held : List Node) {this : Value} {args : List Value}
    (hthis : m.world.Passes this) (hargs : ∀ v ∈ args, m.world.Passes v) :
    Built R own (fun self => callReceiver self held this args) m Gives := by
  cases this with
  | function f =>
    exact .invoke _ hthis (World.passes_headD hargs) fun v hv => hargs v (List.mem_of_mem_drop hv)
  | _ => exact built_raiseType _

omit hR in
/-- **Functions that are there from the start.** -/
theorem built_runNative (held : List Node) (n : Native) {this : Value} {args : List Value}
    (hthis : m.world.Passes this) (hargs : ∀ v ∈ args, m.world.Passes v) :
    Built R own (fun self => runNative self held n this args) m Gives := by
  cases n with
  | print => exact .atom (.print args)
  -- an assertion that fails raises an error without a value of its own
  | assert =>
    change Built R own (fun _ => Eval.assert args) m Gives
    unfold Eval.assert
    split
    · exact .pure trivial
    · exact .raise fun _ h => nomatch h
  | symbol => exact built_makeSymbol args
  | call => exact built_callReceiver held hthis hargs

omit hR in
/-- Parameters hold the arguments, and those that are missing hold nothing. -/
theorem built_bindParams (scope : ScopeId) (names : List String) {args : List Value}
    (hargs : ∀ v ∈ args, m.world.Passes v) :
    Built R own (fun _ => bindParams scope names args) m fun _ _ => True := by
  induction names generalizing m args with
  | nil => exact .pure trivial
  | cons name names ih =>
    refine .bind (built_declare _ _ _ (World.passes_headD hargs)) fun _ m₁ _ hext _ => ?_
    exact ih fun v hv => (hargs v (List.mem_of_mem_drop hv)).extends hext.world

/-- **Functions of a script.** -/
theorem built_runScript (held : List Node) {c : Closure} {this : Value} {args : List Value}
    {construction : Option ConstructionId}
    (hc : R.Suits m ⟨c.unit, this, c.home, construction⟩)
    (hargs : ∀ v ∈ args, m.world.Passes v) (hbody : ∀ s ∈ c.definition.body, R.code (.stmt s)) :
    Built R own (fun self => runScript self held c this args construction) m Gives := by
  refine .bind (built_newScope _) fun scope m₁ _ hext₁ _ => ?_
  have hargs₁ : ∀ v ∈ args, m₁.world.Passes v := fun v hv => (hargs v hv).extends hext₁.world
  refine .bind (built_bindParams _ _ hargs₁) fun _ m₂ _ hext₂ _ => ?_
  refine .bind (built_execBlock hR ((hc.extends hext₁).extends hext₂) _ hbody) ?_
  intro flow m₃ _ _ hflow
  cases flow with
  | returned v => exact .pure (hflow v rfl)
  | normal => exact .pure trivial

/-- **Functions that are called.** -/
theorem built_runFunction (held : List Node) {g : Function} {this : Value} {args : List Value}
    {construction : Option ConstructionId} (hthis : m.world.Passes this)
    (hargs : ∀ v ∈ args, m.world.Passes v)
    (hc : ∀ c, g = .script c → R.Suits m ⟨c.unit, this, c.home, construction⟩ ∧
      ∀ s ∈ c.definition.body, R.code (.stmt s)) :
    Built R own (fun self => runFunction self held g this args construction) m Gives := by
  cases g with
  | native n => exact built_runNative held n hthis hargs
  | script c => exact built_runScript hR held (hc c rfl).1 hargs (hc c rfl).2

omit hR in
/-- Any value can be called, but only functions are run. -/
theorem built_callValue (held : List Node) {callee this : Value} {args : List Value}
    (hcallee : m.world.Passes callee) (hthis : m.world.Passes this)
    (hargs : ∀ v ∈ args, m.world.Passes v) :
    Built R own (fun self => callValue self held callee this args) m Gives := by
  cases callee with
  | function f => exact .invoke _ hcallee hthis hargs
  | _ => exact built_raiseType _

/-! ### Parts that may be left out, and lists of parts -/

omit hR in
/-- What is left out comes to nothing. -/
theorem built_evalOptional (hc : R.Suits m context.frame) (e : Option Expr)
    (he : ∀ x ∈ e, R.code (.expr x)) :
    Built R own (fun self => evalOptional self context e) m Gives := by
  cases e with
  | none => exact .pure trivial
  | some e => exact .eval hc (he e rfl)

omit hR in
/-- The values of arguments are held until the call. -/
theorem built_evalArgs (hc : R.Suits m context.frame) (args : List Expr)
    (hargs : ∀ e ∈ args, R.code (.expr e)) :
    Built R own (fun self => evalArgs self context args) m fun values m' =>
      ∀ v ∈ values, m'.world.Passes v := by
  induction args generalizing m context with
  | nil => exact .pure fun _ h => nomatch h
  | cons e rest ih =>
    refine .bind (.eval hc (hargs e List.mem_cons_self)) fun v m₁ _ hext₁ hv => ?_
    have hrest : ∀ e ∈ rest, R.code (.expr e) := fun e he => hargs e (List.mem_cons_of_mem _ he)
    -- a value is held while the arguments behind it are evaluated
    refine .bind (ih ((hc.extends hext₁).holdingValues [v]) hrest) ?_
    intro values m₂ _ hext₂ hvalues
    refine .pure fun w hw => ?_
    rcases List.mem_cons.mp hw with rfl | hw
    · exact hv.extends hext₂.world
    · exact hvalues w hw

omit hR in
/-- The values of properties are held by the object. -/
theorem built_storeProperties (hc : R.Suits m context.frame) (o : ObjectId)
    (properties : List Property) (hparts : ∀ p ∈ properties, R.code (.expr p.value)) :
    Built R own (fun self => storeProperties self context o properties) m fun _ _ => True := by
  induction properties generalizing m with
  | nil => exact .pure trivial
  | cons p rest ih =>
    obtain ⟨name, e⟩ := p
    refine .bind (.eval hc (hparts _ List.mem_cons_self)) fun v m₁ _ hext₁ hv => ?_
    refine .bind (.atom (.setProperty o _ hv)) fun _ m₂ _ hext₂ _ => ?_
    exact ih ((hc.extends hext₁).extends hext₂) fun p hp => hparts p (List.mem_cons_of_mem _ hp)

/-! ### Private and static access -/

omit hR in
/-- The class around an accessor is that of the frame. -/
theorem built_boundHome (site : ExprId) :
    Built R own (fun _ => boundHome context site) m fun home m' =>
      home ∈ context.frame.home ∧ m' = m := by
  unfold boundHome
  cases hhome : context.frame.home with
  | none => exact .broken _
  | some home =>
    refine .world (fun _ => rfl) ?_
    split
    · exact .pure ⟨rfl, rfl⟩
    · exact .broken _

/-- What an accessor promises on a machine: a table that is reached, and a receiver. Nothing is done
to reach the table of a class. -/
def IsReached (R : Terms) (context : Context) (accessor : Accessor) (m : Machine) (access : Access)
    (m' : Machine) : Prop :=
  R.Reaches m'.world access.table ∧
    match access with
    | .ofInstance _ target => m'.world.Passes target
    | .ofClass _ home =>
      home ∈ context.frame.home ∧ (∃ span, accessor = .ofClass span) ∧ m' = m

omit hR in
/-- An access reaches a table that may be reached in this frame. -/
theorem built_resolve (hc : R.Suits m context.frame) (site : ExprId) (accessor : Accessor)
    (hparts : ∀ e ∈ accessor.targets, R.code (.expr e)) :
    Built R own (fun self => resolve self context site accessor) m
      (IsReached R context accessor m) := by
  refine .bind (built_boundHome site) fun home m₁ hm₁ hext₁ hbound => ?_
  obtain ⟨hhome, hsame⟩ := hbound
  have hc₁ := hc.extends hext₁
  -- the table of the class, or that of an instance looked up through its token
  cases accessor with
  | ofClass span =>
    refine .world (fun _ => rfl) (.pure ⟨?_, hhome, ⟨span, rfl⟩, hsame⟩)
    exact (hc₁.allows home hhome).reaches_statics
  | ofReceiver span =>
    refine .bind (.atom (.instanceTable (hc₁.may home hhome) _)) fun table m₂ _ hext₂ htable => ?_
    exact .pure ⟨htable, hc₁.this.extends hext₂.world⟩
  | ofTarget span e =>
    refine .bind (.eval hc₁ (hparts e List.mem_cons_self)) fun target m₂ _ hext₂ htarget => ?_
    have hmay := (hc₁.extends hext₂).may home hhome
    refine .bind (.atom (.instanceTable hmay target)) fun table m₃ _ hext₃ htable => ?_
    exact .pure ⟨htable, htarget.extends hext₃.world⟩

omit hR in
/-- The receiver is the target, or the class itself where that may be taken. -/
theorem built_receiver (hc : R.Suits m context.frame) {accessor : Accessor} {access : Access}
    {m' : Machine} (h : IsReached R context accessor m access m')
    (htakes : ∀ span, accessor = .ofClass span → R.takes m context) :
    Built R own (fun _ => receiver context access) m' Gives := by
  cases access with
  | ofInstance table target => exact .pure h.2
  | ofClass table home =>
    obtain ⟨-, hhome, ⟨span, haccessor⟩, rfl⟩ := h
    exact .atom (.classValue hc hhome (htakes span haccessor))

omit hR in
/-- A key is a name or the value of an expression. -/
theorem built_slotKey (hc : R.Suits m context.frame) (key : SlotKey)
    (hparts : ∀ e ∈ key.exprs, R.code (.expr e)) :
    Built R own (fun self => slotKey self context key) m fun _ _ => True := by
  cases key with
  | named name => exact .pure trivial
  | computed e =>
    exact .bind (.eval hc (hparts e List.mem_cons_self)) fun _ _ _ _ _ => .pure trivial

omit hR in
/-- What a slot holds may be passed on, if its table may be reached. -/
theorem built_getSlot (hm : m.IsTidy) {t : TableId} (ht : R.Reaches m.world t)
    (key : PropertyKey) : Built R own (fun _ => getSlot t key) m Gives := by
  refine .table (fun table _ => pure ((table.get? key).getD .undefined)) ht (.pure ?_)
  exact World.passes_getD fun v hv => hm.world.passes_of_get? hv

section Access

variable (hc : R.Suits m context.frame) (site : ExprId) (accessor : Accessor) (key : SlotKey)
  (haccessor : ∀ e ∈ accessor.targets, R.code (.expr e)) (hkey : ∀ e ∈ key.exprs, R.code (.expr e))

omit hR
include hc haccessor hkey

/-- Reading a slot gives what its table holds under the key. -/
theorem built_readSlot
    (htakes : (ExprForm.slot accessor key).takesClass = true → R.takes m context) :
    Built R own (fun self => readSlot self context site accessor key) m Gives := by
  refine .bind (built_resolve hc site accessor haccessor) fun access m₁ hm₁ hext₁ haccess => ?_
  have hc₁ := hc.extends hext₁
  cases key with
  | named name => exact built_getSlot hm₁ haccess.1 _
  -- the receiver is held while the key is evaluated
  | computed e =>
    refine .bind (built_receiver hc haccess fun span h => htakes (by rw [h]; rfl))
      fun target m₂ _ hext₂ _ => ?_
    have hc₂ := ((hc₁.extends hext₂).holding [.table access.table]).holdingValues [target]
    refine .bind (built_slotKey hc₂ (.computed e) hkey) fun k m₃ hm₃ hext₃ _ => ?_
    exact built_getSlot hm₃ ((haccess.1.extends hext₂.world).extends hext₃.world) k

/-- A method comes with the receiver that it is called with. -/
theorem built_readMethod (htakes : ∀ span, accessor = .ofClass span → R.takes m context) :
    Built R own (fun self => readMethod self context site accessor key) m fun result m' =>
      m'.world.Passes result.1 ∧ m'.world.Passes result.2 := by
  refine .bind (built_resolve hc site accessor haccessor) fun access m₁ hm₁ hext₁ haccess => ?_
  have hc₁ := hc.extends hext₁
  refine .bind (built_receiver hc haccess htakes) fun target m₂ _ hext₂ htarget => ?_
  have hc₂ := ((hc₁.extends hext₂).holding [.table access.table]).holdingValues [target]
  refine .bind (built_slotKey hc₂ key hkey) fun k m₃ hm₃ hext₃ _ => ?_
  have hreach := (haccess.1.extends hext₂.world).extends hext₃.world
  refine .bind (built_getSlot hm₃ hreach k) fun f m₄ _ hext₄ hf => ?_
  exact .pure ⟨hf, (htarget.extends hext₃.world).extends hext₄.world⟩

/-- What is assigned is also what the assignment comes to. -/
theorem built_writeSlot {e : Expr} (he : R.code (.expr e)) :
    Built R own (fun self => writeSlot self context site accessor key e) m Gives := by
  refine .bind (built_resolve hc site accessor haccessor) fun access m₁ hm₁ hext₁ haccess => ?_
  have hc₁ := (hc.extends hext₁).holding [.table access.table]
  refine .bind (built_slotKey hc₁ key hkey) fun k m₂ _ hext₂ _ => ?_
  refine .bind (.eval (hc₁.extends hext₂) he) fun v m₃ _ hext₃ hv => ?_
  have hreach := (haccess.1.extends hext₂.world).extends hext₃.world
  refine .bind (.atom (.setSlot hreach k hv)) fun _ m₄ _ hext₄ _ => ?_
  exact .pure (hv.extends hext₄.world)

/-- A slot that is deleted is not given to anyone. -/
theorem built_deleteSlot :
    Built R own (fun self => deleteSlot self context site accessor key) m Gives := by
  refine .bind (built_resolve hc site accessor haccessor) fun access m₁ hm₁ hext₁ haccess => ?_
  have hc₁ := (hc.extends hext₁).holding [.table access.table]
  refine .bind (built_slotKey hc₁ key hkey) fun k m₂ _ hext₂ _ => ?_
  have hreach := haccess.1.extends hext₂.world
  refine .table (fun table _ => changeWorld (fun w => w.deleteSlot access.table k) >>= fun _ =>
    pure (Value.bool (table.has k))) hreach ?_
  exact .bind (.atom (.deleteSlot hreach k)) fun _ _ _ _ _ => .pure trivial

end Access

omit hR in
/-- Whether a slot is there is a truth value. -/
theorem built_hasSlot (hc : R.Suits m context.frame) (site : ExprId) (accessor : Accessor)
    (key : PropertyKey) (haccessor : ∀ e ∈ accessor.targets, R.code (.expr e)) :
    Built R own (fun self => hasSlot self context site accessor key) m Gives := by
  refine .bind (built_resolve hc site accessor haccessor) fun access m₁ _ _ haccess => ?_
  exact .table (fun table _ => pure (Value.bool (table.has key))) haccess.1 (.pure trivial)

/-! ### Class definitions -/

omit hR in
/-- The parent of a class is a class that was passed on. -/
theorem built_parentOf (hc : R.Suits m context.frame) (c : ClassDef)
    (hparts : ∀ e ∈ c.superclass, R.code (.expr e)) :
    Built R own (fun self => parentOf self context c) m fun parent m' =>
      ∀ p ∈ parent, m'.world.Passes (.class p) := by
  unfold parentOf
  cases hsuper : c.superclass with
  | none => exact .pure fun _ h => nomatch h
  | some e =>
    refine .bind (.eval hc (hparts e hsuper)) fun v m₁ _ _ hv => ?_
    cases v with
    | «class» parent => exact .pure fun p hp => by cases hp; exact hv
    | _ => exact built_raiseType _

omit hR in
/-- Static fields are stored in the table of the class. -/
theorem built_storeStatics (hc : R.Suits m context.frame) {statics : TableId}
    (hstatics : R.Reaches m.world statics) (members : List Member)
    (hparts : ∀ x ∈ members, ∀ e ∈ x.form.statics, R.code (.expr e)) :
    Built R own (fun self => storeStatics self context statics members) m fun _ _ => True := by
  -- the cases are those of `storeStatics`: nothing left, a static field, any other member
  induction members generalizing m with
  | nil => exact .pure trivial
  | cons x rest ih =>
    have hrest : ∀ x ∈ rest, ∀ e ∈ x.form.statics, R.code (.expr e) :=
      fun x hx => hparts x (List.mem_cons_of_mem _ hx)
    unfold storeStatics
    split
    · next heq => cases heq
    · next name initializer span rest' heq =>
      cases heq
      have hinitializer : ∀ e ∈ initializer, R.code (.expr e) := fun e he =>
        hparts _ List.mem_cons_self e (Option.mem_toList.mpr he)
      refine .bind (built_evalOptional hc initializer hinitializer) fun v m₁ _ hext₁ hv => ?_
      have hreach := hstatics.extends hext₁.world
      refine .bind (.atom (.setSlot hreach _ hv)) fun _ m₂ _ hext₂ _ => ?_
      exact ih ((hc.extends hext₁).extends hext₂) (hreach.extends hext₂.world) hrest
    · next heq =>
      cases heq
      exact ih hc hstatics hrest

/-- **Class definitions.** -/
theorem built_defineClass (hc : R.Suits m context.frame) {c : ClassDef}
    (hcode : R.code (.class c)) :
    Built R own (fun self => defineClass self context c) m fun r m' =>
      m'.world.Passes (.class r) := by
  have hparts := (hR.covers _ hcode).parts
  -- the code of a class is its superclass and the initializers of its static fields
  have hsuper : ∀ e ∈ c.superclass, R.code (.expr e) := fun e he =>
    hparts _ (List.mem_append_left _ (List.mem_map_of_mem (Option.mem_toList.mpr he)))
  have hstatics : ∀ x ∈ c.members, ∀ e ∈ x.form.statics, R.code (.expr e) := fun x hx e he =>
    hparts _ (List.mem_append_right _ (List.mem_flatMap.mpr ⟨x, hx, List.mem_map_of_mem he⟩))
  refine .bind (built_parentOf hc c hsuper) fun parent m₁ hm₁ hext₁ hparent => ?_
  refine .bind (hR.makeClass hm₁ (hc.extends hext₁) hcode hparent) ?_
  rintro ⟨unit, scope, home, prototype, statics⟩ m₂ hm₂ hext₂ ⟨hunit, hhome, hreach⟩
  -- the class is the last one of the world that its definition leaves
  have hclass : m₂.world.Passes (.class home.classRef) := by
    change home.classRef.index < m₂.world.classes.size
    rw [hhome.classRef, hm₂.settled]
    exact hhome.minted
  -- the static fields are evaluated at home in the class, outside any construction
  have hframe : R.Suits m₂ ⟨unit, .class home.classRef, some home, none⟩ :=
    { this := hclass
      home := fun h hh => by
        cases hh
        exact hhome.toIsHome
      construction := fun _ h => nomatch h
      may := fun h hh => by
        cases hh
        exact hhome.may
      works := fun _ h => nomatch h
      minted := (hc.extends (hext₁.trans hext₂)).minted }
  -- the static fields come last, whether the class has a name or not
  have hfields : ∀ m₃, m₂.Extends m₃ → Built R own (fun self => do
      storeStatics self ⟨⟨unit, .class home.classRef, some home, none⟩, scope, context.nodes⟩
        statics c.members
      return home.classRef) m₃ fun r m' => m'.world.Passes (.class r) := fun m₃ hext₃ => by
    refine .bind (built_storeStatics (hframe.extends hext₃) (hreach.extends hext₃.world) c.members
      hstatics) ?_
    exact fun _ m₄ _ hext₄ _ => .pure ((hclass.extends hext₃.world).extends hext₄.world)
  dsimp only
  cases c.name with
  | none => exact hfields m₂ (.refl m₂)
  | some name =>
    exact .bind (built_declare _ _ _ hclass) fun _ m₃ _ hext₃ _ => hfields m₃ hext₃

/-! ### Names, literals and operands -/

omit hR in
/-- A variable holds what may be passed on. -/
theorem built_readName (hm : m.IsTidy) (context : Context) (name : String) :
    Built R own (fun _ => readName context name) m Gives := by
  refine .world (fun _ => rfl) ?_
  split
  · next v hv => exact .pure (hm.world.passes_of_lookup hv)
  · exact .raise fun _ h => nomatch h

omit hR in
/-- An assignment stores a value that was passed on. -/
theorem built_writeName (context : Context) (name : String) {value : Value}
    (hvalue : m.world.Passes value) :
    Built R own (fun _ => writeName context name value) m fun _ _ => True := by
  refine .world (fun _ => rfl) ?_
  cases hassign : m.world.scopes.assignable context.scope name with
  | ok binder => exact built_declare _ _ _ hvalue
  | error e =>
    -- an assignment fails with an error of its own, never with a thrown value
    refine .raise fun v hv => ?_
    rw [hv, Scopes.assignable] at hassign
    split at hassign
    · cases hassign
    · split at hassign <;> cases hassign

omit hR in
/-- A literal makes an object and fills it. -/
theorem built_objectLiteral (hc : R.Suits m context.frame) (properties : List Property)
    (hparts : ∀ p ∈ properties, R.code (.expr p.value)) :
    Built R own (fun self => objectLiteral self context properties) m Gives := by
  refine .bind (.atom (.newObject none)) fun o m₁ _ hext₁ _ => ?_
  have hc₁ := (hc.extends hext₁).holding [.object o]
  exact .bind (built_storeProperties hc₁ o properties hparts) fun _ _ _ _ _ => .pure trivial

omit hR in
/-- The container and its key are evaluated in turn. -/
theorem built_indexed (hc : R.Suits m context.frame) {e key : Expr} (he : R.code (.expr e))
    (hkey : R.code (.expr key)) :
    Built R own (fun self => indexed self context e key) m fun result m' =>
      m'.world.Passes result.1 := by
  refine .bind (.eval hc he) fun v m₁ _ hext₁ hv => ?_
  refine .bind (.eval ((hc.extends hext₁).holdingValues [v]) hkey) fun k m₂ _ hext₂ _ => ?_
  exact .pure (hv.extends hext₂.world)

/-- What is deleted is a member, an element or a slot. -/
theorem built_deleteTarget (hc : R.Suits m context.frame) {operand : Expr}
    (hoperand : R.code (.expr operand)) :
    Built R own (fun self => deleteTarget self context operand) m Gives := by
  have hparts := (hR.covers _ hoperand).parts
  unfold deleteTarget
  -- the parts of the operand are those of its form
  cases hform : operand.form with
  | member e name =>
    simp only [Part.parts, hform, ExprForm.parts, List.forall_mem_cons] at hparts
    exact .bind (.eval hc hparts.1) fun v m₁ _ _ _ => built_deleteMember v _
  | index e key =>
    simp only [Part.parts, hform, ExprForm.parts, List.forall_mem_cons] at hparts
    exact .bind (built_indexed hc hparts.1 hparts.2.1) fun _ _ _ _ _ => built_deleteMember _ _
  | slot accessor key =>
    simp only [Part.parts, hform, ExprForm.parts, List.forall_mem_map, List.forall_mem_append]
      at hparts
    exact built_deleteSlot hc operand.id accessor key hparts.1 hparts.2
  | _ => exact .broken _

omit hR in
/-- A type is a text, whatever the operand comes to. -/
theorem built_typeOf (hc : R.Suits m context.frame) {operand : Expr}
    (hoperand : R.code (.expr operand)) :
    Built R own (fun self => typeOf self context operand) m Gives := by
  have hname : ∀ (isUnknown : Bool) (m' : Machine), m.Extends m' → Built R own (fun self =>
      if isUnknown then return .string "undefined"
      else return .string (← self.eval context operand).typeName) m' Gives := by
    intro isUnknown m' hext
    cases isUnknown with
    | true => exact .pure trivial
    | false => exact .bind (.eval (hc.extends hext) hoperand) fun _ _ _ _ _ => .pure trivial
  unfold typeOf
  -- only a name can be unknown, and is then not evaluated
  cases operand.form with
  | ident name => exact .world (fun _ => rfl) (hname _ m (.refl m))
  | _ => exact hname false m (.refl m)

/-- So it is with the other operators on one operand. -/
theorem built_unary (hc : R.Suits m context.frame) (op : UnaryOp) {operand : Expr}
    (hoperand : R.code (.expr operand)) :
    Built R own (fun self => unary self context op operand) m Gives := by
  cases op with
  | delete => exact built_deleteTarget hR hc hoperand
  | typeof => exact built_typeOf hc hoperand
  | not => exact .bind (.eval hc hoperand) fun _ _ _ _ _ => .pure trivial
  | negate => exact .bind (.eval hc hoperand) fun v _ _ _ _ => built_negated v

/-- An assignment comes to the value that is stored. -/
theorem built_assign (hc : R.Suits m context.frame) {target e : Expr}
    (htarget : R.code (.expr target)) (he : R.code (.expr e)) :
    Built R own (fun self => assign self context target e) m Gives := by
  have hparts := (hR.covers _ htarget).parts
  unfold assign
  -- the parts of a target are evaluated, and held, before what is assigned to it
  cases hform : target.form with
  | ident name =>
    refine .bind (.eval hc he) fun v m₁ _ _ hv => ?_
    exact .bind (built_writeName context name hv) fun _ _ _ hext _ => .pure (hv.extends hext.world)
  | member object name =>
    simp only [Part.parts, hform, ExprForm.parts, List.forall_mem_cons] at hparts
    refine .bind (.eval hc hparts.1) fun o m₁ _ hext₁ _ => ?_
    refine .bind (.eval ((hc.extends hext₁).holdingValues [o]) he) fun v m₂ _ _ hv => ?_
    exact .bind (built_setMember o _ hv) fun _ _ _ hext _ => .pure (hv.extends hext.world)
  | index object key =>
    simp only [Part.parts, hform, ExprForm.parts, List.forall_mem_cons] at hparts
    refine .bind (built_indexed hc hparts.1 hparts.2.1) ?_
    rintro ⟨o, k⟩ m₁ _ hext₁ _
    refine .bind (.eval ((hc.extends hext₁).holdingValues [o]) he) fun v m₂ _ _ hv => ?_
    exact .bind (built_setMember o k hv) fun _ _ _ hext _ => .pure (hv.extends hext.world)
  | slot accessor key =>
    simp only [Part.parts, hform, ExprForm.parts, List.forall_mem_map, List.forall_mem_append]
      at hparts
    exact built_writeSlot hc target.id accessor key hparts.1 hparts.2 he
  -- the parser lets nothing else be assigned to
  | _ => exact .broken _

omit hR in
/-- A member of the parent is found along its prototype. -/
theorem built_superMember (hm : m.IsTidy) (context : Context) (name : String) :
    Built R own (fun _ => superMember context name) m Gives := by
  unfold superMember
  split
  · exact .broken _
  · refine .world (fun _ => rfl) (.pure ?_)
    exact World.passes_getD fun v hv => hm.world.passes_of_getProperty? hv

/-! ### Calls and constructions -/

/-- What is called comes with its receiver. -/
theorem built_calleeOf (hc : R.Suits m context.frame) {callee : Expr}
    (hcallee : R.code (.expr callee))
    (htakes : ∀ span key, callee.form = .slot (.ofClass span) key → R.takes m context) :
    Built R own (fun self => calleeOf self context callee) m fun result m' =>
      m'.world.Passes result.1 ∧ m'.world.Passes result.2 := by
  have hparts := (hR.covers _ hcallee).parts
  unfold calleeOf
  -- only a callee with an owner gives its call a receiver
  cases hform : callee.form with
  | member e name =>
    simp only [Part.parts, hform, ExprForm.parts, List.forall_mem_cons] at hparts
    refine .bind (.eval hc hparts.1) fun o m₁ hm₁ _ ho => ?_
    exact .bind (built_getMember hm₁ o _) fun _ _ _ hext hf => .pure ⟨hf, ho.extends hext.world⟩
  | index e key =>
    simp only [Part.parts, hform, ExprForm.parts, List.forall_mem_cons] at hparts
    refine .bind (built_indexed hc hparts.1 hparts.2.1) ?_
    rintro ⟨o, k⟩ m₁ hm₁ _ ho
    exact .bind (built_getMember hm₁ o k) fun _ _ _ hext hf => .pure ⟨hf, ho.extends hext.world⟩
  | slot accessor key =>
    simp only [Part.parts, hform, ExprForm.parts, List.forall_mem_map, List.forall_mem_append]
      at hparts
    exact built_readMethod hc callee.id accessor key hparts.1 hparts.2 fun span h =>
      htakes span key (by rw [hform, h])
  -- a method found through `super` is called on the same receiver
  | superMember name =>
    exact .bind (.eval hc hcallee) fun f m₁ _ hext hf => .pure ⟨hf, (hc.extends hext).this⟩
  | _ => exact .bind (.eval hc hcallee) fun f m₁ _ _ hf => .pure ⟨hf, trivial⟩

/-- A call holds its callee, its receiver and its arguments. -/
theorem built_call (hc : R.Suits m context.frame) {callee : Expr} {args : List Expr}
    (hcallee : R.code (.expr callee)) (hargs : ∀ e ∈ args, R.code (.expr e))
    (htakes : (ExprForm.call callee args).takesClass = true → R.takes m context) :
    Built R own (fun self => call self context callee args) m Gives := by
  refine .bind (built_calleeOf hR hc hcallee fun span key h => htakes ?_) ?_
  · obtain ⟨id, span', height, form⟩ := callee
    obtain rfl : form = _ := h
    rfl
  rintro ⟨f, this⟩ m₁ _ hext₁ ⟨hf, hthis⟩
  have hc₁ := (hc.extends hext₁).holdingValues [f, this]
  refine .bind (built_evalArgs hc₁ args hargs) fun values m₂ _ hext₂ hvalues => ?_
  exact built_callValue _ (hf.extends hext₂.world) (hthis.extends hext₂.world) hvalues

/-- A construction holds the class and its arguments, where constructions are supported. -/
theorem built_new (hconstructs : R.constructs) (hc : R.Suits m context.frame) {callee : Expr}
    {args : List Expr} (hcallee : R.code (.expr callee)) (hargs : ∀ e ∈ args, R.code (.expr e)) :
    Built R own (fun self => new self context callee args) m Gives := by
  refine .bind (.eval hc hcallee) fun v m₁ _ hext₁ hv => ?_
  have hc₁ := (hc.extends hext₁).holdingValues [v]
  refine .bind (built_evalArgs hc₁ args hargs) fun values m₂ hm₂ hext₂ hvalues => ?_
  cases v with
  | «class» c =>
    have hclass : m₂.world.Passes (.class c) := hv.extends hext₂.world
    exact hR.construct hconstructs hm₂ (hc.extends (hext₁.trans hext₂)) hclass hvalues
  | _ => exact built_raiseType _

/-! ### Expressions and statements -/

/-- **Expressions.** -/
theorem built_evalExpr (hm : m.IsTidy) (hc : R.Suits m context.frame) {e : Expr}
    (he : R.Covers (.expr e)) (htakes : e.form.takesClass = true → R.takes m context) :
    Built R own (fun self => evalExpr self context e) m Gives := by
  have hparts := he.parts
  have hconstructs := he.constructs
  unfold evalExpr
  simp only [Part.parts, Part.isNew] at hparts hconstructs
  -- one case for each form, its parts being those that `hparts` says the rules cover
  cases hform : e.form with
  | number | string | bool | null | undefined => exact .pure trivial
  | ident name => exact built_readName hm context name
  | this => exact .pure hc.this
  | object properties =>
    simp only [hform, ExprForm.parts, List.forall_mem_map] at hparts
    exact built_objectLiteral hc properties hparts
  -- what is made of a definition is allowed to run by the rules for the frame
  | functionDef definition =>
    simp only [hform, ExprForm.parts, List.forall_mem_cons] at hparts
    exact .bind (.atom (.makeFunction _ _ hparts.1 hc.allows)) fun _ _ _ _ hf => .pure hf
  | classDef definition =>
    simp only [hform, ExprForm.parts, List.forall_mem_cons] at hparts
    exact .bind (built_defineClass hR hc hparts.1) fun _ _ _ _ hr => .pure hr
  | unary op operand =>
    simp only [hform, ExprForm.parts, List.forall_mem_cons] at hparts
    exact built_unary hR hc op hparts.1
  | binary op left right =>
    simp only [hform, ExprForm.parts, List.forall_mem_cons] at hparts
    refine .bind (.eval hc hparts.1) fun a m₁ _ hext₁ _ => ?_
    refine .bind (.eval ((hc.extends hext₁).holdingValues [a]) hparts.2.1) fun b m₂ _ _ _ => ?_
    exact built_binary op a b
  | logical op left right =>
    simp only [hform, ExprForm.parts, List.forall_mem_cons] at hparts
    refine .bind (.eval hc hparts.1) fun a m₁ _ hext₁ ha => ?_
    -- the right side is evaluated only when the left one has not decided
    by_cases hdecides : decides op a
    · simp only [hdecides, if_true]
      exact .pure ha
    · simp only [hdecides]
      exact .eval ((hc.extends hext₁).holdingValues [a]) hparts.2.1
  -- every form from here on is a composite that has its own lemma, or a sequence of parts
  | assign target value =>
    simp only [hform, ExprForm.parts, List.forall_mem_cons] at hparts
    exact built_assign hR hc hparts.1 hparts.2.1
  | member object name =>
    simp only [hform, ExprForm.parts, List.forall_mem_cons] at hparts
    exact .bind (.eval hc hparts.1) fun o _ hm₁ _ _ => built_getMember hm₁ o _
  | index object key =>
    simp only [hform, ExprForm.parts, List.forall_mem_cons] at hparts
    exact .bind (built_indexed hc hparts.1 hparts.2.1) fun _ _ hm₁ _ _ => built_getMember hm₁ _ _
  | call callee args =>
    simp only [hform, ExprForm.parts, List.forall_mem_cons, List.forall_mem_map] at hparts
    exact built_call hR hc hparts.1 hparts.2 (hform ▸ htakes)
  | new callee args =>
    simp only [hform, ExprForm.parts, List.forall_mem_cons, List.forall_mem_map] at hparts
    exact built_new hR (hconstructs (by rw [hform]; rfl)) hc hparts.1 hparts.2
  | slot accessor key =>
    simp only [hform, ExprForm.parts, List.forall_mem_map, List.forall_mem_append] at hparts
    exact built_readSlot hc e.id accessor key hparts.1 hparts.2 (hform ▸ htakes)
  | hasSlot key accessor =>
    simp only [hform, ExprForm.parts, List.forall_mem_cons, List.forall_mem_map] at hparts
    refine .bind (.eval hc hparts.1) fun k m₁ _ hext₁ _ => ?_
    exact built_hasSlot (hc.extends hext₁) e.id accessor k.toKey hparts.2
  -- what `super` does is left to the rules, which know about constructions
  | superCall args =>
    simp only [hform, ExprForm.parts, List.forall_mem_map] at hparts
    refine .bind (built_evalArgs hc args hparts) fun values m₁ hm₁ hext₁ hvalues => ?_
    exact .bind (hR.superCall hm₁ (hc.extends hext₁) hvalues) fun _ _ _ _ _ => .pure trivial
  | superMember name => exact built_superMember hm context name

omit hR in
/-- An error that is caught becomes a value: its own, or an object that says what it was. -/
theorem built_errorValue {e : RuntimeError} (he : Caught m e) :
    Built R own (fun _ => errorValue e) m Gives := by
  unfold errorValue
  split
  · next v => exact .pure (he v rfl)
  · refine .bind (.atom (.newObject none)) fun o m₁ _ _ _ => ?_
    refine .bind (.atom (.setProperty o _ (World.passes_string _ _))) fun _ m₂ _ _ _ => ?_
    refine .bind (.atom (.setProperty o _ (World.passes_string _ _))) fun _ m₃ _ _ _ => ?_
    exact .pure trivial

/-- The handler gets the value of an error. -/
theorem built_attempt (hc : R.Suits m context.frame) {body handler : List Stmt} (param : String)
    (hbody : ∀ s ∈ body, R.code (.stmt s)) (hhandler : ∀ s ∈ handler, R.code (.stmt s)) :
    Built R own (fun self => attempt self context body param handler) m Returns := by
  refine .bind (built_newScope _) fun scope m₁ _ hext₁ _ => ?_
  have hc₁ := hc.extends hext₁
  refine .bind (.catching (built_execBlock hR (hc₁.within scope) body hbody)) ?_
  intro result m₂ _ hext₂ hresult
  cases result with
  | ok flow => exact .pure hresult
  | error e =>
    refine .bind (built_newScope _) fun inner m₃ _ hext₃ _ => ?_
    -- what was caught is bound in a new scope, in which the handler is run
    have he : Caught m₃ e := fun v hv => (hresult v hv).extends hext₃.world
    refine .bind (built_errorValue he) fun v m₄ _ hext₄ hv => ?_
    refine .bind (built_declare _ _ _ hv) fun _ m₅ _ hext₅ _ => ?_
    have hc₅ := (((hc₁.extends hext₂).extends hext₃).extends hext₄).extends hext₅
    exact built_execBlock hR ((hc₅.within inner).holding [.scope scope]) handler hhandler

omit hR in
/-- One round of a loop tests and executes. -/
theorem built_loopRound (hc : R.Suits m context.frame) {test : Expr} {body : Stmt}
    (htest : R.code (.expr test)) (hbody : R.code (.stmt body)) :
    Built R own (fun self => loopRound self context test body) m fun flow? m' =>
      ∀ flow ∈ flow?, Returns flow m' := by
  refine .bind (.eval hc htest) fun v m₁ _ hext₁ _ => ?_
  by_cases htruthy : v.isTruthy
  · simp only [htruthy, if_true]
    refine .bind (.exec (hc.extends hext₁) hbody) fun flow m₂ _ _ hflow => .pure ?_
    exact fun _ h => by cases h; exact hflow
  · simp only [htruthy]
    exact .pure fun _ h => nomatch h

/-- **Statements.** -/
theorem built_execStmt (hc : R.Suits m context.frame) {s : Stmt} (hs : R.Covers (.stmt s)) :
    Built R own (fun self => execStmt self context s) m Returns := by
  have hparts := hs.parts
  have hloops := hs.loops
  unfold execStmt
  simp only [Part.parts, Part.isLoop] at hparts hloops
  -- a statement that ends normally returns nothing
  have hnormal : ∀ m', Returns .normal m' := fun _ _ h => nomatch h
  -- one case for each form, as for expressions
  cases hform : s.form with
  | declare name isMutable initializer =>
    simp only [hform, StmtForm.parts, List.forall_mem_map, Option.mem_toList] at hparts
    refine .bind (built_evalOptional hc initializer hparts) fun v m₁ _ _ hv => ?_
    exact .bind (built_declare _ _ _ hv) fun _ _ _ _ _ => .pure (hnormal _)
  | expr e =>
    simp only [hform, StmtForm.parts, List.forall_mem_cons] at hparts
    exact .bind (.eval hc hparts.1) fun _ _ _ _ _ => .pure (hnormal _)
  -- the body of a block runs in a scope of its own
  | block body =>
    simp only [hform, StmtForm.parts, List.forall_mem_map] at hparts
    refine .bind (built_newScope _) fun scope m₁ _ hext₁ _ => ?_
    exact built_execBlock hR ((hc.extends hext₁).within scope) body hparts
  | cond test yes no =>
    simp only [hform, StmtForm.parts, List.forall_mem_cons, List.forall_mem_map,
      Option.mem_toList] at hparts
    obtain ⟨htest, hyes, hno⟩ := hparts
    refine .bind (.eval hc htest) fun v m₁ _ hext₁ _ => ?_
    by_cases htruthy : v.isTruthy
    · simp only [htruthy, if_true]
      exact .exec (hc.extends hext₁) hyes
    · simp only [htruthy]
      cases no with
      | none => exact .pure (hnormal _)
      | some no => exact .exec (hc.extends hext₁) (hno no rfl)
  -- whether a loop is allowed at all is for the rules to say
  | loop test body =>
    simp only [hform, StmtForm.parts, List.forall_mem_cons] at hparts
    refine .rounds (hloops (by rw [hform]; rfl)) fun m' _ hext => ?_
    exact built_loopRound (hc.extends hext) hparts.1 hparts.2.1
  -- these two are the ends that carry a value
  | ret value =>
    simp only [hform, StmtForm.parts, List.forall_mem_map, Option.mem_toList] at hparts
    refine .bind (built_evalOptional hc value hparts) fun v m₁ _ _ hv => .pure ?_
    exact fun w hw => by cases hw; exact hv
  | raise e =>
    simp only [hform, StmtForm.parts, List.forall_mem_cons] at hparts
    refine .bind (.eval hc hparts.1) fun v m₁ _ _ hv => .raise ?_
    exact fun w hw => by cases hw; exact hv
  | attempt body param handler =>
    simp only [hform, StmtForm.parts, List.forall_mem_map, List.forall_mem_append] at hparts
    exact built_attempt hR hc param hparts.1 hparts.2
  -- the function was made when the list was hoisted
  | functionDef definition => exact .pure (hnormal _)
  | classDef definition =>
    simp only [hform, StmtForm.parts, List.forall_mem_cons] at hparts
    refine .bind (built_defineClass hR hc hparts.1) fun r m₁ _ _ hr => ?_
    exact .bind (built_declare _ _ _ hr) fun _ _ _ _ _ => .pure (hnormal _)

/-- **Units.** The statements of a unit, run in the global scope. -/
theorem built_runStatements (hc : R.Suits m context.frame) {last : Value}
    (hlast : m.world.Passes last) (body : List Stmt) (hbody : ∀ s ∈ body, R.code (.stmt s)) :
    Built R own (fun self => runStatements self context last body) m Gives := by
  -- only an expression statement leaves a value behind it, which the rest then holds
  induction body generalizing m last with
  | nil => exact .pure hlast
  | cons s rest ih =>
    have hrest : ∀ s ∈ rest, R.code (.stmt s) := fun s hs => hbody s (List.mem_cons_of_mem _ hs)
    unfold runStatements
    split
    · next heq => cases heq
    · next e span rest' heq =>
      cases heq
      have he : R.code (.expr e) :=
        (hR.covers _ (hbody _ List.mem_cons_self)).parts _ List.mem_cons_self
      refine .bind (.eval (hc.holdingValues [last]) he) fun v m₁ _ hext₁ hv => ?_
      exact ih (hc.extends hext₁) hv hrest
    · next heq =>
      cases heq
      refine .bind (.exec (hc.holdingValues [last]) (hbody _ List.mem_cons_self)) ?_
      intro flow m₁ _ hext₁ hflow
      cases flow with
      | returned v => exact .pure (hflow v rfl)
      | normal => exact ih (hc.extends hext₁) (hlast.extends hext₁.world) hrest

end Parts

end Enclave.Eval
