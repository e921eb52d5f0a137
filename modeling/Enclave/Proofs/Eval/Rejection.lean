import Enclave.Proofs.Eval.Relations
import Enclave.Proofs.Spelling
import Enclave.Session

/-!
# Rejected accesses

Whatever is done with a slot begins by resolving its accessor: the target is evaluated, and the
token of the running function's class is asked for its table (`resolve_rejected`,
`resolve_registered`). Only then come the key, an assigned value and the arguments of a call. So a
rejected access leaves the machine that evaluating the target left, but for the note of it, and
evaluates nothing else; and an access that is not rejected raises no such error of its own
(`rejection_atomic`). Asking whether a key is there differs from the rest in that the key comes
first.

Nothing is assumed of the evaluator that evaluates the parts.
-/

namespace Enclave

/-- The token keeps a table for the value. -/
def World.Registers (w : World) (t : TokenId) (v : Value) : Prop :=
  ∃ o, v = .object o ∧ (w.lookupInstance? t o).isSome = true

/-- The accessor is bound to the class that the running function was written in, and this is its
home. -/
structure Context.IsHome (context : Context) (w : World) (site : ExprId) (h : Home) : Prop where
  home : context.frame.home = some h
  bound : context.frame.unit.bindings.classOf? site = some (w.tokenAt h.token).site

namespace Eval

variable {α β : Type} {self : Evaluator} {context : Context} {m m₁ m' : Machine} {home : Home}
  {site : ExprId} {accessor : Accessor} {target : Eval Value} {v : Value} {t : TokenId}
  {key : SlotKey} {role : Role} {stop : Stop}

/-! ### Runs of two pieces -/

/-- Behind a piece that gives a value, a sequence goes on as its rest. -/
theorem bind_of_ok {x : Eval α} {f : α → Eval β} {a : α} (h : x m = .ok a m') :
    (x >>= f) m = f a m' := by
  change EStateM.bind x f m = _
  rw [EStateM.bind, h]

/-- A sequence whose first piece stops, stops with it. -/
theorem bind_of_error {x : Eval α} {f : α → Eval β} (h : x m = .error stop m') :
    (x >>= f) m = .error stop m' := by
  change EStateM.bind x f m = _
  rw [EStateM.bind, h]

/-- How the target of an accessor is found. A static accessor has none. -/
def target? (self : Evaluator) (context : Context) : Accessor → Option (Eval Value)
  | .ofReceiver _ => some (pure context.frame.this)
  | .ofTarget _ e => some (self.eval context e)
  | .ofClass _ => none

/-- Stops with the error about a target that the token has not registered. -/
def reject (t : TokenId) (v : Value) (m : Machine) : EStateM.Result Stop Machine α :=
  .error (.raised (.privateAccess (m.world.tokenAt t).name v))
    { m with journal := .rejected t v :: m.journal }

/-- The home that fits an accessor is the home it is bound to. -/
theorem boundHome_of_isHome (h : context.IsHome m.world site home) :
    boundHome context site m = .ok home m := by
  unfold boundHome
  rw [h.home]
  change (if _ then pure home else throw (Stop.broken .accessorOfOtherClass) : Eval Home) m = _
  rw [if_pos h.bound]
  rfl

/-- In a context that suits what surrounds the accessor there is such a home. -/
theorem exists_isHome {gone : Node → Prop} {sc : ScopeContext} (hc : context.Suits gone m sc)
    (hbound : IsBoundIn context.frame.unit sc site) :
    ∃ home, context.IsHome m.world site home := by
  obtain ⟨classSite, henclosing, hclass⟩ := hbound
  rw [hc.surrounds.enclosing] at henclosing
  -- Binding met the accessor in a class, so the running function has a home.
  cases hhome : context.frame.home with
  | none =>
    rw [hhome] at henclosing
    cases henclosing
  | some home =>
    rw [hhome] at henclosing
    exact ⟨home, hhome, hclass.trans henclosing.symm⟩

/-- The slot of a use is covered with the whole. -/
theorem covers_slot {u : CompiledUnit} {sc : ScopeContext} {whole slot : Expr}
    (he : u.CoversExpr sc whole) (hfills : role.Fills slot whole) : u.CoversExpr sc slot := by
  cases role with
  | read => exact hfills ▸ he
  | assign value => exact (he.assign hfills).1
  | delete => exact he.unary hfills
  | call args => exact (he.call hfills).1

/-- Resolving evaluates the target and then asks the home's token for a table. -/
theorem resolve_eq (htarget : target? self context accessor = some target)
    (hhome : context.IsHome m.world site home) :
    resolve self context site accessor m = (do
      let v ← target
      return Access.ofInstance (← instanceTable home.token v) v) m := by
  unfold resolve
  rw [bind_of_ok (boundHome_of_isHome hhome)]
  -- An accessor of statics has no target, so the first two remain.
  cases accessor with
  | ofReceiver span =>
    cases htarget
    rfl
  | ofTarget span e =>
    cases htarget
    rfl
  | ofClass span => cases htarget

/-- A value that is not registered is rejected. -/
theorem instanceTable_rejected (h : ¬m.world.Registers t v) :
    instanceTable t v m = reject t v m := by
  obtain ⟨o, table, rfl, hlookup, -⟩ | hrun := instanceTable_cases t v m
  · exact absurd ⟨o, rfl, Option.isSome_of_eq_some hlookup⟩ h
  · exact hrun

/-- A registered value has a table, and all that is left of the question is a note. -/
theorem instanceTable_registered (h : m.world.Registers t v) :
    ∃ table, instanceTable t v m =
      .ok table { m with journal := .resolved t v :: m.journal } := by
  obtain ⟨o, rfl, hlookup⟩ := h
  obtain ⟨table, hlookup⟩ := Option.isSome_iff_exists.mp hlookup
  exact ⟨table, instanceTable_of_some hlookup⟩

section Resolve

variable (htarget : target? self context accessor = some target)
  (hhome : context.IsHome m.world site home) (hrun : target m = .ok v m₁)

include htarget hhome hrun

/-- Resolving an accessor whose target is not registered rejects it, on the machine the target left.
-/
theorem resolve_rejected (h : ¬m₁.world.Registers home.token v) :
    resolve self context site accessor m = reject home.token v m₁ := by
  rw [resolve_eq htarget hhome, bind_of_ok hrun]
  exact bind_of_error (instanceTable_rejected h)

/-- Resolving an accessor whose target is registered finds its table. -/
theorem resolve_registered (h : m₁.world.Registers home.token v) :
    ∃ table, resolve self context site accessor m =
      .ok (.ofInstance table v) { m₁ with journal := .resolved home.token v :: m₁.journal } := by
  obtain ⟨table, htable⟩ := instanceTable_registered h
  refine ⟨table, ?_⟩
  rw [resolve_eq htarget hhome, bind_of_ok hrun]
  exact bind_of_ok htable

end Resolve

/-! ### Rejection -/

/-- Whatever is done with a slot ends where its accessor is not resolved. -/
theorem evalExpr_of_resolve_error {slot whole : Expr} (hfills : role.Fills slot whole)
    (hslot : slot.form = .slot accessor key)
    (h : resolve self context slot.id accessor m = .error stop m') :
    evalExpr self context whole m = .error stop m' := by
  -- in each role the owner is resolved first, before the key and the other parts
  cases role with
  | read =>
    cases hfills
    rw [evalExpr, hslot]
    exact bind_of_error h
  | assign value =>
    rw [evalExpr, hfills]
    change assign self context slot value m = _
    rw [assign, hslot]
    exact bind_of_error h
  | delete =>
    rw [evalExpr, hfills]
    change deleteTarget self context slot m = _
    rw [deleteTarget, hslot]
    exact bind_of_error h
  | call args =>
    rw [evalExpr, hfills]
    change call self context slot args m = _
    refine bind_of_error ?_
    rw [calleeOf, hslot]
    exact bind_of_error h

/-! ### What an access leaves to the evaluator -/

/-- A part of what is done with a slot stops so: its key, the value that is assigned, an argument or
the function that is called. The parts are evaluated where the whole is, with more things held. -/
inductive StopsInPart (self : Evaluator) (context : Context) (key : SlotKey) :
    Role → Stop → Machine → Prop
  | key {role : Role} {e : Expr} {nodes : List Node} {m m' : Machine} {stop : Stop}
    (hkey : key = .computed e) (h : self.eval (context.holding nodes) e m = .error stop m') :
    StopsInPart self context key role stop m'
  | value {e : Expr} {nodes : List Node} {m m' : Machine} {stop : Stop}
    (h : self.eval (context.holding nodes) e m = .error stop m') :
    StopsInPart self context key (.assign e) stop m'
  | arg {args : List Expr} {e : Expr} {nodes : List Node} {m m' : Machine} {stop : Stop}
    (he : e ∈ args) (h : self.eval (context.holding nodes) e m = .error stop m') :
    StopsInPart self context key (.call args) stop m'
  | callee {args : List Expr} {nodes : List Node} {f : FunctionRef} {this : Value}
    {values : List Value} {m m' : Machine} {stop : Stop}
    (h : self.invoke nodes f this values none m = .error stop m') :
    StopsInPart self context key (.call args) stop m'

/-- A piece that stops with an error about a private access does so in a part. -/
abbrev RejectsInParts (self : Evaluator) (context : Context) (key : SlotKey) (role : Role)
    (x : Eval α) (m : Machine) : Prop :=
  Ends x m (fun _ _ => True) fun stop m' =>
    (∃ name v, stop = .raised (.privateAccess name v)) → StopsInPart self context key role stop m'

/-- A piece that stops only where a part of the access stops. -/
theorem rejectsInParts_of_part {x : Eval α}
    (h : ∀ stop m', x m = .error stop m' → StopsInPart self context key role stop m') :
    RejectsInParts self context key role x m := by
  unfold RejectsInParts Ends
  cases hrun : x m with
  | ok a m' => trivial
  | error stop m' => exact fun _ => h stop m' hrun

/-- Holding two lists of things one after the other is holding both. -/
theorem holding_holding (context : Context) (nodes nodes' : List Node) :
    (context.holding nodes).holding nodes' = context.holding (nodes' ++ nodes) := by
  simp only [Context.holding, List.append_assoc]

/-- Evaluating the key stops only where the key does. -/
theorem rejectsInParts_slotKey (nodes : List Node) :
    RejectsInParts self context key role (slotKey self (context.holding nodes) key) m := by
  cases key with
  | named name => trivial
  | computed e =>
    have heval : RejectsInParts self context (.computed e) role
        (self.eval (context.holding nodes) e) m :=
      rejectsInParts_of_part fun stop m' h => .key rfl h
    exact Ends.bind heval fun _ _ _ => trivial

/-- The same where values are held besides. -/
theorem rejectsInParts_heldKey (nodes : List Node) (values : List Value) :
    RejectsInParts self context key role
      (slotKey self ((context.holding nodes).holdingValues values) key) m := by
  rw [Context.holdingValues, holding_holding]
  exact rejectsInParts_slotKey _

/-- Evaluating the arguments stops only where one of them does. -/
theorem rejectsInParts_evalArgs {args all : List Expr} (h : args ⊆ all) (nodes : List Node) :
    RejectsInParts self context key (.call all) (evalArgs self (context.holding nodes) args) m := by
  -- From argument to argument, the machine and what is held change.
  induction args generalizing nodes m with
  | nil => trivial
  | cons e rest ih =>
    have heval : RejectsInParts self context key (.call all)
        (self.eval (context.holding nodes) e) m :=
      rejectsInParts_of_part fun stop m' hrun => .arg (h List.mem_cons_self) hrun
    refine Ends.bind heval fun v m₁ _ => ?_
    have hrest := ih (m := m₁) (List.subset_of_cons_subset h) (nodesOf [v] ++ nodes)
    rw [← holding_holding] at hrest
    exact Ends.bind hrest fun _ _ _ => trivial

/-- Calling what was read stops only where the call does. -/
theorem rejectsInParts_callValue {args : List Expr} (nodes : List Node) (f this : Value)
    (values : List Value) :
    RejectsInParts self context key (.call args) (callValue self nodes f this values) m := by
  cases f with
  | function f => exact rejectsInParts_of_part fun stop m' h => .callee h
  | _ => exact fun ⟨_, _, h⟩ => by cases h

/-! ### Accesses that are not rejected -/

section Resolved

variable {access : Access} (h : resolve self context site accessor m = .ok access m')

include h

/-- An access that was resolved is the one that is used. -/
theorem ends_resolve {s : Stop → Machine → Prop} :
    Ends (resolve self context site accessor) m (fun a m₁ => a = access ∧ m₁ = m') s := by
  unfold Ends
  rw [h]
  exact ⟨rfl, rfl⟩

omit h in
/-- Finding the receiver of a call stops nowhere. -/
theorem rejectsInParts_receiver (access : Access) :
    RejectsInParts self context key role (receiver context access) m := by
  cases access with
  | ofInstance table target => trivial
  | ofClass table home =>
    change RejectsInParts self context key role (classValue context home) m
    unfold RejectsInParts Ends
    rw [classValue_eq]
    trivial

/-- Behind a resolved accessor, reading stops only in its parts. -/
theorem rejectsInParts_readSlot :
    RejectsInParts self context key role (readSlot self context site accessor key) m := by
  refine Ends.bind (ends_resolve h) ?_
  rintro access _ ⟨rfl, rfl⟩
  cases key with
  | named name => trivial
  | computed e =>
    refine Ends.bind (rejectsInParts_receiver access) fun target m₁ _ => ?_
    exact Ends.bind (rejectsInParts_heldKey _ _) fun _ _ _ => trivial

/-- Behind a resolved accessor, calling stops only in its parts. -/
theorem rejectsInParts_readMethod :
    RejectsInParts self context key role (readMethod self context site accessor key) m := by
  refine Ends.bind (ends_resolve h) ?_
  rintro access _ ⟨rfl, rfl⟩
  refine Ends.bind (rejectsInParts_receiver access) fun target m₁ _ => ?_
  exact Ends.bind (rejectsInParts_heldKey _ _) fun _ _ _ => trivial

/-- Behind a resolved accessor, assigning stops only in its parts. -/
theorem rejectsInParts_writeSlot (value : Expr) :
    RejectsInParts self context key (.assign value)
      (writeSlot self context site accessor key value) m := by
  refine Ends.bind (ends_resolve h) ?_
  rintro access _ ⟨rfl, rfl⟩
  refine Ends.bind (rejectsInParts_slotKey _) fun k m₁ _ => ?_
  have hvalue : RejectsInParts self context key (.assign value)
      (self.eval (context.holding [.table access.table]) value) m₁ :=
    rejectsInParts_of_part fun stop m₂ hrun => .value hrun
  exact Ends.bind hvalue fun _ _ _ => trivial

/-- Behind a resolved accessor, deleting stops only in its parts. -/
theorem rejectsInParts_deleteSlot :
    RejectsInParts self context key role (deleteSlot self context site accessor key) m := by
  refine Ends.bind (ends_resolve h) ?_
  rintro access _ ⟨rfl, rfl⟩
  exact Ends.bind (rejectsInParts_slotKey _) fun _ _ _ => trivial

end Resolved

/-- What is done with a slot whose accessor has been resolved raises no error about a private access
of its own. -/
theorem rejectsInParts_evalExpr {slot whole : Expr} {access : Access}
    (hfills : role.Fills slot whole) (hslot : slot.form = .slot accessor key)
    (h : resolve self context slot.id accessor m = .ok access m') :
    RejectsInParts self context key role (evalExpr self context whole) m := by
  -- in each role, what comes after a resolved owner is a part, or is rejected by none
  cases role with
  | read =>
    cases hfills
    rw [evalExpr, hslot]
    exact rejectsInParts_readSlot h
  | assign value =>
    rw [evalExpr, hfills]
    change RejectsInParts _ _ _ _ (assign self context slot value) m
    rw [assign, hslot]
    exact rejectsInParts_writeSlot h value
  | delete =>
    rw [evalExpr, hfills]
    change RejectsInParts _ _ _ _ (deleteTarget self context slot) m
    rw [deleteTarget, hslot]
    exact rejectsInParts_deleteSlot h
  | call args =>
    rw [evalExpr, hfills]
    change RejectsInParts _ _ _ _ (call self context slot args) m
    -- a call goes on with its arguments and with the body of what it calls
    have hcallee : RejectsInParts self context key (.call args) (calleeOf self context slot) m := by
      rw [calleeOf, hslot]
      exact rejectsInParts_readMethod h
    refine Ends.bind hcallee fun callee m₁ _ => ?_
    refine Ends.bind (rejectsInParts_evalArgs (List.Subset.refl args) _) fun values m₂ _ => ?_
    exact rejectsInParts_callValue _ callee.1 callee.2 values

/-- **A rejected access changes nothing.** Let `target` give the target of a private accessor, and
let the accessor be bound to the class that the running function was written in.

Whatever is done with a slot: if the token of the class has not registered the target, the error
says so and the machine is the one that the target left, but for the note of it; the evaluator of
the parts is asked for nothing but the target. If the token has registered the target, an error
about a private access is that of a part, the key, the assigned value, an argument or the function
called. Whether a key is there is asked in the same way once the key has been evaluated, and if the
target is registered, there is an answer.

That the accessor is bound so holds wherever the context suits what surrounds the accessor, as all
contexts do in runs of what has been bound. -/
theorem rejection_atomic (self : Evaluator) (context : Context) (accessor : Accessor)
    (target : Eval Value) (htarget : target? self context accessor = some target) :
    (∀ (gone : Node → Prop) (m : Machine) (sc : ScopeContext) (site : ExprId),
      context.Suits gone m sc → IsBoundIn context.frame.unit sc site →
      ∃ home, context.IsHome m.world site home) ∧
    (∀ (role : Role) (slot whole : Expr) (key : SlotKey) (m m₁ : Machine) (home : Home) (v : Value),
      role.Fills slot whole → slot.form = .slot accessor key →
      context.IsHome m.world slot.id home → target m = .ok v m₁ →
      (¬m₁.world.Registers home.token v →
        evalExpr self context whole m = reject home.token v m₁) ∧
      (m₁.world.Registers home.token v → ∀ name w m',
        evalExpr self context whole m = .error (.raised (.privateAccess name w)) m' →
        StopsInPart self context key role (.raised (.privateAccess name w)) m')) ∧
    ∀ (e whole : Expr) (m m₀ m₁ : Machine) (home : Home) (k v : Value),
      whole.form = .hasSlot e accessor → self.eval context e m = .ok k m₀ →
      context.IsHome m₀.world whole.id home → target m₀ = .ok v m₁ →
      (¬m₁.world.Registers home.token v →
        evalExpr self context whole m = reject home.token v m₁) ∧
      (m₁.world.Registers home.token v →
        ∃ isThere m', evalExpr self context whole m = .ok (.bool isThere) m') := by
  refine ⟨fun gone m sc site hc hbound => exists_isHome hc hbound,
    fun role slot whole key m m₁ home v hfills hslot hhome hrun => ⟨fun h => ?_, ?_⟩,
    fun e whole m m₀ m₁ home k v hform hkey hhome hrun => ?_⟩
  · -- the value is registered with no such class: the rejection is all that happens
    exact evalExpr_of_resolve_error hfills hslot (resolve_rejected htarget hhome hrun h)
  · -- the value is registered, so the owner is resolved, and any rejection is a part's own
    intro h name w m' hstop
    obtain ⟨table, hresolve⟩ := resolve_registered htarget hhome hrun h
    have hparts := rejectsInParts_evalExpr hfills hslot hresolve
    unfold RejectsInParts Ends at hparts
    rw [hstop] at hparts
    exact hparts ⟨name, w, rfl⟩
  · -- a test for a slot evaluates its key before its owner
    have hwhole : evalExpr self context whole m =
        hasSlot self context whole.id accessor k.toKey m₀ := by
      rw [evalExpr, hform]
      exact bind_of_ok hkey
    rw [hwhole]
    refine ⟨fun h => bind_of_error (resolve_rejected htarget hhome hrun h), fun h => ?_⟩
    obtain ⟨table, hresolve⟩ := resolve_registered htarget hhome hrun h
    exact ⟨_, _, bind_of_ok hresolve⟩

/-- A method reads a slot of its receiver. -/
def strangerSource : List UInt8 := "class C \x7b m() \x7b private.k; \x7d \x7d".toUTF8.toList

/-- The key of a slot of the receiver. -/
def receiverKey? : Expr → Option SlotKey
  | ⟨_, _, _, .slot (.ofReceiver _) key⟩ => some key
  | _ => none

/-- The class has been defined. The method, called with undefined as its receiver, would read the
slot of no instance. -/
theorem rejection_atomic_stranger :
    ∃ u m, compile strangerSource = .ok u ∧ m.journal = [.minted ⟨0⟩ ⟨0, "C"⟩] ∧
      ∃ slot ∈ stmtsNodes u.program.body, (receiverKey? slot).isSome = true ∧
        evalExpr (evaluator 1) ⟨⟨u, .undefined, some ⟨⟨0⟩, ⟨0, "C"⟩, none⟩, none⟩, ⟨0⟩, []⟩ slot m =
          reject ⟨0⟩ .undefined m := by
  -- run on its source: one class is minted, and the slot read is bound to it
  have hfacts : (compile strangerSource).toOption.map (fun u =>
      let m := final (runUnit (evaluator 4) u) (Session.start 8).machine
      (decide (m.journal = [.minted ⟨0⟩ ⟨0, "C"⟩]), (m.world.tokenAt ⟨0⟩).site,
        (stmtsNodes u.program.body).any fun e =>
          (receiverKey? e).isSome && decide (u.bindings.classOf? e.id = some ⟨0⟩))) =
      some (true, ⟨0⟩, true) := by
    decide +kernel
  cases hcompile : compile strangerSource with
  | error errors =>
    rw [hcompile] at hfacts
    cases hfacts
  | ok u =>
    rw [hcompile] at hfacts
    obtain ⟨hjournal, hfacts⟩ := Prod.mk.inj (Option.some.inj hfacts)
    obtain ⟨hsite, hslot⟩ := Prod.mk.inj hfacts
    obtain ⟨slot, hmem, hslot⟩ := List.any_eq_true.mp hslot
    obtain ⟨hkey, hbound⟩ := Bool.and_eq_true_iff.mp hslot
    refine ⟨u, _, rfl, of_decide_eq_true hjournal, slot, hmem, hkey, ?_⟩
    obtain ⟨id, span, height, form⟩ := slot
    obtain ⟨accessorSpan, key, rfl⟩ : ∃ accessorSpan key,
        form = .slot (.ofReceiver accessorSpan) key := by
      unfold receiverKey? at hkey
      split at hkey
      · next heq =>
        cases heq
        exact ⟨_, _, rfl⟩
      · cases hkey
    -- outside any instance of the class, `this` is `undefined`
    obtain ⟨-, hslots, -⟩ := rejection_atomic (evaluator 1)
      ⟨⟨u, .undefined, some ⟨⟨0⟩, ⟨0, "C"⟩, none⟩, none⟩, ⟨0⟩, []⟩ (.ofReceiver accessorSpan) _ rfl
    refine (hslots .read _ _ key _ _ ⟨⟨0⟩, ⟨0, "C"⟩, none⟩ .undefined rfl rfl ⟨rfl, ?_⟩ rfl).1 ?_
    · rw [of_decide_eq_true hbound]
      exact congrArg some hsite.symm
    · rintro ⟨o, h, -⟩
      cases h

end Eval

end Enclave
