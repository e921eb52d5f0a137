import Enclave.Proofs.Equality
import Enclave.Proofs.Eval.Rejection

/-!
# Values as keys

A value is used as a key in four kinds of places: `o[v]`, `private[v]` and `static[v]`, each read,
assigned, deleted or called, and on the left of `in`, before an object or an accessor (`KeyPlace`).
Evaluation arrives at the key with something at hand (`KeyPlace.arrive`), evaluates it, and goes on
with the key that its value stands for and the things that the value holds
(`Eval.evalExpr_of_fills`). Equal values agree in both. So they address the same slot
(`Value.equal_same_slot`).
-/

namespace Enclave

/-! ### Places -/

/-- A place for a key, with everything around it. -/
inductive KeyPlace
  | index (object : Expr) (role : Role)
  | slot (accessor : Accessor) (role : Role)
  | inObject (object : Expr)
  | inTable (accessor : Accessor)

/-- The expression has the key in this place; `site` is the number of its accessor, if there is
one. -/
def KeyPlace.Fills (site : ExprId) (key whole : Expr) : KeyPlace → Prop
  | .index object role => ∃ place : Expr, place.form = .index object key ∧ role.Fills place whole
  | .slot accessor role =>
    ∃ place : Expr, place.id = site ∧ place.form = .slot accessor (.computed key) ∧
      role.Fills place whole
  | .inObject object => whole.form = .binary .hasKey key object
  | .inTable accessor => whole.id = site ∧ whole.form = .hasSlot key accessor

/-- An evaluation that has come to a key: where the key is evaluated, and how it goes on with the
key that is found and the things that are held with it. -/
structure KeyUse where
  context : Context
  select : PropertyKey → List Node → Eval Value

namespace Eval

variable {self : Evaluator} {context : Context} {place : KeyPlace} {site site' : ExprId}
  {key key' whole whole' : Expr} {m m' : Machine}

/-- Whether an object, found after the key, has the key. -/
def searchObject (self : Evaluator) (context : Context) (object : Expr) (key : PropertyKey)
    (held : List Node) : Eval Value := do
  match ← self.eval (context.holding held) object with
  | .object o => return .bool ((← world).hasProperty o key)
  | v => raiseType (.cannotSearch v)

/-- Calls what has been found under a key, with the receiver it was found in. -/
def callFound (self : Evaluator) (context : Context) (found : Eval Value) (target : Value)
    (args : List Expr) : Eval Value := do
  let f ← found
  let context := context.holdingValues [f, target]
  let args ← evalArgs self context args
  callValue self context.nodes f target args

/-- What is done with a property of a value. -/
def useProperty (self : Evaluator) (context : Context) (v : Value) (role : Role)
    (key : PropertyKey) : Eval Value :=
  match role with
  | .read => getMember v key
  | .assign e => do
    let value ← self.eval (context.holdingValues [v]) e
    setMember v key value
    return value
  | .delete => deleteMember v key
  | .call args => callFound self context (getMember v key) v args

/-- What is done with a slot of a table that has been found. -/
def useSlot (self : Evaluator) (context : Context) (access : Access) (role : Role) :
    Eval KeyUse := do
  let table := access.table
  let holding := context.holding [.table table]
  match role with
  | .read =>
    let target ← receiver context access
    return ⟨holding.holdingValues [target], fun k _ => getSlot table k⟩
  | .assign e =>
    return ⟨holding, fun k _ => do
      let value ← self.eval holding e
      changeWorld (·.setSlot table k value)
      return value⟩
  | .delete =>
    return ⟨holding, fun k _ => do
      let isThere := ((← world).tableAt table).has k
      changeWorld (·.deleteSlot table k)
      return .bool isThere⟩
  | .call args =>
    let target ← receiver context access
    return ⟨holding.holdingValues [target],
      fun k _ => callFound self context (getSlot table k) target args⟩

/-- What is evaluated before the key. -/
def arrive (self : Evaluator) (context : Context) (site : ExprId) : KeyPlace → Eval KeyUse
  | .index object role => do
    let v ← self.eval context object
    return ⟨context.holdingValues [v], fun k _ => useProperty self context v role k⟩
  | .slot accessor role => do
    let access ← resolve self context site accessor
    useSlot self context access role
  | .inObject object => return ⟨context, searchObject self context object⟩
  | .inTable accessor => return ⟨context, fun k _ => hasSlot self context site accessor k⟩

/-- Evaluates a key and goes on with what it stands for. -/
def useKey (self : Evaluator) (key : Expr) (use : KeyUse) : Eval Value := do
  let v ← self.eval use.context key
  use.select v.toKey (nodesOf [v])

theorem evalExpr_of_fills_index {object : Expr} {role : Role}
    (h : (KeyPlace.index object role).Fills site key whole) :
    evalExpr self context whole =
      arrive self context site (.index object role) >>= useKey self key := by
  obtain ⟨place, hform, hfills⟩ := h
  -- in each role the object comes first, then the key, and then what the role does with it
  cases role with
  | read =>
    cases hfills
    rw [evalExpr, hform]
    simp [indexed, arrive, useKey, useProperty]
  | assign value =>
    rw [evalExpr, show whole.form = .assign place value from hfills]
    simp [assign, hform, indexed, arrive, useKey, useProperty]
  | delete =>
    rw [evalExpr, show whole.form = .unary .delete place from hfills]
    simp [unary, deleteTarget, hform, indexed, arrive, useKey, useProperty]
  | call args =>
    rw [evalExpr, show whole.form = .call place args from hfills]
    simp [call, calleeOf, hform, indexed, arrive, useKey, useProperty, callFound]

theorem evalExpr_of_fills_slot {accessor : Accessor} {role : Role}
    (h : (KeyPlace.slot accessor role).Fills site key whole) :
    evalExpr self context whole =
      arrive self context site (.slot accessor role) >>= useKey self key := by
  obtain ⟨place, rfl, hform, hfills⟩ := h
  -- in each role the owner comes first, then the key, and then what the role does with it
  cases role with
  | read =>
    cases hfills
    rw [evalExpr, hform]
    simp [readSlot, slotKey, arrive, useSlot, useKey]
  | assign value =>
    rw [evalExpr, show whole.form = .assign place value from hfills]
    simp [assign, hform, writeSlot, slotKey, arrive, useSlot, useKey]
  | delete =>
    rw [evalExpr, show whole.form = .unary .delete place from hfills]
    simp [unary, deleteTarget, hform, deleteSlot, slotKey, arrive, useSlot, useKey]
  | call args =>
    rw [evalExpr, show whole.form = .call place args from hfills]
    simp [call, calleeOf, hform, readMethod, slotKey, arrive, useSlot, useKey, callFound]

/-- **A key matters by what its value stands for and holds**, in every place. -/
theorem evalExpr_of_fills (h : place.Fills site key whole) :
    evalExpr self context whole = arrive self context site place >>= useKey self key := by
  -- In each place the key is evaluated last, and then used.
  cases place with
  | index object role => exact evalExpr_of_fills_index h
  | slot accessor role => exact evalExpr_of_fills_slot h
  | inObject object =>
    rw [evalExpr, show whole.form = .binary .hasKey key object from h]
    simp only [binary, hasKey, arrive, pure_bind]
    rfl
  | inTable accessor =>
    obtain ⟨rfl, hform⟩ := h
    rw [evalExpr, hform]
    simp [arrive, useKey]

/-! ### Equal keys -/

/-- Equal values hold the same things. -/
theorem nodesOf_congr {a b : Value} (h : a.strictEquals b = true) : nodesOf [a] = nodesOf [b] := by
  rcases Value.strictEquals_iff.mp h with ⟨n, n', rfl, rfl, -⟩ | ⟨rfl, -⟩ <;> rfl

/-- Keys whose values are equal are used alike. -/
theorem useKey_congr {use : KeyUse} {a b : Value} (ha : self.eval use.context key m = .ok a m')
    (hb : self.eval use.context key' m = .ok b m') (h : a.strictEquals b = true) :
    useKey self key use m = useKey self key' use m := by
  unfold useKey
  rw [bind_of_ok ha, bind_of_ok hb, Value.toKey_congr h, nodesOf_congr h]

/-- What is evaluated before a key depends on the class that the accessor is bound to. -/
theorem arrive_congr (hsites : context.frame.unit.bindings.classOf? site =
      context.frame.unit.bindings.classOf? site') (place : KeyPlace) :
    arrive self context site place = arrive self context site' place := by
  have hhome : boundHome context site = boundHome context site' := by
    unfold boundHome
    rw [hsites]
  cases place <;> simp only [arrive, hasSlot, resolve, hhome]

end Eval

/-- **Equal values address the same slot.** Equality is symmetric and transitive, and every value
but NaN is equal to itself. Equal values stand for the same key, and no other value stands for the
key of a symbol. In every place for a key, two keys whose values are equal give the same result and
the same machine. -/
theorem Value.equal_same_slot :
    (∀ a b : Value, a.strictEquals b = b.strictEquals a) ∧
      (∀ a b c : Value, a.strictEquals b = true → b.strictEquals c = true →
        a.strictEquals c = true) ∧
      (∀ v : Value, v.strictEquals v = true ↔ ∀ n, v = .number n → n.isNaN = false) ∧
      (∀ a b : Value, a.strictEquals b = true → a.toKey = b.toKey) ∧
      (∀ (s : Symbol) (v : Value), (Value.symbol s).toKey = v.toKey ↔ v = .symbol s) ∧
      ∀ (self : Evaluator) (context : Context) (place : KeyPlace) (site site' : ExprId)
        (key key' whole whole' : Expr),
        place.Fills site key whole → place.Fills site' key' whole' →
        context.frame.unit.bindings.classOf? site = context.frame.unit.bindings.classOf? site' →
        ∀ m : Machine,
          (∀ use m₁, Eval.arrive self context site place m = .ok use m₁ →
            ∃ a b m₂, self.eval use.context key m₁ = .ok a m₂ ∧
              self.eval use.context key' m₁ = .ok b m₂ ∧ a.strictEquals b = true) →
          Eval.evalExpr self context whole m = Eval.evalExpr self context whole' m := by
  -- what is left is the use: two keys that are equal are turned into the same property key
  refine ⟨strictEquals_comm, fun _ _ _ => strictEquals_trans, fun _ => strictEquals_self_iff,
    fun _ _ => toKey_congr, fun _ _ => toKey_symbol_iff, ?_⟩
  intro self context place site site' key key' whole whole' hfills hfills' hsites m hkeys
  rw [Eval.evalExpr_of_fills hfills, Eval.evalExpr_of_fills hfills', ← Eval.arrive_congr hsites]
  -- the parts before the key run alike, whichever expression the key is
  cases harrive : Eval.arrive self context site place m with
  | error stop m₁ => rw [Eval.bind_of_error harrive, Eval.bind_of_error harrive]
  | ok use m₁ =>
    obtain ⟨a, b, m₂, ha, hb, hequal⟩ := hkeys use m₁ harrive
    rw [Eval.bind_of_ok harrive, Eval.bind_of_ok harrive, Eval.useKey_congr ha hb hequal]

/-- The expression has no number and no region of its own. -/
def ExprForm.bare (form : ExprForm) : Expr := ⟨⟨0⟩, default, 0, form⟩

/-- An object that has a property under the text of zero. -/
def zeroKeyMachine : Machine :=
  let m := (Session.start 8).machine
  { m with world := (m.world.newObject none).2.setProperty ⟨0⟩ (.string "0") .null }

/-- A property of the receiver. -/
def ofReceiver (key : Expr) : Expr := (ExprForm.index ExprForm.this.bare key).bare

/-- The object is asked for its property under zero, and under zero with the sign turned. -/
theorem Value.equal_same_slot_zeros :
    let zero := (ExprForm.number .zero).bare
    let negativeZero := (ExprForm.unary .negate zero).bare
    let context : Context := ⟨⟨default, .object ⟨0⟩, none, none⟩, ⟨0⟩, []⟩
    Eval.evalExpr (evaluator 2) context (ofReceiver negativeZero) zeroKeyMachine =
      .ok .null zeroKeyMachine := by
  intro zero negativeZero context
  obtain ⟨-, -, -, -, -, hplaces⟩ := equal_same_slot
  -- both zeros are spelled `0`, so that is the property read
  have hkey : (Value.number .zero).toKey = .string "0" :=
    congrArg PropertyKey.string (Number.text_of_isZero rfl)
  have hzero : Eval.evalExpr (evaluator 2) context (ofReceiver zero) zeroKeyMachine =
      .ok .null zeroKeyMachine := by
    change Eval.getMember (.object ⟨0⟩) (Value.number .zero).toKey zeroKeyMachine = _
    rw [hkey]
    rfl
  refine (hplaces (evaluator 2) context (.index ExprForm.this.bare .read) ⟨0⟩ ⟨0⟩ negativeZero zero
    (ofReceiver negativeZero) (ofReceiver zero) ⟨_, rfl, rfl⟩ ⟨_, rfl, rfl⟩ rfl zeroKeyMachine
    fun use m₁ _ => ?_).trans hzero
  exact ⟨.number Number.zero.negate, .number .zero, m₁, rfl, rfl, by decide⟩

end Enclave
