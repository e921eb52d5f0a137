import Enclave.Proofs.Eval.Keeping
import Enclave.Proofs.Syntax.Roundtrip

/-!
# Spellings of slots

A slot of the running function's own table, under a fixed name, can be spelled in four ways:
`private.k`, `private["k"]`, `private(this).k` and `private(this)["k"]`; a static slot in two:
`static.k` and `static["k"]`. Whether a table has a key is asked in two ways. Each spelling of a use
is read as an expression that is the use, whatever stands behind it (`Use.arrives_spelling`), and
binding gives its accessor the class whose body it is in (`Use.Spelled.bound`).

Evaluation takes the same steps for all spellings (`Eval.evalExpr_congr_slot`,
`Eval.evalExpr_congr_has`). So they are interchangeable (`Use.interchangeable`).
-/

namespace Enclave

/-! ### Spellings -/

/-- Whose table a slot belongs to: that of the receiver, or that of the class. -/
inductive SlotOwner
  | own | static
  deriving DecidableEq

/-- How the accessor is written. -/
def SlotOwner.spellings : SlotOwner → List (List TokenKind)
  | .own => [[.keyword .kwPrivate], .keyword .kwPrivate :: inParens [.keyword .kwThis]]
  | .static => [[.keyword .kwStatic]]

/-- How a fixed key is written. -/
def keySpellings (name : String) : List (List TokenKind) :=
  [[.mark .dot, .word name], [.mark .leftBracket, .string name, .mark .rightBracket]]

/-- What is done with a slot: it is read, assigned a value, deleted, or called with arguments. -/
inductive Role
  | read
  | assign (value : Expr)
  | delete
  | call (args : List Expr)

/-- How a slot that is written so is used in the role. -/
def Role.around (slot : List TokenKind) : Role → List TokenKind
  | .read => slot
  | .assign value => slot ++ .mark .assign :: value.printed
  | .delete => .keyword .kwDelete :: slot
  | .call args => slot ++ inParens (separated (exprsPrinted args))

/-- A use of a table: of a slot under a fixed name, or to ask whether it has a key. -/
inductive Use
  | slot (owner : SlotOwner) (name : String) (role : Role)
  | has (key : Expr)

/-- All ways to write the use. -/
def Use.spellings : Use → List (List TokenKind)
  | .slot owner name role =>
    owner.spellings.flatMap fun accessor =>
      (keySpellings name).map fun key => role.around (accessor ++ key)
  | .has key =>
    SlotOwner.own.spellings.map fun accessor =>
      within 4 key.form.tier key.printed ++ .keyword .kwIn :: accessor

/-- The expressions that are parts of the use, whatever way it is written. -/
def Use.parts : Use → List Expr
  | .slot _ _ (.assign value) => [value]
  | .slot _ _ (.call args) => args
  | .slot .. => []
  | .has key => [key]

/-! ### Spelled expressions -/

/-- The accessor means this table: `private` and `private(this)`, or `static`. -/
def Accessor.means (owner : SlotOwner) : Accessor → Bool
  | .ofReceiver _ | .ofTarget _ ⟨_, _, _, .this⟩ => owner = .own
  | .ofTarget .. => false
  | .ofClass _ => owner = .static

/-- The key is the name, as it stands or as a string. -/
def SlotKey.names (name : String) : SlotKey → Bool
  | .named name' | .computed ⟨_, _, _, .string name'⟩ => name' = name
  | .computed _ => false

/-- The expression is a slot of this table, under the name. -/
def Expr.spells (owner : SlotOwner) (name : String) : Expr → Bool
  | ⟨_, _, _, .slot accessor key⟩ => accessor.means owner && key.names name
  | _ => false

/-- The expression is a slot in this role. -/
def Role.Fills (slot whole : Expr) : Role → Prop
  | .read => whole = slot
  | .assign value => whole.form = .assign slot value
  | .delete => whole.form = .unary .delete slot
  | .call args => whole.form = .call slot args

/-- The expression is the use, in any spelling, and `site` is the number of its accessor. -/
def Use.Spelled (site : ExprId) (whole : Expr) : Use → Prop
  | .slot owner name role =>
    ∃ slot : Expr, slot.id = site ∧ slot.spells owner name = true ∧ role.Fills slot whole
  | .has key =>
    whole.id = site ∧ ∃ accessor, whole.form = .hasSlot key accessor ∧ accessor.means .own = true

/-- An accessor with a target is the running function's own when the target is `this`. -/
theorem Accessor.means_ofTarget {owner : SlotOwner} {span : Span} {target : Expr} :
    (Accessor.ofTarget span target).means owner = true ↔ owner = .own ∧ target.form = .this := by
  obtain ⟨id, span', height, form⟩ := target
  cases form <;> simp [means]

/-- A computed key names what is written in it as a string. -/
theorem SlotKey.names_computed {name : String} {key : Expr} :
    (SlotKey.computed key).names name = true ↔ key.form = .string name := by
  obtain ⟨id, span, height, form⟩ := key
  cases form <;> simp [names]

/-- An expression spells a slot when it is one, of the right owner and under the right name. -/
theorem Expr.spells_iff {owner : SlotOwner} {name : String} {e : Expr} :
    e.spells owner name = true ↔ ∃ accessor key, e.form = .slot accessor key ∧
      accessor.means owner = true ∧ key.names name = true := by
  obtain ⟨id, span, height, form⟩ := e
  cases form <;> simp [spells]

/-! ### Reading -/

section Erased

variable {owner : SlotOwner} {name : String} {e e' : Expr}

/-- What an accessor means does not depend on regions and numbers. -/
theorem Accessor.means_erased (accessor : Accessor) :
    accessor.erased.means owner = accessor.means owner := by
  cases accessor with
  | ofTarget span target =>
    obtain ⟨id, span', height, form⟩ := target
    cases form <;> rfl
  | _ => rfl

/-- What a key names does not depend on regions and numbers. -/
theorem SlotKey.names_erased (key : SlotKey) : key.erased.names name = key.names name := by
  cases key with
  | computed key =>
    obtain ⟨id, span', height, form⟩ := key
    cases form <;> rfl
  | named name' => rfl

/-- What an expression spells does not depend on regions and numbers. -/
theorem Expr.spells_erased (e : Expr) : e.erased.spells owner name = e.spells owner name := by
  obtain ⟨id, span, height, form⟩ := e
  cases form with
  | slot accessor key =>
    change (accessor.erased.means owner && key.erased.names name) = _
    rw [accessor.means_erased, key.names_erased]
    rfl
  | _ => rfl

/-- Expressions that look the same have forms that look the same. -/
theorem Expr.erased_form_congr (h : e'.erased = e.erased) : e'.form.erased = e.form.erased := by
  rw [← Expr.erased_form, h, Expr.erased_form]

/-- Expressions that look the same spell the same. -/
theorem Expr.spells_congr (h : e'.erased = e.erased) :
    e'.spells owner name = e.spells owner name := by
  rw [← Expr.spells_erased, h, Expr.spells_erased]

end Erased

section Inversion

variable {form : ExprForm}

/-- What looks like an assignment is one. -/
theorem ExprForm.of_erased_assign {target value : Expr} (h : form.erased = .assign target value) :
    ∃ target' value', form = .assign target' value' ∧ target'.erased = target ∧
      value'.erased = value := by
  cases form <;> simp_all [erased]

/-- What looks like a unary expression is one. -/
theorem ExprForm.of_erased_unary {op : UnaryOp} {operand : Expr}
    (h : form.erased = .unary op operand) :
    ∃ operand', form = .unary op operand' ∧ operand'.erased = operand := by
  cases form <;> simp_all [erased]

/-- What looks like a call is one. -/
theorem ExprForm.of_erased_call {callee : Expr} {args : List Expr}
    (h : form.erased = .call callee args) :
    ∃ callee' args', form = .call callee' args' ∧ callee'.erased = callee ∧
      exprsErased args' = args := by
  cases form <;> simp_all [erased]

/-- What looks like an `in` with an accessor is one. -/
theorem ExprForm.of_erased_hasSlot {key : Expr} {accessor : Accessor}
    (h : form.erased = .hasSlot key accessor) :
    ∃ key' accessor', form = .hasSlot key' accessor' ∧ key'.erased = key ∧
      accessor'.erased = accessor := by
  cases form <;> simp_all [erased]

end Inversion

/-- The use, up to numbers and regions. -/
def Use.erased : Use → Use
  | .slot owner name (.assign value) => .slot owner name (.assign value.erased)
  | .slot owner name (.call args) => .slot owner name (.call (exprsErased args))
  | .slot owner name role => .slot owner name role
  | .has key => .has key.erased

/-- A copy of a spelled use is one of a copy of the use. -/
theorem Use.Spelled.of_erased {use : Use} {site : ExprId} {whole whole' : Expr}
    (h : use.Spelled site whole) (herased : whole'.erased = whole.erased) :
    ∃ (use' : Use) (site' : ExprId), use'.Spelled site' whole' ∧ use'.erased = use.erased := by
  have hform := Expr.erased_form_congr herased
  cases use with
  | slot owner name role =>
    obtain ⟨slot, -, hslot, hfills⟩ := h
    -- in each role the copy has the same form, and its parts are copies of the parts
    cases role with
    | read =>
      cases hfills
      rw [← Expr.spells_congr herased] at hslot
      exact ⟨.slot owner name .read, _, ⟨whole', rfl, hslot, rfl⟩, rfl⟩
    | assign value =>
      rw [show whole.form = .assign slot value from hfills] at hform
      obtain ⟨slot', value', hwhole, hcopy, hvalue⟩ := ExprForm.of_erased_assign hform
      rw [← Expr.spells_congr hcopy] at hslot
      exact ⟨.slot owner name (.assign value'), _, ⟨slot', rfl, hslot, hwhole⟩,
        congrArg (Use.slot owner name <| .assign ·) hvalue⟩
    | delete =>
      rw [show whole.form = .unary .delete slot from hfills] at hform
      obtain ⟨slot', hwhole, hcopy⟩ := ExprForm.of_erased_unary hform
      rw [← Expr.spells_congr hcopy] at hslot
      exact ⟨.slot owner name .delete, _, ⟨slot', rfl, hslot, hwhole⟩, rfl⟩
    | call args =>
      rw [show whole.form = .call slot args from hfills] at hform
      obtain ⟨slot', args', hwhole, hcopy, hargs⟩ := ExprForm.of_erased_call hform
      rw [← Expr.spells_congr hcopy] at hslot
      exact ⟨.slot owner name (.call args'), _, ⟨slot', rfl, hslot, hwhole⟩,
        congrArg (Use.slot owner name <| .call ·) hargs⟩
  -- the copy asks for a copy of the key, in the same table
  | has key =>
    obtain ⟨-, accessor, hwhole, hmeans⟩ := h
    rw [hwhole] at hform
    obtain ⟨key', accessor', hwhole', hkey, haccessor⟩ := ExprForm.of_erased_hasSlot hform
    rw [← Accessor.means_erased, ← haccessor, Accessor.means_erased] at hmeans
    exact ⟨.has key', _, ⟨rfl, accessor', hwhole', hmeans⟩, congrArg Use.has hkey⟩

/-! ### Trees of spellings -/

/-- Every spelling of an accessor is what a tree is printed as. -/
theorem SlotOwner.exists_accessor {owner : SlotOwner} {ts : List TokenKind}
    (h : ts ∈ owner.spellings) :
    ∃ accessor : Accessor, accessor.printed = ts ∧ accessor.means owner = true ∧
      (SyntaxNode.accessor accessor).Everywhere SyntaxNode.IsRegular := by
  -- The own table has two spellings, that of statics one.
  cases owner with
  | own =>
    rcases List.mem_cons.mp h with rfl | h
    · exact ⟨.ofReceiver default, rfl, rfl, .intro trivial nofun⟩
    · obtain rfl := List.mem_singleton.mp h
      have hthis : (SyntaxNode.expr ⟨⟨0⟩, default, 0, .this⟩).Everywhere SyntaxNode.IsRegular :=
        .intro ⟨trivial, nofun⟩ nofun
      exact ⟨.ofTarget default ⟨⟨0⟩, default, 0, .this⟩, rfl, rfl,
        .intro trivial (List.forall_mem_singleton.mpr hthis)⟩
  | static =>
    obtain rfl := List.mem_singleton.mp h
    exact ⟨.ofClass default, rfl, rfl, .intro trivial nofun⟩

/-- Every spelling of a key is what a tree is printed as. -/
theorem exists_slotKey {name : String} {ts : List TokenKind} (h : ts ∈ keySpellings name) :
    ∃ key : SlotKey, key.printed = ts ∧ key.names name = true ∧
      ∀ n ∈ key.children, n.Everywhere SyntaxNode.IsRegular := by
  rcases List.mem_cons.mp h with rfl | h
  · exact ⟨.named name, rfl, decide_eq_true rfl, nofun⟩
  · obtain rfl := List.mem_singleton.mp h
    have hstring : (SyntaxNode.expr ⟨⟨0⟩, default, 0, .string name⟩).Everywhere
        SyntaxNode.IsRegular := .intro ⟨trivial, nofun⟩ nofun
    exact ⟨.computed ⟨⟨0⟩, default, 0, .string name⟩, rfl, decide_eq_true rfl,
      List.forall_mem_singleton.mpr hstring⟩

/-- Every spelling of a use is what a tree is printed as. -/
theorem Use.exists_tree {use : Use} {ts : List TokenKind} (h : ts ∈ use.spellings)
    (hparts : ∀ e ∈ use.parts, (SyntaxNode.expr e).Everywhere SyntaxNode.IsRegular) :
    ∃ (site : ExprId) (whole : Expr), use.Spelled site whole ∧ whole.printed = ts ∧
      (SyntaxNode.expr whole).Everywhere SyntaxNode.IsRegular := by
  cases use with
  | slot owner name role =>
    obtain ⟨accessorTokens, haccessor, h⟩ := List.mem_flatMap.mp h
    obtain ⟨keyTokens, hkey, rfl⟩ := List.mem_map.mp h
    obtain ⟨accessor, rfl, hmeans, haccessor⟩ := SlotOwner.exists_accessor haccessor
    obtain ⟨key, rfl, hnames, hkey⟩ := exists_slotKey hkey
    -- any number, place and height will do: neither a spelling nor printing looks at them
    let slot : Expr := ⟨⟨0⟩, default, 0, .slot accessor key⟩
    have hslot : (SyntaxNode.expr slot).Everywhere SyntaxNode.IsRegular :=
      .intro ⟨trivial, nofun⟩ (List.forall_mem_cons.mpr ⟨haccessor, hkey⟩)
    have hspells : slot.spells owner name = true :=
      Expr.spells_iff.mpr ⟨accessor, key, rfl, hmeans, hnames⟩
    -- The slot stands alone, or as target, operand or callee.
    cases role with
    | read => exact ⟨_, slot, ⟨slot, rfl, hspells, rfl⟩, rfl, hslot⟩
    | assign value =>
      refine ⟨_, ⟨⟨0⟩, default, 0, .assign slot value⟩, ⟨slot, rfl, hspells, rfl⟩, rfl, ?_⟩
      refine .intro ⟨rfl, nofun⟩ (List.forall_mem_cons.mpr ⟨hslot, ?_⟩)
      exact List.forall_mem_singleton.mpr (hparts value List.mem_cons_self)
    | delete =>
      refine ⟨_, ⟨⟨0⟩, default, 0, .unary .delete slot⟩, ⟨slot, rfl, hspells, rfl⟩, rfl, ?_⟩
      exact .intro ⟨rfl, nofun⟩ (List.forall_mem_singleton.mpr hslot)
    | call args =>
      refine ⟨_, ⟨⟨0⟩, default, 0, .call slot args⟩, ⟨slot, rfl, hspells, rfl⟩, rfl, ?_⟩
      exact .intro ⟨trivial, nofun⟩
        (List.forall_mem_cons.mpr ⟨hslot, List.forall_mem_map.mpr hparts⟩)
  | has key =>
    obtain ⟨accessorTokens, haccessor, rfl⟩ := List.mem_map.mp h
    obtain ⟨accessor, rfl, hmeans, haccessor⟩ := SlotOwner.exists_accessor haccessor
    refine ⟨_, ⟨⟨0⟩, default, 0, .hasSlot key accessor⟩, ⟨rfl, accessor, rfl, hmeans⟩, rfl, ?_⟩
    refine .intro ⟨trivial, nofun⟩ (List.forall_mem_cons.mpr ⟨?_, ?_⟩)
    · exact hparts key List.mem_cons_self
    · exact List.forall_mem_singleton.mpr haccessor

/-- **Every spelling of a use is read as the use**, wherever an expression is read, unless it is
nested too deeply. -/
theorem Use.arrives_spelling {use : Use} {ts ks : List TokenKind} {room : Nat} {c : Cursor}
    (h : ts ∈ use.spellings)
    (hparts : ∀ e ∈ use.parts, (SyntaxNode.expr e).Everywhere SyntaxNode.IsRegular)
    (hc : c.Ahead (ts ++ ks)) (hends : (headKind ks).EndsTier 0) :
    Parser.Arrives (Parser.assignment (.ofRoom room)) c fun whole c' =>
      (∃ (use' : Use) (site : ExprId), use'.Spelled site whole ∧ use'.erased = use.erased) ∧
        c'.Ahead ks := by
  obtain ⟨site, whole, hspelled, rfl, hregular⟩ := use.exists_tree h hparts
  have hrereads : whole.Rereads := SyntaxNode.rereads_of_regular hregular
  refine (hrereads.reads.assignment room c ks hc hends).imp fun whole' c' hcopy => ?_
  exact ⟨hspelled.of_erased hcopy.1, hcopy.2⟩

/-! ### Binding -/

/-- **The accessor of a use is bound to the class around it**, in whatever way it is spelled. -/
theorem Use.Spelled.bound {u : CompiledUnit} (hu : u.IsBound) {sc : ScopeContext} {use : Use}
    {site : ExprId} {whole : Expr} (hcovers : u.CoversExpr sc whole)
    (h : use.Spelled site whole) :
    ∃ classSite, sc.enclosing = some classSite ∧ u.bindings.classOf? site = some classSite := by
  cases use with
  | slot owner name role =>
    obtain ⟨slot, rfl, hspells, hfills⟩ := h
    obtain ⟨accessor, key, hform, -, -⟩ := Expr.spells_iff.mp hspells
    -- in each role the slot is a part of the whole, so it is covered too
    have hslot : u.CoversExpr sc slot := by
      cases role with
      | read =>
        cases hfills
        exact hcovers
      | assign value => exact (hcovers.assign hfills).1
      | delete => exact hcovers.unary hfills
      | call args => exact (hcovers.call hfills).1
    exact hslot.boundTo hu (.inl ⟨key, hform⟩)
  | has key =>
    obtain ⟨rfl, accessor, hform, -⟩ := h
    exact hcovers.boundTo hu (.inr ⟨key, hform⟩)

/-! ### Evaluation -/

namespace Eval

variable {self : Evaluator} {context : Context} {owner : SlotOwner} {name : String}
  {site site' : ExprId} {accessor accessor' : Accessor} {key key' : SlotKey}

/-- An evaluator that has steps left evaluates `this` and strings. -/
structure EvaluatesAtoms (parts : Evaluator) : Prop where
  this : ∀ context e, e.form = .this → parts.eval context e = pure context.frame.this
  string : ∀ context e s, e.form = .string s → parts.eval context e = pure (.string s)

/-- With a step left, literals and `this` evaluate to what they stand for. -/
theorem evaluatesAtoms_succ (steps : Nat) : EvaluatesAtoms (evaluator (steps + 1)) where
  this context e h := by
    change evalExpr _ context e = _
    rw [evalExpr, h]
  string context e s h := by
    change evalExpr _ context e = _
    rw [evalExpr, h]

/-- What an accessor of a table resolves to, however it is spelled. -/
theorem resolve_of_means (hself : EvaluatesAtoms self) (h : accessor.means owner = true) :
    resolve self context site accessor = (do
      let home ← boundHome context site
      match owner with
      | .static => return .ofClass ((← world).tokenAt home.token).statics home
      | .own =>
        let target := context.frame.this
        return .ofInstance (← instanceTable home.token target) target) := by
  cases accessor with
  | ofReceiver span =>
    obtain rfl := of_decide_eq_true h
    rfl
  | ofClass span =>
    obtain rfl := of_decide_eq_true h
    rfl
  -- the target is `this`, which evaluates to the receiver
  | ofTarget span target =>
    obtain ⟨rfl, htarget⟩ := Accessor.means_ofTarget.mp h
    simp only [resolve, hself.this context target htarget, pure_bind]

/-- Accessors of one meaning that are bound alike resolve alike. -/
theorem resolve_congr (hself : EvaluatesAtoms self) (h : accessor.means owner = true)
    (h' : accessor'.means owner = true)
    (hsites : context.frame.unit.bindings.classOf? site =
      context.frame.unit.bindings.classOf? site') :
    resolve self context site accessor = resolve self context site' accessor' := by
  have hhome : boundHome context site = boundHome context site' := by
    unfold boundHome
    rw [hsites]
  rw [resolve_of_means hself h, resolve_of_means hself h', hhome]

/-- A fixed key needs no evaluation. -/
theorem slotKey_of_names (hself : EvaluatesAtoms self) (h : key.names name = true) :
    slotKey self context key = pure (.string name) := by
  cases key with
  | named name' =>
    obtain rfl := of_decide_eq_true h
    rfl
  | computed e =>
    have hstring := hself.string context e name (SlotKey.names_computed.mp h)
    simp only [slotKey, hstring, pure_bind, Value.toKey]

/-- Finding the receiver changes nothing. -/
theorem receiver_bind_const {α : Type} (access : Access) (x : Eval α) :
    (do
      let _ ← receiver context access
      x) = x := by
  cases access with
  | ofInstance table target => rfl
  | ofClass table home =>
    funext m
    change EStateM.bind (classValue context home) _ m = x m
    rw [EStateM.bind, classValue_eq]

/-- A slot of a fixed name is read without any more evaluation. -/
theorem readSlot_of_names (hself : EvaluatesAtoms self) (h : key.names name = true) :
    readSlot self context site accessor key = (do
      let access ← resolve self context site accessor
      getSlot access.table (.string name)) := by
  cases key with
  | named name' =>
    obtain rfl := of_decide_eq_true h
    rfl
  | computed e =>
    unfold readSlot
    refine congrArg _ (funext fun access => ?_)
    simp only [slotKey_of_names hself h, pure_bind, receiver_bind_const]

/-- **Spellings of a slot are interchangeable** in every role. -/
theorem evalExpr_congr_slot (hself : EvaluatesAtoms self) {slot slot' whole whole' : Expr}
    (role : Role) (hspells : slot.spells owner name = true)
    (hspells' : slot'.spells owner name = true)
    (hfills : role.Fills slot whole) (hfills' : role.Fills slot' whole')
    (hsites : context.frame.unit.bindings.classOf? slot.id =
      context.frame.unit.bindings.classOf? slot'.id) :
    evalExpr self context whole = evalExpr self context whole' := by
  obtain ⟨accessor, key, hform, hmeans, hnames⟩ := Expr.spells_iff.mp hspells
  obtain ⟨accessor', key', hform', hmeans', hnames'⟩ := Expr.spells_iff.mp hspells'
  -- the owners resolve alike, and the keys name the same slot
  have hresolve := resolve_congr hself hmeans hmeans' hsites
  have hkey : ∀ context, slotKey self context key = slotKey self context key' := fun context => by
    rw [slotKey_of_names hself hnames, slotKey_of_names hself hnames']
  -- in each role nothing else depends on how the slot is spelled
  cases role with
  | read =>
    cases hfills
    cases hfills'
    rw [evalExpr, evalExpr, hform, hform']
    change readSlot self context slot.id accessor key =
      readSlot self context slot'.id accessor' key'
    rw [readSlot_of_names hself hnames, readSlot_of_names hself hnames', hresolve]
  | assign value =>
    rw [evalExpr, evalExpr, hfills, hfills']
    change assign self context slot value = assign self context slot' value
    rw [assign, assign, hform, hform']
    change writeSlot self context slot.id accessor key value =
      writeSlot self context slot'.id accessor' key' value
    simp only [writeSlot, hresolve, hkey]
  | delete =>
    rw [evalExpr, evalExpr, hfills, hfills']
    change deleteTarget self context slot = deleteTarget self context slot'
    rw [deleteTarget, deleteTarget, hform, hform']
    change deleteSlot self context slot.id accessor key =
      deleteSlot self context slot'.id accessor' key'
    simp only [deleteSlot, hresolve, hkey]
  | call args =>
    rw [evalExpr, evalExpr, hfills, hfills']
    change call self context slot args = call self context slot' args
    have hcallee : calleeOf self context slot = calleeOf self context slot' := by
      rw [calleeOf, calleeOf, hform, hform']
      change readMethod self context slot.id accessor key =
        readMethod self context slot'.id accessor' key'
      simp only [readMethod, hresolve, hkey]
    rw [call, call, hcallee]

/-- **Spellings of an accessor are interchangeable** where keys are asked for. -/
theorem evalExpr_congr_has (hself : EvaluatesAtoms self) {e whole whole' : Expr}
    (hform : whole.form = .hasSlot e accessor) (hform' : whole'.form = .hasSlot e accessor')
    (h : accessor.means owner = true) (h' : accessor'.means owner = true)
    (hsites : context.frame.unit.bindings.classOf? whole.id =
      context.frame.unit.bindings.classOf? whole'.id) :
    evalExpr self context whole = evalExpr self context whole' := by
  rw [evalExpr, evalExpr, hform, hform']
  simp only [hasSlot, resolve_congr hself h h' hsites]

end Eval

/-- Spellings of a use whose accessors are bound to the same class are evaluated to the same value
or error, and to the same machine. -/
theorem Use.eval_congr {use : Use} {site site' : ExprId} {whole whole' : Expr} {context : Context}
    (h : use.Spelled site whole) (h' : use.Spelled site' whole')
    (hsites : context.frame.unit.bindings.classOf? site =
      context.frame.unit.bindings.classOf? site') (steps : Nat) :
    (evaluator (steps + 2)).eval context whole = (evaluator (steps + 2)).eval context whole' := by
  have hself := Eval.evaluatesAtoms_succ steps
  change Eval.evalExpr (evaluator (steps + 1)) context whole =
    Eval.evalExpr (evaluator (steps + 1)) context whole'
  -- both spellings resolve to the same table, and only the table decides the outcome
  cases use with
  | slot owner name role =>
    obtain ⟨slot, rfl, hspells, hfills⟩ := h
    obtain ⟨slot', rfl, hspells', hfills'⟩ := h'
    exact Eval.evalExpr_congr_slot hself role hspells hspells' hfills hfills' hsites
  | has key =>
    obtain ⟨rfl, accessor, hform, hmeans⟩ := h
    obtain ⟨rfl, accessor', hform', hmeans'⟩ := h'
    exact Eval.evalExpr_congr_has hself hform hform' hmeans hmeans' hsites

/-- **All spellings of a use are interchangeable.** Each is read as the use, unless it is nested too
deeply; its accessor is bound to the class around it; and where two are bound to the same class,
they are evaluated to the same value or error and to the same machine, in every context and from
every machine. -/
theorem Use.interchangeable (use : Use) :
    (∀ ts ∈ use.spellings,
      (∀ e ∈ use.parts, (SyntaxNode.expr e).Everywhere SyntaxNode.IsRegular) →
      ∀ (room : Nat) (c : Cursor) (ks : List TokenKind),
        c.Ahead (ts ++ ks) → (headKind ks).EndsTier 0 →
        Parser.Arrives (Parser.assignment (.ofRoom room)) c fun whole c' =>
          (∃ (use' : Use) (site : ExprId), use'.Spelled site whole ∧ use'.erased = use.erased) ∧
            c'.Ahead ks) ∧
    (∀ (source : List UInt8) (u : CompiledUnit), compile source = .ok u →
      ∀ (sc : ScopeContext) (site : ExprId) (whole : Expr),
        u.CoversExpr sc whole → use.Spelled site whole →
        ∃ classSite, sc.enclosing = some classSite ∧ u.bindings.classOf? site = some classSite) ∧
    ∀ (site site' : ExprId) (whole whole' : Expr),
      use.Spelled site whole → use.Spelled site' whole' →
      ∀ context : Context, context.frame.unit.bindings.classOf? site =
          context.frame.unit.bindings.classOf? site' →
        ∀ steps, (evaluator (steps + 2)).eval context whole =
          (evaluator (steps + 2)).eval context whole' :=
  ⟨fun _ h hparts _ _ _ hc hends => arrives_spelling h hparts hc hends,
    fun _ _ hcompile _ _ _ hcovers h => h.bound (CompiledUnit.isBound_of_compile hcompile) hcovers,
    fun _ _ _ _ h h' _ hsites steps => eval_congr h h' hsites steps⟩

/-- A class that reads one of its slots in four ways. -/
def fourWaysSource : List UInt8 :=
  ("class C \x7b m() \x7b private.k; private['k']; private(this).k; private(this)['k']; " ++
    "\x7d \x7d").toUTF8.toList

/-- A method of the receiver is called. -/
def ownCall : Use := .slot .own "k" (.call [])

def ownCallSource : List UInt8 := "private(this)['k']();".toUTF8.toList

theorem Use.interchangeable_fourWays :
    Parser.Arrives (Parser.assignment (.ofRoom 8)) (.ofTokens (Lexer.tokens ownCallSource))
      (fun whole c => (∃ (use : Use) (site : ExprId), use.Spelled site whole ∧
        use.erased = ownCall.erased) ∧ c.Ahead [.mark .semicolon, .endOfInput]) ∧
    ∃ u, compile fourWaysSource = .ok u ∧
      (stmtsNodes u.program.body).countP (·.spells .own "k") = 4 ∧
      ∀ e ∈ stmtsNodes u.program.body, e.spells .own "k" = true →
      ∀ e' ∈ stmtsNodes u.program.body, e'.spells .own "k" = true →
      ∀ (whole whole' : Expr), whole.form = .call e [] → whole'.form = .call e' [] →
      ∀ context : Context, context.frame.unit = u →
        (evaluator 2).eval context whole = (evaluator 2).eval context whole' := by
  -- all four spellings are bound to the one class of the source
  have hfacts : (compile fourWaysSource).toOption.map (fun u =>
      ((stmtsNodes u.program.body).countP (·.spells .own "k"),
        (stmtsNodes u.program.body).all fun e => !e.spells .own "k" ||
          decide (u.bindings.classOf? e.id = some ⟨0⟩))) = some (4, true) := by
    decide +kernel
  obtain ⟨hreading, -, hevaluating⟩ := Use.interchangeable ownCall
  refine ⟨?_, ?_⟩
  · -- one spelling is read from its tokens, with room to spare
    refine hreading (.keyword .kwPrivate :: inParens [.keyword .kwThis] ++
      [.mark .leftBracket, .string "k", .mark .rightBracket] ++ inParens []) ?_ nofun 8 _
      [.mark .semicolon, .endOfInput] ⟨?_, ?_, rfl⟩ (TokenKind.endsTier_of_closes rfl 0)
    · simp [ownCall, spellings, SlotOwner.spellings, keySpellings, Role.around, exprsPrinted,
        separated]
    · decide +kernel
    · decide +kernel
  cases hcompile : compile fourWaysSource with
  | error errors =>
    rw [hcompile] at hfacts
    cases hfacts
  | ok u =>
    rw [hcompile] at hfacts
    obtain ⟨hcount, hbound⟩ := Prod.mk.inj (Option.some.inj hfacts)
    -- so any two of them have the same class, and are evaluated alike
    have hsite : ∀ e ∈ stmtsNodes u.program.body, e.spells .own "k" = true →
        u.bindings.classOf? e.id = some ⟨0⟩ := fun e he hspells => by
      simpa [hspells] using List.all_eq_true.mp hbound e he
    refine ⟨u, rfl, hcount, ?_⟩
    rintro e he hspells e' he' hspells' whole whole' hcall hcall' context rfl
    refine hevaluating e.id e'.id whole whole' ⟨e, rfl, hspells, hcall⟩
      ⟨e', rfl, hspells', hcall'⟩ context ?_ 0
    rw [hsite e he hspells, hsite e' he' hspells']

end Enclave
