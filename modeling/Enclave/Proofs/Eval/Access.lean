import Enclave.Eval.Access
import Enclave.Proofs.Eval.Contexts

/-!
# Private and static access

Every accessor finds the class that it is bound to, and the tables and receivers that it reaches are
known. That the class itself can be given as a receiver rests on what is alive: either the class and
its own scope hold each other, or what is held meanwhile keeps it up.
-/

namespace Enclave.Eval

variable {gone : Node → Prop} {m : Machine} {context : Context} {sc : ScopeContext}
  {self : Evaluator}

/-! ### The home -/

/-- An accessor stands in a class, and is bound to it. -/
def IsBoundIn (unit : CompiledUnit) (sc : ScopeContext) (id : ExprId) : Prop :=
  ∃ site, sc.enclosing = some site ∧ unit.bindings.classOf? id = some site

/-- **Binding and evaluation agree.** The home of the running function is the class that the
accessor is bound to. -/
theorem meets_boundHome (hc : context.Suits gone m sc) {id : ExprId}
    (hbound : IsBoundIn context.frame.unit sc id) :
    Meets gone (boundHome context id) m fun home m' => context.frame.home = some home ∧ m = m' := by
  obtain ⟨site, henclosing, hclass⟩ := hbound
  rw [hc.surrounds.enclosing] at henclosing
  unfold boundHome
  cases hhome : context.frame.home with
  | none =>
    rw [hhome] at henclosing
    cases henclosing
  | some home =>
    rw [hhome] at henclosing
    have hsite : (m.world.tokenAt home.token).site = site := Option.some.inj henclosing
    -- the home the code runs in is that of the class it is bound to
    change Meets gone (if context.frame.unit.bindings.classOf? id =
      some (m.world.tokenAt home.token).site then pure home else
        throw (.broken .accessorOfOtherClass)) m _
    rw [if_pos (by rw [hclass, hsite])]
    exact Meets.pure ⟨rfl, rfl⟩

/-- A class that is bound to its own name and its scope lead to each other. -/
theorem links_of_holdsItself {w : World} {c : ClassRef} (h : holdsItself w c = true) :
    c.node ∈ w.links (.scope (w.classAt c).scope) ∧
      .scope (w.classAt c).scope ∈ w.links c.node := by
  constructor
  · -- The class is bound under its own name in its own scope.
    obtain ⟨x, hx, hvalue⟩ : ∃ x, (w.scopes.scopeAt (w.classAt c).scope).find? c.name = some x ∧
        x.value = .class c := by
      simpa [holdsItself] using h
    refine World.mem_links.mpr (Or.inr ⟨.class c, ?_, rfl⟩)
    exact hvalue ▸ Scope.mem_values_of_find? hx
  · refine World.mem_links.mpr (Or.inl ?_)
    change _ ∈ (w.classAt c).holds
    simp [Class.holds]

section Home

variable (hm : m.Sound gone) (hc : context.Suits gone m sc) {home : Home}
  (hhome : context.frame.home = some home)

include hc hhome

/-- The token of the home is known. -/
theorem knows_homeToken : m.world.Knows gone (.token home.token) :=
  hc.home home hhome _ List.mem_cons_self

include hm

/-- The token of the home has its class. -/
theorem homeToken_lt : home.token.index < m.world.classes.size := by
  rw [hm.settled]
  exact (hc.surrounds.fits home hhome).made

/-- The class of the home is there. -/
theorem hasClass_home : m.world.HasClass home.classRef := by
  have hlt := homeToken_lt hm hc hhome
  have hfits := (hc.surrounds.fits home hhome).classRef
  rw [hfits]
  exact ⟨hlt, rfl⟩

/-- What is found to be there still is not gone. -/
theorem admits_home
    (h : holdsItself m.world home.classRef = true ∨
      m.world.isAlive context.nodes home.classRef.node = true) :
    m.world.Admits gone (.class home.classRef) := by
  have hclass := hasClass_home hm hc hhome
  refine ⟨hclass, fun n hn => ?_⟩
  cases hn
  refine ⟨hclass.1, ?_⟩
  obtain hitself | halive := h
  · -- the class and its scope hold each other, so neither is gone without the other
    obtain ⟨hup, hdown⟩ := links_of_holdsItself hitself
    set scope := (m.world.classAt home.classRef).scope
    have hscopeHas : m.world.Has (.scope scope) :=
      hm.world.made home.classRef.node hclass.1 _ hdown
    intro hgone
    have hscopeGone : gone (.scope scope) := by
      by_contra hnot
      exact hm.world.closed _ hscopeHas hnot _ hup hgone
    refine hm.world.grounded (fun n => n = home.classRef.node ∨ n = .scope scope) ?_ _ (Or.inl rfl)
    rintro n (rfl | rfl)
    · exact ⟨hgone, _, Or.inr rfl, Or.inl hup⟩
    · exact ⟨hscopeGone, _, Or.inl rfl, Or.inl hdown⟩
  · exact hm.world.not_gone_of_isAlive hc.nodes hclass.1 halive

/-- The class of the home, or `undefined` in its place, may turn up. -/
theorem meets_classValue :
    Meets gone (classValue context home) m fun v m' => m = m' ∧ m.world.Admits gone v := by
  unfold classValue
  refine Meets.world_bind ?_
  split
  · next h =>
    exact Meets.pure ⟨rfl, admits_home hm hc hhome (by simpa using h)⟩
  · exact Meets.pure ⟨rfl, World.admits_undefined⟩

end Home

/-! ### Tables -/

/-- A token that keeps a table for an object gives it. -/
theorem instanceTable_of_some {t : TokenId} {o : ObjectId} {table : TableId}
    (h : m.world.lookupInstance? t o = some table) :
    instanceTable t (.object o) m =
      .ok table { m with journal := .resolved t (.object o) :: m.journal } := by
  rw [instanceTable, world_bind]
  simp only [h]
  rfl

/-- A token that keeps none refuses. -/
theorem instanceTable_of_none {t : TokenId} {o : ObjectId}
    (h : m.world.lookupInstance? t o = none) :
    instanceTable t (.object o) m =
      .error (.raised (.privateAccess (m.world.tokenAt t).name (.object o)))
        { m with journal := .rejected t (.object o) :: m.journal } := by
  rw [instanceTable, world_bind]
  simp only [h]
  rfl

/-- The table of a registered value is known. -/
theorem meets_instanceTable (hm : m.Sound gone) {token : TokenId}
    (hlt : token.index < m.world.classes.size) (htoken : m.world.Knows gone (.token token))
    {target : Value} (htarget : m.world.Admits gone target) :
    Meets gone (instanceTable token target) m fun table m' =>
      m'.world.Knows gone (.table table) := by
  unfold instanceTable
  refine Meets.world_bind ?_
  dsimp only
  split
  · -- only an object is ever found registered
    next table hlookup =>
    obtain ⟨o, rfl⟩ : ∃ o, target = .object o := by
      cases target <;> first | exact ⟨_, rfl⟩ | cases hlookup
    have hwarrants : m.Warrants gone (.resolved token (.object o)) :=
      ⟨hlt, o, rfl, Option.isSome_iff_exists.mpr ⟨table, hlookup⟩⟩
    rw [noting_pure]
    refine (meets_record hwarrants).bind hm ?_
    rintro _ _ - - rfl
    have ho := World.admits_object.mp htarget
    exact Meets.pure (hm.world.knows_instanceTable htoken ho hlookup)
  · -- nothing is found: the rejection is recorded before it is raised
    next hlookup =>
    have hwarrants : m.Warrants gone (.rejected token target) :=
      ⟨hlt, htarget, fun o ho => by subst ho; exact hlookup⟩
    exact (meets_record hwarrants).bind hm fun _ _ _ _ _ => meets_raise fun _ h => nomatch h

/-- What an accessor reaches may be used. -/
structure Access.Fits (gone : Node → Prop) (context : Context) (m : Machine) (a : Access) :
    Prop where
  table : m.world.Knows gone (.table a.table)
  target : ∀ table v, a = .ofInstance table v → m.world.Admits gone v
  home : ∀ table home, a = .ofClass table home → context.frame.home = some home

section Resolve

variable (hself : self.IsSound gone) (hm : m.Sound gone) (hc : context.Suits gone m sc)
  {id : ExprId} (hbound : IsBoundIn context.frame.unit sc id) {accessor : Accessor}
  (haccessor : context.frame.unit.CoversAccessor sc accessor)

include hm hc

/-- An access to an instance fits. -/
theorem fits_ofInstance {home : Home} (hhome : context.frame.home = some home) {target : Value}
    (htarget : m.world.Admits gone target) :
    Meets gone (do return Access.ofInstance (← instanceTable home.token target) target) m
      fun a m' => a.Fits gone context m' := by
  have hlt := homeToken_lt hm hc hhome
  refine (meets_instanceTable hm hlt (knows_homeToken hc hhome) htarget).bind hm ?_
  intro table m' _ hg htable
  refine Meets.pure ⟨htable, fun _ _ heq => ?_, fun _ _ heq => nomatch heq⟩
  cases heq
  exact hm.admits_grows hg htarget

include hself hbound haccessor

/-- Whatever an accessor resolves to fits. -/
theorem meets_resolve :
    Meets gone (resolve self context id accessor) m fun a m' => a.Fits gone context m' := by
  unfold resolve
  refine (meets_boundHome hc hbound).bind hm ?_
  rintro home _ - - ⟨hhome, rfl⟩
  -- the owner is `this`, the class itself, or a target that is evaluated first
  cases accessor with
  | ofReceiver span => exact fits_ofInstance hm hc hhome hc.this
  | ofClass span =>
    refine Meets.world_bind ?_
    have htoken := knows_homeToken hc hhome
    have htable := hm.world.knows_statics htoken
    refine Meets.pure ⟨htable, fun _ _ heq => (nomatch heq), fun _ _ heq => ?_⟩
    cases heq
    exact hhome
  | ofTarget span e =>
    refine (hself.eval hm hc haccessor.target).bind hm ?_
    intro target m' hm' hg htarget
    exact fits_ofInstance hm' (hc.grows hm hm' hg) hhome htarget

end Resolve

/-! ### Slots -/

/-- The receiver of a call may turn up. -/
theorem meets_receiver (hm : m.Sound gone) (hc : context.Suits gone m sc) {a : Access}
    (ha : a.Fits gone context m) :
    Meets gone (receiver context a) m fun v m' => m = m' ∧ m.world.Admits gone v := by
  cases a with
  | ofInstance table target => exact Meets.pure ⟨rfl, ha.target table target rfl⟩
  | ofClass table home => exact meets_classValue hm hc (ha.home table home rfl)

/-- The key of a slot runs. -/
theorem runs_slotKey (hself : Evaluator.IsSound gone self) (hm : m.Sound gone)
    (hc : context.Suits gone m sc) {key : SlotKey} (hkey : context.frame.unit.CoversKey sc key) :
    Runs gone (slotKey self context key) m := by
  cases key with
  | named name => exact Meets.pure trivial
  | computed e => exact (hself.eval hm hc hkey.computed).bind hm fun _ _ _ _ _ => Meets.pure trivial

/-- What a slot holds may turn up. -/
theorem yields_getSlot (hm : m.Sound gone) {table : TableId}
    (htable : m.world.Knows gone (.table table)) (key : PropertyKey) :
    Yields gone (getSlot table key) m := by
  unfold getSlot
  refine Meets.world_bind (Meets.pure (World.admits_getD fun v hv => ?_))
  exact hm.world.admits_of_stored htable (SlotTable.mem_values_of_get? hv)

section Slots

variable (hself : Evaluator.IsSound gone self) (hm : m.Sound gone) (hc : context.Suits gone m sc)
  {id : ExprId} (hbound : IsBoundIn context.frame.unit sc id) {accessor : Accessor}
  (haccessor : context.frame.unit.CoversAccessor sc accessor)

include hself hm hc hbound haccessor

/-- Reading a slot yields a value. -/
theorem yields_readSlot {key : SlotKey} (hkey : context.frame.unit.CoversKey sc key) :
    Yields gone (readSlot self context id accessor key) m := by
  unfold readSlot
  refine (meets_resolve hself hm hc hbound haccessor).bind hm ?_
  intro a m' hm' hg ha
  cases key with
  | named name => exact yields_getSlot hm' ha.table _
  | computed e =>
    have hc' := hc.grows hm hm' hg
    refine (meets_receiver hm' hc' ha).bind hm' ?_
    rintro target _ - - ⟨rfl, htarget⟩
    -- a computed key is evaluated while the table and the receiver are held
    have hholding := (hc'.holdingNode ha.table).holdingValue htarget
    refine (runs_slotKey hself hm' hholding hkey).bind hm' ?_
    intro key m'' hm'' hg' _
    exact yields_getSlot hm'' (ha.table.grows hg'.world) key

/-- A method that is read, and its receiver, may turn up. -/
theorem meets_readMethod {key : SlotKey} (hkey : context.frame.unit.CoversKey sc key) :
    Meets gone (readMethod self context id accessor key) m fun r m' =>
      m'.world.Admits gone r.1 ∧ m'.world.Admits gone r.2 := by
  unfold readMethod
  refine (meets_resolve hself hm hc hbound haccessor).bind hm ?_
  intro a m' hm' hg ha
  have hc' := hc.grows hm hm' hg
  refine (meets_receiver hm' hc' ha).bind hm' ?_
  rintro target _ - - ⟨rfl, htarget⟩
  -- While the key is evaluated, the table and the receiver are held.
  have hholding := (hc'.holdingNode ha.table).holdingValue htarget
  refine (runs_slotKey hself hm' hholding hkey).bind hm' ?_
  intro key m'' hm'' hg' _
  refine (yields_getSlot hm'' (ha.table.grows hg'.world) key).bind hm'' ?_
  intro v m₃ _ hg'' hv
  exact Meets.pure ⟨hv, hm''.admits_grows hg'' (hm'.admits_grows hg' htarget)⟩

/-- Assigning a slot yields a value. -/
theorem yields_writeSlot {key : SlotKey} (hkey : context.frame.unit.CoversKey sc key) {e : Expr}
    (he : context.frame.unit.CoversExpr sc e) :
    Yields gone (writeSlot self context id accessor key e) m := by
  unfold writeSlot
  refine (meets_resolve hself hm hc hbound haccessor).bind hm ?_
  intro a m' hm' hg ha
  -- the key and then the value are evaluated while the table is held
  have hc' := (hc.grows hm hm' hg).holdingNode ha.table
  refine (runs_slotKey hself hm' hc' hkey).bind hm' ?_
  intro key m'' hm'' hg' _
  refine (hself.eval hm'' (hc'.grows hm' hm'' hg') he).bind hm'' ?_
  intro v m₃ hm₃ hg'' hv
  have halters := World.alters_setSlot hm₃.world ha.table.2 key hv
  refine (meets_changeWorld halters).bind hm₃ ?_
  rintro _ _ - hg₃ rfl
  exact Meets.pure (hm₃.admits_grows hg₃ hv)

/-- Deleting a slot yields a value. -/
theorem yields_deleteSlot {key : SlotKey} (hkey : context.frame.unit.CoversKey sc key) :
    Yields gone (deleteSlot self context id accessor key) m := by
  unfold deleteSlot
  refine (meets_resolve hself hm hc hbound haccessor).bind hm ?_
  intro a m' hm' hg ha
  have hc' := (hc.grows hm hm' hg).holdingNode ha.table
  refine (runs_slotKey hself hm' hc' hkey).bind hm' ?_
  -- The table that was resolved is not gone when the key has been evaluated.
  intro key m'' hm'' _ _
  refine Meets.world_bind ?_
  refine (meets_changeWorld (World.alters_deleteSlot hm''.world ha.table.2 key)).bind hm'' ?_
  exact fun _ _ _ _ _ => Meets.pure (World.admits_bool _)

/-- Asking for a key yields a value. -/
theorem yields_hasSlot (key : PropertyKey) :
    Yields gone (hasSlot self context id accessor key) m := by
  unfold hasSlot
  refine (meets_resolve hself hm hc hbound haccessor).bind hm ?_
  exact fun _ _ _ _ _ => Meets.world_bind (Meets.pure (World.admits_bool _))

end Slots

end Enclave.Eval
