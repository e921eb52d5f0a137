import Enclave.Eval.ClassDefinition
import Enclave.Proofs.Eval.Calls

/-!
# Class definitions

The methods of a class are made before the class is there, with a home that already names it.
Nothing of a script runs in between, so the class gets the place that its token has, and the home is
right.
-/

namespace Enclave.Eval

variable {gone : Node → Prop} {m : Machine} {context : Context} {sc : ScopeContext}
  {self : Evaluator}

/-! ### Parts -/

/-- The parts of a class that is being defined fit the class body they come from. -/
structure ClassParts.Fits (gone : Node → Prop) (w : World) (site : ClassSite) (isDerived : Bool)
    (parts : ClassParts) : Prop where
  unit : parts.unit.IsBound
  scope : w.Knows gone (.scope parts.scope)
  home : parts.home.Fits w
  homeKnown : ∀ n ∈ parts.home.holds, w.Knows gone n
  site : (w.tokenAt parts.home.token).site = site
  derived : isDerived = parts.home.parent.isSome
  prototype : w.Knows gone (.object parts.prototype)
  statics : w.Knows gone (.table parts.statics)

section Parts

variable {w w' : World} {site : ClassSite} {isDerived : Bool} {parts : ClassParts}
  (h : parts.Fits gone w site isDerived)

include h

theorem ClassParts.Fits.grows (hs : w.Sound gone) (hg : w.Grows w') :
    parts.Fits gone w' site isDerived where
  unit := h.unit
  scope := h.scope.grows hg
  home := h.home.grows hs.tokens hg
  homeKnown n hn := (h.homeKnown n hn).grows hg
  site := (hg.site _ h.home.made).trans h.site
  derived := h.derived
  prototype := h.prototype.grows hg
  statics := h.statics.grows hg

/-- The home of what is written in the class body. -/
theorem ClassParts.Fits.surrounds (superUse : SuperUse)
    (hsuper : superUse ≠ .nothing → isDerived = true) :
    w.Surrounds ⟨some site, superUse⟩ (some parts.home) := by
  refine ⟨fun x hx => ?_, ?_, fun hne => ?_⟩
  · cases hx
    exact h.home
  · rw [← h.site]
    rfl
  · have hparent := (h.derived ▸ hsuper hne : parts.home.parent.isSome = true)
    obtain ⟨p, hp⟩ := Option.isSome_iff_exists.mp hparent
    exact ⟨parts.home, rfl, p, hp⟩

theorem ClassParts.Fits.knows_home : ∀ x ∈ some parts.home, ∀ n ∈ x.holds, w.Knows gone n := by
  intro x hx n hn
  cases hx
  exact h.homeKnown n hn

end Parts

/-- What `super` may stand for in a constructor or method depends on whether the class is
derived. -/
theorem isDerived_of_ne_nothing {isDerived : Bool} {superUse : SuperUse}
    (h : (if isDerived then superUse else .nothing) ≠ SuperUse.nothing) : isDerived = true := by
  by_contra hnot
  rw [if_neg hnot] at h
  exact h rfl

section Make

variable {site : ClassSite} {isDerived : Bool} {parts : ClassParts}

theorem makes_method (hw : m.world.Sound gone) (h : parts.Fits gone m.world site isDerived)
    {superUse : SuperUse} (hsuper : superUse ≠ .nothing → isDerived = true)
    (hne : superUse ≠ .construction) {definition : FunctionDef}
    (hcovers : parts.unit.CoversFunction ⟨some site, superUse⟩ definition) :
    Makes gone (makeMethod parts definition) m fun f w => w.Admits gone (.function f) :=
  makes_value hw h.unit hcovers (h.surrounds superUse hsuper) h.scope h.knows_home hne

theorem makes_makeMethods (hw : m.world.Sound gone) (h : parts.Fits gone m.world site isDerived)
    {members : List Member} (hcovers : parts.unit.CoversMembers site isDerived members) :
    Makes gone (makeMethods parts members) m fun methods w =>
      ∀ p ∈ methods, w.Admits gone (.function p.2) := by
  -- on the members: only the methods make a function, each put where its form says
  induction members generalizing m with
  | nil => exact Makes.pure fun _ h => nomatch h
  | cons member members ih =>
    obtain ⟨name, form, span⟩ := member
    obtain ⟨hform, hrest⟩ := hcovers.cons
    -- no method is a constructor, so none may call `super`
    have hmethod : (if isDerived then SuperUse.member else .nothing) ≠ .construction := by
      split <;> decide
    cases form with
    | method definition =>
      have hbody := CompiledUnit.covers_method hform (Or.inl rfl)
      refine (makes_method hw h isDerived_of_ne_nothing hmethod hbody).bind hw ?_
      intro f w₁ hw₁ hg₁ hf
      have halters := World.alters_setProperty hw₁ (h.grows hw hg₁).prototype.2 (.string name) hf
      refine (makes_changeWorld halters).bind hw₁ ?_
      intro _ w₂ hw₂ hg₂ _
      exact ih hw₂ (h.grows hw (hg₁.trans hg₂)) hrest
    | staticMethod definition =>
      have hbody := CompiledUnit.covers_staticMethod hform rfl
      refine (makes_method hw h (fun hne => absurd rfl hne) (by decide) hbody).bind hw ?_
      intro f w₁ hw₁ hg₁ hf
      have halters := World.alters_setSlot hw₁ (h.grows hw hg₁).statics.2 (.string name) hf
      refine (makes_changeWorld halters).bind hw₁ ?_
      intro _ w₂ hw₂ hg₂ _
      exact ih hw₂ (h.grows hw (hg₁.trans hg₂)) hrest
    -- a private method is put nowhere yet: it is returned, for instances to be given
    | privateMethod definition =>
      have hbody := CompiledUnit.covers_method hform (Or.inr rfl)
      refine (makes_method hw h isDerived_of_ne_nothing hmethod hbody).bind hw ?_
      intro f w₁ hw₁ hg₁ hf
      refine (ih hw₁ (h.grows hw hg₁) hrest).bind hw₁ ?_
      intro methods w₂ hw₂ hg₂ hmethods
      refine Makes.pure fun p hp => ?_
      rcases List.mem_cons.mp hp with rfl | hp
      · exact hf.grows hw₁.tokens hg₂
      · exact hmethods p hp
    | privateField initializer => exact ih hw h hrest
    | staticField initializer => exact ih hw h hrest

theorem makes_makeConstructor (hw : m.world.Sound gone)
    (h : parts.Fits gone m.world site isDerived) {constructor : Option FunctionDef}
    (hcovers : ∀ f ∈ constructor,
      parts.unit.CoversFunction (.inConstructor site isDerived) f) :
    Makes gone (makeConstructor parts constructor) m fun f? w =>
      ∀ f ∈ f?, w.Knows gone f.node ∧ ∀ c, w.functionAt f = .script c →
        c.IsBound w (.inConstructor site isDerived) := by
  cases constructor with
  | none => exact Makes.pure fun _ h => nomatch h
  | some definition =>
    -- a constructor may call `super` just when its class is derived
    have hsurrounds := h.surrounds (if isDerived then .construction else .nothing)
      isDerived_of_ne_nothing
    have hbody := hcovers definition rfl
    refine (makes_makeFunction hw h.unit hbody hsurrounds h.scope h.knows_home).bind hw ?_
    rintro f w _ hg ⟨hknows, hat⟩
    refine Makes.pure fun f' hf' => ?_
    cases hf'
    refine ⟨hknows, fun c hc => ?_⟩
    rw [show World.functionAt _ f = _ from hat] at hc
    cases hc
    exact ⟨h.unit, hbody, hsurrounds.grows hw.tokens hg⟩

end Make

theorem covers_privateFields {u : CompiledUnit} {site : ClassSite} {isDerived : Bool}
    {members : List Member} (hcovers : u.CoversMembers site isDerived members) :
    ∀ f ∈ privateFields members, u.CoversOptional (.inClass site) f.initializer := by
  -- only a private field has an initializer for instances
  induction members with
  | nil => exact fun _ h => nomatch h
  | cons member members ih =>
    obtain ⟨name, form, span⟩ := member
    obtain ⟨hform, hrest⟩ := hcovers.cons
    cases form with
    | privateField initializer =>
      intro f hf
      rcases List.mem_cons.mp hf with rfl | hf
      · exact CompiledUnit.covers_field hform (Or.inl rfl)
      · exact ih hrest f hf
    | _ => exact ih hrest

/-! ### Classes -/

/-- The class after `extends`: there is one if and only if there is a clause. -/
theorem meets_parentOf (hself : Evaluator.IsSound gone self) (hm : m.Sound gone)
    (hc : context.Suits gone m sc) {c : ClassDef}
    (hcovers : context.frame.unit.CoversOptional sc c.superclass) :
    Meets gone (parentOf self context c) m fun parent m' =>
      c.superclass.isSome = parent.isSome ∧ ∀ p ∈ parent, m'.world.Admits gone (.class p) := by
  unfold parentOf
  cases hsuper : c.superclass with
  | none => exact Meets.pure ⟨rfl, fun _ h => nomatch h⟩
  | some e =>
    rw [hsuper] at hcovers
    refine (hself.eval hm hc hcovers.of_some).bind hm ?_
    intro v m' _ _ hv
    -- a superclass that is no class is a type error
    cases v with
    | «class» p => exact Meets.pure ⟨rfl, fun _ hp => by cases hp; exact hv⟩
    | _ => exact meets_raiseType _

/-- A class definition of which the token has been minted and the parent is known. -/
structure Announced (gone : Node → Prop) (w : World) (c : ClassDef) (token : TokenId)
    (parent : Option ClassRef) : Prop where
  known : w.Knows gone (.token token)
  site : (w.tokenAt token).site = c.site
  name : (w.tokenAt token).name = c.displayName
  derived : c.superclass.isSome = parent.isSome
  admits : ∀ p ∈ parent, w.Admits gone (.class p)

section Announced

variable {w w' : World} {c : ClassDef} {token : TokenId} {parent : Option ClassRef}
  (h : Announced gone w c token parent)

include h

theorem Announced.grows (hs : w.Sound gone) (hg : w.Grows w') :
    Announced gone w' c token parent where
  known := h.known.grows hg
  site := (hg.site token h.known.1).trans h.site
  name := (hg.name token h.known.1).trans h.name
  derived := h.derived
  admits p hp := (h.admits p hp).grows hs.tokens hg

/-- The home names the class before it is there: it will get the place of its token. -/
theorem Announced.home_fits : Home.Fits w ⟨token, ⟨token.index, c.displayName⟩, parent⟩ where
  made := h.known.1
  classRef := by rw [h.name]
  parent p hp := (h.admits p hp).fits

theorem Announced.knows_home :
    ∀ n ∈ (⟨token, ⟨token.index, c.displayName⟩, parent⟩ : Home).holds, w.Knows gone n := by
  intro n hn
  rcases List.mem_cons.mp hn with rfl | hn
  · exact h.known
  · obtain ⟨p, hp, rfl⟩ : ∃ p, parent = some p ∧ p.node = n := by simpa using hn
    exact (h.admits p hp).known _ rfl

theorem Announced.parts_fit {u : CompiledUnit} (hunit : u.IsBound) {scope : ScopeId}
    (hscope : w.Knows gone (.scope scope)) {prototype : ObjectId}
    (hprototype : w.Knows gone (.object prototype)) {statics : TableId}
    (hstatics : w.Knows gone (.table statics)) :
    ClassParts.Fits gone w c.site c.superclass.isSome
      ⟨u, scope, ⟨token, ⟨token.index, c.displayName⟩, parent⟩, prototype, statics⟩ where
  unit := hunit
  scope := hscope
  home := h.home_fits
  homeKnown := h.knows_home
  site := h.site
  derived := h.derived
  prototype := hprototype
  statics := hstatics

end Announced

/-- The class that is put together from parts that fit. -/
theorem ClassParts.Fits.class_fits {w : World} {c : ClassDef} {parts : ClassParts}
    (h : parts.Fits gone w c.site c.superclass.isSome)
    (hparent : ∀ p ∈ parts.home.parent, p.index < parts.home.token.index ∧ w.HasClass p)
    (hcovers : parts.unit.CoversMembers c.site c.superclass.isSome c.members)
    {methods : List (String × FunctionRef)}
    (hmethods : ∀ p ∈ methods, w.Admits gone (.function p.2)) {constructor : Option FunctionRef}
    (hconstructor : ∀ f ∈ constructor, w.Knows gone f.node ∧ ∀ x, w.functionAt f = .script x →
      x.IsBound w (.inConstructor c.site c.superclass.isSome)) :
    Class.Fits w parts.home.token.index ⟨c.site, parts.home.token, parts.prototype,
      parts.home.parent, constructor, methods, privateFields c.members, parts.unit,
      parts.scope⟩ where
  token := rfl
  parent := hparent
  unit := h.unit
  fields f hf := by
    change CompiledUnit.CoversOptional _ (.inClass (w.tokenAt parts.home.token).site) _
    rw [h.site]
    exact covers_privateFields hcovers f hf
  methods p hp := (hmethods p hp).fits
  constructor f hf := by
    -- whether its class is derived is told by the home as it is by the definition
    obtain ⟨hknows, hbound⟩ := hconstructor f hf
    refine ⟨hknows.1, fun x hx => ?_⟩
    change x.IsBound w (.inConstructor (w.tokenAt parts.home.token).site _)
    rw [h.site, ← h.derived]
    exact hbound x hx

theorem ClassParts.Fits.knows_holds {w : World} {site : ClassSite} {isDerived : Bool}
    {parts : ClassParts} (h : parts.Fits gone w site isDerived) {fields : List Field}
    {methods : List (String × FunctionRef)}
    (hmethods : ∀ p ∈ methods, w.Admits gone (.function p.2)) {constructor : Option FunctionRef}
    (hconstructor : ∀ f ∈ constructor, w.Knows gone f.node) :
    ∀ n ∈ (⟨site, parts.home.token, parts.prototype, parts.home.parent, constructor, methods,
      fields, parts.unit, parts.scope⟩ : Class).holds, w.Knows gone n := by
  intro n hn
  simp only [Class.holds, List.mem_append, List.mem_cons, List.not_mem_nil, or_false,
    Option.mem_toList, Option.map_eq_some_iff, List.mem_map] at hn
  -- Token, prototype, scope, parent, constructor and methods.
  obtain (((rfl | rfl | rfl) | ⟨p, hp, rfl⟩) | ⟨f, hf, rfl⟩) | ⟨p, hp, rfl⟩ := hn
  · exact h.homeKnown _ List.mem_cons_self
  · exact h.prototype
  · exact h.scope
  · exact h.homeKnown _ (List.mem_cons_of_mem _ (by simp [hp]))
  · exact hconstructor f hf
  · exact (hmethods p hp).known _ rfl

/-- What is made for a class fits, for the place that its token has. -/
theorem makes_makeParts (hw : m.world.Sound gone) {c : ClassDef}
    (hunit : context.frame.unit.IsBound) (hcovers : context.frame.unit.CoversClass sc c)
    (hscope : m.world.Knows gone (.scope context.scope)) {token : TokenId}
    {parent : Option ClassRef} (h : Announced gone m.world c token parent)
    (hplace : token.index = m.world.classes.size) :
    Makes gone (makeParts context c token parent) m fun r w =>
      r.1.Fits gone w c.site c.superclass.isSome ∧ r.1.unit = context.frame.unit ∧
        r.1.home = ⟨token, m.world.nextClass c.displayName, parent⟩ ∧
        r.2.Fits w token.index ∧ (∀ n ∈ r.2.holds, w.Knows gone n) ∧
          ¬m.world.Has (.object r.2.prototype) := by
  unfold makeParts
  refine ((makes_newScope hw hscope).sameClasses hw).bind hw ?_
  rintro scope w₁ hw₁ hg₁ ⟨hscope₁, hclasses⟩
  refine Makes.world_bind ?_
  have h₁ := h.grows hw hg₁
  -- the prototype of the parent is the parent of the new prototype, and has to be known
  have habove : ∀ o ∈ parent.map fun p => (w₁.classAt p).prototype, w₁.Knows gone (.object o) := by
    intro o ho
    obtain ⟨p, hp, rfl⟩ := Option.map_eq_some_iff.mp ho
    exact hw₁.knows_prototype (h₁.admits p hp)
  refine (makes_onWorld (g := (·.newObject _)) (World.alters_newObject hw₁ habove)).bind hw₁ ?_
  rintro prototype w₂ hw₂ hg₂ heq
  have hprototype : w₂.Knows gone (.object prototype) := by
    cases heq
    exact World.knows_newObject hw₁ _
  -- it was not there before, so no registered class can lead to it
  have hfresh : ¬m.world.Has (.object prototype) := fun hhas => by
    cases heq
    exact Nat.lt_irrefl w₁.objects.size (hg₁.has _ hhas)
  -- no class was made so far, so the next one has the place of the token
  have hnext : w₁.nextClass c.displayName = ⟨token.index, c.displayName⟩ := by
    rw [World.nextClass, hclasses, hplace]
  have hnext₀ : m.world.nextClass c.displayName = ⟨token.index, c.displayName⟩ := by
    rw [World.nextClass, hplace]
  rw [hnext, hnext₀]
  have hparts := (h₁.grows hw₁ hg₂).parts_fit hunit (hscope₁.grows hg₂) hprototype
    ((hw₁.knows_statics h₁.known).grows hg₂)
  -- the methods and the constructor only add to the world that holds the parts
  refine (makes_makeMethods hw₂ hparts hcovers.members).bind hw₂ ?_
  intro methods w₃ hw₃ hg₃ hmethods
  have hparts₃ := hparts.grows hw₂ hg₃
  refine (makes_makeConstructor hw₃ hparts₃ hcovers.constructor).bind hw₃ ?_
  intro constructor w₄ hw₄ hg₄ hconstructor
  have hparts₄ := hparts₃.grows hw₃ hg₄
  -- the parent was checked against the first world, and is needed in the last
  have hall := ((hg₁.trans hg₂).trans hg₃).trans hg₄
  have hmethods₄ : ∀ p ∈ methods, w₄.Admits gone (.function p.2) := fun p hp =>
    (hmethods p hp).grows hw₃.tokens hg₄
  have hparent₄ : ∀ p ∈ parent, p.index < token.index ∧ w₄.HasClass p := fun p hp =>
    have hclass := (h.admits p hp).fits
    ⟨hplace ▸ hclass.1, hclass.grows hw.tokens hall⟩
  exact Makes.pure ⟨hparts₄, rfl, rfl,
    hparts₄.class_fits hparent₄ hcovers.members hmethods₄ hconstructor,
    hparts₄.knows_holds hmethods₄ fun f hf => (hconstructor f hf).1, hfresh⟩

/-- Minting its token announces a class. -/
theorem announced_mintToken {w : World} (hs : w.Sound gone) {c : ClassDef}
    {parent : Option ClassRef} (hsome : c.superclass.isSome = parent.isSome)
    (hparent : ∀ p ∈ parent, w.Admits gone (.class p)) :
    Announced gone (w.mintToken c.site c.displayName).2 c ⟨w.tokens.size⟩ parent := by
  -- the token minted is the last one, and its static table is empty
  have hat : (w.mintToken c.site c.displayName).2.tokenAt ⟨w.tokens.size⟩ =
      ⟨c.site, c.displayName, ⟨w.tables.size⟩, .empty⟩ := by
    rw [World.tokenAt_mintToken, if_pos rfl]
  exact
    { known := ⟨Nat.lt_of_lt_of_eq (Nat.lt_succ_self _) (Array.size_push _).symm,
        hs.not_gone_of_not_has (Nat.lt_irrefl w.tokens.size)⟩
      site := by rw [hat]
      name := by rw [hat]
      derived := hsome
      admits := fun p hp => (hparent p hp).grows hs.tokens
        (World.change_mintToken hs c.site c.displayName).grows }

/-- A class that is made may turn up, and its members belong to its home. -/
theorem meets_makeClass (hm : m.Sound gone) (hc : context.Suits gone m sc) {c : ClassDef}
    (hcovers : context.frame.unit.CoversClass sc c) {parent : Option ClassRef}
    (hsome : c.superclass.isSome = parent.isSome)
    (hparent : ∀ p ∈ parent, m.world.Admits gone (.class p)) :
    Meets gone (makeClass context c parent) m fun parts m' =>
      parts.Fits gone m'.world c.site c.superclass.isSome ∧ parts.unit = context.frame.unit ∧
        m'.world.Admits gone (.class parts.home.classRef) := by
  set w := (m.world.mintToken c.site c.displayName).2
  set token : TokenId := ⟨m.world.tokens.size⟩
  -- the token is minted first, and the world that has it is sound as well
  have hmint := World.change_mintToken hm.world c.site c.displayName
  have hw : w.Sound gone := hm.world.change hmint
  have hannounced : Announced gone w c token parent := announced_mintToken hm.world hsome hparent
  obtain ⟨⟨parts, d⟩, w', hrun, halters, hparts, hunit, hhome, hd, hholds, hfresh⟩ :=
    makes_makeParts (m := { m with world := w }) hw hc.unit hcovers (hc.scope.grows hmint.grows)
      hannounced hm.settled.symm
  obtain ⟨hw', hg', hclasses, htokens, -⟩ := halters.keeps hw
  -- the class gets the place of its token
  have hplace : token.index = w'.classes.size := by
    rw [hclasses]
    exact hm.settled.symm
  have hlt : w'.classes.size < w'.tokens.size := by
    rw [← hplace, htokens]
    exact hannounced.known.1
  have hadd := World.change_addClass hw' hlt (hplace ▸ hd) hholds
  -- the class was named before it was made: it is the next one of the first world
  have hclassRef : parts.home.classRef = m.world.nextClass c.displayName := by
    rw [hhome]
    rfl
  have hend : makeClass context c parent m = .ok parts
      { m with
        world := w'.addClass d
        journal := .minted token (m.world.nextClass c.displayName) :: m.journal } := by
    rw [← hclassRef]
    change EStateM.bind (makeParts context c token parent) _ { m with world := w } = _
    rw [EStateM.bind, hrun]
    rfl
  unfold Meets
  rw [hend]
  have hparts' := hparts.grows hw' hadd.grows
  have hmade : (w'.addClass d).Has parts.home.classRef.node := by
    rw [hclassRef]
    change m.world.classes.size < (w'.classes.push d).size
    rw [Array.size_push, hclasses]
    exact Nat.lt_succ_self m.world.classes.size
  -- the whole definition is one step of the journal, that of `define`
  refine ⟨.single (.define halters (hplace ▸ hd) hholds hfresh), hparts', hunit, ⟨hmade, ?_⟩,
    fun n hn => ?_⟩
  · exact hparts'.home.classRef ▸ rfl
  · cases hn
    refine ⟨hmade, hm.world.not_gone_of_not_has ?_⟩
    rw [hclassRef]
    exact Nat.lt_irrefl m.world.classes.size

/-! ### Static fields -/

section Define

variable (hself : Evaluator.IsSound gone self) (hm : m.Sound gone)
  (hc : context.Suits gone m sc)

include hself hm hc

theorem runs_storeStatics {statics : TableId} (hstatics : m.world.Knows gone (.table statics))
    {site : ClassSite} {isDerived : Bool} (hsc : sc = .inClass site) {members : List Member}
    (hcovers : context.frame.unit.CoversMembers site isDerived members) :
    Runs gone (storeStatics self context statics members) m := by
  induction members generalizing m with
  | nil => exact Meets.pure trivial
  | cons member members ih =>
    obtain ⟨name, form, span⟩ := member
    obtain ⟨hform, hrest⟩ := hcovers.cons
    cases form with
    -- its initializer may grow the world, so the context is carried over to the rest
    | staticField initializer =>
      have hfield := CompiledUnit.covers_field hform (Or.inr rfl)
      unfold storeStatics
      refine (yields_evalOptional hself hm hc (hsc ▸ hfield)).bind hm ?_
      intro v m₁ hm₁ hg₁ hv
      have halters := World.alters_setSlot hm₁.world hstatics.2 (.string name) hv
      refine (meets_changeWorld halters).bind hm₁ ?_
      intro _ m₂ hm₂ hg₂ _
      have hg := hg₁.trans hg₂
      exact ih hm₂ (hc.grows hm hm₂ hg) (hstatics.grows hg.world) hrest
    | _ => exact ih hm hc hstatics hrest

/-- **Class definitions.** -/
theorem meets_defineClass {c : ClassDef} (hcovers : context.frame.unit.CoversClass sc c) :
    Meets gone (defineClass self context c) m fun r m' => m'.world.Admits gone (.class r) := by
  unfold defineClass
  refine (meets_parentOf hself hm hc hcovers.superclass).bind hm ?_
  rintro parent m₁ hm₁ hg₁ ⟨hsome, hparent⟩
  have hc₁ := hc.grows hm hm₁ hg₁
  refine (meets_makeClass hm₁ hc₁ hcovers hsome hparent).bind hm₁ ?_
  rintro ⟨unit, scope, home, prototype, statics⟩ m₂ hm₂ hg₂ ⟨hparts, hunit, hclass⟩
  -- static fields are initialized with the class as `this`, inside its own home
  let initializers : Context :=
    ⟨⟨unit, .class home.classRef, some home, none⟩, scope, context.nodes⟩
  have hinitializers : initializers.Suits gone m₂ (.inClass c.site) :=
    { unit := hparts.unit
      surrounds := hparts.surrounds .nothing fun hne => absurd rfl hne
      this := hclass
      home := hparts.knows_home
      scope := hparts.scope
      held := fun n hn => (hc₁.nodes n hn).grows hg₂.world
      construction := fun hsuper => nomatch hsuper }
  have hmembers : unit.CoversMembers c.site c.superclass.isSome c.members := by
    rw [show unit = context.frame.unit from hunit]
    exact hcovers.members
  -- with or without a name to bind it to, the class has its static fields stored next
  have hfields : ∀ m₃, m₃.Sound gone → m₂.Grows m₃ →
      Meets gone (storeStatics self initializers statics c.members >>= fun _ => pure home.classRef)
        m₃ fun r m' => m'.world.Admits gone (.class r) := by
    intro m₃ hm₃ hg₃
    refine (runs_storeStatics hself hm₃ (hinitializers.grows hm₂ hm₃ hg₃)
      (hparts.statics.grows hg₃.world) rfl hmembers).bind hm₃ ?_
    exact fun _ m₄ _ hg₄ _ => Meets.pure (hm₂.admits_grows (hg₃.trans hg₄) hclass)
  dsimp only
  cases c.name with
  | none => exact hfields m₂ hm₂ (.refl m₂)
  | some name =>
    have halters := World.alters_declare hm₂.world hparts.scope.2 name hclass false
    exact (meets_changeWorld halters).bind hm₂ fun _ m₃ hm₃ hg₃ _ => hfields m₃ hm₃ hg₃

end Define

end Enclave.Eval
