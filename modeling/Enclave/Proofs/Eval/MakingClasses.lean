import Enclave.Proofs.Eval.Composition

/-!
# What class definitions make

Up to its static fields, a class definition makes a token, a prototype, the methods, and last the
constructor and the class (`makeClass_made`). While this is done the token is there already and the
class is not, so the machine is not settled; but nothing can fail, and no code of the script runs.
-/

namespace Enclave.Eval

variable {α β : Type} {m : Machine} {x : Eval α} {f : α → Eval β}

/-! ### Pieces that cannot fail -/

/-- A piece that gives something and changes the world. -/
def Produces (x : Eval α) (m : Machine) (q : α → World → Prop) : Prop :=
  ∃ a w, x m = .ok a { m with world := w } ∧ q a w

/-- In sequence: the rest starts with the world that was produced. -/
theorem Produces.bind {q : α → World → Prop} {r : β → World → Prop} (hx : Produces x m q)
    (hf : ∀ a w, q a w → Produces (f a) { m with world := w } r) : Produces (x >>= f) m r := by
  obtain ⟨a, w, hrun, ha⟩ := hx
  obtain ⟨b, w', hrun', hb⟩ := hf a w ha
  refine ⟨b, w', ?_, hb⟩
  change EStateM.bind x f m = _
  rw [EStateM.bind, hrun]
  exact hrun'

/-- What is said of the product may be weakened. -/
theorem Produces.imp {q r : α → World → Prop} (hx : Produces x m q) (h : ∀ a w, q a w → r a w) :
    Produces x m r := by
  obtain ⟨a, w, hrun, ha⟩ := hx
  exact ⟨a, w, hrun, h a w ha⟩

/-! ### Members -/

/-- Making functions, and putting them on the prototype or into the static table of a class. -/
inductive MemberStep (parts : ClassParts) (definitions : List FunctionDef) : World → World → Prop
  | make {w : World} {definition : FunctionDef} (h : definition ∈ definitions) :
    MemberStep parts definitions w (w.newFunction (definition.name.getD "")
      (.script ⟨parts.unit, definition, parts.scope, some parts.home⟩)).2
  | publish {w : World} (name : String) {f : FunctionRef} (hf : w.Passes (.function f)) :
    MemberStep parts definitions w (w.setProperty parts.prototype (.string name) (.function f))
  | store {w : World} (name : String) {f : FunctionRef} (hf : w.Passes (.function f)) :
    MemberStep parts definitions w (w.setSlot parts.statics (.string name) (.function f))

/-- Such changes, one after another. -/
def MemberSteps (parts : ClassParts) (definitions : List FunctionDef) : World → World → Prop :=
  Relation.ReflTransGen (MemberStep parts definitions)

section Members

variable {parts : ClassParts} {definitions : List FunctionDef} {w w' : World}

/-- Making members keeps the world tidy, and makes no class and no token. -/
theorem MemberSteps.keeps (h : MemberSteps parts definitions w w') (hw : w.IsTidy)
    (hhome : w.IsHome parts.home) :
    w'.IsTidy ∧ w.Extends w' ∧ w'.classes = w.classes ∧ w'.tokens = w.tokens := by
  induction h with
  | refl => exact ⟨hw, .refl w, rfl, rfl⟩
  | tail _ hstep ih =>
    obtain ⟨hw₁, hext₁, hclasses₁, htokens₁⟩ := ih
    -- no step makes a class or a token, so it is enough that it keeps the world tidy
    have hnext : ∀ {w₂ : World}, w₂.IsTidy ∧ World.Extends _ w₂ → w₂.classes = _ → w₂.tokens = _ →
        w₂.IsTidy ∧ w.Extends w₂ ∧ w₂.classes = w.classes ∧ w₂.tokens = w.tokens :=
      fun h hclasses htokens => ⟨h.1, hext₁.trans h.2, hclasses.trans hclasses₁,
        htokens.trans htokens₁⟩
    cases hstep with
    | @make definition _ =>
      refine hnext (hw₁.newFunction _ fun c hc h hh => ?_) rfl rfl
      cases hc
      cases hh
      exact hhome.extends hext₁
    | publish name hf => exact hnext (hw₁.setProperty _ _ hf) rfl rfl
    | store name hf => exact hnext (hw₁.setSlot _ _ hf) rfl rfl

/-- Making a method produces a function that may be passed. -/
theorem produces_makeMethod (hm : m.world.IsTidy) {definition : FunctionDef}
    (h : definition ∈ definitions) :
    Produces (makeMethod parts definition) m fun f w =>
      MemberSteps parts definitions m.world w ∧ w.Passes (.function f) :=
  ⟨_, _, rfl, .single (.make h), hm.passes_newFunction _ _⟩

/-- The methods of a class are made, and the private ones are given. -/
theorem produces_makeMethods (hm : m.world.IsTidy) (hhome : m.world.IsHome parts.home)
    (members : List Member) (hmembers : ∀ x ∈ members, ∀ f ∈ x.form.functions, f ∈ definitions) :
    Produces (makeMethods parts members) m fun methods w =>
      MemberSteps parts definitions m.world w ∧ ∀ x ∈ methods, w.Passes (.function x.2) := by
  induction members generalizing m with
  | nil => exact ⟨[], m.world, rfl, .refl, fun _ h => nomatch h⟩
  | cons x rest ih =>
    obtain ⟨name, form, span⟩ := x
    have hrest : ∀ x ∈ rest, ∀ f ∈ x.form.functions, f ∈ definitions := fun x hx =>
      hmembers x (List.mem_cons_of_mem _ hx)
    have hform : ∀ f ∈ form.functions, f ∈ definitions := hmembers _ List.mem_cons_self
    -- a method that is put somewhere, and then the others
    have hplaced : ∀ {definition : FunctionDef} (put : FunctionRef → World → World),
        definition ∈ definitions →
        (∀ {w : World} {f : FunctionRef}, w.Passes (.function f) →
          MemberStep parts definitions w (put f w)) →
        Produces (do
            let f ← makeMethod parts definition
            changeWorld (put f)
            makeMethods parts rest) m fun methods w =>
          MemberSteps parts definitions m.world w ∧ ∀ x ∈ methods, w.Passes (.function x.2) := by
      intro definition put hdefinition hput
      refine (produces_makeMethod hm hdefinition).bind fun f w₁ hw₁ => ?_
      obtain ⟨hsteps₁, hf⟩ := hw₁
      have hsteps₂ := hsteps₁.tail (hput hf)
      obtain ⟨htidy₂, hext₂, -, -⟩ := MemberSteps.keeps hsteps₂ hm hhome
      obtain ⟨methods, w₃, hrun, hsteps₃, hmethods⟩ :=
        ih (m := { m with world := put f w₁ }) htidy₂ (hhome.extends hext₂) hrest
      exact ⟨methods, w₃, hrun, hsteps₂.trans hsteps₃, hmethods⟩
    cases form with
    -- a public method goes to the prototype and a static one to the static table
    | method definition =>
      exact hplaced (fun f w => w.setProperty parts.prototype (.string name) (.function f))
        (hform _ List.mem_cons_self) fun hf => .publish name hf
    | staticMethod definition =>
      exact hplaced (fun f w => w.setSlot parts.statics (.string name) (.function f))
        (hform _ List.mem_cons_self) fun hf => .store name hf
    -- a private method is put nowhere: it is in the list that is returned
    | privateMethod definition =>
      refine (produces_makeMethod hm (hform _ List.mem_cons_self)).bind fun f w₁ hw₁ => ?_
      obtain ⟨hsteps₁, hf⟩ := hw₁
      obtain ⟨htidy₁, hext₁, -, -⟩ := MemberSteps.keeps hsteps₁ hm hhome
      refine (ih (m := { m with world := w₁ }) htidy₁ (hhome.extends hext₁) hrest).bind ?_
      rintro methods w₂ ⟨hsteps₂, hmethods⟩
      have hext₂ := (MemberSteps.keeps hsteps₂ htidy₁ (hhome.extends hext₁)).2.1
      refine ⟨_, _, rfl, hsteps₁.trans hsteps₂, fun x hx => ?_⟩
      rcases List.mem_cons.mp hx with rfl | hx
      · exact hf.extends hext₂
      · exact hmethods x hx
    -- fields make no functions
    | privateField initializer => exact ih hm hhome hrest
    | staticField initializer => exact ih hm hhome hrest

end Members

/-! ### The class -/

/-- What a class definition makes, up to the static fields. -/
structure ClassMade (context : Context) (c : ClassDef) (m : Machine) (parts : ClassParts)
    (m' : Machine) : Prop where
  tidy : m'.IsTidy
  extends_ : m.Extends m'
  unit : parts.unit = context.frame.unit
  token : parts.home.token = ⟨m.world.tokens.size⟩
  home : m'.world.IsHome parts.home
  statics : m'.world.ownedTable? (.token parts.home.token) = some parts.statics
  journal : m'.journal = .minted parts.home.token parts.home.classRef :: m.journal
  depth : m'.depth = m.depth
  constructions : m'.constructions = m.constructions
  /-- One class was made. -/
  classCount : m'.world.classes.size = m.world.classes.size + 1
  fields : ∀ r : ClassRef, m'.world.classAt r = m.world.classAt r ∨
    (m'.world.classAt r).fields = privateFields c.members
  functions : ∀ i closure, m'.world.functions.getD i default = .script closure →
    m.world.functions.getD i default = .script closure ∨ closure.definition ∈ c.functions

/-- Making a constructor produces a function that is newer than all that is stored. -/
theorem produces_makeConstructor (m : Machine) (parts : ClassParts) {definitions : List FunctionDef}
    (definition? : Option FunctionDef) (h : ∀ f ∈ definition?, f ∈ definitions) :
    Produces (makeConstructor parts definition?) m fun f? w =>
      MemberSteps parts definitions m.world w ∧ (∀ n, ∀ v ∈ w.stored n, v ∈ m.world.stored n) ∧
        ∀ g ∈ f?, m.world.functions.size ≤ g.index ∧ g.index < w.functions.size := by
  cases definition? with
  | none => exact ⟨none, m.world, rfl, .refl, fun _ _ hv => hv, fun _ hg => nomatch hg⟩
  | some definition =>
    refine ⟨_, _, rfl, .single (.make (h definition rfl)), fun n v hv => ?_, fun g hg => ?_⟩
    · -- a function stores nothing
      cases n <;> exact hv
    · cases hg
      refine ⟨Nat.le_refl _, ?_⟩
      change m.world.functions.size < (m.world.functions.push _).size
      rw [Array.size_push]
      exact Nat.lt_succ_self _

/-- The functions of a member are functions of its class. -/
theorem ClassDef.functions_of_mem {c : ClassDef} {x : Member} (hx : x ∈ c.members)
    {f : FunctionDef} (hf : f ∈ x.form.functions) : f ∈ c.functions :=
  List.mem_append_right _ (List.mem_flatMap.mpr ⟨x, hx, hf⟩)

/-- The constructor is a function of its class. -/
theorem ClassDef.functions_of_constructor {c : ClassDef} {f : FunctionDef}
    (hf : f ∈ c.constructor) : f ∈ c.functions :=
  List.mem_append_left _ (Option.mem_toList.mpr hf)

/-- Making members makes functions of the class only. -/
theorem MemberSteps.functions {parts : ClassParts} {definitions : List FunctionDef} {w w' : World}
    (h : MemberSteps parts definitions w w') (i : ℕ) (closure : Closure)
    (hi : w'.functions.getD i default = .script closure) :
    w.functions.getD i default = .script closure ∨ closure.definition ∈ definitions := by
  -- on the steps: only making a method adds a function, and adds it at the end
  induction h with
  | refl => exact Or.inl hi
  | @tail w₁ w₂ _ hstep ih =>
    cases hstep with
    | @make definition hdefinition =>
      have hget : (w₁.newFunction (definition.name.getD "")
          (.script ⟨parts.unit, definition, parts.scope, some parts.home⟩)).2.functions.getD i
            default = if i = w₁.functions.size then
              .script ⟨parts.unit, definition, parts.scope, some parts.home⟩
            else w₁.functions.getD i default := getD_push _ _ _ _
      rw [hget] at hi
      split at hi
      · cases hi
        exact Or.inr hdefinition
      · exact ih hi
    | publish name hf => exact ih hi
    | store name hf => exact ih hi

/-! ### What is there when the members are made -/

section Announce

variable (w : World) (context : Context) (c : ClassDef) (parent : Option ClassRef)

/-- The token and the scope of a class are made. -/
def opened : World := ((w.mintToken c.site c.displayName).2.childScope context.scope).2

/-- The prototype is made as well. -/
def announced : World :=
  ((opened w context c).newObject
    (parent.map fun p => ((opened w context c).classAt p).prototype)).2

/-- What the members are made from. -/
def announcedParts : ClassParts :=
  ⟨context.frame.unit, ⟨w.scopes.all.size⟩, ⟨⟨w.tokens.size⟩, w.nextClass c.displayName, parent⟩,
    ⟨w.objects.size⟩, ((opened w context c).tokenAt ⟨w.tokens.size⟩).statics⟩

variable {w}

/-- A class that is announced leaves a tidy world tidy. -/
theorem tidy_announced (hw : w.IsTidy) :
    (announced w context c parent).IsTidy ∧ w.Extends (announced w context c parent) := by
  obtain ⟨hw₁, hext₁⟩ := hw.mintToken c.site c.displayName
  obtain ⟨hw₂, hext₂⟩ := hw₁.childScope context.scope
  obtain ⟨hw₃, hext₃⟩ := hw₂.newObject
    (parent.map fun p => ((opened w context c).classAt p).prototype)
  exact ⟨hw₃, (hext₁.trans hext₂).trans hext₃⟩

variable (w)

/-- A class that is announced has one new token. -/
theorem tokenCount_announced :
    (announced w context c parent).tokens.size = w.tokens.size + 1 := Array.size_push _

/-- The home names the class that will get the place of its token. -/
theorem isHome_announced (hsettled : w.classes.size = w.tokens.size) :
    (announced w context c parent).IsHome (announcedParts w context c parent).home := by
  refine ⟨?_, hsettled⟩
  change w.tokens.size < (announced w context c parent).tokens.size
  rw [tokenCount_announced]
  exact Nat.lt_succ_self _

/-- The new token owns the statics. -/
theorem ownedTable?_announced :
    (announced w context c parent).ownedTable? (.token ⟨w.tokens.size⟩) =
      some (announcedParts w context c parent).statics :=
  if_pos ((tokenCount_announced w context c parent).symm ▸ Nat.lt_succ_self _)

/-- The class that is made from its parts. -/
def classOf (parts : ClassParts) (methods : List (String × FunctionRef))
    (constructor : Option FunctionRef) : Class :=
  ⟨c.site, parts.home.token, parts.prototype, parts.home.parent, constructor, methods,
    privateFields c.members, parts.unit, parts.scope⟩

variable {context c parent}

/-- With its methods and its constructor made, a class is added and nothing else happens. -/
theorem makeClass_eq {methods : List (String × FunctionRef)} {constructor : Option FunctionRef}
    {w₄ w₅ : World}
    (hmethods : makeMethods (announcedParts m.world context c parent) c.members
      { m with world := announced m.world context c parent } = .ok methods { m with world := w₄ })
    (hconstructor : makeConstructor (announcedParts m.world context c parent) c.constructor
      { m with world := w₄ } = .ok constructor { m with world := w₅ }) :
    makeClass context c parent m = .ok (announcedParts m.world context c parent)
      { m with
        world := w₅.addClass (classOf c (announcedParts m.world context c parent) methods
          constructor)
        journal := .minted ⟨m.world.tokens.size⟩ (m.world.nextClass c.displayName) ::
          m.journal } := by
  -- the parts are announced, then the methods are made, then the constructor
  have hparts : makeParts context c ⟨m.world.tokens.size⟩ parent
      { m with world := (m.world.mintToken c.site c.displayName).2 } =
      .ok (announcedParts m.world context c parent,
        classOf c (announcedParts m.world context c parent) methods constructor)
        { m with world := w₅ } := by
    change EStateM.bind (makeMethods (announcedParts m.world context c parent) c.members) _
      { m with world := announced m.world context c parent } = _
    rw [EStateM.bind, hmethods]
    change EStateM.bind (makeConstructor (announcedParts m.world context c parent) c.constructor) _
      { m with world := w₄ } = _
    rw [EStateM.bind, hconstructor]
    rfl
  -- what is left is to add the class and to note it
  change EStateM.bind (makeParts context c ⟨m.world.tokens.size⟩ parent) _
    { m with world := (m.world.mintToken c.site c.displayName).2 } = _
  rw [EStateM.bind, hparts]
  rfl

end Announce

/-- A new class is added behind the others. -/
theorem classAt_addClass (w : World) (d : Class) (r : ClassRef) :
    (w.addClass d).classAt r = if r.index = w.classes.size then d else w.classAt r :=
  getD_push _ _ _ _

/-- **Class definitions.** -/
theorem makeClass_made (hm : m.IsTidy) (context : Context) (c : ClassDef) {parent : Option ClassRef}
    (hparent : ∀ p ∈ parent, m.world.Passes (.class p)) :
    ∃ parts m', makeClass context c parent m = .ok parts m' ∧ ClassMade context c m parts m' := by
  let parts := announcedParts m.world context c parent
  obtain ⟨hw₃, hext₃⟩ := tidy_announced context c parent hm.world
  have hhome := isHome_announced m.world context c parent hm.settled
  -- the methods are made, and then the constructor
  obtain ⟨methods, w₄, hmethods, hsteps₄, hpasses⟩ := produces_makeMethods
    (m := { m with world := announced m.world context c parent }) hw₃ hhome c.members
    fun x hx f hf => ClassDef.functions_of_mem hx hf
  obtain ⟨g?, w₅, hconstructor, hsteps₅, hstored, hfresh⟩ := produces_makeConstructor
    { m with world := w₄ } parts c.constructor fun f hf => ClassDef.functions_of_constructor hf
  obtain ⟨hw₄, hext₄, hclasses₄, htokens₄⟩ := hsteps₄.keeps hw₃ hhome
  obtain ⟨hw₅, hext₅, hclasses₅, htokens₅⟩ := hsteps₅.keeps hw₄ (hhome.extends hext₄)
  have hclasses : w₅.classes = m.world.classes := hclasses₅.trans hclasses₄
  have htokens : w₅.tokens.size = m.world.tokens.size + 1 := by
    rw [htokens₅, htokens₄]
    exact tokenCount_announced m.world context c parent
  -- the class is added in the place of its token
  let d := classOf c parts methods g?
  obtain ⟨hw₆, hext₆⟩ := hw₄.addClass (d := d) hw₅ hext₅ hclasses₅ hstored
    (by rw [hclasses, htokens, hm.settled]; exact Nat.lt_succ_self _)
    (by rw [hclasses, hm.settled]; rfl)
    (fun p hp => by rw [hclasses]; exact hparent p hp) hfresh hpasses
  have hsize : (w₅.addClass d).classes.size = m.world.classes.size + 1 := by
    rw [← hclasses]
    exact Array.size_push _
  let m' : Machine := { m with
    world := w₅.addClass d
    journal := .minted parts.home.token parts.home.classRef :: m.journal }
  -- the machine differs by its world and one note, and is tidy by both
  have hkept : m'.IsTidy ∧ m.Extends m' := hm.next hw₆ ((hext₃.trans hext₄).trans hext₆)
    (by change (w₅.addClass d).classes.size = w₅.tokens.size; rw [hsize, htokens, hm.settled])
    rfl rfl rfl (List.suffix_cons _ _)
  refine ⟨parts, m', makeClass_eq hmethods hconstructor,
    { tidy := hkept.1
      extends_ := hkept.2
      unit := rfl
      token := rfl
      home := ⟨?_, hm.settled⟩
      statics := ?_
      journal := rfl
      depth := rfl
      constructions := rfl
      classCount := hsize
      fields := fun r => ?_
      functions := fun i closure hi =>
        (hsteps₅.functions i closure hi).elim (hsteps₄.functions i closure) Or.inr }⟩
  · -- the token of the home is the one that was minted
    change m.world.tokens.size < w₅.tokens.size
    rw [htokens]
    exact Nat.lt_succ_self _
  · exact hext₆.owners _ _ (hext₄.owners _ _ (ownedTable?_announced m.world context c parent))
  · -- a class is the new one, or is as it was
    change (w₅.addClass d).classAt r = _ ∨ ((w₅.addClass d).classAt r).fields = _
    rw [classAt_addClass]
    split
    · exact Or.inr rfl
    · refine Or.inl ?_
      rw [World.classAt, hclasses]
      rfl

end Enclave.Eval
