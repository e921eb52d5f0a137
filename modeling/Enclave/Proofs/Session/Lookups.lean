import Enclave.Proofs.Host.Isolation
import Enclave.Proofs.Run.Aging
import Enclave.Proofs.Session.Histories

/-!
# Lookups in every world that arises

A world arises at some point of a run, or when a host works on one directly (`World.Arises`). Among
them are the worlds of sessions in which the host makes and edits objects between operations
(`Session.Hosted.arises`) and those of hosts that run nothing (`Host.arises_after`).

In all of them prototypes and parents are older than what has them (`World.Arises.isAged`). So
chains end and lookups agree (`World.lookups_agree`).
-/

namespace Enclave

namespace World

variable {w : World}

/-- The worlds that arise in runs, and where a host works on a world. -/
inductive Arises : World → Prop
  | empty : Arises .empty
  /-- Runs may be left at any point, and a host may make and edit objects between them. -/
  | run {gone : Node → Prop} {m : Machine} (h : m.Reached gone) : Arises m.world
  | newObject {w : World} {proto : Option ObjectId} (h : Arises w)
    (hproto : ∀ p ∈ proto, w.Has (.object p)) : Arises (w.newObject proto).2
  | mintToken {w : World} (h : Arises w) (site : ClassSite) (name : String) :
    Arises (w.mintToken site name).2
  | newTable {w : World} (h : Arises w) : Arises w.newTable.2
  | newSymbol {w : World} (h : Arises w) (description : Option String) :
    Arises (w.newSymbol description).2
  | register {w : World} (h : Arises w) (t : TokenId) (o : ObjectId) :
    Arises (w.registerInstance t o).2
  | edit {w : World} (h : Arises w) (place : Holder) (e : SlotTable.Edit) : Arises (w.edit place e)
  | reclaim {w : World} (h : Arises w) (roots : List Node) : Arises (w.reclaim roots)

/-- **Ages.** Whatever is run and done, prototypes and parents are older than what has them. -/
theorem Arises.isAged (h : w.Arises) : w.IsAged := by
  -- an object comes with an older prototype or with none, and nothing changes it later
  induction h with
  | empty =>
    refine ⟨fun o p hproto => ?_, fun c p hparent => ?_⟩
    · cases hproto
    · cases hparent
  | run h => exact h.isAged
  | newObject _ hproto ih => exact ih.newObject hproto
  | mintToken _ _ _ ih | newTable _ ih | newSymbol _ _ ih => exact ih.of_same (fun _ => rfl) rfl
  | register _ t o ih => exact ih.registerInstance t o
  | edit _ place e ih => exact ih.edit place e
  | @reclaim w _ roots ih =>
    have hsame := sameContents_reclaim w roots
    exact ih.of_same hsame.proto hsame.classes

end World

/-! ### Hosts -/

namespace Host

/-- The host after some actions, one after another. -/
def after (h : Host) (actions : List Action) : Host :=
  actions.foldl (fun h action => (h.perform action).2) h

variable {h : Host}

theorem arises_settle (h : Host) (harises : h.world.Arises) : h.settle.world.Arises :=
  harises.reclaim h.roots

theorem arises_give (harises : h.world.Arises) (t : TableId) (keepAs : Option String) :
    (h.give t keepAs).2.world.Arises := by
  cases keepAs with
  | none => exact harises
  | some name => exact arises_settle { h with tables := h.tables.put name t } harises

/-- What a host holds by name is there, so no action leads out of the worlds that arise. -/
theorem arises_perform (harises : h.world.Arises)
    (hmade : ∀ name o, h.objects.get? name = some o → h.world.Has (.object o)) (action : Action) :
    (h.perform action).2.world.Arises := by
  -- what fails changes nothing, what is named keeps what it is held by alive
  cases action with
  | create name proto =>
    refine arises_settle _ (harises.newObject fun p hp => ?_)
    obtain ⟨other, -, hother⟩ := Option.bind_eq_some_iff.mp hp
    exact hmade other p hother
  | mint name site className => exact arises_settle _ (harises.mintToken site className)
  | register token object keepAs =>
    rw [perform, Host.register]
    cases h.token token with
    | error f => exact harises
    | ok t =>
      cases h.object object with
      | error f => exact harises
      | ok o =>
        have hregistered := harises.register t o
        exact arises_give (h := { h with world := (h.world.registerInstance t o).2 })
          hregistered _ _
  -- a look at the world changes only the names the host has for things
  | lookup token object keepAs =>
    rw [perform]
    split
    · exact arises_give harises _ _
    · exact harises
  | statics token keepAs =>
    rw [perform]
    split
    · exact arises_give harises _ _
    · exact harises
  -- the two edits are those of an object or of a table
  | set holder key value =>
    rw [perform]
    split
    · next place _ => exact arises_settle _ (harises.edit place (.set key (h.operand value)))
    · exact harises
  | delete holder key =>
    rw [perform]
    split
    · next place _ => exact arises_settle _ (harises.edit place (.delete key))
    · exact harises
  | read holder =>
    rw [perform]
    split <;> exact harises
  | drop name => exact arises_settle _ harises

theorem arises_after_of_agrees {r : Reference} {locate : TableOwner → Option TableId}
    (ha : Agrees h r locate) (harises : h.world.Arises) (actions : List Action) :
    (h.after actions).world.Arises := by
  induction actions generalizing h r locate with
  | nil => exact harises
  | cons action rest ih =>
    obtain ⟨-, locate', hafter⟩ := ha.perform action
    refine ih hafter (arises_perform harises (fun name o hname => ?_) action)
    exact ha.objectMade name o (ha.objects ▸ hname)

/-- **Hosts that run nothing.** Whatever a host does and in whatever order, its world arises. -/
theorem arises_after (actions : List Action) : (Host.empty.after actions).world.Arises :=
  arises_after_of_agrees agrees_empty .empty actions

end Host

/-! ### Sessions -/

/-- **Sessions.** Whatever is run and whatever the host does in between, the world arises. -/
theorem Session.Hosted.arises {s : Session} {kept : List Value} (h : s.Hosted kept) :
    s.machine.world.Arises := by
  obtain ⟨gone, hm, -⟩ := h.machine
  exact .run hm

/-! ### Lookups -/

/-- **Lookups.** The worlds of sessions and of hosts that run nothing arise. In every world that
arises, prototypes and parents are older than what has them, and so the chain of every object and of
every class ends. A lookup of a key meets an object exactly if it is on the chain and nothing before
it has the key. A property is there exactly if it has a value, which is the own value of the one
object that a lookup meets and that has the key. Setting or deleting a property of an object changes
what this key leads to from those objects from which a lookup meets it, and nothing else. -/
theorem World.lookups_agree :
    (∀ (s : Session) kept, s.Hosted kept → s.machine.world.Arises) ∧
    (∀ actions, (Host.empty.after actions).world.Arises) ∧
    ∀ w : World, w.Arises →
      (∀ o p, (w.objectAt o).proto = some p → p.index < o.index) ∧
      (∀ c p, (w.classAt c).parent = some p → p.index < c.index) ∧
      (∀ o, IsLine (fun o => (w.objectAt o).proto) o (w.protoChain o)) ∧
      (∀ c, IsLine (fun c => (w.classAt c).parent) c (w.classChain c)) ∧
      ∀ o key,
        (∀ o', w.Meets key o o' ↔
          ∃ before rest, w.protoChain o = before ++ o' :: rest ∧
            ∀ a ∈ before, w.getOwn? a key = none) ∧
        w.hasProperty o key = (w.getProperty? o key).isSome ∧
        (∀ v, w.getProperty? o key = some v ↔
          ∃ o', w.Meets key o o' ∧ w.getOwn? o' key = some v) ∧
        (w.Has (.object o) →
          (∀ v, w.Redirects (w.setProperty o key v) key (some v) fun o' => w.Meets key o' o) ∧
          w.Redirects (w.deleteProperty o key) key
            ((w.objectAt o).proto.bind (w.getProperty? · key)) fun o' => w.Meets key o' o) := by
  refine ⟨fun _ _ h => h.arises, Host.arises_after, fun w h => ?_⟩
  -- prototypes and parents are older than what they belong to, so every chain comes to an end
  have hw := h.isAged
  refine ⟨hw.proto, hw.parent, hw.isLine_protoChain, hw.isLine_classChain, fun o key => ?_⟩
  refine ⟨fun o' => hw.meets_iff_protoChain, w.hasProperty_eq o key,
    fun v => hw.getProperty?_eq_some_iff, fun ho => ⟨fun v => ?_, ?_⟩⟩
  · exact hw.redirects_edit (.set key v) ho
  · exact hw.redirects_edit (.delete key) ho

/-- An instance of a derived class that has a method `f`. -/
def derivedInstance : Session :=
  .left 128 "class A{}class B extends A{f(){}}let b=new B();".toUTF8.toList 8

/-- The host has made an object with this instance as its prototype. -/
def heirWorld : World := (derivedInstance.machine.world.newObject (some ⟨2⟩)).2

/-- What is set in the prototype of the parent is found from the new object, unless it is `f`. -/
theorem World.lookups_agree_heir :
    heirWorld.Arises ∧ heirWorld.Has (.object ⟨0⟩) ∧
      (heirWorld.setProperty ⟨0⟩ (.string "g") .null).getProperty? ⟨3⟩ (.string "g") = some .null ∧
      (heirWorld.setProperty ⟨0⟩ (.string "f") .null).getProperty? ⟨3⟩ (.string "f") =
        heirWorld.getProperty? ⟨3⟩ (.string "f") := by
  obtain ⟨hsessions, -, hworlds⟩ := lookups_agree
  have hhosted : derivedInstance.Hosted _ := Session.hosted_left _ _ _
  have hb : derivedInstance.global? "b" = some (.object ⟨2⟩) := by decide +kernel
  have harises : heirWorld.Arises := by
    refine hsessions _ _ (hhosted.newObject fun p hp => ?_)
    obtain rfl := Option.some.inj hp
    exact .global hb
  -- what the chain is, and what is found on it, is computed
  obtain ⟨hmade, hchain, hg, hf⟩ : 0 < heirWorld.objects.size ∧
      heirWorld.protoChain ⟨3⟩ = [⟨3⟩, ⟨2⟩, ⟨1⟩, ⟨0⟩] ∧
      (∀ a ∈ [⟨3⟩, ⟨2⟩, ⟨1⟩], heirWorld.getOwn? a (.string "g") = none) ∧
      heirWorld.getOwn? ⟨1⟩ (.string "f") ≠ none := by
    decide +kernel
  obtain ⟨-, -, -, -, hlookups⟩ := hworlds heirWorld harises
  have hmeets := fun key => (hlookups ⟨3⟩ key).1 ⟨0⟩
  have hset := fun key => ((hlookups ⟨0⟩ key).2.2.2 hmade).1 .null
  -- the new property is met from the new object, and the old one does not change
  refine ⟨harises, hmade, ((hset _).there ⟨3⟩ ?_).1, ((hset _).others ⟨3⟩ _ ?_).1⟩
  · exact (hmeets _).mpr ⟨_, [], hchain, hg⟩
  · rintro ⟨-, hfound⟩
    obtain ⟨before, rest, hsplit, hfree⟩ := (hmeets _).mp hfound
    rw [hchain] at hsplit
    -- all but the last object on the chain are in front of it
    rcases before with _ | ⟨a, _ | ⟨b, _ | ⟨c, before⟩⟩⟩
    · cases hsplit
    · cases hsplit
    · cases hsplit
    · obtain ⟨-, -, rfl, -⟩ : ⟨3⟩ = a ∧ ⟨2⟩ = b ∧ ⟨1⟩ = c ∧ _ := by simpa using hsplit
      exact hf (hfree ⟨1⟩ (by simp))

end Enclave
