import Enclave.Proofs.Run.Reached
import Enclave.Proofs.Store.Counting
import Enclave.Proofs.Store.Draining
import Enclave.Proofs.Store.Lasting

/-!
# What a reclamation leaves

After a reclamation a token keeps tables for those instances that were registered with it and that
last (`Machine.Reached.isSome_lookup_reclaim_iff`), and the number it keeps is theirs
(`Machine.Reached.liveInstances_reclaim`). What lasts is the same before and after
(`World.lasting_reclaim`), and it does not matter in which order things are let go of
(`World.Reclaims.lookupInstance?_eq`).
-/

namespace Enclave

variable {gone : Node → Prop} {m m' : Machine}

namespace World

variable {w w' : World} {roots : List Node} {n k : Node} {isThere : TokenId → Prop} {t : TokenId}

/-! ### What lasts is the same afterwards -/

/-- An edge of a world is one of any world with the same contents, if the tables are those of the
same instances. -/
theorem StrongEdge.of_sameContents (hsame : SameContents w w') (h : w.StrongEdge isThere n k)
    (hlookup : ∀ o t table, n = .object o → w.lookupInstance? t o = some table →
      w'.lookupInstance? t o = some table) : w'.StrongEdge isThere n k := by
  -- only the edge from a slot depends on what is registered; the others are contents alone
  cases h with
  | slot ht htable hv hn =>
    exact .slot ht (hlookup _ _ _ rfl htable) (by rwa [tableAt, hsame.tables]) hn
  | static hv hn => exact .static (by rwa [tableAt, hsame.tables, hsame.statics]) hn
  | scopeParent h => exact .scopeParent (by rwa [hsame.scopes])
  | bound hv hn => exact .bound (by rwa [hsame.scopes]) hn
  | proto h => exact .proto (by rwa [hsame.proto])
  | property hv hn => exact .property (by rwa [hsame.properties]) hn
  | classToken place => exact hsame.classes ▸ .classToken place
  | classPrototype place => exact hsame.classes ▸ .classPrototype place
  | classScope place => exact hsame.classes ▸ .classScope place
  | classParent h => exact .classParent (by rwa [hsame.classes])
  | classConstructor h => exact .classConstructor (by rwa [hsame.classes])
  | privateMethod h => exact .privateMethod (by rwa [hsame.classes])
  | functionScope h => exact .functionScope (by rwa [hsame.functions])
  | homeToken h hhome => exact .homeToken (by rwa [hsame.functions]) hhome
  | homeParent h hhome hp => exact .homeParent (by rwa [hsame.functions]) hhome hp

section Lasting

variable (hs : w.Sound gone) (hroots : ∀ n ∈ roots, w.Knows gone n)
  (htables : ∀ t, .table t ∉ roots)

include hs hroots htables

theorem Sound.isAlive_iff_lasting {o : ObjectId} (ho : w.Has (.object o)) :
    w.isAlive roots (.object o) = true ↔ w.Lasting roots (.object o) :=
  World.isAlive_iff_lasting hs.registry hs.made (fun n hn => (hroots n hn).1) htables ho nofun

/-- **What lasts** is the same before and after a reclamation. -/
theorem lasting_reclaim : (w.reclaim roots).Lasting roots n ↔ w.Lasting roots n := by
  have hsame := sameContents_reclaim w roots
  have hlookup := lookupInstance?_reclaim hs.registry.toIsMatched roots
  constructor
  · -- a set that holds itself up afterwards did so before, as tables only go away
    rintro ⟨L, hL, hn⟩
    refine ⟨L, fun n hn => ?_, hn⟩
    obtain ⟨hhas, hheld⟩ := hL n hn
    refine ⟨(hsame.has_iff n).mp hhas, hheld.imp_right ?_⟩
    rintro ⟨k, hk, hedge⟩
    refine ⟨k, hk, hedge.of_sameContents hsame.symm fun o t table _ htable => ?_⟩
    rw [hlookup] at htable
    split at htable
    · exact htable
    · cases htable
  · -- conversely, the set of all that lasts still holds itself up
    intro hn
    refine ⟨w.Lasting roots, fun n hn => ?_, hn⟩
    obtain ⟨hhas, hheld⟩ := isLasting_lasting w roots n hn
    refine ⟨(hsame.has_iff n).mpr hhas, hheld.imp_right ?_⟩
    rintro ⟨k, hk, hedge⟩
    refine ⟨k, hk, hedge.of_sameContents hsame fun o t table heq htable => ?_⟩
    -- the object lasts, so it keeps its tables
    subst heq
    have halive := (hs.isAlive_iff_lasting hroots htables (isLasting_lasting w roots _ hk).1).mpr hk
    rw [hlookup, if_pos halive, htable]

end Lasting

/-! ### Any order -/

/-- The worlds that reclaiming may leave when things are let go of in any order: the holds on the
way to the objects that go, and then the entries of these objects. -/
inductive Reclaims (w : World) (roots : List Node) : World → Prop
  | intro {support : Array ℕ} {order : List ObjectId} (hdrained : (w.graph roots).Drained support)
    (horder : ∀ o, o ∈ order ↔ o.index < w.objects.size ∧ (w.objectAt o).brands ≠ [] ∧
      Graph.survives support (w.nodeNumber (.object o)) = false) :
    Reclaims w roots (w.releaseAll order)

theorem mem_unheld_iff {o : ObjectId} :
    o ∈ w.unheld roots ↔ o.index < w.objects.size ∧ (w.objectAt o).brands ≠ [] ∧
      w.isAlive roots (.object o) = false := by
  simp only [unheld, List.mem_filter, List.mem_map, List.mem_range, Bool.and_eq_true,
    Bool.not_eq_true', List.isEmpty_eq_false_iff]
  refine and_congr_left fun _ => ⟨?_, fun h => ⟨o.index, h, rfl⟩⟩
  rintro ⟨i, hi, rfl⟩
  exact hi

/-- The order in which the world is reclaimed is one of them. -/
theorem reclaims_reclaim (w : World) (roots : List Node) : w.Reclaims roots (w.reclaim roots) :=
  .intro (w.graph roots).drained_remaining fun _ => mem_unheld_iff

/-- In whatever order the world is reclaimed, the same tables are kept for the same objects. -/
theorem Reclaims.lookupInstance?_eq (h : w.Reclaims roots w') (hw : w.IsMatched) (t : TokenId)
    (o : ObjectId) : w'.lookupInstance? t o = (w.reclaim roots).lookupInstance? t o := by
  obtain ⟨hdrained, horder⟩ := h
  obtain rfl := hdrained.eq_remaining
  rw [reclaim_eq, lookupInstance?_releaseAll hw, lookupInstance?_releaseAll hw]
  exact if_congr ((horder o).trans mem_unheld_iff.symm) rfl rfl

theorem Reclaims.liveInstances_eq (h : w.Reclaims roots w') (hw : w.IsRegistry)
    (hcounted : w.IsCounted) (t : TokenId) :
    w'.liveInstances t = (w.reclaim roots).liveInstances t := by
  have hsame := h.lookupInstance?_eq hw.toIsMatched t
  obtain ⟨hdrained, horder⟩ := h
  rw [liveInstances_eq_ncard (hcounted.releaseAll _) (hw.releaseAll _).toIsMatched, reclaim_eq,
    liveInstances_eq_ncard (hcounted.releaseAll _) (hw.releaseAll _).toIsMatched]
  refine congrArg Set.ncard (Set.ext fun o => ?_)
  rw [Set.mem_ofPred_eq, hsame o]
  rfl

end World

namespace Machine

/-! ### Numbers of instances -/

theorem isCounted_registerAll (hm : m.Coherent gone) (hcounted : m.world.IsCounted) {o : ObjectId}
    (ho : m.world.Has (.object o)) {cs : List ClassRef} (hcs : ∀ c ∈ cs, m.world.HasClass c) :
    (cs.foldl (register o) m).world.IsCounted := by
  induction cs generalizing m with
  | nil => exact hcounted
  | cons c cs ih =>
    have hfirst := enrolls_register hm ho (hcs c List.mem_cons_self)
    refine ih hfirst.coherent ?_ (hfirst.grows.world.has _ ho) fun d hd =>
      hm.hasClass_grows hfirst.grows (hcs d (List.mem_cons_of_mem c hd))
    exact hcounted.registerInstance hm.world.registry.toIsMatched _ o

theorem Step.isCounted (h : Step gone m m') (hm : m.Sound gone) (hcounted : m.world.IsCounted) :
    m'.world.IsCounted := by
  cases h with
  | alter h => exact hcounted.of_sameTokens h.registrations.tokens
  | @define site name w d h hfits hholds _ =>
    have hmint := World.change_mintToken hm.world site name
    obtain ⟨-, -, -, htokens, -⟩ := h.keeps (hm.world.change hmint)
    -- the new token has registered nothing
    have hminted : (m.world.mintToken site name).2.IsCounted := fun t => by
      rw [World.tokenAt_mintToken]
      split
      · exact InstanceArena.isCounted_empty
      · exact hcounted t
    exact hminted.of_sameTokens htokens
  | @allocate c hc =>
    have hbegin := hm.begin hc
    refine isCounted_registerAll hbegin.1 (hcounted.of_sameTokens rfl) ?_ fun d hd =>
      hbegin.1.world.hasClass_of_mem (hm.hasClass_grows hbegin.2 hc.fits) hd
    exact Nat.lt_of_lt_of_eq (Nat.lt_succ_self _) (Array.size_push _).symm
  | _ => exact hcounted

/-- The number that a token keeps of its instances is always the right one. -/
theorem Reached.isCounted (h : m.Reached gone) : m.world.IsCounted := by
  induction h with
  | start maxDepth =>
    intro t
    have hnone := World.isPrepared_initialWorld.noToken
    exact World.instances_of_size_le (w := (Session.start maxDepth).machine.world) (t := t)
      (hnone ▸ Nat.zero_le _) ▸ InstanceArena.isCounted_empty
  | step h hstep ih => exact hstep.isCounted h.sound ih
  | reclaim _ _ _ ih => exact ih.releaseAll _

/-! ### Registrations -/

/-- According to the journal, an object was registered with exactly the tokens of the class that it
was allocated for. -/
def IsEnrolled (m : Machine) : Prop :=
  ∀ t o, .registered t o ∈ m.journal ↔ ∃ c, .constructing c o ∈ m.journal ∧ m.world.Descends c t

/-- A step that allocates nothing. -/
theorem IsEnrolled.aside (h : m.IsEnrolled) (hm : m.Sound gone) (hm' : m'.Sound gone)
    (hg : m.Grows m') {new : List Event} (hjournal : m'.journal = new ++ m.journal)
    (hnew : ∀ e ∈ new, (∀ t o, e ≠ .registered t o) ∧ ∀ c o, e ≠ .constructing c o) :
    m'.IsEnrolled := by
  intro t o
  -- none of the new events registers or constructs, so both sides are as they were
  have hregistered : .registered t o ∈ m'.journal ↔ .registered t o ∈ m.journal := by
    rw [hjournal, List.mem_append]
    exact or_iff_right fun hmem => (hnew _ hmem).1 t o rfl
  have hconstructing : ∀ c, .constructing c o ∈ m'.journal ↔ .constructing c o ∈ m.journal := by
    intro c
    rw [hjournal, List.mem_append]
    exact or_iff_right fun hmem => (hnew _ hmem).2 c o rfl
  rw [hregistered, h t o]
  refine exists_congr fun c => ?_
  rw [hconstructing]
  refine and_congr_right fun hc => ?_
  exact (hm.world.descends_grows hm'.world hg.world (hm.registered.made c o hc).1 t).symm

theorem IsEnrolled.allocate (h : m.IsEnrolled) (hm : m.Sound gone) {c : ClassRef}
    (hc : m.world.Admits gone (.class c)) : (m.allocate c).IsEnrolled := by
  have henrolls := hm.enrolls_allocate hc
  have hclasses : (m.allocate c).world.classes = m.world.classes := henrolls.sameClasses
  have hjournal : (m.allocate c).journal =
      ((m.world.classChain c).map fun d =>
        .registered (m.world.classAt d).token m.nextObject).reverse ++
          .constructing c m.nextObject :: m.journal :=
    journal_registerAll m.nextObject _ (m.begin c)
  -- nothing was registered or allocated under the place that the object got
  have hfresh : ∀ d, .constructing d m.nextObject ∉ m.journal := fun d hd =>
    Nat.lt_irrefl m.world.objects.size (hm.registered.made d _ hd).2
  intro t o
  -- the new notes are one for each class of the chain, and one for the allocation
  have hregistered : .registered t o ∈ (m.allocate c).journal ↔
      (o = m.nextObject ∧ m.world.Descends c t) ∨ .registered t o ∈ m.journal := by
    rw [hjournal]
    simp only [List.mem_append, List.mem_reverse, List.mem_map, List.mem_cons, reduceCtorEq,
      false_or, Event.registered.injEq]
    refine or_congr_left ⟨?_, ?_⟩
    · rintro ⟨d, hd, rfl, rfl⟩
      exact ⟨rfl, d, hd, rfl⟩
    · rintro ⟨rfl, d, hd, rfl⟩
      exact ⟨d, hd, rfl, rfl⟩
  have hconstructing : ∀ d, .constructing d o ∈ (m.allocate c).journal ↔
      (d = c ∧ o = m.nextObject) ∨ .constructing d o ∈ m.journal := by
    intro d
    rw [hjournal]
    simp
  -- for the new object both sides speak of its chain, and for another of the past
  rw [hregistered, h t o]
  simp only [hconstructing, World.descends_of_sameClasses hclasses]
  constructor
  · rintro (⟨ho, ht⟩ | ⟨d, hd, ht⟩)
    · exact ⟨c, Or.inl ⟨rfl, ho⟩, ht⟩
    · exact ⟨d, Or.inr hd, ht⟩
  · rintro ⟨d, ⟨rfl, ho⟩ | hd, ht⟩
    · exact Or.inl ⟨ho, ht⟩
    · exact Or.inr ⟨d, hd, ht⟩

theorem IsEnrolled.step (h : m.IsEnrolled) (hm : m.Sound gone) (hstep : Step gone m m') :
    m'.IsEnrolled := by
  obtain ⟨hm', hg⟩ := hstep.keeps hm
  -- only an allocation enrolls an object; no other event mints or constructs one
  cases hstep with
  | allocate hc => exact h.allocate hm hc
  | count | alter | construct =>
    exact h.aside hm hm' hg (List.nil_append _).symm fun _ he => nomatch he
  | @record e he =>
    refine h.aside hm hm' hg List.singleton_append.symm fun e' he' => ?_
    obtain rfl := List.mem_singleton.mp he'
    refine ⟨?_, ?_⟩
    · rintro t o rfl
      exact he
    · rintro c o rfl
      exact he
  | define | callSuper =>
    refine h.aside hm hm' hg List.singleton_append.symm fun e he => ?_
    obtain rfl := List.mem_singleton.mp he
    exact ⟨nofun, nofun⟩
  | @returnSuper c _ o =>
    -- the return of `super` adds two events, neither about a token
    have hjournal : (.superReturned c o :: .installed c o :: m.journal : List Event) =
        [.superReturned c o, .installed c o] ++ m.journal := rfl
    refine h.aside hm hm' hg hjournal fun e he => ?_
    rcases List.mem_pair.mp he with rfl | rfl <;> exact ⟨nofun, nofun⟩

/-- **Registrations.** What the journal tells of registrations, on every machine that is reached. -/
theorem Reached.isEnrolled (h : m.Reached gone) : m.IsEnrolled := by
  induction h with
  | start maxDepth => exact fun _ _ => iff_of_false nofun fun ⟨_, hc, _⟩ => nomatch hc
  | step h hstep ih => exact ih.step h.sound hstep
  | @reclaim gone m roots h _ _ ih =>
    have hdescends :=
      World.descends_of_sameClasses (World.sameContents_reclaim m.world roots).classes
    intro t o
    refine (ih t o).trans (exists_congr fun c => and_congr_right fun _ => (hdescends c t).symm)

/-! ### Reclaiming -/

section Reclaiming

variable (h : m.Reached gone) {roots : List Node} (hroots : ∀ n ∈ roots, m.world.Knows gone n)
  (htables : ∀ t, .table t ∉ roots)

include h hroots htables

/-- **Reclaiming.** Afterwards a token keeps tables for the objects that were registered with it and
that last. -/
theorem Reached.isSome_lookup_reclaim_iff (t : TokenId) (o : ObjectId) :
    ((m.world.reclaim roots).lookupInstance? t o).isSome ↔
      .registered t o ∈ m.journal ∧ m.world.Lasting roots (.object o) := by
  have hs := h.sound.world
  have hr := h.sound.registered
  rw [World.lookupInstance?_reclaim hs.registry.toIsMatched, h.isEnrolled t o]
  constructor
  · intro hsome
    split at hsome
    · next halive =>
      obtain ⟨table, htable⟩ := Option.isSome_iff_exists.mp hsome
      have ho := (hs.registry.lt_of_lookup htable).2
      exact ⟨hr.justified t o hsome, (hs.isAlive_iff_lasting hroots htables ho).mp halive⟩
    · cases hsome
  · rintro ⟨⟨c, hc, ht⟩, hlasting⟩
    have ho := (hr.made c o hc).2
    -- an object that lasts is alive, and it was registered when it was allocated
    have halive := (hs.isAlive_iff_lasting hroots htables ho).mpr hlasting
    rw [if_pos halive]
    exact hr.complete c o hc (hs.not_gone_of_isAlive hroots ho halive) t ht

/-- The number of instances that a token keeps afterwards. -/
theorem Reached.liveInstances_reclaim (t : TokenId) :
    (m.world.reclaim roots).liveInstances t =
      {o | .registered t o ∈ m.journal ∧ m.world.Lasting roots (.object o)}.ncard := by
  have hmatched := (h.sound.world.registry.reclaim roots).toIsMatched
  have hcounted : (m.world.reclaim roots).IsCounted := h.isCounted.releaseAll _
  rw [World.liveInstances_eq_ncard hcounted hmatched]
  exact congrArg Set.ncard (Set.ext fun o => h.isSome_lookup_reclaim_iff hroots htables t o)

end Reclaiming

end Machine

end Enclave
