import Enclave.Proofs.Eval.Agreement
import Enclave.Proofs.Eval.Refilling
import Enclave.Proofs.Run.Registrations

/-!
# Indifference to private state

Code that was written elsewhere does on a machine with other contents in the tables of a token what
it does on the machine itself, as long as nothing happens that concerns the token: none of the
functions is called that were written in the class, and no instance is constructed that belongs to
it. A piece *mirrors* another if, run on the refilled machine, it ends as the other does on the
machine itself (`Mirrors`). Pieces mirror themselves that are built for code outside of the class,
if the evaluator of their parts does (`Built.mirrors`).

There is one way in which contents can matter to code that cannot read them. They keep alive what
they hold, and a function does not keep its class alive that takes it. So the evaluator that is
mirrored is *minding* (`minding`): it gives up where a class is taken that is there on one of the
machines only.
-/

namespace Enclave

variable {t : TokenId} {contents : Contents}

/-! ### What concerns a token -/

/-- The token of the class that a function was written in, if it was written in one. -/
def World.homeToken? (w : World) (f : FunctionRef) : Option TokenId :=
  match w.functionAt f with
  | .script c => c.home.map (·.token)
  | .native _ => none

/-- The home token of a function of a script. -/
theorem World.homeToken?_of_script {w : World} {f : FunctionRef} {c : Closure}
    (h : w.functionAt f = .script c) : w.homeToken? f = c.home.map (·.token) := by
  unfold homeToken?
  rw [h]

/-- What concerns a token is that a function is called that was written in its class, that an
instance is allocated of a class that descends from it, and that a constructor of such a class hands
over to the one of its parent. -/
def Event.Concerns (w : World) (t : TokenId) : Event → Prop
  | .invoked f _ => w.homeToken? f = some t
  | .constructing c _ | .superCalled c _ => w.Descends c t
  | _ => False

instance (w : World) (t : TokenId) : (e : Event) → Decidable (e.Concerns w t)
  | .invoked f _ => inferInstanceAs (Decidable (w.homeToken? f = some t))
  | .constructing c _ | .superCalled c _ =>
    inferInstanceAs (Decidable (∃ d ∈ w.classChain c, (w.classAt d).token = t))
  | .minted .. | .registered .. | .constructed .. | .initializing .. | .initialized ..
  | .installing .. | .methodStored .. | .fieldStarted .. | .fieldStored .. | .installed ..
  | .superReturned .. | .resolved .. | .rejected .. | .returned _ | .refused _ => .isFalse id

/-- A class that belongs to a token does so in every extension. -/
theorem World.Descends.extends {w w' : World} {c : ClassRef} (h : w.Descends c t) (hw : w.IsTidy)
    (hc : c.index < w.classes.size) (hext : w.Extends w') : w'.Descends c t := by
  obtain ⟨d, hd, htoken⟩ := h
  refine ⟨d, ?_, ?_⟩
  · rwa [classChain_extends hw hext hc]
  · rwa [hext.classAt (hw.lt_of_mem_classChain hc hd)]

namespace Machine

variable {m m' m'' : Machine} {w : World}

/-- Nothing has happened since that concerns the token. Which classes and functions were meant is
looked up in a world that comes later. -/
def IsQuiet (w : World) (t : TokenId) (m m' : Machine) : Prop :=
  ∀ new, m'.journal = new ++ m.journal → ∀ e ∈ new, ¬e.Concerns w t

/-- A machine is quiet when nothing that was noted concerns the token. -/
theorem isQuiet_of_journal {new : List Event} (hjournal : m'.journal = new ++ m.journal)
    (h : ∀ e ∈ new, ¬e.Concerns w t) : m.IsQuiet w t m' := by
  intro new' hnew
  rw [List.append_cancel_right (hnew.symm.trans hjournal)]
  exact h

/-- Quiet as a whole, quiet from any point on. -/
theorem IsQuiet.start (h : m.IsQuiet w t m'') (hext : m'.Extends m'') : m.IsQuiet w t m' := by
  intro new hnew e he
  obtain ⟨later, hlater⟩ := hext.journal
  refine h (later ++ new) ?_ e (List.mem_append_right _ he)
  rw [← hlater, hnew, List.append_assoc]

/-- Quiet as a whole, quiet up to any point. -/
theorem IsQuiet.rest (h : m.IsQuiet w t m'') (hext : m.Extends m') : m'.IsQuiet w t m'' := by
  intro new hnew e he
  obtain ⟨earlier, hearlier⟩ := hext.journal
  refine h (new ++ earlier) ?_ e (List.mem_append_left _ he)
  rw [hnew, ← hearlier, List.append_assoc]

/-- An event that is noted stays noted. -/
theorem not_isQuiet {e : Event} (he : e.Concerns w t) (hjournal : m'.journal = e :: m.journal)
    (hext : m'.Extends m'') : ¬m.IsQuiet w t m'' := by
  intro h
  obtain ⟨later, hlater⟩ := hext.journal
  refine h (later ++ [e]) ?_ e (List.mem_append_right _ (List.mem_singleton_self e)) he
  rw [← hlater, hjournal, List.append_assoc]
  rfl

/-- The tables of the token may be given other contents. -/
structure MayRefill (t : TokenId) (contents : Contents) (m : Machine) : Prop where
  tidy : m.IsTidy
  isOf : contents.IsOf t m.world
  minted : t.index < m.world.tokens.size

/-- What may be refilled may still be after the machine went on. -/
theorem MayRefill.extends (h : m.MayRefill t contents) (hm : m'.IsTidy) (hext : m.Extends m') :
    m'.MayRefill t contents :=
  ⟨hm, h.isOf.extends hext.world, h.minted.trans_le hext.world.tokens⟩

end Machine

namespace Eval

variable {α β : Type} {w : World} {m : Machine} {x x' : Eval α} {f f' : α → Eval β}

/-! ### Mirrored pieces -/

/-- If a piece finishes, and nothing happens that concerns the token, then its counterpart does the
same on the refilled machine, and the tables of the token are spared. -/
def Mirrors (w : World) (t : TokenId) (contents : Contents) (x x' : Eval α) (m : Machine) : Prop :=
  (∀ m', x m ≠ .error .exhausted m') → (final x m).world.Extends w → m.IsQuiet w t (final x m) →
    x' (m.refill contents) = refilled contents (x m) ∧ m.world.Spares t (final x m).world

/-- A blind piece mirrors itself. -/
theorem Blind.mirrors (h : Blind t contents x m) : Mirrors w t contents x x m :=
  fun _ _ _ => ⟨h.same, h.spares⟩

/-- In sequence: the rests have to mirror where the first piece left off. -/
theorem Mirrors.bind {p : α → Machine → Prop} {q : β → Machine → Prop}
    (hx : Mirrors w t contents x x' m) (hkeeps : Keeps x m p)
    (hf : ∀ a m', m'.IsTidy → m.Extends m' → p a m' →
      Keeps (f a) m' q ∧ Mirrors w t contents (f a) (f' a) m') :
    Mirrors w t contents (x >>= f) (x' >>= f') m := by
  intro hfinishes hext hquiet
  cases hrun : x m with
  | ok a m₁ =>
    -- the first part is quiet as the whole is, since the rest only adds to the journal
    obtain ⟨hm₁, hext₁, ha⟩ := hkeeps.of_ok hrun
    obtain ⟨hkeeps', hf'⟩ := hf a m₁ hm₁ hext₁ ha
    have hbind : (x >>= f) m = f a m₁ := by
      change EStateM.bind x f m = _
      rw [EStateM.bind, hrun]
    have hfinal : final (x >>= f) m = final (f a) m₁ := by rw [final, hbind, ← final]
    rw [hfinal] at hext hquiet ⊢
    rw [hbind] at hfinishes ⊢
    have hext₂ := hkeeps'.final.2
    obtain ⟨hsame, hspares⟩ := hx (fun m' h => by cases hrun.symm.trans h)
      (by rw [final_of_ok hrun]; exact hext₂.world.trans hext)
      (by rw [final_of_ok hrun]; exact hquiet.start hext₂)
    rw [final_of_ok hrun] at hspares
    -- the rest starts from the same machine refilled, and is quiet too
    obtain ⟨hsame', hspares'⟩ := hf' hfinishes hext (hquiet.rest hext₁)
    refine ⟨?_, hspares.trans hspares'⟩
    change EStateM.bind x' f' (m.refill contents) = _
    rw [EStateM.bind, hsame, hrun]
    exact hsame'
  | error stop m₁ =>
    have hbind : (x >>= f) m = .error stop m₁ := by
      change EStateM.bind x f m = _
      rw [EStateM.bind, hrun]
    have hfinal : final (x >>= f) m = final x m := by
      rw [final_of_error hbind, final_of_error hrun]
    rw [hfinal] at hext hquiet ⊢
    rw [hbind] at hfinishes ⊢
    obtain ⟨hsame, hspares⟩ := hx (fun m' h => by
      rw [hrun] at h
      cases h
      exact hfinishes _ rfl) hext hquiet
    refine ⟨?_, hspares⟩
    change EStateM.bind x' f' (m.refill contents) = _
    rw [EStateM.bind, hsame, hrun]
    rfl

/-- Errors are caught alike. -/
theorem Mirrors.catching (hx : Mirrors w t contents x x' m) :
    Mirrors w t contents (catching x) (catching x') m := by
  intro hfinishes hext hquiet
  rw [final_catching] at hext hquiet ⊢
  unfold Eval.catching at hfinishes ⊢
  obtain ⟨hsame, hspares⟩ := hx (fun m' h => hfinishes m' (by rw [h])) hext hquiet
  refine ⟨?_, hspares⟩
  rw [hsame]
  -- What is caught on one machine is caught on the other, and a stop stays a stop.
  cases x m with
  | ok a m' => rfl
  | error stop m' => cases stop <;> rfl

/-- What is done at the end of a piece in any case. -/
theorem Mirrors.thenAlways {g : Machine → Machine} (hx : Mirrors w t contents x x' m)
    (hext : (final x m).Extends (g (final x m))) (hworld : ∀ m', (g m').world = m'.world)
    (hrefill : ∀ m', g (m'.refill contents) = (g m').refill contents) :
    Mirrors w t contents (thenAlways x g) (thenAlways x' g) m := by
  intro hfinishes hlater hquiet
  rw [final_thenAlways] at hlater hquiet ⊢
  rw [hworld] at hlater ⊢
  unfold Eval.thenAlways at hfinishes ⊢
  obtain ⟨hsame, hspares⟩ := hx (fun m' h => hfinishes (g m') (by rw [h])) hlater
    (hquiet.start hext)
  refine ⟨?_, hspares⟩
  rw [hsame]
  -- The change is made at either end, and commutes with refilling.
  cases x m <;> exact congrArg _ (hrefill _)

/-- Loops mirror loops of as many rounds. -/
theorem mirrors_repeatRounds {round round' : Eval (Option Flow)} (hm : m.IsTidy)
    (hkeeps : ∀ m', m'.IsTidy → m.Extends m' →
      Keeps round m' fun flow? m'' => ∀ flow ∈ flow?, Returns flow m'')
    (hround : ∀ m', m'.IsTidy → m.Extends m' → Mirrors w t contents round round' m') (rounds : ℕ) :
    Mirrors w t contents (repeatRounds round rounds) (repeatRounds round' rounds) m := by
  induction rounds generalizing m with
  | zero => exact fun hfinishes => absurd rfl (hfinishes m)
  | succ rounds ih =>
    refine Mirrors.bind (q := Returns) (hround m hm (.refl m)) (hkeeps m hm (.refl m))
      fun flow? m₁ hm₁ hext₁ hflow => ?_
    -- only a round that ends normally is followed by another
    match flow? with
    | none => exact ⟨.pure hm₁ (fun _ h => nomatch h), (Blind.pure _).mirrors⟩
    | some (.returned v) => exact ⟨.pure hm₁ (hflow _ rfl), (Blind.pure _).mirrors⟩
    | some .normal =>
      have hkeeps₁ := fun m' hm' hext => hkeeps m' hm' (hext₁.trans hext)
      have hround₁ := fun m' hm' hext => hround m' hm' (hext₁.trans hext)
      exact ⟨keeps_repeatRounds hm₁ hkeeps₁ rounds, ih hm₁ hkeeps₁ hround₁⟩

end Eval

/-- An evaluator that mirrors another in what code outside of the class of a token evaluates. -/
structure Evaluator.Mirrors (w : World) (t : TokenId) (contents : Contents)
    (parts parts' : Evaluator) : Prop where
  eval : ∀ {m : Machine} {context : Context} (e : Expr), m.MayRefill t contents →
    (Terms.outside t contents).Suits m context.frame →
    Eval.Mirrors w t contents (parts.eval context e) (parts'.eval context e) m
  exec : ∀ {m : Machine} {context : Context} (s : Stmt), m.MayRefill t contents →
    (Terms.outside t contents).Suits m context.frame →
    Eval.Mirrors w t contents (parts.exec context s) (parts'.exec context s) m
  invoke : ∀ {m : Machine} {this : Value} {args : List Value} {construction : Option ConstructionId}
    (held : List Node) (f : FunctionRef), m.MayRefill t contents → m.world.Passes this →
    (∀ v ∈ args, m.world.Passes v) → (∀ id ∈ construction, id.index < m.constructions.size) →
    Eval.Mirrors w t contents (parts.invoke held f this args construction)
      (parts'.invoke held f this args construction) m
  rounds : parts.rounds = parts'.rounds

namespace Eval

variable {α : Type} {w : World} {m : Machine} {context : Context} {self self' : Evaluator}

/-! ### Pieces for code outside of the class -/

/-- What is evaluated for code outside of the class of a token is put together from single
operations and, besides, from pieces that never end without anything having happened that concerns
the token. -/
inductive Outside (t : TokenId) (contents : Contents) : Pieces
  | primitive {α : Type} {x : Evaluator → Eval α} {m : Machine} {q : α → Machine → Prop}
    (h : Primitive (.outside t contents) α x m q) : Outside t contents α x m q
  | concerns {α : Type} {x : Evaluator → Eval α} {m : Machine} {q : α → Machine → Prop}
    (hkeeps : ∀ {self : Evaluator}, self.Keeps → Keeps (x self) m q)
    (h : ∀ {self : Evaluator} {w : World}, self.Keeps → (final (x self) m).world.Extends w →
      ¬m.IsQuiet w t (final (x self) m)) : Outside t contents α x m q

/-- A piece for code outside of the class keeps machines tidy. -/
theorem Outside.keeps {x : Evaluator → Eval α} {q : α → Machine → Prop}
    (h : Outside t contents α x m q) (hself : self.Keeps) (hm : m.IsTidy) : Keeps (x self) m q := by
  cases h with
  | primitive h => exact h.keeps hself hm
  | concerns hkeeps _ => exact hkeeps hself

/-- Members may be installed of classes that are not the token's. -/
theorem installs_outside :
    Installs (.outside t contents) (Outside t contents) (MayInstall (.outside t contents)) where
  primitive h := .primitive h
  made h := ⟨h.made, h.may⟩
  extends_ h hext := h.extends hext
  install held _ _ hm hc ho := (built_installPrivate hm held hc ho).mono .primitive

/-- What `new` does with an object that it has made: the classes of its chain register it, and then
it is initialized. -/
def setUpMade (self : Evaluator) (held : List Node) (c : ClassRef) (args : List Value)
    (inst : ObjectId) (chain : List ClassRef) : Eval Value := do
  let inst ← (do
    registerAll inst chain
    return inst)
  let chain := (← world).classChain c
  initializeAs self (.object inst :: c.node :: held) inst args chain
  record (.constructed c inst)
  return .object inst

/-- A construction begins by noting itself. -/
theorem final_construct (self : Evaluator) (held : List Node) (c : ClassRef) (args : List Value)
    (m : Machine) : final (construct self held c args) m =
      final (setUpMade self held c args m.nextObject ((m.begin c).world.classChain c))
        (m.begin c) := by
  rw [construct_stepwise, allocate_stepwise]
  rfl

theorem isTidy_begin (hm : m.IsTidy) (c : ClassRef) :
    (m.begin c).IsTidy ∧ m.Extends (m.begin c) := by
  obtain ⟨hw, hext⟩ := hm.world.newObject (some (m.world.classAt c).prototype)
  exact hm.next hw hext hm.settled rfl rfl rfl (List.suffix_cons _ _)

/-- An object that has been made is set up on machines that remain tidy. -/
theorem keeps_setUpMade (hm : m.IsTidy) (held : List Node) {c : ClassRef} {args : List Value}
    (hc : m.world.Passes (.class c)) (hargs : ∀ v ∈ args, m.world.Passes v) (hself : self.Keeps)
    {inst : ObjectId} (hinst : inst.index < m.world.objects.size) :
    Keeps (setUpMade self held c args inst (m.world.classChain c)) m Gives := by
  -- Whatever the machine has become meanwhile, the classes of the chain are still classes.
  have hmay : ∀ m', m'.IsTidy → m.Extends m' → ∀ d ∈ m'.world.classChain c,
      MayInstall .anything m'.world d := fun m' hm' hext d hd =>
    mayInstall_anything (hm'.world.lt_of_mem_classChain
      (Nat.lt_of_lt_of_le hc hext.world.classCount) hd)
  have hregisters := built_registerAll installs_primitive hm hinst _ fun d hd =>
    installs_primitive.made (hmay m hm (.refl m) d hd)
  refine Keeps.bind (p := fun inst m' => inst.index < m'.world.objects.size) ?_
    fun inst m₁ hm₁ hext₁ hinst => ?_
  · exact (Built.bind hregisters fun _ _ _ hext₁ _ =>
      .pure (hinst.trans_le hext₁.world.objects)).keeps_anything hself hm
  · exact (built_setUp installs_primitive (fun _ => trivial) hm₁ _ hinst
      (fun v hv => (hargs v hv).extends hext₁.world) (hmay m₁ hm₁ hext₁)).keeps_anything
      hself hm₁

/-- Where an instance is constructed of a class that descends from the token, this is noted. -/
theorem concerns_construct (hm : m.IsTidy) (held : List Node) {c : ClassRef} {args : List Value}
    (hc : m.world.Passes (.class c)) (hargs : ∀ v ∈ args, m.world.Passes v)
    (hdescends : m.world.Descends c t) (hself : self.Keeps)
    (hext : (final (construct self held c args) m).world.Extends w) :
    ¬m.IsQuiet w t (final (construct self held c args) m) := by
  obtain ⟨hbegun, hbegins⟩ := isTidy_begin hm c
  have hinst : m.nextObject.index < (m.begin c).world.objects.size := by
    change m.world.objects.size < (m.world.objects.push _).size
    rw [Array.size_push]
    exact Nat.lt_succ_self _
  have hkeeps := keeps_setUpMade hbegun held (hc.extends hbegins.world)
    (fun v hv => (hargs v hv).extends hbegins.world) hself hinst
  -- The note with which the construction begins concerns the token, and it stays.
  rw [final_construct] at hext ⊢
  have hextends := hkeeps.final.2
  exact Machine.not_isQuiet (e := .constructing c m.nextObject)
    (hdescends.extends hm.world hc ((hbegins.trans hextends).world.trans hext)) rfl hextends

/-- Where a constructor hands over in a class that descends from the token, this is noted. -/
theorem concerns_handOver (hm : m.IsTidy) (held : List Node) {id : ConstructionId}
    (hid : id.index < m.constructions.size) {args : List Value}
    (hargs : ∀ v ∈ args, m.world.Passes v) {k : Construction}
    (hclass : k.classRef = (m.constructionAt id).classRef)
    (hinst : k.inst = (m.constructionAt id).inst) (hdescends : m.world.Descends k.classRef t) :
    Built (.outside t contents) (Outside t contents) (fun self => do
      markSuperCalled id
      let ancestors := ((← world).classChain k.classRef).drop 1
      initializeAs self held k.inst args ancestors
      installPrivate self held k.classRef k.inst
      record (.superReturned k.classRef k.inst)) m fun _ _ => True := by
  -- the class and the instance of a construction are known, as those of `k` then are
  obtain ⟨hmade, ho⟩ := hm.constructions id hid
  rw [← hclass] at hmade
  rw [← hinst] at ho
  obtain ⟨hcalled, hext⟩ := hm.callSuper id
  have hkeeps : ∀ {self : Evaluator}, self.Keeps → Keeps (do
      let ancestors := ((← world).classChain k.classRef).drop 1
      initializeAs self held k.inst args ancestors
      installPrivate self held k.classRef k.inst
      record (.superReturned k.classRef k.inst)) (m.callSuper id) fun _ _ => True := fun hself =>
    (built_handOver installs_primitive (fun _ => trivial) hcalled held ho hargs fun d hd =>
      mayInstall_anything (hm.world.lt_of_mem_classChain hmade hd)).keeps_anything hself hcalled
  -- handing over to a class with the token `t` is recorded, so the run is not quiet
  refine .own (.concerns (fun hself => ?_) fun {self w} hself hext' => ?_)
  · exact Keeps.bind (keeps_modify (hm.callSuper id)) fun _ m' hm' hext ha => ha ▸ hkeeps hself
  · have hextends := (hkeeps hself).final.2
    refine Machine.not_isQuiet (e := .superCalled k.classRef k.inst) ?_ ?_ hextends
    · exact hdescends.extends hm.world hmade ((hext.trans hextends).world.trans hext')
    · rw [hclass, hinst]
      rfl

/-- **Pieces for code outside.** Whatever may be evaluated outside of the class of a token is built
from pieces that do not look into its tables, or that concern it. -/
theorem supports_outside : Supports (.outside t contents) (Outside t contents) where
  covers _ _ := ⟨fun _ _ => trivial, fun _ => trivial, fun _ => trivial⟩
  construct _ {m context c args} hm hc hpasses hargs := by
    -- a class outside those that have the token installs none of its private members
    by_cases hdescends : m.world.Descends c t
    · exact .own (.concerns
        (fun hself => (supports_primitive.construct trivial hm (Terms.suits_anything hc.toSuits)
          hpasses hargs).keeps_anything hself hm)
        fun hself hext => concerns_construct hm context.nodes hpasses hargs hdescends hself hext)
    · refine built_construct installs_outside (fun _ => trivial) hm _ hargs fun d hd => ?_
      exact ⟨hm.world.lt_of_mem_classChain hpasses hd, fun htoken => hdescends ⟨d, hd, htoken⟩,
        fun _ _ _ _ => trivial, hc.minted⟩
  superCall {m context args} hm hc hargs := by
    -- so does a parent handed over to, unless its own class descends from one with the token
    by_cases hdescends : ∃ id ∈ context.frame.construction,
        m.world.Descends (m.constructionAt id).classRef t
    · obtain ⟨id', hid', hdescends⟩ := hdescends
      refine built_superCall_of installs_outside hc fun id hid k m₁ hm₁ hext₁ hclass hinst => ?_
      obtain rfl : id' = id := Option.some.inj (hid'.symm.trans hid)
      have hknown := hc.construction id' hid
      obtain ⟨hclass₁, hinst₁⟩ := hext₁.constructions id' hknown
      refine concerns_handOver hm₁ context.nodes (hknown.trans_le hext₁.constructionCount)
        (fun v hv => (hargs v hv).extends hext₁.world) (hclass.trans hclass₁.symm)
        (hinst.trans hinst₁.symm) ?_
      rw [hclass]
      exact hdescends.extends hm.world (hm.constructions id' hknown).1 hext₁.world
    · refine built_superCall installs_outside (fun _ => trivial) hm hc hargs fun id hid d hd => ?_
      exact ⟨hm.world.lt_of_mem_classChain (hm.constructions id (hc.construction id hid)).1 hd,
        fun htoken => hdescends ⟨id, hid, d, hd, htoken⟩, fun _ _ _ _ => trivial, hc.minted⟩
  makeClass {m _ _ _} hm hc _ hparent := by
    -- the token of a new class is minted next, so it is none of those minted before
    refine .own (.primitive (.makeClass hm hc hparent (fun hnext => ?_) trivial))
    have hminted : t.index < m.world.tokens.size := hc.minted
    rw [← hnext] at hminted
    exact Nat.lt_irrefl _ hminted

/-! ### Mirrored evaluation -/

section Mirrored

variable (hself : self.Keeps) (hmirrors : self.Mirrors w t contents self')

include hself hmirrors

/-- A piece for code outside of the class mirrors itself. -/
theorem Outside.mirrors {x : Evaluator → Eval α} {q : α → Machine → Prop}
    (h : Outside t contents α x m q) (hm : m.MayRefill t contents) :
    Mirrors w t contents (x self) (x self') m := by
  -- what concerns the token is not quiet, and any other primitive is blind to the refilled table
  cases h with
  | concerns _ h => exact fun _ hext hquiet => absurd hquiet (h hself hext)
  | primitive h =>
    cases h with
    | invoke held f hthis hargs hconstruction =>
      exact hmirrors.invoke held f hm hthis hargs fun id hid => (hconstruction id hid).1
    | register ht hmay ho =>
      exact (blind_registerInstance hm.tidy.world.registry hm.isOf hmay ht ho).mirrors
    | makeClass _ hc hparent _ _ =>
      exact (blind_makeClass hm.tidy.world.registry hm.minted hm.isOf _ _ _).mirrors
    | record | newConstruction | constructionAt | markSuperCalled =>
      exact Blind.mirrors ⟨rfl, .refl t m.world⟩

/-- **Pieces mirror themselves** if the evaluator of the parts is mirrored. -/
theorem Built.mirrors {x : Evaluator → Eval α} {q : α → Machine → Prop}
    (h : Built (.outside t contents) (Outside t contents) x m q) (hm : m.MayRefill t contents) :
    Mirrors w t contents (x self) (x self') m := by
  have hkept : ∀ {α : Type} {x : Evaluator → Eval α} {m : Machine} {q : α → Machine → Prop},
      Built (.outside t contents) (Outside t contents) x m q → m.IsTidy → Keeps (x self) m q :=
    fun hx hm => hx.keeps hself (fun h hm => h.keeps hself hm) hm
  -- Along the way the piece is built: each part is mirrored on the machine it is run on.
  induction h with
  | pure _ => exact (Blind.pure _).mirrors
  | raise _ => exact Blind.mirrors ⟨rfl, .refl t _⟩
  | broken _ => exact Blind.mirrors ⟨rfl, .refl t _⟩
  | atom h => exact (h.blind hm.tidy hm.isOf).mirrors
  | @world _ m _ k hblind _ ih =>
    intro hfinishes hext hquiet
    obtain ⟨hsame, hspares⟩ := ih hm hfinishes hext hquiet
    refine ⟨?_, hspares⟩
    have hrefilled : k (m.world.refill contents) = k m.world := hblind _
    change k (m.world.refill contents) self' (m.refill contents) = _
    rw [hrefilled]
    exact hsame
  | @table _ m _ table k ht _ ih =>
    intro hfinishes hext hquiet
    obtain ⟨hsame, hspares⟩ := ih hm hfinishes hext hquiet
    refine ⟨?_, hspares⟩
    -- the table that is looked into is not one of those that are refilled
    have hnone := (Terms.isElsewhere ht).none hm.tidy.world.registry hm.isOf
    change k ((m.world.refill contents).tableAt table) self' (m.refill contents) = _
    rw [World.tableAt_refill_of_none hnone]
    exact hsame
  | @bind _ _ _ _ q _ _ hx hf ihx ihf =>
    refine Mirrors.bind (q := q) (ihx hm) (hkept hx hm.tidy) fun a m₁ hm₁ hext₁ ha => ?_
    exact ⟨hkept (hf a m₁ hm₁ hext₁ ha) hm₁, ihf a m₁ hm₁ hext₁ ha (hm.extends hm₁ hext₁)⟩
  | weaken _ _ ih => exact ih hm
  | catching _ ih => exact (ih hm).catching
  | eval hc _ => exact hmirrors.eval _ hm hc
  | exec hc _ => exact hmirrors.exec _ hm hc
  | invoke held hf hthis hargs => exact hmirrors.invoke held _ hm hthis hargs fun _ h => nomatch h
  | rounds _ hx ih =>
    dsimp only
    rw [← hmirrors.rounds]
    exact mirrors_repeatRounds hm.tidy (fun m' hm' hext => hkept (hx m' hm' hext) hm')
      (fun m' hm' hext => ih m' hm' hext (hm.extends hm' hext)) _
  | own h => exact h.mirrors hself hmirrors hm

/-- A call of a function that was written elsewhere. -/
theorem mirrors_invoke (hm : m.MayRefill t contents) (held : List Node) (f : FunctionRef)
    {this : Value} {args : List Value} {construction : Option ConstructionId}
    (hthis : m.world.Passes this) (hargs : ∀ v ∈ args, m.world.Passes v)
    (hconstruction : ∀ id ∈ construction, id.index < m.constructions.size) :
    Mirrors w t contents (invoke self held f this args construction)
      (invoke self' held f this args construction) m := by
  obtain ⟨hdepth, hrun⟩ | ⟨hdepth, hrun⟩ := invoke_cases self held f this args construction m
  · -- the depth is that of both machines, so both calls are refused or neither is
    obtain ⟨-, hrun'⟩ | ⟨hdepth', -⟩ :=
      invoke_cases self' held f this args construction (m.refill contents)
    · intro _ _ _
      rw [hrun, final_of_error hrun, hrun']
      exact ⟨rfl, .refl t m.world⟩
    · exact absurd hdepth (Nat.not_le_of_lt hdepth')
  · obtain ⟨hdepth', -⟩ | ⟨-, hrun'⟩ :=
      invoke_cases self' held f this args construction (m.refill contents)
    · exact absurd hdepth' (Nat.not_le_of_lt hdepth)
    · obtain ⟨hentered, hext⟩ := tidy_enter hm.tidy f this
      let body : Eval Value := runFunction self held (m.world.functionAt f) this args construction
      -- what the body leaves has the counter where `leave` can lower it again
      have hkeeps : Keeps body (enter f this m) Gives :=
        (built_called_anything hm.tidy held f hthis hargs hconstruction).keeps_anything hself
          hentered
      obtain ⟨hdone, hextends⟩ := hkeeps.final
      obtain ⟨-, hleft⟩ := tidy_leave hdone f
      have hfinal : final (invoke self held f this args construction) m =
          final (thenAlways body (leave f)) (enter f this m) := by
        rw [final, hrun, ← final]
      intro hfinishes hlater hquiet
      rw [hfinal] at hlater hquiet ⊢
      rw [hrun] at hfinishes ⊢
      -- a function of the token's class would have been noted when it was called
      have hmay : ∀ c, m.world.functionAt f = .script c → ∀ h ∈ c.home, h.token ≠ t := by
        intro c hc h hh htoken
        rw [final_thenAlways] at hlater hquiet
        have hscript := hlater.scripts f.index c (hextends.world.scripts f.index c hc)
        have hinvoked : w.homeToken? f = some t := by
          rw [World.homeToken?_of_script hscript, Option.mem_def.mp hh, ← htoken]
          rfl
        exact Machine.not_isQuiet (e := .invoked f this) hinvoked rfl hextends (hquiet.start hleft)
      -- so the body may be run by the rules for code outside the class
      have hs : Supports (.outside t contents) (Outside t contents) := supports_outside
      have hbuilt := built_called hs hm.tidy held f hthis hargs
        (fun id hid => ⟨hconstruction id hid, trivial⟩)
        (fun c hc => ⟨hmay c hc, fun _ _ => trivial⟩) hm.minted
      -- entering and leaving a call are the same on both machines
      have hmirrored := (hbuilt.mirrors hself hmirrors (hm.extends hentered hext)).thenAlways
        (g := leave f) hleft (fun _ => rfl) fun _ => rfl
      obtain ⟨hsame, hspares⟩ := hmirrored hfinishes hlater (hquiet.rest hext)
      exact ⟨hrun'.trans hsame, hspares⟩

end Mirrored

/-! ### Minding evaluators -/

/-- An observer that gives up where code takes its class, and whether the class is there is not the
same on the refilled machine. -/
def minding (contents : Contents) : Observer := fun a x m =>
  match a with
  | .eval context e =>
    if e.form.takesClass && !sameClass contents m context then .error .exhausted m else x m
  | .exec .. | .invoke .. => x m

/-- Minding evaluators keep machines tidy. -/
theorem keeps_minding (contents : Contents) (steps : ℕ) :
    (observed (minding contents) steps).Keeps := by
  refine keeps_observed (fun {_} a {x m q} hm hx => ?_) steps
  cases a with
  | exec | invoke => exact hx
  | eval context e =>
    -- Either the observer gives up, and nothing has happened, or the piece is run.
    by_cases hminds : e.form.takesClass && !sameClass contents m context
    · refine keeps_of_error (if_pos hminds) ⟨hm, .refl m⟩ fun _ h => nomatch h
    · have hrun : minding contents (.eval context e) x m = x m := if_neg hminds
      rw [Keeps, Ends, hrun]
      exact hx

/-- What a minding evaluator finishes the evaluator finishes in the same way. -/
theorem agrees_minding (contents : Contents) (steps : ℕ) :
    (observed (minding contents) steps).Agrees True (fun _ => True) (evaluator steps) := by
  induction steps with
  | zero =>
    exact
      { eval := fun _ _ _ _ => .refl _
        exec := fun _ _ _ _ => .refl _
        invoke := fun _ _ _ _ _ _ _ => .refl _
        rounds := Or.inl rfl }
  | succ steps ih =>
    have hself := keeps_minding contents steps
    -- nothing is asked of the machine but that it is tidy, which is kept anyway
    have hstays : ∀ {α : Type} {x : Evaluator → Eval α} {m : Machine} {q : α → Machine → Prop},
        Built .anything (Primitive .anything) x m q → m.IsTidy → True →
        Stays (fun _ => True) (x (observed (minding contents) steps)) m :=
      fun _ _ _ => stays_true _ _
    exact
      { eval := fun {m context} e hm hi hc => by
          -- a value that takes a class with other contents is minded: the watched run is exhausted
          by_cases hminds : e.form.takesClass && !sameClass contents m context
          · exact Or.inr ⟨trivial, m, if_pos hminds⟩
          · have hrun : (observed (minding contents) (steps + 1)).eval context e m =
                evalExpr (observed (minding contents) steps) context e m := if_neg hminds
            rw [hrun]
            exact agree_evalExpr hself ih hstays hm hi hc e
        exec := fun s hm hi hc => agree_execStmt hself ih hstays hm hi hc s
        invoke := fun held f hm _ hthis hargs hconstruction =>
          agree_invoke hself ih hstays hm held f (fun _ => trivial) hthis hargs hconstruction
        rounds := Or.inl rfl }

/-- **The evaluator mirrors the minding evaluator.** -/
theorem mirrors_minding (w : World) (t : TokenId) (contents : Contents) (steps : ℕ) :
    (observed (minding contents) steps).Mirrors w t contents (evaluator steps) := by
  induction steps with
  -- an exhausted run is no run that finishes
  | zero =>
    exact
      { eval := fun _ _ _ hfinishes => absurd rfl (hfinishes _)
        exec := fun _ _ _ hfinishes => absurd rfl (hfinishes _)
        invoke := fun _ _ _ _ _ _ hfinishes => absurd rfl (hfinishes _)
        rounds := rfl }
  | succ steps ih =>
    have hself := keeps_minding contents steps
    have hs : Supports (.outside t contents) (Outside t contents) := supports_outside
    exact
      { eval := fun {m context} e hm hc => by
          -- what is minded is exhausted; any other expression takes classes with the same contents
          by_cases hminds : e.form.takesClass && !sameClass contents m context
          · exact fun hfinishes => absurd (if_pos hminds) (hfinishes m)
          · have htakes : e.form.takesClass = true → sameClass contents m context = true := by
              simpa using hminds
            have hbuilt := built_evalExpr hs hm.tidy hc (hs.covers (.expr e) trivial) htakes
            have hrun : (observed (minding contents) (steps + 1)).eval context e m =
                evalExpr (observed (minding contents) steps) context e m := if_neg hminds
            have hmirrored := hbuilt.mirrors hself ih hm (w := w)
            rwa [Mirrors, final, ← hrun] at hmirrored
        exec := fun s hm hc =>
          (built_execStmt hs hc (hs.covers (.stmt s) trivial)).mirrors hself ih hm
        invoke := fun held f hm hthis hargs hconstruction =>
          mirrors_invoke hself ih hm held f hthis hargs hconstruction
        rounds := rfl }

end Eval

end Enclave
