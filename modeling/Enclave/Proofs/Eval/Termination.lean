import Enclave.Proofs.Eval.Settling

/-!
# Evaluation without loops

Without loops, whatever is evaluated settles under any bound on recursions
(`Eval.constructionsSettle`, `Eval.callsSettle`). Three inductions are nested in each other, and
with them three ways to go deeper:

* a call leads to a body of a function, with fewer calls left to be begun inside it;
* the installation of a class that constructs instances for its private fields leads to their
  initializers, with fewer recursions left until the bound is exceeded; that of any other class
  leads to initializers in which nothing is constructed but by calls;
* anything else leads to what is evaluated together with it, which is smaller.
-/

namespace Enclave

namespace Terms

/-- The terms on which no syntax is evaluated at all. -/
def silent : Terms :=
  ⟨fun _ => True, fun _ => False, fun _ => True, False, True, 0, fun _ _ => True⟩

/-- The terms on which anything but loops is evaluated. -/
def plain : Terms :=
  ⟨fun _ => True, fun p => p.All Part.IsPlain, fun _ => True, False, True, 0, fun _ _ => True⟩

/-- The terms on which what is evaluated with a piece of syntax is, where it may be that nothing is
constructed. -/
def below (mayConstruct : Prop) (p : Part) : Terms :=
  ⟨fun _ => True,
    fun q => q.All Part.IsPlain ∧ (q.constructs = true → mayConstruct) ∧ sizeOf q < sizeOf p,
    fun _ => mayConstruct, False, mayConstruct, 0, fun _ _ => True⟩

/-- The terms on which the private fields of a class are evaluated. -/
def initializersOf (d : Class) : Terms :=
  ⟨fun _ => True, fun p => ∃ f ∈ d.fields, ∃ e ∈ f.initializer, p = .expr e, fun _ => False, False,
    False, 0, fun _ _ => True⟩

end Terms

namespace Eval

/-! ### Pieces of constructions -/

/-- Single operations, and installations as a whole. -/
inductive Installing (R : Terms) : Pieces
  | primitive {α : Type} {x : Evaluator → Eval α} {m : Machine} {q : α → Machine → Prop}
    (h : Primitive R α x m q) : Installing R α x m q
  | install {m : Machine} (held : List Node) {c : ClassRef} {inst : ObjectId}
    (hc : c.index < m.world.classes.size) (ho : inst.index < m.world.objects.size) :
    Installing R Unit (fun self => installPrivate self held c inst) m fun _ _ => True

variable {α : Type} {bound calls installs : ℕ} {R : Terms} {m : Machine} {self : Evaluator}
  {x : Evaluator → Eval α} {q : α → Machine → Prop}

theorem installs_installing (hmay : ∀ t, R.may t) :
    Installs R (Installing R) fun w c => c.index < w.classes.size where
  primitive := .primitive
  made hc := ⟨hc, hmay _⟩
  extends_ hc hext := Nat.lt_of_lt_of_le hc hext.classCount
  install held _ _ _ hc ho := .own (.install held hc ho)

theorem Installing.keeps (h : Installing R α x m q) (hself : self.Keeps) (hm : m.IsTidy) :
    Keeps (x self) m q := by
  cases h with
  | primitive h => exact h.keeps hself hm
  | install held hc ho =>
    exact (built_installPrivate hm held (mayInstall_anything hc) ho).keeps_anything hself hm

theorem Installing.proceeds {ok : Part → Prop} (hcode : ∀ p, R.code p → p.All ok)
    (h : Installing R α x m q) (hkeeps : self.Keeps) (hself : self.Proceeds ok) (hm : m.IsTidy) :
    Leaves (Machine.Proceeds ok) (x self) m := by
  cases h with
  | primitive h => exact h.proceeds hcode hself hm
  | install held hc ho =>
    intro hmade
    exact (built_installPrivate hm held (Machine.MadeOf.mayInstall hmade hc) ho).proceeds_primitive
      (fun _ h => h) hkeeps hself hm hmade

/-! ### What settles -/

/-- Calls settle on machines that have so much left. -/
def CallsSettle (bound calls installs : ℕ) : Prop :=
  ∀ {m : Machine} {this : Value} {args : List Value} {construction : Option ConstructionId}
    (held : List Node) (f : FunctionRef), m.IsTidy → m.HasLeft bound calls installs →
    m.world.Passes this → (∀ v ∈ args, m.world.Passes v) →
    (∀ id ∈ construction, id.index < m.constructions.size) →
    Settles bound (fun self => self.invoke held f this args construction) m

/-- Constructions settle on machines that have so much left. -/
structure ConstructionsSettle (bound calls installs : ℕ) : Prop where
  construct : ∀ {m : Machine} {c : ClassRef} {args : List Value} (held : List Node), m.IsTidy →
    m.HasLeft bound calls installs → m.world.Passes (.class c) → (∀ v ∈ args, m.world.Passes v) →
    Settles bound (fun self => construct self held c args) m
  superCall : ∀ {m : Machine} {context : Context} {args : List Value}, m.IsTidy →
    m.HasLeft bound calls installs → m.Suits context.frame → (∀ v ∈ args, m.world.Passes v) →
    Settles bound (fun self => superCall self context args) m

theorem Whole.settles (hconstructs : R.constructs → ConstructionsSettle bound calls installs)
    (hworks : ∀ id, R.works id → ConstructionsSettle bound calls installs)
    (h : Whole R α x m q) (hm : m.IsTidy) (hleft : m.HasLeft bound calls installs) :
    Settles bound x m := by
  cases h with
  | construct _ hmay hc hclass hargs => exact (hconstructs hmay).construct _ hm hleft hclass hargs
  | @superCall _ context args _ hc hargs =>
    cases hconstruction : context.frame.construction with
    | none =>
      -- outside a constructor a call of `super` is broken, with any number of steps
      have hbroken : ∀ self, Eval.superCall self context args m =
          .error (.broken .superCallOutsideConstructor) m := by
        intro self
        obtain ⟨-, hrun⟩ | ⟨id, hid, -⟩ := superCall_cases self context args m
        · exact hrun
        · rw [hconstruction] at hid
          cases hid
      exact settles_of_error hbroken fun h => nomatch h
    | some id => exact (hworks id (hc.works id hconstruction)).superCall hm hleft hc.toSuits hargs
  | @makeClass _ context c parent _ hc hparent =>
    obtain ⟨parts, m', hrun, -⟩ := makeClass_made hm context c hparent
    exact settles_of_ok fun _ => hrun

/-- What is built on terms without loops settles if its parts, calls and constructions do. -/
theorem Built.settles_whole (h : Built R (Whole R) x m q) (hloops : ¬R.loops)
    (hcode : ∀ p, R.code p → p.All Part.IsPlain)
    (hs : R.SettleOn bound (Machine.HasLeft bound calls installs))
    (hconstructs : R.constructs → ConstructionsSettle bound calls installs)
    (hworks : ∀ id, R.works id → ConstructionsSettle bound calls installs) (hm : m.IsTidy)
    (hleft : m.HasLeft bound calls installs) : Settles bound x m :=
  h.settles hloops hcode hs (fun hx hm k => hx.keeps (keeps_evaluator k) hm)
    (fun hx hm k => hx.proceeds hcode (keeps_evaluator k) (proceeds_evaluator _ k) hm)
    (fun hx hm hleft => hx.settles hconstructs hworks hm hleft) hm hleft

/-! ### Smaller parts -/

theorem covers_below {b : Prop} {p q : Part} (hq : q.All Part.IsPlain)
    (hb : q.constructs = true → b) (hsize : sizeOf q ≤ sizeOf p) : (Terms.below b p).Covers q where
  parts r hr := by
    refine ⟨hq.part hr, fun hr' => hb ?_, (Part.sizeOf_lt hr).trans_le hsize⟩
    -- a part that constructs makes the whole construct
    by_contra hnot
    rw [(Part.constructs_eq_false_iff.mp (Bool.not_eq_true _ ▸ hnot)).2 r hr] at hr'
    cases hr'
  loops h := by
    rw [hq.self] at h
    cases h
  constructs h := hb (by rw [Part.constructs_eq, h, Bool.true_or])

theorem supports_below (b : Prop) (p : Part) :
    Supports (.below b p) (Whole (.below b p)) :=
  supports_whole (fun _ hq => covers_below hq.1 hq.2.1 hq.2.2.le) fun _ _ => trivial

/-- What the parts of syntax come to, expressions and statements alike. -/
def PartSettles (bound : ℕ) (context : Context) (m : Machine) : Part → Prop
  | .expr e => Settles bound (fun self => self.eval context e) m
  | .stmt s => Settles bound (fun self => self.exec context s) m
  | .function _ | .class _ => True

/-- **Parts settle** by induction on their size, if calls do. Where instances are constructed, or a
constructor runs, constructions have to settle as well. -/
theorem settles_part (b : Prop) (hcalls : CallsSettle bound calls installs)
    (hconstructions : b → ConstructionsSettle bound calls installs) (p : Part)
    (hp : p.All Part.IsPlain) (hb : p.constructs = true → b) {m : Machine} {context : Context}
    (hm : m.IsTidy) (hleft : m.HasLeft bound calls installs) (hc : m.Suits context.frame)
    (hworks : ∀ id ∈ context.frame.construction, b) : PartSettles bound context m p := by
  -- on the size of the part: the parts it is made of are smaller, so they settle already
  induction hsize : sizeOf p using Nat.strong_induction_on generalizing p m context with
  | _ size ih =>
    have hs : (Terms.below b p).SettleOn bound (Machine.HasLeft bound calls installs) :=
      { eval := fun {m context e} hm hleft hc he => ih _ (hsize ▸ he.2.2) (.expr e) he.1 he.2.1 hm
          hleft hc.toSuits hc.works rfl
        exec := fun {m context s} hm hleft hc hs => ih _ (hsize ▸ hs.2.2) (.stmt s) hs.1 hs.2.1 hm
          hleft hc.toSuits hc.works rfl
        invoke := hcalls }
    have hsuits : (Terms.below b p).Suits m context.frame :=
      ⟨hc, fun _ _ => trivial, hworks, Nat.zero_le _⟩
    have hcovers : (Terms.below b p).Covers p := covers_below hp hb (Nat.le_refl _)
    -- one step opens the part, and the others go to the parts below it
    cases p with
    | expr e =>
      exact ((built_evalExpr (supports_below b _) hm hsuits hcovers fun _ => trivial).settles_whole
        (fun h => h) (fun _ h => h.1) hs hconstructions (fun _ => hconstructions) hm hleft).step
          fun _ => rfl
    | stmt s =>
      exact ((built_execStmt (supports_below b _) hsuits hcovers).settles_whole (fun h => h)
        (fun _ h => h.1) hs hconstructions (fun _ => hconstructions) hm hleft).step fun _ => rfl
    | function f => trivial
    | «class» c => trivial

/-! ### Installations -/

/-- The machine that a class begins to set up its members on. -/
def startInstall (c : ClassRef) (inst : ObjectId) (m : Machine) : Machine :=
  { m with
    world := (m.world.registerInstance (m.world.classAt c).token inst).2
    journal := .installing c inst :: m.journal }

/-- Where a class sets up its members, the first it does is to note it. If it is one that constructs
instances for its fields, one recursion less is left. -/
theorem hasLeft_startInstall {c : ClassRef} (inst : ObjectId)
    (hleft : m.HasLeft bound calls (installs + 1)) :
    (startInstall c inst m).HasLeft bound calls
      (if (m.world.classAt c).recurs then installs else installs + 1) := by
  have hclasses : (startInstall c inst m).world.classes = m.world.classes :=
    World.classes_registerInstance _ _ _
  have hfunctions : (startInstall c inst m).world.functions = m.world.functions :=
    World.functions_registerInstance _ _ _
  have hat : (startInstall c inst m).world.classAt = m.world.classAt := funext fun k => by
    rw [World.classAt, hclasses, World.classAt]
  -- one more is recorded as a recursion just when the class constructs in its initializers
  have hcount : (startInstall c inst m).recursions =
      m.recursions + if (m.world.classAt c).recurs then 1 else 0 := by
    have hsame : (startInstall c inst m).world.isRecursion = m.world.isRecursion := by
      funext e
      cases e with
      | installing k o =>
        change ((startInstall c inst m).world.classAt k).recurs = (m.world.classAt k).recurs
        rw [hat]
      | _ => rfl
    rw [Machine.recursions, hsame]
    exact List.countP_cons
  refine ⟨hleft.madeOf.of_eq hfunctions hclasses, hleft.calls, ?_⟩
  have hinstalls := hleft.installs
  rw [hcount]
  split <;> omega

/-- An initializer of a class that does not recur constructs nothing. -/
theorem constructs_initializer {d : Class} {p : Part} (hp : (Terms.initializersOf d).code p)
    (hquiet : d.recurs ≠ true) : p.constructs ≠ true := by
  obtain ⟨f, hf, e, he, rfl⟩ := hp
  intro hconstructs
  refine hquiet (List.any_eq_true.mpr ⟨f, hf, ?_⟩)
  rw [Option.mem_def.mp he]
  exact hconstructs

/-- The initializers of a class construct nothing, or there is one recursion less left. -/
theorem settleOn_initializers (hcalls : ∀ installs, CallsSettle bound calls installs)
    (hinner : ∀ {m : Machine} {context : Context} {e : Expr}, m.IsTidy →
      m.HasLeft bound calls installs → m.Suits context.frame → (Part.expr e).All Part.IsPlain →
      Settles bound (fun self => self.eval context e) m)
    {d : Class} (hcode : ∀ p, (Terms.initializersOf d).code p → p.All Part.IsPlain) :
    (Terms.initializersOf d).SettleOn bound
      (Machine.HasLeft bound calls (if d.recurs then installs else installs + 1)) where
  eval {m context e} hm hleft hc he := by
    -- a class that constructs in its initializers has one installation fewer left
    by_cases hrecurs : d.recurs = true
    · rw [if_pos hrecurs] at hleft
      exact hinner hm hleft hc.toSuits (hcode _ he)
    · exact settles_part False (hcalls _) (fun h => h.elim) (.expr e) (hcode _ he)
        (fun h => constructs_initializer he hrecurs h) hm hleft hc.toSuits hc.works
  exec _ _ _ hs := by
    obtain ⟨f, hf, e, he, heq⟩ := hs
    cases heq
  invoke := hcalls _

/-- Storing the members of a class for an instance is built from calls and initializers. -/
theorem built_storeMembers (hm : m.IsTidy) {c : ClassRef} (hc : c.index < m.world.classes.size)
    {inst : ObjectId} (ho : inst.index < m.world.objects.size)
    (hext : m.Extends (startInstall c inst m)) (held : List Node) :
    Built (.initializersOf (m.world.classAt c)) (Primitive (.initializersOf (m.world.classAt c)))
      (fun self => do
        storeMethods c inst (m.world.registerInstance (m.world.classAt c).token inst).1
          (m.world.classAt c).privateMethods
        storeFields self (initializerContext held c (m.world.classAt c) (.object inst)) c inst
          (m.world.registerInstance (m.world.classAt c).token inst).1 (m.world.classAt c).fields)
      (startInstall c inst m) fun _ _ => True := by
  have hd := hm.world.classAt hc
  have hmay : MayInstall (.initializersOf (m.world.classAt c)) m.world c :=
    ⟨hc, trivial, fun f hf e he => ⟨f, hf, e, he, rfl⟩, Nat.zero_le _⟩
  have htoken : (m.world.classAt c).token.index < m.world.tokens.size := by
    rw [hd.token, ← hm.settled]
    exact hc
  -- the members are stored in the table that was just registered for the instance
  have hreach : (Terms.initializersOf (m.world.classAt c)).Reaches (startInstall c inst m).world
      (m.world.registerInstance (m.world.classAt c).token inst).1 := by
    refine Terms.reaches_instance (t := (m.world.classAt c).token) (o := inst) trivial ?_
    change (m.world.registerInstance (m.world.classAt c).token inst).2.lookupInstance? _ inst = _
    rw [World.lookupInstance?_registerInstance hm.world.registry htoken ho, if_pos ⟨rfl, rfl⟩]
  refine .bind (built_storeMethods c inst hreach _ fun x hx => ?_) fun _ m₁ _ hext₁ _ => ?_
  · exact (hd.methods x hx).extends hext.world
  · have hframe := (suits_initializer hm hmay held inst).extends (hext.trans hext₁)
    exact built_storeFields hframe c inst (hreach.extends hext₁.world) _ hmay.fields

/-- **Installations settle** if calls do, and whatever may be evaluated with one recursion less. -/
theorem settles_installPrivate (hcalls : ∀ installs, CallsSettle bound calls installs)
    (hinner : ∀ {m : Machine} {context : Context} {e : Expr}, m.IsTidy →
      m.HasLeft bound calls installs → m.Suits context.frame → (Part.expr e).All Part.IsPlain →
      Settles bound (fun self => self.eval context e) m)
    (hm : m.IsTidy) (hleft : m.HasLeft bound calls (installs + 1)) (held : List Node) {c : ClassRef}
    {inst : ObjectId} (hc : c.index < m.world.classes.size)
    (ho : inst.index < m.world.objects.size) :
    Settles bound (fun self => installPrivate self held c inst) m := by
  let table := (m.world.registerInstance (m.world.classAt c).token inst).1
  have htoken : (m.world.classAt c).token.index < m.world.tokens.size := by
    rw [(hm.world.classAt hc).token, ← hm.settled]
    exact hc
  -- the machine on which the members are stored
  obtain ⟨hm₁, hext₁⟩ := hm.alter (hm.world.registerInstance htoken ho)
    (World.classes_registerInstance _ _ _) (World.tokenCount_registerInstance _ _ _)
  obtain ⟨hm₂, hext₂⟩ := hm₁.note (.installing c inst)
  have hext : m.Extends (startInstall c inst m) := hext₁.trans hext₂
  have hcode : ∀ p, (Terms.initializersOf (m.world.classAt c)).code p → p.All Part.IsPlain := by
    rintro p ⟨f, hf, e, he, rfl⟩
    exact hleft.madeOf.initializer hf he
  have hs := settleOn_initializers hcalls hinner hcode
  have hstores := (built_storeMembers hm hc ho hext (.table table :: held)).settles (fun h => h)
    hcode hs (fun hx hm k => hx.keeps (keeps_evaluator k) hm)
    (fun hx hm k => hx.proceeds hcode (proceeds_evaluator _ k) hm)
    (fun hx hm hleft => hx.settles hs hm hleft) hm₂ (hasLeft_startInstall inst hleft)
  have hstore : Settles bound (fun self => storePrivate self held c inst) m :=
    hstores.congr fun _ => rfl
  exact hstore.bind fun _ _ _ _ => settles_of_ok fun _ => rfl

/-! ### Constructions -/

/-- **Constructions settle** if calls and installations do. -/
theorem constructionsSettle_of_installs (hcalls : CallsSettle bound calls installs)
    (hinstall : ∀ {m : Machine} (held : List Node) {c : ClassRef} {inst : ObjectId}, m.IsTidy →
      m.HasLeft bound calls installs → c.index < m.world.classes.size →
      inst.index < m.world.objects.size →
      Settles bound (fun self => installPrivate self held c inst) m) :
    ConstructionsSettle bound calls installs := by
  -- a construction evaluates nothing itself: it installs, and it calls constructors
  have hsilent : Terms.silent.SettleOn bound (Machine.HasLeft bound calls installs) :=
    { eval := fun _ _ _ h => h.elim
      exec := fun _ _ _ h => h.elim
      invoke := hcalls }
  have hcode : ∀ p, Terms.silent.code p → p.All Part.IsPlain := fun _ h => h.elim
  have hbuilt : ∀ {α : Type} {x : Evaluator → Eval α} {m : Machine} {q : α → Machine → Prop},
      Built .silent (Installing .silent) x m q → m.IsTidy → m.HasLeft bound calls installs →
        Settles bound x m := by
    intro α x m q hx hm hleft
    refine hx.settles (fun h => h) hcode hsilent
      (fun hx hm k => hx.keeps (keeps_evaluator k) hm)
      (fun hx hm k => hx.proceeds hcode (keeps_evaluator k) (proceeds_evaluator _ k) hm)
      (fun hx hm hleft => ?_) hm hleft
    -- an installation settles as it was asked to, and so does any other primitive
    cases hx with
    | primitive h => exact h.settles hsilent hm hleft
    | install held hc ho => exact hinstall held hm hleft hc ho
  have hs := installs_installing (R := .silent) fun _ => trivial
  exact
    { construct := fun held hm hleft hclass hargs => hbuilt (built_construct hs (fun _ => trivial)
        hm held hargs fun _ hd => hm.world.lt_of_mem_classChain hclass hd) hm hleft
      superCall := fun hm hleft hc hargs => hbuilt (built_superCall hs (fun _ => trivial) hm
        ⟨hc, fun _ _ => trivial, fun _ _ => trivial, Nat.zero_le _⟩ hargs fun id hid _ hd =>
          hm.world.lt_of_mem_classChain (hm.constructions id (hc.construction id hid)).1 hd) hm
            hleft }

/-- Where the bound is exceeded, constructions settle. -/
theorem constructionsSettle_zero (bound calls : ℕ) : ConstructionsSettle bound calls 0 where
  construct held hm hleft hclass hargs :=
    settles_of_exceeding (built_construct installs_primitive (fun _ => trivial) hm held hargs
      fun _ hd => mayInstall_anything (hm.world.lt_of_mem_classChain hclass hd)) hm hleft.installs
  superCall hm hleft hc hargs :=
    settles_of_exceeding (supports_primitive.superCall hm (Terms.suits_anything hc) hargs) hm
      hleft.installs

/-- Constructions settle if calls do, by induction on the recursions that are left. -/
theorem constructionsSettle (hcalls : ∀ installs, CallsSettle bound calls installs)
    (installs : ℕ) : ConstructionsSettle bound calls installs := by
  induction installs with
  | zero => exact constructionsSettle_zero bound calls
  | succ installs ih =>
    refine constructionsSettle_of_installs (hcalls _) fun held _ _ hm hleft hc ho => ?_
    refine settles_installPrivate hcalls (fun {m context e} hm hleft hc he => ?_) hm hleft held hc
      ho
    exact settles_part True (hcalls installs) (fun _ => ih) (.expr e) he (fun _ => trivial) hm hleft
      hc fun _ _ => trivial

/-! ### Calls -/

/-- Anything but loops settles if calls do. -/
theorem settleOn_plain (hcalls : ∀ installs, CallsSettle bound calls installs) (installs : ℕ) :
    Terms.plain.SettleOn bound (Machine.HasLeft bound calls installs) := by
  have hconstructions := constructionsSettle hcalls installs
  exact
    { eval := fun {m context e} hm hleft hc he => settles_part True (hcalls installs)
        (fun _ => hconstructions) (.expr e) he (fun _ => trivial) hm hleft hc.toSuits
        fun _ _ => trivial
      exec := fun {m context s} hm hleft hc hs => settles_part True (hcalls installs)
        (fun _ => hconstructions) (.stmt s) hs (fun _ => trivial) hm hleft hc.toSuits
        fun _ _ => trivial
      invoke := hcalls installs }

theorem supports_plain : Supports .plain (Whole .plain) := by
  refine supports_whole (fun p hp => ?_) fun _ _ => trivial
  refine ⟨fun q hq => hp.part hq, fun hloop => ?_, fun _ => trivial⟩
  rw [hp.self] at hloop
  cases hloop

theorem Built.settles_plain (h : Built .plain (Whole .plain) x m q)
    (hcalls : ∀ installs, CallsSettle bound calls installs) (hm : m.IsTidy)
    (hleft : m.HasLeft bound calls installs) : Settles bound x m :=
  h.settles_whole (fun h => h) (fun _ h => h) (settleOn_plain hcalls installs)
    (fun _ => constructionsSettle hcalls installs) (fun _ _ => constructionsSettle hcalls installs)
    hm hleft

/-- Calls that are refused settle. -/
theorem settles_refused (held : List Node) (f : FunctionRef) (this : Value) (args : List Value)
    (construction : Option ConstructionId) (hdepth : m.maxDepth ≤ m.depth) :
    Settles bound (fun self => invoke self held f this args construction) m := by
  have hrefused : ∀ self, invoke self held f this args construction m =
      .error (.raised .callDepth) { m with journal := .refused f :: m.journal } := by
    intro self
    obtain ⟨-, hrun⟩ | ⟨hlt, -⟩ := invoke_cases self held f this args construction m
    · exact hrun
    · exact absurd hdepth (Nat.not_le_of_lt hlt)
  exact settles_of_error hrefused fun h => nomatch h

/-- **Calls settle**, by induction on how many may be begun inside each other. -/
theorem callsSettle (bound calls installs : ℕ) : CallsSettle bound calls installs := by
  induction calls generalizing installs with
  -- with no call left, the limit is reached and the call refused
  | zero =>
    intro m this args construction held f hm hleft _ _ _
    exact (settles_refused held f this args construction hleft.calls).step fun _ => rfl
  | succ calls ih =>
    intro m this args construction held f hm hleft hthis hargs hconstruction
    refine Settles.step (x := fun self => invoke self held f this args construction) ?_ fun _ => rfl
    by_cases hdepth : m.maxDepth ≤ m.depth
    · exact settles_refused held f this args construction hdepth
    · -- the function runs with one call less left
      have henter : (enter f this m).HasLeft bound calls installs :=
        ⟨hleft.madeOf.of_eq rfl rfl, by
          change m.maxDepth ≤ m.depth + 1 + calls
          have := hleft.calls
          omega, hleft.installs⟩
      have hbody := (built_called supports_plain hm held f hthis hargs
        (fun id hid => ⟨hconstruction id hid, trivial⟩) (fun c hc =>
          ⟨fun _ _ => trivial, (hleft.madeOf.functions f.index c hc).body⟩)
        (Nat.zero_le _)).settles_plain ih (tidy_enter hm f this).1 henter
      refine (hbody.thenAlways (g := leave f) fun _ => rfl).congr fun self => ?_
      -- it is not refused, and so it is the body between `enter` and `leave`
      obtain ⟨hle, -⟩ | ⟨-, hrun⟩ := invoke_cases self held f this args construction m
      · exact absurd hle hdepth
      · exact hrun

end Eval

end Enclave
