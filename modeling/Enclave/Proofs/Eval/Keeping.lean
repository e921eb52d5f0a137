import Enclave.Proofs.Eval.Access
import Enclave.Proofs.Eval.MakingClasses
import Enclave.Proofs.Eval.Primitive

/-!
# Evaluation keeps machines tidy

Whatever is evaluated on a tidy machine leaves a tidy machine that extends it, also if it fails or
runs out of steps, and gives a value that may be passed (`keeps_evaluator`). In particular no
constructor is ever given out. Pieces that are built keep machines tidy if the evaluator does that
they leave their parts to (`Built.keeps`); the rest is induction on the number of steps.
-/

namespace Enclave.Eval

variable {α β : Type} {R : Terms} {own : Pieces} {m : Machine} {x : Eval α} {f : α → Eval β}

/-! ### How a piece ends -/

/-- A piece that gives a value ends as `q` says, and one that stops as `s` says. -/
def Ends (x : Eval α) (m : Machine) (q : α → Machine → Prop) (s : Stop → Machine → Prop) : Prop :=
  match x m with
  | .ok a m' => q a m'
  | .error stop m' => s stop m'

section Ends

variable {p q : α → Machine → Prop} {r : β → Machine → Prop} {s t : Stop → Machine → Prop}

/-- In sequence: the rest starts where the first piece left off, with its value. -/
theorem Ends.bind (hx : Ends x m p s) (hf : ∀ a m', p a m' → Ends (f a) m' r s) :
    Ends (x >>= f) m r s := by
  change match EStateM.bind x f m with
    | .ok _ _ => _
    | .error _ _ => _
  unfold EStateM.bind
  unfold Ends at hx
  -- The first piece gives a value, or what it stopped with is what the whole stops with.
  cases hrun : x m with
  | ok a m' =>
    rw [hrun] at hx
    exact hf a m' hx
  | error stop m' =>
    rw [hrun] at hx
    exact hx

/-- What is said of the two ways to end may be weakened. -/
theorem Ends.imp (hx : Ends x m p s) (hq : ∀ a m', p a m' → q a m')
    (hs : ∀ stop m', s stop m' → t stop m') : Ends x m q t := by
  unfold Ends at hx ⊢
  cases hrun : x m with
  | ok a m' =>
    rw [hrun] at hx
    exact hq a m' hx
  | error stop m' =>
    rw [hrun] at hx
    exact hs stop m' hx

/-- A piece that gave a value ends as was said of values. -/
theorem Ends.of_ok (hx : Ends x m q s) {a : α} {m' : Machine} (h : x m = .ok a m') : q a m' := by
  unfold Ends at hx
  rwa [h] at hx

/-- Behind a piece whose errors are caught, an error that was raised is a value, and any other stop
remains one. -/
theorem Ends.catching (hx : Ends x m p s) :
    Ends (catching x) m
      (fun result m' => match result with
        | .ok a => p a m'
        | .error e => s (.raised e) m') s := by
  unfold Ends at hx ⊢
  unfold Eval.catching
  cases hrun : x m with
  | ok a m' =>
    rw [hrun] at hx
    exact hx
  | error stop m' =>
    rw [hrun] at hx
    -- Only what was raised is caught.
    cases stop <;> exact hx

/-- A change made whatever happens is made behind a value and behind a stop. -/
theorem Ends.thenAlways {change : Machine → Machine} (hx : Ends x m p s)
    (hq : ∀ a m', p a m' → q a (change m')) (hs : ∀ stop m', s stop m' → t stop (change m')) :
    Ends (thenAlways x change) m q t := by
  unfold Ends at hx ⊢
  unfold Eval.thenAlways
  -- The change comes after either way to end.
  cases hrun : x m with
  | ok a m' =>
    rw [hrun] at hx
    exact hq a m' hx
  | error stop m' =>
    rw [hrun] at hx
    exact hs stop m' hx

/-- Loops end as their rounds do. -/
theorem Ends.repeatRounds {round : Eval (Option Flow)} {i : Machine → Prop}
    {q : Flow → Machine → Prop} {s : Stop → Machine → Prop}
    (hround : ∀ m, i m → Ends round m (fun flow? m' => match flow? with
      | some (.returned v) => q (.returned v) m'
      | some .normal => i m'
      | none => q .normal m') s)
    (hexhausted : ∀ m, i m → s .exhausted m) (rounds : ℕ) (hm : i m) :
    Ends (repeatRounds round rounds) m q s := by
  -- `i` holds before each round, and a round that ends normally leaves it to the next
  induction rounds generalizing m with
  | zero => exact hexhausted m hm
  | succ rounds ih =>
    refine (hround m hm).bind fun flow? m' hflow => ?_
    match flow? with
    | none => exact hflow
    | some (.returned v) => exact hflow
    | some .normal => exact ih hflow

end Ends

/-! ### Keeping machines tidy -/

/-- The machine that a piece leaves is tidy and extends the one before. -/
def Keeps (x : Eval α) (m : Machine) (q : α → Machine → Prop) : Prop :=
  Ends x m (fun a m' => m'.IsTidy ∧ m.Extends m' ∧ q a m')
    fun stop m' => m'.IsTidy ∧ m.Extends m' ∧ ∀ e, stop = .raised e → Caught m' e

section Keeps

variable {p q : α → Machine → Prop} {r : β → Machine → Prop}

/-- A piece that gives a value keeps machines tidy when the machine it leaves is tidy. -/
theorem keeps_of_ok {a : α} {m' : Machine} (hrun : x m = .ok a m')
    (h : m'.IsTidy ∧ m.Extends m') (ha : q a m') : Keeps x m q := by
  unfold Keeps Ends
  rw [hrun]
  exact ⟨h.1, h.2, ha⟩

/-- A piece that stops keeps machines tidy when the machine it leaves is tidy and what it raised may
be caught. -/
theorem keeps_of_error {stop : Stop} {m' : Machine} (hrun : x m = .error stop m')
    (h : m'.IsTidy ∧ m.Extends m') (hstop : ∀ e, stop = .raised e → Caught m' e) :
    Keeps x m q := by
  unfold Keeps Ends
  rw [hrun]
  exact ⟨h.1, h.2, hstop⟩

/-- A value at hand changes nothing. -/
theorem Keeps.pure (hm : m.IsTidy) {a : α} (h : q a m) : Keeps (pure a) m q :=
  ⟨hm, .refl m, h⟩

/-- In sequence: the rest starts on a tidy machine that extends the first. -/
theorem Keeps.bind (hx : Keeps x m p)
    (hf : ∀ a m', m'.IsTidy → m.Extends m' → p a m' → Keeps (f a) m' r) :
    Keeps (x >>= f) m r := by
  refine Ends.bind hx ?_
  rintro a m₁ ⟨hm₁, hext₁, ha⟩
  refine (hf a m₁ hm₁ hext₁ ha).imp ?_ ?_
  · rintro b m₂ ⟨hm₂, hext₂, hb⟩
    exact ⟨hm₂, hext₁.trans hext₂, hb⟩
  · rintro stop m₂ ⟨hm₂, hext₂, hstop⟩
    exact ⟨hm₂, hext₁.trans hext₂, hstop⟩

/-- What is said of the value may be weakened, on tidy extensions. -/
theorem Keeps.imp (hx : Keeps x m p)
    (h : ∀ a m', m'.IsTidy → m.Extends m' → p a m' → q a m') : Keeps x m q :=
  Ends.imp hx (fun a m' ⟨hm', hext, ha⟩ => ⟨hm', hext, h a m' hm' hext ha⟩) fun _ _ h => h

/-- Raising an error that may be caught changes nothing. -/
theorem keeps_raise (hm : m.IsTidy) {e : RuntimeError} (he : Caught m e) :
    Keeps (raise e : Eval α) m q :=
  ⟨hm, .refl m, fun _ h => by cases h; exact he⟩

/-- Stopping without an error changes nothing. -/
theorem keeps_stop (hm : m.IsTidy) {stop : Stop} (h : ∀ e, stop ≠ .raised e) :
    Keeps (throw stop : Eval α) m q :=
  ⟨hm, .refl m, fun e he => absurd he (h e)⟩

/-- A change of a machine to a tidy extension keeps machines tidy. -/
theorem keeps_modify {g : Machine → Machine} (h : (g m).IsTidy ∧ m.Extends (g m)) :
    Keeps (modify g) m fun _ m' => m' = g m :=
  ⟨h.1, h.2, rfl⟩

/-- Changing the world, without tokens or classes being made. -/
theorem keeps_changeWorld (hm : m.IsTidy) {g : World → World}
    (h : (g m.world).IsTidy ∧ m.world.Extends (g m.world))
    (hclasses : (g m.world).classes = m.world.classes)
    (htokens : (g m.world).tokens.size = m.world.tokens.size) :
    Keeps (changeWorld g) m fun _ m' => m' = { m with world := g m.world } :=
  keeps_modify (g := fun m => { m with world := g m.world }) (hm.alter h hclasses htokens)

/-- A change of the world to a tidy extension keeps machines tidy. -/
theorem keeps_onWorld (hm : m.IsTidy) {g : World → α × World}
    (h : (g m.world).2.IsTidy ∧ m.world.Extends (g m.world).2)
    (hclasses : (g m.world).2.classes = m.world.classes)
    (htokens : (g m.world).2.tokens.size = m.world.tokens.size) :
    Keeps (onWorld g) m fun a m' =>
      a = (g m.world).1 ∧ m' = { m with world := (g m.world).2 } := by
  obtain ⟨htidy, hext⟩ := hm.alter h hclasses htokens
  exact ⟨htidy, hext, rfl, rfl⟩

end Keeps

/-! ### Single operations -/

/-- A token that is asked for the table of a value gives the one that it keeps, or raises an error.
-/
theorem instanceTable_cases (t : TokenId) (target : Value) (m : Machine) :
    (∃ o table, target = .object o ∧ m.world.lookupInstance? t o = some table ∧
      instanceTable t target m =
        .ok table { m with journal := .resolved t target :: m.journal }) ∨
    instanceTable t target m = .error (.raised (.privateAccess (m.world.tokenAt t).name target))
      { m with journal := .rejected t target :: m.journal } := by
  cases target with
  | object o =>
    cases hlookup : m.world.lookupInstance? t o with
    | some table => exact Or.inl ⟨o, table, rfl, hlookup, instanceTable_of_some hlookup⟩
    | none => exact Or.inr (instanceTable_of_none hlookup)
  | _ => exact Or.inr rfl

/-- Asking for the class of a function gives the class or undefined, and changes nothing. -/
theorem classValue_eq (context : Context) (home : Home) (m : Machine) :
    classValue context home m =
      .ok (if holdsItself m.world home.classRef || m.world.isAlive context.nodes home.classRef.node
        then .class home.classRef else .undefined) m := by
  change (if _ then Pure.pure (Value.class home.classRef)
    else Pure.pure Value.undefined : Eval Value) m = _
  split <;> rfl

/-- Making an object keeps machines tidy and gives one that was made. -/
theorem keeps_newObject (hm : m.IsTidy) (proto : Option ObjectId) :
    Keeps (onWorld fun w => w.newObject proto) m fun o m' =>
      o.index < m'.world.objects.size := by
  refine (keeps_onWorld (g := fun w => w.newObject proto) hm (hm.world.newObject proto) rfl
    rfl).imp ?_
  rintro o m' - - ⟨rfl, rfl⟩
  change m.world.objects.size < (m.world.objects.push _).size
  rw [Array.size_push]
  exact Nat.lt_succ_self _

/-- Making a function keeps machines tidy and gives one that may be passed. -/
theorem keeps_makeFunction (hm : m.IsTidy) (unit : CompiledUnit) (definition : FunctionDef)
    (scope : ScopeId) {home : Option Home} (hhome : ∀ h ∈ home, m.world.IsHome h) :
    Keeps (makeFunction unit definition scope home) m
      fun f m' => m'.world.Passes (.function f) := by
  have hf : ∀ c, Function.script ⟨unit, definition, scope, home⟩ = .script c →
      ∀ h ∈ c.home, m.world.IsHome h := fun c hc h hh => by
    cases hc
    exact hhome h hh
  refine (keeps_onWorld (g := fun w => w.newFunction (definition.name.getD "")
    (.script ⟨unit, definition, scope, home⟩)) hm (hm.world.newFunction _ hf) rfl rfl).imp ?_
  rintro f m' - - ⟨rfl, rfl⟩
  exact hm.world.passes_newFunction _ _

/-- The class of a home there is, so it may be passed; else the value is undefined. -/
theorem keeps_classValue (hm : m.IsTidy) (context : Context) {home : Home}
    (hhome : m.world.IsHome home) :
    Keeps (classValue context home) m fun v m' => m'.world.Passes v := by
  refine keeps_of_ok (classValue_eq context home m) ⟨hm, .refl m⟩ ?_
  split
  · change home.classRef.index < m.world.classes.size
    rw [hhome.classRef, hm.settled]
    exact hhome.minted
  · exact World.passes_undefined _

/-- **Atoms keep the machine tidy**, and what they give may be passed. -/
theorem Atom.keeps {q : α → Machine → Prop} (h : Atom R m x q) (hm : m.IsTidy) :
    Keeps x m q := by
  -- most atoms change a property, a slot or a name, and make no class and no token
  cases h with
  | declare s name isMutable hv =>
    exact (keeps_changeWorld hm (hm.world.declare s name hv isMutable) rfl rfl).imp
      fun _ _ _ _ _ => trivial
  | setProperty o key hv =>
    exact (keeps_changeWorld hm (hm.world.setProperty o key hv) rfl rfl).imp
      fun _ _ _ _ _ => trivial
  | deleteProperty o key =>
    exact (keeps_changeWorld hm (hm.world.deleteProperty o key) rfl rfl).imp
      fun _ _ _ _ _ => trivial
  | setSlot ht key hv =>
    exact (keeps_changeWorld hm (hm.world.setSlot _ key hv) rfl rfl).imp fun _ _ _ _ _ => trivial
  | deleteSlot ht key =>
    exact (keeps_changeWorld hm (hm.world.deleteSlot _ key) rfl rfl).imp fun _ _ _ _ _ => trivial
  | newObject proto => exact keeps_newObject hm proto
  | childScope parent =>
    exact (keeps_onWorld (g := fun w => w.childScope parent) hm (hm.world.childScope parent) rfl
      rfl).imp fun _ _ _ _ _ => trivial
  | newSymbol description =>
    exact (keeps_onWorld (g := fun w => w.newSymbol description) hm (hm.world.newSymbol description)
      rfl rfl).imp fun _ _ _ _ _ => trivial
  | @makeFunction unit definition scope home hcode hhome =>
    exact keeps_makeFunction hm unit definition scope fun h hh => (hhome h hh).toIsHome
  | callFunction => exact ⟨hm, .refl m, hm.callFunction⟩
  | @instanceTable t hmay target =>
    -- found or rejected, either of which is noted in the journal
    obtain ⟨o, table, rfl, hlookup, hrun⟩ | hrun := instanceTable_cases t target m
    · refine keeps_of_ok hrun (hm.note _) ?_
      exact Terms.reaches_instance hmay hlookup
    · exact keeps_of_error hrun (hm.note _) fun e he v hv => by cases he; cases hv
  | @classValue context home hc hhome => exact keeps_classValue hm context (hc.home home hhome)
  | print args =>
    obtain ⟨htidy, hext⟩ := hm.count m.depth
      (m.output ++ " ".intercalate (args.map Value.text) ++ "\n")
    exact ⟨htidy, hext, trivial⟩

end Enclave.Eval

namespace Enclave

/-- An evaluator that keeps machines tidy, whatever it is given to evaluate. -/
structure Evaluator.Keeps (parts : Evaluator) : Prop where
  eval : ∀ {m : Machine} {context : Context} (e : Expr), m.IsTidy → m.Suits context.frame →
    Eval.Keeps (parts.eval context e) m Eval.Gives
  exec : ∀ {m : Machine} {context : Context} (s : Stmt), m.IsTidy → m.Suits context.frame →
    Eval.Keeps (parts.exec context s) m Eval.Returns
  invoke : ∀ {m : Machine} {this : Value} {args : List Value} {construction : Option ConstructionId}
    (held : List Node) (f : FunctionRef), m.IsTidy → m.world.Passes this →
    (∀ v ∈ args, m.world.Passes v) → (∀ id ∈ construction, id.index < m.constructions.size) →
    Eval.Keeps (parts.invoke held f this args construction) m Eval.Gives

namespace Eval

variable {α : Type} {R : Terms} {own : Pieces} {m : Machine} {self : Evaluator}

/-! ### Pieces -/

/-- A loop keeps machines tidy when each of its rounds does. -/
theorem keeps_repeatRounds {round : Eval (Option Flow)} (hm : m.IsTidy)
    (hround : ∀ m', m'.IsTidy → m.Extends m' →
      Keeps round m' fun flow? m'' => ∀ flow ∈ flow?, Returns flow m'') (rounds : ℕ) :
    Keeps (repeatRounds round rounds) m Returns := by
  -- before each round the machine is tidy, and has grown from `m`
  refine Ends.repeatRounds (i := fun m' => m'.IsTidy ∧ m.Extends m') (fun m₁ ⟨hm₁, hext₁⟩ => ?_)
    (fun m₁ ⟨hm₁, hext₁⟩ => ⟨hm₁, hext₁, fun _ h => nomatch h⟩) rounds ⟨hm, .refl m⟩
  refine Ends.imp (hround m₁ hm₁ hext₁) ?_ ?_
  · rintro flow? m₂ ⟨hm₂, hext₂, hflow⟩
    match flow? with
    | none => exact ⟨hm₂, hext₁.trans hext₂, fun _ h => nomatch h⟩
    | some (.returned v) => exact ⟨hm₂, hext₁.trans hext₂, hflow _ rfl⟩
    | some .normal => exact ⟨hm₂, hext₁.trans hext₂⟩
  · rintro stop m₂ ⟨hm₂, hext₂, hstop⟩
    exact ⟨hm₂, hext₁.trans hext₂, hstop⟩

/-- **Pieces keep machines tidy** if the evaluator of the parts does. -/
theorem Built.keeps {x : Evaluator → Eval α} {q : α → Machine → Prop} (h : Built R own x m q)
    (hself : self.Keeps)
    (hown : ∀ {α : Type} {x : Evaluator → Eval α} {m : Machine} {q : α → Machine → Prop},
      own α x m q → m.IsTidy → Keeps (x self) m q)
    (hm : m.IsTidy) : Keeps (x self) m q := by
  -- on how it is built: each part starts from the machine that the one before it left tidy
  induction h with
  | pure h => exact Keeps.pure hm h
  | raise he => exact keeps_raise hm he
  | broken f => exact keeps_stop hm fun _ h => nomatch h
  | atom h => exact h.keeps hm
  | world hblind _ ih => exact ih hm
  | table k ht _ ih => exact ih hm
  | bind _ _ ihx ihf =>
    exact (ihx hm).bind fun a m' hm' hext ha => ihf a m' hm' hext ha hm'
  | weaken _ hq ih => exact (ih hm).imp hq
  | catching _ ih =>
    refine Ends.imp (Ends.catching (ih hm)) (fun result m' hresult => ?_) fun _ _ h => h
    -- caught, what was thrown is a value like any other
    cases result with
    | ok a => exact hresult
    | error e => exact ⟨hresult.1, hresult.2.1, hresult.2.2 e rfl⟩
  | eval hc _ => exact hself.eval _ hm hc.toSuits
  | exec hc _ => exact hself.exec _ hm hc.toSuits
  | invoke held hf hthis hargs => exact hself.invoke held _ hm hthis hargs fun _ h => nomatch h
  | rounds _ _ ih => exact keeps_repeatRounds hm (fun m' hm' hext => ih m' hm' hext hm') self.rounds
  | own h => exact hown h hm

/-- A primitive keeps machines tidy if the evaluator it is given does. -/
theorem Primitive.keeps {x : Evaluator → Eval α} {q : α → Machine → Prop}
    (h : Primitive R α x m q) (hself : self.Keeps) (hm : m.IsTidy) : Keeps (x self) m q := by
  cases h with
  | record e he => exact ⟨(hm.note e).1, (hm.note e).2, trivial⟩
  | @register _ t o ht hmay ho =>
    obtain ⟨hw, hext⟩ := hm.world.registerInstance ht ho
    refine (keeps_onWorld (g := fun w => w.registerInstance t o) hm ⟨hw, hext⟩
      (World.classes_registerInstance _ _ _) (World.tokenCount_registerInstance _ _ _)).imp ?_
    rintro table m' - - ⟨rfl, rfl⟩
    refine Terms.reaches_instance (o := o) hmay ?_
    -- the table just registered is the one looked up for the object
    rw [World.lookupInstance?_registerInstance hm.world.registry ht ho, if_pos ⟨rfl, rfl⟩]
  | @newConstruction _ c o hc ho =>
    obtain ⟨hkept, hext⟩ := hm.newConstruction hc ho
    refine ⟨hkept, hext, ?_⟩
    change m.constructions.size < (m.constructions.push _).size
    rw [Array.size_push]
    exact Nat.lt_succ_self _
  | constructionAt id => exact ⟨hm, .refl m, rfl⟩
  | markSuperCalled id => exact ⟨(hm.callSuper id).1, (hm.callSuper id).2, trivial⟩
  | invoke held f hthis hargs hconstruction =>
    exact hself.invoke held f hm hthis hargs fun id hid => (hconstruction id hid).1
  | @makeClass _ context c parent hm' hc hparent hmay hcode =>
    -- a class is only made, never refused, and its token is the next one
    obtain ⟨parts, m', hrun, hmade⟩ := makeClass_made hm context c hparent
    refine keeps_of_ok hrun ⟨hmade.tidy, hmade.extends_⟩ ⟨hmade.unit, ⟨hmade.home, ?_⟩, ?_⟩
    · rw [hmade.token]
      exact hmay
    · refine ⟨.token parts.home.token, ?_, hmade.statics⟩
      change R.may parts.home.token
      rw [hmade.token]
      exact hmay

/-- What is built without restrictions keeps machines tidy. -/
theorem Built.keeps_anything {x : Evaluator → Eval α} {q : α → Machine → Prop}
    (h : Built .anything (Primitive .anything) x m q) (hself : self.Keeps) (hm : m.IsTidy) :
    Keeps (x self) m q :=
  h.keeps hself (fun hx hm => hx.keeps hself hm) hm

/-! ### Calls -/

/-- A call is refused, or the function runs on the machine that the call entered. -/
theorem invoke_cases (self : Evaluator) (held : List Node) (f : FunctionRef) (this : Value)
    (args : List Value) (construction : Option ConstructionId) (m : Machine) :
    (m.maxDepth ≤ m.depth ∧ invoke self held f this args construction m =
      .error (.raised .callDepth) { m with journal := .refused f :: m.journal }) ∨
    (m.depth < m.maxDepth ∧ invoke self held f this args construction m =
      thenAlways (runFunction self held (m.world.functionAt f) this args construction) (leave f)
        (enter f this m)) := by
  -- The depth is compared before anything is entered.
  by_cases hdepth : m.maxDepth ≤ m.depth
  · refine Or.inl ⟨hdepth, ?_⟩
    change (if m.maxDepth ≤ m.depth then _ else _ : Eval Value) m = _
    rw [if_pos hdepth]
    rfl
  · refine Or.inr ⟨Nat.lt_of_not_le hdepth, ?_⟩
    change (if m.maxDepth ≤ m.depth then _ else _ : Eval Value) m = _
    rw [if_neg hdepth]
    rfl

/-- Entering a function leaves a tidy machine tidy. -/
theorem tidy_enter (hm : m.IsTidy) (f : FunctionRef) (this : Value) :
    (enter f this m).IsTidy ∧ m.Extends (enter f this m) :=
  hm.next hm.world (.refl _) hm.settled rfl rfl rfl (List.suffix_cons _ _)

/-- Leaving a function leaves a tidy machine tidy. -/
theorem tidy_leave (hm : m.IsTidy) (f : FunctionRef) :
    (leave f m).IsTidy ∧ m.Extends (leave f m) :=
  hm.next hm.world (.refl _) hm.settled rfl rfl rfl (List.suffix_cons _ _)

/-- What runs in a call is built, if the function may run. -/
theorem built_called (hs : Supports R own) (hm : m.IsTidy) (held : List Node) (f : FunctionRef)
    {this : Value} {args : List Value} {construction : Option ConstructionId}
    (hthis : m.world.Passes this) (hargs : ∀ v ∈ args, m.world.Passes v)
    (hconstruction : ∀ id ∈ construction, id.index < m.constructions.size ∧ R.works id)
    (hmay : ∀ c, m.world.functionAt f = .script c →
      (∀ h ∈ c.home, R.may h.token) ∧ ∀ s ∈ c.definition.body, R.code (.stmt s))
    (hminted : R.minted ≤ m.world.tokens.size) :
    Built R own (fun self => runFunction self held (m.world.functionAt f) this args construction)
      (enter f this m) Gives := by
  have hext := (tidy_enter hm f this).2
  refine built_runFunction hs held (hthis.extends hext.world)
    (fun v hv => (hargs v hv).extends hext.world) fun c hc => ?_
  obtain ⟨hhome, hcode⟩ := hmay c hc
  -- a function found in a tidy machine has a home that fits it
  have hsuits : m.Suits ⟨c.unit, this, c.home, construction⟩ :=
    ⟨hthis, hm.world.homes f.index c hc, fun id hid => (hconstruction id hid).1⟩
  exact ⟨⟨hsuits.extends hext, hhome, fun id hid => (hconstruction id hid).2,
    hminted.trans hext.world.tokens⟩, hcode⟩

/-- What runs in a call is built from single operations. -/
theorem built_called_anything (hm : m.IsTidy) (held : List Node) (f : FunctionRef)
    {this : Value} {args : List Value} {construction : Option ConstructionId}
    (hthis : m.world.Passes this) (hargs : ∀ v ∈ args, m.world.Passes v)
    (hconstruction : ∀ id ∈ construction, id.index < m.constructions.size) :
    Built .anything (Primitive .anything)
      (fun self => runFunction self held (m.world.functionAt f) this args construction)
      (enter f this m) Gives :=
  built_called supports_primitive hm held f hthis hargs
    (fun id hid => ⟨hconstruction id hid, trivial⟩)
    (fun _ _ => ⟨fun _ _ => trivial, fun _ _ => trivial⟩) (Nat.zero_le _)

/-- A call keeps machines tidy, whether it is refused or runs. -/
theorem keeps_invoke (hself : self.Keeps) (hm : m.IsTidy) (held : List Node) (f : FunctionRef)
    {this : Value} {args : List Value} {construction : Option ConstructionId}
    (hthis : m.world.Passes this) (hargs : ∀ v ∈ args, m.world.Passes v)
    (hconstruction : ∀ id ∈ construction, id.index < m.constructions.size) :
    Keeps (invoke self held f this args construction) m Gives := by
  obtain ⟨-, hrun⟩ | ⟨-, hrun⟩ := invoke_cases self held f this args construction m
  · exact keeps_of_error hrun (hm.note _) fun e he v hv => by cases he; cases hv
  · unfold Keeps Ends
    rw [hrun]
    obtain ⟨htidy, hext⟩ := tidy_enter hm f this
    have hbody :=
      (built_called_anything hm held f hthis hargs hconstruction).keeps_anything hself htidy
    -- however the body ends, leaving it keeps the machine tidy
    refine Ends.thenAlways hbody ?_ ?_
    · rintro v m' ⟨hm', hext', hv⟩
      obtain ⟨htidy', hext''⟩ := tidy_leave hm' f
      exact ⟨htidy', (hext.trans hext').trans hext'', hv⟩
    · rintro stop m' ⟨hm', hext', hstop⟩
      obtain ⟨htidy', hext''⟩ := tidy_leave hm' f
      exact ⟨htidy', (hext.trans hext').trans hext'', hstop⟩

end Eval

/-! ### The evaluator -/

/-- **The evaluator keeps machines tidy**, whatever it evaluates and in however many steps. -/
theorem keeps_evaluator (steps : ℕ) : (evaluator steps).Keeps := by
  have hcovers : ∀ p, Terms.anything.Covers p := fun p =>
    ⟨fun _ _ => trivial, fun _ => trivial, fun _ => trivial⟩
  -- each layer is built of parts that keep machines tidy already
  induction steps with
  | zero =>
    exact
      { eval := fun _ hm _ => Eval.keeps_stop hm fun _ h => nomatch h
        exec := fun _ hm _ => Eval.keeps_stop hm fun _ h => nomatch h
        invoke := fun _ _ hm _ _ _ => Eval.keeps_stop hm fun _ h => nomatch h }
  | succ steps ih =>
    exact
      { eval := fun _ hm hc => (Eval.built_evalExpr Eval.supports_primitive hm
          (Terms.suits_anything hc) (hcovers _) fun _ => trivial).keeps_anything ih hm
        exec := fun _ hm hc => (Eval.built_execStmt Eval.supports_primitive
          (Terms.suits_anything hc) (hcovers _)).keeps_anything ih hm
        invoke := fun held f hm hthis hargs hconstruction =>
          Eval.keeps_invoke ih hm held f hthis hargs hconstruction }

end Enclave
