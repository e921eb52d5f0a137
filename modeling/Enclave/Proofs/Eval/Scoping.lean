import Enclave.Eval.Evaluator
import Enclave.Proofs.Eval.Relations
import Enclave.Proofs.Store.Nearest

/-!
# What evaluation does to scopes

Names stay bound in the scopes that bind them, whatever is evaluated. A scope that was there before
gets new bindings only from the statements that are run in it: an expression or a call declares
names in new scopes, and gives new values to variables, but not to constants. So what a scope binds
as a constant it binds until a statement is run in it, and as long as none is run in it, it binds
no other names and the same ones as constants (`World.Respects`). In particular the scope of a
class, in which no statement is run, binds the name of the class to the class
(`World.NamesClasses`).

Nothing has to be known of the machine for scopes to be respected, and so this is stated of pieces
alone (`Eval.Respects`): it passes from one piece to the next. Where all classes name themselves
they go on doing so, and evaluators that do the same there can be compared piece by piece
(`Eval.Tracks`).
-/

namespace Enclave

namespace World

/-- What the scope itself binds the name to. -/
def bound? (w : World) (s : ScopeId) (name : String) : Option Variable :=
  (w.scopes.scopeAt s).find? name

/-- Whether the scope itself binds the name, and if so, whether the name may be assigned to. -/
def mutability? (w : World) (s : ScopeId) (name : String) : Option Bool :=
  (w.bound? s name).map (·.isMutable)

/-- The class with its name. -/
def classRef (w : World) (i : ℕ) : ClassRef :=
  ⟨i, (w.tokenAt (w.classes.getD i default).token).name⟩

/-- A class with a name of its own is bound to it as a constant in its own scope. -/
structure NamesItself (w : World) (i : ℕ) : Prop where
  token : (w.classes.getD i default).token.index < w.tokens.size
  scope : (w.classes.getD i default).scope.index < w.scopes.all.size
  bound : (w.classRef i).name ≠ anonymousName →
    w.bound? (w.classes.getD i default).scope (w.classRef i).name =
      some ⟨.class (w.classRef i), false⟩

/-- Names stay bound; except in one scope, what is bound as a constant stays so, and a scope that
was there before binds the names that it bound, each of them as it did; and classes that were made
have scopes that were made, and name themselves. -/
structure Respects (but : Option ScopeId) (w w' : World) : Prop where
  scopeCount : w.scopes.all.size ≤ w'.scopes.all.size
  bound : ∀ s name, (w.bound? s name).isSome = true → (w'.bound? s name).isSome = true
  constants : ∀ s name v, but ≠ some s → w.bound? s name = some ⟨v, false⟩ →
    w'.bound? s name = some ⟨v, false⟩
  mutability : ∀ s name, but ≠ some s → s.index < w.scopes.all.size →
    w'.mutability? s name = w.mutability? s name
  tokenCount : w.tokens.size ≤ w'.tokens.size
  tokenNames : ∀ t : TokenId, t.index < w.tokens.size → (w'.tokenAt t).name = (w.tokenAt t).name
  classCount : w.classes.size ≤ w'.classes.size
  classes : ∀ i < w.classes.size, w'.classes.getD i default = w.classes.getD i default
  made : ∀ i, w.classes.size ≤ i → i < w'.classes.size →
    w.scopes.all.size ≤ (w'.classes.getD i default).scope.index ∧ w'.NamesItself i

variable {w w' w'' : World} {but : Option ScopeId} {s : ScopeId}

/-- A scope in which something is bound is there. -/
theorem lt_of_bound {name : String} {x : Variable} (h : w.bound? s name = some x) :
    s.index < w.scopes.all.size :=
  Scopes.lt_of_bound h

/-- A change that touches no scope, no class and no name of a token. -/
theorem respects_of_same (hscopes : w'.scopes = w.scopes) (hclasses : w'.classes = w.classes)
    (htokens : w'.tokens.size = w.tokens.size)
    (hnames : ∀ t : TokenId, (w'.tokenAt t).name = (w.tokenAt t).name) : w.Respects but w' where
  -- nothing that is asked for has changed
  scopeCount := by rw [hscopes]
  bound s name h := by rwa [bound?, hscopes]
  constants s name v _ h := by rwa [bound?, hscopes]
  mutability s name _ _ := by rw [mutability?, bound?, hscopes, mutability?, bound?]
  tokenCount := by rw [htokens]
  tokenNames t _ := hnames t
  classCount := by rw [hclasses]
  classes i _ := by rw [hclasses]
  made i hi hi' := by
    rw [hclasses] at hi'
    exact absurd hi' (Nat.not_lt.mpr hi)

/-- Nothing at all is changed. -/
theorem Respects.refl (but : Option ScopeId) (w : World) : w.Respects but w :=
  respects_of_same rfl rfl rfl fun _ => rfl

/-- A class that is named in its own scope stays so, as its name is a constant there. -/
theorem NamesItself.respects {i : ℕ} (h : w.NamesItself i) (hi : i < w.classes.size)
    (hbut : but ≠ some (w.classes.getD i default).scope) (hs : w.Respects but w') :
    w'.NamesItself i := by
  -- the class has the same name and token as before
  have href : w'.classRef i = w.classRef i := by
    rw [classRef, hs.classes i hi, hs.tokenNames _ h.token, classRef]
  refine ⟨?_, ?_, fun hnamed => ?_⟩
  · rw [hs.classes i hi]
    exact h.token.trans_le hs.tokenCount
  · rw [hs.classes i hi]
    exact h.scope.trans_le hs.scopeCount
  · rw [href] at hnamed ⊢
    rw [hs.classes i hi]
    exact hs.constants _ _ _ hbut (h.bound hnamed)

/-- Two such changes in a row are one, if the excepted scope was there before. -/
theorem Respects.trans (hbut : ∀ s ∈ but, s.index < w.scopes.all.size) (h : w.Respects but w')
    (h' : w'.Respects but w'') : w.Respects but w'' where
  scopeCount := h.scopeCount.trans h'.scopeCount
  bound s name hs := h'.bound s name (h.bound s name hs)
  constants s name v hs hv := h'.constants s name v hs (h.constants s name v hs hv)
  mutability s name hs hold :=
    (h'.mutability s name hs (hold.trans_le h.scopeCount)).trans (h.mutability s name hs hold)
  tokenCount := h.tokenCount.trans h'.tokenCount
  tokenNames t ht := (h'.tokenNames t (ht.trans_le h.tokenCount)).trans (h.tokenNames t ht)
  classCount := h.classCount.trans h'.classCount
  classes i hi := (h'.classes i (hi.trans_le h.classCount)).trans (h.classes i hi)
  made i hi hi' := by
    -- a class made in the first step is kept by the second; else the second made it
    rcases Nat.lt_or_ge i w'.classes.size with hmade | hnew
    · obtain ⟨hscope, hnames⟩ := h.made i hi hmade
      rw [h'.classes i hmade]
      refine ⟨hscope, hnames.respects hmade (fun heq => ?_) h'⟩
      exact absurd (hbut _ heq) (Nat.not_lt.mpr hscope)
    · obtain ⟨hscope, hnames⟩ := h'.made i hnew hi'
      exact ⟨h.scopeCount.trans hscope, hnames⟩

/-- Every class names itself, and none of them has the scope excepted for its own. -/
structure NamesClasses (but : Option ScopeId) (w : World) : Prop where
  names : ∀ i < w.classes.size, w.NamesItself i
  made : ∀ s ∈ but, s.index < w.scopes.all.size
  apart : ∀ s ∈ but, ∀ i < w.classes.size, (w.classes.getD i default).scope ≠ s

/-- Classes go on naming themselves, and those that are made name themselves too. -/
theorem NamesClasses.respects (h : w.NamesClasses but) (hs : w.Respects but w') :
    w'.NamesClasses but where
  names i hi := by
    rcases Nat.lt_or_ge i w.classes.size with hold | hnew
    · refine (h.names i hold).respects hold (fun heq => ?_) hs
      exact h.apart _ heq i hold rfl
    · exact (hs.made i hnew hi).2
  made s hbut := (h.made s hbut).trans_le hs.scopeCount
  apart s hbut i hi := by
    rcases Nat.lt_or_ge i w.classes.size with hold | hnew
    · rw [hs.classes i hold]
      exact h.apart s hbut i hold
    · -- the scope of a new class is new
      rintro rfl
      exact absurd (h.made _ hbut) (Nat.not_lt.mpr (hs.made i hnew hi).1)

/-! ### Changes of scopes -/

/-- Declaring a name changes what this one name means in this one scope. -/
theorem bound?_declare (w : World) (s s' : ScopeId) (name other : String) (v : Value)
    (isMutable : Bool) :
    (w.declare s name v isMutable).bound? s' other =
      if s = s' ∧ s'.index < w.scopes.all.size ∧ name = other then some ⟨v, isMutable⟩
      else w.bound? s' other :=
  Scopes.bound?_declare w.scopes s s' name other v isMutable

/-- A declaration respects everything if the scope binds the name as a variable already and goes on
doing so, or if it is the scope excepted. -/
theorem respects_declare (s : ScopeId) (name : String) (v : Value) (isMutable : Bool)
    (h : but = some s ∨ isMutable = true ∧ w.mutability? s name = some true) :
    w.Respects but (w.declare s name v isMutable) := by
  -- a name other than the one declared keeps its value
  have hother : ∀ s' other x, w.bound? s' other = some x → ¬(s = s' ∧ name = other) →
      (w.declare s name v isMutable).bound? s' other = some x := fun s' other x hx hne => by
    rw [bound?_declare, if_neg fun h => hne ⟨h.1, h.2.2⟩]
    exact hx
  exact
    { scopeCount := by
        change _ ≤ (w.scopes.all.modify _ _).size
        rw [Array.size_modify]
      bound := fun s' other hx => by
        rw [bound?_declare]
        split
        · rfl
        · exact hx
      constants := fun s' other x hbut hx => by
        refine hother s' other _ hx ?_
        -- the name itself was mutable, if it is declared in a scope not left out
        rintro ⟨rfl, rfl⟩
        rcases h with h | ⟨-, h⟩
        · exact hbut h
        · rw [mutability?, hx] at h
          cases h
      mutability := fun s' other hbut _ => by
        rw [mutability?, bound?_declare]
        split
        · next hsame =>
          obtain ⟨rfl, -, rfl⟩ := hsame
          rcases h with h | ⟨rfl, h⟩
          · exact absurd h hbut
          · exact h.symm
        · rfl
      tokenCount := Nat.le_refl _
      tokenNames := fun _ _ => rfl
      classCount := Nat.le_refl _
      classes := fun _ _ => rfl
      made := fun i hi hi' => absurd hi' (Nat.not_lt.mpr hi) }

/-- A new scope binds nothing. -/
theorem bound?_childScope (w : World) (parent s : ScopeId) (name : String) :
    (w.childScope parent).2.bound? s name = w.bound? s name :=
  Scopes.bound?_child w.scopes parent s name

/-- It is one scope more, -/
theorem size_childScope (w : World) (parent : ScopeId) :
    (w.childScope parent).2.scopes.all.size = w.scopes.all.size + 1 :=
  Array.size_push _

/-- and it is there afterwards. -/
theorem lt_size_childScope (w : World) (parent : ScopeId) :
    (w.childScope parent).1.index < (w.childScope parent).2.scopes.all.size := by
  rw [size_childScope]
  exact Nat.lt_succ_self _

/-- So making one respects all scopes. -/
theorem respects_childScope (w : World) (parent : ScopeId) (but : Option ScopeId) :
    w.Respects but (w.childScope parent).2 where
  -- the last three concern classes and tokens, which are the same
  scopeCount := by
    rw [size_childScope]
    exact Nat.le_succ _
  bound s name h := by rwa [bound?_childScope]
  constants s name v _ h := by rwa [bound?_childScope]
  mutability s name _ _ := by rw [mutability?, bound?_childScope, mutability?]
  tokenCount := Nat.le_refl _
  tokenNames _ _ := rfl
  classCount := Nat.le_refl _
  classes _ _ := rfl
  made i hi hi' := absurd hi' (Nat.not_lt.mpr hi)

/-- No class has the new scope. -/
theorem NamesClasses.childScope (h : w.NamesClasses but) (parent : ScopeId) :
    (w.childScope parent).2.NamesClasses (some (w.childScope parent).1) where
  names := (h.respects (respects_childScope w parent but)).names
  made s hs := by
    cases hs
    exact lt_size_childScope w parent
  -- no class has the new scope for its own
  apart s hs i hi heq := by
    cases hs
    have hscope := (h.names i hi).scope
    rw [show (w.classes.getD i default).scope = (w.childScope parent).1 from heq] at hscope
    exact absurd hscope (Nat.lt_irrefl _)

/-- What happens in a new scope respects the scopes that were there. -/
theorem respects_inNewScope {parent : ScopeId} (h : (w.childScope parent).2.Respects
    (some (w.childScope parent).1) w') (but : Option ScopeId) : w.Respects but w' := by
  -- the new scope is none of the old ones, so leaving it out leaves out nothing of `w`
  have hnew := respects_childScope w parent (some (w.childScope parent).1)
  have hsize := hnew.scopeCount
  exact
    { scopeCount := hsize.trans h.scopeCount
      bound := fun s name hs => h.bound s name (hnew.bound s name hs)
      constants := fun s name v _ hv => by
        refine h.constants s name v (fun heq => ?_) (by rwa [bound?_childScope])
        cases heq
        exact absurd (lt_of_bound hv) (Nat.lt_irrefl _)
      mutability := fun s name _ hs => by
        refine (h.mutability s name (fun heq => ?_) (hs.trans_le hsize)).trans ?_
        · cases heq
          exact absurd hs (Nat.lt_irrefl _)
        · rw [mutability?, bound?_childScope, mutability?]
      tokenCount := h.tokenCount
      tokenNames := h.tokenNames
      classCount := h.classCount
      classes := h.classes
      made := fun i hi hi' => ⟨hsize.trans (h.made i hi hi').1, (h.made i hi hi').2⟩ }

end World

/-- What becomes of the world respects scopes, if the scope excepted is there. -/
def Machine.Respects (but : Option ScopeId) (m m' : Machine) : Prop :=
  (∀ s ∈ but, s.index < m.world.scopes.all.size) → m.world.Respects but m'.world

namespace Eval

/-- A piece that respects scopes wherever it is run. -/
def Respects {α : Type} (but : Option ScopeId) (x : Eval α) : Prop :=
  ∀ m, Leaves (Machine.Respects but) x m

end Eval

namespace Eval

variable {α β : Type} {but : Option ScopeId} {x : Eval α} {m : Machine}

/-! ### Rules -/

/-- Changes in a row respect what each of them respects. -/
theorem respects_trans {m₁ m₂ m₃ : Machine} (h : m₁.Respects but m₂) (h' : m₂.Respects but m₃) :
    m₁.Respects but m₃ := fun hbut =>
  (h hbut).trans hbut (h' fun s hs => (hbut s hs).trans_le (h hbut).scopeCount)

/-- What a piece respects is said of the machine that it leaves. -/
theorem Respects.of_ok {a : α} {m' : Machine} (hx : Respects but x) (h : x m = .ok a m') :
    m.Respects but m' := by
  have hrespects := hx m
  rwa [Leaves, final_of_ok h] at hrespects

/-- The rules follow the way in which pieces are composed. A value changes nothing, -/
theorem Respects.pure (a : α) : Respects but (pure a) := fun m _ => .refl but m.world

/-- and neither does an error, -/
theorem Respects.stop (stop : Stop) : Respects but (throw stop : Eval α) := fun m _ =>
  .refl but m.world

theorem respects_raise (e : RuntimeError) : Respects but (raise e : Eval α) := .stop _

theorem respects_raiseType (fault : TypeFault) : Respects but (raiseType fault : Eval α) := .stop _

/-- and two pieces change what each of them changes. -/
theorem Respects.bind {f : α → Eval β} (hx : Respects but x) (hf : ∀ a, Respects but (f a)) :
    Respects but (x >>= f) := fun m => Leaves.bind respects_trans (hx m) fun a m' _ => hf a m'

/-- What is read from the world is any value. -/
theorem Respects.world {f : World → Eval α} (hf : ∀ w, Respects but (f w)) :
    Respects but (world >>= f) := fun m => hf m.world m

theorem Respects.get {f : Machine → Eval α} (hf : ∀ m, Respects but (f m)) :
    Respects but (MonadState.get >>= f) := fun m => hf m m

/-- A change of the machine beside the world. -/
theorem Respects.beside {f : Machine → Machine} (h : ∀ m, (f m).world = m.world) :
    Respects but (modify f) := fun m _ => by
  change m.world.Respects but (f m).world
  rw [h]
  exact .refl but m.world

/-- A note is no change of the world. -/
theorem respects_record (e : Event) : Respects but (record e) := .beside fun _ => rfl

/-- A change respects what the function of the world respects. -/
theorem respects_changeWorld {g : World → World} (h : ∀ w : World, w.Respects but (g w)) :
    Respects but (changeWorld g) := fun m _ => h m.world

/-- So it is with one that has a result. -/
theorem respects_onWorld {g : World → α × World} (h : ∀ w : World, w.Respects but (g w).2) :
    Respects but (onWorld g) := fun m _ => h m.world

theorem Respects.ite {p : Prop} [Decidable p] {y : Eval α} (hx : Respects but x)
    (hy : Respects but y) : Respects but (if p then x else y) := by
  split
  · exact hx
  · exact hy

/-- An error that is caught leaves the world as it was when it was raised. -/
theorem Respects.catching (hx : Respects but x) : Respects but (catching x) := fun m => by
  rw [Leaves, final_catching]
  exact hx m

/-- What is done in any case touches the counters of the machine alone. -/
theorem Respects.thenAlways {f : Machine → Machine} (hx : Respects but x)
    (h : ∀ m, (f m).world = m.world) : Respects but (thenAlways x f) := fun m => by
  rw [Leaves, final_thenAlways]
  intro hbut
  rw [h]
  exact hx m hbut

/-- What is run in a new scope may declare names there. -/
theorem respects_inNewScope {f : ScopeId → Eval α} (parent : ScopeId)
    (hf : ∀ s, Respects (some s) (f s)) : Respects but (newScope parent >>= f) := fun m hbut => by
  apply World.respects_inNewScope
  refine hf (m.world.childScope parent).1 { m with world := (m.world.childScope parent).2 } ?_
  intro s hs
  cases hs
  exact World.lt_size_childScope m.world parent

/-! ### Changes of the world that touch no scope -/

/-- Objects are no scopes, -/
theorem respects_setProperty (o : ObjectId) (key : PropertyKey) (v : Value) :
    Respects but (changeWorld (·.setProperty o key v)) :=
  respects_changeWorld fun _ => World.respects_of_same rfl rfl rfl fun _ => rfl

/-- nor are tables, -/
theorem respects_setSlot (t : TableId) (key : PropertyKey) (v : Value) :
    Respects but (changeWorld (·.setSlot t key v)) :=
  respects_changeWorld fun _ => World.respects_of_same rfl rfl rfl fun _ => rfl

theorem respects_newObject (proto : Option ObjectId) : Respects but (onWorld (·.newObject proto)) :=
  respects_onWorld fun _ => World.respects_of_same rfl rfl rfl fun _ => rfl

/-- nor tokens with their instances, -/
theorem respects_registerInstance (t : TokenId) (o : ObjectId) :
    Respects but (onWorld (·.registerInstance t o)) := by
  refine respects_onWorld fun w => ?_
  unfold World.registerInstance
  split
  · exact .refl but w
  · refine World.respects_of_same rfl rfl (Array.size_modify ..) fun t' => ?_
    change ((w.tokens.modify _ _).getD _ _).name = _
    rw [getD_modify]
    split <;> rfl

/-- nor functions, which only refer to one. -/
theorem respects_makeFunction (unit : CompiledUnit) (definition : FunctionDef) (scope : ScopeId)
    (home : Option Home) : Respects but (makeFunction unit definition scope home) :=
  respects_onWorld fun _ => World.respects_of_same rfl rfl rfl fun _ => rfl

/-! ### Two evaluators -/

/-- An end at what binding rules out. -/
def IsBroken (r : EStateM.Result Stop Machine α) : Prop := ∃ f m, r = .error (.broken f) m

/-- A piece, as a function of the evaluator that it leaves its parts to, that respects scopes with
one evaluator and ends in the same way with another, wherever classes name themselves. The first may
also break off. -/
structure Tracks (parts parts' : Evaluator) (but : Option ScopeId) (x : Evaluator → Eval α) :
    Prop where
  respects : Respects but (x parts)
  same : ∀ m : Machine, m.world.NamesClasses but → x parts m = x parts' m ∨ IsBroken (x parts m)

end Eval

/-- Evaluators of which the second does with the parts of a construct what the first does. Of the
first it is known that its expressions and calls respect all scopes, and its statements all but the
one they are run in. -/
structure Evaluator.Tracks (parts parts' : Evaluator) : Prop where
  eval : ∀ context e but, Eval.Tracks parts parts' but fun p => p.eval context e
  exec : ∀ context s, Eval.Tracks parts parts' (some context.scope) fun p => p.exec context s
  invoke : ∀ held f this args construction but,
    Eval.Tracks parts parts' but fun p => p.invoke held f this args construction
  rounds : parts.rounds = parts'.rounds

namespace Eval

section Tracks

variable {α β : Type} {but : Option ScopeId} {self self' : Evaluator} {x : Evaluator → Eval α}
  {m : Machine}

/-- A piece that leaves nothing to the evaluator. -/
theorem Tracks.const {x : Eval α} (h : Respects but x) : Tracks self self' but fun _ => x :=
  ⟨h, fun _ _ => Or.inl rfl⟩

theorem Tracks.pure (a : α) : Tracks self self' but fun _ => pure a := .const (.pure a)

/-- Two evaluators raise the same error where neither of them is asked. -/
theorem Tracks.stop (stop : Stop) : Tracks self self' but fun _ => (throw stop : Eval α) :=
  .const (.stop stop)

theorem tracks_raiseType (fault : TypeFault) :
    Tracks self self' but fun _ => (raiseType fault : Eval α) :=
  .stop _

theorem tracks_record (e : Event) : Tracks self self' but fun _ => record e :=
  .const (respects_record e)

/-- A piece that respects scopes leaves classes that are named in their own. -/
theorem namesClasses_of_respects {x : Eval α} {a : α} {m' : Machine}
    (hm : m.world.NamesClasses but) (hx : Respects but x) (hrun : x m = .ok a m') :
    m'.world.NamesClasses but :=
  hm.respects (hx.of_ok hrun hm.made)

/-- In turn, the second piece is the same if the first one has come to the same end. -/
theorem Tracks.bind {f : Evaluator → α → Eval β} (hx : Tracks self self' but x)
    (hf : ∀ a, Tracks self self' but fun p => f p a) :
    Tracks self self' but fun p => x p >>= f p where
  respects := hx.respects.bind fun a => (hf a).respects
  same m hm := by
    change EStateM.bind _ _ m = EStateM.bind _ _ m ∨ IsBroken (EStateM.bind _ _ m)
    unfold EStateM.bind
    -- either both did the same, or the observed one found something broken
    rcases hx.same m hm with hsame | ⟨f, m', hbroken⟩
    · rw [← hsame]
      cases hrun : x self m with
      | ok a m' => exact (hf a).same m' (namesClasses_of_respects hm hx.respects hrun)
      | error stop m' => exact Or.inl rfl
    · rw [hbroken]
      exact Or.inr ⟨f, m', rfl⟩

/-- Both see the same world. -/
theorem Tracks.world {f : World → Evaluator → Eval α}
    (hf : ∀ w, Tracks self self' but (f w)) :
    Tracks self self' but fun p => Eval.world >>= fun w => f w p where
  respects := .world fun w => (hf w).respects
  same m hm := (hf m.world).same m hm

theorem Tracks.get {f : Machine → Evaluator → Eval α} (hf : ∀ m, Tracks self self' but (f m)) :
    Tracks self self' but fun p => MonadState.get >>= fun m => f m p where
  respects := .get fun m => (hf m).respects
  same m hm := (hf m).same m hm

/-- A choice that does not depend on the evaluator is made alike. -/
theorem Tracks.ite {p : Prop} [Decidable p] {y : Evaluator → Eval α}
    (hx : Tracks self self' but x) (hy : Tracks self self' but y) :
    Tracks self self' but fun q => if p then x q else y q := by
  split
  · exact hx
  · exact hy

/-- What is caught is the same error. -/
theorem Tracks.catching (hx : Tracks self self' but x) :
    Tracks self self' but fun p => catching (x p) where
  respects := hx.respects.catching
  same m hm := by
    unfold Eval.catching
    rcases hx.same m hm with hsame | ⟨f, m', hbroken⟩
    · rw [← hsame]
      exact Or.inl rfl
    · rw [hbroken]
      exact Or.inr ⟨f, m', rfl⟩

theorem Tracks.thenAlways {f : Machine → Machine} (hx : Tracks self self' but x)
    (h : ∀ m, (f m).world = m.world) : Tracks self self' but fun p => thenAlways (x p) f where
  respects := hx.respects.thenAlways h
  same m hm := by
    unfold Eval.thenAlways
    rcases hx.same m hm with hsame | ⟨fault, m', hbroken⟩
    · rw [← hsame]
      exact Or.inl rfl
    · rw [hbroken]
      exact Or.inr ⟨fault, f m', rfl⟩

/-- A piece that gets to a point where another one goes on, with any evaluator. -/
theorem Tracks.advance (h : ∀ m, ∃ (y : Evaluator → Eval α) (m' : Machine),
    (∀ p, x p m = y p m') ∧ m.world.Respects but m'.world ∧ Tracks self self' but y) :
    Tracks self self' but x where
  respects m := by
    obtain ⟨y, m', hrun, hrespects, hy⟩ := h m
    rw [Leaves, final, hrun, ← final]
    exact respects_trans (fun _ => hrespects) (hy.respects m')
  same m hm := by
    obtain ⟨y, m', hrun, hrespects, hy⟩ := h m
    rw [hrun, hrun]
    exact hy.same m' (hm.respects hrespects)

/-- What is run in a new scope may declare names there. -/
theorem tracks_inNewScope {f : Evaluator → ScopeId → Eval α} (parent : ScopeId)
    (hf : ∀ s, Tracks self self' (some s) fun p => f p s) :
    Tracks self self' but fun p => newScope parent >>= f p where
  respects := respects_inNewScope parent fun s => (hf s).respects
  same m hm := (hf (m.world.childScope parent).1).same
    { m with world := (m.world.childScope parent).2 } (hm.childScope parent)

/-- Rounds are repeated alike, however many there may be. -/
theorem tracks_repeatRounds {round : Evaluator → Eval (Option Flow)}
    (hround : Tracks self self' but round) (n : ℕ) :
    Tracks self self' but fun p => repeatRounds (round p) n := by
  induction n with
  | zero => exact .stop _
  | succ n ih =>
    refine .bind hround fun flow? => ?_
    match flow? with
    | none => exact .pure _
    | some (.returned v) => exact .pure _
    | some .normal => exact ih

/-- Loops make as many rounds with the one evaluator as with the other. -/
theorem tracks_rounds (h : self.Tracks self') {round : Evaluator → Eval (Option Flow)}
    (hround : Tracks self self' but round) :
    Tracks self self' but fun p => repeatRounds (round p) p.rounds where
  respects := (tracks_repeatRounds hround _).respects
  same m hm := by
    rw [← h.rounds]
    exact (tracks_repeatRounds hround _).same m hm

end Tracks

end Eval

end Enclave
