import Enclave.Eval.Evaluator
import Enclave.Proofs.Eval.Construction

/-!
# Constructions inside each other

The limit on the depth of calls counts calls, and the installation of private fields is none. So a
class whose first private field constructs an instance of that class itself (`World.Nests`) goes
deeper without being cut off: however many steps there are, such a construction uses them up
(`exhausts_evaluator`).
-/

namespace Enclave

/-- The name of what an expression constructs an instance of, without arguments. -/
def Expr.constructed? (e : Expr) : Option String :=
  match e.form with
  | .new ⟨_, _, _, .ident name⟩ [] => some name
  | _ => none

theorem Expr.form_of_constructed? {e : Expr} {name : String} (h : e.constructed? = some name) :
    ∃ callee : Expr, callee.form = .ident name ∧ e.form = .new callee [] := by
  unfold Expr.constructed? at h
  split at h
  · next id span height other hform =>
    obtain rfl := Option.some.inj h
    exact ⟨_, rfl, hform⟩
  · cases h

namespace World

/-- A class whose first private field constructs an instance of a name that means the class itself,
before anything else of it runs. -/
structure Nests (w : World) (c : ClassRef) (name : String) : Prop where
  parent : (w.classAt c).parent = none
  constructor : (w.classAt c).constructor = none
  privateMethods : (w.classAt c).privateMethods = []
  field : ((w.classAt c).fields.head?.bind Field.initializer).bind Expr.constructed? = some name
  lookup : w.scopes.lookup (w.classAt c).scope name = some (.class c)

variable {w w' : World} {c : ClassRef} {name : String}

instance : Decidable (w.Nests c name) :=
  decidable_of_iff
    ((w.classAt c).parent = none ∧ (w.classAt c).constructor = none ∧
      (w.classAt c).privateMethods = [] ∧
      ((w.classAt c).fields.head?.bind Field.initializer).bind Expr.constructed? = some name ∧
      w.scopes.lookup (w.classAt c).scope name = some (.class c))
    ⟨fun ⟨hparent, hconstructor, hmethods, hfield, hlookup⟩ =>
      ⟨hparent, hconstructor, hmethods, hfield, hlookup⟩,
      fun h => ⟨h.parent, h.constructor, h.privateMethods, h.field, h.lookup⟩⟩

theorem Nests.congr (h : w.Nests c name) (hclasses : w'.classes = w.classes)
    (hscopes : w'.scopes = w.scopes) : w'.Nests c name := by
  have hclass : w'.classAt c = w.classAt c := by rw [classAt, hclasses, classAt]
  constructor
  · exact hclass ▸ h.parent
  · exact hclass ▸ h.constructor
  · exact hclass ▸ h.privateMethods
  · exact hclass ▸ h.field
  · rw [hclass, hscopes]
    exact h.lookup

end World

/-! ### Running out of steps -/

namespace Eval

variable {α β : Type} {m m' : Machine}

/-- A piece runs out of steps. -/
def Exhausts (x : Eval α) (m : Machine) : Prop := ∃ m', x m = .error .exhausted m'

theorem Exhausts.bind {x : Eval α} (h : Exhausts x m) (f : α → Eval β) : Exhausts (x >>= f) m := by
  obtain ⟨m', hrun⟩ := h
  refine ⟨m', ?_⟩
  change EStateM.bind x f m = _
  rw [EStateM.bind, hrun]

theorem exhausts_bind {x : Eval α} {f : α → Eval β} {a : α} (hx : x m = .ok a m')
    (hf : Exhausts (f a) m') : Exhausts (x >>= f) m := by
  obtain ⟨m'', hrun⟩ := hf
  refine ⟨m'', ?_⟩
  change EStateM.bind x f m = _
  rw [EStateM.bind, hx]
  exact hrun

/-! ### Installation and construction -/

end Eval

/-- An evaluator runs out of steps where an instance of the class is constructed. -/
def Evaluator.ExhaustedBy (self : Evaluator) (c : ClassRef) (name : String) : Prop :=
  ∀ {m : Machine} {context : Context} {e : Expr}, e.constructed? = some name →
    m.world.Nests c name → m.world.scopes.lookup context.scope name = some (.class c) →
    Eval.Exhausts (self.eval context e) m

namespace Eval

variable {m : Machine} {self : Evaluator} {c : ClassRef} {name : String}

theorem exhausts_installPrivate (hself : self.ExhaustedBy c name) (hm : m.world.Nests c name)
    (held : List Node) (inst : ObjectId) : Exhausts (installPrivate self held c inst) m := by
  obtain ⟨e, hinitializer, he⟩ := Option.bind_eq_some_iff.mp hm.field
  obtain ⟨f, hf, hinitializer⟩ := Option.bind_eq_some_iff.mp hinitializer
  obtain ⟨rest, hfields⟩ := List.head?_eq_some_iff.mp hf
  apply Exhausts.bind
  rw [storePrivate_stepwise]
  refine exhausts_bind rfl ?_
  refine exhausts_bind rfl ?_
  refine exhausts_bind rfl ?_
  rw [hm.privateMethods, hfields, storeFields_cons]
  refine exhausts_bind rfl ?_
  refine exhausts_bind rfl ?_
  apply Exhausts.bind
  rw [hinitializer]
  -- the initializer is evaluated where the name means the class
  have hscopes := World.scopes_registerInstance m.world (m.world.classAt c).token inst
  refine hself he (hm.congr (World.classes_registerInstance _ _ _) hscopes) ?_
  exact (congrArg (fun s : Scopes => s.lookup _ name) hscopes).trans hm.lookup

theorem exhausts_construct (hself : self.ExhaustedBy c name) (hm : m.world.Nests c name)
    (held : List Node) : Exhausts (construct self held c []) m := by
  obtain ⟨hclasses, hscopes⟩ := m.sameClasses_allocate c
  have hallocated := hm.congr hclasses hscopes
  -- it gets as far as its own initializers, and constructs the class again there
  rw [construct_stepwise]
  refine exhausts_bind (allocate_eq c) ?_
  refine exhausts_bind rfl ?_
  apply Exhausts.bind
  rw [World.classChain_of_none hallocated.parent, initializeAs_cons]
  refine exhausts_bind rfl ?_
  refine exhausts_bind rfl ?_
  dsimp only
  rw [hallocated.parent, hallocated.constructor]
  apply Exhausts.bind
  refine exhausts_installPrivate hself ?_ _ _
  exact hallocated

/-- **No number of steps** suffices for the construction of an instance of such a class. -/
theorem exhausts_evaluator (c : ClassRef) (name : String) (steps : ℕ) :
    (evaluator steps).ExhaustedBy c name := by
  induction steps with
  | zero => exact fun {m} _ _ _ _ _ => ⟨m, rfl⟩
  | succ steps ih =>
    intro m context e he hm hlookup
    obtain ⟨callee, hcallee, hform⟩ := Expr.form_of_constructed? he
    change Exhausts (evalExpr (evaluator steps) context e) m
    unfold evalExpr
    rw [hform]
    -- one step goes to the callee, which is read, and the others to the construction
    cases steps with
    | zero => exact Exhausts.bind ⟨m, rfl⟩ _
    | succ steps =>
      have hread : (evaluator (steps + 1)).eval context callee m = .ok (.class c) m := by
        change evalExpr (evaluator steps) context callee m = _
        unfold evalExpr
        rw [hcallee]
        change readName context name m = _
        rw [readName, world_bind, hlookup]
        rfl
      refine exhausts_bind hread ?_
      exact exhausts_construct ih hm _

end Eval

end Enclave
