import Enclave.Proofs.Eval.Relations
import Enclave.Proofs.Eval.Whole
import Enclave.Proofs.Syntax.Contents

/-!
# Where functions and classes come from

A machine is *made of* syntax of a kind if all its functions were written in such syntax and all its
classes have their private fields from it (`Machine.MadeOf`). Evaluation of syntax of the kind makes
nothing else, wherever it calls functions and constructs instances that were there before
(`proceeds_evaluator`). It ends at the depth of calls that it began at.
-/

namespace Enclave

namespace Machine

/-- The functions of a script and the private fields of classes are syntax of a kind. -/
structure MadeOf (ok : Part → Prop) (m : Machine) : Prop where
  functions : ∀ i c, m.world.functions.getD i default = .script c →
    (Part.function c.definition).All ok
  classes : ∀ c : ClassRef, ∀ f ∈ (m.world.classAt c).fields, ∃ definition : ClassDef,
    f ∈ Eval.privateFields definition.members ∧ (Part.class definition).All ok

/-- What is done on a machine made of syntax of a kind leaves such a machine, at the same depth. -/
def Proceeds (ok : Part → Prop) (m m' : Machine) : Prop :=
  m.MadeOf ok → m'.MadeOf ok ∧ m'.depth = m.depth ∧ m'.maxDepth = m.maxDepth

variable {ok : Part → Prop} {m m' m'' : Machine}

theorem Proceeds.refl (ok : Part → Prop) (m : Machine) : Proceeds ok m m :=
  fun hm => ⟨hm, rfl, rfl⟩

theorem Proceeds.trans (h : Proceeds ok m m') (h' : Proceeds ok m' m'') : Proceeds ok m m'' := by
  intro hm
  obtain ⟨hm', hdepth, hmax⟩ := h hm
  obtain ⟨hm'', hdepth', hmax'⟩ := h' hm'
  exact ⟨hm'', hdepth'.trans hdepth, hmax'.trans hmax⟩

/-- What has the same functions and classes is made of the same syntax. -/
theorem MadeOf.of_eq (hm : m.MadeOf ok) (hfunctions : m'.world.functions = m.world.functions)
    (hclasses : m'.world.classes = m.world.classes) : m'.MadeOf ok where
  functions i c hc := hm.functions i c (hfunctions ▸ hc)
  classes c f hf := by
    rw [World.classAt, hclasses] at hf
    exact hm.classes c f hf

/-- The initializers of the fields of a class are syntax of the kind. -/
theorem MadeOf.initializer (hm : m.MadeOf ok) {c : ClassRef} {f : Field}
    (hf : f ∈ (m.world.classAt c).fields) {e : Expr} (he : e ∈ f.initializer) :
    (Part.expr e).All ok := by
  obtain ⟨definition, hfield, hall⟩ := hm.classes c f hf
  exact hall.initializers e (ClassDef.mem_initializers hfield he)

end Machine

/-- The terms on which syntax of a kind is evaluated. -/
def Terms.madeOf (ok : Part → Prop) : Terms :=
  ⟨fun _ => True, fun p => p.All ok, fun _ => True, True, True, 0, fun _ _ => True⟩

/-- An evaluator that makes nothing but what syntax of a kind makes. -/
structure Evaluator.Proceeds (ok : Part → Prop) (parts : Evaluator) : Prop
    extends parts.Leaves (.madeOf ok) (Machine.Proceeds ok) where
  start : ∀ {m : Machine} {this : Value} {args : List Value} {construction : Option ConstructionId}
    (held : List Node) (f : FunctionRef), m.IsTidy → m.world.Passes this →
    (∀ v ∈ args, m.world.Passes v) → (∀ id ∈ construction, id.index < m.constructions.size) →
    Eval.Leaves (Machine.Proceeds ok) (parts.invoke held f this args construction) m

namespace Eval

variable {α : Type} {ok : Part → Prop} {R : Terms} {m m' : Machine} {self : Evaluator}
  {x : Evaluator → Eval α} {q : α → Machine → Prop}

/-! ### Single operations -/

section Operations

variable (hcode : ∀ p, R.code p → p.All ok)

include hcode

/-- Of functions, single operations make those alone whose code may run. -/
theorem Atom.functions {x : Eval α} (h : Atom R m x q) (i : ℕ) (c : Closure)
    (hc : (final x m).world.functions.getD i default = .script c) :
    m.world.functions.getD i default = .script c ∨ (Part.function c.definition).All ok := by
  -- only a function literal adds a function
  cases h with
  | @makeFunction unit definition scope home hdefinition hhome =>
    have hget : (final (Eval.makeFunction unit definition scope home) m).world.functions.getD i
        default = if i = m.world.functions.size then .script ⟨unit, definition, scope, home⟩
        else m.world.functions.getD i default := getD_push _ _ _ _
    rw [hget] at hc
    split at hc
    · cases hc
      exact Or.inr (hcode _ hdefinition)
    · exact Or.inl hc
  | @instanceTable t _ target =>
    obtain ⟨o, table, -, -, hrun⟩ | hrun := instanceTable_cases t target m
    · rw [final_of_ok hrun] at hc
      exact Or.inl hc
    · rw [final_of_error hrun] at hc
      exact Or.inl hc
  | @classValue context home _ _ =>
    rw [final_of_ok (classValue_eq context home m)] at hc
    exact Or.inl hc
  | _ => exact Or.inl hc

theorem Atom.proceeds {x : Eval α} (h : Atom R m x q) : Leaves (Machine.Proceeds ok) x m := by
  intro hm
  have hbeside := h.beside
  refine ⟨⟨fun i c hc => ?_, fun c f hf => ?_⟩, hbeside.depth, hbeside.maxDepth⟩
  · exact (h.functions hcode i c hc).elim (hm.functions i c) fun hall => hall
  · rw [World.classAt, hbeside.classes] at hf
    exact hm.classes c f hf

omit hcode in
/-- A class definition of the kind makes methods and fields of the kind. -/
theorem ClassMade.proceeds {context : Context} {c : ClassDef} {parts : ClassParts}
    (h : ClassMade context c m parts m') (hc : (Part.class c).All ok) (hext : m.Extends m') :
    Machine.Proceeds ok m m' := by
  intro hm
  refine ⟨⟨fun i closure hi => ?_, fun r f hf => ?_⟩, h.depth, hext.maxDepth⟩
  · -- A function was there before or is one of the class, and so are fields.
    obtain hold | hnew := h.functions i closure hi
    · exact hm.functions i closure hold
    · exact hc.functions _ hnew
  · obtain hold | hnew := h.fields r
    · rw [hold] at hf
      exact hm.classes r f hf
    · rw [hnew] at hf
      exact ⟨c, hf, hc⟩

theorem Primitive.proceeds (hself : self.Proceeds ok) (h : Primitive R α x m q) (hm : m.IsTidy) :
    Leaves (Machine.Proceeds ok) (x self) m := by
  -- a step that makes no function and no class goes on as it was
  have hsame : ∀ {m' : Machine}, m'.world.functions = m.world.functions →
      m'.world.classes = m.world.classes → m'.depth = m.depth → m'.maxDepth = m.maxDepth →
      Machine.Proceeds ok m m' := fun hfunctions hclasses hdepth hmax hmade =>
    ⟨hmade.of_eq hfunctions hclasses, hdepth, hmax⟩
  cases h with
  | record e he => exact hsame rfl rfl rfl rfl
  | @register _ t o ht hmay ho =>
    refine hsame ?_ (World.classes_registerInstance m.world t o) rfl rfl
    change (m.world.registerInstance t o).2.functions = m.world.functions
    unfold World.registerInstance
    split <;> rfl
  | newConstruction hc ho => exact hsame rfl rfl rfl rfl
  | constructionAt id => exact hsame rfl rfl rfl rfl
  | markSuperCalled id => exact hsame rfl rfl rfl rfl
  | invoke held f hthis hargs hconstruction =>
    exact hself.start held f hm hthis hargs fun id hid => (hconstruction id hid).1
  -- a class comes with its methods, which are among the parts of its definition
  | @makeClass _ context c parent _ hc hparent _ hclass =>
    obtain ⟨parts, m', hrun, hmade⟩ := makeClass_made hm context c hparent
    rw [Leaves, final_of_ok hrun]
    exact hmade.proceeds (hcode _ hclass) hmade.extends_

/-! ### Pieces -/

omit hcode in
/-- On narrower terms the evaluator makes nothing else either. -/
theorem Proceeds.leaves {parts : Evaluator} (h : parts.Proceeds ok)
    (hcode : ∀ p, R.code p → p.All ok) : parts.Leaves R (Machine.Proceeds ok) := by
  have hsuits : ∀ {m : Machine} {f : Frame}, R.Suits m f → (Terms.madeOf ok).Suits m f := fun hc =>
    ⟨hc.toSuits, fun _ _ => trivial, fun _ _ => trivial, Nat.zero_le _⟩
  exact
    { eval := fun hm hc he => h.eval hm (hsuits hc) (hcode _ he)
      exec := fun hm hc hs => h.exec hm (hsuits hc) (hcode _ hs)
      invoke := h.invoke }

/-- **Pieces** made of syntax of a kind proceed with it, if what is their own does. -/
theorem Built.proceeds {own : Pieces} (h : Built R own x m q) (hkeeps : self.Keeps)
    (hself : self.Proceeds ok)
    (hkept : ∀ {α : Type} {x : Evaluator → Eval α} {m : Machine} {q : α → Machine → Prop},
      own α x m q → m.IsTidy → Keeps (x self) m q)
    (hown : ∀ {α : Type} {x : Evaluator → Eval α} {m : Machine} {q : α → Machine → Prop},
      own α x m q → m.IsTidy → Leaves (Machine.Proceeds ok) (x self) m)
    (hm : m.IsTidy) : Leaves (Machine.Proceeds ok) (x self) m :=
  h.leaves (.refl ok) .trans (fun hx _ => hx.proceeds hcode) hkeeps (Proceeds.leaves hself hcode)
    hkept hown hm

theorem Built.proceeds_primitive (h : Built R (Primitive R) x m q) (hkeeps : self.Keeps)
    (hself : self.Proceeds ok) (hm : m.IsTidy) : Leaves (Machine.Proceeds ok) (x self) m :=
  h.proceeds hcode hkeeps hself (fun hx hm => hx.keeps hkeeps hm)
    (fun hx hm => hx.proceeds hcode hself hm) hm

end Operations

/-- The members of classes made of syntax of a kind may be installed. -/
theorem Machine.MadeOf.mayInstall (hmade : m.MadeOf ok) {c : ClassRef}
    (hc : c.index < m.world.classes.size) : MayInstall (.madeOf ok) m.world c :=
  ⟨hc, trivial, fun _ hf _ he => hmade.initializer hf he, Nat.zero_le _⟩

theorem Whole.proceeds (hcode : ∀ p, R.code p → p.All ok) (hkeeps : self.Keeps)
    (hself : self.Proceeds ok) (h : Whole R α x m q) (hm : m.IsTidy) :
    Leaves (Machine.Proceeds ok) (x self) m := by
  have hsuits : ∀ {f : Frame}, R.Suits m f → (Terms.madeOf ok).Suits m f := fun hc =>
    ⟨hc.toSuits, fun _ _ => trivial, fun _ _ => trivial, Nat.zero_le _⟩
  -- initializers of classes made here are code of these classes, whose parts are all `ok`
  have hchain : m.MadeOf ok → ∀ {c : ClassRef}, c.index < m.world.classes.size →
      ∀ d ∈ m.world.classChain c, MayInstall (.madeOf ok) m.world d := fun hmade c hc d hd =>
    Machine.MadeOf.mayInstall hmade (hm.world.lt_of_mem_classChain hc hd)
  intro hmade
  cases h with
  | construct _ _ hc hclass hargs =>
    exact (built_construct installs_primitive (fun _ => trivial) hm _ hargs
      (hchain hmade hclass)).proceeds_primitive (fun _ h => h) hkeeps hself hm hmade
  | superCall _ hc hargs =>
    refine (built_superCall installs_primitive (fun _ => trivial) hm (hsuits hc) hargs
      fun id hid => ?_).proceeds_primitive (fun _ h => h) hkeeps hself hm hmade
    exact hchain hmade (hm.constructions id (hc.construction id hid)).1
  | makeClass hm' hc hparent hmay hclass =>
    exact (Primitive.makeClass hm' hc hparent hmay hclass).proceeds hcode hself hm hmade

/-! ### Calls -/

/-- Everything of the kind may be evaluated where it is made of such syntax. -/
theorem supports_madeOf (ok : Part → Prop) : Supports (.madeOf ok) (Whole (.madeOf ok)) :=
  supports_whole (fun _ hp => ⟨fun _ hq => hp.part hq, fun _ => trivial, fun _ => trivial⟩)
    fun _ _ => trivial

theorem Built.proceeds_whole (h : Built (.madeOf ok) (Whole (.madeOf ok)) x m q)
    (hkeeps : self.Keeps) (hself : self.Proceeds ok) (hm : m.IsTidy) :
    Leaves (Machine.Proceeds ok) (x self) m :=
  h.proceeds (fun _ h => h) hkeeps hself (fun hx hm => hx.keeps hkeeps hm)
    (fun hx hm => hx.proceeds (fun _ h => h) hkeeps hself hm) hm

/-- What runs in a call was made of syntax of the kind. -/
theorem built_called_madeOf (hmade : m.MadeOf ok) (hm : m.IsTidy) (held : List Node)
    (f : FunctionRef) {this : Value} {args : List Value} {construction : Option ConstructionId}
    (hthis : m.world.Passes this) (hargs : ∀ v ∈ args, m.world.Passes v)
    (hconstruction : ∀ id ∈ construction, id.index < m.constructions.size) :
    Built (.madeOf ok) (Whole (.madeOf ok))
      (fun self => runFunction self held (m.world.functionAt f) this args construction)
      (enter f this m) Gives :=
  built_called (supports_madeOf ok) hm held f hthis hargs (fun id hid =>
    ⟨hconstruction id hid, trivial⟩) (fun c hc =>
      ⟨fun _ _ => trivial, (hmade.functions f.index c hc).body⟩) (Nat.zero_le _)

theorem proceeds_invoke (hkeeps : self.Keeps) (hself : self.Proceeds ok) (hm : m.IsTidy)
    (held : List Node) (f : FunctionRef) {this : Value} {args : List Value}
    {construction : Option ConstructionId} (hthis : m.world.Passes this)
    (hargs : ∀ v ∈ args, m.world.Passes v)
    (hconstruction : ∀ id ∈ construction, id.index < m.constructions.size) :
    Leaves (Machine.Proceeds ok) (invoke self held f this args construction) m := by
  intro hmade
  obtain ⟨-, hrun⟩ | ⟨-, hrun⟩ := invoke_cases self held f this args construction m
  · rw [final_of_error hrun]
    exact ⟨hmade.of_eq rfl rfl, rfl, rfl⟩
  · rw [final, hrun, ← final, final_thenAlways]
    have hbody := (built_called_madeOf hmade hm held f hthis hargs hconstruction).proceeds_whole
      hkeeps hself (tidy_enter hm f this).1
    obtain ⟨hmade', hdepth, hmax⟩ := hbody (hmade.of_eq rfl rfl)
    -- the call is left at the depth that it was entered at
    refine ⟨hmade'.of_eq rfl rfl, ?_, hmax⟩
    change Machine.depth _ - 1 = m.depth
    rw [hdepth]
    exact Nat.add_sub_cancel m.depth 1

end Eval

/-- **The evaluator makes nothing but what syntax of the kind makes**, in however many steps. -/
theorem proceeds_evaluator (ok : Part → Prop) (steps : ℕ) : (evaluator steps).Proceeds ok := by
  induction steps with
  | zero =>
    exact
      { eval := fun _ _ _ => .refl ok _
        exec := fun _ _ _ => .refl ok _
        invoke := fun _ _ _ _ _ => .refl ok _
        start := fun _ _ _ _ _ _ => .refl ok _ }
  | succ steps ih =>
    -- each layer is built of parts that proceed already
    have hkeeps := keeps_evaluator steps
    have hs := Eval.supports_madeOf ok
    exact
      { eval := fun hm hc he =>
          (Eval.built_evalExpr hs hm hc (hs.covers _ he) fun _ => trivial).proceeds_whole hkeeps ih
            hm
        exec := fun hm hc hs' =>
          (Eval.built_execStmt hs hc (hs.covers _ hs')).proceeds_whole hkeeps ih hm
        invoke := fun held hm _ hthis hargs =>
          Eval.proceeds_invoke hkeeps ih hm held _ hthis hargs fun _ h => nomatch h
        start := fun held f hm hthis hargs hconstruction =>
          Eval.proceeds_invoke hkeeps ih hm held f hthis hargs hconstruction }

end Enclave
