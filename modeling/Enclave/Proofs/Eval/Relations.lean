import Enclave.Proofs.Eval.Keeping

/-!
# Relations between a machine and what is left of it

Many properties of runs say how the machine that a piece leaves is related to the one that it was
run on, however the piece ends. If single operations keep to a reflexive and transitive relation and
the evaluator of the parts does, then so does everything that is built from them (`Built.leaves`). A
relation that calls keep to as well (`IsKept`) is one that the evaluator keeps to, whatever it
evaluates (`leaves_evaluator`).

Single operations, those that leave nothing to the evaluator, touch neither the count of unfinished
calls nor constructions nor classes, and note nothing but accesses (`Atom.beside`).
-/

namespace Enclave

/-- Events of accessors, which have got at a table or were rejected. -/
def Event.isAccess : Event → Bool
  | .resolved .. | .rejected .. => true
  | _ => false

theorem Event.isCall_of_isAccess {e : Event} (h : e.isAccess = true) : e.isCall = false := by
  cases e with
  | resolved | rejected => rfl
  | _ => cases h

/-- Nothing differs but the world, without its classes, and what is printed, and accesses may have
been noted. -/
structure Machine.Beside (m m' : Machine) : Prop where
  depth : m'.depth = m.depth
  maxDepth : m'.maxDepth = m.maxDepth
  constructions : m'.constructions = m.constructions
  classes : m'.world.classes = m.world.classes
  journal : ∃ new, m'.journal = new ++ m.journal ∧ ∀ e ∈ new, e.isAccess = true

namespace Eval

variable {α β : Type} {T : Machine → Machine → Prop} {m : Machine} {x : Eval α} {f : α → Eval β}

/-- The machine that a piece leaves, however it ends. -/
def final (x : Eval α) (m : Machine) : Machine :=
  match x m with
  | .ok _ m' | .error _ m' => m'

theorem final_of_ok {a : α} {m' : Machine} (h : x m = .ok a m') : final x m = m' := by
  unfold final
  rw [h]

theorem final_of_error {stop : Stop} {m' : Machine} (h : x m = .error stop m') :
    final x m = m' := by
  unfold final
  rw [h]

theorem Keeps.final {q : α → Machine → Prop} (h : Keeps x m q) :
    (Eval.final x m).IsTidy ∧ m.Extends (Eval.final x m) := by
  unfold Keeps Ends at h
  cases hrun : x m with
  | ok a m' =>
    rw [hrun] at h
    rw [final_of_ok hrun]
    exact ⟨h.1, h.2.1⟩
  | error stop m' =>
    rw [hrun] at h
    rw [final_of_error hrun]
    exact ⟨h.1, h.2.1⟩

/-- A piece keeps to a relation. -/
def Leaves (T : Machine → Machine → Prop) (x : Eval α) (m : Machine) : Prop := T m (final x m)

theorem Leaves.bind (htrans : ∀ {m₁ m₂ m₃}, T m₁ m₂ → T m₂ m₃ → T m₁ m₃) (hx : Leaves T x m)
    (hf : ∀ a m', x m = .ok a m' → Leaves T (f a) m') : Leaves T (x >>= f) m := by
  unfold Leaves at hx
  -- where the whole ends is where the rest does, or where the first part stopped
  cases hrun : x m with
  | ok a m' =>
    have hfinal : final (x >>= f) m = final (f a) m' := by
      change (match EStateM.bind x f m with | .ok _ m' | .error _ m' => m') = _
      rw [EStateM.bind, hrun]
      rfl
    rw [final_of_ok hrun] at hx
    rw [Leaves, hfinal]
    exact htrans hx (hf a m' hrun)
  | error stop m' =>
    have hfinal : final (x >>= f) m = m' := by
      change (match EStateM.bind x f m with | .ok _ m' | .error _ m' => m') = _
      rw [EStateM.bind, hrun]
    rw [final_of_error hrun] at hx
    rw [Leaves, hfinal]
    exact hx

theorem final_catching (x : Eval α) (m : Machine) : final (catching x) m = final x m := by
  unfold final Eval.catching
  cases x m with
  | ok a m' => rfl
  | error stop m' => cases stop <;> rfl

theorem final_thenAlways (x : Eval α) (g : Machine → Machine) (m : Machine) :
    final (thenAlways x g) m = g (final x m) := by
  unfold final Eval.thenAlways
  cases x m <;> rfl

/-- Loops keep to a relation that their rounds keep to. -/
theorem leaves_repeatRounds (hrefl : ∀ m, T m m)
    (htrans : ∀ {m₁ m₂ m₃}, T m₁ m₂ → T m₂ m₃ → T m₁ m₃) {round : Eval (Option Flow)}
    {i : Machine → Prop} (hround : ∀ m, i m → Leaves T round m)
    (hinv : ∀ m m', i m → round m = .ok (some .normal) m' → i m') (rounds : ℕ) (hm : i m) :
    Leaves T (repeatRounds round rounds) m := by
  induction rounds generalizing m with
  | zero => exact hrefl m
  | succ rounds ih =>
    refine Leaves.bind htrans (hround m hm) fun flow? m' hrun => ?_
    match flow? with
    | none => exact hrefl m'
    | some (.returned v) => exact hrefl m'
    | some .normal => exact ih (hinv m m' hm hrun)

end Eval

/-- An evaluator that keeps to a relation in what it is given to evaluate on some terms. -/
structure Evaluator.Leaves (R : Terms) (T : Machine → Machine → Prop) (parts : Evaluator) :
    Prop where
  eval : ∀ {m : Machine} {context : Context} {e : Expr}, m.IsTidy → R.Suits m context.frame →
    R.code (.expr e) → Eval.Leaves T (parts.eval context e) m
  exec : ∀ {m : Machine} {context : Context} {s : Stmt}, m.IsTidy → R.Suits m context.frame →
    R.code (.stmt s) → Eval.Leaves T (parts.exec context s) m
  invoke : ∀ {m : Machine} {f : FunctionRef} {this : Value} {args : List Value}
    (held : List Node), m.IsTidy → m.world.Passes (.function f) → m.world.Passes this →
    (∀ v ∈ args, m.world.Passes v) → Eval.Leaves T (parts.invoke held f this args none) m

namespace Eval

variable {α : Type} {T : Machine → Machine → Prop} {R : Terms} {own : Pieces} {m : Machine}
  {self : Evaluator} {x : Evaluator → Eval α} {q : α → Machine → Prop}

/-- **Pieces keep to a relation** if single operations and the evaluator of the parts do. -/
theorem Built.leaves (h : Built R own x m q) (hrefl : ∀ m, T m m)
    (htrans : ∀ {m₁ m₂ m₃}, T m₁ m₂ → T m₂ m₃ → T m₁ m₃)
    (hatom : ∀ {α : Type} {x : Eval α} {m : Machine} {q : α → Machine → Prop},
      Atom R m x q → m.IsTidy → Leaves T x m)
    (hself : self.Keeps) (hleaves : self.Leaves R T)
    (hkept : ∀ {α : Type} {x : Evaluator → Eval α} {m : Machine} {q : α → Machine → Prop},
      own α x m q → m.IsTidy → Keeps (x self) m q)
    (hown : ∀ {α : Type} {x : Evaluator → Eval α} {m : Machine} {q : α → Machine → Prop},
      own α x m q → m.IsTidy → Leaves T (x self) m)
    (hm : m.IsTidy) : Leaves T (x self) m := by
  -- `T` is kept from part to part; that the machine stays tidy says where each part starts
  induction h with
  | pure _ => exact hrefl _
  | raise _ => exact hrefl _
  | broken _ => exact hrefl _
  | atom h => exact hatom h hm
  | world _ _ ih => exact ih hm
  | table _ _ _ ih => exact ih hm
  | bind hx hf ihx ihf =>
    refine Leaves.bind htrans (ihx hm) fun a m' hrun => ?_
    obtain ⟨hm', hext, ha⟩ := (hx.keeps hself hkept hm).of_ok hrun
    exact ihf a m' hm' hext ha hm'
  | weaken _ _ ih => exact ih hm
  | catching _ ih =>
    rw [Leaves, final_catching]
    exact ih hm
  | eval hc he => exact hleaves.eval hm hc he
  | exec hc hs => exact hleaves.exec hm hc hs
  | invoke held hf hthis hargs => exact hleaves.invoke held hm hf hthis hargs
  | @rounds m _ hloops hx ih =>
    -- before each round the machine is tidy, and has grown from `m`
    refine leaves_repeatRounds (i := fun m' => m'.IsTidy ∧ m.Extends m') hrefl htrans ?_ ?_ _
      ⟨hm, .refl m⟩
    · exact fun m₁ ⟨hm₁, hext₁⟩ => ih m₁ hm₁ hext₁ hm₁
    · intro m₁ m₂ ⟨hm₁, hext₁⟩ hrun
      obtain ⟨hm₂, hext₂, -⟩ := ((hx m₁ hm₁ hext₁).keeps hself hkept hm₁).of_ok hrun
      exact ⟨hm₂, hext₁.trans hext₂⟩
  | own h => exact hown h hm

/-- What single operations do is beside the run. -/
theorem Atom.beside {x : Eval α} (h : Atom R m x q) : Leaves Machine.Beside x m := by
  have hplain : ∀ (w : World) (output : String), w.classes = m.world.classes →
      m.Beside { m with world := w, output } := fun w output hclasses =>
    ⟨rfl, rfl, rfl, hclasses, [], rfl, fun _ h => nomatch h⟩
  -- an atom that looks an instance up records that it did, and the others record nothing
  cases h with
  | @instanceTable t _ target =>
    obtain ⟨o, table, -, -, hrun⟩ | hrun := instanceTable_cases t target m
    · rw [Leaves, final_of_ok hrun]
      refine ⟨rfl, rfl, rfl, rfl, [_], rfl, fun e he => ?_⟩
      exact List.mem_singleton.mp he ▸ rfl
    · rw [Leaves, final_of_error hrun]
      refine ⟨rfl, rfl, rfl, rfl, [_], rfl, fun e he => ?_⟩
      exact List.mem_singleton.mp he ▸ rfl
  | @classValue context home _ _ =>
    rw [Leaves, final_of_ok (classValue_eq context home m)]
    exact hplain m.world m.output rfl
  | _ => exact hplain _ _ rfl

/-! ### The evaluator -/

/-- A relation that everything keeps to that happens in runs. -/
structure IsKept (T : Machine → Machine → Prop) : Prop where
  refl : ∀ m, T m m
  trans : ∀ {m₁ m₂ m₃}, T m₁ m₂ → T m₂ m₃ → T m₁ m₃
  atom : ∀ {α : Type} {x : Eval α} {m : Machine} {q : α → Machine → Prop},
    Atom .anything m x q → m.IsTidy → Leaves T x m
  record : ∀ (m : Machine) (e : Event), e.isCall = false →
    T m { m with journal := e :: m.journal }
  register : ∀ {m : Machine} {t : TokenId} {o : ObjectId}, m.IsTidy →
    t.index < m.world.tokens.size → o.index < m.world.objects.size →
    Leaves T (onWorld fun w => w.registerInstance t o) m
  newConstruction : ∀ {m : Machine} {c : ClassRef} {o : ObjectId},
    Leaves T (newConstruction c o) m
  callSuper : ∀ (m : Machine) (id : ConstructionId), T m (m.callSuper id)
  makeClass : ∀ {m m' : Machine} {context : Context} {c : ClassDef} {parts : ClassParts},
    m.IsTidy → ClassMade context c m parts m' → T m m'
  refused : ∀ (m : Machine) (f : FunctionRef), m.maxDepth ≤ m.depth →
    T m { m with journal := .refused f :: m.journal }
  /-- What the function does that is called, between the beginning and the end of the call. -/
  call : ∀ {m m' : Machine} (f : FunctionRef) (this : Value), m.depth < m.maxDepth →
    T (enter f this m) m' → T m (leave f m')

end Eval

/-- An evaluator that keeps to a relation whatever it is given, constructors included. -/
structure Evaluator.LeavesAll (T : Machine → Machine → Prop) (parts : Evaluator) : Prop
    extends parts.Leaves .anything T where
  start : ∀ {m : Machine} {this : Value} {args : List Value} {construction : Option ConstructionId}
    (held : List Node) (f : FunctionRef), m.IsTidy → m.world.Passes this →
    (∀ v ∈ args, m.world.Passes v) → (∀ id ∈ construction, id.index < m.constructions.size) →
    Eval.Leaves T (parts.invoke held f this args construction) m

namespace Eval

section Kept

variable (hT : IsKept T)

include hT

theorem Primitive.leaves (hself : self.LeavesAll T) (h : Primitive .anything α x m q)
    (hm : m.IsTidy) : Leaves T (x self) m := by
  -- Each primitive is one step of the relation, or leaves the machine to the evaluator.
  cases h with
  | record e he => exact hT.record m e he
  | register ht _ ho => exact hT.register hm ht ho
  | newConstruction hc ho => exact hT.newConstruction
  | constructionAt id => exact hT.refl m
  | markSuperCalled id => exact hT.callSuper m id
  | invoke held f hthis hargs hconstruction =>
    exact hself.start held f hm hthis hargs fun id hid => (hconstruction id hid).1
  | @makeClass _ context c parent _ hc hparent =>
    obtain ⟨parts, m', hrun, hmade⟩ := makeClass_made hm context c hparent
    rw [Leaves, final_of_ok hrun]
    exact hT.makeClass hm hmade

/-- What is built without restrictions keeps to what is kept. -/
theorem Built.leaves_anything (hself : self.Keeps) (hleaves : self.LeavesAll T)
    (h : Built .anything (Primitive .anything) x m q) (hm : m.IsTidy) : Leaves T (x self) m :=
  h.leaves hT.refl hT.trans hT.atom hself hleaves.toLeaves (fun hx hm => hx.keeps hself hm)
    (fun hx hm => hx.leaves hT hleaves hm) hm

theorem leaves_invoke (hself : self.Keeps) (hleaves : self.LeavesAll T) (hm : m.IsTidy)
    (held : List Node) (f : FunctionRef) {this : Value} {args : List Value}
    {construction : Option ConstructionId} (hthis : m.world.Passes this)
    (hargs : ∀ v ∈ args, m.world.Passes v)
    (hconstruction : ∀ id ∈ construction, id.index < m.constructions.size) :
    Leaves T (invoke self held f this args construction) m := by
  obtain ⟨hdepth, hrun⟩ | ⟨hdepth, hrun⟩ := invoke_cases self held f this args construction m
  · rw [Leaves, final_of_error hrun]
    exact hT.refused m f hdepth
  · rw [Leaves, final, hrun, ← final, final_thenAlways]
    refine hT.call f this hdepth ?_
    exact (built_called_anything hm held f hthis hargs hconstruction).leaves_anything hT hself
      hleaves (tidy_enter hm f this).1

end Kept

end Eval

/-- **Whatever is kept in single operations and calls is kept by the evaluator**, in however many
steps. -/
theorem leaves_evaluator {T : Machine → Machine → Prop} (hT : Eval.IsKept T) (steps : ℕ) :
    (evaluator steps).LeavesAll T := by
  induction steps with
  | zero =>
    exact
      { eval := fun _ _ _ => hT.refl _
        exec := fun _ _ _ => hT.refl _
        invoke := fun _ _ _ _ _ => hT.refl _
        start := fun _ _ _ _ _ _ => hT.refl _ }
  | succ steps ih =>
    have hself := keeps_evaluator steps
    -- each layer is built of parts that leave the relation kept already
    have hcovers := Eval.supports_primitive.covers
    exact
      { eval := fun hm hc he => (Eval.built_evalExpr Eval.supports_primitive hm hc
          (hcovers _ he) fun _ => trivial).leaves_anything hT hself ih hm
        exec := fun hm hc hs => (Eval.built_execStmt Eval.supports_primitive hc
          (hcovers _ hs)).leaves_anything hT hself ih hm
        invoke := fun held hm _ hthis hargs =>
          Eval.leaves_invoke hT hself ih hm held _ hthis hargs fun _ h => nomatch h
        start := fun held f hm hthis hargs hconstruction =>
          Eval.leaves_invoke hT hself ih hm held f hthis hargs hconstruction }

end Enclave
