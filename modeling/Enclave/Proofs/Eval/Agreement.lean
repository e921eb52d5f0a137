import Enclave.Proofs.Eval.Relations

/-!
# Evaluators that agree

A piece asks the evaluator for its parts and for nothing else. So two evaluators that agree on the
parts agree on the piece (`Built.agrees`), where agreeing means that they end in the same way, or,
loosely, that the first may also have run out of steps.

* An evaluation that finishes is not changed by more steps (`evaluator_le`).
* An *observed* evaluator (`observed`) has something done around every evaluation of an expression,
  every execution of a statement and every call. If what is done leaves the evaluation as it is
  wherever it gets to, the observed evaluator is the evaluator (`observed_eq`). In this way it can
  be said that something holds at every point of a run, and not only at its end.
-/

namespace Enclave

/-! ### Agreeing ends -/

/-- Two ends that are the same; or, loosely, the first is that of running out of steps. -/
def Eval.Agree {α : Type} (isLoose : Prop) (r r' : EStateM.Result Stop Machine α) : Prop :=
  r = r' ∨ isLoose ∧ ∃ m, r = .error .exhausted m

/-- Evaluators that agree on everything they may be given on machines of a kind. -/
structure Evaluator.Agrees (isLoose : Prop) (inv : Machine → Prop) (parts parts' : Evaluator) :
    Prop where
  eval : ∀ {m : Machine} {context : Context} (e : Expr), m.IsTidy → inv m →
    m.Suits context.frame → Eval.Agree isLoose (parts.eval context e m) (parts'.eval context e m)
  exec : ∀ {m : Machine} {context : Context} (s : Stmt), m.IsTidy → inv m →
    m.Suits context.frame → Eval.Agree isLoose (parts.exec context s m) (parts'.exec context s m)
  invoke : ∀ {m : Machine} {this : Value} {args : List Value} {construction : Option ConstructionId}
    (held : List Node) (f : FunctionRef), m.IsTidy → inv m → m.world.Passes this →
    (∀ v ∈ args, m.world.Passes v) → (∀ id ∈ construction, id.index < m.constructions.size) →
    Eval.Agree isLoose (parts.invoke held f this args construction m)
      (parts'.invoke held f this args construction m)
  rounds : parts.rounds = parts'.rounds ∨ isLoose ∧ parts.rounds ≤ parts'.rounds

namespace Eval

variable {α β : Type} {isLoose : Prop} {m : Machine} {x x' : Eval α} {f f' : α → Eval β}

theorem Agree.refl (r : EStateM.Result Stop Machine α) : Agree isLoose r r := Or.inl rfl

theorem Agree.trans {r r' r'' : EStateM.Result Stop Machine α} (h : Agree isLoose r r')
    (h' : Agree isLoose r' r'') : Agree isLoose r r'' := by
  obtain rfl | h := h
  · exact h'
  · exact Or.inr h

theorem Agree.bind (hx : Agree isLoose (x m) (x' m))
    (hf : ∀ a m', x m = .ok a m' → Agree isLoose (f a m') (f' a m')) :
    Agree isLoose ((x >>= f) m) ((x' >>= f') m) := by
  change Agree isLoose (EStateM.bind x f m) (EStateM.bind x' f' m)
  unfold EStateM.bind
  -- Either both runs are the same so far, or the loose one has given up.
  obtain hsame | ⟨hloose, m', hrun⟩ := hx
  · rw [← hsame]
    cases hrun : x m with
    | ok a m' => exact hf a m' hrun
    | error stop m' => exact .refl _
  · rw [hrun]
    exact Or.inr ⟨hloose, m', rfl⟩

theorem Agree.catching (hx : Agree isLoose (x m) (x' m)) :
    Agree isLoose (catching x m) (catching x' m) := by
  unfold Eval.catching
  obtain hsame | ⟨hloose, m', hrun⟩ := hx
  · rw [← hsame]
    exact .refl _
  · rw [hrun]
    exact Or.inr ⟨hloose, m', rfl⟩

theorem Agree.thenAlways {g : Machine → Machine} (hx : Agree isLoose (x m) (x' m)) :
    Agree isLoose (thenAlways x g m) (thenAlways x' g m) := by
  unfold Eval.thenAlways
  obtain hsame | ⟨hloose, m', hrun⟩ := hx
  · rw [← hsame]
    exact .refl _
  · rw [hrun]
    exact Or.inr ⟨hloose, g m', rfl⟩

/-- Loops whose rounds agree agree, if the one may make as many rounds as the other. -/
theorem agree_repeatRounds {round round' : Eval (Option Flow)} {i : Machine → Prop}
    (hround : ∀ m, i m → Agree isLoose (round m) (round' m))
    (hinv : ∀ m m', i m → round m = .ok (some .normal) m' → i m') {n n' : ℕ}
    (hn : n = n' ∨ isLoose ∧ n ≤ n') (hm : i m) :
    Agree isLoose (repeatRounds round n m) (repeatRounds round' n' m) := by
  -- rounds left on the one side are a round left on the other, or the agreement is loose
  induction n generalizing m n' with
  | zero =>
    obtain rfl | ⟨hloose, -⟩ := hn
    · exact .refl _
    · exact Or.inr ⟨hloose, m, rfl⟩
  | succ n ih =>
    cases n' with
    | zero =>
      obtain h | ⟨-, h⟩ := hn
      · cases h
      · exact absurd h (Nat.not_succ_le_zero n)
    | succ n' =>
      -- both sides have a round left: only a round that ends normally is followed by another
      refine Agree.bind (hround m hm) fun flow? m' hrun => ?_
      match flow? with
      | none => exact .refl _
      | some (.returned v) => exact .refl _
      | some .normal =>
        exact ih (hn.imp Nat.succ.inj fun h => ⟨h.1, Nat.le_of_succ_le_succ h.2⟩)
          (hinv m m' hm hrun)

/-! ### Pieces -/

section Pieces

variable {R : Terms} {own : Pieces} {self self' : Evaluator} {inv : Machine → Prop}

/-- What a piece does on a machine of a kind leaves such a machine. -/
def Stays (inv : Machine → Prop) (x : Eval α) (m : Machine) : Prop :=
  ∀ m', (∃ a, x m = .ok a m') ∨ (∃ e, x m = .error (.raised e) m') → inv m'

section Pieces

variable (hself : self.Keeps) (hagrees : self.Agrees isLoose inv self')
  (hkept : ∀ {α : Type} {x : Evaluator → Eval α} {m : Machine} {q : α → Machine → Prop},
    own α x m q → m.IsTidy → Keeps (x self) m q)
  (hstays : ∀ {α : Type} {x : Evaluator → Eval α} {m : Machine} {q : α → Machine → Prop},
    Built R own x m q → m.IsTidy → inv m → Stays inv (x self) m)
  (hown : ∀ {α : Type} {x : Evaluator → Eval α} {m : Machine} {q : α → Machine → Prop},
    own α x m q → m.IsTidy → inv m → Agree isLoose (x self m) (x self' m))

include hself hagrees hkept hstays hown

/-- **Agreement** passes from the parts of a piece to the piece. -/
theorem Built.agrees {x : Evaluator → Eval α} {q : α → Machine → Prop} (h : Built R own x m q)
    (hm : m.IsTidy) (hi : inv m) : Agree isLoose (x self m) (x self' m) := by
  induction h with
  | pure _ => exact .refl _
  | raise _ => exact .refl _
  | broken _ => exact .refl _
  | atom _ => exact .refl _
  | world hblind _ ih => exact ih hm hi
  | table k ht _ ih => exact ih hm hi
  -- the rest starts where the first part ended, so what is asked of it must have been kept
  | bind hx hf ihx ihf =>
    refine Agree.bind (ihx hm hi) fun a m' hrun => ?_
    obtain ⟨hm', hext, ha⟩ := (hx.keeps hself hkept hm).of_ok hrun
    exact ihf a m' hm' hext ha hm' (hstays hx hm hi m' (Or.inl ⟨a, hrun⟩))
  | weaken _ _ ih => exact ih hm hi
  | catching _ ih => exact Agree.catching (ih hm hi)
  | eval hc _ => exact hagrees.eval _ hm hi hc.toSuits
  | exec hc _ => exact hagrees.exec _ hm hi hc.toSuits
  | invoke held hf hthis hargs =>
    exact hagrees.invoke held _ hm hi hthis hargs fun _ h => nomatch h
  -- what holds before each round: the machine is tidy, grown from `m`, and still in `inv`
  | @rounds m _ hloops hx ih =>
    refine agree_repeatRounds (i := fun m' => (m'.IsTidy ∧ m.Extends m') ∧ inv m') ?_ ?_
      hagrees.rounds ⟨⟨hm, .refl m⟩, hi⟩
    · exact fun m₁ ⟨⟨hm₁, hext₁⟩, hi₁⟩ => ih m₁ hm₁ hext₁ hm₁ hi₁
    · intro m₁ m₂ ⟨⟨hm₁, hext₁⟩, hi₁⟩ hrun
      obtain ⟨hm₂, hext₂, -⟩ := ((hx m₁ hm₁ hext₁).keeps hself hkept hm₁).of_ok hrun
      exact ⟨⟨hm₂, hext₁.trans hext₂⟩,
        hstays (hx m₁ hm₁ hext₁) hm₁ hi₁ m₂ (Or.inl ⟨_, hrun⟩)⟩
  | own h => exact hown h hm hi

end Pieces

theorem Primitive.agrees (hagrees : self.Agrees isLoose inv self') {x : Evaluator → Eval α}
    {q : α → Machine → Prop} (h : Primitive R α x m q) (hm : m.IsTidy) (hi : inv m) :
    Agree isLoose (x self m) (x self' m) := by
  cases h with
  | invoke held f hthis hargs hconstruction =>
    exact hagrees.invoke held f hm hi hthis hargs fun id hid => (hconstruction id hid).1
  | _ => exact .refl _

end Pieces

/-! ### The evaluator -/

section Step

variable {self self' : Evaluator} {inv : Machine → Prop} (hself : self.Keeps)
  (hagrees : self.Agrees isLoose inv self')
  (hstays : ∀ {α : Type} {x : Evaluator → Eval α} {m : Machine} {q : α → Machine → Prop},
    Built .anything (Primitive .anything) x m q → m.IsTidy → inv m → Stays inv (x self) m)

include hself hagrees hstays

/-- What is built without restrictions agrees if the parts do. -/
theorem Built.agrees_anything {x : Evaluator → Eval α} {q : α → Machine → Prop}
    (h : Built .anything (Primitive .anything) x m q) (hm : m.IsTidy) (hi : inv m) :
    Agree isLoose (x self m) (x self' m) :=
  h.agrees hself hagrees (fun hx hm => hx.keeps hself hm) hstays
    (fun hx hm hi => hx.agrees hagrees hm hi) hm hi

theorem agree_evalExpr {context : Context} (hm : m.IsTidy) (hi : inv m)
    (hc : m.Suits context.frame) (e : Expr) :
    Agree isLoose (evalExpr self context e m) (evalExpr self' context e m) :=
  (built_evalExpr supports_primitive hm (Terms.suits_anything hc)
    (supports_primitive.covers _ trivial) fun _ => trivial).agrees_anything hself hagrees hstays hm
    hi

theorem agree_execStmt {context : Context} (hm : m.IsTidy) (hi : inv m)
    (hc : m.Suits context.frame) (s : Stmt) :
    Agree isLoose (execStmt self context s m) (execStmt self' context s m) :=
  (built_execStmt supports_primitive (Terms.suits_anything hc)
    (supports_primitive.covers _ trivial)).agrees_anything hself hagrees hstays hm hi

/-- Calls agree if the functions do that run in them. -/
theorem agree_invoke (hm : m.IsTidy) (held : List Node) (f : FunctionRef) {this : Value}
    {args : List Value} {construction : Option ConstructionId}
    (henter : m.depth < m.maxDepth → inv (enter f this m)) (hthis : m.world.Passes this)
    (hargs : ∀ v ∈ args, m.world.Passes v)
    (hconstruction : ∀ id ∈ construction, id.index < m.constructions.size) :
    Agree isLoose (invoke self held f this args construction m)
      (invoke self' held f this args construction m) := by
  -- refused on both sides or on neither, the depth being the same
  obtain ⟨hmax, hrun⟩ | ⟨hmax, hrun⟩ := invoke_cases self held f this args construction m <;>
    obtain ⟨hmax', hrun'⟩ | ⟨hmax', hrun'⟩ := invoke_cases self' held f this args construction m
  · rw [hrun, hrun']
    exact .refl _
  · omega
  · omega
  · rw [hrun, hrun']
    refine Agree.thenAlways ?_
    exact (built_called_anything hm held f hthis hargs hconstruction).agrees_anything hself hagrees
      hstays (tidy_enter hm f this).1 (henter hmax)

end Step

end Eval

/-! ### More steps -/

/-- The kind of all machines. -/
theorem Eval.stays_true {α : Type} (x : Eval α) (m : Machine) : Eval.Stays (fun _ => True) x m :=
  fun _ _ => trivial

/-- **One more step** changes nothing about what finishes. -/
theorem agrees_evaluator_succ (steps : ℕ) :
    (evaluator steps).Agrees True (fun _ => True) (evaluator (steps + 1)) := by
  induction steps with
  -- with no steps, the first of the two is exhausted whatever it is given
  | zero =>
    have hexhausted : ∀ {α : Type} (m : Machine) (r : EStateM.Result Stop Machine α),
        Eval.Agree True (.error .exhausted m) r := fun m r => Or.inr ⟨trivial, m, rfl⟩
    exact
      { eval := fun _ _ _ _ => hexhausted _ _
        exec := fun _ _ _ _ => hexhausted _ _
        invoke := fun _ _ _ _ _ _ _ => hexhausted _ _
        rounds := Or.inr ⟨trivial, Nat.zero_le _⟩ }
  | succ steps ih =>
    have hself := keeps_evaluator steps
    exact
      { eval := fun e hm _ hc =>
          Eval.agree_evalExpr hself ih (fun _ _ _ => Eval.stays_true _ _) hm trivial hc e
        exec := fun s hm _ hc =>
          Eval.agree_execStmt hself ih (fun _ _ _ => Eval.stays_true _ _) hm trivial hc s
        invoke := fun held f hm _ hthis hargs hconstruction =>
          Eval.agree_invoke hself ih (fun _ _ _ => Eval.stays_true _ _) hm held f
            (fun _ => trivial) hthis hargs hconstruction
        rounds := Or.inr ⟨trivial, Nat.le_succ _⟩ }

/-- **More steps** change nothing about what finishes. -/
theorem agrees_evaluator_le {n k : ℕ} (h : n ≤ k) :
    (evaluator n).Agrees True (fun _ => True) (evaluator k) := by
  -- from `n` on, one step is added at a time
  induction h with
  | refl =>
    exact
      { eval := fun _ _ _ _ => .refl _
        exec := fun _ _ _ _ => .refl _
        invoke := fun _ _ _ _ _ _ _ => .refl _
        rounds := Or.inl rfl }
  | @step k _ ih =>
    have hnext := agrees_evaluator_succ k
    exact
      { eval := fun e hm hi hc => (ih.eval e hm hi hc).trans (hnext.eval e hm hi hc)
        exec := fun s hm hi hc => (ih.exec s hm hi hc).trans (hnext.exec s hm hi hc)
        invoke := fun held f hm hi hthis hargs hconstruction =>
          (ih.invoke held f hm hi hthis hargs hconstruction).trans
            (hnext.invoke held f hm hi hthis hargs hconstruction)
        rounds := Or.inr ⟨trivial, (ih.rounds.elim Nat.le_of_eq And.right).trans
          (hnext.rounds.elim Nat.le_of_eq And.right)⟩ }

/-! ### Observed evaluators -/

/-- Something that is evaluated. -/
inductive Activity
  | eval (context : Context) (e : Expr)
  | exec (context : Context) (s : Stmt)
  | invoke (f : FunctionRef) (this : Value)

/-- What is evaluated fits the machine. -/
def Activity.Fits (m : Machine) : Activity → Prop
  | .eval context _ | .exec context _ => m.Suits context.frame
  | .invoke _ this => m.world.Passes this

/-- What is done around the evaluations that an evaluator is made of. -/
abbrev Observer : Type 1 := {α : Type} → Activity → Eval α → Eval α

/-- The evaluator with something done around every evaluation of an expression, every execution of a
statement and every call. -/
def observed (around : Observer) : (steps : ℕ) → Evaluator
  | 0 => .exhausted
  | steps + 1 =>
    { eval := fun context e =>
        around (.eval context e) (Eval.evalExpr (observed around steps) context e)
      exec := fun context s =>
        around (.exec context s) (Eval.execStmt (observed around steps) context s)
      invoke := fun held f this args construction =>
        around (.invoke f this)
          (Eval.invoke (observed around steps) held f this args construction)
      rounds := steps }

/-- Observed evaluators keep machines tidy if what is done around an evaluation keeps what it keeps.
-/
theorem keeps_observed {around : Observer}
    (haround : ∀ {α : Type} (a : Activity) {x : Eval α} {m : Machine} {q : α → Machine → Prop},
      m.IsTidy → Eval.Keeps x m q → Eval.Keeps (around a x) m q) (steps : ℕ) :
    (observed around steps).Keeps := by
  have hcovers := Eval.supports_primitive.covers
  -- On the steps: what is observed is built of parts that are observed with one step less.
  induction steps with
  | zero => exact keeps_evaluator 0
  | succ steps ih =>
    exact
      { eval := fun e hm hc => haround (.eval _ e) hm ((Eval.built_evalExpr
          Eval.supports_primitive hm (Terms.suits_anything hc) (hcovers _ trivial)
          fun _ => trivial).keeps_anything ih hm)
        exec := fun s hm hc => haround (.exec _ s) hm ((Eval.built_execStmt Eval.supports_primitive
          (Terms.suits_anything hc) (hcovers _ trivial)).keeps_anything ih hm)
        invoke := fun held f hm hthis hargs hconstruction => haround (.invoke f _) hm
          (Eval.keeps_invoke ih hm held f hthis hargs hconstruction) }

section Observed

variable {around : Observer} {inv : Machine → Prop} {T : Machine → Machine → Prop}
  (hT : Eval.IsKept T) (hinv : ∀ {m m'}, inv m → T m m' → inv m')

include hT hinv

/-- What everything keeps to leads from machines of a kind to such machines. -/
theorem Eval.Built.stays {α : Type} {x : Evaluator → Eval α} {m : Machine}
    {q : α → Machine → Prop} (hx : Built .anything (Primitive .anything) x m q) (hm : m.IsTidy)
    (hi : inv m) (steps : ℕ) : Stays inv (x (evaluator steps)) m := by
  intro m' hrun
  have hleft := hx.leaves_anything hT (keeps_evaluator steps) (leaves_evaluator hT steps) hm
  obtain ⟨a, hrun⟩ | ⟨e, hrun⟩ := hrun
  · rw [Leaves, final_of_ok hrun] at hleft
    exact hinv hi hleft
  · rw [Leaves, final_of_error hrun] at hleft
    exact hinv hi hleft

variable (henter : ∀ {m : Machine} (f : FunctionRef) (this : Value), inv m →
    m.depth < m.maxDepth → inv (Eval.enter f this m))
  (haround : ∀ {α : Type} (a : Activity) (x : Eval α) {m : Machine}, m.IsTidy → a.Fits m →
    inv m → T m (Eval.final x m) → around a x m = x m)

include henter haround

/-- Suppose that what is done around an evaluation leaves it as it is where the machine is of a kind
and stands in a relation to what is left of it. If everything keeps to the relation, and it leads
from machines of the kind to such machines, then the observed evaluator agrees with the evaluator on
machines of the kind. -/
theorem observed_agrees (steps : ℕ) :
    (evaluator steps).Agrees False inv (observed around steps) := by
  -- the observer looks at a run that agrees with the unwatched one, so it sees that run itself
  have hwatched : ∀ {α : Type} (a : Activity) {x x' : Eval α} {m : Machine}, m.IsTidy →
      a.Fits m → inv m → Eval.Leaves T x m → Eval.Agree False (x m) (x' m) →
      Eval.Agree False (x m) (around a x' m) := by
    intro α a x x' m hm hfits hi hleaves hagree
    obtain hsame | ⟨hfalse, -⟩ := hagree
    · refine Or.inl ?_
      rw [haround a x' hm hfits hi, hsame]
      rwa [Eval.final, ← hsame]
    · exact hfalse.elim
  -- each layer of the evaluator is observed once, around parts that agree already
  induction steps with
  | zero =>
    exact
      { eval := fun _ _ _ _ => .refl _
        exec := fun _ _ _ _ => .refl _
        invoke := fun _ _ _ _ _ _ _ => .refl _
        rounds := Or.inl rfl }
  | succ steps ih =>
    have hself := keeps_evaluator steps
    have hnext := leaves_evaluator hT (steps + 1)
    have hsuits : ∀ {m : Machine} {context : Context}, m.Suits context.frame →
        Terms.anything.Suits m context.frame := fun hc =>
      (Terms.suits_anything hc)
    exact
      { eval := fun e hm hi hc => hwatched (.eval _ e) hm hc hi
          (hnext.eval hm (hsuits hc) trivial)
          (Eval.agree_evalExpr hself ih (fun hx hm hi => hx.stays hT hinv hm hi steps) hm hi hc e)
        exec := fun s hm hi hc => hwatched (.exec _ s) hm hc hi
          (hnext.exec hm (hsuits hc) trivial)
          (Eval.agree_execStmt hself ih (fun hx hm hi => hx.stays hT hinv hm hi steps) hm hi hc s)
        invoke := fun held f hm hi hthis hargs hconstruction =>
          hwatched (.invoke f _) hm hthis hi
            (hnext.start held f hm hthis hargs hconstruction)
            (Eval.agree_invoke hself ih (fun hx hm hi => hx.stays hT hinv hm hi steps) hm held f
              (henter f _ hi) hthis hargs hconstruction)
        rounds := Or.inl rfl }

/-- **Observation** makes no difference to what is built, if it makes none at machines of the kind.
-/
theorem observed_eq {α : Type} {x : Evaluator → Eval α} {m : Machine} {q : α → Machine → Prop}
    (hx : Eval.Built .anything (Eval.Primitive .anything) x m q) (hm : m.IsTidy) (hi : inv m)
    (steps : ℕ) : x (observed around steps) m = x (evaluator steps) m := by
  have hagrees := observed_agrees hT hinv henter haround steps
  have hagree := hx.agrees_anything (keeps_evaluator steps) hagrees
    (fun hx hm hi => hx.stays hT hinv hm hi steps) hm hi
  exact (hagree.resolve_right fun h => h.1).symm

end Observed

end Enclave
