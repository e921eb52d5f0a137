import Enclave.Proofs.Eval.Agreement
import Enclave.Proofs.Eval.Origins

/-!
# What comes of a piece with more and more steps

With enough steps a piece may give a value for good, or stop with an error for good. If it does
neither it runs out of steps however many it has. Here the last is let pass only together with a
count that grows: that of *recursions*, installations begun by classes whose private fields
construct instances (`Machine.recursions`). Such an installation can lead to another without any
call in between, and nothing else can.

A piece *settles* under a bound if it does one of the three: give, stop, or exceed the bound
(`Eval.Settles`). Without loops, what is built from parts that settle settles
(`Eval.Built.settles`).
-/

namespace Enclave

/-- Whether a class has private fields whose initializers construct instances. -/
def Class.recurs (d : Class) : Bool :=
  d.fields.any fun f => f.initializer.any fun e => (Part.expr e).constructs

/-- Whether an event is the beginning of an installation by a class that constructs instances for
its private fields. -/
def World.isRecursion (w : World) : Event → Bool
  | .installing c _ => (w.classAt c).recurs
  | _ => false

/-- How often that has happened. -/
def Machine.recursions (m : Machine) : ℕ := m.journal.countP m.world.isRecursion

/-- Classes stay as they are, and what has happened has happened. -/
theorem Machine.Extends.recursions_le {m m' : Machine} (h : m.Extends m') :
    m.recursions ≤ m'.recursions := by
  have hsame : ∀ e ∈ m.journal, m.world.isRecursion e = true → m'.world.isRecursion e = true := by
    intro e _ he
    cases e with
    | installing c o =>
      -- a class with a field has been made
      obtain ⟨f, hf, -⟩ := List.any_eq_true.mp he
      change (m'.world.classAt c).recurs = true
      rw [h.world.classAt (World.lt_of_field hf)]
      exact he
    | _ => cases he
  calc m.journal.countP m.world.isRecursion
      ≤ m.journal.countP m'.world.isRecursion := List.countP_mono_left hsame
    _ ≤ m'.journal.countP m'.world.isRecursion := h.journal.sublist.countP_le

namespace Eval

/-- What comes of a piece: it gives a value, or stops, with enough steps and with any more; or it
runs out of steps however many it has, and exceeds a bound. -/
inductive Settles {α : Type} (bound : ℕ) (x : Evaluator → Eval α) (m : Machine) : Prop
  | gives (a : α) (m' : Machine) (n : ℕ) (h : ∀ k, n ≤ k → x (evaluator k) m = .ok a m')
  | stops (stop : Stop) (m' : Machine) (n : ℕ) (hstop : stop ≠ .exhausted)
    (h : ∀ k, n ≤ k → x (evaluator k) m = .error stop m')
  | exceeds (n : ℕ) (h : ∀ k, n ≤ k → ∃ m', x (evaluator k) m = .error .exhausted m' ∧
      bound < m'.recursions)

variable {α β : Type} {bound : ℕ} {m m' : Machine} {x : Evaluator → Eval α}

/-! ### Putting pieces together -/

theorem settles_of_ok {a : α} (h : ∀ self, x self m = .ok a m') : Settles bound x m :=
  .gives _ _ 0 fun _ _ => h _

theorem settles_of_error {stop : Stop} (h : ∀ self, x self m = .error stop m')
    (hstop : stop ≠ .exhausted) : Settles bound x m :=
  .stops _ _ 0 hstop fun _ _ => h _

theorem Settles.congr {y : Evaluator → Eval α} (hx : Settles bound x m')
    (h : ∀ self, y self m = x self m') : Settles bound y m := by
  cases hx with
  | gives a m' n hrun => exact .gives a m' n fun k hk => (h _).trans (hrun k hk)
  | stops stop m' n hstop hrun => exact .stops stop m' n hstop fun k hk => (h _).trans (hrun k hk)
  | exceeds n hrun =>
    refine .exceeds n fun k hk => ?_
    rw [h]
    exact hrun k hk

/-- What is done in one step settles if what the step consists of does. -/
theorem Settles.step {y : Evaluator → Eval α} (hx : Settles bound x m)
    (h : ∀ k, y (evaluator (k + 1)) m = x (evaluator k) m) : Settles bound y m := by
  -- one step fewer is still enough of them
  have hbefore : ∀ {n k : ℕ}, n + 1 ≤ k → ∃ k', n ≤ k' ∧
      y (evaluator k) m = x (evaluator k') m := by
    intro n k hk
    obtain ⟨k, rfl⟩ := Nat.exists_eq_add_of_le' hk
    exact ⟨k + n, Nat.le_add_left n k, h (k + n)⟩
  cases hx with
  | gives a m' n hrun =>
    refine .gives a m' (n + 1) fun k hk => ?_
    obtain ⟨k', hk', heq⟩ := hbefore hk
    rw [heq]
    exact hrun k' hk'
  | stops stop m' n hstop hrun =>
    refine .stops stop m' (n + 1) hstop fun k hk => ?_
    obtain ⟨k', hk', heq⟩ := hbefore hk
    rw [heq]
    exact hrun k' hk'
  | exceeds n hrun =>
    refine .exceeds (n + 1) fun k hk => ?_
    obtain ⟨k', hk', heq⟩ := hbefore hk
    rw [heq]
    exact hrun k' hk'

theorem Settles.bind {f : Evaluator → α → Eval β} (hx : Settles bound x m)
    (hf : ∀ a m' k, x (evaluator k) m = .ok a m' → Settles bound (fun self => f self a) m') :
    Settles bound (fun self => x self >>= f self) m := by
  -- with the same steps, the whole does what its first part does, until that has ended well
  have hok : ∀ {k : ℕ} {a : α} {m' : Machine}, x (evaluator k) m = .ok a m' →
      (x (evaluator k) >>= f (evaluator k)) m = f (evaluator k) a m' := fun hrun => by
    change EStateM.bind _ _ m = _
    rw [EStateM.bind, hrun]
  have herror : ∀ {k : ℕ} {stop : Stop} {m' : Machine}, x (evaluator k) m = .error stop m' →
      (x (evaluator k) >>= f (evaluator k)) m = .error stop m' := fun hrun => by
    change EStateM.bind _ _ m = _
    rw [EStateM.bind, hrun]
  cases hx with
  | stops stop m' n hstop hrun => exact .stops stop m' n hstop fun k hk => herror (hrun k hk)
  -- what ends the first part ends the whole
  | exceeds n hrun =>
    refine .exceeds n fun k hk => ?_
    obtain ⟨m', hrun', hbound⟩ := hrun k hk
    exact ⟨m', herror hrun', hbound⟩
  | gives a m' n hrun =>
    -- with as many steps as both need, the second follows the first
    cases hf a m' n (hrun n (Nat.le_refl n)) with
    | gives b m'' n' hrun' =>
      refine .gives b m'' (max n n') fun k hk => ?_
      rw [hok (hrun k (le_of_max_le_left hk))]
      exact hrun' k (le_of_max_le_right hk)
    | stops stop m'' n' hstop hrun' =>
      refine .stops stop m'' (max n n') hstop fun k hk => ?_
      rw [hok (hrun k (le_of_max_le_left hk))]
      exact hrun' k (le_of_max_le_right hk)
    | exceeds n' hrun' =>
      refine .exceeds (max n n') fun k hk => ?_
      rw [hok (hrun k (le_of_max_le_left hk))]
      exact hrun' k (le_of_max_le_right hk)

theorem Settles.catching (hx : Settles bound x m) :
    Settles bound (fun self => catching (x self)) m := by
  cases hx with
  | gives a m' n hrun =>
    refine .gives (.ok a) m' n fun k hk => ?_
    rw [Eval.catching, hrun k hk]
  | stops stop m' n hstop hrun =>
    -- what was thrown is caught, what is broken is not
    cases stop with
    | raised e =>
      refine .gives (.error e) m' n fun k hk => ?_
      rw [Eval.catching, hrun k hk]
    | broken fault =>
      refine .stops (.broken fault) m' n hstop fun k hk => ?_
      rw [Eval.catching, hrun k hk]
    | exhausted => exact absurd rfl hstop
  | exceeds n hrun =>
    refine .exceeds n fun k hk => ?_
    obtain ⟨m', hrun', hbound⟩ := hrun k hk
    refine ⟨m', ?_, hbound⟩
    rw [Eval.catching, hrun']

theorem Settles.thenAlways {g : Machine → Machine} (hx : Settles bound x m)
    (hg : ∀ m', (g m').recursions = m'.recursions) :
    Settles bound (fun self => thenAlways (x self) g) m := by
  -- the change is made wherever the run ends, and records no recursion
  cases hx with
  | gives a m' n hrun =>
    refine .gives a (g m') n fun k hk => ?_
    rw [Eval.thenAlways, hrun k hk]
  | stops stop m' n hstop hrun =>
    refine .stops stop (g m') n hstop fun k hk => ?_
    rw [Eval.thenAlways, hrun k hk]
  | exceeds n hrun =>
    refine .exceeds n fun k hk => ?_
    obtain ⟨m', hrun', hbound⟩ := hrun k hk
    refine ⟨g m', ?_, ?_⟩
    · rw [Eval.thenAlways, hrun']
    · rw [hg]
      exact hbound

/-- Where the bound is exceeded already, everything settles. -/
theorem settles_of_exceeding {q : α → Machine → Prop}
    (hx : Built .anything (Primitive .anything) x m q) (hm : m.IsTidy)
    (hbound : bound < m.recursions) : Settles bound x m := by
  have hagree : ∀ {k k' : ℕ}, k ≤ k' → Agree True (x (evaluator k) m) (x (evaluator k') m) :=
    fun {k _} hle => hx.agrees_anything (keeps_evaluator k) (agrees_evaluator_le hle)
      (fun _ _ _ => stays_true _ _) hm trivial
  by_cases hends : ∃ k, ∀ m', x (evaluator k) m ≠ .error .exhausted m'
  · -- what ends once ends in the same way with more steps
    obtain ⟨n, hn⟩ := hends
    have hsame : ∀ k, n ≤ k → x (evaluator k) m = x (evaluator n) m := fun k hk =>
      ((hagree hk).resolve_right fun h => h.2.elim hn).symm
    cases hrun : x (evaluator n) m with
    | ok a m' => exact .gives a m' n fun k hk => (hsame k hk).trans hrun
    | error stop m' =>
      refine .stops stop m' n (fun hstop => ?_) fun k hk => (hsame k hk).trans hrun
      rw [hstop] at hrun
      exact hn m' hrun
  · refine .exceeds 0 fun k _ => ?_
    have hk : ∃ m', x (evaluator k) m = .error .exhausted m' := by
      by_contra hnone
      exact hends ⟨k, fun m' hm' => hnone ⟨m', hm'⟩⟩
    obtain ⟨m', hrun⟩ := hk
    have hext := (hx.keeps_anything (keeps_evaluator k) hm).final.2
    rw [final_of_error hrun] at hext
    exact ⟨m', hrun, hbound.trans_le hext.recursions_le⟩

end Eval

/-! ### What is left to be done -/

/-- A piece of syntax that is no loop. -/
def Part.IsPlain (p : Part) : Prop := p.isLoop = false

/-- How much may still happen, where nothing is a loop: so many calls may be begun inside each
other, and so many recursions until a bound is exceeded. -/
structure Machine.HasLeft (bound calls installs : ℕ) (m : Machine) : Prop where
  madeOf : m.MadeOf Part.IsPlain
  calls : m.maxDepth ≤ m.depth + calls
  installs : bound < m.recursions + installs

theorem Machine.HasLeft.proceed {bound calls installs : ℕ} {m m' : Machine}
    (h : m.HasLeft bound calls installs) (hproceeds : m.Proceeds Part.IsPlain m')
    (hext : m.Extends m') : m'.HasLeft bound calls installs := by
  obtain ⟨hmade, hdepth, hmax⟩ := hproceeds h.madeOf
  refine ⟨hmade, ?_, h.installs.trans_le (Nat.add_le_add_right hext.recursions_le installs)⟩
  rw [hdepth, hmax]
  exact h.calls

/-- On what machines parts settle that run on some terms. -/
structure Terms.SettleOn (R : Terms) (bound : ℕ) (inv : Machine → Prop) : Prop where
  eval : ∀ {m : Machine} {context : Context} {e : Expr}, m.IsTidy → inv m →
    R.Suits m context.frame → R.code (.expr e) →
    Eval.Settles bound (fun self => self.eval context e) m
  exec : ∀ {m : Machine} {context : Context} {s : Stmt}, m.IsTidy → inv m →
    R.Suits m context.frame → R.code (.stmt s) →
    Eval.Settles bound (fun self => self.exec context s) m
  invoke : ∀ {m : Machine} {this : Value} {args : List Value} {construction : Option ConstructionId}
    (held : List Node) (f : FunctionRef), m.IsTidy → inv m → m.world.Passes this →
    (∀ v ∈ args, m.world.Passes v) → (∀ id ∈ construction, id.index < m.constructions.size) →
    Eval.Settles bound (fun self => self.invoke held f this args construction) m

namespace Eval

variable {α : Type} {bound calls installs : ℕ} {R : Terms} {own : Pieces} {m : Machine}
  {x : Evaluator → Eval α} {q : α → Machine → Prop}

/-- Single operations do not run out of steps. -/
theorem Atom.settles {x : Eval α} (h : Atom R m x q) : Settles bound (fun _ => x) m := by
  cases h with
  | @instanceTable t _ target =>
    obtain ⟨o, table, -, -, hrun⟩ | hrun := instanceTable_cases t target m
    · exact settles_of_ok fun _ => hrun
    · exact settles_of_error (fun _ => hrun) fun h => nomatch h
  | @classValue context home _ _ =>
    exact settles_of_ok fun _ => classValue_eq context home m
  | _ => exact settles_of_ok fun _ => rfl

theorem Primitive.settles (hs : R.SettleOn bound (Machine.HasLeft bound calls installs))
    (h : Primitive R α x m q) (hm : m.IsTidy) (hleft : m.HasLeft bound calls installs) :
    Settles bound x m := by
  cases h with
  | invoke held f hthis hargs hconstruction =>
    exact hs.invoke held f hm hleft hthis hargs fun id hid => (hconstruction id hid).1
  | @makeClass _ context c parent _ hc hparent =>
    obtain ⟨parts, m', hrun, -⟩ := makeClass_made hm context c hparent
    exact settles_of_ok fun _ => hrun
  | _ => exact settles_of_ok fun _ => rfl

/-- **Pieces settle** without loops, if their parts do and what is their own does. -/
theorem Built.settles (h : Built R own x m q) (hloops : ¬R.loops)
    (hcode : ∀ p, R.code p → p.All Part.IsPlain)
    (hs : R.SettleOn bound (Machine.HasLeft bound calls installs))
    (hkept : ∀ {α : Type} {x : Evaluator → Eval α} {m : Machine} {q : α → Machine → Prop},
      own α x m q → m.IsTidy → ∀ k, Keeps (x (evaluator k)) m q)
    (hproceeds : ∀ {α : Type} {x : Evaluator → Eval α} {m : Machine} {q : α → Machine → Prop},
      own α x m q → m.IsTidy → ∀ k, Leaves (Machine.Proceeds Part.IsPlain) (x (evaluator k)) m)
    (hown : ∀ {α : Type} {x : Evaluator → Eval α} {m : Machine} {q : α → Machine → Prop},
      own α x m q → m.IsTidy → m.HasLeft bound calls installs → Settles bound x m)
    (hm : m.IsTidy) (hleft : m.HasLeft bound calls installs) : Settles bound x m := by
  induction h with
  | pure _ => exact settles_of_ok fun _ => rfl
  | raise _ => exact settles_of_error (fun _ => rfl) fun h => by cases h
  | broken _ => exact settles_of_error (fun _ => rfl) fun h => by cases h
  | atom h => exact h.settles
  -- what is read from the world does not depend on the steps
  | world _ _ ih => exact (ih hm hleft).congr fun _ => rfl
  | table _ _ _ ih => exact (ih hm hleft).congr fun _ => rfl
  | @bind _ _ m _ _ x f hx hf ihx ihf =>
    refine (ihx hm hleft).bind fun a m' k hrun => ?_
    have hkeeps := keeps_evaluator k
    obtain ⟨hm', hext, ha⟩ := (hx.keeps hkeeps (fun hx hm => hkept hx hm k) hm).of_ok hrun
    -- what the first part leaves has as much left as before
    have hnext : m.Proceeds Part.IsPlain m' := by
      have hfinal := hx.proceeds hcode hkeeps (proceeds_evaluator _ k) (fun hx hm => hkept hx hm k)
        (fun hx hm => hproceeds hx hm k) hm
      rwa [Leaves, final_of_ok hrun] at hfinal
    exact ihf a m' hm' hext ha hm' (hleft.proceed hnext hext)
  | weaken _ _ ih => exact ih hm hleft
  | catching _ ih => exact (ih hm hleft).catching
  | eval hc he => exact hs.eval hm hleft hc he
  | exec hc he => exact hs.exec hm hleft hc he
  | invoke held _ hthis hargs =>
    exact hs.invoke held _ hm hleft hthis hargs fun _ hid => by cases hid
  -- the rules leave no loops
  | rounds h _ _ => exact absurd h hloops
  -- the steps that the rules add of their own settle by hypothesis
  | own h => exact hown h hm hleft

end Eval

end Enclave
