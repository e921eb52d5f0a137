import Enclave.Proofs.Eval.Indifference
import Enclave.Proofs.Session.Tidiness

/-!
# Noninterference

What is private to a class is invisible outside of it. Suppose that an expression or a statement is
evaluated in a frame that does not belong to the class of a token, and that it finishes without
anything happening that concerns the token. On a machine on which the tables of the token have other
contents it then ends in the same way, with the same output and on a machine that differs again only
in these contents, and the tables are what they were (`Machine.MayRefill.noninterference`).

This needs that the same classes are there on both machines where functions take their class. A
private member may be all that keeps a class alive, and a static method called through `static` has
no receiver if its class is gone: here the contents of tables do make a difference
(`Session.not_indifferent_of_kept`).
-/

namespace Enclave

namespace Eval

variable {α : Type} {t : TokenId} {contents : Contents} {steps : ℕ} {x : Evaluator → Eval α}
  {m : Machine}

/-- What is evaluated finishes, and has nothing to do with the class of a token. -/
structure Uninvolved (t : TokenId) (contents : Contents) (steps : ℕ) (x : Evaluator → Eval α)
    (m : Machine) : Prop where
  finishes : ∀ m', x (evaluator steps) m ≠ .error .exhausted m'
  /-- No function is called that was written in the class, and no instance of it is constructed. -/
  quiet : m.IsQuiet (final (x (evaluator steps)) m).world t (final (x (evaluator steps)) m)
  /-- Where a function takes its class, this is there on both machines or on neither. -/
  links : x (observed (minding contents) steps) m = x (evaluator steps) m

/-- What is evaluated is the same if the tables of a token have other contents. -/
structure Indifferent (t : TokenId) (contents : Contents) (steps : ℕ) (x : Evaluator → Eval α)
    (m : Machine) : Prop where
  same : x (evaluator steps) (m.refill contents) = refilled contents (x (evaluator steps) m)
  isOf : contents.IsOf t (final (x (evaluator steps)) m).world
  spares : m.world.Spares t (final (x (evaluator steps)) m).world
  /-- On the other machine the tables are spared as well. -/
  spares_refilled : (m.refill contents).world.Spares t
    (final (x (evaluator steps)) (m.refill contents)).world

theorem final_refilled {y : Eval α} (h : y (m.refill contents) = refilled contents (y m)) :
    final y (m.refill contents) = (final y m).refill contents := by
  unfold final
  rw [h]
  cases y m <;> rfl

/-- What a minding evaluator does the evaluator does, also on the refilled machine. -/
theorem Uninvolved.indifferent (h : Uninvolved t contents steps x m) (hm : m.MayRefill t contents)
    {q : α → Machine → Prop} (hkeeps : Keeps (x (evaluator steps)) m q)
    (hmirrors : ∀ w, Mirrors w t contents (x (observed (minding contents) steps))
      (x (evaluator steps)) m) : Indifferent t contents steps x m := by
  obtain ⟨hfinal, hext⟩ := hkeeps.final
  -- watched, the run is the one it is unwatched, since nothing was minded
  have hlinks : final (x (observed (minding contents) steps)) m =
      final (x (evaluator steps)) m := by
    rw [final, h.links, ← final]
  obtain ⟨hsame, hspares⟩ := hmirrors (final (x (evaluator steps)) m).world
    (by rw [h.links]; exact h.finishes) (by rw [hlinks]; exact .refl _)
    (by rw [hlinks]; exact h.quiet)
  rw [h.links] at hsame
  rw [hlinks] at hspares
  refine ⟨hsame, hm.isOf.extends hext.world, hspares, ?_⟩
  rw [final_refilled hsame]
  exact hspares.refill hm.tidy.world.registry hfinal.world.registry

end Eval

section Indifferent

variable {t : TokenId} {contents : Contents} {m m' : Machine} {context : Context}

/-- A machine that differs from another at most in what is in the tables of a token. -/
structure Machine.AgreesBut (t : TokenId) (m m' : Machine) : Prop where
  rest : m' = { m with world := { m.world with tables := m'.world.tables } }
  size : m'.world.tables.size = m.world.tables.size
  tables : ∀ i, (¬∃ owner : TableOwner, owner.tokenId = t ∧ m.world.ownedTable? owner = some ⟨i⟩) →
    m'.world.tables[i]? = m.world.tables[i]?

/-- Such a machine is the other one, refilled. -/
theorem Machine.AgreesBut.exists_refill (h : m.AgreesBut t m') :
    ∃ contents : Contents, contents.IsOf t m.world ∧ m' = m.refill contents := by
  obtain ⟨contents, hisOf, hworld⟩ := World.exists_refill h.size h.tables
  refine ⟨contents, hisOf, h.rest.trans ?_⟩
  rw [hworld]
  rfl

/-- **Noninterference.** Outside of the class of a token, expressions and statements that have
nothing to do with it are indifferent to what is in its tables. Any machine that differs only in
these contents is a refilled one, so this is about every two machines of the kind. -/
theorem Machine.MayRefill.noninterference (hm : m.MayRefill t contents) (hc : m.Suits context.frame)
    (hhome : ∀ h ∈ context.frame.home, h.token ≠ t) (steps : ℕ) :
    (∀ e : Expr, Eval.Uninvolved t contents steps (fun self => self.eval context e) m →
      Eval.Indifferent t contents steps (fun self => self.eval context e) m) ∧
    (∀ s : Stmt, Eval.Uninvolved t contents steps (fun self => self.exec context s) m →
      Eval.Indifferent t contents steps (fun self => self.exec context s) m) ∧
    ∀ m', m.AgreesBut t m' → ∃ contents', m.MayRefill t contents' ∧ m' = m.refill contents' := by
  -- code that is at home elsewhere suits the rules for what is outside the token
  have hsuits : (Terms.outside t contents).Suits m context.frame :=
    ⟨hc, hhome, fun _ _ => trivial, hm.minted⟩
  have hself := keeps_evaluator steps
  refine ⟨fun e h => ?_, fun s h => ?_, fun m' h => ?_⟩
  · exact h.indifferent hm (hself.eval e hm.tidy hc) fun w =>
      (Eval.mirrors_minding w t contents steps).eval e hm hsuits
  · exact h.indifferent hm (hself.exec s hm.tidy hc) fun w =>
      (Eval.mirrors_minding w t contents steps).exec s hm hsuits
  · obtain ⟨contents', hisOf, heq⟩ := h.exists_refill
    exact ⟨contents', ⟨hm.tidy, hisOf, hm.minted⟩, heq⟩

end Indifferent

namespace Session

/-! ### Private members that make no difference, and one that does -/

/-- The one table that is given other contents. -/
def refilling (table : TableId) (other : SlotTable) : Contents := fun table' =>
  if table' = table then some other else none

theorem isOf_refilling {w : World} {table : TableId} {owner : TableOwner}
    (h : w.ownedTable? owner = some table) (other : SlotTable) :
    (refilling table other).IsOf owner.tokenId w := by
  intro table' hsome
  obtain rfl : table' = table := by
    by_contra hne
    exact hsome (if_neg hne)
  exact ⟨owner, rfl, h⟩

/-- The value of an expression at the top of a unit, if nothing happens that concerns a token. -/
def quietValue? (self : Evaluator) (unit : CompiledUnit) (e : Expr) (t : TokenId) (m : Machine) :
    Option Value :=
  match self.eval (Eval.topContext unit) e m with
  | .ok v m' =>
    let new := m'.journal.take (m'.journal.length - m.journal.length)
    if m'.journal = new ++ m.journal ∧ ∀ event ∈ new, ¬event.Concerns m'.world t then some v
    else none
  | .error .. => none

theorem exists_of_quietValue? {self : Evaluator} {unit : CompiledUnit} {e : Expr} {t : TokenId}
    {m : Machine} {v : Value} (h : quietValue? self unit e t m = some v) :
    ∃ m', self.eval (Eval.topContext unit) e m = .ok v m' ∧ m.IsQuiet m'.world t m' := by
  unfold quietValue? at h
  split at h
  · next v' m' hrun =>
    dsimp only at h
    split at h
    · -- the journal has been compared note by note
      next hjournal =>
      obtain rfl := Option.some.inj h
      exact ⟨m', hrun, Machine.isQuiet_of_journal hjournal.1 hjournal.2⟩
    · cases h
  · cases h

/-- An instance of one class has a private member, and there is an instance of another class, which
has a static method that is called through `static`. -/
def apart : Session :=
  left 128 ("class T{private k=null;}let t=new T();" ++
    "class D{static w(){return typeof this;}f(){return static.w();}}let d=new D();").toUTF8.toList 8

/-- The expression that a unit is made of, if it is a single one. -/
def loneExpr? (unit : CompiledUnit) : Option Expr :=
  match unit.program.body with
  | [⟨.expr e, _⟩] => some e
  | _ => none

/-- The private member is not null. -/
def filled : Contents := refilling ⟨1⟩ (SlotTable.empty.set (.string "k") (.bool true))

theorem indifferent_apart :
    ∃ (unit : CompiledUnit) (e : Expr), compile "d.f();".toUTF8.toList = .ok unit ∧
      apart.machine.MayRefill ⟨0⟩ filled ∧
      apart.machine.Suits (Eval.topContext unit).frame ∧
      (∀ h ∈ (Eval.topContext unit).frame.home, h.token ≠ ⟨0⟩) ∧
      Eval.Uninvolved ⟨0⟩ filled 8 (fun self => self.eval (Eval.topContext unit) e)
        apart.machine ∧
      Eval.Indifferent ⟨0⟩ filled 8 (fun self => self.eval (Eval.topContext unit) e)
        apart.machine := by
  obtain ⟨unit, hcompile, htest⟩ := exists_compiled "d.f();".toUTF8.toList (fun unit =>
    (loneExpr? unit).any fun e =>
      apart.machine.world.ownedTable? (.pair ⟨0⟩ ⟨1⟩) = some ⟨1⟩ ∧
        (0 : ℕ) < apart.machine.world.tokens.size ∧
        quietValue? (evaluator 8) unit e ⟨0⟩ apart.machine = some (.string "function") ∧
        quietValue? (observed (Eval.minding filled) 8) unit e ⟨0⟩ apart.machine =
          some (.string "function")) (by decide +kernel)
  obtain ⟨e, -, htest⟩ := (Option.any_eq_true _ _).mp htest
  obtain ⟨howned, hminted, hvalue, hminding⟩ := of_decide_eq_true htest
  -- the run finishes without a note of the token, also with an observer that minds
  obtain ⟨m', hrun, hquiet⟩ := exists_of_quietValue? hvalue
  obtain ⟨m'', hobserved, -⟩ := exists_of_quietValue? hminding
  have htidy : apart.machine.IsTidy := (hosted_left _ _ _ : apart.Hosted _).isTidy.1
  have hm : apart.machine.MayRefill ⟨0⟩ filled :=
    ⟨htidy, isOf_refilling howned _, hminted⟩
  -- the top of a run has no class for a home
  have hsuits : apart.machine.Suits (Eval.topContext unit).frame :=
    ⟨trivial, fun _ h => (by cases h), fun _ h => by cases h⟩
  have huninvolved : Eval.Uninvolved ⟨0⟩ filled 8
      (fun self => self.eval (Eval.topContext unit) e) apart.machine := by
    refine ⟨fun m h => (by cases hrun.symm.trans h), ?_, ?_⟩
    · rw [Eval.final_of_ok hrun]
      exact hquiet
    · -- a minding evaluator that finishes finishes as the evaluator does
      obtain hsame | ⟨-, m, hexhausted⟩ :=
        (Eval.agrees_minding filled 8).eval e htidy trivial hsuits
      · exact hsame
      · cases hobserved.symm.trans hexhausted
  have hhome : ∀ h ∈ (Eval.topContext unit).frame.home, h.token ≠ ⟨0⟩ := fun _ h => by cases h
  exact ⟨unit, e, hcompile, hm, hsuits, hhome, huninvolved,
    (hm.noninterference hsuits hhome 8).1 e huninvolved⟩

/-- A class without a name has been put into a private member, and the variable that held it has
been cleared. -/
def kept : Session :=
  left 128 ("class T{private k=null;keep(v){private.k=v;}}let t=new T();" ++
    "let D=class{static w(){return typeof this;}f(){return static.w();}};" ++
    "let d=new D();t.keep(D);D=null;").toUTF8.toList 8

/-- The private member is null. -/
def unkept : Contents := refilling ⟨1⟩ (SlotTable.empty.set (.string "k") .null)

/-- **A class that is kept.** An expression may depend on private state of a class that it has
nothing to do with. -/
theorem not_indifferent_of_kept :
    ¬∀ (s : Session) (held : List Value) (unit : CompiledUnit) (e : Expr) (t : TokenId)
      (contents : Contents) (steps : ℕ), s.Hosted held → contents.IsOf t s.machine.world →
      let x := (evaluator steps).eval (Eval.topContext unit) e
      let m := s.machine
      (∀ m', x m ≠ .error .exhausted m') → m.IsQuiet (Eval.final x m).world t (Eval.final x m) →
        x (m.refill contents) = Eval.refilled contents (x m) := by
  intro hall
  -- the same call, with the private table as it is and with another in its place
  obtain ⟨unit, -, htest⟩ := exists_compiled "d.f();".toUTF8.toList (fun unit =>
    (loneExpr? unit).any fun e =>
      kept.machine.world.ownedTable? (.pair ⟨0⟩ ⟨1⟩) = some ⟨1⟩ ∧
        quietValue? (evaluator 8) unit e ⟨0⟩ kept.machine = some (.string "function") ∧
        quietValue? (evaluator 8) unit e ⟨0⟩ (kept.machine.refill unkept) =
          some (.string "undefined")) (by decide +kernel)
  obtain ⟨e, -, htest⟩ := (Option.any_eq_true _ _).mp htest
  obtain ⟨howned, hvalue, hvalue'⟩ := of_decide_eq_true htest
  obtain ⟨m', hrun, hquiet⟩ := exists_of_quietValue? hvalue
  obtain ⟨m'', hrun', -⟩ := exists_of_quietValue? hvalue'
  -- both runs end, and quietly, so by `hall` they would end alike
  have hsame := hall kept _ unit e ⟨0⟩ unkept 8 (hosted_left _ _ _)
    (isOf_refilling howned _)
    (fun m hexhausted => by cases hrun.symm.trans hexhausted)
    (by rw [Eval.final_of_ok hrun]; exact hquiet)
  rw [hrun, hrun'] at hsame
  obtain ⟨hvalues, -⟩ := EStateM.Result.ok.inj hsame
  exact absurd hvalues (by decide)

end Session

end Enclave
