import Enclave.Proofs.Eval.Rejection
import Enclave.Proofs.Eval.Respecting
import Enclave.Proofs.Session.CallDepth

/-!
# What statements declare

A statement declares names in the scope it is run in only by being the declaration of a variable, a
constant or a class, or by coming to such a declaration through branches of `if` and bodies of
`while` that are not blocks (`Eval.Declares`). Whatever else a statement comes to is run in scopes
of its own: blocks and the parts of `try` in new ones, bodies of functions in a new scope inside the
one the function was made in, initializers of static fields in the new scope of the class.

So a statement leaves the names of all scopes that were there as it found them, but for what it
declares in its own scope (`Eval.keeps_exec`). That other scopes are left alone is what evaluation
respecting scopes says of them. For the scope of the statement itself it does not, and there the
proof follows the statement from branch to branch and from round to round.
-/

namespace Enclave

namespace World

/-- What the scope binds the name to stays what it was: nothing, a variable, or a constant with its
value. -/
structure Keeps (s : ScopeId) (name : String) (w w' : World) : Prop where
  mutability : w'.mutability? s name = w.mutability? s name
  constant : ∀ v, w.bound? s name = some ⟨v, false⟩ → w'.bound? s name = some ⟨v, false⟩

variable {w w' w'' : World} {but : Option ScopeId} {s : ScopeId} {name : String}

theorem Keeps.refl (s : ScopeId) (name : String) (w : World) : w.Keeps s name w :=
  ⟨rfl, fun _ => id⟩

theorem Keeps.trans (h : w.Keeps s name w') (h' : w'.Keeps s name w'') : w.Keeps s name w'' where
  mutability := h'.mutability.trans h.mutability
  constant v hv := h'.constant v (h.constant v hv)

theorem Respects.keeps (h : w.Respects but w') (hbut : but ≠ some s)
    (hs : s.index < w.scopes.all.size) (name : String) : w.Keeps s name w' where
  mutability := h.mutability s name hbut hs
  constant v hv := h.constants s name v hbut hv

/-- A scope keeps what it binds, but for names that were declared in it, and these it binds as they
were declared. -/
def KeepsBut (s : ScopeId) (declared : String → Bool → Prop) (w w' : World) : Prop :=
  ∀ name, w.Keeps s name w' ∨
    ∃ isMutable, declared name isMutable ∧ w'.mutability? s name = some isMutable

variable {declared declared' : String → Bool → Prop}

theorem KeepsBut.refl (s : ScopeId) (declared : String → Bool → Prop) (w : World) :
    w.KeepsBut s declared w := fun name => Or.inl (.refl s name w)

theorem KeepsBut.trans (h : w.KeepsBut s declared w') (h' : w'.KeepsBut s declared w'') :
    w.KeepsBut s declared w'' := by
  intro name
  rcases h' name with hkeeps' | hdeclared
  · rcases h name with hkeeps | ⟨isMutable, hdeclared, hbound⟩
    · exact Or.inl (hkeeps.trans hkeeps')
    · exact Or.inr ⟨isMutable, hdeclared, hkeeps'.mutability.trans hbound⟩
  · exact Or.inr hdeclared

theorem KeepsBut.mono (h : w.KeepsBut s declared w')
    (hle : ∀ name isMutable, declared name isMutable → declared' name isMutable) :
    w.KeepsBut s declared' w' := fun name =>
  (h name).imp id fun ⟨isMutable, hdeclared, hbound⟩ => ⟨isMutable, hle _ _ hdeclared, hbound⟩

theorem Respects.keepsBut (h : w.Respects none w') (hs : s.index < w.scopes.all.size)
    (declared : String → Bool → Prop) : w.KeepsBut s declared w' := fun name =>
  Or.inl (h.keeps nofun hs name)

/-- A declaration changes nothing but what the name is bound to. -/
theorem keepsBut_declare (hs : s.index < w.scopes.all.size) (v : Value) {isMutable : Bool}
    (h : declared name isMutable) : w.KeepsBut s declared (w.declare s name v isMutable) := by
  intro other
  -- Only the name declared may have changed, and only as declared.
  by_cases hname : name = other
  · subst hname
    refine Or.inr ⟨isMutable, h, ?_⟩
    rw [mutability?, bound?_declare, if_pos ⟨rfl, hs, rfl⟩]
    rfl
  · have hbound : (w.declare s name v isMutable).bound? s other = w.bound? s other := by
      rw [bound?_declare, if_neg fun h => hname h.2.2]
    exact Or.inl ⟨by rw [mutability?, hbound, mutability?], fun _ hv => hbound.trans hv⟩

end World

namespace Eval

/-- Run from a machine, a statement comes to the declaration of a name in its own scope, and the
declaration is carried out. -/
inductive Declares (context : Context) : (steps : ℕ) → Stmt → Machine → String → Bool → Prop
  | declare {steps : ℕ} {name : String} {isMutable : Bool} {initializer : Option Expr} {span : Span}
      {m m' : Machine}
      (h : (evaluator steps).exec context ⟨.declare name isMutable initializer, span⟩ m =
        .ok .normal m') :
      Declares context steps ⟨.declare name isMutable initializer, span⟩ m name isMutable
  | classDef {steps : ℕ} {c : ClassDef} {span : Span} {m m' : Machine}
      (h : (evaluator steps).exec context ⟨.classDef c, span⟩ m = .ok .normal m') :
      Declares context steps ⟨.classDef c, span⟩ m c.displayName true
  | yes {steps : ℕ} {test : Expr} {yes : Stmt} {no : Option Stmt} {span : Span} {v : Value}
      {m m' : Machine} {name : String} {isMutable : Bool}
      (htest : (evaluator steps).eval context test m = .ok v m') (htruthy : v.isTruthy = true)
      (h : Declares context steps yes m' name isMutable) :
      Declares context (steps + 1) ⟨.cond test yes no, span⟩ m name isMutable
  | no {steps : ℕ} {test : Expr} {yes no : Stmt} {span : Span} {v : Value}
      {m m' : Machine} {name : String} {isMutable : Bool}
      (htest : (evaluator steps).eval context test m = .ok v m') (hfalsy : v.isTruthy = false)
      (h : Declares context steps no m' name isMutable) :
      Declares context (steps + 1) ⟨.cond test yes (some no), span⟩ m name isMutable
  | body {steps : ℕ} {test : Expr} {body : Stmt} {span : Span} {v : Value}
      {m m' : Machine} {name : String} {isMutable : Bool}
      (htest : (evaluator steps).eval context test m = .ok v m') (htruthy : v.isTruthy = true)
      (h : Declares context steps body m' name isMutable) :
      Declares context (steps + 1) ⟨.loop test body, span⟩ m name isMutable
  | later {steps : ℕ} {test : Expr} {body : Stmt} {span : Span}
      {m m' : Machine} {name : String} {isMutable : Bool}
      (hround : loopRound (evaluator steps) context test body m = .ok (some .normal) m')
      (h : Declares context (steps + 1) ⟨.loop test body, span⟩ m' name isMutable) :
      Declares context (steps + 1) ⟨.loop test body, span⟩ m name isMutable

variable {α β : Type} {context : Context} {steps : ℕ} {m : Machine} {x : Eval α}
  {declared : String → Bool → Prop}

/-- Whatever becomes of a piece, a scope keeps what it binds, but for what was declared in it. -/
def LeavesBut (s : ScopeId) (declared : String → Bool → Prop) (x : Eval α) (m : Machine) : Prop :=
  Leaves (fun m m' => m.world.KeepsBut s declared m'.world) x m

theorem LeavesBut.bind {s : ScopeId} {f : α → Eval β} (hx : LeavesBut s declared x m)
    (hf : ∀ a m', x m = .ok a m' → LeavesBut s declared (f a) m') :
    LeavesBut s declared (x >>= f) m :=
  Leaves.bind World.KeepsBut.trans hx hf

theorem LeavesBut.pure (s : ScopeId) (a : α) (m : Machine) : LeavesBut s declared (pure a) m :=
  .refl s declared m.world

/-- A piece that respects the scope declares nothing in it. -/
theorem Respects.leavesBut {s : ScopeId} (h : Respects none x)
    (hs : s.index < m.world.scopes.all.size) : LeavesBut s declared x m :=
  (h m nofun).keepsBut hs declared

/-- A scope that is there stays there. -/
theorem Respects.lt_of_ok {but : Option ScopeId} {s : ScopeId} {a : α} {m' : Machine}
    (h : Respects but x) (hbut : ∀ t ∈ but, t = s) (hs : s.index < m.world.scopes.all.size)
    (hrun : x m = .ok a m') : s.index < m'.world.scopes.all.size := by
  refine hs.trans_le (h.of_ok hrun fun t ht => ?_).scopeCount
  rw [hbut t ht]
  exact hs

theorem exists_of_bind {f : α → Eval β} {b : β} {m' : Machine} (h : (x >>= f) m = .ok b m') :
    ∃ a m₁, x m = .ok a m₁ ∧ f a m₁ = .ok b m' := by
  change EStateM.bind x f m = _ at h
  unfold EStateM.bind at h
  cases hrun : x m with
  | ok a m₁ =>
    rw [hrun] at h
    exact ⟨a, m₁, rfl, h⟩
  | error stop m₁ =>
    rw [hrun] at h
    cases h

/-- A class is called what its definition says. -/
theorem name_of_defineClass {self : Evaluator} {c : ClassDef} {r : ClassRef} {m' : Machine}
    (h : defineClass self context c m = .ok r m') : r.name = c.displayName := by
  obtain ⟨parent, m₁, -, h⟩ := exists_of_bind h
  obtain ⟨parts, m₂, hmake, hadded⟩ := added_makeClass context c parent m₁
  obtain ⟨parts', m₂', hmake', h⟩ := exists_of_bind h
  cases hmake.symm.trans hmake'
  have hname : parts.home.classRef.name = c.displayName := congrArg ClassRef.name hadded.classRef
  -- neither the name bound nor the static fields stored change what is returned
  have hreturns : ∀ {m₃ : Machine} {inner : Context},
      (storeStatics self inner parts.statics c.members >>= fun _ => pure parts.home.classRef) m₃ =
        .ok r m' → r.name = c.displayName := by
    intro m₃ inner h
    obtain ⟨_, _, -, h⟩ := exists_of_bind h
    cases h
    exact hname
  cases hc : c.name with
  | none =>
    rw [hc] at h
    exact hreturns h
  | some name =>
    rw [hc] at h
    obtain ⟨_, m₃, -, h⟩ := exists_of_bind h
    exact hreturns h

/-- **Declarations** declare their name once they have a value for it. -/
theorem leavesBut_declaration {s : Stmt} {value : Eval α} (name : α → String) (v : α → Value)
    {isMutable : Bool} (hvalue : Respects none value)
    (hrun : (evaluator steps).exec context s = value >>= fun a => do
      changeWorld (·.declare context.scope (name a) (v a) isMutable)
      return .normal)
    (hscope : context.scope.index < m.world.scopes.all.size)
    (hdeclares : ∀ a m₁ m', value m = .ok a m₁ →
      (evaluator steps).exec context s m = .ok .normal m' →
      Declares context steps s m (name a) isMutable) :
    LeavesBut context.scope (Declares context steps s m) ((evaluator steps).exec context s) m := by
  rw [hrun]
  refine (hvalue.leavesBut hscope).bind fun a m₁ ha => ?_
  have hscope₁ := hvalue.lt_of_ok nofun hscope ha
  -- the value changes no binding, so the declaration is the only one made
  have hends : (evaluator steps).exec context s m =
      .ok .normal { m₁ with world := m₁.world.declare context.scope (name a) (v a) isMutable } := by
    rw [hrun, bind_of_ok ha]
    rfl
  exact World.keepsBut_declare hscope₁ (v a) (hdeclares a m₁ _ ha hends)

/-- **Loops** declare what their rounds declare. -/
theorem leavesBut_rounds {test : Expr} {body : Stmt} {span : Span}
    (ih : ∀ (s : Stmt) (m : Machine), context.scope.index < m.world.scopes.all.size →
      LeavesBut context.scope (Declares context steps s m) ((evaluator steps).exec context s) m)
    (rounds : ℕ) (hscope : context.scope.index < m.world.scopes.all.size) :
    LeavesBut context.scope (Declares context (steps + 1) ⟨.loop test body, span⟩ m)
      (repeatRounds (loopRound (evaluator steps) context test body) rounds) m := by
  have hself := tracks_evaluator steps
  have htest : Respects none ((evaluator steps).eval context test) :=
    (hself.eval context test none).respects
  have hbody := (hself.exec context body).respects
  -- a round leaves the scope in place, so that there is something to declare in afterwards
  have hround : Respects (some context.scope) (loopRound (evaluator steps) context test body) :=
    .bind (hself.eval context test _).respects fun v =>
      .ite (hbody.bind fun _ => .pure _) (.pure _)
  -- what the loop declares, it declares in the next round or in a later one
  induction rounds generalizing m with
  | zero => exact World.KeepsBut.refl _ _ _
  | succ rounds ihrounds =>
    -- one round declares only what its body does, once the test has held
    have honce : LeavesBut context.scope (Declares context (steps + 1) ⟨.loop test body, span⟩ m)
        (loopRound (evaluator steps) context test body) m := by
      refine (htest.leavesBut hscope).bind fun v m₁ hv => ?_
      have hscope₁ := htest.lt_of_ok nofun hscope hv
      split
      · next htruthy =>
        refine LeavesBut.bind ?_ fun flow m₂ _ => .pure _ _ m₂
        exact (ih body m₁ hscope₁).mono fun _ _ h => .body hv htruthy h
      · exact .pure _ _ m₁
    refine honce.bind fun flow? m₁ hrun => ?_
    match flow? with
    | none => exact .pure _ _ m₁
    | some (.returned v) => exact .pure _ _ m₁
    | some .normal =>
      have hscope₁ := hround.lt_of_ok (fun t ht => (Option.some.inj ht).symm) hscope hrun
      exact (ihrounds hscope₁).mono fun _ _ h => .later hrun h

/-- **Statements** leave their own scope as it is, but for what they declare. -/
theorem leavesBut_exec (s : Stmt) (hscope : context.scope.index < m.world.scopes.all.size) :
    LeavesBut context.scope (Declares context steps s m) ((evaluator steps).exec context s) m := by
  -- branches and bodies of loops are run with one step less, and so it goes by the steps
  induction steps generalizing s m with
  | zero => exact World.KeepsBut.refl _ _ _
  | succ steps ih =>
    have hself := tracks_evaluator steps
    have heval : ∀ e, Respects none ((evaluator steps).eval context e) := fun e =>
      (hself.eval context e none).respects
    obtain ⟨form, span⟩ := s
    cases form with
    -- the two declarations bind the name once the value is there
    | declare name isMutable initializer =>
      refine leavesBut_declaration (fun _ => name) id
        (tracks_evalOptional hself initializer).respects rfl hscope ?_
      exact fun _ _ _ _ h => .declare h
    | classDef c =>
      refine leavesBut_declaration ClassRef.name Value.class
        (tracks_defineClass hself c).respects rfl hscope ?_
      intro r m₁ m' hr h
      rw [name_of_defineClass hr]
      exact .classDef h
    -- only one branch is run, and the test declares nothing
    | cond test yes no =>
      refine ((heval test).leavesBut hscope).bind fun v m₁ hv => ?_
      have hscope₁ := (heval test).lt_of_ok nofun hscope hv
      split
      · next htruthy => exact (ih yes hscope₁).mono fun _ _ h => .yes hv htruthy h
      · next hfalsy =>
        cases no with
        | none => exact .pure _ _ m₁
        | some no =>
          exact (ih no hscope₁).mono fun _ _ h => .no hv (Bool.eq_false_of_not_eq_true hfalsy) h
    | loop test body => exact leavesBut_rounds (fun s _ h => ih s h) (evaluator steps).rounds hscope
    -- the other forms declare in no scope that is there already, or not at all
    | expr e => exact ((heval e).bind fun _ => .pure _).leavesBut hscope
    | block body =>
      have hbody : ∀ s, Respects (some (context.within s).scope)
          (execBlock (evaluator steps) (context.within s) body) := fun s =>
        (tracks_execBlock hself body).respects
      exact (respects_inNewScope context.scope hbody).leavesBut hscope
    | ret value =>
      have hvalue : Respects none (evalOptional (evaluator steps) context value) :=
        (tracks_evalOptional hself value).respects
      exact (hvalue.bind fun _ => .pure _).leavesBut hscope
    | raise e => exact ((heval e).bind fun _ => respects_raise _).leavesBut hscope
    | attempt body param handler =>
      exact (tracks_attempt hself body handler param).respects.leavesBut hscope
    | functionDef definition => exact .pure _ _ m

/-- **Lexical scopes.** Whatever a statement runs, and however it ends, the scopes that were there
before keep their names, each as a variable, or as a constant with its value. Only in the scope the
statement is run in are names declared, those of the declarations it comes to there. -/
theorem keeps_exec (steps : ℕ) (context : Context) (s : Stmt) (m : Machine)
    (hscope : context.scope.index < m.world.scopes.all.size) :
    (∀ other : ScopeId, other.index < m.world.scopes.all.size → other ≠ context.scope → ∀ name,
      m.world.Keeps other name (final ((evaluator steps).exec context s) m).world) ∧
    ∀ name, m.world.Keeps context.scope name (final ((evaluator steps).exec context s) m).world ∨
      ∃ isMutable, Declares context steps s m name isMutable ∧
        (final ((evaluator steps).exec context s) m).world.mutability? context.scope name =
          some isMutable := by
  refine ⟨fun other hother hne name => ?_, leavesBut_exec s hscope⟩
  have hrespects := (tracks_evaluator steps).exec context s |>.respects m fun t ht => by
    cases ht
    exact hscope
  exact hrespects.keeps (fun heq => hne (Option.some.inj heq).symm) hother name

/-- A constant and a variable. -/
def constantBeside : Session := Session.left 128 "const k=1; let n=2;".toUTF8.toList 16

/-- A branch that declares the constant again, and another one. -/
def branching : List UInt8 := "if (n) let k=n; else let n=k;".toUTF8.toList

theorem keeps_exec_branch : ∃ unit s, compile branching = .ok unit ∧ unit.program.body = [s] ∧
    (topContext unit).scope.index < constantBeside.machine.world.scopes.all.size ∧
    Declares (topContext unit) 8 s constantBeside.machine "k" true := by
  let runs (unit : CompiledUnit) (s : Stmt) : World :=
    (final ((evaluator 8).exec (topContext unit) s) constantBeside.machine).world
  obtain ⟨unit, hcompile, htest⟩ := exists_compiled branching (fun unit =>
    unit.program.body.length = 1 && unit.program.body.all fun s =>
      (runs unit s).mutability? Scopes.rootId "k" = some true) (by decide +kernel)
  obtain ⟨hone, hall⟩ := Bool.and_eq_true_iff.mp htest
  obtain ⟨s, hbody⟩ := List.length_eq_one_iff.mp (of_decide_eq_true hone)
  have hscope : Scopes.rootId.index < constantBeside.machine.world.scopes.all.size := by
    decide +kernel
  have hmutable : (runs unit s).mutability? Scopes.rootId "k" = some true :=
    of_decide_eq_true (List.all_eq_true.mp hall s (hbody ▸ List.mem_singleton_self s))
  refine ⟨unit, s, hcompile, hbody, hscope, ?_⟩
  obtain ⟨-, hown⟩ := keeps_exec 8 (topContext unit) s constantBeside.machine hscope
  rcases hown "k" with hkeeps | ⟨isMutable, hdeclares, hbound⟩
  · -- what was a constant is a variable now
    have hconstant : constantBeside.machine.world.mutability? Scopes.rootId "k" = some false := by
      decide +kernel
    cases hmutable.symm.trans (hkeeps.mutability.trans hconstant)
  · cases hmutable.symm.trans hbound
    exact hdeclares

end Eval

end Enclave
