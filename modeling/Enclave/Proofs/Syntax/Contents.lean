import Enclave.Proofs.Eval.Composition
import Enclave.Proofs.Syntax.Places

/-!
# What syntax contains

A piece of syntax is made of smaller pieces. Some are evaluated together with it (`Part.parts`);
others are evaluated later, when a function is called or an instance is initialized (`Part.later`).

* `Part.All ok p` says of all that a piece contains, in whatever it is nested, that it is `ok`.
* `Part.constructs p` asks whether `new` is evaluated together with the piece, rather than in a
  function that it may call.

What is evaluated together is smaller than the piece (`Part.sizeOf_lt`), so it can be taken up by
induction.
-/

namespace Enclave

/-- The initializers of the private fields that a class body declares. -/
def ClassDef.initializers (c : ClassDef) : List Expr :=
  (Eval.privateFields c.members).flatMap fun f => f.initializer.toList

/-- What is evaluated later than a piece of syntax: bodies of functions, and private fields. -/
def Part.later : Part → List Part
  | .expr _ | .stmt _ => []
  | .function f => f.body.map .stmt
  | .class c => c.functions.map .function ++ c.initializers.map .expr

/-- All of which something holds, down to the leaves. -/
inductive Part.All (ok : Part → Prop) : Part → Prop
  | intro {p : Part} (self : ok p) (below : ∀ q ∈ p.parts ++ p.later, All ok q) : All ok p

/-- The initializers of private fields that a class body declares are evaluated later. -/
theorem ClassDef.mem_initializers {c : ClassDef} {f : Field} {e : Expr}
    (hf : f ∈ Eval.privateFields c.members) (he : e ∈ f.initializer) : e ∈ c.initializers :=
  List.mem_flatMap.mpr ⟨f, hf, Option.mem_toList.mpr he⟩

namespace Part

/-! ### Down to the leaves -/

section All

variable {ok : Part → Prop} {p q : Part}

/-- What holds of all of a piece holds of it. -/
theorem All.self (h : p.All ok) : ok p := by
  cases h with
  | intro hself _ => exact hself

/-- What holds of all of a piece holds of all of what is evaluated with it. -/
theorem All.part (h : p.All ok) (hq : q ∈ p.parts) : q.All ok := by
  cases h with
  | intro _ hbelow => exact hbelow q (List.mem_append_left _ hq)

/-- What holds of all of a piece holds of all of what is evaluated later. -/
theorem All.later (h : p.All ok) (hq : q ∈ p.later) : q.All ok := by
  cases h with
  | intro _ hbelow => exact hbelow q (List.mem_append_right _ hq)

/-- What holds of all of a function holds of all of its statements. -/
theorem All.body {f : FunctionDef} (h : (function f).All ok) :
    ∀ s ∈ f.body, (stmt s).All ok :=
  fun _ hs => h.later (List.mem_map_of_mem hs)

/-- What holds of all of a class holds of all of its functions. -/
theorem All.functions {c : ClassDef} (h : («class» c).All ok) :
    ∀ f ∈ c.functions, (function f).All ok :=
  fun _ hf => h.later (List.mem_append_left _ (List.mem_map_of_mem hf))

/-- What holds of all of a class holds of all of its initializers. -/
theorem All.initializers {c : ClassDef} (h : («class» c).All ok) :
    ∀ e ∈ c.initializers, (expr e).All ok :=
  fun _ he => h.later (List.mem_append_right _ (List.mem_map_of_mem he))

/-- What holds of all may be weakened. -/
theorem All.imp {ok' : Part → Prop} (h : p.All ok) (himp : ∀ q, ok q → ok' q) : p.All ok' := by
  induction h with
  | intro hself _ ih => exact .intro (himp _ hself) ih

/-- A test of all that is nested less deep than a bound. -/
def allWithin (ok : Part → Bool) : (bound : ℕ) → Part → Bool
  | 0, _ => false
  | bound + 1, p => ok p && (p.parts ++ p.later).all (allWithin ok bound)

/-- What passes the test has nothing nested deeper. -/
theorem all_of_allWithin {ok : Part → Bool} {bound : ℕ} (h : p.allWithin ok bound = true) :
    p.All fun q => ok q = true := by
  induction bound generalizing p with
  | zero => cases h
  | succ bound ih =>
    obtain ⟨hself, hbelow⟩ := Bool.and_eq_true_iff.mp h
    exact .intro hself fun q hq => ih (List.all_eq_true.mp hbelow q hq)

end All

end Part

/-! ### Sizes -/

/-- The target of an accessor is smaller. -/
theorem Accessor.sizeOf_lt {accessor : Accessor} {e : Expr} (h : e ∈ accessor.targets) :
    sizeOf e < sizeOf accessor := by
  cases accessor with
  | ofTarget span target =>
    obtain rfl := List.mem_singleton.mp h
    rw [Accessor.ofTarget.sizeOf_spec]
    omega
  | _ => cases h

/-- What is computed in a key is smaller. -/
theorem SlotKey.sizeOf_lt {key : SlotKey} {e : Expr} (h : e ∈ key.exprs) :
    sizeOf e < sizeOf key := by
  cases key with
  | computed target =>
    obtain rfl := List.mem_singleton.mp h
    rw [SlotKey.computed.sizeOf_spec]
    omega
  | named name => cases h

/-- What is evaluated with an expression is smaller than its node. -/
theorem ExprForm.sizeOf_lt {form : ExprForm} {q : Part} (h : q ∈ form.parts) :
    sizeOf q < sizeOf form + 1 := by
  have hargs : ∀ {args : List Expr} {q : Part}, q ∈ args.map Part.expr →
      sizeOf q < sizeOf args + 1 := fun h => by
    obtain ⟨e, he, rfl⟩ := List.mem_map.mp h
    have := List.sizeOf_lt_of_mem he
    rw [Part.expr.sizeOf_spec]
    omega
  cases form <;> simp only [ExprForm.parts, List.mem_cons, List.not_mem_nil, or_false] at h
  case object properties =>
    obtain ⟨⟨name, e⟩, hp, rfl⟩ := List.mem_map.mp h
    have := List.sizeOf_lt_of_mem hp
    simp only [Part.expr.sizeOf_spec, ExprForm.object.sizeOf_spec, Property.mk.sizeOf_spec] at *
    omega
  -- a list of arguments is smaller than the form that has it
  case call callee args | new callee args =>
    obtain rfl | h := h
    · simp only [Part.expr.sizeOf_spec, ExprForm.call.sizeOf_spec, ExprForm.new.sizeOf_spec]
      omega
    · have := hargs h
      simp only [ExprForm.call.sizeOf_spec, ExprForm.new.sizeOf_spec]
      omega
  -- the parts of an accessor are smaller than the accessor
  case slot accessor key =>
    obtain ⟨e, he, rfl⟩ := List.mem_map.mp h
    rw [Part.expr.sizeOf_spec, ExprForm.slot.sizeOf_spec]
    rcases List.mem_append.mp he with he | he
    · have := Accessor.sizeOf_lt he
      omega
    · have := SlotKey.sizeOf_lt he
      omega
  case hasSlot key accessor =>
    rw [ExprForm.hasSlot.sizeOf_spec]
    obtain rfl | h := h
    · rw [Part.expr.sizeOf_spec]
      omega
    · obtain ⟨e, he, rfl⟩ := List.mem_map.mp h
      have := Accessor.sizeOf_lt he
      rw [Part.expr.sizeOf_spec]
      omega
  case superCall args =>
    have := hargs h
    rw [ExprForm.superCall.sizeOf_spec]
    omega
  -- the others have their operands at fixed places
  all_goals obtain rfl | rfl := h <;> simp <;> omega

/-- What is evaluated with a statement is smaller than its node. -/
theorem StmtForm.sizeOf_lt {form : StmtForm} {q : Part} (h : q ∈ form.parts) :
    sizeOf q < sizeOf form + 1 := by
  have hbody : ∀ {body : List Stmt} {s : Stmt}, s ∈ body → sizeOf (Part.stmt s) < sizeOf body + 1 :=
    fun h => by
      have := List.sizeOf_lt_of_mem h
      rw [Part.stmt.sizeOf_spec]
      omega
  -- a form without parts has none to compare, and is closed here
  cases form <;> simp only [StmtForm.parts, List.mem_cons, List.not_mem_nil, or_false] at h
  case declare name isMutable initializer =>
    obtain ⟨e, he, rfl⟩ := List.mem_map.mp h
    have := sizeOf_lt_of_mem_toList he
    rw [Part.expr.sizeOf_spec, StmtForm.declare.sizeOf_spec]
    omega
  case block body =>
    obtain ⟨s, hs, rfl⟩ := List.mem_map.mp h
    have := hbody hs
    rw [StmtForm.block.sizeOf_spec]
    omega
  -- a branch that may be missing is in a list of its own
  case cond test yes no =>
    rw [StmtForm.cond.sizeOf_spec]
    obtain rfl | rfl | h := h
    · rw [Part.expr.sizeOf_spec]
      omega
    · rw [Part.stmt.sizeOf_spec]
      omega
    · obtain ⟨s, hs, rfl⟩ := List.mem_map.mp h
      have := sizeOf_lt_of_mem_toList hs
      rw [Part.stmt.sizeOf_spec]
      omega
  case ret value =>
    obtain ⟨e, he, rfl⟩ := List.mem_map.mp h
    have := sizeOf_lt_of_mem_toList he
    rw [Part.expr.sizeOf_spec, StmtForm.ret.sizeOf_spec]
    omega
  case attempt body param handler =>
    obtain ⟨s, hs, rfl⟩ := List.mem_map.mp h
    rw [StmtForm.attempt.sizeOf_spec]
    rcases List.mem_append.mp hs with hs | hs
    · have := hbody hs
      omega
    · have := hbody hs
      omega
  all_goals obtain rfl | rfl := h <;> simp

/-- What is evaluated with a class is smaller than its node. -/
theorem ClassDef.sizeOf_lt {c : ClassDef} {q : Part} (h : q ∈ (Part.class c).parts) :
    sizeOf q < sizeOf c + 1 := by
  obtain ⟨site, name, superclass, constructor, members, span, height⟩ := c
  rw [ClassDef.mk.sizeOf_spec]
  -- a part of a class is its superclass, or the initializer of a static field
  rcases List.mem_append.mp h with h | h
  · obtain ⟨e, he, rfl⟩ := List.mem_map.mp h
    have := sizeOf_lt_of_mem_toList he
    rw [Part.expr.sizeOf_spec]
    simp only at this
    omega
  · obtain ⟨⟨memberName, form, memberSpan⟩, hmember, h⟩ := List.mem_flatMap.mp h
    obtain ⟨e, he, rfl⟩ := List.mem_map.mp h
    have := List.sizeOf_lt_of_mem hmember
    rw [Member.mk.sizeOf_spec] at this
    rw [Part.expr.sizeOf_spec]
    cases form with
    | staticField initializer =>
      have := sizeOf_lt_of_mem_toList he
      simp only [MemberForm.staticField.sizeOf_spec] at *
      omega
    | _ => cases he

namespace Part

variable {p q : Part}

/-- **What is evaluated together is smaller.** -/
theorem sizeOf_lt (h : q ∈ p.parts) : sizeOf q < sizeOf p := by
  -- A function is evaluated when it is called, so it has no parts here.
  cases p with
  | expr e =>
    obtain ⟨id, span, height, form⟩ := e
    have hform : sizeOf q < sizeOf form + 1 := ExprForm.sizeOf_lt h
    rw [Part.expr.sizeOf_spec, Expr.mk.sizeOf_spec]
    omega
  | stmt s =>
    obtain ⟨form, span⟩ := s
    have hform : sizeOf q < sizeOf form + 1 := StmtForm.sizeOf_lt h
    rw [Part.stmt.sizeOf_spec, Stmt.mk.sizeOf_spec]
    omega
  | function f => cases h
  | «class» c =>
    have hclass := ClassDef.sizeOf_lt h
    rw [Part.class.sizeOf_spec]
    omega

/-! ### Constructing -/

/-- Whether instances are constructed by what is evaluated together with a piece of syntax. -/
def constructs (p : Part) : Bool := p.isNew || p.parts.attach.any fun q => q.val.constructs
termination_by sizeOf p
decreasing_by exact sizeOf_lt q.property

/-- A piece constructs when it is a `new` or one of its parts constructs. -/
theorem constructs_eq (p : Part) : p.constructs = (p.isNew || p.parts.any constructs) := by
  rw [constructs]
  congr 1
  rw [Bool.eq_iff_iff, List.any_eq_true, List.any_eq_true]
  constructor
  · rintro ⟨q, -, hq⟩
    exact ⟨q, q.property, hq⟩
  · rintro ⟨q, hmem, hq⟩
    exact ⟨⟨q, hmem⟩, List.mem_attach _ _, hq⟩

/-- A piece that constructs nothing is not `new` and is made of such pieces. -/
theorem constructs_eq_false_iff :
    p.constructs = false ↔ p.isNew = false ∧ ∀ q ∈ p.parts, q.constructs = false := by
  rw [constructs_eq, Bool.or_eq_false_iff, List.any_eq_false]
  simp only [Bool.not_eq_true]

/-- A piece that contains `new` nowhere constructs nothing. -/
theorem All.constructs_eq_false (h : p.All fun q => q.isNew = false) : p.constructs = false := by
  induction h with
  | intro hself _ ih =>
    exact constructs_eq_false_iff.mpr ⟨hself, fun q hq => ih q (List.mem_append_left _ hq)⟩

end Part

end Enclave
