import Enclave.Proofs.Eval.Keeping

/-!
# Constructions and class definitions as a whole

Where something is shown of constructions, of `super(...)` and of class definitions directly, they
are pieces of their own (`Whole`), on whatever terms the rest is built. They keep machines tidy as
everything does (`Whole.keeps`).
-/

namespace Enclave.Eval

/-- Constructions, `super(...)` and the making of classes, taken as a whole. -/
inductive Whole (R : Terms) : Pieces
  | construct {m : Machine} {context : Context} {c : ClassRef} {args : List Value} (hm : m.IsTidy)
    (hconstructs : R.constructs) (hc : R.Suits m context.frame) (hclass : m.world.Passes (.class c))
    (hargs : ∀ v ∈ args, m.world.Passes v) :
    Whole R Value (fun self => construct self context.nodes c args) m Gives
  | superCall {m : Machine} {context : Context} {args : List Value} (hm : m.IsTidy)
    (hc : R.Suits m context.frame) (hargs : ∀ v ∈ args, m.world.Passes v) :
    Whole R Unit (fun self => superCall self context args) m fun _ _ => True
  | makeClass {m : Machine} {context : Context} {c : ClassDef} {parent : Option ClassRef}
    (hm : m.IsTidy) (hc : R.Suits m context.frame)
    (hparent : ∀ p ∈ parent, m.world.Passes (.class p)) (hmay : R.may ⟨m.world.tokens.size⟩)
    (hcode : R.code (.class c)) :
    Whole R ClassParts (fun _ => makeClass context c parent) m fun parts m' =>
      parts.unit = context.frame.unit ∧ R.Allows m'.world parts.home ∧
        R.Reaches m'.world parts.statics

variable {R : Terms}

/-- Whole constructions support the evaluation of what may be evaluated part by part. -/
theorem supports_whole (hcovers : ∀ p, R.code p → R.Covers p)
    (hmay : ∀ t, R.minted ≤ t.index → R.may t) :
    Supports R (Whole R) where
  covers := hcovers
  construct hconstructs _ _ _ _ hm hc hclass hargs :=
    .own (.construct hm hconstructs hc hclass hargs)
  superCall hm hc hargs := .own (.superCall hm hc hargs)
  makeClass hm hc hcode hparent := .own (.makeClass hm hc hparent (hmay _ hc.minted) hcode)

/-- Whole constructions keep machines tidy. -/
theorem Whole.keeps {α : Type} {x : Evaluator → Eval α} {m : Machine} {q : α → Machine → Prop}
    {self : Evaluator} (h : Whole R α x m q) (hself : self.Keeps) (hm : m.IsTidy) :
    Keeps (x self) m q := by
  have hsuits : ∀ {f : Frame}, R.Suits m f → Terms.anything.Suits m f := fun hc =>
    Terms.suits_anything hc.toSuits
  -- Construction, `super(...)` and class definition each keep machines tidy as wholes.
  cases h with
  | construct _ _ hc hclass hargs =>
    exact (supports_primitive.construct trivial hm (hsuits hc) hclass hargs).keeps_anything hself hm
  | superCall _ hc hargs =>
    exact (supports_primitive.superCall hm (hsuits hc) hargs).keeps_anything hself hm
  | makeClass _ hc hparent hmay hcode =>
    exact (Primitive.makeClass hm hc hparent hmay hcode).keeps hself hm

/-! ### `super(...)` -/

/-- What `super(...)` does when it has been noted: the object is initialized as one of the parent,
and the class sets up its members. -/
def handOver (self : Evaluator) (context : Context) (c : ClassRef) (o : ObjectId)
    (args : List Value) : Eval Unit := do
  let ancestors := ((← world).classChain c).drop 1
  initializeAs self context.nodes o args ancestors
  installPrivate self context.nodes c o
  record (.superReturned c o)

/-- `super(...)` needs a construction, is refused when it has been called before, and hands over
otherwise. -/
theorem superCall_cases (self : Evaluator) (context : Context) (args : List Value) (m : Machine) :
    (context.frame.construction = none ∧
      superCall self context args m = .error (.broken .superCallOutsideConstructor) m) ∨
    ∃ id, context.frame.construction = some id ∧
      ((m.constructionAt id).superCalled = true ∧
          superCall self context args m = .error (.raised (.type .superTwice)) m ∨
        (m.constructionAt id).superCalled = false ∧ superCall self context args m =
          handOver self context (m.constructionAt id).classRef (m.constructionAt id).inst args
            (m.callSuper id)) := by
  rw [superCall_stepwise]
  cases hconstruction : context.frame.construction with
  | none => exact Or.inl ⟨rfl, rfl⟩
  | some id =>
    -- `super` may have been called in this construction already, but only once
    refine Or.inr ⟨id, rfl, ?_⟩
    cases hcalled : (m.constructionAt id).superCalled with
    | true =>
      refine Or.inl ⟨rfl, ?_⟩
      change (if (m.constructionAt id).superCalled then _ else _ : Eval Unit) m = _
      rw [if_pos hcalled]
      rfl
    | false =>
      refine Or.inr ⟨rfl, ?_⟩
      change (if (m.constructionAt id).superCalled then _ else _ : Eval Unit) m = _
      rw [if_neg (by rw [hcalled]; exact Bool.false_ne_true)]
      rfl

end Enclave.Eval
