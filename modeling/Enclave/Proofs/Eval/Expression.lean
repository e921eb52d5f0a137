import Enclave.Eval.Expression
import Enclave.Proofs.Eval.Access
import Enclave.Proofs.Eval.ClassDefinition
import Enclave.Proofs.Eval.Construction
import Enclave.Proofs.Eval.Operators
import Enclave.Proofs.Store.Nearest

/-!
# Expressions

Every form of expression, with parts that are evaluated as they should be, is evaluated as it should
be (`yields_evalExpr`).
-/

namespace Enclave.Eval

variable {gone : Node → Prop} {m : Machine} {context : Context} {sc : ScopeContext}
  {self : Evaluator}

/-! ### Names -/

section Names

variable (hm : m.Sound gone) (hc : context.Suits gone m sc)

include hm hc

theorem yields_readName (name : String) : Yields gone (readName context name) m := by
  unfold readName
  refine Meets.world_bind ?_
  split
  · next v hv => exact Meets.pure (hm.world.admits_of_lookup hc.scope hv)
  · exact meets_raise fun _ h => nomatch h

theorem runs_writeName (name : String) {v : Value} (hv : m.world.Admits gone v) :
    Runs gone (writeName context name v) m := by
  unfold writeName
  refine Meets.world_bind ?_
  split
  · next binder hbinder =>
    -- the scope written to is on the way out of the one the code is in
    have hmem : binder ∈ m.world.scopes.path context.scope :=
      List.mem_of_find?_eq_some (Scopes.bound?_of_assignable hbinder).1
    have hscope := hm.world.knows_of_mem_path hc.scope hmem
    exact (meets_changeWorld (World.alters_declare hm.world hscope.2 name hv true)).runs hm
  · next e he =>
    refine meets_raise fun v hv => ?_
    -- a failure to write throws no value
    unfold Scopes.assignable at he
    subst hv
    split at he
    · cases he
    · split at he <;> cases he

end Names

section Parts

variable (hself : Evaluator.IsSound gone self) (hm : m.Sound gone) (hc : context.Suits gone m sc)

include hself hm hc

/-! ### Lists of expressions -/

theorem meets_evalArgs {es : List Expr} (hes : context.frame.unit.CoversExprs sc es) :
    Meets gone (evalArgs self context es) m fun vs m' => ∀ v ∈ vs, m'.world.Admits gone v := by
  induction es generalizing m context with
  | nil => exact Meets.pure fun _ h => nomatch h
  | cons e es ih =>
    obtain ⟨he, hrest⟩ := hes.cons
    unfold evalArgs
    refine (hself.eval hm hc he).bind hm ?_
    intro v m₁ hm₁ hg₁ hv
    -- a value is held while the arguments behind it are evaluated
    refine (ih hm₁ ((hc.grows hm hm₁ hg₁).holdingValue hv) hrest).bind hm₁ ?_
    intro vs m₂ _ hg₂ hvs
    refine Meets.pure fun x hx => ?_
    rcases List.mem_cons.mp hx with rfl | hx
    · exact hm₁.admits_grows hg₂ hv
    · exact hvs x hx

theorem runs_storeProperties {o : ObjectId} (ho : m.world.Knows gone (.object o))
    {properties : List Property} (hproperties : context.frame.unit.CoversProperties sc properties) :
    Runs gone (storeProperties self context o properties) m := by
  -- Property by property; the object is held all the while.
  induction properties generalizing m with
  | nil => exact Meets.pure trivial
  | cons property properties ih =>
    obtain ⟨name, e⟩ := property
    obtain ⟨he, hrest⟩ := hproperties.cons
    unfold storeProperties
    refine (hself.eval hm hc he).bind hm ?_
    intro v m₁ hm₁ hg₁ hv
    have halters := World.alters_setProperty hm₁.world ho.2 (.string name) hv
    refine (meets_changeWorld halters).bind hm₁ ?_
    intro _ m₂ hm₂ hg₂ _
    have hg := hg₁.trans hg₂
    exact ih hm₂ (hc.grows hm hm₂ hg) (ho.grows hg.world) hrest

theorem yields_objectLiteral {properties : List Property}
    (hproperties : context.frame.unit.CoversProperties sc properties) :
    Yields gone (objectLiteral self context properties) m := by
  unfold objectLiteral
  have halters : World.Alters gone m.world (m.world.newObject none).2 :=
    World.alters_newObject hm.world fun _ h => nomatch h
  refine (meets_onWorld (g := (·.newObject none)) halters).bind hm ?_
  rintro o m₁ hm₁ hg₁ ⟨rfl, hm'⟩
  have ho : m₁.world.Knows gone (.object (m.world.newObject none).1) := by
    rw [hm']
    exact World.knows_newObject hm.world none
  -- the new object is held while its properties are evaluated
  refine (runs_storeProperties hself hm₁ ((hc.grows hm hm₁ hg₁).holdingNode ho) ho
    hproperties).bind hm₁ ?_
  exact fun _ m₂ _ hg₂ _ => Meets.pure (World.admits_object.mpr (ho.grows hg₂.world))

/-! ### Places -/

theorem meets_indexed {e key : Expr} (he : context.frame.unit.CoversExpr sc e)
    (hkey : context.frame.unit.CoversExpr sc key) :
    Meets gone (indexed self context e key) m fun r m' => m'.world.Admits gone r.1 := by
  unfold indexed
  refine (hself.eval hm hc he).bind hm ?_
  intro v m₁ hm₁ hg₁ hv
  refine (hself.eval hm₁ ((hc.grows hm hm₁ hg₁).holdingValue hv) hkey).bind hm₁ ?_
  exact fun _ m₂ _ hg₂ _ => Meets.pure (hm₁.admits_grows hg₂ hv)

/-- **`delete`.** Its operand is a member, so there is something to delete. -/
theorem yields_deleteTarget {operand : Expr} (hcovers : context.frame.unit.CoversExpr sc operand)
    (hmember : operand.form.isMember = true) :
    Yields gone (deleteTarget self context operand) m := by
  unfold deleteTarget
  -- A property by name or by key, or a slot; the grammar allows nothing else.
  cases hform : operand.form with
  | member e name =>
    refine (hself.eval hm hc (hcovers.member hform)).bind hm ?_
    exact fun v m₁ hm₁ _ hv => yields_deleteMember hm₁ hv _
  | index e key =>
    obtain ⟨he, hkey⟩ := hcovers.index hform
    refine (meets_indexed hself hm hc he hkey).bind hm ?_
    exact fun r m₁ hm₁ _ hr => yields_deleteMember hm₁ hr _
  | slot accessor key =>
    obtain ⟨haccessor, hkey⟩ := hcovers.slot hform
    have hbound := hcovers.boundTo hc.unit (Or.inl ⟨key, hform⟩)
    exact yields_deleteSlot hself hm hc hbound haccessor hkey
  | _ =>
    rw [hform] at hmember
    cases hmember

theorem yields_typeOf {operand : Expr} (hcovers : context.frame.unit.CoversExpr sc operand) :
    Yields gone (typeOf self context operand) m := by
  have htype : Yields gone (do return .string (← self.eval context operand).typeName) m :=
    (hself.eval hm hc hcovers).bind hm fun _ _ _ _ _ => Meets.pure (World.admits_string _)
  unfold typeOf
  cases operand.form with
  -- a name that is not bound has a type all the same
  | ident name =>
    refine Meets.world_bind ?_
    dsimp only
    rw [pure_bind]
    split
    · exact Meets.pure (World.admits_string _)
    · exact htype
  | _ => exact htype

theorem yields_unary {e : Expr} (he : context.frame.unit.CoversExpr sc e) {op : UnaryOp}
    {operand : Expr} (hform : e.form = .unary op operand) :
    Yields gone (unary self context op operand) m := by
  have hoperand := he.unary hform
  have hproper := he.isProper hc.unit
  rw [hform] at hproper
  cases op with
  | delete => exact yields_deleteTarget hself hm hc hoperand hproper
  | typeof => exact yields_typeOf hself hm hc hoperand
  | not =>
    exact (hself.eval hm hc hoperand).bind hm fun _ _ _ _ _ => Meets.pure (World.admits_bool _)
  | negate => exact (hself.eval hm hc hoperand).bind hm fun v _ _ _ _ => yields_negated v

/-- **Assignment.** Its target can be assigned to. -/
theorem yields_assign {e target value : Expr} (he : context.frame.unit.CoversExpr sc e)
    (hform : e.form = .assign target value) : Yields gone (assign self context target value) m := by
  obtain ⟨htarget, hvalue⟩ := he.assign hform
  -- a target that the parser let through has one of four forms
  have hproper := he.isProper hc.unit
  rw [hform] at hproper
  replace hproper : target.form.isAssignable = true := hproper
  unfold assign
  -- in each, the value is admitted, and still is once it has been written
  cases hplace : target.form with
  | ident name =>
    refine (hself.eval hm hc hvalue).bind hm ?_
    intro v m₁ hm₁ hg₁ hv
    refine (runs_writeName hm₁ (hc.grows hm hm₁ hg₁) name hv).bind hm₁ ?_
    exact fun _ _ _ hg₂ _ => Meets.pure (hm₁.admits_grows hg₂ hv)
  | member object name =>
    refine (hself.eval hm hc (htarget.member hplace)).bind hm ?_
    intro o m₁ hm₁ hg₁ ho
    refine (hself.eval hm₁ ((hc.grows hm hm₁ hg₁).holdingValue ho) hvalue).bind hm₁ ?_
    intro v m₂ hm₂ hg₂ hv
    refine (runs_setMember hm₂ (hm₁.admits_grows hg₂ ho) hv (.string name)).bind hm₂ ?_
    exact fun _ _ _ hg₃ _ => Meets.pure (hm₂.admits_grows hg₃ hv)
  | index object key =>
    obtain ⟨hobject, hkey⟩ := htarget.index hplace
    refine (meets_indexed hself hm hc hobject hkey).bind hm ?_
    rintro ⟨o, key⟩ m₁ hm₁ hg₁ ho
    refine (hself.eval hm₁ ((hc.grows hm hm₁ hg₁).holdingValue ho) hvalue).bind hm₁ ?_
    intro v m₂ hm₂ hg₂ hv
    refine (runs_setMember hm₂ (hm₁.admits_grows hg₂ ho) hv key).bind hm₂ ?_
    exact fun _ _ _ hg₃ _ => Meets.pure (hm₂.admits_grows hg₃ hv)
  | slot accessor key =>
    obtain ⟨haccessor, hkey⟩ := htarget.slot hplace
    have hbound := htarget.boundTo hc.unit (Or.inl ⟨key, hplace⟩)
    exact yields_writeSlot hself hm hc hbound haccessor hkey hvalue
  | _ =>
    rw [hplace] at hproper
    cases hproper

/-! ### Calls and classes -/

omit hself in
/-- **`super`.** Where it may be used, the home has a parent. -/
theorem yields_superMember (hsuper : sc.superUse ≠ .nothing) (name : String) :
    Yields gone (superMember context name) m := by
  obtain ⟨home, hhome, parent, hparent⟩ := hc.surrounds.parent hsuper
  -- code that may use `super` is in a home with a parent, which the home holds
  have hclass : m.world.Admits gone (.class parent) := by
    refine ⟨(hc.surrounds.fits home hhome).parent parent hparent, fun n hn => ?_⟩
    cases hn
    refine hc.home home hhome _ (List.mem_cons_of_mem _ ?_)
    rw [hparent]
    exact List.mem_cons_self
  have hfound : context.frame.home.bind (·.parent) = some parent := by
    rw [Option.mem_def.mp hhome]
    exact hparent
  unfold superMember
  rw [hfound]
  refine Meets.world_bind (Meets.pure (World.admits_getD fun v hv => ?_))
  exact hm.world.admits_of_getProperty? (hm.world.knows_prototype hclass) hv

theorem meets_calleeOf {callee : Expr} (hcallee : context.frame.unit.CoversExpr sc callee) :
    Meets gone (calleeOf self context callee) m fun r m' =>
      m'.world.Admits gone r.1 ∧ m'.world.Admits gone r.2 := by
  unfold calleeOf
  have hvalue := hself.eval hm hc hcallee
  -- the receiver is what the method was found on: a value just evaluated, a class, or `this`
  cases hform : callee.form with
  | member e name =>
    refine (hself.eval hm hc (hcallee.member hform)).bind hm ?_
    intro o m₁ hm₁ _ ho
    refine (yields_getMember hm₁ ho (.string name)).bind hm₁ ?_
    exact fun _ _ _ hg₂ hv => Meets.pure ⟨hv, hm₁.admits_grows hg₂ ho⟩
  | index e key =>
    obtain ⟨he, hkey⟩ := hcallee.index hform
    refine (meets_indexed hself hm hc he hkey).bind hm ?_
    intro r m₁ hm₁ _ hr
    refine (yields_getMember hm₁ hr r.2).bind hm₁ ?_
    exact fun _ _ _ hg₂ hv => Meets.pure ⟨hv, hm₁.admits_grows hg₂ hr⟩
  | slot accessor key =>
    obtain ⟨haccessor, hkey⟩ := hcallee.slot hform
    have hbound := hcallee.boundTo hc.unit (Or.inl ⟨key, hform⟩)
    exact meets_readMethod hself hm hc hbound haccessor hkey
  | superMember name =>
    exact hvalue.bind hm fun _ _ _ hg hv => Meets.pure ⟨hv, hm.admits_grows hg hc.this⟩
  | _ => exact hvalue.bind hm fun _ _ _ _ hv => Meets.pure ⟨hv, World.admits_undefined⟩

theorem yields_call {callee : Expr} {args : List Expr}
    (hcallee : context.frame.unit.CoversExpr sc callee)
    (hargs : context.frame.unit.CoversExprs sc args) :
    Yields gone (call self context callee args) m := by
  unfold call
  refine (meets_calleeOf hself hm hc hcallee).bind hm ?_
  rintro ⟨f, this⟩ m₁ hm₁ hg₁ ⟨hf, hthis⟩
  -- the function and its receiver are held while the arguments are evaluated
  have hc₁ : (context.holdingValues [f, this]).Suits gone m₁ sc := by
    refine (hc.grows hm hm₁ hg₁).holdingValues fun v hv => ?_
    obtain rfl | rfl : v = f ∨ v = this := by simpa using hv
    · exact hf
    · exact hthis
  refine (meets_evalArgs hself hm₁ hc₁ hargs).bind hm₁ ?_
  intro vs m₂ hm₂ hg₂ hvs
  exact yields_callValue hself hm₂ (hc₁.grows hm₁ hm₂ hg₂).nodes (hm₁.admits_grows hg₂ hthis) hvs
    (hm₁.admits_grows hg₂ hf)

theorem yields_new {callee : Expr} {args : List Expr}
    (hcallee : context.frame.unit.CoversExpr sc callee)
    (hargs : context.frame.unit.CoversExprs sc args) :
    Yields gone (new self context callee args) m := by
  unfold new
  refine (hself.eval hm hc hcallee).bind hm ?_
  intro v m₁ hm₁ hg₁ hv
  have hc₁ := hc.grows hm hm₁ hg₁
  refine (meets_evalArgs hself hm₁ (hc₁.holdingValue hv) hargs).bind hm₁ ?_
  intro vs m₂ hm₂ hg₂ hvs
  -- Only classes can be constructed.
  cases v with
  | «class» c =>
    exact yields_construct hm₂ (hm₁.admits_grows hg₂ hv) hself (hc₁.grows hm₁ hm₂ hg₂).nodes hvs
  | _ => exact meets_raiseType _

/-- **Expressions.** -/
theorem yields_evalExpr {e : Expr} (he : context.frame.unit.CoversExpr sc e) :
    Yields gone (evalExpr self context e) m := by
  unfold evalExpr
  -- one case for each form: its parts are covered as it is, and evaluated in its context
  cases hform : e.form with
  | number n => exact Meets.pure (World.admits_number n)
  | string s => exact Meets.pure (World.admits_string s)
  | bool b => exact Meets.pure (World.admits_bool b)
  | null => exact Meets.pure World.admits_null
  | undefined => exact Meets.pure World.admits_undefined
  | ident name => exact yields_readName hm hc name
  | this => exact Meets.pure hc.this
  | object properties => exact yields_objectLiteral hself hm hc (he.object hform)
  | functionDef definition =>
    exact (yields_function hm hc (he.functionDef hform)).bind hm fun _ _ _ _ hf => Meets.pure hf
  | classDef definition =>
    exact (meets_defineClass hself hm hc (he.classDef hform)).bind hm
      fun _ _ _ _ hr => Meets.pure hr
  | unary op operand => exact yields_unary hself hm hc he hform
  | binary op left right =>
    obtain ⟨hleft, hright⟩ := he.binary hform
    refine (hself.eval hm hc hleft).bind hm ?_
    intro a m₁ hm₁ hg₁ ha
    refine (hself.eval hm₁ ((hc.grows hm hm₁ hg₁).holdingValue ha) hright).bind hm₁ ?_
    exact fun b _ _ _ _ => yields_binary op a b
  | logical op left right =>
    obtain ⟨hleft, hright⟩ := he.logical hform
    refine (hself.eval hm hc hleft).bind hm ?_
    intro a m₁ hm₁ hg₁ ha
    -- the left side decides, and is the value, or the right side is evaluated too
    split
    · exact Meets.pure ha
    · exact hself.eval hm₁ ((hc.grows hm hm₁ hg₁).holdingValue ha) hright
  -- an evaluator is called with the context that holds the values made so far
  | assign target value => exact yields_assign hself hm hc he hform
  | member object name =>
    refine (hself.eval hm hc (he.member hform)).bind hm ?_
    exact fun o _ hm₁ _ ho => yields_getMember hm₁ ho _
  | index object key =>
    obtain ⟨hobject, hkey⟩ := he.index hform
    refine (meets_indexed hself hm hc hobject hkey).bind hm ?_
    exact fun r _ hm₁ _ hr => yields_getMember hm₁ hr r.2
  | call callee args =>
    obtain ⟨hcallee, hargs⟩ := he.call hform
    exact yields_call hself hm hc hcallee hargs
  | new callee args =>
    obtain ⟨hcallee, hargs⟩ := he.new hform
    exact yields_new hself hm hc hcallee hargs
  -- the binder has resolved the accessor, and the frame is that of the code it resolved it for
  | slot accessor key =>
    obtain ⟨haccessor, hkey⟩ := he.slot hform
    have hbound := he.boundTo hc.unit (Or.inl ⟨key, hform⟩)
    exact yields_readSlot hself hm hc hbound haccessor hkey
  | hasSlot key accessor =>
    obtain ⟨hkey, haccessor⟩ := he.hasSlot hform
    have hbound := he.boundTo hc.unit (Or.inr ⟨key, hform⟩)
    refine (hself.eval hm hc hkey).bind hm ?_
    exact fun v _ hm₁ hg₁ _ =>
      yields_hasSlot hself hm₁ (hc.grows hm hm₁ hg₁) hbound haccessor v.toKey
  | superCall args =>
    -- the binder lets `super` be called only in constructors of classes with a parent
    have hsuper := he.superCall hc.unit hform
    refine (meets_evalArgs hself hm hc (he.superArgs hform)).bind hm ?_
    intro vs m₁ hm₁ hg₁ hvs
    refine (runs_superCall hself hm₁ (hc.grows hm hm₁ hg₁) hsuper hvs).bind hm₁ ?_
    exact fun _ _ _ _ _ => Meets.pure World.admits_undefined
  | superMember name => exact yields_superMember hm hc (he.superMember hc.unit hform) name

end Parts

end Enclave.Eval
