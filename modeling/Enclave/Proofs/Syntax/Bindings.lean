import Enclave.Proofs.Binding
import Enclave.Proofs.Syntax.Scopes
import Mathlib.Data.List.Perm.Basic

/-!
# Exactness of binding

Binding a program fails if and only if some place in it offends against the scopes
(`Place.offence?`): an accessor outside of all class bodies, a call `super(...)` in anything but the
constructor of a derived class, or `super` where no instance has a parent to speak of. Each such
place gives one error. In a program without one, every accessor is bound to the class whose body it
stands in, and nothing else is bound; of every class it is known what its body declares, and how
many accessors are bound to it (`Program.bind_exact`).
-/

namespace Enclave

open SyntaxNode

/-! ### What is expected of a place -/

/-- The accessor through which an expression reaches a table. -/
def ExprForm.accessor? : ExprForm → Option Accessor
  | .slot a _ | .hasSlot _ a => some a
  | _ => none

namespace SyntaxNode

/-- The class that a node is. -/
def class? : SyntaxNode → Option ClassDef
  | .class c => some c
  | _ => none

namespace Place

/-- How a place offends against the scopes, and where that is reported: an accessor at its own
region, `super` at that of the expression. -/
def offence? : Place → Option ScopeError
  | ⟨.expr e, above⟩ =>
    match e.form with
    | .slot a _ | .hasSlot _ a =>
      if ((expr e).enclosingClass? above).isSome then none
      else some ⟨.accessorOutsideClass a.keyword, a.span⟩
    | .superCall _ =>
      if (innermostCode? above).any Code.mayCallSuper then none else some ⟨.superCall, e.span⟩
    | .superMember _ =>
      if (innermostCode? above).any Code.mayUseSuper then none else some ⟨.superMember, e.span⟩
    | _ => none
  | _ => none

/-- The class that the accessor at a place belongs to. -/
def accessed? : Place → Option ClassDef
  | ⟨.expr e, above⟩ => e.form.accessor?.bind fun _ => (expr e).enclosingClass? above
  | _ => none

/-- The accessor at a place with the class it belongs to. -/
def site? : Place → Option BoundSite
  | ⟨.expr e, above⟩ =>
    (Place.mk (.expr e) above).accessed?.map fun c => ⟨e.id, e.span, c.site⟩
  | _ => none

end Place

end SyntaxNode

/-! ### The findings at a place -/

/-- `super(...)` may be called where the innermost function allows for it. -/
theorem superUseIn_eq_construction (code? : Option Code) :
    superUseIn code? = .construction ↔ code?.any Code.mayCallSuper = true := by
  cases code? with
  | none => simp [superUseIn]
  | some code =>
    rw [superUseIn, Option.any_some]
    split
    · next h => simp [h]
    · next h => split <;> simp [h]

/-- `super` has no meaning where the innermost function does not allow for it. -/
theorem superUseIn_eq_nothing (code? : Option Code) :
    superUseIn code? = .nothing ↔ code?.any Code.mayUseSuper = false := by
  cases code? with
  | none => simp [superUseIn]
  | some code =>
    -- a constructor that may call `super` may also use it
    have himp : code.mayCallSuper = true → code.mayUseSuper = true := by
      cases code <;> simp [Code.mayCallSuper, Code.mayUseSuper]
    rw [superUseIn, Option.any_some]
    split
    · next h => simp [himp h]
    · next h => split <;> simp [*]

namespace SyntaxNode.Place

variable (place : Place)

theorem errors_findings : place.findings.filterMap Finding.error? = place.offence?.toList := by
  obtain ⟨n, above⟩ := place
  -- only an accessor and a use of `super` can be out of place
  cases n with
  | expr e =>
    obtain ⟨id, span, height, form⟩ := e
    cases form with
    | slot a key =>
      cases h : (expr ⟨id, span, height, .slot a key⟩).enclosingClass? above <;>
        simp [findings, offence?, Finding.ofAccessor, scope, h, Finding.error?]
    | hasSlot key a =>
      cases h : (expr ⟨id, span, height, .hasSlot key a⟩).enclosingClass? above <;>
        simp [findings, offence?, Finding.ofAccessor, scope, h, Finding.error?]
    -- a call of `super` is an offence outside of a derived constructor
    | superCall args =>
      by_cases h : (innermostCode? above).any Code.mayCallSuper = true
      · simp [findings, offence?, Finding.ofSuperCall, scope,
          (superUseIn_eq_construction _).mpr h, h]
      · simp [findings, offence?, Finding.ofSuperCall, scope, superUseIn_eq_construction, h,
          Finding.error?]
    -- a member of `super` is an offence outside of a derived class
    | superMember name =>
      by_cases h : (innermostCode? above).any Code.mayUseSuper = true
      · simp [findings, offence?, Finding.ofSuperMember, scope, superUseIn_eq_nothing, h]
      · simp [findings, offence?, Finding.ofSuperMember, scope, superUseIn_eq_nothing, h,
          Finding.error?]
    | _ => rfl
  | _ => rfl

theorem sites_findings : place.findings.filterMap Finding.site? = place.site?.toList := by
  obtain ⟨n, above⟩ := place
  -- only an accessor is bound, to the class around it
  cases n with
  | expr e =>
    obtain ⟨id, span, height, form⟩ := e
    cases form with
    | slot a key =>
      cases h : (expr ⟨id, span, height, .slot a key⟩).enclosingClass? above <;>
        simp [findings, site?, accessed?, ExprForm.accessor?, Finding.ofAccessor, scope, h,
          Finding.site?]
    | hasSlot key a =>
      cases h : (expr ⟨id, span, height, .hasSlot key a⟩).enclosingClass? above <;>
        simp [findings, site?, accessed?, ExprForm.accessor?, Finding.ofAccessor, scope, h,
          Finding.site?]
    -- a use of `super` is bound to nothing, wherever it stands
    | superCall args =>
      by_cases h : (scope (.expr ⟨id, span, height, .superCall args⟩) above).superUse =
          .construction <;>
        simp [findings, site?, accessed?, ExprForm.accessor?, Finding.ofSuperCall, h,
          Finding.site?]
    | superMember name =>
      by_cases h : (scope (.expr ⟨id, span, height, .superMember name⟩) above).superUse =
          .nothing <;>
        simp [findings, site?, accessed?, ExprForm.accessor?, Finding.ofSuperMember, h,
          Finding.site?]
    | _ => rfl
  | _ => rfl

theorem classes_findings : place.findings.filterMap Finding.class? = place.node.class?.toList := by
  obtain ⟨n, above⟩ := place
  -- Accessors and uses of `super` may be found, but only a class is a finding of a class.
  cases n with
  | expr e =>
    obtain ⟨id, span, height, form⟩ := e
    cases form with
    | slot a key | hasSlot key a =>
      simp only [findings, Finding.ofAccessor]
      split <;> rfl
    | superCall args =>
      simp only [findings, Finding.ofSuperCall]
      split <;> rfl
    | superMember name =>
      simp only [findings, Finding.ofSuperMember]
      split <;> rfl
    | _ => rfl
  | _ => rfl

/-- An accessor offends if it belongs to no class, and otherwise belongs to one. -/
theorem isSome_accessed? {e : Expr} {a : Accessor} {above : List SyntaxNode}
    (hform : e.form.accessor? = some a)
    (hoffence : (Place.mk (.expr e) above).offence? = none) :
    ∃ c, (expr e).enclosingClass? above = some c := by
  obtain ⟨id, span, height, form⟩ := e
  cases form <;> cases hform <;>
  · simp only [offence?] at hoffence
    split at hoffence
    · next h => exact Option.isSome_iff_exists.mp h
    · cases hoffence

end SyntaxNode.Place

/-! ### The findings in a program -/

namespace Program

variable (p : Program)

/-- What is picked from the findings in a program is what is picked at its places. -/
theorem filterMap_findings {α : Type} (pick : Finding → Option α) (pickAt : Place → Option α)
    (h : ∀ place : Place, place.findings.filterMap pick = (pickAt place).toList) :
    (p.findings.filterMap pick).Perm (p.places.filterMap pickAt) := by
  refine (p.findings_perm.filterMap pick).trans (.of_eq ?_)
  rw [List.filterMap_flatMap, List.filterMap_eq_flatMap_toList]
  exact List.flatMap_congr fun place _ => h place

theorem nodes_eq : p.nodes = p.places.map (·.node) := by
  rw [nodes, places, List.map_flatMap]
  exact List.flatMap_congr fun n _ => (node_places [] n).symm

theorem errors_findings :
    (p.findings.filterMap Finding.error?).Perm (p.places.filterMap Place.offence?) :=
  p.filterMap_findings _ _ Place.errors_findings

theorem sites_findings :
    (p.findings.filterMap Finding.site?).Perm (p.places.filterMap Place.site?) :=
  p.filterMap_findings _ _ Place.sites_findings

theorem classes_findings :
    (p.findings.filterMap Finding.class?).Perm (p.nodes.filterMap class?) := by
  rw [nodes_eq, List.filterMap_map]
  exact p.filterMap_findings _ _ Place.classes_findings

end Program

/-! ### Declared names -/

/-- Of names in order, taking equal neighbours together leaves each name once. -/
theorem foldr_once {names : List String} (h : names.Pairwise (· ≤ ·)) (once : List String)
    (honce : names.foldr (fun name rest => if rest.head? = some name then rest else name :: rest) []
      = once) :
    once.head? = names.head? ∧ (∀ name, name ∈ once ↔ name ∈ names) ∧ once.Pairwise (· < ·) := by
  -- From the last name to the first: a name is left out when it stands in front of itself.
  induction names generalizing once with
  | nil =>
    subst honce
    exact ⟨rfl, fun _ => Iff.rfl, .nil⟩
  | cons first names ih =>
    obtain ⟨hfirst, hnames⟩ := List.pairwise_cons.mp h
    rw [List.foldr_cons] at honce
    obtain ⟨hhead, hmem, hsorted⟩ := ih hnames _ rfl
    split at honce
    · next heq =>
      subst honce
      have hin : first ∈ names := List.mem_of_mem_head? (hhead ▸ heq)
      refine ⟨heq, fun name => ?_, hsorted⟩
      rw [hmem, List.mem_cons]
      exact ⟨.inr, fun h => h.elim (fun h => h ▸ hin) id⟩
    · next hne =>
      subst honce
      refine ⟨rfl, fun name => by rw [List.mem_cons, List.mem_cons, hmem],
        List.pairwise_cons.mpr ⟨fun name hname => ?_, hsorted⟩⟩
      -- a name behind is not smaller, and were it the same it would come first among those behind
      refine String.not_le.mp fun hle => hne ?_
      have heq := String.le_antisymm (hfirst name ((hmem name).mp hname)) hle
      subst heq
      cases names with
      | nil => exact absurd ((hmem first).mp hname) List.not_mem_nil
      | cons second names =>
        rw [hhead, List.head?_cons]
        refine congrArg some (String.le_antisymm ?_ (hfirst second List.mem_cons_self))
        rcases List.mem_cons.mp ((hmem first).mp hname) with rfl | hin
        · exact String.le_refl _
        · exact (List.pairwise_cons.mp hnames).1 first hin

theorem sortedNames_once (names : List String) :
    (∀ name, name ∈ sortedNames names ↔ name ∈ names) ∧
      (sortedNames names).Pairwise (· < ·) := by
  have hsorted : (names.mergeSort fun a b => !decide (b < a)).Pairwise (· ≤ ·) := by
    -- the order that is sorted by is transitive and total
    refine (@List.pairwise_mergeSort _ (fun a b : String => !decide (b < a))
      (fun a b c hab hbc => ?_) (fun a b => ?_) names).imp fun hab => ?_
    · simp only [Bool.not_eq_true', decide_eq_false_iff_not, String.not_lt] at *
      exact String.le_trans hab hbc
    · simp only [Bool.or_eq_true, Bool.not_eq_true', decide_eq_false_iff_not, String.not_lt]
      exact String.le_total a b
    · simpa only [Bool.not_eq_true', decide_eq_false_iff_not, String.not_lt] using hab
  obtain ⟨-, hmem, hstrict⟩ := foldr_once hsorted _ rfl
  exact ⟨fun name => (hmem name).trans (List.mem_mergeSort), hstrict⟩

/-! ### Programs -/

/-- What is known of a class before the program runs is true of it. -/
structure ConstructInfo.IsOf (i : ConstructInfo) (c : ClassDef) (p : Program) : Prop where
  named : i.site = c.site ∧ i.name = c.displayName ∧ i.span = c.span
  privateNames : ∀ name, name ∈ i.privateNames ↔
    ∃ m ∈ c.members, m.form.isPrivate = true ∧ m.name = name
  staticNames : ∀ name, name ∈ i.staticNames ↔
    ∃ m ∈ c.members, m.form.isStatic = true ∧ m.name = name
  /-- Names are given once, in ascending order. -/
  sorted : i.privateNames.Pairwise (· < ·) ∧ i.staticNames.Pairwise (· < ·)
  accessSites : i.accessSites =
    p.places.countP fun place => place.accessed?.map (·.site) = some c.site

/-- What it is for bindings to be those of a program. -/
structure Bindings.IsExact (b : Bindings) (p : Program) : Prop where
  /-- There is one entry for each accessor, and none besides. -/
  sites : b.sites.Perm (p.places.filterMap Place.site?)
  /-- No two entries are for the same expression. -/
  once : (b.sites.map (·.expr)).Nodup
  /-- Each accessor is bound to the class around it. -/
  bound : ∀ e above a, ⟨.expr e, above⟩ ∈ p.places → e.form.accessor? = some a →
    ∃ c, (expr e).enclosingClass? above = some c ∧ b.classOf? e.id = some c.site
  /-- Nothing is bound but accessors. -/
  domain : ∀ id site, b.classOf? id = some site →
    ∃ e a, .expr e ∈ p.nodes ∧ e.id = id ∧ e.form.accessor? = some a
  /-- There is one entry for each class, and none besides. -/
  constructs : ∃ classes, List.Forall₂ (fun i c => i.IsOf c p) b.constructs classes ∧
    classes.Perm (p.nodes.filterMap class?)
  /-- The classes are listed by their numbers, with no number left out. -/
  numbered : b.constructs.map (·.site.index) = List.range p.classCount

namespace Program

variable {p : Program}

/-- What is kept of a class, given the accessors that are bound. -/
def info (sites : List BoundSite) (c : ClassDef) : ConstructInfo :=
  ⟨c.site, c.displayName, c.span, c.privateNames, c.staticNames,
    sites.countP (·.classSite = c.site)⟩

theorem isOf_info (c : ClassDef) {sites : List BoundSite}
    (hsites : sites.Perm (p.places.filterMap Place.site?)) :
    (info sites c).IsOf c p where
  named := ⟨rfl, rfl, rfl⟩
  privateNames name := by
    refine ((sortedNames_once _).1 name).trans ?_
    simp only [List.mem_map, List.mem_filter, and_assoc]
  staticNames name := by
    refine ((sortedNames_once _).1 name).trans ?_
    simp only [List.mem_map, List.mem_filter, and_assoc]
  sorted := ⟨(sortedNames_once _).2, (sortedNames_once _).2⟩
  -- the sites are those of the places that access the class
  accessSites := by
    rw [info, hsites.countP_eq, List.countP_filterMap]
    refine List.countP_congr fun place _ => ?_
    obtain ⟨n, above⟩ := place
    cases n with
    | expr e =>
      cases h : (Place.mk (.expr e) above).accessed? <;> simp [Place.site?, h]
    | _ => simp [Place.site?, Place.accessed?]

/-- The classes met in a program, by their numbers. -/
theorem indices_classes {source : List UInt8} (h : read source = .ok p) :
    ((p.findings.filterMap Finding.class?).map (·.site.index)).Perm (List.range p.classCount) := by
  obtain ⟨-, -, hclasses, -⟩ := read_numbers h
  have hindices : (p.nodes.filterMap class?).map (·.site.index) =
      p.nodes.filterMap classIndex? := by
    rw [List.map_filterMap]
    refine List.filterMap_congr fun n _ => ?_
    cases n <;> rfl
  exact (p.classes_findings.map _).trans (hindices ▸ hclasses)

/-- Each entry is that of the class it was made from, and sorting only moves entries. -/
theorem constructs_ofFindings (p : Program) : ∃ classes,
    List.Forall₂ (fun i c => i.IsOf c p) (Bindings.ofFindings p.findings).constructs classes ∧
      classes.Perm (p.nodes.filterMap class?) := by
  have hinfo : List.Forall₂ (fun i c => i.IsOf c p)
      ((p.findings.filterMap Finding.class?).map (info (p.findings.filterMap Finding.site?)))
      (p.findings.filterMap Finding.class?) :=
    List.forall₂_map_left_iff.mpr (List.forall₂_same.mpr fun c _ => isOf_info c p.sites_findings)
  obtain ⟨classes, hclasses, hperm⟩ := List.perm_comp_forall₂ (List.mergeSort_perm _ _) hinfo
  exact ⟨classes, hclasses, hperm.trans p.classes_findings⟩

theorem numbered_ofFindings {source : List UInt8} (h : read source = .ok p) :
    (Bindings.ofFindings p.findings).constructs.map (·.site.index) = List.range p.classCount := by
  have hsorted : ((Bindings.ofFindings p.findings).constructs.map (·.site.index)).Pairwise
      (· ≤ ·) := by
    refine List.pairwise_map.mpr ((List.pairwise_mergeSort (fun a b c hab hbc => ?_)
      (fun a b => ?_) _).imp of_decide_eq_true)
    · exact decide_eq_true (Nat.le_trans (of_decide_eq_true hab) (of_decide_eq_true hbc))
    · simpa using Nat.le_total a.site.index b.site.index
  have hperm : ((Bindings.ofFindings p.findings).constructs.map (·.site.index)).Perm
      (List.range p.classCount) := by
    refine ((List.mergeSort_perm _ _).map _).trans ?_
    rw [List.map_map]
    exact indices_classes h
  -- two sorted lists of the same numbers are equal
  exact hperm.eq_of_pairwise (fun _ _ _ _ => Nat.le_antisymm) hsorted (List.pairwise_le_range)

/-- **Bindings.** In a program without offences they are exact. -/
theorem isExact_ofFindings {source : List UInt8} (h : read source = .ok p)
    (hnone : ∀ place ∈ p.places, place.offence? = none) :
    (Bindings.ofFindings p.findings).IsExact p := by
  have hsites := p.sites_findings
  -- the expressions are numbered apart, so each is bound at most once
  have honce : ((p.findings.filterMap Finding.site?).map (·.expr)).Nodup :=
    nodup_siteIds p (read_tracks h).1
  refine
    { sites := hsites
      once := honce
      bound := ?bound
      domain := ?domain
      constructs := p.constructs_ofFindings
      numbered := numbered_ofFindings h }
  case bound =>
    intro e above a hplace hform
    obtain ⟨c, hc⟩ := Place.isSome_accessed? hform (hnone _ hplace)
    have hsite : (Place.mk (.expr e) above).site? = some ⟨e.id, e.span, c.site⟩ := by
      rw [Place.site?, Place.accessed?, hform, Option.bind_some, hc]
      rfl
    have hmem : (⟨e.id, e.span, c.site⟩ : BoundSite) ∈ p.findings.filterMap Finding.site? :=
      hsites.mem_iff.mpr (List.mem_filterMap.mpr ⟨_, hplace, hsite⟩)
    obtain ⟨finding, hfinding, heq⟩ := List.mem_filterMap.mp hmem
    cases finding <;> cases heq
    exact ⟨c, hc, CompiledUnit.classOf?_of_mem honce hfinding⟩
  -- what is bound was found at a place, and the place is that of an accessor
  case domain =>
    intro id site hid
    obtain ⟨s, hfind, -⟩ := Option.map_eq_some_iff.mp hid
    have hexpr : s.expr = id := by simpa using List.find?_some hfind
    obtain ⟨place, hplace, hsite⟩ := List.mem_filterMap.mp
      (hsites.mem_iff.mp (List.mem_of_find?_eq_some hfind))
    obtain ⟨n, above⟩ := place
    cases n with
    | expr e =>
      obtain ⟨c, hc, rfl⟩ := Option.map_eq_some_iff.mp hsite
      obtain ⟨a, hform, -⟩ := Option.bind_eq_some_iff.mp hc
      refine ⟨e, a, ?_, hexpr, hform⟩
      rw [nodes_eq]
      exact List.mem_map_of_mem hplace
    | _ => cases hsite

theorem bind_eq (p : Program) : p.bind =
    if p.findings.filterMap Finding.error? = [] then .ok (.ofFindings p.findings)
    else .error (p.findings.filterMap Finding.error?) := by
  unfold bind
  simp only [List.isEmpty_iff]

/-- **Binding is exact.** It fails if and only if some place in the program offends against the
scopes, and then gives one error for each such place. Otherwise what it gives is exact. -/
theorem bind_exact {source : List UInt8} (h : read source = .ok p) :
    ((∃ errors, p.bind = .error errors) ↔ ∃ place ∈ p.places, place.offence?.isSome = true) ∧
    (∀ errors, p.bind = .error errors → errors.Perm (p.places.filterMap Place.offence?)) ∧
    ∀ b, p.bind = .ok b → b.IsExact p := by
  have herrors := p.errors_findings
  -- the errors found are the offences, so there are none of the one when none of the other
  have hnone : p.findings.filterMap Finding.error? = [] ↔
      ∀ place ∈ p.places, place.offence? = none := by
    rw [← List.filterMap_eq_nil_iff]
    exact ⟨fun hnil => (hnil ▸ herrors).nil_eq.symm, fun hnil => (hnil ▸ herrors).eq_nil⟩
  by_cases hnil : p.findings.filterMap Finding.error? = []
  · rw [bind_eq, if_pos hnil]
    refine ⟨⟨fun ⟨_, heq⟩ => (nomatch heq), fun ⟨place, hplace, hsome⟩ => ?_⟩,
      fun _ heq => (nomatch heq), fun b heq => ?_⟩
    · rw [hnone.mp hnil place hplace] at hsome
      cases hsome
    · cases heq
      exact isExact_ofFindings h (hnone.mp hnil)
  · rw [bind_eq, if_neg hnil]
    refine ⟨⟨fun _ => ?_, fun _ => ⟨_, rfl⟩⟩, fun errors heq => ?_, fun _ heq => (nomatch heq)⟩
    · by_contra hnot
      refine hnil (hnone.mpr fun place hplace => ?_)
      exact Option.not_isSome_iff_eq_none.mp fun h => hnot ⟨place, hplace, h⟩
    · cases heq
      exact herrors

/-- A derived class in a method of another class, from whose private slot it takes its parent. -/
def nestedClassesSource : List UInt8 :=
  ("class A \x7b private k; static s; private s() \x7b \x7d m() \x7b return class extends private.k " ++
    "\x7b constructor() \x7b super(); 'k' in private; static.s; \x7d \x7d; \x7d \x7d").toUTF8.toList

/-- An accessor outside of all classes, and `super` in a class without a parent. -/
def offendingSource : List UInt8 :=
  "private(o).k; class A \x7b constructor() \x7b super(); \x7d \x7d".toUTF8.toList

theorem bind_exact_nestedClasses :
    (∃ p b, read nestedClassesSource = .ok p ∧ p.bind = .ok b ∧
      b.sites.map (·.classSite.index) = [1, 0, 0] ∧ b.IsExact p) ∧
    ∃ p errors, read offendingSource = .ok p ∧ p.bind = .error errors ∧
      errors.map (·.fault) = [.accessorOutsideClass "private", .superCall] ∧
      errors.Perm (p.places.filterMap Place.offence?) := by
  constructor
  · -- two accessors in the outer class and one in the inner
    have hfacts : (match read nestedClassesSource with
        | .ok p => match p.bind with
          | .ok b => b.sites.map (·.classSite.index)
          | .error _ => []
        | .error _ => []) = [1, 0, 0] := by
      decide +kernel
    split at hfacts
    · next p hread =>
      split at hfacts
      · next b hbind => exact ⟨p, b, hread, hbind, hfacts, (bind_exact hread).2.2 b hbind⟩
      · cases hfacts
    · cases hfacts
  · -- an accessor outside any class, and a `super` in a function of its own
    have hfacts : (match read offendingSource with
        | .ok p => match p.bind with
          | .ok _ => []
          | .error errors => errors.map (·.fault)
        | .error _ => []) = [.accessorOutsideClass "private", .superCall] := by
      decide +kernel
    split at hfacts
    · next p hread =>
      split at hfacts
      · cases hfacts
      · next errors hbind =>
        exact ⟨p, errors, hread, hbind, hfacts, (bind_exact hread).2.1 errors hbind⟩
    · cases hfacts

end Program

end Enclave
