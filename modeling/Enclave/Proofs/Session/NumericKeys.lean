import Enclave.Proofs.Equality
import Enclave.Proofs.Eval.Rejection
import Enclave.Proofs.Session.Declarations
import Enclave.Proofs.Session.Tidiness
import Enclave.Proofs.Syntax.Stepping

/-!
# Numbers as keys

A number before the colon in an object literal names a property by its own text
(`Number.literalKey`), and so does a number between brackets, by the text that a script sees. The
two texts are the same of all numbers but the infinite ones (`Number.literalKey_eq_toKey_iff`). So
what is stored by a finite literal is read with the same number again
(`objectLiteral_reads_number`), and what is stored by a literal too large for any finite number is
not (`Session.not_reads_of_infinite`).
-/

namespace Enclave

variable {n : Number}

/-! ### Two texts of a number -/

/-- What is not a finite number is no integer. -/
theorem Number.integerText?_eq_none (h : n.isNaN = true ∨ n.isInfinite = true) :
    n.integerText? = none := by
  have hnone : n.toInt? = none := by
    rw [toInt?, if_pos (Bool.or_eq_true_iff.mpr h)]
  rw [integerText?, hnone]

/-- An infinite number is a number. -/
theorem Number.isNaN_of_isInfinite (h : n.isInfinite = true) : n.isNaN = false := by
  have hmagnitude : n.magnitude = infiniteMagnitude := of_decide_eq_true h
  rw [isNaN, hmagnitude]
  exact decide_eq_false (Nat.lt_irrefl _)

/-- **Two texts that agree.** All numbers but the infinite ones have the same text in a script and
in front of a colon. -/
theorem Number.literalKey_eq_text (h : n.isInfinite = false) : n.literalKey = n.text := by
  cases hnan : n.isNaN with
  | true =>
    rw [literalKey, integerText?_eq_none (Or.inl hnan), text, if_pos hnan]
    exact if_pos hnan
  | false =>
    -- Apart from the special values both have the plain text.
    cases hzero : n.isZero with
    | true => rw [literalKey_of_isZero hzero, text_of_isZero hzero]
    | false =>
      unfold text
      rw [hnan, h, hzero]
      rfl

/-- The infinite ones have not. -/
theorem Number.literalKey_ne_text (h : n.isInfinite = true) : n.literalKey ≠ n.text := by
  have hnan := isNaN_of_isInfinite h
  have hkey : n.literalKey = (if n.isNegative then "-" else "") ++ "inf" := by
    rw [literalKey, integerText?_eq_none (Or.inr h), Option.getD_none, plainText, hnan, h]
    rfl
  -- One spells infinity short, the other out.
  have htext : n.text = if n.isNegative then "-Infinity" else "Infinity" := by
    unfold text
    rw [hnan, h]
    rfl
  rw [hkey, htext]
  cases n.isNegative <;> decide

/-- **The key of a literal is the key of its value**, unless the value is infinite. -/
theorem Number.literalKey_eq_toKey_iff (n : Number) :
    PropertyKey.string n.literalKey = (Value.number n).toKey ↔ n.isInfinite = false := by
  have htext : PropertyKey.string n.literalKey = (Value.number n).toKey ↔ n.literalKey = n.text :=
    ⟨PropertyKey.string.inj, congrArg PropertyKey.string⟩
  rw [htext]
  cases h : n.isInfinite with
  | false => exact iff_of_true (literalKey_eq_text h) rfl
  | true => exact iff_of_false (literalKey_ne_text h) (by decide)

/-! ### Reading the literal -/

namespace Parser

/-- Before the first property of an object literal stands the number, and behind it, it names the
property. -/
def NamesFirst (n : Number) : List Property → Cursor → Prop
  | [], c => c.kind = .number n
  | p :: _, _ => p.name = n.literalKey

theorem finds_propertyName_number {c : Cursor} (hc : c.kind = .number n) :
    Finds propertyName c fun name _ => name = n.literalKey := by
  refine .peek ?_
  rw [hc]
  exact .next (.pure rfl)

theorem finds_of_forall {α : Type} {p : Parser α} {c : Cursor} {post : α → Cursor → Prop}
    (h : ∀ a c', post a c') : Finds p c post := by
  unfold Finds Ends
  cases p c with
  | ok a c' => exact h a c'
  | error e c' => trivial

theorem finds_anything {α : Type} (p : Parser α) (c : Cursor) : Finds p c fun _ _ => True :=
  finds_of_forall fun _ _ => trivial

/-- The number names the first property, whatever stands behind it. -/
theorem finds_objectOfNumber {deeper : Level} {c : Cursor} (hc : c.behind.kind = .number n) :
    Finds (objectLiteral deeper) c fun object _ =>
      ∃ e rest, object.form = .object (⟨n.literalKey, e⟩ :: rest) := by
  refine Finds.expectMark fun _ => Ends.bind
    (Ends.repeatSame (NamesFirst n) (fun ps c hps => ?_) trivial hc) fun ps c₂ hps => ?_
  · refine .ifMark (fun _ => .pure hps) fun _ => ?_
    -- with a property there is a first one, wherever reading goes on
    have hname : Finds propertyName c fun name _ =>
        ∀ e c', NamesFirst n (ps ++ [⟨name, e⟩]) c' := by
      cases ps with
      | nil => exact (finds_propertyName_number hps).imp fun name _ h _ _ => h
      | cons p ps => exact finds_of_forall fun _ _ _ _ => hps
    refine hname.bind fun name c₃ hname => Finds.expectMark fun _ => ?_
    refine (finds_anything _ _).bind fun e c₄ _ => ?_
    exact .ifSkipMark (fun _ => .pure (hname e _)) fun _ => .pure (hname e _)
  · refine Finds.expectMark fun hclose => Ends.newExpr trivial fun id height c' _ => ?_
    cases ps with
    | nil =>
      -- an object literal without properties is closed at once
      have hnumber : c₂.kind = .number n := hps
      rw [hnumber] at hclose
      cases hclose
    | cons p rest =>
      obtain ⟨name, e⟩ := p
      have hname : name = n.literalKey := hps
      exact ⟨e, rest, by rw [hname]⟩

end Parser

/-! ### Storing and reading -/

/-- What is set is read. -/
theorem World.getProperty?_setProperty {w : World} {o : ObjectId} (ho : o.index < w.objects.size)
    (key : PropertyKey) (v : Value) : (w.setProperty o key v).getProperty? o key = some v := by
  have hown : (w.setProperty o key v).getOwn? o key = some v := by
    rw [getOwn?, setProperty, objectAt_updateObject, if_pos ⟨rfl, ho⟩, SlotTable.get?_set,
      if_pos rfl]
  rw [getProperty?, protoChain, lineage, List.findSome?_cons, hown]

namespace Machine

/-- The machine after a new object has been made, which has no properties and no prototype. -/
def withObject (m : Machine) : Machine := { m with world := (m.world.newObject none).2 }

theorem IsTidy.withObject {m : Machine} (hm : m.IsTidy) :
    m.withObject.IsTidy ∧ m.Extends m.withObject := by
  obtain ⟨hw, hext⟩ := hm.world.newObject none
  exact hm.next hw hext hm.settled rfl rfl rfl (List.suffix_refl _)

/-- The machine after a value has been stored. -/
def storing (m : Machine) (o : ObjectId) (key : PropertyKey) (v : Value) : Machine :=
  { m with world := m.world.setProperty o key v }

end Machine

namespace Eval

variable {context : Context} {m m' : Machine} {e object key index : Expr} {v : Value}
  {name : String} {steps : ℕ}

/-- An object literal with one property, if the value of the property can be found. -/
theorem eval_objectOfOne (hobject : object.form = .object [⟨name, e⟩])
    (he : (evaluator steps).eval (context.holding [.object m.nextObject]) e m.withObject =
      .ok v m') :
    (evaluator (steps + 1)).eval context object m =
      .ok (.object m.nextObject) (m'.storing m.nextObject (.string name) v) := by
  change evalExpr (evaluator steps) context object m = _
  unfold evalExpr
  rw [hobject]
  have hstore : storeProperties (evaluator steps) (context.holding [.object m.nextObject])
      m.nextObject [⟨name, e⟩] m.withObject =
        .ok () (m'.storing m.nextObject (.string name) v) := bind_of_ok he
  exact bind_of_ok hstore

/-- Reading with the key that was stored. -/
theorem eval_indexOfOne (hindex : index.form = .index object key) (hkey : key.form = .number n)
    (hname : PropertyKey.string name = (Value.number n).toKey)
    (hobject : object.form = .object [⟨name, e⟩])
    (he : (evaluator steps).eval (context.holding [.object m.nextObject]) e m.withObject = .ok v m')
    (hthere : m.nextObject.index < m'.world.objects.size) :
    (evaluator (steps + 2)).eval context index m =
      .ok v (m'.storing m.nextObject (Value.number n).toKey v) := by
  have hstored := eval_objectOfOne hobject he
  have hnumber : ∀ context' m₁, (evaluator (steps + 1)).eval context' key m₁ =
      .ok (.number n) m₁ := by
    intro context' m₁
    change evalExpr (evaluator steps) context' key m₁ = _
    unfold evalExpr
    rw [hkey]
    rfl
  -- both are evaluated, and the key is the one under which the property is stored
  have hindexed : indexed (evaluator (steps + 1)) context object key m =
      .ok (.object m.nextObject, (Value.number n).toKey)
        (m'.storing m.nextObject (Value.number n).toKey v) := by
    rw [hname] at hstored
    exact (bind_of_ok hstored).trans (bind_of_ok (hnumber _ _))
  -- the property is found in the object itself
  have hread := World.getProperty?_setProperty hthere (Value.number n).toKey v
  change evalExpr (evaluator (steps + 1)) context index m = _
  unfold evalExpr
  rw [hindex]
  refine (bind_of_ok hindexed).trans ?_
  change EStateM.Result.ok (((m'.world.setProperty m.nextObject _ v).getProperty? m.nextObject
    (Value.number n).toKey).getD .undefined) _ = _
  rw [hread]
  rfl

end Eval

/-- **Numbers as keys.** If an object literal begins with a finite number as a key, then it has a
first property, and the key of that is the key of the number as a value. Of an object literal with
this property alone, indexing it with the number gives what the value of the property is found to
be, wherever it is evaluated. -/
theorem objectLiteral_reads_number (hfinite : n.isInfinite = false) {deeper : Level} {c c' : Cursor}
    {object : Expr} (hc : c.behind.kind = .number n)
    (hread : Parser.objectLiteral deeper c = .ok object c') :
    PropertyKey.string n.literalKey = (Value.number n).toKey ∧
      ∃ e rest, object.form = .object (⟨n.literalKey, e⟩ :: rest) ∧
        (rest = [] → ∀ steps context (m : Machine), m.IsTidy → m.Suits context.frame →
          ∀ v m', (evaluator steps).eval (context.holding [.object m.nextObject]) e m.withObject =
            .ok v m' →
          ∀ index key : Expr, index.form = .index object key → key.form = .number n →
            (evaluator (steps + 2)).eval context index m =
              .ok v (m'.storing m.nextObject (Value.number n).toKey v)) := by
  have hkey := n.literalKey_eq_toKey_iff.mpr hfinite
  obtain ⟨e, rest, hform⟩ := (Parser.finds_objectOfNumber hc).of_ok hread
  refine ⟨hkey, e, rest, hform, ?_⟩
  rintro rfl steps context m hm hsuits v m' he index key hindex hnumber
  refine Eval.eval_indexOfOne hindex hnumber hkey hform he ?_
  -- evaluating the value forgets no object
  obtain ⟨hm₁, hext⟩ := hm.withObject
  have hkeeps : Eval.Keeps ((evaluator steps).eval (context.holding [.object m.nextObject]) e)
      m.withObject Eval.Gives := (keeps_evaluator steps).eval e hm₁ (hsuits.extends hext)
  have hsize : m.world.objects.size < m.withObject.world.objects.size := by
    change _ < (m.world.objects.push _).size
    rw [Array.size_push]
    exact Nat.lt_succ_self _
  unfold Eval.Keeps Eval.Ends at hkeeps
  rw [he] at hkeeps
  exact hsize.trans_le hkeeps.2.1.world.objects

/-- Where the object literal `{1:2}` is read. -/
def atOneAndTwo : Cursor := .ofTokens (Lexer.tokens "{1:2}".toUTF8.toList)

/-- Whether an object literal has one property, which is a number. -/
def isObjectOf (value : Number) (object : Expr) : Bool :=
  match object.form with
  | .object [⟨_, e⟩] =>
    match e.form with
    | .number v => v = value
    | _ => false
  | _ => false

theorem exists_of_isObjectOf {value : Number} {object e : Expr} {name : String}
    {rest : List Property} (h : isObjectOf value object = true)
    (hform : object.form = .object (⟨name, e⟩ :: rest)) : rest = [] ∧ e.form = .number value := by
  unfold isObjectOf at h
  rw [hform] at h
  -- more than one property is no such object
  cases rest with
  | cons p rest => cases h
  | nil =>
    dsimp only at h
    split at h
    · next v heq =>
      cases of_decide_eq_true h
      exact ⟨rfl, heq⟩
    · cases h

theorem objectLiteral_reads_one : ∃ (object e index : Expr) (c' : Cursor) (m' : Machine),
    Parser.objectLiteral (.ofRoom 2) atOneAndTwo = .ok object c' ∧
      object.form = .object [⟨(Number.ofNat 1).literalKey, e⟩] ∧
      (evaluator 3).eval (Eval.topContext default) index (Session.start 128).machine =
        .ok (.number (.ofNat 2)) m' := by
  -- the parser reads one property off these tokens, and its value is the second number
  have htest : (match Parser.objectLiteral (.ofRoom 2) atOneAndTwo with
      | .ok object _ => isObjectOf (.ofNat 2) object
      | .error .. => false) = true := by
    decide +kernel
  cases hread : Parser.objectLiteral (.ofRoom 2) atOneAndTwo with
  | error e c' =>
    rw [hread] at htest
    cases htest
  | ok object c' =>
    rw [hread] at htest
    have hnumber : atOneAndTwo.behind.kind = .number (.ofNat 1) := by decide +kernel
    obtain ⟨-, e, rest, hform, hgives⟩ :=
      objectLiteral_reads_number (by decide +kernel) hnumber hread
    obtain ⟨rfl, he⟩ := exists_of_isObjectOf htest hform
    -- that value takes a single step, and leaves the machine as it is
    have hvalue : ∀ context m, (evaluator 1).eval context e m = .ok (.number (.ofNat 2)) m := by
      intro context m
      change Eval.evalExpr (evaluator 0) context e m = _
      unfold Eval.evalExpr
      rw [he]
      rfl
    have hsuits : (Session.start 128).machine.Suits (Eval.topContext default).frame :=
      ⟨World.passes_undefined _, fun _ h => (nomatch h), fun _ h => nomatch h⟩
    let key : Expr := ⟨⟨0⟩, object.span, 1, .number (.ofNat 1)⟩
    exact ⟨object, e, ⟨⟨0⟩, object.span, 2, .index object key⟩, c', _, rfl, hform,
      hgives rfl 1 _ _ (isTidy_start 128) hsuits _ _ (hvalue _ _) _ _ rfl rfl⟩

/-- **Keys of large literals.** An object literal may be indexed with the number that names its
only property, and the value is not found: a number too large for all finite ones is read as
infinite. -/
theorem Session.not_reads_of_infinite :
    ¬∀ (literal : List UInt8) (n : Number),
      (Lexer.tokens literal).map (·.kind) = [.number n, .endOfInput] →
        PropertyKey.string n.literalKey = (Value.number n).toKey ∧
          (ran 128 ("(\x7b".toUTF8.toList ++ literal ++ ":1\x7d)[".toUTF8.toList ++ literal ++
            "]".toUTF8.toList) 16).1 matches .value (.number _) := by
  intro hall
  have hread := (hall "1e400".toUTF8.toList .infinity (by decide +kernel)).2
  revert hread
  decide +kernel

end Enclave
