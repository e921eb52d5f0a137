import Enclave.Proofs.Syntax.Tiers

/-!
# Reading printed operands

For every form of expression that is put together from others by a mark, an operator or a keyword
between or before them: if the others can be read where they stand, the whole can be read at the
tier of its form.
-/

namespace Enclave.Parser

variable {c c' : Cursor} {ks ts ts' : List TokenKind} {id : ExprId} {span : Span} {height : Nat}

theorem arrives_newExpr {e : Expr} {form : ExprForm} {span : Span} (hc : c.Ahead ks)
    (h : form.erased = e.form.erased) : Arrives (newExpr form span) c (Copy e ks) :=
  Ends.newExpr rfl fun _ _ _ hstays => ⟨Expr.erased_congr h, hc.stays hstays⟩

/-- One level deeper an expression is read as here, or there is no room. -/
theorem arrives_deeperPrimary {room : Nat} {post : Expr → Cursor → Prop}
    (h : ∀ room, Arrives (primary (.ofRoom room)) c post) :
    Arrives (Level.ofRoom room).primary c post := by
  cases room with
  | zero => exact .peekSpan (.fail rfl)
  | succ room => exact h room

theorem arrives_deeperUnary {room : Nat} {post : Expr → Cursor → Prop}
    (h : ∀ room, Arrives (unary (.ofRoom room)) c post) :
    Arrives (Level.ofRoom room).unary c post := by
  cases room with
  | zero => exact .peekSpan (.fail rfl)
  | succ room => exact h room

/-! ### Members and indexes -/

/-- A loop whose rounds are those for members, indexes and calls, calls perhaps apart. -/
def ReadsMembers (step : Level → Expr → Parser (Step Expr Expr)) : Prop :=
  ∀ deeper e c, c.kind ≠ .mark .leftParen → step deeper e c = postfixStep deeper e c

theorem readsMembers_postfixStep : ReadsMembers postfixStep := fun _ _ _ _ => rfl

theorem readsMembers_newCalleeStep : ReadsMembers newCalleeStep := by
  intro deeper e c hkind
  rw [newCalleeStep, postfixStep, bind_of_ok (peek_eq c), bind_of_ok (peek_eq c)]
  cases h : c.kind with
  | mark sign =>
    rw [h] at hkind
    cases sign <;> first | rfl | exact absurd rfl hkind
  | _ => rfl

/-- A round that makes a copy of an expression goes on behind it. -/
theorem arrives_again {step : Expr → Parser (Step Expr Expr)} {post : Expr → Cursor → Prop}
    {e : Expr} {form : ExprForm} {span : Span}
    (hpost : ∀ e' c', Copy e ks e' c' → Loops step post e' c') (hc : c.Ahead ts)
    (hc' : c'.Ahead ks) (hlt : ks.length < ts.length) (hform : form.erased = e.form.erased) :
    Arrives (do return .again (← newExpr form span)) c' (Step.Leaves
      (fun e c' => c'.tokens.length < c.tokens.length ∧ Loops step post e c') post) := by
  refine Ends.bind (arrives_newExpr hc' hform) fun e' c₁ he' => .pure ⟨?_, hpost e' c₁ he'⟩
  rw [he'.2.length, hc.length]
  exact hlt

variable {step : Level → Expr → Parser (Step Expr Expr)} {o : Expr}

theorem readsLoop_member (hstep : ReadsMembers step) (ho : ReadsLoop step ts o) (name : String) :
    ReadsLoop step (ts ++ [.mark .dot, .word name]) ⟨id, span, height, .member o name⟩ := by
  intro room room' c ks post hc hpost
  rw [List.append_assoc] at hc
  refine ho room room' c _ post hc fun o' c₁ ho' => .round ?_
  have hc₁ : c₁.Ahead (.mark .dot :: .word name :: ks) := ho'.2
  -- At a dot both loops take the same step.
  refine Ends.of_eq (hstep _ _ _ (by rw [hc₁.kind]; exact nofun)) (.peek ?_)
  rw [hc₁.kind]
  refine Arrives.next hc₁ nofun fun t c₂ _ hc₂ =>
    Arrives.expectPropertyName hc₂ fun nameSpan c₃ hc₃ => ?_
  have hform : (ExprForm.member o' name).erased = (ExprForm.member o name).erased := by
    rw [ExprForm.erased, ExprForm.erased, ho'.1]
  exact arrives_again hpost hc₁ hc₃ (by simp only [List.length_cons]; omega) hform

theorem readsLoop_index (hstep : ReadsMembers step) (ho : ReadsLoop step ts o) {key : Expr}
    (hkey : ReadsAssignment ts' key) :
    ReadsLoop step (ts ++ .mark .leftBracket :: (ts' ++ [.mark .rightBracket]))
      ⟨id, span, height, .index o key⟩ := by
  intro room room' c ks post hc hpost
  simp only [List.append_assoc, List.cons_append, List.nil_append] at hc
  refine ho room room' c _ post hc fun o' c₁ ho' => .round ?_
  have hc₁ := ho'.2
  refine Ends.of_eq (hstep _ _ _ (by rw [hc₁.kind]; exact nofun)) (.peek ?_)
  rw [hc₁.kind]
  refine Arrives.next hc₁ nofun fun t c₂ _ hc₂ => ?_
  refine (arrives_expression hkey room' hc₂ (TokenKind.endsTier_of_closes rfl 0)).bind
    fun key' c₃ hkey' => Arrives.expectMark hkey'.2 fun t c₄ hc₄ => ?_
  -- the copy differs in places alone
  have hform : (ExprForm.index o' key').erased = (ExprForm.index o key).erased := by
    rw [ExprForm.erased, ExprForm.erased, ho'.1, hkey'.1]
  exact arrives_again hpost hc₁ hc₄
    (by simp only [List.length_cons, List.length_append]; omega) hform

/-! ### Unary operators -/

theorem unaryOp?_kind (op : UnaryOp) : unaryOp? op.kind = some op := by
  cases op <;> rfl

theorem readsUnary_unary {op : UnaryOp} {operand : Expr} (h : ReadsUnary ts operand)
    (hproper : (ExprForm.unary op operand).IsProper) :
    ReadsUnary (op.kind :: ts) ⟨id, span, height, .unary op operand⟩ := by
  intro room c ks hc hends
  refine .peek ?_
  rw [hc.kind, unaryOp?_kind]
  refine Arrives.next hc (by cases op <;> exact nofun) fun t c₁ _ hc₁ => ?_
  refine (arrives_deeperUnary fun room => h room c₁ ks hc₁ hends).bind fun operand' c₂ h' => ?_
  -- `delete` is refused only in front of what cannot be deleted, and the copy can.
  refine .unless (fun hnot => absurd hnot ?_) fun _ => arrives_newExpr h'.2 ?_
  · rintro ⟨rfl, hmember⟩
    rw [Expr.isMember_congr h'.1, show operand.form.isMember = true from hproper] at hmember
    cases hmember
  · rw [ExprForm.erased, ExprForm.erased, h'.1]

/-! ### Connectives -/

/-- The form that a connective makes of two operands. -/
def Connective.form : Connective → Expr → Expr → ExprForm
  | .binary op, left, right => .binary op left right
  | .logical op, left, right => .logical op left right

theorem erased_connective_form {connective : Connective} {left right left' right' : Expr}
    (hleft : left'.erased = left.erased) (hright : right'.erased = right.erased) :
    (connective.form left' right').erased = (connective.form left right).erased := by
  cases connective <;>
    rw [Connective.form, Connective.form, ExprForm.erased, ExprForm.erased, hleft, hright]

theorem join_eq (connective : Connective) (left right : Expr) :
    join connective left right =
      newExpr (connective.form left right) (left.span.merge right.span) := by
  cases connective <;> rfl

/-- A unary expression that begins with an accessor is the accessor's slot and what follows it. -/
theorem unary_of_accessor {deeper : Level}
    (h : c.kind = .keyword .kwPrivate ∨ c.kind = .keyword .kwStatic) :
    unary deeper c = (do postfixTail deeper (← slot deeper)) c := by
  -- Both words start a slot, and neither is a unary operator.
  have hprimary : primary deeper c = slot deeper c := by
    rw [primary, bind_of_ok (peekSpan_eq c)]
    dsimp only
    rw [bind_of_ok (peek_eq c)]
    rcases h with h | h <;> rw [h]
  have hpostfixed : postfixed deeper c = (do postfixTail deeper (← slot deeper)) c := by
    rw [postfixed, bind_eq, hprimary, ← bind_eq]
  rw [unary, bind_of_ok (peek_eq c), ← hpostfixed]
  rcases h with h | h <;> rw [h] <;> rfl

/-- An operand that can be read is read on the right of every connective, accessors included. -/
theorem arrives_rightSide {deeper : Level} {connective : Connective} {left : Expr}
    {post : Expr → Cursor → Prop} (h : Arrives (unary deeper) c post) :
    Arrives (rightSide deeper connective left) c fun side c' =>
      ∃ e, side = .operand e ∧ post e c' := by
  have hunary : Arrives (do return RightSide.operand (← unary deeper)) c fun side c' =>
      ∃ e, side = .operand e ∧ post e c' :=
    Ends.bind h fun e c' he => .pure ⟨e, rfl, he⟩
  unfold rightSide
  -- Only `in` looks for an accessor.
  split
  · refine Ends.bind (m := fun isThere c' => c' = c ∧ (isThere = true →
      c.kind = .keyword .kwPrivate ∨ c.kind = .keyword .kwStatic)) (.peek ?_) ?_
    · split
      · next hword => exact .pure ⟨rfl, fun _ => .inl hword⟩
      · next hword => exact .pure ⟨rfl, fun _ => .inr hword⟩
      · exact .pure ⟨rfl, nofun⟩
    · rintro isThere _ ⟨rfl, hthere⟩
      split
      · next hisThere =>
        -- the same steps as those of a unary expression, with the slot found on the way
        have hslot := Ends.bind_iff.mp (Ends.of_eq (unary_of_accessor (hthere hisThere)).symm h)
        refine Ends.bind (Ends.bind_iff.mp hslot) fun accessor c₁ haccessor => ?_
        refine Ends.bind (Ends.bind_iff.mp haccessor) fun e c₂ he => ?_
        cases e with
        | some e => exact Ends.bind he fun e' c₃ he' => .pure ⟨e', rfl, he'⟩
        | none =>
          have hfail := (Ends.step_iff (peekSpan_eq c₂)).mp ((Ends.step_iff (peek_eq c₂)).mp he)
          cases hfail
      · exact hunary
  · exact hunary

/-- Two operands with a connective between them, each as tight as the connective's tier demands. -/
theorem readsOperand_connective {connective : Connective} {tier : Nat} {k : TokenKind}
    {left right : Expr} (hk : connective? k = some (connective, tier))
    (hleft : ReadsOperand tier ts left) (hright : ReadsOperand (tier + 1) ts' right) :
    ReadsOperand tier (ts ++ k :: ts') ⟨id, span, height, connective.form left right⟩ := by
  intro room tiers least c ks post hone hleast htiers hc hends hpost
  rw [List.append_assoc, List.cons_append] at hc
  have hkends := TokenKind.endsTier_of_connective hk (hone.trans hleast)
  -- the left operand is read first, and then it is the turn of the connective
  refine hleft room tiers least c _ post hone hleast htiers hc hkends fun left' c₁ hleft' => ?_
  have hc₁ := hleft'.2
  have htier := tier_le_of_connective? hk
  obtain ⟨tiers, rfl⟩ : ∃ t, tiers = t + 1 := ⟨tiers - 1, by omega⟩
  refine Loops.round (.peek ?_)
  rw [hc₁.kind, hk]
  dsimp only
  rw [if_neg (not_lt.mpr hleast)]
  refine Arrives.next hc₁ (by rintro rfl; cases hk) fun t c₂ _ hc₂ => ?_
  -- the loop for tighter connectives ends where this one goes on
  have hcopy := hright room tiers (tier + 1) c₂ ks (Copy right ks) (by omega) (Nat.le_refl _)
    (by omega) hc₂ (hends.mono (by omega)) fun right' c₃ hright' =>
      tails_done (hright'.2.head ▸ hends.connective) hright'
  refine (arrives_rightSide (Ends.bind_iff.mp hcopy)).bind ?_
  rintro _ c₃ ⟨right', rfl, htail⟩
  -- with the right operand the round is over, and the loop goes on
  refine Ends.bind htail fun right' c₄ hright' => ?_
  rw [join_eq]
  exact arrives_again hpost hc₁ hright'.2
    (by simp only [List.length_cons, List.length_append]; omega)
    (erased_connective_form hleft'.1 hright'.1)

/-! ### Assignments -/

theorem readsAssignment_assign {target value : Expr} (htarget : ReadsOperand 1 ts target)
    (hvalue : ReadsAssignment ts' value) (hproper : (ExprForm.assign target value).IsProper) :
    ReadsAssignment (ts ++ .mark .assign :: ts') ⟨id, span, height, .assign target value⟩ := by
  intro room c ks hc hends
  rw [List.append_assoc, List.cons_append] at hc
  have hnone : connective? (.mark .assign) = none := rfl
  -- The target is read as an operand, and the assignment sign ends it.
  refine Ends.bind (m := Copy target (.mark .assign :: (ts' ++ ks))) ?_ fun target' c₁ h₁ => ?_
  · refine htarget room tierCount 1 c _ _ (Nat.le_refl _) (Nat.le_refl _) (Nat.le_refl _) hc
      ⟨⟨nofun, nofun, nofun⟩, nofun, nofun⟩ fun target' c₁ h₁ => ?_
    refine tails_done (fun connective t ht => ?_) h₁
    rw [h₁.2.kind, hnone] at ht
    cases ht
  · refine .ifMark (fun _ => ?_) fun hnot => absurd h₁.2.kind hnot
    refine Arrives.next h₁.2 nofun fun t c₂ _ hc₂ =>
      .unless (fun hnot => absurd hnot ?_) fun _ => ?_
    · rw [Expr.isAssignable_congr h₁.1, show target.form.isAssignable = true from hproper]
      exact nofun
    · refine (arrives_expression hvalue room hc₂ hends).bind fun value' c₃ h₃ => ?_
      exact arrives_newExpr h₃.2 (by rw [ExprForm.erased, ExprForm.erased, h₁.1, h₃.1])

end Enclave.Parser
