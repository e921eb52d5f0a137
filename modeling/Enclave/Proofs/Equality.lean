import Enclave.Value

/-!
# Equality of values

Two numbers are equal if they are the same and not NaN, or if both are zeros (`Number.equals_iff`),
and other values are equal to themselves alone (`Value.strictEquals_iff`). Hence equality is
symmetric and transitive, and only NaN is not equal to itself.

Equal values stand for the same key (`Value.toKey_congr`): both zeros have the text `0`, and all
other equal values are the same. No value shares the key of a symbol (`Value.toKey_symbol_iff`).
-/

namespace Enclave

/-! ### Numbers -/

namespace Number

variable {a b c n : Number}

/-- The bits of a number are its magnitude and its sign. -/
theorem toNat_bits (n : Number) :
    n.bits.toNat = n.magnitude + if n.isNegative then twoTo 63 else 0 := by
  have hbits : n.bits.toNat < 2 * twoTo 63 := n.bits.toNat_lt
  -- 64 bits are one for the sign, and the 63 below it for the magnitude
  have hdivision := Nat.mod_add_div n.bits.toNat (twoTo 63)
  cases hsign : n.isNegative with
  | false =>
    have hlt : n.bits.toNat < twoTo 63 := Nat.lt_of_not_le (of_decide_eq_false hsign)
    exact (Nat.mod_eq_of_lt hlt).symm
  | true =>
    have hle : twoTo 63 ≤ n.bits.toNat := of_decide_eq_true hsign
    have hquotient : n.bits.toNat / twoTo 63 = 1 :=
      Nat.div_eq_of_lt_le (by omega) (by omega)
    rw [hquotient] at hdivision
    rw [magnitude, if_pos rfl]
    omega

/-- A number is its sign and its magnitude. -/
theorem eq_of_magnitude (hmagnitude : a.magnitude = b.magnitude)
    (hsign : a.isNegative = b.isNegative) : a = b := by
  obtain ⟨bits⟩ := a
  obtain ⟨bits'⟩ := b
  have hbits : bits.toNat = bits'.toNat := by
    have h := toNat_bits ⟨bits⟩
    rw [hmagnitude, hsign] at h
    exact h.trans (toNat_bits ⟨bits'⟩).symm
  rw [UInt64.toNat_inj.mp hbits]

theorem natAbs_rank (n : Number) : n.rank.natAbs = n.magnitude := by
  unfold rank
  split <;> simp

/-- Two numbers have the same place in the order if they are the same or both zeros. -/
theorem rank_eq_iff : a.rank = b.rank ↔ a = b ∨ a.isZero = true ∧ b.isZero = true := by
  simp only [isZero, decide_eq_true_eq]
  refine ⟨fun h => ?_, ?_⟩
  · have hmagnitude : a.magnitude = b.magnitude := by rw [← natAbs_rank, h, natAbs_rank]
    -- Only zeros may differ in sign and still have one rank.
    by_cases hzero : b.magnitude = 0
    · exact .inr ⟨hmagnitude.trans hzero, hzero⟩
    · refine .inl (eq_of_magnitude hmagnitude ?_)
      unfold rank at h
      cases ha : a.isNegative <;> cases hb : b.isNegative <;> simp [ha, hb] at h ⊢ <;> omega
  · rintro (rfl | ⟨ha, hb⟩)
    · rfl
    · simp [rank, ha, hb]

theorem isNaN_of_isZero (h : n.isZero = true) : n.isNaN = false := by
  have hmagnitude : n.magnitude = 0 := of_decide_eq_true h
  rw [isNaN, hmagnitude]
  rfl

/-- **Equal numbers** are the same number, which is not NaN, or they are both zeros. -/
theorem equals_iff :
    a.equals b = true ↔ a = b ∧ a.isNaN = false ∨ a.isZero = true ∧ b.isZero = true := by
  simp only [equals, Bool.and_eq_true, Bool.not_eq_true', decide_eq_true_eq, rank_eq_iff]
  refine ⟨?_, ?_⟩
  · rintro ⟨⟨ha, -⟩, h | h⟩
    · exact .inl ⟨h, ha⟩
    · exact .inr h
  · rintro (⟨rfl, ha⟩ | ⟨ha, hb⟩)
    · exact ⟨⟨ha, ha⟩, .inl rfl⟩
    · exact ⟨⟨isNaN_of_isZero ha, isNaN_of_isZero hb⟩, .inr ⟨ha, hb⟩⟩

/-- Equality of numbers is symmetric. -/
theorem equals_comm (a b : Number) : a.equals b = b.equals a := by
  rw [Bool.eq_iff_iff, equals_iff, equals_iff]
  refine ⟨?_, ?_⟩ <;>
  · rintro (⟨rfl, h⟩ | ⟨h, h'⟩)
    · exact .inl ⟨rfl, h⟩
    · exact .inr ⟨h', h⟩

/-- Equality of numbers is transitive. -/
theorem equals_trans (hab : a.equals b = true) (hbc : b.equals c = true) : a.equals c = true := by
  rw [equals_iff] at hab hbc ⊢
  rcases hab with ⟨rfl, -⟩ | ⟨ha, hb⟩
  · exact hbc
  · rcases hbc with ⟨rfl, -⟩ | ⟨-, hc⟩
    · exact .inr ⟨ha, hb⟩
    · exact .inr ⟨ha, hc⟩

/-- A number is equal to itself unless it is not a number. -/
theorem equals_self_iff : n.equals n = true ↔ n.isNaN = false := by
  rw [equals_iff]
  refine ⟨?_, fun h => .inl ⟨rfl, h⟩⟩
  rintro (⟨-, h⟩ | ⟨h, -⟩)
  · exact h
  · exact isNaN_of_isZero h

theorem isInfinite_of_isZero (h : n.isZero = true) : n.isInfinite = false := by
  have hmagnitude : n.magnitude = 0 := of_decide_eq_true h
  rw [isInfinite, hmagnitude]
  rfl

/-- Both zeros are the integer zero. -/
theorem toInt?_of_isZero (h : n.isZero = true) : n.toInt? = some 0 := by
  have hmagnitude : n.magnitude = 0 := of_decide_eq_true h
  have hsignificand : n.significand = 0 := by
    rw [significand, hmagnitude, if_pos (Nat.two_pow_pos 52)]
  simp [toInt?, isNaN_of_isZero h, isInfinite_of_isZero h, hsignificand]

/-- Both zeros have the same text. -/
theorem text_of_isZero (h : n.isZero = true) : n.text = "0" := by
  unfold text
  rw [isNaN_of_isZero h, isInfinite_of_isZero h, h]
  rfl

/-- Both zeros name the same property. -/
theorem literalKey_of_isZero (h : n.isZero = true) : n.literalKey = "0" := by
  rw [literalKey, integerText?, toInt?_of_isZero h]
  rfl

/-- Equal numbers have one text. -/
theorem text_congr (h : a.equals b = true) : a.text = b.text := by
  rcases equals_iff.mp h with ⟨rfl, -⟩ | ⟨ha, hb⟩
  · rfl
  · rw [text_of_isZero ha, text_of_isZero hb]

end Number

/-! ### Values -/

namespace Value

variable {a b c v : Value} {s : Symbol}

/-- **Equal values** are equal numbers, or the same and no number. -/
theorem strictEquals_iff :
    a.strictEquals b = true ↔
      (∃ n n', a = .number n ∧ b = .number n' ∧ n.equals n' = true) ∨
        a = b ∧ ∀ n, a ≠ .number n := by
  cases a <;> cases b <;> simp [strictEquals]

/-- Equality of values is symmetric. -/
theorem strictEquals_comm (a b : Value) : a.strictEquals b = b.strictEquals a := by
  have hswap : ∀ {a b : Value}, a.strictEquals b = true → b.strictEquals a = true := by
    intro a b h
    rcases strictEquals_iff.mp h with ⟨n, n', rfl, rfl, hn⟩ | ⟨rfl, -⟩
    · exact (Number.equals_comm n' n).trans hn
    · exact h
  exact Bool.eq_iff_iff.mpr ⟨hswap, hswap⟩

/-- Equality of values is transitive. -/
theorem strictEquals_trans (hab : a.strictEquals b = true) (hbc : b.strictEquals c = true) :
    a.strictEquals c = true := by
  rcases strictEquals_iff.mp hab with ⟨n, n', rfl, rfl, hn⟩ | ⟨rfl, -⟩
  · rcases strictEquals_iff.mp hbc with ⟨_, n'', hb, rfl, hn'⟩ | ⟨-, hb⟩
    · cases hb
      exact Number.equals_trans hn hn'
    · exact absurd rfl (hb n')
  · exact hbc

/-- A value is equal to itself unless it is not a number. -/
theorem strictEquals_self_iff : v.strictEquals v = true ↔ ∀ n, v = .number n → n.isNaN = false := by
  rw [strictEquals_iff]
  refine ⟨?_, fun h => ?_⟩
  · -- what is equal is two equal numbers, or one value that is no number
    rintro (⟨n, n', rfl, hv, hn⟩ | ⟨-, hv⟩) n'' h
    · cases hv
      cases h
      exact Number.equals_self_iff.mp hn
    · exact absurd h (hv n'')
  · by_cases hv : ∃ n, v = .number n
    · obtain ⟨n, rfl⟩ := hv
      exact .inl ⟨n, n, rfl, rfl, Number.equals_self_iff.mpr (h n rfl)⟩
    · exact .inr ⟨rfl, not_exists.mp hv⟩

/-- **Equal values stand for the same key.** -/
theorem toKey_congr (h : a.strictEquals b = true) : a.toKey = b.toKey := by
  rcases strictEquals_iff.mp h with ⟨n, n', rfl, rfl, hn⟩ | ⟨rfl, -⟩
  · exact congrArg PropertyKey.string (Number.text_congr hn)
  · rfl

/-- No other value has the key of a symbol. -/
theorem toKey_symbol_iff : (Value.symbol s).toKey = v.toKey ↔ v = .symbol s := by
  refine ⟨fun h => ?_, ?_⟩
  · cases v with
    | symbol s' =>
      cases h
      rfl
    | _ => cases h
  · rintro rfl
    rfl

end Value

end Enclave
