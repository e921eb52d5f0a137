import Enclave.Proofs.Text.Utf8

/-!
# Overlong forms

Reading a character by its lead byte finds what is encoded there (`leadingChar_encoded`), and where
nothing is encoded it mostly finds nothing. The exceptions are the overlong forms of characters
(`Overlong`): the bits of a character, spread over more bytes than it takes. These are read as the
character, though they are no encoding of it. Everywhere else reading is exact (`leadingChar_iff`).
-/

namespace Enclave.Text

open String (utf8EncodeChar)

variable {c : Char} {b : UInt8} {rest : List UInt8} {bits count n : Nat}

/-- The bytes begin with the bits of a character, spread over two, three or four bytes where fewer
would do. The bits of a surrogate, which is no character, are left out. -/
inductive Overlong : List UInt8 → Prop
  | two {b b₁ : UInt8} {rest : List UInt8} (lead : b = 0xC0 ∨ b = 0xC1)
    (h₁ : isContinuation b₁ = true) : Overlong (b :: b₁ :: rest)
  | three {b₁ b₂ : UInt8} {rest : List UInt8} (h₁ : isContinuation b₁ = true)
    (h₂ : isContinuation b₂ = true) (low : b₁ < 0xA0) : Overlong (0xE0 :: b₁ :: b₂ :: rest)
  | four {b₁ b₂ b₃ : UInt8} {rest : List UInt8} (h₁ : isContinuation b₁ = true)
    (h₂ : isContinuation b₂ = true) (h₃ : isContinuation b₃ = true) (low : b₁ < 0x90)
    (character : ¬(b₁ = 0x8D ∧ 0xA0 ≤ b₂)) : Overlong (0xF0 :: b₁ :: b₂ :: b₃ :: rest)

/-! ### Encodings by their length -/

/-- A character below 80 (hexadecimal) takes one byte. -/
theorem encode_one (h : c.toNat < 0x80) : utf8EncodeChar c = [UInt8.ofNat c.toNat] :=
  if_pos (Nat.lt_succ_iff.mp h)

/-- A character below 800 takes two bytes. -/
theorem encode_two (hlow : 0x80 ≤ c.toNat) (hhigh : c.toNat < 0x800) :
    utf8EncodeChar c = [UInt8.ofNat (c.toNat / 64 + 0xC0), continuationByte (c.toNat % 64)] := by
  have hlead : c.toNat / 64 % 32 = c.toNat / 64 := by omega
  rw [← hlead]
  exact (if_neg (Nat.not_le.mpr hlow)).trans (if_pos (Nat.lt_succ_iff.mp hhigh))

/-- A character below 10000 takes three bytes. -/
theorem encode_three (hlow : 0x800 ≤ c.toNat) (hhigh : c.toNat < 0x10000) :
    utf8EncodeChar c = [UInt8.ofNat (c.toNat / 4096 + 0xE0),
      continuationByte (c.toNat / 64 % 64), continuationByte (c.toNat % 64)] := by
  have hlead : c.toNat / 4096 % 16 = c.toNat / 4096 := by omega
  have hmore : ¬c.toNat ≤ 0x7F := by omega
  rw [← hlead]
  exact (if_neg hmore).trans ((if_neg (Nat.not_le.mpr hlow)).trans
    (if_pos (Nat.lt_succ_iff.mp hhigh)))

/-- Every other character takes four bytes. -/
theorem encode_four (hlow : 0x10000 ≤ c.toNat) :
    utf8EncodeChar c = [UInt8.ofNat (c.toNat / 262144 + 0xF0),
      continuationByte (c.toNat / 4096 % 64), continuationByte (c.toNat / 64 % 64),
      continuationByte (c.toNat % 64)] := by
  have hrange := toNat_range c
  have hlead : c.toNat / 262144 % 8 = c.toNat / 262144 := by omega
  have hmore : ¬c.toNat ≤ 0x7F ∧ ¬c.toNat ≤ 0x7FF := by omega
  rw [← hlead]
  exact (if_neg hmore.1).trans ((if_neg hmore.2).trans (if_neg (Nat.not_le.mpr hlow)))

/-- A character below 800 takes less than three bytes. -/
theorem length_encode_lt_three (h : c.toNat < 0x800) : (utf8EncodeChar c).length < 3 := by
  by_cases hone : c.toNat < 0x80
  · rw [encode_one hone]
    exact Nat.lt_succ_of_lt Nat.one_lt_two
  · rw [encode_two (Nat.not_lt.mp hone) h]
    exact Nat.lt_succ_self _

/-- A character below 10000 takes less than four bytes. -/
theorem length_encode_lt_four (h : c.toNat < 0x10000) : (utf8EncodeChar c).length < 4 := by
  by_cases htwo : c.toNat < 0x800
  · exact Nat.lt_succ_of_lt (length_encode_lt_three htwo)
  · rw [encode_three (Nat.not_lt.mp htwo) h]
    exact Nat.lt_succ_self _

theorem length_replacementChar : (utf8EncodeChar replacementChar).length = 3 := by decide

/-! ### What is read -/

/-- A lead byte carries its bits behind its mark. -/
theorem leadByte?_spec : ∀ b : UInt8, ∀ p ∈ leadByte? b,
    p.1 = 0 ∧ b = UInt8.ofNat p.2 ∧ p.2 < 0x80 ∨ p.1 = 1 ∧ b = UInt8.ofNat (p.2 + 0xC0) ∧ p.2 < 32 ∨
    p.1 = 2 ∧ b = UInt8.ofNat (p.2 + 0xE0) ∧ p.2 < 16 ∨
    p.1 = 3 ∧ b = UInt8.ofNat (p.2 + 0xF0) ∧ p.2 < 8 :=
  forall_byte (by decide +kernel)

/-- A continuation byte is made of its six bits. -/
theorem continuationByte_bits : ∀ b : UInt8, isContinuation b = true →
    b = continuationByte (b &&& 0x3F).toNat ∧ (b &&& 0x3F).toNat < 64 :=
  forall_byte (by decide +kernel)

/-- Every continuation byte is made of six bits. -/
theorem exists_continuationByte (h : isContinuation b = true) :
    ∃ x < 64, b = continuationByte x :=
  ⟨_, (continuationByte_bits b h).2, (continuationByte_bits b h).1⟩

/-- Where bits are read, there is a continuation byte. -/
theorem exists_of_continuationBits (h : continuationBits bits (count + 1) rest = some n) :
    ∃ x < 64, ∃ rest', rest = continuationByte x :: rest' ∧
      continuationBits (bits * 64 + x) count rest' = some n := by
  -- A byte has to be there, and it has to be a continuation byte.
  cases rest with
  | nil => cases h
  | cons b rest =>
    rw [continuationBits] at h
    split at h
    · next hb =>
      obtain ⟨x, hx, rfl⟩ := exists_continuationByte hb
      rw [(continuationByte_spec ⟨x, hx⟩).2] at h
      exact ⟨x, hx, rest, rfl, h⟩
    · cases h

/-- A character has the number it was made of. -/
theorem toNat_of_charOfNat? (h : charOfNat? n = some c) : c.toNat = n := by
  by_cases hvalid : n.isValidChar
  · cases (dif_pos hvalid).symm.trans h
    rfl
  · cases (dif_neg hvalid).symm.trans h

/-- Every valid number is that of a character. -/
theorem charOfNat?_of_valid (h : n.isValidChar) : ∃ c, charOfNat? n = some c ∧ c.toNat = n :=
  ⟨Char.ofNatAux n h, dif_pos h, rfl⟩

/-- The lead byte of an overlong form carries no bits but the lowest. -/
theorem overlong_two {x y : Nat} (hx : x < 2) (hy : y < 64) (rest : List UInt8) :
    Overlong (UInt8.ofNat (x + 0xC0) :: continuationByte y :: rest) := by
  refine .two ?_ (isContinuation_continuationByte hy)
  rcases Nat.lt_succ_iff_lt_or_eq.mp hx with hx | rfl
  · cases Nat.lt_one_iff.mp hx
    exact .inl rfl
  · exact .inr rfl

/-- Bounds of continuation bytes are bounds of their bits. -/
theorem continuationByte_lt : ∀ x : Fin 64, (continuationByte x < 0xA0 ↔ x.val < 32) ∧
    (continuationByte x < 0x90 ↔ x.val < 16) ∧ (continuationByte x = 0x8D ↔ x.val = 13) ∧
    (0xA0 ≤ continuationByte x ↔ 32 ≤ x.val) := by
  decide

/-- A lead byte without bits of its own and few bits behind it are overlong in three bytes. -/
theorem overlong_three {x y : Nat} (hx : x < 32) (hy : y < 64) (rest : List UInt8) :
    Overlong (0xE0 :: continuationByte x :: continuationByte y :: rest) :=
  .three (isContinuation_continuationByte (by omega)) (isContinuation_continuationByte hy)
    ((continuationByte_lt ⟨x, by omega⟩).1.mpr hx)

/-- The same in four bytes. -/
theorem overlong_four {x y z : Nat} (hx : x < 16) (hy : y < 64) (hz : z < 64)
    (hvalid : ¬(x = 13 ∧ 32 ≤ y)) (rest : List UInt8) :
    Overlong (0xF0 :: continuationByte x :: continuationByte y :: continuationByte z :: rest) := by
  obtain ⟨-, hlow, hsurrogate, -⟩ := continuationByte_lt ⟨x, by omega⟩
  obtain ⟨-, -, -, hsecond⟩ := continuationByte_lt ⟨y, hy⟩
  refine .four (isContinuation_continuationByte (by omega)) (isContinuation_continuationByte hy)
    (isContinuation_continuationByte hz) (hlow.mpr hx) ?_
  rintro ⟨hfirst, hhigh⟩
  exact hvalid ⟨hsurrogate.mp hfirst, hsecond.mp hhigh⟩

/-- What spells a character is an encoding of it, or an overlong form. -/
theorem overlong_or_encoded (h : spelledChar? b rest = some (c, count)) :
    Overlong (b :: rest) ∨
      utf8EncodeChar c <+: b :: rest ∧ (utf8EncodeChar c).length = count + 1 := by
  have hspelled : ∃ bits, leadByte? b = some (count, bits) ∧
      continuationBits bits count rest = some c.toNat := by
    simp only [spelledChar?, Option.bind_eq_bind, Option.bind_eq_some_iff] at h
    obtain ⟨⟨count', bits⟩, hlead, n, hbits, c', hc, heq⟩ := h
    cases heq
    exact ⟨bits, hlead, (toNat_of_charOfNat? hc).symm ▸ hbits⟩
  -- the first byte has some of the bits and the bytes behind it have the others
  obtain ⟨bits, hlead, hbits⟩ := hspelled
  have hspec := leadByte?_spec b (count, bits) hlead
  dsimp only at hspec
  -- by the number of bytes: fewer bits than these bytes are for make the form overlong
  rcases hspec with ⟨rfl, rfl, hlt⟩ | ⟨rfl, rfl, hlt⟩ | ⟨rfl, rfl, hlt⟩ | ⟨rfl, rfl, hlt⟩
  · -- a single byte is always as short as it can be
    cases hbits
    rw [encode_one hlt]
    exact .inr ⟨⟨rest, rfl⟩, rfl⟩
  · obtain ⟨x, hx, rest, rfl, h₁⟩ := exists_of_continuationBits hbits
    have hn : bits * 64 + x = c.toNat := by simpa [continuationBits] using h₁
    by_cases hlow : bits < 2
    · exact .inl (overlong_two hlow hx rest)
    · rw [encode_two (by omega) (by omega), show c.toNat / 64 = bits by omega,
        show c.toNat % 64 = x by omega]
      exact .inr ⟨⟨rest, rfl⟩, rfl⟩
  · obtain ⟨x, hx, rest₁, rfl, h₁⟩ := exists_of_continuationBits hbits
    obtain ⟨y, hy, rest, rfl, h₂⟩ := exists_of_continuationBits h₁
    have hn : (bits * 64 + x) * 64 + y = c.toNat := by simpa [continuationBits] using h₂
    by_cases hlow : bits = 0 ∧ x < 32
    · obtain ⟨rfl, hlow⟩ := hlow
      exact .inl (overlong_three hlow hy rest)
    · rw [encode_three (by omega) (by omega), show c.toNat / 4096 = bits by omega,
        show c.toNat / 64 % 64 = x by omega, show c.toNat % 64 = y by omega]
      exact .inr ⟨⟨rest, rfl⟩, rfl⟩
  · obtain ⟨x, hx, rest₁, rfl, h₁⟩ := exists_of_continuationBits hbits
    obtain ⟨y, hy, rest₂, rfl, h₂⟩ := exists_of_continuationBits h₁
    obtain ⟨z, hz, rest, rfl, h₃⟩ := exists_of_continuationBits h₂
    have hn : ((bits * 64 + x) * 64 + y) * 64 + z = c.toNat := by
      simpa [continuationBits] using h₃
    have hrange := toNat_range c
    by_cases hlow : bits = 0 ∧ x < 16
    · obtain ⟨rfl, hlow⟩ := hlow
      exact .inl (overlong_four hlow hy hz (by omega) rest)
    · rw [encode_four (by omega), show c.toNat / 262144 = bits by omega,
        show c.toNat / 4096 % 64 = x by omega, show c.toNat / 64 % 64 = y by omega,
        show c.toNat % 64 = z by omega]
      exact .inr ⟨⟨rest, rfl⟩, rfl⟩

/-- Where lead byte and bits give a valid number, its character is read. -/
theorem exists_leadingChar (hlead : leadByte? b = some (count, bits))
    (hbits : continuationBits bits count rest = some n) (hvalid : n.isValidChar) :
    ∃ c, leadingChar b rest = (c, count) ∧ c.toNat = n := by
  obtain ⟨c, -, rfl⟩ := charOfNat?_of_valid hvalid
  rw [leadingChar, spelledChar?_of hlead hbits]
  exact ⟨c, rfl, rfl⟩

/-- An overlong form is read, all of it, as a character that takes fewer bytes. -/
theorem Overlong.leadingChar (h : Overlong (b :: rest)) :
    ∃ c more, leadingChar b rest = (c, more + 1) ∧ (utf8EncodeChar c).length < more + 2 ∧
      Overlong (b :: rest.take (more + 1)) := by
  -- in each case the bytes spell a number that takes fewer bytes than they are
  cases h with
  | @two b b₁ rest lead h₁ =>
    obtain ⟨x, hx, rfl⟩ := exists_continuationByte h₁
    have hlead : ∃ bits < 2, leadByte? b = some (1, bits) := by
      rcases lead with rfl | rfl
      · exact ⟨0, by omega, rfl⟩
      · exact ⟨1, by omega, rfl⟩
    obtain ⟨bits, hbits, hlead⟩ := hlead
    obtain ⟨c, hread, hn⟩ := exists_leadingChar hlead (continuationBits_cons hx bits 0 rest)
      (.inl (by omega))
    refine ⟨c, 0, hread, ?_, .two lead h₁⟩
    rw [encode_one (by omega)]
    exact Nat.one_lt_two
  | @three b₁ b₂ rest h₁ h₂ low =>
    obtain ⟨x, hx, rfl⟩ := exists_continuationByte h₁
    obtain ⟨y, hy, rfl⟩ := exists_continuationByte h₂
    have hlow : x < 32 := (continuationByte_lt ⟨x, hx⟩).1.mp low
    have hbits : continuationBits 0 2 (continuationByte x :: continuationByte y :: rest) =
        some ((0 * 64 + x) * 64 + y) := by
      rw [continuationBits_cons hx, continuationBits_cons hy, continuationBits]
    obtain ⟨c, hread, hn⟩ := exists_leadingChar (b := 0xE0) rfl hbits (.inl (by omega))
    exact ⟨c, 1, hread, length_encode_lt_three (by omega), .three h₁ h₂ low⟩
  | @four b₁ b₂ b₃ rest h₁ h₂ h₃ low character =>
    obtain ⟨x, hx, rfl⟩ := exists_continuationByte h₁
    obtain ⟨y, hy, rfl⟩ := exists_continuationByte h₂
    obtain ⟨z, hz, rfl⟩ := exists_continuationByte h₃
    obtain ⟨-, hlow, hsurrogate, -⟩ := continuationByte_lt ⟨x, hx⟩
    obtain ⟨-, -, -, hsecond⟩ := continuationByte_lt ⟨y, hy⟩
    have hfirst : x < 16 := hlow.mp low
    -- a number among the surrogates would be no character, and was ruled out
    have hsurrogates : ¬(x = 13 ∧ 32 ≤ y) := fun h =>
      character ⟨hsurrogate.mpr h.1, hsecond.mpr h.2⟩
    have hbits : continuationBits 0 3
        (continuationByte x :: continuationByte y :: continuationByte z :: rest) =
        some (((0 * 64 + x) * 64 + y) * 64 + z) := by
      rw [continuationBits_cons hx, continuationBits_cons hy, continuationBits_cons hz,
        continuationBits]
    have hvalid : (((0 * 64 + x) * 64 + y) * 64 + z).isValidChar := by
      by_cases hless : x < 13 ∨ x = 13 ∧ y < 32
      · exact .inl (by omega)
      · exact .inr ⟨by omega, by omega⟩
    obtain ⟨c, hread, hn⟩ := exists_leadingChar (b := 0xF0) rfl hbits hvalid
    exact ⟨c, 2, hread, length_encode_lt_four (by omega), .four h₁ h₂ h₃ low character⟩

/-- **Reading is exact where no overlong form stands**, and nowhere else: what is read there, unless
it is a replacement of one byte, is what is encoded there. -/
theorem leadingChar_iff (b : UInt8) (rest : List UInt8) :
    (∀ c more, (leadingChar b rest = (c, more) ∧ (c, more) ≠ (replacementChar, 0)) ↔
      (utf8EncodeChar c).length = more + 1 ∧ utf8EncodeChar c <+: b :: rest) ↔
      ¬Overlong (b :: rest) := by
  constructor
  · -- an overlong form is read, but is longer than the character it is read as
    intro hexact hover
    obtain ⟨c, more, hread, hlength, -⟩ := hover.leadingChar
    have hencoded := ((hexact c (more + 1)).mp ⟨hread, fun h => nomatch h⟩).1
    omega
  · intro hnot c more
    constructor
    · -- what is read from another form is encoded in just these bytes
      rintro ⟨hread, hne⟩
      unfold leadingChar at hread
      cases hspelled : spelledChar? b rest with
      | none =>
        rw [hspelled] at hread
        exact absurd hread.symm hne
      | some p =>
        rw [hspelled] at hread
        cases hread
        rcases overlong_or_encoded hspelled with hover | ⟨hencoded, hlength⟩
        · exact absurd hover hnot
        · exact ⟨hlength, hencoded⟩
    · rintro ⟨hlength, tail, htail⟩
      obtain ⟨b', more', hencoded⟩ := exists_encoded c
      rw [hencoded] at hlength htail
      obtain ⟨rfl, rfl⟩ := List.cons.inj htail
      have hmore : more'.length = more := Nat.succ.inj hlength
      refine ⟨hmore ▸ leadingChar_encoded hencoded tail, ?_⟩
      -- the replacement character itself takes three bytes
      rintro heq
      cases heq
      have hlength := length_replacementChar
      rw [hencoded, List.length_eq_zero_iff.mp hmore] at hlength
      cases hlength

end Enclave.Text
