import Enclave.Text.Utf8
import Mathlib.Data.List.TakeWhile

/-!
# Encoded characters

Text that is encoded is read back. Each of the two ways to read the character at the head of some
bytes finds the character that is encoded there, whatever follows it (`leadingChar_encoded`,
`strictLeadingChar_encoded`); so a strict reading of the bytes of a text gives the text
(`decodeLossy_utf8`).
-/

namespace Enclave.Text

open String (utf8EncodeChar)

variable {c : Char} {b : UInt8} {more : List UInt8}

/-! ### The bytes of a text -/

/-- Listing the bytes of an array from a place on, by what has been listed. -/
theorem toList_loop (bytes : ByteArray) (i : Nat) (read : List UInt8) :
    ByteArray.toList.loop bytes i read = read.reverse ++ bytes.data.toList.drop i := by
  fun_induction ByteArray.toList.loop bytes i read with
  | case1 i read h ih =>
    have hi : i < bytes.data.toList.length := by simpa using h
    rw [ih, List.drop_eq_getElem_cons hi]
    simp [ByteArray.get!, h]
  | case2 i read h =>
    rw [List.drop_eq_nil_of_le (by simpa using h), List.append_nil]

/-- The bytes of a text are those of its characters, one after the other. -/
theorem utf8_eq (text : String) : utf8 text = text.toList.flatMap utf8EncodeChar := by
  have hbytes : text.toUTF8.data.toList = text.toList.flatMap utf8EncodeChar := by
    rw [String.toUTF8_eq_toByteArray, ← String.utf8Encode_toList, List.utf8Encode,
      List.toList_data_toByteArray]
  rw [utf8, ByteArray.toList, toList_loop, hbytes]
  rfl

/-- The bytes of two texts together are those of the one and then the other. -/
theorem utf8_append (text text' : String) : utf8 (text ++ text') = utf8 text ++ utf8 text' := by
  rw [utf8_eq, utf8_eq, utf8_eq, String.toList_append, List.flatMap_append]

/-- What holds of all bytes can be found out byte by byte. -/
theorem forall_byte {P : UInt8 → Prop} (h : ∀ n : Fin 256, P (UInt8.ofNat n)) (b : UInt8) :
    P b := by
  have hb := h ⟨b.toNat, b.toNat_lt⟩
  rwa [UInt8.ofNat_toNat] at hb

/-! ### Bytes of one character

A character behind the first 128 has a lead byte, which announces the number of bytes to come, and
each of these carries six bits. -/

/-- The byte that carries six bits of a character behind its first. -/
def continuationByte (bits : Nat) : UInt8 := UInt8.ofNat (bits + 0x80)

/-- A continuation byte is one, and its six bits are read back. -/
theorem continuationByte_spec : ∀ bits : Fin 64,
    isContinuation (continuationByte bits) = true ∧
      (continuationByte bits &&& 0x3F).toNat = bits := by
  decide

/-- The lead byte of a character of one byte. -/
theorem leadByte_one : ∀ n : Fin 128,
    leadByte? (UInt8.ofNat n) = some (0, n.val) ∧ UInt8.ofNat n < 0x80 := by
  decide

/-- The lead byte of a character of two bytes. -/
theorem leadByte_two : ∀ n : Fin 32, leadByte? (UInt8.ofNat (n + 0xC0)) = some (1, n.val) := by
  decide

/-- The lead byte of a character of three bytes. -/
theorem leadByte_three : ∀ n : Fin 16, leadByte? (UInt8.ofNat (n + 0xE0)) = some (2, n.val) := by
  decide

/-- The lead byte of a character of four bytes. -/
theorem leadByte_four : ∀ n : Fin 8, leadByte? (UInt8.ofNat (n + 0xF0)) = some (3, n.val) := by
  decide

theorem isContinuation_continuationByte {bits : Nat} (h : bits < 64) :
    isContinuation (continuationByte bits) = true :=
  (continuationByte_spec ⟨bits, h⟩).1

/-- Reading one continuation byte adds its six bits. -/
theorem continuationBits_cons {bits : Nat} (h : bits < 64) (read count : Nat)
    (rest : List UInt8) :
    continuationBits read (count + 1) (continuationByte bits :: rest) =
      continuationBits (read * 64 + bits) count rest := by
  rw [continuationBits, if_pos (isContinuation_continuationByte h),
    (continuationByte_spec ⟨bits, h⟩).2]

/-- A character is read back from its number. -/
theorem charOfNat?_toNat (c : Char) : charOfNat? c.toNat = some c := by
  have hvalid : c.toNat.isValidChar := c.valid
  rw [charOfNat?, dif_pos hvalid]
  rfl

/-- The numbers of characters leave out a range in the middle. -/
theorem toNat_range (c : Char) :
    c.toNat < 0xD800 ∨ 0xDFFF < c.toNat ∧ c.toNat < 0x110000 :=
  c.valid

/-- A character is found where a lead byte and the bits behind it give its number. -/
theorem spelledChar?_of {count bits : Nat} {rest : List UInt8}
    (hlead : leadByte? b = some (count, bits))
    (hbits : continuationBits bits count rest = some c.toNat) :
    spelledChar? b rest = some (c, count) := by
  rw [spelledChar?, hlead]
  simp only [Option.bind_eq_bind, Option.bind_some, hbits, charOfNat?_toNat]
  rfl

theorem toNat_ofNat_ascii (h : b < 0x80) : (Char.ofNat b.toNat).toNat = b.toNat := by
  have hvalid : b.toNat.isValidChar :=
    .inl (Nat.lt_trans (UInt8.lt_iff_toNat_lt.mp h) (by decide))
  rw [Char.ofNat, dif_pos hvalid]
  rfl

/-- The first 128 characters are single bytes. -/
theorem leadingChar_ascii (h : b < 0x80) (rest : List UInt8) :
    leadingChar b rest = (Char.ofNat b.toNat, 0) := by
  rw [leadingChar, spelledChar?_of (if_pos h) (congrArg some (toNat_ofNat_ascii h).symm)]
  rfl

/-- **What is encoded is read**, by the reading that takes lead bytes at their word. -/
theorem leadingChar_encoded (h : utf8EncodeChar c = b :: more) (rest : List UInt8) :
    leadingChar b (more ++ rest) = (c, more.length) := by
  have hrange := toNat_range c
  suffices hspelled : spelledChar? b (more ++ rest) = some (c, more.length) by
    rw [leadingChar, hspelled]
    rfl
  revert h
  -- one case for each length: the bits of the bytes put together are the character again
  fun_cases utf8EncodeChar c with
  | case1 v hle =>
    rintro ⟨⟩
    exact spelledChar?_of (leadByte_one ⟨v, by omega⟩).1 rfl
  | case2 v _ hle =>
    rintro ⟨⟩
    refine spelledChar?_of (leadByte_two ⟨v / 64 % 32, by omega⟩) ?_
    change continuationBits _ 1 (continuationByte (v % 64) :: rest) = _
    rw [continuationBits_cons (by omega), continuationBits]
    exact congrArg some (by change v / 64 % 32 * 64 + v % 64 = v; omega)
  | case3 v _ _ hle =>
    rintro ⟨⟩
    refine spelledChar?_of (leadByte_three ⟨v / 4096 % 16, by omega⟩) ?_
    change continuationBits _ 2
      (continuationByte (v / 64 % 64) :: continuationByte (v % 64) :: rest) = _
    rw [continuationBits_cons (by omega), continuationBits_cons (by omega), continuationBits]
    exact congrArg some (by
      change (v / 4096 % 16 * 64 + v / 64 % 64) * 64 + v % 64 = v; omega)
  -- surrogates are no characters, and so none are encoded
  | case4 v =>
    rintro ⟨⟩
    have hv : v < 0xD800 ∨ 0xDFFF < v ∧ v < 0x110000 := hrange
    refine spelledChar?_of (leadByte_four ⟨v / 262144 % 8, by omega⟩) ?_
    change continuationBits _ 3 (continuationByte (v / 4096 % 64) ::
      continuationByte (v / 64 % 64) :: continuationByte (v % 64) :: rest) = _
    rw [continuationBits_cons (by omega), continuationBits_cons (by omega),
      continuationBits_cons (by omega), continuationBits]
    exact congrArg some (by
      change ((v / 262144 % 8 * 64 + v / 4096 % 64) * 64 + v / 64 % 64) * 64 + v % 64 = v
      omega)

/-! ### Strict reading -/

/-- Whether a byte may stand behind the lead byte, which announces so many bytes. -/
def isSecond (lead second : UInt8) (count : Nat) : Bool :=
  (secondByteRange? lead).any fun (low, high, n) => low ≤ second && second ≤ high && n == count

theorem isSecond_two : ∀ n : Fin 32, 2 ≤ n.val → ∀ m : Fin 64,
    isSecond (UInt8.ofNat (n + 0xC0)) (continuationByte m) 1 = true := by
  decide

/-- Two bytes would have done, or the number is left out. -/
theorem isSecond_three : ∀ n : Fin 16, ∀ m : Fin 64, (n.val = 0 → 32 ≤ m.val) →
    (n.val = 13 → m.val < 32) →
    isSecond (UInt8.ofNat (n + 0xE0)) (continuationByte m) 2 = true := by
  decide

/-- Three bytes would have done, or the number is too large. -/
theorem isSecond_four : ∀ n : Fin 5, ∀ m : Fin 64, (n.val = 0 → 16 ≤ m.val) →
    (n.val = 4 → m.val < 16) →
    isSecond (UInt8.ofNat (n + 0xF0)) (continuationByte m) 3 = true := by
  decide

/-- Where the second byte fits the first, the run of bytes that is announced is well formed. -/
theorem wellFormedRun_of {second : UInt8} (hsecond : isSecond b second (more.length + 1) = true)
    (hmore : ∀ b ∈ more, isContinuation b = true) (rest : List UInt8) :
    ¬b < 0x80 ∧ ∃ low high, secondByteRange? b = some (low, high, more.length + 1) ∧
      wellFormedRun b (second :: more ++ rest) = more.length + 1 := by
  unfold isSecond at hsecond
  -- a second byte in its range means that the first one leads, and is no plain character
  cases hrange : secondByteRange? b with
  | none =>
    rw [hrange] at hsecond
    cases hsecond
  | some range =>
    obtain ⟨low, high, count⟩ := range
    rw [hrange] at hsecond
    simp only [Option.any_some, Bool.and_eq_true, decide_eq_true_eq, beq_iff_eq] at hsecond
    obtain ⟨⟨hlow, hhigh⟩, rfl⟩ := hsecond
    refine ⟨fun hlt => ?_, low, high, rfl, ?_⟩
    · rw [secondByteRange?, if_pos (UInt8.lt_trans hlt (by decide))] at hrange
      cases hrange
    · unfold wellFormedRun
      rw [hrange, List.cons_append]
      dsimp only
      rw [if_pos ⟨hlow, hhigh⟩, Nat.add_sub_cancel, List.take_left,
        List.takeWhile_eq_self_iff.mpr hmore, Nat.add_comm]

/-- Strict reading agrees with the other where the second byte fits the first. -/
theorem strictLeadingChar_of {second : UInt8} (hsecond : isSecond b second (more.length + 1) = true)
    (hmore : ∀ b ∈ more, isContinuation b = true) (rest : List UInt8) :
    strictLeadingChar b (second :: more ++ rest) = leadingChar b (second :: more ++ rest) := by
  obtain ⟨hlead, low, high, hrange, hrun⟩ := wellFormedRun_of hsecond hmore rest
  rw [strictLeadingChar, if_neg hlead, hrange]
  exact if_pos hrun

/-- The second byte of a character keeps to its range, since no fewer bytes would have done. -/
theorem isSecond_encoded {second : UInt8} (h : utf8EncodeChar c = b :: second :: more) :
    isSecond b second (more.length + 1) = true ∧ ∀ x ∈ more, isContinuation x = true := by
  have hrange := toNat_range c
  -- by the number of bytes
  revert h
  fun_cases utf8EncodeChar c with
  -- a single byte has no second
  | case1 v hle => exact nofun
  | case2 v hgt hle =>
    rintro ⟨⟩
    exact ⟨isSecond_two ⟨v / 64 % 32, by omega⟩ (by dsimp only; omega) ⟨v % 64, by omega⟩, by simp⟩
  | case3 v _ hgt hle =>
    rintro ⟨⟩
    have hv : v < 0xD800 ∨ 0xDFFF < v ∧ v < 0x110000 := hrange
    refine ⟨isSecond_three ⟨v / 4096 % 16, by omega⟩ ⟨v / 64 % 64, by omega⟩
      (by dsimp only; omega) (by dsimp only; omega), List.forall_mem_singleton.mpr ?_⟩
    exact isContinuation_continuationByte (by omega)
  | case4 v _ _ hgt =>
    rintro ⟨⟩
    have hv : v < 0xD800 ∨ 0xDFFF < v ∧ v < 0x110000 := hrange
    -- with four bytes the first one is limited too
    have hlead : v / 262144 % 8 < 5 := by omega
    refine ⟨isSecond_four ⟨v / 262144 % 8, hlead⟩ ⟨v / 4096 % 64, by omega⟩
      (by dsimp only; omega) (by dsimp only; omega), List.forall_mem_cons.mpr
        ⟨?_, List.forall_mem_singleton.mpr ?_⟩⟩
    · exact isContinuation_continuationByte (by omega)
    · exact isContinuation_continuationByte (by omega)

/-- A character of one byte is the byte. -/
theorem encoded_single (h : utf8EncodeChar c = [b]) : b < 0x80 ∧ Char.ofNat b.toNat = c := by
  revert h
  fun_cases utf8EncodeChar c with
  | case1 v hle =>
    rintro ⟨⟩
    have hvalue : (UInt8.ofNat v).toNat = c.toNat := Nat.mod_eq_of_lt (by omega)
    exact ⟨(leadByte_one ⟨v, by omega⟩).2, by rw [hvalue, Char.ofNat_toNat]⟩
  | case2 | case3 | case4 => exact nofun

/-- **What is encoded is read strictly.** -/
theorem strictLeadingChar_encoded (h : utf8EncodeChar c = b :: more) (rest : List UInt8) :
    strictLeadingChar b (more ++ rest) = (c, more.length) := by
  cases more with
  | nil =>
    obtain ⟨hascii, hc⟩ := encoded_single h
    rw [strictLeadingChar, if_pos hascii, hc]
    rfl
  | cons second more =>
    obtain ⟨hsecond, hmore⟩ := isSecond_encoded h
    exact (strictLeadingChar_of hsecond hmore rest).trans (leadingChar_encoded h rest)

/-! ### Whole texts -/

/-- The encoding of a character has a first byte. -/
theorem exists_encoded (c : Char) : ∃ b more, utf8EncodeChar c = b :: more := by
  fun_cases utf8EncodeChar c <;> exact ⟨_, _, rfl⟩

/-- Bytes that are left out are passed over. -/
theorem decodeSkipping_append (skipped rest : List UInt8) :
    decodeSkipping skipped.length (skipped ++ rest) = decodeSkipping 0 rest := by
  induction skipped with
  | nil => rfl
  | cons b skipped ih => exact ih

/-- The bytes of some characters are decoded to these characters. -/
theorem decodeSkipping_encoded (cs : List Char) :
    decodeSkipping 0 (cs.flatMap utf8EncodeChar) = cs := by
  induction cs with
  | nil => rfl
  | cons c cs ih =>
    obtain ⟨b, more, hencoded⟩ := exists_encoded c
    rw [List.flatMap_cons, hencoded, List.cons_append, decodeSkipping,
      strictLeadingChar_encoded hencoded]
    dsimp only
    rw [decodeSkipping_append, ih]

/-- Bytes that are skipped do not matter. -/
theorem wellFormedSkipping_append (skipped rest : List UInt8) :
    wellFormedSkipping skipped.length (skipped ++ rest) = wellFormedSkipping 0 rest := by
  induction skipped with
  | nil => rfl
  | cons b skipped ih => exact ih

/-- The bytes of characters are well-formed. -/
theorem wellFormedSkipping_encoded (cs : List Char) :
    wellFormedSkipping 0 (cs.flatMap utf8EncodeChar) = true := by
  induction cs with
  | nil => rfl
  | cons c cs ih =>
    obtain ⟨b, more, hencoded⟩ := exists_encoded c
    rw [List.flatMap_cons, hencoded, List.cons_append]
    cases more with
    | nil => exact (if_pos (encoded_single hencoded).1).trans ih
    | cons second more =>
      -- the bytes behind the first are checked with it and then skipped
      obtain ⟨hsecond, hmore⟩ := isSecond_encoded hencoded
      obtain ⟨hlead, low, high, hrange, hrun⟩ :=
        wellFormedRun_of hsecond hmore (cs.flatMap utf8EncodeChar)
      have hskipped := wellFormedSkipping_append (second :: more) (cs.flatMap utf8EncodeChar)
      rw [wellFormedSkipping, if_neg hlead, hrange]
      dsimp only
      rw [hrun, decide_eq_true rfl, Bool.true_and]
      exact hskipped.trans ih

/-- **The bytes of a text spell it.** -/
theorem decodeLossy_utf8 (text : String) : decodeLossy (utf8 text) = text := by
  rw [utf8_eq, decodeLossy, decodeSkipping_encoded, String.ofList_toList]

/-- The bytes of a text are decoded to it. -/
theorem decode?_utf8 (text : String) : decode? (utf8 text) = some text := by
  have hwell : wellFormedSkipping 0 (utf8 text) = true := by
    rw [utf8_eq]
    exact wellFormedSkipping_encoded text.toList
  rw [decode?, if_pos hwell, decodeLossy_utf8]

end Enclave.Text
