import Enclave.Proofs.Text.Overlong

/-!
# Bytes that are text

Bytes are text (`IsText`) if they are the encodings of characters, one behind the other. Where such
bytes may be cut is up to the single bytes: in front of every byte that continues no character
(`IsText.front`), and then what is behind the cut is text as well (`IsText.behind`). No overlong
form stands anywhere in a text, and reading it strictly gives it back (`IsText.utf8_decodeLossy`).
-/

namespace Enclave.Text

open String (utf8EncodeChar)

/-- The bytes are encoded characters. -/
def IsText (bytes : List UInt8) : Prop := ∃ cs : List Char, bytes = cs.flatMap utf8EncodeChar

variable {bytes bytes' before rest more : List UInt8} {b : UInt8} {c : Char}

theorem isText_utf8 (text : String) : IsText (utf8 text) := ⟨text.toList, utf8_eq text⟩

theorem isText_nil : IsText [] := ⟨[], rfl⟩

theorem IsText.exists_utf8 (h : IsText bytes) : ∃ text, utf8 text = bytes := by
  obtain ⟨cs, rfl⟩ := h
  exact ⟨String.ofList cs, by rw [utf8_eq, String.toList_ofList]⟩

theorem IsText.append (h : IsText bytes) (h' : IsText bytes') : IsText (bytes ++ bytes') := by
  obtain ⟨cs, rfl⟩ := h
  obtain ⟨cs', rfl⟩ := h'
  exact ⟨cs ++ cs', List.flatMap_append.symm⟩

/-- The first 128 characters are bytes of their own. -/
theorem isText_ascii (h : b < 0x80) : IsText [b] := by
  have hvalue := toNat_ofNat_ascii h
  have hlt : (Char.ofNat b.toNat).toNat < 0x80 := by
    rw [hvalue]
    exact UInt8.lt_iff_toNat_lt.mp h
  refine ⟨[Char.ofNat b.toNat], ?_⟩
  rw [List.flatMap_singleton, encode_one hlt, hvalue, UInt8.ofNat_toNat]

/-- A text that is not empty begins with a character, and goes on as a text. -/
theorem IsText.exists_encoded (h : IsText (b :: rest)) :
    ∃ c more tail, utf8EncodeChar c = b :: more ∧ rest = more ++ tail ∧ IsText tail := by
  obtain ⟨cs, hcs⟩ := h
  cases cs with
  | nil => cases hcs
  | cons c cs =>
    obtain ⟨b', more, hencoded⟩ := Text.exists_encoded c
    rw [List.flatMap_cons, hencoded] at hcs
    obtain ⟨rfl, rfl⟩ := List.cons.inj hcs
    exact ⟨c, more, _, hencoded, rfl, cs, rfl⟩

/-! ### Cutting texts -/

/-- What is left when a text is cut off the front of a text is a text. -/
theorem IsText.behind (h : IsText (before ++ rest)) (hbefore : IsText before) : IsText rest := by
  obtain ⟨cs, rfl⟩ := hbefore
  induction cs with
  | nil => exact h
  | cons c cs ih =>
    obtain ⟨b, more, hencoded⟩ := Text.exists_encoded c
    rw [List.flatMap_cons, hencoded, List.cons_append, List.cons_append, List.append_assoc] at h
    obtain ⟨c', more', tail, hencoded', heq, htail⟩ := h.exists_encoded
    -- both readings find the character that is encoded there
    have hread := leadingChar_encoded hencoded (cs.flatMap utf8EncodeChar ++ rest)
    rw [heq, leadingChar_encoded hencoded'] at hread
    have hlength : more'.length = more.length := congrArg Prod.snd hread
    obtain ⟨-, rfl⟩ := List.append_inj heq hlength.symm
    exact ih htail

theorem lead_not_continuation : (∀ n : Fin 128, isContinuation (UInt8.ofNat n) = false) ∧
    (∀ n : Fin 32, isContinuation (UInt8.ofNat (n + 0xC0)) = false) ∧
    (∀ n : Fin 16, isContinuation (UInt8.ofNat (n + 0xE0)) = false) ∧
    ∀ n : Fin 8, isContinuation (UInt8.ofNat (n + 0xF0)) = false := by
  decide

/-- A character begins with a byte that continues none, and goes on with bytes that do. -/
theorem isContinuation_of_encoded (h : utf8EncodeChar c = b :: more) :
    isContinuation b = false ∧ ∀ x ∈ more, isContinuation x = true := by
  obtain ⟨hone, htwo, hthree, hfour⟩ := lead_not_continuation
  have hrange := toNat_range c
  have hcontinues : ∀ n, isContinuation (continuationByte (n % 64)) = true := fun n =>
    isContinuation_continuationByte (Nat.mod_lt n (by omega))
  -- by how many bytes the character takes: the first leads, and the others continue
  by_cases h₁ : c.toNat < 0x80
  · rw [encode_one h₁] at h
    cases h
    exact ⟨hone ⟨_, h₁⟩, nofun⟩
  · by_cases h₂ : c.toNat < 0x800
    · rw [encode_two (by omega) h₂] at h
      cases h
      exact ⟨htwo ⟨_, by omega⟩, List.forall_mem_singleton.mpr (hcontinues _)⟩
    · by_cases h₃ : c.toNat < 0x10000
      · rw [encode_three (by omega) h₃] at h
        cases h
        exact ⟨hthree ⟨_, by omega⟩, List.forall_mem_cons.mpr
          ⟨hcontinues _, List.forall_mem_singleton.mpr (hcontinues _)⟩⟩
      · rw [encode_four (by omega)] at h
        cases h
        exact ⟨hfour ⟨_, by omega⟩, List.forall_mem_cons.mpr ⟨hcontinues _,
          List.forall_mem_cons.mpr ⟨hcontinues _, List.forall_mem_singleton.mpr (hcontinues _)⟩⟩⟩

/-- **A text may be cut** in front of a byte that continues no character. -/
theorem IsText.front (h : IsText (before ++ b :: rest)) (hb : isContinuation b = false) :
    IsText before := by
  obtain ⟨cs, hcs⟩ := h
  induction cs generalizing before with
  | nil => simp at hcs
  | cons c cs ih =>
    -- the characters in front of the byte are taken away one at a time
    cases before with
    | nil => exact isText_nil
    | cons a before =>
      obtain ⟨a', more, hencoded⟩ := Text.exists_encoded c
      rw [List.flatMap_cons, hencoded] at hcs
      obtain ⟨rfl, heq⟩ := List.cons.inj hcs
      -- the byte is none of the character's, so the cut is behind them
      have hmore : ∃ before', before = more ++ before' ∧
          before' ++ b :: rest = cs.flatMap utf8EncodeChar := by
        rcases List.append_eq_append_iff.mp heq with ⟨inside, hinside, hrest⟩ | ⟨before', h, hrest⟩
        · cases inside with
          | nil => exact ⟨[], by simpa using hinside.symm, by simpa using hrest⟩
          | cons x inside =>
            obtain ⟨rfl, -⟩ := List.cons.inj hrest
            have hcontinues := (isContinuation_of_encoded hencoded).2 b (by simp [hinside])
            rw [hb] at hcontinues
            cases hcontinues
        · exact ⟨before', h, hrest.symm⟩
      obtain ⟨before', rfl, hbefore'⟩ := hmore
      have hfirst : IsText (a :: more) := ⟨[c], by rw [List.flatMap_singleton, hencoded]⟩
      exact hfirst.append (ih hbefore')

/-- What is in front of a text in a text is a text. -/
theorem IsText.inFront (h : IsText (before ++ rest)) (hrest : IsText rest) : IsText before := by
  cases rest with
  | nil => rwa [List.append_nil] at h
  | cons b rest =>
    obtain ⟨c, more, tail, hencoded, -, -⟩ := hrest.exists_encoded
    exact h.front (isContinuation_of_encoded hencoded).1

theorem isContinuation_of_ascii : ∀ b : UInt8, b < 0x80 → isContinuation b = false :=
  forall_byte (by decide +kernel)

/-- A byte of its own cuts a text in two. -/
theorem IsText.cut (h : IsText (before ++ b :: rest)) (hb : b < 0x80) :
    IsText before ∧ IsText rest := by
  have hbefore := h.front (isContinuation_of_ascii b hb)
  have hbehind : IsText ([b] ++ rest) := h.behind hbefore
  exact ⟨hbefore, hbehind.behind (isText_ascii hb)⟩

/-- A byte of its own is followed by a text. -/
theorem IsText.tail (h : IsText (b :: rest)) (hb : b < 0x80) : IsText rest := by
  have h : IsText ([] ++ b :: rest) := h
  exact (h.cut hb).2

theorem isText_of_ascii (h : ∀ b ∈ bytes, b < 0x80) : IsText bytes := by
  induction bytes with
  | nil => exact isText_nil
  | cons b bytes ih =>
    have hrest := ih fun b' hb' => h b' (List.mem_cons_of_mem b hb')
    exact (isText_ascii (h b List.mem_cons_self)).append hrest

/-! ### Overlong forms in texts -/

theorem Overlong.append (h : Overlong bytes) (rest : List UInt8) : Overlong (bytes ++ rest) := by
  cases h with
  | two lead h₁ => exact .two lead h₁
  | three h₁ h₂ low => exact .three h₁ h₂ low
  | four h₁ h₂ h₃ low character => exact .four h₁ h₂ h₃ low character

theorem Overlong.not_continuation (h : Overlong (b :: rest)) : isContinuation b = false := by
  cases h with
  | two lead _ => rcases lead with rfl | rfl <;> rfl
  | three => rfl
  | four => rfl

/-- **No overlong form stands in a text**, wherever one looks. -/
theorem IsText.not_overlong (h : IsText bytes) {part : List UInt8} (hpart : part <:+: bytes) :
    ¬Overlong part := by
  intro hover
  obtain ⟨front, rest, rfl⟩ := hpart
  cases part with
  | nil => cases hover
  | cons b part =>
    have h : IsText (front ++ b :: (part ++ rest)) := by simpa using h
    have hbehind := h.behind (h.front hover.not_continuation)
    obtain ⟨c, more, tail, hencoded, heq, -⟩ := hbehind.exists_encoded
    have hover : Overlong (b :: (more ++ tail)) := heq ▸ hover.append rest
    -- what is encoded there is read, and takes the bytes that it takes
    obtain ⟨c', more', hread, hlength, -⟩ := hover.leadingChar
    rw [leadingChar_encoded hencoded] at hread
    obtain ⟨rfl, hmore⟩ := Prod.mk.inj hread
    rw [hencoded, List.length_cons, hmore] at hlength
    exact Nat.lt_irrefl _ hlength

/-! ### Reading texts -/

theorem IsText.utf8_decodeLossy (h : IsText bytes) : utf8 (decodeLossy bytes) = bytes := by
  obtain ⟨cs, rfl⟩ := h
  rw [utf8_eq, decodeLossy, decodeSkipping_encoded, String.toList_ofList]

/-- Texts with the same bytes are the same. -/
theorem utf8_injective {text text' : String} (h : utf8 text = utf8 text') : text = text' := by
  rw [← decodeLossy_utf8 text, h, decodeLossy_utf8]

end Enclave.Text
