import CommandTape.Text.Utf8
import Mathlib.Data.List.Basic

/-!
# Bytes that spell a text

A text is spelled by characters of one to four bytes in a row. The table of the bytes that
characters may have leaves out longer forms than needed, the code points that stand for halves of
characters, and those behind the last (`Utf8.IsCharacter`). Bytes are those of a text just if they
can be cut into such characters (`Utf8.wellFormed_iff_exists_text`), and the cut is what `decode`
looks for (`Utf8.decode_eq`).
-/

namespace CommandTape.Utf8

/-! ## Bytes as numbers -/

theorem isTail_iff {b : UInt8} : isTail b = true ↔ 128 ≤ b.toNat ∧ b.toNat ≤ 191 := by
  simp [isTail, UInt8.le_iff_toNat_le]

/-- The second of three bytes rules out what two bytes spell, and the halves of characters. -/
theorem isSecondOfThree_iff {a b : UInt8} : isSecondOfThree a b = true ↔
    isTail b = true ∧ (a.toNat = 224 → 160 ≤ b.toNat) ∧ (a.toNat = 237 → b.toNat ≤ 159) := by
  by_cases hlow : a = 0xE0
  · subst hlow
    simp [isSecondOfThree, isTail_iff, UInt8.le_iff_toNat_le]
    omega
  · by_cases hhigh : a = 0xED
    · subst hhigh
      simp [isSecondOfThree, isTail_iff, UInt8.le_iff_toNat_le]
      omega
    · have hlow' : a.toNat ≠ 224 := fun h => hlow (UInt8.toNat_inj.1 h)
      have hhigh' : a.toNat ≠ 237 := fun h => hhigh (UInt8.toNat_inj.1 h)
      simp [isSecondOfThree, hlow, hhigh, hlow', hhigh']

/-- The second of four bytes rules out what three bytes spell, and what lies behind the last code
point. -/
theorem isSecondOfFour_iff {a b : UInt8} : isSecondOfFour a b = true ↔
    isTail b = true ∧ (a.toNat = 240 → 144 ≤ b.toNat) ∧ (a.toNat = 244 → b.toNat ≤ 143) := by
  by_cases hlow : a = 0xF0
  · subst hlow
    simp [isSecondOfFour, isTail_iff, UInt8.le_iff_toNat_le]
    omega
  · by_cases hhigh : a = 0xF4
    · subst hhigh
      simp [isSecondOfFour, isTail_iff, UInt8.le_iff_toNat_le]
      omega
    · have hlow' : a.toNat ≠ 240 := fun h => hlow (UInt8.toNat_inj.1 h)
      have hhigh' : a.toNat ≠ 244 := fun h => hhigh (UInt8.toNat_inj.1 h)
      simp [isSecondOfFour, hlow, hhigh, hlow', hhigh']

/-! ## Characters -/

/-- The bytes of one character. -/
inductive IsCharacter : Bytes → Prop
  | one {a : UInt8} (ha : a ≤ 0x7F) : IsCharacter [a]
  | two {a b : UInt8} (hmin : 0xC2 ≤ a) (hmax : a ≤ 0xDF) (hb : isTail b = true) :
      IsCharacter [a, b]
  | three {a b c : UInt8} (hmin : 0xE0 ≤ a) (hmax : a ≤ 0xEF) (hb : isSecondOfThree a b = true)
      (hc : isTail c = true) : IsCharacter [a, b, c]
  | four {a b c d : UInt8} (hmin : 0xF0 ≤ a) (hmax : a ≤ 0xF4) (hb : isSecondOfFour a b = true)
      (hc : isTail c = true) (hd : isTail d = true) : IsCharacter [a, b, c, d]

/-- A character is spelled by the bytes of one. -/
theorem isCharacter_encodeChar (c : Char) : IsCharacter (String.utf8EncodeChar c) := by
  have hvalid : c.val.toNat < 0xD800 ∨ 0xDFFF < c.val.toNat ∧ c.val.toNat < 0x110000 := c.valid
  rw [String.utf8EncodeChar]
  generalize c.val.toNat = v at hvalid
  split
  · refine .one ?_
    rw [UInt8.le_iff_toNat_le]
    simp
    omega
  · split
    · refine .two ?_ ?_ (isTail_iff.2 ?_)
      all_goals simp [UInt8.le_iff_toNat_le]
      all_goals omega
    · split
      · refine .three ?_ ?_ (isSecondOfThree_iff.2 ⟨isTail_iff.2 ?_, ?_, ?_⟩) (isTail_iff.2 ?_)
        all_goals simp [UInt8.le_iff_toNat_le]
        all_goals omega
      · refine .four ?_ ?_ (isSecondOfFour_iff.2 ⟨isTail_iff.2 ?_, ?_, ?_⟩) (isTail_iff.2 ?_)
          (isTail_iff.2 ?_)
        all_goals simp [UInt8.le_iff_toNat_le]
        all_goals omega

/-- Every code point that no half of a character has is one of a character. -/
theorem exists_char {v : Nat} (h : v < 0xD800 ∨ 0xDFFF < v ∧ v < 0x110000) :
    ∃ c : Char, c.val.toNat = v := by
  have hlt : v < 2 ^ 32 := by omega
  have hv : (UInt32.ofNat v).toNat = v := UInt32.toNat_ofNat_of_lt' hlt
  refine ⟨⟨UInt32.ofNat v, ?_⟩, hv⟩
  rw [UInt32.isValidChar, hv]
  exact h

/-- A byte is the one with its number. -/
theorem ofNat_eq_of_toNat {a : UInt8} {n : Nat} (h : n = a.toNat) : UInt8.ofNat n = a := by
  rw [h, UInt8.ofNat_toNat]

/-- The bytes of one character spell it. -/
theorem IsCharacter.exists_encodeChar {bs : Bytes} (h : IsCharacter bs) :
    ∃ c, String.utf8EncodeChar c = bs := by
  cases h with
  | @one a ha =>
    have ha' : a.toNat ≤ 127 := UInt8.le_iff_toNat_le.1 ha
    obtain ⟨c, hc⟩ := exists_char (v := a.toNat) (by omega)
    refine ⟨c, ?_⟩
    rw [String.utf8EncodeChar, hc, if_pos ha', ofNat_eq_of_toNat rfl]
  | @two a b hmin hmax hb =>
    have hmin' : 194 ≤ a.toNat := UInt8.le_iff_toNat_le.1 hmin
    have hmax' : a.toNat ≤ 223 := UInt8.le_iff_toNat_le.1 hmax
    have hb' := isTail_iff.1 hb
    obtain ⟨c, hc⟩ := exists_char (v := (a.toNat - 192) * 64 + (b.toNat - 128)) (by omega)
    refine ⟨c, ?_⟩
    rw [String.utf8EncodeChar, hc, if_neg (by omega), if_pos (by omega),
      ofNat_eq_of_toNat (a := a) (by omega), ofNat_eq_of_toNat (a := b) (by omega)]
  | @three a b c hmin hmax hb hc =>
    have hmin' : 224 ≤ a.toNat := UInt8.le_iff_toNat_le.1 hmin
    have hmax' : a.toNat ≤ 239 := UInt8.le_iff_toNat_le.1 hmax
    obtain ⟨hb', hlow, hhigh⟩ := isSecondOfThree_iff.1 hb
    rw [isTail_iff] at hb'
    have hc' := isTail_iff.1 hc
    obtain ⟨char, hchar⟩ := exists_char
      (v := (a.toNat - 224) * 4096 + (b.toNat - 128) * 64 + (c.toNat - 128)) (by omega)
    refine ⟨char, ?_⟩
    rw [String.utf8EncodeChar, hchar, if_neg (by omega), if_neg (by omega), if_pos (by omega),
      ofNat_eq_of_toNat (a := a) (by omega), ofNat_eq_of_toNat (a := b) (by omega),
      ofNat_eq_of_toNat (a := c) (by omega)]
  | @four a b c d hmin hmax hb hc hd =>
    have hmin' : 240 ≤ a.toNat := UInt8.le_iff_toNat_le.1 hmin
    have hmax' : a.toNat ≤ 244 := UInt8.le_iff_toNat_le.1 hmax
    obtain ⟨hb', hlow, hhigh⟩ := isSecondOfFour_iff.1 hb
    rw [isTail_iff] at hb'
    have hc' := isTail_iff.1 hc
    have hd' := isTail_iff.1 hd
    obtain ⟨char, hchar⟩ := exists_char (v := (a.toNat - 240) * 262144 + (b.toNat - 128) * 4096 +
      (c.toNat - 128) * 64 + (d.toNat - 128)) (by omega)
    refine ⟨char, ?_⟩
    rw [String.utf8EncodeChar, hchar, if_neg (by omega), if_neg (by omega), if_neg (by omega),
      ofNat_eq_of_toNat (a := a) (by omega), ofNat_eq_of_toNat (a := b) (by omega),
      ofNat_eq_of_toNat (a := c) (by omega), ofNat_eq_of_toNat (a := d) (by omega)]

/-! ## Texts -/

/-- The bytes are those of characters in a row. -/
inductive WellFormed : Bytes → Prop
  | nil : WellFormed []
  | cons {bs rest : Bytes} (h : IsCharacter bs) (hrest : WellFormed rest) : WellFormed (bs ++ rest)

/-- Characters are spelled one after the other. -/
theorem encode_ofList (chars : List Char) :
    encode (String.ofList chars) = chars.flatMap String.utf8EncodeChar := by
  rw [encode, String.toUTF8_eq_toByteArray, String.toByteArray_ofList, List.utf8Encode]
  simp

theorem wellFormed_encode (text : String) : WellFormed (encode text) := by
  rw [← String.ofList_toList (s := text), encode_ofList]
  induction text.toList with
  | nil => exact .nil
  | cons c rest ih => exact .cons (isCharacter_encodeChar c) ih

/-- Bytes are those of a text just if they are those of characters in a row. -/
theorem wellFormed_iff_exists_text {bs : Bytes} : WellFormed bs ↔ ∃ text, encode text = bs := by
  refine ⟨fun h => ?_, fun ⟨text, htext⟩ => htext ▸ wellFormed_encode text⟩
  suffices ∃ chars : List Char, chars.flatMap String.utf8EncodeChar = bs by
    obtain ⟨chars, hchars⟩ := this
    exact ⟨String.ofList chars, (encode_ofList chars).trans hchars⟩
  induction h with
  | nil => exact ⟨[], rfl⟩
  | cons h hrest ih =>
    obtain ⟨c, hc⟩ := h.exists_encodeChar
    obtain ⟨chars, hchars⟩ := ih
    exact ⟨c :: chars, by rw [List.flatMap_cons, hc, hchars]⟩

/-- Bytes that are well-formed are read as the text that they spell, and others are not read. -/
theorem decode_eq (bs : Bytes) :
    (∃ text, encode text = bs ∧ decode bs = .ok text) ∨
    ¬WellFormed bs ∧ decode bs = .error (fault 0 bs) := by
  cases hdecode : decode bs with
  | ok text => exact Or.inl ⟨text, encode_of_decode hdecode, rfl⟩
  | error e =>
    refine Or.inr ⟨?_, ?_⟩
    · intro h
      obtain ⟨text, rfl⟩ := wellFormed_iff_exists_text.1 h
      rw [decode_encode] at hdecode
      cases hdecode
    · unfold decode at hdecode
      split at hdecode
      · cases hdecode
      · exact hdecode.symm

/-- Bytes are read just if they are well-formed. -/
theorem isOk_decode_iff {bs : Bytes} : (decode bs).isOk = true ↔ WellFormed bs := by
  rcases decode_eq bs with ⟨text, htext, hdecode⟩ | ⟨hnot, hdecode⟩
  · exact iff_of_true (by rw [hdecode]; rfl) (wellFormed_iff_exists_text.2 ⟨text, htext⟩)
  · exact iff_of_false (by simp [hdecode, Except.isOk, Except.toBool]) hnot

instance (bs : Bytes) : Decidable (WellFormed bs) := decidable_of_iff _ isOk_decode_iff

/-- A longer form than needed, one half of a character, a code point behind the last, and a
character that is cut off. -/
example : ¬WellFormed [0xC0, 0xAF] ∧ ¬WellFormed [0xED, 0xA0, 0x80] ∧
    ¬WellFormed [0xF4, 0x90, 0x80, 0x80] ∧ ¬WellFormed [0x6E, 0xC3] := by
  decide +kernel

end CommandTape.Utf8
