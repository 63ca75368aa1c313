import Osp.Lib.Bytes

/-!
# Well-formed UTF-8

A byte string is well formed if it is the UTF-8 encoding of a sequence of characters. The encodings of the single characters are
those with a lead byte and trailing bytes in the right ranges.
-/

namespace Osp.Lib

/-- A well-formed UTF-8 string: the encoding of a sequence of Unicode scalar values. -/
def WellFormedUtf8 (s : Bytes) : Prop := ∃ cs : List Char, s = cs.flatMap String.utf8EncodeChar

/-- A trailing byte. -/
def IsTail (b : UInt8) : Prop := 0x80 ≤ b.toNat ∧ b.toNat ≤ 0xBF

/-- A second byte after a lead byte: overlong forms, surrogates and values beyond the last code point are excluded. -/
def IsSecond (a b : UInt8) : Prop :=
  IsTail b ∧ (a.toNat = 0xE0 → 0xA0 ≤ b.toNat) ∧ (a.toNat = 0xED → b.toNat ≤ 0x9F) ∧
    (a.toNat = 0xF0 → 0x90 ≤ b.toNat) ∧ (a.toNat = 0xF4 → b.toNat ≤ 0x8F)

/-- The encodings of single characters, by the ranges of their bytes. -/
inductive Utf8Char : Bytes → Prop
  | one {a : UInt8} : a.toNat ≤ 0x7F → Utf8Char [a]
  | two {a b : UInt8} : 0xC2 ≤ a.toNat → a.toNat ≤ 0xDF → IsTail b → Utf8Char [a, b]
  | three {a b c : UInt8} : 0xE0 ≤ a.toNat → a.toNat ≤ 0xEF → IsSecond a b → IsTail c → Utf8Char [a, b, c]
  | four {a b c d : UInt8} :
      0xF0 ≤ a.toNat → a.toNat ≤ 0xF4 → IsSecond a b → IsTail c → IsTail d → Utf8Char [a, b, c, d]

theorem toNat_uint8_ofNat (n : Nat) (h : n < 256 := by omega) : (UInt8.ofNat n).toNat = n := by
  simp [Nat.mod_eq_of_lt h]

/-- The encoding of a character has its bytes in the right ranges. -/
theorem utf8Char_utf8EncodeChar (c : Char) : Utf8Char (String.utf8EncodeChar c) := by
  have hv : c.val.toNat < 0xD800 ∨ 0xDFFF < c.val.toNat ∧ c.val.toNat < 0x110000 := c.valid
  unfold String.utf8EncodeChar
  generalize c.val.toNat = v at hv
  simp only
  split_ifs with h1 h2 h3
  · refine .one ?_
    rw [toNat_uint8_ofNat v]
    exact h1
  · have ha := toNat_uint8_ofNat (v / 64 % 0x20 + 0xc0)
    have hb := toNat_uint8_ofNat (v % 0x40 + 0x80)
    refine .two ?_ ?_ ⟨?_, ?_⟩ <;> omega
  · have ha := toNat_uint8_ofNat (v / 4096 % 0x10 + 0xe0)
    have hb := toNat_uint8_ofNat (v / 64 % 0x40 + 0x80)
    have hc := toNat_uint8_ofNat (v % 0x40 + 0x80)
    refine .three ?_ ?_ ⟨⟨?_, ?_⟩, ?_, ?_, ?_, ?_⟩ ⟨?_, ?_⟩ <;> omega
  · have ha := toNat_uint8_ofNat (v / 262144 % 0x08 + 0xf0)
    have hb := toNat_uint8_ofNat (v / 4096 % 0x40 + 0x80)
    have hc := toNat_uint8_ofNat (v / 64 % 0x40 + 0x80)
    have hd := toNat_uint8_ofNat (v % 0x40 + 0x80)
    refine .four ?_ ?_ ⟨⟨?_, ?_⟩, ?_, ?_, ?_, ?_⟩ ⟨?_, ?_⟩ ⟨?_, ?_⟩ <;> omega

theorem eq_uint8_ofNat (b : UInt8) {n : Nat} (h : n = b.toNat := by omega) : b = UInt8.ofNat n := by
  rw [h, UInt8.ofNat_toNat]

/-- The character of a scalar value. -/
def charOf (v : Nat) (h : v.isValidChar) : Char := Char.ofNatAux v h

theorem toNat_charOf (v : Nat) (h : v.isValidChar) : (charOf v h).val.toNat = v := rfl

/-- Bytes in the right ranges encode a character. -/
theorem Utf8Char.exists_char {s : Bytes} (h : Utf8Char s) : ∃ c : Char, s = String.utf8EncodeChar c := by
  cases h with
  | @one a ha =>
    refine ⟨charOf a.toNat (.inl (by omega)), ?_⟩
    unfold String.utf8EncodeChar
    rw [toNat_charOf, if_pos ha, UInt8.ofNat_toNat]
  | @two a b ha ha' hb =>
    obtain ⟨hb, hb'⟩ := hb
    refine ⟨charOf ((a.toNat - 0xC0) * 64 + (b.toNat - 0x80)) (.inl (by omega)), ?_⟩
    unfold String.utf8EncodeChar
    rw [toNat_charOf, if_neg (by omega), if_pos (by omega), ← eq_uint8_ofNat a,
      ← eq_uint8_ofNat b]
  | @three a b c ha ha' hb hc =>
    obtain ⟨⟨hb, hb'⟩, hlow, hhigh, -, -⟩ := hb
    obtain ⟨hc, hc'⟩ := hc
    refine ⟨charOf ((a.toNat - 0xE0) * 4096 + (b.toNat - 0x80) * 64 + (c.toNat - 0x80)) ?_, ?_⟩
    · omega
    · unfold String.utf8EncodeChar
      rw [toNat_charOf, if_neg (by omega), if_neg (by omega), if_pos (by omega), ← eq_uint8_ofNat a,
        ← eq_uint8_ofNat b, ← eq_uint8_ofNat c]
  | @four a b c d ha ha' hb hc hd =>
    obtain ⟨⟨hb, hb'⟩, -, -, hlow, hhigh⟩ := hb
    obtain ⟨hc, hc'⟩ := hc
    obtain ⟨hd, hd'⟩ := hd
    refine ⟨charOf ((a.toNat - 0xF0) * 262144 + (b.toNat - 0x80) * 4096 + (c.toNat - 0x80) * 64 + (d.toNat - 0x80)) ?_, ?_⟩
    · omega
    · unfold String.utf8EncodeChar
      rw [toNat_charOf, if_neg (by omega), if_neg (by omega), if_neg (by omega), ← eq_uint8_ofNat a,
        ← eq_uint8_ofNat b, ← eq_uint8_ofNat c, ← eq_uint8_ofNat d]

/-- A character in front of a well-formed string makes a well-formed string. -/
theorem Utf8Char.append {s t : Bytes} (hs : Utf8Char s) (ht : WellFormedUtf8 t) : WellFormedUtf8 (s ++ t) := by
  obtain ⟨c, rfl⟩ := hs.exists_char
  obtain ⟨cs, rfl⟩ := ht
  exact ⟨c :: cs, rfl⟩

end Osp.Lib
