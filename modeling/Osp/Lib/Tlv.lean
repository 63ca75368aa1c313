import Osp.Lib.Bytes

/-!
# Attributes with a type and a length

A type, the length of the whole attribute and its value, each of the first two in one byte. A string of bytes is cut into such attributes
in at most one way.
-/

namespace Osp.Lib

/-- An attribute: its length fits into one byte. -/
structure Tlv where
  type : UInt8
  value : Bytes
  length_le : value.length ≤ 253

namespace Tlv

/-- The byte that holds the length of the attribute. -/
def lengthByte (a : Tlv) : UInt8 := UInt8.ofNat (a.value.length + 2)

def bytes (a : Tlv) : Bytes := a.type :: a.lengthByte :: a.value

@[simp] theorem toNat_lengthByte (a : Tlv) : a.lengthByte.toNat = a.value.length + 2 := by
  have h := a.length_le
  rw [lengthByte, UInt8.toNat_ofNat_of_lt' (show a.value.length + 2 < UInt8.size by simp only [UInt8.size]; omega)]

@[simp] theorem length_bytes (a : Tlv) : a.bytes.length = a.value.length + 2 := rfl

@[ext] theorem ext' {a b : Tlv} (htype : a.type = b.type) (hvalue : a.value = b.value) : a = b := by
  cases a
  cases htype
  cases hvalue
  rfl

/-- What follows the first attribute. -/
theorem bytes_append_inj {a b : Tlv} {l l' : Bytes} (h : a.bytes ++ l = b.bytes ++ l') : a = b ∧ l = l' := by
  simp only [bytes, List.cons_append, List.cons.injEq] at h
  obtain ⟨htype, hlength, hrest⟩ := h
  have hsame : a.value.length = b.value.length := by
    have heq := congrArg UInt8.toNat hlength
    simp only [toNat_lengthByte] at heq
    omega
  obtain ⟨hvalue, hl⟩ := List.append_inj hrest hsame
  exact ⟨ext' htype hvalue, hl⟩

end Tlv

/-- Attributes one after the other. -/
def tlvBytes (attrs : List Tlv) : Bytes := attrs.flatMap Tlv.bytes

@[simp] theorem tlvBytes_nil : tlvBytes [] = [] := rfl

@[simp] theorem tlvBytes_cons (a : Tlv) (attrs : List Tlv) : tlvBytes (a :: attrs) = a.bytes ++ tlvBytes attrs := List.flatMap_cons

@[simp] theorem tlvBytes_append (attrs more : List Tlv) : tlvBytes (attrs ++ more) = tlvBytes attrs ++ tlvBytes more :=
  List.flatMap_append

theorem tlvBytes_eq_nil {attrs : List Tlv} : tlvBytes attrs = [] ↔ attrs = [] := by
  cases attrs with
  | nil => simp
  | cons a attrs => simp [Tlv.bytes]

end Osp.Lib
