import Osp.Websocketpp.Hybi13
import Osp.Websocketpp.Lemmas.Masking

/-!
# Headers survive the wire

The fields of a basic header, the size and the masking key that were written into a frame header are read back from its bytes,
in each of the three length encodings.
-/

namespace Osp.Websocketpp

open Lib BasicHeader ExtendedHeader List

namespace BasicHeader

variable (op : Opcode) (size : Nat) (fin mask : Bool)

theorem firstByte (op : Opcode) (fin : Bool) :
    let b := (0x00 : UInt8) ||| (if fin then bhb0Fin else 0) ||| 0 ||| 0 ||| 0 ||| (op.value &&& bhb0Opcode)
    Opcode.ofValue (b &&& bhb0Opcode) = op ∧ (b &&& bhb0Fin == bhb0Fin) = fin ∧
      ∀ m ∈ [bhb0Rsv1, bhb0Rsv2, bhb0Rsv3], (b &&& m == m) = false := by
  simp only [forall_mem_cons, not_mem_nil, false_implies, implies_true, and_true]
  cases op <;> cases fin <;> decide

theorem getOpcode_ofFields : (ofFields op size fin mask false false false).getOpcode = op := (firstByte op fin).1

theorem getFin_ofFields : (ofFields op size fin mask false false false).getFin = fin := (firstByte op fin).2.1

theorem basicValue_lt : (basicValue size).toNat < 128 := by
  unfold basicValue payloadSizeBasic
  split_ifs with h
  · rw [UInt8.toNat_ofNat', Nat.mod_eq_of_lt (by omega)]
    omega
  · decide
  · decide

theorem lengthByte : ∀ n < 128,
    ((0x00 : UInt8) ||| bhb1Mask ||| UInt8.ofNat n) &&& bhb1Mask = bhb1Mask ∧
    ((0x00 : UInt8) ||| bhb1Mask ||| UInt8.ofNat n) &&& bhb1Payload = UInt8.ofNat n ∧
    ((0x00 : UInt8) ||| 0 ||| UInt8.ofNat n) &&& bhb1Mask ≠ bhb1Mask ∧
    ((0x00 : UInt8) ||| 0 ||| UInt8.ofNat n) &&& bhb1Payload = UInt8.ofNat n := by
  decide

theorem getMasked_ofFields : (ofFields op size fin mask false false false).getMasked = mask := by
  obtain ⟨h1, -, h3, -⟩ := lengthByte _ (basicValue_lt size)
  unfold getMasked ofFields
  cases mask with
  | true => simpa using h1
  | false => simpa using h3

theorem getBasicSize_ofFields : (ofFields op size fin mask false false false).getBasicSize = basicValue size := by
  obtain ⟨-, h2, -, h4⟩ := lengthByte _ (basicValue_lt size)
  rw [UInt8.ofNat_toNat] at h2 h4
  cases mask with
  | true => exact h2
  | false => exact h4

/-- The number of bytes of the extended length field. -/
def sizeWidth (size : Nat) : Nat := if size ≤ payloadSizeBasic then 0 else if size ≤ payloadSizeExtended then 2 else 8

/-- The three length encodings: the seven bit field, and the width and the range of the extended one. -/
theorem basicValue_cases :
    ((basicValue size).toNat = size ∧ size ≤ 125 ∧ sizeWidth size = 0) ∨
    (basicValue size = payloadSizeCode16bit ∧ 125 < size ∧ size ≤ 0xFFFF ∧ sizeWidth size = 2) ∨
    (basicValue size = payloadSizeCode64bit ∧ 0xFFFF < size ∧ sizeWidth size = 8) := by
  unfold basicValue sizeWidth payloadSizeBasic payloadSizeExtended
  split_ifs with h1 h2
  · exact .inl ⟨by rw [UInt8.toNat_ofNat', Nat.mod_eq_of_lt (by omega)], h1, rfl⟩
  · exact .inr (.inl ⟨rfl, by omega, h2, rfl⟩)
  · exact .inr (.inr ⟨rfl, by omega, rfl⟩)

/-- A size in the seven bit field is not taken for the code of an extended one. -/
theorem basicValue_ne {size : Nat} (h : (basicValue size).toNat = size) (hle : size ≤ 125) :
    basicValue size ≠ payloadSizeCode16bit ∧ basicValue size ≠ payloadSizeCode64bit := by
  constructor
  · intro h16
    rw [h16] at h
    have : (126 : Nat) = size := h
    omega
  · intro h64
    rw [h64] at h
    have : (127 : Nat) = size := h
    omega

theorem getMaskingKeyOffset_ofFields :
    (ofFields op size fin mask false false false).getMaskingKeyOffset = sizeWidth size := by
  unfold getMaskingKeyOffset
  rw [getBasicSize_ofFields]
  rcases basicValue_cases size with ⟨h1, h2, h3⟩ | ⟨h1, -, -, h3⟩ | ⟨h1, -, h3⟩
  · obtain ⟨h16, h64⟩ := basicValue_ne h1 h2
    rw [if_neg h16, if_neg h64, h3]
  · rw [if_pos h1, h3]
  · rw [h1, if_neg (by decide), if_pos rfl, h3]

theorem getHeaderLen_ofFields :
    (ofFields op size fin mask false false false).getHeaderLen = 2 + sizeWidth size + (if mask then 4 else 0) := by
  rw [getHeaderLen, getMaskingKeyOffset_ofFields, getMasked_ofFields]
  rfl

end BasicHeader

/-! ## The extended header -/

/-- The bytes of a frame header behind the basic header: the size if it is extended, then the key if the frame is masked. -/
def extendedBytes (size : Nat) (mask : Bool) (key : MaskingKey) : Bytes :=
  beBytes (sizeWidth size) size ++ if mask then key.bytes else []

theorem length_extendedBytes (size : Nat) (mask : Bool) (key : MaskingKey) :
    (extendedBytes size mask key).length = sizeWidth size + (if mask then 4 else 0) := by
  cases mask <;> simp [extendedBytes]

theorem sizeWidth_le (size : Nat) : sizeWidth size ≤ 8 := by
  unfold sizeWidth
  split_ifs <;> omega

namespace ExtendedHeader

theorem payloadOffset_eq (size : Nat) : payloadOffset size = 8 - sizeWidth size := by
  unfold payloadOffset sizeWidth
  split_ifs <;> rfl

theorem drop_payloadOffset (size : Nat) :
    (beBytes 8 size).drop (payloadOffset size) = beBytes (sizeWidth size) size := by
  have hle := sizeWidth_le size
  rw [payloadOffset_eq]
  have h8 : 8 = (8 - sizeWidth size) + sizeWidth size := by omega
  conv_lhs => rw [show beBytes 8 size = beBytes ((8 - sizeWidth size) + sizeWidth size) size by
    rw [← h8]]
  exact drop_beBytes _ _ _

/-- Writing bytes at the start of an empty extended header. -/
theorem bytes_write_zero (bs : Bytes) (h : bs.length ≤ 12) :
    (zero.write 0 bs).bytes = bs ++ List.replicate (12 - bs.length) 0x00 := by
  change writeAt (List.replicate 12 0x00) 0 bs = _
  rw [writeAt_zero _ _ (by simpa using h), drop_replicate]

theorem take_ofSize (size : Nat) :
    (ofSize size).bytes.take (sizeWidth size) = beBytes (sizeWidth size) size := by
  have hle := sizeWidth_le size
  rw [ofSize, copyPayload]
  rw [drop_payloadOffset, bytes_write_zero _ (by simp; omega)]
  exact take_left' (by simp)

theorem take_ofSizeKey (size : Nat) (key : MaskingKey) :
    (ofSizeKey size key).bytes.take (sizeWidth size + 4) =
      beBytes (sizeWidth size) size ++ key.bytes := by
  have hle := sizeWidth_le size
  have hoff : 8 - payloadOffset size = sizeWidth size := by
    rw [payloadOffset_eq]
    omega
  rw [ofSizeKey, copyPayload]
  simp only
  rw [drop_payloadOffset, hoff]
  have hwrite : (zero.write 0 (beBytes (sizeWidth size) size)).write (sizeWidth size) key.bytes =
      zero.write 0 (beBytes (sizeWidth size) size ++ key.bytes) := by
    simp [write, writeAt_append]
  rw [hwrite, bytes_write_zero _ (by simp; omega)]
  exact take_left' (by simp)

end ExtendedHeader

/-- The header that is written to the wire. -/
theorem prepareHeader_ofFields (op : Opcode) (size : Nat) (fin mask : Bool) (key : MaskingKey) :
    let h := ofFields op size fin mask false false false
    prepareHeader h (if mask then ofSizeKey size key else ofSize size) = h.b0 :: h.b1 :: extendedBytes size mask key := by
  dsimp only
  unfold prepareHeader extendedBytes
  rw [getHeaderLen_ofFields]
  cases mask with
  | true =>
    have hlen : 2 + sizeWidth size + (if true then 4 else 0) - basicHeaderLength =
        sizeWidth size + 4 := by
      simp only [basicHeaderLength, if_true]
      omega
    rw [hlen]
    simp [take_ofSizeKey]
  | false =>
    have hlen : 2 + sizeWidth size + (if false then 4 else 0) - basicHeaderLength =
        sizeWidth size := by
      simp [basicHeaderLength]
    rw [hlen]
    simp [take_ofSize]

/-- The size is read back from the header bytes. -/
theorem getPayloadSize_extendedBytes (op : Opcode) {size : Nat} (fin mask : Bool) (key : MaskingKey)
    (hsize : size < 2 ^ 64) :
    getPayloadSize (ofFields op size fin mask false false false)
      (zero.write 0 (extendedBytes size mask key)) = size := by
  have hle := sizeWidth_le size
  have hbytes : (zero.write 0 (extendedBytes size mask key)).bytes.take (sizeWidth size) =
      beBytes (sizeWidth size) size := by
    rw [bytes_write_zero _ (by rw [length_extendedBytes]; split_ifs <;> omega), extendedBytes,
      append_assoc]
    exact take_left' (by simp)
  unfold getPayloadSize
  rw [getBasicSize_ofFields]
  rcases basicValue_cases size with ⟨h1, h2, -⟩ | ⟨h1, h2, h3, h4⟩ | ⟨h1, h2, h4⟩
  · rw [if_pos (by rw [h1]; exact h2), h1]
  · rw [h1, if_neg (by decide), if_pos rfl, getExtendedSize]
    rw [h4] at hbytes
    rw [hbytes, ofBe_beBytes (by omega)]
  · rw [h1, if_neg (by decide), if_neg (by decide), getJumboSize]
    rw [h4] at hbytes
    rw [hbytes, ofBe_beBytes (by omega)]

/-- The masking key is read back from the header bytes. -/
theorem getMaskingKey_extendedBytes (op : Opcode) (size : Nat) (fin : Bool) (key : MaskingKey) :
    getMaskingKey (ofFields op size fin true false false false)
      (zero.write 0 (extendedBytes size true key)) = key := by
  have hle := sizeWidth_le size
  unfold getMaskingKey
  rw [getMasked_ofFields, if_pos rfl, getMaskingKeyOffset_ofFields,
    bytes_write_zero _ (by rw [length_extendedBytes, if_pos rfl]; omega), extendedBytes, if_pos rfl,
    append_assoc, drop_left' (by simp), take_left' (by simp), MaskingKey.ofBytes_bytes]

/-- A header that was written passes the check of the extended header. -/
theorem validateIncomingExtendedHeader_extendedBytes (pl : Platform) (op : Opcode) {size : Nat} (fin mask : Bool)
    (key : MaskingKey) (hsize : size < pl.sizeLimit) :
    validateIncomingExtendedHeader pl (ofFields op size fin mask false false false)
      (zero.write 0 (extendedBytes size mask key)) = none := by
  have hlimit : pl.sizeLimit ≤ 2 ^ 64 := by
    unfold Platform.sizeLimit
    cases pl.wordSize <;> decide
  have h32 : ¬(pl.wordSize.bytes = 4 ∧ size >>> 32 ≠ 0) := by
    rintro ⟨h4, hne⟩
    unfold Platform.sizeLimit at hsize
    rw [h4] at hsize
    exact hne (by rw [Nat.shiftRight_eq_div_pow]; omega)
  have h16 : ¬(basicValue size = payloadSizeCode16bit ∧ size ≤ payloadSizeBasic) := by
    rintro ⟨h, hle⟩
    rcases basicValue_cases size with ⟨h1, h2, -⟩ | ⟨-, h2, -⟩ | ⟨-, h2, -⟩
    · exact (basicValue_ne h1 h2).1 h
    · exact absurd hle (Nat.not_le.mpr h2)
    · exact absurd hle (Nat.not_le.mpr (Nat.lt_trans (by decide) h2))
  have h64 : ¬(basicValue size = payloadSizeCode64bit ∧ size ≤ payloadSizeExtended) := by
    rintro ⟨h, hle⟩
    rcases basicValue_cases size with ⟨h1, h2, -⟩ | ⟨h1, -⟩ | ⟨-, h2, -⟩
    · exact (basicValue_ne h1 h2).2 h
    · rw [h] at h1
      exact absurd h1 (by decide)
    · exact absurd hle (Nat.not_le.mpr h2)
  unfold validateIncomingExtendedHeader
  rw [getPayloadSize_extendedBytes op fin mask key (by omega), getBasicSize_ofFields]
  rw [if_neg h16, if_neg h64, if_neg h32]

theorem getRsv_ofFields : (ofFields op size fin mask false false false).getRsv1 = false ∧
    (ofFields op size fin mask false false false).getRsv2 = false ∧ (ofFields op size fin mask false false false).getRsv3 = false :=
  ⟨(firstByte op fin).2.2 bhb0Rsv1 (by simp), (firstByte op fin).2.2 bhb0Rsv2 (by simp), (firstByte op fin).2.2 bhb0Rsv3 (by simp)⟩

/-- A header that was written passes the check of the basic header, if its opcode fits the state of the receiver. -/
theorem validateIncomingBasicHeader_ofFields {op : Opcode} {size : Nat} {fin : Bool} (server newMsg : Bool)
    (hcontrol : op.isControl = true → size ≤ 125 ∧ fin = true) (hres : op.reserved = false)
    (hdata : op.isControl = false → (newMsg = true ↔ op ≠ .continuation)) :
    validateIncomingBasicHeader (ofFields op size fin server false false false) server newMsg = none := by
  have hinvalid : op.invalid = false := by cases op <;> rfl
  have hsize : ¬(op.isControl && decide (payloadSizeBasic < (basicValue size).toNat)) = true := by
    intro hc
    rw [Bool.and_eq_true, decide_eq_true_eq] at hc
    obtain ⟨hle, -⟩ := hcontrol hc.1
    rcases basicValue_cases size with ⟨h1, -⟩ | ⟨-, h2, -⟩ | ⟨-, h2, -⟩
    · rw [h1] at hc
      exact absurd hc.2 (Nat.not_lt.mpr hle)
    · omega
    · omega
  have hfin : ¬(op.isControl && !fin) = true := by
    intro hc
    rw [Bool.and_eq_true] at hc
    rw [(hcontrol hc.1).2] at hc
    cases hc.2
  have hnew : ¬(newMsg && decide (op = .continuation)) = true := by
    intro hc
    rw [Bool.and_eq_true, decide_eq_true_eq] at hc
    obtain ⟨hn, rfl⟩ := hc
    exact (hdata rfl).mp hn rfl
  have hcont : ¬(!newMsg && !op.isControl && decide (op ≠ .continuation)) = true := by
    intro hc
    simp only [Bool.and_eq_true, Bool.not_eq_true', decide_eq_true_eq] at hc
    obtain ⟨⟨hn, hctl⟩, hne⟩ := hc
    rw [(hdata hctl).mpr hne] at hn
    cases hn
  unfold validateIncomingBasicHeader
  simp only [getOpcode_ofFields, getBasicSize_ofFields, getRsv_ofFields, getFin_ofFields,
    getMasked_ofFields, hinvalid, hres]
  rw [if_neg hsize, if_neg (by simp), if_neg (by simp), if_neg (by simp), if_neg (by simp), if_neg hfin, if_neg hnew,
    if_neg hcont]
  cases server <;> rfl

end Osp.Websocketpp
