import Osp.Lib.Bytes

/-!
# WebSocket frames

The frame headers of `frame.hpp`: opcodes, the two byte basic header, the extended header with its three length encodings and
its masking key, and the byte by byte masking of a payload.
-/

namespace Osp.Websocketpp

open Lib

/-! ## The machine -/

/-- The widths of `size_t` that the code distinguishes. -/
inductive WordSize
  | four
  | eight
deriving DecidableEq

/-- `sizeof(size_t)`. -/
def WordSize.bytes : WordSize → Nat
  | .four => 4
  | .eight => 8

/-- What the code asks of the machine it runs on: the width of `size_t` and `lib::net::is_little_endian()`. -/
structure Platform where
  wordSize : WordSize
  littleEndian : Bool

/-- The number of values a `size_t` has. -/
def Platform.sizeLimit (pl : Platform) : Nat := 2 ^ (8 * pl.wordSize.bytes)

/-! ## Opcodes -/

/-- `frame::opcode::value`. -/
inductive Opcode
  | continuation
  | text
  | binary
  | rsv3
  | rsv4
  | rsv5
  | rsv6
  | rsv7
  | close
  | ping
  | pong
  | controlRsvb
  | controlRsvc
  | controlRsvd
  | controlRsve
  | controlRsvf
deriving DecidableEq

namespace Opcode

/-- The number an opcode stands for. -/
def value : Opcode → UInt8
  | continuation => 0x0
  | text => 0x1
  | binary => 0x2
  | rsv3 => 0x3
  | rsv4 => 0x4
  | rsv5 => 0x5
  | rsv6 => 0x6
  | rsv7 => 0x7
  | close => 0x8
  | ping => 0x9
  | pong => 0xA
  | controlRsvb => 0xB
  | controlRsvc => 0xC
  | controlRsvd => 0xD
  | controlRsve => 0xE
  | controlRsvf => 0xF

/-- The opcode a four bit number stands for. -/
def ofValue (v : UInt8) : Opcode :=
  match v.toNat with
  | 0 => continuation
  | 1 => text
  | 2 => binary
  | 3 => rsv3
  | 4 => rsv4
  | 5 => rsv5
  | 6 => rsv6
  | 7 => rsv7
  | 8 => close
  | 9 => ping
  | 10 => pong
  | 11 => controlRsvb
  | 12 => controlRsvc
  | 13 => controlRsvd
  | 14 => controlRsve
  | _ => controlRsvf

/-- `opcode::reserved`. -/
def reserved (v : Opcode) : Bool :=
  (rsv3.value ≤ v.value && v.value ≤ rsv7.value) || (controlRsvb.value ≤ v.value && v.value ≤ controlRsvf.value)

/-- `opcode::invalid`: the opcode does not fit into four bits. -/
def invalid (v : Opcode) : Bool := 0xF < v.value

/-- `opcode::is_control`. -/
def isControl (v : Opcode) : Bool := 0x8 ≤ v.value

end Opcode

/-! ## Limits and masks -/

/-- `BASIC_HEADER_LENGTH`. -/
def basicHeaderLength : Nat := 2

/-- `MAX_EXTENDED_HEADER_LENGTH`. -/
def maxExtendedHeaderLength : Nat := 12

/-- `limits::payload_size_basic`. -/
def payloadSizeBasic : Nat := 125

/-- `limits::payload_size_extended`. -/
def payloadSizeExtended : Nat := 0xFFFF

def bhb0Opcode : UInt8 := 0x0F
def bhb0Rsv3 : UInt8 := 0x10
def bhb0Rsv2 : UInt8 := 0x20
def bhb0Rsv1 : UInt8 := 0x40
def bhb0Fin : UInt8 := 0x80
def bhb1Payload : UInt8 := 0x7F
def bhb1Mask : UInt8 := 0x80

/-- `payload_size_code_16bit`. -/
def payloadSizeCode16bit : UInt8 := 0x7E

/-- `payload_size_code_64bit`. -/
def payloadSizeCode64bit : UInt8 := 0x7F

/-! ## The basic header -/

/-- `basic_header`: the two bytes every frame starts with. -/
structure BasicHeader where
  b0 : UInt8
  b1 : UInt8

namespace BasicHeader

variable (h : BasicHeader)

/-- The default constructor of `basic_header`. -/
def zero : BasicHeader := ⟨0x00, 0x00⟩

/-- The value of the seven bit length field for a payload size. -/
def basicValue (size : Nat) : UInt8 :=
  if size ≤ payloadSizeBasic then UInt8.ofNat size
  else if size ≤ payloadSizeExtended then payloadSizeCode16bit
  else payloadSizeCode64bit

/-- The constructor of `basic_header` from the fields of the header. -/
def ofFields (op : Opcode) (size : Nat) (fin mask : Bool) (rsv1 rsv2 rsv3 : Bool) : BasicHeader :=
  { b0 := 0x00 ||| (if fin then bhb0Fin else 0) ||| (if rsv1 then bhb0Rsv1 else 0) ||| (if rsv2 then bhb0Rsv2 else 0) |||
      (if rsv3 then bhb0Rsv3 else 0) ||| (op.value &&& bhb0Opcode)
    b1 := 0x00 ||| (if mask then bhb1Mask else 0) ||| basicValue size }

/-- `get_fin`. -/
def getFin : Bool := h.b0 &&& bhb0Fin == bhb0Fin

/-- `get_rsv1`. -/
def getRsv1 : Bool := h.b0 &&& bhb0Rsv1 == bhb0Rsv1

/-- `get_rsv2`. -/
def getRsv2 : Bool := h.b0 &&& bhb0Rsv2 == bhb0Rsv2

/-- `get_rsv3`. -/
def getRsv3 : Bool := h.b0 &&& bhb0Rsv3 == bhb0Rsv3

/-- `get_opcode`. -/
def getOpcode : Opcode := Opcode.ofValue (h.b0 &&& bhb0Opcode)

/-- `get_masked`. -/
def getMasked : Bool := h.b1 &&& bhb1Mask == bhb1Mask

/-- `get_basic_size`. -/
def getBasicSize : UInt8 := h.b1 &&& bhb1Payload

/-- `get_masking_key_offset`: the space used for the extended length field. -/
def getMaskingKeyOffset : Nat :=
  if h.getBasicSize = payloadSizeCode16bit then 2
  else if h.getBasicSize = payloadSizeCode64bit then 8
  else 0

/-- `get_header_len`. -/
def getHeaderLen : Nat :=
  basicHeaderLength + h.getMaskingKeyOffset + (if h.getMasked then 4 else 0)

end BasicHeader

/-! ## Masking keys -/

/-- `masking_key_type`, the union of a `uint32_t` and its four bytes, by the bytes as they lie in memory. -/
structure MaskingKey where
  c0 : UInt8
  c1 : UInt8
  c2 : UInt8
  c3 : UInt8

namespace MaskingKey

/-- The array member `c` of the union. -/
def bytes (key : MaskingKey) : Bytes := [key.c0, key.c1, key.c2, key.c3]

/-- The element `c[i]` of the union. -/
def c (key : MaskingKey) (i : Nat) : UInt8 := key.bytes.getD i 0

/-- The union with its array member set. -/
def ofBytes (bs : Bytes) : MaskingKey := ⟨bs.getD 0 0, bs.getD 1 0, bs.getD 2 0, bs.getD 3 0⟩

/-- The integer member `i` of the union. -/
def i (pl : Platform) (key : MaskingKey) : Nat :=
  if pl.littleEndian then ofLe key.bytes else ofBe key.bytes

/-- The union with its integer member set. -/
def ofInt (pl : Platform) (n : Nat) : MaskingKey :=
  ofBytes (if pl.littleEndian then leBytes 4 n else beBytes 4 n)

end MaskingKey

/-! ## The extended header -/

/-- `extended_header`: the buffer for the part of a header whose length varies. -/
structure ExtendedHeader where
  bytes : Bytes
  length_bytes : bytes.length = maxExtendedHeaderLength

namespace ExtendedHeader

/-- The default constructor of `extended_header`. -/
def zero : ExtendedHeader := ⟨List.replicate maxExtendedHeaderLength 0x00, by simp⟩

/-- `std::copy` of bytes into the buffer at an offset. -/
def write (e : ExtendedHeader) (off : Nat) (bs : Bytes) : ExtendedHeader :=
  ⟨writeAt e.bytes off bs, by simp [e.length_bytes]⟩

/-- The offset into the eight byte big-endian size at which `copy_payload` starts to copy. -/
def payloadOffset (payloadSize : Nat) : Nat :=
  if payloadSize ≤ payloadSizeBasic then 8
  else if payloadSize ≤ payloadSizeExtended then 6
  else 0

/-- `copy_payload`, with the number of bytes it wrote. -/
def copyPayload (e : ExtendedHeader) (payloadSize : Nat) : ExtendedHeader × Nat :=
  (e.write 0 ((beBytes 8 payloadSize).drop (payloadOffset payloadSize)), 8 - payloadOffset payloadSize)

/-- The constructor of `extended_header` from a payload size. -/
def ofSize (payloadSize : Nat) : ExtendedHeader := (zero.copyPayload payloadSize).1

/-- The constructor of `extended_header` from a payload size and a masking key. -/
def ofSizeKey (payloadSize : Nat) (key : MaskingKey) : ExtendedHeader :=
  let (e, offset) := zero.copyPayload payloadSize
  e.write offset key.bytes

/-- `get_extended_size`. -/
def getExtendedSize (e : ExtendedHeader) : Nat := ofBe (e.bytes.take 2)

/-- `get_jumbo_size`. -/
def getJumboSize (e : ExtendedHeader) : Nat := ofBe (e.bytes.take 8)

end ExtendedHeader

/-- `get_payload_size`. -/
def getPayloadSize (h : BasicHeader) (e : ExtendedHeader) : Nat :=
  if h.getBasicSize.toNat ≤ payloadSizeBasic then h.getBasicSize.toNat
  else if h.getBasicSize = payloadSizeCode16bit then e.getExtendedSize
  else e.getJumboSize

/-- `get_masking_key`. -/
def getMaskingKey (h : BasicHeader) (e : ExtendedHeader) : MaskingKey :=
  if h.getMasked then MaskingKey.ofBytes ((e.bytes.drop h.getMaskingKeyOffset).take 4) else ⟨0, 0, 0, 0⟩

/-- `prepare_header`: the bytes of a full frame header. -/
def prepareHeader (h : BasicHeader) (e : ExtendedHeader) : Bytes :=
  h.b0 :: h.b1 :: e.bytes.take (h.getHeaderLen - basicHeaderLength)

/-! ## Masking -/

/-- `prepare_masking_key`: the key as a value of the size of a machine word. -/
def prepareMaskingKey (pl : Platform) (key : MaskingKey) : Nat :=
  match pl.wordSize with
  | .eight => (key.i pl <<< 32) % pl.sizeLimit ||| key.i pl
  | .four => key.i pl

/-- `circshift_prepared_key`. -/
def circshiftPreparedKey (pl : Platform) (preparedKey offset : Nat) : Nat :=
  if offset = 0 then preparedKey
  else if pl.littleEndian then
    (preparedKey >>> (offset * 8)) ||| (preparedKey <<< ((pl.wordSize.bytes - offset) * 8)) % pl.sizeLimit
  else
    (preparedKey <<< (offset * 8)) % pl.sizeLimit ||| preparedKey >>> ((pl.wordSize.bytes - offset) * 8)

/-- The loop of `byte_mask`, at an index into the key. -/
def byteMaskLoop (key : MaskingKey) : Nat → Bytes → Bytes
  | _, [] => []
  | keyIndex, b :: bs => (b ^^^ key.c keyIndex) :: byteMaskLoop key ((keyIndex + 1) % 4) bs

/-- `byte_mask`: byte by byte masking from an offset into the key on. -/
def byteMask (input : Bytes) (key : MaskingKey) (keyOffset : Nat) : Bytes :=
  byteMaskLoop key (keyOffset % 4) input

/-- The loop of `byte_mask_circ`, at an index into the data. -/
def byteMaskCircLoop (key : MaskingKey) : Nat → Bytes → Bytes
  | _, [] => []
  | i, b :: bs => (b ^^^ key.c (i % 4)) :: byteMaskCircLoop key (i + 1) bs

/-- `byte_mask_circ`: masks the data and returns it with the key shifted to where the data ended. -/
def byteMaskCirc (pl : Platform) (data : Bytes) (preparedKey : Nat) : Bytes × Nat :=
  (byteMaskCircLoop (MaskingKey.ofInt pl (preparedKey % 2 ^ 32)) 0 data,
    circshiftPreparedKey pl preparedKey (data.length % 4))

variable (pl : Platform)

/-- The number a word stands for, by its bytes as they lie in memory. -/
def Platform.word (bs : Bytes) : Nat := if pl.littleEndian then ofLe bs else ofBe bs

/-- The bytes of a word as they lie in memory. -/
def Platform.wordBytes (n : Nat) : Bytes := if pl.littleEndian then leBytes pl.wordSize.bytes n else beBytes pl.wordSize.bytes n

/-- The loop over the first `n` words of a buffer. -/
def maskWords (preparedKey : Nat) : Nat → Bytes → Bytes
  | 0, _ => []
  | n + 1, input =>
    pl.wordBytes (pl.word (input.take pl.wordSize.bytes) ^^^ preparedKey) ++
      maskWords preparedKey n (input.drop pl.wordSize.bytes)

/-- `word_mask_exact` -/
def wordMaskExact (input : Bytes) (key : MaskingKey) : Bytes :=
  let n := input.length / pl.wordSize.bytes
  maskWords pl (prepareMaskingKey pl key) n input ++
    byteMaskCircLoop key (n * pl.wordSize.bytes) (input.drop (n * pl.wordSize.bytes))

/-- `word_mask_circ`: the masked bytes, and the key for what follows them. -/
def wordMaskCirc (input : Bytes) (preparedKey : Nat) : Bytes × Nat :=
  let n := input.length / pl.wordSize.bytes
  let l := input.length - n * pl.wordSize.bytes
  (maskWords pl preparedKey n input ++
      List.zipWith (· ^^^ ·) (input.drop (n * pl.wordSize.bytes)) ((pl.wordBytes preparedKey).take l),
    circshiftPreparedKey pl preparedKey l)

end Osp.Websocketpp
