import Osp.Lib.Bytes

/-!
# The streaming UTF-8 validator

The table driven state machine of `utf8_validator.hpp`.
-/

namespace Osp.Websocketpp

/-- `utf8_accept`. -/
def utf8Accept : Nat := 0

/-- `utf8_reject`. -/
def utf8Reject : Nat := 1

/-- `utf8d`: the byte classes, then for each state the next state by byte class. -/
def utf8d : List Nat := [
  0,0,0,0,0,0,0,0,0,0,0,0,0,0,0,0,0,0,0,0,0,0,0,0,0,0,0,0,0,0,0,0, -- 00..1f
  0,0,0,0,0,0,0,0,0,0,0,0,0,0,0,0,0,0,0,0,0,0,0,0,0,0,0,0,0,0,0,0, -- 20..3f
  0,0,0,0,0,0,0,0,0,0,0,0,0,0,0,0,0,0,0,0,0,0,0,0,0,0,0,0,0,0,0,0, -- 40..5f
  0,0,0,0,0,0,0,0,0,0,0,0,0,0,0,0,0,0,0,0,0,0,0,0,0,0,0,0,0,0,0,0, -- 60..7f
  1,1,1,1,1,1,1,1,1,1,1,1,1,1,1,1,9,9,9,9,9,9,9,9,9,9,9,9,9,9,9,9, -- 80..9f
  7,7,7,7,7,7,7,7,7,7,7,7,7,7,7,7,7,7,7,7,7,7,7,7,7,7,7,7,7,7,7,7, -- a0..bf
  8,8,2,2,2,2,2,2,2,2,2,2,2,2,2,2,2,2,2,2,2,2,2,2,2,2,2,2,2,2,2,2, -- c0..df
  0xa,0x3,0x3,0x3,0x3,0x3,0x3,0x3,0x3,0x3,0x3,0x3,0x3,0x4,0x3,0x3, -- e0..ef
  0xb,0x6,0x6,0x6,0x5,0x8,0x8,0x8,0x8,0x8,0x8,0x8,0x8,0x8,0x8,0x8, -- f0..ff
  0x0,0x1,0x2,0x3,0x5,0x8,0x7,0x1,0x1,0x1,0x4,0x6,0x1,0x1,0x1,0x1, -- s0..s0
  1,1,1,1,1,1,1,1,1,1,1,1,1,1,1,1,1,0,1,1,1,1,1,0,1,0,1,1,1,1,1,1, -- s1..s2
  1,2,1,1,1,1,1,2,1,2,1,1,1,1,1,1,1,1,1,1,1,1,1,2,1,1,1,1,1,1,1,1, -- s3..s4
  1,2,1,1,1,1,1,1,1,2,1,1,1,1,1,1,1,1,1,1,1,1,1,3,1,3,1,1,1,1,1,1, -- s5..s6
  1,3,1,1,1,1,1,3,1,3,1,1,1,1,1,1,1,3,1,1,1,1,1,1,1,1,1,1,1,1,1,1] -- s7..s8

/-- The next decoder state: the table read at the class of the byte in the row of the state. -/
def utf8Next (state : Nat) (byte : UInt8) : Nat :=
  utf8d.getD (256 + state * 16 + utf8d.getD byte.toNat 0) 0

/-- `validator`: the decoder state and the code point decoded so far. -/
structure Validator where
  state : Nat
  codepoint : UInt32

namespace Validator

/-- The constructor of `validator`. -/
def init : Validator := ⟨utf8Accept, 0⟩

/-- `utf8_validator::decode`, and `validator::consume` but for the test of the new state. -/
def step (v : Validator) (byte : UInt8) : Validator :=
  let type := utf8d.getD byte.toNat 0
  { codepoint :=
      if v.state ≠ utf8Accept then (byte.toUInt32 &&& (0x3f : UInt32)) ||| (v.codepoint <<< (6 : UInt32))
      else UInt32.ofNat (0xff >>> type) &&& byte.toUInt32
    state := utf8Next v.state byte }

/-- `validator::decode`: runs over the bytes and stops at the first that is rejected. -/
def decode (v : Validator) : Bytes → Validator × Bool
  | [] => (v, true)
  | b :: bs => if (v.step b).state = utf8Reject then (v.step b, false) else decode (v.step b) bs

/-- Calls of `decode`, one for each chunk: the validator after them, and what they return. -/
def decodeChunks (v : Validator) : List Bytes → Validator × List Bool
  | [] => (v, [])
  | chunk :: chunks =>
    let (v, ok) := v.decode chunk
    let (v, oks) := v.decodeChunks chunks
    (v, ok :: oks)

/-- `validator::complete`. -/
def complete (v : Validator) : Bool := v.state = utf8Accept

end Validator

/-- `utf8_validator::validate`. -/
def validate (s : Bytes) : Bool :=
  let (v, ok) := Validator.init.decode s
  if ok then v.complete else false

end Osp.Websocketpp
