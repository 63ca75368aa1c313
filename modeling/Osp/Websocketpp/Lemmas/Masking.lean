import Osp.Websocketpp.Frame

/-!
# Masking

The circular masking of a payload in pieces is the masking of the payload as a whole: a prepared key is always the word made of
a masking key, and shifting it circularly rotates that key.
-/

namespace Osp.Websocketpp

open Lib Platform List

variable (pl : Platform) (key : MaskingKey)

namespace MaskingKey

/-- The key with its first byte moved to the end. -/
def rotateOne (key : MaskingKey) : MaskingKey := ⟨key.c1, key.c2, key.c3, key.c0⟩

/-- The key with its first `n` bytes moved to the end, one after the other. -/
def rotate (key : MaskingKey) (n : Nat) : MaskingKey := rotateOne^[n] key

theorem rotate_add (m n : Nat) : key.rotate (m + n) = (key.rotate m).rotate n := by
  simp only [rotate, Nat.add_comm m n, Function.iterate_add_apply]

theorem rotate_four : key.rotate 4 = key := rfl

theorem rotate_mod (n : Nat) : key.rotate (n % 4) = key.rotate n := by
  have h : ∀ k, key.rotate (4 * k) = key := by
    intro k
    induction k with
    | zero => rfl
    | succ k ih => rw [Nat.mul_succ, rotate_add, ih, rotate_four]
  conv_rhs => rw [← Nat.div_add_mod n 4, rotate_add, h]

theorem c_rotateOne (i : Nat) : key.rotateOne.c (i % 4) = key.c ((i + 1) % 4) := by
  have h : i % 4 = 0 ∨ i % 4 = 1 ∨ i % 4 = 2 ∨ i % 4 = 3 := by omega
  rcases h with h | h | h | h <;> simp [c, bytes, rotateOne, Nat.add_mod, h]

@[simp] theorem ofBytes_bytes : ofBytes key.bytes = key := rfl

@[simp] theorem length_bytes : key.bytes.length = 4 := rfl

/-- Setting the integer member of the union to the number its bytes stand for gives the bytes back. -/
theorem ofInt_i : ofInt pl (key.i pl) = key := by
  unfold ofInt i
  cases pl.littleEndian with
  | true =>
    have h : leBytes 4 (ofLe key.bytes) = key.bytes := leBytes_ofLe key.bytes
    simp [h]
  | false =>
    have h : beBytes 4 (ofBe key.bytes) = key.bytes := by
      have := leBytes_ofLe key.bytes.reverse
      simp only [length_reverse, length_bytes] at this
      rw [beBytes, ofBe, this, reverse_reverse]
    simp [h]

theorem i_lt : key.i pl < 2 ^ 32 := by
  have hle := ofLe_lt key.bytes
  have hbe := ofLe_lt key.bytes.reverse
  rw [length_reverse] at hbe
  rw [length_bytes] at hle hbe
  unfold i ofBe
  split <;> omega

end MaskingKey

/-! ## Prepared keys -/

/-- The bytes of a prepared key. -/
def Platform.keyBytes (pl : Platform) (key : MaskingKey) : Bytes :=
  match pl.wordSize with
  | .four => key.bytes
  | .eight => key.bytes ++ key.bytes

/-- A prepared key is the word made of the masking key, once or twice. -/
theorem prepareMaskingKey_eq :
    prepareMaskingKey pl key = pl.word (pl.keyBytes key) := by
  have hlt := key.i_lt pl
  unfold prepareMaskingKey keyBytes sizeLimit
  cases hw : pl.wordSize with
  | four => rfl
  | eight =>
    have hmod : key.i pl <<< 32 % 2 ^ (8 * WordSize.eight.bytes) = key.i pl <<< 32 := by
      simp only [Nat.shiftLeft_eq, WordSize.bytes]
      omega
    have hor : key.i pl <<< 32 ||| key.i pl = key.i pl + 256 ^ 4 * key.i pl := by
      rw [← Nat.shiftLeft_add_eq_or_of_lt hlt, Nat.shiftLeft_eq]
      omega
    simp only [hmod, hor]
    unfold MaskingKey.i word
    split
    · exact (ofLe_append key.bytes key.bytes).symm
    · rw [ofBe, ofBe, reverse_append, ofLe_append]
      rfl

/-- Shifting a word circularly moves its first bytes to the end. -/
theorem circshiftPreparedKey_word (a b : Bytes) (ha : a ≠ [])
    (h : a.length + b.length = pl.wordSize.bytes) :
    circshiftPreparedKey pl (pl.word (a ++ b)) a.length = pl.word (b ++ a) := by
  have hne : a.length ≠ 0 := by simpa using ha
  have hb : pl.wordSize.bytes - a.length = b.length := by omega
  unfold circshiftPreparedKey word sizeLimit
  rw [if_neg hne, hb, ← h, Nat.mul_comm a.length 8, Nat.mul_comm b.length 8]
  split
  · exact ofLe_rotate a b
  · exact ofBe_rotate a b

theorem length_keyBytes : (pl.keyBytes key).length = pl.wordSize.bytes := by
  unfold keyBytes
  cases pl.wordSize <;> rfl

theorem keyBytes_rotate {l : Nat} (hl : l < pl.wordSize.bytes) :
    (pl.keyBytes key).drop l ++ (pl.keyBytes key).take l = pl.keyBytes (key.rotate l) := by
  unfold keyBytes
  cases hw : pl.wordSize with
  | four =>
    replace hl : l < 4 := by rwa [hw] at hl
    interval_cases l <;> rfl
  | eight =>
    replace hl : l < 8 := by rwa [hw] at hl
    interval_cases l <;> rfl

/-- Shifting a prepared key circularly, by less than a word, prepares the rotated key. -/
theorem circshiftPreparedKey_rotate {l : Nat} (hl : l < pl.wordSize.bytes) :
    circshiftPreparedKey pl (prepareMaskingKey pl key) l = prepareMaskingKey pl (key.rotate l) := by
  rcases Nat.eq_zero_or_pos l with rfl | hpos
  · rfl
  · have hlen := length_keyBytes pl key
    have htake : ((pl.keyBytes key).take l).length = l := by rw [length_take, hlen, Nat.min_eq_left hl.le]
    have h := circshiftPreparedKey_word pl ((pl.keyBytes key).take l) ((pl.keyBytes key).drop l)
      (ne_nil_of_length_pos (by omega)) (by rw [htake, length_drop, hlen]; omega)
    rwa [take_append_drop, htake, keyBytes_rotate pl key hl, ← prepareMaskingKey_eq, ← prepareMaskingKey_eq] at h

theorem circshiftPreparedKey_prepare (n : Nat) :
    circshiftPreparedKey pl (prepareMaskingKey pl key) (n % 4) = prepareMaskingKey pl (key.rotate n) := by
  have hfour : 4 ≤ pl.wordSize.bytes := by cases pl.wordSize <;> decide
  rw [← key.rotate_mod n, circshiftPreparedKey_rotate pl key (by omega)]

/-- The low four bytes of a prepared key are the masking key. -/
theorem ofInt_prepareMaskingKey :
    MaskingKey.ofInt pl (prepareMaskingKey pl key % 2 ^ 32) = key := by
  have hlt := key.i_lt pl
  have hmod : prepareMaskingKey pl key % 2 ^ 32 = key.i pl := by
    unfold prepareMaskingKey sizeLimit
    cases pl.wordSize with
    | four => exact Nat.mod_eq_of_lt hlt
    | eight =>
      have hmod : key.i pl <<< 32 % 2 ^ (8 * WordSize.eight.bytes) = key.i pl <<< 32 := by
        simp only [Nat.shiftLeft_eq, WordSize.bytes]
        omega
      rw [hmod, ← Nat.shiftLeft_add_eq_or_of_lt hlt, Nat.shiftLeft_eq, Nat.mul_add_mod_self_right, Nat.mod_eq_of_lt hlt]
  rw [hmod, MaskingKey.ofInt_i]

/-! ## Masking in pieces -/

@[simp] theorem length_byteMaskCircLoop (i : Nat) (bs : Bytes) :
    (byteMaskCircLoop key i bs).length = bs.length := by
  induction bs generalizing i with
  | nil => rfl
  | cons b bs ih => simp [byteMaskCircLoop, ih]

theorem byteMaskCircLoop_append (i : Nat) (a b : Bytes) :
    byteMaskCircLoop key i (a ++ b) = byteMaskCircLoop key i a ++ byteMaskCircLoop key (i + a.length) b := by
  induction a generalizing i with
  | nil => rfl
  | cons x a ih => simp [byteMaskCircLoop, ih, Nat.add_comm, Nat.add_left_comm]

/-- Masking from a later index on is masking with the rotated key. -/
theorem byteMaskCircLoop_rotate (i n : Nat) (bs : Bytes) :
    byteMaskCircLoop (key.rotate n) i bs = byteMaskCircLoop key (i + n) bs := by
  have hone : ∀ (key : MaskingKey) (i : Nat), byteMaskCircLoop key.rotateOne i bs = byteMaskCircLoop key (i + 1) bs := by
    induction bs with
    | nil => intros; rfl
    | cons b bs ih =>
      intro key i
      simp only [byteMaskCircLoop, MaskingKey.c_rotateOne, ih]
  induction n generalizing i with
  | zero => rfl
  | succ n ih =>
    rw [show key.rotate (n + 1) = (key.rotate n).rotateOne from Function.iterate_succ_apply' _ _ _, hone, ih]
    congr 1
    omega

/-- Masking twice with one key gives the data back. -/
theorem byteMaskCircLoop_involutive (i : Nat) (bs : Bytes) :
    byteMaskCircLoop key i (byteMaskCircLoop key i bs) = bs := by
  induction bs generalizing i with
  | nil => rfl
  | cons b bs ih =>
    simp only [byteMaskCircLoop, ih]
    rw [UInt8.xor_assoc, UInt8.xor_self, UInt8.xor_zero]

/-- `byte_mask` from the start of the key masks as `byte_mask_circ` does. -/
theorem byteMask_eq (bs : Bytes) : byteMask bs key 0 = byteMaskCircLoop key 0 bs := by
  have h : ∀ i, byteMaskLoop key (i % 4) bs = byteMaskCircLoop key i bs := by
    induction bs with
    | nil => intro i; rfl
    | cons b bs ih =>
      intro i
      rw [byteMaskLoop, byteMaskCircLoop, ← ih (i + 1), Nat.mod_add_mod]
  exact h 0

/-- What `byte_mask_circ` does with a prepared key. -/
theorem byteMaskCirc_prepare (data : Bytes) (key : MaskingKey) :
    byteMaskCirc pl data (prepareMaskingKey pl key) =
      (byteMaskCircLoop key 0 data, prepareMaskingKey pl (key.rotate data.length)) := by
  rw [byteMaskCirc, ofInt_prepareMaskingKey, circshiftPreparedKey_prepare]

end Osp.Websocketpp
