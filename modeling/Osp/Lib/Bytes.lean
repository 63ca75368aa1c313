import Mathlib.Data.Nat.Bitwise
import Mathlib.Tactic

/-!
# Byte strings as numbers

Numbers read from and written to byte strings in either byte order, writing into a buffer at an offset, and the circular shift
of a machine word seen as the rotation of its bytes.
-/

namespace Osp

open List

/-- A byte string. -/
abbrev Bytes := List UInt8

namespace Lib

/-- A test that all numbers below 256 pass is passed by all bytes. -/
theorem forall_byte {p : UInt8 → Bool} (c : UInt8) (h : ∀ n : Fin 256, p (UInt8.ofFin n) = true := by decide +kernel) : p c = true := h c.toFin

/-- A test that a byte string passes as a whole is passed by all its bytes. -/
theorem forall_of_all {l : Bytes} {p : UInt8 → Prop} [DecidablePred p] (h : (l.all fun c => p c) = true := by decide) :
    ∀ c ∈ l, p c := by
  simpa using h

/-! ## Digits -/

/-- The number whose base 256 digits are the bytes, least significant first. -/
def ofLe : Bytes → Nat
  | [] => 0
  | b :: bs => b.toNat + 256 * ofLe bs

/-- The `k` lowest base 256 digits of a number, least significant first. -/
def leBytes : Nat → Nat → Bytes
  | 0, _ => []
  | k + 1, n => UInt8.ofNat n :: leBytes k (n / 256)

/-- The number whose base 256 digits are the bytes, most significant first. -/
def ofBe (bs : Bytes) : Nat := ofLe bs.reverse

/-- The `k` lowest base 256 digits of a number, most significant first. -/
def beBytes (k n : Nat) : Bytes := (leBytes k n).reverse

@[simp] theorem length_leBytes (k n : Nat) : (leBytes k n).length = k := by
  induction k generalizing n with
  | zero => rfl
  | succ k ih => simp [leBytes, ih]

@[simp] theorem length_beBytes (k n : Nat) : (beBytes k n).length = k := by
  simp [beBytes]

theorem ofLe_lt (bs : Bytes) : ofLe bs < 256 ^ bs.length := by
  induction bs with
  | nil => simp [ofLe]
  | cons b bs ih =>
    have hb := b.toNat_lt
    simp only [ofLe, length_cons, Nat.pow_succ]
    omega

theorem ofLe_append (a b : Bytes) : ofLe (a ++ b) = ofLe a + 256 ^ a.length * ofLe b := by
  induction a with
  | nil => simp [ofLe]
  | cons x a ih =>
    simp only [cons_append, ofLe, ih, length_cons, Nat.pow_succ]
    ring

/-- Reading back the digits of a number gives the number, up to the width written. -/
theorem ofLe_leBytes (k n : Nat) : ofLe (leBytes k n) = n % 256 ^ k := by
  induction k generalizing n with
  | zero => simp [leBytes, ofLe, Nat.mod_one]
  | succ k ih =>
    have h : n % 256 ^ (k + 1) = n % 256 + 256 * (n / 256 % 256 ^ k) := by
      rw [Nat.pow_succ', Nat.mod_mul]
    simp [leBytes, ofLe, ih, h]

theorem leBytes_ofLe (bs : Bytes) : leBytes bs.length (ofLe bs) = bs := by
  induction bs with
  | nil => rfl
  | cons b bs ih =>
    have hb := b.toNat_lt
    have hdiv : (b.toNat + 256 * ofLe bs) / 256 = ofLe bs := by omega
    simp only [length_cons, leBytes, ofLe, hdiv, ih, List.cons.injEq, and_true]
    refine UInt8.toNat.inj ?_
    simp only [UInt8.toNat_ofNat']
    omega

theorem take_leBytes (j k n : Nat) : (leBytes (j + k) n).take j = leBytes j n := by
  induction j generalizing n with
  | zero => simp [leBytes]
  | succ j ih =>
    rw [Nat.succ_add]
    simp [leBytes, ih]

/-- Dropping the leading bytes of a wide big-endian number leaves the narrow one. -/
theorem drop_beBytes (j k n : Nat) : (beBytes (j + k) n).drop j = beBytes k n := by
  have h : (leBytes (j + k) n).length - j = k := by simp
  rw [beBytes, drop_reverse, h, Nat.add_comm, take_leBytes, beBytes]

theorem ofBe_beBytes {k n : Nat} (h : n < 256 ^ k) : ofBe (beBytes k n) = n := by
  rw [ofBe, beBytes, reverse_reverse, ofLe_leBytes, Nat.mod_eq_of_lt h]

/-! ## Circular shifts -/

theorem two_pow_eight_mul (n : Nat) : 2 ^ (8 * n) = 256 ^ n := by
  rw [Nat.pow_mul]

/-- Shifting a little-endian word right and bringing the bytes that fall out back in on the left rotates its bytes. -/
theorem ofLe_rotate (a b : Bytes) :
    ofLe (a ++ b) >>> (8 * a.length) ||| ofLe (a ++ b) <<< (8 * b.length) % 2 ^ (8 * (a.length + b.length)) =
      ofLe (b ++ a) := by
  have ha := ofLe_lt a
  have hb := ofLe_lt b
  have hright : ofLe (a ++ b) >>> (8 * a.length) = ofLe b := by
    rw [Nat.shiftRight_eq_div_pow, two_pow_eight_mul, ofLe_append, Nat.add_mul_div_left _ _ (by positivity),
      Nat.div_eq_of_lt ha, Nat.zero_add]
  have hleft : ofLe (a ++ b) <<< (8 * b.length) % 2 ^ (8 * (a.length + b.length)) = ofLe a <<< (8 * b.length) := by
    rw [Nat.shiftLeft_eq, Nat.shiftLeft_eq, Nat.mul_add, Nat.pow_add, Nat.mul_mod_mul_right, ofLe_append,
      two_pow_eight_mul, Nat.add_mul_mod_self_left, Nat.mod_eq_of_lt ha]
  rw [hright, hleft, Nat.lor_comm, ← Nat.shiftLeft_add_eq_or_of_lt (by rwa [two_pow_eight_mul]), Nat.shiftLeft_eq,
    two_pow_eight_mul, ofLe_append]
  ring

/-- Shifting a big-endian word left and bringing the bytes that fall out back in on the right rotates its bytes. -/
theorem ofBe_rotate (a b : Bytes) :
    ofBe (a ++ b) <<< (8 * a.length) % 2 ^ (8 * (a.length + b.length)) ||| ofBe (a ++ b) >>> (8 * b.length) =
      ofBe (b ++ a) := by
  have h := ofLe_rotate b.reverse a.reverse
  simp only [length_reverse] at h
  rw [ofBe, reverse_append, Nat.lor_comm, Nat.add_comm a.length, h, ofBe, reverse_append]

/-! ## Buffers -/

/-- Overwrites a buffer from an offset on, byte by byte. A byte that would fall behind the buffer is not written. -/
def writeAt (buf : Bytes) (off : Nat) : Bytes → Bytes
  | [] => buf
  | b :: bs => writeAt (buf.set off b) (off + 1) bs

@[simp] theorem length_writeAt (buf : Bytes) (off : Nat) (bs : Bytes) : (writeAt buf off bs).length = buf.length := by
  induction bs generalizing buf off with
  | nil => rfl
  | cons b bs ih => simp [writeAt, ih]

/-- Writing two strings one behind the other is writing their concatenation. -/
theorem writeAt_append (buf : Bytes) (off : Nat) (a b : Bytes) :
    writeAt buf off (a ++ b) = writeAt (writeAt buf off a) (off + a.length) b := by
  induction a generalizing buf off with
  | nil => simp [writeAt]
  | cons x a ih => simp [writeAt, ih, Nat.add_comm, Nat.add_left_comm]

theorem writeAt_eq (p q bs : Bytes) (h : bs.length ≤ q.length) :
    writeAt (p ++ q) p.length bs = p ++ bs ++ q.drop bs.length := by
  induction bs generalizing p q with
  | nil => simp [writeAt]
  | cons b bs ih =>
    cases q with
    | nil => simp at h
    | cons x q =>
      have hset : (p ++ x :: q).set p.length b = (p ++ [b]) ++ q := by simp
      have hlen : p.length + 1 = (p ++ [b]).length := by simp
      rw [writeAt, hset, hlen, ih (p ++ [b]) q (by simpa using h)]
      simp

/-- Writing at the start of a buffer replaces its first bytes. -/
theorem writeAt_zero (buf bs : Bytes) (h : bs.length ≤ buf.length) :
    writeAt buf 0 bs = bs ++ buf.drop bs.length := by
  simpa using writeAt_eq [] buf bs h

end Lib

end Osp
