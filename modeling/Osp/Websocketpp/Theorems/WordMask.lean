import Osp.Websocketpp.Lemmas.Masking

/-!
# Masking by words

`word_mask_exact` and `word_mask_circ`, which mask a payload one machine word at a time, and their agreement with the functions that go
byte by byte, for every split of the payload into chunks.
-/

namespace Osp.Websocketpp

open Lib List

variable (pl : Platform)

/-- Masking one chunk after the other, each with the key that the one before it returned. -/
def maskChunks (mask : Bytes → Nat → Bytes × Nat) (preparedKey : Nat) : List Bytes → List Bytes
  | [] => []
  | chunk :: chunks => (mask chunk preparedKey).1 :: maskChunks mask (mask chunk preparedKey).2 chunks

/-! ## Words and their bytes -/

theorem digit_xor {x y : Nat} (p q : Nat) (hx : x < 256) (hy : y < 256) :
    (x + 256 * p) ^^^ (y + 256 * q) = (x ^^^ y) + 256 * (p ^^^ q) := by
  have hmod : ((x + 256 * p) ^^^ (y + 256 * q)) % 2 ^ 8 = x ^^^ y := by
    rw [Nat.xor_mod_two_pow, show (x + 256 * p) % 2 ^ 8 = x by omega, show (y + 256 * q) % 2 ^ 8 = y by omega]
  have hdiv : ((x + 256 * p) ^^^ (y + 256 * q)) / 2 ^ 8 = p ^^^ q := by
    rw [Nat.xor_div_two_pow, show (x + 256 * p) / 2 ^ 8 = p by omega, show (y + 256 * q) / 2 ^ 8 = q by omega]
  omega

theorem ofLe_zipWith_xor {a b : Bytes} (h : a.length = b.length) :
    ofLe (List.zipWith (· ^^^ ·) a b) = ofLe a ^^^ ofLe b := by
  induction a generalizing b with
  | nil =>
    cases b with
    | nil => rfl
    | cons y b => cases h
  | cons x a ih =>
    cases b with
    | nil => cases h
    | cons y b =>
      rw [zipWith_cons_cons, ofLe, ofLe, ofLe, ih (Nat.succ.inj h), UInt8.toNat_xor,
        digit_xor _ _ x.toNat_lt y.toNat_lt]

theorem wordBytes_word {w : Bytes} (hw : w.length = pl.wordSize.bytes) : pl.wordBytes (pl.word w) = w := by
  unfold Platform.wordBytes Platform.word
  rw [← hw]
  split
  · exact leBytes_ofLe w
  · have h := leBytes_ofLe w.reverse
    rw [length_reverse] at h
    rw [beBytes, ofBe, h, reverse_reverse]

/-- The exclusive or of two words is that of their bytes. -/
theorem word_xor {a b : Bytes} (h : a.length = b.length) : pl.word a ^^^ pl.word b = pl.word (List.zipWith (· ^^^ ·) a b) := by
  unfold Platform.word
  split
  · exact (ofLe_zipWith_xor h).symm
  · rw [ofBe, ofBe, ofBe, reverse_zipWith h, ofLe_zipWith_xor (by simpa using h)]

/-! ## Masking a word -/

theorem getElem?_byteMaskCircLoop (key : MaskingKey) (i j : Nat) (bs : Bytes) :
    (byteMaskCircLoop key i bs)[j]? = bs[j]?.map (· ^^^ key.c ((i + j) % 4)) := by
  induction bs generalizing i j with
  | nil => rfl
  | cons b bs ih =>
    cases j with
    | zero => rfl
    | succ j =>
      rw [byteMaskCircLoop, List.getElem?_cons_succ, List.getElem?_cons_succ, ih, Nat.add_right_comm, Nat.add_assoc]

theorem getElem?_keyBytes (key : MaskingKey) {j : Nat} (hj : j < pl.wordSize.bytes) : (pl.keyBytes key)[j]? = some (key.c (j % 4)) := by
  unfold Platform.keyBytes
  cases hw : pl.wordSize with
  | four =>
    replace hj : j < 4 := by rwa [hw] at hj
    interval_cases j <;> rfl
  | eight =>
    replace hj : j < 8 := by rwa [hw] at hj
    interval_cases j <;> rfl

/-- The bytes of a prepared key, as many as wanted, mask up to one word. -/
theorem zipWith_keyBytes (key : MaskingKey) {w : Bytes} (hw : w.length ≤ pl.wordSize.bytes) :
    List.zipWith (· ^^^ ·) w ((pl.keyBytes key).take w.length) = byteMaskCircLoop key 0 w := by
  apply ext_getElem?
  intro j
  rw [List.getElem?_zipWith, getElem?_byteMaskCircLoop, Nat.zero_add]
  by_cases hj : j < w.length
  · rw [List.getElem?_take_of_lt hj, getElem?_keyBytes pl key (by omega), List.getElem?_eq_getElem hj]
    rfl
  · rw [List.getElem?_eq_none (by omega)]
    rfl

theorem maskWords_prepare (key : MaskingKey) {n : Nat} {input : Bytes} (h : n * pl.wordSize.bytes ≤ input.length) :
    maskWords pl (prepareMaskingKey pl key) n input = byteMaskCircLoop key 0 (input.take (n * pl.wordSize.bytes)) := by
  induction n generalizing input with
  | zero =>
    rw [Nat.zero_mul]
    rfl
  | succ n ih =>
    rw [Nat.succ_mul] at h ⊢
    have hlen := length_keyBytes pl key
    have htake : (input.take pl.wordSize.bytes).length = pl.wordSize.bytes := by
      rw [length_take, Nat.min_eq_left (by omega)]
    have hword : pl.wordBytes (pl.word (input.take pl.wordSize.bytes) ^^^ prepareMaskingKey pl key) =
        byteMaskCircLoop key 0 (input.take pl.wordSize.bytes) := by
      rw [prepareMaskingKey_eq, word_xor pl (htake.trans hlen.symm), ← zipWith_keyBytes pl key htake.le, htake,
        take_of_length_le hlen.le, wordBytes_word pl (by rw [length_zipWith, htake, hlen, Nat.min_self])]
    -- a whole word does not move the key
    have hkey : key.rotate pl.wordSize.bytes = key := by cases pl.wordSize <;> rfl
    have hrest := byteMaskCircLoop_rotate key 0 pl.wordSize.bytes ((input.drop pl.wordSize.bytes).take (n * pl.wordSize.bytes))
    rw [hkey] at hrest
    rw [maskWords, hword, ih (by rw [length_drop]; omega), Nat.add_comm (n * _), take_add, byteMaskCircLoop_append, htake,
      ← hrest]

theorem byteMaskCircLoop_take_drop (key : MaskingKey) {m : Nat} {input : Bytes} (h : m ≤ input.length) :
    byteMaskCircLoop key 0 (input.take m) ++ byteMaskCircLoop key m (input.drop m) = byteMaskCircLoop key 0 input := by
  conv_rhs => rw [← take_append_drop m input, byteMaskCircLoop_append, length_take, Nat.min_eq_left h, Nat.zero_add]

theorem wordMaskExact_eq (key : MaskingKey) (input : Bytes) : wordMaskExact pl input key = byteMaskCircLoop key 0 input := by
  have hle : input.length / pl.wordSize.bytes * pl.wordSize.bytes ≤ input.length := Nat.div_mul_le_self _ _
  rw [wordMaskExact, maskWords_prepare pl key hle, byteMaskCircLoop_take_drop key hle]

theorem rotate_words (key : MaskingKey) (n : Nat) : key.rotate (n * pl.wordSize.bytes) = key := by
  have hmod : n * pl.wordSize.bytes % 4 = 0 :=
    Nat.mod_eq_zero_of_dvd (Dvd.dvd.mul_left (by cases pl.wordSize <;> decide) n)
  rw [← key.rotate_mod, hmod]
  rfl

/-- What `word_mask_circ` does with a prepared key. -/
theorem wordMaskCirc_prepare (input : Bytes) (key : MaskingKey) :
    wordMaskCirc pl input (prepareMaskingKey pl key) =
      (byteMaskCircLoop key 0 input, prepareMaskingKey pl (key.rotate input.length)) := by
  have hpos : 0 < pl.wordSize.bytes := by cases pl.wordSize <;> decide
  have hlt := Nat.mod_lt input.length hpos
  have hl := (Nat.mod_eq_sub_div_mul (x := input.length) (k := pl.wordSize.bytes)).symm
  have hle : input.length / pl.wordSize.bytes * pl.wordSize.bytes ≤ input.length := Nat.div_mul_le_self _ _
  have hrotate : key.rotate (input.length % pl.wordSize.bytes) = key.rotate input.length := by
    conv_rhs => rw [← Nat.div_add_mod' input.length pl.wordSize.bytes, key.rotate_add, rotate_words]
  rw [wordMaskCirc, hl, maskWords_prepare pl key hle, circshiftPreparedKey_rotate pl key hlt, hrotate,
    ← byteMaskCircLoop_take_drop key hle]
  generalize hm : input.length / pl.wordSize.bytes * pl.wordSize.bytes = m at hl hle ⊢
  -- the bytes after the last whole word
  have hdrop : (input.drop m).length = input.length % pl.wordSize.bytes := by rw [length_drop, hl]
  have hbytes : pl.wordBytes (prepareMaskingKey pl key) = pl.keyBytes key := by
    rw [prepareMaskingKey_eq, wordBytes_word pl (length_keyBytes pl key)]
  have hzero := byteMaskCircLoop_rotate key 0 m (input.drop m)
  rw [← hm, rotate_words, hm, Nat.zero_add] at hzero
  rw [hbytes, ← hdrop, zipWith_keyBytes pl key (by omega), hzero]

/-! ## Masking in chunks -/

section Chunks

variable {pl} {mask : Bytes → Nat → Bytes × Nat} (hmask : ∀ input key, mask input (prepareMaskingKey pl key) =
  (byteMaskCircLoop key 0 input, prepareMaskingKey pl (key.rotate input.length)))

include hmask

theorem flatten_maskChunks (key : MaskingKey) (chunks : List Bytes) :
    (maskChunks mask (prepareMaskingKey pl key) chunks).flatten = byteMaskCircLoop key 0 chunks.flatten := by
  induction chunks generalizing key with
  | nil => rfl
  | cons chunk chunks ih =>
    rw [maskChunks, hmask, flatten_cons, flatten_cons, ih, byteMaskCircLoop_append, byteMaskCircLoop_rotate]

theorem maskChunks_maskChunks (key : MaskingKey) (chunks : List Bytes) :
    maskChunks mask (prepareMaskingKey pl key) (maskChunks mask (prepareMaskingKey pl key) chunks) = chunks := by
  induction chunks generalizing key with
  | nil => rfl
  | cons chunk chunks ih =>
    rw [maskChunks, hmask, maskChunks, hmask, length_byteMaskCircLoop, ih, byteMaskCircLoop_involutive]

end Chunks

/-- For every payload, every split of it into chunks and every key the four ways of masking give the same bytes, and each of them, applied
to what it gave, restores the payload. -/
theorem masking_agrees (key : MaskingKey) (chunks : List Bytes) :
    let payload := chunks.flatten
    let preparedKey := prepareMaskingKey pl key
    (wordMaskExact pl payload key = byteMask payload key 0 ∧
      (maskChunks (wordMaskCirc pl) preparedKey chunks).flatten = byteMask payload key 0 ∧
      (maskChunks (byteMaskCirc pl) preparedKey chunks).flatten = byteMask payload key 0) ∧
    byteMask (byteMask payload key 0) key 0 = payload ∧
      wordMaskExact pl (wordMaskExact pl payload key) key = payload ∧
      maskChunks (wordMaskCirc pl) preparedKey (maskChunks (wordMaskCirc pl) preparedKey chunks) = chunks ∧
      maskChunks (byteMaskCirc pl) preparedKey (maskChunks (byteMaskCirc pl) preparedKey chunks) = chunks := by
  have hword := wordMaskCirc_prepare pl
  have hbyte := byteMaskCirc_prepare pl
  simp only [byteMask_eq, wordMaskExact_eq, byteMaskCircLoop_involutive, true_and]
  exact ⟨⟨flatten_maskChunks hword key chunks, flatten_maskChunks hbyte key chunks⟩, maskChunks_maskChunks hword key chunks,
    maskChunks_maskChunks hbyte key chunks⟩

end Osp.Websocketpp
