import Osp.Signal.Sample

/-!
# HKDF-Expand

In the loop of `hkdf_expand` an 8-bit counter is compared with the number of blocks. With 255 blocks the counter never gets there.
-/

namespace Osp.Signal

open List

variable (p : CryptoProvider) (prk info : Bytes)

/-- `T(i)` of HKDF. -/
def hkdfBlock : Nat → Bytes
  | 0 => []
  | i + 1 => p.hmacSha256 prk (hkdfBlock i ++ info ++ [UInt8.ofNat (i + 1)])

/-- `T(1) | T(2) | ... | T(n)`. -/
def hkdfBlocks (n : Nat) : Bytes := (List.range n).flatMap fun i => hkdfBlock p prk info (i + 1)

theorem hkdfBlocks_succ (n : Nat) : hkdfBlocks p prk info (n + 1) = hkdfBlocks p prk info n ++ hkdfBlock p prk info (n + 1) := by
  rw [hkdfBlocks, hkdfBlocks, range_succ, flatMap_append, flatMap_singleton]

theorem length_hkdfBlocks (n : Nat) : (hkdfBlocks p prk info n).length = 32 * n := by
  induction n with
  | zero => rfl
  | succ n ih =>
    rw [hkdfBlocks_succ, length_append, ih, hkdfBlock, p.length_hmacSha256]
    rfl

theorem hkdfBlocks_prefix {m n : Nat} (h : m ≤ n) : hkdfBlocks p prk info m <+: hkdfBlocks p prk info n := by
  induction n, h using Nat.le_induction with
  | base => exact prefix_rfl
  | succ n _ ih => exact ih.trans ⟨_, (hkdfBlocks_succ ..).symm⟩

/-- The loop goes on with the blocks that are missing. -/
theorem hkdfExpandLoop_blocks (outputLen k n : Nat) :
    (hkdfBlocks p prk info k).take outputLen ++
      hkdfExpandLoop p prk info n (UInt8.ofNat (k + 1)) (hkdfBlock p prk info k) (outputLen - 32 * k) =
        (hkdfBlocks p prk info (k + n)).take outputLen := by
  induction n generalizing k with
  | zero => simp [hkdfExpandLoop]
  | succ n ih =>
    have hblock : p.hmacSha256 prk (hkdfBlock p prk info k ++ info ++ [UInt8.ofNat (k + 1)]) = hkdfBlock p prk info (k + 1) := rfl
    have hsize : (hkdfBlock p prk info (k + 1)).length = 32 := p.length_hmacSha256 ..
    have htake : (hkdfBlocks p prk info (k + 1)).take outputLen = (hkdfBlocks p prk info k).take outputLen ++
        (hkdfBlock p prk info (k + 1)).take (min (outputLen - 32 * k) 32) := by
      rw [hkdfBlocks_succ, take_append, length_hkdfBlocks, ← take_take, take_of_length_le (l := hkdfBlock p prk info (k + 1))
        hsize.le]
    have hrest : outputLen - 32 * k - min (outputLen - 32 * k) 32 = outputLen - 32 * (k + 1) := by omega
    simp only [hkdfExpandLoop, hblock, hsize, hrest]
    rw [← append_assoc, ← htake, Nat.add_left_comm, Nat.add_comm n]
    exact UInt8.ofNat_add (k + 1) 1 ▸ ih (k + 1)

/-- As long as the counter does not wrap, the loop returns what `hkdf_expand` is taken to return elsewhere. -/
theorem HkdfLoop.run_eq {bound n : Nat} (hbound : bound < 256) (s : HkdfLoop) (hn : s.i.toNat + n = bound) :
    run p prk info bound n s = some (s.output ++ hkdfExpandLoop p prk info n s.i s.step s.remaining) := by
  induction n generalizing s with
  | zero => rw [run, if_neg (by omega), hkdfExpandLoop, append_nil]
  | succ n ih =>
    have hi : (s.i + 1).toNat = s.i.toNat + 1 := by
      rw [UInt8.toNat_add]
      exact Nat.mod_eq_of_lt (by show s.i.toNat + 1 < 256; omega)
    rw [run, if_pos (by omega), hkdfExpandLoop, ← append_assoc]
    exact ih (s.next p prk info) (by show (s.i + 1).toNat + n = bound; omega)

/-- With 255 blocks the loop goes on forever. -/
theorem HkdfLoop.run_eq_none (n : Nat) (s : HkdfLoop) : run p prk info 256 n s = none := by
  induction n generalizing s with
  | zero => rw [run, if_pos s.i.toNat_lt]
  | succ n ih =>
    rw [run, if_pos s.i.toNat_lt]
    exact ih _

/-- With the context of version 3 and an output length that HKDF allows, `hkdf_expand` returns the first bytes of the blocks, if and only if
there are at most 254 of them. -/
theorem hkdfExpand_iff {context : HkdfContext} (hcontext : hkdfCreate 3 = .ok context) {outputLen : Nat} (hpos : 0 < outputLen)
    (hlen : outputLen ≤ 255 * 32) :
    (∃ n, hkdfExpandWithin p prk info n context outputLen = some ((hkdfBlocks p prk info 255).take outputLen)) ↔
      outputLen ≤ 254 * 32 := by
  obtain rfl : ⟨1⟩ = context := Except.ok.inj hcontext
  constructor
  · rintro ⟨n, hn⟩
    by_contra hlt
    have hblocks : (outputLen + 31) / 32 = 255 := by omega
    rw [hkdfExpandWithin, hblocks] at hn
    cases (HkdfLoop.run_eq_none p prk info n _).symm.trans hn
  · intro hle
    refine ⟨(outputLen + 31) / 32, ?_⟩
    have hprefix : (hkdfBlocks p prk info ((outputLen + 31) / 32)).take outputLen = (hkdfBlocks p prk info 255).take outputLen := by
      obtain ⟨rest, hrest⟩ := hkdfBlocks_prefix p prk info (by omega : (outputLen + 31) / 32 ≤ 255)
      rw [← hrest, take_append_of_le_length (by rw [length_hkdfBlocks]; omega)]
    rw [hkdfExpandWithin, HkdfLoop.run_eq p prk info (by simp; omega) _ (by simp; omega), ← hprefix,
      ← Nat.zero_add ((outputLen + 31) / 32), ← hkdfExpandLoop_blocks]
    simp [hkdfBlocks, hkdfBlock]

/-- Two blocks. -/
theorem hkdfExpand_iff_two :
    ∃ n, hkdfExpandWithin sampleProvider [1] [] n ⟨1⟩ 40 = some ((hkdfBlocks sampleProvider [1] [] 255).take 40) :=
  (hkdfExpand_iff sampleProvider [1] [] rfl (by decide) (by decide)).2 (by decide)

/-- The longest output that HKDF allows is never returned. -/
theorem hkdfExpand_endless : ¬ ∃ n, (hkdfExpandWithin sampleProvider [1] [] n ⟨1⟩ (255 * 32)).isSome = true := by
  rintro ⟨n, hn⟩
  have hnone : hkdfExpandWithin sampleProvider [1] [] n ⟨1⟩ (255 * 32) = none := HkdfLoop.run_eq_none sampleProvider [1] [] n _
  rw [hnone] at hn
  cases hn

end Osp.Signal
