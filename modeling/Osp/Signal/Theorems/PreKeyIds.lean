import Osp.Signal.Sample

/-!
# The ids of pre-keys

`signal_protocol_key_helper_generate_pre_keys` of `key_helper.c` counts the ids in an `unsigned int` and takes a remainder of the sum. As
2^32 is no multiple of the number of ids, the ids jump back where the sum wraps.
-/

namespace Osp.Signal

/-- The id after another one, in the circle of all ids. -/
def nextPreKeyId (id : UInt32) : UInt32 := if id = preKeyMediumMaxValue - 1 then 1 else id + 1

/-- Ids that go round the circle, at most once. -/
structure Circular (ids : List UInt32) : Prop where
  nodup : ids.Nodup
  range : ∀ id ∈ ids, 1 ≤ id ∧ id ≤ preKeyMediumMaxValue - 1
  next : ∀ i id id', ids[i]? = some id → ids[i + 1]? = some id' → id' = nextPreKeyId id

variable {start : UInt32} {i count : Nat}

theorem toNat_preKeyId (start : UInt32) (h : i < 2 ^ 32) :
    (preKeyId start (UInt32.ofNat i)).toNat = ((start - 1).toNat + i) % 2 ^ 32 % 0xFFFFFE + 1 := by
  have hmod : ((start - 1).toNat + i) % 2 ^ 32 % 0xFFFFFE + 1 < 2 ^ 32 := by omega
  simp only [preKeyId, UInt32.toNat_add, UInt32.toNat_mod, UInt32.toNat_ofNat', Nat.mod_eq_of_lt h]
  exact Nat.mod_eq_of_lt hmod

theorem toNat_nextPreKeyId {id : UInt32} (h : id.toNat ≤ 0xFFFFFE) :
    (nextPreKeyId id).toNat = if id.toNat = 0xFFFFFE then 1 else id.toNat + 1 := by
  have hlast : id = preKeyMediumMaxValue - 1 ↔ id.toNat = 0xFFFFFE := UInt32.toNat_inj.symm
  unfold nextPreKeyId
  split
  · rw [if_pos (hlast.1 ‹_›)]
    rfl
  · rw [if_neg fun heq => ‹¬_› (hlast.2 heq), UInt32.toNat_add]
    exact Nat.mod_eq_of_lt (by simp only [UInt32.toNat_one]; omega)

/-- The ids of so many keys. -/
def preKeyIds (start : UInt32) (count : Nat) : List UInt32 := (List.range count).map fun i => preKeyId start (UInt32.ofNat i)

theorem getElem_preKeyIds {id : UInt32} : (preKeyIds start count)[i]? = some id ↔ i < count ∧ preKeyId start (UInt32.ofNat i) = id := by
  rw [preKeyIds, List.getElem?_map, Option.map_eq_some_iff]
  constructor
  · rintro ⟨j, hj, rfl⟩
    obtain ⟨hlt, rfl⟩ := List.getElem?_eq_some_iff.1 hj
    simpa using hlt
  · rintro ⟨hlt, rfl⟩
    exact ⟨i, List.getElem?_range hlt, rfl⟩

/-- Without a wrap the ids go round the circle. -/
theorem circular_of_le (hcount : count ≤ 0xFFFFFE) (h : (start - 1).toNat + count ≤ 2 ^ 32) : Circular (preKeyIds start count) where
  nodup := by
    refine List.Nodup.map_on (fun i hi j hj heq => ?_) List.nodup_range
    rw [List.mem_range] at hi hj
    have heq := congrArg UInt32.toNat heq
    rw [toNat_preKeyId start (by omega), toNat_preKeyId start (by omega)] at heq
    omega
  range := by
    intro id hid
    obtain ⟨i, hi, rfl⟩ := List.mem_map.1 hid
    rw [List.mem_range] at hi
    have hid := toNat_preKeyId start (i := i) (by omega)
    have hmax : (preKeyMediumMaxValue - 1).toNat = 0xFFFFFE := rfl
    rw [UInt32.le_iff_toNat_le, UInt32.le_iff_toNat_le, UInt32.toNat_one]
    omega
  next := by
    intro i id id' hid hid'
    obtain ⟨hlt, rfl⟩ := getElem_preKeyIds.1 hid
    obtain ⟨hlt', rfl⟩ := getElem_preKeyIds.1 hid'
    have hthis := toNat_preKeyId start (i := i) (by omega)
    have hnext := toNat_preKeyId start (i := i + 1) (by omega)
    rw [Nat.mod_eq_of_lt (by omega : (start - 1).toNat + i < 2 ^ 32)] at hthis
    rw [Nat.mod_eq_of_lt (by omega : (start - 1).toNat + (i + 1) < 2 ^ 32)] at hnext
    rw [← UInt32.toNat_inj, toNat_nextPreKeyId (by omega), hnext, hthis]
    split <;> omega

/-- The ids that are made for any start and up to as many keys as there are ids go round the circle, if and only if the sum of the index
and the start does not wrap. -/
theorem generatePreKeys_circular_iff (p : CryptoProvider) (random : Nat → EcPrivateKey) (start count : UInt32)
    (hcount : count ≤ preKeyMediumMaxValue - 1) :
    Circular ((generatePreKeys p random start count).map Prod.fst) ↔ (start - 1).toNat + count.toNat ≤ 2 ^ 32 := by
  have hcount : count.toNat ≤ 0xFFFFFE := UInt32.le_iff_toNat_le.1 hcount
  have hids : (generatePreKeys p random start count).map Prod.fst = preKeyIds start count.toNat := by
    rw [generatePreKeys, preKeyIds, List.map_map]
    rfl
  rw [hids]
  constructor
  · intro h
    by_contra hwraps
    -- at the wrap the id 512 is followed by 1
    have hstart := (start - 1).toNat_lt
    obtain ⟨i, hi⟩ : ∃ i, (start - 1).toNat + i = 2 ^ 32 - 1 := ⟨2 ^ 32 - 1 - (start - 1).toNat, by omega⟩
    have hnext := h.next i _ _ (getElem_preKeyIds.2 ⟨by omega, rfl⟩) (getElem_preKeyIds.2 ⟨by omega, rfl⟩)
    have hthis := toNat_preKeyId start (i := i) (by omega)
    rw [← UInt32.toNat_inj, toNat_nextPreKeyId (by omega), toNat_preKeyId start (by omega), hthis, ← Nat.add_assoc, hi] at hnext
    exact absurd hnext (by decide)
  · exact circular_of_le hcount

/-- Three ids across the end of the circle. -/
theorem generatePreKeys_circular_end :
    (generatePreKeys sampleProvider (fun _ => sampleKey 1) 0xFFFFFD 3).map Prod.fst = [0xFFFFFD, 0xFFFFFE, 1] ∧
      Circular ((generatePreKeys sampleProvider (fun _ => sampleKey 1) 0xFFFFFD 3).map Prod.fst) :=
  ⟨by decide, (generatePreKeys_circular_iff _ _ _ _ (by decide)).2 (by decide)⟩

/-- A start of 0 is taken for 2^32. -/
theorem generatePreKeys_wrapped :
    (generatePreKeys sampleProvider (fun _ => sampleKey 1) 0 2).map Prod.fst = [512, 1] ∧
      ¬Circular ((generatePreKeys sampleProvider (fun _ => sampleKey 1) 0 2).map Prod.fst) := by
  have hids : (generatePreKeys sampleProvider (fun _ => sampleKey 1) 0 2).map Prod.fst = [512, 1] := by decide
  refine ⟨hids, fun h => ?_⟩
  exact absurd (h.next 0 512 1 rfl rfl) (by decide)

end Osp.Signal
