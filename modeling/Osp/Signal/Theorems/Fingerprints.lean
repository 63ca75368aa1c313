import Osp.Signal.Fingerprint

/-!
# Comparing fingerprints

Two users who made their fingerprints from the same keys see the same text, and scanning either one's code at the other succeeds. The
commitment and the code of a user's devices do not depend on the order of the keys and signatures.
-/

namespace Osp.Signal

open Lib EcPublicKey FingerprintGenerator

/-! ## Sorted lists -/

theorem ecPublicKeyMemcmp_orders : Orders ecPublicKeyMemcmp data := bytesCompare_orders.comap data

theorem signatureListSortComparator_orders : Orders signatureListSortComparator DeviceConsistencySignature.vrfOutput where
  swap := by
    intro a b
    have hswap := bytesCompare_orders.swap a.vrfOutput b.vrfOutput
    unfold signatureListSortComparator
    split_ifs <;> omega
  trans := by
    intro a b c
    have htrans := bytesCompare_orders.trans a.vrfOutput b.vrfOutput c.vrfOutput
    unfold signatureListSortComparator
    split_ifs <;> omega
  eq_zero := by
    intro a b
    have hzero : bytesCompare a.vrfOutput b.vrfOutput = 0 ↔ a.vrfOutput = b.vrfOutput := bytesCompare_orders.eq_zero _ _
    have hlength : a.vrfOutput = b.vrfOutput → a.vrfOutput.length = b.vrfOutput.length := congrArg List.length
    unfold signatureListSortComparator
    split_ifs with h1 h2
    · exact hzero
    · exact ⟨fun h => absurd h (by decide), fun h => absurd (hlength h) h1⟩
    · exact ⟨fun h => absurd h (by decide), fun h => absurd (hlength h) h1⟩

theorem serialize_sort_perm (q q' : Qsort EcPublicKey) {keys keys' : List EcPublicKey} (hkeys : keys.Perm keys') :
    (ecPublicKeyListSort q keys).map serialize = (ecPublicKeyListSort q' keys').map serialize := by
  have hdata := Qsort.map_key_sort ecPublicKeyMemcmp_orders q q' hkeys
  have hserialize : serialize = (djbType :: ·) ∘ data := rfl
  rw [hserialize, List.comp_map, List.comp_map]
  exact congrArg _ hdata

/-- For every generation, every list of identity keys and every list of signatures, the commitment and the code are the same for every
permutation of the lists, in whichever way `qsort` orders equal elements; and both comparators are total orders up to equality of the bytes
they compare. -/
theorem deviceConsistency_perm (h : Sha512) (q q' : Qsort EcPublicKey) (r r' : Qsort DeviceConsistencySignature) (generation : UInt32)
    {keys keys' : List EcPublicKey} (hkeys : keys.Perm keys') {signatures signatures' : List DeviceConsistencySignature}
    (hsignatures : signatures.Perm signatures') :
    deviceConsistencyCommitmentCreate h q generation keys = deviceConsistencyCommitmentCreate h q' generation keys' ∧
      (∀ commitment, deviceConsistencyCodeGenerateFor h r commitment signatures =
        deviceConsistencyCodeGenerateFor h r' commitment signatures') ∧
      Orders ecPublicKeyMemcmp data ∧ Orders signatureListSortComparator DeviceConsistencySignature.vrfOutput := by
  refine ⟨?_, fun commitment => ?_, ecPublicKeyMemcmp_orders, signatureListSortComparator_orders⟩
  · rw [deviceConsistencyCommitmentCreate, deviceConsistencyCommitmentCreate, serialize_sort_perm q q' hkeys]
  · have hvrf : (r.sort signatureListSortComparator signatures).map (·.vrfOutput) =
        (r'.sort signatureListSortComparator signatures').map (·.vrfOutput) :=
      Qsort.map_key_sort signatureListSortComparator_orders r r' hsignatures
    rw [deviceConsistencyCodeGenerateFor, deviceConsistencyCodeGenerateFor, hvrf]

/-- A hash that is the same for all messages. -/
def sampleSha512 : Sha512 := ⟨fun _ => List.replicate 64 7, fun _ => List.length_replicate⟩

/-- Two signatures, one of them longer, in either order. -/
theorem deviceConsistency_perm_swapped :
    deviceConsistencyCodeGenerateFor sampleSha512 (.mergeSort _) ⟨0, []⟩ [⟨[], [2]⟩, ⟨[], [1, 1]⟩] =
      deviceConsistencyCodeGenerateFor sampleSha512 (.mergeSort _) ⟨0, []⟩ [⟨[], [1, 1]⟩, ⟨[], [2]⟩] :=
  (deviceConsistency_perm sampleSha512 (.mergeSort _) (.mergeSort _) _ _ 0 (.refl []) (.swap _ _ [])).2.1 _

/-! ## Fingerprints of two users -/

theorem displayText_comm (a b : Bytes) :
    (displayableFingerprintCreate a b).displayText = (displayableFingerprintCreate b a).displayText := by
  have hswap' := bytesCompare_orders.swap b a
  simp only [displayableFingerprintCreate]
  split_ifs with h1 h2 h2
  · rw [show a = b from bytesCompare_orders.antisymm h1 h2]
  · rfl
  · rfl
  · omega

variable {generator : FingerprintGenerator} {h : Sha512} (hiterations : 1 ≤ generator.iterations)

include hiterations in
theorem getFingerprint_ok (identifier identity : Bytes) :
    ∃ hash, generator.getFingerprint h identifier identity = .ok hash ∧ hash.length = 64 := by
  obtain ⟨n, hn⟩ := Nat.exists_eq_add_of_le' hiterations
  refine ⟨_, if_neg ?_, ?_⟩ <;> rw [hn, Function.iterate_succ_apply', h.length_digest]
  decide

theorem createDisplayString_ok {hash : Bytes} (hlength : hash.length = 64) : ∃ text, createDisplayString hash = .ok text :=
  ⟨_, if_neg (by rw [hlength]; decide)⟩

variable {a b x y : Option Bytes} {f : ScannableFingerprint} {version : UInt32}

theorem scannableFingerprintCreate_ok (hf : scannableFingerprintCreate version a x b y = .ok f) :
    ∃ u v, x = some u ∧ y = some v ∧
      ((version = 0 ∧ (∃ s t, a = some s ∧ b = some t) ∧ f = ⟨0, a, u, b, v⟩) ∨
        (version ≠ 0 ∧ f = ⟨version, none, u.take 32, none, v.take 32⟩)) := by
  unfold scannableFingerprintCreate at hf
  by_cases hidentifiers : version = 0 ∧ (a = none ∨ b = none)
  · rw [if_pos hidentifiers] at hf
    cases hf
  rw [if_neg hidentifiers] at hf
  rcases x with _ | u
  · cases hf
  rcases y with _ | v
  · cases hf
  refine ⟨u, v, rfl, rfl, ?_⟩
  dsimp only at hf
  by_cases hversion : version = 0
  · cases a <;> cases b <;> simp_all
  · rw [if_neg hversion] at hf
    cases hf
    exact .inr ⟨hversion, rfl⟩

/-- What a user's device shows is read back at the other's. -/
theorem deserialize_serialize {codec : Codec CombinedFingerprints} (hcodec : codec.Inverse)
    (hf : scannableFingerprintCreate version a x b y = .ok f) : scannableFingerprintDeserialize codec (f.serialize codec) = .ok f := by
  rw [scannableFingerprintDeserialize, ScannableFingerprint.serialize, hcodec]
  obtain ⟨u, v, rfl, rfl, ⟨rfl, ⟨s, t, rfl, rfl⟩, rfl⟩ | ⟨hversion, rfl⟩⟩ := scannableFingerprintCreate_ok hf
  · simp [scannableFingerprintCreate]
  · simp [scannableFingerprintCreate, hversion]

/-- The fingerprints that two users make compare as equal. -/
theorem compare_swapped {g : ScannableFingerprint}
    (hf : scannableFingerprintCreate version a x b y = .ok f) (hg : scannableFingerprintCreate version b y a x = .ok g) :
    f.compare g = 1 := by
  obtain ⟨u, v, rfl, rfl, ⟨rfl, -, rfl⟩ | ⟨hversion, rfl⟩⟩ := scannableFingerprintCreate_ok hf
  · obtain ⟨v', u', hv, hu, ⟨-, -, rfl⟩ | ⟨hne, -⟩⟩ := scannableFingerprintCreate_ok hg
    · cases hv
      cases hu
      simp [ScannableFingerprint.compare]
    · exact absurd rfl hne
  · obtain ⟨v', u', hv, hu, ⟨hzero, -⟩ | ⟨-, rfl⟩⟩ := scannableFingerprintCreate_ok hg
    · exact absurd hzero hversion
    · cases hv
      cases hu
      simp [ScannableFingerprint.compare]

include hiterations in
theorem createForImpl_ok (hversion : generator.scannableVersion = 0 ∨ generator.scannableVersion = 1) (a x b y : Bytes) :
    ∃ version a' x' b' y' text text' f g,
      scannableFingerprintCreate version a' x' b' y' = .ok f ∧ scannableFingerprintCreate version b' y' a' x' = .ok g ∧
      generator.createForImpl h a x b y = .ok ⟨displayableFingerprintCreate text text', f⟩ ∧
      generator.createForImpl h b y a x = .ok ⟨displayableFingerprintCreate text' text, g⟩ := by
  obtain ⟨hash, hhash, hlength⟩ := getFingerprint_ok hiterations a x
  obtain ⟨hash', hhash', hlength'⟩ := getFingerprint_ok hiterations b y
  obtain ⟨text, htext⟩ := createDisplayString_ok hlength
  obtain ⟨text', htext'⟩ := createDisplayString_ok hlength'
  rcases hversion with hv | hv
  · refine ⟨0, some a, some x, some b, some y, text, text', _, _, rfl, rfl, ?_, ?_⟩ <;>
      · rw [createForImpl, hhash, hhash', hv]
        simp only [bind, Except.bind, htext, htext']
        rfl
  · refine ⟨1, none, some hash, none, some hash', text, text', _, _, rfl, rfl, ?_, ?_⟩ <;>
      · rw [createForImpl, hhash, hhash', hv]
        simp only [bind, Except.bind, htext, htext']
        rfl

/-- For every two identifiers and lists of identity keys, the fingerprints of the two users show the same text, and either one, read from
the other's screen, compares as equal; and neither depends on the order of the keys. -/
theorem fingerprints_agree (generator : FingerprintGenerator) (h : Sha512) (hiterations : 1 ≤ generator.iterations)
    (hversion : generator.scannableVersion = 0 ∨ generator.scannableVersion = 1) (codec : Codec CombinedFingerprints)
    (hcodec : codec.Inverse) (q q' : Qsort EcPublicKey) (a b : Bytes)
    {keysA keysA' keysB keysB' : List EcPublicKey} (hA : keysA.Perm keysA') (hB : keysB.Perm keysB') :
    generator.createForList h q a keysA b keysB = generator.createForList h q' a keysA' b keysB' ∧
      ∃ f g scanned, generator.createForList h q a keysA b keysB = .ok f ∧ generator.createForList h q' b keysB' a keysA' = .ok g ∧
        f.displayable.displayText = g.displayable.displayText ∧
        scannableFingerprintDeserialize codec (g.scannable.serialize codec) = .ok scanned ∧ f.scannable.compare scanned = 1 := by
  have hbytesA : getLogicalKeyBytes q keysA = getLogicalKeyBytes q' keysA' := congrArg _ (serialize_sort_perm q q' hA)
  have hbytesB : getLogicalKeyBytes q keysB = getLogicalKeyBytes q' keysB' := congrArg _ (serialize_sort_perm q q' hB)
  unfold createForList
  rw [hbytesA, hbytesB]
  obtain ⟨version, a', x', b', y', text, text', f, g, hf, hg, hlocal, hremote⟩ :=
    createForImpl_ok hiterations hversion a (getLogicalKeyBytes q' keysA') b (getLogicalKeyBytes q' keysB')
  exact ⟨rfl, _, _, g, hlocal, hremote, displayText_comm text text', deserialize_serialize hcodec hg, compare_swapped hf hg⟩

/-- A user with two keys and one with none. -/
theorem fingerprints_agree_two :
    ∃ f, createForList ⟨2, 1⟩ sampleSha512 (.mergeSort _) [1] [⟨List.replicate 32 1, rfl⟩, ⟨List.replicate 32 2, rfl⟩]
      [2] [] = .ok f :=
  have ⟨_, f, _, _, hf, _⟩ := fingerprints_agree ⟨2, 1⟩ sampleSha512 (by decide) (.inr rfl) (.identity _) (fun _ => rfl)
    (.mergeSort _) (.mergeSort _) [1] [2] (.swap ⟨List.replicate 32 2, rfl⟩ ⟨List.replicate 32 1, rfl⟩ []) (.refl [])
  ⟨f, hf⟩

end Osp.Signal
