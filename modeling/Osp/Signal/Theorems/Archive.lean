import Osp.Signal.Sample
import Osp.Signal.Lemmas.Records

/-!
# The archive of a record

What decrypting does to the states of a record, as the function that changes the record in place, and the bound on the number of
archived states.
-/

namespace Osp.Signal

open Osp.Lib SessionRecord

variable {ctx : Context}

variable {random : Nat → EcPrivateKey} {record record' : SessionRecord} {message : SignalMessage}

theorem decryptPreviousInPlace_eq (i : Nat) (states : List SessionState) :
    decryptPreviousInPlace ctx random record message i states =
      match decryptFromPrevious ctx (fun i => random (i + 1)) message i states with
      | .error e => (.error e, record)
      | .ok (plaintext, j, stateCopy) =>
        (.ok plaintext, { record with previousStates := record.previousStates.eraseIdx j }.promoteState stateCopy) := by
  induction states generalizing i with
  | nil => rfl
  | cons state states ih =>
    rw [decryptPreviousInPlace, decryptFromPrevious]
    rcases sessionStateCopy ctx.storage state with e | stateCopy
    · rfl
    · rcases hstate : decryptFromState ctx (random (i + 1)) stateCopy message with ⟨e | plaintext, stateCopy'⟩
      · simp only [hstate]
        split_ifs
        · rfl
        · exact ih (i + 1)
      · simp only [hstate]

/-- The record that is changed in place is the one that the function returns, or the old one when it fails. -/
theorem decryptInPlace_eq : decryptInPlace ctx random record message =
    match decryptFromRecord ctx random record message with
    | .error e => (.error e, record)
    | .ok (plaintext, record') => (.ok plaintext, record') := by
  rw [decryptInPlace, decryptFromRecord]
  rcases sessionStateCopy ctx.storage record.state with e | stateCopy
  · rfl
  · rcases hstate : decryptFromState ctx (random 0) stateCopy message with ⟨e | plaintext, stateCopy'⟩
    · simp only [hstate, decryptPreviousInPlace_eq]
      split_ifs
      · rfl
      · rcases decryptFromPrevious ctx (fun i => random (i + 1)) message 0 record.previousStates with e | ⟨plaintext, j, s⟩ <;> rfl
    · simp only [hstate]

/-- What the operations of the library can make of a record. A changed state stands for every operation on it. -/
inductive SessionRecord.Step (ctx : Context) : SessionRecord → SessionRecord → Prop
  | setState (record : SessionRecord) (state : SessionState) : Step ctx record (record.setState state)
  | changePrevious (record : SessionRecord) (n : Nat) (state : SessionState) :
    Step ctx record { record with previousStates := record.previousStates.set n state }
  | removePrevious (record : SessionRecord) (n : Nat) :
    Step ctx record { record with previousStates := record.previousStates.eraseIdx n }
  | promoteState (record : SessionRecord) (state : SessionState) : Step ctx record (record.promoteState state)
  | archiveCurrentState (record : SessionRecord) : Step ctx record record.archiveCurrentState
  | copy {record record' : SessionRecord} :
    deserialize ctx.storage (record.serialize ctx.storage) = .ok record' → Step ctx record record'
  | processPreKeyMessage {store : Store ctx} {record record' : SessionRecord} {message : PreKeySignalMessage} {preKeyId : Option UInt32} :
    processPreKeySignalMessageV3 store record message = .ok (preKeyId, record') → Step ctx record record'
  | processBundle {store : Store ctx} {address : Address} {bundle : PreKeyBundle} {randomBase randomRatchet : EcPrivateKey}
    {identityKey : EcPublicKey} {record record' : SessionRecord} : store.loadSession address = .ok record →
    processPreKeyBundleRecord store address bundle randomBase randomRatchet identityKey = .ok record' → Step ctx record record'
  | decrypt (random : Nat → EcPrivateKey) (record : SessionRecord) (message : SignalMessage) :
    Step ctx record (decryptInPlace ctx random record message).2

theorem length_promoteState (state : SessionState) : (record.promoteState state).previousStates.length ≤ 40 :=
  List.length_take_le _ _

theorem length_prepared (h : record.previousStates.length ≤ 40) : record.prepared.previousStates.length ≤ 40 := by
  unfold prepared
  split
  · exact h
  · exact length_promoteState _

theorem length_copy (hk : ctx.storage.Inverse) (h : deserialize ctx.storage (record.serialize ctx.storage) = .ok record') :
    record'.previousStates.length = record.previousStates.length := by
  rw [deserialize, serialize, hk.record] at h
  obtain ⟨currentState, -, h⟩ := bind_eq_ok.1 h
  obtain ⟨previousStates, hprevious, h⟩ := bind_eq_ok.1 h
  cases h
  exact (forall₂_of_mapM_eq_ok hprevious).length_eq.symm.trans (List.length_map _)

theorem SessionRecord.Step.length_le (hk : ctx.storage.Inverse) (h : SessionRecord.Step ctx record record')
    (hlen : record.previousStates.length ≤ 40) : record'.previousStates.length ≤ 40 := by
  cases h with
  | setState => exact hlen
  | changePrevious => rwa [List.length_set]
  | removePrevious => exact (List.length_eraseIdx_le _ _).trans hlen
  | promoteState => exact length_promoteState _
  | archiveCurrentState => exact length_promoteState _
  | copy h => rwa [length_copy hk h]
  | processPreKeyMessage h =>
    obtain ⟨-, -, rfl⟩ | ⟨-, parameters, rfl⟩ := processPreKeySignalMessageV3_cases h
    · exact hlen
    · exact length_prepared hlen
  | processBundle hload h =>
    obtain ⟨loaded, parameters, hloaded, rfl⟩ := processPreKeyBundleRecord_ok h
    cases hload.symm.trans hloaded
    exact length_prepared hlen
  | decrypt random record message =>
    rw [decryptInPlace_eq]
    rcases hdecrypt : decryptFromRecord ctx random record message with e | ⟨plaintext, record'⟩
    · exact hlen
    · obtain ⟨_, _, _, _, rfl⟩ | ⟨_, _, _, _, _, _, _, rfl⟩ := decryptFromRecord_copy hdecrypt
      · exact hlen
      · exact length_promoteState _

/-- Decrypting through the current state changes only that; through the archived state at position `k` it makes the advanced copy of that
state current, with the former current state first in the archive and the others behind it in their order, up to 40; and failing it leaves
the record alone. No run of operations makes an archive of up to 40 states longer than that. -/
theorem decryptInPlace_archive (hk : ctx.storage.Inverse) :
    (∀ random record message, match decryptInPlace ctx random record message with
      | (.error _, record') => record' = record
      | (.ok plaintext, record') =>
        (∃ stateCopy advanced, sessionStateCopy ctx.storage record.state = .ok stateCopy ∧
          decryptFromState ctx (random 0) stateCopy message = (.ok plaintext, advanced) ∧ record' = { record with state := advanced }) ∨
        ∃ k state stateCopy advanced, record.previousStates[k]? = some state ∧ sessionStateCopy ctx.storage state = .ok stateCopy ∧
          decryptFromState ctx (random (k + 1)) stateCopy message = (.ok plaintext, advanced) ∧
          record' = { record with
            state := advanced
            previousStates := (record.state :: record.previousStates.eraseIdx k).take 40 }) ∧
    ∀ record record', Relation.ReflTransGen (SessionRecord.Step ctx) record record' → record.previousStates.length ≤ 40 →
      record'.previousStates.length ≤ 40 := by
  constructor
  · intro random record message
    rw [decryptInPlace_eq]
    rcases h : decryptFromRecord ctx random record message with e | ⟨plaintext, record'⟩
    · rfl
    · exact decryptFromRecord_copy h
  · intro record record' hrun hlen
    induction hrun with
    | refl => exact hlen
    | tail _ hstep ih => exact hstep.length_le hk ih

set_option maxRecDepth 4096 in
/-- A message is decrypted through the one archived state, and the current one is archived. -/
theorem decryptInPlace_archive_once :
    let bob := ratchetingSessionBobInitialize sampleProvider .create sampleBob
    let result := decryptInPlace sampleContext (fun _ => sampleKey 6) ⟨.create, [bob], false⟩ (sampleMessage 0 [219])
    result.1 = .ok [1] ∧ result.2.previousStates = [.create] ∧ result.2.previousStates.length ≤ 40 :=
  ⟨by decide, by decide, (@decryptInPlace_archive sampleContext StorageCodecs.inverse_identity).2 _ _ (.single (.decrypt ..)) (by decide)⟩

end Osp.Signal
