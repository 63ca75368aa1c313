import Osp.Signal.Lemmas.SessionCipher

/-!
# What a pre-key message changes

The ways through `session_cipher_decrypt_pre_key_signal_message` and through the functions of the session builder that it calls.
-/

namespace Osp.Signal

open Osp.Lib

variable {ctx : Context} {store : Store ctx} {address : Address} {record record' : SessionRecord}

/-! ## Processing a pre-key message -/

/-- The ways through `session_builder_process_pre_key_signal_message`: the identity is saved when nothing is wrong. -/
theorem processPreKeySignalMessage_cases (store : Store ctx) (address : Address) (record : SessionRecord)
    (message : PreKeySignalMessage) :
    (∃ code, processPreKeySignalMessage store address record message = (.error code, store)) ∨
    ∃ preKeyId record', store.checkTrusted address message.identityKey = .ok () ∧
      processPreKeySignalMessageV3 store record message = .ok (preKeyId, record') ∧
      processPreKeySignalMessage store address record message =
        (.ok (preKeyId, record'), store.identitySaveIdentity address message.identityKey) := by
  unfold processPreKeySignalMessage
  cases store.checkTrusted address message.identityKey with
  | error code => exact .inl ⟨code, rfl⟩
  | ok trusted =>
    cases processPreKeySignalMessageV3 store record message with
    | error code => exact .inl ⟨code, rfl⟩
    | ok result => exact .inr ⟨result.1, result.2, rfl, rfl, rfl⟩

/-- The ways through `session_builder_process_pre_key_signal_message_v3`: a base key that is held is left alone, else a session
is set up in the current state, or in a new one when that is in use. -/
theorem processPreKeySignalMessageV3_cases {message : PreKeySignalMessage} {preKeyId : Option UInt32}
    (h : processPreKeySignalMessageV3 store record message = .ok (preKeyId, record')) :
    let held := record.hasSessionState message.version.toUInt32 (some message.baseKey)
    held = true ∧ preKeyId = none ∧ record' = record ∨
    held = false ∧ ∃ parameters, record' = record.prepared.setState
        ((ratchetingSessionBobInitialize ctx.crypto record.prepared.state parameters).withRemote store.localRegistrationId
          message.registrationId message.baseKey) := by
  unfold processPreKeySignalMessageV3 at h
  cases hheld : record.hasSessionState message.version.toUInt32 (some message.baseKey) with
  | true =>
    rw [hheld, if_pos rfl] at h
    cases h
    exact .inl ⟨rfl, rfl, rfl⟩
  | false =>
    rw [hheld, if_neg Bool.false_ne_true] at h
    obtain ⟨ourSignedPreKey, -, h⟩ := bind_eq_ok.1 h
    obtain ⟨ourIdentityKey, -, h⟩ := bind_eq_ok.1 h
    obtain ⟨ourOneTimePreKey, -, h⟩ := bind_eq_ok.1 h
    refine .inr ⟨rfl, bobParameters message ourIdentityKey ourSignedPreKey ourOneTimePreKey, ?_⟩
    simp only [pure, Except.pure, Except.ok.injEq, Prod.mk.injEq] at h
    exact h.2.symm

/-! ## Processing a bundle -/

/-- The record that `session_builder_process_pre_key_bundle` stores: a session is set up in the current state, or in a new one
when that is in use. -/
theorem processPreKeyBundleRecord_ok {bundle : PreKeyBundle} {randomBase randomRatchet : EcPrivateKey} {identityKey : EcPublicKey}
    (h : processPreKeyBundleRecord store address bundle randomBase randomRatchet identityKey = .ok record') :
    ∃ record parameters, store.loadSession address = .ok record ∧ record' = record.prepared.setState
      (((ratchetingSessionAliceInitialize ctx.crypto randomRatchet record.prepared.state parameters).setUnacknowledgedPreKeyMessage
        (bundle.preKeyPublic.map fun _ => bundle.preKeyId) bundle.signedPreKeyId (ctx.crypto.publicKey randomBase)).withRemote
          store.localRegistrationId bundle.registrationId (ctx.crypto.publicKey randomBase)) := by
  obtain ⟨-, -, h⟩ := bind_eq_ok.1 h
  obtain ⟨signedPreKey, -, h⟩ := bind_eq_ok.1 h
  obtain ⟨record, hload, h⟩ := bind_eq_ok.1 h
  obtain ⟨ourIdentityKey, -, h⟩ := bind_eq_ok.1 h
  exact ⟨record, _, hload, (Except.ok.inj h).symm⟩

/-! ## Decrypting a pre-key message -/

/-- The ways through `session_cipher_decrypt_pre_key_signal_message`: it fails before the identity is saved, or after, or stores
the session and removes the pre-key. -/
theorem sessionCipherDecryptPreKeySignalMessage_cases (cipher : SessionCipher) (random : Nat → EcPrivateKey) (store : Store ctx)
    (message : PreKeySignalMessage) :
    let result := sessionCipherDecryptPreKeySignalMessage ctx cipher random store message
    (∃ code, result = (.error code, store)) ∨
    ∃ record preKeyId record', store.loadSession cipher.remoteAddress = .ok record ∧
      store.checkTrusted cipher.remoteAddress message.identityKey = .ok () ∧
      processPreKeySignalMessageV3 store record message = .ok (preKeyId, record') ∧
      ((∃ code, result = (.error code, store.identitySaveIdentity cipher.remoteAddress message.identityKey)) ∨
        ∃ plaintext record'', decryptFromRecord ctx random record' message.message = .ok (plaintext, record'') ∧
          result = (.ok plaintext,
            let store := (store.identitySaveIdentity cipher.remoteAddress message.identityKey).storeSession cipher.remoteAddress record''
            match preKeyId with
            | none => store
            | some preKeyId => store.preKeyRemoveKey preKeyId)) := by
  unfold sessionCipherDecryptPreKeySignalMessage
  by_cases hinside : cipher.insideCallback
  · exact .inl ⟨_, by rw [if_pos hinside]⟩
  · rw [if_neg hinside]
    cases store.loadSession cipher.remoteAddress with
    | error code => exact .inl ⟨code, rfl⟩
    | ok record =>
      simp only
      obtain ⟨code, h⟩ | ⟨preKeyId, record', htrusted, hprocess, h⟩ :=
        processPreKeySignalMessage_cases store cipher.remoteAddress record message
      · exact .inl ⟨code, by rw [h]⟩
      · refine .inr ⟨record, preKeyId, record', rfl, htrusted, hprocess, ?_⟩
        rw [h]
        simp only
        cases decryptFromRecord ctx random record' message.message with
        | error code => exact .inl ⟨code, rfl⟩
        | ok result =>
          simp only
          by_cases hcallback : cipher.callback result.1 < 0
          · exact .inl ⟨_, by rw [if_pos hcallback]⟩
          · refine .inr ⟨result.1, result.2, rfl, ?_⟩
            rw [if_neg hcallback]
            cases preKeyId <;> rfl

end Osp.Signal
