import Osp.Signal.Lemmas.PreKeys
import Osp.Signal.Sample

/-!
# Failed decryptions

What the stores hold after a message was not decrypted.
-/

namespace Osp.Signal

variable {ctx : Context}

/-- A message that is not decrypted changes nothing in the stores, except that a pre-key message from a trusted sender which the
session builder could process has its identity key saved, before it is decrypted. -/
theorem failed_decryption_stores (cipher : SessionCipher) (random : Nat → EcPrivateKey) (store : Store ctx) :
    (∀ message code, (sessionCipherDecryptSignalMessage ctx cipher random store message).1 = .error code →
      (sessionCipherDecryptSignalMessage ctx cipher random store message).2 = store) ∧
    (∀ (message : PreKeySignalMessage) (code : Int),
      (sessionCipherDecryptPreKeySignalMessage ctx cipher random store message).1 = .error code →
      (sessionCipherDecryptPreKeySignalMessage ctx cipher random store message).2 = store ∨
      (sessionCipherDecryptPreKeySignalMessage ctx cipher random store message).2 =
          store.identitySaveIdentity cipher.remoteAddress message.identityKey ∧
        store.checkTrusted cipher.remoteAddress message.identityKey = .ok () ∧
        ∃ record result, store.loadSession cipher.remoteAddress = .ok record ∧
          processPreKeySignalMessageV3 store record message = .ok result) := by
  refine ⟨fun message code h => sessionCipherDecryptSignalMessage_error h, fun message code h => ?_⟩
  obtain ⟨code', hcase⟩ | ⟨record, preKeyId, record', hload, htrusted, hprocess, ⟨code', hcase⟩ | ⟨plaintext, record'', -, hcase⟩⟩ :=
    sessionCipherDecryptPreKeySignalMessage_cases cipher random store message
  · exact .inl (by rw [hcase])
  · exact .inr ⟨by rw [hcase], htrusted, record, _, hload, hprocess⟩
  · rw [hcase] at h
    cases h

/-- A message whose MAC is wrong. -/
def sampleForgery : SignalMessage :=
  { sampleMessage 0 [1] with
    serialized := List.replicate 9 1
    le_length_serialized := by decide }

/-- Bob has no session with Alice, so a forged message from her leaves his store as it is; a forged pre-key message leaves at
most her identity key. -/
theorem failed_decryption_stores_forgery :
    (sessionCipherDecryptSignalMessage sampleContext sampleBobCipher (fun _ => sampleKey 6) sampleBobStore sampleForgery).2 =
      sampleBobStore ∧
    (sessionCipherDecryptPreKeySignalMessage sampleContext sampleBobCipher (fun _ => sampleKey 6) sampleBobStore
        (samplePreKeyMessage sampleForgery)).2.sessions = sampleBobStore.sessions := by
  have h := failed_decryption_stores sampleBobCipher (fun _ => sampleKey 6) sampleBobStore
  refine ⟨h.1 sampleForgery sgErrNoSession (by decide), ?_⟩
  rcases h.2 (samplePreKeyMessage sampleForgery) sgErrInvalidMessage (by decide) with hsame | ⟨hsaved, -⟩
  · rw [hsame]
  · rfl

/-- A pre-key message whose MAC is wrong is refused, but its identity key has been saved. -/
theorem failed_decryption_saves_identity :
    (sessionCipherDecryptPreKeySignalMessage sampleContext sampleBobCipher (fun _ => sampleKey 6) sampleBobStore
        (samplePreKeyMessage sampleForgery)).1 = .error sgErrInvalidMessage ∧
    sampleBobStore.identities (sampleAddress .responder) = none ∧
    (sessionCipherDecryptPreKeySignalMessage sampleContext sampleBobCipher (fun _ => sampleKey 6) sampleBobStore
        (samplePreKeyMessage sampleForgery)).2.identities (sampleAddress .responder) = some (samplePair 1).publicKey := by
  decide

end Osp.Signal
