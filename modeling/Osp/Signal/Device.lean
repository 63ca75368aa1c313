import Osp.Signal.SessionCipher

/-!
# A device and its requests

One store, and what is asked of the library in the course of time: sessions are built from bundles, messages are encrypted, and
whatever arrives is read and decrypted, however often it arrives. A `Device` also records the base keys that were generated or
read so far.
-/

namespace Osp.Signal

/-- The base key of the session, beside its version. -/
def SessionState.baseKey (state : SessionState) : Option (UInt32 × EcPublicKey) :=
  state.aliceBaseKey.map fun key => (state.sessionVersion, key)

/-- The base keys of the states of a record. -/
def SessionRecord.baseKeys (record : SessionRecord) : List (UInt32 × EcPublicKey) := record.states.filterMap SessionState.baseKey

/-- A store, and the base keys that have been seen. -/
structure Device (ctx : Context) where
  store : Store ctx
  seen : List EcPublicKey

/-- What is asked of the library. Messages are given as they arrive; private keys that may be drawn are part of the request. -/
inductive Request
  | processBundle (address : Address) (bundle : PreKeyBundle) (randomBase randomRatchet : EcPrivateKey)
  | encrypt (cipher : SessionCipher) (plaintext : Bytes)
  | decryptPreKeyMessage (cipher : SessionCipher) (data : Bytes) (random : Nat → EcPrivateKey)
  | decryptMessage (cipher : SessionCipher) (data : Bytes) (random : Nat → EcPrivateKey)

namespace Device

variable {ctx : Context}

/-- The device after a request. -/
def step (d : Device ctx) : Request → Device ctx
  | .processBundle address bundle randomBase randomRatchet =>
    ⟨(processPreKeyBundle d.store address bundle randomBase randomRatchet).2, ctx.crypto.publicKey randomBase :: d.seen⟩
  | .encrypt cipher plaintext => { d with store := (sessionCipherEncrypt ctx cipher d.store plaintext).2 }
  | .decryptPreKeyMessage cipher data random =>
    match preKeySignalMessageDeserialize ctx.wire data with
    | .error _ => d
    | .ok message =>
      ⟨(sessionCipherDecryptPreKeySignalMessage ctx cipher random d.store message).2, message.baseKey :: d.seen⟩
  | .decryptMessage cipher data random =>
    match signalMessageDeserialize ctx.wire data with
    | .error _ => d
    | .ok message => { d with store := (sessionCipherDecryptSignalMessage ctx cipher random d.store message).2 }

/-- A base key that is generated has not been seen before. -/
def Fresh (d : Device ctx) : Request → Prop
  | .processBundle _ _ randomBase _ => ctx.crypto.publicKey randomBase ∉ d.seen
  | _ => True

/-- The requests of a run, from one device to another. -/
inductive Runs (d₀ : Device ctx) : Device ctx → Prop
  | refl : Runs d₀ d₀
  | step {d : Device ctx} {request : Request} : Runs d₀ d → d.Fresh request → Runs d₀ (d.step request)

end Device

end Osp.Signal
