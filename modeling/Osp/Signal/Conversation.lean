import Osp.Lib.DoubleRatchet
import Osp.Signal.SessionCipher

/-!
# Two parties with a session

Two stores, one for each end of a session, and what their owners do: encrypt a text, or decrypt some message that the other has
made. Messages in transit may be reordered, dropped and duplicated, so any message that was ever made may be delivered at any
time. Beside the stores a `Conversation` records what was sent and received, which receiver chains and skipped keys a party has
dropped because of the limits, and which ratchet keys were generated.
-/

namespace Osp.Signal

open Osp.Lib

/-! ## What a state holds -/

namespace SessionState

/-- The ratchet keys of the receiver chains. -/
def heldChains (state : SessionState) : List EcPublicKey := state.receiverChains.filterMap ReceiverChain.senderRatchetKey

/-- The skipped message keys, by ratchet key and counter. -/
def heldKeys (state : SessionState) : List (EcPublicKey × UInt32) :=
  state.receiverChains.flatMap fun chain =>
    match chain.senderRatchetKey with
    | some ratchetKey => chain.messageKeys.map fun keys => (ratchetKey, keys.counter)
    | none => []

/-- The index of a receiver chain; a chain that does not exist yet will start at `0`. -/
def receiverIndex (state : SessionState) (senderEphemeral : EcPublicKey) : UInt32 :=
  ((state.getReceiverChainKey senderEphemeral).map RatchetChainKey.index).getD 0

/-- The index of the sender chain. -/
def senderIndex (state : SessionState) : UInt32 := (state.getSenderChainKey.map RatchetChainKey.index).getD 0

end SessionState

/-- The current state of the session with an address. -/
def Store.sessionState {ctx : Context} (store : Store ctx) (address : Address) : SessionState :=
  match store.loadSession address with
  | .ok record => record.state
  | .error _ => SessionState.create

/-! ## Conversations -/

variable {ctx : Context}

/-- The stores of the two parties, and what has happened so far. -/
structure Conversation (ctx : Context) where
  store : Side → Store ctx
  sent : List (Side × SignalMessage × Bytes)
  received : List (Side × SignalMessage)
  evictedChains : Side → List EcPublicKey
  evictedKeys : Side → List (EcPublicKey × UInt32)
  generated : List EcPublicKey

/-- What a party does; the private key is the one that is drawn if the message needs a new chain. -/
inductive Event
  | encrypt (x : Side) (plaintext : Bytes)
  | deliver (x : Side) (message : SignalMessage) (random : EcPrivateKey)

namespace Conversation

variable (address : Side → Address) (w : Conversation ctx)

/-- The cipher of a party. -/
def cipher (x : Side) : SessionCipher := ⟨address x, none, false⟩

/-- The state of a party's session. -/
def state (x : Side) : SessionState := (w.store x).sessionState (address x)

/-- A party decrypts a message: the plaintext, or the code, and its store. -/
def decrypt (x : Side) (message : SignalMessage) (random : EcPrivateKey) : Except Int Bytes × Store ctx :=
  sessionCipherDecryptSignalMessage ctx (cipher address x) (fun _ => random) (w.store x) message

/-- The message would be the first on its receiver chain, so that a ratchet key has to be generated. -/
def needsKey (x : Side) (message : SignalMessage) : Bool :=
  ((w.state address x).getReceiverChainKey message.senderRatchetKey).isNone

/-- The conversation after a text was encrypted. -/
def encrypted (x : Side) (plaintext : Bytes) : Conversation ctx :=
  let result := sessionCipherEncrypt ctx (cipher address x) (w.store x) plaintext
  { w with
    store := Function.update w.store x result.2
    sent := match result.1 with
      | .ok (.signal message) => (x, message, plaintext) :: w.sent
      | _ => w.sent }

/-- The conversation after a message was delivered. A chain or a skipped key that was held before and is not held after has been
evicted, except the key of the message itself, which has been used. -/
def delivered (x : Side) (message : SignalMessage) (random : EcPrivateKey) : Conversation ctx :=
  let result := w.decrypt address x message random
  let before := w.state address x
  let after := result.2.sessionState (address x)
  { w with
    store := Function.update w.store x result.2
    received := match result.1 with
      | .ok _ => (x, message) :: w.received
      | .error _ => w.received
    evictedChains := Function.update w.evictedChains x
      (before.heldChains.filter (· ∉ after.heldChains) ++ w.evictedChains x)
    evictedKeys := Function.update w.evictedKeys x
      (before.heldKeys.filter (fun k => k ∉ after.heldKeys ∧ k ≠ (message.senderRatchetKey, message.counter)) ++
        w.evictedKeys x)
    generated := if w.needsKey address x message then ctx.crypto.publicKey random :: w.generated else w.generated }

/-- The conversation after an event. -/
def step : Event → Conversation ctx
  | .encrypt x plaintext => w.encrypted address x plaintext
  | .deliver x message random => w.delivered address x message random

/-- What is assumed of every event: only messages that the other party made are delivered, and a ratchet key that is generated is
one that was not generated before. -/
def Honest : Event → Prop
  | .encrypt _ _ => True
  | .deliver x message random =>
    (∃ plaintext, (x.other, message, plaintext) ∈ w.sent) ∧
    (w.needsKey address x message → ctx.crypto.publicKey random ∉ w.generated)

/-- The event does not use up the last index of a sender chain, and it is not an undetected forgery: a message whose receiver chain
was evicted, and for which a chain is made again from another root key, is rejected. -/
def Regular : Event → Prop
  | .encrypt x _ => (w.state address x).senderIndex.toNat + 1 < 2 ^ 32
  | .deliver x message random =>
    message.senderRatchetKey ∈ w.evictedChains x → ∃ code, (w.decrypt address x message random).1 = .error code

/-- The conversations that events of a kind lead to. -/
inductive Reaches (Ok : Conversation ctx → Event → Prop) : Conversation ctx → Conversation ctx → Prop
  | refl (w : Conversation ctx) : Reaches Ok w w
  | step {w w' : Conversation ctx} {event : Event} : Reaches Ok w w' → Ok w' event → Reaches Ok w (w'.step address event)

namespace Reaches

variable {address : Side → Address} {Ok : Conversation ctx → Event → Prop} {w₀ w w' : Conversation ctx}

theorem encrypt (h : Reaches address Ok w₀ w) (x : Side) (plaintext : Bytes) (hok : Ok w (.encrypt x plaintext)) :
    Reaches address Ok w₀ (w.encrypted address x plaintext) := .step h hok

theorem deliver (h : Reaches address Ok w₀ w) (x : Side) (message : SignalMessage) (random : EcPrivateKey)
    (hok : Ok w (.deliver x message random)) : Reaches address Ok w₀ (w.delivered address x message random) := .step h hok

theorem trans (h : Reaches address Ok w₀ w) (h' : Reaches address Ok w w') : Reaches address Ok w₀ w' := by
  induction h' with
  | refl => exact h
  | step _ hok ih => exact .step ih hok

end Reaches

end Conversation

/-! ## The beginning -/

/-- The key pair has the public key that belongs to its private key. -/
def EcKeyPair.Proper (p : CryptoProvider) (pair : EcKeyPair) : Prop := pair.publicKey = p.publicKey pair.privateKey

/-- The parameters of the two initialisers are about the same keys. -/
structure Matching (p : CryptoProvider) (alice : AliceParameters) (bob : BobParameters) : Prop where
  aliceIdentity : alice.ourIdentityKey.Proper p
  aliceBase : alice.ourBaseKey.Proper p
  bobIdentity : bob.ourIdentityKey.Proper p
  bobSigned : bob.ourSignedPreKey.Proper p
  bobOneTime : ∀ pair ∈ bob.ourOneTimePreKey, pair.Proper p
  bobRatchet : bob.ourRatchetKey.Proper p
  bobTheirIdentity : bob.theirIdentityKey = alice.ourIdentityKey.publicKey
  bobTheirBase : bob.theirBaseKey = alice.ourBaseKey.publicKey
  aliceTheirIdentity : alice.theirIdentityKey = bob.ourIdentityKey.publicKey
  aliceTheirSigned : alice.theirSignedPreKey = bob.ourSignedPreKey.publicKey
  aliceTheirOneTime : alice.theirOneTimePreKey = bob.ourOneTimePreKey.map EcKeyPair.publicKey
  aliceTheirRatchet : alice.theirRatchetKey = bob.ourRatchetKey.publicKey

/-- The two states right after `ratcheting_session_alice_initialize` and `ratcheting_session_bob_initialize`. -/
def initialState (p : CryptoProvider) (alice : AliceParameters) (bob : BobParameters) (random : EcPrivateKey) :
    Side → SessionState
  | .initiator => ratchetingSessionAliceInitialize p random SessionState.create alice
  | .responder => ratchetingSessionBobInitialize p SessionState.create bob

/-- The conversation in which both parties have just stored their session, in stores that are arbitrary otherwise. -/
def Conversation.start (address : Side → Address) (store : Side → Store ctx) (alice : AliceParameters) (bob : BobParameters)
    (random : EcPrivateKey) : Conversation ctx where
  store := fun x => (store x).storeSession (address x) (SessionRecord.create (some (initialState ctx.crypto alice bob random x)))
  sent := []
  received := []
  evictedChains := fun _ => []
  evictedKeys := fun _ => []
  generated := [ctx.crypto.publicKey random, bob.ourRatchetKey.publicKey]

end Osp.Signal
