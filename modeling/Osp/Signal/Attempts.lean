import Osp.Signal.Conversation

/-!
# Decryption attempts

A sequence of messages that are decrypted with one state, whatever they are and whoever made them. After a failed attempt the
state is either kept as `session_cipher_decrypt_from_state_and_signal_message` leaves it or, as in its callers, the one from
before.
-/

namespace Osp.Signal

open Osp.Lib

/-- What the first receiver chain for a ratchet key holds, if it has a key. -/
def SessionState.receiver (state : SessionState) (e : EcPublicKey) : Option (Receiver RatchetChainKey RatchetMessageKeys) :=
  (state.findReceiverChain e).bind fun chain => chain.chainKey.map fun chainKey => ⟨chainKey, chain.messageKeys⟩

/-- The key that a new receiver chain would begin with. -/
def SessionState.newChainKey (p : CryptoProvider) (state : SessionState) (e : EcPublicKey) : Option RatchetChainKey :=
  state.rootKey.bind fun rootKey => state.getSenderRatchetKeyPair.map fun our => (rootKey.createChain p e our.privateKey).2

/-- An attempt to decrypt a message, with the private key that is drawn if a chain has to be made, and whether the state is kept
when the attempt fails. -/
structure Attempt where
  message : SignalMessage
  random : EcPrivateKey
  keep : Bool

variable (ctx : Context)

namespace Attempt

variable (e : EcPublicKey) (state : SessionState) (a : Attempt)

/-- The result of the attempt. -/
def result : Except Int Bytes := (decryptFromState ctx a.random state a.message).1

/-- The state after the attempt. -/
def run : SessionState :=
  match decryptFromState ctx a.random state a.message with
  | (.ok _, state') => state'
  | (.error _, state') => if a.keep then state' else state

/-- The message keys with which the attempt succeeds. -/
def keysUsed : Option RatchetMessageKeys :=
  match a.result ctx state, (messageKeysFor ctx a.random state a.message.senderRatchetKey a.message.counter).1 with
  | .ok _, .ok keys => some keys
  | _, _ => none

/-- The message keys with which the attempt succeeds, if it is on the receiver chain for the ratchet key. -/
def usedFor : Option RatchetMessageKeys :=
  if a.message.senderRatchetKey = e then a.keysUsed ctx state else none

/-- The attempt drops no receiver chain for the ratchet key. -/
def Retains : Prop :=
  state.receiverChains.countP (ReceiverChain.isFor e) ≤ (a.run ctx state).receiverChains.countP (ReceiverChain.isFor e)

/-- The attempt does not make the index of the chain for the ratchet key start again. -/
def NoWrap : Prop :=
  state.receiverIndex e ≤ (a.run ctx state).receiverIndex e

instance : Decidable (a.Retains ctx e state) := by
  delta Retains
  infer_instance

instance : Decidable (a.NoWrap ctx e state) := by
  delta NoWrap
  infer_instance

end Attempt

/-- The state after a sequence of attempts. -/
def runAttempts (state : SessionState) (attempts : List Attempt) : SessionState := attempts.foldl (Attempt.run ctx) state

/-- A property of every attempt of a sequence, in the state it is made in. -/
def Along (P : SessionState → Attempt → Prop) : SessionState → List Attempt → Prop
  | _, [] => True
  | state, a :: attempts => P state a ∧ Along P (a.run ctx state) attempts

instance {P : SessionState → Attempt → Prop} [∀ state a, Decidable (P state a)] :
    ∀ (state : SessionState) (attempts : List Attempt), Decidable (Along ctx P state attempts)
  | _, [] => .isTrue trivial
  | state, a :: attempts =>
    have : Decidable (Along ctx P (a.run ctx state) attempts) := instDecidableAlong (a.run ctx state) attempts
    inferInstanceAs (Decidable (P state a ∧ Along ctx P (a.run ctx state) attempts))

/-- The message keys with which the attempts under a ratchet key succeed, in order. -/
def usedKeys (e : EcPublicKey) : SessionState → List Attempt → List RatchetMessageKeys
  | _, [] => []
  | state, a :: attempts => (a.usedFor ctx e state).toList ++ usedKeys e (a.run ctx state) attempts

/-- The receiver chain for a ratchet key as it is in the beginning, or as it is when an attempt has made it. -/
def firstReceiver (e : EcPublicKey) : SessionState → List Attempt → Option (Receiver RatchetChainKey RatchetMessageKeys)
  | state, [] => state.receiver e
  | state, a :: attempts =>
    match state.receiver e with
    | some r => some r
    | none =>
      if ((a.run ctx state).receiver e).isSome then (state.newChainKey ctx.crypto e).map fun chainKey => ⟨chainKey, []⟩
      else firstReceiver e (a.run ctx state) attempts

/-- The first receiver chain for the ratchet key, if there is one, has a key, and its skipped counters are distinct and below the
index of that key. -/
def SessionState.OrderedFor (p : CryptoProvider) (state : SessionState) (e : EcPublicKey) : Prop :=
  ∀ chain, state.findReceiverChain e = some chain → ∃ r, state.receiver e = some r ∧ r.Ordered (ratchetChain p)

end Osp.Signal
