import Osp.Signal.GroupCipher

/-!
# A group

The sender of a group and one of its members. In a `GroupChat` the sender encrypts, and any message ever made may be delivered to the
member at any time; beside the two stores it records what was sent and received, and which skipped keys the member has dropped
because of the limit. A `Member` processes distribution messages and decrypts messages in any order, whoever made them.
-/

namespace Osp.Signal

open Osp.Lib

variable {ctx : Context} (name : SenderKeyName)

/-- The cipher for a sender key name. -/
def GroupCipher.plain : GroupCipher := ⟨name, none, false⟩

namespace SenderKeyStore

variable (store : SenderKeyStore ctx)

/-- The state for a key id. -/
def stateById (keyId : UInt32) : Option SenderKeyState :=
  match store.loadKey name with
  | .ok record => record.states.find? (·.keyId == keyId)
  | .error _ => none

/-- The iteration of the chain for a key id. -/
def iterationOf (keyId : UInt32) : UInt32 := ((store.stateById name keyId).map fun state => state.chainKey.iteration).getD 0

/-- The iterations of the skipped keys for a key id. -/
def skippedOf (keyId : UInt32) : List UInt32 :=
  ((store.stateById name keyId).map fun state => state.messageKeys.map SenderMessageKey.iteration).getD []

/-- The iteration at which a text would be encrypted. -/
def nextIteration : UInt32 :=
  match store.loadKey name with
  | .ok ⟨state :: _⟩ => state.chainKey.iteration
  | _ => 0

end SenderKeyStore

/-! ## A sender and a receiver -/

/-- The stores of the sender and of a receiver, and what has happened so far. -/
structure GroupChat (ctx : Context) where
  sender : SenderKeyStore ctx
  receiver : SenderKeyStore ctx
  sent : List (SenderKeyMessage × Bytes)
  received : List SenderKeyMessage
  evicted : List UInt32

/-- A text is encrypted, with the randomness of its signature, or a message is delivered. -/
inductive GroupEvent
  | encrypt (plaintext random : Bytes)
  | deliver (message : SenderKeyMessage)

namespace GroupChat

variable (g : GroupChat ctx)

/-- The receiver decrypts a message: the plaintext, or the code, and its store. -/
def decrypt (message : SenderKeyMessage) : Except Int Bytes × SenderKeyStore ctx :=
  groupCipherDecrypt ctx (GroupCipher.plain name) g.receiver message

/-- The group after a text was encrypted. -/
def encrypted (plaintext random : Bytes) : GroupChat ctx :=
  let result := groupCipherEncrypt ctx (GroupCipher.plain name) g.sender plaintext random
  { g with
    sender := result.2
    sent := match result.1 with
      | .ok message => (message, plaintext) :: g.sent
      | .error _ => g.sent }

/-- The group after a message was delivered. A skipped key that was held before and is not held after has been evicted, except
the key of the message itself, which has been used. -/
def delivered (message : SenderKeyMessage) : GroupChat ctx :=
  let result := g.decrypt name message
  { g with
    receiver := result.2
    received := match result.1 with
      | .ok _ => message :: g.received
      | .error _ => g.received
    evicted := (g.receiver.skippedOf name message.keyId).filter
      (fun i => i ∉ result.2.skippedOf name message.keyId ∧ i ≠ message.iteration) ++ g.evicted }

/-- The group after an event. -/
def step : GroupEvent → GroupChat ctx
  | .encrypt plaintext random => g.encrypted name plaintext random
  | .deliver message => g.delivered name message

/-- Only messages that the sender made are delivered, and the sender does not use up the last iteration. -/
def Regular : GroupEvent → Prop
  | .encrypt _ _ => (g.sender.nextIteration name).toNat + 1 < 2 ^ 32
  | .deliver message => ∃ plaintext, (message, plaintext) ∈ g.sent

/-- Texts are encrypted, and nothing is delivered. -/
def Encrypting : GroupEvent → Prop
  | .encrypt plaintext random => g.Regular name (.encrypt plaintext random)
  | .deliver _ => False

/-- The groups that events of a kind lead to. -/
inductive Reaches (Ok : GroupChat ctx → GroupEvent → Prop) : GroupChat ctx → GroupChat ctx → Prop
  | refl (g : GroupChat ctx) : Reaches Ok g g
  | step {g g' : GroupChat ctx} {event : GroupEvent} : Reaches Ok g g' → Ok g' event → Reaches Ok g (g'.step name event)

end GroupChat

/-! ## A member -/

/-- The store of a member, and the messages it has decrypted, newest first. -/
structure Member (ctx : Context) where
  store : SenderKeyStore ctx
  decrypted : List SenderKeyMessage

/-- A member processes a distribution message, or decrypts a message. -/
inductive MemberEvent
  | process (message : SenderKeyDistributionMessage)
  | decrypt (message : SenderKeyMessage)

namespace Member

variable (a : Member ctx)

/-- The member after an event. -/
def step : MemberEvent → Member ctx
  | .process message => { a with store := (groupSessionBuilderProcessSession ctx a.store name message).2 }
  | .decrypt message =>
    let result := groupCipherDecrypt ctx (GroupCipher.plain name) a.store message
    { store := result.2
      decrypted := match result.1 with
        | .ok _ => message :: a.decrypted
        | .error _ => a.decrypted }

/-- A distribution message is ahead of every message of its key that has been decrypted, and no message has the last iteration,
after which the counter starts again. -/
def Advances : MemberEvent → Prop
  | .process message => ∀ m ∈ a.decrypted, m.keyId = message.id → m.iteration < message.iteration
  | .decrypt message => message.iteration.toNat + 1 < 2 ^ 32

/-- The members that events of a kind lead to. -/
inductive Reaches (Ok : Member ctx → MemberEvent → Prop) : Member ctx → Member ctx → Prop
  | refl (a : Member ctx) : Reaches Ok a a
  | step {a a' : Member ctx} {event : MemberEvent} : Reaches Ok a a' → Ok a' event → Reaches Ok a (a'.step name event)

end Member

end Osp.Signal
