import Osp.Signal.LocalStorage
import Osp.Signal.Ratchet

/-!
# Sender keys

`sender_key.c`, `sender_key_state.c` and `sender_key_record.c`: the chain of keys that the sender of a group encrypts with, and
what the members of the group keep of it.
-/

namespace Osp.Signal

open Osp.Lib

variable (p : CryptoProvider) (k : SenderChainKey)

/-! ## The chain -/

/-- `sender_message_key` -/
structure SenderMessageKey where
  iteration : UInt32
  iv : Bytes
  cipherKey : Bytes
  seed : Bytes

/-- `sender_chain_key` -/
structure SenderChainKey where
  iteration : UInt32
  chainKey : Bytes

/-- `info_material` of `sender_message_key_create` -/
def whisperGroup : Bytes := ascii ['W', 'h', 'i', 's', 'p', 'e', 'r', 'G', 'r', 'o', 'u', 'p']

/-- `sender_message_key_create` -/
def senderMessageKeyCreate (iteration : UInt32) (seed : Bytes) : SenderMessageKey :=
  let derivative := hkdfDeriveSecrets p .three seed zeroSalt whisperGroup 48
  ⟨iteration, derivative.take 16, derivative.drop 16, seed⟩

namespace SenderChainKey

/-- `sender_chain_key_get_derivative` -/
def getDerivative (key : SenderChainKey) (seed : UInt8) : Bytes := p.hmacSha256 key.chainKey [seed]

/-- `sender_chain_key_create_message_key` -/
def createMessageKey (key : SenderChainKey) : SenderMessageKey :=
  senderMessageKeyCreate p key.iteration (key.getDerivative p 0x01)

/-- `sender_chain_key_create_next`: the iteration is a `uint32_t` and wraps. -/
def createNext (key : SenderChainKey) : SenderChainKey := ⟨key.iteration + 1, key.getDerivative p 0x02⟩

end SenderChainKey

/-- The chain keys of a sender, as a chain of keys. -/
def senderChain : KeyChain SenderChainKey SenderMessageKey where
  next := SenderChainKey.createNext p
  keys := SenderChainKey.createMessageKey p
  index := SenderChainKey.iteration
  counter := SenderMessageKey.iteration
  index_next := fun _ => rfl
  counter_keys := fun _ => rfl

@[simp] theorem senderChain_next : (senderChain p).next k = k.createNext p := rfl

@[simp] theorem senderChain_keys : (senderChain p).keys k = k.createMessageKey p := rfl

@[simp] theorem senderChain_index : (senderChain p).index k = k.iteration := rfl

/-! ## States -/

/-- `sender_key_state`, its list of message keys oldest first. -/
structure SenderKeyState where
  keyId : UInt32
  chainKey : SenderChainKey
  signaturePublicKey : EcPublicKey
  signaturePrivateKey : Option EcPrivateKey
  messageKeys : List SenderMessageKey

namespace SenderKeyState

/-- `MAX_MESSAGE_KEYS` -/
def maxMessageKeys : Nat := 2000

/-- `sender_key_state_create` -/
def create (id : UInt32) (chainKey : SenderChainKey) (signaturePublicKey : EcPublicKey)
    (signaturePrivateKey : Option EcPrivateKey) : SenderKeyState :=
  ⟨id, chainKey, signaturePublicKey, signaturePrivateKey, []⟩

/-- `sender_key_state_add_sender_message_key`: appended, then the oldest are dropped while there are more than
`MAX_MESSAGE_KEYS`. -/
def addSenderMessageKey (state : SenderKeyState) (messageKey : SenderMessageKey) : SenderKeyState :=
  { state with messageKeys := lastN maxMessageKeys (state.messageKeys ++ [messageKey]) }

/-- `sender_key_state_has_sender_message_key` and `sender_key_state_remove_sender_message_key`, which the only caller calls one
after the other. -/
def removeSenderMessageKey (state : SenderKeyState) (iteration : UInt32) : Option (SenderMessageKey × SenderKeyState) :=
  match state.messageKeys.find? (·.iteration == iteration) with
  | none => none
  | some key => some (key, { state with messageKeys := state.messageKeys.eraseP (·.iteration == iteration) })

/-- `sender_key_state_set_chain_key` -/
def setChainKey (state : SenderKeyState) (chainKey : SenderChainKey) : SenderKeyState := { state with chainKey }

/-- `sender_key_state_serialize_prepare` -/
def serializePrepare (state : SenderKeyState) : SenderKeyStateStructure where
  senderKeyId := some state.keyId
  senderChainKey := some ⟨some state.chainKey.iteration, some state.chainKey.chainKey⟩
  senderSigningKey := some ⟨some state.signaturePublicKey.serialize, state.signaturePrivateKey.map EcPrivateKey.serialize⟩
  senderMessageKeys := state.messageKeys.map fun key => ⟨some key.iteration, some key.seed⟩

end SenderKeyState

/-- The chain key that `sender_key_state_deserialize_protobuf` makes, if its members are there. -/
def SeedStructure.chainKey (chainKey : SeedStructure) : Option SenderChainKey :=
  match chainKey with
  | ⟨some iteration, some seed⟩ => some ⟨iteration, seed⟩
  | _ => none

/-- The message key that `sender_key_state_deserialize_protobuf` makes again from its seed; an incomplete one is skipped. -/
def SeedStructure.messageKey (messageKey : SeedStructure) : Option SenderMessageKey :=
  match messageKey with
  | ⟨some iteration, some seed⟩ => some (senderMessageKeyCreate p iteration seed)
  | _ => none

/-- `sender_key_state_deserialize_protobuf` -/
def SenderKeyStateStructure.deserialize (structure' : SenderKeyStateStructure) :
    Except Int SenderKeyState := do
  let publicKey ← (structure'.senderSigningKey.bind SenderSigningKeyStructure.publicKey).mapM curveDecodePoint
  let privateKey ← (structure'.senderSigningKey.bind SenderSigningKeyStructure.privateKey).mapM curveDecodePrivatePoint
  match structure'.senderKeyId, structure'.senderChainKey.bind SeedStructure.chainKey, publicKey with
  | some id, some chainKey, some publicKey =>
    return (structure'.senderMessageKeys.filterMap (SeedStructure.messageKey p)).foldl SenderKeyState.addSenderMessageKey
      (SenderKeyState.create id chainKey publicKey privateKey)
  | _, _, _ => .error sgErrInvalidProtoBuf

/-! ## Records -/

/-- `sender_key_record`, its list of states newest first. -/
structure SenderKeyRecord where
  states : List SenderKeyState

namespace SenderKeyRecord

variable (record : SenderKeyRecord)

/-- `MAX_STATES` -/
def maxStates : Nat := 5

/-- `sender_key_record_create` -/
def create : SenderKeyRecord := ⟨[]⟩

/-- `sender_key_record_is_empty` -/
def isEmpty : Bool := record.states.isEmpty

/-- `sender_key_record_get_sender_key_state` -/
def getSenderKeyState : Except Int SenderKeyState :=
  match record.states with
  | [] => .error sgErrInvalidKeyId
  | state :: _ => .ok state

/-- `sender_key_record_get_sender_key_state_by_id` -/
def getSenderKeyStateById (keyId : UInt32) : Except Int SenderKeyState :=
  match record.states.find? (·.keyId == keyId) with
  | none => .error sgErrInvalidKeyId
  | some state => .ok state

/-- A change of the state that `sender_key_record_get_sender_key_state_by_id` finds. -/
def updateSenderKeyStateById (keyId : UInt32) (f : SenderKeyState → SenderKeyState) :
    SenderKeyRecord :=
  ⟨updateFirst (·.keyId == keyId) f record.states⟩

/-- `sender_key_record_add_sender_key_state`: prepended, then the oldest are dropped while there are more than `MAX_STATES`. -/
def addSenderKeyState (id iteration : UInt32) (chainKey : Bytes) (signatureKey : EcPublicKey) :
    SenderKeyRecord :=
  ⟨(SenderKeyState.create id ⟨iteration, chainKey⟩ signatureKey none :: record.states).take maxStates⟩

/-- `sender_key_record_set_sender_key_state` -/
def setSenderKeyState (id iteration : UInt32) (chainKey : Bytes) (signatureKeyPair : EcKeyPair) : SenderKeyRecord :=
  ⟨[SenderKeyState.create id ⟨iteration, chainKey⟩ signatureKeyPair.publicKey (some signatureKeyPair.privateKey)]⟩

/-- `sender_key_record_serialize` -/
def serialize (k : StorageCodecs) (record : SenderKeyRecord) : k.senderKeyRecord.Buffer :=
  k.senderKeyRecord.pack ⟨record.states.map SenderKeyState.serializePrepare⟩

/-- `sender_key_record_deserialize` -/
def deserialize (k : StorageCodecs) (data : k.senderKeyRecord.Buffer) : Except Int SenderKeyRecord :=
  match k.senderKeyRecord.unpack data with
  | none => .error sgErrInvalidProtoBuf
  | some structure' => (structure'.senderKeyStates.mapM (SenderKeyStateStructure.deserialize p)).map SenderKeyRecord.mk

end SenderKeyRecord

end Osp.Signal
