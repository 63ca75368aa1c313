import Osp.Signal.LocalStorage
import Osp.Signal.SessionState

/-!
# Stored sessions

The serialisation of `session_state.c`, and `session_record.c`.
-/

namespace Osp.Signal

open EcPublicKey

/-! ## From the state to the message -/

/-- `session_state_serialize_prepare_chain_chain_key` -/
def RatchetChainKey.serializePrepare (chainKey : RatchetChainKey) : ChainKeyStructure :=
  ⟨some chainKey.index, some chainKey.key⟩

/-- `session_state_serialize_prepare_message_keys` -/
def RatchetMessageKeys.serializePrepare (keys : RatchetMessageKeys) : MessageKeyStructure :=
  ⟨some keys.counter, some keys.cipherKey, some keys.macKey, some keys.iv⟩

/-- `session_state_serialize_prepare_sender_chain` -/
def SenderChain.serializePrepare (chain : SenderChain) : ChainStructure where
  senderRatchetKey := chain.senderRatchetKeyPair.map fun pair => pair.publicKey.serialize
  senderRatchetKeyPrivate := chain.senderRatchetKeyPair.map fun pair => pair.privateKey.serialize
  chainKey := chain.chainKey.map RatchetChainKey.serializePrepare
  messageKeys := []

/-- `session_state_serialize_prepare_receiver_chain` -/
def ReceiverChain.serializePrepare (chain : ReceiverChain) : ChainStructure where
  senderRatchetKey := chain.senderRatchetKey.map serialize
  senderRatchetKeyPrivate := none
  chainKey := chain.chainKey.map RatchetChainKey.serializePrepare
  messageKeys := chain.messageKeys.map RatchetMessageKeys.serializePrepare

/-- `session_state_serialize_prepare_pending_key_exchange` -/
def PendingKeyExchange.serializePrepare (exchange : PendingKeyExchange) : PendingKeyExchangeStructure where
  sequence := some exchange.sequence
  localBaseKey := exchange.localBaseKey.map fun pair => pair.publicKey.serialize
  localBaseKeyPrivate := exchange.localBaseKey.map fun pair => pair.privateKey.serialize
  localRatchetKey := exchange.localRatchetKey.map fun pair => pair.publicKey.serialize
  localRatchetKeyPrivate := exchange.localRatchetKey.map fun pair => pair.privateKey.serialize
  localIdentityKey := exchange.localIdentityKey.map fun pair => pair.publicKey.serialize
  localIdentityKeyPrivate := exchange.localIdentityKey.map fun pair => pair.privateKey.serialize

/-- `session_state_serialize_prepare_pending_pre_key` -/
def PendingPreKey.serializePrepare (preKey : PendingPreKey) : PendingPreKeyStructure where
  preKeyId := preKey.preKeyId
  signedPreKeyId := some preKey.signedPreKeyId.toInt32
  baseKey := preKey.baseKey.map serialize

/-- `session_state_serialize_prepare` -/
def SessionState.serializePrepare (state : SessionState) : SessionStructure where
  sessionVersion := some state.sessionVersion
  localIdentityPublic := state.localIdentityPublic.map serialize
  remoteIdentityPublic := state.remoteIdentityPublic.map serialize
  rootKey := state.rootKey.map RatchetRootKey.key
  previousCounter := some state.previousCounter
  senderChain := state.senderChain.map SenderChain.serializePrepare
  receiverChains := state.receiverChains.map ReceiverChain.serializePrepare
  pendingKeyExchange := state.pendingKeyExchange.map PendingKeyExchange.serializePrepare
  pendingPreKey := state.pendingPreKey.map PendingPreKey.serializePrepare
  remoteRegistrationId := some state.remoteRegistrationId
  localRegistrationId := some state.localRegistrationId
  needsRefresh := some state.needsRefresh
  aliceBaseKey := state.aliceBaseKey.map serialize

/-! ## From the message to the state -/

/-- The pointer in an unpacked `bytes` field: protobuf-c leaves it null when the field is empty. -/
def binaryData (field : Bytes) : Option Bytes := if field = [] then none else some field

/-- `ratchet_chain_key_create`, which refuses a null key. -/
def ratchetChainKeyCreate (kdf : HkdfContext) (key : Option Bytes) (index : UInt32) : Except Int RatchetChainKey :=
  match key with
  | some key => .ok ⟨kdf, key, index⟩
  | none => .error sgErrInval

/-- `ratchet_root_key_create`, which refuses a null key. -/
def ratchetRootKeyCreate (kdf : HkdfContext) (key : Option Bytes) : Except Int RatchetRootKey :=
  match key with
  | some key => .ok ⟨kdf, key⟩
  | none => .error sgErrInval

/-- A field that is decoded when it is present. -/
def decodeOptional {α : Type} (decode : Bytes → Except Int α) : Option Bytes → Except Int (Option α)
  | some field => (decode field).map some
  | none => .ok none

/-- A key pair is decoded when both of its halves are present. -/
def decodeKeyPair : Option Bytes → Option Bytes → Except Int (Option EcKeyPair)
  | some publicField, some privateField => do
    let publicKey ← curveDecodePoint publicField
    let privateKey ← curveDecodePrivatePoint privateField
    return some ⟨publicKey, privateKey⟩
  | _, _ => .ok none

/-- The chain key of a chain, when the structure has both its index and its key: with the KDF of the session version. -/
def deserializeChainKey (sessionVersion : UInt32) : Option ChainKeyStructure → Except Int (Option RatchetChainKey)
  | some ⟨some index, some key⟩ => do
    let kdf ← hkdfCreate sessionVersion
    let chainKey ← ratchetChainKeyCreate kdf (binaryData key) index
    return some chainKey
  | _ => .ok none

/-- A fixed-size array that is copied only from a field of the same size, and zero otherwise. -/
def fixedBytes (n : Nat) (field : Option Bytes) : Bytes :=
  match field with
  | some bytes => if bytes.length = n then bytes else List.replicate n 0
  | none => List.replicate n 0

@[simp] theorem length_fixedBytes (n : Nat) (field : Option Bytes) : (fixedBytes n field).length = n := by
  unfold fixedBytes
  split
  · split <;> simp_all
  · simp

/-- The message keys of a chain structure. -/
def MessageKeyStructure.deserialize (keys : MessageKeyStructure) : RatchetMessageKeys where
  cipherKey := fixedBytes 32 keys.cipherKey
  macKey := fixedBytes 32 keys.macKey
  iv := fixedBytes 16 keys.iv
  counter := keys.index.getD 0
  length_cipherKey := length_fixedBytes ..
  length_macKey := length_fixedBytes ..
  length_iv := length_fixedBytes ..

/-- `session_state_deserialize_protobuf_sender_chain` -/
def ChainStructure.deserializeSenderChain (sessionVersion : UInt32) (chain : ChainStructure) : Except Int SenderChain := do
  let senderRatchetKeyPair ← decodeKeyPair chain.senderRatchetKey chain.senderRatchetKeyPrivate
  let senderChainKey ← deserializeChainKey sessionVersion chain.chainKey
  return ⟨senderRatchetKeyPair, senderChainKey⟩

/-- The sender chain of a state that is read: the result of reading it is not looked at, so a chain that cannot be read leaves the
state with a sender chain without keys. -/
def ChainStructure.readSenderChain (sessionVersion : UInt32) (chain : ChainStructure) : SenderChain :=
  match chain.deserializeSenderChain sessionVersion with
  | .ok chain => chain
  | .error _ => ⟨none, none⟩

/-- `session_state_deserialize_protobuf_receiver_chain` -/
def ChainStructure.deserializeReceiverChain (sessionVersion : UInt32) (chain : ChainStructure) :
    Except Int ReceiverChain := do
  let senderRatchetKey ← decodeOptional curveDecodePoint chain.senderRatchetKey
  let chainKey ← deserializeChainKey sessionVersion chain.chainKey
  return ⟨senderRatchetKey, chainKey, chain.messageKeys.map MessageKeyStructure.deserialize⟩

/-- `session_state_deserialize_protobuf_pending_key_exchange` -/
def PendingKeyExchangeStructure.deserialize (exchange : PendingKeyExchangeStructure) : Except Int PendingKeyExchange := do
  let localBaseKey ← decodeKeyPair exchange.localBaseKey exchange.localBaseKeyPrivate
  let localRatchetKey ← decodeKeyPair exchange.localRatchetKey exchange.localRatchetKeyPrivate
  let localIdentityKey ← decodeKeyPair exchange.localIdentityKey exchange.localIdentityKeyPrivate
  return ⟨exchange.sequence.getD 0, localBaseKey, localRatchetKey, localIdentityKey⟩

/-- `session_state_deserialize_protobuf_pending_pre_key` -/
def PendingPreKeyStructure.deserialize (preKey : PendingPreKeyStructure) : Except Int PendingPreKey := do
  let baseKey ← decodeOptional curveDecodePoint preKey.baseKey
  return ⟨preKey.preKeyId, (preKey.signedPreKeyId.map Int32.toUInt32).getD 0, baseKey⟩

/-- The root key of a session structure: with the KDF of the session version. -/
def deserializeRootKey (sessionVersion : UInt32) : Option Bytes → Except Int (Option RatchetRootKey)
  | some key => do
    let kdf ← hkdfCreate sessionVersion
    let rootKey ← ratchetRootKeyCreate kdf (binaryData key)
    return some rootKey
  | none => .ok none

/-- `session_state_deserialize_protobuf` -/
def SessionStructure.deserialize (session : SessionStructure) : Except Int SessionState := do
  let sessionVersion := session.sessionVersion.getD SessionState.create.sessionVersion
  let localIdentityPublic ← decodeOptional curveDecodePoint session.localIdentityPublic
  let remoteIdentityPublic ← decodeOptional curveDecodePoint session.remoteIdentityPublic
  let rootKey ← deserializeRootKey sessionVersion session.rootKey
  let senderChain := session.senderChain.map (ChainStructure.readSenderChain sessionVersion)
  let receiverChains ← session.receiverChains.mapM (ChainStructure.deserializeReceiverChain sessionVersion)
  let pendingKeyExchange ← session.pendingKeyExchange.mapM PendingKeyExchangeStructure.deserialize
  let pendingPreKey ← session.pendingPreKey.mapM PendingPreKeyStructure.deserialize
  let aliceBaseKey ← decodeOptional curveDecodePoint session.aliceBaseKey
  return {
    sessionVersion, localIdentityPublic, remoteIdentityPublic, rootKey, senderChain, receiverChains, pendingKeyExchange,
    pendingPreKey, aliceBaseKey
    previousCounter := session.previousCounter.getD 0
    remoteRegistrationId := session.remoteRegistrationId.getD 0
    localRegistrationId := session.localRegistrationId.getD 0
    needsRefresh := session.needsRefresh.getD false }

/-- `session_state_serialize` -/
def sessionStateSerialize (k : StorageCodecs) (state : SessionState) : k.session.Buffer :=
  k.session.pack state.serializePrepare

/-- `session_state_deserialize` -/
def sessionStateDeserialize (k : StorageCodecs) (data : k.session.Buffer) : Except Int SessionState :=
  match k.session.unpack data with
  | some session => session.deserialize
  | none => .error sgErrInvalidProtoBuf

/-- `session_state_copy` -/
def sessionStateCopy (k : StorageCodecs) (state : SessionState) : Except Int SessionState :=
  sessionStateDeserialize k (sessionStateSerialize k state)

/-! ## Records -/

/-- `session_record`: the current state, never null, and the archived ones, newest first. -/
structure SessionRecord where
  state : SessionState
  previousStates : List SessionState
  isFresh : Bool
deriving DecidableEq

namespace SessionRecord

variable (record : SessionRecord)

/-- `ARCHIVED_STATES_MAX_LENGTH` -/
def archivedStatesMaxLength : Nat := 40

/-- `session_record_create` -/
def create (state : Option SessionState) : SessionRecord :=
  match state with
  | none => ⟨SessionState.create, [], true⟩
  | some state => ⟨state, [], false⟩

/-- `session_record_serialize` -/
def serialize (k : StorageCodecs) (record : SessionRecord) : k.record.Buffer :=
  k.record.pack ⟨some record.state.serializePrepare, record.previousStates.map SessionState.serializePrepare⟩

/-- `session_record_deserialize` -/
def deserialize (k : StorageCodecs) (data : k.record.Buffer) : Except Int SessionRecord :=
  match k.record.unpack data with
  | none => .error sgErrInvalidProtoBuf
  | some structure' => do
    let currentState ← structure'.currentSession.mapM SessionStructure.deserialize
    let previousStates ← structure'.previousSessions.mapM SessionStructure.deserialize
    return { create currentState with isFresh := false, previousStates }

/-- The states of the record, the current one first. -/
def states : List SessionState := record.state :: record.previousStates

/-- `session_record_has_session_state` -/
def hasSessionState (version : UInt32) (aliceBaseKey : Option EcPublicKey) : Bool :=
  record.states.any fun state => state.sessionVersion == version && state.aliceBaseKey == aliceBaseKey

/-- `session_record_set_state` -/
def setState (state : SessionState) : SessionRecord := { record with state }

/-- `session_record_promote_state` -/
def promoteState (promotedState : SessionState) : SessionRecord :=
  { record with
    state := promotedState
    previousStates := (record.state :: record.previousStates).take archivedStatesMaxLength }

/-- `session_record_archive_current_state` -/
def archiveCurrentState : SessionRecord := record.promoteState SessionState.create

end SessionRecord

end Osp.Signal
