import Osp.Lib.Bytes

/-!
# Stored messages

The messages of `LocalStorageProtocol.proto`. An optional field is an option, and a repeated one a list. The generated `pack` and
`unpack` functions are a parameter; the library never looks into a packed buffer.
-/

namespace Osp.Signal

/-- The `pack` and `unpack` functions that protobuf-c generates for a message. -/
structure Codec (α : Type) where
  Buffer : Type
  pack : α → Buffer
  unpack : Buffer → Option α

/-- Unpacking gives back what was packed. -/
def Codec.Inverse {α : Type} (c : Codec α) : Prop := ∀ a, c.unpack (c.pack a) = some a

/-- `SessionStructure.Chain.ChainKey` -/
structure ChainKeyStructure where
  index : Option UInt32
  key : Option Bytes

/-- `SessionStructure.Chain.MessageKey` -/
structure MessageKeyStructure where
  index : Option UInt32
  cipherKey : Option Bytes
  macKey : Option Bytes
  iv : Option Bytes

/-- `SessionStructure.Chain` -/
structure ChainStructure where
  senderRatchetKey : Option Bytes
  senderRatchetKeyPrivate : Option Bytes
  chainKey : Option ChainKeyStructure
  messageKeys : List MessageKeyStructure

/-- `SessionStructure.PendingKeyExchange` -/
structure PendingKeyExchangeStructure where
  sequence : Option UInt32
  localBaseKey : Option Bytes
  localBaseKeyPrivate : Option Bytes
  localRatchetKey : Option Bytes
  localRatchetKeyPrivate : Option Bytes
  localIdentityKey : Option Bytes
  localIdentityKeyPrivate : Option Bytes

/-- `SessionStructure.PendingPreKey`: the signed pre-key id is an `int32` there. -/
structure PendingPreKeyStructure where
  preKeyId : Option UInt32
  signedPreKeyId : Option Int32
  baseKey : Option Bytes

/-- `SessionStructure` -/
structure SessionStructure where
  sessionVersion : Option UInt32
  localIdentityPublic : Option Bytes
  remoteIdentityPublic : Option Bytes
  rootKey : Option Bytes
  previousCounter : Option UInt32
  senderChain : Option ChainStructure
  receiverChains : List ChainStructure
  pendingKeyExchange : Option PendingKeyExchangeStructure
  pendingPreKey : Option PendingPreKeyStructure
  remoteRegistrationId : Option UInt32
  localRegistrationId : Option UInt32
  needsRefresh : Option Bool
  aliceBaseKey : Option Bytes

/-- `RecordStructure` -/
structure RecordStructure where
  currentSession : Option SessionStructure
  previousSessions : List SessionStructure

/-- `PreKeyRecordStructure` -/
structure PreKeyRecordStructure where
  id : Option UInt32
  publicKey : Option Bytes
  privateKey : Option Bytes

/-- `SignedPreKeyRecordStructure` -/
structure SignedPreKeyRecordStructure where
  id : Option UInt32
  publicKey : Option Bytes
  privateKey : Option Bytes
  signature : Option Bytes
  timestamp : Option UInt64

/-- `SenderKeyStateStructure.SenderChainKey` and `SenderKeyStateStructure.SenderMessageKey`, which have the same fields. -/
structure SeedStructure where
  iteration : Option UInt32
  seed : Option Bytes

/-- `SenderKeyStateStructure.SenderSigningKey` -/
structure SenderSigningKeyStructure where
  publicKey : Option Bytes
  privateKey : Option Bytes

/-- `SenderKeyStateStructure` -/
structure SenderKeyStateStructure where
  senderKeyId : Option UInt32
  senderChainKey : Option SeedStructure
  senderSigningKey : Option SenderSigningKeyStructure
  senderMessageKeys : List SeedStructure

/-- `SenderKeyRecordStructure` -/
structure SenderKeyRecordStructure where
  senderKeyStates : List SenderKeyStateStructure

/-- The codecs of the stored messages. -/
structure StorageCodecs where
  session : Codec SessionStructure
  record : Codec RecordStructure
  preKeyRecord : Codec PreKeyRecordStructure
  signedPreKeyRecord : Codec SignedPreKeyRecordStructure
  senderKeyRecord : Codec SenderKeyRecordStructure

/-- Codecs whose `unpack` undoes `pack`. -/
structure StorageCodecs.Inverse (k : StorageCodecs) : Prop where
  session : k.session.Inverse
  record : k.record.Inverse
  preKeyRecord : k.preKeyRecord.Inverse
  signedPreKeyRecord : k.signedPreKeyRecord.Inverse
  senderKeyRecord : k.senderKeyRecord.Inverse

/-- The codec that packs a message into itself. -/
def Codec.identity (α : Type) : Codec α := ⟨α, id, some⟩

/-- Storage in which every message is its own buffer. -/
def StorageCodecs.identity : StorageCodecs := ⟨.identity _, .identity _, .identity _, .identity _, .identity _⟩

theorem StorageCodecs.inverse_identity : StorageCodecs.identity.Inverse :=
  ⟨fun _ => rfl, fun _ => rfl, fun _ => rfl, fun _ => rfl, fun _ => rfl⟩

end Osp.Signal
