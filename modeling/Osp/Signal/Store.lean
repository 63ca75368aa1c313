import Osp.Signal.Protocol
import Osp.Signal.SessionRecord

/-!
# The stores

`signal_protocol.c` and `session_pre_key.c`: what the library reads and writes through the callbacks of the store context. The
callbacks are the ones `signal_protocol.h` documents, over stores that are maps: loading gives what was stored, and storing does
not fail. Only the trust decision is left open.
-/

namespace Osp.Signal

/-- `signal_protocol_address` -/
structure Address where
  name : Bytes
  deviceId : Int32
deriving DecidableEq

/-- What the library is configured with: the crypto provider, the generated codecs, and the `is_trusted_identity` callback, which
decides from the saved identities. -/
structure Context where
  crypto : CryptoProvider
  storage : StorageCodecs
  wire : WireCodecs
  isTrustedIdentity : (Address → Option EcPublicKey) → Address → EcPublicKey → Int

/-- The contents of a store context: sessions, pre-keys and signed pre-keys as buffers, the saved identities, and the local
identity. -/
structure Store (ctx : Context) where
  sessions : Address → Option ctx.storage.record.Buffer
  preKeys : UInt32 → Option ctx.storage.preKeyRecord.Buffer
  signedPreKeys : UInt32 → Option ctx.storage.signedPreKeyRecord.Buffer
  identities : Address → Option EcPublicKey
  identityPublic : Bytes
  identityPrivate : Bytes
  localRegistrationId : UInt32

namespace Store

variable {ctx : Context} (store : Store ctx) (address : Address)

/-- `signal_protocol_session_load_session` -/
def loadSession : Except Int SessionRecord :=
  match store.sessions address with
  | none => .ok (SessionRecord.create none)
  | some buffer => SessionRecord.deserialize ctx.storage buffer

/-- `signal_protocol_session_store_session` -/
def storeSession (record : SessionRecord) : Store ctx :=
  { store with sessions := Function.update store.sessions address (some (record.serialize ctx.storage)) }

/-- `signal_protocol_session_contains_session` -/
def containsSession : Bool := (store.sessions address).isSome

/-- `signal_protocol_pre_key_load_key`, with `session_pre_key_deserialize`: the key pair of the pre-key. -/
def preKeyLoadKey (preKeyId : UInt32) : Except Int EcKeyPair :=
  match store.preKeys preKeyId with
  | none => .error sgErrInvalidKeyId
  | some buffer =>
    match ctx.storage.preKeyRecord.unpack buffer with
    | none => .error sgErrInvalidProtoBuf
    | some ⟨some _, some publicKey, some privateKey⟩ => do
      let publicKey ← curveDecodePoint publicKey
      let privateKey ← curveDecodePrivatePoint privateKey
      return ⟨publicKey, privateKey⟩
    | some _ => .error sgErrInvalidKey

/-- `signal_protocol_pre_key_remove_key` -/
def preKeyRemoveKey (preKeyId : UInt32) : Store ctx :=
  { store with preKeys := Function.update store.preKeys preKeyId none }

/-- `signal_protocol_signed_pre_key_load_key`, with `session_signed_pre_key_deserialize`: the key pair of the signed pre-key. -/
def signedPreKeyLoadKey (signedPreKeyId : UInt32) : Except Int EcKeyPair :=
  match store.signedPreKeys signedPreKeyId with
  | none => .error sgErrInvalidKeyId
  | some buffer =>
    match ctx.storage.signedPreKeyRecord.unpack buffer with
    | none => .error sgErrInvalidProtoBuf
    | some ⟨some _, some publicKey, some privateKey, some _, some _⟩ => do
      let publicKey ← curveDecodePoint publicKey
      let privateKey ← curveDecodePrivatePoint privateKey
      return ⟨publicKey, privateKey⟩
    | some _ => .error sgErrInvalidKey

/-- `signal_protocol_identity_get_key_pair` -/
def identityGetKeyPair : Except Int EcKeyPair := do
  let publicKey ← curveDecodePoint store.identityPublic
  let privateKey ← curveDecodePrivatePoint store.identityPrivate
  return ⟨publicKey, privateKey⟩

/-- `signal_protocol_identity_is_trusted_identity` -/
def identityIsTrustedIdentity (identityKey : EcPublicKey) : Int :=
  ctx.isTrustedIdentity store.identities address identityKey

/-- `signal_protocol_identity_save_identity` -/
def identitySaveIdentity (identityKey : EcPublicKey) : Store ctx :=
  { store with identities := Function.update store.identities address (some identityKey) }

end Store

end Osp.Signal
