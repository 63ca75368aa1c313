import Osp.Signal.Store

/-!
# Building sessions

`session_builder.c`. Private keys that the source draws are arguments.
-/

namespace Osp.Signal

/-- `PRE_KEY_MEDIUM_MAX_VALUE` -/
def preKeyMediumMaxValue : UInt32 := 0xFFFFFF

/-- The id of the key number `i`, from `start_index = start - 1` on. -/
def preKeyId (start i : UInt32) : UInt32 := (start - 1 + i) % (preKeyMediumMaxValue - 1) + 1

/-- `signal_protocol_key_helper_generate_pre_keys`: ids with key pairs, made from the private keys that are drawn. -/
def generatePreKeys (p : CryptoProvider) (random : Nat → EcPrivateKey) (start count : UInt32) : List (UInt32 × EcKeyPair) :=
  (List.range count.toNat).map fun i => (preKeyId start (UInt32.ofNat i), curveGenerateKeyPair p (random i))

/-- The members of `session_pre_key_bundle` that the builder reads. -/
structure PreKeyBundle where
  registrationId : UInt32
  preKeyId : UInt32
  preKeyPublic : Option EcPublicKey
  signedPreKeyId : UInt32
  signedPreKeyPublic : Option EcPublicKey
  signedPreKeySignature : Bytes
  identityKey : Option EcPublicKey

variable {ctx : Context} (store : Store ctx) (address : Address)

/-- The trust check both entry points of the builder begin with. -/
def Store.checkTrusted (identityKey : EcPublicKey) : Except Int Unit :=
  let result := store.identityIsTrustedIdentity address identityKey
  if result < 0 then .error result
  else if result = 0 then .error sgErrUntrustedIdentity
  else .ok ()

/-- The state in which a session is set up: the one of a fresh record, else a new one, with the current one archived. -/
def SessionRecord.prepared (record : SessionRecord) : SessionRecord :=
  if record.isFresh then record else record.archiveCurrentState

/-- The members that `session_builder_process_pre_key_signal_message_v3` sets after the initialisation. -/
def SessionState.withRemote (state : SessionState) (localRegistrationId remoteRegistrationId : UInt32)
    (aliceBaseKey : EcPublicKey) : SessionState :=
  { state with localRegistrationId, remoteRegistrationId, aliceBaseKey := some aliceBaseKey }

/-- Bob's parameters for a pre-key message. -/
def bobParameters (message : PreKeySignalMessage) (ourIdentityKey ourSignedPreKey : EcKeyPair)
    (ourOneTimePreKey : Option EcKeyPair) : BobParameters where
  ourIdentityKey := ourIdentityKey
  ourSignedPreKey := ourSignedPreKey
  ourOneTimePreKey := ourOneTimePreKey
  ourRatchetKey := ourSignedPreKey
  theirIdentityKey := message.identityKey
  theirBaseKey := message.baseKey

/-- `session_builder_process_pre_key_signal_message_v3`: the record with the session set up in it, and the id of the one-time
pre-key to remove. -/
def processPreKeySignalMessageV3 (record : SessionRecord) (message : PreKeySignalMessage) :
    Except Int (Option UInt32 × SessionRecord) :=
  if record.hasSessionState message.version.toUInt32 (some message.baseKey) then .ok (none, record)
  else do
    let ourSignedPreKey ← store.signedPreKeyLoadKey message.signedPreKeyId
    let ourIdentityKey ← store.identityGetKeyPair
    let ourOneTimePreKey ← message.preKeyId.mapM store.preKeyLoadKey
    let record := record.prepared
    let state := ratchetingSessionBobInitialize ctx.crypto record.state
      (bobParameters message ourIdentityKey ourSignedPreKey ourOneTimePreKey)
    let record := record.setState (state.withRemote store.localRegistrationId message.registrationId message.baseKey)
    return (message.preKeyId.filter (· ≠ preKeyMediumMaxValue), record)

/-- `session_builder_process_pre_key_signal_message`: the identity is saved here, before anything is decrypted. -/
def processPreKeySignalMessage (record : SessionRecord)
    (message : PreKeySignalMessage) : Except Int (Option UInt32 × SessionRecord) × Store ctx :=
  match store.checkTrusted address message.identityKey with
  | .error e => (.error e, store)
  | .ok () =>
    match processPreKeySignalMessageV3 store record message with
    | .error e => (.error e, store)
    | .ok result => (.ok result, store.identitySaveIdentity address message.identityKey)

/-- The checks of a bundle's signed pre-key. -/
def PreKeyBundle.checkSignedPreKey (p : CryptoProvider) (bundle : PreKeyBundle) (identityKey : EcPublicKey) :
    Except Int EcPublicKey :=
  match bundle.signedPreKeyPublic with
  | none => .error sgErrInvalidKey
  | some signedPreKey =>
    match curveVerifySignature p identityKey signedPreKey.serialize bundle.signedPreKeySignature with
    | .error e => .error e
    | .ok false => .error sgErrInvalidKey
    | .ok true => .ok signedPreKey

/-- Alice's parameters for a bundle. -/
def aliceParameters (bundle : PreKeyBundle) (ourIdentityKey ourBaseKey : EcKeyPair)
    (theirIdentityKey theirSignedPreKey : EcPublicKey) : AliceParameters where
  ourIdentityKey := ourIdentityKey
  ourBaseKey := ourBaseKey
  theirIdentityKey := theirIdentityKey
  theirSignedPreKey := theirSignedPreKey
  theirOneTimePreKey := bundle.preKeyPublic
  theirRatchetKey := theirSignedPreKey

/-- The record that `session_builder_process_pre_key_bundle` stores. -/
def processPreKeyBundleRecord (bundle : PreKeyBundle)
    (randomBase randomRatchet : EcPrivateKey) (identityKey : EcPublicKey) : Except Int SessionRecord := do
  store.checkTrusted address identityKey
  let signedPreKey ← bundle.checkSignedPreKey ctx.crypto identityKey
  let record ← store.loadSession address
  let ourBaseKey := curveGenerateKeyPair ctx.crypto randomBase
  let ourIdentityKey ← store.identityGetKeyPair
  let record := record.prepared
  let state := ratchetingSessionAliceInitialize ctx.crypto randomRatchet record.state
    (aliceParameters bundle ourIdentityKey ourBaseKey identityKey signedPreKey)
  let state := state.setUnacknowledgedPreKeyMessage (bundle.preKeyPublic.map fun _ => bundle.preKeyId)
    bundle.signedPreKeyId ourBaseKey.publicKey
  return record.setState (state.withRemote store.localRegistrationId bundle.registrationId ourBaseKey.publicKey)

/-- `session_builder_process_pre_key_bundle` -/
def processPreKeyBundle (bundle : PreKeyBundle)
    (randomBase randomRatchet : EcPrivateKey) : Except Int Unit × Store ctx :=
  match bundle.identityKey with
  | none => (.error sgErrInval, store)
  | some identityKey =>
    match processPreKeyBundleRecord store address bundle randomBase randomRatchet identityKey with
    | .error e => (.error e, store)
    | .ok record => (.ok (), (store.storeSession address record).identitySaveIdentity address identityKey)

end Osp.Signal
