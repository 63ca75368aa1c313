import Osp.Signal.SenderKey
import Osp.Signal.Store

/-!
# Encrypting and decrypting in a group

`group_cipher.c` and `group_session_builder.c`, over the sender key store of `signal_protocol.c`. What the source draws at random
is an argument.
-/

namespace Osp.Signal

/-- `signal_protocol_sender_key_name` -/
structure SenderKeyName where
  groupId : Bytes
  sender : Address
deriving DecidableEq

/-- The contents of the sender key store, as buffers. -/
structure SenderKeyStore (ctx : Context) where
  records : SenderKeyName → Option ctx.storage.senderKeyRecord.Buffer

namespace SenderKeyStore

variable {ctx : Context} (store : SenderKeyStore ctx)

/-- `signal_protocol_sender_key_load_key` -/
def loadKey (name : SenderKeyName) : Except Int SenderKeyRecord :=
  match store.records name with
  | none => .ok SenderKeyRecord.create
  | some buffer => SenderKeyRecord.deserialize ctx.crypto ctx.storage buffer

/-- `signal_protocol_sender_key_store_key` -/
def storeKey (name : SenderKeyName) (record : SenderKeyRecord) : SenderKeyStore ctx :=
  ⟨Function.update store.records name (some (record.serialize ctx.storage))⟩

end SenderKeyStore

variable (ctx : Context)

/-- `group_cipher`, with its sender key name, its callback and whether it is being called from it. -/
structure GroupCipher where
  senderKeyId : SenderKeyName
  decryptCallback : Option (Bytes → Int)
  insideCallback : Bool

/-! ## Building sessions -/

/-- `group_session_builder_process_session` -/
def groupSessionBuilderProcessSession (store : SenderKeyStore ctx) (senderKeyName : SenderKeyName)
    (message : SenderKeyDistributionMessage) : Except Int Unit × SenderKeyStore ctx :=
  match store.loadKey senderKeyName with
  | .error e => (.error e, store)
  | .ok record => (.ok (), store.storeKey senderKeyName
      (record.addSenderKeyState message.id message.iteration message.chainKey message.signatureKey))

/-- What `group_session_builder_create_session` draws for a new sender key: its id, its first chain key and its signing key. -/
structure NewSenderKey where
  id : UInt32
  key : Bytes
  signingKey : EcPrivateKey

/-- The distribution message of a state. -/
def SenderKeyState.distribution (state : SenderKeyState) : SenderKeyDistributionMessage :=
  ⟨state.keyId, state.chainKey.iteration, state.chainKey.chainKey, state.signaturePublicKey⟩

/-- `group_session_builder_create_session` -/
def groupSessionBuilderCreateSession (store : SenderKeyStore ctx) (senderKeyName : SenderKeyName) (random : NewSenderKey) :
    Except Int SenderKeyDistributionMessage × SenderKeyStore ctx :=
  match store.loadKey senderKeyName with
  | .error e => (.error e, store)
  | .ok record =>
    let isNew := record.isEmpty
    let record := if isNew then SenderKeyRecord.setSenderKeyState random.id 0 random.key
      (curveGenerateKeyPair ctx.crypto random.signingKey) else record
    let store := if isNew then store.storeKey senderKeyName record else store
    (record.getSenderKeyState.map SenderKeyState.distribution, store)

/-! ## Encryption -/

/-- What `group_cipher_encrypt` does to the newest state of the record. -/
def groupEncryptWithState (state : SenderKeyState) (plaintext random : Bytes) :
    Except Int (SenderKeyMessage × SenderKeyState) :=
  match state.signaturePrivateKey with
  | none => .error sgErrInvalidKey
  | some signingKeyPrivate =>
    let senderKey := state.chainKey.createMessageKey ctx.crypto
    match ctx.crypto.encrypt .aesCbcPkcs5 senderKey.cipherKey senderKey.iv plaintext with
    | .error e => .error e
    | .ok ciphertext =>
      .ok (senderKeyMessageCreate ctx.crypto ctx.wire state.keyId senderKey.iteration ciphertext signingKeyPrivate random,
        state.setChainKey (state.chainKey.createNext ctx.crypto))

/-- `group_cipher_encrypt`; the newest state is the head of the list, which is changed in place. -/
def groupCipherEncrypt (cipher : GroupCipher) (store : SenderKeyStore ctx) (plaintext random : Bytes) :
    Except Int SenderKeyMessage × SenderKeyStore ctx :=
  let fail (e : Int) := (.error (if e = sgErrInvalidKeyId then sgErrNoSession else e), store)
  if cipher.insideCallback then fail sgErrInval
  else
    match store.loadKey cipher.senderKeyId with
    | .error e => fail e
    | .ok record =>
      match record.states with
      | [] => fail sgErrInvalidKeyId
      | state :: states =>
        match groupEncryptWithState ctx state plaintext random with
        | .error e => fail e
        | .ok (message, state) => (.ok message, store.storeKey cipher.senderKeyId ⟨state :: states⟩)

/-! ## Decryption -/

/-- The loop of `group_cipher_get_sender_key`, which runs until the iteration is reached, `n` times: the message keys passed over
are stored in the state. -/
def storeSkippedSenderKeys : Nat → SenderKeyState → SenderChainKey → SenderKeyState × SenderChainKey
  | 0, state, chainKey => (state, chainKey)
  | n + 1, state, chainKey =>
    storeSkippedSenderKeys n (state.addSenderMessageKey (chainKey.createMessageKey ctx.crypto)) (chainKey.createNext ctx.crypto)

/-- `group_cipher_get_sender_key`; when it fails it has changed nothing. -/
def groupCipherGetSenderKey (state : SenderKeyState) (iteration : UInt32) : Except Int (SenderMessageKey × SenderKeyState) :=
  if state.chainKey.iteration > iteration then
    match state.removeSenderMessageKey iteration with
    | some result => .ok result
    | none => .error sgErrDuplicateMessage
  else if (iteration - state.chainKey.iteration).toNat > 2000 then .error sgErrInvalidMessage
  else
    let (state, chainKey) := storeSkippedSenderKeys ctx (iteration - state.chainKey.iteration).toNat state state.chainKey
    .ok (chainKey.createMessageKey ctx.crypto, state.setChainKey (chainKey.createNext ctx.crypto))

/-- What `group_cipher_decrypt` does with the record: the plaintext, and the record with the changed state. -/
def groupDecryptWithRecord (record : SenderKeyRecord) (message : SenderKeyMessage) : Except Int (Bytes × SenderKeyRecord) :=
  if record.isEmpty then .error sgErrNoSession
  else do
    let state ← record.getSenderKeyStateById message.keyId
    senderKeyMessageVerifySignature ctx.crypto message state.signaturePublicKey
    let (senderKey, state) ← groupCipherGetSenderKey ctx state message.iteration
    let plaintext ← ctx.crypto.decrypt .aesCbcPkcs5 senderKey.cipherKey senderKey.iv message.ciphertext
    return (plaintext, record.updateSenderKeyStateById message.keyId fun _ => state)

/-- `group_cipher_decrypt_callback` -/
def GroupCipher.callback (cipher : GroupCipher) (plaintext : Bytes) : Int :=
  match cipher.decryptCallback with
  | none => 0
  | some callback => callback plaintext

/-- `group_cipher_decrypt` -/
def groupCipherDecrypt (cipher : GroupCipher) (store : SenderKeyStore ctx) (message : SenderKeyMessage) :
    Except Int Bytes × SenderKeyStore ctx :=
  let fail (e : Int) := (.error (if e = sgErrInvalidKey ∨ e = sgErrInvalidKeyId then sgErrInvalidMessage else e), store)
  if cipher.insideCallback then fail sgErrInval
  else
    match store.loadKey cipher.senderKeyId with
    | .error e => fail e
    | .ok record =>
      match groupDecryptWithRecord ctx record message with
      | .error e => fail e
      | .ok (plaintext, record) =>
        if cipher.callback plaintext < 0 then fail (cipher.callback plaintext)
        else (.ok plaintext, store.storeKey cipher.senderKeyId record)

end Osp.Signal
