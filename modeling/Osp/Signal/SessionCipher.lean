import Osp.Signal.SessionBuilder

/-!
# Encrypting and decrypting in a session

`session_cipher.c`. A function that changes a state in place returns the state beside its result, also when it fails; the state
it was given may then be half changed, and its callers work on copies. The private key for a ratchet step that may be needed is
an argument.
-/

namespace Osp.Signal

variable (ctx : Context)

/-- `session_cipher`, with its address, its callback and whether it is being called from it. -/
structure SessionCipher where
  remoteAddress : Address
  decryptCallback : Option (Bytes → Int)
  insideCallback : Bool

/-- The initialisation vector of the counter mode: the counter in big-endian order, then zeros. -/
def counterIv (counter : UInt32) : Bytes :=
  [(counter >>> 24).toUInt8, (counter >>> 16).toUInt8, (counter >>> 8).toUInt8, counter.toUInt8] ++ List.replicate 12 0

/-- `session_cipher_get_ciphertext` -/
def getCiphertext (version : UInt32) (messageKeys : RatchetMessageKeys) (plaintext : Bytes) : Except Int Bytes :=
  if version ≥ 3 then ctx.crypto.encrypt .aesCbcPkcs5 messageKeys.cipherKey messageKeys.iv plaintext
  else ctx.crypto.encrypt .aesCtrNoPadding messageKeys.cipherKey (counterIv messageKeys.counter) plaintext

/-- `session_cipher_get_plaintext` -/
def getPlaintext (version : UInt32) (messageKeys : RatchetMessageKeys) (ciphertext : Bytes) : Except Int Bytes :=
  if version ≥ 3 then ctx.crypto.decrypt .aesCbcPkcs5 messageKeys.cipherKey messageKeys.iv ciphertext
  else ctx.crypto.decrypt .aesCtrNoPadding messageKeys.cipherKey (counterIv messageKeys.counter) ciphertext

/-! ## Encryption -/

/-- The message that leaves `session_cipher_encrypt`: bundled with the pre-key while that is not acknowledged. -/
def wrapMessage (state : SessionState) (localIdentityKey : EcPublicKey) (message : SignalMessage) :
    Except Int CiphertextMessage :=
  match state.pendingPreKey with
  | none => .ok (.signal message)
  | some pending =>
    match pending.baseKey with
    | none => .error sgErrUnknown
    | some baseKey => .ok (.preKey (preKeySignalMessageCreate ctx.wire state.sessionVersion.toUInt8
        state.localRegistrationId pending.preKeyId pending.signedPreKeyId baseKey localIdentityKey message))

/-- What `session_cipher_encrypt` does to the current state of the record. -/
def encryptWithState (state : SessionState) (plaintext : Bytes) : Except Int (CiphertextMessage × SessionState) :=
  match state.getSenderChainKey with
  | none => .error sgErrUnknown
  | some chainKey =>
    match state.getSenderRatchetKey with
    | none => .error sgErrUnknown
    | some senderEphemeral => do
      let messageKeys := chainKey.getMessageKeys ctx.crypto
      let ciphertext ← getCiphertext ctx state.sessionVersion messageKeys plaintext
      match state.localIdentityPublic, state.remoteIdentityPublic with
      | some localIdentityKey, some remoteIdentityKey =>
        let message := signalMessageCreate ctx.crypto ctx.wire state.sessionVersion.toUInt8 messageKeys.macKey senderEphemeral
          chainKey.index state.previousCounter ciphertext localIdentityKey remoteIdentityKey
        let message ← wrapMessage ctx state localIdentityKey message
        let state ← state.setSenderChainKey (chainKey.createNext ctx.crypto)
        return (message, state)
      | _, _ => .error sgErrUnknown

/-- `session_cipher_encrypt` -/
def sessionCipherEncrypt (cipher : SessionCipher) (store : Store ctx) (plaintext : Bytes) :
    Except Int CiphertextMessage × Store ctx :=
  if cipher.insideCallback then (.error sgErrInval, store)
  else
    match store.loadSession cipher.remoteAddress with
    | .error e => (.error e, store)
    | .ok record =>
      match encryptWithState ctx record.state plaintext with
      | .error e => (.error e, store)
      | .ok (message, state) => (.ok message, store.storeSession cipher.remoteAddress (record.setState state))

/-! ## Message keys -/

/-- `session_cipher_get_or_create_chain_key` -/
def getOrCreateChainKey (random : EcPrivateKey) (state : SessionState) (theirEphemeral : EcPublicKey) :
    Except Int RatchetChainKey × SessionState :=
  match state.getReceiverChainKey theirEphemeral with
  | some chainKey => (.ok chainKey, state)
  | none =>
    match state.rootKey with
    | none => (.error sgErrUnknown, state)
    | some rootKey =>
      match state.getSenderRatchetKeyPair with
      | none => (.error sgErrUnknown, state)
      | some ourEphemeral =>
        let (receiverRootKey, receiverChainKey) := rootKey.createChain ctx.crypto theirEphemeral ourEphemeral.privateKey
        let ourNewEphemeral := curveGenerateKeyPair ctx.crypto random
        let (senderRootKey, senderChainKey) :=
          receiverRootKey.createChain ctx.crypto theirEphemeral ourNewEphemeral.privateKey
        let state := { state with rootKey := some senderRootKey }
        let state := state.addReceiverChain theirEphemeral receiverChainKey
        match state.getSenderChainKey with
        | none => (.error sgErrUnknown, state)
        | some previousSenderChainKey =>
          let index := previousSenderChainKey.index
          let state := { state with previousCounter := if index > 0 then index - 1 else index }
          (.ok receiverChainKey, state.setSenderChain ourNewEphemeral senderChainKey)

/-- The loop of `session_cipher_get_or_create_message_keys`, which runs until the index has reached the counter, `n` times: the
message keys passed over are stored in the state. -/
def storeSkippedKeys (theirEphemeral : EcPublicKey) : Nat → SessionState → RatchetChainKey → SessionState × RatchetChainKey
  | 0, state, chainKey => (state, chainKey)
  | n + 1, state, chainKey =>
    storeSkippedKeys theirEphemeral n (state.setMessageKeys theirEphemeral (chainKey.getMessageKeys ctx.crypto))
      (chainKey.createNext ctx.crypto)

/-- `session_cipher_get_or_create_message_keys` -/
def getOrCreateMessageKeys (state : SessionState) (theirEphemeral : EcPublicKey) (chainKey : RatchetChainKey)
    (counter : UInt32) : Except Int RatchetMessageKeys × SessionState :=
  if chainKey.index > counter then
    match state.removeMessageKeys theirEphemeral counter with
    | some (messageKeys, state) => (.ok messageKeys, state)
    | none => (.error sgErrDuplicateMessage, state)
  else if (counter - chainKey.index).toNat > 2000 then (.error sgErrInvalidMessage, state)
  else
    let (state, chainKey) := storeSkippedKeys ctx theirEphemeral (counter - chainKey.index).toNat state chainKey
    match state.setReceiverChainKey theirEphemeral (chainKey.createNext ctx.crypto) with
    | .error e => (.error e, state)
    | .ok state => (.ok (chainKey.getMessageKeys ctx.crypto), state)

/-- The two calls that give the keys of a message. -/
def messageKeysFor (random : EcPrivateKey) (state : SessionState) (theirEphemeral : EcPublicKey) (counter : UInt32) :
    Except Int RatchetMessageKeys × SessionState :=
  match getOrCreateChainKey ctx random state theirEphemeral with
  | (.error e, state) => (.error e, state)
  | (.ok chainKey, state) => getOrCreateMessageKeys ctx state theirEphemeral chainKey counter

/-! ## Decryption -/

/-- The MAC check and the decryption of a message whose keys are known. -/
def openMessage (state : SessionState) (message : SignalMessage) (messageKeys : RatchetMessageKeys) : Except Int Bytes :=
  match state.remoteIdentityPublic, state.localIdentityPublic with
  | some remoteIdentityKey, some localIdentityKey =>
    if signalMessageVerifyMac ctx.crypto message remoteIdentityKey localIdentityKey messageKeys.macKey then
      getPlaintext ctx message.messageVersion.toUInt32 messageKeys message.ciphertext
    else .error sgErrInvalidMessage
  | _, _ => .error sgErrUnknown

/-- `session_cipher_decrypt_from_state_and_signal_message` -/
def decryptFromState (random : EcPrivateKey) (state : SessionState) (message : SignalMessage) :
    Except Int Bytes × SessionState :=
  if state.senderChain.isNone then (.error sgErrInvalidMessage, state)
  else if message.messageVersion.toUInt32 ≠ state.sessionVersion then (.error sgErrInvalidMessage, state)
  else
    match messageKeysFor ctx random state message.senderRatchetKey message.counter with
    | (.error e, state) => (.error e, state)
    | (.ok messageKeys, state) =>
      match openMessage ctx state message messageKeys with
      | .error e => (.error e, state)
      | .ok plaintext => (.ok plaintext, state.clearUnacknowledgedPreKeyMessage)

/-- The loop of `session_cipher_decrypt_from_record_and_signal_message` over the archived states, from place `i` on: the plaintext,
the place of the state that gave it, and the changed copy. `random i` is drawn for the state at place `i`. -/
def decryptFromPrevious (random : Nat → EcPrivateKey) (message : SignalMessage) :
    Nat → List SessionState → Except Int (Bytes × Nat × SessionState)
  | _, [] => .error sgErrInvalidMessage
  | i, state :: states =>
    match sessionStateCopy ctx.storage state with
    | .error e => .error e
    | .ok stateCopy =>
      match decryptFromState ctx (random i) stateCopy message with
      | (.ok plaintext, stateCopy) => .ok (plaintext, i, stateCopy)
      | (.error e, _) =>
        if e ≠ sgErrInvalidMessage then .error e else decryptFromPrevious random message (i + 1) states

/-- `session_cipher_decrypt_from_record_and_signal_message`: the current state, then the archived ones, each on a copy. -/
def decryptFromRecord (random : Nat → EcPrivateKey) (record : SessionRecord) (message : SignalMessage) :
    Except Int (Bytes × SessionRecord) :=
  match sessionStateCopy ctx.storage record.state with
  | .error e => .error e
  | .ok stateCopy =>
    match decryptFromState ctx (random 0) stateCopy message with
    | (.ok plaintext, stateCopy) => .ok (plaintext, record.setState stateCopy)
    | (.error e, _) =>
      if e ≠ sgErrInvalidMessage then .error e
      else
        match decryptFromPrevious ctx (fun i => random (i + 1)) message 0 record.previousStates with
        | .error e => .error e
        | .ok (plaintext, i, stateCopy) =>
          .ok (plaintext, { record with previousStates := record.previousStates.eraseIdx i }.promoteState stateCopy)

/-- The loop of `session_cipher_decrypt_from_record_and_signal_message` over the archived states, with the record it works on. -/
def decryptPreviousInPlace (random : Nat → EcPrivateKey) (record : SessionRecord) (message : SignalMessage) :
    Nat → List SessionState → Except Int Bytes × SessionRecord
  | _, [] => (.error sgErrInvalidMessage, record)
  | i, state :: states =>
    match sessionStateCopy ctx.storage state with
    | .error e => (.error e, record)
    | .ok stateCopy =>
      match decryptFromState ctx (random (i + 1)) stateCopy message with
      | (.ok plaintext, stateCopy) =>
        (.ok plaintext, { record with previousStates := record.previousStates.eraseIdx i }.promoteState stateCopy)
      | (.error e, _) =>
        if e ≠ sgErrInvalidMessage then (.error e, record) else decryptPreviousInPlace random record message (i + 1) states

/-- `session_cipher_decrypt_from_record_and_signal_message`, with the record it leaves behind. -/
def decryptInPlace (random : Nat → EcPrivateKey) (record : SessionRecord) (message : SignalMessage) :
    Except Int Bytes × SessionRecord :=
  match sessionStateCopy ctx.storage record.state with
  | .error e => (.error e, record)
  | .ok stateCopy =>
    match decryptFromState ctx (random 0) stateCopy message with
    | (.ok plaintext, stateCopy) => (.ok plaintext, record.setState stateCopy)
    | (.error e, _) =>
      if e ≠ sgErrInvalidMessage then (.error e, record)
      else decryptPreviousInPlace ctx random record message 0 record.previousStates

/-- `session_cipher_decrypt_callback` -/
def SessionCipher.callback (cipher : SessionCipher) (plaintext : Bytes) : Int :=
  match cipher.decryptCallback with
  | none => 0
  | some callback => callback plaintext

/-- `session_cipher_decrypt_signal_message` -/
def sessionCipherDecryptSignalMessage (cipher : SessionCipher) (random : Nat → EcPrivateKey) (store : Store ctx)
    (message : SignalMessage) : Except Int Bytes × Store ctx :=
  if cipher.insideCallback then (.error sgErrInval, store)
  else if !store.containsSession cipher.remoteAddress then (.error sgErrNoSession, store)
  else
    match store.loadSession cipher.remoteAddress with
    | .error e => (.error e, store)
    | .ok record =>
      match decryptFromRecord ctx random record message with
      | .error e => (.error e, store)
      | .ok (plaintext, record) =>
        if cipher.callback plaintext < 0 then (.error (cipher.callback plaintext), store)
        else (.ok plaintext, store.storeSession cipher.remoteAddress record)

/-- `session_cipher_decrypt_pre_key_signal_message` -/
def sessionCipherDecryptPreKeySignalMessage (cipher : SessionCipher) (random : Nat → EcPrivateKey) (store : Store ctx)
    (message : PreKeySignalMessage) : Except Int Bytes × Store ctx :=
  if cipher.insideCallback then (.error sgErrInval, store)
  else
    match store.loadSession cipher.remoteAddress with
    | .error e => (.error e, store)
    | .ok record =>
      match processPreKeySignalMessage store cipher.remoteAddress record message with
      | (.error e, store) => (.error e, store)
      | (.ok (unsignedPreKeyId, record), store) =>
        match decryptFromRecord ctx random record message.message with
        | .error e => (.error e, store)
        | .ok (plaintext, record) =>
          if cipher.callback plaintext < 0 then (.error (cipher.callback plaintext), store)
          else
            let store := store.storeSession cipher.remoteAddress record
            match unsignedPreKeyId with
            | none => (.ok plaintext, store)
            | some preKeyId => (.ok plaintext, store.preKeyRemoveKey preKeyId)

end Osp.Signal
