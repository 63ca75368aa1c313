import Osp.Signal.SessionState

/-!
# Wire messages

The messages of `protocol.c`: a version byte, a packed message of `WhisperTextProtocol.proto`, and a MAC or a signature over
both. The members of a message are the ones the source keeps beside the serialised bytes.
-/

namespace Osp.Signal

/-- The `pack` and `unpack` functions that protobuf-c generates for a message that is sent. -/
structure WireCodec (α : Type) where
  pack : α → Bytes
  unpack : Bytes → Option α

/-- `SignalMessage` of the wire protocol. -/
structure SignalMessageStructure where
  ratchetKey : Option Bytes
  counter : Option UInt32
  previousCounter : Option UInt32
  ciphertext : Option Bytes

/-- `PreKeySignalMessage` of the wire protocol. -/
structure PreKeySignalMessageStructure where
  registrationId : Option UInt32
  preKeyId : Option UInt32
  signedPreKeyId : Option UInt32
  baseKey : Option Bytes
  identityKey : Option Bytes
  message : Option Bytes

/-- `SenderKeyMessage` of the wire protocol. -/
structure SenderKeyMessageStructure where
  id : Option UInt32
  iteration : Option UInt32
  ciphertext : Option Bytes

/-- `SenderKeyDistributionMessage` of the wire protocol. -/
structure SenderKeyDistributionMessageStructure where
  id : Option UInt32
  iteration : Option UInt32
  chainKey : Option Bytes
  signingKey : Option Bytes

/-- The codecs of the wire messages. -/
structure WireCodecs where
  signalMessage : WireCodec SignalMessageStructure
  preKeySignalMessage : WireCodec PreKeySignalMessageStructure
  senderKeyMessage : WireCodec SenderKeyMessageStructure
  senderKeyDistributionMessage : WireCodec SenderKeyDistributionMessageStructure

/-- `SIGNAL_MESSAGE_MAC_LENGTH` -/
def signalMessageMacLength : Nat := 8

/-- `SIGNATURE_LENGTH` -/
def signatureLength : Nat := 64

/-- `CIPHERTEXT_UNSUPPORTED_VERSION` -/
def ciphertextUnsupportedVersion : UInt8 := 1

/-- `CIPHERTEXT_CURRENT_VERSION`, as a version byte holds it. -/
def ciphertextCurrentVersionByte : UInt8 := 3

/-- The first byte of a serialised message. -/
def versionByte (version : UInt8) : UInt8 := (version <<< 4) ||| ciphertextCurrentVersionByte

/-- `(data[0] & 0xF0) >> 4` -/
def versionOf (first : UInt8) : UInt8 := (first &&& 0xF0) >>> 4

/-! ## Signal messages -/

/-- `signal_message`: its serialised form holds at least the version byte and the MAC. -/
structure SignalMessage where
  messageVersion : UInt8
  senderRatchetKey : EcPublicKey
  counter : UInt32
  previousCounter : UInt32
  ciphertext : Bytes
  serialized : Bytes
  le_length_serialized : signalMessageMacLength < serialized.length
deriving DecidableEq

variable (p : CryptoProvider) (w : WireCodecs)

/-- `signal_message_serialize` -/
def signalMessageSerialize (messageVersion : UInt8) (senderRatchetKey : EcPublicKey)
    (counter previousCounter : UInt32) (ciphertext : Bytes) : Bytes :=
  versionByte messageVersion ::
    w.signalMessage.pack ⟨some senderRatchetKey.serialize, some counter, some previousCounter, some ciphertext⟩

/-- `signal_message_get_mac` -/
def signalMessageGetMac (messageVersion : UInt8) (senderIdentityKey receiverIdentityKey : EcPublicKey)
    (macKey serialized : Bytes) : Bytes :=
  let keys := if messageVersion ≥ 3 then senderIdentityKey.serialize ++ receiverIdentityKey.serialize else []
  (p.hmacSha256 macKey (keys ++ serialized)).take signalMessageMacLength

theorem length_signalMessageGetMac (v : UInt8) (a b : EcPublicKey) (k s : Bytes) :
    (signalMessageGetMac p v a b k s).length = signalMessageMacLength := by
  simp [signalMessageGetMac, p.length_hmacSha256, signalMessageMacLength]

/-- `signal_message_create` -/
def signalMessageCreate (messageVersion : UInt8) (macKey : Bytes)
    (senderRatchetKey : EcPublicKey) (counter previousCounter : UInt32) (ciphertext : Bytes)
    (senderIdentityKey receiverIdentityKey : EcPublicKey) : SignalMessage :=
  let message := signalMessageSerialize w messageVersion senderRatchetKey counter previousCounter ciphertext
  { messageVersion, senderRatchetKey, counter, previousCounter, ciphertext
    serialized := message ++ signalMessageGetMac p messageVersion senderIdentityKey receiverIdentityKey macKey message
    le_length_serialized := by simp [length_signalMessageGetMac, message, signalMessageSerialize] }

/-- `signal_message_verify_mac` -/
def signalMessageVerifyMac (message : SignalMessage)
    (senderIdentityKey receiverIdentityKey : EcPublicKey) (macKey : Bytes) : Bool :=
  let messageLen := message.serialized.length - signalMessageMacLength
  signalMessageGetMac p message.messageVersion senderIdentityKey receiverIdentityKey macKey
    (message.serialized.take messageLen) == message.serialized.drop messageLen

/-- `signal_message_deserialize` -/
def signalMessageDeserialize (data : Bytes) : Except Int SignalMessage :=
  if h : data.length ≤ 1 + signalMessageMacLength then .error sgErrInval
  else
    let version := versionOf (data.headD 0)
    if version ≤ ciphertextUnsupportedVersion then .error sgErrLegacyMessage
    else if version > ciphertextCurrentVersionByte then .error sgErrInvalidMessage
    else
      match w.signalMessage.unpack ((data.drop 1).take (data.length - 1 - signalMessageMacLength)) with
      | none => .error sgErrInvalidProtoBuf
      | some ⟨some ratchetKey, some counter, previousCounter, some ciphertext⟩ =>
        match curveDecodePoint ratchetKey with
        | .error e => .error e
        | .ok senderRatchetKey => .ok {
            messageVersion := version, senderRatchetKey, counter, previousCounter := previousCounter.getD 0, ciphertext
            serialized := data
            le_length_serialized := by omega }
      | some _ => .error sgErrInvalidMessage

/-- A message verifies under the keys it was made with. -/
theorem signalMessageVerifyMac_create (v : UInt8) (macKey : Bytes)
    (ratchetKey : EcPublicKey) (counter previousCounter : UInt32) (ciphertext : Bytes) (sender receiver : EcPublicKey) :
    signalMessageVerifyMac p (signalMessageCreate p w v macKey ratchetKey counter previousCounter ciphertext sender receiver)
      sender receiver macKey = true := by
  simp [signalMessageVerifyMac, signalMessageCreate, length_signalMessageGetMac]

/-! ## Pre-key messages -/

/-- `pre_key_signal_message` -/
structure PreKeySignalMessage where
  version : UInt8
  registrationId : UInt32
  preKeyId : Option UInt32
  signedPreKeyId : UInt32
  baseKey : EcPublicKey
  identityKey : EcPublicKey
  message : SignalMessage
  serialized : Bytes

/-- `pre_key_signal_message_create`, with `pre_key_signal_message_serialize`. -/
def preKeySignalMessageCreate (version : UInt8) (registrationId : UInt32) (preKeyId : Option UInt32)
    (signedPreKeyId : UInt32) (baseKey identityKey : EcPublicKey) (message : SignalMessage) : PreKeySignalMessage where
  version := version
  registrationId := registrationId
  preKeyId := preKeyId
  signedPreKeyId := signedPreKeyId
  baseKey := baseKey
  identityKey := identityKey
  message := message
  serialized := versionByte version :: w.preKeySignalMessage.pack
    ⟨some registrationId, preKeyId, some signedPreKeyId, some baseKey.serialize, some identityKey.serialize,
      some message.serialized⟩

/-- `pre_key_signal_message_deserialize` -/
def preKeySignalMessageDeserialize (data : Bytes) : Except Int PreKeySignalMessage :=
  if data.length ≤ 1 then .error sgErrInval
  else
    let version := versionOf (data.headD 0)
    if version < ciphertextCurrentVersionByte then .error sgErrLegacyMessage
    else if version > ciphertextCurrentVersionByte then .error sgErrInvalidVersion
    else
      match w.preKeySignalMessage.unpack (data.drop 1) with
      | none => .error sgErrInvalidProtoBuf
      | some ⟨registrationId, preKeyId, some signedPreKeyId, some baseKey, some identityKey, some message⟩ => do
        let baseKey ← curveDecodePoint baseKey
        let identityKey ← curveDecodePoint identityKey
        let message ← signalMessageDeserialize w message
        if message.messageVersion ≠ version then .error sgErrInvalidVersion
        else return {
          version, registrationId := registrationId.getD 0, preKeyId, signedPreKeyId, baseKey, identityKey, message
          serialized := data }
      | some _ => .error sgErrInvalidMessage

/-- A pre-key message that was read has the current version. -/
theorem preKeySignalMessageDeserialize_version {w : WireCodecs} {data : Bytes} {m : PreKeySignalMessage}
    (h : preKeySignalMessageDeserialize w data = .ok m) : m.version = ciphertextCurrentVersionByte := by
  unfold preKeySignalMessageDeserialize at h
  split at h
  · cases h
  · simp only at h
    split at h
    · cases h
    · rename_i hlt
      split at h
      · cases h
      · rename_i hgt
        have hv : versionOf (data.headD 0) = ciphertextCurrentVersionByte := by
          apply UInt8.toNat_inj.1
          simp only [UInt8.lt_iff_toNat_lt, GT.gt, Nat.not_lt] at hlt hgt
          omega
        split at h
        · cases h
        · simp only [bind, Except.bind] at h
          repeat' (split at h)
          all_goals first
            | cases h; done
            | (simp only [pure, Except.pure, Except.ok.injEq] at h; rw [← h]; exact hv)
        · cases h

/-! ## Sender key messages -/

/-- `sender_key_message`: its serialised form holds at least the version byte and the signature. -/
structure SenderKeyMessage where
  messageVersion : UInt8
  keyId : UInt32
  iteration : UInt32
  ciphertext : Bytes
  serialized : Bytes
  le_length_serialized : signatureLength < serialized.length
deriving DecidableEq

/-- `sender_key_message_create`, with `sender_key_message_serialize`; `random` is drawn for the signature. -/
def senderKeyMessageCreate (keyId iteration : UInt32) (ciphertext : Bytes)
    (signatureKey : EcPrivateKey) (random : Bytes) : SenderKeyMessage :=
  let message := versionByte ciphertextCurrentVersionByte :: w.senderKeyMessage.pack ⟨some keyId, some iteration, some ciphertext⟩
  { messageVersion := ciphertextCurrentVersionByte, keyId, iteration, ciphertext
    serialized := message ++ p.sign signatureKey message random
    le_length_serialized := by
      rw [List.length_append, p.length_sign, signatureLength, List.length_cons]
      omega }

/-- `sender_key_message_verify_signature` -/
def senderKeyMessageVerifySignature (message : SenderKeyMessage) (signatureKey : EcPublicKey) :
    Except Int Unit :=
  let dataLen := message.serialized.length - signatureLength
  match curveVerifySignature p signatureKey (message.serialized.take dataLen) (message.serialized.drop dataLen) with
  | .ok true => .ok ()
  | _ => .error sgErrInvalidMessage

/-- `sender_key_message_deserialize` -/
def senderKeyMessageDeserialize (data : Bytes) : Except Int SenderKeyMessage :=
  if h : data.length ≤ 1 + signatureLength then .error sgErrInval
  else
    let version := versionOf (data.headD 0)
    if version < ciphertextCurrentVersionByte then .error sgErrLegacyMessage
    else if version > ciphertextCurrentVersionByte then .error sgErrInvalidVersion
    else
      match w.senderKeyMessage.unpack ((data.drop 1).take (data.length - 1 - signatureLength)) with
      | none => .error sgErrInvalidProtoBuf
      | some ⟨some keyId, some iteration, some ciphertext⟩ =>
        .ok { messageVersion := version, keyId, iteration, ciphertext, serialized := data, le_length_serialized := by omega }
      | some _ => .error sgErrInvalidMessage

/-- The members of `sender_key_distribution_message` that are read. -/
structure SenderKeyDistributionMessage where
  id : UInt32
  iteration : UInt32
  chainKey : Bytes
  signatureKey : EcPublicKey
deriving DecidableEq

/-- `sender_key_distribution_message` -/
structure SerializedDistributionMessage extends SenderKeyDistributionMessage where
  serialized : Bytes

/-- `sender_key_distribution_message_create`, with `sender_key_distribution_message_serialize`. -/
def senderKeyDistributionMessageCreate (id iteration : UInt32) (chainKey : Bytes) (signatureKey : EcPublicKey) :
    SerializedDistributionMessage where
  id := id
  iteration := iteration
  chainKey := chainKey
  signatureKey := signatureKey
  serialized := versionByte ciphertextCurrentVersionByte ::
    w.senderKeyDistributionMessage.pack ⟨some id, some iteration, some chainKey, some signatureKey.serialize⟩

/-- `sender_key_distribution_message_deserialize` -/
def senderKeyDistributionMessageDeserialize (data : Bytes) : Except Int SerializedDistributionMessage :=
  if data.length ≤ 1 then .error sgErrInval
  else
    let version := versionOf (data.headD 0)
    if version < ciphertextCurrentVersionByte then .error sgErrLegacyMessage
    else if version > ciphertextCurrentVersionByte then .error sgErrInvalidVersion
    else
      match w.senderKeyDistributionMessage.unpack (data.drop 1) with
      | none => .error sgErrInvalidProtoBuf
      | some ⟨some id, some iteration, some chainKey, some signingKey⟩ =>
        match curveDecodePoint signingKey with
        | .error e => .error e
        | .ok signatureKey => .ok { id, iteration, chainKey, signatureKey, serialized := data }
      | some _ => .error sgErrInvalidMessage

/-- A message verifies under the key it was signed with. -/
theorem senderKeyMessageVerifySignature_create {p : CryptoProvider} (hp : p.Lawful) (w : WireCodecs) (keyId iteration : UInt32)
    (ciphertext : Bytes) (signatureKey : EcPrivateKey) (random : Bytes) :
    senderKeyMessageVerifySignature p (senderKeyMessageCreate p w keyId iteration ciphertext signatureKey random)
      (p.publicKey signatureKey) = .ok () := by
  -- the serialised form of a message ends with its signature
  obtain ⟨message, h⟩ : ∃ message, (senderKeyMessageCreate p w keyId iteration ciphertext signatureKey random).serialized =
      message ++ p.sign signatureKey message random := ⟨_, rfl⟩
  generalize senderKeyMessageCreate p w keyId iteration ciphertext signatureKey random = created at h ⊢
  have hlength : (message ++ p.sign signatureKey message random).length - signatureLength = message.length := by
    rw [List.length_append, p.length_sign, signatureLength, Nat.add_sub_cancel]
  unfold senderKeyMessageVerifySignature
  simp only [h, hlength, List.take_left, List.drop_left, curveVerifySignature, p.length_sign, ne_eq, not_true_eq_false, if_false,
    hp.verify_sign]

/-- The result of `session_cipher_encrypt`. -/
inductive CiphertextMessage
  | signal (message : SignalMessage)
  | preKey (message : PreKeySignalMessage)

end Osp.Signal
