import Osp.Lib.Bytes
import Osp.Signal.Sample

/-!
# Wire messages

What is created is read back as it was and passes its check, if unpacking undoes packing and only the message without members packs to
nothing.
-/

namespace Osp.Signal

open List Lib

/-- What protobuf-c promises of a codec. -/
structure WireCodec.Lawful {α : Type} (c : WireCodec α) (empty : α) : Prop where
  unpack_pack : ∀ m, c.unpack (c.pack m) = some m
  pack_empty : c.pack empty = []

theorem WireCodec.Lawful.length_pos {α : Type} {c : WireCodec α} {empty : α} (h : c.Lawful empty) {m : α} (hm : m ≠ empty) :
    0 < (c.pack m).length := by
  rw [length_pos_iff]
  intro hnil
  have hunpack := h.unpack_pack m
  rw [hnil, ← h.pack_empty, h.unpack_pack] at hunpack
  exact hm (Option.some.inj hunpack).symm

/-- The codecs of the four messages. -/
structure WireCodecs.Lawful (w : WireCodecs) : Prop where
  signalMessage : w.signalMessage.Lawful ⟨none, none, none, none⟩
  preKeySignalMessage : w.preKeySignalMessage.Lawful ⟨none, none, none, none, none, none⟩
  senderKeyMessage : w.senderKeyMessage.Lawful ⟨none, none, none⟩
  senderKeyDistributionMessage : w.senderKeyDistributionMessage.Lawful ⟨none, none, none, none⟩

variable {w : WireCodecs}

theorem versionOf_current : versionOf (versionByte 3) = 3 := by decide

variable {data : Bytes} {α : Type}

/-- The packed bytes between the version byte and what ends the message. -/
theorem take_packed {packed suffix : Bytes} {b : UInt8} {n : Nat} (hdata : data = b :: (packed ++ suffix))
    (hn : suffix.length = n) : (data.drop 1).take (data.length - 1 - n) = packed := by
  rw [hdata, ← hn, drop_one, tail_cons, length_cons, length_append, Nat.add_sub_cancel, Nat.add_sub_cancel,
    take_left]

theorem signalMessageDeserialize_eq (hw : w.Lawful) {mac : Bytes} (ratchetKey : EcPublicKey) (counter previousCounter : UInt32)
    (ciphertext : Bytes) (hmac : mac.length = signalMessageMacLength)
    (hdata : data = signalMessageSerialize w 3 ratchetKey counter previousCounter ciphertext ++ mac) :
    ∃ h, signalMessageDeserialize w data = .ok ⟨3, ratchetKey, counter, previousCounter, ciphertext, data, h⟩ := by
  have hpos := hw.signalMessage.length_pos
    (m := ⟨some ratchetKey.serialize, some counter, some previousCounter, some ciphertext⟩) (by simp)
  have hlength : ¬ data.length ≤ 1 + signalMessageMacLength := by
    rw [hdata, length_append, signalMessageSerialize, length_cons, hmac]
    omega
  have hversion : versionOf (data.headD 0) = 3 := by rw [hdata, signalMessageSerialize, cons_append, headD_cons, versionOf_current]
  refine ⟨by omega, ?_⟩
  unfold signalMessageDeserialize
  simp only [dif_neg hlength, hversion, take_packed hdata hmac, hw.signalMessage.unpack_pack, curveDecodePoint_serialize,
    Option.getD_some]
  rfl

theorem preKeySignalMessageDeserialize_create (hw : w.Lawful) (registrationId : UInt32) (preKeyId : Option UInt32)
    (signedPreKeyId : UInt32) (baseKey identityKey : EcPublicKey) {message : SignalMessage} (hversion : message.messageVersion = 3)
    (hmessage : signalMessageDeserialize w message.serialized = .ok message) :
    let m := preKeySignalMessageCreate w 3 registrationId preKeyId signedPreKeyId baseKey identityKey message
    preKeySignalMessageDeserialize w m.serialized = .ok m := by
  have hpos := hw.preKeySignalMessage.length_pos (m := ⟨some registrationId, preKeyId, some signedPreKeyId, some baseKey.serialize,
    some identityKey.serialize, some message.serialized⟩) (by simp)
  simp only [preKeySignalMessageCreate]
  unfold preKeySignalMessageDeserialize
  rw [if_neg (by rw [length_cons]; omega)]
  simp only [headD_cons, versionOf_current]
  rw [if_neg (by decide), if_neg (by decide), drop_one, tail_cons, hw.preKeySignalMessage.unpack_pack]
  simp only [curveDecodePoint_serialize, hmessage, bind, Except.bind, hversion]
  rfl

theorem senderKeyMessageDeserialize_eq (hw : w.Lawful) {signature : Bytes} (keyId iteration : UInt32) (ciphertext : Bytes)
    (hsignature : signature.length = signatureLength)
    (hdata : data = versionByte 3 :: (w.senderKeyMessage.pack ⟨some keyId, some iteration, some ciphertext⟩ ++ signature)) :
    ∃ h, senderKeyMessageDeserialize w data = .ok ⟨3, keyId, iteration, ciphertext, data, h⟩ := by
  have hpos := hw.senderKeyMessage.length_pos (m := ⟨some keyId, some iteration, some ciphertext⟩) (by simp)
  have hlength : ¬ data.length ≤ 1 + signatureLength := by
    rw [hdata, length_cons, length_append, hsignature]
    omega
  have hversion : versionOf (data.headD 0) = 3 := by rw [hdata, headD_cons, versionOf_current]
  refine ⟨by omega, ?_⟩
  unfold senderKeyMessageDeserialize
  simp only [dif_neg hlength, hversion, take_packed hdata hsignature, hw.senderKeyMessage.unpack_pack]
  rfl

theorem senderKeyDistributionMessageDeserialize_create (hw : w.Lawful) (id iteration : UInt32) (chainKey : Bytes)
    (signatureKey : EcPublicKey) :
    let m := senderKeyDistributionMessageCreate w id iteration chainKey signatureKey
    senderKeyDistributionMessageDeserialize w m.serialized = .ok m := by
  have hpos := hw.senderKeyDistributionMessage.length_pos (m := ⟨some id, some iteration, some chainKey, some signatureKey.serialize⟩)
    (by simp)
  simp only [senderKeyDistributionMessageCreate]
  unfold senderKeyDistributionMessageDeserialize
  rw [if_neg (by rw [length_cons]; omega)]
  simp only [headD_cons, ciphertextCurrentVersionByte, versionOf_current]
  rw [if_neg (by decide), if_neg (by decide), drop_one, tail_cons, hw.senderKeyDistributionMessage.unpack_pack]
  simp only [curveDecodePoint_serialize]

/-! ## What was read -/

/-- Two messages that were read from some bytes and keep the same bytes are the same. -/
theorem eq_of_serialized_eq {read : Bytes → Except Int α} {serialized : α → Bytes}
    (hread : ∀ {data m}, read data = .ok m → serialized m = data) {data' : Bytes} {m m' : α} (h : read data = .ok m)
    (h' : read data' = .ok m') (heq : serialized m = serialized m') : m = m' := by
  rw [hread h, hread h'] at heq
  subst heq
  exact Except.ok.inj (h.symm.trans h')

/-- Every message of the current version that is created is read back from its bytes as it was, and passes the check of its MAC or its
signature under the keys it was made with; and messages that were read are determined by their bytes. -/
theorem wireMessages_roundTrip {p : CryptoProvider} (hp : p.Lawful) (hw : w.Lawful) :
    (∀ macKey ratchetKey counter previousCounter ciphertext sender receiver,
      let m := signalMessageCreate p w 3 macKey ratchetKey counter previousCounter ciphertext sender receiver
      signalMessageDeserialize w m.serialized = .ok m ∧ signalMessageVerifyMac p m sender receiver macKey = true ∧
        ∀ registrationId preKeyId signedPreKeyId baseKey identityKey,
          let preKey := preKeySignalMessageCreate w 3 registrationId preKeyId signedPreKeyId baseKey identityKey m
          preKeySignalMessageDeserialize w preKey.serialized = .ok preKey ∧
            signalMessageVerifyMac p preKey.message sender receiver macKey = true) ∧
    (∀ keyId iteration ciphertext signatureKey random,
      let m := senderKeyMessageCreate p w keyId iteration ciphertext signatureKey random
      senderKeyMessageDeserialize w m.serialized = .ok m ∧
        senderKeyMessageVerifySignature p m (p.publicKey signatureKey) = .ok ()) ∧
    (∀ id iteration chainKey signatureKey,
      let m := senderKeyDistributionMessageCreate w id iteration chainKey signatureKey
      senderKeyDistributionMessageDeserialize w m.serialized = .ok m) ∧
    (∀ data data' m m', signalMessageDeserialize w data = .ok m → signalMessageDeserialize w data' = .ok m' →
      m.serialized = m'.serialized → m = m') ∧
    (∀ data data' m m', preKeySignalMessageDeserialize w data = .ok m → preKeySignalMessageDeserialize w data' = .ok m' →
      m.serialized = m'.serialized → m = m') ∧
    (∀ data data' m m', senderKeyMessageDeserialize w data = .ok m → senderKeyMessageDeserialize w data' = .ok m' →
      m.serialized = m'.serialized → m = m') ∧
    ∀ data data' m m', senderKeyDistributionMessageDeserialize w data = .ok m → senderKeyDistributionMessageDeserialize w data' = .ok m' →
      m.serialized = m'.serialized → m = m' := by
  refine ⟨?_, ?_, ?_, ?_, ?_, ?_, ?_⟩
  · intro macKey ratchetKey counter previousCounter ciphertext sender receiver m
    obtain ⟨_, hread⟩ := signalMessageDeserialize_eq hw ratchetKey counter previousCounter ciphertext
      (length_signalMessageGetMac p 3 sender receiver macKey _) rfl
    have hverify := signalMessageVerifyMac_create p w 3 macKey ratchetKey counter previousCounter ciphertext sender receiver
    refine ⟨hread, hverify, ?_⟩
    intro registrationId preKeyId signedPreKeyId baseKey identityKey
    exact ⟨preKeySignalMessageDeserialize_create hw registrationId preKeyId signedPreKeyId baseKey identityKey rfl hread, hverify⟩
  · intro keyId iteration ciphertext signatureKey random
    obtain ⟨_, hread⟩ := senderKeyMessageDeserialize_eq hw keyId iteration ciphertext (p.length_sign signatureKey _ random) rfl
    exact ⟨hread, senderKeyMessageVerifySignature_create hp w keyId iteration ciphertext signatureKey random⟩
  · exact senderKeyDistributionMessageDeserialize_create hw
  -- whatever is read keeps its bytes
  all_goals
    refine fun _ _ _ _ => eq_of_serialized_eq fun {_ _} h => ?_
    simp only [signalMessageDeserialize, preKeySignalMessageDeserialize, senderKeyMessageDeserialize,
      senderKeyDistributionMessageDeserialize, bind, Except.bind] at h
    repeat' split at h
    all_goals cases h
    all_goals rfl

/-! ## A codec -/

/-- Writes every member that is there as a tag, the length as so many ones and a zero, and the bytes. The tag counts the members from it
on. -/
def packFields : List (Option Bytes) → Bytes
  | [] => []
  | none :: fields => packFields fields
  | some value :: fields => .ofNat (fields.length + 1) :: (replicate value.length 1 ++ 0 :: (value ++ packFields fields))

/-- Reads so many members back. -/
def unpackFields : Nat → Bytes → List (Option Bytes)
  | 0, _ => []
  | n + 1, data =>
    if data.head? = some (.ofNat (n + 1)) then
      let len := (data.tail.takeWhile (· = 1)).length
      let data := (data.tail.dropWhile (· = 1)).tail
      some (data.take len) :: unpackFields n (data.drop len)
    else none :: unpackFields n data

theorem head_packFields {fields : List (Option Bytes)} {tag : UInt8} (h : (packFields fields).head? = some tag) :
    tag.toNat ≤ fields.length := by
  induction fields with
  | nil => cases h
  | cons field fields ih =>
    cases field with
    | none => exact (ih h).trans (Nat.le_succ _)
    | some value =>
      obtain rfl := Option.some.inj h
      exact Nat.mod_le _ _

theorem unpack_packFields (fields : List (Option Bytes)) (h : fields.length < 256) :
    unpackFields fields.length (packFields fields) = fields := by
  induction fields with
  | nil => rfl
  | cons field fields ih =>
    have ih := ih (by rw [length_cons] at h; omega)
    rw [length_cons] at h ⊢
    cases field with
    | none =>
      have htag : (packFields fields).head? ≠ some (.ofNat (fields.length + 1)) := by
        intro hhead
        have := head_packFields hhead
        rw [UInt8.toNat_ofNat_of_lt' h] at this
        omega
      rw [packFields, unpackFields, if_neg htag, ih]
    | some value =>
      rw [packFields, unpackFields, head?_cons, if_pos rfl, tail_cons, takeWhile_append_of_pos (by simp),
        dropWhile_append_of_pos (by simp)]
      simp [ih]

/-- A word in four bytes. -/
def word (n : UInt32) : Bytes := beBytes 4 n.toNat

/-- The word in four bytes. -/
def ofWord (data : Bytes) : UInt32 := .ofNat (ofBe data)

@[simp] theorem ofWord_word (n : UInt32) : ofWord (word n) = n := by
  rw [ofWord, word, ofBe_beBytes n.toNat_lt, UInt32.ofNat_toNat]

/-- The codec of a message with so many members. -/
def fieldsCodec (n : Nat) (fields : α → List (Option Bytes)) (make : (Nat → Option Bytes) → α) : WireCodec α :=
  ⟨fun m => packFields (fields m), fun data => some (make fun i => (unpackFields n data).getD i none)⟩

theorem lawful_fieldsCodec {n : Nat} {fields : α → List (Option Bytes)} {make : (Nat → Option Bytes) → α} {empty : α}
    (hempty : packFields (fields empty) = []) (hlength : ∀ m, (fields m).length = n) (hn : n < 256)
    (hmake : ∀ m, (make fun i => (fields m).getD i none) = m) : (fieldsCodec n fields make).Lawful empty := by
  refine ⟨fun m => ?_, hempty⟩
  have hread := unpack_packFields (fields m) (by rwa [hlength])
  rw [hlength] at hread
  simp only [fieldsCodec, hread, hmake]

/-- The codecs of the four messages. -/
def fieldsWire : WireCodecs where
  signalMessage := fieldsCodec 4 (fun m => [m.ratchetKey, m.counter.map word, m.previousCounter.map word, m.ciphertext])
    fun f => ⟨f 0, (f 1).map ofWord, (f 2).map ofWord, f 3⟩
  preKeySignalMessage := fieldsCodec 6
    (fun m => [m.registrationId.map word, m.preKeyId.map word, m.signedPreKeyId.map word, m.baseKey, m.identityKey, m.message])
    fun f => ⟨(f 0).map ofWord, (f 1).map ofWord, (f 2).map ofWord, f 3, f 4, f 5⟩
  senderKeyMessage := fieldsCodec 3 (fun m => [m.id.map word, m.iteration.map word, m.ciphertext])
    fun f => ⟨(f 0).map ofWord, (f 1).map ofWord, f 2⟩
  senderKeyDistributionMessage := fieldsCodec 4 (fun m => [m.id.map word, m.iteration.map word, m.chainKey, m.signingKey])
    fun f => ⟨(f 0).map ofWord, (f 1).map ofWord, f 2, f 3⟩

theorem lawful_fieldsWire : fieldsWire.Lawful := by
  constructor
  all_goals
    dsimp only [fieldsWire]
    refine lawful_fieldsCodec rfl (fun _ => rfl) (by decide) ?_
    rintro ⟨⟩
    simp [Function.comp_def]

/-- The four messages of the sample provider. -/
theorem wireMessages_roundTrip_sample :
    let key := (samplePair 1).publicKey
    let m := signalMessageCreate sampleProvider fieldsWire 3 [1] key 2 1 [3, 4] key key
    let preKey := preKeySignalMessageCreate fieldsWire 3 5 none 6 key key m
    let senderKey := senderKeyMessageCreate sampleProvider fieldsWire 7 8 [9] (sampleKey 1) []
    let distribution := senderKeyDistributionMessageCreate fieldsWire 7 8 [9] key
    signalMessageDeserialize fieldsWire m.serialized = .ok m ∧
      preKeySignalMessageDeserialize fieldsWire preKey.serialized = .ok preKey ∧
      senderKeyMessageDeserialize fieldsWire senderKey.serialized = .ok senderKey ∧
      senderKeyDistributionMessageDeserialize fieldsWire distribution.serialized = .ok distribution := by
  have h := wireMessages_roundTrip sampleProvider_lawful lawful_fieldsWire
  have hmessage := h.1 [1] (samplePair 1).publicKey 2 1 [3, 4] (samplePair 1).publicKey (samplePair 1).publicKey
  exact ⟨hmessage.1, (hmessage.2.2 5 none 6 _ _).1, (h.2.1 7 8 [9] (sampleKey 1) []).1, h.2.2.1 7 8 [9] _⟩

end Osp.Signal
