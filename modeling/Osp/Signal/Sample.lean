import Osp.Signal.Conversation
import Osp.Signal.Group

/-!
# A sample provider

A crypto provider for runs on fixed inputs, with which every function of the model can be evaluated. It meets the assumptions on
the primitives and no more: its hash tells short inputs apart and no long ones, and its cipher adds one byte of the key.
-/

namespace Osp.Signal

open Osp.Lib

/-- A hash of the ends of a short input; all inputs longer than two serialised keys have the same. -/
def sampleHmac (key message : Bytes) : Bytes :=
  List.replicate 32 (if message.length < 66 then 5 * key.headD 0 + 2 * message.headD 0 + message.getLastD 0 else 0)

/-- A public key has the bytes of the private one, agreement adds the two, and every signature is accepted. -/
def sampleProvider : CryptoProvider where
  hmacSha256 := sampleHmac
  length_hmacSha256 := fun _ _ => List.length_replicate
  encrypt := fun _ key _ plaintext => .ok (plaintext.map (· + key.headD 0))
  decrypt := fun _ key _ ciphertext => .ok (ciphertext.map (· - key.headD 0))
  publicKey := fun key => ⟨key.data, key.length_data⟩
  agreement := fun theirs ours => List.zipWith (· + ·) theirs.data ours.data
  sign := fun _ _ _ => List.replicate 64 0
  length_sign := fun _ _ _ => List.length_replicate
  verify := fun _ _ _ => true

theorem sampleProvider_lawful : sampleProvider.Lawful where
  agreement_comm := fun a b => List.zipWith_comm_of_comm UInt8.add_comm
  decrypt_encrypt := by
    intro cipher key iv plaintext ciphertext h
    cases h
    simp [sampleProvider, Function.comp_def]
  verify_sign := fun _ _ _ => rfl

/-- A private key for each number. -/
def sampleKey (n : UInt8) : EcPrivateKey := ⟨List.replicate 32 n, List.length_replicate⟩

/-- A key pair for each number. -/
def samplePair (n : UInt8) : EcKeyPair := curveGenerateKeyPair sampleProvider (sampleKey n)

/-- Wire codecs that write nothing. Every message that is read is the first on Alice's first chain, and its MAC is right; a
pre-key message has the base key of its first byte. -/
def sampleWire : WireCodecs where
  signalMessage := ⟨fun _ => [], fun _ => some ⟨some (samplePair 5).publicKey.serialize, some 0, some 0, some [1]⟩⟩
  preKeySignalMessage := ⟨fun _ => [], fun data =>
    some ⟨some 1, none, some 7, some (samplePair (data.headD 0)).publicKey.serialize,
      some (samplePair 1).publicKey.serialize, some (versionByte 3 :: List.replicate 9 0)⟩⟩
  senderKeyMessage := ⟨fun _ => [], fun _ => none⟩
  senderKeyDistributionMessage := ⟨fun _ => [], fun _ => none⟩

/-- The sample provider, with messages that are stored as they are, where everyone is trusted. -/
def sampleContext : Context := ⟨sampleProvider, .identity, sampleWire, fun _ _ _ => 1⟩

/-- An address for each party. -/
def sampleAddress (x : Side) : Address := ⟨if x = .initiator then [0] else [1], 1⟩

/-- A store without sessions. -/
def sampleStore : Store sampleContext where
  sessions := fun _ => none
  preKeys := fun _ => none
  signedPreKeys := fun _ => none
  identities := fun _ => none
  identityPublic := (samplePair 1).publicKey.serialize
  identityPrivate := (samplePair 1).privateKey.serialize
  localRegistrationId := 1

/-- Alice's parameters for a session with Bob. -/
def sampleAlice : AliceParameters where
  ourIdentityKey := samplePair 1
  ourBaseKey := samplePair 2
  theirIdentityKey := (samplePair 3).publicKey
  theirSignedPreKey := (samplePair 4).publicKey
  theirOneTimePreKey := none
  theirRatchetKey := (samplePair 4).publicKey

/-- Bob's parameters for a session with Alice. -/
def sampleBob : BobParameters where
  ourIdentityKey := samplePair 3
  ourSignedPreKey := samplePair 4
  ourOneTimePreKey := none
  ourRatchetKey := samplePair 4
  theirIdentityKey := (samplePair 1).publicKey
  theirBaseKey := (samplePair 2).publicKey

theorem sample_matching : Matching sampleProvider sampleAlice sampleBob :=
  ⟨rfl, rfl, rfl, rfl, fun _ h => by simp [sampleBob] at h, rfl, rfl, rfl, rfl, rfl, rfl, rfl⟩

/-- The beginning of the conversation between the two. -/
def sampleStart : Conversation sampleContext :=
  Conversation.start sampleAddress (fun _ => sampleStore) sampleAlice sampleBob (sampleKey 5)

/-- A message of Alice in the sample conversation, under her first ratchet key. -/
def sampleMessage (counter : UInt32) (ciphertext : Bytes) : SignalMessage :=
  signalMessageCreate sampleProvider sampleWire 3 [] (samplePair 5).publicKey counter 0 ciphertext (samplePair 1).publicKey
    (samplePair 3).publicKey

/-- Bob's store before he knows Alice: his identity, and a signed pre-key. -/
def sampleBobStore : Store sampleContext :=
  { sampleStore with
    signedPreKeys := fun signedPreKeyId =>
      if signedPreKeyId = 7 then
        some ⟨some 7, some (samplePair 4).publicKey.serialize, some (samplePair 4).privateKey.serialize, some [], some 0⟩
      else none
    identityPublic := (samplePair 3).publicKey.serialize
    identityPrivate := (samplePair 3).privateKey.serialize }

/-- Bob's cipher for Alice. -/
def sampleBobCipher : SessionCipher := ⟨sampleAddress .responder, none, false⟩

/-- Alice's first message to Bob, with some message in it. -/
def samplePreKeyMessage (message : SignalMessage) : PreKeySignalMessage :=
  preKeySignalMessageCreate sampleWire 3 1 none 7 (samplePair 2).publicKey (samplePair 1).publicKey message

/-! ## A group -/

/-- The name of Alice's sender key. -/
def sampleName : SenderKeyName := ⟨[0], sampleAddress .initiator⟩

/-- A store without sender keys. -/
def sampleKeyStore : SenderKeyStore sampleContext := ⟨fun _ => none⟩

/-- What Alice draws for her sender key. -/
def sampleNewSenderKey : NewSenderKey := ⟨9, List.replicate 32 1, sampleKey 11⟩

/-- The distribution message of Alice's new sender key. -/
def sampleDistribution : SenderKeyDistributionMessage := ⟨9, 0, List.replicate 32 1, (samplePair 11).publicKey⟩

/-- A message of Alice's to the group. -/
def sampleGroupMessage (iteration : UInt32) (ciphertext : Bytes) : SenderKeyMessage :=
  senderKeyMessageCreate sampleProvider sampleWire 9 iteration ciphertext (sampleKey 11) []

/-! ## Schedules -/

/-- A step of a schedule: a party encrypts a text, or decrypts the message that was the `n`-th to be made. -/
inductive ScheduleStep
  | encrypt (x : Side) (plaintext : Bytes)
  | deliver (x : Side) (n : Nat) (random : EcPrivateKey)

namespace Conversation

variable {ctx : Context} (address : Side → Address)

/-- The conversation after a step of a schedule, if there is such a message and it is for that party. -/
def playStep (w : Conversation ctx) : ScheduleStep → Option (Conversation ctx)
  | .encrypt x plaintext => some (w.encrypted address x plaintext)
  | .deliver x n random =>
    match w.sent.reverse[n]? with
    | none => none
    | some (y, message, _) =>
      if y = x.other ∧ (w.needsKey address x message → ctx.crypto.publicKey random ∉ w.generated)
      then some (w.delivered address x message random) else none

/-- The conversation after a schedule. -/
def play : Conversation ctx → List ScheduleStep → Option (Conversation ctx)
  | w, [] => some w
  | w, s :: steps => (w.playStep address s).bind fun w => w.play steps

variable {address}

/-- A schedule is an honest run. -/
theorem reaches_of_play {w₀ w w' : Conversation ctx} {steps : List ScheduleStep}
    (h₀ : Reaches address (Honest address) w₀ w) (h : w.play address steps = some w') :
    Reaches address (Honest address) w₀ w' := by
  induction steps generalizing w with
  | nil => exact (Option.some.inj h) ▸ h₀
  | cons s steps ih =>
    obtain ⟨w₁, hs, h⟩ := Option.bind_eq_some_iff.1 h
    refine ih ?_ h
    cases s with
    | encrypt x plaintext =>
      obtain rfl : w.encrypted address x plaintext = w₁ := Option.some.inj hs
      exact h₀.encrypt x plaintext trivial
    | deliver x n random =>
      simp only [playStep] at hs
      split at hs
      · cases hs
      · rename_i y message plaintext hmem
        split at hs
        · rename_i hok
          obtain rfl : w.delivered address x message random = w₁ := Option.some.inj hs
          obtain ⟨rfl, hfresh⟩ := hok
          have hsent : (x.other, message, plaintext) ∈ w.sent := List.mem_reverse.1 (List.mem_of_getElem? hmem)
          exact h₀.deliver x message random ⟨⟨plaintext, hsent⟩, hfresh⟩
        · cases hs

end Conversation

end Osp.Signal
