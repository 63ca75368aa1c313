import Osp.Lib.RatchetDelivery
import Osp.Signal.Lemmas.SessionCipher

/-!
# Session states as parties of the double ratchet

The keys of a session form a `RatchetSuite`. A state that `Represents` a party does what the party does: the functions that give
the keys of a message refine `Party.deliver`.
-/

namespace Osp.Signal

open Osp.Lib Osp.Lib.DoubleRatchet SessionState ReceiverChain Option

/-- The primitives of the library as those of a double ratchet. -/
def ratchetSuite (p : CryptoProvider) (hp : p.Lawful) :
    RatchetSuite EcPublicKey EcPrivateKey RatchetRootKey RatchetChainKey RatchetMessageKeys where
  chain := ratchetChain p
  pub := p.publicKey
  mix := RatchetRootKey.createChain p
  mix_comm := fun _ _ _ => by rw [RatchetRootKey.createChain, hp.agreement_comm, RatchetRootKey.createChain]
  index_mix := fun _ _ _ => rfl

/-- The double ratchet of lawful primitives. -/
abbrev CryptoProvider.Lawful.suite {p : CryptoProvider} (hp : p.Lawful) := ratchetSuite p hp

/-- A party whose keys are those of a session. -/
abbrev SessionParty := Party EcPublicKey EcPrivateKey RatchetRootKey RatchetChainKey RatchetMessageKeys

/-- A receiving chain of a party, as the state holds it. -/
def receiverChainOf (chain : EcPublicKey × Receiver RatchetChainKey RatchetMessageKeys) : ReceiverChain :=
  ⟨some chain.1, some chain.2.key, chain.2.stored⟩

/-- The state holds the keys of the party. -/
structure Represents (p : CryptoProvider) (state : SessionState) (party : SessionParty) : Prop where
  rootKey : state.rootKey = some party.root
  senderChain : state.senderChain = some ⟨some (curveGenerateKeyPair p party.own), some party.send⟩
  receiverChains : state.receiverChains = party.recv.map receiverChainOf

variable {ctx : Context} {hp : ctx.crypto.Lawful} {state : SessionState} {party : SessionParty} {their : EcPublicKey}
  {random : EcPrivateKey} {counter : UInt32}

namespace Represents

section

variable (h : Represents ctx.crypto state party)

include h

theorem getSenderChainKey : state.getSenderChainKey = some party.send := by
  rw [SessionState.getSenderChainKey, h.senderChain]
  rfl

theorem getSenderRatchetKeyPair :
    state.getSenderRatchetKeyPair = some (curveGenerateKeyPair ctx.crypto party.own) := by
  rw [SessionState.getSenderRatchetKeyPair, h.senderChain]
  rfl

omit h in
theorem isFor_receiverChainOf (chain : EcPublicKey × Receiver RatchetChainKey RatchetMessageKeys) :
    isFor their (receiverChainOf chain) = (chain.1 == their) := by
  simp [isFor, receiverChainOf]

theorem findReceiverChain (their : EcPublicKey) :
    state.findReceiverChain their = (party.find their).map fun r => receiverChainOf (their, r) := by
  rw [SessionState.findReceiverChain, h.receiverChains, List.find?_map, Party.find]
  have hcomp : (isFor their ∘ receiverChainOf) = fun chain => chain.1 == their :=
    funext isFor_receiverChainOf
  rw [hcomp]
  cases hf : party.recv.find? (·.1 == their) with
  | none => rfl
  | some chain =>
    have hkey : chain.1 = their := by simpa using List.find?_some hf
    simp [receiverChainOf, hkey]

theorem getReceiverChainKey (their : EcPublicKey) :
    state.getReceiverChainKey their = (party.find their).map Receiver.key := by
  rw [SessionState.getReceiverChainKey, h.findReceiverChain]
  cases party.find their <;> rfl

/-- The chains and skipped keys of the state are those of the party. -/
theorem heldChains_eq :
    state.receiverChains.filterMap senderRatchetKey = party.keys := by
  rw [h.receiverChains, Party.keys, List.filterMap_map]
  induction party.recv with
  | nil => rfl
  | cons chain l ih => simp [ih, receiverChainOf]

theorem updateReceiverChain
    (r : Receiver RatchetChainKey RatchetMessageKeys) :
    Represents ctx.crypto (state.updateReceiverChain their (hold r)) (party.put their r) := by
  refine ⟨h.rootKey, h.senderChain, ?_⟩
  simp only [SessionState.updateReceiverChain, Party.put, h.receiverChains]
  induction party.recv with
  | nil => rfl
  | cons chain l ih =>
    simp only [List.map_cons, updateFirst, isFor_receiverChainOf]
    split
    · rfl
    · rw [List.map_cons, ih]

/-- A state that takes a turn represents the party that takes it. -/
theorem turned (random : EcPrivateKey) (their : EcPublicKey) :
    Represents ctx.crypto
      (state.turned ctx random party.root (curveGenerateKeyPair ctx.crypto party.own) party.send their)
      (party.turn hp.suite maxReceiverChains random their) := by
  refine ⟨rfl, rfl, ?_⟩
  simp only [SessionState.turned, SessionState.opened, SessionState.addReceiverChain, Party.turn, h.receiverChains]
  rw [← lastN_map, List.map_append]
  rfl

end

end Represents

/-- The state gives the keys that the party gives, and refuses what it refuses. -/
theorem messageKeysFor_represents (hp : ctx.crypto.Lawful) (h : Represents ctx.crypto state party) (random : EcPrivateKey) (their : EcPublicKey)
    (counter : UInt32) :
    match party.deliver hp.suite maxReceiverChains maxMessageKeys 2000 random
      their counter with
    | .ok (keys, party') => ∃ state', messageKeysFor ctx random state their counter = (.ok keys, state') ∧
        Represents ctx.crypto state' party'
    | .error refusal => ∃ state', messageKeysFor ctx random state their counter = (.error (refusalCode refusal), state') := by
  have hspec : ∀ {s : SessionState} {q : SessionParty} {r : Receiver RatchetChainKey RatchetMessageKeys},
      Represents ctx.crypto s q → q.find their = some r →
      match (r.take (ratchetChain ctx.crypto) maxMessageKeys 2000 counter).map
        (fun mr => (mr.1, q.put their mr.2)) with
      | .ok (keys, party') => ∃ state', getOrCreateMessageKeys ctx s their r.key counter = (.ok keys, state') ∧
          Represents ctx.crypto state' party'
      | .error refusal =>
        ∃ state', getOrCreateMessageKeys ctx s their r.key counter = (.error (refusalCode refusal), state') := by
    intro s q r hs hfind
    have hchain := hs.findReceiverChain their
    rw [hfind, map_some] at hchain
    rw [getOrCreateMessageKeys_eq hchain (.inl rfl)]
    simp only [receiverChainOf]
    cases htake : r.take (ratchetChain ctx.crypto) maxMessageKeys 2000 counter with
    | error refusal => exact ⟨s, rfl⟩
    | ok mr => exact ⟨_, rfl, hs.updateReceiverChain mr.2⟩
  unfold Party.deliver messageKeysFor
  cases hfind : party.find their with
  | some r =>
    have hmeet : party.meet hp.suite maxReceiverChains random their = party := by
      rw [Party.meet, hfind, isSome_some, if_pos rfl]
    have hget := h.getReceiverChainKey their
    simp only [hmeet, hfind, getOrCreateChainKey, hget]
    exact hspec h hfind
  | none =>
    have hmeet : party.meet hp.suite maxReceiverChains random their =
        party.turn hp.suite maxReceiverChains random their := by
      rw [Party.meet, hfind, isSome_none, if_neg (by decide)]
    have hturn := Party.find_turn (S := hp.suite) hfind (by decide : 0 < maxReceiverChains) random
    have hget := h.getReceiverChainKey their
    rw [hfind, map_none] at hget
    simp only [hmeet, hturn]
    obtain ⟨_, hsome, -⟩ | ⟨-, ⟨hnone, -⟩ | ⟨rootKey, our, hroot, hour, ⟨hnone, -⟩ | ⟨previous, hprev, hcall⟩⟩⟩ :=
      getOrCreateChainKey_cases ctx random state their
    · rw [hget] at hsome
      cases hsome
    · rw [h.rootKey, h.getSenderRatchetKeyPair] at hnone
      rcases hnone with hnone | hnone <;> cases hnone
    · rw [h.getSenderChainKey] at hnone
      cases hnone
    · obtain rfl : party.root = rootKey := Option.some.inj (h.rootKey.symm.trans hroot)
      obtain rfl : curveGenerateKeyPair ctx.crypto party.own = our :=
        Option.some.inj (h.getSenderRatchetKeyPair.symm.trans hour)
      obtain rfl : party.send = previous := Option.some.inj (h.getSenderChainKey.symm.trans hprev)
      rw [hcall]
      exact hspec (h.turned random their) hturn

/-! ## Sessions of the current version -/

/-- A state of the current version that represents a party, between two identities, and that has no pre-key to acknowledge. -/
structure Live (p : CryptoProvider) (ours theirs : EcPublicKey) (state : SessionState) (party : SessionParty) : Prop where
  represents : Represents p state party
  storable : state.Storable
  sessionVersion : state.sessionVersion = ciphertextCurrentVersion
  localIdentity : state.localIdentityPublic = some ours
  remoteIdentity : state.remoteIdentityPublic = some theirs
  pendingPreKey : state.pendingPreKey = none

variable {ours theirs : EcPublicKey} {plaintext ciphertext : Bytes}

/-- The message that is made with the keys of a position. -/
def messageWith (ctx : Context) (ratchetKey : EcPublicKey) (keys : RatchetMessageKeys) (previousCounter : UInt32)
    (ciphertext : Bytes) (sender receiver : EcPublicKey) : SignalMessage :=
  signalMessageCreate ctx.crypto ctx.wire ciphertextCurrentVersion.toUInt8 keys.macKey ratchetKey keys.counter previousCounter
    ciphertext sender receiver

/-- Encrypting makes a message with the keys of the sending chain and advances it; it fails only when the cipher does. -/
theorem Live.encrypt (h : Live ctx.crypto ours theirs state party) (plaintext : Bytes) :
    match getCiphertext ctx ciphertextCurrentVersion (party.send.getMessageKeys ctx.crypto) plaintext with
    | .error code => encryptWithState ctx state plaintext = .error code
    | .ok ciphertext => ∃ state', encryptWithState ctx state plaintext =
        .ok (.signal (messageWith ctx (ctx.crypto.publicKey party.own) (party.send.getMessageKeys ctx.crypto)
          state.previousCounter ciphertext ours theirs), state') ∧
        Live ctx.crypto ours theirs state' { party with send := party.send.createNext ctx.crypto } := by
  have hkey : state.getSenderRatchetKey = some (ctx.crypto.publicKey party.own) := by
    rw [SessionState.getSenderRatchetKey, h.represents.getSenderRatchetKeyPair]
    rfl
  unfold encryptWithState
  simp only [h.represents.getSenderChainKey, hkey, h.sessionVersion, h.localIdentity, h.remoteIdentity, wrapMessage,
    h.pendingPreKey, SessionState.setSenderChainKey, h.represents.senderChain]
  cases getCiphertext ctx ciphertextCurrentVersion (party.send.getMessageKeys ctx.crypto) plaintext with
  | error code => rfl
  | ok ciphertext =>
    have hsend := h.storable.senderChain _ h.represents.senderChain _ rfl
    have hroot := h.storable.rootKey
    have hreceivers := h.storable.receiverChains
    rw [h.sessionVersion] at hsend hroot hreceivers
    refine ⟨_, rfl, ⟨h.represents.rootKey, rfl, h.represents.receiverChains⟩, ⟨hroot, ?_, hreceivers⟩, rfl, rfl, rfl, rfl⟩
    rintro chain ⟨⟩ key ⟨⟩
    exact hsend.createNext _

/-- A message that was made with the keys which the party gives for it is decrypted. -/
theorem Live.decrypt (h : Live ctx.crypto ours theirs state party) {keys : RatchetMessageKeys} {party' : SessionParty}
    (previousCounter : UInt32)
    (hd : party.deliver hp.suite maxReceiverChains maxMessageKeys 2000 random
      their keys.counter = .ok (keys, party'))
    (hc : getCiphertext ctx ciphertextCurrentVersion keys plaintext = .ok ciphertext) :
    ∃ state', decryptFromState ctx random state (messageWith ctx their keys previousCounter ciphertext theirs ours) =
        (.ok plaintext, state') ∧ Live ctx.crypto ours theirs state' party' := by
  have hkeys := messageKeysFor_represents hp h.represents random their keys.counter
  rw [hd] at hkeys
  obtain ⟨state', hcall, hrep⟩ := hkeys
  obtain ⟨hframe, hstorable⟩ := messageKeysFor_keeps ctx random state their keys.counter
  simp only [hcall] at hframe hstorable
  have hlocal := hframe.localIdentityPublic.trans h.localIdentity
  have hremote := hframe.remoteIdentityPublic.trans h.remoteIdentity
  have hs := hstorable h.storable
  have hplain : getPlaintext ctx ciphertextCurrentVersion keys ciphertext = .ok plaintext := hp.decrypt_encrypt _ _ _ _ _ hc
  refine ⟨state'.clearUnacknowledgedPreKeyMessage, ?_, { hrep with },
    { hs with }, hframe.sessionVersion.trans h.sessionVersion, hlocal, hremote, rfl⟩
  unfold decryptFromState
  rw [h.represents.senderChain, isNone_some, if_neg (by decide), if_neg]
  · simp only [messageWith, signalMessageCreate] at hcall ⊢
    simp only [hcall, openMessage, hlocal, hremote]
    have hmac := signalMessageVerifyMac_create ctx.crypto ctx.wire ciphertextCurrentVersion.toUInt8 keys.macKey their
      keys.counter previousCounter ciphertext theirs ours
    simp only [signalMessageCreate] at hmac
    rw [hmac, if_pos rfl, show ciphertextCurrentVersion.toUInt8.toUInt32 = ciphertextCurrentVersion from rfl, hplain]
  · rw [h.sessionVersion]
    exact fun hne => hne rfl

end Osp.Signal
