import Osp.Signal.Lemmas.Storable

/-!
# Malformed session structures

When `session_state_deserialize_protobuf` succeeds, what is present in the structure is in the state too, if and only if none of the
components whose defects it passes over has one.
-/

namespace Osp.Signal

open Osp.Lib ChainStructure

/-! ## What is kept -/

/-- A field that is present is present in the other message, and related to what is there. -/
def KeptBy {α : Type} (R : α → α → Prop) (a b : Option α) : Prop := ∀ x, a = some x → ∃ y, b = some y ∧ R x y

/-- A field that is present has the same value in the other message. -/
abbrev Kept {α : Type} (a b : Option α) : Prop := KeptBy Eq a b

structure ChainKeyStructure.KeptIn (a b : ChainKeyStructure) : Prop where
  index : Kept a.index b.index
  key : Kept a.key b.key

structure MessageKeyStructure.KeptIn (a b : MessageKeyStructure) : Prop where
  index : Kept a.index b.index
  cipherKey : Kept a.cipherKey b.cipherKey
  macKey : Kept a.macKey b.macKey
  iv : Kept a.iv b.iv

structure ChainStructure.KeptIn (a b : ChainStructure) : Prop where
  senderRatchetKey : Kept a.senderRatchetKey b.senderRatchetKey
  senderRatchetKeyPrivate : Kept a.senderRatchetKeyPrivate b.senderRatchetKeyPrivate
  chainKey : KeptBy ChainKeyStructure.KeptIn a.chainKey b.chainKey
  messageKeys : List.Forall₂ MessageKeyStructure.KeptIn a.messageKeys b.messageKeys

structure PendingKeyExchangeStructure.KeptIn (a b : PendingKeyExchangeStructure) : Prop where
  sequence : Kept a.sequence b.sequence
  localBaseKey : Kept a.localBaseKey b.localBaseKey ∧ Kept a.localBaseKeyPrivate b.localBaseKeyPrivate
  localRatchetKey : Kept a.localRatchetKey b.localRatchetKey ∧ Kept a.localRatchetKeyPrivate b.localRatchetKeyPrivate
  localIdentityKey : Kept a.localIdentityKey b.localIdentityKey ∧ Kept a.localIdentityKeyPrivate b.localIdentityKeyPrivate

structure PendingPreKeyStructure.KeptIn (a b : PendingPreKeyStructure) : Prop where
  preKeyId : Kept a.preKeyId b.preKeyId
  signedPreKeyId : Kept a.signedPreKeyId b.signedPreKeyId
  baseKey : Kept a.baseKey b.baseKey

/-- Every component that is present in the one structure is present and equal in the other. -/
structure SessionStructure.KeptIn (a b : SessionStructure) : Prop where
  sessionVersion : Kept a.sessionVersion b.sessionVersion
  localIdentityPublic : Kept a.localIdentityPublic b.localIdentityPublic
  remoteIdentityPublic : Kept a.remoteIdentityPublic b.remoteIdentityPublic
  rootKey : Kept a.rootKey b.rootKey
  previousCounter : Kept a.previousCounter b.previousCounter
  senderChain : KeptBy ChainStructure.KeptIn a.senderChain b.senderChain
  receiverChains : List.Forall₂ ChainStructure.KeptIn a.receiverChains b.receiverChains
  pendingKeyExchange : KeptBy PendingKeyExchangeStructure.KeptIn a.pendingKeyExchange b.pendingKeyExchange
  pendingPreKey : KeptBy PendingPreKeyStructure.KeptIn a.pendingPreKey b.pendingPreKey
  remoteRegistrationId : Kept a.remoteRegistrationId b.remoteRegistrationId
  localRegistrationId : Kept a.localRegistrationId b.localRegistrationId
  needsRefresh : Kept a.needsRefresh b.needsRefresh
  aliceBaseKey : Kept a.aliceBaseKey b.aliceBaseKey

/-! ## What is passed over -/

/-- A key pair has both of its halves or none. -/
def PairWhole (publicField privateField : Option Bytes) : Prop := publicField.isSome = privateField.isSome

/-- A chain key that is present has an index and a key; the lengths of chain keys and root keys are not checked. -/
def ChainKeyWhole (chainKey : Option ChainKeyStructure) : Prop := ∀ c, chainKey = some c → c.index.isSome ∧ c.key.isSome

/-- Message keys have the lengths of the arrays they are copied to. -/
structure MessageKeyStructure.Whole (keys : MessageKeyStructure) : Prop where
  cipherKey : ∀ b, keys.cipherKey = some b → b.length = 32
  macKey : ∀ b, keys.macKey = some b → b.length = 32
  iv : ∀ b, keys.iv = some b → b.length = 16

/-- A sender chain can be read, its key pair and chain key are whole, and it has no message keys. -/
structure ChainStructure.SenderWhole (sessionVersion : UInt32) (chain : ChainStructure) : Prop where
  pair : PairWhole chain.senderRatchetKey chain.senderRatchetKeyPrivate
  chainKey : ChainKeyWhole chain.chainKey
  messageKeys : chain.messageKeys = []
  read : (chain.deserializeSenderChain sessionVersion).isOk

/-- A receiver chain has no private key, and its chain key and message keys are whole. -/
structure ChainStructure.ReceiverWhole (chain : ChainStructure) : Prop where
  senderRatchetKeyPrivate : chain.senderRatchetKeyPrivate = none
  chainKey : ChainKeyWhole chain.chainKey
  messageKeys : ∀ keys ∈ chain.messageKeys, keys.Whole

/-- The key pairs of a pending key exchange are whole. -/
structure PendingKeyExchangeStructure.Whole (exchange : PendingKeyExchangeStructure) : Prop where
  base : PairWhole exchange.localBaseKey exchange.localBaseKeyPrivate
  ratchet : PairWhole exchange.localRatchetKey exchange.localRatchetKeyPrivate
  identity : PairWhole exchange.localIdentityKey exchange.localIdentityKeyPrivate

/-- No component has a defect that is passed over. -/
structure SessionStructure.Whole (session : SessionStructure) : Prop where
  senderChain : ∀ chain, session.senderChain = some chain → chain.SenderWhole (session.sessionVersion.getD 2)
  receiverChains : ∀ chain ∈ session.receiverChains, chain.ReceiverWhole
  pendingKeyExchange : ∀ exchange, session.pendingKeyExchange = some exchange → exchange.Whole

/-! ## Components -/

variable {field : Option Bytes} {α β : Type} {sessionVersion : UInt32} {R : α → α → Prop}

@[simp] theorem kept_none (b : Option α) : KeptBy R none b := fun _ h => by cases h

theorem kept_some {x : α} {b : Option α} : KeptBy R (some x) b ↔ ∃ y, b = some y ∧ R x y :=
  ⟨fun h => h x rfl, fun h y hy => by rwa [← Option.some.inj hy]⟩

theorem kept_getD (a : Option α) (d : α) : Kept a (some (a.getD d)) := by
  rintro x rfl
  exact ⟨x, rfl, rfl⟩

theorem serialize_of_decodePoint {field : Bytes} {key : EcPublicKey} (h : curveDecodePoint field = .ok key) : key.serialize = field := by
  unfold curveDecodePoint at h
  split at h
  · cases h
  · split_ifs at h with htype hlength
    cases h
    rw [EcPublicKey.serialize, not_not.1 htype]

theorem serialize_of_decodePrivatePoint {field : Bytes} {key : EcPrivateKey} (h : curveDecodePrivatePoint field = .ok key) :
    key.serialize = field := by
  unfold curveDecodePrivatePoint at h
  split_ifs at h
  cases h
  rfl

theorem kept_decodeOptional {key : Option EcPublicKey} (h : decodeOptional curveDecodePoint field = .ok key) :
    Kept field (key.map EcPublicKey.serialize) := by
  rintro x rfl
  obtain ⟨k, hk, rfl⟩ := map_eq_ok.1 h
  exact ⟨_, rfl, (serialize_of_decodePoint hk).symm⟩

theorem kept_decodeKeyPair {a b : Option Bytes} {pair : Option EcKeyPair} (h : decodeKeyPair a b = .ok pair) :
    Kept a (pair.map fun pair => pair.publicKey.serialize) ∧ Kept b (pair.map fun pair => pair.privateKey.serialize) ↔ PairWhole a b := by
  unfold decodeKeyPair at h
  split at h
  · obtain ⟨publicKey, hpublic, h⟩ := bind_eq_ok.1 h
    obtain ⟨privateKey, hprivate, h⟩ := bind_eq_ok.1 h
    cases h
    simp [PairWhole, kept_some, serialize_of_decodePoint hpublic, serialize_of_decodePrivatePoint hprivate]
  · rename_i hpair
    cases h
    rcases a with _ | x <;> rcases b with _ | y
    · simp [PairWhole]
    · simp [PairWhole, kept_some]
    · simp [PairWhole, kept_some]
    · exact absurd rfl (hpair x y rfl)

theorem kept_deserializeChainKey {chainKey : Option ChainKeyStructure} {key : Option RatchetChainKey}
    (h : deserializeChainKey sessionVersion chainKey = .ok key) :
    KeptBy ChainKeyStructure.KeptIn chainKey (key.map RatchetChainKey.serializePrepare) ↔ ChainKeyWhole chainKey := by
  unfold deserializeChainKey at h
  split at h
  · rename_i index bytes
    obtain ⟨kdf, -, h⟩ := bind_eq_ok.1 h
    obtain ⟨created, hcreated, h⟩ := bind_eq_ok.1 h
    cases h
    obtain rfl : created = ⟨kdf, bytes, index⟩ := by
      unfold binaryData at hcreated
      split_ifs at hcreated <;> cases hcreated
      rfl
    have hkept : ChainKeyStructure.KeptIn ⟨some index, some bytes⟩ ⟨some index, some bytes⟩ :=
      ⟨kept_some.2 ⟨_, rfl, rfl⟩, kept_some.2 ⟨_, rfl, rfl⟩⟩
    exact iff_of_true (kept_some.2 ⟨_, rfl, hkept⟩) (by rintro c ⟨⟩; exact ⟨rfl, rfl⟩)
  · rename_i hmissing
    cases h
    constructor
    · rintro hkept c rfl
      obtain ⟨_, h, -⟩ := hkept c rfl
      cases h
    · rintro hwhole c rfl
      obtain ⟨hindex, hkey⟩ := hwhole c rfl
      obtain ⟨index, hindex⟩ := Option.isSome_iff_exists.1 hindex
      obtain ⟨bytes, hkey⟩ := Option.isSome_iff_exists.1 hkey
      exact absurd (by rw [← hindex, ← hkey]) (hmissing index bytes)

theorem kept_fixedBytes {n : Nat} : Kept field (some (fixedBytes n field)) ↔ ∀ b, field = some b → b.length = n := by
  constructor
  · rintro hkept b rfl
    obtain ⟨_, h, rfl⟩ := hkept b rfl
    rw [← Option.some.inj h, length_fixedBytes]
  · rintro h b rfl
    exact ⟨_, rfl, by rw [fixedBytes, if_pos (h b rfl)]⟩

theorem MessageKeyStructure.kept_iff (keys : MessageKeyStructure) : keys.KeptIn keys.deserialize.serializePrepare ↔ keys.Whole :=
  ⟨fun h => ⟨kept_fixedBytes.1 h.cipherKey, kept_fixedBytes.1 h.macKey, kept_fixedBytes.1 h.iv⟩,
    fun h => ⟨kept_getD _ _, kept_fixedBytes.2 h.cipherKey, kept_fixedBytes.2 h.macKey, kept_fixedBytes.2 h.iv⟩⟩

theorem ChainStructure.senderKept_iff (chain : ChainStructure) :
    chain.KeptIn (chain.readSenderChain sessionVersion).serializePrepare ↔ chain.SenderWhole sessionVersion := by
  unfold readSenderChain
  rcases h : chain.deserializeSenderChain sessionVersion with e | read
  · -- a chain that cannot be read has a field, which is not kept
    refine iff_of_false (fun hkept => ?_) (fun hwhole => by have := hwhole.read; rw [h] at this; cases this)
    have hnone : ∀ {α : Type} {R : α → α → Prop} {a : Option α}, KeptBy R a none → a = none := by
      intro α R a ha
      by_contra hne
      obtain ⟨x, rfl⟩ := Option.ne_none_iff_exists'.1 hne
      obtain ⟨_, hy, -⟩ := ha x rfl
      cases hy
    rw [deserializeSenderChain, hnone hkept.senderRatchetKey, hnone hkept.chainKey] at h
    cases h
  · obtain ⟨pair, hpair, hrest⟩ := bind_eq_ok.1 h
    obtain ⟨key, hkey, hrest⟩ := bind_eq_ok.1 hrest
    cases hrest
    constructor
    · intro hkept
      exact ⟨(kept_decodeKeyPair hpair).1 ⟨hkept.senderRatchetKey, hkept.senderRatchetKeyPrivate⟩,
        (kept_deserializeChainKey hkey).1 hkept.chainKey, List.forall₂_nil_right_iff.1 hkept.messageKeys, by rw [h]; rfl⟩
    · intro hwhole
      obtain ⟨hpublic, hprivate⟩ := (kept_decodeKeyPair hpair).2 hwhole.pair
      exact ⟨hpublic, hprivate, (kept_deserializeChainKey hkey).2 hwhole.chainKey, by rw [hwhole.messageKeys]; exact .nil⟩

theorem ChainStructure.receiverKept_iff {chain : ChainStructure} {read : ReceiverChain}
    (h : chain.deserializeReceiverChain sessionVersion = .ok read) : chain.KeptIn read.serializePrepare ↔ chain.ReceiverWhole := by
  obtain ⟨ratchetKey, hratchet, h⟩ := bind_eq_ok.1 h
  obtain ⟨key, hkey, h⟩ := bind_eq_ok.1 h
  cases h
  have hkeys : List.Forall₂ MessageKeyStructure.KeptIn chain.messageKeys
      ((chain.messageKeys.map MessageKeyStructure.deserialize).map RatchetMessageKeys.serializePrepare) ↔
        ∀ keys ∈ chain.messageKeys, keys.Whole := by
    simp only [List.map_map, List.forall₂_map_right_iff, List.forall₂_same, Function.comp_apply, MessageKeyStructure.kept_iff]
  constructor
  · intro hkept
    refine ⟨?_, (kept_deserializeChainKey hkey).1 hkept.chainKey, hkeys.1 hkept.messageKeys⟩
    by_contra hne
    obtain ⟨x, hx⟩ := Option.ne_none_iff_exists'.1 hne
    obtain ⟨_, hy, -⟩ := hkept.senderRatchetKeyPrivate x hx
    cases hy
  · intro hwhole
    exact ⟨kept_decodeOptional hratchet, by rw [hwhole.senderRatchetKeyPrivate]; exact kept_none _,
      (kept_deserializeChainKey hkey).2 hwhole.chainKey, hkeys.2 hwhole.messageKeys⟩

theorem PendingKeyExchangeStructure.kept_iff {exchange : PendingKeyExchangeStructure} {read : PendingKeyExchange}
    (h : exchange.deserialize = .ok read) : exchange.KeptIn read.serializePrepare ↔ exchange.Whole := by
  obtain ⟨base, hbase, h⟩ := bind_eq_ok.1 h
  obtain ⟨ratchet, hratchet, h⟩ := bind_eq_ok.1 h
  obtain ⟨identity, hidentity, h⟩ := bind_eq_ok.1 h
  cases h
  constructor
  · intro hkept
    exact ⟨(kept_decodeKeyPair hbase).1 hkept.localBaseKey, (kept_decodeKeyPair hratchet).1 hkept.localRatchetKey,
      (kept_decodeKeyPair hidentity).1 hkept.localIdentityKey⟩
  · intro hwhole
    exact ⟨kept_getD _ _, (kept_decodeKeyPair hbase).2 hwhole.base, (kept_decodeKeyPair hratchet).2 hwhole.ratchet,
      (kept_decodeKeyPair hidentity).2 hwhole.identity⟩

theorem PendingPreKeyStructure.kept {preKey : PendingPreKeyStructure} {read : PendingPreKey} (h : preKey.deserialize = .ok read) :
    preKey.KeptIn read.serializePrepare := by
  obtain ⟨baseKey, hbase, h⟩ := bind_eq_ok.1 h
  cases h
  refine ⟨?_, ?_, kept_decodeOptional hbase⟩
  · rintro x hx
    exact ⟨x, hx, rfl⟩
  · rintro x hx
    exact ⟨x, by simp [PendingPreKey.serializePrepare, hx], rfl⟩

/-- An optional message is kept exactly when it is whole, if each one that can be read is. -/
theorem keptBy_mapM {W : α → Prop} {f : α → Except Int β} {g : β → α}
    (hf : ∀ {a b}, f a = .ok b → (R a (g b) ↔ W a)) {o : Option α} {o' : Option β} (h : o.mapM f = .ok o') :
    KeptBy R o (o'.map g) ↔ ∀ a, o = some a → W a := by
  rcases o with _ | a
  · simp
  · obtain ⟨b, hb, h⟩ := map_eq_ok.1 h
    cases h
    simp [kept_some, hf hb]

theorem forall₂_mapM {W : α → Prop} {f : α → Except Int β} {g : β → α}
    (hf : ∀ {a b}, f a = .ok b → (R a (g b) ↔ W a)) {l : List α} {l' : List β} (h : l.mapM f = .ok l') :
    List.Forall₂ R l (l'.map g) ↔ ∀ a ∈ l, W a := by
  have hcalls := forall₂_of_mapM_eq_ok h
  clear h
  induction hcalls with
  | nil => simp
  | cons hab _ ih => simp [hf hab, ih]

theorem kept_deserializeRootKey {key : Option RatchetRootKey}
    (h : deserializeRootKey sessionVersion field = .ok key) : Kept field (key.map RatchetRootKey.key) := by
  rintro bytes rfl
  obtain ⟨kdf, -, h⟩ := bind_eq_ok.1 h
  obtain ⟨created, hcreated, h⟩ := bind_eq_ok.1 h
  cases h
  unfold binaryData at hcreated
  split_ifs at hcreated <;> cases hcreated
  exact ⟨_, rfl, rfl⟩

theorem SessionStructure.kept_iff {session : SessionStructure} {state : SessionState} (h : session.deserialize = .ok state) :
    session.KeptIn state.serializePrepare ↔ session.Whole := by
  obtain ⟨localIdentity, hlocal, h⟩ := bind_eq_ok.1 h
  obtain ⟨remoteIdentity, hremote, h⟩ := bind_eq_ok.1 h
  obtain ⟨rootKey, hroot, h⟩ := bind_eq_ok.1 h
  obtain ⟨receiverChains, hreceivers, h⟩ := bind_eq_ok.1 h
  obtain ⟨exchange, hexchange, h⟩ := bind_eq_ok.1 h
  obtain ⟨preKey, hpreKey, h⟩ := bind_eq_ok.1 h
  obtain ⟨aliceBase, halice, h⟩ := bind_eq_ok.1 h
  cases h
  have hsenders : KeptBy ChainStructure.KeptIn session.senderChain ((session.senderChain.map
      (readSenderChain (session.sessionVersion.getD 2))).map SenderChain.serializePrepare) ↔
        ∀ chain, session.senderChain = some chain → chain.SenderWhole (session.sessionVersion.getD 2) := by
    rcases session.senderChain with _ | chain
    · simp
    · simp [kept_some, senderKept_iff]
  constructor
  · intro hkept
    exact ⟨hsenders.1 hkept.senderChain, (forall₂_mapM receiverKept_iff hreceivers).1 hkept.receiverChains,
      (keptBy_mapM PendingKeyExchangeStructure.kept_iff hexchange).1 hkept.pendingKeyExchange⟩
  · intro hwhole
    have hpreKeys := (keptBy_mapM (W := fun _ => True) (fun h => iff_true_intro (PendingPreKeyStructure.kept h)) hpreKey).2
      fun _ _ => trivial
    exact {
      sessionVersion := kept_getD _ _
      localIdentityPublic := kept_decodeOptional hlocal
      remoteIdentityPublic := kept_decodeOptional hremote
      rootKey := kept_deserializeRootKey hroot
      previousCounter := kept_getD _ _
      senderChain := hsenders.2 hwhole.senderChain
      receiverChains := (forall₂_mapM receiverKept_iff hreceivers).2 hwhole.receiverChains
      pendingKeyExchange := (keptBy_mapM PendingKeyExchangeStructure.kept_iff hexchange).2 hwhole.pendingKeyExchange
      pendingPreKey := hpreKeys
      remoteRegistrationId := kept_getD _ _
      localRegistrationId := kept_getD _ _
      needsRefresh := kept_getD _ _
      aliceBaseKey := kept_decodeOptional halice }

/-- For every structure: all that is present in it is kept whenever `session_state_deserialize_protobuf` succeeds, if and only if the call
fails or no component has a defect that it passes over. -/
theorem sessionStructure_kept_iff (session : SessionStructure) :
    (∀ state, session.deserialize = .ok state → session.KeptIn state.serializePrepare) ↔
      ((∀ state, session.deserialize ≠ .ok state) ∨ session.Whole) := by
  constructor
  · intro hkept
    rcases h : session.deserialize with e | state
    · exact .inl fun state h => by cases h
    · exact .inr ((SessionStructure.kept_iff h).1 (hkept state h))
  · rintro (hfails | hwhole) state h
    · exact absurd h (hfails state)
    · exact (SessionStructure.kept_iff h).2 hwhole

/-- A structure whose sender chain has a ratchet key of the wrong type. -/
def malformedSender : SessionStructure :=
  ⟨some 3, none, none, none, none, some ⟨some [0], some [0], none, []⟩, [], none, none, none, none, none, none⟩

/-- It is read without an error, and the state has a sender chain without a key. -/
theorem malformedSender_accepted : ∃ state, malformedSender.deserialize = .ok state ∧ state.senderChain = some ⟨none, none⟩ ∧
    ¬ malformedSender.KeptIn state.serializePrepare := by
  refine ⟨_, rfl, rfl, fun hkept => ?_⟩
  obtain ⟨_, ⟨⟩, hchain⟩ := hkept.senderChain _ rfl
  obtain ⟨_, h, -⟩ := hchain.senderRatchetKey _ rfl
  cases h

end Osp.Signal
