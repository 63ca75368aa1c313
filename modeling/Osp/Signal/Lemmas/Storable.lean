import Osp.Lib.Outcome
import Osp.Signal.SessionRecord

/-!
# What storage keeps of a session

A stored state does not record which KDF its keys were made with: reading it back gives them the KDF of the session version. It
cannot tell an empty key from a missing one either. `Storable` says that nothing depends on that: such a state comes back as it
was, and every state that was read back is such a state.
-/

namespace Osp.Signal

open Osp.Lib ChainStructure SessionState Option

/-- The key has the KDF of the session version and is not empty. -/
def RatchetChainKey.Fits (version : UInt32) (chainKey : RatchetChainKey) : Prop :=
  hkdfCreate version = .ok chainKey.kdf ∧ chainKey.key ≠ []

/-- The key has the KDF of the session version and is not empty. -/
def RatchetRootKey.Fits (version : UInt32) (rootKey : RatchetRootKey) : Prop :=
  hkdfCreate version = .ok rootKey.kdf ∧ rootKey.key ≠ []

/-- Every key of the state fits its session version. -/
structure SessionState.Storable (state : SessionState) : Prop where
  rootKey : ∀ key ∈ state.rootKey, key.Fits state.sessionVersion
  senderChain : ∀ chain ∈ state.senderChain, ∀ key ∈ chain.chainKey, key.Fits state.sessionVersion
  receiverChains : ∀ chain ∈ state.receiverChains, ∀ key ∈ chain.chainKey, key.Fits state.sessionVersion

/-- Every state of the record is storable. -/
def SessionRecord.Storable (record : SessionRecord) : Prop := ∀ state ∈ record.states, state.Storable

/-! ## Reading back what was written -/

@[simp] theorem decodeOptional_serialize (key : Option EcPublicKey) :
    decodeOptional curveDecodePoint (key.map EcPublicKey.serialize) = .ok key := by
  cases key with
  | none => rfl
  | some key =>
    simp only [map_some, decodeOptional, curveDecodePoint_serialize]
    rfl

@[simp] theorem decodeKeyPair_serialize (pair : Option EcKeyPair) :
    decodeKeyPair (pair.map fun pair => pair.publicKey.serialize) (pair.map fun pair => pair.privateKey.serialize) =
      .ok pair := by
  cases pair with
  | none => rfl
  | some pair =>
    simp only [map_some, decodeKeyPair, curveDecodePoint_serialize, curveDecodePrivatePoint_serialize]
    rfl

theorem binaryData_of_ne_nil {field : Bytes} (h : field ≠ []) : binaryData field = some field := if_neg h

variable {version : UInt32}

theorem deserializeChainKey_serializePrepare {key : Option RatchetChainKey}
    (h : ∀ k ∈ key, k.Fits version) : deserializeChainKey version (key.map RatchetChainKey.serializePrepare) = .ok key := by
  cases key with
  | none => rfl
  | some key =>
    obtain ⟨hkdf, hne⟩ := h key rfl
    simp only [map_some, RatchetChainKey.serializePrepare, deserializeChainKey, hkdf, binaryData_of_ne_nil hne]
    rfl

theorem deserializeRootKey_key {key : Option RatchetRootKey} (h : ∀ k ∈ key, k.Fits version) :
    deserializeRootKey version (key.map RatchetRootKey.key) = .ok key := by
  cases key with
  | none => rfl
  | some key =>
    obtain ⟨hkdf, hne⟩ := h key rfl
    simp only [map_some, deserializeRootKey, hkdf, binaryData_of_ne_nil hne]
    rfl

theorem messageKey_deserialize_serializePrepare (keys : RatchetMessageKeys) : keys.serializePrepare.deserialize = keys := by
  simp [RatchetMessageKeys.serializePrepare, MessageKeyStructure.deserialize, fixedBytes, keys.length_cipherKey,
    keys.length_macKey, keys.length_iv]

theorem deserializeReceiverChain_serializePrepare {chain : ReceiverChain}
    (h : ∀ key ∈ chain.chainKey, key.Fits version) : chain.serializePrepare.deserializeReceiverChain version = .ok chain := by
  have hkeys : (chain.messageKeys.map RatchetMessageKeys.serializePrepare).map MessageKeyStructure.deserialize =
      chain.messageKeys := by
    rw [List.map_map]
    exact (List.map_congr_left fun keys _ => messageKey_deserialize_serializePrepare keys).trans (List.map_id _)
  simp only [deserializeReceiverChain, ReceiverChain.serializePrepare, decodeOptional_serialize,
    deserializeChainKey_serializePrepare h, hkeys]
  rfl

theorem pendingKeyExchange_deserialize_serializePrepare (exchange : PendingKeyExchange) :
    exchange.serializePrepare.deserialize = .ok exchange := by
  simp only [PendingKeyExchangeStructure.deserialize, PendingKeyExchange.serializePrepare, decodeKeyPair_serialize]
  rfl

theorem pendingPreKey_deserialize_serializePrepare (preKey : PendingPreKey) :
    preKey.serializePrepare.deserialize = .ok preKey := by
  simp only [PendingPreKeyStructure.deserialize, PendingPreKey.serializePrepare, decodeOptional_serialize]
  simp [bind, Except.bind, pure, Except.pure]

/-- A storable state is read back as it was written. -/
theorem SessionState.Storable.deserialize {state : SessionState} (h : state.Storable) :
    state.serializePrepare.deserialize = .ok state := by
  have hsender : (state.senderChain.map SenderChain.serializePrepare).map
      (readSenderChain state.sessionVersion) = state.senderChain := by
    cases hs : state.senderChain with
    | none => rfl
    | some chain =>
      simp only [map_some, readSenderChain, deserializeSenderChain, SenderChain.serializePrepare, decodeKeyPair_serialize,
        deserializeChainKey_serializePrepare (h.senderChain chain hs)]
      rfl
  have hreceivers := mapM_map_ok (g := deserializeReceiverChain state.sessionVersion)
    (l := state.receiverChains) fun chain hc => deserializeReceiverChain_serializePrepare (h.receiverChains chain hc)
  have hexchange := option_mapM_map_ok (o := state.pendingKeyExchange)
    fun exchange _ => pendingKeyExchange_deserialize_serializePrepare exchange
  have hpreKey := option_mapM_map_ok (o := state.pendingPreKey)
    fun preKey _ => pendingPreKey_deserialize_serializePrepare preKey
  simp only [SessionStructure.deserialize, serializePrepare, decodeOptional_serialize, getD_some,
    deserializeRootKey_key h.rootKey, hsender, hreceivers, hexchange, hpreKey]
  rfl

variable {k : StorageCodecs}

variable {state : SessionState} {version : UInt32}

/-- Copying a storable state gives the same state. -/
theorem SessionState.Storable.copy (h : state.Storable) (hk : k.Inverse) :
    sessionStateCopy k state = .ok state := by
  rw [sessionStateCopy, sessionStateDeserialize, sessionStateSerialize, hk.session]
  exact h.deserialize

/-- Reading back a record of storable states gives the same record, except that it is no longer fresh. -/
theorem SessionRecord.Storable.deserialize {record : SessionRecord} (h : record.Storable) (hk : k.Inverse) :
    SessionRecord.deserialize k (record.serialize k) = .ok { record with isFresh := false } := by
  have hcurrent : record.state.serializePrepare.deserialize = .ok record.state :=
    (h record.state List.mem_cons_self).deserialize
  have hprevious := mapM_map_ok (l := record.previousStates) (g := SessionStructure.deserialize)
    fun state hs => (h state (List.mem_cons_of_mem _ hs)).deserialize
  rw [SessionRecord.serialize, SessionRecord.deserialize, hk.record]
  simp only [mapM_some, hcurrent, hprevious]
  rfl

/-! ## What was read -/

theorem chainKey_fits_of_deserialize {field : Option ChainKeyStructure} {key : Option RatchetChainKey}
    (h : deserializeChainKey version field = .ok key) : ∀ k ∈ key, k.Fits version := by
  unfold deserializeChainKey at h
  split at h
  · obtain ⟨kdf, hkdf, h⟩ := bind_eq_ok.1 h
    obtain ⟨chainKey, hck, h⟩ := bind_eq_ok.1 h
    cases h
    rintro k ⟨⟩
    unfold ratchetChainKeyCreate binaryData at hck
    split_ifs at hck with hne
    cases hck
    exact ⟨hkdf, hne⟩
  · cases h
    nofun

theorem rootKey_fits_of_deserialize {field : Option Bytes} {key : Option RatchetRootKey}
    (h : deserializeRootKey version field = .ok key) : ∀ k ∈ key, k.Fits version := by
  unfold deserializeRootKey at h
  split at h
  · obtain ⟨kdf, hkdf, h⟩ := bind_eq_ok.1 h
    obtain ⟨rootKey, hrk, h⟩ := bind_eq_ok.1 h
    cases h
    rintro k ⟨⟩
    unfold ratchetRootKeyCreate binaryData at hrk
    split_ifs at hrk with hne
    cases hrk
    exact ⟨hkdf, hne⟩
  · cases h
    nofun

theorem readSenderChain_fits (chain : ChainStructure) :
    ∀ key ∈ (chain.readSenderChain version).chainKey, key.Fits version := by
  unfold readSenderChain
  split
  · rename_i senderChain h
    obtain ⟨pair, -, h⟩ := bind_eq_ok.1 h
    obtain ⟨chainKey, hkey, h⟩ := bind_eq_ok.1 h
    cases h
    exact chainKey_fits_of_deserialize hkey
  · nofun

/-- A state that was read is storable. -/
theorem storable_of_deserialize {session : SessionStructure} (h : session.deserialize = .ok state) :
    state.Storable := by
  obtain ⟨localIdentity, -, h⟩ := bind_eq_ok.1 h
  obtain ⟨remoteIdentity, -, h⟩ := bind_eq_ok.1 h
  obtain ⟨rootKey, hroot, h⟩ := bind_eq_ok.1 h
  obtain ⟨receiverChains, hreceivers, h⟩ := bind_eq_ok.1 h
  obtain ⟨exchange, -, h⟩ := bind_eq_ok.1 h
  obtain ⟨preKey, -, h⟩ := bind_eq_ok.1 h
  obtain ⟨aliceBaseKey, -, h⟩ := bind_eq_ok.1 h
  cases h
  refine ⟨rootKey_fits_of_deserialize hroot, fun chain hc => ?_, forall_of_mapM_eq_ok (fun field chain h => ?_) hreceivers⟩
  · obtain ⟨field, -, rfl⟩ := map_eq_some_iff.1 hc
    exact readSenderChain_fits field
  · obtain ⟨ratchetKey, -, h⟩ := bind_eq_ok.1 h
    obtain ⟨chainKey, hkey, h⟩ := bind_eq_ok.1 h
    cases h
    exact chainKey_fits_of_deserialize hkey

theorem storable_create : create.Storable :=
  ⟨by simp [create], by simp [create], by simp [create]⟩

/-- A record that was read has storable states. -/
theorem record_storable_of_deserialize {data : k.record.Buffer} {record : SessionRecord}
    (h : SessionRecord.deserialize k data = .ok record) : record.Storable := by
  unfold SessionRecord.deserialize at h
  split at h
  · cases h
  · obtain ⟨current, hcurrent, h⟩ := bind_eq_ok.1 h
    obtain ⟨previous, hprevious, h⟩ := bind_eq_ok.1 h
    cases h
    have hp := forall_of_mapM_eq_ok (fun _ _ => storable_of_deserialize) hprevious
    have hc := forall_of_option_mapM_eq_ok (fun _ _ => storable_of_deserialize) hcurrent
    intro state hs
    rcases List.mem_cons.1 hs with rfl | hs
    · cases current with
      | none => exact storable_create
      | some state => exact hc state rfl
    · exact hp state hs

end Osp.Signal
