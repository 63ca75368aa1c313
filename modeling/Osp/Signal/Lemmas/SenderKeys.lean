import Osp.Lib.Outcome
import Osp.Signal.GroupCipher
import Osp.Signal.Lemmas.ReceiverChains

/-!
# Sender keys in store

A record that was read from the store can be written and read again without loss, and what `group_cipher_get_sender_key` does to a
state is what a `Receiver` of the sender's chain does: `groupCipherGetSenderKey_eq`.
-/

namespace Osp.Signal

open Osp.Lib SenderKeyState Receiver

variable (r : Receiver SenderChainKey SenderMessageKey)

variable {ctx : Context} {p : CryptoProvider} {k : StorageCodecs} {state : SenderKeyState} {record : SenderKeyRecord}

/-! ## Records that can be read back -/

/-- The key is the one that is made from its seed. -/
def SenderMessageKey.Derived (p : CryptoProvider) (key : SenderMessageKey) : Prop :=
  senderMessageKeyCreate p key.iteration key.seed = key

theorem derived_create (iteration : UInt32) (seed : Bytes) :
    (senderMessageKeyCreate p iteration seed).Derived p := rfl

/-- The message keys of the state are derived from their seeds, and not too many. -/
structure SenderKeyState.Storable (p : CryptoProvider) (state : SenderKeyState) : Prop where
  derived : ∀ key ∈ state.messageKeys, key.Derived p
  length_le : state.messageKeys.length ≤ maxMessageKeys

/-- Every state of the record is storable. -/
def SenderKeyRecord.Storable (p : CryptoProvider) (record : SenderKeyRecord) : Prop := ∀ state ∈ record.states, state.Storable p

theorem foldl_addSenderMessageKey (keys : List SenderMessageKey) :
    keys.foldl SenderKeyState.addSenderMessageKey state =
      { state with
        messageKeys := keys.foldl (fun l a => lastN maxMessageKeys (l ++ [a])) state.messageKeys } := by
  induction keys generalizing state with
  | nil => rfl
  | cons key keys ih => simp only [List.foldl_cons, ih, SenderKeyState.addSenderMessageKey]

/-- A storable state is read back as it was written. -/
theorem SenderKeyState.Storable.deserialize (h : state.Storable p) : state.serializePrepare.deserialize p = .ok state := by
  have hkeys : state.serializePrepare.senderMessageKeys.filterMap (SeedStructure.messageKey p) = state.messageKeys := by
    rw [serializePrepare, List.filterMap_map]
    calc state.messageKeys.filterMap (SeedStructure.messageKey p ∘ fun key => ⟨some key.iteration, some key.seed⟩)
        = state.messageKeys.filterMap some := List.filterMap_congr fun key hkey => congrArg some (h.derived key hkey)
      _ = state.messageKeys := List.filterMap_some
  have hprivate : (state.signaturePrivateKey.map EcPrivateKey.serialize).mapM curveDecodePrivatePoint =
      .ok state.signaturePrivateKey := by
    cases state.signaturePrivateKey with
    | none => rfl
    | some key =>
      simp only [Option.map_some, Option.mapM_some, curveDecodePrivatePoint_serialize]
      rfl
  have hfold := foldl_lastN_append state.messageKeys [] h.length_le
  rw [SenderKeyStateStructure.deserialize, hkeys]
  simp only [serializePrepare, Option.bind_some, Option.mapM_some, curveDecodePoint_serialize, hprivate,
    SeedStructure.chainKey, create, foldl_addSenderMessageKey, hfold]
  rfl

/-- Reading back a record of storable states gives the same record. -/
theorem SenderKeyRecord.Storable.deserialize (h : record.Storable p) (hk : k.Inverse) :
    SenderKeyRecord.deserialize p k (record.serialize k) = .ok record := by
  have hstates := mapM_map_ok (l := record.states) (g := SenderKeyStateStructure.deserialize p)
    fun state hs => (h state hs).deserialize
  rw [SenderKeyRecord.deserialize, SenderKeyRecord.serialize, hk.senderKeyRecord]
  simp only [hstates]
  rfl

theorem storable_create_senderKey (p : CryptoProvider) (id : UInt32) (chainKey : SenderChainKey) (publicKey : EcPublicKey)
    (privateKey : Option EcPrivateKey) : (create id chainKey publicKey privateKey).Storable p :=
  ⟨fun _ hkey => absurd hkey List.not_mem_nil, Nat.zero_le _⟩

theorem SenderKeyState.Storable.addSenderMessageKey (h : state.Storable p) {key : SenderMessageKey} (hkey : key.Derived p) :
    (state.addSenderMessageKey key).Storable p := by
  constructor <;> simp only [SenderKeyState.addSenderMessageKey]
  · intro key' hmem
    rcases List.mem_append.1 ((lastN_suffix _ _).subset hmem) with hmem | hmem
    · exact h.derived key' hmem
    · rw [List.mem_singleton.1 hmem]
      exact hkey
  · exact length_lastN_le _ _

theorem storable_foldl_addSenderMessageKey (h : state.Storable p) {keys : List SenderMessageKey}
    (hkeys : ∀ key ∈ keys, key.Derived p) : (keys.foldl SenderKeyState.addSenderMessageKey state).Storable p := by
  induction keys generalizing state with
  | nil => exact h
  | cons key keys ih =>
    rw [List.foldl_cons]
    exact ih (h.addSenderMessageKey (hkeys key List.mem_cons_self)) fun key' hmem => hkeys key' (List.mem_cons_of_mem _ hmem)

/-- A state that was read is storable. -/
theorem storable_of_deserialize_senderKey {structure' : SenderKeyStateStructure} (h : structure'.deserialize p = .ok state) :
    state.Storable p := by
  obtain ⟨publicKey, -, h⟩ := bind_eq_ok.1 h
  obtain ⟨privateKey, -, h⟩ := bind_eq_ok.1 h
  split at h
  · rw [← Except.ok.inj h]
    refine storable_foldl_addSenderMessageKey (storable_create_senderKey ..) fun key hmem => ?_
    obtain ⟨seed, -, hseed⟩ := List.mem_filterMap.1 hmem
    unfold SeedStructure.messageKey at hseed
    split at hseed
    · rw [← Option.some.inj hseed]
      exact derived_create ..
    · cases hseed
  · cases h

/-- A record that was read is storable. -/
theorem senderKeyRecord_storable_of_deserialize {data : k.senderKeyRecord.Buffer}
    (h : SenderKeyRecord.deserialize p k data = .ok record) : record.Storable p := by
  unfold SenderKeyRecord.deserialize at h
  split at h
  · cases h
  · obtain ⟨states, hstates, rfl⟩ := map_eq_ok.1 h
    exact forall_of_mapM_eq_ok (fun _ _ hs => storable_of_deserialize_senderKey hs) hstates

/-! ## Stores -/

namespace SenderKeyStore

variable {store : SenderKeyStore ctx} {name : SenderKeyName}

theorem storable_of_loadKey (h : store.loadKey name = .ok record) : record.Storable ctx.crypto := by
  unfold loadKey at h
  split at h
  · rw [← Except.ok.inj h]
    exact fun state hmem => absurd hmem List.not_mem_nil
  · exact senderKeyRecord_storable_of_deserialize h

/-- What was stored is loaded. -/
theorem loadKey_storeKey (hk : ctx.storage.Inverse) (h : record.Storable ctx.crypto) :
    (store.storeKey name record).loadKey name = .ok record := by
  rw [loadKey, storeKey]
  simp only [Function.update_self]
  exact h.deserialize hk

end SenderKeyStore

/-! ## Message keys -/

/-- What the state holds of the sender's chain. -/
def SenderKeyState.receiver (state : SenderKeyState) : Receiver SenderChainKey SenderMessageKey :=
  ⟨state.chainKey, state.messageKeys⟩

/-- The state with what a receiver holds. -/
def SenderKeyState.hold (r : Receiver SenderChainKey SenderMessageKey) (state : SenderKeyState) : SenderKeyState :=
  { state with
    chainKey := r.key
    messageKeys := r.stored }

@[simp] theorem keyId_hold : (state.hold r).keyId = state.keyId := rfl

/-- The loop stores in the state what a receiver that skips stores. -/
theorem storeSkippedSenderKeys_eq (n : Nat) (chainKey : SenderChainKey) :
    storeSkippedSenderKeys ctx n state chainKey =
      ({ state with
          messageKeys := (skip (senderChain ctx.crypto) maxMessageKeys n
            ⟨chainKey, state.messageKeys⟩).stored },
        (senderChain ctx.crypto).next^[n] chainKey) := by
  induction n generalizing state chainKey with
  | zero => rfl
  | succ n ih =>
    rw [storeSkippedSenderKeys, ih, skip, Function.iterate_succ_apply]
    simp only [SenderKeyState.addSenderMessageKey, senderChain_next, senderChain_keys]

/-- `group_cipher_get_sender_key` takes the key from the chain of the state. -/
theorem groupCipherGetSenderKey_eq (state : SenderKeyState) (iteration : UInt32) :
    groupCipherGetSenderKey ctx state iteration =
      match take (senderChain ctx.crypto) maxMessageKeys 2000 state.receiver iteration with
      | .ok (key, r) => .ok (key, state.hold r)
      | .error refusal => .error (refusalCode refusal) := by
  unfold groupCipherGetSenderKey take
  by_cases hlt : iteration < state.chainKey.iteration
  · rw [if_pos hlt, if_pos (show iteration < (senderChain ctx.crypto).index state.receiver.key from hlt)]
    simp only [SenderKeyState.removeSenderMessageKey]
    cases hfind : state.receiver.stored.find? ((senderChain ctx.crypto).counter · == iteration) with
    | none =>
      have hfind' : state.messageKeys.find? (·.iteration == iteration) = none := hfind
      rw [hfind']
      rfl
    | some key =>
      have hfind' : state.messageKeys.find? (·.iteration == iteration) = some key := hfind
      rw [hfind']
      rfl
  · rw [if_neg hlt, if_neg (show ¬ iteration < (senderChain ctx.crypto).index state.receiver.key from hlt)]
    by_cases hfar : (iteration - state.chainKey.iteration).toNat > 2000
    · rw [if_pos hfar, if_pos (show 2000 < (iteration - (senderChain ctx.crypto).index state.receiver.key).toNat from hfar)]
      rfl
    · rw [if_neg hfar,
        if_neg (show ¬ 2000 < (iteration - (senderChain ctx.crypto).index state.receiver.key).toNat from hfar),
        storeSkippedSenderKeys_eq]
      simp only [skip_key, SenderKeyState.setChainKey, senderChain_index, senderChain_keys, senderChain_next,
        SenderKeyState.receiver, SenderKeyState.hold]

/-- A storable state stays storable when a key is taken. -/
theorem SenderKeyState.Storable.hold (h : state.Storable p) {r : Receiver SenderChainKey SenderMessageKey}
    {key : SenderMessageKey} {iteration : UInt32}
    (htake : take (senderChain p) maxMessageKeys 2000 state.receiver iteration = .ok (key, r)) :
    (state.hold r).Storable p := by
  obtain ⟨-, hderived, hlen⟩ := take_forall (P := SenderMessageKey.Derived p) (fun _ => derived_create ..) h.derived
    h.length_le htake
  exact ⟨hderived, hlen⟩

end Osp.Signal
