import Osp.Signal.Sample
import Osp.Signal.Lemmas.Attempts
import Osp.Signal.Lemmas.Records

/-!
# Skipped message keys

What the receiver chains of a state hold, in every state that is reached from an initialisation by encrypting, decrypting and copying while
no index of a chain wraps.
-/

namespace Osp.Signal

open Osp.Lib SessionState ReceiverChain RatchetChainKey List

variable {ctx : Context} {p : CryptoProvider} {created : List (EcPublicKey × RatchetChainKey)} {initial : RatchetChainKey}
  {chain : ReceiverChain} {chains : List ReceiverChain} {e : EcPublicKey} {state state' : SessionState}

/-! ## Runs -/

/-- The receiver chains created so far, with the one that decrypting a message creates. -/
def SessionState.chainsCreated (p : CryptoProvider) (state : SessionState) (e : EcPublicKey) (created : List (EcPublicKey × RatchetChainKey)) :
    List (EcPublicKey × RatchetChainKey) :=
  match state.getReceiverChainKey e, state.newChainKey p e with
  | none, some key => created ++ [(e, key)]
  | _, _ => created

/-- A state that is reached, and every receiver chain that was created on the way, with its ratchet key and its initial key. The keys of a
message advance the chain behind its counter, so that the index wraps with the last counter. -/
inductive SessionRun (ctx : Context) : SessionState → List (EcPublicKey × RatchetChainKey) → Prop
  | alice (random : EcPrivateKey) (parameters : AliceParameters) :
    SessionRun ctx (ratchetingSessionAliceInitialize ctx.crypto random .create parameters)
      [(parameters.theirRatchetKey, (calculateDerivedKeys ctx.crypto (parameters.secret ctx.crypto)).2)]
  | bob (parameters : BobParameters) : SessionRun ctx (ratchetingSessionBobInitialize ctx.crypto .create parameters) []
  | encrypt {state state' : SessionState} {created : List (EcPublicKey × RatchetChainKey)} {plaintext : Bytes}
    {message : CiphertextMessage} : SessionRun ctx state created → encryptWithState ctx state plaintext = .ok (message, state') →
    SessionRun ctx state' created
  | decrypt {state state' : SessionState} {created : List (EcPublicKey × RatchetChainKey)} {random : EcPrivateKey}
    {message : SignalMessage} {plaintext : Bytes} : SessionRun ctx state created → message.counter.toNat + 1 < 2 ^ 32 →
    decryptFromState ctx random state message = (.ok plaintext, state') →
    SessionRun ctx state' (state.chainsCreated ctx.crypto message.senderRatchetKey created)
  | copy {state state' : SessionState} {created : List (EcPublicKey × RatchetChainKey)} : SessionRun ctx state created →
    sessionStateCopy ctx.storage state = .ok state' → SessionRun ctx state' created

/-! ## One chain -/

/-- The chain holds what a window on the keys from the initial one holds. -/
def ReceiverChain.Follows (p : CryptoProvider) (initial : RatchetChainKey) (chain : ReceiverChain) : Prop :=
  ∃ key, ∃ w : Window, chain.chainKey = some key ∧
    Receiver.Tracks (ratchetChain p) (fun n => (ratchetChain p).next^[n] initial)
      (fun n => (ratchetChain p).keys ((ratchetChain p).next^[n] initial)) 0 w ⟨key, chain.messageKeys⟩ ∧
    w.stored.Pairwise (· < ·) ∧ w.key < 2 ^ 32 ∧ w.stored.length ≤ 2000

/-- The keys from an initial key on. -/
theorem follows_initial (h : initial.index = 0) : (ratchetChain p).Follows (fun n => (ratchetChain p).next^[n] initial)
    (fun n => (ratchetChain p).keys ((ratchetChain p).next^[n] initial)) 0 :=
  (ratchetChain p).follows_iterate (n := 0) h fun _ _ => rfl

theorem ReceiverChain.Follows.new (e : EcPublicKey) (initial : RatchetChainKey) :
    ReceiverChain.Follows p initial ⟨some e, some initial, []⟩ :=
  ⟨initial, ⟨0, []⟩, rfl, ⟨rfl, Nat.le_refl 0, by simp, ⟨nodup_nil, by simp⟩⟩, .nil, by decide, by simp⟩

/-- Taking the keys of a message that is not the last of the chain. -/
theorem ReceiverChain.Follows.hold (hinitial : initial.index = 0) (h : chain.Follows p initial) {key : RatchetChainKey}
    (hkey : chain.chainKey = some key) {counter : UInt32} (hcounter : counter.toNat + 1 < 2 ^ 32) {keys : RatchetMessageKeys}
    {r : Receiver RatchetChainKey RatchetMessageKeys}
    (htake : Receiver.take (ratchetChain p) maxMessageKeys 2000 ⟨key, chain.messageKeys⟩ counter = .ok (keys, r)) :
    (chain.hold r).Follows p initial := by
  obtain ⟨key', w, hkey', htracks, hsorted, hlt, hlen⟩ := h
  obtain rfl : key' = key := Option.some.inj (hkey'.symm.trans hkey)
  obtain ⟨q, w', hw, -, htracks'⟩ := Receiver.Tracks.of_take (follows_initial hinitial) htracks (le_refl 2000) htake
  have hq : q = counter.toNat := Window.take_position htracks.ordered hlt counter.toNat_lt (by rwa [UInt32.ofNat_toNat])
  have hgave := Window.take_gave htracks.ordered (le_refl 2000) hw
  refine ⟨r.key, w', rfl, htracks', Window.take_pairwise htracks.ordered hsorted hw, ?_, ?_⟩
  · rw [hgave.key_eq]
    omega
  · exact (Receiver.take_forall (P := fun _ => True) (fun _ => trivial) (fun _ _ => trivial) hlen hw).2.2

/-- What the chain holds, in terms of its initial key. -/
theorem ReceiverChain.Follows.spec (hinitial : initial.index = 0) (h : chain.Follows p initial) :
    ∃ key, chain.chainKey = some key ∧ key = (createNext p)^[key.index.toNat] initial ∧
      chain.messageKeys.length ≤ 2000 ∧ (chain.messageKeys.map (·.counter)).Pairwise (· < ·) ∧
      ∀ keys ∈ chain.messageKeys, keys.counter < key.index ∧
        keys = ((createNext p)^[keys.counter.toNat] initial).getMessageKeys p := by
  obtain ⟨key, w, hkey, htracks, hsorted, hlt, hlen⟩ := h
  have hfollows := follows_initial (p := p) hinitial
  have hmap := htracks.eq
  simp only [Receiver.map, Receiver.mk.injEq] at hmap
  obtain ⟨rfl, hstored⟩ := hmap
  have hsmall : ∀ n ≤ w.key, (UInt32.ofNat n).toNat = n := fun n hn => UInt32.toNat_ofNat_of_lt' (hn.trans_lt hlt)
  have hindex : index ((ratchetChain p).next^[w.key] initial) = UInt32.ofNat w.key := hfollows.index w.key (Nat.zero_le _)
  refine ⟨_, hkey, ?_, ?_, ?_, ?_⟩
  · rw [hindex, hsmall _ le_rfl]
    rfl
  · rwa [hstored, length_map]
  · rw [hstored, map_map]
    refine pairwise_map.2 (hsorted.imp_of_mem ?_)
    intro a b ha hb hab
    have hcounter : ∀ n ∈ w.stored, (RatchetMessageKeys.counter ∘ fun n => (ratchetChain p).keys ((ratchetChain p).next^[n] initial)) n =
        UInt32.ofNat n := htracks.counter
    rw [hcounter a ha, hcounter b hb, UInt32.lt_iff_toNat_lt, hsmall a (htracks.ordered.lt a ha).le, hsmall b (htracks.ordered.lt b hb).le]
    exact hab
  · intro keys hmem
    rw [hstored] at hmem
    obtain ⟨n, hn, rfl⟩ := mem_map.1 hmem
    have hcounter : RatchetMessageKeys.counter ((ratchetChain p).keys ((ratchetChain p).next^[n] initial)) = UInt32.ofNat n :=
      htracks.counter n hn
    have hnlt := htracks.ordered.lt n hn
    rw [hcounter, hindex, UInt32.lt_iff_toNat_lt, hsmall n hnlt.le, hsmall _ le_rfl]
    exact ⟨hnlt, rfl⟩

/-! ## All chains -/

/-- The receiver chains are few and distinct, and each holds what it should. -/
structure SkippedKeys (p : CryptoProvider) (created : List (EcPublicKey × RatchetChainKey)) (chains : List ReceiverChain) : Prop where
  length_le : chains.length ≤ 5
  distinct : (chains.map senderRatchetKey).Nodup
  follows : ∀ chain ∈ chains, ∃ e initial, (e, initial) ∈ created ∧ initial.index = 0 ∧ chain.senderRatchetKey = some e ∧
    chain.Follows p initial

theorem SkippedKeys.add (state : SessionState) (key : RatchetChainKey) (h : SkippedKeys p created state.receiverChains)
    (hfind : state.findReceiverChain e = none) (hkey : key.index = 0) :
    SkippedKeys p (created ++ [(e, key)]) (state.addReceiverChain e key).receiverChains := by
  have hsuffix := lastN_suffix maxReceiverChains (state.receiverChains ++ [⟨some e, some key, []⟩])
  refine ⟨length_lastN_le _ _, ?_, ?_⟩
  · refine List.Nodup.sublist (hsuffix.sublist.map _) ?_
    rw [map_append, map_singleton]
    refine h.distinct.append (nodup_singleton _) ?_
    intro k hk hmem
    obtain ⟨chain, hchain, rfl⟩ := mem_map.1 hk
    have hfor := List.find?_eq_none.1 hfind chain hchain
    exact hfor (by rw [isFor, mem_singleton.1 hmem, beq_self_eq_true])
  · intro chain hchain
    rcases mem_append.1 (hsuffix.subset hchain) with hold | hnew
    · obtain ⟨e', initial, hmem, hrest⟩ := h.follows chain hold
      exact ⟨e', initial, mem_append_left _ hmem, hrest⟩
    · rw [mem_singleton.1 hnew]
      exact ⟨e, key, mem_append_right _ (mem_singleton_self _), hkey, rfl, .new e key⟩

theorem SkippedKeys.take (state : SessionState) (h : SkippedKeys ctx.crypto created state.receiverChains) {key : RatchetChainKey}
    (hget : state.getReceiverChainKey e = some key) {counter : UInt32} (hcounter : counter.toNat + 1 < 2 ^ 32)
    {keys : RatchetMessageKeys} (hkeys : getOrCreateMessageKeys ctx state e key counter = (.ok keys, state')) :
    SkippedKeys ctx.crypto created state'.receiverChains := by
  obtain ⟨chain, hfind, hkey⟩ := Option.bind_eq_some_iff.1 hget
  rw [getOrCreateMessageKeys_eq hfind (.inl hkey)] at hkeys
  rcases htake : Receiver.take (ratchetChain ctx.crypto) maxMessageKeys 2000 ⟨key, chain.messageKeys⟩ counter with
    refusal | ⟨keys', r⟩
  · rw [htake] at hkeys
    cases hkeys
  · rw [htake] at hkeys
    cases hkeys
    have hmap : (updateFirst (isFor e) (hold r) state.receiverChains).map senderRatchetKey =
        state.receiverChains.map senderRatchetKey := map_updateFirst (senderRatchetKey_hold r) _
    refine ⟨?_, ?_, ?_⟩
    · have hlength := congrArg List.length hmap
      rw [length_map, length_map] at hlength
      exact hlength.trans_le h.length_le
    · exact hmap ▸ h.distinct
    · refine forall_updateFirst_of_find h.follows fun c hc => ?_
      obtain rfl : chain = c := Option.some.inj (hfind.symm.trans hc)
      obtain ⟨e', initial, hmem, hinitial, hsender, hfollows⟩ := h.follows chain (mem_of_find?_eq_some hfind)
      exact ⟨e', initial, hmem, hinitial, hsender, hfollows.hold hinitial hkey hcounter htake⟩

/-- Decrypting a message. -/
theorem SkippedKeys.decrypt (h : SkippedKeys ctx.crypto created state.receiverChains) {random : EcPrivateKey} {message : SignalMessage}
    {plaintext : Bytes} (hcounter : message.counter.toNat + 1 < 2 ^ 32)
    (hok : decryptFromState ctx random state message = (.ok plaintext, state')) :
    SkippedKeys ctx.crypto (state.chainsCreated ctx.crypto message.senderRatchetKey created) state'.receiverChains := by
  obtain ⟨code, herror⟩ | ⟨-, -, result, after, hkeys, ⟨code, herror⟩ | ⟨keys, _, rfl, hdone⟩⟩ :=
    decryptFromState_cases ctx random state message
  · cases herror.symm.trans hok
  · cases herror.symm.trans hok
  cases hdone.symm.trans hok
  change SkippedKeys ctx.crypto _ after.receiverChains
  unfold messageKeysFor at hkeys
  obtain ⟨key, hget, hchain⟩ | ⟨hget, ⟨-, hchain⟩ | ⟨rootKey, our, hroot, hour, ⟨-, hchain⟩ | ⟨previous, -, hchain⟩⟩⟩ :=
    getOrCreateChainKey_cases ctx random state message.senderRatchetKey <;> rw [hchain] at hkeys
  · rw [chainsCreated, hget]
    exact SkippedKeys.take state h hget hcounter hkeys
  · cases hkeys
  · cases hkeys
  · have hnew : state.newChainKey ctx.crypto message.senderRatchetKey =
        some (rootKey.createChain ctx.crypto message.senderRatchetKey our.privateKey).2 := by
      rw [newChainKey, hroot, hour]
      rfl
    -- a chain that is there has a key
    have hfind : state.findReceiverChain message.senderRatchetKey = none := by
      by_contra hsome
      obtain ⟨chain, hchain⟩ := Option.ne_none_iff_exists'.1 hsome
      obtain ⟨_, _, -, -, -, key, _, hkey, -⟩ := h.follows chain (mem_of_find?_eq_some hchain)
      rw [getReceiverChainKey, hchain, Option.bind_some, hkey] at hget
      cases hget
    rw [chainsCreated, hget, hnew]
    have hadd := SkippedKeys.add state (rootKey.createChain ctx.crypto message.senderRatchetKey our.privateKey).2 h hfind rfl
    refine SkippedKeys.take (state.turned ctx random rootKey our previous message.senderRatchetKey) hadd ?_ hcounter hkeys
    exact congrArg (Option.bind · chainKey) (find_addReceiverChain hfind _)

theorem SessionRun.storable (hk : ctx.storage.Inverse) (h : SessionRun ctx state created) :
    state.Storable ∧ SkippedKeys ctx.crypto created state.receiverChains := by
  have hnone : SkippedKeys ctx.crypto [] [] := ⟨by simp, nodup_nil, by simp⟩
  induction h with
  | alice random parameters =>
    exact ⟨storable_aliceInitialize random parameters (by simp [create]), SkippedKeys.add .create _ hnone rfl rfl⟩
  | bob parameters => exact ⟨storable_bobInitialize parameters (by simp [create]), hnone⟩
  | encrypt _ hok ih =>
    obtain ⟨chain, key, -, -, rfl⟩ := encryptWithState_ok hok
    exact ⟨ih.1.encrypt hok, ih.2⟩
  | @decrypt state state' created random message plaintext _ hcounter hok ih =>
    have hkeeps : (decryptFromState ctx random state message).2.Storable := (decryptFromState_keeps random state message).2.2 ih.1
    rw [hok] at hkeeps
    exact ⟨hkeeps, ih.2.decrypt hcounter hok⟩
  | copy _ hcopy ih =>
    rw [ih.1.copy hk] at hcopy
    cases hcopy
    exact ih

/-- In every state reached there are at most five receiver chains, with distinct ratchet keys. Each of them began with an initial key, which
has been advanced as often as the index says; it holds at most 2000 skipped keys, with increasing counters below the index, and each is
derived from the initial key advanced to its counter. -/
theorem sessionRun_skippedKeys (hk : ctx.storage.Inverse) (h : SessionRun ctx state created) :
    state.receiverChains.length ≤ 5 ∧ (state.receiverChains.map senderRatchetKey).Nodup ∧
      ∀ chain ∈ state.receiverChains, ∃ e initial, (e, initial) ∈ created ∧ initial.index = 0 ∧ chain.senderRatchetKey = some e ∧
        ∃ key, chain.chainKey = some key ∧ key = (createNext ctx.crypto)^[key.index.toNat] initial ∧
          chain.messageKeys.length ≤ 2000 ∧ (chain.messageKeys.map (·.counter)).Pairwise (· < ·) ∧
          ∀ keys ∈ chain.messageKeys, keys.counter < key.index ∧
            keys = ((createNext ctx.crypto)^[keys.counter.toNat] initial).getMessageKeys ctx.crypto := by
  obtain ⟨-, hskipped⟩ := h.storable hk
  refine ⟨hskipped.length_le, hskipped.distinct, fun chain hchain => ?_⟩
  obtain ⟨e, initial, hmem, hinitial, hsender, hfollows⟩ := hskipped.follows chain hchain
  exact ⟨e, initial, hmem, hinitial, hsender, hfollows.spec hinitial⟩

/-- Bob decrypts Alice's second message first. -/
def sampleSwapped : Except Int Bytes × SessionState :=
  decryptFromState sampleContext (sampleKey 8) (ratchetingSessionBobInitialize sampleProvider .create sampleBob) (sampleMessage 1 [1])

/-- He then holds the keys of the first one, derived from the initial key of the chain that he has made. -/
theorem sessionRun_skippedKeys_swapped :
    sampleSwapped.2.receiverChains.map (fun chain => chain.messageKeys.map (·.counter)) = [[0]] ∧
      ∀ chain ∈ sampleSwapped.2.receiverChains, ∃ initial : RatchetChainKey, initial.index = 0 ∧
        ∀ keys ∈ chain.messageKeys, keys = ((createNext sampleProvider)^[keys.counter.toNat] initial).getMessageKeys sampleProvider := by
  have hok : sampleSwapped = (.ok _, sampleSwapped.2) := rfl
  have hrun := SessionRun.decrypt (@SessionRun.bob sampleContext sampleBob) (by decide) hok
  obtain ⟨-, -, hchains⟩ := sessionRun_skippedKeys StorageCodecs.inverse_identity hrun
  refine ⟨by decide, fun chain hchain => ?_⟩
  obtain ⟨e, initial, -, hinitial, -, key, -, -, -, -, hkeys⟩ := hchains chain hchain
  exact ⟨initial, hinitial, fun keys hmem => (hkeys keys hmem).2⟩

end Osp.Signal
