import Osp.Signal.Device
import Osp.Signal.Lemmas.PreKeys

/-!
# Records

What the session builder and the session cipher do to a record: its states stay storable, and apart from the base key of a new
session its base keys stay the same.
-/

namespace Osp.Signal

open Osp.Lib SessionState List

variable {ctx : Context} {store : Store ctx} {address : Address} {record record' : SessionRecord} {state : SessionState}

/-! ## Decrypting -/

variable {plaintext : Bytes} {p : CryptoProvider} {random : Nat → EcPrivateKey} {message : SignalMessage}

/-- The state that `session_cipher_decrypt_from_record_and_signal_message` succeeds with, among the archived ones. -/
theorem decryptFromPrevious_ok {i j : Nat} {states : List SessionState} {state' : SessionState}
    (h : decryptFromPrevious ctx random message i states = .ok (plaintext, j, state')) :
    ∃ n state stateCopy, j = i + n ∧ states[n]? = some state ∧ sessionStateCopy ctx.storage state = .ok stateCopy ∧
      decryptFromState ctx (random j) stateCopy message = (.ok plaintext, state') := by
  induction states generalizing i with
  | nil => cases h
  | cons state states ih =>
    rw [decryptFromPrevious] at h
    rcases hcopy : sessionStateCopy ctx.storage state with e | stateCopy
    · rw [hcopy] at h
      cases h
    · simp only [hcopy] at h
      split at h
      · rename_i hok
        cases h
        exact ⟨0, state, stateCopy, rfl, rfl, hcopy, hok⟩
      · split at h
        · cases h
        · obtain ⟨n, s, copy, rfl, hn, hrest⟩ := ih h
          exact ⟨n + 1, s, copy, by omega, by rwa [List.getElem?_cons_succ], hrest⟩

/-- The ways in which `session_cipher_decrypt_from_record_and_signal_message` succeeds: the current state is replaced, or an
archived one is promoted, each by its copy as decrypting left it. -/
theorem decryptFromRecord_copy (h : decryptFromRecord ctx random record message = .ok (plaintext, record')) :
    (∃ stateCopy state', sessionStateCopy ctx.storage record.state = .ok stateCopy ∧
      decryptFromState ctx (random 0) stateCopy message = (.ok plaintext, state') ∧ record' = record.setState state') ∨
    ∃ n state stateCopy state', record.previousStates[n]? = some state ∧ sessionStateCopy ctx.storage state = .ok stateCopy ∧
      decryptFromState ctx (random (n + 1)) stateCopy message = (.ok plaintext, state') ∧
      record' = { record with previousStates := record.previousStates.eraseIdx n }.promoteState state' := by
  rw [decryptFromRecord] at h
  rcases hcopy : sessionStateCopy ctx.storage record.state with e | stateCopy
  · rw [hcopy] at h
    cases h
  simp only [hcopy] at h
  split at h
  · rename_i hok
    cases h
    exact .inl ⟨_, _, rfl, hok, rfl⟩
  · split at h
    · cases h
    · split at h
      · cases h
      · rename_i hprev
        cases h
        obtain ⟨n, state, copy, rfl, hn, hstate, hok⟩ := decryptFromPrevious_ok hprev
        rw [Nat.zero_add] at hok ⊢
        exact .inr ⟨n, state, copy, _, hn, hstate, hok, rfl⟩

section

variable (hk : ctx.storage.Inverse) (hs : record.Storable) (h : decryptFromRecord ctx random record message = .ok (plaintext, record'))

include hk hs h

/-- The decrypted states are the old ones, one of them changed, and some may have been dropped. -/
theorem decryptFromRecord_states :
    ∃ state ∈ record.states, ∃ state' rest r, decryptFromState ctx r state message = (.ok plaintext, state') ∧
      (state :: rest).Perm record.states ∧ record'.states.Subperm (state' :: rest) := by
  obtain ⟨copy, state', hcopy, hok, rfl⟩ | ⟨n, state, copy, state', hn, hcopy, hok, rfl⟩ := decryptFromRecord_copy h
  · rw [(hs record.state mem_cons_self).copy hk] at hcopy
    cases hcopy
    exact ⟨record.state, mem_cons_self, state', record.previousStates, _, hok, .refl _, List.Subperm.refl _⟩
  · have hmem : state ∈ record.previousStates := mem_of_getElem? hn
    rw [(hs state (mem_cons_of_mem _ hmem)).copy hk] at hcopy
    cases hcopy
    obtain ⟨hlt, hget⟩ := List.getElem?_eq_some_iff.1 hn
    refine ⟨state, mem_cons_of_mem _ hmem, state', record.state :: record.previousStates.eraseIdx n, _, hok, ?_, ?_⟩
    · have hperm := getElem_cons_eraseIdx_perm hlt
      rw [hget] at hperm
      exact (List.Perm.swap _ _ _).trans (hperm.cons _)
    · exact ((take_sublist _ _).cons_cons _).subperm

theorem SessionRecord.Storable.decrypt : record'.Storable := by
  obtain ⟨state, hmem, state', rest, r, hok, hperm, hsub⟩ := decryptFromRecord_states hk hs h
  intro s hin
  rcases mem_cons.1 (hsub.subset hin) with rfl | hin
  · have hkeeps : (decryptFromState ctx r state message).2.Storable := (decryptFromState_keeps ..).2.2 (hs state hmem)
    rwa [hok] at hkeeps
  · exact hs s (hperm.mem_iff.1 (mem_cons_of_mem _ hin))

/-- Decrypting keeps the base keys of the record, except that the oldest may be dropped. -/
theorem baseKeys_decryptFromRecord :
    record'.baseKeys.Subperm record.baseKeys := by
  obtain ⟨state, -, state', rest, r, hok, hperm, states, hsame, hsub⟩ := decryptFromRecord_states hk hs h
  have hkey : state'.baseKey = state.baseKey := by
    obtain ⟨hversion, hbase, -⟩ : _ ∧ _ ∧ (_ → (decryptFromState ctx r state message).2.Storable) :=
      decryptFromState_keeps r state message
    rw [hok] at hversion hbase
    rw [baseKey, baseKey, hversion, hbase]
  have hdecrypted : record'.baseKeys.Subperm ((state' :: rest).filterMap baseKey) :=
    ⟨_, hsame.filterMap _, hsub.filterMap _⟩
  have hold : ((state :: rest).filterMap baseKey).Perm record.baseKeys := hperm.filterMap _
  rw [filterMap_cons, hkey, ← filterMap_cons] at hdecrypted
  exact hdecrypted.trans hold.subperm

end

/-! ## Setting up a session -/

/-- A new session is the current state; the old states follow, except that the oldest may be dropped. -/
theorem states_prepared_setState (record : SessionRecord) (state : SessionState) :
    (record.prepared.setState state).states.Sublist (state :: record.states) := by
  unfold SessionRecord.prepared
  split
  · exact (sublist_cons_self _ _).cons_cons _
  · exact (take_sublist _ _).cons_cons _

/-- A session is set up in a new state. -/
theorem prepared_state_of_load (h : store.loadSession address = .ok record) : record.prepared.state = create := by
  unfold Store.loadSession at h
  split at h
  · cases h
    rfl
  · have hfresh : record.isFresh = false := by
      unfold SessionRecord.deserialize at h
      split at h
      · cases h
      · obtain ⟨current, -, h⟩ := bind_eq_ok.1 h
        obtain ⟨previous, -, h⟩ := bind_eq_ok.1 h
        rw [← Except.ok.inj h]
    rw [SessionRecord.prepared, hfresh]
    rfl

theorem storable_withRemote (h : state.Storable) (a b : UInt32) (key : EcPublicKey) : (state.withRemote a b key).Storable :=
  { h with }

/-- Bob's initialisation leaves a storable state if the chains that are there already fit. -/
theorem storable_bobInitialize (parameters : BobParameters)
    (h : ∀ chain ∈ state.receiverChains, ∀ key ∈ chain.chainKey, key.Fits ciphertextCurrentVersion) :
    (ratchetingSessionBobInitialize p state parameters).Storable := by
  obtain ⟨hroot, hchain⟩ := calculateDerivedKeys_fits p (parameters.secret p)
  refine ⟨?_, ?_, h⟩
  · rintro key ⟨⟩
    exact hroot
  · rintro chain ⟨⟩ key ⟨⟩
    exact hchain

/-- Alice's initialisation leaves a storable state if the chains that are there already fit. -/
theorem storable_aliceInitialize (random : EcPrivateKey) (parameters : AliceParameters)
    (h : ∀ chain ∈ state.receiverChains, ∀ key ∈ chain.chainKey, key.Fits ciphertextCurrentVersion) :
    (ratchetingSessionAliceInitialize p random state parameters).Storable := by
  obtain ⟨hroot, hchain⟩ := calculateDerivedKeys_fits p (parameters.secret p)
  have hnext := hroot.createChain p parameters.theirRatchetKey random
  refine ⟨?_, ?_, fits_addReceiverChain h hchain parameters.theirRatchetKey⟩
  · rintro key ⟨⟩
    exact hnext.1
  · rintro chain ⟨⟩ key ⟨⟩
    exact hnext.2

theorem SessionRecord.Storable.setUp (hs : record.Storable) (h : state.Storable) :
    (record.prepared.setState state).Storable := by
  intro s hmem
  rcases mem_cons.1 ((states_prepared_setState record state).subset hmem) with rfl | hmem
  · exact h
  · exact hs s hmem

end Osp.Signal
