import Osp.Signal.Lemmas.Records
import Osp.Signal.Operations
import Osp.Signal.Sample

/-!
# Stored sessions come back

A record comes back from storage as it was, except that it is no longer fresh, exactly when every root key and chain key in it is
not empty and has the KDF of its state's version. The operations keep it so as long as only such keys are put into a state.
-/

namespace Osp.Signal

open Osp.Lib SessionRecord List

variable {ctx : Context} {state : SessionState} {record : SessionRecord}

namespace SessionState

/-- The keys of the receiver chains fit a version. -/
def ReceiversFit (state : SessionState) (version : UInt32) : Prop :=
  ∀ chain ∈ state.receiverChains, ∀ key ∈ chain.chainKey, key.Fits version

/-- A key that is put into the state fits its version, and a version that is given to it fits the keys it keeps. -/
def Fitting (state : SessionState) : StateOperation → Prop
  | .setSessionVersion version =>
    (∀ key ∈ state.rootKey, key.Fits version) ∧ (∀ chain ∈ state.senderChain, ∀ key ∈ chain.chainKey, key.Fits version) ∧
      state.ReceiversFit version
  | .setRootKey rootKey => rootKey.Fits state.sessionVersion
  | .setSenderChain _ chainKey | .setSenderChainKey chainKey | .addReceiverChain _ chainKey | .setReceiverChainKey _ chainKey =>
    chainKey.Fits state.sessionVersion
  | .aliceInitialize _ _ | .bobInitialize _ => state.ReceiversFit ciphertextCurrentVersion
  | _ => True

/-- An operation keeps the state storable if it is fitting. -/
theorem Storable.apply (h : state.Storable) (p : CryptoProvider) {operation : StateOperation} (hfits : state.Fitting operation) :
    (state.apply p operation).Storable := by
  cases operation with
  | setSessionVersion version => exact ⟨hfits.1, hfits.2.1, hfits.2.2⟩
  | setRootKey rootKey => exact ⟨fun key hkey => Option.some.inj hkey ▸ hfits, h.senderChain, h.receiverChains⟩
  | setSenderChain pair chainKey =>
    refine ⟨h.rootKey, ?_, h.receiverChains⟩
    rintro chain ⟨⟩ key ⟨⟩
    exact hfits
  | setSenderChainKey chainKey =>
    simp only [SessionState.apply, SessionState.setSenderChainKey]
    cases state.senderChain with
    | none => exact h
    | some chain =>
      refine ⟨h.rootKey, ?_, h.receiverChains⟩
      rintro chain ⟨⟩ key ⟨⟩
      exact hfits
  | removeMessageKeys senderEphemeral counter =>
    simp only [SessionState.apply]
    cases hremove : state.removeMessageKeys senderEphemeral counter with
    | none => exact h
    | some removed =>
      unfold SessionState.removeMessageKeys at hremove
      split at hremove
      · cases hremove
      · split at hremove
        · cases hremove
        · cases hremove
          exact h.updateReceiverChain h.receiverChains
  | setMessageKeys senderEphemeral messageKeys => exact h.updateReceiverChain h.receiverChains
  | addReceiverChain senderRatchetKey chainKey =>
    exact ⟨h.rootKey, h.senderChain, fits_addReceiverChain h.receiverChains hfits senderRatchetKey⟩
  | setReceiverChainKey senderEphemeral chainKey =>
    simp only [SessionState.apply, SessionState.setReceiverChainKey]
    cases state.findReceiverChain senderEphemeral with
    | none => exact h
    | some chain =>
      refine h.updateReceiverChain ?_
      rintro chain - key ⟨⟩
      exact hfits
  | aliceInitialize random parameters => exact storable_aliceInitialize random parameters hfits
  | bobInitialize parameters => exact storable_bobInitialize parameters hfits
  | _ => exact { h with }

end SessionState

namespace SessionRecord

theorem Storable.setState (hr : record.Storable) (h : state.Storable) : (record.setState state).Storable := by
  intro s hmem
  rcases mem_cons.1 hmem with rfl | hmem
  · exact h
  · exact hr s (mem_cons_of_mem _ hmem)

theorem Storable.promoteState (hr : record.Storable) (h : state.Storable) : (record.promoteState state).Storable := by
  intro s hmem
  rcases mem_cons.1 hmem with rfl | hmem
  · exact h
  · exact hr s (mem_of_mem_take hmem)

theorem storable_createState (h : state.Storable) : (create (some state)).Storable := by
  intro s hmem
  obtain rfl := mem_singleton.1 hmem
  exact h

theorem Storable.withPrevious (hr : record.Storable) {states : List SessionState} (h : ∀ s ∈ states, s.Storable) :
    { record with previousStates := states }.Storable := by
  intro s hmem
  rcases mem_cons.1 hmem with rfl | hmem
  · exact hr _ mem_cons_self
  · exact h s hmem

theorem storable_of_loadSession {store : Store ctx} {address : Address} (h : store.loadSession address = .ok record) :
    record.Storable := by
  unfold Store.loadSession at h
  split at h
  · cases h
    exact storable_createState storable_create
  · exact record_storable_of_deserialize h

/-- Fitting operations only lead to storable records. -/
theorem Reachable.storable (hk : ctx.storage.Inverse) (h : record.Reachable ctx SessionState.Fitting) : record.Storable := by
  induction h with
  | create => exact storable_createState storable_create
  | createState _ hmem ih => exact storable_createState (ih _ hmem)
  | deserialize h => exact record_storable_of_deserialize h
  | deserializeState h =>
    unfold sessionStateDeserialize at h
    split at h
    · exact storable_createState (storable_of_deserialize h)
    · cases h
  | change _ hfits ih => exact ih.setState ((ih _ mem_cons_self).apply ctx.crypto hfits)
  | changePrevious _ hn hfits ih =>
    refine ih.withPrevious fun s hmem => ?_
    rcases mem_or_eq_of_mem_set hmem with hmem | rfl
    · exact ih s (mem_cons_of_mem _ hmem)
    · exact (ih _ (mem_cons_of_mem _ (mem_of_getElem? hn))).apply ctx.crypto hfits
  | removePrevious _ ih =>
    exact ih.withPrevious fun s hmem => ih s (mem_cons_of_mem _ (mem_of_mem_eraseIdx hmem))
  | setState _ _ hmem ih ih' => exact ih.setState (ih' _ hmem)
  | promoteState _ _ hmem ih ih' => exact ih.promoteState (ih' _ hmem)
  | archiveCurrentState _ ih => exact ih.promoteState storable_create
  | processPreKeyMessage hload h =>
    obtain ⟨-, -, rfl⟩ | ⟨-, parameters, rfl⟩ := processPreKeySignalMessageV3_cases h
    · exact storable_of_loadSession hload
    · refine (storable_of_loadSession hload).setUp (storable_withRemote ?_ _ _ _)
      rw [prepared_state_of_load hload]
      exact storable_bobInitialize parameters fun chain hmem => absurd hmem not_mem_nil
  | @processBundle _ _ _ randomRatchet _ _ _ h =>
    obtain ⟨record, parameters, hload, rfl⟩ := processPreKeyBundleRecord_ok h
    refine (storable_of_loadSession hload).setUp (storable_withRemote ?_ _ _ _)
    rw [prepared_state_of_load hload]
    have hs : (ratchetingSessionAliceInitialize ctx.crypto randomRatchet SessionState.create parameters).Storable :=
      storable_aliceInitialize randomRatchet parameters fun chain hmem => absurd hmem not_mem_nil
    exact { hs with }
  | encrypt _ h ih => exact ih.setState ((ih _ mem_cons_self).encrypt h)
  | decrypt _ h ih => exact ih.decrypt hk h

/-- A record comes back from storage as it was, but not fresh, exactly when it is storable. -/
theorem comes_back_iff (hk : ctx.storage.Inverse) :
    deserialize ctx.storage (record.serialize ctx.storage) = .ok { record with isFresh := false } ↔ record.Storable :=
  ⟨fun h state hmem => record_storable_of_deserialize h state hmem, fun h => h.deserialize hk⟩

end SessionRecord

/-- Every record that fitting operations lead to comes back from storage with the same states in the same order, and is no longer
fresh. -/
theorem stored_record_comes_back (hk : ctx.storage.Inverse) (h : record.Reachable ctx SessionState.Fitting) :
    deserialize ctx.storage (record.serialize ctx.storage) = .ok { record with isFresh := false } :=
  (comes_back_iff hk).2 (h.storable hk)

/-- A record whose current state was changed by two operations. -/
def sampleRecord (first second : StateOperation) : SessionRecord :=
  (create none).setState ((SessionState.create.apply sampleProvider first).apply sampleProvider second)

/-- Alice's session is initialised and archived, and comes back. -/
theorem stored_record_comes_back_archived :
    let record := (sampleRecord (.aliceInitialize (sampleKey 5) sampleAlice) (.setNeedsRefresh true)).archiveCurrentState
    deserialize sampleContext.storage (record.serialize sampleContext.storage) =
      .ok { record with isFresh := false } := by
  have hfits : SessionState.create.Fitting (.aliceInitialize (sampleKey 5) sampleAlice) :=
    fun chain hmem => absurd hmem not_mem_nil
  have hreached : SessionRecord.Reachable sampleContext SessionState.Fitting
      (sampleRecord (.aliceInitialize (sampleKey 5) sampleAlice) (.setNeedsRefresh true)) := .change (.change .create hfits) trivial
  exact stored_record_comes_back StorageCodecs.inverse_identity hreached.archiveCurrentState

/-- Three records whose root key does not fit: in a session of version 2 a root key with the KDF of version 3, which comes back with
another KDF, and a root key in a session of a version without KDF and an empty root key, which do not come back at all. -/
theorem stored_record_changed :
    let returned (first second : StateOperation) := deserialize sampleContext.storage
      ((sampleRecord first second).serialize sampleContext.storage)
    (∀ first second, (sampleRecord first second).Reachable sampleContext fun _ _ => True) ∧
    returned (.setSessionVersion 2) (.setRootKey ⟨⟨1⟩, [1]⟩) =
      .ok { sampleRecord (.setSessionVersion 2) (.setRootKey ⟨⟨0⟩, [1]⟩) with isFresh := false } ∧
    sampleRecord (.setSessionVersion 2) (.setRootKey ⟨⟨1⟩, [1]⟩) ≠ sampleRecord (.setSessionVersion 2) (.setRootKey ⟨⟨0⟩, [1]⟩) ∧
    returned (.setSessionVersion 4) (.setRootKey ⟨⟨1⟩, [1]⟩) = .error sgErrInval ∧
    returned (.setSessionVersion 2) (.setRootKey ⟨⟨0⟩, []⟩) = .error sgErrInval := by
  refine ⟨fun first second => .change (.change .create trivial) trivial, ?_, ?_, ?_, ?_⟩
  all_goals decide

end Osp.Signal
