import Osp.Signal.Lemmas.Records
import Osp.Signal.Sample

/-!
# One session for each base key

In every run of a device the states of a record have different base keys, so a pre-key message that is delivered again finds the
session it set up.
-/

namespace Osp.Signal

open Osp.Lib List

variable {ctx : Context} {store : Store ctx} {address : Address} {record record' : SessionRecord} {seen : List EcPublicKey}

/-! ## Records -/

/-- The states of the record are storable, and have different base keys of the current version that have been seen. -/
structure SessionRecord.Sound (seen : List EcPublicKey) (record : SessionRecord) : Prop where
  storable : record.Storable
  nodup : record.baseKeys.Nodup
  known : ∀ key ∈ record.baseKeys, key.1 = ciphertextCurrentVersion ∧ key.2 ∈ seen

namespace SessionRecord.Sound

theorem mono (h : record.Sound seen) {seen' : List EcPublicKey} (hsub : ∀ key ∈ seen, key ∈ seen') : record.Sound seen' :=
  ⟨h.storable, h.nodup, fun key hkey => ⟨(h.known key hkey).1, hsub _ (h.known key hkey).2⟩⟩

theorem decrypt (h : record.Sound seen) (hk : ctx.storage.Inverse) {random : Nat → EcPrivateKey} {message : SignalMessage}
    {plaintext : Bytes} (hok : decryptFromRecord ctx random record message = .ok (plaintext, record')) : record'.Sound seen := by
  obtain ⟨keys, hperm, hsub⟩ := baseKeys_decryptFromRecord hk h.storable hok
  refine ⟨h.storable.decrypt hk hok, hperm.nodup_iff.1 (h.nodup.sublist hsub), fun key hkey => h.known key ?_⟩
  exact hsub.subset (hperm.mem_iff.2 hkey)

/-- A session with a new base key may be set up. -/
theorem setUp (h : record.Sound seen) {state : SessionState} (hs : state.Storable) {key : EcPublicKey}
    (hkey : state.baseKey = some (ciphertextCurrentVersion, key)) (hnew : (ciphertextCurrentVersion, key) ∉ record.baseKeys) :
    (record.prepared.setState state).Sound (key :: seen) := by
  have hsub := (states_prepared_setState record state).filterMap SessionState.baseKey
  rw [filterMap_cons_some hkey] at hsub
  refine ⟨h.storable.setUp hs, (nodup_cons.2 ⟨hnew, h.nodup⟩).sublist hsub, fun k hmem => ?_⟩
  rcases mem_cons.1 (hsub.subset hmem) with rfl | hmem
  · exact ⟨rfl, mem_cons_self⟩
  · exact ⟨(h.known k hmem).1, mem_cons_of_mem _ (h.known k hmem).2⟩

theorem hasSessionState_iff (h : record.Sound seen) (key : EcPublicKey) :
    record.hasSessionState ciphertextCurrentVersion (some key) = true ↔
      ∃ state ∈ record.states, state.aliceBaseKey = some key := by
  simp only [hasSessionState, any_eq_true, Bool.and_eq_true, beq_iff_eq]
  constructor
  · rintro ⟨state, hmem, -, hkey⟩
    exact ⟨state, hmem, hkey⟩
  · rintro ⟨state, hmem, hkey⟩
    have hbase : (state.sessionVersion, key) ∈ record.baseKeys :=
      mem_filterMap.2 ⟨state, hmem, by rw [SessionState.baseKey, hkey]; rfl⟩
    exact ⟨state, hmem, (h.known _ hbase).1, hkey⟩

/-- What the processing of a pre-key message leaves: the record if it holds the base key, else one with a new session. -/
theorem process (h : record.Sound seen) (hload : store.loadSession address = .ok record) {message : PreKeySignalMessage}
    (hversion : message.version = ciphertextCurrentVersionByte) {preKeyId : Option UInt32}
    (hok : processPreKeySignalMessageV3 store record message = .ok (preKeyId, record')) :
    record'.Sound (message.baseKey :: seen) := by
  obtain ⟨-, -, rfl⟩ | ⟨hnew, parameters, rfl⟩ := processPreKeySignalMessageV3_cases hok
  · exact h.mono fun key hkey => mem_cons_of_mem _ hkey
  · rw [hversion] at hnew
    refine h.setUp ?_ rfl fun hmem => ?_
    · refine storable_withRemote (storable_bobInitialize parameters ?_) ..
      rw [prepared_state_of_load hload]
      exact fun chain hmem => absurd hmem not_mem_nil
    · obtain ⟨state, hmem, hkey⟩ := mem_filterMap.1 hmem
      obtain ⟨key, hsome, heq⟩ := Option.map_eq_some_iff.1 hkey
      obtain ⟨hv, rfl⟩ := Prod.mk.inj heq
      refine Bool.false_ne_true (hnew.symm.trans (any_eq_true.2 ⟨state, hmem, ?_⟩))
      rw [hv, hsome]
      simp
      rfl

end SessionRecord.Sound

/-! ## Stores -/

/-- The record of every address is sound. -/
def Store.Sound (seen : List EcPublicKey) (store : Store ctx) : Prop :=
  ∀ address, ∃ record, store.loadSession address = .ok record ∧ record.Sound seen

namespace Store.Sound

theorem mono (h : store.Sound seen) {seen' : List EcPublicKey} (hsub : ∀ key ∈ seen, key ∈ seen') : store.Sound seen' := by
  intro address
  obtain ⟨record, hload, hr⟩ := h address
  exact ⟨record, hload, hr.mono hsub⟩

section

variable (h : store.Sound seen) (hk : ctx.storage.Inverse)

include h hk

/-- A sound record may be stored. -/
theorem storeSession (hr : record.Sound seen) (address : Address) :
    (store.storeSession address record).Sound seen := by
  intro other
  by_cases heq : other = address
  · subst heq
    refine ⟨{ record with isFresh := false }, ?_, hr.storable, hr.nodup, hr.known⟩
    rw [Store.loadSession, Store.storeSession]
    simp only [Function.update_self]
    exact hr.storable.deserialize hk
  · obtain ⟨record', hload, hr'⟩ := h other
    refine ⟨record', ?_, hr'⟩
    rw [Store.loadSession, Store.storeSession]
    simp only [Function.update_of_ne heq]
    exact hload

theorem encrypt (cipher : SessionCipher) (plaintext : Bytes) :
    (sessionCipherEncrypt ctx cipher store plaintext).2.Sound seen := by
  unfold sessionCipherEncrypt
  split
  · exact h
  · obtain ⟨record, hload, hr⟩ := h cipher.remoteAddress
    rw [hload]
    simp only
    split
    · exact h
    · rename_i message state hok
      refine h.storeSession hk ⟨?_, ?_, ?_⟩ _
      · rintro s (_ | ⟨_, hmem⟩)
        · exact (hr.storable _ mem_cons_self).encrypt hok
        · exact hr.storable s (mem_cons_of_mem _ hmem)
      all_goals
        obtain ⟨chain, chainKey, -, -, rfl⟩ := encryptWithState_ok hok
      · exact hr.nodup
      · exact hr.known

theorem decryptMessage (cipher : SessionCipher)
    (random : Nat → EcPrivateKey) (message : SignalMessage) :
    (sessionCipherDecryptSignalMessage ctx cipher random store message).2.Sound seen := by
  unfold sessionCipherDecryptSignalMessage
  split
  · exact h
  · split
    · exact h
    · obtain ⟨record, hload, hr⟩ := h cipher.remoteAddress
      rw [hload]
      simp only
      split
      · exact h
      · rename_i plaintext record' hok
        split
        · exact h
        · exact h.storeSession hk (hr.decrypt hk hok) _

theorem decryptPreKeyMessage (cipher : SessionCipher)
    (random : Nat → EcPrivateKey) {message : PreKeySignalMessage} (hversion : message.version = ciphertextCurrentVersionByte) :
    (sessionCipherDecryptPreKeySignalMessage ctx cipher random store message).2.Sound (message.baseKey :: seen) := by
  have h' : store.Sound (message.baseKey :: seen) := h.mono fun key hkey => mem_cons_of_mem _ hkey
  obtain ⟨code, hcase⟩ | ⟨record, preKeyId, record', hload, -, hprocess, ⟨code, hcase⟩ | ⟨plaintext, record'', hok, hcase⟩⟩ :=
    sessionCipherDecryptPreKeySignalMessage_cases cipher random store message <;> rw [hcase]
  · exact h'
  · exact h'
  · obtain ⟨loaded, hload', hr⟩ := h cipher.remoteAddress
    obtain rfl : record = loaded := Except.ok.inj (hload.symm.trans hload')
    have hstored := h'.storeSession hk ((hr.process hload hversion hprocess).decrypt hk hok) cipher.remoteAddress
    cases preKeyId <;> exact hstored

theorem processBundle (address : Address) (bundle : PreKeyBundle)
    (randomBase randomRatchet : EcPrivateKey) (hfresh : ctx.crypto.publicKey randomBase ∉ seen) :
    (processPreKeyBundle store address bundle randomBase randomRatchet).2.Sound (ctx.crypto.publicKey randomBase :: seen) := by
  have h' : store.Sound (ctx.crypto.publicKey randomBase :: seen) := h.mono fun key hkey => mem_cons_of_mem _ hkey
  unfold processPreKeyBundle
  split
  · exact h'
  · split
    · exact h'
    · rename_i record' hok
      refine h'.storeSession hk ?_ address
      obtain ⟨record, parameters, hload, rfl⟩ := processPreKeyBundleRecord_ok hok
      obtain ⟨loaded, hload', hr⟩ := h address
      obtain rfl : record = loaded := Except.ok.inj (hload.symm.trans hload')
      refine hr.setUp ?_ rfl fun hmem => hfresh (hr.known _ hmem).2
      have hs : (ratchetingSessionAliceInitialize ctx.crypto randomRatchet record.prepared.state parameters).Storable := by
        rw [prepared_state_of_load hload]
        exact storable_aliceInitialize randomRatchet parameters fun chain hmem => absurd hmem not_mem_nil
      exact { hs with }

end

end Store.Sound

/-! ## Runs -/

/-- Every request keeps the records sound. -/
theorem Device.sound_step (hk : ctx.storage.Inverse) {d : Device ctx} (h : d.store.Sound d.seen) (request : Request)
    (hfresh : d.Fresh request) : (d.step request).store.Sound (d.step request).seen := by
  cases request with
  | processBundle address bundle randomBase randomRatchet => exact h.processBundle hk address bundle _ _ hfresh
  | encrypt cipher plaintext => exact h.encrypt hk cipher plaintext
  | decryptPreKeyMessage cipher data random =>
    simp only [Device.step]
    split
    · exact h
    · rename_i message hread
      exact h.decryptPreKeyMessage hk cipher random (preKeySignalMessageDeserialize_version hread)
  | decryptMessage cipher data random =>
    simp only [Device.step]
    split
    · exact h
    · exact h.decryptMessage hk cipher random _

theorem Device.Runs.sound (hk : ctx.storage.Inverse) {d₀ d : Device ctx} (h₀ : d₀.store.Sound d₀.seen) (h : d₀.Runs d) :
    d.store.Sound d.seen := by
  induction h with
  | refl => exact h₀
  | step _ hfresh ih => exact Device.sound_step hk ih _ hfresh

/-- In every run of a device that begins without sessions, the states of a record, also while a request is served, have
different base keys. A pre-key message whose base key some state of the record holds changes nothing in the record by itself, and
no pre-key is removed for it. -/
theorem base_keys_distinct (hk : ctx.storage.Inverse) {store : Store ctx} (hempty : ∀ address, store.sessions address = none)
    {d : Device ctx} (hrun : Device.Runs ⟨store, []⟩ d) (address : Address) :
    ∃ record, d.store.loadSession address = .ok record ∧ record.baseKeys.Nodup ∧
      ∀ data message, preKeySignalMessageDeserialize ctx.wire data = .ok message →
        (∀ preKeyId record', (processPreKeySignalMessage d.store address record message).1 = .ok (preKeyId, record') →
          record'.baseKeys.Nodup ∧ ∀ random plaintext record'',
            decryptFromRecord ctx random record' message.message = .ok (plaintext, record'') → record''.baseKeys.Nodup) ∧
        ((∃ state ∈ record.states, state.aliceBaseKey = some message.baseKey) →
          processPreKeySignalMessageV3 d.store record message = .ok (none, record) ∧
          (∀ preKeyId record', (processPreKeySignalMessage d.store address record message).1 = .ok (preKeyId, record') →
            preKeyId = none ∧ record' = record) ∧
          ∀ cipher random, cipher.remoteAddress = address →
            (sessionCipherDecryptPreKeySignalMessage ctx cipher random d.store message).2.preKeys = d.store.preKeys) := by
  have hstart : store.Sound [] := by
    intro address
    refine ⟨SessionRecord.create none, by rw [Store.loadSession, hempty], ?_, nodup_nil, ?_⟩
    · intro state hmem
      obtain rfl := mem_singleton.1 hmem
      exact storable_create
    · exact fun key hkey => absurd hkey not_mem_nil
  obtain ⟨record, hload, hr⟩ := hrun.sound hk hstart address
  refine ⟨record, hload, hr.nodup, fun data message hread => ?_⟩
  have hversion := preKeySignalMessageDeserialize_version hread
  have hprocess : ∀ preKeyId record',
      (processPreKeySignalMessage d.store address record message).1 = .ok (preKeyId, record') →
      processPreKeySignalMessageV3 d.store record message = .ok (preKeyId, record') := by
    intro preKeyId record' hok
    obtain ⟨code, hcase⟩ | ⟨id, next, -, hv3, hcase⟩ := processPreKeySignalMessage_cases d.store address record message <;>
      rw [hcase] at hok
    · cases hok
    · exact hv3.trans hok
  have hheld : (∃ state ∈ record.states, state.aliceBaseKey = some message.baseKey) →
      processPreKeySignalMessageV3 d.store record message = .ok (none, record) := by
    intro hmem
    rw [← hr.hasSessionState_iff] at hmem
    rw [processPreKeySignalMessageV3, hversion]
    exact if_pos hmem
  refine ⟨fun preKeyId record' hok => ?_, fun hmem => ⟨hheld hmem, fun preKeyId record' hok => ?_, ?_⟩⟩
  · have hr' := hr.process hload hversion (hprocess preKeyId record' hok)
    exact ⟨hr'.nodup, fun random plaintext record'' hdecrypt => (hr'.decrypt hk hdecrypt).nodup⟩
  · obtain ⟨rfl, rfl⟩ := Prod.mk.inj (Except.ok.inj ((hheld hmem).symm.trans (hprocess preKeyId record' hok)))
    exact ⟨rfl, rfl⟩
  · rintro cipher random rfl
    obtain ⟨code, hcase⟩ | ⟨loaded, preKeyId, record', hload', -, hv3, ⟨code, hcase⟩ | ⟨plaintext, record'', -, hcase⟩⟩ :=
      sessionCipherDecryptPreKeySignalMessage_cases cipher random d.store message
    · rw [hcase]
    · rw [hcase]
      rfl
    · obtain rfl : record = loaded := Except.ok.inj (hload.symm.trans hload')
      obtain ⟨rfl, -⟩ := Prod.mk.inj (Except.ok.inj ((hheld hmem).symm.trans hv3))
      rw [hcase]
      rfl

/-- A bundle of Alice's for Bob. -/
def sampleBundle : PreKeyBundle where
  registrationId := 1
  preKeyId := 0
  preKeyPublic := none
  signedPreKeyId := 0
  signedPreKeyPublic := some (samplePair 10).publicKey
  signedPreKeySignature := List.replicate 64 0
  identityKey := some (samplePair 1).publicKey

/-- Bob's device, after Alice's first message has arrived twice and he has processed her bundle. -/
def sampleDevice : Device sampleContext :=
  (((Device.mk sampleBobStore []).step (.decryptPreKeyMessage sampleBobCipher [0x33, 2] fun _ => sampleKey 6)).step
    (.decryptPreKeyMessage sampleBobCipher [0x33, 2] fun _ => sampleKey 6)).step
    (.processBundle (sampleAddress .responder) sampleBundle (sampleKey 8) (sampleKey 9))

/-- Bob then has two sessions with Alice, with different base keys. -/
theorem base_keys_distinct_redelivered :
    (sampleDevice.store.loadSession (sampleAddress .responder)).map SessionRecord.baseKeys =
      .ok [(3, (samplePair 8).publicKey), (3, (samplePair 2).publicKey)] ∧
    ∃ record, sampleDevice.store.loadSession (sampleAddress .responder) = .ok record ∧ record.baseKeys.Nodup := by
  refine ⟨by decide, ?_⟩
  have hrun : Device.Runs ⟨sampleBobStore, []⟩ sampleDevice := by
    refine .step (.step (.step .refl ?_) ?_) ?_
    · trivial
    · trivial
    · show _ ∉ _
      decide
  obtain ⟨record, hload, hnodup, -⟩ := base_keys_distinct StorageCodecs.inverse_identity (fun _ => rfl) hrun
    (sampleAddress .responder)
  exact ⟨record, hload, hnodup⟩

end Osp.Signal
