import Osp.Signal.Lemmas.GroupCipher
import Osp.Signal.Sample

/-!
# Replays in a group

A member decrypts no message twice as long as no distribution message takes it back behind a message that it has decrypted. A
distribution message that is processed again does take it back.
-/

namespace Osp.Signal

open Osp.Lib SenderKeyStore SenderKeyState List

variable {ctx : Context} {name : SenderKeyName} {a : Member ctx} {record : SenderKeyRecord}

namespace Member

/-- The chain for every key id is in order, and is past every message of that id that has been decrypted. -/
structure Spent (name : SenderKeyName) (a : Member ctx) (record : SenderKeyRecord) : Prop where
  load : a.store.loadKey name = .ok record
  ordered : ∀ keyId state, record.states.find? (·.keyId == keyId) = some state →
    state.receiver.Ordered (senderChain ctx.crypto)
  spent : ∀ m ∈ a.decrypted, ∀ state, record.states.find? (·.keyId == m.keyId) = some state →
    state.receiver.Spent (senderChain ctx.crypto) m.iteration

/-- The first state for a key id after a distribution message was processed is the new one, or the one from before. -/
theorem find_addSenderKeyState {message : SenderKeyDistributionMessage} {keyId : UInt32}
    {state : SenderKeyState}
    (h : (record.addSenderKeyState message.id message.iteration message.chainKey message.signatureKey).states.find?
      (·.keyId == keyId) = some state) :
    message.id = keyId ∧
        state = create message.id ⟨message.iteration, message.chainKey⟩ message.signatureKey none ∨
      message.id ≠ keyId ∧ record.states.find? (·.keyId == keyId) = some state := by
  have hpre : (create message.id ⟨message.iteration, message.chainKey⟩ message.signatureKey none ::
      record.states).find? (·.keyId == keyId) = some state := by
    rw [← take_append_drop SenderKeyRecord.maxStates (_ :: record.states), List.find?_append]
    exact Option.or_eq_some_iff.2 (.inl h)
  by_cases hid : message.id = keyId
  · rw [List.find?_cons_of_pos (by simpa [create] using hid)] at hpre
    exact .inl ⟨hid, (Option.some.inj hpre).symm⟩
  · rw [List.find?_cons_of_neg (by simpa [create] using hid)] at hpre
    exact .inr ⟨hid, hpre⟩

/-- Processing a distribution message keeps the chains in order if it is ahead of what has been decrypted. -/
theorem Spent.process (h : a.Spent name record) (hk : ctx.storage.Inverse)
    (message : SenderKeyDistributionMessage) (hahead : a.Advances (.process message)) :
    ∃ record', (a.step name (.process message)).Spent name record' := by
  have hstorable : (record.addSenderKeyState message.id message.iteration message.chainKey
      message.signatureKey).Storable ctx.crypto := by
    intro state hmem
    rcases mem_cons.1 (mem_of_mem_take hmem) with rfl | hmem
    · exact storable_create_senderKey ..
    · exact storable_of_loadKey h.load state hmem
  refine ⟨record.addSenderKeyState message.id message.iteration message.chainKey message.signatureKey, ?_,
    fun keyId state hfind => ?_, fun m hm state hfind => ?_⟩
  · simp only [Member.step, groupSessionBuilderProcessSession, h.load]
    exact loadKey_storeKey hk hstorable
  · obtain ⟨-, rfl⟩ | ⟨-, hfind⟩ := find_addSenderKeyState hfind
    · exact ⟨nodup_nil, fun m hm => absurd hm not_mem_nil⟩
    · exact h.ordered keyId state hfind
  · obtain ⟨hid, rfl⟩ | ⟨-, hfind⟩ := find_addSenderKeyState hfind
    · exact ⟨hahead m hm hid.symm, fun key hkey => absurd hkey not_mem_nil⟩
    · exact h.spent m hm state hfind

/-- Decrypting keeps the chains in order, and a message that is decrypted has not been decrypted before. -/
theorem Spent.decrypt (h : a.Spent name record) (hk : ctx.storage.Inverse) (message : SenderKeyMessage)
    (hlast : a.Advances (.decrypt message)) (hnodup : a.decrypted.Nodup) :
    (∃ record', (a.step name (.decrypt message)).Spent name record') ∧ (a.step name (.decrypt message)).decrypted.Nodup := by
  simp only [Member.step, groupCipherDecrypt, GroupCipher.plain, GroupCipher.callback, Bool.false_eq_true, if_false, Int.lt_irrefl,
    h.load]
  cases hdecrypt : groupDecryptWithRecord ctx record message with
  | error code => exact ⟨⟨record, h⟩, hnodup⟩
  | ok result =>
    obtain ⟨plaintext, record'⟩ := result
    obtain ⟨state, key, r, hfind, htake, rfl⟩ := groupDecryptWithRecord_ok hdecrypt
    have htook := (h.ordered _ state hfind).took (by decide) (by decide) htake (Receiver.index_le_of_take hlast htake)
    have hnew : message ∉ a.decrypted := by
      intro hmem
      rw [(h.spent message hmem state hfind).take] at htake
      cases htake
    refine ⟨⟨record.updateSenderKeyStateById message.keyId fun _ => state.hold r, ?_, fun keyId state' hfind' => ?_,
      fun m hm state' hfind' => ?_⟩, nodup_cons.2 ⟨hnew, hnodup⟩⟩
    · exact loadKey_storeKey hk ((storable_of_loadKey h.load).hold hfind htake)
    · rw [find_updateSenderKeyStateById hfind] at hfind'
      split at hfind'
      · rw [← Option.some.inj hfind']
        exact htook.ordered
      · exact h.ordered keyId state' hfind'
    · rw [find_updateSenderKeyStateById hfind] at hfind'
      split at hfind'
      · rename_i hid
        rw [← Option.some.inj hfind']
        rcases mem_cons.1 hm with rfl | hm
        · exact htook.spent
        · exact htook.mono _ (h.spent m hm state (by rw [hid, hfind]))
      · rename_i hid
        rcases mem_cons.1 hm with rfl | hm
        · exact absurd rfl hid
        · exact h.spent m hm state' hfind'

end Member

/-- In every run of a member that begins without a record, in which every distribution message is ahead of the messages of its key
that have been decrypted and no message has the last iteration: no message is decrypted twice. -/
theorem group_decrypted_once (hk : ctx.storage.Inverse) (name : SenderKeyName) {store : SenderKeyStore ctx}
    (hempty : store.records name = none) {a : Member ctx}
    (hrun : Member.Reaches name Member.Advances ⟨store, []⟩ a) : a.decrypted.Nodup := by
  have hinvariant : (∃ record, a.Spent name record) ∧ a.decrypted.Nodup := by
    induction hrun with
    | refl =>
      refine ⟨⟨SenderKeyRecord.create, by rw [loadKey, hempty], ?_, ?_⟩, nodup_nil⟩
      · exact fun keyId state hfind => absurd hfind (by simp [SenderKeyRecord.create])
      · exact fun m hm => absurd hm not_mem_nil
    | step _ hok ih =>
      rename_i event _
      obtain ⟨⟨record, h⟩, hnodup⟩ := ih
      cases event with
      | process message => exact ⟨h.process hk message hok, hnodup⟩
      | decrypt message => exact h.decrypt hk message hok hnodup
  exact hinvariant.2

/-- A member processes Alice's distribution message and decrypts her first message, which arrives twice, then a later distribution message
and the message after it. -/
theorem group_decrypted_once_first :
    let a := [.process sampleDistribution, .decrypt (sampleGroupMessage 0 [40]), .decrypt (sampleGroupMessage 0 [40]),
      .process { sampleDistribution with iteration := 1 }, .decrypt (sampleGroupMessage 1 [40])].foldl (·.step sampleName ·)
      (Member.mk sampleKeyStore [])
    a.decrypted = [sampleGroupMessage 1 [40], sampleGroupMessage 0 [40]] ∧ a.decrypted.Nodup := by
  refine ⟨by decide, group_decrypted_once StorageCodecs.inverse_identity sampleName
    (rfl : sampleKeyStore.records sampleName = none) ?_⟩
  simp only [foldl]
  refine .step (.step (.step (.step (.step (.refl _) ?_) ?_) ?_) ?_) ?_
  · exact fun m hm => absurd hm not_mem_nil
  · show _ < _
    decide
  · show _ < _
    decide
  · show ∀ m ∈ Member.decrypted _, _ → _
    decide
  · show _ < _
    decide

/-- Alice makes a sender key and encrypts a text. When her distribution message is processed again, the member decrypts the same
message again. -/
theorem group_decrypted_twice :
    (groupSessionBuilderCreateSession sampleContext sampleKeyStore sampleName sampleNewSenderKey).1 = .ok sampleDistribution ∧
    (groupCipherEncrypt sampleContext (GroupCipher.plain sampleName)
      (groupSessionBuilderCreateSession sampleContext sampleKeyStore sampleName sampleNewSenderKey).2 [1] []).1 =
        .ok (sampleGroupMessage 0 [40]) ∧
    (((((Member.mk sampleKeyStore []).step sampleName (.process sampleDistribution)).step sampleName
      (.decrypt (sampleGroupMessage 0 [40]))).step sampleName (.process sampleDistribution)).step sampleName
      (.decrypt (sampleGroupMessage 0 [40]))).decrypted = [sampleGroupMessage 0 [40], sampleGroupMessage 0 [40]] := by
  decide

end Osp.Signal
