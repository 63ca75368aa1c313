import Osp.Signal.Group
import Osp.Signal.Lemmas.SenderKeys

/-!
# What the group cipher changes

A message that is decrypted takes one key from the first state for its key id; a message that is not changes nothing.
-/

namespace Osp.Signal

open Osp.Lib GroupCipher SenderKeyRecord SenderKeyState

variable {ctx : Context} {store : SenderKeyStore ctx} {name : SenderKeyName} {record : SenderKeyRecord} {state : SenderKeyState}
  {message : SenderKeyMessage} {keyId : UInt32}

/-! ## Records -/

theorem SenderKeyRecord.Storable.hold (h : record.Storable ctx.crypto) (hfind : record.states.find? (·.keyId == keyId) = some state)
    {r : Receiver SenderChainKey SenderMessageKey} {key : SenderMessageKey} {iteration : UInt32}
    (htake : Receiver.take (senderChain ctx.crypto) maxMessageKeys 2000 state.receiver iteration = .ok (key, r)) :
    (record.updateSenderKeyStateById keyId fun _ => state.hold r).Storable ctx.crypto :=
  forall_updateFirst h fun _ _ => (h state (List.mem_of_find?_eq_some hfind)).hold htake

/-- The state that was changed is found, and the others are as before. -/
theorem find_updateSenderKeyStateById (hfind : record.states.find? (·.keyId == keyId) = some state)
    (r : Receiver SenderChainKey SenderMessageKey) (id : UInt32) :
    (record.updateSenderKeyStateById keyId fun _ => state.hold r).states.find? (·.keyId == id) =
      if id = keyId then some (state.hold r) else record.states.find? (·.keyId == id) := by
  have hsame : record.updateSenderKeyStateById keyId (fun _ => state.hold r) =
      record.updateSenderKeyStateById keyId fun s => s.hold r := by
    rw [updateSenderKeyStateById, updateSenderKeyStateById, updateFirst_congr]
    intro s hs
    rw [Option.some.inj (hfind.symm.trans hs)]
  rw [hsame]
  by_cases hid : id = keyId
  · have hfound : (updateFirst (·.keyId == keyId) (fun s => s.hold r) record.states).find? (·.keyId == keyId) =
        (record.states.find? (·.keyId == keyId)).map fun s => s.hold r := by
      refine find_updateFirst ?_ _
      exact fun _ => rfl
    rw [if_pos hid, hid, updateSenderKeyStateById, hfound, hfind, Option.map_some]
  · rw [if_neg hid]
    refine find_updateFirst_of_ne (fun s hs => ?_) _
    have hs' : s.keyId = keyId := by simpa using hs
    simp [hs', Ne.symm hid]

/-! ## Decryption -/

/-- A message that is decrypted takes its key from the first state for its key id. -/
theorem groupDecryptWithRecord_ok {plaintext : Bytes} {record' : SenderKeyRecord}
    (h : groupDecryptWithRecord ctx record message = .ok (plaintext, record')) :
    ∃ state key r, record.states.find? (·.keyId == message.keyId) = some state ∧
      Receiver.take (senderChain ctx.crypto) maxMessageKeys 2000 state.receiver message.iteration = .ok (key, r) ∧
      record' = record.updateSenderKeyStateById message.keyId fun _ => state.hold r := by
  unfold groupDecryptWithRecord at h
  split at h
  · cases h
  · obtain ⟨state, hstate, h⟩ := bind_eq_ok.1 h
    obtain ⟨-, -, h⟩ := bind_eq_ok.1 h
    obtain ⟨⟨key, state'⟩, hkey, h⟩ := bind_eq_ok.1 h
    obtain ⟨text, -, hresult⟩ := bind_eq_ok.1 h
    have hfind : record.states.find? (·.keyId == message.keyId) = some state := by
      unfold getSenderKeyStateById at hstate
      split at hstate
      · cases hstate
      · rename_i hfind
        rw [hfind, Except.ok.inj hstate]
    rw [groupCipherGetSenderKey_eq] at hkey
    split at hkey
    · rename_i key' r htake
      obtain ⟨rfl, rfl⟩ := Prod.mk.inj (Except.ok.inj hkey)
      exact ⟨state, key', r, hfind, htake, (Prod.mk.inj (Except.ok.inj hresult)).2.symm⟩
    · cases hkey

/-- A message with a good signature is decrypted with the key that the first state for its key id gives. -/
theorem groupCipherDecrypt_of_verified (hload : store.loadKey name = .ok record)
    (hfind : record.states.find? (·.keyId == message.keyId) = some state)
    (hverify : senderKeyMessageVerifySignature ctx.crypto message state.signaturePublicKey = .ok ()) :
    (∀ refusal, Receiver.take (senderChain ctx.crypto) maxMessageKeys 2000 state.receiver message.iteration =
        .error refusal →
      groupCipherDecrypt ctx (plain name) store message = (.error (refusalCode refusal), store)) ∧
    (∀ key r plaintext,
      Receiver.take (senderChain ctx.crypto) maxMessageKeys 2000 state.receiver message.iteration = .ok (key, r) →
      ctx.crypto.decrypt .aesCbcPkcs5 key.cipherKey key.iv message.ciphertext = .ok plaintext →
      groupCipherDecrypt ctx (plain name) store message =
        (.ok plaintext, store.storeKey name (record.updateSenderKeyStateById message.keyId fun _ => state.hold r))) := by
  have hnonempty : record.isEmpty = false := by
    rw [isEmpty, List.isEmpty_eq_false_iff]
    intro hnil
    rw [hnil] at hfind
    cases hfind
  have hstate : record.getSenderKeyStateById message.keyId = .ok state := by
    rw [getSenderKeyStateById, hfind]
  have hdecrypt : groupDecryptWithRecord ctx record message =
      (groupCipherGetSenderKey ctx state message.iteration).bind fun result =>
        (ctx.crypto.decrypt .aesCbcPkcs5 result.1.cipherKey result.1.iv message.ciphertext).bind fun plaintext =>
          .ok (plaintext, record.updateSenderKeyStateById message.keyId fun _ => result.2) := by
    rw [groupDecryptWithRecord, hnonempty, if_neg Bool.false_ne_true, hstate]
    simp only [bind, Except.bind, hverify]
    rfl
  unfold groupCipherDecrypt
  simp only [plain, callback, Bool.false_eq_true, if_false, Int.lt_irrefl, hload, hdecrypt,
    groupCipherGetSenderKey_eq]
  constructor
  · intro refusal htake
    rw [htake]
    cases refusal <;> rfl
  · intro key r plaintext htake hplain
    rw [htake]
    simp only [Except.bind, hplain]

end Osp.Signal
