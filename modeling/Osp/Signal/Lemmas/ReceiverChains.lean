import Osp.Signal.SessionCipher

/-!
# Receiver chains as receivers

What `session_cipher_get_or_create_message_keys` does to the chain it finds is what a `Receiver` of the chain of message keys
does: `getOrCreateMessageKeys_eq`. The other chains of the state are not touched.
-/

namespace Osp.Signal

open Osp.Lib ReceiverChain SessionState Receiver

variable {ctx : Context} {state : SessionState} {their e : EcPublicKey} {chain : ReceiverChain}

/-- The code of a refusal. -/
def refusalCode : Refusal → Int
  | .duplicate => sgErrDuplicateMessage
  | .tooFar => sgErrInvalidMessage

/-- The chain with what a receiver holds. -/
def ReceiverChain.hold (r : Receiver RatchetChainKey RatchetMessageKeys) (chain : ReceiverChain) : ReceiverChain :=
  { chain with
    chainKey := some r.key
    messageKeys := r.stored }

@[simp] theorem senderRatchetKey_hold (r : Receiver RatchetChainKey RatchetMessageKeys) (chain : ReceiverChain) :
    (chain.hold r).senderRatchetKey = chain.senderRatchetKey := rfl

/-! ## Changing one chain -/

variable {f g : ReceiverChain → ReceiverChain}

section

variable (hf : ∀ c, (f c).senderRatchetKey = c.senderRatchetKey)

include hf

theorem find_updateReceiverChain :
    (state.updateReceiverChain e f).findReceiverChain e = (state.findReceiverChain e).map f :=
  find_updateFirst (fun c => by rw [isFor, hf, isFor]) _

theorem find_updateReceiverChain_of_ne (hne : e ≠ their) :
    (state.updateReceiverChain their f).findReceiverChain e = state.findReceiverChain e := by
  refine find_updateFirst_of_ne (fun c hc => ?_) _
  have hkey : c.senderRatchetKey = some their := by simpa [isFor] using hc
  simp [isFor, hf, hkey, Ne.symm hne]

theorem updateReceiverChain_updateReceiverChain :
    (state.updateReceiverChain e f).updateReceiverChain e g = state.updateReceiverChain e fun c => g (f c) := by
  simp only [updateReceiverChain]
  rw [updateFirst_updateFirst fun c => by rw [isFor, hf, isFor]]
  rfl

end

theorem updateReceiverChain_congr (hfind : state.findReceiverChain e = some chain)
    (h : f chain = g chain) : state.updateReceiverChain e f = state.updateReceiverChain e g := by
  simp only [updateReceiverChain]
  rw [updateFirst_congr fun c hc => ?_]
  obtain rfl : chain = c := Option.some.inj (hfind.symm.trans hc)
  exact h

/-! ## Message keys -/

/-- The loop stores in the chain what a receiver that skips stores. -/
theorem storeSkippedKeys_eq (n : Nat) (state : SessionState) (chainKey : RatchetChainKey) :
    storeSkippedKeys ctx e n state chainKey =
      (state.updateReceiverChain e fun chain =>
          { chain with
            messageKeys := (skip (ratchetChain ctx.crypto) maxMessageKeys n
              ⟨chainKey, chain.messageKeys⟩).stored },
        (ratchetChain ctx.crypto).next^[n] chainKey) := by
  induction n generalizing state chainKey with
  | zero =>
    simp only [storeSkippedKeys, skip, Function.iterate_zero, id_eq, Prod.mk.injEq, and_true]
    simp only [updateReceiverChain, updateFirst_id]
  | succ n ih =>
    rw [storeSkippedKeys, ih, setMessageKeys, updateReceiverChain_updateReceiverChain]
    · simp only [skip, ratchetChain_next, ratchetChain_keys, Function.iterate_succ_apply]
    · exact fun _ => rfl

/-- `session_cipher_get_or_create_message_keys` takes the keys from the chain it finds. A chain without a key, which the caller
has just made a first key for, is treated as one with that key. -/
theorem getOrCreateMessageKeys_eq {chainKey : RatchetChainKey} (hfind : state.findReceiverChain e = some chain)
    (hkey : chain.chainKey = some chainKey ∨ chainKey.index = 0) (counter : UInt32) :
    getOrCreateMessageKeys ctx state e chainKey counter =
      match take (ratchetChain ctx.crypto) maxMessageKeys 2000 ⟨chainKey, chain.messageKeys⟩ counter with
      | .ok (keys, r) => (.ok keys, state.updateReceiverChain e (hold r))
      | .error refusal => (.error (refusalCode refusal), state) := by
  unfold getOrCreateMessageKeys take
  by_cases hlt : counter < chainKey.index
  · have hkey : chain.chainKey = some chainKey := hkey.resolve_right fun h0 => by
      rw [h0] at hlt
      cases hlt
    rw [if_pos hlt, if_pos (show counter < (ratchetChain ctx.crypto).index chainKey from hlt)]
    simp only [removeMessageKeys, hfind]
    cases hm : chain.messageKeys.find? ((ratchetChain ctx.crypto).counter · == counter) with
    | none =>
      have hm' : chain.messageKeys.find? (·.counter == counter) = none := hm
      rw [hm']
      rfl
    | some keys =>
      have hm' : chain.messageKeys.find? (·.counter == counter) = some keys := hm
      rw [hm']
      simp only
      congr 1
      refine updateReceiverChain_congr hfind ?_
      simp only [hold, ← hkey]
      rfl
  · rw [if_neg hlt, if_neg (show ¬ counter < (ratchetChain ctx.crypto).index chainKey from hlt)]
    by_cases hfar : (counter - chainKey.index).toNat > 2000
    · rw [if_pos hfar, if_pos (show 2000 < (counter - (ratchetChain ctx.crypto).index chainKey).toNat from hfar)]
      rfl
    · rw [if_neg hfar, if_neg (show ¬ 2000 < (counter - (ratchetChain ctx.crypto).index chainKey).toNat from hfar),
        storeSkippedKeys_eq]
      simp only [setReceiverChainKey]
      rw [find_updateReceiverChain, hfind]
      · simp only [Option.map_some, skip_key, ratchetChain_index, ratchetChain_keys, ratchetChain_next]
        rw [updateReceiverChain_updateReceiverChain]
        · refine Prod.ext rfl (updateReceiverChain_congr hfind ?_)
          simp only [hold]
        · exact fun _ => rfl
      · exact fun _ => rfl

end Osp.Signal
