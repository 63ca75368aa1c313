import Osp.Signal.Lemmas.Group
import Osp.Signal.Sample

/-!
# Delivery in a group

A receiver that has processed a distribution message of the sender decrypts each later message of that sender key once, in
whatever order they arrive.
-/

namespace Osp.Signal

open Osp.Lib GroupChat List

variable {ctx : Context} {name : SenderKeyName}

/-- Processing the distribution message that the sender makes at a position opens the window of the receiver there. -/
theorem receives_processed {start : SenderKeyState} {signingKey : EcPrivateKey} {g₁ g₂ : GroupChat ctx} {s₁ s₂ : Nat}
    (hk : ctx.storage.Inverse) (hpublic : start.signaturePublicKey = ctx.crypto.publicKey signingKey)
    (hs₁ : g₁.Sends name start signingKey s₁) (hle : s₁ ≤ s₂) (hreceived : g₂.received = [])
    {random : NewSenderKey} {distribution : SenderKeyDistributionMessage}
    (hcreate : (groupSessionBuilderCreateSession ctx g₁.sender name random).1 = .ok distribution)
    {store receiver : SenderKeyStore ctx}
    (hprocess : groupSessionBuilderProcessSession ctx store name distribution = (.ok (), receiver)) :
    distribution.iteration.toNat = s₁ ∧ distribution.id = start.keyId ∧
      { g₂ with receiver }.Receives name start signingKey s₁ s₂ ⟨s₁, []⟩ := by
  obtain ⟨rest, hload⟩ := hs₁.load
  have hindex : (chainAt ctx.crypto start s₁).iteration = UInt32.ofNat s₁ := (follows_chainAt ctx.crypto start).index s₁ hs₁.le
  obtain rfl : (start.setChainKey (chainAt ctx.crypto start s₁)).distribution = distribution := by
    rw [groupSessionBuilderCreateSession, hload] at hcreate
    exact Except.ok.inj hcreate
  refine ⟨?_, rfl, ?_⟩
  · rw [SenderKeyState.distribution, SenderKeyState.setChainKey]
    simp only [hindex, UInt32.toNat_ofNat_of_lt' hs₁.lt]
  · unfold groupSessionBuilderProcessSession at hprocess
    split at hprocess
    · cases hprocess
    · rename_i record hrecord
      obtain rfl : _ = receiver := (Prod.mk.inj hprocess).2
      refine ⟨⟨_, _, SenderKeyStore.loadKey_storeKey hk fun state hmem => ?_, List.find?_cons_of_pos (by simp; rfl), hpublic, ?_⟩,
        hle, ?_, ?_, ?_⟩
      · rcases mem_cons.1 (mem_of_mem_take hmem) with rfl | hmem
        · exact storable_create_senderKey ..
        · exact SenderKeyStore.storable_of_loadKey hrecord state hmem
      · exact ⟨rfl, hs₁.le, fun p hp => absurd hp not_mem_nil, nodup_nil, fun p hp => absurd hp not_mem_nil⟩
      · rintro q (hq | hq)
        · exact absurd hq not_mem_nil
        · exact hq
      · intro m hm
        rw [hreceived] at hm
        exact absurd hm not_mem_nil
      · exact fun q hq => .inl (.inr hq)

/-- A store with a sender key of Alice's at an iteration. -/
def sampleSender (iteration : UInt32) : SenderKeyStore sampleContext :=
  sampleKeyStore.storeKey sampleName (.setSenderKeyState 9 iteration (List.replicate 32 1) (samplePair 11))

/-- Alice, and a member that has processed her distribution message. -/
def sampleGroup (iteration : UInt32) : GroupChat sampleContext where
  sender := sampleSender iteration
  receiver := (groupSessionBuilderProcessSession sampleContext sampleKeyStore sampleName
    { sampleDistribution with iteration }).2
  sent := []
  received := []
  evicted := []

end Osp.Signal
