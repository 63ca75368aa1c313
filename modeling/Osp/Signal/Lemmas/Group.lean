import Osp.Signal.Lemmas.GroupCipher

/-!
# The state of a group

What a run of a sender and a receiver keeps: the sender is at some position of its chain and has made one message for each
position before it (`GroupChat.Sends`), and the receiver holds a window of the positions from the one where it joined
(`GroupChat.Receives`). Every position is open in the window, or its message was received, or its key was evicted.
-/

namespace Osp.Signal

open Osp.Lib SenderKeyStore SenderKeyState Receiver List

variable {ctx : Context} {name : SenderKeyName} {start : SenderKeyState} {signingKey : EcPrivateKey} {g : GroupChat ctx} {s n : Nat}
  {w : Window} {message : SenderKeyMessage} {plaintext : Bytes} {g' : GroupChat ctx}

/-! ## The sender's chain -/

/-- The key of the sender's chain at a position. -/
def chainAt (p : CryptoProvider) (start : SenderKeyState) (q : Nat) : SenderChainKey :=
  (senderChain p).next^[q - start.chainKey.iteration.toNat] start.chainKey

/-- The message key at a position. -/
def keyAt (p : CryptoProvider) (start : SenderKeyState) (q : Nat) : SenderMessageKey := (chainAt p start q).createMessageKey p

theorem follows_chainAt (p : CryptoProvider) (start : SenderKeyState) :
    (senderChain p).Follows (chainAt p start) (keyAt p start) start.chainKey.iteration.toNat :=
  (senderChain p).follows_iterate (by simp) fun _ _ => rfl

/-- The message was made from the text at a position. -/
structure MadeAt (ctx : Context) (start : SenderKeyState) (signingKey : EcPrivateKey) (q : Nat) (message : SenderKeyMessage)
    (plaintext : Bytes) : Prop where
  keyId : message.keyId = start.keyId
  iteration : message.iteration = UInt32.ofNat q
  encrypted : ctx.crypto.encrypt .aesCbcPkcs5 (keyAt ctx.crypto start q).cipherKey (keyAt ctx.crypto start q).iv plaintext =
    .ok message.ciphertext
  verifies : ctx.crypto.Lawful →
    senderKeyMessageVerifySignature ctx.crypto message (ctx.crypto.publicKey signingKey) = .ok ()

/-- The sender is at position `s`, and every message was made at a position before. -/
structure GroupChat.Sends (name : SenderKeyName) (start : SenderKeyState) (signingKey : EcPrivateKey) (g : GroupChat ctx) (s : Nat) :
    Prop where
  load : ∃ rest, g.sender.loadKey name = .ok ⟨start.setChainKey (chainAt ctx.crypto start s) :: rest⟩
  le : start.chainKey.iteration.toNat ≤ s
  lt : s < 2 ^ 32
  made : ∀ entry ∈ g.sent, ∃ q, q < s ∧ MadeAt ctx start signingKey q entry.1 entry.2
  unique : ∀ entry ∈ g.sent, ∀ entry' ∈ g.sent, entry.1.iteration = entry'.1.iteration → entry = entry'

namespace GroupChat

theorem Sends.nextIteration (h : g.Sends name start signingKey s) : (g.sender.nextIteration name).toNat = s := by
  obtain ⟨rest, hload⟩ := h.load
  have hindex := (follows_chainAt ctx.crypto start).index s h.le
  rw [SenderKeyStore.nextIteration, hload]
  simp only [setChainKey]
  rw [show (chainAt ctx.crypto start s).iteration = _ from hindex, UInt32.toNat_ofNat_of_lt' h.lt]

/-- Encrypting a text moves the sender to the next position, or fails and changes nothing. -/
theorem Sends.encrypted (h : g.Sends name start signingKey s) (hk : ctx.storage.Inverse)
    (hprivate : start.signaturePrivateKey = some signingKey) {random : Bytes}
    (hregular : g.Regular name (.encrypt plaintext random)) :
    ∃ s', s ≤ s' ∧ (g.encrypted name plaintext random).Sends name start signingKey s' := by
  obtain ⟨rest, hload⟩ := h.load
  have hnext : s + 1 < 2 ^ 32 := by
    rw [← h.nextIteration]
    exact hregular
  have hindex : (keyAt ctx.crypto start s).iteration = UInt32.ofNat s := (follows_chainAt ctx.crypto start).index s h.le
  have hsucc : chainAt ctx.crypto start (s + 1) = (chainAt ctx.crypto start s).createNext ctx.crypto :=
    (follows_chainAt ctx.crypto start).next s h.le
  have hstorable : ∀ state ∈ rest, state.Storable ctx.crypto := fun state hmem =>
    storable_of_loadKey hload state (mem_cons_of_mem _ hmem)
  have hhead : (start.setChainKey (chainAt ctx.crypto start (s + 1))).Storable ctx.crypto :=
    let hs := storable_of_loadKey hload _ mem_cons_self
    ⟨hs.derived, hs.length_le⟩
  have hkey : (chainAt ctx.crypto start s).createMessageKey ctx.crypto = keyAt ctx.crypto start s := rfl
  simp only [GroupChat.encrypted, groupCipherEncrypt, GroupCipher.plain, Bool.false_eq_true, if_false, hload,
    groupEncryptWithState, setChainKey, hprivate, hkey, hindex, ← hsucc]
  cases hencrypt : ctx.crypto.encrypt .aesCbcPkcs5 (keyAt ctx.crypto start s).cipherKey (keyAt ctx.crypto start s).iv plaintext with
  | error code => exact ⟨s, Nat.le_refl _, h⟩
  | ok ciphertext =>
    simp only [← hprivate]
    have hold : ∀ entry ∈ g.sent, entry.1.iteration ≠ UInt32.ofNat s := by
      intro entry hmem heq
      obtain ⟨q, hq, hmade⟩ := h.made entry hmem
      exact absurd (eq_of_ofNat_eq (Nat.lt_trans hq h.lt) h.lt (hmade.iteration.symm.trans heq)) (Nat.ne_of_lt hq)
    refine ⟨s + 1, Nat.le_succ _, ⟨rest, ?_⟩, Nat.le_succ_of_le h.le, hnext, ?_, ?_⟩
    · refine loadKey_storeKey hk fun state hmem => ?_
      rcases mem_cons.1 hmem with rfl | hmem
      · exact hhead
      · exact hstorable state hmem
    · intro entry hmem
      rcases mem_cons.1 hmem with rfl | hmem
      · exact ⟨s, Nat.lt_succ_self _, rfl, rfl, hencrypt, fun hp => senderKeyMessageVerifySignature_create hp ..⟩
      · obtain ⟨q, hq, hmade⟩ := h.made entry hmem
        exact ⟨q, Nat.lt_succ_of_lt hq, hmade⟩
    · intro entry hmem entry' hmem' heq
      rcases mem_cons.1 hmem with rfl | hmem <;> rcases mem_cons.1 hmem' with rfl | hmem'
      · rfl
      · exact absurd heq.symm (hold entry' hmem')
      · exact absurd heq (hold entry hmem)
      · exact h.unique entry hmem entry' hmem' heq

/-! ## The receiver -/

/-- What a window names. -/
abbrev held (p : CryptoProvider) (start : SenderKeyState) (w : Window) : Receiver SenderChainKey SenderMessageKey :=
  w.map (chainAt p start) (keyAt p start)

/-- The receiver's first state for the sender's key id holds what a window names. -/
structure Finds (name : SenderKeyName) (start : SenderKeyState) (signingKey : EcPrivateKey) (g : GroupChat ctx) (w : Window)
    (record : SenderKeyRecord) (state : SenderKeyState) : Prop where
  load : g.receiver.loadKey name = .ok record
  find : record.states.find? (·.keyId == start.keyId) = some state
  signaturePublicKey : state.signaturePublicKey = ctx.crypto.publicKey signingKey
  tracks : Receiver.Tracks (senderChain ctx.crypto) (chainAt ctx.crypto start) (keyAt ctx.crypto start)
    start.chainKey.iteration.toNat w state.receiver

/-- The receiver, which joined at position `n`, holds what a window names. -/
structure Receives (name : SenderKeyName) (start : SenderKeyState) (signingKey : EcPrivateKey) (n : Nat) (g : GroupChat ctx) (s : Nat)
    (w : Window) : Prop where
  found : ∃ record state, g.Finds name start signingKey w record state
  key_le : w.key ≤ s
  joined : ∀ q, w.Open q → n ≤ q
  received : ∀ m ∈ g.received, (∃ plaintext, (m, plaintext) ∈ g.sent) ∧ ¬ w.Open m.iteration.toNat
  account : ∀ q, n ≤ q → w.Open q ∨ (∃ m ∈ g.received, m.iteration.toNat = q) ∨ UInt32.ofNat q ∈ g.evicted

theorem Receives.ordered (h : g.Receives name start signingKey n s w) : w.Ordered := by
  obtain ⟨_, _, hfound⟩ := h.found
  exact hfound.tracks.ordered

theorem Receives.iterationOf (h : g.Receives name start signingKey n s w) (hkey : w.key < 2 ^ 32) :
    (g.receiver.iterationOf name start.keyId).toNat = w.key := by
  obtain ⟨record, state, hfound⟩ := h.found
  have hindex : state.chainKey.iteration = UInt32.ofNat w.key := hfound.tracks.index_eq (follows_chainAt ctx.crypto start)
  rw [SenderKeyStore.iterationOf, stateById, hfound.load]
  simp only [hfound.find, Option.map_some, Option.getD_some, hindex]
  exact UInt32.toNat_ofNat_of_lt' hkey

section

variable {record : SenderKeyRecord} {state : SenderKeyState} (h : g.Finds name start signingKey w record state)

include h

/-- What the receiver answers to a message of the sender: what its window gives for the position. -/
theorem Finds.decrypt (hp : ctx.crypto.Lawful) {q : Nat} (hmade : MadeAt ctx start signingKey q message plaintext) :
    (∀ refusal, take positions maxMessageKeys 2000 w message.iteration = .error refusal →
      g.decrypt name message = (.error (refusalCode refusal), g.receiver)) ∧
    (∀ w', take positions maxMessageKeys 2000 w message.iteration = .ok (q, w') →
      take (senderChain ctx.crypto) maxMessageKeys 2000 state.receiver message.iteration =
        .ok (keyAt ctx.crypto start q, held ctx.crypto start w') ∧
      g.decrypt name message = (.ok plaintext, g.receiver.storeKey name (record.updateSenderKeyStateById start.keyId fun _ =>
        state.hold (held ctx.crypto start w')))) := by
  have hfind := h.find
  rw [← hmade.keyId] at hfind ⊢
  have hverify : senderKeyMessageVerifySignature ctx.crypto message state.signaturePublicKey = .ok () := by
    rw [h.signaturePublicKey]
    exact hmade.verifies hp
  obtain ⟨herror, hok⟩ := groupCipherDecrypt_of_verified h.load hfind hverify
  have hmap : take (senderChain ctx.crypto) maxMessageKeys 2000 state.receiver message.iteration =
      (take positions maxMessageKeys 2000 w message.iteration).map fun given =>
        (keyAt ctx.crypto start given.1, held ctx.crypto start given.2) := by
    rw [h.tracks.eq]
    exact take_map (follows_chainAt ctx.crypto start) message.iteration h.tracks.le h.tracks.counter
  constructor
  · intro refusal htake
    refine herror refusal ?_
    rw [hmap, htake]
    rfl
  · intro w' htake
    rw [htake] at hmap
    exact ⟨hmap, hok _ _ _ hmap (hp.decrypt_encrypt _ _ _ _ _ hmade.encrypted)⟩

/-- The iterations of the skipped keys. -/
theorem Finds.skippedOf : g.receiver.skippedOf name start.keyId = w.stored.map UInt32.ofNat := by
  have hstored : state.messageKeys = w.stored.map (keyAt ctx.crypto start) := congrArg stored h.tracks.eq
  rw [SenderKeyStore.skippedOf, stateById, h.load]
  simp only [h.find, Option.map_some, Option.getD_some, hstored, map_map]
  exact map_congr_left h.tracks.counter

end

/-- A delivery leaves the receiver with a window again. -/
theorem Receives.delivered (h : g.Receives name start signingKey n s w) (hs : g.Sends name start signingKey s)
    (hp : ctx.crypto.Lawful) (hk : ctx.storage.Inverse) (hsent : (message, plaintext) ∈ g.sent) :
    ∃ w', (g.delivered name message).Receives name start signingKey n s w' := by
  obtain ⟨q, hq, hmade⟩ := hs.made _ hsent
  have hqlt : q < 2 ^ 32 := Nat.lt_trans hq hs.lt
  have hkey : w.key < 2 ^ 32 := Nat.lt_of_le_of_lt h.key_le hs.lt
  obtain ⟨record, state, hfound⟩ := h.found
  cases htake : take positions maxMessageKeys 2000 w message.iteration with
  | error refusal =>
    have hdecrypt := (hfound.decrypt hp hmade).1 refusal htake
    have hsame : g.delivered name message = g := by
      have hnone : (g.receiver.skippedOf name message.keyId).filter
          (fun i => i ∉ g.receiver.skippedOf name message.keyId ∧ i ≠ message.iteration) = [] := by
        rw [filter_eq_nil_iff]
        intro i hi
        simp [hi]
      simp only [GroupChat.delivered, hdecrypt, hnone, nil_append]
    rw [hsame]
    exact ⟨w, h⟩
  | ok given =>
    obtain ⟨p, w'⟩ := given
    have hposition : p = q := by
      rw [hmade.iteration] at htake
      exact Window.take_position hfound.tracks.ordered hkey hqlt htake
    subst hposition
    have htoNat : message.iteration.toNat = p := by rw [hmade.iteration, UInt32.toNat_ofNat_of_lt' hqlt]
    have hgave := Window.take_gave hfound.tracks.ordered (by decide) htake
    obtain ⟨-, htracks⟩ := hfound.tracks.take (follows_chainAt ctx.crypto start) (by decide) htake
    obtain ⟨htake', hdecrypt⟩ := (hfound.decrypt hp hmade).2 w' htake
    have hfind := find_updateSenderKeyStateById hfound.find (held ctx.crypto start w') start.keyId
    rw [if_pos rfl] at hfind
    obtain ⟨_, _, hnew⟩ : ∃ record' state',
        { g with receiver := (g.decrypt name message).2 }.Finds name start signingKey w' record' state' := by
      rw [hdecrypt]
      exact ⟨_, _, loadKey_storeKey hk ((storable_of_loadKey hfound.load).hold hfound.find htake'), hfind,
        hfound.signaturePublicKey, htracks⟩
    have hbefore := hfound.skippedOf
    have hafter := hnew.skippedOf
    rw [← hmade.keyId] at hbefore hafter
    have hstep : g.delivered name message = { g with
        receiver := (g.decrypt name message).2
        received := message :: g.received
        evicted := (w.stored.map UInt32.ofNat).filter
          (fun i => i ∉ w'.stored.map UInt32.ofNat ∧ i ≠ message.iteration) ++ g.evicted } := by
      simp only [GroupChat.delivered, hbefore, hafter]
      rw [hdecrypt]
    have hkey' : w'.key ≤ s := by
      rw [hgave.key_eq]
      exact Nat.max_le.2 ⟨h.key_le, hq⟩
    rw [hstep]
    refine ⟨w', ⟨_, _, { hnew with }⟩, hkey', fun q hopen => h.joined q (hgave.mono q hopen), ?_, ?_⟩
    · intro m hm
      rcases mem_cons.1 hm with rfl | hm
      · refine ⟨⟨plaintext, hsent⟩, ?_⟩
        rw [htoNat]
        exact hgave.closed
      · exact ⟨(h.received m hm).1, fun hopen => (h.received m hm).2 (hgave.mono _ hopen)⟩
    · intro q hn
      rcases h.account q hn with hopen | ⟨m, hm, hmq⟩ | hevicted
      · by_cases hopen' : Window.Open w' q
        · exact .inl hopen'
        · rcases hgave.lost q hopen hopen' with rfl | ⟨hin, hout⟩
          · exact .inr (.inl ⟨message, mem_cons_self, htoNat⟩)
          · by_cases hqp : q = p
            · exact .inr (.inl ⟨message, mem_cons_self, htoNat.trans hqp.symm⟩)
            · have hqlt' : q < 2 ^ 32 := Nat.lt_trans (hfound.tracks.ordered.lt q hin) hkey
              refine .inr (.inr (mem_append_left _ (mem_filter.2 ⟨mem_map_of_mem hin, ?_⟩)))
              rw [decide_eq_true_iff]
              constructor
              · intro hmem
                obtain ⟨q', hq', heq⟩ := mem_map.1 hmem
                have hlt' : q' < 2 ^ 32 := Nat.lt_trans (hgave.ordered.lt q' hq') (Nat.lt_of_le_of_lt hkey' hs.lt)
                exact hout (eq_of_ofNat_eq hlt' hqlt' heq ▸ hq')
              · rw [hmade.iteration]
                exact fun heq => hqp (eq_of_ofNat_eq hqlt' hqlt heq)
      · exact .inr (.inl ⟨m, mem_cons_of_mem _ hm, hmq⟩)
      · exact .inr (.inr (mem_append_right _ hevicted))

/-! ## Runs -/

/-- What the sender does leaves the receiver as it is. -/
theorem Receives.mono (h : g.Receives name start signingKey n s w) {s' : Nat} (hs : s ≤ s') {sender : SenderKeyStore ctx}
    {sent : List (SenderKeyMessage × Bytes)} (hsent : ∀ entry ∈ g.sent, entry ∈ sent) :
    { g with sender, sent }.Receives name start signingKey n s' w := by
  obtain ⟨_, _, hfound⟩ := h.found
  refine ⟨⟨_, _, { hfound with }⟩, Nat.le_trans h.key_le hs, h.joined, fun m hm => ?_, h.account⟩
  obtain ⟨⟨plaintext, hmem⟩, hclosed⟩ := h.received m hm
  exact ⟨⟨plaintext, hsent _ hmem⟩, hclosed⟩

/-- While only texts are encrypted, the sender moves on along its chain. -/
theorem Sends.reaches (h : g.Sends name start signingKey s) (hk : ctx.storage.Inverse)
    (hprivate : start.signaturePrivateKey = some signingKey) (hrun : Reaches name (Encrypting name) g g') :
    ∃ s', s ≤ s' ∧ g'.Sends name start signingKey s' ∧ g'.received = g.received ∧ g'.evicted = g.evicted := by
  induction hrun with
  | refl => exact ⟨s, Nat.le_refl _, h, rfl, rfl⟩
  | step _ hok ih =>
    rename_i event _
    obtain ⟨s₁, hle, hs₁, hreceived, hevicted⟩ := ih
    cases event with
    | encrypt plaintext random =>
      obtain ⟨s₂, hle₂, hs₂⟩ := hs₁.encrypted hk hprivate hok
      exact ⟨s₂, Nat.le_trans hle hle₂, hs₂, hreceived, hevicted⟩
    | deliver message => exact hok.elim

/-- The sender and the receiver stay in step through every regular run. -/
theorem Receives.reaches (hr : g.Receives name start signingKey n s w) (hs : g.Sends name start signingKey s)
    (hp : ctx.crypto.Lawful) (hk : ctx.storage.Inverse) (hprivate : start.signaturePrivateKey = some signingKey)
    (hrun : Reaches name (Regular name) g g') :
    ∃ s' w', g'.Sends name start signingKey s' ∧ g'.Receives name start signingKey n s' w' := by
  induction hrun with
  | refl => exact ⟨s, w, hs, hr⟩
  | step _ hok ih =>
    rename_i event _
    obtain ⟨s₁, w₁, hs₁, hr₁⟩ := ih
    cases event with
    | encrypt plaintext random =>
      obtain ⟨s₂, hle, hs₂⟩ := hs₁.encrypted hk hprivate hok
      refine ⟨s₂, w₁, hs₂, hr₁.mono hle fun entry hmem => ?_⟩
      split
      · exact mem_cons_of_mem _ hmem
      · exact hmem
    | deliver message =>
      obtain ⟨plaintext, hsent⟩ := hok
      obtain ⟨w₂, hr₂⟩ := hr₁.delivered hs₁ hp hk hsent
      exact ⟨s₁, w₂, { hs₁ with }, hr₂⟩

end GroupChat

end Osp.Signal
