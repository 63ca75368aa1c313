import Osp.Signal.Lemmas.Start
import Osp.Signal.Sample

/-!
# Delivery

In any run of two parties, a message that is delivered for the first time is decrypted to the text it was made from.
-/

namespace Osp.Signal

open Osp.Lib Osp.Lib.DoubleRatchet Conversation

/-- A message that should be decrypted, in the sample conversation, and is not. -/
abbrev SampleFailure (x : Side) (w : Conversation sampleContext) (message : SignalMessage) (plaintext : Bytes)
    (fresh : EcPrivateKey) : Prop :=
  (x.other, message, plaintext) ∈ w.sent ∧ (x, message) ∉ w.received ∧ message.senderRatchetKey ∉ w.evictedChains x ∧
  (message.senderRatchetKey, message.counter) ∉ w.evictedKeys x ∧
  message.counter.toNat ≤ ((w.state sampleAddress x).receiverIndex message.senderRatchetKey).toNat + 2000 ∧
  sampleProvider.publicKey fresh ∉ w.generated ∧ (w.decrypt sampleAddress x message fresh).1 ≠ .ok plaintext

variable {ctx : Context} {ours theirs : EcPublicKey} {party : SessionParty} {state : SessionState} {x : Side} {address : Side → Address}

section

variable {w : Conversation ctx} (hk : ctx.storage.Inverse)
  (hcipher : ∀ keys plaintext, ∃ ciphertext, getCiphertext ctx ciphertextCurrentVersion keys plaintext = .ok ciphertext)
  (hholds : (w.store x).Holds (address x) state) (hlive : Live ctx.crypto ours theirs state party)

include hk hcipher hholds hlive

/-- A party encrypts a message, and its chain moves on. -/
theorem exists_encryption (plaintext : Bytes) :
    ∃ message store state', w.encrypted address x plaintext =
        { w with store := Function.update w.store x store, sent := (x, message, plaintext) :: w.sent } ∧
      store.Holds (address x) state' ∧
      Live ctx.crypto ours theirs state' { party with send := (ratchetChain ctx.crypto).next party.send } ∧
      message.senderRatchetKey = ctx.crypto.publicKey party.own ∧ message.counter = party.send.index ∧
      message.messageVersion.toUInt32 = ciphertextCurrentVersion ∧
      ∃ keys, getCiphertext ctx ciphertextCurrentVersion keys plaintext = .ok message.ciphertext := by
  have henc := hlive.encrypt plaintext
  have hst := hholds.encrypt plaintext
  obtain ⟨ciphertext, hct⟩ := hcipher (party.send.getMessageKeys ctx.crypto) plaintext
  rw [hct] at henc
  obtain ⟨state', henc, hlive'⟩ := henc
  rw [henc] at hst
  obtain ⟨fresh, hst⟩ := hst
  simp only [encrypted, cipher, hst]
  exact ⟨_, _, state', rfl, Store.holds_storeSession hk hlive'.storable fresh, hlive', rfl, rfl, rfl, _, hct⟩

/-- A party can encrypt as often as it likes, and nothing else happens. -/
theorem exists_encryptions (n : Nat) :
    ∃ store sent state', Reaches address (Honest address) w { w with store := Function.update w.store x store, sent } ∧
      store.Holds (address x) state' ∧
      Live ctx.crypto ours theirs state' { party with send := (ratchetChain ctx.crypto).next^[n] party.send } := by
  induction n with
  | zero => exact ⟨w.store x, w.sent, state, by rw [Function.update_eq_self]; exact .refl _, hholds, hlive⟩
  | succ n ih =>
    obtain ⟨store, sent, state', hreach, hholds', hlive'⟩ := ih
    rw [← Function.update_self x store w.store] at hholds'
    obtain ⟨message, store', state'', hw, hholds'', hlive'', -⟩ := exists_encryption (w := { w with store := _, sent := sent }) hk
      hcipher hholds' hlive' []
    have hnext := hreach.encrypt x [] trivial
    rw [hw] at hnext
    simp only [Function.update_idem] at hnext
    rw [Function.iterate_succ_apply']
    exact ⟨store', _, state'', hnext, hholds'', hlive''⟩

/-- The message that comes after `n` others on a chain. -/
theorem exists_message_after (n : Nat) (plaintext : Bytes) :
    ∃ message store sent, Reaches address (Honest address) w
        { w with store := Function.update w.store x store, sent := (x, message, plaintext) :: sent } ∧
      message.senderRatchetKey = ctx.crypto.publicKey party.own ∧ message.counter = party.send.index + UInt32.ofNat n ∧
      message.messageVersion.toUInt32 = ciphertextCurrentVersion ∧
      ∃ keys, getCiphertext ctx ciphertextCurrentVersion keys plaintext = .ok message.ciphertext := by
  obtain ⟨store, sent, state', hreach, hholds', hlive'⟩ := exists_encryptions hk hcipher hholds hlive n
  rw [← Function.update_self x store w.store] at hholds'
  obtain ⟨message, store', -, hw, -, -, hratchet, hcounter, hmessage⟩ :=
    exists_encryption (w := { w with store := _, sent := sent }) hk hcipher hholds' hlive' plaintext
  have hnext := hreach.encrypt x plaintext trivial
  rw [hw] at hnext
  simp only [Function.update_idem] at hnext
  exact ⟨message, store', sent, hnext, hratchet, hcounter.trans ((ratchetChain ctx.crypto).index_iterate ..), hmessage⟩

end

/-- The sample conversation after Bob has decrypted Alice's first message. -/
def sampleHeard : Conversation sampleContext :=
  (sampleStart.encrypted sampleAddress .initiator [1]).delivered sampleAddress .responder (sampleMessage 0 [219]) (sampleKey 6)

theorem sampleHeard_reached :
    Reaches sampleAddress (fun w event => w.Honest sampleAddress event ∧ w.Regular sampleAddress event) sampleStart
      sampleHeard :=
  ((Reaches.refl _).encrypt .initiator [1] ⟨trivial, by show _ < _; decide⟩).deliver .responder
    (sampleMessage 0 [219]) (sampleKey 6)
    ⟨⟨⟨[1], by decide +kernel⟩, fun _ => by decide +kernel⟩, fun h => absurd h (by decide +kernel)⟩

theorem Conversation.Reaches.mono {Ok Ok' : Conversation ctx → Event → Prop}
    {w₀ w : Conversation ctx} (h : Reaches address Ok w₀ w) (hok : ∀ w event, Ok w event → Ok' w event) :
    Reaches address Ok' w₀ w := by
  induction h with
  | refl => exact .refl _
  | step _ he ih => exact .step ih (hok _ _ he)

/-- Once Alice has used up the indices of her chain, they start again at `0`, where Bob takes her message for a duplicate. -/
theorem exists_failure_after_wrap :
    ∃ w message plaintext fresh, Reaches sampleAddress (Honest sampleAddress) sampleStart w ∧
      (∀ x, w.evictedChains x = []) ∧ SampleFailure .responder w message plaintext fresh := by
  have hp : sampleContext.crypto.Lawful := sampleProvider_lawful
  have hk : sampleContext.storage.Inverse := StorageCodecs.inverse_identity
  have hm : Matching sampleContext.crypto sampleAlice sampleBob := sample_matching
  have hne : sampleContext.crypto.publicKey (sampleKey 5) ≠ sampleBob.ourRatchetKey.publicKey := by decide
  obtain ⟨a₀, hv₀⟩ := start_valid hp hm hk hne sampleAddress fun _ => sampleStore
  obtain ⟨a, hv⟩ := Account.Valid.reaches hk hv₀ sampleHeard_reached
  obtain ⟨state, hholds, hlive⟩ := hv.session .initiator
  -- what Alice and Bob hold before Alice's other messages
  have hown : sampleProvider.publicKey (a.party .initiator).own = (samplePair 5).publicKey := by
    have h : (sampleHeard.state sampleAddress .initiator).getSenderRatchetKey = some (samplePair 5).publicKey := by
      decide
    rw [Account.Valid.state_eq hholds, SessionState.getSenderRatchetKey, hlive.represents.getSenderRatchetKeyPair] at h
    exact Option.some.inj h
  have hindex : (a.party .initiator).send.index = 1 := by
    have h : (sampleHeard.state sampleAddress .initiator).senderIndex = 1 := by decide
    rw [Account.Valid.state_eq hholds, SessionState.senderIndex, hlive.represents.getSenderChainKey] at h
    exact h
  have hbob : ((sampleHeard.state sampleAddress .responder).findReceiverChain (samplePair 5).publicKey).map
      (fun chain => (chain.chainKey.map RatchetChainKey.index, chain.messageKeys)) = some (some 1, []) := by decide
  obtain ⟨message, store, sent, hreach, hratchet, hcounter, hversion, keys, hct⟩ :=
    exists_message_after hk (fun _ _ => ⟨_, rfl⟩) hholds hlive (2 ^ 32 - 1) [2, 2]
  have hratchet : message.senderRatchetKey = (samplePair 5).publicKey := hratchet.trans hown
  have hcounter : message.counter = 0 := by
    rw [hcounter, hindex]
    decide
  obtain ⟨bobState, bobHolds, bobLive⟩ := hv.session .responder
  have hdec : decryptFromState sampleContext (sampleKey 7) bobState message = (.error sgErrDuplicateMessage, bobState) := by
    rw [Account.Valid.state_eq bobHolds] at hbob
    obtain ⟨chain, hfind, hchain⟩ := Option.map_eq_some_iff.1 hbob
    obtain ⟨hkey, hskipped⟩ := Prod.mk.inj hchain
    obtain ⟨chainKey, hkey, hone⟩ := Option.map_eq_some_iff.1 hkey
    refine decryptFromState_duplicate ?_ (hversion.trans bobLive.sessionVersion.symm) (hratchet ▸ hfind) hkey ?_ ?_
    · rw [bobLive.represents.senderChain]
      rfl
    · rw [hcounter, hone]
      decide
    · rw [hskipped]
      exact fun _ h => absurd h List.not_mem_nil
  have hfail := bobHolds.decrypt hk bobLive.storable (sampleKey 7) message
  rw [hdec] at hfail
  refine ⟨_, message, [2, 2], sampleKey 7, (sampleHeard_reached.mono fun _ _ h => h.1).trans hreach, fun x => ?_,
    List.mem_cons_self, fun hmem => ?_, fun h => ?_, fun h => ?_, ?_, ?_, ?_⟩
  · show sampleHeard.evictedChains x = []
    cases x <;> decide
  · -- the two messages differ in the length of their texts
    have hlength : message.ciphertext.length = 2 := by
      rw [← Except.ok.inj hct]
      rfl
    have hold : ∀ r ∈ sampleHeard.received, r.2.ciphertext.length = 1 := by decide
    exact absurd (hlength.symm.trans (hold _ hmem)) (by decide)
  · rw [show sampleHeard.evictedChains .responder = [] by decide] at h
    cases h
  · rw [show sampleHeard.evictedKeys .responder = [] by decide] at h
    cases h
  · rw [hcounter]
    exact Nat.zero_le _
  · show sampleProvider.publicKey (sampleKey 7) ∉ sampleHeard.generated
    decide
  · simp only [decrypt, cipher, Function.update_of_ne (show Side.responder ≠ .initiator by decide)]
    rw [hfail]
    exact fun h => by cases h

/-- Bob answers, and Alice answers him; message `n` is Bob's. -/
def sampleTurn (n : Nat) (alice bob : UInt8) : List ScheduleStep :=
  [.encrypt .responder [3], .deliver .initiator n (sampleKey alice), .encrypt .initiator [4],
    .deliver .responder (n + 1) (sampleKey bob)]

/-- Bob hears of six ratchet keys of Alice's, the first of which he then has no chain for any more, before a second message under
that key reaches him. -/
def sampleLate : List ScheduleStep :=
  [.encrypt .initiator [1], .encrypt .initiator [2], .deliver .responder 0 (sampleKey 6)] ++ sampleTurn 2 7 8 ++
    sampleTurn 4 9 10 ++ sampleTurn 6 11 12 ++ sampleTurn 8 13 14 ++ sampleTurn 10 15 16 ++
    [.deliver .responder 1 (sampleKey 17), .encrypt .responder [5]]

/-- The MAC of the late message verifies under the wrong key, so Bob takes it for the beginning of a new chain, and Alice cannot
read what he writes next. -/
theorem exists_failure_after_collision :
    ∃ w message plaintext fresh, Reaches sampleAddress (Honest sampleAddress) sampleStart w ∧
      (∀ s ∈ w.sent, s.2.1.counter.toNat ≤ 1) ∧ SampleFailure .initiator w message plaintext fresh := by
  have hplay : (sampleStart.play sampleAddress sampleLate).any (fun w => w.sent.head?.any fun s =>
      decide ((∀ s ∈ w.sent, s.2.1.counter.toNat ≤ 1) ∧ SampleFailure .initiator w s.2.1 s.2.2 (sampleKey 18))) = true := by
    decide +kernel
  obtain ⟨w, hw, h⟩ := (Option.any_eq_true _ _).1 hplay
  obtain ⟨s, -, h⟩ := (Option.any_eq_true _ _).1 h
  obtain ⟨hcounter, hfail⟩ := of_decide_eq_true h
  exact ⟨w, s.2.1, s.2.2, sampleKey 18, reaches_of_play (.refl _) hw, hcounter, hfail⟩

/-- In every run of honest and regular events, no two messages, of either party, have the same ratchet key and counter, by which
a receiver finds the keys of a message. -/
theorem sent_keys_nodup {ctx : Context} (hp : ctx.crypto.Lawful) (hk : ctx.storage.Inverse) {alice : AliceParameters}
    {bob : BobParameters} (hm : Matching ctx.crypto alice bob) {random : EcPrivateKey}
    (hne : ctx.crypto.publicKey random ≠ bob.ourRatchetKey.publicKey) (address : Side → Address) (store : Side → Store ctx)
    {w : Conversation ctx}
    (hw : Reaches address (fun w event => w.Honest address event ∧ w.Regular address event)
      (start address store alice bob random) w) :
    (w.sent.map fun s => (s.2.1.senderRatchetKey, s.2.1.counter)).Nodup := by
  obtain ⟨a₀, hv₀⟩ := start_valid hp hm hk hne address store
  -- only an encryption adds a message
  induction hw with
  | refl => exact List.nodup_nil
  | @step w event hreaches _ ih =>
    cases event with
    | deliver => exact ih
    | encrypt x plaintext =>
      obtain ⟨a, hv⟩ := Account.Valid.reaches hk hv₀ hreaches
      obtain ⟨state, hholds, hlive⟩ := hv.session x
      have hstore := hholds.encrypt plaintext
      have henc := hlive.encrypt plaintext
      split at henc
      · rw [henc] at hstore
        simpa only [step, encrypted, cipher, hstore] using ih
      · obtain ⟨state', henc, -⟩ := henc
        rw [henc] at hstore
        obtain ⟨fresh, hstore⟩ := hstore
        simp only [step, encrypted, cipher, hstore]
        refine List.nodup_cons.2 ⟨fun hmem => ?_, ih⟩
        obtain ⟨⟨y, message, text⟩, hsent, heq⟩ := List.mem_map.1 hmem
        exact hv.label_ne x hsent heq

/-- Alice's message and Bob's answer. -/
theorem sent_keys_nodup_answer :
    ((sampleHeard.encrypted sampleAddress .responder [2]).sent.map fun s => (s.2.1.senderRatchetKey, s.2.1.counter)).Nodup :=
  sent_keys_nodup sampleProvider_lawful StorageCodecs.inverse_identity sample_matching (by decide) sampleAddress (fun _ => sampleStore)
    (sampleHeard_reached.encrypt .responder [2] ⟨trivial, by show _ < _; decide⟩)

end Osp.Signal
