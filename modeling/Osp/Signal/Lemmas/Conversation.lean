import Osp.Signal.Conversation
import Osp.Signal.Lemmas.Ratcheting

/-!
# The invariant of a conversation

Both stores hold a session that represents a party of the double ratchet, the two parties are where one history has them, and
every message that was sent is the message of some position of some epoch. What a receiver no longer has open is in the lists of
the conversation.
-/

namespace Osp.Signal

open Osp.Lib Osp.Lib.DoubleRatchet SessionState Conversation List Function

variable {ctx : Context}

/-! ## Stores with one session -/

/-- The store has a session with the address, with one state. -/
def Store.Holds (store : Store ctx) (address : Address) (state : SessionState) : Prop :=
  store.containsSession address = true ∧ ∃ fresh, store.loadSession address = .ok ⟨state, [], fresh⟩

variable {store : Store ctx} {address : Address} {state : SessionState}

theorem Store.holds_storeSession (hk : ctx.storage.Inverse) (hs : state.Storable) (fresh : Bool) :
    (store.storeSession address ⟨state, [], fresh⟩).Holds address state := by
  have hrecord : SessionRecord.Storable ⟨state, [], fresh⟩ := by
    intro s hmem
    obtain rfl := mem_singleton.1 hmem
    exact hs
  refine ⟨by simp [Store.containsSession, Store.storeSession], false, ?_⟩
  simp only [Store.loadSession, Store.storeSession, update_self]
  exact hrecord.deserialize hk

theorem Store.Holds.sessionState (h : store.Holds address state) : store.sessionState address = state := by
  obtain ⟨-, fresh, hload⟩ := h
  rw [Store.sessionState, hload]

/-- Encrypting in a store with one state encrypts in that state. -/
theorem Store.Holds.encrypt (h : store.Holds address state) (plaintext : Bytes) :
    match encryptWithState ctx state plaintext with
    | .error code => sessionCipherEncrypt ctx ⟨address, none, false⟩ store plaintext = (.error code, store)
    | .ok (message, state') => ∃ fresh, sessionCipherEncrypt ctx ⟨address, none, false⟩ store plaintext =
        (.ok message, store.storeSession address ⟨state', [], fresh⟩) := by
  obtain ⟨-, fresh, hload⟩ := h
  simp only [sessionCipherEncrypt, hload, Bool.false_eq_true, if_false]
  cases encryptWithState ctx state plaintext with
  | error code => rfl
  | ok result => exact ⟨fresh, rfl⟩

/-- Decrypting in a store with one state decrypts in that state; when that fails nothing changes. -/
theorem Store.Holds.decrypt (h : store.Holds address state) (hk : ctx.storage.Inverse) (hs : state.Storable)
    (random : EcPrivateKey) (message : SignalMessage) :
    let result := sessionCipherDecryptSignalMessage ctx ⟨address, none, false⟩ (fun _ => random) store message
    match decryptFromState ctx random state message with
    | (.error code, _) => result = (.error code, store)
    | (.ok plaintext, state') => ∃ fresh, result = (.ok plaintext, store.storeSession address ⟨state', [], fresh⟩) := by
  obtain ⟨hcontains, fresh, hload⟩ := h
  simp only [sessionCipherDecryptSignalMessage, hcontains, hload, decryptFromRecord, hs.copy hk, Bool.false_eq_true, if_false,
    Bool.not_true]
  obtain ⟨result, state'⟩ := decryptFromState ctx random state message
  cases result with
  | error code =>
    by_cases hcode : code = sgErrInvalidMessage
    · subst hcode
      rfl
    · simp only [ne_eq, hcode, not_false_eq_true, if_true]
  | ok plaintext => exact ⟨fresh, rfl⟩

/-! ## The skipped keys of a state -/

theorem Represents.heldKeys_eq {party : SessionParty} (hp : ctx.crypto.Lawful) (h : Represents ctx.crypto state party) :
    state.heldKeys = party.stored hp.suite := by
  rw [SessionState.heldKeys, h.receiverChains, Party.stored, flatMap_map]
  rfl

/-! ## The invariant -/

/-- The message of a position: made with its keys, from its text. -/
def Made (ctx : Context) (ratchetKey : EcPublicKey) (keys : RatchetMessageKeys) (sender receiver : EcPublicKey)
    (message : SignalMessage) (plaintext : Bytes) : Prop :=
  ∃ ciphertext previousCounter, getCiphertext ctx ciphertextCurrentVersion keys plaintext = .ok ciphertext ∧
    message = messageWith ctx ratchetKey keys previousCounter ciphertext sender receiver

/-- What a conversation is described by: a history, the two parties, and the messages of the epochs. -/
structure Account where
  history : History EcPrivateKey RatchetRootKey RatchetChainKey
  party : Side → SessionParty
  log : Nat → List (SignalMessage × Bytes)

/-- The position is used up: its message has been received, or its key was evicted. -/
def Account.Gone (a : Account) (w : Conversation ctx) (e q : Nat) : Prop :=
  (∃ entry, (a.log e)[q]? = some entry ∧ ((owner e).other, entry.1) ∈ w.received) ∨
  (ctx.crypto.publicKey (a.history.key e), UInt32.ofNat q) ∈ w.evictedKeys (owner e).other

/-- The account describes the conversation between the two identities. -/
structure Account.Valid (hp : ctx.crypto.Lawful) (address : Side → Address) (identity : Side → EcPublicKey) (a : Account)
    (w : Conversation ctx) : Prop where
  session : ∀ x, ∃ state, (w.store x).Holds (address x) state ∧
    Live ctx.crypto (identity x) (identity x.other) state (a.party x)
  describes : Describes (ratchetSuite ctx.crypto hp) maxReceiverChains a.history a.party
  length_log : ∀ e, (a.log e).length = a.history.sent e
  sent_lt : ∀ e, a.history.sent e < 2 ^ 32
  made : ∀ e q entry, (a.log e)[q]? = some entry →
    Made ctx (ctx.crypto.publicKey (a.history.key e)) (a.history.material (ratchetSuite ctx.crypto hp) e q)
      (identity (owner e)) (identity (owner e).other) entry.1 entry.2
  sent : ∀ x message plaintext, (x, message, plaintext) ∈ w.sent →
    ∃ e q : Nat, (a.log e)[q]? = some (message, plaintext) ∧ owner e = x
  generated : ∀ i ≤ a.history.turns + 1, ctx.crypto.publicKey (a.history.key i) ∈ w.generated
  accounted : Accounted (ratchetSuite ctx.crypto hp) maxReceiverChains a.history
    (fun x ratchetKey => ratchetKey ∈ w.evictedChains x) (a.Gone w)

variable {hp : ctx.crypto.Lawful} {address : Side → Address} {identity : Side → EcPublicKey} {a : Account}
  {w : Conversation ctx} {x : Side} {message : SignalMessage} {plaintext : Bytes} {random : EcPrivateKey}

namespace Account

theorem mem_update_append {α : Type} {f : Side → List α} {l : List α} {k : α} {y : Side} (hin : k ∈ f y) :
    k ∈ Function.update f x (l ++ f x) y := by
  by_cases hy : y = x
  · subst hy
    rw [update_self]
    exact mem_append_right _ hin
  · rwa [update_of_ne hy]

/-- A message that is added to the log of an epoch stands at the end of it. -/
theorem getElem_log_update {log : Nat → List (SignalMessage × Bytes)} {e i q : Nat} {new entry : SignalMessage × Bytes} :
    (Function.update log e (log e ++ [new]) i)[q]? = some entry ↔
      (log i)[q]? = some entry ∨ i = e ∧ q = (log e).length ∧ entry = new := by
  by_cases hi : i = e
  · subst hi
    rw [update_self, List.getElem?_append]
    by_cases hq : q < (log i).length
    · rw [if_pos hq]
      exact ⟨.inl, fun h => h.elim id fun h => absurd h.2.1 (by omega)⟩
    · rw [if_neg hq, List.getElem?_singleton]
      have hnone : (log i)[q]? = none := List.getElem?_eq_none (Nat.le_of_not_lt hq)
      rw [hnone]
      constructor
      · intro h
        split at h
        · exact .inr ⟨rfl, by omega, (Option.some.inj h).symm⟩
        · cases h
      · rintro (h | ⟨-, rfl, rfl⟩)
        · cases h
        · simp
  · rw [update_of_ne hi]
    exact ⟨.inl, fun h => h.elim id fun h => absurd h.1 hi⟩

/-- The account after a message was decrypted. -/
def after (hp : ctx.crypto.Lawful) (a : Account) (x : Side) (e : Nat) (random : EcPrivateKey) (window : Window) : Account where
  history := (a.history.met x e random).receiving e window
  party := Function.update a.party x
    (((a.party x).meet (ratchetSuite ctx.crypto hp) maxReceiverChains random
      (ctx.crypto.publicKey (a.history.key e))).put (ctx.crypto.publicKey (a.history.key e))
        (window.map (a.history.chainKey (ratchetSuite ctx.crypto hp) e) (a.history.material (ratchetSuite ctx.crypto hp) e)))
  log := a.log

namespace Valid

variable {e q : Nat} {entry : SignalMessage × Bytes} {window : Window}

section

variable (hv : a.Valid hp address identity w)

include hv

theorem lt_sent (h : (a.log e)[q]? = some entry) : q < a.history.sent e := by
  rw [← hv.length_log]
  exact (List.getElem?_eq_some_iff.1 h).1

theorem epoch_le (h : (a.log e)[q]? = some entry) : e ≤ a.history.turns + 1 := by
  by_contra hlt
  have := hv.lt_sent h
  rw [hv.describes.unsent e (by omega)] at this
  omega

omit hv in
theorem state_eq (hholds : (w.store x).Holds (address x) state) : w.state address x = state := hholds.sessionState

/-- The index of a sender chain is the number of messages of its epoch. -/
theorem senderIndex (hholds : (w.store x).Holds (address x) state)
    (hlive : Live ctx.crypto (identity x) (identity x.other) state (a.party x)) :
    (w.state address x).senderIndex.toNat = a.history.sent (a.history.epoch x) := by
  have hfollows := follows hv.describes.index (a.history.epoch x)
  rw [state_eq hholds, SessionState.senderIndex, hlive.represents.getSenderChainKey, (hv.describes.at_epoch x).send]
  have hindex := hfollows.index (a.history.sent (a.history.epoch x)) (Nat.zero_le _)
  exact (congrArg UInt32.toNat hindex).trans (UInt32.toNat_ofNat_of_lt' (hv.sent_lt _))

/-- A text that is encrypted becomes the next message of its sender's epoch. -/
theorem encrypted (hk : ctx.storage.Inverse)
    (hreg : w.Regular address (.encrypt x plaintext)) :
    ∃ a' : Account, a'.Valid hp address identity (w.encrypted address x plaintext) := by
  obtain ⟨state, hholds, hlive⟩ := hv.session x
  have hst := hholds.encrypt plaintext
  have henc := hlive.encrypt plaintext
  cases hct : getCiphertext ctx ciphertextCurrentVersion ((a.party x).send.getMessageKeys ctx.crypto) plaintext with
  | error code =>
    rw [hct] at henc
    rw [henc] at hst
    refine ⟨a, ?_⟩
    have hw : w.encrypted address x plaintext = w := by
      simp only [Conversation.encrypted, cipher, hst, update_eq_self]
    rwa [hw]
  | ok ciphertext =>
    rw [hct] at henc
    obtain ⟨state', henc, hlive'⟩ := henc
    rw [henc] at hst
    obtain ⟨fresh, hst⟩ := hst
    have howner : owner (a.history.epoch x) = x := owner_epoch x
    have hat := hv.describes.at_epoch x
    obtain ⟨hkeys, hdesc⟩ := hv.describes.sending x
    have hkeys' : (a.party x).send.getMessageKeys ctx.crypto =
        a.history.material hp.suite (a.history.epoch x) (a.history.sent (a.history.epoch x)) := hkeys
    have hindex := hv.senderIndex hholds hlive
    have hreg' : (w.state address x).senderIndex.toNat + 1 < 2 ^ 32 := hreg
    rw [hindex] at hreg'
    have hw : w.encrypted address x plaintext = { w with
        store := Function.update w.store x ((w.store x).storeSession (address x) ⟨state', [], fresh⟩)
        sent := (x, messageWith ctx (ctx.crypto.publicKey (a.party x).own) ((a.party x).send.getMessageKeys ctx.crypto)
          state.previousCounter ciphertext (identity x) (identity x.other), plaintext) :: w.sent } := by
      simp only [Conversation.encrypted, cipher, hst]
    rw [hw]
    refine ⟨⟨a.history.sending (a.history.epoch x), Function.update a.party x
      { a.party x with send := (a.party x).send.createNext ctx.crypto }, Function.update a.log (a.history.epoch x)
        (a.log (a.history.epoch x) ++ [(messageWith ctx (ctx.crypto.publicKey (a.party x).own)
          ((a.party x).send.getMessageKeys ctx.crypto) state.previousCounter ciphertext (identity x) (identity x.other),
          plaintext)])⟩, ?_, hdesc, fun e => ?_, fun e => ?_, ?_, ?_, hv.generated, ?_⟩
    · intro y
      by_cases hy : y = x
      · subst hy
        simp only [update_self]
        exact ⟨state', Store.holds_storeSession hk hlive'.storable fresh, hlive'⟩
      · simp only [update_of_ne hy]
        exact hv.session y
    · by_cases he : e = a.history.epoch x
      · subst he
        simp [History.sending, hv.length_log]
      · simp [History.sending, update_of_ne he, hv.length_log]
    · by_cases he : e = a.history.epoch x
      · subst he
        simpa [History.sending] using hreg'
      · simpa [History.sending, update_of_ne he] using hv.sent_lt e
    · intro e q entry hentry
      rw [material_sending]
      rcases getElem_log_update.1 hentry with hold | ⟨rfl, rfl, rfl⟩
      · exact hv.made e q entry hold
      · rw [howner, hv.length_log, ← hkeys']
        exact ⟨ciphertext, state.previousCounter, hct, by rw [hat.own]; rfl⟩
    · intro y m t hmem
      rcases mem_cons.1 hmem with heq | hmem
      · cases heq
        exact ⟨_, _, getElem_log_update.2 (.inr ⟨rfl, rfl, rfl⟩), howner⟩
      · obtain ⟨e, q, hlog, ho⟩ := hv.sent y m t hmem
        exact ⟨e, q, getElem_log_update.2 (.inl hlog), ho⟩
    · refine hv.accounted.sending _ fun i q _ hgone => hgone.imp_left ?_
      rintro ⟨entry, hentry, hrec⟩
      exact ⟨entry, getElem_log_update.2 (.inl hentry), hrec⟩

/-! ## Delivery -/

section

variable (hlog : (a.log e)[q]? = some (message, plaintext))

include hlog

/-- A message of the log names the key of its epoch and its place in it. -/
theorem message_eq :
    message.senderRatchetKey = ctx.crypto.publicKey (a.history.key e) ∧ message.counter = UInt32.ofNat q ∧
    message.messageVersion.toUInt32 = ciphertextCurrentVersion ∧
    (a.history.material hp.suite e q).counter = UInt32.ofNat q := by
  obtain ⟨ciphertext, previousCounter, -, hm⟩ := hv.made e q _ hlog
  have hcounter : (a.history.material hp.suite e q).counter = UInt32.ofNat q :=
    (follows hv.describes.index e).counter (Nat.zero_le q)
  simp only at hm
  rw [hm]
  exact ⟨rfl, hcounter, rfl, hcounter⟩

/-- A message of the epoch that is still to be heard needs a new key. -/
theorem needsKey
    (ho : owner e = x.other) (hh : e ∉ heard (a.history.epoch x)) : w.needsKey address x message = true := by
  obtain ⟨state, hholds, hlive⟩ := hv.session x
  obtain ⟨rfl, hx⟩ := (heard_or_new (hv.epoch_le hlog) ho).resolve_left hh
  have hnone := find_new hv.describes hx
  rw [Conversation.needsKey, state_eq hholds, (hv.message_eq hlog).1, hlive.represents.getReceiverChainKey]
  exact (congrArg (fun r => (r.map Receiver.key).isNone) hnone).trans rfl

/-- A message whose chain was not evicted is admitted, with a new key if it needs one. -/
theorem admits
    (ho : owner e = x.other) (hev : message.senderRatchetKey ∉ w.evictedChains x)
    (hfresh : w.needsKey address x message → ctx.crypto.publicKey random ∉ w.generated) :
    Admits hp.suite maxReceiverChains a.history x e random := by
  have hkey := (hv.message_eq hlog).1
  refine ⟨hv.epoch_le hlog, ho, fun hh => ?_, fun hh i hi heq => ?_⟩
  · refine (hv.accounted.chain x e hh).resolve_right fun hlost => hev ?_
    rw [hkey]
    exact hlost
  · have heq' : ctx.crypto.publicKey (a.history.key i) = ctx.crypto.publicKey random := heq
    exact hfresh (hv.needsKey hlog ho hh) (heq' ▸ hv.generated i hi)

/-- A message is decrypted when the window of its epoch gives its position. -/
theorem decrypt_ok (hk : ctx.storage.Inverse)
    (ha : Admits hp.suite maxReceiverChains a.history x e random)
    (htake : Receiver.take positions maxMessageKeys 2000 (a.history.window e) (UInt32.ofNat q) =
      .ok (q, window)) :
    ∃ state' fresh, w.decrypt address x message random =
        (.ok plaintext, (w.store x).storeSession (address x) ⟨state', [], fresh⟩) ∧
      Live ctx.crypto (identity x) (identity x.other) state' ((a.after hp x e random window).party x) := by
  obtain ⟨state, hholds, hlive⟩ := hv.session x
  obtain ⟨ciphertext, previousCounter, hct, hm⟩ := hv.made e q _ hlog
  have hcounter := (hv.message_eq hlog).2.2.2
  have hdel := hv.describes.deliver_eq (by decide) ha maxMessageKeys 2000 (UInt32.ofNat q)
  rw [htake, ← hcounter] at hdel
  obtain ⟨state', hdec, hlive'⟩ := hlive.decrypt previousCounter hdel hct
  have hm' : message = messageWith ctx (hp.suite.pub (a.history.key e))
      (a.history.material hp.suite e q) previousCounter ciphertext (identity x.other) (identity x) := by
    rw [ha.owner, Side.other_other] at hm
    exact hm
  have hst := hholds.decrypt hk hlive.storable random message
  rw [hm', hdec, ← hm'] at hst
  obtain ⟨fresh, hst⟩ := hst
  exact ⟨state', fresh, hst, by simp only [after, update_self]; exact hlive'⟩

/-- A message is rejected when the window of its epoch refuses its position. -/
theorem decrypt_error
    (ha : Admits hp.suite maxReceiverChains a.history x e random) {refusal : Refusal}
    (htake : Receiver.take positions maxMessageKeys 2000 (a.history.window e) (UInt32.ofNat q) =
      .error refusal)
    (hlive : Live ctx.crypto (identity x) (identity x.other) state (a.party x)) :
    (decryptFromState ctx random state message).1 = .error (refusalCode refusal) := by
  obtain ⟨hkey, hcounter, hversion, -⟩ := hv.message_eq hlog
  have hdel := hv.describes.deliver_eq (by decide) ha maxMessageKeys 2000 (UInt32.ofNat q)
  rw [htake] at hdel
  have hkeys := messageKeysFor_represents hp hlive.represents random (hp.suite.pub (a.history.key e)) (UInt32.ofNat q)
  rw [hdel] at hkeys
  obtain ⟨state', hcall⟩ := hkeys
  have hsender : state.senderChain.isSome := by rw [hlive.represents.senderChain]; rfl
  rw [decryptFromState_of_error hsender (hversion.trans hlive.sessionVersion.symm) (by rw [hkey, hcounter]; exact hcall)]

end

/-- A message that is rejected changes nothing but the keys that were generated. -/
theorem delivered_of_error {code : Int}
    (h : (w.decrypt address x message random).1 = .error code) :
    a.Valid hp address identity (w.delivered address x message random) := by
  have hstore : (w.decrypt address x message random).2 = w.store x := sessionCipherDecryptSignalMessage_error h
  have hw : w.delivered address x message random = { w with
      generated := if w.needsKey address x message then ctx.crypto.publicKey random :: w.generated else w.generated } := by
    have hafter : (w.store x).sessionState (address x) = w.state address x := rfl
    have hchains : (w.state address x).heldChains.filter (· ∉ (w.state address x).heldChains) = [] := by simp
    have hkeys : (w.state address x).heldKeys.filter (fun k => k ∉ (w.state address x).heldKeys ∧
        k ≠ (message.senderRatchetKey, message.counter)) = [] := by
      simp only [filter_eq_nil_iff, decide_eq_true_eq]
      exact fun k hk hnot => hnot.1 hk
    simp only [delivered, h, hstore, hafter, hchains, hkeys, nil_append, update_eq_self]
  rw [hw]
  refine ⟨hv.session, hv.describes, hv.length_log, hv.sent_lt, hv.made, hv.sent, fun i hi => ?_, hv.accounted⟩
  split
  · exact mem_cons_of_mem _ (hv.generated i hi)
  · exact hv.generated i hi

theorem key_lt (e : Nat) : (a.history.window e).key < 2 ^ 32 :=
  Nat.lt_of_le_of_lt (hv.describes.window_le e) (hv.sent_lt e)

section

variable (hk : ctx.storage.Inverse) {state' : SessionState} {fresh : Bool}
  (hdec : w.decrypt address x message random = (.ok plaintext, (w.store x).storeSession (address x) ⟨state', [], fresh⟩))
  (hlive' : Live ctx.crypto (identity x) (identity x.other) state' ((a.after hp x e random window).party x))

include hk hdec hlive'

/-- What the lists of a conversation say of a message that was decrypted. -/
theorem delivered_eq : w.delivered address x message random = { w with
      store := Function.update w.store x ((w.store x).storeSession (address x) ⟨state', [], fresh⟩)
      received := (x, message) :: w.received
      evictedChains := Function.update w.evictedChains x
        ((a.party x).keys.filter (· ∉ ((a.after hp x e random window).party x).keys) ++ w.evictedChains x)
      evictedKeys := Function.update w.evictedKeys x
        (((a.party x).stored hp.suite).filter (fun k =>
          k ∉ ((a.after hp x e random window).party x).stored hp.suite ∧
            k ≠ (message.senderRatchetKey, message.counter)) ++ w.evictedKeys x)
      generated := if w.needsKey address x message then ctx.crypto.publicKey random :: w.generated else w.generated } := by
  obtain ⟨state, hholds, hlive⟩ := hv.session x
  have hafter : ((w.store x).storeSession (address x) ⟨state', [], fresh⟩).sessionState (address x) = state' :=
    (Store.holds_storeSession hk hlive'.storable fresh).sessionState
  simp only [delivered, hdec, hafter, state_eq hholds, SessionState.heldChains, hlive.represents.heldChains_eq,
    hlive'.represents.heldChains_eq, hlive.represents.heldKeys_eq hp, hlive'.represents.heldKeys_eq hp]

/-- A message that is decrypted uses up its position. -/
theorem accounted_after (hlog : (a.log e)[q]? = some (message, plaintext))
    (ha : Admits hp.suite maxReceiverChains a.history x e random) (hg : (a.history.window e).Gave q window) :
    Accounted hp.suite maxReceiverChains (a.after hp x e random window).history
      (fun y ratchetKey => ratchetKey ∈ (w.delivered address x message random).evictedChains y)
      ((a.after hp x e random window).Gone (w.delivered address x message random)) := by
  rw [hv.delivered_eq hk hdec hlive']
  have hother : (owner e).other = x := by rw [ha.owner, Side.other_other]
  have hdesc := hv.describes.delivered (by decide) ha hg (hv.lt_sent hlog)
  have hl := later_met (S := hp.suite) (h := a.history) x e random
  have hmet : Accounted hp.suite maxReceiverChains (a.history.met x e random) (fun y ratchetKey => ratchetKey ∈ Function.update
      w.evictedChains x ((a.party x).keys.filter (· ∉ ((a.after hp x e random window).party x).keys) ++ w.evictedChains x) y)
      (a.Gone w) := by
    refine hv.accounted.met hv.describes (by decide) ha (fun y A hin => mem_update_append hin) fun A hin hout => ?_
    · -- the keys a party holds are not changed by the use of one of its chains
      simp only [update_self, after, Party.keys_put]
      exact mem_append_left _ (mem_filter.2 ⟨hin, decide_eq_true hout⟩)
  refine hmet.receiving (by rwa [window_met]) (fun i r hlt hgone => ?_) ?_ fun r hin hout hne => ?_
  · -- a position that was gone before is gone still; its epoch is one that has been heard
    rw [window_met] at hlt
    have hi : i ≤ a.history.turns + 1 := by
      by_contra hlt'
      rw [hv.describes.unheard i (by omega)] at hlt
      exact Nat.not_lt_zero _ hlt
    refine hgone.imp ?_ fun hin => ?_
    · rintro ⟨entry, hentry, hrec⟩
      exact ⟨entry, hentry, mem_cons_of_mem _ hrec⟩
    · have hkey : (a.after hp x e random window).history.key i = a.history.key i := hl.key i hi
      rw [hkey]
      exact mem_update_append hin
  · exact .inl ⟨(message, plaintext), hlog, by rw [hother]; exact mem_cons_self⟩
  · -- a stored position that is neither stored any more nor the one that was used has been evicted
    rw [window_met] at hin
    have hrlt : r < 2 ^ 32 := Nat.lt_trans ((hv.describes.ordered e).lt r hin) (hv.key_lt e)
    have hkept : e ∈ lastN maxReceiverChains (heard (a.history.epoch x)) := by
      rcases heard_or_new ha.le ha.owner with hh | ⟨rfl, hx⟩
      · exact ha.kept hh
      · rw [hv.describes.unheard _ (by omega)] at hin
        cases hin
    have hkey : (a.after hp x e random window).history.key e = a.history.key e := hl.key e ha.le
    right
    simp only [hother, update_self, hkey]
    refine mem_append_left _ (mem_filter.2 ⟨?_, ?_⟩)
    · exact (mem_stored hv.describes ha.le (hv.sent_lt e) hrlt).2 ⟨hkept, hin⟩
    · obtain ⟨hm, hc, -⟩ := hv.message_eq hlog
      rw [decide_eq_true_eq, hm, hc]
      refine ⟨fun hstored => hout ?_, fun heq => hne ?_⟩
      · have hmem := (mem_stored (x := x) (i := e) (q := r) hdesc
          (Nat.le_trans ha.le (Nat.succ_le_succ hl.turns)) (by simpa [History.receiving] using hv.sent_lt e) hrlt).1
        rw [show ((a.history.met x e random).receiving e window).key e = a.history.key e from hkey] at hmem
        simpa [History.receiving] using (hmem hstored).2
      · have hnat := congrArg (fun k => k.2.toNat) heq
        rwa [UInt32.toNat_ofNat_of_lt' hrlt,
          UInt32.toNat_ofNat_of_lt' (Nat.lt_trans (hv.lt_sent hlog) (hv.sent_lt e))] at hnat

end

/-- A message that is decrypted leaves a conversation that is described again. -/
theorem delivered_of_ok (hk : ctx.storage.Inverse) (hlog : (a.log e)[q]? = some (message, plaintext))
    (ha : Admits hp.suite maxReceiverChains a.history x e random)
    (htake : Receiver.take positions maxMessageKeys 2000 (a.history.window e) (UInt32.ofNat q) =
      .ok (q, window)) :
    (a.after hp x e random window).Valid hp address identity (w.delivered address x message random) := by
  obtain ⟨state', fresh, hdec, hlive'⟩ := hv.decrypt_ok hlog hk ha htake
  have hg : (a.history.window e).Gave q window := Window.take_gave (hv.describes.ordered e) (by decide) htake
  have hl := later_met (S := hp.suite) (h := a.history) x e random
  have hsent : (a.after hp x e random window).history.sent = a.history.sent := sent_met
  have haccounted := hv.accounted_after hk hdec hlive' hlog ha hg
  rw [hv.delivered_eq hk hdec hlive'] at haccounted ⊢
  refine ⟨fun y => ?_, hv.describes.delivered (by decide) ha hg (hv.lt_sent hlog), fun i => ?_, fun i => ?_,
    fun i r entry hentry => ?_, hv.sent, fun i hi => ?_, haccounted⟩
  · by_cases hy : y = x
    · subst hy
      simp only [update_self]
      exact ⟨state', Store.holds_storeSession hk hlive'.storable fresh, hlive'⟩
    · simp only [after, update_of_ne hy]
      exact hv.session y
  · rw [hsent]
    exact hv.length_log i
  · rw [hsent]
    exact hv.sent_lt i
  · have hi := hv.epoch_le hentry
    have hkey : (a.after hp x e random window).history.key i = a.history.key i := hl.key i hi
    have hmaterial : (a.after hp x e random window).history.material hp.suite i =
        a.history.material hp.suite i := by
      rw [after, material_receiving, hl.material hi]
    rw [hkey, hmaterial]
    exact hv.made i r entry hentry
  · have hold : ∀ j ≤ a.history.turns + 1, ctx.crypto.publicKey ((a.after hp x e random window).history.key j) ∈ w.generated :=
      fun j hj => by
        rw [show (a.after hp x e random window).history.key j = a.history.key j from hl.key j hj]
        exact hv.generated j hj
    by_cases hh : e ∈ heard (a.history.epoch x)
    · have hturns : (a.after hp x e random window).history.turns = a.history.turns := by
        simp only [after, History.receiving, History.met, if_pos hh]
      split
      · exact mem_cons_of_mem _ (hold i (hturns ▸ hi))
      · exact hold i (hturns ▸ hi)
    · rw [if_pos (hv.needsKey hlog ha.owner hh)]
      have hhist : (a.after hp x e random window).history = (a.history.turned random).receiving e window := by
        simp only [after, History.met, if_neg hh]
      by_cases hnew : i = a.history.turns + 2
      · rw [hhist, hnew, show ((a.history.turned random).receiving e window).key (a.history.turns + 2) = random from
          update_self ..]
        exact mem_cons_self
      · rw [hhist] at hi
        have hi' : i ≤ a.history.turns + 1 + 1 := hi
        exact mem_cons_of_mem _ (hold i (by omega))

/-- A message that is delivered leaves a conversation that is described again. -/
theorem delivered (hk : ctx.storage.Inverse)
    (hhonest : w.Honest address (.deliver x message random)) (hreg : w.Regular address (.deliver x message random)) :
    ∃ a' : Account, a'.Valid hp address identity (w.delivered address x message random) := by
  obtain ⟨⟨plaintext, hsent⟩, hfresh⟩ := hhonest
  obtain ⟨e, q, hlog, ho⟩ := hv.sent _ _ _ hsent
  by_cases hev : message.senderRatchetKey ∈ w.evictedChains x
  · obtain ⟨code, hcode⟩ := hreg hev
    exact ⟨a, hv.delivered_of_error hcode⟩
  · have ha := hv.admits hlog ho hev hfresh
    cases htake : Receiver.take positions maxMessageKeys 2000 (a.history.window e) (UInt32.ofNat q) with
    | error refusal =>
      obtain ⟨state, hholds, hlive⟩ := hv.session x
      have hcode := hv.decrypt_error hlog ha htake hlive
      have hst := hholds.decrypt hk hlive.storable random message
      have hdec : (w.decrypt address x message random).1 = .error (refusalCode refusal) := by
        cases hres : decryptFromState ctx random state message with
        | mk result state' =>
          rw [hres] at hst hcode
          subst hcode
          exact congrArg Prod.fst hst
      exact ⟨a, hv.delivered_of_error hdec⟩
    | ok given =>
      obtain rfl := Window.take_position (hv.describes.ordered e) (hv.key_lt e)
        (Nat.lt_trans (hv.lt_sent hlog) (hv.sent_lt e)) htake
      exact ⟨_, hv.delivered_of_ok hk hlog ha htake⟩

/-- The index of a receiver chain is the place up to which its window has come. -/
theorem receiverIndex {e : Nat}
    (ha : Admits hp.suite maxReceiverChains a.history x e random) :
    ((w.state address x).receiverIndex (ctx.crypto.publicKey (a.history.key e))).toNat = (a.history.window e).key := by
  obtain ⟨state, hholds, hlive⟩ := hv.session x
  rw [state_eq hholds, SessionState.receiverIndex, hlive.represents.getReceiverChainKey]
  rcases heard_or_new ha.le ha.owner with hh | ⟨rfl, hx⟩
  · have hfind : (a.party x).find (ctx.crypto.publicKey (a.history.key e)) = some (a.history.receiver _ e) :=
      find_heard hv.describes (ha.kept hh)
    have hindex := (follows hv.describes.index e).index (a.history.window e).key (Nat.zero_le _)
    rw [hfind, Option.map_some, Option.map_some, Option.getD_some]
    exact (congrArg UInt32.toNat hindex).trans (UInt32.toNat_ofNat_of_lt' (hv.key_lt e))
  · have hfind : (a.party x).find (ctx.crypto.publicKey (a.history.key (a.history.turns + 1))) = none :=
      find_new hv.describes hx
    rw [hfind, hv.describes.unheard _ (Nat.lt_succ_self _)]
    rfl

/-- A message that was not received before and that nothing was evicted of is decrypted, if it is not too far ahead. -/
theorem decrypt_first (hk : ctx.storage.Inverse)
    (hsent : (x.other, message, plaintext) ∈ w.sent) (hfirst : (x, message) ∉ w.received)
    (hchain : message.senderRatchetKey ∉ w.evictedChains x)
    (hkey : (message.senderRatchetKey, message.counter) ∉ w.evictedKeys x)
    (hahead : message.counter.toNat ≤ ((w.state address x).receiverIndex message.senderRatchetKey).toNat + 2000)
    (hfresh : w.needsKey address x message → ctx.crypto.publicKey random ∉ w.generated) :
    (w.decrypt address x message random).1 = .ok plaintext := by
  obtain ⟨e, q, hlog, ho⟩ := hv.sent _ _ _ hsent
  obtain ⟨hm, hc, -⟩ := hv.message_eq hlog
  have ha := hv.admits hlog ho hchain hfresh
  have hq : q < 2 ^ 32 := Nat.lt_trans (hv.lt_sent hlog) (hv.sent_lt e)
  have hopen : (a.history.window e).Open q := by
    refine hv.accounted.open ?_
    rintro (⟨entry, hentry, hrec⟩ | hev)
    · obtain rfl : (message, plaintext) = entry := Option.some.inj (hlog.symm.trans hentry)
      rw [ho, Side.other_other] at hrec
      exact hfirst hrec
    · rw [ho, Side.other_other, ← hm, ← hc] at hev
      exact hkey hev
  have hle : q ≤ (a.history.window e).key + 2000 := by
    rwa [hm, hv.receiverIndex ha, hc, UInt32.toNat_ofNat_of_lt' hq] at hahead
  obtain ⟨window, htake⟩ := Window.take_of_open (hv.describes.ordered e) (hv.key_lt e) hq hopen hle
  obtain ⟨state', fresh, hdec, -⟩ := hv.decrypt_ok hlog hk ha htake
  rw [hdec]

/-- No message has the ratchet key and the counter of the next message of a party. -/
theorem label_ne (x : Side) {y : Side} (hsent : (y, message, plaintext) ∈ w.sent) :
    (message.senderRatchetKey, message.counter) ≠
      (ctx.crypto.publicKey (a.party x).own, ((a.party x).send.getMessageKeys ctx.crypto).counter) := by
  intro heq
  obtain ⟨e, q, hlog, -⟩ := hv.sent _ _ _ hsent
  obtain ⟨hkey, hcounter, -⟩ := hv.message_eq hlog
  have hkeys : (a.party x).send.getMessageKeys ctx.crypto = _ := (hv.describes.sending x).1
  have hnext := (follows hv.describes.index (a.history.epoch x)).counter (Nat.zero_le (a.history.sent (a.history.epoch x)))
  rw [hkeys, (hv.describes.at_epoch x).own] at heq
  obtain ⟨heq, hcount⟩ := Prod.mk.inj heq
  -- the ratchet keys of the epochs differ, so the message is of the epoch that the party sends in
  obtain rfl := hv.describes.inj e (hv.epoch_le hlog) _ (DoubleRatchet.epoch_le x) (hkey.symm.trans heq)
  have hlt := hv.lt_sent hlog
  have := eq_of_ofNat_eq (hlt.trans (hv.sent_lt _)) (hv.sent_lt _) (hcounter.symm.trans (hcount.trans hnext))
  omega

end

/-- The invariant of a run. -/
theorem reaches (hk : ctx.storage.Inverse) {w₀ : Conversation ctx} {a₀ : Account} (hv : a₀.Valid hp address identity w₀)
    (h : Conversation.Reaches address (fun w event => w.Honest address event ∧ w.Regular address event) w₀ w) :
    ∃ a : Account, a.Valid hp address identity w := by
  induction h with
  | refl => exact ⟨a₀, hv⟩
  | @step w₁ event _ hok ih =>
    obtain ⟨a, hv⟩ := ih
    cases event with
    | encrypt x plaintext => exact hv.encrypted hk hok.2
    | deliver x message random => exact hv.delivered hk hok.1 hok.2

end Valid

end Account

end Osp.Signal
