import Osp.Signal.Attempts
import Osp.Signal.Lemmas.SessionCipher

/-!
# What an attempt does to a receiver chain

An attempt leaves the receiver chain for a ratchet key alone, or makes it, or takes message keys from it. While the chain is
retained, a run is therefore a sequence of counters asked from one `Receiver`.
-/

namespace Osp.Signal

open Osp.Lib SessionState ReceiverChain Attempt Option

variable {ctx : Context} {state state' : SessionState} {e their : EcPublicKey} {random : EcPrivateKey} {counter : UInt32}
  {r : Receiver RatchetChainKey RatchetMessageKeys} {a : Attempt}

/-! ## The chain for a ratchet key -/

theorem receiver_congr (h : state'.receiverChains = state.receiverChains) : state'.receiver e = state.receiver e := by
  rw [receiver, receiver, findReceiverChain, h, ← findReceiverChain]

theorem receiver_eq_some (h : state.receiver e = some r) :
    ∃ chain, state.findReceiverChain e = some chain ∧ chain.chainKey = some r.key ∧ chain.messageKeys = r.stored := by
  obtain ⟨chain, hfind, h⟩ := bind_eq_some_iff.1 h
  obtain ⟨chainKey, hkey, rfl⟩ := map_eq_some_iff.1 h
  exact ⟨chain, hfind, hkey, rfl⟩

theorem receiver_of_find {chain : ReceiverChain} {chainKey : RatchetChainKey} (hfind : state.findReceiverChain e = some chain)
    (hkey : chain.chainKey = some chainKey) : state.receiver e = some ⟨chainKey, chain.messageKeys⟩ := by
  rw [receiver, hfind, bind_some, hkey, map_some]

variable {p : CryptoProvider} {attempts : List Attempt} {used : Option RatchetMessageKeys}
  {r' : Receiver RatchetChainKey RatchetMessageKeys} {P : SessionState → Attempt → Prop}

theorem receiver_updateReceiverChain_hold (h : (state.findReceiverChain e).isSome) :
    (state.updateReceiverChain e (hold r')).receiver e = some r' := by
  obtain ⟨chain, hfind⟩ := isSome_iff_exists.1 h
  rw [receiver, find_updateReceiverChain (senderRatchetKey_hold r'), hfind]
  rfl

theorem getReceiverChainKey_eq (h : state.receiver e = some r) : state.getReceiverChainKey e = some r.key := by
  obtain ⟨chain, hfind, hkey, -⟩ := receiver_eq_some h
  rw [getReceiverChainKey, hfind, bind_some, hkey]

theorem receiverIndex_eq (h : state.receiver e = some r) : state.receiverIndex e = r.key.index := by
  rw [receiverIndex, getReceiverChainKey_eq h]
  rfl

/-- A chain that is added is found when there was none for its ratchet key. -/
theorem find_addReceiverChain (h : state.findReceiverChain e = none) (chainKey : RatchetChainKey) :
    (state.addReceiverChain e chainKey).findReceiverChain e = some ⟨some e, some chainKey, []⟩ :=
  find_lastN_append_self (by decide) (by simp [isFor]) h

/-! ## Message keys -/

/-- Message keys are taken from the chain that is there. -/
theorem messageKeysFor_of_receiver (h : state.receiver e = some r) :
    messageKeysFor ctx random state e counter =
      match Receiver.take (ratchetChain ctx.crypto) maxMessageKeys 2000 r counter with
      | .ok (keys, r') => (.ok keys, state.updateReceiverChain e (hold r'))
      | .error refusal => (.error (refusalCode refusal), state) := by
  obtain ⟨key, stored⟩ := r
  obtain ⟨chain, hfind, hkey, rfl⟩ := receiver_eq_some h
  simp only [messageKeysFor, getOrCreateChainKey, getReceiverChainKey_eq h]
  exact getOrCreateMessageKeys_eq hfind (.inl hkey) counter

/-- The result of asking a state for message keys, in terms of the receiver of the chain for a ratchet key. -/
def Receives (p : CryptoProvider) (r : Receiver RatchetChainKey RatchetMessageKeys) (counter : UInt32)
    (used : Option RatchetMessageKeys) (r' : Receiver RatchetChainKey RatchetMessageKeys) : Prop :=
  r' = r ∧ used = none ∨
    ∃ keys, Receiver.take (ratchetChain p) maxMessageKeys 2000 r counter = .ok (keys, r') ∧
      ∀ keys' ∈ used, keys' = keys

theorem receives_of_receiver (h : state.receiver e = some r) :
    ∃ r', (messageKeysFor ctx random state e counter).2.receiver e = some r' ∧
      Receives ctx.crypto r counter (messageKeysFor ctx random state e counter).1.toOption r' := by
  obtain ⟨chain, hfind, -, -⟩ := receiver_eq_some h
  rw [messageKeysFor_of_receiver h]
  cases htake : Receiver.take (ratchetChain ctx.crypto) maxMessageKeys 2000 r counter with
  | error refusal => exact ⟨r, h, .inl ⟨rfl, rfl⟩⟩
  | ok given =>
    refine ⟨given.2, receiver_updateReceiverChain_hold (by rw [hfind]; rfl), .inr ⟨given.1, htake, ?_⟩⟩
    rintro keys ⟨⟩
    rfl

/-- Asking for the keys of a first message on a chain makes the chain, unless the state has no keys for it. -/
theorem receives_of_new (h : state.findReceiverChain e = none) :
    let result := messageKeysFor ctx random state e counter
    result.2 = state ∧ result.1.toOption = none ∨ ∃ chainKey r', state.newChainKey ctx.crypto e = some chainKey ∧
      result.2.receiver e = some r' ∧ Receives ctx.crypto ⟨chainKey, []⟩ counter result.1.toOption r' := by
  dsimp only
  obtain ⟨chainKey, hget, -⟩ | ⟨-, ⟨-, hcase⟩ | ⟨rootKey, our, hroot, hour, hcase⟩⟩ :=
    getOrCreateChainKey_cases ctx random state e
  · rw [getReceiverChainKey, h] at hget
    cases hget
  · refine .inl ?_
    rw [messageKeysFor, hcase]
    exact ⟨rfl, rfl⟩
  · have hnew : state.newChainKey ctx.crypto e = some (rootKey.createChain ctx.crypto e our.privateKey).2 := by
      rw [newChainKey, hroot, hour]
      rfl
    have hfind : (state.opened ctx random rootKey our e).findReceiverChain e = some ⟨some e, some _, []⟩ :=
      find_addReceiverChain h _
    obtain ⟨-, hcase⟩ | ⟨previous, -, hcase⟩ := hcase
    · refine .inr ⟨_, _, hnew, ?_, .inl ⟨rfl, ?_⟩⟩ <;> rw [messageKeysFor, hcase]
      · exact receiver_of_find hfind rfl
      · rfl
    · -- the keys are those that the state with the new chain gives
      have hturned : (state.turned ctx random rootKey our previous e).receiver e = some ⟨_, []⟩ := receiver_of_find hfind rfl
      have hsame : messageKeysFor ctx random state e counter =
          messageKeysFor ctx random (state.turned ctx random rootKey our previous e) e counter := by
        rw [messageKeysFor, hcase]
        simp only [messageKeysFor, getOrCreateChainKey, getReceiverChainKey_eq hturned]
      obtain ⟨r', hr', hrec⟩ := receives_of_receiver hturned
      exact .inr ⟨_, r', hnew, by rw [hsame, hr'], by rw [hsame]; exact hrec⟩

/-- Asking for keys of another chain leaves the chain alone as long as no chain is dropped. -/
theorem find_messageKeysFor_of_ne (hne : e ≠ their)
    (hcount : state.receiverChains.countP (isFor e) ≤
      (messageKeysFor ctx random state their counter).2.receiverChains.countP (isFor e)) :
    (messageKeysFor ctx random state their counter).2.findReceiverChain e = state.findReceiverChain e := by
  have hkeys : ∀ (state : SessionState) (chainKey : RatchetChainKey),
      (getOrCreateMessageKeys ctx state their chainKey counter).2.findReceiverChain e = state.findReceiverChain e ∧
      (getOrCreateMessageKeys ctx state their chainKey counter).2.receiverChains.countP (isFor e) =
        state.receiverChains.countP (isFor e) := by
    intro state chainKey
    obtain ⟨f, hf, hkey, -⟩ := getOrCreateMessageKeys_state ctx state their chainKey counter
    rw [hf]
    exact ⟨find_updateReceiverChain_of_ne hkey hne,
      countP_updateFirst (fun c => by rw [isFor, hkey, isFor]) _⟩
  have hother : ∀ chainKey, isFor e ⟨some their, some chainKey, []⟩ = false := fun _ => by simp [isFor, Ne.symm hne]
  revert hcount
  unfold messageKeysFor
  obtain ⟨chainKey, -, h⟩ | ⟨-, ⟨-, h⟩ | ⟨rootKey, our, -, -, ⟨-, h⟩ | ⟨previous, -, h⟩⟩⟩ :=
    getOrCreateChainKey_cases ctx random state their <;> rw [h] <;> intro hcount
  · exact (hkeys state chainKey).1
  · rfl
  · exact find_lastN_append (hother _) hcount
  · rw [(hkeys _ _).2] at hcount
    rw [(hkeys _ _).1]
    exact find_lastN_append (hother _) hcount

/-! ## One attempt -/

/-- An attempt changes nothing, or asks for message keys and changes no other chain; it succeeds with the keys it is given. -/
theorem Attempt.run_cases (ctx : Context) (state : SessionState) (a : Attempt) :
    let found := messageKeysFor ctx a.random state a.message.senderRatchetKey a.message.counter
    (a.run ctx state).receiverChains = state.receiverChains ∧ a.keysUsed ctx state = none ∨
      (a.run ctx state).receiverChains = found.2.receiverChains ∧ ∀ keys ∈ a.keysUsed ctx state, keys ∈ found.1.toOption := by
  unfold keysUsed run result
  obtain ⟨code, h⟩ | ⟨-, -, result, state', hkeys, ⟨code, h⟩ | ⟨keys, plaintext, hok, h⟩⟩ :=
    decryptFromState_cases ctx a.random state a.message <;> rw [h]
  · exact .inl ⟨by simp, rfl⟩
  · rw [hkeys]
    by_cases hkeep : a.keep
    · exact .inr ⟨by simp [hkeep], by simp⟩
    · exact .inl ⟨by simp [hkeep], rfl⟩
  · rw [hkeys, hok]
    exact .inr ⟨rfl, by simp [Except.toOption]⟩

theorem Attempt.usedFor_of_ne (hne : a.message.senderRatchetKey ≠ e) : a.usedFor ctx e state = none := if_neg hne

theorem Attempt.usedFor_eq (heq : a.message.senderRatchetKey = e) : a.usedFor ctx e state = a.keysUsed ctx state := if_pos heq

theorem Receives.of_mem {used' : Option RatchetMessageKeys}
    (h : Receives p r counter used r') (hmem : ∀ keys ∈ used', keys ∈ used) : Receives p r counter used' r' := by
  obtain ⟨rfl, hnone⟩ | ⟨keys, htake, hused⟩ := h
  · refine .inl ⟨rfl, eq_none_iff_forall_not_mem.2 fun keys hkeys => ?_⟩
    rw [hnone] at hmem
    cases hmem keys hkeys
  · exact .inr ⟨keys, htake, fun keys' hkeys' => hused keys' (hmem keys' hkeys')⟩

/-- An attempt under another ratchet key leaves the chain alone as long as no chain is dropped. -/
theorem Attempt.find_run_of_ne (hne : a.message.senderRatchetKey ≠ e) (hretains : a.Retains ctx e state) :
    (a.run ctx state).findReceiverChain e = state.findReceiverChain e := by
  unfold Attempt.Retains at hretains
  obtain ⟨hsame, -⟩ | ⟨hchains, -⟩ := a.run_cases ctx state
  · rw [findReceiverChain, hsame, ← findReceiverChain]
  · rw [hchains] at hretains
    rw [findReceiverChain, hchains, ← findReceiverChain]
    exact find_messageKeysFor_of_ne (Ne.symm hne) hretains

/-- An attempt asks at most once for keys from a chain that is retained. -/
theorem Attempt.receives (h : state.receiver e = some r) (hretains : a.Retains ctx e state) :
    ∃ r', (a.run ctx state).receiver e = some r' ∧ Receives ctx.crypto r a.message.counter (a.usedFor ctx e state) r' := by
  by_cases heq : a.message.senderRatchetKey = e
  · rw [usedFor_eq heq]
    obtain ⟨hsame, hnone⟩ | ⟨hchains, hused⟩ := a.run_cases ctx state
    · exact ⟨r, (receiver_congr hsame).trans h, .inl ⟨rfl, hnone⟩⟩
    · rw [heq] at hchains hused
      obtain ⟨r', hr', hrec⟩ := receives_of_receiver h
      exact ⟨r', (receiver_congr hchains).trans hr', hrec.of_mem hused⟩
  · refine ⟨r, ?_, .inl ⟨rfl, usedFor_of_ne heq⟩⟩
    rw [receiver, find_run_of_ne heq hretains, ← receiver, h]

/-- An attempt on a chain that does not exist fails without making it, or makes it and asks at most once for keys from it. -/
theorem Attempt.receives_new (h : state.findReceiverChain e = none) (hretains : a.Retains ctx e state) :
    (a.run ctx state).findReceiverChain e = none ∧ a.usedFor ctx e state = none ∨
      ∃ chainKey r', state.newChainKey ctx.crypto e = some chainKey ∧ (a.run ctx state).receiver e = some r' ∧
        Receives ctx.crypto ⟨chainKey, []⟩ a.message.counter (a.usedFor ctx e state) r' := by
  by_cases heq : a.message.senderRatchetKey = e
  · rw [usedFor_eq heq]
    obtain ⟨hsame, hnone⟩ | ⟨hchains, hused⟩ := a.run_cases ctx state
    · exact .inl ⟨by rw [findReceiverChain, hsame, ← findReceiverChain, h], hnone⟩
    · rw [heq] at hchains hused
      obtain ⟨hsame, hnone⟩ | ⟨chainKey, r', hnew, hr', hrec⟩ :=
        receives_of_new h
      · refine .inl ⟨?_, eq_none_iff_forall_not_mem.2 fun keys hkeys => ?_⟩
        · rw [findReceiverChain, hchains, hsame, ← findReceiverChain, h]
        · rw [hnone] at hused
          cases hused keys hkeys
      · exact .inr ⟨chainKey, r', hnew, (receiver_congr hchains).trans hr', hrec.of_mem hused⟩
  · exact .inl ⟨(find_run_of_ne heq hretains).trans h, usedFor_of_ne heq⟩

/-! ## Whole runs -/

theorem Receives.gives {r'' : Receiver RatchetChainKey RatchetMessageKeys}
    {keys : List RatchetMessageKeys} (h : Receives p r counter used r')
    (hg : Receiver.Gives (ratchetChain p) maxMessageKeys 2000 r' keys r'') :
    Receiver.Gives (ratchetChain p) maxMessageKeys 2000 r (used.toList ++ keys) r'' := by
  obtain ⟨rfl, rfl⟩ | ⟨m, htake, hused⟩ := h
  · exact hg
  · cases used with
    | none => exact .unused htake hg
    | some m' =>
      obtain rfl := hused m' rfl
      exact .cons htake hg

/-- The keys that a run uses from a chain that is retained are given by one receiver. -/
theorem gives_of_receiver (h : state.receiver e = some r) (hretains : Along ctx (fun state a => a.Retains ctx e state) state attempts) :
    ∃ r', Receiver.Gives (ratchetChain ctx.crypto) maxMessageKeys 2000 r (usedKeys ctx e state attempts) r' := by
  induction attempts generalizing state r with
  | nil => exact ⟨r, .nil r⟩
  | cons a attempts ih =>
    obtain ⟨r₁, hr₁, hrec⟩ := receives h hretains.1
    obtain ⟨r', hg⟩ := ih hr₁ hretains.2
    exact ⟨r', hrec.gives hg⟩

theorem firstReceiver_of_receiver (h : state.receiver e = some r) (attempts : List Attempt) :
    firstReceiver ctx e state attempts = some r := by
  cases attempts with
  | nil => exact h
  | cons a attempts => rw [firstReceiver, h]

/-- The keys that a run uses from a chain are given by one receiver also when the chain is made in the run. -/
theorem gives_of_new (h : state.findReceiverChain e = none) (hretains : Along ctx (fun state a => a.Retains ctx e state) state attempts) :
    firstReceiver ctx e state attempts = none ∧ usedKeys ctx e state attempts = [] ∨
      ∃ chainKey r', firstReceiver ctx e state attempts = some ⟨chainKey, []⟩ ∧
        Receiver.Gives (ratchetChain ctx.crypto) maxMessageKeys 2000 ⟨chainKey, []⟩
          (usedKeys ctx e state attempts) r' := by
  induction attempts generalizing state with
  | nil => exact .inl ⟨by rw [firstReceiver, receiver, h]; rfl, rfl⟩
  | cons a attempts ih =>
    have hnone : state.receiver e = none := by rw [receiver, h]; rfl
    rw [firstReceiver, usedKeys, hnone]
    obtain ⟨hfind, hused⟩ | ⟨chainKey, r₁, hnew, hr₁, hrec⟩ := receives_new h hretains.1
    · have hnone₁ : (a.run ctx state).receiver e = none := by rw [receiver, hfind]; rfl
      rw [hused, hnone₁]
      exact ih hfind hretains.2
    · obtain ⟨r', hg⟩ := gives_of_receiver hr₁ hretains.2
      rw [hr₁, hnew]
      exact .inr ⟨chainKey, r', rfl, hrec.gives hg⟩

theorem Along.append {before later : List Attempt} :
    Along ctx P state (before ++ later) ↔ Along ctx P state before ∧ Along ctx P (runAttempts ctx state before) later := by
  induction before generalizing state with
  | nil => exact (true_and _).symm.to_iff
  | cons a before ih => rw [List.cons_append, Along, Along, ih, and_assoc]; rfl

/-- What holds in the beginning and is kept by every attempt of the run holds in the end. -/
theorem Along.keeps {I : SessionState → Prop}
    (hstep : ∀ state a, I state → P state a → I (a.run ctx state)) (hP : Along ctx P state attempts)
    (h : I state) : I (runAttempts ctx state attempts) := by
  induction attempts generalizing state with
  | nil => exact h
  | cons a attempts ih => exact ih hP.2 (hstep state a h hP.1)

/-! ## Counters that are used up -/

/-- The chain for the ratchet key is in order, and the counter is used up. -/
def SessionState.SpentFor (p : CryptoProvider) (state : SessionState) (e : EcPublicKey) (counter : UInt32) : Prop :=
  ∃ r, state.receiver e = some r ∧ r.Ordered (ratchetChain p) ∧ r.Spent (ratchetChain p) counter

theorem Receives.took {p : CryptoProvider} {r' : Receiver RatchetChainKey RatchetMessageKeys} {used : Option RatchetMessageKeys}
    (h : Receives p r counter used r') (hr : r.Ordered (ratchetChain p)) (hmono : r.key.index ≤ r'.key.index) :
    r'.Ordered (ratchetChain p) ∧ (used.isSome → r'.Spent (ratchetChain p) counter) ∧
      ∀ c, r.Spent (ratchetChain p) c → r'.Spent (ratchetChain p) c := by
  obtain ⟨rfl, rfl⟩ | ⟨keys, htake, -⟩ := h
  · exact ⟨hr, fun hused => (Bool.false_ne_true hused).elim, fun _ hc => hc⟩
  · have htook := hr.took (by decide) (by decide) htake hmono
    exact ⟨htook.ordered, fun _ => htook.spent, htook.mono⟩

/-- A chain in order stays in order while it is retained and its index does not wrap, and what it has used stays used up. -/
theorem Attempt.ordered_run (hordered : state.OrderedFor ctx.crypto e)
    (hkeeps : a.Retains ctx e state ∧ a.NoWrap ctx e state) :
    (a.run ctx state).OrderedFor ctx.crypto e ∧
      ((a.usedFor ctx e state).isSome → (a.run ctx state).SpentFor ctx.crypto e a.message.counter) ∧
      ∀ c, state.SpentFor ctx.crypto e c → (a.run ctx state).SpentFor ctx.crypto e c := by
  obtain ⟨hretains, hmono⟩ := hkeeps
  unfold Attempt.NoWrap at hmono
  cases hfind : state.findReceiverChain e with
  | some chain =>
    obtain ⟨r, hr, hro⟩ := hordered chain hfind
    obtain ⟨r', hr', hrec⟩ := receives hr hretains
    rw [receiverIndex_eq hr, receiverIndex_eq hr'] at hmono
    obtain ⟨hro', hspent, hkept⟩ := hrec.took hro hmono
    refine ⟨fun _ _ => ⟨r', hr', hro'⟩, fun hused => ⟨r', hr', hro', hspent hused⟩, ?_⟩
    rintro c ⟨r₀, hr₀, -, hc⟩
    obtain rfl : r = r₀ := Option.some.inj (hr.symm.trans hr₀)
    exact ⟨r', hr', hro', hkept c hc⟩
  | none =>
    have hunspent : ∀ c, ¬ state.SpentFor ctx.crypto e c := by
      rintro c ⟨r, hr, -⟩
      rw [receiver, hfind] at hr
      cases hr
    obtain ⟨hnone, hused⟩ | ⟨chainKey, r', hnew, hr', hrec⟩ := receives_new hfind hretains
    · refine ⟨fun chain hchain => ?_, fun h => ?_, fun c hc => absurd hc (hunspent c)⟩
      · rw [hnone] at hchain
        cases hchain
      · rw [hused] at h
        cases h
    · have hindex : chainKey.index = 0 := by
        obtain ⟨rootKey, -, hmap⟩ := bind_eq_some_iff.1 hnew
        obtain ⟨our, -, rfl⟩ := map_eq_some_iff.1 hmap
        rfl
      obtain ⟨hro', hspent, -⟩ := hrec.took ⟨List.nodup_nil, fun m hm => absurd hm List.not_mem_nil⟩
        (by rw [hindex]; exact UInt32.zero_le)
      exact ⟨fun _ _ => ⟨r', hr', hro'⟩, fun hu => ⟨r', hr', hro', hspent hu⟩, fun c hc => absurd hc (hunspent c)⟩

theorem senderChain_messageKeysFor (ctx : Context) (random : EcPrivateKey) (their : EcPublicKey) (counter : UInt32)
    (h : state.senderChain.isSome) :
    (messageKeysFor ctx random state their counter).2.senderChain.isSome := by
  have hkeys : ∀ (state : SessionState) (chainKey : RatchetChainKey),
      (getOrCreateMessageKeys ctx state their chainKey counter).2.senderChain = state.senderChain := by
    intro state chainKey
    obtain ⟨f, hf, -, -⟩ := getOrCreateMessageKeys_state ctx state their chainKey counter
    rw [hf]
    rfl
  unfold messageKeysFor
  obtain ⟨chainKey, -, hcase⟩ | ⟨-, ⟨-, hcase⟩ | ⟨rootKey, our, -, -, ⟨-, hcase⟩ | ⟨previous, -, hcase⟩⟩⟩ :=
    getOrCreateChainKey_cases ctx random state their <;> rw [hcase]
  · rwa [hkeys]
  · exact h
  · exact h
  · rw [hkeys]
    rfl

/-- An attempt that succeeds is made with message keys, in a session of the version of the message. -/
theorem Attempt.of_isOk (h : (a.result ctx state).isOk) :
    state.senderChain.isSome ∧ a.message.messageVersion.toUInt32 = state.sessionVersion ∧ (a.keysUsed ctx state).isSome := by
  revert h
  unfold keysUsed result
  obtain ⟨code, hcase⟩ | ⟨hsender, hversion, result, state', hkeys, ⟨code, hcase⟩ | ⟨keys, plaintext, hok, hcase⟩⟩ :=
    decryptFromState_cases ctx a.random state a.message <;> rw [hcase] <;> intro h
  · cases h
  · cases h
  · rw [hkeys, hok]
    exact ⟨hsender, hversion, rfl⟩

/-- A sender chain, once there, stays, and the version is never changed. -/
theorem Attempt.run_keeps (ctx : Context) (state : SessionState) (a : Attempt) :
    (state.senderChain.isSome → (a.run ctx state).senderChain.isSome) ∧
      (a.run ctx state).sessionVersion = state.sessionVersion := by
  have hversion : (decryptFromState ctx a.random state a.message).2.sessionVersion = _ := (decryptFromState_keeps ..).1
  unfold run
  obtain ⟨code, h⟩ | ⟨hsender, -, result, state', hkeys, ⟨code, h⟩ | ⟨keys, plaintext, -, h⟩⟩ :=
    decryptFromState_cases ctx a.random state a.message <;> rw [h] at hversion ⊢
  · exact ⟨by simp, by simp⟩
  · have hsender' := senderChain_messageKeysFor ctx a.random a.message.senderRatchetKey a.message.counter hsender
    rw [hkeys] at hsender'
    by_cases hkeep : a.keep
    · simp only [hkeep, if_true]
      exact ⟨fun _ => hsender', hversion⟩
    · simp [hkeep]
  · have hsender' := senderChain_messageKeysFor ctx a.random a.message.senderRatchetKey a.message.counter hsender
    rw [hkeys] at hsender'
    exact ⟨fun _ => hsender', hversion⟩

end Osp.Signal
