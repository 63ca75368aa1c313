import Osp.Signal.Lemmas.ReceiverChains
import Osp.Signal.Lemmas.Storable

/-!
# What the session cipher changes in a state

Every operation leaves the members of a state that it has no business with (`Frame`), and keeps the state storable.
-/

namespace Osp.Signal

open Osp.Lib SessionState

/-- The states differ at most in the root key, the chains and the previous counter. -/
structure Frame (state state' : SessionState) : Prop where
  sessionVersion : state'.sessionVersion = state.sessionVersion
  localIdentityPublic : state'.localIdentityPublic = state.localIdentityPublic
  remoteIdentityPublic : state'.remoteIdentityPublic = state.remoteIdentityPublic
  pendingKeyExchange : state'.pendingKeyExchange = state.pendingKeyExchange
  pendingPreKey : state'.pendingPreKey = state.pendingPreKey
  remoteRegistrationId : state'.remoteRegistrationId = state.remoteRegistrationId
  localRegistrationId : state'.localRegistrationId = state.localRegistrationId
  needsRefresh : state'.needsRefresh = state.needsRefresh
  aliceBaseKey : state'.aliceBaseKey = state.aliceBaseKey

theorem Frame.refl (state : SessionState) : Frame state state := by constructor <;> rfl

theorem Frame.trans {a b c : SessionState} (hab : Frame a b) (hbc : Frame b c) : Frame a c := by
  cases hab
  cases hbc
  constructor <;> simp only [*]

variable {ctx : Context} {state state' : SessionState} {their e : EcPublicKey} {random : EcPrivateKey}

/-! ## Keys that fit -/

variable {plaintext : Bytes} {code : Int} {chainKey : RatchetChainKey} {rootKey : RatchetRootKey} {message : SignalMessage}
  {version : UInt32}

theorem RatchetChainKey.Fits.createNext (h : chainKey.Fits version)
    (p : CryptoProvider) : (chainKey.createNext p).Fits version :=
  ⟨h.1, fun hnil => by
    have := p.length_hmacSha256 chainKey.key [0x02]
    rw [show p.hmacSha256 chainKey.key [0x02] = [] from hnil] at this
    cases this⟩

theorem RatchetChainKey.Fits.iterate (h : chainKey.Fits version)
    (p : CryptoProvider) (n : Nat) : ((ratchetChain p).next^[n] chainKey).Fits version := by
  induction n with
  | zero => exact h
  | succ n ih =>
    rw [Function.iterate_succ_apply']
    exact ih.createNext p

theorem RatchetRootKey.Fits.createChain {version : UInt32} {rootKey : RatchetRootKey} (h : rootKey.Fits version)
    (p : CryptoProvider) (their : EcPublicKey) (our : EcPrivateKey) :
    (rootKey.createChain p their our).1.Fits version ∧ (rootKey.createChain p their our).2.Fits version := by
  refine ⟨⟨h.1, fun hnil => ?_⟩, ⟨h.1, fun hnil => ?_⟩⟩
  · have := congrArg List.length hnil
    simp [RatchetRootKey.createChain] at this
  · have := congrArg List.length hnil
    simp [RatchetRootKey.createChain] at this

theorem calculateDerivedKeys_fits (p : CryptoProvider) (secret : Bytes) :
    (calculateDerivedKeys p secret).1.Fits ciphertextCurrentVersion ∧
    (calculateDerivedKeys p secret).2.Fits ciphertextCurrentVersion := by
  refine ⟨⟨rfl, fun hnil => ?_⟩, ⟨rfl, fun hnil => ?_⟩⟩
  · have := congrArg List.length hnil
    simp [calculateDerivedKeys] at this
  · have := congrArg List.length hnil
    simp [calculateDerivedKeys] at this

/-! ## The message keys of a chain -/

/-- `session_cipher_get_or_create_message_keys` changes one chain: it keeps its ratchet key, and the chain key is left or advanced. -/
theorem getOrCreateMessageKeys_state (ctx : Context) (state : SessionState) (e : EcPublicKey) (chainKey : RatchetChainKey) (counter : UInt32) :
    ∃ f : ReceiverChain → ReceiverChain, (getOrCreateMessageKeys ctx state e chainKey counter).2 =
        state.updateReceiverChain e f ∧ (∀ c, (f c).senderRatchetKey = c.senderRatchetKey) ∧
      ∀ c, (f c).chainKey = c.chainKey ∨ ∃ n, (f c).chainKey = some ((ratchetChain ctx.crypto).next^[n] chainKey) := by
  have hid : state = state.updateReceiverChain e fun c => c := by simp only [updateReceiverChain, updateFirst_id]
  unfold getOrCreateMessageKeys
  split
  · unfold removeMessageKeys
    cases state.findReceiverChain e with
    | none => exact ⟨_, hid, fun _ => rfl, fun _ => .inl rfl⟩
    | some chain =>
      simp only
      cases chain.messageKeys.find? (·.counter == counter) with
      | none => exact ⟨_, hid, fun _ => rfl, fun _ => .inl rfl⟩
      | some keys => exact ⟨_, rfl, fun _ => rfl, fun _ => .inl rfl⟩
  · split
    · exact ⟨_, hid, fun _ => rfl, fun _ => .inl rfl⟩
    · simp only [storeSkippedKeys_eq, setReceiverChainKey]
      cases hf : (updateReceiverChain state e _).findReceiverChain e with
      | none => exact ⟨_, rfl, fun _ => rfl, fun _ => .inl rfl⟩
      | some chain =>
        refine ⟨_, updateReceiverChain_updateReceiverChain fun _ => rfl, fun _ => rfl, fun _ => .inr ?_⟩
        exact ⟨(counter - chainKey.index).toNat + 1, by rw [Function.iterate_succ_apply']; rfl⟩

theorem SessionState.Storable.updateReceiverChain (h : state.Storable) {f : ReceiverChain → ReceiverChain}
    (hf : ∀ c ∈ state.receiverChains, ∀ key ∈ (f c).chainKey, key.Fits state.sessionVersion) :
    (state.updateReceiverChain e f).Storable :=
  ⟨h.rootKey, h.senderChain, forall_updateFirst h.receiverChains hf⟩

/-- Adding a chain whose key fits keeps the keys of the receiver chains fitting. -/
theorem fits_addReceiverChain (h : ∀ chain ∈ state.receiverChains, ∀ key ∈ chain.chainKey, key.Fits version)
    (hkey : chainKey.Fits version) (e : EcPublicKey) :
    ∀ chain ∈ (state.addReceiverChain e chainKey).receiverChains, ∀ key ∈ chain.chainKey, key.Fits version := by
  intro chain hmem
  rcases List.mem_append.1 ((lastN_suffix _ _).subset hmem) with hmem | hmem
  · exact h chain hmem
  · obtain rfl := List.mem_singleton.1 hmem
    rintro key ⟨⟩
    exact hkey

theorem frame_getOrCreateMessageKeys
    (counter : UInt32) : Frame state (getOrCreateMessageKeys ctx state e chainKey counter).2 := by
  obtain ⟨f, hf, -⟩ := getOrCreateMessageKeys_state ctx state e chainKey counter
  rw [hf]
  constructor <;> rfl

theorem SessionState.Storable.getOrCreateMessageKeys (h : state.Storable) (hk : chainKey.Fits state.sessionVersion) (e : EcPublicKey)
    (counter : UInt32) :
    (getOrCreateMessageKeys ctx state e chainKey counter).2.Storable := by
  obtain ⟨f, hf, -, hkey⟩ := getOrCreateMessageKeys_state ctx state e chainKey counter
  rw [hf]
  refine h.updateReceiverChain fun c hc key hmem => ?_
  rcases hkey c with hsame | ⟨n, hn⟩
  · exact h.receiverChains c hc key (hsame ▸ hmem)
  · obtain rfl : _ = key := Option.some.inj (hn.symm.trans hmem)
    exact hk.iterate _ n

/-! ## A turn of the ratchet -/

/-- What `session_cipher_get_or_create_chain_key` has changed when it looks at the sender chain key. -/
def SessionState.opened (ctx : Context) (random : EcPrivateKey) (rootKey : RatchetRootKey) (our : EcKeyPair)
    (state : SessionState) (their : EcPublicKey) : SessionState :=
  let receiver := rootKey.createChain ctx.crypto their our.privateKey
  let sender := receiver.1.createChain ctx.crypto their random
  { state with rootKey := some sender.1 }.addReceiverChain their receiver.2

/-- What it has changed when it is done. -/
def SessionState.turned (ctx : Context) (random : EcPrivateKey) (rootKey : RatchetRootKey) (our : EcKeyPair)
    (previous : RatchetChainKey) (state : SessionState) (their : EcPublicKey) : SessionState :=
  let receiver := rootKey.createChain ctx.crypto their our.privateKey
  let sender := receiver.1.createChain ctx.crypto their random
  { state.opened ctx random rootKey our their with
    previousCounter := if previous.index > 0 then previous.index - 1 else previous.index
    senderChain := some ⟨some (curveGenerateKeyPair ctx.crypto random), some sender.2⟩ }

/-- The ways through `session_cipher_get_or_create_chain_key`. -/
theorem getOrCreateChainKey_cases (ctx : Context) (random : EcPrivateKey) (state : SessionState) (their : EcPublicKey) :
    let result := getOrCreateChainKey ctx random state their
    (∃ chainKey, state.getReceiverChainKey their = some chainKey ∧ result = (.ok chainKey, state)) ∨
    state.getReceiverChainKey their = none ∧
      ((state.rootKey = none ∨ state.getSenderRatchetKeyPair = none) ∧ result = (.error sgErrUnknown, state) ∨
        ∃ rootKey our, state.rootKey = some rootKey ∧ state.getSenderRatchetKeyPair = some our ∧
          (state.getSenderChainKey = none ∧ result = (.error sgErrUnknown, state.opened ctx random rootKey our their) ∨
            ∃ previous, state.getSenderChainKey = some previous ∧ result =
              (.ok (rootKey.createChain ctx.crypto their our.privateKey).2, state.turned ctx random rootKey our previous their))) := by
  unfold getOrCreateChainKey
  cases hget : state.getReceiverChainKey their with
  | some chainKey => exact .inl ⟨chainKey, rfl, rfl⟩
  | none =>
    refine .inr ⟨rfl, ?_⟩
    cases hroot : state.rootKey with
    | none => exact .inl ⟨.inl rfl, rfl⟩
    | some rootKey =>
      cases hour : state.getSenderRatchetKeyPair with
      | none => exact .inl ⟨.inr rfl, rfl⟩
      | some our =>
        refine .inr ⟨rootKey, our, rfl, rfl, ?_⟩
        cases hprev : state.getSenderChainKey with
        | none =>
          refine .inl ⟨rfl, ?_⟩
          have hprev' : (state.opened ctx random rootKey our their).getSenderChainKey = none := hprev
          simp only [opened] at hprev'
          simp only [curveGenerateKeyPair, hprev', opened]
        | some previous =>
          refine .inr ⟨previous, rfl, ?_⟩
          have hprev' : (state.opened ctx random rootKey our their).getSenderChainKey = some previous := hprev
          simp only [opened] at hprev'
          simp only [curveGenerateKeyPair, hprev', opened, turned, setSenderChain]

theorem SessionState.Storable.opened (h : state.Storable) (hroot : state.rootKey = some rootKey)
    (ctx : Context) (random : EcPrivateKey) (our : EcKeyPair) (their : EcPublicKey) :
    (state.opened ctx random rootKey our their).Storable := by
  have hr := (h.rootKey rootKey hroot).createChain ctx.crypto their our.privateKey
  refine ⟨?_, h.senderChain, fits_addReceiverChain h.receiverChains hr.2 their⟩
  rintro key ⟨⟩
  exact (hr.1.createChain ctx.crypto their random).1

theorem SessionState.Storable.turned (h : state.Storable) (hroot : state.rootKey = some rootKey)
    (our : EcKeyPair) (previous : RatchetChainKey) :
    (state.turned ctx random rootKey our previous their).Storable := by
  have hr := (h.rootKey rootKey hroot).createChain ctx.crypto their our.privateKey
  have ho := h.opened hroot ctx random our their
  refine ⟨ho.rootKey, ?_, ho.receiverChains⟩
  rintro chain ⟨⟩ key ⟨⟩
  exact (hr.1.createChain ctx.crypto their random).2

/-! ## Whole operations -/

/-- The two calls that give the keys of a message leave the other members and keep the state storable. -/
theorem messageKeysFor_keeps (ctx : Context) (random : EcPrivateKey) (state : SessionState) (their : EcPublicKey) (counter : UInt32) :
    Frame state (messageKeysFor ctx random state their counter).2 ∧
    (state.Storable → (messageKeysFor ctx random state their counter).2.Storable) := by
  unfold messageKeysFor
  obtain ⟨chainKey, hget, h⟩ | ⟨-, ⟨-, h⟩ | ⟨rootKey, our, hroot, hour, ⟨-, h⟩ | ⟨previous, -, h⟩⟩⟩ :=
    getOrCreateChainKey_cases ctx random state their
  · rw [h]
    refine ⟨frame_getOrCreateMessageKeys .., fun hs => hs.getOrCreateMessageKeys ?_ ..⟩
    obtain ⟨chain, hfind, hkey⟩ := Option.bind_eq_some_iff.1 hget
    exact hs.receiverChains chain (List.mem_of_find?_eq_some hfind) chainKey hkey
  · rw [h]
    exact ⟨Frame.refl _, id⟩
  · rw [h]
    exact ⟨by constructor <;> rfl, fun hs => hs.opened hroot ctx random our their⟩
  · rw [h]
    refine ⟨.trans (by constructor <;> rfl) (frame_getOrCreateMessageKeys ..), fun hs =>
      (hs.turned hroot our previous).getOrCreateMessageKeys ?_ ..⟩
    exact ((hs.rootKey rootKey hroot).createChain ctx.crypto their our.privateKey).2

/-- The ways through `session_cipher_decrypt_from_state_and_signal_message`. -/
theorem decryptFromState_cases (ctx : Context) (random : EcPrivateKey) (state : SessionState) (message : SignalMessage) :
    let outcome := decryptFromState ctx random state message
    (∃ code, outcome = (.error code, state)) ∨
    state.senderChain.isSome ∧ message.messageVersion.toUInt32 = state.sessionVersion ∧
      ∃ result state', messageKeysFor ctx random state message.senderRatchetKey message.counter = (result, state') ∧
        ((∃ code, outcome = (.error code, state')) ∨
          ∃ keys plaintext, result = .ok keys ∧ outcome = (.ok plaintext, state'.clearUnacknowledgedPreKeyMessage)) := by
  unfold decryptFromState
  by_cases hsender : state.senderChain.isNone
  · exact .inl ⟨_, by rw [if_pos hsender]⟩
  · rw [if_neg hsender]
    by_cases hversion : message.messageVersion.toUInt32 = state.sessionVersion
    · rw [if_neg fun hne => hne hversion]
      refine .inr ⟨Option.isSome_iff_ne_none.2 fun h => hsender (by rw [h]; rfl), hversion, ?_⟩
      rcases messageKeysFor ctx random state message.senderRatchetKey message.counter with ⟨result, state'⟩
      refine ⟨result, state', rfl, ?_⟩
      cases result with
      | error code => exact .inl ⟨code, rfl⟩
      | ok keys =>
        simp only
        cases openMessage ctx state' message keys with
        | error code => exact .inl ⟨code, rfl⟩
        | ok plaintext => exact .inr ⟨keys, plaintext, rfl, rfl⟩
    · exact .inl ⟨_, by rw [if_pos hversion]⟩

/-- Decrypting keeps the version, the identities and the base key, also when it fails, and keeps the state storable. -/
theorem decryptFromState_keeps (random : EcPrivateKey) (state : SessionState) (message : SignalMessage) :
    let state' := (decryptFromState ctx random state message).2
    state'.sessionVersion = state.sessionVersion ∧ state'.aliceBaseKey = state.aliceBaseKey ∧ (state.Storable → state'.Storable) := by
  obtain ⟨hf, hs⟩ := messageKeysFor_keeps ctx random state message.senderRatchetKey message.counter
  obtain ⟨code, h⟩ | ⟨-, -, result, state', hkeys, ⟨code, h⟩ | ⟨keys, plaintext, -, h⟩⟩ :=
    decryptFromState_cases ctx random state message <;> rw [h]
  · exact ⟨rfl, rfl, id⟩
  · rw [hkeys] at hf hs
    exact ⟨hf.sessionVersion, hf.aliceBaseKey, hs⟩
  · rw [hkeys] at hf hs
    exact ⟨hf.sessionVersion, hf.aliceBaseKey, fun h => ⟨(hs h).rootKey, (hs h).senderChain, (hs h).receiverChains⟩⟩

/-- When no keys are found, a message of the session's version is refused for the same reason. -/
theorem decryptFromState_of_error (hsender : state.senderChain.isSome)
    (hversion : message.messageVersion.toUInt32 = state.sessionVersion)
    (h : messageKeysFor ctx random state message.senderRatchetKey message.counter = (.error code, state')) :
    decryptFromState ctx random state message = (.error code, state') := by
  unfold decryptFromState
  rw [if_neg (by simp [Option.isSome_iff_ne_none.1 hsender]), if_neg fun hne => hne hversion, h]

/-- A counter behind the chain that is not among the skipped ones is a duplicate, and nothing changes. -/
theorem decryptFromState_duplicate {chain : ReceiverChain} (hsender : state.senderChain.isSome)
    (hversion : message.messageVersion.toUInt32 = state.sessionVersion)
    (hfind : state.findReceiverChain message.senderRatchetKey = some chain) (hkey : chain.chainKey = some chainKey)
    (hlt : message.counter < chainKey.index) (hskipped : ∀ keys ∈ chain.messageKeys, keys.counter ≠ message.counter) :
    decryptFromState ctx random state message = (.error sgErrDuplicateMessage, state) := by
  refine decryptFromState_of_error hsender hversion ?_
  have hget : state.getReceiverChainKey message.senderRatchetKey = some chainKey := by
    rw [getReceiverChainKey, hfind, Option.bind_some, hkey]
  have hnone : chain.messageKeys.find? (·.counter == message.counter) = none := by
    rw [List.find?_eq_none]
    exact fun keys hin heq => hskipped keys hin (by simpa using heq)
  simp only [messageKeysFor, getOrCreateChainKey, hget, getOrCreateMessageKeys, gt_iff_lt, hlt, if_true,
    removeMessageKeys, hfind, hnone]

/-- A signal message that is not decrypted leaves the store as it was. -/
theorem sessionCipherDecryptSignalMessage_error {cipher : SessionCipher} {randoms : Nat → EcPrivateKey} {store : Store ctx}
    (h : (sessionCipherDecryptSignalMessage ctx cipher randoms store message).1 = .error code) :
    (sessionCipherDecryptSignalMessage ctx cipher randoms store message).2 = store := by
  revert h
  unfold sessionCipherDecryptSignalMessage
  intro h
  split
  · rfl
  · split
    · rfl
    · split
      · rfl
      · split
        · rfl
        · split
          · rfl
          · simp_all

/-- What a successful encryption does: the message is made with the keys of the sender chain, which is advanced. -/
theorem encryptWithState_ok {message : CiphertextMessage}
    (h : encryptWithState ctx state plaintext = .ok (message, state')) :
    ∃ chain chainKey, state.senderChain = some chain ∧ chain.chainKey = some chainKey ∧
      state' = { state with
        senderChain := some { chain with chainKey := some (chainKey.createNext ctx.crypto) } } := by
  unfold encryptWithState at h
  split at h
  · cases h
  · rename_i chainKey hkey
    split at h
    · cases h
    · obtain ⟨ciphertext, -, h⟩ := bind_eq_ok.1 h
      split at h
      · obtain ⟨wrapped, -, h⟩ := bind_eq_ok.1 h
        obtain ⟨next, hnext, h⟩ := bind_eq_ok.1 h
        obtain ⟨chain, hchain, hck⟩ := Option.bind_eq_some_iff.1 hkey
        simp only [setSenderChainKey, hchain, Except.ok.injEq] at hnext
        simp only [pure, Except.pure, Except.ok.injEq, Prod.mk.injEq] at h
        exact ⟨chain, chainKey, hchain, hck, by rw [← h.2, ← hnext]⟩
      · cases h

theorem SessionState.Storable.encrypt (hs : state.Storable) {message : CiphertextMessage}
    (h : encryptWithState ctx state plaintext = .ok (message, state')) : state'.Storable := by
  obtain ⟨chain, chainKey, hchain, hkey, rfl⟩ := encryptWithState_ok h
  refine ⟨hs.rootKey, ?_, hs.receiverChains⟩
  rintro c ⟨⟩ key ⟨⟩
  exact (hs.senderChain chain hchain chainKey hkey).createNext _

end Osp.Signal
