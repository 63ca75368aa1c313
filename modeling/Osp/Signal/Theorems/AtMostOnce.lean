import Osp.Signal.Lemmas.Attempts
import Osp.Signal.Sample

/-!
# No message keys are used twice

In a run of decryption attempts on one state, the receiver chain for a ratchet key gives the message keys of each of its
positions at most once, and a counter that was decrypted is a duplicate from then on.
-/

namespace Osp.Signal

open Osp.Lib

variable {ctx : Context} {state : SessionState} {e : EcPublicKey}

/-- The keys used on a chain are those of distinct positions that the chain could still give when it was first used: positions that
it had skipped and stored, or that were ahead of it. -/
def UsedOnce (ctx : Context) (e : EcPublicKey) (state : SessionState) (attempts : List Attempt) : Prop :=
  match firstReceiver ctx e state attempts with
  | some base => ∃ positions : List Nat, positions.Nodup ∧ (∀ p ∈ positions, (base.window (ratchetChain ctx.crypto)).Open p) ∧
      usedKeys ctx e state attempts = positions.map (base.material (ratchetChain ctx.crypto))
  | none => usedKeys ctx e state attempts = []

theorem usedOnce_of_retains (hordered : state.OrderedFor ctx.crypto e) {attempts : List Attempt}
    (hretains : Along ctx (fun state a => a.Retains ctx e state) state attempts) : UsedOnce ctx e state attempts := by
  have hpositions : ∀ {base r' : Receiver RatchetChainKey RatchetMessageKeys} {keys : List RatchetMessageKeys},
      base.Ordered (ratchetChain ctx.crypto) →
      Receiver.Gives (ratchetChain ctx.crypto) SessionState.maxMessageKeys 2000 base keys r' →
      ∃ positions : List Nat, positions.Nodup ∧ (∀ p ∈ positions, (base.window (ratchetChain ctx.crypto)).Open p) ∧
        keys = positions.map (base.material (ratchetChain ctx.crypto)) := by
    intro base r' keys hbase hgives
    obtain ⟨positions, -, hkeys, hnodup, hopen, -⟩ :=
      hgives.positions (Receiver.follows_material base) (by decide) hbase.tracks
    exact ⟨positions, hnodup, hopen, hkeys⟩
  unfold UsedOnce
  cases hfind : state.findReceiverChain e with
  | some chain =>
    obtain ⟨r, hr, hro⟩ := hordered chain hfind
    obtain ⟨r', hgives⟩ := gives_of_receiver hr hretains
    rw [firstReceiver_of_receiver hr]
    exact hpositions hro hgives
  | none =>
    obtain ⟨hfirst, hnone⟩ | ⟨chainKey, r', hfirst, hgives⟩ := gives_of_new hfind hretains
    · rw [hfirst]
      exact hnone
    · rw [hfirst]
      exact hpositions ⟨List.nodup_nil, fun m hm => absurd hm List.not_mem_nil⟩ hgives

/-- In a state whose chain for a ratchet key is in order, no two successful decryptions on that chain use the keys of the same
position. Once a counter has been decrypted, then as long as the chain is retained and its index does not wrap, every later
attempt on it by a message of the same version fails as a duplicate and changes nothing. -/
theorem message_keys_used_once (ctx : Context) (state : SessionState) (e : EcPublicKey)
    (hordered : state.OrderedFor ctx.crypto e) :
    (∀ attempts, Along ctx (fun state a => a.Retains ctx e state) state attempts → UsedOnce ctx e state attempts) ∧
    (∀ (before : List Attempt) (a : Attempt) (later : List Attempt) (b : Attempt),
      Along ctx (fun state a => a.Retains ctx e state ∧ a.NoWrap ctx e state) state (before ++ a :: later) →
      (a.result ctx (runAttempts ctx state before)).isOk → a.message.senderRatchetKey = e →
      b.message.senderRatchetKey = e → b.message.counter = a.message.counter →
      b.message.messageVersion = a.message.messageVersion →
      decryptFromState ctx b.random (runAttempts ctx state (before ++ a :: later)) b.message =
        (.error sgErrDuplicateMessage, runAttempts ctx state (before ++ a :: later))) := by
  refine ⟨fun attempts hretains => usedOnce_of_retains hordered hretains, ?_⟩
  intro before a later b hkeeps hok ha hb hcounter hversion
  obtain ⟨hbefore, ha', hlater⟩ := Along.append.1 hkeeps
  rw [runAttempts, List.foldl_append, List.foldl_cons, ← runAttempts, ← runAttempts]
  -- what holds when the message is decrypted
  have hstart : (runAttempts ctx state before).OrderedFor ctx.crypto e :=
    Along.keeps (I := fun state => state.OrderedFor ctx.crypto e) (fun _ _ ho hk => (Attempt.ordered_run ho hk).1) hbefore
      hordered
  obtain ⟨hordered₁, hspent, -⟩ := Attempt.ordered_run hstart ha'
  obtain ⟨hsender, hsession, hused⟩ := Attempt.of_isOk hok
  rw [← Attempt.usedFor_eq ha] at hused
  obtain ⟨hsender₁, hsession₁⟩ := a.run_keeps ctx (runAttempts ctx state before)
  -- and goes on to hold
  obtain ⟨-, hspent₂, hsender₂, hsession₂⟩ := Along.keeps
    (I := fun state => state.OrderedFor ctx.crypto e ∧ state.SpentFor ctx.crypto e a.message.counter ∧
      state.senderChain.isSome ∧ state.sessionVersion = a.message.messageVersion.toUInt32)
    (fun state b hI hk => by
      obtain ⟨ho, -, hs⟩ := Attempt.ordered_run hI.1 hk
      obtain ⟨hsender, hsession⟩ := b.run_keeps ctx state
      exact ⟨ho, hs _ hI.2.1, hsender hI.2.2.1, hsession.trans hI.2.2.2⟩)
    hlater ⟨hordered₁, hspent hused, hsender₁ hsender, hsession₁.trans hsession.symm⟩
  obtain ⟨r, hr, -, htaken⟩ := hspent₂
  refine decryptFromState_of_error hsender₂ (by rw [hversion, hsession₂]) ?_
  rw [hb, hcounter, messageKeysFor_of_receiver hr, htaken.take]
  rfl

/-! ## Sample chains -/

/-- An attempt on the message of a counter, under Alice's first ratchet key. -/
def sampleAttempt (counter : UInt32) : Attempt := ⟨sampleMessage counter [1], sampleKey 8, false⟩

/-- The key at a place of a sample chain. -/
def sampleChainKey (index : UInt32) : RatchetChainKey := ⟨.three, List.replicate 32 index.toUInt8, index⟩

/-- Bob's state with one receiver chain, for Alice's first ratchet key. -/
def sampleReceiving (chainKey : Option RatchetChainKey) (messageKeys : List RatchetMessageKeys) : SessionState :=
  { ratchetingSessionBobInitialize sampleProvider SessionState.create sampleBob with
    receiverChains := [⟨some (samplePair 5).publicKey, chainKey, messageKeys⟩] }

/-- Two successful attempts on a chain that is retained and does not wrap use the same keys. -/
def SampleReuse (state : SessionState) (counter : UInt32) (keys : RatchetMessageKeys) : Prop :=
  Along sampleContext (fun state a =>
      a.Retains sampleContext (samplePair 5).publicKey state ∧ a.NoWrap sampleContext (samplePair 5).publicKey state)
    state [sampleAttempt counter, sampleAttempt counter] ∧
  usedKeys sampleContext (samplePair 5).publicKey state [sampleAttempt counter, sampleAttempt counter] = [keys, keys]

/-- Bob decrypts Alice's messages 1 and 0, and then meets message 1 again. -/
theorem message_keys_used_once_swapped :
    UsedOnce sampleContext (samplePair 5).publicKey (sampleReceiving (some (sampleChainKey 0)) [])
        [sampleAttempt 1, sampleAttempt 0] ∧
    decryptFromState sampleContext (sampleKey 9)
        (runAttempts sampleContext (sampleReceiving (some (sampleChainKey 0)) []) [sampleAttempt 1, sampleAttempt 0])
        (sampleMessage 1 [1]) =
      (.error sgErrDuplicateMessage,
        runAttempts sampleContext (sampleReceiving (some (sampleChainKey 0)) []) [sampleAttempt 1, sampleAttempt 0]) := by
  have hordered : (sampleReceiving (some (sampleChainKey 0)) []).OrderedFor sampleContext.crypto (samplePair 5).publicKey :=
    fun _ _ => ⟨⟨sampleChainKey 0, []⟩, by decide, List.nodup_nil, fun m hm => absurd hm List.not_mem_nil⟩
  obtain ⟨hused, hduplicate⟩ := message_keys_used_once sampleContext _ _ hordered
  exact ⟨hused _ (by decide), hduplicate [] (sampleAttempt 1) [sampleAttempt 0] ⟨sampleMessage 1 [1], sampleKey 9, false⟩
    (by decide) (by decide) rfl rfl rfl rfl⟩

instance (state : SessionState) (counter : UInt32) (keys : RatchetMessageKeys) : Decidable (SampleReuse state counter keys) := by
  delta SampleReuse
  infer_instance

/-- The keys at a place of the sample chain. -/
def sampleKeys (index : UInt32) : RatchetMessageKeys := (sampleChainKey index).getMessageKeys sampleProvider

/-- The keys of the first message on a chain that Bob has to make for Alice's first ratchet key. -/
def sampleNewKeys : RatchetMessageKeys :=
  (((sampleReceiving none []).newChainKey sampleProvider (samplePair 5).publicKey).getD (sampleChainKey 0)).getMessageKeys
    sampleProvider

/-- A state that no session gets into may give keys twice: a skipped counter may be held twice, may not be behind the chain, or
may belong to a chain without a key. And a message of another version is no duplicate: it is refused for its version. -/
theorem message_keys_used_twice :
    SampleReuse (sampleReceiving (some (sampleChainKey 5)) [sampleKeys 3, sampleKeys 3]) 3 (sampleKeys 3) ∧
    SampleReuse (sampleReceiving (some (sampleChainKey 4)) [sampleKeys 4]) 4 (sampleKeys 4) ∧
    SampleReuse (sampleReceiving none [sampleNewKeys]) 0 sampleNewKeys ∧
    ((sampleAttempt 0).result sampleContext (sampleReceiving (some (sampleChainKey 0)) [])).isOk ∧
    decryptFromState sampleContext (sampleKey 8)
        (runAttempts sampleContext (sampleReceiving (some (sampleChainKey 0)) []) [sampleAttempt 0])
        { sampleMessage 0 [1] with messageVersion := 2 } =
      (.error sgErrInvalidMessage,
        runAttempts sampleContext (sampleReceiving (some (sampleChainKey 0)) []) [sampleAttempt 0]) := by
  decide +kernel

end Osp.Signal
