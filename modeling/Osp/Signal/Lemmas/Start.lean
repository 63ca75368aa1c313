import Osp.Signal.Lemmas.Conversation

/-!
# The beginning of a conversation

The two initialisers agree on their secret, so the states they leave are those of two parties whose history has just begun.
-/

namespace Osp.Signal

open Osp.Lib Osp.Lib.DoubleRatchet List

variable {ctx : Context} {alice : AliceParameters} {bob : BobParameters}

/-- Both initialisers gather the same secret. -/
theorem Matching.secret_eq {p : CryptoProvider} (hp : p.Lawful) (hm : Matching p alice bob) : bob.secret p = alice.secret p := by
  have hcomm : ∀ {a b : EcKeyPair}, a.Proper p → b.Proper p →
      p.agreement a.publicKey b.privateKey = p.agreement b.publicKey a.privateKey := by
    intro a b ha hb
    rw [ha, hb, hp.agreement_comm]
  rw [BobParameters.secret, AliceParameters.secret, hm.bobTheirIdentity, hm.bobTheirBase, hm.aliceTheirIdentity,
    hm.aliceTheirSigned, hm.aliceTheirOneTime, hcomm hm.aliceIdentity hm.bobSigned, hcomm hm.aliceBase hm.bobIdentity,
    hcomm hm.aliceBase hm.bobSigned]
  cases hot : bob.ourOneTimePreKey with
  | none => rfl
  | some pair => simp only [Option.map_some, hcomm hm.aliceBase (hm.bobOneTime pair hot)]

/-- The identities of the two parties. -/
def identityOf (alice : AliceParameters) (bob : BobParameters) : Side → EcPublicKey
  | .initiator => alice.ourIdentityKey.publicKey
  | .responder => bob.ourIdentityKey.publicKey

/-- The history of a conversation that has just begun. -/
def startHistory (p : CryptoProvider) (alice : AliceParameters) (bob : BobParameters) (random : EcPrivateKey) :
    History EcPrivateKey RatchetRootKey RatchetChainKey where
  root := (calculateDerivedKeys p (alice.secret p)).1
  chain := (calculateDerivedKeys p (alice.secret p)).2
  key := fun i => if i = 0 then bob.ourRatchetKey.privateKey else random
  turns := 0
  sent := fun _ => 0
  window := fun _ => ⟨0, []⟩

/-- The parties of a conversation that has just begun. -/
def startParty (p : CryptoProvider) (alice : AliceParameters) (bob : BobParameters) (random : EcPrivateKey) :
    Side → SessionParty
  | .initiator =>
    let derived := calculateDerivedKeys p (alice.secret p)
    let sending := derived.1.createChain p alice.theirRatchetKey random
    { root := sending.1, own := random, send := sending.2, recv := [(alice.theirRatchetKey, ⟨derived.2, []⟩)] }
  | .responder =>
    let derived := calculateDerivedKeys p (alice.secret p)
    { root := derived.1, own := bob.ourRatchetKey.privateKey, send := derived.2, recv := [] }

section

variable (hp : ctx.crypto.Lawful) (hm : Matching ctx.crypto alice bob)

include hp hm

theorem startParty_described {random : EcPrivateKey}
    (hne : ctx.crypto.publicKey random ≠ bob.ourRatchetKey.publicKey) :
    Describes hp.suite SessionState.maxReceiverChains (startHistory ctx.crypto alice bob random)
      (startParty ctx.crypto alice bob random) := by
  have hratchet : alice.theirRatchetKey = ctx.crypto.publicKey bob.ourRatchetKey.privateKey :=
    hm.aliceTheirRatchet.trans hm.bobRatchet
  refine ⟨fun x => ?_, fun i hi j hj hij => ?_, rfl, fun _ => ⟨nodup_nil, fun _ h => absurd h not_mem_nil⟩,
    fun _ => Nat.le_refl _, fun _ _ => rfl, fun _ _ => rfl⟩
  · cases x with
    | initiator => exact ⟨by rw [startParty, hratchet]; rfl, rfl, by rw [startParty, hratchet]; rfl,
        by rw [startParty, hratchet]; rfl⟩
    | responder => exact ⟨rfl, rfl, rfl, rfl⟩
  · have hi' : i ≤ 1 := hi
    have hj' : j ≤ 1 := hj
    have hne' : ctx.crypto.publicKey random ≠ ctx.crypto.publicKey bob.ourRatchetKey.privateKey := fun h =>
      hne (h.trans hm.bobRatchet.symm)
    interval_cases i <;> interval_cases j
    · rfl
    · exact absurd hij.symm hne'
    · exact absurd hij hne'
    · rfl

theorem startState_live (random : EcPrivateKey) (x : Side) :
    Live ctx.crypto (identityOf alice bob x) (identityOf alice bob x.other) (initialState ctx.crypto alice bob random x)
      (startParty ctx.crypto alice bob random x) := by
  obtain ⟨hroot, hchain⟩ := calculateDerivedKeys_fits ctx.crypto (alice.secret ctx.crypto)
  cases x with
  | initiator =>
    have hsend := hroot.createChain ctx.crypto alice.theirRatchetKey random
    refine ⟨⟨rfl, rfl, rfl⟩, ⟨?_, ?_, ?_⟩, rfl, rfl, by rw [Side.other, identityOf, ← hm.aliceTheirIdentity]; rfl, rfl⟩
    · rintro key ⟨⟩
      exact hsend.1
    · rintro chain ⟨⟩ key ⟨⟩
      exact hsend.2
    · intro chain hc
      obtain rfl := mem_singleton.1 hc
      rintro key ⟨⟩
      exact hchain
  | responder =>
    have hpair : curveGenerateKeyPair ctx.crypto bob.ourRatchetKey.privateKey = bob.ourRatchetKey := by
      rw [curveGenerateKeyPair, ← hm.bobRatchet]
    have hsecret := hm.secret_eq hp
    refine ⟨⟨?_, ?_, rfl⟩, ⟨?_, ?_, ?_⟩, rfl, rfl, by rw [Side.other, identityOf, ← hm.bobTheirIdentity]; rfl, rfl⟩
    all_goals simp only [initialState, ratchetingSessionBobInitialize, hsecret]
    · rfl
    · rw [startParty, hpair]
      rfl
    · rintro key ⟨⟩
      exact hroot
    · rintro chain ⟨⟩ key ⟨⟩
      exact hchain
    · exact fun chain hc => absurd hc not_mem_nil

/-- A conversation that has just begun is described. -/
theorem start_valid (hk : ctx.storage.Inverse)
    {random : EcPrivateKey} (hne : ctx.crypto.publicKey random ≠ bob.ourRatchetKey.publicKey) (address : Side → Address)
    (store : Side → Store ctx) :
    ∃ a : Account, a.Valid hp address (identityOf alice bob) (Conversation.start address store alice bob random) := by
  refine ⟨⟨startHistory ctx.crypto alice bob random, startParty ctx.crypto alice bob random, fun _ => []⟩, fun x => ?_,
    startParty_described hp hm hne, fun _ => rfl, fun _ => Nat.two_pow_pos 32, fun e q entry h => ?_, fun x m t h => ?_, fun i hi => ?_,
    ⟨fun x i hi => ?_, fun i q hq => absurd hq (Nat.not_lt_zero q)⟩⟩
  · have hlive := startState_live hp hm random x
    exact ⟨_, Store.holds_storeSession hk hlive.storable false, hlive⟩
  · simp at h
  · exact absurd h not_mem_nil
  · have hi' : i ≤ 1 := hi
    interval_cases i
    · exact mem_cons_of_mem _ (mem_singleton.2 hm.bobRatchet.symm)
    · exact mem_cons_self
  · refine .inl ?_
    cases x with
    | initiator => exact hi
    | responder => exact absurd hi not_mem_nil

end

end Osp.Signal
