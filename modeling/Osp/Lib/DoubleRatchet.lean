import Osp.Lib.KeyChain

/-!
# The double ratchet

Two parties take turns: on the first message under a new public key a party mixes it into its root key, which opens the sender's
chain, then mixes in a fresh key of its own, which opens its next sending chain. Each sending chain is an epoch; odd epochs are
the initiator's and even ones the responder's. The `History` of a conversation says which keys the epochs had and how far their
chains were used, and `Describes` that two parties are where the history says: the chains a party receives on are then the very
chains the other party sends on.
-/

namespace Osp.Lib

open List Function

/-- The two parties of a conversation. -/
inductive Side
  | initiator
  | responder
deriving DecidableEq

/-- The other party. -/
def Side.other : Side → Side
  | .initiator => .responder
  | .responder => .initiator

@[simp] theorem Side.other_other (x : Side) : x.other.other = x := by cases x <;> rfl

theorem Side.other_ne (x : Side) : x.other ≠ x := by cases x <;> decide

theorem Side.eq_other_of_ne {x y : Side} (h : x ≠ y) : x = y.other := by cases x <;> cases y <;> simp_all [Side.other]

/-- The primitives of a double ratchet: `mix` is the Diffie-Hellman step and the derivation after it. -/
structure RatchetSuite (Pub Priv Root κ μ : Type) where
  chain : KeyChain κ μ
  pub : Priv → Pub
  mix : Root → Pub → Priv → Root × κ
  mix_comm : ∀ r a b, mix r (pub a) b = mix r (pub b) a
  index_mix : ∀ r A b, chain.index (mix r A b).2 = 0

namespace DoubleRatchet

variable {Pub Priv Root κ μ : Type}

/-- A party: its root key, its private ratchet key, its sending chain, and its receiving chains by the sender's key, oldest
first. -/
structure Party (Pub Priv Root κ μ : Type) where
  root : Root
  own : Priv
  send : κ
  recv : List (Pub × Receiver κ μ)

variable (S : RatchetSuite Pub Priv Root κ μ) (chains : Nat)

namespace Party

variable [DecidableEq Pub]

/-- The receiving chain under a public key. -/
def find (A : Pub) (p : Party Pub Priv Root κ μ) : Option (Receiver κ μ) := (p.recv.find? (·.1 == A)).map Prod.snd

/-- Replace the receiving chain under a public key. -/
def put (A : Pub) (r : Receiver κ μ) (p : Party Pub Priv Root κ μ) : Party Pub Priv Root κ μ :=
  { p with recv := updateFirst (·.1 == A) (fun x => (x.1, r)) p.recv }

/-- A turn of the ratchet, on a public key that has no chain yet; only the newest `chains` receiving chains are kept. -/
def turn (fresh : Priv) (A : Pub) (p : Party Pub Priv Root κ μ) : Party Pub Priv Root κ μ :=
  let opened := S.mix p.root A p.own
  let sending := S.mix opened.1 A fresh
  { root := sending.1, own := fresh, send := sending.2, recv := lastN chains (p.recv ++ [(A, ⟨opened.2, []⟩)]) }

/-- The party once it has a chain for the public key. -/
def meet (fresh : Priv) (A : Pub) (p : Party Pub Priv Root κ μ) : Party Pub Priv Root κ μ :=
  if (p.find A).isSome then p else p.turn S chains fresh A

end Party

/-! ## Histories -/

/-- The party that sends in an epoch. -/
def owner (e : Nat) : Side := if e % 2 = 1 then .initiator else .responder

theorem owner_succ (e : Nat) : owner (e + 1) = (owner e).other := by
  unfold owner
  split <;> split <;> first | rfl | omega

theorem owner_add_two (e : Nat) : owner (e + 2) = owner e := by rw [owner_succ, owner_succ, Side.other_other]

/-- The epochs that a party in epoch `e` has received a chain for, oldest first. -/
def heard : Nat → List Nat
  | 0 => []
  | 1 => [0]
  | e + 2 => heard e ++ [e + 1]

variable {e i : Nat}

theorem lt_of_mem_heard (h : i ∈ heard e) : i < e := by
  induction e using heard.induct with
  | case1 => cases h
  | case2 => simp_all [heard]
  | case3 e ih =>
    rcases mem_append.1 h with h | h
    · have := ih h
      omega
    · have := mem_singleton.1 h
      omega

theorem mem_heard : i ∈ heard e ↔ i < e ∧ owner i = (owner e).other := by
  induction e using heard.induct with
  | case1 => simp [heard]
  | case2 =>
    simp only [heard, mem_singleton]
    constructor
    · rintro rfl
      exact ⟨by omega, rfl⟩
    · rintro ⟨h, -⟩
      omega
  | case3 e ih =>
    simp only [heard, mem_append, mem_singleton, ih, owner_add_two]
    constructor
    · rintro (⟨h, ho⟩ | rfl)
      · exact ⟨by omega, ho⟩
      · exact ⟨by omega, owner_succ e⟩
    · rintro ⟨h, ho⟩
      by_cases hi : i = e + 1
      · exact .inr hi
      · by_cases hie : i = e
        · subst hie
          exact absurd ho.symm (Side.other_ne _)
        · exact .inl ⟨by omega, ho⟩

theorem nodup_heard (e : Nat) : (heard e).Nodup := by
  induction e using heard.induct with
  | case1 => exact nodup_nil
  | case2 => exact nodup_singleton 0
  | case3 e ih =>
    refine nodup_append.2 ⟨ih, nodup_singleton _, ?_⟩
    rintro a ha b hb rfl
    have := lt_of_mem_heard ha
    have := mem_singleton.1 hb
    omega

/-- What has happened in a conversation: the first root and chain, the private keys of the epochs, the number of the last epoch
that one party has not heard from, how many messages each epoch has had, and what its receiver still has open. -/
structure History (Priv Root κ : Type) where
  root : Root
  chain : κ
  key : Nat → Priv
  turns : Nat
  sent : Nat → Nat
  window : Nat → Window

namespace History

variable (h : History Priv Root κ)

/-- The root and the first chain key of an epoch. -/
def base : Nat → Root × κ
  | 0 => (h.root, h.chain)
  | e + 1 => S.mix (base e).1 (S.pub (h.key e)) (h.key (e + 1))

/-- The chain key of an epoch after `n` messages. -/
def chainKey (e n : Nat) : κ := S.chain.next^[n] (h.base S e).2

/-- The material of message `n` of an epoch. -/
def material (e n : Nat) : μ := S.chain.keys (h.chainKey S e n)

/-- What the receiver of an epoch holds. -/
def receiver (e : Nat) : Receiver κ μ := (h.window e).map (h.chainKey S e) (h.material S e)

/-- The epoch a party sends in. -/
def epoch (x : Side) : Nat := if owner h.turns = x then h.turns else h.turns + 1

/-- One more message in an epoch. -/
def sending (e : Nat) : History Priv Root κ := { h with sent := Function.update h.sent e (h.sent e + 1) }

/-- One more message received in an epoch. -/
def receiving (e : Nat) (w : Window) : History Priv Root κ := { h with window := Function.update h.window e w }

/-- One more turn of the ratchet. -/
def turned (fresh : Priv) : History Priv Root κ :=
  { h with key := Function.update h.key (h.turns + 2) fresh, turns := h.turns + 1 }

end History

/-- A party is where the history has it in epoch `e`. -/
structure AtEpoch (h : History Priv Root κ) (e : Nat) (p : Party Pub Priv Root κ μ) : Prop where
  root : p.root = (h.base S e).1
  own : p.own = h.key e
  send : p.send = h.chainKey S e (h.sent e)
  recv : p.recv = (lastN chains (heard e)).map fun i => (S.pub (h.key i), h.receiver S i)

/-- The two parties are where the history has them: in the last two epochs, of which the older party has not heard the newer. -/
structure Describes (h : History Priv Root κ) (party : Side → Party Pub Priv Root κ μ) : Prop where
  at_epoch : ∀ x, AtEpoch S chains h (h.epoch x) (party x)
  inj : ∀ i ≤ h.turns + 1, ∀ j ≤ h.turns + 1, S.pub (h.key i) = S.pub (h.key j) → i = j
  index : S.chain.index h.chain = 0
  ordered : ∀ e, (h.window e).Ordered
  window_le : ∀ e, (h.window e).key ≤ h.sent e
  unheard : ∀ e, h.turns < e → h.window e = ⟨0, []⟩
  unsent : ∀ e, h.turns + 1 < e → h.sent e = 0

/-! ## What a history says of its chains -/

section History

variable {S chains} {h : History Priv Root κ} {party : Side → Party Pub Priv Root κ μ}

theorem index_base (h0 : S.chain.index h.chain = 0) : S.chain.index (h.base S e).2 = 0 := by
  cases e with
  | zero => exact h0
  | succ e => exact S.index_mix _ _ _

/-- The keys of an epoch are a chain that starts at counter `0`. -/
theorem follows (h0 : S.chain.index h.chain = 0) (e : Nat) : S.chain.Follows (h.chainKey S e) (h.material S e) 0 :=
  S.chain.follows_iterate (index_base h0) fun _ _ => rfl

theorem tracks (hd : Describes S chains h party) (e : Nat) :
    Receiver.Tracks S.chain (h.chainKey S e) (h.material S e) 0 (h.window e) (h.receiver S e) :=
  ⟨rfl, Nat.zero_le _, fun _ _ => (follows hd.index e).counter (Nat.zero_le _), hd.ordered e⟩

variable {e i : Nat} {x y : Side}

/-- The root and chains of an epoch depend on the keys up to it. -/
theorem base_congr (h' : History Priv Root κ) (hr : h'.root = h.root) (hc : h'.chain = h.chain) (hk : ∀ i ≤ e, h'.key i = h.key i) :
    h'.base S e = h.base S e := by
  induction e with
  | zero => rw [History.base, History.base, hr, hc]
  | succ e ih =>
    rw [History.base, History.base, ih (fun i hi => hk i (by omega)), hk e (by omega), hk (e + 1) (by omega)]

/-- A later history: the epochs so far have the keys and chains they had. -/
structure History.Later (S : RatchetSuite Pub Priv Root κ μ) (h h' : History Priv Root κ) : Prop where
  key : ∀ i ≤ h.turns + 1, h'.key i = h.key i
  base : ∀ i ≤ h.turns + 1, h'.base S i = h.base S i
  turns : h.turns ≤ h'.turns

section

variable {h' : History Priv Root κ} (hl : h.Later S h') {e : Nat} (he : e ≤ h.turns + 1)

include hl he

theorem History.Later.chainKey :
    h'.chainKey S e = h.chainKey S e := by
  funext n
  rw [History.chainKey, hl.base e he, History.chainKey]

theorem History.Later.material :
    h'.material S e = h.material S e := by
  funext n
  rw [History.material, hl.chainKey he, History.material]

theorem History.Later.receiver
    (hw : h'.window e = h.window e) : h'.receiver S e = h.receiver S e := by
  rw [History.receiver, hl.chainKey he, hl.material he, hw, History.receiver]

end

theorem later_sending (e : Nat) : h.Later S (h.sending e) :=
  ⟨fun _ _ => rfl, fun _ _ => base_congr (h := h) (h.sending e) rfl rfl fun _ _ => rfl, Nat.le_refl _⟩

theorem later_receiving (e : Nat) (w : Window) : h.Later S (h.receiving e w) :=
  ⟨fun _ _ => rfl, fun _ _ => base_congr (h := h) (h.receiving e w) rfl rfl fun _ _ => rfl, Nat.le_refl _⟩

/-- The material of an epoch does not depend on what was sent and received. -/
theorem material_sending (e : Nat) : (h.sending e).material S = h.material S := by
  funext i n
  rw [History.material, History.chainKey, base_congr (h := h) (h.sending e) rfl rfl fun _ _ => rfl]
  rfl

theorem material_receiving (e : Nat) (w : Window) : (h.receiving e w).material S = h.material S := by
  funext i n
  rw [History.material, History.chainKey, base_congr (h := h) (h.receiving e w) rfl rfl fun _ _ => rfl]
  rfl

theorem key_turned (fresh : Priv) (hi : i ≤ h.turns + 1) : (h.turned fresh).key i = h.key i :=
  update_of_ne (by omega) _ _

theorem later_turned (fresh : Priv) : h.Later S (h.turned fresh) :=
  ⟨fun _ hi => key_turned fresh hi,
    fun _ hi => base_congr (h := h) (h.turned fresh) rfl rfl fun _ hj => key_turned fresh (Nat.le_trans hj hi), Nat.le_succ _⟩

theorem owner_epoch (x : Side) : owner (h.epoch x) = x := by
  unfold History.epoch
  split
  · assumption
  · rename_i hx
    rw [owner_succ, Side.eq_other_of_ne hx, Side.other_other]

theorem epoch_le (x : Side) : h.epoch x ≤ h.turns + 1 := by
  unfold History.epoch
  split <;> omega

theorem turns_le_epoch (x : Side) : h.turns ≤ h.epoch x := by
  unfold History.epoch
  split <;> omega

/-- An epoch of the other party is heard, or it is the one epoch that is still to be heard. -/
theorem heard_or_new (he : e ≤ h.turns + 1) (ho : owner e = x.other) :
    e ∈ heard (h.epoch x) ∨ e = h.turns + 1 ∧ h.epoch x = h.turns := by
  have hx := owner_epoch (h := h) x
  by_cases hlt : e < h.epoch x
  · exact .inl (mem_heard.2 ⟨hlt, by rw [hx, ho]⟩)
  · right
    have hne : e ≠ h.epoch x := by
      rintro rfl
      rw [hx] at ho
      exact Side.other_ne _ ho.symm
    have := turns_le_epoch (h := h) x
    omega

/-! ## Finding a chain -/

theorem find_of_unique {α : Type} {l : List α} {q : α → Bool} {a : α} (ha : a ∈ l) (hq : q a = true)
    (hu : ∀ b ∈ l, q b = true → b = a) : l.find? q = some a := by
  cases hf : l.find? q with
  | none => exact absurd hq (by simpa using List.find?_eq_none.1 hf a ha)
  | some b => rw [hu b (mem_of_find?_eq_some hf) (List.find?_some hf)]

theorem mem_heard_le (hi : i ∈ lastN chains (heard (h.epoch x))) : i ≤ h.turns + 1 := by
  have h1 := lt_of_mem_heard ((lastN_suffix _ _).subset hi)
  have h2 := epoch_le (h := h) x
  omega

/-- The chain of an epoch that a party has heard and kept is found under the key of the epoch. -/
theorem find_heard [DecidableEq Pub] (hd : Describes S chains h party) (hi : i ∈ lastN chains (heard (h.epoch x))) :
    (party x).find (S.pub (h.key i)) = some (h.receiver S i) := by
  have hu : ∀ j ∈ lastN chains (heard (h.epoch x)), (S.pub (h.key j) == S.pub (h.key i)) = true → j = i := fun j hj hij =>
    hd.inj j (mem_heard_le hj) i (mem_heard_le hi) (by simpa using hij)
  have hf := find_of_unique (q := fun j => S.pub (h.key j) == S.pub (h.key i)) hi (by simp) hu
  rw [Party.find, (hd.at_epoch x).recv, List.find?_map, comp_def, hf]
  rfl

/-- The epoch that is still to be heard is found under no key. -/
theorem find_new [DecidableEq Pub] (hd : Describes S chains h party) (hx : h.epoch x = h.turns) :
    (party x).find (S.pub (h.key (h.turns + 1))) = none := by
  rw [Party.find, (hd.at_epoch x).recv, List.find?_map, Option.map_map, Option.map_eq_none_iff, List.find?_eq_none]
  intro j hj hij
  have hj' := lt_of_mem_heard ((lastN_suffix _ _).subset hj)
  have := hd.inj j (by omega) (h.turns + 1) (by omega) (by simpa using hij)
  omega

theorem epoch_ne (hxy : x ≠ y) : h.epoch x ≠ h.epoch y := fun he =>
  hxy (by rw [← owner_epoch (h := h) x, he, owner_epoch])

/-- The party that takes a turn comes into a new epoch. -/
theorem epoch_turned (hx : h.epoch x = h.turns) (fresh : Priv) : (h.turned fresh).epoch x = h.turns + 2 := by
  have hox : owner h.turns = x := hx ▸ owner_epoch x
  rw [History.epoch, show (h.turned fresh).turns = h.turns + 1 from rfl, owner_succ, hox, if_neg (Side.other_ne x)]

/-- The other party is in the newest epoch, and stays there. -/
theorem epoch_turned_of_ne (hx : h.epoch x = h.turns) (hy : y ≠ x) (fresh : Priv) :
    h.epoch y = h.turns + 1 ∧ (h.turned fresh).epoch y = h.turns + 1 := by
  have hox : owner h.turns = x := hx ▸ owner_epoch x
  have hy1 : h.epoch y = h.turns + 1 := if_neg fun ho => hy (by rw [← ho, hox])
  refine ⟨hy1, ?_⟩
  rw [History.epoch, show (h.turned fresh).turns = h.turns + 1 from rfl, if_pos]
  rw [← hy1, owner_epoch]

/-! ## One step of either party -/

/-- Sending uses the next material of the epoch and leaves the parties where the history with one more message has them. -/
theorem Describes.sending (hd : Describes S chains h party) (x : Side) :
    S.chain.keys (party x).send = h.material S (h.epoch x) (h.sent (h.epoch x)) ∧
    Describes S chains (h.sending (h.epoch x))
      (Function.update party x { party x with send := S.chain.next (party x).send }) := by
  have hl := later_sending (S := S) (h := h) (h.epoch x)
  refine ⟨by rw [(hd.at_epoch x).send, History.material], ⟨fun y => ?_, hd.inj, hd.index, hd.ordered, fun e => ?_,
    hd.unheard, fun e he => ?_⟩⟩
  · have hrecv : ∀ z, (party z).recv = (lastN chains (heard (h.epoch z))).map fun i =>
        (S.pub (h.key i), (h.sending (h.epoch x)).receiver S i) := fun z => by
      rw [(hd.at_epoch z).recv]
      refine map_congr_left fun i hi => ?_
      rw [hl.receiver (mem_heard_le hi) rfl]
    by_cases hy : y = x
    · subst hy
      rw [update_self]
      refine ⟨?_, (hd.at_epoch y).own, ?_, hrecv y⟩
      · rw [show (h.sending (h.epoch y)).epoch y = h.epoch y from rfl, hl.base _ (epoch_le y)]
        exact (hd.at_epoch y).root
      · rw [show (h.sending (h.epoch y)).epoch y = h.epoch y from rfl, hl.chainKey (epoch_le y)]
        simp only [History.sending, update_self, (hd.at_epoch y).send]
        exact (iterate_succ_apply' ..).symm
    · rw [update_of_ne hy]
      refine ⟨?_, (hd.at_epoch y).own, ?_, hrecv y⟩
      · rw [show (h.sending (h.epoch x)).epoch y = h.epoch y from rfl, hl.base _ (epoch_le y)]
        exact (hd.at_epoch y).root
      · rw [show (h.sending (h.epoch x)).epoch y = h.epoch y from rfl, hl.chainKey (epoch_le y)]
        simp only [History.sending, update_of_ne (epoch_ne (h := h) hy), (hd.at_epoch y).send]
  · refine Nat.le_trans (hd.window_le e) ?_
    simp only [History.sending, update_apply]
    split
    · rename_i he
      rw [he]
      omega
    · exact Nat.le_refl _
  · have := epoch_le (h := h) x
    have he' : h.turns + 1 < e := he
    exact (update_of_ne (by omega) _ _).trans (hd.unsent e he)

/-- A turn on the key of the epoch that is still to be heard opens the chain of that epoch. -/
theorem Describes.turned (hd : Describes S chains h party) {x : Side} (hx : h.epoch x = h.turns) {fresh : Priv}
    (hfresh : ∀ i ≤ h.turns + 1, S.pub (h.key i) ≠ S.pub fresh) :
    Describes S chains (h.turned fresh)
      (Function.update party x ((party x).turn S chains fresh (S.pub (h.key (h.turns + 1))))) := by
  have hl := later_turned (S := S) (h := h) fresh
  have hopen : S.mix (party x).root (S.pub (h.key (h.turns + 1))) (party x).own = h.base S (h.turns + 1) := by
    rw [(hd.at_epoch x).root, (hd.at_epoch x).own, hx, S.mix_comm, History.base]
  have hbase : (h.turned fresh).base S (h.turns + 2) = S.mix (h.base S (h.turns + 1)).1 (S.pub (h.key (h.turns + 1))) fresh := by
    rw [History.base, hl.base _ (Nat.le_refl _), hl.key _ (Nat.le_refl _), History.turned]
    simp only [update_self]
  refine ⟨fun y => ?_, fun i hi j hj hij => ?_, hd.index, hd.ordered, hd.window_le, fun e he => hd.unheard e ?_,
    fun e he => hd.unsent e ?_⟩
  · by_cases hy : y = x
    · subst hy
      rw [update_self, epoch_turned hx, Party.turn]
      simp only [hopen]
      refine ⟨by rw [hbase], by simp [History.turned], ?_, ?_⟩
      · rw [History.chainKey, hbase, show (h.turned fresh).sent = h.sent from rfl, hd.unsent _ (by omega)]
        rfl
      · have hnew : ((S.pub (h.key (h.turns + 1)), (⟨(h.base S (h.turns + 1)).2, []⟩ : Receiver κ μ))) =
            (S.pub ((h.turned fresh).key (h.turns + 1)), (h.turned fresh).receiver S (h.turns + 1)) := by
          rw [hl.key _ (Nat.le_refl _), hl.receiver (Nat.le_refl _) rfl, History.receiver, hd.unheard _ (by omega)]
          rfl
        have hold : (party y).recv = (lastN chains (heard h.turns)).map fun i =>
            (S.pub ((h.turned fresh).key i), (h.turned fresh).receiver S i) := by
          rw [(hd.at_epoch y).recv, hx]
          refine map_congr_left fun i hi => ?_
          have := lt_of_mem_heard ((lastN_suffix _ _).subset hi)
          rw [hl.key i (by omega), hl.receiver (by omega) rfl]
        rw [hold, hnew]
        exact lastN_map_append (fun i => (S.pub ((h.turned fresh).key i), (h.turned fresh).receiver S i)) ..
    · obtain ⟨hy1, hy2⟩ := epoch_turned_of_ne hx hy fresh
      have hat := hd.at_epoch y
      rw [hy1] at hat
      rw [update_of_ne hy, hy2]
      refine ⟨by rw [hat.root, hl.base _ (Nat.le_refl _)], by rw [hat.own, hl.key _ (Nat.le_refl _)], ?_, ?_⟩
      · rw [hat.send, hl.chainKey (Nat.le_refl _), show (h.turned fresh).sent = h.sent from rfl]
      · rw [hat.recv]
        refine map_congr_left fun i hi => ?_
        have := lt_of_mem_heard ((lastN_suffix _ _).subset hi)
        rw [hl.key i (by omega), hl.receiver (by omega) rfl]
  · have hi' : i ≤ h.turns + 2 := hi
    have hj' : j ≤ h.turns + 2 := hj
    have hnew : (h.turned fresh).key (h.turns + 2) = fresh := by simp [History.turned]
    by_cases hin : i = h.turns + 2 <;> by_cases hjn : j = h.turns + 2
    · rw [hin, hjn]
    · rw [hin, hnew, hl.key j (by omega)] at hij
      exact absurd hij.symm (hfresh j (by omega))
    · rw [hjn, hnew, hl.key i (by omega)] at hij
      exact absurd hij (hfresh i (by omega))
    · rw [hl.key i (by omega), hl.key j (by omega)] at hij
      exact hd.inj i (by omega) j (by omega) hij
  · exact Nat.lt_of_succ_lt he
  · exact Nat.lt_of_succ_lt he

end History

end DoubleRatchet

end Osp.Lib
