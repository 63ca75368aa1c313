import Osp.Lib.DoubleRatchet

/-!
# Delivery in the double ratchet

What a party does with a message that names a public key and a counter, and what two parties that a history describes do with
each other's messages: they give the material of exactly the positions their windows have open. `Accounted` says where the
positions that are not open any more have gone.
-/

namespace Osp.Lib.DoubleRatchet

open List Function

variable {Pub Priv Root κ μ : Type} [DecidableEq Pub]

namespace Party

variable (S : RatchetSuite Pub Priv Root κ μ) (chains cap ahead : Nat)

/-- The material for a counter under a public key, and the party after it was used. -/
def deliver (fresh : Priv) (A : Pub) (c : UInt32) (p : Party Pub Priv Root κ μ) :
    Except Refusal (μ × Party Pub Priv Root κ μ) :=
  match (p.meet S chains fresh A).find A with
  | none => .error .tooFar
  | some r => (r.take S.chain cap ahead c).map fun mr => (mr.1, (p.meet S chains fresh A).put A mr.2)

omit [DecidableEq Pub] in
/-- The public keys that have a receiving chain. -/
def keys (p : Party Pub Priv Root κ μ) : List Pub := p.recv.map Prod.fst

omit [DecidableEq Pub] in
/-- The counters whose material is stored, by public key. -/
def stored (p : Party Pub Priv Root κ μ) : List (Pub × UInt32) :=
  p.recv.flatMap fun chain => chain.2.stored.map fun m => (chain.1, S.chain.counter m)

end Party

/-- Using a chain does not change which chains there are. -/
@[simp] theorem Party.keys_put (A : Pub) (r : Receiver κ μ) (p : Party Pub Priv Root κ μ) : (p.put A r).keys = p.keys := by
  refine map_updateFirst (fun x => ?_) _
  rfl

/-- A turn opens the chain under the key it was taken on. -/
theorem Party.find_turn {S : RatchetSuite Pub Priv Root κ μ} {chains : Nat} {p : Party Pub Priv Root κ μ} {A : Pub}
    (h : p.find A = none) (hc : 0 < chains) (fresh : Priv) :
    (p.turn S chains fresh A).find A = some ⟨(S.mix p.root A p.own).2, []⟩ := by
  have hlast : [(A, (⟨(S.mix p.root A p.own).2, []⟩ : Receiver κ μ))] <:+ (p.turn S chains fresh A).recv :=
    suffix_lastN (suffix_append _ _) hc
  rw [Party.find, find_of_unique (hlast.subset (mem_singleton_self _)) (by simp)]
  · rfl
  · intro chain hchain hA
    rcases mem_append.1 ((lastN_suffix _ _).subset hchain) with hold | hnew
    · rw [Party.find, Option.map_eq_none_iff, List.find?_eq_none] at h
      exact absurd hA (h chain hold)
    · exact mem_singleton.1 hnew

/-- The history once a party has heard an epoch. -/
def History.met (h : History Priv Root κ) (x : Side) (e : Nat) (fresh : Priv) : History Priv Root κ :=
  if e ∈ heard (h.epoch x) then h else h.turned fresh

variable {S : RatchetSuite Pub Priv Root κ μ} {chains cap ahead : Nat} {h : History Priv Root κ}
  {party : Side → Party Pub Priv Root κ μ} {x : Side} {e : Nat} {fresh : Priv} {c : UInt32} {p : Nat} {w' : Window}

omit [DecidableEq Pub] in
theorem later_met (x : Side) (e : Nat) (fresh : Priv) : h.Later S (h.met x e fresh) := by
  unfold History.met
  split
  · exact ⟨fun _ _ => rfl, fun _ _ => rfl, Nat.le_refl _⟩
  · exact later_turned fresh

@[simp] theorem window_met : (h.met x e fresh).window = h.window := by
  unfold History.met
  split <;> rfl

@[simp] theorem sent_met : (h.met x e fresh).sent = h.sent := by
  unfold History.met
  split <;> rfl

/-! ## Meeting a key -/

/-- A message of an epoch that the party can take: one of the other party, whose chain it has kept if it ever had it. The key the
party draws is new if it is needed. -/
structure Admits (S : RatchetSuite Pub Priv Root κ μ) (chains : Nat) (h : History Priv Root κ) (x : Side) (e : Nat)
    (fresh : Priv) : Prop where
  le : e ≤ h.turns + 1
  owner : owner e = x.other
  kept : e ∈ heard (h.epoch x) → e ∈ lastN chains (heard (h.epoch x))
  fresh : e ∉ heard (h.epoch x) → ∀ i ≤ h.turns + 1, S.pub (h.key i) ≠ S.pub fresh

omit [DecidableEq Pub] in
/-- The epochs that are heard once such a message is met. -/
theorem Admits.heard_met (ha : Admits S chains h x e fresh) (y : Side) :
    heard ((h.met x e fresh).epoch y) = heard (h.epoch y) ∨
    y = x ∧ heard ((h.met x e fresh).epoch y) = heard (h.epoch y) ++ [e] := by
  rcases heard_or_new ha.le ha.owner with hh | ⟨rfl, hx⟩
  · rw [History.met, if_pos hh]
    exact .inl rfl
  · have hh : h.turns + 1 ∉ heard (h.epoch x) := fun hh => by
      have := lt_of_mem_heard hh
      omega
    rw [History.met, if_neg hh]
    by_cases hy : y = x
    · subst hy
      exact .inr ⟨rfl, by rw [epoch_turned hx, heard, hx]⟩
    · obtain ⟨h1, h2⟩ := epoch_turned_of_ne hx hy fresh
      exact .inl (by rw [h1, h2])

/-- Meeting the key of such a message leaves the party with the chain of the epoch. -/
theorem Describes.met (hd : Describes S chains h party) (hc : 0 < chains) (ha : Admits S chains h x e fresh) :
    Describes S chains (h.met x e fresh)
      (Function.update party x ((party x).meet S chains fresh (S.pub (h.key e)))) ∧
    e ∈ lastN chains (heard ((h.met x e fresh).epoch x)) := by
  rcases heard_or_new ha.le ha.owner with hh | ⟨rfl, hx⟩
  · rw [History.met, if_pos hh, Party.meet, find_heard hd (ha.kept hh), Option.isSome_some, if_pos rfl,
      update_eq_self]
    exact ⟨hd, ha.kept hh⟩
  · have hh : h.turns + 1 ∉ heard (h.epoch x) := fun hh => by
      have := lt_of_mem_heard hh
      omega
    rw [History.met, if_neg hh, Party.meet, find_new hd hx, Option.isSome_none, if_neg (by decide), epoch_turned hx]
    refine ⟨hd.turned hx (ha.fresh hh), ?_⟩
    have hlast : [h.turns + 1] <:+ lastN chains (heard h.turns ++ [h.turns + 1]) :=
      suffix_lastN (suffix_append _ _) hc
    exact hlast.subset (mem_singleton_self _)

/-! ## Taking a message -/

/-- Using a position of a kept chain leaves the parties where the history with one more message received has them. -/
theorem Describes.receiving (hd : Describes S chains h party) (hi : e ∈ lastN chains (heard (h.epoch x)))
    (hg : (h.window e).Gave p w') (hp : p < h.sent e) :
    Describes S chains (h.receiving e w') (Function.update party x
      ((party x).put (S.pub (h.key e)) (w'.map (h.chainKey S e) (h.material S e)))) := by
  have hl := later_receiving (S := S) (h := h) e w'
  have hother : ∀ {y j}, j ∈ lastN chains (heard (h.epoch y)) → j ≠ e →
      (h.receiving e w').receiver S j = h.receiver S j := fun hj hne =>
    hl.receiver (mem_heard_le hj) (update_of_ne hne _ _)
  have hself : (h.receiving e w').receiver S e = w'.map (h.chainKey S e) (h.material S e) := by
    rw [History.receiver, hl.chainKey (mem_heard_le hi), hl.material (mem_heard_le hi)]
    simp [History.receiving]
  refine ⟨fun y => ?_, hd.inj, hd.index, fun j => ?_, fun j => ?_, fun j hj => ?_, hd.unsent⟩
  · have hat := hd.at_epoch y
    have hroot : (party y).root = ((h.receiving e w').base S (h.epoch y)).1 := by rw [hat.root, hl.base _ (epoch_le y)]
    have hsend : (party y).send = (h.receiving e w').chainKey S (h.epoch y) (h.sent (h.epoch y)) := by
      rw [hat.send, hl.chainKey (epoch_le y)]
    by_cases hy : y = x
    · subst hy
      rw [update_self]
      refine ⟨hroot, hat.own, hsend, ?_⟩
      rw [Party.put, hat.recv]
      refine updateFirst_map (i := e) ((nodup_heard _).sublist (lastN_suffix _ _).sublist) ?_ ?_ ?_
      · intro j hj
        simp only [beq_iff_eq]
        exact ⟨hd.inj j (mem_heard_le hj) e (mem_heard_le hi), fun hje => by rw [hje]⟩
      · rw [hself]
        rfl
      · intro j hj hne
        rw [hother hj hne]
        rfl
    · rw [update_of_ne hy]
      refine ⟨hroot, hat.own, hsend, ?_⟩
      rw [hat.recv]
      refine map_congr_left fun j hj => ?_
      have hne : j ≠ e := by
        rintro rfl
        have hjy := (mem_heard.1 ((lastN_suffix _ _).subset hj)).2
        have hjx := (mem_heard.1 ((lastN_suffix _ _).subset hi)).2
        rw [owner_epoch, hjx, owner_epoch] at hjy
        exact hy (by rw [← Side.other_other y, ← hjy, Side.other_other])
      rw [hother hj hne]
      rfl
  · by_cases hj : j = e
    · subst hj
      simpa [History.receiving] using hg.ordered
    · simpa [History.receiving, update_of_ne hj] using hd.ordered j
  · by_cases hj : j = e
    · subst hj
      have hk := hg.key_eq
      have := hd.window_le j
      simp only [History.receiving, update_self]
      omega
    · simpa [History.receiving, update_of_ne hj] using hd.window_le j
  · have hj' : h.turns < j := hj
    have hne : j ≠ e := by
      rintro rfl
      have := lt_of_mem_heard ((lastN_suffix _ _).subset hi)
      have := epoch_le (h := h) x
      omega
    simpa [History.receiving, update_of_ne hne] using hd.unheard j hj

section

variable (hd : Describes S chains h party) (hc : 0 < chains) (ha : Admits S chains h x e fresh)

include hd hc ha

/-- A party gives for a counter what the window of the epoch gives, and refuses what it refuses. -/
theorem Describes.deliver_eq
    (cap ahead : Nat) (c : UInt32) :
    (party x).deliver S chains cap ahead fresh (S.pub (h.key e)) c =
      (Receiver.take positions cap ahead (h.window e) c).map fun pw => (h.material S e pw.1,
        ((party x).meet S chains fresh (S.pub (h.key e))).put (S.pub (h.key e))
          (pw.2.map (h.chainKey S e) (h.material S e))) := by
  obtain ⟨hd', hmem⟩ := hd.met hc ha
  have hl := later_met (S := S) (h := h) x e fresh
  have hfind := find_heard hd' hmem
  have ht := tracks hd e
  rw [update_self, hl.key e ha.le, hl.receiver ha.le (by rw [window_met])] at hfind
  rw [Party.deliver, hfind]
  simp only
  rw [ht.eq, Receiver.take_map (follows hd.index e) c ht.le ht.counter]
  cases Receiver.take positions cap ahead (h.window e) c <;> rfl

/-- The parties after a message was taken. -/
theorem Describes.delivered
    (hg : (h.window e).Gave p w') (hp : p < h.sent e) :
    Describes S chains ((h.met x e fresh).receiving e w') (Function.update party x
      (((party x).meet S chains fresh (S.pub (h.key e))).put (S.pub (h.key e))
        (w'.map (h.chainKey S e) (h.material S e)))) := by
  obtain ⟨hd', hmem⟩ := hd.met hc ha
  have hl := later_met (S := S) (h := h) x e fresh
  have := hd'.receiving hmem (by rwa [window_met]) (by rwa [sent_met])
  rwa [update_self, update_idem, hl.key e ha.le, hl.chainKey ha.le, hl.material ha.le] at this

end

/-! ## What has become of the positions -/

/-- Where the chains and positions that a receiver no longer has went: a chain it heard is kept or lost, and a position it passed
is stored or gone. -/
structure Accounted (S : RatchetSuite Pub Priv Root κ μ) (chains : Nat) (h : History Priv Root κ)
    (lost : Side → Pub → Prop) (gone : Nat → Nat → Prop) : Prop where
  chain : ∀ x, ∀ i ∈ heard (h.epoch x), i ∈ lastN chains (heard (h.epoch x)) ∨ lost x (S.pub (h.key i))
  position : ∀ i q, q < (h.window i).key → q ∈ (h.window i).stored ∨ gone i q

variable {lost lost' : Side → Pub → Prop} {gone gone' : Nat → Nat → Prop}

omit [DecidableEq Pub] in
/-- A chain that is kept is held under its key. -/
theorem mem_keys (hd : Describes S chains h party) {i : Nat} (hi : i ≤ h.turns + 1) :
    S.pub (h.key i) ∈ (party x).keys ↔ i ∈ lastN chains (heard (h.epoch x)) := by
  rw [Party.keys, (hd.at_epoch x).recv, map_map, mem_map]
  constructor
  · rintro ⟨j, hj, hji⟩
    rwa [← hd.inj j (mem_heard_le hj) i hi hji]
  · exact fun hi => ⟨i, hi, rfl⟩

omit [DecidableEq Pub] in
/-- A position that is stored is held under its key and counter, as long as no counter has wrapped. -/
theorem mem_stored (hd : Describes S chains h party) {i q : Nat} (hi : i ≤ h.turns + 1) (hs : h.sent i < 2 ^ 32)
    (hq : q < 2 ^ 32) :
    (S.pub (h.key i), UInt32.ofNat q) ∈ (party x).stored S ↔
      i ∈ lastN chains (heard (h.epoch x)) ∧ q ∈ (h.window i).stored := by
  have hcounter : ∀ j r, S.chain.counter (h.material S j r) = UInt32.ofNat r := fun j r =>
    (follows hd.index j).counter (Nat.zero_le _)
  simp only [Party.stored, (hd.at_epoch x).recv, mem_flatMap, mem_map]
  constructor
  · rintro ⟨-, ⟨j, hj, rfl⟩, m, hm, heq⟩
    obtain ⟨r, hr, rfl⟩ := mem_map.1 hm
    simp only [Prod.mk.injEq, hcounter] at heq
    obtain rfl := hd.inj j (mem_heard_le hj) i hi heq.1
    have hrlt := Nat.lt_of_lt_of_le ((hd.ordered j).lt r hr) (hd.window_le j)
    exact ⟨hj, eq_of_ofNat_eq (Nat.lt_trans hrlt hs) hq heq.2 ▸ hr⟩
  · rintro ⟨hi, hq⟩
    exact ⟨_, ⟨i, hi, rfl⟩, _, mem_map.2 ⟨q, hq, rfl⟩, by rw [hcounter]⟩

omit [DecidableEq Pub] in
theorem Accounted.sending (ha : Accounted S chains h lost gone) (e : Nat)
    (hgone : ∀ i q, q < (h.window i).key → gone i q → gone' i q) : Accounted S chains (h.sending e) lost gone' :=
  ⟨ha.chain, fun i q hq => (ha.position i q hq).imp_right (hgone i q hq)⟩

/-- When a party meets a key it loses no other chains than the ones it no longer holds. -/
theorem Accounted.met (ha : Accounted S chains h lost gone) (hd : Describes S chains h party) (hc : 0 < chains)
    (had : Admits S chains h x e fresh) (hlost : ∀ y A, lost y A → lost' y A)
    (hout : ∀ A ∈ (party x).keys, A ∉ ((party x).meet S chains fresh (S.pub (h.key e))).keys → lost' x A) :
    Accounted S chains (h.met x e fresh) lost' gone := by
  obtain ⟨hd', hmem⟩ := hd.met hc had
  have hl := later_met (S := S) (h := h) x e fresh
  refine ⟨fun y i hi => ?_, by simpa using ha.position⟩
  have hold : ∀ i ∈ heard (h.epoch y), i ∈ lastN chains (heard (h.epoch y)) ∨ lost' y (S.pub (h.key i)) := fun i hi =>
    (ha.chain y i hi).imp_right (hlost y _)
  have hle : ∀ i ∈ heard (h.epoch y), i ≤ h.turns + 1 := fun i hi => by
    have := lt_of_mem_heard hi
    have := epoch_le (h := h) y
    omega
  rcases had.heard_met y with hsame | ⟨rfl, hnew⟩
  · rw [hsame] at hi ⊢
    rw [hl.key i (hle i hi)]
    exact hold i hi
  · rw [hnew, mem_append, mem_singleton] at hi
    rcases hi with hi | rfl
    · rw [hl.key i (hle i hi)]
      rcases hold i hi with hkept | hgone
      · by_cases hk : i ∈ lastN chains (heard ((h.met y e fresh).epoch y))
        · exact .inl hk
        · refine .inr (hout _ ((mem_keys hd (hle i hi)).2 hkept) fun hin => hk ?_)
          have hmem' := (mem_keys hd' (x := y) (Nat.le_trans (hle i hi) (Nat.succ_le_succ hl.turns))).1
          rw [update_self, hl.key i (hle i hi)] at hmem'
          exact hmem' hin
      · exact .inr hgone
    · exact .inl hmem

omit [DecidableEq Pub] in
/-- When a window gives a position, that one is gone, and so are the stored ones it dropped. -/
theorem Accounted.receiving (ha : Accounted S chains h lost gone) (hg : (h.window e).Gave p w')
    (hgone : ∀ i q, q < (h.window i).key → gone i q → gone' i q) (hp : gone' e p)
    (hout : ∀ q ∈ (h.window e).stored, q ∉ w'.stored → q ≠ p → gone' e q) :
    Accounted S chains (h.receiving e w') lost gone' := by
  refine ⟨ha.chain, fun i q hq => ?_⟩
  by_cases hi : i = e
  · subst hi
    simp only [History.receiving, update_self] at hq ⊢
    by_cases hs : q ∈ w'.stored
    · exact .inl hs
    · right
      have hclosed : ¬ w'.Open q := fun ho => ho.elim hs (Nat.not_le.2 hq)
      by_cases ho : (h.window i).Open q
      · by_cases hqp : q = p
        · exact hqp ▸ hp
        · obtain ⟨hin, hnot⟩ := (hg.lost q ho hclosed).resolve_left hqp
          exact hout q hin hnot hqp
      · have hlt : q < (h.window i).key := Nat.lt_of_not_le fun hle => ho (.inr hle)
        exact hgone i q hlt ((ha.position i q hlt).resolve_left fun hin => ho (.inl hin))
  · simp only [History.receiving, update_of_ne hi] at hq ⊢
    exact (ha.position i q hq).imp_right (hgone i q hq)

omit [DecidableEq Pub] in
/-- A position that has been sent and is not gone is open. -/
theorem Accounted.open (ha : Accounted S chains h lost gone) (hp : ¬ gone e p) : (h.window e).Open p := by
  by_cases hlt : p < (h.window e).key
  · exact .inl ((ha.position e p hlt).resolve_right hp)
  · exact .inr (Nat.le_of_not_lt hlt)

end Osp.Lib.DoubleRatchet
