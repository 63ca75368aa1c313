import Mathlib.Algebra.Group.Nat.Defs
import Mathlib.Data.List.Nodup
import Mathlib.Logic.Function.Iterate
import Osp.Lib.Lists

/-!
# Chains of keys and their receiver

A symmetric ratchet: a key yields the material of one message and its own successor, both stamped with a 32-bit counter. The
receiver of such a chain may meet the messages in any order, so it stores the material it passes over and uses each entry once.
What a receiver of any chain does is decided by counters alone; `Receiver.take_map` moves every fact about the chain of bare
positions, where a key is its place, to the receiver of a chain that follows it.
-/

namespace Osp.Lib

open List UInt32

variable {κ μ : Type}

/-- A chain of keys, counted modulo `2 ^ 32`. -/
structure KeyChain (κ μ : Type) where
  next : κ → κ
  keys : κ → μ
  index : κ → UInt32
  counter : μ → UInt32
  index_next : ∀ k, index (next k) = index k + 1
  counter_keys : ∀ k, counter (keys k) = index k

theorem KeyChain.index_iterate (C : KeyChain κ μ) (k : κ) (n : Nat) : C.index (C.next^[n] k) = C.index k + ofNat n := by
  induction n with
  | zero => simp
  | succ n ih => rw [Function.iterate_succ_apply', C.index_next, ih, ofNat_add, UInt32.add_assoc]; rfl

/-- Positions that have not wrapped have counters of their own. -/
theorem eq_of_ofNat_eq {p q : Nat} (hp : p < 2 ^ 32) (hq : q < 2 ^ 32) (h : ofNat p = ofNat q) : p = q := by
  have := congrArg toNat h
  rwa [toNat_ofNat_of_lt' hp, toNat_ofNat_of_lt' hq] at this

/-! ## The receiver of a chain -/

/-- What the receiver of a chain holds: the first key it has not passed, and the material it passed over, oldest first. -/
structure Receiver (κ μ : Type) where
  key : κ
  stored : List μ
deriving DecidableEq

/-- Why a receiver gives no material for a counter. -/
inductive Refusal
  | duplicate
  | tooFar

namespace Receiver

variable (C : KeyChain κ μ) (cap ahead : Nat) {r r' : Receiver κ μ} {c : UInt32} {m : μ}

/-- Passing over `n` keys stores the material of each; the oldest entries beyond `cap` are dropped. -/
def skip : Nat → Receiver κ μ → Receiver κ μ
  | 0, r => r
  | n + 1, r => skip n ⟨C.next r.key, lastN cap (r.stored ++ [C.keys r.key])⟩

/-- The material for a counter: a stored entry, used up, when the chain is past it; else the chain is advanced to it, unless it
is more than `ahead` away. -/
def take (r : Receiver κ μ) (c : UInt32) : Except Refusal (μ × Receiver κ μ) :=
  if c < C.index r.key then
    match r.stored.find? (C.counter · == c) with
    | some m => .ok (m, ⟨r.key, r.stored.eraseP (C.counter · == c)⟩)
    | none => .error .duplicate
  else if ahead < (c - C.index r.key).toNat then .error .tooFar
  else
    let r' := skip C cap (c - C.index r.key).toNat r
    .ok (C.keys r'.key, ⟨C.next r'.key, r'.stored⟩)

theorem skip_key (n : Nat) (r : Receiver κ μ) : (skip C cap n r).key = C.next^[n] r.key := by
  induction n generalizing r with
  | zero => rfl
  | succ n ih => rw [skip, ih, Function.iterate_succ_apply]

variable {C cap ahead} in
/-- What holds of the material of every key holds of what is given and stored, and no more than `cap` entries are stored. -/
theorem skip_forall {P : μ → Prop} (hP : ∀ k, P (C.keys k)) (n : Nat) (hr : ∀ m ∈ r.stored, P m)
    (hlen : r.stored.length ≤ cap) :
    (∀ m ∈ (skip C cap n r).stored, P m) ∧ (skip C cap n r).stored.length ≤ cap := by
  induction n generalizing r with
  | zero => exact ⟨hr, hlen⟩
  | succ n ih =>
    refine ih (fun m hm => ?_) (length_lastN_le _ _)
    rcases mem_append.1 ((lastN_suffix _ _).subset hm) with hm | hm
    · exact hr m hm
    · rw [mem_singleton.1 hm]
      exact hP _

variable {C cap ahead} in
/-- The two ways in which a receiver gives material: a stored entry is used up, or the chain is advanced. -/
theorem take_cases (h : take C cap ahead r c = .ok (m, r')) :
    (∃ l l', r.stored = l ++ m :: l' ∧ C.counter m = c ∧ r' = ⟨r.key, l ++ l'⟩) ∨
    (¬ c < C.index r.key ∧ ∃ n ≤ ahead, n = (c - C.index r.key).toNat ∧ m = C.keys (skip C cap n r).key ∧
      r' = ⟨C.next (skip C cap n r).key, (skip C cap n r).stored⟩) := by
  unfold take at h
  split at h
  · split at h
    · rename_i m hm
      cases h
      obtain ⟨hc, l, l', hs, hl⟩ := List.find?_eq_some_iff_append.1 hm
      refine .inl ⟨l, l', hs, by simpa using hc, ?_⟩
      have hl' : ∀ a ∈ l, ¬ (C.counter a == c) = true := by simpa using hl
      rw [hs, eraseP_append_right _ hl', eraseP_cons_of_pos (p := (C.counter · == c)) hc]
    · cases h
  · rename_i hlt
    split at h
    · cases h
    · rename_i hfar
      cases h
      exact .inr ⟨hlt, _, Nat.le_of_not_lt hfar, rfl, rfl, rfl⟩

variable {C cap ahead} in
theorem take_forall {P : μ → Prop} (hP : ∀ k, P (C.keys k))
    (hr : ∀ m ∈ r.stored, P m) (hlen : r.stored.length ≤ cap) (h : take C cap ahead r c = .ok (m, r')) :
    P m ∧ (∀ m ∈ r'.stored, P m) ∧ r'.stored.length ≤ cap := by
  obtain ⟨l, l', hstored, -, rfl⟩ | ⟨-, n, -, -, rfl, rfl⟩ := take_cases h
  · rw [hstored] at hr hlen
    refine ⟨hr m (by simp), fun a ha => hr a ?_, ?_⟩
    · rcases mem_append.1 ha with ha | ha <;> simp [ha]
    · simp only [length_append, length_cons] at hlen ⊢
      omega
  · exact ⟨hP _, skip_forall hP n hr hlen⟩

variable {C cap ahead} in
/-- Giving the material of any counter but the last does not make the counter of the receiver go back. -/
theorem index_le_of_take (hc : c.toNat + 1 < 2 ^ 32)
    (h : take C cap ahead r c = .ok (m, r')) : C.index r.key ≤ C.index r'.key := by
  obtain ⟨l, l', -, -, rfl⟩ | ⟨hlt, n, -, rfl, -, rfl⟩ := take_cases h
  · exact UInt32.le_refl _
  · rw [skip_key, C.index_next, C.index_iterate, UInt32.ofNat_toNat, UInt32.add_comm (C.index r.key), UInt32.sub_add_cancel,
      UInt32.le_iff_toNat_le, UInt32.toNat_add, UInt32.toNat_one, Nat.mod_eq_of_lt hc]
    rw [UInt32.lt_iff_toNat_lt] at hlt
    omega

/-- The receiver is past the counter and has no material stored for it. -/
structure Spent (r : Receiver κ μ) (c : UInt32) : Prop where
  lt : c < C.index r.key
  not_stored : ∀ m ∈ r.stored, C.counter m ≠ c

variable {C cap ahead} in
theorem Spent.take (h : r.Spent C c) : take C cap ahead r c = .error .duplicate := by
  have hfind : r.stored.find? (C.counter · == c) = none := by
    rw [List.find?_eq_none]
    intro m hm heq
    exact h.not_stored m hm (by simpa using heq)
  rw [Receiver.take, if_pos h.lt, hfind]

/-- A receiver whose key and entries are images of another's. -/
def map {κ' μ' : Type} (f : κ → κ') (g : μ → μ') (r : Receiver κ μ) : Receiver κ' μ' := ⟨f r.key, r.stored.map g⟩

end Receiver

/-! ## Positions -/

/-- The chain whose keys are their own positions. -/
def positions : KeyChain Nat Nat where
  next := (· + 1)
  keys := id
  index := UInt32.ofNat
  counter := UInt32.ofNat
  index_next := fun n => by simp [UInt32.ofNat_add]
  counter_keys := fun _ => rfl

@[simp] theorem positions_next (n : Nat) : positions.next n = n + 1 := rfl

@[simp] theorem positions_keys (n : Nat) : positions.keys n = n := rfl

@[simp] theorem positions_index (n : Nat) : positions.index n = UInt32.ofNat n := rfl

@[simp] theorem positions_counter (n : Nat) : positions.counter n = UInt32.ofNat n := rfl

/-- The receiver of the chain of positions. -/
abbrev Window := Receiver Nat Nat

namespace Window

/-- Stored positions are behind the next one and stored once. -/
structure Ordered (w : Window) : Prop where
  nodup : w.stored.Nodup
  lt : ∀ p ∈ w.stored, p < w.key

/-- A position is open while the receiver can still give its material. -/
def Open (w : Window) (p : Nat) : Prop := p ∈ w.stored ∨ w.key ≤ p

variable {cap ahead : Nat} {w w' : Window} {c : UInt32} {p q : Nat}

theorem skip_key (n : Nat) (w : Window) : (Receiver.skip positions cap n w).key = w.key + n := by
  induction n generalizing w with
  | zero => rfl
  | succ n ih =>
    rw [Receiver.skip, ih]
    simp only [positions_next]
    omega

/-- After a skip the entries are the newest of the old ones and the positions passed over. -/
theorem skip_stored_suffix (n : Nat) (w : Window) :
    (Receiver.skip positions cap n w).stored <:+ w.stored ++ List.range' w.key n := by
  induction n generalizing w with
  | zero => simp [Receiver.skip]
  | succ n ih =>
    refine (ih _).trans ?_
    obtain ⟨t, ht⟩ := lastN_suffix cap (w.stored ++ [w.key])
    refine ⟨t, ?_⟩
    rw [← append_assoc]
    simp only [positions_next, positions_keys]
    rw [ht, append_assoc, singleton_append, ← List.range'_succ]

/-- No position passed over is dropped in the same skip, as long as the skip is no longer than the list may be. -/
theorem range_suffix_skip_stored (n : Nat) (w : Window) (h : n ≤ cap) :
    List.range' w.key n <:+ (Receiver.skip positions cap n w).stored := by
  have key : ∀ (n : Nat) (w : Window) (s : List Nat), s.length + n ≤ cap → s <:+ w.stored →
      s ++ List.range' w.key n <:+ (Receiver.skip positions cap n w).stored := by
    intro n
    induction n with
    | zero => intro w s _ hs; simpa [Receiver.skip] using hs
    | succ n ih =>
      intro w s hn hs
      have hs' : s ++ [w.key] <:+ lastN cap (w.stored ++ [w.key]) := by
        refine suffix_lastN ?_ (by simp only [length_append, length_singleton]; omega)
        obtain ⟨t, ht⟩ := hs
        exact ⟨t, by rw [← append_assoc, ht]⟩
      have := ih ⟨w.key + 1, lastN cap (w.stored ++ [w.key])⟩ (s ++ [w.key])
        (by simp only [length_append, length_singleton]; omega) hs'
      rw [append_assoc, singleton_append, ← List.range'_succ] at this
      exact this
  simpa using key n w [] (by simpa using h) (nil_suffix)

/-- The two ways in which a window gives a position: a stored one is used up, or the window is advanced. -/
theorem take_cases (h : Receiver.take positions cap ahead w c = .ok (p, w')) :
    (∃ l r, w.stored = l ++ p :: r ∧ UInt32.ofNat p = c ∧ w' = ⟨w.key, l ++ r⟩) ∨
    (∃ n, n ≤ ahead ∧ UInt32.ofNat p = c ∧ p = w.key + n ∧
      w' = ⟨p + 1, (Receiver.skip positions cap n w).stored⟩) := by
  obtain hstored | ⟨-, n, hn, hc, hp, hw⟩ := Receiver.take_cases h
  · exact .inl hstored
  · rw [skip_key] at hp hw
    refine .inr ⟨n, hn, ?_, hp, hp ▸ hw⟩
    simp [hp, hc, UInt32.ofNat_add, UInt32.add_comm _ (c - _)]

/-- A window that holds its positions in increasing order goes on to. -/
theorem take_pairwise (hw : w.Ordered) (hs : w.stored.Pairwise (· < ·)) (h : Receiver.take positions cap ahead w c = .ok (p, w')) :
    w'.stored.Pairwise (· < ·) := by
  obtain ⟨l, r, hstored, -, rfl⟩ | ⟨n, -, -, -, rfl⟩ := take_cases h
  · rw [hstored] at hs
    exact hs.sublist ((sublist_cons_self p r).append_left l)
  · refine List.Pairwise.sublist (skip_stored_suffix n w).sublist (pairwise_append.2 ⟨hs, pairwise_lt_range', ?_⟩)
    intro a ha b hb
    exact Nat.lt_of_lt_of_le (hw.lt a ha) (mem_range'_1.1 hb).1

/-- What has happened to the window when it gave position `p`. -/
structure Gave (w : Window) (p : Nat) (w' : Window) : Prop where
  opened : w.Open p
  closed : ¬ w'.Open p
  mono : ∀ q, w'.Open q → w.Open q
  ordered : w'.Ordered
  key_eq : w'.key = max w.key (p + 1)
  lost : ∀ q, w.Open q → ¬ w'.Open q → q = p ∨ q ∈ w.stored ∧ q ∉ w'.stored

/-- A window that gives a position gives an open one, closes it and opens no other; what else it loses was stored. -/
theorem take_gave (hw : w.Ordered) (hcap : ahead ≤ cap) (h : Receiver.take positions cap ahead w c = .ok (p, w')) :
    w.Gave p w' := by
  obtain ⟨l, r, hs, -, rfl⟩ | ⟨n, hn, -, rfl, rfl⟩ := take_cases h
  · have hiff (q : Nat) : q ∈ w.stored ↔ q = p ∨ q ∈ l ++ r := by rw [hs, perm_middle.mem_iff, mem_cons]
    have hmem : p ∈ w.stored := (hiff p).2 (.inl rfl)
    have hnd : (p :: (l ++ r)).Nodup := perm_middle.nodup_iff.1 (hs ▸ hw.nodup)
    have hlt := hw.lt p hmem
    refine ⟨.inl hmem, ?_, ?_, ⟨(nodup_cons.1 hnd).2, ?_⟩, ?_, ?_⟩
    · rintro (hp | hp)
      · exact (nodup_cons.1 hnd).1 hp
      · exact absurd hp (Nat.not_le.2 hlt)
    · rintro q (hq | hq)
      · exact .inl ((hiff q).2 (.inr hq))
      · exact .inr hq
    · intro q hq
      exact hw.lt q ((hiff q).2 (.inr hq))
    · exact (Nat.max_eq_left hlt).symm
    · rintro q (hq | hq) hc
      · exact ((hiff q).1 hq).imp_right fun hq => absurd (.inl hq) hc
      · exact absurd (.inr hq) hc
  · have hsuf : (Receiver.skip positions cap n w).stored <:+ _ := skip_stored_suffix n w
    have hnew := range_suffix_skip_stored n w (Nat.le_trans hn hcap)
    have hmem : ∀ q ∈ (Receiver.skip positions cap n w).stored, q ∈ w.stored ∨ w.key ≤ q ∧ q < w.key + n := by
      intro q hq
      rcases mem_append.1 (hsuf.subset hq) with hq | hq
      · exact .inl hq
      · exact .inr (by simpa [mem_range'_1] using hq)
    have hnd : (w.stored ++ List.range' w.key n).Nodup := by
      refine nodup_append.2 ⟨hw.nodup, nodup_range', ?_⟩
      rintro a ha b hb rfl
      have := hw.lt a ha
      simp only [mem_range'_1] at hb
      omega
    refine ⟨.inr (Nat.le_add_right _ _), ?_, ?_, ⟨hnd.sublist hsuf.sublist, ?_⟩, by simp only; omega, ?_⟩
    · rintro (hp | hp)
      · rcases hmem _ hp with hp | hp
        · have := hw.lt _ hp
          omega
        · omega
      · simp only at hp
        omega
    · rintro q (hq | hq)
      · rcases hmem q hq with hq | hq
        · exact .inl hq
        · exact .inr hq.1
      · exact .inr (by simp only at hq; omega)
    · intro q hq
      simp only
      rcases hmem q hq with hq | hq
      · have := hw.lt q hq
        omega
      · omega
    · rintro q (hq | hq) hc
      · exact .inr ⟨hq, fun hq' => hc (.inl hq')⟩
      · by_cases hqn : q < w.key + n
        · exact absurd (.inl (hnew.subset (mem_range'_1.2 ⟨hq, hqn⟩))) hc
        · refine .inl (Nat.le_antisymm ?_ (Nat.le_of_not_lt hqn))
          by_contra hlt
          exact hc (.inr (by simp only; omega))

theorem toNat_ofNat_sub {a b : Nat} (hab : a ≤ b) (hb : b < 2 ^ 32) :
    (UInt32.ofNat b - UInt32.ofNat a).toNat = b - a := by
  rw [UInt32.toNat_sub_of_le _ _ (by rw [UInt32.le_iff_toNat_le]; simp; omega)]
  simp
  omega

/-- While no counter has wrapped, the window gives every open position that is not too far ahead. -/
theorem take_of_open (hw : w.Ordered) (hk : w.key < 2 ^ 32) (hp : p < 2 ^ 32) (h : w.Open p) (ha : p ≤ w.key + ahead) :
    ∃ w', Receiver.take positions cap ahead w (UInt32.ofNat p) = .ok (p, w') := by
  have hidx := ofNat_lt_iff_lt hp hk
  unfold Receiver.take
  rw [positions_index]
  by_cases hlt : p < w.key
  · have hmem : p ∈ w.stored := h.resolve_right (Nat.not_le.2 hlt)
    rw [if_pos (hidx.2 hlt)]
    cases hf : w.stored.find? (positions.counter · == UInt32.ofNat p) with
    | none => simpa using List.find?_eq_none.1 hf p hmem
    | some m =>
      have hm := List.find?_some hf
      have hmlt := Nat.lt_trans (hw.lt m (mem_of_find?_eq_some hf)) hk
      have : m = p := eq_of_ofNat_eq hmlt hp (by simpa using hm)
      exact ⟨_, by rw [this]⟩
  · have hdiff := toNat_ofNat_sub (Nat.le_of_not_lt hlt) hp
    rw [if_neg (hidx.not.2 hlt), hdiff, if_neg (by omega)]
    have hp' : w.key + (p - w.key) = p := by omega
    exact ⟨_, by simp only [skip_key, positions_keys, hp']; rfl⟩

/-- While no counter has wrapped, the window refuses every position that is behind it and not stored. -/
theorem take_of_closed (hw : w.Ordered) (hk : w.key < 2 ^ 32) (hp : p < w.key) (h : p ∉ w.stored) :
    Receiver.take positions cap ahead w (UInt32.ofNat p) = .error .duplicate := by
  refine Receiver.Spent.take ⟨(ofNat_lt_iff_lt (Nat.lt_trans hp hk) hk).2 hp, fun q hq heq => h ?_⟩
  rwa [← eq_of_ofNat_eq (Nat.lt_trans (hw.lt q hq) hk) (Nat.lt_trans hp hk) heq]

/-- While no counter has wrapped, the window refuses every position that is too far ahead. -/
theorem take_of_far (hk : w.key < 2 ^ 32) (hp : p < 2 ^ 32) (h : w.key + ahead < p) :
    Receiver.take positions cap ahead w (UInt32.ofNat p) = .error .tooFar := by
  unfold Receiver.take
  rw [positions_index, if_neg (by rw [ofNat_lt_iff_lt hp hk]; omega), toNat_ofNat_sub (by omega) hp, if_pos (by omega)]

/-- While no counter has wrapped, the position that is given is the one that was asked for. -/
theorem take_position (hw : w.Ordered) (hk : w.key < 2 ^ 32) (hp : p < 2 ^ 32)
    (h : Receiver.take positions cap ahead w (UInt32.ofNat p) = .ok (q, w')) : q = p := by
  by_cases ho : w.Open p
  · by_cases ha : p ≤ w.key + ahead
    · obtain ⟨w'', hok⟩ := take_of_open hw hk hp ho ha
      rw [hok, Except.ok.injEq, Prod.mk.injEq] at h
      exact h.1.symm
    · rw [take_of_far hk hp (by omega)] at h
      cases h
  · have hlt : p < w.key := Nat.lt_of_not_le fun hle => ho (.inr hle)
    rw [take_of_closed hw hk hlt fun hin => ho (.inl hin)] at h
    cases h

/-- As long as the counter of a window does not go back, it has not wrapped. -/
theorem take_key_lt (hw : w.Ordered) (hk : w.key < 2 ^ 32) (ha : ahead + 1 < 2 ^ 32)
    (h : Receiver.take positions cap ahead w c = .ok (p, w')) (hmono : UInt32.ofNat w.key ≤ UInt32.ofNat w'.key) :
    p = c.toNat ∧ w'.key < 2 ^ 32 := by
  have hp : p = c.toNat := take_position hw hk c.toNat_lt (by rwa [UInt32.ofNat_toNat])
  refine ⟨hp, ?_⟩
  have hc := c.toNat_lt
  obtain ⟨l, r, -, -, rfl⟩ | ⟨n, hn, -, hpn, rfl⟩ := take_cases h
  · exact hk
  · by_contra hge
    simp only at hge hmono
    have hwrap : p + 1 = 2 ^ 32 := by omega
    rw [hwrap, UInt32.le_iff_toNat_le, UInt32.toNat_ofNat_of_lt' hk] at hmono
    simp at hmono
    omega

end Window

/-! ## Chains that follow the positions -/

/-- From position `n` on, `f` names the keys of the chain and `g` the material. -/
structure KeyChain.Follows (C : KeyChain κ μ) (f : Nat → κ) (g : Nat → μ) (n : Nat) : Prop where
  next : ∀ p, n ≤ p → f (p + 1) = C.next (f p)
  keys : ∀ p, n ≤ p → g p = C.keys (f p)
  index : ∀ p, n ≤ p → C.index (f p) = UInt32.ofNat p

/-- A chain that starts at a key of counter `n`, named by the number of steps from it. -/
theorem KeyChain.follows_iterate (C : KeyChain κ μ) {k : κ} {n : Nat} (h : C.index k = UInt32.ofNat n)
    {g : Nat → μ} (hg : ∀ p, n ≤ p → g p = C.keys (C.next^[p - n] k)) : C.Follows (fun p => C.next^[p - n] k) g n := by
  refine ⟨fun p hp => ?_, hg, fun p hp => ?_⟩
  · rw [Nat.succ_sub hp, Function.iterate_succ_apply']
  · rw [C.index_iterate, h, ← ofNat_add, Nat.add_sub_cancel' hp]

theorem KeyChain.Follows.counter {C : KeyChain κ μ} {f : Nat → κ} {g : Nat → μ} {n p : Nat} (h : C.Follows f g n)
    (hp : n ≤ p) : C.counter (g p) = UInt32.ofNat p := by
  rw [h.keys p hp, C.counter_keys, h.index p hp]

namespace Receiver

variable {C : KeyChain κ μ} {f : Nat → κ} {g : Nat → μ} {n : Nat} {cap ahead : Nat} {w : Window}

/-- The receiver holds the keys and the material that a window names. -/
structure Tracks (C : KeyChain κ μ) (f : Nat → κ) (g : Nat → μ) (n : Nat) (w : Window) (r : Receiver κ μ) : Prop where
  eq : r = w.map f g
  le : n ≤ w.key
  counter : ∀ p ∈ w.stored, C.counter (g p) = UInt32.ofNat p
  ordered : w.Ordered

theorem skip_map (h : C.Follows f g n) (k : Nat) (w : Window) (hn : n ≤ w.key) :
    skip C cap k (w.map f g) = (skip positions cap k w).map f g := by
  induction k generalizing w with
  | zero => rfl
  | succ k ih =>
    rw [skip, skip, ← ih _ (by simp only [positions_next]; omega)]
    simp only [map, positions_next, positions_keys, ← lastN_map, map_append, map_singleton,
      h.next _ hn, h.keys _ hn]

/-- Looking for a counter among the material is looking for it among the positions. -/
theorem find_map {l : List Nat} (c : UInt32) (hc : ∀ p ∈ l, C.counter (g p) = UInt32.ofNat p) :
    (l.map g).find? (C.counter · == c) = (l.find? (positions.counter · == c)).map g ∧
      (l.map g).eraseP (C.counter · == c) = (l.eraseP (positions.counter · == c)).map g := by
  induction l with
  | nil => exact ⟨rfl, rfl⟩
  | cons p l ih =>
    obtain ⟨ih1, ih2⟩ := ih (fun q hq => hc q (mem_cons_of_mem _ hq))
    have hp := hc p mem_cons_self
    by_cases h : UInt32.ofNat p = c <;> simp_all

/-- A receiver that holds what a window names gives what the window gives, and refuses what it refuses. -/
theorem take_map (h : C.Follows f g n) (c : UInt32) (hn : n ≤ w.key)
    (hc : ∀ p ∈ w.stored, C.counter (g p) = UInt32.ofNat p) :
    take C cap ahead (w.map f g) c = (take positions cap ahead w c).map (fun pw => (g pw.1, pw.2.map f g)) := by
  unfold take
  rw [show C.index (w.map f g).key = positions.index w.key from h.index _ hn]
  split
  · obtain ⟨hfind, herase⟩ := find_map c hc
    simp only [map]
    rw [hfind, herase]
    cases w.stored.find? (positions.counter · == c) <;> rfl
  · split
    · rfl
    · have hkey : n ≤ (skip positions cap (c - positions.index w.key).toNat w).key := by
        rw [Window.skip_key]
        omega
      rw [skip_map h _ w hn]
      simp only [Except.map, map, positions_next, positions_keys, h.next _ hkey, h.keys _ hkey]

/-- The receiver goes on holding what its window names. -/
theorem Tracks.take (h : C.Follows f g n) {w w' : Window} {p : Nat} (ht : Tracks C f g n w r)
    (hcap : ahead ≤ cap) (hw : Receiver.take positions cap ahead w c = .ok (p, w')) :
    Receiver.take C cap ahead r c = .ok (g p, w'.map f g) ∧ Tracks C f g n w' (w'.map f g) := by
  have hg := Window.take_gave ht.ordered hcap hw
  refine ⟨?_, rfl, ?_, fun q hq => ?_, hg.ordered⟩
  · rw [ht.eq, take_map h c ht.le ht.counter, hw]
    rfl
  · have := hg.key_eq
    have := ht.le
    omega
  · rcases hg.mono q (.inl hq) with hq' | hq'
    · exact ht.counter q hq'
    · exact h.counter (Nat.le_trans ht.le hq')

/-- A receiver that holds what a window names gives only what the window gives. -/
theorem Tracks.of_take (h : C.Follows f g n) (ht : Tracks C f g n w r)
    (hcap : ahead ≤ cap) (hr : Receiver.take C cap ahead r c = .ok (m, r')) :
    ∃ p w', Receiver.take positions cap ahead w c = .ok (p, w') ∧ m = g p ∧ Tracks C f g n w' r' := by
  rw [ht.eq, take_map h c ht.le ht.counter] at hr
  cases hw : Receiver.take positions cap ahead w c with
  | error refusal =>
    rw [hw] at hr
    cases hr
  | ok given =>
    rw [hw] at hr
    simp only [Except.map, Except.ok.injEq, Prod.mk.injEq] at hr
    refine ⟨given.1, given.2, rfl, hr.1.symm, ?_⟩
    rw [← hr.2]
    exact (Tracks.take h ht hcap hw).2

/-! ## Everything a receiver gives -/

variable (C cap ahead) in
/-- The material that a receiver gives for a sequence of counters, without what nobody used, and what it holds in the end. -/
inductive Gives : Receiver κ μ → List μ → Receiver κ μ → Prop
  | nil (r : Receiver κ μ) : Gives r [] r
  | unused {r r' r'' : Receiver κ μ} {c : UInt32} {m : μ} {ms : List μ} : Receiver.take C cap ahead r c = .ok (m, r') →
      Gives r' ms r'' → Gives r ms r''
  | cons {r r' r'' : Receiver κ μ} {c : UInt32} {m : μ} {ms : List μ} : Receiver.take C cap ahead r c = .ok (m, r') →
      Gives r' ms r'' → Gives r (m :: ms) r''

/-- A receiver gives the material of no position twice. -/
theorem Gives.positions (h : C.Follows f g n) (hcap : ahead ≤ cap) {ms : List μ}
    (hg : Gives C cap ahead r ms r') (ht : Tracks C f g n w r) :
    ∃ (ps : List Nat) (w' : Window), ms = ps.map g ∧ ps.Nodup ∧ (∀ p ∈ ps, w.Open p) ∧ Tracks C f g n w' r' := by
  induction hg generalizing w with
  | nil r => exact ⟨[], w, rfl, nodup_nil, fun _ hp => absurd hp not_mem_nil, ht⟩
  | unused htake _ ih =>
    obtain ⟨p, w₁, hw, -, ht₁⟩ := ht.of_take h hcap htake
    obtain ⟨ps, w', hms, hnd, hopen, ht'⟩ := ih ht₁
    exact ⟨ps, w', hms, hnd, fun q hq => (Window.take_gave ht.ordered hcap hw).mono q (hopen q hq), ht'⟩
  | cons htake _ ih =>
    obtain ⟨p, w₁, hw, rfl, ht₁⟩ := ht.of_take h hcap htake
    have hgave := Window.take_gave ht.ordered hcap hw
    obtain ⟨ps, w', rfl, hnd, hopen, ht'⟩ := ih ht₁
    refine ⟨p :: ps, w', rfl, nodup_cons.2 ⟨fun hp => hgave.closed (hopen p hp), hnd⟩, ?_, ht'⟩
    intro q hq
    rcases mem_cons.1 hq with rfl | hq
    · exact hgave.opened
    · exact hgave.mono q (hopen q hq)

variable (C) in
/-- The counters of the stored material are distinct and behind the next one. -/
structure Ordered (r : Receiver κ μ) : Prop where
  nodup : (r.stored.map C.counter).Nodup
  lt : ∀ m ∈ r.stored, C.counter m < C.index r.key

variable (C) in
/-- The material of the positions of a receiver: the stored one behind its key, and from there on what the chain gives. -/
def material (r : Receiver κ μ) (p : Nat) : μ :=
  if p < (C.index r.key).toNat then (r.stored.find? (C.counter · == UInt32.ofNat p)).getD (C.keys r.key)
  else C.keys (C.next^[p - (C.index r.key).toNat] r.key)

variable (C) in
/-- The window that an ordered receiver begins with. -/
def window (r : Receiver κ μ) : Window := ⟨(C.index r.key).toNat, r.stored.map fun m => (C.counter m).toNat⟩

theorem follows_material (r : Receiver κ μ) :
    C.Follows (fun p => C.next^[p - (C.index r.key).toNat] r.key) (r.material C) (C.index r.key).toNat :=
  C.follows_iterate (by simp) fun p hp => if_neg (Nat.not_lt.2 hp)

theorem Ordered.tracks (hr : r.Ordered C) :
    Tracks C (fun p => C.next^[p - (C.index r.key).toNat] r.key) (r.material C) (C.index r.key).toNat (r.window C) r := by
  have hlt : ∀ m ∈ r.stored, (C.counter m).toNat < (C.index r.key).toNat := fun m hm => UInt32.lt_iff_toNat_lt.1 (hr.lt m hm)
  have hmaterial : ∀ m ∈ r.stored, r.material C (C.counter m).toNat = m := by
    intro m hm
    have hfind : r.stored.find? (C.counter · == UInt32.ofNat (C.counter m).toNat) = some m := by
      rw [UInt32.ofNat_toNat]
      cases hf : r.stored.find? (C.counter · == C.counter m) with
      | none => exact absurd (List.find?_eq_none.1 hf m hm) (by simp)
      | some m' =>
        have heq : C.counter m' = C.counter m := by simpa using List.find?_some hf
        rw [inj_on_of_nodup_map hr.nodup (mem_of_find?_eq_some hf) hm heq]
    rw [material, if_pos (hlt m hm), hfind, Option.getD_some]
  refine ⟨?_, Nat.le_refl _, fun p hp => ?_, ?_, fun p hp => ?_⟩
  · obtain ⟨key, stored⟩ := r
    simp only [map, window, Nat.sub_self, Function.iterate_zero, id_eq, map_map, mk.injEq, true_and]
    exact ((map_congr_left fun m hm => hmaterial m hm).trans (map_id _)).symm
  · obtain ⟨m, hm, rfl⟩ := mem_map.1 hp
    rw [hmaterial m hm, UInt32.ofNat_toNat]
  · have hnodup : ((r.stored.map C.counter).map UInt32.toNat).Nodup := hr.nodup.map fun _ _ => UInt32.toNat_inj.1
    rwa [map_map] at hnodup
  · obtain ⟨m, hm, rfl⟩ := mem_map.1 hp
    exact hlt m hm

/-! ## Counters that are used up -/

section

variable {w : Window} {r : Receiver κ μ}

theorem Tracks.index_eq (h : C.Follows f g n) (ht : Tracks C f g n w r) : C.index r.key = UInt32.ofNat w.key := by
  rw [ht.eq]
  exact h.index _ ht.le

theorem Tracks.ordered_of_lt (h : C.Follows f g n) (ht : Tracks C f g n w r) (hk : w.key < 2 ^ 32) : r.Ordered C := by
  have hlt : ∀ p ∈ w.stored, p < 2 ^ 32 := fun p hp => Nat.lt_trans (ht.ordered.lt p hp) hk
  refine ⟨?_, fun m hm => ?_⟩
  · have hcounters : r.stored.map C.counter = w.stored.map UInt32.ofNat := by
      rw [ht.eq, map, map_map]
      exact map_congr_left ht.counter
    rw [hcounters]
    refine ht.ordered.nodup.map_on fun p hp q hq heq => ?_
    exact eq_of_ofNat_eq (hlt p hp) (hlt q hq) heq
  · rw [ht.eq] at hm
    obtain ⟨p, hp, rfl⟩ := mem_map.1 hm
    rw [ht.index_eq h, ht.counter p hp, lt_iff_toNat_lt, toNat_ofNat_of_lt' (hlt p hp),
      toNat_ofNat_of_lt' hk]
    exact ht.ordered.lt p hp

/-- While no counter has wrapped, the counters that are used up are those of the positions that are not open. -/
theorem Tracks.spent_iff (h : C.Follows f g n) (ht : Tracks C f g n w r) (hk : w.key < 2 ^ 32) (c : UInt32) :
    r.Spent C c ↔ ¬ w.Open c.toNat := by
  have hlt : c < C.index r.key ↔ c.toNat < w.key := by
    rw [ht.index_eq h, UInt32.lt_iff_toNat_lt, UInt32.toNat_ofNat_of_lt' hk]
  have hstored : (∃ m ∈ r.stored, C.counter m = c) ↔ c.toNat ∈ w.stored := by
    rw [ht.eq]
    constructor
    · rintro ⟨m, hm, rfl⟩
      obtain ⟨p, hp, rfl⟩ := mem_map.1 hm
      rwa [ht.counter p hp, UInt32.toNat_ofNat_of_lt' (Nat.lt_trans (ht.ordered.lt p hp) hk)]
    · intro hp
      exact ⟨g c.toNat, mem_map_of_mem hp, by rw [ht.counter _ hp, UInt32.ofNat_toNat]⟩
  constructor
  · rintro hs (hp | hle)
    · obtain ⟨m, hm, hc⟩ := hstored.2 hp
      exact hs.not_stored m hm hc
    · exact Nat.not_lt.2 hle (hlt.1 hs.lt)
  · intro hclosed
    exact ⟨hlt.2 (Nat.lt_of_not_le fun hle => hclosed (.inr hle)), fun m hm hc => hclosed (.inl (hstored.1 ⟨m, hm, hc⟩))⟩

end

variable (C) in
/-- What has happened to an ordered receiver when it gave the material for a counter. -/
structure Took (r : Receiver κ μ) (c : UInt32) (r' : Receiver κ μ) : Prop where
  ordered : r'.Ordered C
  spent : r'.Spent C c
  mono : ∀ c', r.Spent C c' → r'.Spent C c'

/-- As long as its counter does not go back, an ordered receiver stays ordered, and uses up the counter it was asked for. -/
theorem Ordered.took (hr : r.Ordered C) (hcap : ahead ≤ cap)
    (hahead : ahead + 1 < 2 ^ 32) (h : Receiver.take C cap ahead r c = .ok (m, r')) (hmono : C.index r.key ≤ C.index r'.key) :
    r.Took C c r' := by
  have hf := follows_material (C := C) r
  have ht := hr.tracks
  have hk : (r.window C).key < 2 ^ 32 := toNat_lt _
  obtain ⟨p, w', hw, -, ht'⟩ := ht.of_take hf hcap h
  rw [ht.index_eq hf, ht'.index_eq hf] at hmono
  obtain ⟨rfl, hk'⟩ := Window.take_key_lt ht.ordered hk hahead hw hmono
  have hgave := Window.take_gave ht.ordered hcap hw
  refine ⟨ht'.ordered_of_lt hf hk', (ht'.spent_iff hf hk' c).2 hgave.closed, fun c' hc' => ?_⟩
  rw [ht'.spent_iff hf hk']
  rw [ht.spent_iff hf hk] at hc'
  exact fun hopen => hc' (hgave.mono _ hopen)

end Receiver

end Osp.Lib
