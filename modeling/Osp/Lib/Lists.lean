import Mathlib.Data.List.Basic

/-!
# Bounded lists and updates in place

A list kept to its newest `n` elements, a list whose first element with a property is changed where it stands, and a list up to
and including its first element with a property.
-/

namespace Osp.Lib

open List

variable {α : Type}

/-- The last `n` elements of a list: what is left when the oldest are dropped until `n` remain. -/
def lastN (n : Nat) (l : List α) : List α := l.drop (l.length - n)

theorem lastN_suffix (n : Nat) (l : List α) : lastN n l <:+ l := drop_suffix _ _

variable {n : Nat} {β : Type} {p q : α → Bool} {f g : α → α} {l : List α}

theorem lastN_of_length_le (h : l.length ≤ n) : lastN n l = l := by
  rw [lastN, Nat.sub_eq_zero_of_le h, drop_zero]

theorem length_lastN_le (n : Nat) (l : List α) : (lastN n l).length ≤ n := by
  rw [lastN, length_drop]
  omega

theorem lastN_map (f : α → β) (n : Nat) (l : List α) : lastN n (l.map f) = (lastN n l).map f := by
  rw [lastN, lastN, length_map, map_drop]

/-- Dropping the oldest before an element is added makes no difference to what is left after. -/
theorem lastN_lastN_append (l : List α) (a : α) : lastN n (lastN n l ++ [a]) = lastN n (l ++ [a]) := by
  by_cases h : l.length ≤ n
  · rw [lastN_of_length_le h]
  · cases n with
    | zero => simp [lastN]
    | succ n =>
      simp only [lastN, length_append, length_drop, length_singleton]
      rw [drop_append_of_le_length (by rw [length_drop]; omega), drop_drop,
        drop_append_of_le_length (by omega)]
      congr 2
      omega

/-- Adding to the images of the newest elements is adding to the elements. -/
theorem lastN_map_append (f : α → β) (n : Nat) (l : List α) (a : α) :
    lastN n ((lastN n l).map f ++ [f a]) = (lastN n (l ++ [a])).map f := by
  rw [← lastN_lastN_append l a, ← lastN_map f n (lastN n l ++ [a]), map_append, map_singleton]

/-- A suffix that is short enough survives the dropping of the oldest. -/
theorem suffix_lastN {s l : List α} (h : s <:+ l) (hn : s.length ≤ n) : s <:+ lastN n l := by
  obtain ⟨t, rfl⟩ := h
  rw [lastN, length_append, drop_append_of_le_length (by omega)]
  exact suffix_append _ _

/-- As long as the list does not get too long, adding elements one by one is adding them all. -/
theorem foldl_lastN_append (l s : List α) (h : (s ++ l).length ≤ n) :
    l.foldl (fun s a => lastN n (s ++ [a])) s = s ++ l := by
  induction l generalizing s with
  | nil => rw [append_nil, foldl_nil]
  | cons a l ih =>
    rw [← singleton_append, ← append_assoc] at h ⊢
    have ha : (s ++ [a]).length ≤ n := Nat.le_trans (sublist_append_left _ _).length_le h
    rw [singleton_append, foldl_cons, lastN_of_length_le ha, ih _ h]

/-- When no match is dropped, the first match is the same. -/
theorem find_lastN_append {a : α} (ha : p a = false)
    (h : l.countP p ≤ (lastN n (l ++ [a])).countP p) : (lastN n (l ++ [a])).find? p = l.find? p := by
  obtain ⟨t, ht⟩ := lastN_suffix n (l ++ [a])
  have hcount : (t ++ lastN n (l ++ [a])).countP p = l.countP p := by simp [ht, ha]
  have hnone : t.find? p = none := by
    rw [countP_append] at hcount
    have hzero : t.countP p = 0 := by omega
    rw [List.find?_eq_none]
    exact fun b hb hp => absurd hp (by simpa using countP_eq_zero.1 hzero b hb)
  calc (lastN n (l ++ [a])).find? p = (t ++ lastN n (l ++ [a])).find? p := by rw [List.find?_append, hnone, Option.none_or]
    _ = (l ++ [a]).find? p := by rw [ht]
    _ = l.find? p := by simp [List.find?_append, ha]

/-- An element that is added is found when no other matches. -/
theorem find_lastN_append_self {a : α} (hn : 0 < n) (ha : p a = true)
    (h : l.find? p = none) : (lastN n (l ++ [a])).find? p = some a := by
  obtain ⟨t, ht⟩ : [a] <:+ lastN n (l ++ [a]) := suffix_lastN (suffix_append _ _) hn
  have hnone : t.find? p = none := by
    rw [List.find?_eq_none] at h ⊢
    intro b hb
    have hmem : b ∈ l ++ [a] := by
      refine (lastN_suffix n (l ++ [a])).subset ?_
      rw [← ht]
      exact mem_append_left _ hb
    rcases mem_append.1 hmem with hl | hr
    · exact h b hl
    · obtain ⟨s, hs⟩ := lastN_suffix n (l ++ [a])
      rw [← ht, ← append_assoc] at hs
      have hl : b ∈ l := (append_inj_left' hs rfl) ▸ mem_append_right _ hb
      exact h b hl
  rw [← ht, List.find?_append, hnone, Option.none_or, List.find?_cons_of_pos ha]

/-! ## Changing the first match -/

/-- Change the first element that satisfies `p`. -/
def updateFirst (p : α → Bool) (f : α → α) : List α → List α
  | [] => []
  | a :: l => if p a then f a :: l else a :: updateFirst p f l

theorem updateFirst_id (p : α → Bool) (l : List α) : updateFirst p (fun a => a) l = l := by
  induction l with
  | nil => rfl
  | cons a l ih => simp [updateFirst, ih]

/-- The changed element is the one that is found, as long as the change keeps the property. -/
theorem find_updateFirst (h : ∀ a, p (f a) = p a) (l : List α) :
    (updateFirst p f l).find? p = (l.find? p).map f := by
  induction l with
  | nil => rfl
  | cons a l ih =>
    rw [updateFirst]
    by_cases ha : p a = true
    · rw [if_pos ha, List.find?_cons_of_pos (by rw [h, ha]), List.find?_cons_of_pos ha, Option.map_some]
    · rw [if_neg ha, List.find?_cons_of_neg ha, List.find?_cons_of_neg ha, ih]

/-- An element that another property picks out is not touched. -/
theorem find_updateFirst_of_ne (h : ∀ a, p a = true → q a = false ∧ q (f a) = false)
    (l : List α) : (updateFirst p f l).find? q = l.find? q := by
  induction l with
  | nil => rfl
  | cons a l ih =>
    rw [updateFirst]
    by_cases ha : p a = true
    · rw [if_pos ha, List.find?_cons_of_neg (by simp [(h a ha).2]), List.find?_cons_of_neg (by simp [(h a ha).1])]
    · rw [if_neg ha, List.find?_cons, List.find?_cons, ih]

/-- Changing the first match again is changing it once by both. -/
theorem updateFirst_updateFirst (h : ∀ a, p (f a) = p a) (l : List α) :
    updateFirst p g (updateFirst p f l) = updateFirst p (g ∘ f) l := by
  induction l with
  | nil => rfl
  | cons a l ih =>
    by_cases ha : p a = true
    · simp [updateFirst, ha, h]
    · simp [updateFirst, ha, ih]

/-- Only what the change does to the first match matters. -/
theorem updateFirst_congr (h : ∀ a, l.find? p = some a → f a = g a) :
    updateFirst p f l = updateFirst p g l := by
  induction l with
  | nil => rfl
  | cons a l ih =>
    by_cases ha : p a = true
    · simp [updateFirst, ha, h a (List.find?_cons_of_pos ha)]
    · rw [updateFirst, updateFirst, if_neg ha, if_neg ha, ih fun b hb => h b (by rw [List.find?_cons_of_neg ha, hb])]

/-- In a list of images of distinct elements, changing the first match changes the image of one of them. -/
theorem updateFirst_map {u : α → α} {f g : β → α} {l : List β} {i : β} (hn : l.Nodup)
    (hp : ∀ j ∈ l, p (f j) = true ↔ j = i) (hi : u (f i) = g i) (hg : ∀ j ∈ l, j ≠ i → f j = g j) :
    updateFirst p u (l.map f) = l.map g := by
  induction l with
  | nil => rfl
  | cons j l ih =>
    obtain ⟨hj, hn⟩ := nodup_cons.1 hn
    rw [map_cons, map_cons, updateFirst]
    by_cases hji : j = i
    · subst hji
      rw [if_pos ((hp j mem_cons_self).2 rfl), hi]
      congr 1
      refine map_congr_left fun k hk => hg k (mem_cons_of_mem _ hk) ?_
      rintro rfl
      exact hj hk
    · rw [if_neg (fun h => hji ((hp j mem_cons_self).1 h)), hg j mem_cons_self hji,
        ih hn (fun k hk => hp k (mem_cons_of_mem _ hk)) fun k hk => hg k (mem_cons_of_mem _ hk)]

/-- What a change keeps of every element it keeps of the list. -/
theorem map_updateFirst {g : α → β} (h : ∀ a, g (f a) = g a) (l : List α) :
    (updateFirst p f l).map g = l.map g := by
  induction l with
  | nil => rfl
  | cons a l ih =>
    rw [updateFirst]
    split
    · rw [map_cons, map_cons, h]
    · rw [map_cons, map_cons, ih]

/-- A change that keeps the property of every element keeps the number of elements that have it. -/
theorem countP_updateFirst (h : ∀ a, q (f a) = q a) (l : List α) :
    (updateFirst p f l).countP q = l.countP q := by
  have hmap := congrArg (List.countP id) (map_updateFirst (p := p) h l)
  rwa [countP_map, countP_map, Function.id_comp] at hmap

/-- A property that the change gives the first match holds of every element again. -/
theorem forall_updateFirst_of_find {P : α → Prop} (h : ∀ a ∈ l, P a)
    (hf : ∀ a, l.find? p = some a → P (f a)) : ∀ a ∈ updateFirst p f l, P a := by
  induction l with
  | nil => exact fun a ha => absurd ha not_mem_nil
  | cons b l ih =>
    rw [updateFirst]
    split
    · rename_i hb
      have hfb := hf b (List.find?_cons_of_pos hb)
      exact forall_mem_cons.2 ⟨hfb, fun a ha => h a (mem_cons_of_mem _ ha)⟩
    · rename_i hb
      refine forall_mem_cons.2 ⟨h b mem_cons_self, ih (fun a ha => h a (mem_cons_of_mem _ ha)) fun a ha => hf a ?_⟩
      rw [List.find?_cons_of_neg hb, ha]

theorem forall_updateFirst {P : α → Prop} (h : ∀ a ∈ l, P a)
    (hf : ∀ a ∈ l, P (f a)) : ∀ a ∈ updateFirst p f l, P a :=
  forall_updateFirst_of_find h fun a ha => hf a (mem_of_find?_eq_some ha)

/-- The elements up to and including the first one with a property. -/
def takeThrough (p : α → Bool) : List α → List α
  | [] => []
  | a :: l => if p a then [a] else a :: takeThrough p l

theorem takeThrough_takeThrough (p : α → Bool) (l : List α) : takeThrough p (takeThrough p l) = takeThrough p l := by
  induction l with
  | nil => rfl
  | cons a l ih =>
    rw [takeThrough]
    split
    · rename_i ha
      rw [takeThrough, if_pos ha]
    · rename_i ha
      rw [takeThrough, if_neg ha, ih]

theorem takeThrough_append_of_forall (h : ∀ a ∈ l, p a = false) (l' : List α) :
    takeThrough p (l ++ l') = l ++ takeThrough p l' := by
  induction l with
  | nil => rfl
  | cons a l ih =>
    rw [cons_append, takeThrough, h a mem_cons_self, if_neg Bool.false_ne_true,
      ih fun b hb => h b (mem_cons_of_mem _ hb), cons_append]

theorem takeThrough_of_forall (h : ∀ a ∈ l, p a = false) : takeThrough p l = l := by
  have happend := takeThrough_append_of_forall h []
  rwa [takeThrough, append_nil] at happend

theorem takeThrough_append_of_mem (h : ∃ a ∈ l, p a = true) (l' : List α) :
    takeThrough p (l ++ l') = takeThrough p l := by
  induction l with
  | nil => exact absurd h (by simp)
  | cons a l ih =>
    rw [cons_append, takeThrough, takeThrough]
    by_cases ha : p a = true
    · rw [if_pos ha, if_pos ha]
    · obtain ⟨b, hb, hp⟩ := h
      rcases mem_cons.1 hb with rfl | hb
      · exact absurd hp ha
      · rw [if_neg ha, if_neg ha, ih ⟨b, hb, hp⟩]

/-- Only the last element taken can have the property. -/
theorem forall_of_takeThrough_of_getLast (h : takeThrough p l = l)
    (hlast : ∀ a, l.getLast? = some a → p a = false) : ∀ a ∈ l, p a = false := by
  induction l with
  | nil => exact fun a ha => absurd ha not_mem_nil
  | cons a l ih =>
    rw [takeThrough] at h
    by_cases ha : p a = true
    · rw [if_pos ha] at h
      obtain rfl : l = [] := (List.cons.inj h).2.symm
      exact absurd ha (by rw [hlast a rfl]; exact Bool.false_ne_true)
    · rw [if_neg ha] at h
      have hl := (List.cons.inj h).2
      intro b hb
      rcases mem_cons.1 hb with rfl | hb
      · simpa using ha
      · refine ih hl (fun c hc => hlast c ?_) b hb
        rw [List.getLast?_cons, hc]
        rfl

/-! ## Up to an element that stops -/

section

variable {α : Type} {p : α → Bool} {a : α} {l l' : List α}

theorem takeWhile_append_cons (h : p a = false) : (l ++ a :: l').takeWhile p = l.takeWhile p := by
  induction l with
  | nil => simp [h]
  | cons b l ih => by_cases hb : p b = true <;> simp [hb, ih]

theorem dropWhile_append_cons (h : p a = false) : (l ++ a :: l').dropWhile p = l.dropWhile p ++ a :: l' := by
  induction l with
  | nil => simp [h]
  | cons b l ih => by_cases hb : p b = true <;> simp [hb, ih]

/-- The first element with a property. -/
theorem exists_first (p : α → Bool) (h : ¬ ∀ a ∈ l, p a = false) :
    ∃ before a after, l = before ++ a :: after ∧ (∀ b ∈ before, p b = false) ∧ p a = true := by
  obtain ⟨a, ha⟩ : ∃ a, l.find? p = some a := by
    rw [← Option.isSome_iff_exists, List.find?_isSome]
    push Not at h
    obtain ⟨a, ha, hp⟩ := h
    exact ⟨a, ha, by simpa using hp⟩
  obtain ⟨hp, before, after, rfl, hbefore⟩ := List.find?_eq_some_iff_append.1 ha
  exact ⟨before, a, after, rfl, fun b hb => by simpa using hbefore b hb, hp⟩

end

end Osp.Lib
