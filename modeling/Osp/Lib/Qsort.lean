import Osp.Lib.Bytes

/-!
# Sorting with a comparator

`qsort` of the C library: some sorted permutation, with no promise on the order of equal elements. What is read from the elements in the
sorted order depends only on the elements, if the comparator calls equal just those from which the same is read.
-/

namespace Osp.Lib

variable {α κ : Type}

/-- `memcmp` of byte strings of one length, and `strcmp` of strings given by their bytes before the NUL. -/
def bytesCompare : Bytes → Bytes → Int
  | [], [] => 0
  | [], _ :: _ => -1
  | _ :: _, [] => 1
  | x :: a, y :: b => if x = y then bytesCompare a b else x.toNat - y.toNat

/-- A comparator is a total order up to equality of a key. -/
structure Orders (compare : α → α → Int) (key : α → κ) : Prop where
  swap : ∀ a b, 0 < compare a b ↔ compare b a < 0
  trans : ∀ a b c, compare a b ≤ 0 → compare b c ≤ 0 → compare a c ≤ 0
  eq_zero : ∀ a b, compare a b = 0 ↔ key a = key b

namespace Orders

variable {compare : α → α → Int} {key : α → κ} (h : Orders compare key)

include h

theorem total (a b : α) : compare a b ≤ 0 ∨ compare b a ≤ 0 := by
  have := h.swap a b
  omega

theorem antisymm {a b : α} (hab : compare a b ≤ 0) (hba : compare b a ≤ 0) : key a = key b := by
  have := h.swap b a
  exact (h.eq_zero a b).1 (by omega)

theorem le_of_key_eq {a b : α} (hkey : key a = key b) : compare a b ≤ 0 := ((h.eq_zero a b).2 hkey).le

/-- Two sorted lists of the same elements have the same keys in the same places. -/
theorem map_key_eq {l l' : List α} (hperm : l.Perm l') (hl : l.Pairwise (compare · · ≤ 0)) (hl' : l'.Pairwise (compare · · ≤ 0)) :
    l.map key = l'.map key := by
  have hpairwise : ∀ {l : List α}, l.Pairwise (compare · · ≤ 0) →
      (l.map key).Pairwise fun x y => ∃ a b, key a = x ∧ key b = y ∧ compare a b ≤ 0 := by
    intro l hl
    exact List.pairwise_map.2 (hl.imp fun hab => ⟨_, _, rfl, rfl, hab⟩)
  refine List.Perm.eq_of_pairwise ?_ (hpairwise hl) (hpairwise hl') (hperm.map key)
  rintro x y - - ⟨a, b, rfl, rfl, hab⟩ ⟨b', a', hb, ha, hba⟩
  exact h.antisymm hab (h.trans _ _ _ (h.le_of_key_eq hb.symm) (h.trans _ _ _ hba (h.le_of_key_eq ha)))

/-- An order on the keys is one on whatever has them. -/
theorem comap {β : Type} (f : β → α) : Orders (fun a b => compare (f a) (f b)) (key ∘ f) :=
  ⟨fun a b => h.swap (f a) (f b), fun a b c => h.trans (f a) (f b) (f c), fun a b => h.eq_zero (f a) (f b)⟩

end Orders

theorem bytesCompare_cons_le {x y : UInt8} {a b : Bytes} :
    bytesCompare (x :: a) (y :: b) ≤ 0 ↔ x < y ∨ x = y ∧ bytesCompare a b ≤ 0 := by
  have hne : x ≠ y → x.toNat ≠ y.toNat := fun hne h => hne (UInt8.toNat.inj h)
  rw [bytesCompare, UInt8.lt_iff_toNat_lt]
  split_ifs with hxy
  · simp [hxy]
  · have := hne hxy
    simp only [hxy, false_and, or_false]
    omega

theorem bytesCompare_orders : Orders bytesCompare id where
  swap := by
    intro a b
    induction a, b using bytesCompare.induct with
    | case1 | case2 | case3 => simp [bytesCompare]
    | case4 x a b ih => simpa [bytesCompare] using ih
    | case5 x a y b hne =>
      simp only [bytesCompare, if_neg hne, if_neg (Ne.symm hne)]
      omega
  trans := by
    intro a b c
    induction a generalizing b c with
    | nil => cases c <;> simp [bytesCompare]
    | cons x a ih =>
      rcases b with _ | ⟨y, b⟩
      · simp [bytesCompare]
      · rcases c with _ | ⟨z, c⟩
        · simp [bytesCompare]
        · simp only [bytesCompare_cons_le]
          rintro (hxy | ⟨rfl, hab⟩) (hyz | ⟨rfl, hbc⟩)
          · exact .inl (UInt8.lt_trans hxy hyz)
          · exact .inl hxy
          · exact .inl hyz
          · exact .inr ⟨rfl, ih b c hab hbc⟩
  eq_zero := by
    intro a b
    induction a, b using bytesCompare.induct with
    | case1 | case2 | case3 => simp [bytesCompare]
    | case4 x a b ih => simpa [bytesCompare] using ih
    | case5 x a y b hne =>
      have hne' : x.toNat ≠ y.toNat := fun h => hne (UInt8.toNat.inj h)
      rw [bytesCompare, if_neg hne]
      simp only [id_eq, List.cons.injEq, hne, false_and, iff_false]
      omega

/-- `qsort` -/
structure Qsort (α : Type) where
  sort : (α → α → Int) → List α → List α
  perm : ∀ compare l, (sort compare l).Perm l
  sorted : ∀ {κ : Type} {compare : α → α → Int} {key : α → κ}, Orders compare key → ∀ l, (sort compare l).Pairwise (compare · · ≤ 0)

/-- What is read in the sorted order depends neither on the order of the elements nor on the way they are sorted. -/
theorem Qsort.map_key_sort {compare : α → α → Int} {key : α → κ} (h : Orders compare key) (q q' : Qsort α) {l l' : List α}
    (hperm : l.Perm l') : (q.sort compare l).map key = (q'.sort compare l').map key :=
  h.map_key_eq ((q.perm compare l).trans (hperm.trans (q'.perm compare l').symm)) (q.sorted h l) (q'.sorted h l')

/-- Merge sort, which is one way. -/
def Qsort.mergeSort (α : Type) : Qsort α where
  sort := fun compare l => l.mergeSort fun a b => decide (compare a b ≤ 0)
  perm := fun _ l => List.mergeSort_perm l _
  sorted := by
    intro κ compare key h l
    have hsorted : (l.mergeSort fun a b => decide (compare a b ≤ 0)).Pairwise _ := List.pairwise_mergeSort
      (fun a b c hab hbc => by simpa using h.trans a b c (by simpa using hab) (by simpa using hbc))
      (fun a b => by simpa using h.total a b) l
    simpa using hsorted

end Osp.Lib
