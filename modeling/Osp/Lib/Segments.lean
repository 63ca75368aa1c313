import Mathlib.Data.List.TakeWhile

/-!
# Segments of a list

A list cut at a separator. A property of what follows each separator says something of every segment and knows which one is the last.
-/

namespace Osp.Lib

open List

variable {α : Type} {sep a : α} {P : List α → Prop} {l l' : List α}

/-! ## What follows each separator -/

/-- What follows each separator has the property. -/
def AfterEach (sep : α) (P : List α → Prop) (l : List α) : Prop := ∀ rest, sep :: rest <:+ l → P rest

/-- Segments, each after a separator. -/
def joinSegments (sep : α) (segments : List (List α)) : List α := segments.flatMap (sep :: ·)

@[simp] theorem afterEach_nil : AfterEach sep P [] := fun _ h => absurd (suffix_nil.1 h) (by simp)

@[simp] theorem afterEach_cons_self : AfterEach sep P (sep :: l) ↔ P l ∧ AfterEach sep P l := by
  refine ⟨fun h => ⟨h l suffix_rfl, fun rest hrest => h rest (hrest.trans (suffix_cons _ _))⟩, ?_⟩
  rintro ⟨hl, h⟩ rest hrest
  rcases suffix_cons_iff.1 hrest with heq | hrest
  · rw [(List.cons.inj heq).2]
    exact hl
  · exact h rest hrest

theorem afterEach_cons_of_ne (ha : a ≠ sep) : AfterEach sep P (a :: l) ↔ AfterEach sep P l := by
  refine ⟨fun h rest hrest => h rest (hrest.trans (suffix_cons _ _)), fun h rest hrest => ?_⟩
  rcases suffix_cons_iff.1 hrest with heq | hrest
  · exact absurd (List.cons.inj heq).1.symm ha
  · exact h rest hrest

theorem afterEach_append_of_notMem (h : sep ∉ l) : AfterEach sep P (l ++ l') ↔ AfterEach sep P l' := by
  induction l with
  | nil => rfl
  | cons b l ih =>
    obtain ⟨hb, hl⟩ := not_or.1 (fun h' => h (mem_cons.2 h'))
    rw [cons_append, afterEach_cons_of_ne (Ne.symm hb), ih hl]

theorem AfterEach.imp {Q : List α → Prop} (h : AfterEach sep P l) (himp : ∀ rest, P rest → Q rest) : AfterEach sep Q l :=
  fun rest hrest => himp rest (h rest hrest)

/-! ## The first segment -/

variable [DecidableEq α]

/-- The list up to its first separator. -/
def firstSegment (sep : α) (l : List α) : List α := l.takeWhile (· ≠ sep)

theorem notMem_firstSegment : sep ∉ firstSegment sep l := fun h => by simpa using mem_takeWhile_imp h

@[simp] theorem firstSegment_append_cons (h : sep ∉ l) : firstSegment sep (l ++ sep :: l') = l := by
  have hall : ∀ b ∈ l, decide (b ≠ sep) = true := fun b hb =>
    decide_eq_true fun hsep => h (hsep ▸ hb)
  rw [firstSegment, takeWhile_append_of_pos hall]
  simp

@[simp] theorem firstSegment_of_notMem (h : sep ∉ l) : firstSegment sep l = l :=
  takeWhile_eq_self_iff.2 fun _ hb => decide_eq_true fun hsep => h (hsep ▸ hb)

theorem firstSegment_append_left (h : sep ∉ l) : firstSegment sep (l ++ l') = l ++ firstSegment sep l' :=
  takeWhile_append_of_pos fun _ hb => decide_eq_true fun hsep => h (hsep ▸ hb)

/-- A list is its first segment, or goes on with a separator after it. -/
theorem firstSegment_cases (sep : α) (l : List α) : l = firstSegment sep l ∨ ∃ rest, l = firstSegment sep l ++ sep :: rest := by
  induction l with
  | nil => exact .inl rfl
  | cons b l ih =>
    by_cases hb : b = sep
    · exact .inr ⟨l, by simp [firstSegment, hb]⟩
    · have hcons : firstSegment sep (b :: l) = b :: firstSegment sep l := takeWhile_cons_of_pos (by simpa using hb)
      rw [hcons]
      rcases ih with h | ⟨rest, h⟩
      · exact .inl (congrArg (b :: ·) h)
      · exact .inr ⟨rest, congrArg (b :: ·) h⟩

end Osp.Lib
