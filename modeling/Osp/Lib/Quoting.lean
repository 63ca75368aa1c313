import Osp.Lib.Bytes

/-!
# Quoted strings

Texts with quoted strings: between double quotes every byte counts as text, and a backslash takes the next byte with it. `Quoted p` says
that the quotes of a text are balanced and its bytes outside quotes have the property `p`.
-/

namespace Osp.Lib

variable {p q : UInt8 → Prop} {c : UInt8} {l l' text : Bytes}

/-- What may stand between two quotes. -/
inductive QuotedText : Bytes → Prop
  | nil : QuotedText []
  | char {c : UInt8} {l : Bytes} : c ≠ 34 → c ≠ 92 → QuotedText l → QuotedText (c :: l)
  | escape {c : UInt8} {l : Bytes} : QuotedText l → QuotedText (92 :: c :: l)

/-- The quotes of the text are balanced, and outside them its bytes have the property. -/
inductive Quoted (p : UInt8 → Prop) : Bytes → Prop
  | nil : Quoted p []
  | char {c : UInt8} {l : Bytes} : c ≠ 34 → p c → Quoted p l → Quoted p (c :: l)
  | quotes {text l : Bytes} : QuotedText text → Quoted p l → Quoted p (34 :: text ++ 34 :: l)

/-- The quotes of the text are balanced. -/
def Balanced (l : Bytes) : Prop := Quoted (fun _ => True) l

theorem QuotedText.of_forall (h : ∀ c ∈ l, c ≠ 34 ∧ c ≠ 92) : QuotedText l := by
  induction l with
  | nil => exact .nil
  | cons c l ih =>
    obtain ⟨hc, hl⟩ := List.forall_mem_cons.1 h
    exact .char hc.1 hc.2 (ih hl)

namespace Quoted

theorem of_forall (h : ∀ c ∈ l, c ≠ 34 ∧ p c) : Quoted p l := by
  induction l with
  | nil => exact .nil
  | cons c l ih =>
    obtain ⟨hc, hl⟩ := List.forall_mem_cons.1 h
    exact .char hc.1 hc.2 (ih hl)

theorem append (h : Quoted p l) (h' : Quoted p l') : Quoted p (l ++ l') := by
  induction h with
  | nil => exact h'
  | char hc hp _ ih => exact .char hc hp ih
  | quotes htext _ ih =>
    rw [List.append_assoc]
    exact .quotes htext ih

theorem tail (hc : c ≠ 34) (h : Quoted p (c :: l)) : Quoted p l := by
  cases h with
  | char _ _ hl => exact hl
  | quotes => exact absurd rfl hc

/-- A text is read up to its first byte outside quotes that does not have the property. -/
theorem split [DecidablePred q] (h : Quoted p l) :
    ∃ front back, l = front ++ back ∧ Quoted q front ∧ Quoted p back ∧ (back = [] ∨ ∃ c rest, back = c :: rest ∧ c ≠ 34 ∧ ¬ q c) := by
  induction h with
  | nil => exact ⟨[], [], rfl, .nil, .nil, .inl rfl⟩
  | @char c l hc hp hl ih =>
    by_cases hq : q c
    · obtain ⟨front, back, rfl, hfront, hback, hend⟩ := ih
      exact ⟨c :: front, back, rfl, .char hc hq hfront, hback, hend⟩
    · exact ⟨[], c :: l, rfl, .nil, .char hc hp hl, .inr ⟨c, l, rfl, hc, hq⟩⟩
  | @quotes text l htext _ ih =>
    obtain ⟨front, back, rfl, hfront, hback, hend⟩ := ih
    exact ⟨34 :: text ++ 34 :: front, back, by simp, .quotes htext hfront, hback, hend⟩

end Quoted

end Osp.Lib
