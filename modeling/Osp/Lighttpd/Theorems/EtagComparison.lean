import Osp.Lighttpd.Etag

/-!
# Which lists an entity tag is found in

A member that is a proper beginning of the tag ends the comparison, so a member after it is never found.
-/

namespace Osp.Lighttpd

open Osp.Lib EntityTag List

variable {weakOk : Bool} {tokStart text line seps blanks : Bytes} {tag m : EntityTag} {ms : List EntityTag}

/-! ## One member -/

theorem etagLoop_start_cons {c : UInt8} (hweak : c ≠ 87) :
    etagLoop weakOk tokStart .start (c :: line) =
      if c = 34 then etagLoop weakOk tokStart (.check tokStart) line
      else if etagBlank c || c = 44 then etagLoop weakOk tokStart .start line
      else some false := by
  rw [etagLoop.eq_def]
  exact if_neg hweak

theorem etagLoop_skip (h : QuotedText text) :
    etagLoop weakOk tokStart .skip (text ++ line) = etagLoop weakOk tokStart .skip line := by
  induction h with
  | nil => rfl
  | char hquote hback _ ih => rw [cons_append, etagLoop, if_neg hback, if_neg hquote, ih]
  | escape _ ih => exact ih

/-- What becomes of the comparison with a closed text. -/
theorem etagLoop_check {tok : Bytes} (h : QuotedText text) (hfree : 34 ∉ text) :
    etagLoop weakOk tokStart (.check (tok ++ [34])) (text ++ line) =
      etagLoop weakOk tokStart (if text <+: tok then .check (tok.drop text.length ++ [34]) else .skip) line := by
  induction h generalizing tok with
  | nil => simp
  | @char c l hquote hback hl ih =>
    refine ((if_neg hback).trans (if_neg hquote)).trans ?_
    rcases tok with _ | ⟨c', tok⟩
    · simp [hquote.symm, etagLoop_skip hl]
    · by_cases hc : c' = c
      · subst hc
        simp [ih (not_mem_of_not_mem_cons hfree)]
      · simp [hc, Ne.symm hc, etagLoop_skip hl]
  | @escape c l hl ih =>
    simp only [mem_cons, not_or] at hfree
    rcases tok with _ | ⟨c', tok⟩
    · simp [etagLoop, etagLoop_skip hl]
    · by_cases hc : c' = 92
      · subst hc
        rcases tok with _ | ⟨c', tok⟩
        · simp [etagLoop, hfree.2.1, etagLoop_skip hl]
        · by_cases hc : c' = c
          · subst hc
            simp [etagLoop, ih hfree.2.2]
          · simp [hc, Ne.symm hc, etagLoop, etagLoop_skip hl]
      · simp [hc, Ne.symm hc, etagLoop, etagLoop_skip hl]

theorem etagLoop_start (h : ∀ c ∈ seps, etagBlank c ∨ c = 44) :
    etagLoop weakOk tokStart .start (seps ++ line) = etagLoop weakOk tokStart .start line := by
  induction seps with
  | nil => rfl
  | cons c seps ih =>
    obtain ⟨hc, hseps⟩ := forall_mem_cons.1 h
    have hother : c ≠ 87 ∧ c ≠ 34 := by
      rcases hc with hc | rfl
      · constructor <;> (rintro rfl; exact absurd hc (by decide))
      · decide
    rw [cons_append, etagLoop_start_cons hother.1, if_neg hother.2, if_pos (by simpa using hc), ih hseps]

theorem etagLoop_tail (h : ∀ c ∈ blanks, etagBlank c) :
    etagLoop weakOk tokStart .tail (blanks ++ line) = etagLoop weakOk tokStart .tail line := by
  induction blanks with
  | nil => rfl
  | cons c blanks ih =>
    obtain ⟨hc, hblanks⟩ := forall_mem_cons.1 h
    have hcomma : c ≠ 44 := by
      rintro rfl
      exact absurd hc (by decide)
    rw [cons_append, etagLoop, if_neg hcomma, if_pos hc, ih hblanks]

theorem etagLoop_opens (m : EntityTag) (line : Bytes) :
    etagLoop weakOk tokStart .start (m.bytes ++ line) =
      etagLoop weakOk tokStart (if weakOk = true ∨ m.weak = false then .check tokStart else .skip) (m.text ++ 34 :: line) := by
  rcases m with ⟨_ | _, text, hfree⟩
  · simp [bytes, etagLoop_start_cons]
  · cases weakOk <;> simp [bytes, etagLoop]

theorem etagLoop_member (hweak : weakOk = false → tag.weak = false) (h : m.Closed) :
    etagLoop weakOk (tag.text ++ [34]) .start (m.bytes ++ line) =
      if Same weakOk tag m then some true else if Short weakOk tag m then some false
      else etagLoop weakOk (tag.text ++ [34]) .tail line := by
  rw [etagLoop_opens]
  by_cases hcompared : weakOk = true ∨ m.weak = false
  · have hsame : Same weakOk tag m ↔ m.text = tag.text :=
      ⟨And.left, fun heq => ⟨heq, fun hok => ⟨hweak hok, by simpa [hok] using hcompared⟩⟩⟩
    rw [if_pos hcompared, etagLoop_check h m.quoteFree]
    simp only [hsame, Short, hcompared, true_and]
    by_cases hpre : m.text <+: tag.text
    · obtain ⟨rest, hrest⟩ := hpre
      rw [← hrest]
      cases rest <;> simp [etagLoop]
    · have hne : m.text ≠ tag.text := fun heq => hpre (heq ▸ prefix_refl _)
      simp [hpre, hne, etagLoop]
  · have hsame : ¬ Same weakOk tag m := by
      rintro ⟨-, hs⟩
      cases weakOk with
      | false => exact hcompared (.inr (hs rfl).2)
      | true => exact hcompared (.inl rfl)
    rw [if_neg hcompared, etagLoop_skip h, if_neg hsame, if_neg fun hs => hcompared hs.1]
    rfl

/-! ## Lists -/

/-- A list of closed members is read as it should, unless the tag is in it and a member is short. -/
theorem etagLoop_tagList (hweak : weakOk = false → tag.weak = false) (h : TagList ms line) (hclosed : ∀ m ∈ ms, m.Closed)
    (hshort : (∃ m ∈ ms, Same weakOk tag m) → ∀ m ∈ ms, ¬ Short weakOk tag m) :
    etagLoop weakOk (tag.text ++ [34]) .start line = some (decide (∃ m ∈ ms, Same weakOk tag m)) := by
  induction h with
  | @nil seps hseps =>
    rw [← append_nil seps, etagLoop_start hseps]
    simp [etagLoop]
  | @last seps blanks t hseps hblanks =>
    have htail : etagLoop weakOk (tag.text ++ [34]) .tail blanks = some false := by
      rw [← append_nil blanks, etagLoop_tail hblanks]
      rfl
    rw [etagLoop_start hseps, etagLoop_member hweak (hclosed t (by simp)), htail, ite_self]
    simp only [mem_singleton, exists_eq_left]
    split_ifs with hsame <;> simp [hsame]
  | @cons seps blanks line ms t hseps hblanks _ ih =>
    obtain ⟨ht, hms⟩ := forall_mem_cons.1 hclosed
    rw [etagLoop_start hseps, etagLoop_member hweak ht]
    simp only [exists_mem_cons_iff, forall_mem_cons] at hshort ⊢
    split_ifs with hsame hsh
    · simp [hsame]
    · exact congrArg some (decide_eq_false fun hany => (hshort hany).1 hsh).symm
    · rw [etagLoop_tail hblanks, etagLoop, if_pos rfl, ih hms fun hany => (hshort (.inr hany)).2]
      simp [hsame]

theorem TagList.ne_star (h : TagList ms line) : line ≠ [42] := by
  intro hstar
  have hquote : 34 ∉ line := by simp [hstar]
  cases h with
  | nil hseps =>
    subst hstar
    exact absurd (hseps 42 (by simp)) (by decide)
  | last | cons => exact absurd (by simp [bytes]) hquote

/-- On a list of entity tags `etag_is_equal` runs its loop, unless the tag is weak and must not be. -/
theorem etagIsEqual_tagList (h : TagList ms line) :
    etagIsEqual (some tag.bytes) line weakOk =
      if weakOk = false ∧ tag.weak = true then some false else etagLoop weakOk (tag.text ++ [34]) .start line := by
  unfold etagIsEqual
  rw [if_neg h.ne_star]
  rcases tag with ⟨_ | _, text, htext⟩
  · simp [bytes, etagCompare]
  · cases weakOk <;> simp [bytes, etagCompare]

/-! ## Members that are not closed -/

theorem closed_or_backslash (hfree : 34 ∉ text) : QuotedText text ∨ ∃ front, QuotedText front ∧ text = front ++ [92] := by
  induction text using List.twoStepInduction with
  | nil => exact .inl .nil
  | singleton c =>
    by_cases hc : c = 92
    · exact .inr ⟨[], .nil, by rw [hc]; rfl⟩
    · exact .inl (.char (fun hquote => hfree (hquote ▸ mem_singleton_self c)) hc .nil)
  | cons_cons c d text ih ih' =>
    simp only [mem_cons, not_or] at hfree
    by_cases hc : c = 92
    · subst hc
      rcases ih hfree.2.2 with h | ⟨front, h, rfl⟩
      · exact .inl (.escape h)
      · exact .inr ⟨92 :: d :: front, .escape h, rfl⟩
    · have hquote : c ≠ 34 := Ne.symm hfree.1
      rcases ih' d (by simp [hfree.2]) with h | ⟨front, h, heq⟩
      · exact .inl (.char hquote hc h)
      · exact .inr ⟨c :: front, .char hquote hc h, by rw [heq]; rfl⟩

/-- A member that is not closed takes its last quote, and goes on behind the next comma. -/
theorem etagLoop_not_closed (h : ¬ m.Closed) :
    etagLoop weakOk (tag.text ++ [34]) .start (m.bytes ++ 44 :: line) = etagLoop weakOk (tag.text ++ [34]) .skip line := by
  obtain ⟨front, hfront, htext⟩ := (closed_or_backslash m.quoteFree).resolve_left h
  have hfree := m.quoteFree
  rw [htext, mem_append, not_or] at hfree
  rw [etagLoop_opens, htext, append_assoc]
  split_ifs
  · rw [etagLoop_check hfront hfree.1]
    split_ifs with hpre
    · obtain ⟨rest, hrest⟩ := hpre
      have htag := tag.quoteFree
      rw [← hrest] at htag ⊢
      -- the quote is compared with what is left of the tag, which has none
      rcases rest with _ | ⟨a, _ | ⟨b, rest⟩⟩
      · simp [etagLoop]
      · by_cases ha : a = 92 <;> simp [etagLoop, ha]
      · have hb : b ≠ 34 := fun hb => htag (by simp [hb])
        by_cases ha : a = 92 <;> simp [etagLoop, ha, hb]
    · rfl
  · rw [etagLoop_skip hfront]
    rfl

/-- Between two members no text is found. -/
theorem etagLoop_between (hfree : 34 ∉ text) :
    etagLoop weakOk tokStart .tail (text ++ [34]) = some false ∧ etagLoop weakOk tokStart .start (text ++ [34]) = some false := by
  induction text with
  | nil => exact ⟨rfl, by simp [etagLoop]⟩
  | cons c text ih =>
    obtain ⟨htail, hstart⟩ := ih (not_mem_of_not_mem_cons hfree)
    constructor
    · rw [cons_append, etagLoop]
      split_ifs <;> trivial
    · by_cases hc : c = 87
      · subst hc
        rw [cons_append, etagLoop.eq_def]
        simp only [if_pos]
        split
        · rename_i line' heq
          rcases text with _ | ⟨a, _ | ⟨b, text⟩⟩
          · cases heq
          · cases heq
            split <;> rfl
          · cases heq
            simp at hfree
        · rfl
      · have hquote : c ≠ 34 := fun hquote => hfree (by simp [hquote])
        rw [cons_append, etagLoop_start_cons hc, if_neg hquote]
        split_ifs <;> trivial

/-! ## All lists -/

/-- For `*` and for every list of some members, `etag_is_equal` says whether the tag is in the list. -/
def Decides (weakOk : Bool) (tag : EntityTag) (members : Set EntityTag) : Prop :=
  etagIsEqual (some tag.bytes) [42] weakOk = some true ∧
    ∀ ms line, (∀ m ∈ ms, m ∈ members) → TagList ms line →
      etagIsEqual (some tag.bytes) line weakOk = some (decide (∃ m ∈ ms, Same weakOk tag m))

end Osp.Lighttpd
