import Osp.Lib.Utf8
import Osp.Websocketpp.Utf8Validator

/-!
# The validator accepts well-formed UTF-8

From the table the transitions of each state are read off once, by the ranges of the next byte. The state machine ends in its
accepting state exactly on the well-formed strings.
-/

namespace Osp.Websocketpp

open Lib List

/-! ## The transitions -/

/-- The state after a byte that starts a character. -/
def leadState (n : Nat) : Nat :=
  if n < 0x80 then 0 else if n < 0xC2 then 1 else if n < 0xE0 then 2 else if n = 0xE0 then 4 else if n = 0xED then 5
  else if n < 0xF0 then 3 else if n = 0xF0 then 6 else if n < 0xF4 then 7 else if n = 0xF4 then 8 else 1

/-- The state after a byte that continues a character: on within a range, else rejecting. -/
def tailState (low high next n : Nat) : Nat := if low ≤ n ∧ n ≤ high then next else 1

/-- The state after a byte, for each of the nine states. -/
def stateNext (n : Nat) : Nat → Nat
  | 0 => leadState n
  | 2 => tailState 0x80 0xBF 0 n
  | 3 => tailState 0x80 0xBF 2 n
  | 4 => tailState 0xA0 0xBF 2 n
  | 5 => tailState 0x80 0x9F 2 n
  | 6 => tailState 0x90 0xBF 3 n
  | 7 => tailState 0x80 0xBF 3 n
  | 8 => tailState 0x80 0x8F 3 n
  | _ => 1

/-- The class of a byte, by ranges. -/
def byteClass (n : Nat) : Nat :=
  if n < 0x80 then 0 else if n < 0x90 then 1 else if n < 0xA0 then 9 else if n < 0xC0 then 7 else if n < 0xC2 then 8
  else if n < 0xE0 then 2 else if n = 0xE0 then 10 else if n = 0xED then 4 else if n < 0xF0 then 3
  else if n = 0xF0 then 11 else if n < 0xF4 then 6 else if n = 0xF4 then 5 else 8

theorem utf8d_take : utf8d.take 256 = (List.range 256).map byteClass := by
  decide +kernel

/-- The state after a byte of a class. What is not listed is rejected. -/
def classNext : Nat → Nat → Nat
  | 0, 0 => 0
  | 0, 2 => 2
  | 0, 3 => 3
  | 0, 4 => 5
  | 0, 5 => 8
  | 0, 6 => 7
  | 0, 10 => 4
  | 0, 11 => 6
  | 2, 1 => 0
  | 2, 7 => 0
  | 2, 9 => 0
  | 3, 1 => 2
  | 3, 7 => 2
  | 3, 9 => 2
  | 4, 7 => 2
  | 5, 1 => 2
  | 5, 9 => 2
  | 6, 7 => 3
  | 6, 9 => 3
  | 7, 1 => 3
  | 7, 7 => 3
  | 7, 9 => 3
  | 8, 1 => 3
  | _, _ => 1

theorem utf8d_drop : utf8d.drop 256 = (List.range 144).map fun k => classNext (k / 16) (k % 16) := by
  decide

theorem classNext_byteClass : ∀ n ∈ List.range 256, ∀ q ∈ List.range 9,
    byteClass n < 16 ∧ classNext q (byteClass n) = stateNext n q := by
  decide +kernel

theorem utf8d_class {n : Nat} (hn : n < 256) : utf8d.getD n 0 = byteClass n := by
  have h : (utf8d.take 256)[n]? = some (byteClass n) := by simp [utf8d_take, hn]
  rw [List.getElem?_take_of_lt hn] at h
  rw [getD_eq_getElem?_getD, h, Option.getD_some]

theorem utf8d_row {q c : Nat} (hq : q < 9) (hc : c < 16) : utf8d.getD (256 + q * 16 + c) 0 = classNext q c := by
  have h : (utf8d.drop 256)[q * 16 + c]? = some (classNext q c) := by
    rw [utf8d_drop, List.getElem?_map, List.getElem?_range (by omega), Option.map_some,
      show (q * 16 + c) / 16 = q by omega, show (q * 16 + c) % 16 = c by omega]
  rw [List.getElem?_drop, ← Nat.add_assoc] at h
  rw [getD_eq_getElem?_getD, h, Option.getD_some]

/-- The table read by ranges. -/
theorem utf8Next_eq {q : Nat} (b : UInt8) (hq : q < 9 := by decide) : utf8Next q b = stateNext b.toNat q := by
  obtain ⟨hc, h⟩ := classNext_byteClass b.toNat (mem_range.mpr b.toNat_lt) q (mem_range.mpr hq)
  rw [utf8Next, utf8d_class b.toNat_lt, utf8d_row hq hc, h]

section Transitions

variable (b : UInt8)

theorem utf8Next_accept : utf8Next 0 b = leadState b.toNat := utf8Next_eq b (by decide)

theorem utf8Next_reject : utf8Next 1 b = 1 := utf8Next_eq b (by decide)

theorem utf8Next_two : utf8Next 2 b = tailState 0x80 0xBF 0 b.toNat := utf8Next_eq b (by decide)

theorem utf8Next_three : utf8Next 3 b = tailState 0x80 0xBF 2 b.toNat := utf8Next_eq b (by decide)

theorem utf8Next_four : utf8Next 4 b = tailState 0xA0 0xBF 2 b.toNat := utf8Next_eq b (by decide)

theorem utf8Next_five : utf8Next 5 b = tailState 0x80 0x9F 2 b.toNat := utf8Next_eq b (by decide)

theorem utf8Next_six : utf8Next 6 b = tailState 0x90 0xBF 3 b.toNat := utf8Next_eq b (by decide)

theorem utf8Next_seven : utf8Next 7 b = tailState 0x80 0xBF 3 b.toNat := utf8Next_eq b (by decide)

theorem utf8Next_eight : utf8Next 8 b = tailState 0x80 0x8F 3 b.toNat := utf8Next_eq b (by decide)

end Transitions

/-! ## Runs -/

/-- The state after a string of bytes. -/
def utf8Run (state : Nat) (s : Bytes) : Nat := s.foldl utf8Next state

@[simp] theorem utf8Run_nil (q : Nat) : utf8Run q [] = q := rfl

@[simp] theorem utf8Run_cons (q : Nat) (b : UInt8) (s : Bytes) : utf8Run q (b :: s) = utf8Run (utf8Next q b) s := rfl

theorem utf8Run_append (q : Nat) (s t : Bytes) : utf8Run q (s ++ t) = utf8Run (utf8Run q s) t := foldl_append

/-- The rejecting state is never left. -/
theorem utf8Run_reject (s : Bytes) : utf8Run 1 s = 1 := by
  induction s with
  | nil => rfl
  | cons b s ih => rw [utf8Run_cons, utf8Next_reject, ih]

variable {s : Bytes} {high low next : Nat} {a : UInt8}

theorem tailState_eq {n : Nat} (h : low ≤ n ∧ n ≤ high) : tailState low high next n = next := if_pos h

/-- What is accepted where a byte in a range is owed. -/
theorem utf8Run_step {q : Nat} (hnext : ∀ b, utf8Next q b = tailState low high next b.toNat) (h : utf8Run q s = 0)
    (hq : q ≠ 0 := by decide) :
    ∃ b t, s = b :: t ∧ (low ≤ b.toNat ∧ b.toNat ≤ high) ∧ utf8Run next t = 0 := by
  cases s with
  | nil => exact absurd h hq
  | cons b t =>
    rw [utf8Run_cons, hnext] at h
    unfold tailState at h
    split_ifs at h with hb
    · exact ⟨b, t, rfl, hb, h⟩
    · rw [utf8Run_reject] at h
      cases h

/-- A second byte in a range, then one byte owed, makes a character of three bytes. -/
theorem utf8Run_second_two {q : Nat} (hnext : ∀ b, utf8Next q b = tailState low high 2 b.toNat) (h : utf8Run q s = 0)
    (hab : ∀ b : UInt8, low ≤ b.toNat ∧ b.toNat ≤ high → IsSecond a b := by intro b hb; unfold IsSecond IsTail; omega)
    (ha : 0xE0 ≤ a.toNat := by omega) (ha' : a.toNat ≤ 0xEF := by omega) (hq : q ≠ 0 := by decide) :
    ∃ p t, a :: s = p ++ t ∧ Utf8Char p ∧ utf8Run 0 t = 0 := by
  obtain ⟨b, t, rfl, hb, ht⟩ := utf8Run_step hnext h hq
  obtain ⟨c, t, rfl, hc, ht⟩ := utf8Run_step utf8Next_two ht
  exact ⟨[a, b, c], t, rfl, .three ha ha' (hab b hb) hc, ht⟩

/-- A second byte in a range, then two bytes owed, makes a character of four bytes. -/
theorem utf8Run_second_three {q : Nat} (hnext : ∀ b, utf8Next q b = tailState low high 3 b.toNat) (h : utf8Run q s = 0)
    (hab : ∀ b : UInt8, low ≤ b.toNat ∧ b.toNat ≤ high → IsSecond a b := by intro b hb; unfold IsSecond IsTail; omega)
    (ha : 0xF0 ≤ a.toNat := by omega) (ha' : a.toNat ≤ 0xF4 := by omega) (hq : q ≠ 0 := by decide) :
    ∃ p t, a :: s = p ++ t ∧ Utf8Char p ∧ utf8Run 0 t = 0 := by
  obtain ⟨b, t, rfl, hb, ht⟩ := utf8Run_step hnext h hq
  obtain ⟨c, t, rfl, hc, ht⟩ := utf8Run_step utf8Next_three ht
  obtain ⟨d, t, rfl, hd, ht⟩ := utf8Run_step utf8Next_two ht
  exact ⟨[a, b, c, d], t, rfl, .four ha ha' (hab b hb) hc hd, ht⟩

/-- A non-empty string that is accepted starts with a character. -/
theorem utf8Run_accept_cons (h : utf8Run 0 (a :: s) = 0) :
    ∃ p t, a :: s = p ++ t ∧ Utf8Char p ∧ utf8Run 0 t = 0 := by
  rw [utf8Run_cons, utf8Next_accept] at h
  unfold leadState at h
  split_ifs at h with h1 h2 h3 h4 h5 h6 h7 h8 h9
  · exact ⟨[a], s, rfl, .one (by omega), h⟩
  · rw [utf8Run_reject] at h
    cases h
  · obtain ⟨b, t, rfl, hb, ht⟩ := utf8Run_step utf8Next_two h
    exact ⟨[a, b], t, rfl, .two (by omega) (by omega) hb, ht⟩
  · exact utf8Run_second_two utf8Next_four h
  · exact utf8Run_second_two utf8Next_five h
  · exact utf8Run_second_two utf8Next_three h
  · exact utf8Run_second_three utf8Next_six h
  · exact utf8Run_second_three utf8Next_seven h
  · exact utf8Run_second_three utf8Next_eight h
  · rw [utf8Run_reject] at h
    cases h

/-- The bytes of a character lead from the accepting state back to it. -/
theorem utf8Run_utf8Char {p : Bytes} (h : Utf8Char p) : utf8Run 0 p = 0 := by
  cases h with
  | one ha =>
    rw [utf8Run_cons, utf8Next_accept, leadState, if_pos (by omega), utf8Run_nil]
  | two ha ha' hb =>
    rw [utf8Run_cons, utf8Next_accept, leadState, if_neg (by omega), if_neg (by omega), if_pos (by omega), utf8Run_cons,
      utf8Next_two, tailState_eq hb, utf8Run_nil]
  | @three a b c ha ha' hb hc =>
    obtain ⟨hb, hlow, hhigh, -, -⟩ := hb
    have hsecond : utf8Next (leadState a.toNat) b = 2 := by
      unfold leadState
      rw [if_neg (by omega), if_neg (by omega), if_neg (by omega)]
      split_ifs with h4 h5 h6
      · rw [utf8Next_four, tailState_eq ⟨hlow h4, hb.2⟩]
      · rw [utf8Next_five, tailState_eq ⟨hb.1, hhigh h5⟩]
      · rw [utf8Next_three, tailState_eq hb]
      all_goals omega
    rw [utf8Run_cons, utf8Next_accept, utf8Run_cons, hsecond, utf8Run_cons, utf8Next_two, tailState_eq hc, utf8Run_nil]
  | @four a b c d ha ha' hb hc hd =>
    obtain ⟨hb, -, -, hlow, hhigh⟩ := hb
    have hsecond : utf8Next (leadState a.toNat) b = 3 := by
      unfold leadState
      rw [if_neg (by omega), if_neg (by omega), if_neg (by omega), if_neg (by omega), if_neg (by omega), if_neg (by omega)]
      split_ifs with h7 h8 h9
      · rw [utf8Next_six, tailState_eq ⟨hlow h7, hb.2⟩]
      · rw [utf8Next_seven, tailState_eq hb]
      · rw [utf8Next_eight, tailState_eq ⟨hb.1, hhigh h9⟩]
      · omega
    rw [utf8Run_cons, utf8Next_accept, utf8Run_cons, hsecond, utf8Run_cons, utf8Next_three, tailState_eq hc, utf8Run_cons,
      utf8Next_two, tailState_eq hd, utf8Run_nil]

/-- The state machine accepts exactly the well-formed strings. -/
theorem utf8Run_accept_iff (s : Bytes) : utf8Run 0 s = 0 ↔ WellFormedUtf8 s := by
  constructor
  · induction hn : s.length using Nat.strong_induction_on generalizing s with
    | _ n ih =>
      intro h
      cases s with
      | nil => exact ⟨[], rfl⟩
      | cons a s =>
        obtain ⟨p, t, hpt, hp, ht⟩ := utf8Run_accept_cons h
        have hlen : t.length < n := by
          have hlp := congrArg List.length hpt
          have hp0 : 0 < p.length := by cases hp <;> simp
          rw [length_append] at hlp
          omega
        rw [hpt]
        exact hp.append (ih _ hlen t rfl ht)
  · rintro ⟨cs, rfl⟩
    induction cs with
    | nil => rfl
    | cons c cs ih =>
      rw [flatMap_cons, utf8Run_append, utf8Run_utf8Char (utf8Char_utf8EncodeChar c), ih]

/-- A string that can be continued to a well-formed one is not rejected. -/
theorem utf8Run_ne_reject {t : Bytes} (h : WellFormedUtf8 (s ++ t)) : utf8Run 0 s ≠ 1 := by
  intro hs
  have hst := (utf8Run_accept_iff _).mpr h
  rw [utf8Run_append, hs, utf8Run_reject] at hst
  cases hst

/-! ## The validator -/

namespace Validator

theorem complete_iff (v : Validator) : v.complete = true ↔ v.state = 0 := decide_eq_true_iff

/-- Decoding fails when the rejecting state is reached, and else ends in the state after all the bytes. -/
theorem decode_spec (v : Validator) (s : Bytes) (hv : v.state ≠ 1) :
    ((v.decode s).2 = true ↔ utf8Run v.state s ≠ 1) ∧
      ((v.decode s).2 = true → (v.decode s).1.state = utf8Run v.state s) := by
  induction s generalizing v with
  | nil => simp [decode, hv]
  | cons b s ih =>
    rw [decode, utf8Run_cons]
    by_cases hb : (v.step b).state = utf8Reject
    · have hnext : utf8Next v.state b = 1 := hb
      rw [if_pos hb, hnext, utf8Run_reject]
      simp
    · rw [if_neg hb]
      exact ih (v.step b) hb

/-- Decoding a string is decoding its parts, unless the first is rejected. -/
theorem decode_append (v : Validator) (s t : Bytes) :
    v.decode (s ++ t) = if (v.decode s).2 then (v.decode s).1.decode t else ((v.decode s).1, false) := by
  induction s generalizing v with
  | nil => simp [decode]
  | cons b s ih =>
    rw [cons_append, decode, decode]
    by_cases hb : (v.step b).state = utf8Reject
    · simp [hb]
    · simp only [if_neg hb]
      exact ih (v.step b)

end Validator

/-- `validate` accepts exactly the well-formed strings. -/
theorem validate_iff (s : Bytes) : validate s = true ↔ WellFormedUtf8 s := by
  obtain ⟨hok, hstate⟩ := Validator.init.decode_spec s (by decide)
  rw [← utf8Run_accept_iff]
  unfold validate Validator.complete
  by_cases hd : (Validator.init.decode s).2 = true
  · have hrun : (Validator.init.decode s).1.state = utf8Run 0 s := hstate hd
    simp only [hd, if_true, hrun, decide_eq_true_eq]
    rfl
  · have hrun : utf8Run 0 s = 1 := not_not.mp fun hne => hd (hok.mpr hne)
    simp [hd, hrun]

end Osp.Websocketpp
