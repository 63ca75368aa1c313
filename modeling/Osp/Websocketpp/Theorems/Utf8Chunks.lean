import Osp.Websocketpp.Lemmas.Utf8

/-!
# Validating UTF-8 in chunks

Calls of `validator::decode` for one chunk after the other accept exactly the well-formed strings, and reject as soon as no well-formed
string begins with what they have seen.
-/

namespace Osp.Websocketpp

open Lib Validator

/-- The states other than that of rejection. -/
theorem stateNext_lt {q n : Nat} (hq : q < 9) : stateNext n q < 9 := by
  have hlead : leadState n < 9 := by
    unfold leadState
    split_ifs <;> omega
  have htail : ∀ low high next, next < 9 → tailState low high next n < 9 := by
    intro low high next h
    unfold tailState
    split <;> omega
  interval_cases q <;> first | exact hlead | exact htail _ _ _ (by omega) | exact Nat.one_lt_succ_succ 7

theorem utf8Run_lt (s : Bytes) {q : Nat} (hq : q < 9) : utf8Run q s < 9 := by
  induction s generalizing q with
  | nil => exact hq
  | cons b s ih =>
    rw [utf8Run_cons, utf8Next_eq b hq]
    exact ih (stateNext_lt hq)

/-- From every state but that of rejection some bytes lead to acceptance. -/
theorem exists_utf8Run_eq_zero {q : Nat} (hq : q < 9) (hne : q ≠ 1) : ∃ t, utf8Run q t = 0 := by
  have hall : ∀ q ∈ List.range 9, q ≠ 1 → ∃ t ∈ [[], [0x80], [0x80, 0x80], [0xA0, 0x80], [0x90, 0x80, 0x80], [0x80, 0x80, 0x80]],
      utf8Run q t = 0 := by
    decide_cbv
  obtain ⟨t, -, ht⟩ := hall q (List.mem_range.2 hq) hne
  exact ⟨t, ht⟩

/-- A string is not rejected if and only if it can be continued to a well-formed one. -/
theorem utf8Run_ne_reject_iff (s : Bytes) : utf8Run 0 s ≠ 1 ↔ ∃ t, WellFormedUtf8 (s ++ t) := by
  constructor
  · intro h
    obtain ⟨t, ht⟩ := exists_utf8Run_eq_zero (utf8Run_lt s (by decide)) h
    exact ⟨t, (utf8Run_accept_iff _).1 (by rw [utf8Run_append, ht])⟩
  · rintro ⟨t, ht⟩
    exact utf8Run_ne_reject ht

namespace Validator

/-- Some call returns false if the state of rejection is reached, and else the calls end in the state after all the bytes. -/
theorem decodeChunks_spec (v : Validator) (chunks : List Bytes) (hv : v.state ≠ 1) :
    (false ∈ (v.decodeChunks chunks).2 ↔ utf8Run v.state chunks.flatten = 1) ∧
      (false ∉ (v.decodeChunks chunks).2 → (v.decodeChunks chunks).1.state = utf8Run v.state chunks.flatten) := by
  induction chunks generalizing v with
  | nil => simp [decodeChunks, hv]
  | cons chunk chunks ih =>
    obtain ⟨hok, hstate⟩ := v.decode_spec chunk hv
    rw [List.flatten_cons, utf8Run_append]
    rcases hd : v.decode chunk with ⟨w, ok⟩
    rw [hd] at hok hstate
    simp only [decodeChunks, hd, List.mem_cons]
    cases ok with
    | false =>
      have hrun : utf8Run v.state chunk = 1 := not_not.1 fun hne => Bool.noConfusion (hok.2 hne)
      simp [hrun, utf8Run_reject]
    | true =>
      have hw : w.state = utf8Run v.state chunk := hstate rfl
      have hne : w.state ≠ 1 := by rw [hw]; exact hok.1 rfl
      rw [← hw]
      simpa using ih w hne

/-- The first calls do not depend on the later ones. -/
theorem decodeChunks_take (v : Validator) (chunks : List Bytes) (k : Nat) :
    (v.decodeChunks (chunks.take k)).2 = (v.decodeChunks chunks).2.take k := by
  induction chunks generalizing v k with
  | nil => simp [decodeChunks]
  | cons chunk chunks ih =>
    cases k with
    | zero => rfl
    | succ k => simp [decodeChunks, ih]

end Validator

/-- For every split of a string into chunks: all calls return true and the string is complete at the end if and only if it is well-formed
UTF-8, and one of the first `k` calls returns false if and only if the first `k` chunks begin no well-formed string. -/
theorem decodeChunks_wellFormed (chunks : List Bytes) :
    ((∀ ok ∈ (init.decodeChunks chunks).2, ok = true) ∧ (init.decodeChunks chunks).1.complete = true ↔
        WellFormedUtf8 chunks.flatten) ∧
      ∀ k, false ∈ (init.decodeChunks chunks).2.take k ↔ ¬ ∃ t, WellFormedUtf8 ((chunks.take k).flatten ++ t) := by
  constructor
  · obtain ⟨hfalse, hstate⟩ := init.decodeChunks_spec chunks (by decide)
    have hall : (∀ ok ∈ (init.decodeChunks chunks).2, ok = true) ↔ false ∉ (init.decodeChunks chunks).2 := by
      simp
    rw [hall, complete_iff, ← utf8Run_accept_iff]
    constructor
    · rintro ⟨hmem, hzero⟩
      exact (hstate hmem).symm.trans hzero
    · intro hrun
      have hmem : false ∉ (init.decodeChunks chunks).2 := by
        intro hmem
        cases hrun.symm.trans (hfalse.1 hmem)
      exact ⟨hmem, (hstate hmem).trans hrun⟩
  · intro k
    obtain ⟨hfalse, -⟩ := init.decodeChunks_spec (chunks.take k) (by decide)
    rw [← decodeChunks_take, hfalse, ← utf8Run_ne_reject_iff, not_not]
    rfl

end Osp.Websocketpp
