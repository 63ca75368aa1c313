import Mathlib.Data.List.Basic

/-!
# Searching a list

The first place where a pattern occurs in a list. What is found stays found when the list goes on.
-/

namespace Osp.Lib

open List

variable {α : Type} [DecidableEq α]

/-- The first occurrence of the pattern: what comes before it and what comes after it. -/
def search (pattern : List α) : List α → Option (List α × List α)
  | [] => if pattern = [] then some ([], []) else none
  | a :: l =>
    if pattern <+: a :: l then some ([], (a :: l).drop pattern.length)
    else (search pattern l).map fun found => (a :: found.1, found.2)

variable {pattern l before after : List α}

theorem search_eq_append (h : search pattern l = some (before, after)) : l = before ++ pattern ++ after := by
  induction l generalizing before with
  | nil =>
    unfold search at h
    split at h
    · cases h
      simpa using ‹pattern = []›
    · cases h
  | cons a l ih =>
    unfold search at h
    split at h
    · cases h
      exact (prefix_iff_eq_append.1 ‹_›).symm
    · obtain ⟨found, hfound, heq⟩ := Option.map_eq_some_iff.1 h
      cases heq
      rw [ih hfound]
      rfl

/-- What is found does not depend on what follows. -/
theorem search_append (h : search pattern l = some (before, after)) (more : List α) :
    search pattern (l ++ more) = some (before, after ++ more) := by
  induction l generalizing before with
  | nil =>
    unfold search at h
    split at h
    · cases h
      rename_i hnil
      cases more with
      | nil => simp [search, hnil]
      | cons b more => simp [search, hnil]
    · cases h
  | cons a l ih =>
    rw [cons_append]
    unfold search at h ⊢
    split at h
    · rename_i hpre
      cases h
      have hpre' : pattern <+: a :: (l ++ more) := hpre.trans (prefix_append (a :: l) more)
      rw [if_pos hpre', ← cons_append, drop_append_of_le_length hpre.length_le]
    · rename_i hno
      obtain ⟨found, hfound, heq⟩ := Option.map_eq_some_iff.1 h
      cases heq
      have hlong : pattern.length ≤ (a :: l).length := by
        have := congrArg List.length (search_eq_append hfound)
        simp only [length_append, length_cons] at this ⊢
        omega
      have hno' : ¬ pattern <+: a :: (l ++ more) := fun hpre =>
        hno (prefix_of_prefix_length_le hpre (prefix_append (a :: l) more) hlong)
      rw [if_neg hno', ih hfound]
      rfl

/-- A pattern is searched for behind what does not hold its first element. -/
theorem search_append_of_notMem {a : α} (tail l : List α) (h : a ∉ before) :
    search (a :: tail) (before ++ l) = (search (a :: tail) l).map fun found => (before ++ found.1, found.2) := by
  induction before with
  | nil => simp
  | cons b before ih =>
    obtain ⟨hne, hmem⟩ := not_or.1 (fun h' => h (mem_cons.2 h'))
    have hno : ¬ a :: tail <+: b :: (before ++ l) := fun hpre => hne (cons_prefix_cons.1 hpre).1
    rw [cons_append, search, if_neg hno, ih hmem, Option.map_map]
    rfl

/-- The first occurrence of a pattern whose first element does not stand before it. -/
theorem search_cons {a : α} (tail : List α) (h : a ∉ before) :
    search (a :: tail) (before ++ a :: (tail ++ after)) = some (before, after) := by
  rw [search_append_of_notMem tail _ h]
  simp [search]

/-- The first occurrence of one element. -/
theorem search_singleton {a : α} (h : a ∉ before) : search [a] (before ++ a :: after) = some (before, after) :=
  search_cons [] h

/-- What comes before the first occurrence of an element does not hold it. -/
theorem notMem_of_search_singleton {a : α} (h : search [a] l = some (before, after)) : a ∉ before := by
  induction l generalizing before with
  | nil => cases h
  | cons b l ih =>
    unfold search at h
    split at h
    · cases h
      exact not_mem_nil
    · rename_i hno
      obtain ⟨found, hfound, heq⟩ := Option.map_eq_some_iff.1 h
      cases heq
      refine fun hmem => (mem_cons.1 hmem).elim (fun hab => hno ?_) (ih hfound)
      simp [hab]

theorem search_ne_none (h : pattern <:+: l) : search pattern l ≠ none := by
  induction l with
  | nil => simp [search, infix_nil.1 h]
  | cons a l ih =>
    unfold search
    split
    · nofun
    · rename_i hno
      rw [Ne, Option.map_eq_none_iff]
      exact ih ((infix_cons_iff.1 h).resolve_left hno)

/-- What is found is found in the list up to its end. -/
theorem search_prefix (h : search pattern l = some (before, after)) : search pattern (before ++ pattern) = some (before, []) := by
  cases hfound : search pattern (before ++ pattern) with
  | none => exact absurd hfound (search_ne_none (suffix_append before pattern).isInfix)
  | some found =>
    have happend := search_append hfound after
    rw [← search_eq_append h, h] at happend
    simp only [Option.some.injEq, Prod.mk.injEq, self_eq_append_left] at happend
    rw [happend.1, ← happend.2]

/-- What is found only when the list goes on ends in what it goes on with. -/
theorem length_lt_of_search_append {more : List α} (hnone : search pattern l = none)
    (h : search pattern (l ++ more) = some (before, after)) : l.length < before.length + pattern.length := by
  by_contra hle
  have hfound : before ++ pattern <+: l ++ more := ⟨after, (search_eq_append h).symm⟩
  have hpre : before ++ pattern <+: l :=
    prefix_of_prefix_length_le hfound (prefix_append l more) (by rw [length_append]; omega)
  exact search_ne_none (List.IsInfix.trans (suffix_append before pattern).isInfix hpre.isInfix) hnone

theorem suffix_of_search_append {more : List α} (hnone : search pattern l = none)
    (h : search pattern (l ++ more) = some (before, after)) : after <:+ more ∧ after.length < more.length := by
  have hlt := length_lt_of_search_append hnone h
  have happend := search_eq_append h
  have hlength := congrArg List.length happend
  simp only [length_append] at hlength
  have hsuffix : after <:+ l ++ more := happend ▸ suffix_append ..
  exact ⟨suffix_of_suffix_length_le hsuffix (suffix_append l more) (by omega), by omega⟩

/-! ## Reading lines

A reader takes one line after the other, until a line ends the reading or no further line is complete. -/

section

variable {α σ β : Type} [DecidableEq α]

/-- Where reading lines has come to: how many lines were read, the state or the result after them, and what is left. -/
structure Reading (α σ β : Type) where
  lines : Nat
  state : σ ⊕ β
  rest : List α

/-- The lines of a list, ended by `delimiter`, at most `n` of them. -/
def readLinesUpTo (delimiter : List α) (step : σ → List α → σ ⊕ β) : Nat → σ → List α → Reading α σ β
  | 0, s, l => ⟨0, .inl s, l⟩
  | n + 1, s, l =>
    match search delimiter l with
    | none => ⟨0, .inl s, l⟩
    | some (line, after) =>
      match step s line with
      | .inl s =>
        let reading := readLinesUpTo delimiter step n s after
        { reading with lines := reading.lines + 1 }
      | .inr b => ⟨1, .inr b, after⟩

/-- The lines of a list. -/
def readLines (delimiter : List α) (step : σ → List α → σ ⊕ β) (s : σ) (l : List α) : Reading α σ β :=
  readLinesUpTo delimiter step (l.length + 1) s l

variable {delimiter : List α} {step : σ → List α → σ ⊕ β} {s s' : σ} {b : β} {l line after : List α} {n : Nat}

theorem length_of_search (h : search delimiter l = some (line, after)) :
    l.length = line.length + delimiter.length + after.length := by
  have := congrArg List.length (search_eq_append h)
  simpa [Nat.add_assoc] using this

/-- A list has fewer lines than elements. -/
theorem readLinesUpTo_congr (hdelimiter : delimiter ≠ []) {m : Nat} (hn : l.length < n) (hm : l.length < m) :
    readLinesUpTo delimiter step n s l = readLinesUpTo delimiter step m s l := by
  induction n generalizing m s l with
  | zero => exact absurd hn (Nat.not_lt_zero _)
  | succ n ih =>
    cases m with
    | zero => exact absurd hm (Nat.not_lt_zero _)
    | succ m =>
      unfold readLinesUpTo
      split
      · rfl
      · rename_i line after hsearch
        have hlength := length_of_search hsearch
        have hpos := List.length_pos_iff.2 hdelimiter
        split
        · rw [ih (m := m) (by omega) (by omega)]
        · rfl

theorem readLines_of_none (h : search delimiter l = none) : readLines delimiter step s l = ⟨0, .inl s, l⟩ := by
  simp only [readLines, readLinesUpTo, h]

theorem readLines_of_more (hdelimiter : delimiter ≠ []) (h : search delimiter l = some (line, after))
    (hstep : step s line = .inl s') :
    readLines delimiter step s l =
      { readLines delimiter step s' after with lines := (readLines delimiter step s' after).lines + 1 } := by
  have hlength := length_of_search h
  have hpos := List.length_pos_iff.2 hdelimiter
  have hfuel : readLinesUpTo delimiter step l.length s' after = readLines delimiter step s' after :=
    readLinesUpTo_congr hdelimiter (by omega) (Nat.lt_succ_self _)
  simp only [readLines, readLinesUpTo, h, hstep] at hfuel ⊢
  rw [hfuel]

theorem readLines_of_end (h : search delimiter l = some (line, after)) (hstep : step s line = .inr b) :
    readLines delimiter step s l = ⟨1, .inr b, after⟩ := by
  simp only [readLines, readLinesUpTo, h, hstep]

variable (hdelimiter : delimiter ≠ [])

include hdelimiter

variable (step) in
/-- The cases of reading a list: no line is complete, a line is read and reading goes on, or a line ends it. -/
theorem readLines_induct {motive : σ → List α → Prop}
    (none : ∀ s l, search delimiter l = none → motive s l)
    (more : ∀ s l line after s', search delimiter l = some (line, after) → step s line = .inl s' → motive s' after →
      motive s l)
    (done : ∀ s l line after b, search delimiter l = some (line, after) → step s line = .inr b → motive s l)
    (s : σ) (l : List α) : motive s l := by
  induction hn : l.length using Nat.strongRecOn generalizing s l with
  | ind n ih =>
    cases hsearch : search delimiter l with
    | none => exact none s l hsearch
    | some found =>
      obtain ⟨line, after⟩ := found
      have hlength := length_of_search hsearch
      have hpos := List.length_pos_iff.2 hdelimiter
      cases hstep : step s line with
      | inl s' => exact more s l line after s' hsearch hstep (ih after.length (by omega) s' after rfl)
      | inr b => exact done s l line after b hsearch hstep

/-- Reading that has not ended goes on with what was left and what follows. Reading that has ended does not look at it. -/
theorem readLines_append (s : σ) (l more : List α) :
    readLines delimiter step s (l ++ more) =
      let first := readLines delimiter step s l
      match first.state with
      | .inl s' =>
        let reading := readLines delimiter step s' (first.rest ++ more)
        { reading with lines := first.lines + reading.lines }
      | .inr _ => { first with rest := first.rest ++ more } := by
  induction s, l using readLines_induct step hdelimiter with
  | none s l hsearch => simp [readLines_of_none hsearch]
  | more s l line after t hsearch hstep ih =>
    rw [readLines_of_more hdelimiter hsearch hstep, readLines_of_more hdelimiter (search_append hsearch more) hstep, ih]
    simp only
    split
    · simp only [Reading.mk.injEq, and_true]
      omega
    · rfl
  | done s l line after b hsearch hstep =>
    rw [readLines_of_end hsearch hstep, readLines_of_end (search_append hsearch more) hstep]

/-- Reading that has not ended has left no complete line. -/
theorem search_rest_of_inl (h : (readLines delimiter step s l).state = .inl s') :
    search delimiter (readLines delimiter step s l).rest = none := by
  induction s, l using readLines_induct step hdelimiter with
  | none s l hsearch => rwa [readLines_of_none hsearch]
  | more s l line after t hsearch hstep ih =>
    rw [readLines_of_more hdelimiter hsearch hstep] at h ⊢
    exact ih h
  | done s l line after b hsearch hstep =>
    rw [readLines_of_end hsearch hstep] at h
    cases h

theorem rest_suffix : (readLines delimiter step s l).rest <:+ l := by
  induction s, l using readLines_induct step hdelimiter with
  | none s l hsearch =>
    rewrite [readLines_of_none hsearch]
    exact List.suffix_rfl
  | more s l line after t hsearch hstep ih =>
    rw [readLines_of_more hdelimiter hsearch hstep]
    exact ih.trans (search_eq_append hsearch ▸ List.suffix_append ..)
  | done s l line after b hsearch hstep =>
    rw [readLines_of_end hsearch hstep]
    exact search_eq_append hsearch ▸ List.suffix_append ..

/-- The line that ends reading is not complete before what completes the first line. -/
theorem length_rest_lt_of_inr {more : List α} (hnone : search delimiter l = none)
    (h : (readLines delimiter step s (l ++ more)).state = .inr b) :
    (readLines delimiter step s (l ++ more)).rest.length < more.length := by
  cases hsearch : search delimiter (l ++ more) with
  | none =>
    rw [readLines_of_none hsearch] at h
    cases h
  | some found =>
    obtain ⟨line, after⟩ := found
    have hlt := (suffix_of_search_append hnone hsearch).2
    cases hstep : step s line with
    | inr b' => rwa [readLines_of_end hsearch hstep]
    | inl s' =>
      rw [readLines_of_more hdelimiter hsearch hstep]
      exact Nat.lt_of_le_of_lt (rest_suffix hdelimiter).length_le hlt

end

end Osp.Lib
