import Osp.Lib.Glob
import Osp.Lib.Lists
import Osp.Openssh.Match

/-!
# Patterns and their languages

`match_pattern` accepts the strings of the language of a pattern, unless the pattern ends in two stars and everything of the string is
needed for what is before them: the loop for the first star never tries the end of the string. `match_pattern_list` combines the results
for its subpatterns as it should, but does not look at an empty one at the end of the list.
-/

namespace Osp.Openssh

open Osp.Lib List

variable {s pattern : Bytes} {c : UInt8}

/-- What a byte of a pattern stands for. -/
def globToken (c : UInt8) : GlobToken UInt8 := if c = 42 then .star else if c = 63 then .one else .letter c

/-- The language of a pattern. -/
def patternLanguage (pattern : Bytes) : Language UInt8 := globLanguage (pattern.map globToken)

/-- The pattern ends in two stars that have to match the empty string. -/
def StarsAtEnd (pattern s : Bytes) : Prop :=
  ∃ front, pattern = front ++ [42, 42] ∧ s ∈ patternLanguage front ∧ ∀ u v, s = u ++ v → v ≠ [] → u ∉ patternLanguage front

/-! ## One byte of a pattern -/

theorem mem_patternLanguage_nil : s ∈ patternLanguage [] ↔ s = [] := mem_globLanguage_nil

theorem mem_patternLanguage_star : s ∈ patternLanguage (42 :: pattern) ↔ ∃ u v, s = u ++ v ∧ v ∈ patternLanguage pattern :=
  mem_globLanguage_star

theorem mem_patternLanguage_cons (hc : c ≠ 42) :
    s ∈ patternLanguage (c :: pattern) ↔ ∃ e v, s = e :: v ∧ (c = 63 ∨ c = e) ∧ v ∈ patternLanguage pattern := by
  rw [patternLanguage, map_cons, globToken, if_neg hc]
  split
  · rename_i hone
    rw [mem_globLanguage_one]
    exact ⟨fun ⟨e, v, hs, hv⟩ => ⟨e, v, hs, .inl hone, hv⟩, fun ⟨e, v, hs, _, hv⟩ => ⟨e, v, hs, hv⟩⟩
  · rename_i hone
    rw [mem_globLanguage_letter]
    constructor
    · rintro ⟨v, rfl, hv⟩
      exact ⟨c, v, rfl, .inr rfl, hv⟩
    · rintro ⟨e, v, rfl, hce, hv⟩
      obtain rfl := hce.resolve_left hone
      exact ⟨v, rfl, hv⟩

theorem tryEach_iff {f : UInt8 → Bytes → Bool} : tryEach f s = true ↔ ∃ u e v, s = u ++ e :: v ∧ f e v = true := by
  induction s with
  | nil => simp [tryEach]
  | cons c s ih =>
    rw [tryEach, Bool.or_eq_true, ih]
    constructor
    · rintro (h | ⟨u, e, v, rfl, h⟩)
      · exact ⟨[], c, s, rfl, h⟩
      · exact ⟨c :: u, e, v, rfl, h⟩
    · rintro ⟨u, e, v, hs, h⟩
      cases u with
      | nil =>
        obtain ⟨rfl, rfl⟩ := List.cons.inj hs
        exact .inl h
      | cons d u => exact .inr ⟨u, e, v, (List.cons.inj hs).2, h⟩

theorem matchPattern_cons (hc : c ≠ 42) :
    matchPattern (c :: pattern) s = true ↔ ∃ e v, s = e :: v ∧ (c = 63 ∨ c = e) ∧ matchPattern pattern v = true := by
  cases s with
  | nil =>
    unfold matchPattern
    simp [hc]
  | cons e v =>
    rw [matchPattern.eq_def]
    simp only [if_neg hc]
    by_cases h : c ≠ 63 ∧ c ≠ e
    · simp [h]
    · simp

/-- What follows a star is tried at every byte of the string, but not at its end. -/
theorem matchPattern_star (hne : pattern ≠ []) :
    matchPattern (42 :: pattern) s = true ↔ ∃ u v, s = u ++ v ∧ v ≠ [] ∧ matchPattern pattern v = true := by
  obtain ⟨d, pattern, rfl⟩ := exists_cons_of_ne_nil hne
  have hsplit : (∃ u v, s = u ++ v ∧ v ≠ [] ∧ matchPattern (d :: pattern) v = true) ↔
      ∃ u e v, s = u ++ e :: v ∧ matchPattern (d :: pattern) (e :: v) = true := by
    constructor
    · rintro ⟨u, v, hs, hv, h⟩
      obtain ⟨e, v, rfl⟩ := exists_cons_of_ne_nil hv
      exact ⟨u, e, v, hs, h⟩
    · rintro ⟨u, e, v, hs, h⟩
      exact ⟨u, e :: v, hs, by simp, h⟩
  rw [hsplit, matchPattern.eq_def]
  simp only [if_true]
  split
  · rename_i hd
    rw [tryEach_iff]
    refine exists_congr fun u => exists_congr fun e => exists_congr fun v => and_congr_right fun _ => ?_
    rw [matchPattern_cons hd.2]
    constructor
    · intro h
      obtain ⟨rfl, hv⟩ : e = d ∧ matchPattern pattern v = true := by simpa using h
      exact ⟨e, v, rfl, .inr rfl, hv⟩
    · rintro ⟨e', v', h, hok, hv⟩
      obtain ⟨rfl, rfl⟩ := List.cons.inj h
      simp [hok.resolve_left hd.1, hv]
  · exact tryEach_iff

/-! ## The whole pattern -/

/-- The two stars at the end of the pattern can take something of the string. -/
def StarsTake (pattern s : Bytes) : Prop :=
  ∀ front, pattern = front ++ [42, 42] → ∃ u v, s = u ++ v ∧ v ≠ [] ∧ u ∈ patternLanguage front

theorem starsTake_cons (hc : c ≠ 42) {e : UInt8} {v : Bytes} (hok : c = 63 ∨ c = e) :
    StarsTake (c :: pattern) (e :: v) ↔ StarsTake pattern v := by
  constructor
  · rintro h front rfl
    obtain ⟨u, w, hs, hw, hu⟩ := h (c :: front) rfl
    obtain ⟨e', u, rfl, -, hu⟩ := (mem_patternLanguage_cons hc).1 hu
    exact ⟨u, w, (List.cons.inj hs).2, hw, hu⟩
  · intro h front hfront
    cases front with
    | nil => exact absurd (List.cons.inj hfront).1 hc
    | cons d front =>
      obtain ⟨rfl, hpattern⟩ := List.cons.inj hfront
      obtain ⟨u, w, rfl, hw, hu⟩ := h front hpattern
      exact ⟨e :: u, w, rfl, hw, (mem_patternLanguage_cons hc).2 ⟨e, u, rfl, hok, hu⟩⟩

/-- A pattern of one star or more that does not end in two is a single star. -/
theorem eq_star_of_nil_mem (hne : pattern ≠ []) (hmem : [] ∈ patternLanguage pattern) (h : ∀ front, pattern ≠ front ++ [42, 42]) :
    pattern = [42] := by
  have hall : ∀ c ∈ pattern, c = 42 := by
    intro c hc
    have hstar := nil_mem_globLanguage.1 hmem (globToken c) (mem_map_of_mem hc)
    by_contra hne
    rw [globToken, if_neg hne] at hstar
    split at hstar <;> cases hstar
  rw [eq_replicate_of_mem hall] at hne h ⊢
  generalize pattern.length = n at hne h ⊢
  match n, hne, h with
  | 0, hne, _ => exact absurd rfl hne
  | 1, _, _ => rfl
  | n + 2, _, h => exact absurd (replicate_add n 2 42) (h (List.replicate n 42))

theorem matchPattern_iff_starsTake : matchPattern pattern s = true ↔ s ∈ patternLanguage pattern ∧ StarsTake pattern s := by
  induction pattern generalizing s with
  | nil =>
    rw [mem_patternLanguage_nil, matchPattern, List.isEmpty_iff]
    exact ⟨fun hs => ⟨hs, fun front h => absurd h.symm (by simp)⟩, fun h => h.1⟩
  | cons c pattern ih =>
    by_cases hc : c = 42
    swap
    · rw [matchPattern_cons hc, mem_patternLanguage_cons hc]
      constructor
      · rintro ⟨e, v, rfl, hok, hv⟩
        obtain ⟨hmem, htake⟩ := ih.1 hv
        exact ⟨⟨e, v, rfl, hok, hmem⟩, (starsTake_cons hc hok).2 htake⟩
      · rintro ⟨⟨e, v, rfl, hok, hmem⟩, htake⟩
        exact ⟨e, v, rfl, hok, ih.2 ⟨hmem, (starsTake_cons hc hok).1 htake⟩⟩
    subst hc
    by_cases hne : pattern = []
    · subst hne
      refine ⟨fun _ => ⟨mem_patternLanguage_star.2 ⟨s, [], by simp, mem_patternLanguage_nil.2 rfl⟩, fun front h => ?_⟩, fun _ => rfl⟩
      have hlength := congrArg List.length h
      simp at hlength
    rw [matchPattern_star hne]
    constructor
    · rintro ⟨u, v, rfl, hv, hmatch⟩
      obtain ⟨hmem, htake⟩ := ih.1 hmatch
      refine ⟨mem_patternLanguage_star.2 ⟨u, v, rfl, hmem⟩, fun front hfront => ?_⟩
      cases front with
      | nil => exact ⟨[], u ++ v, rfl, by simp [hv], mem_patternLanguage_nil.2 rfl⟩
      | cons d front =>
        obtain ⟨rfl, hpattern⟩ := List.cons.inj hfront
        obtain ⟨u', v', rfl, hv', hu'⟩ := htake front hpattern
        exact ⟨u ++ u', v', by simp, hv', mem_patternLanguage_star.2 ⟨u, u', rfl, hu'⟩⟩
    · rintro ⟨hmem, htake⟩
      by_cases hends : ∃ front, pattern = front ++ [42, 42]
      · -- the string is cut anew, so that the last stars get something
        obtain ⟨front, rfl⟩ := hends
        obtain ⟨u, v, rfl, hv, hu⟩ := htake (42 :: front) rfl
        obtain ⟨a, b, rfl, hb⟩ := mem_patternLanguage_star.1 hu
        have hstars : v ∈ patternLanguage [42, 42] :=
          mem_patternLanguage_star.2 ⟨v, [], by simp, mem_patternLanguage_star.2 ⟨[], [], rfl, mem_patternLanguage_nil.2 rfl⟩⟩
        have hbv : b ++ v ∈ patternLanguage (front ++ [42, 42]) := by
          rw [patternLanguage, List.map_append, globLanguage_append]
          exact Language.append_mem_mul hb hstars
        refine ⟨a, b ++ v, by simp, by simp [hv], ih.2 ⟨hbv, fun front' hfront' => ?_⟩⟩
        rw [← List.append_cancel_right hfront']
        exact ⟨b, v, rfl, hv, hb⟩
      · push Not at hends
        obtain ⟨u, v, rfl, hv⟩ := mem_patternLanguage_star.1 hmem
        by_cases hnil : v = []
        · subst hnil
          obtain rfl := eq_star_of_nil_mem hne hv hends
          obtain ⟨u', v', heq, hv', -⟩ := htake [] rfl
          exact ⟨[], u ++ [], rfl, by simp [heq, hv'], rfl⟩
        · exact ⟨u, v, rfl, hnil, ih.2 ⟨hv, fun front hfront => absurd hfront (hends front)⟩⟩

theorem mem_and_not_starsAtEnd : s ∈ patternLanguage pattern ∧ StarsTake pattern s ↔ s ∈ patternLanguage pattern ∧ ¬ StarsAtEnd pattern s := by
  refine and_congr_right fun hmem => ⟨?_, fun h front hfront => ?_⟩
  · rintro htake ⟨front, hfront, -, hnone⟩
    obtain ⟨u, v, hs, hv, hu⟩ := htake front hfront
    exact hnone u v hs hv hu
  · subst hfront
    by_contra hnone
    push Not at hnone
    refine h ⟨front, rfl, ?_, hnone⟩
    rw [patternLanguage, map_append, globLanguage_append] at hmem
    obtain ⟨u, hu, v, hv, rfl⟩ := Language.mem_mul.1 hmem
    have hnil : v = [] := by
      by_contra hne
      exact hnone u v rfl hne hu
    rw [hnil, append_nil]
    exact hu

theorem matchPattern_iff : (matchPattern pattern s = true ↔ s ∈ patternLanguage pattern) ↔ ¬ StarsAtEnd pattern s := by
  rw [matchPattern_iff_starsTake, mem_and_not_starsAtEnd]
  constructor
  · rintro h hends
    obtain ⟨front, rfl, hs, -⟩ := id hends
    have hmem : s ∈ patternLanguage (front ++ [42, 42]) := by
      rw [patternLanguage, map_append, globLanguage_append, ← append_nil s]
      exact Language.append_mem_mul hs (nil_mem_globLanguage.2 (by simp [globToken]))
    exact (h.2 hmem).2 hends
  · intro h
    exact ⟨fun h' => h'.1, fun h' => ⟨h', h⟩⟩

/-! ## Lists of patterns -/

variable {string list piece : Bytes} {dolower : Bool}

/-- A subpattern, and whether there is a `!` before it. -/
def asSubpattern : Bytes → Bool × Bytes
  | [] => (false, [])
  | c :: sub => if c = 33 then (true, sub) else (false, c :: sub)

/-- The subpatterns of a list. -/
def subpatterns (list : Bytes) : List (Bool × Bytes) := if list = [] then [] else (list.splitOnP (· = 44)).map asSubpattern

/-- The subpatterns that `match_pattern_list` reads: an empty one at the end of the list is not among them. -/
def readSubpatterns (list : Bytes) : List (Bool × Bytes) :=
  if (subpatterns list).getLast? = some (false, []) then (subpatterns list).dropLast else subpatterns list

open Classical in
/-- What a list says about a string, from which of its subpatterns match. -/
noncomputable def listResult (Matches : Bytes → Prop) (subs : List (Bool × Bytes)) : Int :=
  if ∃ sub, (true, sub) ∈ subs ∧ Matches sub then -1 else if ∃ sub, (false, sub) ∈ subs ∧ Matches sub then 1 else 0

theorem subpatterns_of_no_comma (hne : list ≠ []) (h : 44 ∉ list) : subpatterns list = [asSubpattern list] := by
  rw [subpatterns, if_neg hne, splitOnP_eq_singleton]
  · rfl
  · exact fun c hc => decide_eq_false fun hcomma : c = 44 => h (hcomma ▸ hc)

theorem splitOnP_comma (h : 44 ∉ piece) (rest : Bytes) :
    (piece ++ 44 :: rest).splitOnP (· = 44) = piece :: rest.splitOnP (· = 44) := by
  refine splitOnP_append_cons_of_forall_mem (fun c hc => ?_) 44 (by simp) rest
  exact decide_eq_false fun hcomma : c = 44 => h (hcomma ▸ hc)

theorem readSubpatterns_nil : readSubpatterns [] = [] := rfl

theorem readSubpatterns_of_no_comma (hne : list ≠ []) (h : 44 ∉ list) : readSubpatterns list = [asSubpattern list] := by
  rw [readSubpatterns, subpatterns_of_no_comma hne h, if_neg]
  obtain ⟨c, list, rfl⟩ := exists_cons_of_ne_nil hne
  rw [asSubpattern]
  split <;> simp

theorem readSubpatterns_comma (h : 44 ∉ piece) (rest : Bytes) :
    readSubpatterns (piece ++ 44 :: rest) = asSubpattern piece :: readSubpatterns rest := by
  have hsubs : subpatterns (piece ++ 44 :: rest) = asSubpattern piece :: (rest.splitOnP (· = 44)).map asSubpattern := by
    rw [subpatterns, if_neg (by simp), splitOnP_comma h, map_cons]
  by_cases hrest : rest = []
  · subst hrest
    rw [readSubpatterns, hsubs]
    rfl
  · have hne : subpatterns rest ≠ [] := by simp [subpatterns, hrest]
    have hsubs' : subpatterns (piece ++ 44 :: rest) = asSubpattern piece :: subpatterns rest := by
      rw [hsubs, subpatterns, if_neg hrest]
    rw [readSubpatterns, readSubpatterns, hsubs', List.getLast?_cons_of_ne_nil hne, dropLast_cons_of_ne_nil hne]
    split <;> rfl

/-- One round of `match_pattern_list`. -/
theorem patternListLoop_succ {tail : Bytes} {got : Bool} {fuel : Nat} (h : 44 ∉ piece) (htail : tail = [] ∨ ∃ rest, tail = 44 :: rest)
    (hne : piece ++ tail ≠ []) (hlen : (asSubpattern piece).2.length < 1023) :
    patternListLoop string dolower (fuel + 1) (piece ++ tail) got =
      if matchPattern (lowered dolower (asSubpattern piece).2) string then
        if (asSubpattern piece).1 then -1 else patternListLoop string dolower fuel (tail.drop 1) true
      else patternListLoop string dolower fuel (tail.drop 1) got := by
  have htake : ∀ sub : Bytes, 44 ∉ sub → sub.length < 1023 → ((sub ++ tail).takeWhile (· ≠ 44)).take 1023 = sub := by
    intro sub hsub hlen
    have hbefore : ∀ c ∈ sub, decide (c ≠ 44) = true := fun c hc => decide_eq_true fun hcomma => hsub (hcomma ▸ hc)
    rw [takeWhile_append_of_pos hbefore]
    obtain rfl | ⟨rest, rfl⟩ := htail <;> simp [take_of_length_le hlen.le]
  have hround : ∀ (c : UInt8) (list sub : Bytes), c :: list = piece ++ tail → (if c = 33 then list else c :: list) = sub ++ tail →
      asSubpattern piece = (decide (c = 33), sub) → 44 ∉ sub →
      patternListLoop string dolower (fuel + 1) (c :: list) got =
        if matchPattern (lowered dolower (asSubpattern piece).2) string then
          if (asSubpattern piece).1 then -1 else patternListLoop string dolower fuel (tail.drop 1) true
        else patternListLoop string dolower fuel (tail.drop 1) got := by
    intro c list sub hlist htext hpiece hsub
    rw [hpiece] at hlen ⊢
    simp only [patternListLoop, decide_eq_true_eq, htext, htake sub hsub hlen, drop_left, if_neg hlen.not_ge]
    obtain rfl | ⟨rest, rfl⟩ := htail <;> rfl
  cases piece with
  | nil =>
    obtain rfl | ⟨rest, rfl⟩ := htail
    · exact absurd rfl hne
    · exact hround 44 rest [] rfl rfl rfl (by simp)
  | cons c piece =>
    obtain ⟨-, hpiece⟩ : 44 ≠ c ∧ 44 ∉ piece := by simpa using h
    by_cases hc : c = 33
    · exact hround c (piece ++ tail) piece rfl (by simp [hc]) (by simp [asSubpattern, hc]) hpiece
    · exact hround c (piece ++ tail) (c :: piece) rfl (by simp [hc]) (by simp [asSubpattern, hc]) h

/-- The result of the loop, from the subpatterns it reads. -/
theorem patternListLoop_eq {fuel : Nat} {got : Bool} (hfuel : list.length < fuel)
    (hlen : ∀ sub ∈ subpatterns list, sub.2.length < 1023) :
    patternListLoop string dolower fuel list got =
      if (readSubpatterns list).any (fun sub => sub.1 && matchPattern (lowered dolower sub.2) string) then -1
      else if got || (readSubpatterns list).any (fun sub => !sub.1 && matchPattern (lowered dolower sub.2) string) then 1 else 0 := by
  induction fuel generalizing list got with
  | zero => omega
  | succ fuel ih =>
    by_cases hnil : list = []
    · subst hnil
      simp [patternListLoop, readSubpatterns_nil]
    obtain ⟨piece, tail, rfl, hpiece, htail, hread, hpos⟩ : ∃ piece tail, list = piece ++ tail ∧ 44 ∉ piece ∧
        (tail = [] ∨ ∃ rest, tail = 44 :: rest) ∧ readSubpatterns list = asSubpattern piece :: readSubpatterns (tail.drop 1) ∧
        (asSubpattern piece ∈ subpatterns list ∧ ∀ sub ∈ subpatterns (tail.drop 1), sub ∈ subpatterns list) := by
      by_cases hcomma : ∀ c ∈ list, decide (c = 44) = false
      · have hmem : 44 ∉ list := fun h => by simpa using hcomma 44 h
        refine ⟨list, [], by simp, hmem, .inl rfl, readSubpatterns_of_no_comma hnil hmem, ?_, by simp [subpatterns]⟩
        rw [subpatterns_of_no_comma hnil hmem]
        exact mem_cons_self
      · obtain ⟨piece, c, rest, rfl, hbefore, hc⟩ := exists_first _ hcomma
        obtain rfl : c = 44 := by simpa using hc
        have hmem : 44 ∉ piece := fun h => by simpa using hbefore 44 h
        refine ⟨piece, 44 :: rest, rfl, hmem, .inr ⟨rest, rfl⟩, readSubpatterns_comma hmem rest, ?_⟩
        rw [subpatterns, if_neg hnil, splitOnP_comma hmem]
        refine ⟨mem_cons_self, fun sub hsub => ?_⟩
        rw [drop_one, tail_cons, subpatterns] at hsub
        split at hsub
        · cases hsub
        · exact mem_cons_of_mem _ hsub
    rw [patternListLoop_succ hpiece htail hnil (hlen _ hpos.1), hread]
    have hrest : (tail.drop 1).length < fuel := by
      have : tail = [] → piece ≠ [] := fun h h' => hnil (by simp [h, h'])
      rcases htail with rfl | ⟨rest, rfl⟩
      · have := length_pos_iff.2 (this rfl)
        simp at hfuel ⊢
        omega
      · simp at hfuel ⊢
        omega
    have hlen' : ∀ sub ∈ subpatterns (tail.drop 1), sub.2.length < 1023 := fun sub hsub => hlen sub (hpos.2 sub hsub)
    rw [ih hrest hlen', ih hrest hlen', any_cons, any_cons]
    generalize matchPattern (lowered dolower (asSubpattern piece).2) string = found
    generalize (asSubpattern piece).1 = negated
    cases found <;> cases negated <;>
      simp only [Bool.and_false, Bool.and_true, Bool.false_or, Bool.true_or, Bool.or_true, Bool.not_true, Bool.not_false, if_true,
        if_false, Bool.false_eq_true]

/-- A string that the code finds to match a subpattern. -/
def Found (dolower : Bool) (string sub : Bytes) : Prop :=
  string ∈ patternLanguage (lowered dolower sub) ∧ ¬ StarsAtEnd (lowered dolower sub) string

theorem matchPattern_iff_found {sub : Bytes} : matchPattern (lowered dolower sub) string = true ↔ Found dolower string sub := by
  rw [matchPattern_iff_starsTake, mem_and_not_starsAtEnd]
  rfl

theorem matchPatternList_eq (hlen : ∀ sub ∈ subpatterns list, sub.2.length < 1023) :
    matchPatternList string list dolower = listResult (Found dolower string) (readSubpatterns list) := by
  rw [matchPatternList, patternListLoop_eq (Nat.lt_succ_self _) hlen, listResult]
  have hany : ∀ b : Bool, (readSubpatterns list).any (fun sub => (sub.1 == b) && matchPattern (lowered dolower sub.2) string) = true ↔
      ∃ sub, (b, sub) ∈ readSubpatterns list ∧ Found dolower string sub := by
    intro b
    rw [any_eq_true]
    constructor
    · rintro ⟨⟨b', sub⟩, hmem, h⟩
      obtain ⟨rfl, hfound⟩ : b' = b ∧ matchPattern (lowered dolower sub) string = true := by simpa using h
      exact ⟨sub, hmem, matchPattern_iff_found.1 hfound⟩
    · rintro ⟨sub, hmem, h⟩
      exact ⟨(b, sub), hmem, by simp [matchPattern_iff_found.2 h]⟩
  have htrue := hany true
  have hfalse := hany false
  simp only [beq_true, beq_false] at htrue hfalse
  classical
  exact if_congr htrue rfl (if_congr hfalse rfl rfl)

theorem readSubpatterns_subset {sub : Bool × Bytes} (h : sub ∈ readSubpatterns list) : sub ∈ subpatterns list := by
  rw [readSubpatterns] at h
  split at h
  · exact mem_of_mem_dropLast h
  · exact h

/-- Every subpattern that decides about the string is read, and found to match. -/
structure DecidingFound (dolower : Bool) (string list : Bytes) : Prop where
  negated : (∃ sub, (true, sub) ∈ subpatterns list ∧ string ∈ patternLanguage (lowered dolower sub)) →
    ∃ sub, (true, sub) ∈ readSubpatterns list ∧ Found dolower string sub
  positive : (¬ ∃ sub, (true, sub) ∈ subpatterns list ∧ string ∈ patternLanguage (lowered dolower sub)) →
    (∃ sub, (false, sub) ∈ subpatterns list ∧ string ∈ patternLanguage (lowered dolower sub)) →
    ∃ sub, (false, sub) ∈ readSubpatterns list ∧ Found dolower string sub

theorem matchPatternList_eq_listResult (hlen : ∀ sub ∈ subpatterns list, sub.2.length < 1023) :
    matchPatternList string list dolower = listResult (fun sub => string ∈ patternLanguage (lowered dolower sub)) (subpatterns list) ↔
      DecidingFound dolower string list := by
  have hsub : ∀ b, (∃ sub, (b, sub) ∈ readSubpatterns list ∧ Found dolower string sub) →
      ∃ sub, (b, sub) ∈ subpatterns list ∧ string ∈ patternLanguage (lowered dolower sub) :=
    fun b ⟨sub, hmem, hfound⟩ => ⟨sub, readSubpatterns_subset hmem, hfound.1⟩
  have hneg := hsub true
  have hpos := hsub false
  rw [matchPatternList_eq hlen]
  refine ⟨fun h => ⟨fun hn => ?_, fun hn hp => ?_⟩, fun h => ?_⟩
  · by_contra hnone
    rw [listResult, if_neg hnone, listResult, if_pos hn] at h
    split at h <;> cases h
  · by_contra hnone
    have hnone' := fun h' => hn (hneg h')
    rw [listResult, if_neg hnone', if_neg hnone, listResult, if_neg hn, if_pos hp] at h
    cases h
  · by_cases hn : ∃ sub, (true, sub) ∈ subpatterns list ∧ string ∈ patternLanguage (lowered dolower sub)
    · rw [listResult, if_pos (h.negated hn), listResult, if_pos hn]
    · have hnone := fun h' => hn (hneg h')
      by_cases hp : ∃ sub, (false, sub) ∈ subpatterns list ∧ string ∈ patternLanguage (lowered dolower sub)
      · rw [listResult, if_neg hnone, if_pos (h.positive hn hp), listResult, if_neg hn, if_pos hp]
      · have hnone' := fun h' => hp (hpos h')
        rw [listResult, if_neg hnone, if_neg hnone', listResult, if_neg hn, if_neg hp]

/-- When `match_pattern` and `match_pattern_list` say what the patterns mean. -/
theorem patterns_iff (pattern string list : Bytes) (dolower : Bool) (hlen : ∀ sub ∈ subpatterns list, sub.2.length < 1023) :
    ((matchPattern pattern string = true ↔ string ∈ patternLanguage pattern) ↔ ¬ StarsAtEnd pattern string) ∧
    (matchPatternList string list dolower =
        listResult (fun sub => string ∈ patternLanguage (lowered dolower sub)) (subpatterns list) ↔
      DecidingFound dolower string list) :=
  ⟨matchPattern_iff, matchPatternList_eq_listResult hlen⟩

/-- A pattern with one star, and a list that lets in all hosts but one. -/
theorem patterns_iff_hosts :
    ((matchPattern (textBytes "a*") (textBytes "ab") = true ↔ textBytes "ab" ∈ patternLanguage (textBytes "a*")) ↔
      ¬ StarsAtEnd (textBytes "a*") (textBytes "ab")) ∧
    (matchPatternList (textBytes "ab") (textBytes "!b,*") true =
        listResult (fun sub => textBytes "ab" ∈ patternLanguage (lowered true sub)) (subpatterns (textBytes "!b,*")) ↔
      DecidingFound true (textBytes "ab") (textBytes "!b,*")) :=
  patterns_iff (textBytes "a*") (textBytes "ab") (textBytes "!b,*") true (by decide)

theorem mem_twoStars : textBytes "a" ∈ patternLanguage (textBytes "a**") := by
  have hstars : ([] : Bytes) ∈ patternLanguage [42, 42] := nil_mem_globLanguage.2 (by decide)
  exact (mem_patternLanguage_cons (by decide)).2 ⟨97, [], by decide, .inr rfl, hstars⟩

/-- The string `a` is in the language of `a**` and is not matched, and a list that excludes `a**` lets it in. -/
theorem twoStars_not_matched :
    textBytes "a" ∈ patternLanguage (textBytes "a**") ∧ matchPattern (textBytes "a**") (textBytes "a") = false ∧
    listResult (fun sub => textBytes "a" ∈ patternLanguage (lowered false sub)) (subpatterns (textBytes "!a**,a")) = -1 ∧
    matchPatternList (textBytes "a") (textBytes "!a**,a") false = 1 := by
  refine ⟨mem_twoStars, by decide, ?_, by decide +kernel⟩
  have hsubs : (true, textBytes "a**") ∈ subpatterns (textBytes "!a**,a") := by decide
  rw [listResult, if_pos ⟨_, hsubs, mem_twoStars⟩]

end Osp.Openssh
