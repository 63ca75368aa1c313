import Osp.Lib.Libc
import Osp.Lighttpd.SendFile

/-!
# The syntax of ranges

The value of the header `Range` after its unit: ranges separated by commas. A range is a number and a minus sign, perhaps followed by a
second number, or a minus sign and the number of bytes at the end of the file. The unit may be repeated before a range, as it is when
several headers are merged.

The server reads the numbers with `strtoll` and so reads more than this syntax; `Read` is the syntax of what it reads.
-/

namespace Osp.Lighttpd

open Osp.Lib List

/-- What a range asks for. -/
inductive RangeSpec
  | onward (first : Nat)
  | span (first last : Nat)
  | suffix (length : Nat)

/-- The bytes of a file from one place to another. -/
structure FileRange (size : Nat) where
  start : Nat
  last : Nat
  start_le : start ≤ last
  last_lt : last < size

namespace RangeSpec

/-- The bytes that a range asks for within a file, if there are any. -/
def clamp (size : Nat) : RangeSpec → Option (FileRange size)
  | onward first => if h : first < size then some ⟨first, size - 1, by omega, by omega⟩ else none
  | span first last => if h : first ≤ last ∧ first < size then some ⟨first, min last (size - 1), by omega, by omega⟩ else none
  | suffix length => if h : 0 < length ∧ 0 < size then some ⟨size - length, size - 1, by omega, by omega⟩ else none

/-- A range with its numbers in the range of a `long`. -/
def saturate : RangeSpec → RangeSpec
  | onward first => onward (min first (2 ^ 63 - 1))
  | span first last => span (min first (2 ^ 63 - 1)) (min last (2 ^ 63 - 1))
  | suffix length => suffix length

end RangeSpec

/-- What may come before a range: the unit. -/
def Lead (lead : Bytes) : Prop := lead = [] ∨ ∃ blanks, (∀ c ∈ blanks, isBlank c = true) ∧ lead = blanks ++ textBytes "bytes="

/-- A range, with the syntax of its first and its second number. -/
inductive Element (first last : Bytes → Nat → Prop) : Bytes → RangeSpec → Prop
  | onward {lead text : Bytes} {a : Nat} : Lead lead → first text a → Element first last (lead ++ (text ++ [45])) (.onward a)
  | span {lead text text' : Bytes} {a b : Nat} : Lead lead → first text a → last text' b → a ≤ b →
    Element first last (lead ++ (text ++ 45 :: text')) (.span a b)
  | suffix {lead digits : Bytes} : Lead lead → digits ≠ [] → (∀ c ∈ digits, isDigit c = true) → decimalValue digits ≠ 0 →
    Element first last (lead ++ 45 :: digits) (.suffix (decimalValue digits))

/-- A number in digits. -/
def Digits (text : Bytes) (n : Nat) : Prop := text ≠ [] ∧ (∀ c ∈ text, isDigit c = true) ∧ n = decimalValue text

/-- A number in digits, after blanks. -/
def BlankDigits (text : Bytes) (n : Nat) : Prop :=
  ∃ blanks digits, text = blanks ++ digits ∧ (∀ c ∈ blanks, isBlank c = true) ∧ Digits digits n

/-- The syntax of a list of ranges. After the last one there may be further commas. -/
inductive RangeSet : Bytes → List RangeSpec → Prop
  | last {text : Bytes} {spec : RangeSpec} : Element BlankDigits Digits text spec → RangeSet text [spec]
  | trailing {text rest : Bytes} {spec : RangeSpec} : Element BlankDigits Digits text spec → (∀ c ∈ rest, c = 44 ∨ isBlank c = true) →
    RangeSet (text ++ 44 :: rest) [spec]
  | cons {text rest : Bytes} {spec : RangeSpec} {specs : List RangeSpec} : Element BlankDigits Digits text spec → RangeSet rest specs →
    RangeSet (text ++ 44 :: rest) (spec :: specs)

/-- What is read as a first number. -/
def ReadFirst (text : Bytes) (n : Nat) : Prop := ∃ digits, Numeral text false digits ∧ longValue false digits = n

/-- What is read as a second number. -/
def ReadLast (text : Bytes) (n : Nat) : Prop := ∃ negative digits, Numeral text negative digits ∧ longValue negative digits = n

/-- What is read as a range. -/
def Read : Bytes → RangeSpec → Prop := Element ReadFirst ReadLast

/-- The end of a range. -/
def Ends (rest : Bytes) : Prop := rest = [] ∨ rest.head? = some 44

/-- The texts that are refused with the status 416: after ranges that are read, there is one for a number of bytes at the end that is 0
or missing, or one that begins after the end of the file. -/
inductive Refused (size : Nat) : Bytes → Prop
  | zero {lead rest : Bytes} : Lead lead → decimalValue (rest.takeWhile isDigit) = 0 → Refused size (lead ++ 45 :: rest)
  | beyond {text rest : Bytes} {spec : RangeSpec} : Read text spec → Ends rest → spec.clamp size = none → Refused size (text ++ rest)
  | next {text rest : Bytes} {spec : RangeSpec} : Read text spec → Refused size rest → Refused size (text ++ 44 :: rest)

/-! ## The syntax is read -/

theorem clamp_saturate {size : Nat} (h : size < 2 ^ 63) (spec : RangeSpec) : spec.saturate.clamp size = spec.clamp size := by
  cases spec with
  | onward first =>
    simp only [RangeSpec.saturate, RangeSpec.clamp]
    by_cases hfirst : first < size
    · rw [dif_pos (by omega), dif_pos hfirst]
      simp only [Option.some.injEq, FileRange.mk.injEq, and_true]
      omega
    · rw [dif_neg (by omega), dif_neg hfirst]
  | span first last =>
    simp only [RangeSpec.saturate, RangeSpec.clamp]
    by_cases hfirst : first ≤ last ∧ first < size
    · rw [dif_pos (by omega), dif_pos hfirst]
      simp only [Option.some.injEq, FileRange.mk.injEq]
      omega
    · rw [dif_neg (by omega), dif_neg hfirst]
  | suffix length => rfl

theorem isSpace_of_isBlank {c : UInt8} (h : isBlank c = true) : isSpace c = true := by
  simp only [isBlank, Bool.or_eq_true, decide_eq_true_eq] at h
  rcases h with rfl | rfl <;> decide

theorem BlankDigits.readFirst {text : Bytes} {n : Nat} (h : BlankDigits text n) : ReadFirst text (min n (2 ^ 63 - 1)) := by
  obtain ⟨blanks, digits, rfl, hblanks, hne, hdigits, rfl⟩ := h
  exact ⟨digits, ⟨⟨blanks, [], rfl, fun c hc => isSpace_of_isBlank (hblanks c hc), .inl rfl⟩, hne, hdigits⟩, rfl⟩

theorem Digits.readLast {text : Bytes} {n : Nat} (h : Digits text n) : ReadLast text (min n (2 ^ 63 - 1)) := by
  obtain ⟨hne, hdigits, rfl⟩ := h
  exact ⟨false, text, ⟨⟨[], [], rfl, by simp, .inl rfl⟩, hne, hdigits⟩, rfl⟩

/-- A range is read. -/
theorem Element.read {text : Bytes} {spec : RangeSpec} (h : Element BlankDigits Digits text spec) : Read text spec.saturate := by
  cases h with
  | onward hlead hfirst => exact .onward hlead hfirst.readFirst
  | span hlead hfirst hlast hle => exact .span hlead hfirst.readFirst hlast.readLast (by omega)
  | suffix hlead hne hdigits hpos => exact .suffix hlead hne hdigits hpos

/-! ## A round of the loop -/

section

variable {lead text text' rest after digits : Bytes} {a b size : Nat} {spec : RangeSpec} {negative : Bool}

theorem textBytes_unit : textBytes "bytes=" = [98, 121, 116, 101, 115, 61] := by decide

theorem Lead.notMem (h : Lead lead) : 45 ∉ lead := by
  rcases h with rfl | ⟨blanks, hblanks, rfl⟩
  · exact not_mem_nil
  · have hunit : (45 : UInt8) ∉ textBytes "bytes=" := by decide
    exact not_mem_append (fun hmem => absurd (hblanks 45 hmem) (by decide)) hunit

/-- The bytes of a number. -/
theorem Numeral.mem_cases (h : Numeral text negative digits) {c : UInt8} (hc : c ∈ text) :
    isSpace c = true ∨ isDigit c = true ∨ c = 43 ∨ negative = true ∧ c = 45 := by
  obtain ⟨spaces, sign, rfl, hspaces, hsign⟩ := h.parts
  simp only [mem_append] at hc
  rcases hc with hc | hc | hc
  · exact .inl (hspaces c hc)
  · cases negative <;> simp_all [signBytes]
    rcases hsign with rfl | rfl <;> simp_all
  · exact .inr (.inl (h.isDigit c hc))

theorem Numeral.notMem (h : Numeral text false digits) : 45 ∉ text := fun hmem => absurd (Numeral.mem_cases h hmem) (by decide)

theorem Numeral.text_ne_nil (h : Numeral text negative digits) : text ≠ [] := by
  obtain ⟨spaces, sign, rfl, -, -⟩ := h.parts
  simp [h.ne_nil]

theorem noDigit_minus (after : Bytes) : NoDigit (45 :: after) := by
  rintro c hc
  obtain rfl : 45 = c := Option.some.inj hc
  decide

theorem Ends.noDigit (h : Ends rest) : NoDigit rest := by
  intro c hc
  rcases h with rfl | h
  · cases hc
  · obtain rfl : 44 = c := Option.some.inj (h.symm.trans hc)
    decide

/-- Before a unit there is no number to be read. -/
theorem strtoll_unit {blanks more : Bytes} (h : ∀ c ∈ blanks, isBlank c = true) :
    strtoll (blanks ++ textBytes "bytes=" ++ more) = (0, blanks ++ textBytes "bytes=" ++ more) := by
  have hskip : (blanks ++ textBytes "bytes=" ++ more).dropWhile isSpace = textBytes "bytes=" ++ more := by
    rw [append_assoc]
    refine dropWhile_append_of_head (fun c hc => isSpace_of_isBlank (h c hc)) fun c hc => ?_
    rw [textBytes_unit] at hc
    cases hc
    decide
  have hdigits : (scanNumber (blanks ++ textBytes "bytes=" ++ more)).2.1 = [] := by
    unfold scanNumber
    simp only [hskip]
    simp [textBytes_unit, isDigit]
  rw [strtoll_eq, if_pos hdigits]

theorem dropWhile_unit {blanks more : Bytes} (h : ∀ c ∈ blanks, isBlank c = true) :
    (blanks ++ textBytes "bytes=" ++ more).dropWhile isBlank = textBytes "bytes=" ++ more := by
  rw [append_assoc]
  refine dropWhile_append_of_head h fun c hc => ?_
  rw [textBytes_unit] at hc
  cases hc
  decide

theorem ne_minus_of_notMem {s : Bytes} (h : 45 ∉ s) (hne : s ≠ []) (after more : Bytes) : s ++ more ≠ 45 :: after := by
  cases s with
  | nil => exact absurd rfl hne
  | cons c s =>
    intro heq
    exact h (by simp [(List.cons.inj heq).1])

/-- The unit is skipped before a minus sign and before a number. -/
theorem rangeStart_lead {l : Bytes} {n : Int} (hlead : Lead lead)
    (h : l = 45 :: after ∧ n = 0 ∨ l ≠ 45 :: after ∧ strtoll l = (n, 45 :: after)) : rangeStart (lead ++ l) after = some (l, n) := by
  have hread (other : Option (Bytes × Int)) : (if l = 45 :: after then some (l, 0)
      else if (strtoll l).2 = 45 :: after then some (l, (strtoll l).1) else other) = some (l, n) := by
    rcases h with ⟨rfl, rfl⟩ | ⟨hne, hl⟩
    · rw [if_pos rfl]
    · rw [if_neg hne, hl, if_pos rfl]
  have hlead' := hlead.notMem
  rcases hlead with rfl | ⟨blanks, hblanks, rfl⟩
  · rw [nil_append, rangeStart, hread]
  · have hne : blanks ++ textBytes "bytes=" ++ l ≠ 45 :: after := ne_minus_of_notMem hlead' (by simp [textBytes_unit]) _ _
    have hdrop : (textBytes "bytes=" ++ l).drop 6 = l := by simp [textBytes_unit]
    rw [rangeStart, if_neg hne, strtoll_unit hblanks, if_neg hne, dropWhile_unit hblanks, if_pos (prefix_append _ _), hdrop]
    exact hread none

/-- A round that reads a first number. -/
theorem rangeStep_number (hlead : Lead lead) (htext : ReadFirst text a) :
    rangeStep size (lead ++ (text ++ 45 :: after)) = rangeClamp size
      (if after.head? = none ∨ after.head? = some 44 then rangeEnd a (size - 1) after
      else if (strtoll after).1 < a then .fail none else rangeEnd a (strtoll after).1 (strtoll after).2) := by
  obtain ⟨digits, hnumeral, hvalue⟩ := htext
  have hmem : 45 ∉ lead ++ text := by simp [hlead.notMem, Numeral.notMem hnumeral]
  have hsearch : search [45] (lead ++ (text ++ 45 :: after)) = some (lead ++ text, after) := by
    rw [← append_assoc]
    exact search_singleton hmem
  have hne : text ++ 45 :: after ≠ 45 :: after := ne_minus_of_notMem (Numeral.notMem hnumeral) (Numeral.text_ne_nil hnumeral) _ _
  rw [rangeStep, hsearch]
  simp only
  rw [rangeStart_lead hlead (.inr ⟨hne, hnumeral.strtoll (noDigit_minus after)⟩), hvalue]
  simp only
  rw [rangeSpec, if_neg hne]

/-- A round that reads no first number. -/
theorem rangeStep_minus (hlead : Lead lead) :
    rangeStep size (lead ++ 45 :: after) = rangeClamp size
      (if (strtoll (45 :: after)).1 = 0 then .fail (some 416)
      else rangeEnd (size + (strtoll (45 :: after)).1) (size - 1) (strtoll (45 :: after)).2) := by
  rw [rangeStep, search_singleton hlead.notMem]
  simp only
  rw [rangeStart_lead hlead (.inl ⟨rfl, rfl⟩)]
  simp only
  rw [rangeSpec, if_pos rfl]

theorem rangeEnd_of_ends {start last : Int} (h : Ends rest) : rangeEnd start last rest = .part start last (rest ≠ []) rest.tail := by
  rcases h with rfl | h
  · rfl
  · cases rest with
    | nil => cases h
    | cons c rest =>
      obtain rfl : c = 44 := Option.some.inj h
      rfl

theorem rangeEnd_of_not_ends {start last : Int} (h : ¬ Ends rest) : rangeEnd start last rest = .fail none := by
  unfold rangeEnd
  split
  · exact absurd (.inl rfl) h
  · exact absurd (.inr rfl) h
  · rfl

/-- What a round finds when it reads a range. -/
def clampStep (size : Nat) (spec : RangeSpec) (rest : Bytes) : RangeStep :=
  match spec.clamp size with
  | none => .fail (some 416)
  | some range => .part range.start range.last (rest ≠ []) rest.tail

/-- A number does not begin with a comma. -/
theorem Numeral.not_ends (h : Numeral text negative digits) (more : Bytes) :
    ¬ ((text ++ more).head? = none ∨ (text ++ more).head? = some 44) := by
  have hnot : 44 ∉ text := fun hmem => absurd (Numeral.mem_cases h hmem) (by cases negative <;> decide)
  obtain ⟨c, rest, hc⟩ := exists_cons_of_ne_nil (Numeral.text_ne_nil h)
  rw [hc] at hnot ⊢
  simpa [eq_comm] using fun hcomma : c = 44 => hnot (by simp [hcomma])

/-- A range that is read is taken within the file, or refused. -/
theorem rangeStep_read (hsize : 0 < size) (hlt : size < 2 ^ 63) (h : Read text spec) (hends : Ends rest) :
    rangeStep size (text ++ rest) = clampStep size spec rest := by
  cases h with
  | @onward lead text a hlead hfirst =>
    have hshape : lead ++ (text ++ [45]) ++ rest = lead ++ (text ++ 45 :: rest) := by simp
    have hhead : rest.head? = none ∨ rest.head? = some 44 := hends.imp_left fun h => by rw [h]; rfl
    rw [hshape, rangeStep_number hlead hfirst, if_pos hhead, rangeEnd_of_ends hends, rangeClamp, clampStep, RangeSpec.clamp]
    by_cases ha : a < size
    · rw [dif_pos ha, if_neg (by omega)]
      simp only [RangeStep.part.injEq, and_true]
      omega
    · rw [dif_neg ha, if_pos (by omega)]
  | @span lead text text' a b hlead hfirst hlast hle =>
    have hshape : lead ++ (text ++ 45 :: text') ++ rest = lead ++ (text ++ 45 :: (text' ++ rest)) := by simp
    obtain ⟨negative, digits, hnumeral, hvalue⟩ := hlast
    rw [hshape, rangeStep_number hlead hfirst, if_neg (Numeral.not_ends hnumeral rest), hnumeral.strtoll hends.noDigit, hvalue]
    rw [if_neg (by omega), rangeEnd_of_ends hends, rangeClamp, clampStep, RangeSpec.clamp]
    by_cases ha : a < size
    · rw [dif_pos ⟨hle, ha⟩, if_neg (by omega)]
      simp only [RangeStep.part.injEq, and_true]
      omega
    · rw [dif_neg (by omega), if_pos (by omega)]
  | @suffix lead digits hlead hne hdigits hpos =>
    have hshape : lead ++ 45 :: digits ++ rest = lead ++ 45 :: (digits ++ rest) := by simp
    have hnumeral : Numeral (45 :: digits) true digits := ⟨⟨[], [45], rfl, by simp, rfl⟩, hne, hdigits⟩
    have hread : strtoll (45 :: (digits ++ rest)) = (longValue true digits, rest) := hnumeral.strtoll hends.noDigit
    have hvalue : longValue true digits = -(min (decimalValue digits) (2 ^ 63) : Nat) := rfl
    rw [hshape, rangeStep_minus hlead, hread]
    rw [if_neg (by omega), rangeEnd_of_ends hends, rangeClamp, clampStep, RangeSpec.clamp, dif_pos ⟨by omega, hsize⟩,
      if_neg (by omega)]
    simp only [RangeStep.part.injEq, and_true]
    omega

theorem scanNumber_minus : scanNumber (45 :: rest) = (true, rest.takeWhile isDigit, rest.dropWhile isDigit) := by
  simp [scanNumber, show isSpace 45 = false by decide]

/-- A number of bytes at the end that is 0 or missing is refused. -/
theorem rangeStep_zero (hlead : Lead lead) (hzero : decimalValue (rest.takeWhile isDigit) = 0) :
    rangeStep size (lead ++ 45 :: rest) = .fail (some 416) := by
  have hvalue : (strtoll (45 :: rest)).1 = 0 := by
    rw [strtoll_eq, scanNumber_minus]
    split
    · rfl
    · simp [longValue, hzero]
  rw [rangeStep_minus hlead, if_pos hvalue]
  rfl

/-! ## What is read has the syntax -/

/-- The text before a minus sign that is read: the unit, and a number or nothing. -/
theorem rangeStart_cases {s s' : Bytes} {first : Int} (hsearch : ∃ before, search [45] s = some (before, after))
    (h : rangeStart s after = some (s', first)) :
    ∃ lead, Lead lead ∧ (s = lead ++ 45 :: after ∨ ∃ text a, ReadFirst text a ∧ s = lead ++ (text ++ 45 :: after)) := by
  have hnumber {l : Bytes} (hmem : ∃ before, l = before ++ 45 :: after ∧ 45 ∉ before) (hne : l ≠ 45 :: after)
      (hread : (strtoll l).2 = 45 :: after) : ∃ text a, ReadFirst text a ∧ l = text ++ 45 :: after := by
    obtain ⟨before, hbefore, hmem⟩ := hmem
    rcases strtoll_cases l with hnone | ⟨text, negative, digits, rest, hl, hnumeral, -, hvalue⟩
    · rw [hnone] at hread
      exact absurd hread hne
    · rw [hvalue] at hread
      obtain rfl : rest = 45 :: after := hread
      obtain rfl : text = before := append_cancel_right (hl.symm.trans hbefore)
      cases negative with
      | true =>
        obtain ⟨spaces, sign, rfl, -, hsign⟩ := hnumeral.parts
        obtain rfl : sign = [45] := hsign
        exact absurd (by simp) hmem
      | false => exact ⟨text, _, ⟨digits, hnumeral, rfl⟩, hl⟩
  obtain ⟨before, hsearch⟩ := hsearch
  have hs : s = before ++ 45 :: after := by simpa using search_eq_append hsearch
  have hmem := notMem_of_search_singleton hsearch
  unfold rangeStart at h
  split at h
  · rename_i heq
    exact ⟨[], .inl rfl, .inl heq⟩
  · rename_i hne
    split at h
    · rename_i hread
      exact ⟨[], .inl rfl, .inr (hnumber ⟨before, hs, hmem⟩ hne hread)⟩
    · split at h
      · rename_i hunit
        obtain ⟨more, hmore⟩ := hunit
        have hblanks : ∀ c ∈ s.takeWhile isBlank, isBlank c = true := fun c hc => mem_takeWhile_imp hc
        have hsplit : s = s.takeWhile isBlank ++ textBytes "bytes=" ++ more := by
          rw [append_assoc, hmore, takeWhile_append_dropWhile]
        have hlead : Lead (s.takeWhile isBlank ++ textBytes "bytes=") := .inr ⟨_, hblanks, rfl⟩
        have hdrop : (s.dropWhile isBlank).drop 6 = more := by rw [← hmore]; simp [textBytes_unit]
        simp only [hdrop] at h
        refine ⟨_, hlead, ?_⟩
        split at h
        · rename_i heq
          exact .inl (by rw [← heq]; exact hsplit)
        · rename_i hne'
          split at h
          · rename_i hread
            -- the first minus sign is after the unit
            have hmore' : ∃ before', more = before' ++ 45 :: after ∧ 45 ∉ before' := by
              have happend := hsplit.symm.trans hs
              rcases append_eq_append_iff.1 happend with ⟨before', rfl, hbefore'⟩ | ⟨lead', hlead', hafter⟩
              · exact ⟨before', hbefore', fun h => hmem (mem_append_right _ h)⟩
              · cases lead' with
                | nil => exact ⟨[], by simpa using hafter.symm, not_mem_nil⟩
                | cons c lead' =>
                  obtain rfl : 45 = c := (List.cons.inj hafter).1
                  exact absurd (by rw [hlead']; simp) hlead.notMem
            obtain ⟨text, a, hfirst, htext⟩ := hnumber hmore' hne' hread
            exact .inr ⟨text, a, hfirst, by rw [← htext]; exact hsplit⟩
          · cases h
      · cases h

/-- What a round finds: no minus sign, something that is no range, a range, or a number of bytes at the end that is refused. -/
theorem rangeStep_cases (size : Nat) (s : Bytes) :
    rangeStep size s = .stop ∨ rangeStep size s = .fail none ∨ (∃ text spec rest, Read text spec ∧ Ends rest ∧ s = text ++ rest) ∨
    ∃ lead rest, Lead lead ∧ decimalValue (rest.takeWhile isDigit) = 0 ∧ s = lead ++ 45 :: rest := by
  have hround := rangeStep.eq_def size s
  split at hround
  · exact .inl hround
  · rename_i before after hsearch
    split at hround
    · exact .inr (.inl hround)
    · rename_i hstart
      obtain ⟨lead, hlead, rfl | ⟨text, a, hfirst, rfl⟩⟩ := rangeStart_cases ⟨before, hsearch⟩ hstart
      · rw [rangeStep_minus hlead] at hround ⊢
        by_cases hzero : decimalValue (after.takeWhile isDigit) = 0
        · exact .inr (.inr (.inr ⟨lead, after, hlead, hzero, rfl⟩))
        · have hdigits : after.takeWhile isDigit ≠ [] := fun hnil => hzero (by rw [hnil]; rfl)
          have hall : ∀ c ∈ after.takeWhile isDigit, isDigit c = true := fun c hc => mem_takeWhile_imp hc
          have hread : strtoll (45 :: after) = (longValue true (after.takeWhile isDigit), after.dropWhile isDigit) := by
            rw [strtoll_eq, scanNumber_minus, if_neg hdigits]
          have hvalue : longValue true (after.takeWhile isDigit) = -(min (decimalValue (after.takeWhile isDigit)) (2 ^ 63) : Nat) := rfl
          rw [hread, if_neg (by simp only; omega)]
          by_cases hends : Ends (after.dropWhile isDigit)
          · refine .inr (.inr (.inl ⟨_, _, _, .suffix hlead hdigits hall hzero, hends, ?_⟩))
            rw [append_assoc, cons_append, takeWhile_append_dropWhile]
          · refine .inr (.inl ?_)
            rw [rangeEnd_of_not_ends hends]
            rfl
      · rw [rangeStep_number hlead hfirst]
        by_cases hhead : after.head? = none ∨ after.head? = some 44
        · have hends : Ends after := hhead.imp_left fun h => List.head?_eq_none_iff.1 h
          exact .inr (.inr (.inl ⟨_, _, after, .onward hlead hfirst, hends, by simp⟩))
        · rw [if_neg hhead]
          by_cases hlt : (strtoll after).1 < a
          · rw [if_pos hlt]
            exact .inr (.inl rfl)
          · rw [if_neg hlt]
            by_cases hends : Ends (strtoll after).2
            · refine .inr (.inr (.inl ?_))
              rcases strtoll_cases after with hnone | ⟨text', negative, digits, rest, rfl, hnumeral, -, hvalue⟩
              · rw [hnone] at hends
                exact absurd (hends.imp_left List.head?_eq_none_iff.2) hhead
              · rw [hvalue] at hends hlt
                have hnat : longValue negative digits = ((longValue negative digits).toNat : Nat) := by omega
                exact ⟨_, _, rest, .span hlead hfirst ⟨negative, digits, hnumeral, hnat⟩ (by omega), hends, by simp⟩
            · rw [rangeEnd_of_not_ends hends]
              exact .inr (.inl rfl)

end

end Osp.Lighttpd
