import Mathlib.Data.List.TakeWhile
import Osp.Lib.Bytes

/-!
# The C library

The functions of the C library on byte strings, in the `C` locale and for a `long` of 64 bits. A byte string that C code reads up to
its NUL is `cString` of it.
-/

namespace Osp.Lib

open List

/-- The bytes of a text. -/
def textBytes (text : String) : Bytes := text.toList.map fun c => UInt8.ofNat c.toNat

/-- What C code sees of a byte string. -/
def cString (l : Bytes) : Bytes := l.takeWhile (· ≠ 0)

/-- `isspace`. -/
def isSpace (c : UInt8) : Bool := c = 32 || (9 ≤ c && c ≤ 13)

/-- `isdigit`. -/
def isDigit (c : UInt8) : Bool := 48 ≤ c && c ≤ 57

/-- `tolower`. -/
def toLower (c : UInt8) : UInt8 := if 65 ≤ c && c ≤ 90 then c + 32 else c

/-- The number that decimal digits stand for. -/
def decimalValue (digits : Bytes) : Nat := digits.foldl (fun n c => 10 * n + (c.toNat - 48)) 0

/-- A number as `strtol` and its relatives read it: whether it has a minus sign, its digits, and what follows them. -/
def scanNumber (l : Bytes) : Bool × Bytes × Bytes :=
  let l := l.dropWhile isSpace
  let negative := l.head? = some 45
  let l := if l.head? = some 43 ∨ negative then l.tail else l
  (negative, l.takeWhile isDigit, l.dropWhile isDigit)

/-- `strtoul` in base 10, without the end pointer. -/
def strtoul (l : Bytes) : Nat :=
  let (negative, digits, _) := scanNumber l
  let value := decimalValue digits
  if 2 ^ 64 ≤ value then 2 ^ 64 - 1 else if negative then (2 ^ 64 - value) % 2 ^ 64 else value

/-- `strtol` and `strtoll` in base 10: the number, and what the end pointer points to. -/
def strtoll (l : Bytes) : Int × Bytes :=
  let (negative, digits, rest) := scanNumber l
  if digits = [] then (0, l)
  else
    let value := decimalValue digits
    (if negative then -(min value (2 ^ 63) : Nat) else (min value (2 ^ 63 - 1) : Nat), rest)

theorem cString_append_of_mem {l : Bytes} (h : 0 ∈ l) (more : Bytes) : cString (l ++ more) = cString l := by
  rw [cString, takeWhile_append, if_neg]
  · rfl
  · intro heq
    have hall := takeWhile_eq_self_iff.1 ( takeWhile_prefix _ |>.eq_of_length heq)
    exact absurd (hall 0 h) (by decide)

theorem cString_append_of_notMem {l : Bytes} (h : 0 ∉ l) (more : Bytes) : cString (l ++ more) = l ++ cString more := by
  have hself : l.takeWhile (· ≠ 0) = l := takeWhile_eq_self_iff.2 fun c hc => by simpa using ne_of_mem_of_not_mem hc h
  rw [cString, takeWhile_append, hself, if_pos rfl]
  rfl

theorem prefix_cString (l : Bytes) : cString l <+: l := takeWhile_prefix _

/-- A number that is written in digits only is read to its end. -/
theorem strtoll_of_digits {l : Bytes} (hne : l ≠ []) (h : ∀ c ∈ l, isDigit c = true) :
    strtoll l = (((min (decimalValue l) (2 ^ 63 - 1) : Nat) : Int), []) := by
  obtain ⟨c, rest, rfl⟩ := exists_cons_of_ne_nil hne
  have hc : isDigit c = true := h c mem_cons_self
  have hspace : isSpace c = false := by
    simp only [isDigit, isSpace, Bool.and_eq_true, decide_eq_true_eq, UInt8.le_iff_toNat_le] at hc ⊢
    simp only [Bool.or_eq_false_iff, decide_eq_false_iff_not, Bool.and_eq_false_iff, ← UInt8.toNat_inj]
    simp at hc ⊢
    omega
  have h43 : c ≠ 43 := by
    rintro rfl
    exact absurd hc (by decide)
  have h45 : c ≠ 45 := by
    rintro rfl
    exact absurd hc (by decide)
  have hscan : scanNumber (c :: rest) = (false, c :: rest, []) := by
    have htake : (c :: rest).takeWhile isDigit = c :: rest := takeWhile_eq_self_iff.2 h
    have hdrop : (c :: rest).dropWhile isDigit = [] := dropWhile_eq_nil_iff.2 h
    simp [scanNumber, dropWhile_cons_of_neg, hspace, h43, h45, htake, hdrop]
  simp [strtoll, hscan]

/-! ## The text of a number

`strtoll` reads white space, a sign or none, and digits, if no further digit follows, and nothing else. -/

section

/-- The sign of a number. -/
def signBytes (negative : Bool) (sign : Bytes) : Prop := if negative then sign = [45] else sign = [] ∨ sign = [43]

/-- The text of a number with the given digits. -/
structure Numeral (text : Bytes) (negative : Bool) (digits : Bytes) : Prop where
  parts : ∃ spaces sign, text = spaces ++ (sign ++ digits) ∧ (∀ c ∈ spaces, isSpace c = true) ∧ signBytes negative sign
  ne_nil : digits ≠ []
  isDigit : ∀ c ∈ digits, isDigit c = true

/-- No digit follows. -/
def NoDigit (rest : Bytes) : Prop := ∀ c, rest.head? = some c → isDigit c = false

/-- The number with the given digits, in the range of a `long`. -/
def longValue (negative : Bool) (digits : Bytes) : Int :=
  if negative then -(min (decimalValue digits) (2 ^ 63) : Nat) else (min (decimalValue digits) (2 ^ 63 - 1) : Nat)

section

variable {α : Type} {p : α → Bool} {l rest : List α}

theorem takeWhile_append_of_head (h : ∀ a ∈ l, p a = true) (hrest : ∀ a, rest.head? = some a → p a = false) :
    (l ++ rest).takeWhile p = l := by
  rw [takeWhile_append_of_pos h]
  cases rest with
  | nil => simp
  | cons a rest => simp [hrest a rfl]

theorem dropWhile_append_of_head (h : ∀ a ∈ l, p a = true) (hrest : ∀ a, rest.head? = some a → p a = false) :
    (l ++ rest).dropWhile p = rest := by
  rw [dropWhile_append_of_pos h]
  cases rest with
  | nil => rfl
  | cons a rest => simp [hrest a rfl]

theorem head?_dropWhile {a : α} (h : (l.dropWhile p).head? = some a) : p a = false := by
  have hnot := head?_dropWhile_not p l
  rwa [h] at hnot

end

theorem isSpace_of_isDigit {c : UInt8} (h : isDigit c = true) : isSpace c = false ∧ c ≠ 43 ∧ c ≠ 45 := by
  unfold isDigit at h
  unfold isSpace
  grind

variable {l text digits rest : Bytes} {negative : Bool}

theorem strtoll_eq (l : Bytes) : strtoll l =
    if (scanNumber l).2.1 = [] then (0, l) else (longValue (scanNumber l).1 (scanNumber l).2.1, (scanNumber l).2.2) := rfl

/-- The text of a number is read up to its end. -/
theorem Numeral.scanNumber (h : Numeral text negative digits) (hrest : NoDigit rest) :
    scanNumber (text ++ rest) = (negative, digits, rest) := by
  obtain ⟨spaces, sign, rfl, hspaces, hsign⟩ := h.parts
  have htake : (digits ++ rest).takeWhile Osp.Lib.isDigit = digits := takeWhile_append_of_head h.isDigit hrest
  have hdrop : (digits ++ rest).dropWhile Osp.Lib.isDigit = rest := dropWhile_append_of_head h.isDigit hrest
  obtain ⟨d, digits', hd⟩ := exists_cons_of_ne_nil h.ne_nil
  obtain ⟨hspace, h43, h45⟩ := isSpace_of_isDigit (h.isDigit d (by simp [hd]))
  have hskip : (spaces ++ (sign ++ digits) ++ rest).dropWhile isSpace = sign ++ digits ++ rest := by
    rw [append_assoc]
    refine dropWhile_append_of_head hspaces fun c hc => ?_
    unfold signBytes at hsign
    split at hsign
    · rw [hsign] at hc
      cases hc
      decide
    · rcases hsign with rfl | rfl
      · obtain rfl : d = c := by simpa [hd] using hc
        exact hspace
      · cases hc
        decide
  unfold Osp.Lib.scanNumber
  simp only [hskip]
  cases negative with
  | true =>
    obtain rfl : sign = [45] := hsign
    simp [htake, hdrop]
  | false =>
    rcases hsign with rfl | rfl
    · have hhead : (digits ++ rest).head? = some d := by simp [hd]
      simp [hhead, h43, h45, htake, hdrop]
    · simp [htake, hdrop]

/-- What is read as a number is the text of one. -/
theorem numeral_of_scanNumber (h : scanNumber l = (negative, digits, rest)) (hne : digits ≠ []) :
    ∃ text, l = text ++ rest ∧ Numeral text negative digits ∧ NoDigit rest := by
  unfold Osp.Lib.scanNumber at h
  simp only [Prod.mk.injEq] at h
  obtain ⟨hneg, hdigits, hrest⟩ := h
  have hspaces : ∀ c ∈ l.takeWhile isSpace, isSpace c = true := fun c hc => mem_takeWhile_imp hc
  have happend := takeWhile_append_dropWhile (p := isSpace) (l := l)
  generalize l.takeWhile isSpace = spaces at hspaces happend
  generalize l.dropWhile isSpace = l' at happend hneg hdigits hrest
  have hparts : ∃ sign, signBytes negative sign ∧ l' = sign ++ (digits ++ rest) := by
    rw [← hdigits, ← hrest, takeWhile_append_dropWhile]
    cases l' with
    | nil => exact absurd hdigits.symm (by simpa using hne)
    | cons c l' =>
      by_cases h45 : c = 45
      · obtain rfl : negative = true := by rw [← hneg]; simp [h45]
        exact ⟨[45], rfl, by simp [h45]⟩
      · obtain rfl : negative = false := by rw [← hneg]; simp [h45]
        by_cases h43 : c = 43
        · exact ⟨[43], .inr rfl, by simp [h43]⟩
        · exact ⟨[], .inl rfl, by simp [h43, h45]⟩
  obtain ⟨sign, hsign, rfl⟩ := hparts
  refine ⟨spaces ++ (sign ++ digits), by rw [← happend]; simp, ⟨⟨spaces, sign, rfl, hspaces, hsign⟩, hne, fun c hc => ?_⟩, fun c hc => ?_⟩
  · rw [← hdigits] at hc
    exact mem_takeWhile_imp hc
  · rw [← hrest] at hc
    exact head?_dropWhile hc

/-- A number is read with its value, up to its end. -/
theorem Numeral.strtoll (h : Numeral text negative digits) (hrest : NoDigit rest) :
    strtoll (text ++ rest) = (longValue negative digits, rest) := by
  rw [strtoll_eq, h.scanNumber hrest, if_neg h.ne_nil]

/-- What `strtoll` reads is nothing or a number. -/
theorem strtoll_cases (l : Bytes) : strtoll l = (0, l) ∨
    ∃ text negative digits rest, l = text ++ rest ∧ Numeral text negative digits ∧ NoDigit rest ∧
      strtoll l = (longValue negative digits, rest) := by
  rw [strtoll_eq]
  split
  · exact .inl rfl
  · rename_i hne
    obtain ⟨text, htext, hnumeral, hnodigit⟩ := numeral_of_scanNumber (l := l) rfl hne
    exact .inr ⟨text, _, _, _, htext, hnumeral, hnodigit, rfl⟩

/-! ## Numbers as they are printed -/

/-- The decimal digits of a number, as a stream prints it. -/
def decimalBytes (n : Nat) : Bytes := (if n = 0 then [0] else Nat.digits 10 n).reverse.map fun d => UInt8.ofNat (48 + d)

theorem decimalValue_digits {ds : List Nat} (h : ∀ d ∈ ds, d < 10) :
    decimalValue (ds.reverse.map fun d => UInt8.ofNat (48 + d)) = Nat.ofDigits 10 ds := by
  induction ds with
  | nil => rfl
  | cons d ds ih =>
    obtain ⟨hd, hds⟩ := forall_mem_cons.1 h
    have hdigit : (UInt8.ofNat (48 + d)).toNat - 48 = d := by
      rw [UInt8.toNat_ofNat', Nat.mod_eq_of_lt (by omega), Nat.add_sub_cancel_left]
    rw [Nat.ofDigits_cons, ← ih hds, decimalValue, reverse_cons, map_append, foldl_append,
      map_singleton, foldl_cons, foldl_nil, hdigit, Nat.add_comm]
    rfl

theorem decimalBytes_spec (n : Nat) :
    decimalValue (decimalBytes n) = n ∧ decimalBytes n ≠ [] ∧ ∀ c ∈ decimalBytes n, isDigit c = true := by
  have hlt : ∀ d ∈ if n = 0 then [0] else Nat.digits 10 n, d < 10 := by
    split
    · simp
    · exact fun d hd => Nat.digits_lt_base (by omega) hd
  refine ⟨(decimalValue_digits hlt).trans ?_, ?_, fun c hc => ?_⟩
  · split
    · simp [*]
    · exact Nat.ofDigits_digits 10 n
  · simp only [decimalBytes, ne_eq, map_eq_nil_iff, reverse_eq_nil_iff]
    split
    · simp
    · rwa [Nat.digits_eq_nil_iff_eq_zero]
  · obtain ⟨d, hd, rfl⟩ := mem_map.1 hc
    have := hlt d (mem_reverse.1 hd)
    interval_cases d <;> rfl

end

end Osp.Lib
