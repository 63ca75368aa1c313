import Osp.Lib.Quoting
import Osp.Lighttpd.Extforward

/-!
# Lists of forwarded addresses

The lists that proxies append to `X-Forwarded-For` and `Forwarded`, with the addresses and the identifiers that they name, and what the
scanner finds in a text whose quotes are balanced.
-/

namespace Osp.Lighttpd

open Osp.Lib List

/-! ## Lists of elements -/

/-- Not a byte at which the name of a parameter ends. -/
def NameByte (c : UInt8) : Prop := c ≠ 61 ∧ c ≠ 59 ∧ c ≠ 44

/-- Not a byte at which the value of a parameter ends. -/
def ValueByte (c : UInt8) : Prop := c ≠ 59 ∧ c ≠ 44

instance : DecidablePred NameByte := fun _ => inferInstanceAs (Decidable (_ ∧ _))

instance : DecidablePred ValueByte := fun _ => inferInstanceAs (Decidable (_ ∧ _))

/-- Blanks only. -/
def Blanks (l : Bytes) : Prop := ∀ c ∈ l, isBlank c = true

/-- The text of an address. -/
def AddrText (addr : Bytes) : Prop := (∃ c rest, addr = c :: rest ∧ isLeading c = true) ∧ ∀ c ∈ addr, isAddrByte c = true

/-- A list of addresses, with blanks around each of them. -/
inductive AddrList : Bytes → List Bytes → Prop
  | last {before addr after : Bytes} : Blanks before → AddrText addr → Blanks after → AddrList (before ++ addr ++ after) [addr]
  | cons {before addr after l : Bytes} {addrs : List Bytes} : Blanks before → AddrText addr → Blanks after → AddrList l addrs →
    AddrList (before ++ addr ++ after ++ 44 :: l) (addr :: addrs)

/-- The value of a `for` and the identifier in it: a token, an address in quotes with or without port, an address in brackets, or an
identifier in quotes that is not an address. -/
inductive ForValue : Bytes → Bytes → Prop
  | token {ident : Bytes} : ident ≠ [] → (∀ c ∈ ident, c ≠ 34 ∧ c ≠ 59 ∧ c ≠ 44 ∧ isBlank c = false) → ForValue ident ident
  | quoted {addr port : Bytes} : AddrText addr → 58 ∉ addr → (port = [] ∨ ∃ digits, port = 58 :: digits ∧ ∀ c ∈ digits, isDigit c = true) →
    ForValue (34 :: (addr ++ port) ++ [34]) addr
  | bracketed {addr port : Bytes} : AddrText addr → (port = [] ∨ ∃ digits, port = 58 :: digits ∧ ∀ c ∈ digits, isDigit c = true) →
    ForValue (34 :: (91 :: addr ++ 93 :: port) ++ [34]) addr
  | other {c : UInt8} {rest : Bytes} : (c = 95 ∨ c = 47 ∨ c = 117) → (∀ d ∈ rest, d ≠ 34 ∧ d ≠ 92) →
    ForValue (34 :: (c :: rest) ++ [34]) (c :: rest)

/-- The name of a parameter. -/
def ParamName (key : Bytes) : Prop := key ≠ [] ∧ ∀ c ∈ key, c ≠ 34 ∧ c ≠ 61 ∧ c ≠ 59 ∧ c ≠ 44 ∧ isBlank c = false

/-- A parameter, and the identifier that it gives if it is a `for`. -/
inductive ForwardedPair : Bytes → Bytes → Option Bytes → Prop
  | node {key value ident : Bytes} : ParamName key → sameName key (textBytes "for") = true → ForValue value ident → ForwardedPair key value (some ident)
  | other {key value : Bytes} : ParamName key → sameName key (textBytes "for") = false → Quoted ValueByte value → ForwardedPair key value none

/-- An element: parameters with semicolons between them, and at most one identifier. -/
inductive ForwardedElement : Bytes → Option Bytes → Prop
  | empty {blanks : Bytes} : Blanks blanks → ForwardedElement blanks none
  | last {before key value after : Bytes} {ident : Option Bytes} : Blanks before → ForwardedPair key value ident → Blanks after →
    ForwardedElement (before ++ (key ++ 61 :: (value ++ after))) ident
  | skip {blanks l : Bytes} {ident : Option Bytes} : Blanks blanks → ForwardedElement l ident → ForwardedElement (blanks ++ 59 :: l) ident
  | cons {before key value after l : Bytes} {ident ident' : Option Bytes} : Blanks before → ForwardedPair key value ident → Blanks after →
    ForwardedElement l ident' → (ident = none ∨ ident' = none) → ForwardedElement (before ++ (key ++ 61 :: (value ++ after ++ 59 :: l))) (ident.or ident')

/-- A list of elements, with the identifiers of those that have one. -/
inductive ForwardedElements : Bytes → List Bytes → Prop
  | last {l : Bytes} {ident : Option Bytes} : ForwardedElement l ident → ForwardedElements l ident.toList
  | cons {l l' : Bytes} {ident : Option Bytes} {idents : List Bytes} : ForwardedElement l ident → ForwardedElements l' idents →
    ForwardedElements (l ++ 44 :: l') (ident.toList ++ idents)

/-! ## Looking for the end of a word -/

section

variable {p : UInt8 → Prop} {stop : UInt8 → Bool} {c : UInt8} {text l rest : Bytes}

theorem findEndQuotedString_cons (hquote : c ≠ 34) (hslash : c ≠ 92) (hne : l ≠ []) :
    findEndQuotedString (c :: l) = (findEndQuotedString l).map (· + 1) := by
  cases l with
  | nil => exact absurd rfl hne
  | cons d l => rw [findEndQuotedString, if_neg hquote, if_neg hslash]

theorem findEndQuotedString_append (h : QuotedText text) : findEndQuotedString (text ++ 34 :: rest) = some text.length := by
  induction h with
  | nil => cases rest <;> simp [findEndQuotedString]
  | char hquote hslash _ ih =>
    rw [cons_append, findEndQuotedString_cons hquote hslash (by simp), ih]
    rfl
  | escape _ ih =>
    rw [cons_append, cons_append, findEndQuotedString, if_neg (by decide), if_pos rfl, ih]
    rfl

theorem findNext_skip : findNext stop text.length (text ++ rest) = (findNext stop 0 rest).map (· + text.length) := by
  induction text with
  | nil => simp
  | cons c text ih =>
    rw [length_cons, cons_append, findNext, ih, Option.map_map]
    rfl

/-- The loop passes over the bytes at which it does not stop, and over quoted strings. -/
theorem findNext_append (h : Quoted p l) (hp : ∀ c, p c → stop c = false) (hquote : stop 34 = false)
    (hrest : rest = [] ∨ ∃ c more, rest = c :: more ∧ stop c = true) : findNext stop 0 (l ++ rest) = some l.length := by
  induction h with
  | nil =>
    obtain rfl | ⟨c, more, rfl, hc⟩ := hrest
    · rfl
    · simp [findNext, hc]
  | char hc hpc _ ih => simp [findNext, hp _ hpc, hc, ih]
  | @quotes text l htext _ ih =>
    have hskip : findNext stop (text.length + 1) (text ++ 34 :: (l ++ rest)) = some (l.length + (text.length + 1)) := by
      have hskip : findNext stop (text ++ [34]).length ((text ++ [34]) ++ (l ++ rest)) = _ := findNext_skip
      rw [ih, append_assoc, length_append] at hskip
      exact hskip
    simp only [cons_append, append_assoc, findNext, hquote, Bool.false_eq_true, if_false, if_true,
      findEndQuotedString_append htext, hskip, Option.map_some, length_cons, length_append, Option.some.injEq]
    omega

end

/-! ## What the scanner finds -/

/-- A text that a value may be followed by. -/
def Stops (l : Bytes) : Prop := l = [] ∨ ∃ c rest, l = c :: rest ∧ (c = 59 ∨ c = 44)

/-- The entries for a text with balanced quotes that starts at the position. -/
inductive Scans : Nat → Bytes → List Offset → Prop
  | nil {i : Nat} : Scans i [] []
  | blank {i : Nat} {c : UInt8} {l : Bytes} {found : List Offset} : isBlank c = true → Scans (i + 1) l found → Scans i (c :: l) found
  | semicolon {i : Nat} {l : Bytes} {found : List Offset} : Scans (i + 1) l found → Scans i (59 :: l) found
  | comma {i : Nat} {l : Bytes} {found : List Offset} : Scans (i + 1) l found → Scans i (44 :: l) (.separator :: found)
  | word {i : Nat} {text l : Bytes} {found : List Offset} : Quoted NameByte text → (∃ c rest, text = c :: rest ∧ isBlank c = false) →
    Stops l → Scans (i + text.length) l found → Scans i (text ++ l) found
  | nameless {i : Nat} {value l : Bytes} {found : List Offset} : Quoted ValueByte value → Stops l →
    Scans (i + 1 + value.length) l found → Scans i (61 :: (value ++ l)) found
  | param {i : Nat} {key value l : Bytes} {found : List Offset} : Quoted NameByte key → (∃ c rest, key = c :: rest ∧ isBlank c = false) →
    Quoted ValueByte value → Stops l → Scans (i + key.length + 1 + value.length) l found →
    Scans i (key ++ 61 :: (value ++ l)) (.param i key.length (i + key.length + 1) value.length :: found)

theorem Stops.append_comma {l : Bytes} (h : Stops l) (rest : Bytes) : Stops (l ++ 44 :: rest) := by
  obtain rfl | ⟨c, more, rfl, hc⟩ := h
  · exact .inr ⟨44, rest, rfl, .inr rfl⟩
  · exact .inr ⟨c, more ++ 44 :: rest, rfl, hc⟩

theorem Stops.findNext {l : Bytes} {stop : UInt8 → Bool} (h : Stops l) (hsemicolon : stop 59 = true) (hcomma : stop 44 = true) :
    l = [] ∨ ∃ c more, l = c :: more ∧ stop c = true := by
  obtain rfl | ⟨c, more, rfl, rfl | rfl⟩ := h
  · exact .inl rfl
  · exact .inr ⟨_, _, rfl, hsemicolon⟩
  · exact .inr ⟨_, _, rfl, hcomma⟩

/-- A value ends at the end of the text, a semicolon or a comma. -/
theorem exists_value {l : Bytes} (h : Balanced l) :
    ∃ value rest, l = value ++ rest ∧ Quoted ValueByte value ∧ Balanced rest ∧ Stops rest := by
  obtain ⟨value, rest, rfl, hvalue, hrest, hend⟩ := h.split (q := ValueByte)
  refine ⟨value, rest, rfl, hvalue, hrest, ?_⟩
  obtain rfl | ⟨c, more, rfl, -, hc⟩ := hend
  · exact .inl rfl
  · exact .inr ⟨c, more, rfl, by simpa [ValueByte, or_iff_not_imp_left] using hc⟩

theorem Scans.exists_of_length_le (n : Nat) {l : Bytes} (h : Balanced l) (hn : l.length ≤ n) (i : Nat) : ∃ found, Scans i l found := by
  induction n generalizing l i with
  | zero =>
    obtain rfl := length_eq_zero_iff.1 (Nat.le_zero.1 hn)
    exact ⟨[], .nil⟩
  | succ n ih =>
    cases l with
    | nil => exact ⟨[], .nil⟩
    | cons c rest =>
    have hrest : rest.length ≤ n := by simpa using hn
    by_cases hblank : isBlank c = true
    · obtain ⟨found, hfound⟩ := ih (h.tail (by rintro rfl; exact absurd hblank (by decide))) hrest (i + 1)
      exact ⟨found, .blank hblank hfound⟩
    by_cases hsemicolon : c = 59
    · subst hsemicolon
      obtain ⟨found, hfound⟩ := ih (h.tail (by decide)) hrest (i + 1)
      exact ⟨found, .semicolon hfound⟩
    by_cases hcomma : c = 44
    · subst hcomma
      obtain ⟨found, hfound⟩ := ih (h.tail (by decide)) hrest (i + 1)
      exact ⟨_, .comma hfound⟩
    by_cases heq : c = 61
    · subst heq
      obtain ⟨value, back, rfl, hvalue, hback, hstops⟩ := exists_value (h.tail (by decide))
      obtain ⟨found, hfound⟩ := ih hback (by simp only [length_append] at hrest; omega) (i + 1 + value.length)
      exact ⟨found, .nameless hvalue hstops hfound⟩
    -- the text starts with a word, which may be the name of a parameter
    obtain ⟨text, back, htext, hname, hback, hend⟩ := h.split (q := NameByte)
    have hstart : ∃ d more, text = d :: more ∧ isBlank d = false := by
      cases text with
      | nil =>
        obtain rfl | ⟨d, more, rfl, -, hd⟩ := hend
        · cases htext
        · obtain ⟨rfl, -⟩ := List.cons.inj htext
          exact absurd ⟨heq, hsemicolon, hcomma⟩ hd
      | cons d more =>
        obtain ⟨rfl, -⟩ := List.cons.inj htext
        exact ⟨_, more, rfl, by simpa using hblank⟩
    have hlength : back.length ≤ n := by
      have hsum := congrArg List.length htext
      obtain ⟨d, more, rfl, -⟩ := hstart
      simp only [length_append, length_cons] at hsum
      omega
    rw [htext]
    obtain rfl | ⟨d, more, rfl, hd, hnot⟩ := hend
    · exact ⟨[], .word hname hstart (.inl rfl) .nil⟩
    by_cases heq : d = 61
    · subst heq
      obtain ⟨value, back, rfl, hvalue, hback', hstops⟩ := exists_value (hback.tail (by decide))
      obtain ⟨found, hfound⟩ := ih hback' (by simp only [length_cons, length_append] at hlength; omega)
        (i + text.length + 1 + value.length)
      exact ⟨_, .param hname hstart hvalue hstops hfound⟩
    · obtain ⟨found, hfound⟩ := ih hback hlength (i + text.length)
      refine ⟨found, .word hname hstart (.inr ⟨d, more, rfl, ?_⟩) hfound⟩
      by_contra hne
      exact hnot ⟨heq, fun h => hne (.inl h), fun h => hne (.inr h)⟩

/-- Something is found in every text with balanced quotes. -/
theorem Scans.exists {l : Bytes} (h : Balanced l) (i : Nat) : ∃ found, Scans i l found := exists_of_length_le l.length h le_rfl i

/-- What is found after a comma does not depend on what is before it. -/
theorem Scans.append_comma {i j : Nat} {l l' : Bytes} {found found' : List Offset} (h : Scans i l found) (h' : Scans j l' found')
    (hj : j = i + l.length + 1) : Scans i (l ++ 44 :: l') (found ++ .separator :: found') := by
  induction h with
  | nil =>
    subst hj
    exact .comma h'
  | blank hc _ ih => exact .blank hc (ih (by rw [hj, length_cons]; omega))
  | semicolon _ ih => exact .semicolon (ih (by rw [hj, length_cons]; omega))
  | comma _ ih => exact .comma (ih (by rw [hj, length_cons]; omega))
  | word htext hstart hstops _ ih =>
    rw [append_assoc]
    exact .word htext hstart (hstops.append_comma l') (ih (by rw [hj, length_append]; omega))
  | nameless hvalue hstops _ ih =>
    rw [cons_append, append_assoc]
    exact .nameless hvalue (hstops.append_comma l') (ih (by simp only [hj, length_cons, length_append]; omega))
  | param hkey hstart hvalue hstops _ ih =>
    rw [append_assoc, cons_append, append_assoc]
    exact .param hkey hstart hvalue (hstops.append_comma l') (ih (by simp only [hj, length_cons, length_append]; omega))

end Osp.Lighttpd
