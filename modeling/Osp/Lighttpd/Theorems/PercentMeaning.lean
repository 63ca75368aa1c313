import Osp.Lighttpd.Lemmas.Burl

/-!
# Percent-normalisation keeps what a URL means

Each step of the pass writes a byte of the URL as it is or as an escape in upper case. Whether an escape is decoded depends on whether the
query has begun, which is the same when the result is normalised again.
-/

namespace Osp.Lighttpd

open Osp.Lib List

/-- Percent-decoding; `skip` counts the digits that have been read with their percent sign. A percent sign without two digits stands for
itself. -/
def percentDecodeLoop (skip : Nat) : Bytes → Bytes
  | [] => []
  | c :: s =>
    if skip ≠ 0 then percentDecodeLoop (skip - 1) s
    else
      match escape (c :: s) with
      | some x => x :: percentDecodeLoop 2 s
      | none => c :: percentDecodeLoop 0 s

def percentDecode : Bytes → Bytes := percentDecodeLoop 0

/-- A digit that is not in lower case. -/
def upperDigit (c : UInt8) : Bool := (48 ≤ c && c ≤ 57) || (65 ≤ c && c ≤ 70)

/-- What follows a percent sign: two digits that are not in lower case. -/
def UpperEscape (rest : Bytes) : Prop := ∃ high low more, rest = high :: low :: more ∧ upperDigit high = true ∧ upperDigit low = true

/-- Only the flag for what has to be encoded, or only the one for unreserved characters. -/
def UrlFlags.percent (required : Bool) : UrlFlags := ⟨required, false, false, false, false, false, false⟩

/-- Whether an escape is decoded, before the query or in it. -/
def decodesIn (required query : Bool) (x : UInt8) : Bool :=
  if required then decodesRequired (if query then 0 else -1) x else isUnreserved x

/-- What is written for what is read, from before the query or in it, where nothing is rejected. -/
inductive Normalizes (required : Bool) : Bool → Bytes → Bytes → Prop
  | nil {q : Bool} : Normalizes required q [] []
  | fragment {q : Bool} {s : Bytes} : Normalizes required q (35 :: s) []
  | char {q : Bool} {c : UInt8} {s t : Bytes} : encodedReqd c = false → Normalizes required (q || c = 63) s t →
    Normalizes required q (c :: s) (c :: t)
  | decoded {q : Bool} {high low x : UInt8} {s t : Bytes} : escape (37 :: high :: low :: s) = some x → decodesIn required q x = true →
    Normalizes required q s t → Normalizes required q (37 :: high :: low :: s) (x :: t)
  | escaped {q : Bool} {high low x : UInt8} {s t : Bytes} : escape (37 :: high :: low :: s) = some x → decodesIn required q x = false →
    utf8InvalidByte x = false → Normalizes required q s t → Normalizes required q (37 :: high :: low :: s) (percentEncode x ++ t)
  | encoded {q : Bool} {c : UInt8} {s t : Bytes} : encodedReqd c = true → c ≠ 35 → escape (c :: s) = none →
    utf8InvalidByte c = false → Normalizes required q s t → Normalizes required q (c :: s) (percentEncode c ++ t)

variable {required q : Bool} {c x high low : UInt8} {s t out : Bytes} {qs : Int}

/-! ## The pass -/

/-- The loop of the pass, from a byte on. -/
def basicPass (required : Bool) (out : Bytes) (qs : Int) (s : Bytes) : Bytes × Int :=
  basicFix (if required then decodesRequired else decodesUnreserved) out qs 0 s

theorem basicPass_char (hc : encodedReqd c = false) :
    basicPass required out qs (c :: s) = basicPass required (out ++ [c]) (if c = 63 ∧ qs = -1 then out.length else qs) s := by
  simp [basicPass, basicFix, hc]

theorem basicPass_escape (h : escape (37 :: high :: low :: s) = some x) :
    basicPass required out qs (37 :: high :: low :: s) =
      if decodesIn required (decide (0 ≤ qs)) x then basicPass required (out ++ [x]) qs s
      else basicPass required (out ++ percentEncode x) (if utf8InvalidByte x then -2 else qs) s := by
  have hdecode : (if required then decodesRequired else decodesUnreserved) qs x = decodesIn required (decide (0 ≤ qs)) x := by
    cases required with
    | false => rfl
    | true =>
      by_cases hqs : 0 ≤ qs
      · simp [decodesIn, decodesRequired, hqs, show ¬ qs < 0 by omega]
      · simp [decodesIn, decodesRequired, hqs, show qs < 0 by omega]
  simp [basicPass, basicFix, show encodedReqd 37 = true by decide, h, hdecode]

theorem basicPass_encode (hc : encodedReqd c = true) (h : escape (c :: s) = none) :
    basicPass required out qs (c :: s) =
      if c = 35 then (out, qs) else basicPass required (out ++ percentEncode c) (if utf8InvalidByte c then -2 else qs) s := by
  simp [basicPass, basicFix, hc, h]

theorem basicFix_reject {decodes : Int → UInt8 → Bool} (skip : Nat) : (basicFix decodes out (-2) skip s).2 = -2 := by
  induction s generalizing out skip with
  | nil => rfl
  | cons c s ih =>
    rw [basicFix]
    split
    · exact ih ..
    · split
      · simpa using ih ..
      · split
        · split
          · exact ih ..
          · simpa using ih ..
        · split
          · rfl
          · simpa using ih ..

/-- A byte that is written as an escape must not be one that no text in UTF-8 has. -/
theorem valid_of_basicPass {b : Bool} (h : (basicPass required out (if b then -2 else qs) s).2 ≠ -2) : b = false := by
  by_contra hb
  rw [if_pos (Bool.eq_true_of_not_eq_false hb)] at h
  exact h (basicFix_reject ..)

/-- The index says whether the query has begun. -/
theorem query_begun (hqs : -1 ≤ qs) (n : Nat) :
    -1 ≤ (if c = 63 ∧ qs = -1 then (n : Int) else qs) ∧
    decide (0 ≤ if c = 63 ∧ qs = -1 then (n : Int) else qs) = (decide (0 ≤ qs) || decide (c = 63)) := by
  by_cases hc : c = 63 <;> by_cases hstart : qs = -1
  · simp [hc, hstart]
  · have : 0 ≤ qs := by omega
    simp [hc, hstart, hqs, this]
  · simp [hc, hqs]
  · simp [hc, hqs]

/-- A pass that does not reject the URL writes what it has to. -/
theorem normalizes_basicPass (n : Nat) (s out : Bytes) (qs : Int) (hn : s.length ≤ n) (hqs : -1 ≤ qs)
    (h : (basicPass required out qs s).2 ≠ -2) :
    ∃ t, (basicPass required out qs s).1 = out ++ t ∧ Normalizes required (decide (0 ≤ qs)) s t := by
  -- the induction is on the length, as an escape is three bytes
  induction n generalizing s out qs with
  | zero =>
    rw [length_eq_zero_iff.1 (Nat.le_zero.1 hn)]
    exact ⟨[], by simp [basicPass, basicFix], .nil⟩
  | succ n ih =>
    rcases s with _ | ⟨c, s⟩
    · exact ⟨[], by simp [basicPass, basicFix], .nil⟩
    simp only [length_cons] at hn
    cases hreqd : encodedReqd c with
    | false =>
      rw [basicPass_char hreqd] at h ⊢
      obtain ⟨hnext, hbegun⟩ := query_begun hqs out.length
      obtain ⟨t, ht, hnormal⟩ := ih s _ _ (by omega) hnext h
      exact ⟨c :: t, by rw [ht]; simp, .char hreqd (hbegun ▸ hnormal)⟩
    | true =>
      cases hescape : escape (c :: s) with
      | some x =>
        obtain ⟨high, low, rest, hs, -⟩ := escape_eq_some hescape
        obtain ⟨rfl, rfl⟩ := List.cons.inj hs
        simp only [length_cons] at hn
        rw [basicPass_escape hescape] at h ⊢
        split at h
        · rename_i hdecode
          rw [if_pos hdecode]
          obtain ⟨t, ht, hnormal⟩ := ih rest _ _ (by omega) hqs h
          exact ⟨x :: t, by rw [ht]; simp, .decoded hescape hdecode hnormal⟩
        · rename_i hdecode
          have hutf8 := valid_of_basicPass h
          rw [if_neg hdecode]
          simp only [hutf8, Bool.false_eq_true, if_false] at h ⊢
          obtain ⟨t, ht, hnormal⟩ := ih rest _ _ (by omega) hqs h
          exact ⟨percentEncode x ++ t, by rw [ht]; simp, .escaped hescape (Bool.eq_false_iff.2 hdecode) hutf8 hnormal⟩
      | none =>
        rw [basicPass_encode hreqd hescape] at h ⊢
        split at h
        · rename_i hfragment
          subst hfragment
          exact ⟨[], by simp, .fragment⟩
        · rename_i hfragment
          have hutf8 := valid_of_basicPass h
          rw [if_neg hfragment]
          simp only [hutf8, Bool.false_eq_true, if_false] at h ⊢
          obtain ⟨t, ht, hnormal⟩ := ih s _ _ (by omega) hqs h
          exact ⟨percentEncode c ++ t, by rw [ht]; simp, .encoded hreqd hfragment hescape hutf8 hnormal⟩

/-- The pass writes what it has to. -/
theorem Normalizes.basicPass_eq (h : Normalizes required q s t) (out : Bytes) (qs : Int) (hqs : -1 ≤ qs) (hq : q = decide (0 ≤ qs)) :
    (basicPass required out qs s).1 = out ++ t ∧ (basicPass required out qs s).2 ≠ -2 := by
  induction h generalizing out qs with
  | nil => exact ⟨by simp [basicPass, basicFix], by simp only [basicPass, basicFix]; omega⟩
  | fragment =>
    rw [basicPass_encode (by decide) rfl]
    exact ⟨by simp, by simp only [if_true]; omega⟩
  | @char _ c _ _ hc _ ih =>
    obtain ⟨hnext, hbegun⟩ := query_begun hqs out.length
    rw [basicPass_char hc]
    simpa using ih (out ++ [c]) _ hnext (by rw [hbegun, hq])
  | @decoded _ _ _ x _ _ hescape hdecode _ ih =>
    rw [basicPass_escape hescape, ← hq, hdecode]
    simpa using ih (out ++ [x]) _ hqs hq
  | @escaped _ _ _ x _ _ hescape hdecode hutf8 _ ih =>
    rw [basicPass_escape hescape, ← hq, hdecode, hutf8]
    simpa using ih (out ++ percentEncode x) _ hqs hq
  | @encoded _ c _ _ hc hfragment hescape hutf8 _ ih =>
    rw [basicPass_encode hc hescape, if_neg hfragment, hutf8]
    simpa using ih (out ++ percentEncode c) _ hqs hq

/-! ## What is written -/

theorem escape_percentEncode : escape (percentEncode x ++ s) = some x :=
  of_decide_eq_true (forall_byte (p := fun x => escape (percentEncode x) = some x) x)

theorem upperDigit_percentEncode : upperDigit (hexCharUc (x >>> 4)) = true ∧ upperDigit (hexCharUc (x &&& 0xf)) = true := by
  have := forall_byte (p := fun x => upperDigit (hexCharUc (x >>> 4)) && upperDigit (hexCharUc (x &&& 0xf))) x
  simpa using this

/-- A byte that is decoded may stand in a URL, and is no question mark before the query. -/
theorem decodesIn_spec (h : decodesIn required q x = true) : encodedReqd x = false ∧ (q || x = 63) = q := by
  cases required with
  | false =>
    have := forall_byte (p := fun x => !isUnreserved x || !encodedReqd x && x != 63) x
    have hx : isUnreserved x = true := h
    simp only [hx, Bool.not_true, Bool.false_or, Bool.and_eq_true, Bool.not_eq_true', bne_iff_ne] at this
    simp [this]
  | true =>
    simp only [decodesIn, decodesRequired, if_true, Bool.and_eq_true, Bool.not_eq_true'] at h
    refine ⟨h.1, ?_⟩
    cases q with
    | true => rfl
    | false => simpa using (by simpa using h.2 : x ≠ 47 ∧ x ≠ 63).2

theorem decodesIn_of_reqd (h : encodedReqd x = true) : decodesIn required q x = false := by
  by_contra hdecode
  rw [(decodesIn_spec (Bool.eq_true_of_not_eq_false hdecode)).1] at h
  cases h

/-- What is written is left as it is. -/
theorem Normalizes.self (h : Normalizes required q s t) : Normalizes required q t t := by
  induction h with
  | nil => exact .nil
  | fragment => exact .nil
  | char hc _ ih => exact .char hc ih
  | decoded _ hdecode _ ih =>
    obtain ⟨hc, hquery⟩ := decodesIn_spec hdecode
    exact .char hc (hquery.symm ▸ ih)
  | escaped _ hdecode hutf8 _ ih => exact .escaped (escape_percentEncode) hdecode hutf8 ih
  | encoded hc _ _ hutf8 _ ih => exact .escaped (escape_percentEncode) (decodesIn_of_reqd hc) hutf8 ih

theorem Normalizes.upper (h : Normalizes required q s t) : AfterEach 37 UpperEscape t := by
  have hchar {c : UInt8} {t : Bytes} (hc : encodedReqd c = false) (ht : AfterEach 37 UpperEscape t) : AfterEach 37 UpperEscape (c :: t) := by
    refine (afterEach_cons_of_ne ?_).2 ht
    rintro rfl
    exact absurd hc (by decide)
  have hencode (x : UInt8) {t : Bytes} (ht : AfterEach 37 UpperEscape t) : AfterEach 37 UpperEscape (percentEncode x ++ t) := by
    obtain ⟨hhigh, hlow⟩ := upperDigit_percentEncode
    refine afterEach_cons_self.2 ⟨⟨_, _, t, rfl, hhigh, hlow⟩, ?_⟩
    refine (afterEach_cons_of_ne ?_).2 ((afterEach_cons_of_ne ?_).2 ht)
    · rintro heq
      rw [heq] at hhigh
      cases hhigh
    · rintro heq
      rw [heq] at hlow
      cases hlow
  induction h with
  | nil | fragment => exact afterEach_nil
  | char hc _ ih => exact hchar hc ih
  | decoded _ hdecode _ ih => exact hchar (decodesIn_spec hdecode).1 ih
  | escaped _ _ _ _ ih | encoded _ _ _ _ _ ih => exact hencode _ ih

/-! ## What it stands for -/

theorem percentDecode_char (hc : escape (c :: s) = none) : percentDecode (c :: s) = c :: percentDecode s := by
  simp [percentDecode, percentDecodeLoop, hc]

theorem percentDecode_escape (h : escape (37 :: high :: low :: s) = some x) :
    percentDecode (37 :: high :: low :: s) = x :: percentDecode s := by
  simp [percentDecode, percentDecodeLoop, h]

/-- An escape that is none in a text is none in a shorter one. -/
theorem escape_none_of_prefix {r : Bytes} (h : escape (c :: s) = none) (hr : r <+: s) : escape (c :: r) = none := by
  by_contra hsome
  obtain ⟨x, hx⟩ := Option.ne_none_iff_exists'.1 hsome
  obtain ⟨high, low, rest, heq, -⟩ := escape_eq_some hx
  obtain ⟨rfl, rfl⟩ := List.cons.inj heq
  obtain ⟨more, rfl⟩ := hr
  exact absurd (h.symm.trans hx) (by simp)

theorem escape_of_ne (hc : c ≠ 37) : escape (c :: s) = none := by
  by_contra hsome
  obtain ⟨x, hx⟩ := Option.ne_none_iff_exists'.1 hsome
  obtain ⟨high, low, rest, heq, -⟩ := escape_eq_some hx
  exact hc (List.cons.inj heq).1

/-- What the path and the query stand for, from before the query or in it. -/
def decodeParts (q : Bool) (s : Bytes) : Bytes × Bytes :=
  if q then ([], percentDecode s) else (percentDecode (urlPath s), percentDecode (urlQuery s))

/-- One more byte, before the query or in it. -/
def pushPart (q : Bool) (x : UInt8) (parts : Bytes × Bytes) : Bytes × Bytes :=
  if q then (parts.1, x :: parts.2) else (x :: parts.1, parts.2)

theorem decodeParts_append {a : Bytes} (ha : 63 ∉ a) (hdecode : ∀ r, r <+: s → percentDecode (a ++ r) = x :: percentDecode r) :
    decodeParts q (a ++ s) = pushPart q x (decodeParts q s) := by
  cases q with
  | true => exact congrArg (Prod.mk []) (hdecode s prefix_rfl)
  | false =>
    have hpath : urlPath (a ++ s) = a ++ urlPath s := firstSegment_append_left ha
    have hquery : urlQuery (a ++ s) = urlQuery s := by simp [urlQuery, hpath, drop_append]
    have hprefix : urlPath s <+: s := takeWhile_prefix _
    simp [decodeParts, pushPart, hpath, hquery, hdecode _ hprefix]

theorem decodeParts_char (hc : c ≠ 37) :
    decodeParts q (c :: s) = pushPart (q || c = 63) c (decodeParts (q || c = 63) s) := by
  have hdecode : ∀ r, percentDecode (c :: r) = c :: percentDecode r := fun r => percentDecode_char (escape_of_ne hc)
  by_cases hmark : c = 63
  · subst hmark
    cases q with
    | true => exact congrArg (Prod.mk []) (hdecode s)
    | false =>
      rfl
  · simpa [hmark] using decodeParts_append (a := [c]) (q := q) (by simpa using Ne.symm hmark) fun r _ => hdecode r

/-- The result stands for what the URL stands for up to its fragment. -/
theorem Normalizes.decodeParts_eq (h : Normalizes required q s t) : decodeParts q t = decodeParts q (firstSegment 35 s) := by
  have hreqd {c : UInt8} (hc : encodedReqd c = false) : c ≠ 37 ∧ c ≠ 35 := by
    constructor <;> (rintro rfl; exact absurd hc (by decide))
  have hencode {q : Bool} (x : UInt8) (t : Bytes) : decodeParts q (percentEncode x ++ t) = pushPart q x (decodeParts q t) :=
    decodeParts_append (percentEncode_ne x).2.1 fun r _ => percentDecode_escape (escape_percentEncode)
  have hescape {q : Bool} {high low x : UInt8} {s : Bytes} (h : escape (37 :: high :: low :: s) = some x) :
      decodeParts q (firstSegment 35 (37 :: high :: low :: s)) = pushPart q x (decodeParts q (firstSegment 35 s)) := by
    obtain ⟨high, low, _, heq, hencode⟩ := escape_eq_some h
    cases heq
    have hmem {c : UInt8} (hc : c ∈ [37, high, low]) : upperHex c ∈ percentEncode x := hencode ▸ mem_map_of_mem (f := upperHex) hc
    have hdigits : 35 ∉ [37, high, low] ∧ 63 ∉ [37, high, low] :=
      ⟨fun hc => (percentEncode_ne x).2.2 (hmem hc), fun hc => (percentEncode_ne x).2.1 (hmem hc)⟩
    rw [show 37 :: high :: low :: s = [37, high, low] ++ s from rfl, firstSegment_append_left hdigits.1]
    exact decodeParts_append hdigits.2 fun r _ => percentDecode_escape h
  induction h with
  | nil => rfl
  | fragment => simp [firstSegment]
  | @char _ c s t hc _ ih =>
    rw [show c :: s = [c] ++ s from rfl, firstSegment_append_left (by simpa using (hreqd hc).2.symm), singleton_append,
      decodeParts_char (hreqd hc).1, decodeParts_char (hreqd hc).1, ih]
  | decoded h hdecode _ ih =>
    obtain ⟨hc, hquery⟩ := decodesIn_spec hdecode
    rw [decodeParts_char (hreqd hc).1, hquery, ih, hescape h]
  | escaped h _ _ _ ih => rw [hencode, ih, hescape h]
  | @encoded _ c s t hc hfragment hnone _ _ ih =>
    have hmark : c ≠ 63 := by
      rintro rfl
      exact absurd hc (by decide)
    rw [show c :: s = [c] ++ s from rfl, firstSegment_append_left (by simpa using hfragment.symm), hencode, ih]
    refine (decodeParts_append (by simpa using hmark.symm) fun r hr => percentDecode_char ?_).symm
    exact escape_none_of_prefix hnone (hr.trans ( takeWhile_prefix _))

/-- When `burl_normalize` succeeds with one of the two flags alone, path and query of the result stand for those of the URL up to its
fragment, every escape has its digits in upper case, and the result is normalised to itself. -/
theorem burlNormalize_percent (required : Bool) (url text : Bytes) (qs : Int)
    (h : burlNormalize (.percent required) url = some (text, qs)) (hqs : qs ≠ -2) :
    percentDecode (urlPath text) = percentDecode (urlPath (firstSegment 35 url)) ∧
    percentDecode (urlQuery text) = percentDecode (urlQuery (firstSegment 35 url)) ∧
    AfterEach 37 UpperEscape text ∧ burlNormalize (.percent required) text = some (text, qs) := by
  have hpass (url : Bytes) : burlNormalize (.percent required) url = some (normalizeBasic (.percent required) url) := by
    rw [burlNormalize]
    rcases normalizeBasic (.percent required) url with ⟨text, qs⟩
    by_cases hreject : qs = -2
    · simp [hreject]
    · simp [hreject, normalizeUrl, UrlFlags.percent]
  have hloop (url : Bytes) : normalizeBasic (.percent required) url = basicPass required [] (-1) url := basicLoop_eq_basicFix ..
  have hresult : normalizeBasic (.percent required) url = (text, qs) := Option.some.inj ((hpass url).symm.trans h)
  have hfix := (hloop url).symm.trans hresult
  obtain ⟨t, ht, hnormal⟩ := normalizes_basicPass url.length url [] (-1) le_rfl le_rfl (by rw [hfix]; exact hqs)
  rw [hfix] at ht
  obtain rfl : text = t := ht
  obtain ⟨hpath, hquery⟩ := Prod.ext_iff.1 hnormal.decodeParts_eq
  refine ⟨hpath, hquery, hnormal.upper, (hpass text).trans (congrArg some (Prod.ext ?_ ?_))⟩
  -- the index is that of the first question mark, unless the URL is rejected
  all_goals obtain ⟨hself, hindex⟩ := hnormal.self.basicPass_eq [] (-1) le_rfl rfl
  all_goals rw [← hloop] at hself hindex
  · exact hself
  · have hfirst := (basic_normalizeBasic (.percent required) url).index_eq
    have hsecond := (basic_normalizeBasic (.percent required) text).index_eq hindex
    rw [hresult] at hfirst
    rw [hself] at hsecond
    exact hsecond.trans (hfirst hqs).symm

/-- `/a%2f%7e%?b%3D#c` becomes `/a%2F~%25?b%3D`. -/
theorem burlNormalize_percent_required :
    percentDecode [47, 97, 37, 50, 70, 126, 37, 50, 53] = [47, 97, 47, 126, 37] := by
  have := burlNormalize_percent true [47, 97, 37, 50, 102, 37, 55, 101, 37, 63, 98, 37, 51, 68, 35, 99]
    [47, 97, 37, 50, 70, 126, 37, 50, 53, 63, 98, 37, 51, 68] 9 (by decide) (by decide)
  exact this.1.trans (by decide)

end Osp.Lighttpd
