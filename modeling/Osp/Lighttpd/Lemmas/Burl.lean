import Osp.Lighttpd.Burl
import Osp.Lighttpd.Lemmas.Path

/-!
# The passes of URL normalisation

What each pass does to the path and the query. After percent-normalisation the URL has no NUL, and the index is that of its query. A
replacement of escapes in the path makes it shorter, while the index stays. The loop that looks for segments to remove finds those after
a slash that is not the first.
-/

namespace Osp.Lighttpd

open Osp.Lib List

/-- The part of a URL before its first question mark. -/
def urlPath (text : Bytes) : Bytes := firstSegment 63 text

/-- The question mark and what follows, if there is one. -/
def urlQuery (text : Bytes) : Bytes := text.drop (urlPath text).length

/-- The index of the first question mark, or -1. -/
def queryIndex (text : Bytes) : Int := if 63 ∈ text then (urlPath text).length else -1

theorem urlPath_append_urlQuery (text : Bytes) : urlPath text ++ urlQuery text = text := prefix_iff_eq_append.1 ( takeWhile_prefix _)

theorem urlQuery_eq (text : Bytes) : urlQuery text = [] ∨ ∃ rest, urlQuery text = 63 :: rest := by
  have happend := urlPath_append_urlQuery text
  rcases firstSegment_cases 63 text with h | ⟨rest, h⟩
  · left
    have : urlPath text ++ urlQuery text = urlPath text := happend.trans h
    simpa using this
  · exact .inr ⟨rest, append_cancel_left (happend.trans h)⟩

section

variable {path query : Bytes} {c : UInt8} {qs : Int}

/-- A URL made of a path without question mark and a query. -/
theorem urlPath_append (hpath : 63 ∉ path) (hquery : query = [] ∨ ∃ rest, query = 63 :: rest) : urlPath (path ++ query) = path := by
  rcases hquery with rfl | ⟨rest, rfl⟩
  · rw [append_nil]
    exact firstSegment_of_notMem hpath
  · exact firstSegment_append_cons hpath

theorem urlQuery_append (hpath : 63 ∉ path) (hquery : query = [] ∨ ∃ rest, query = 63 :: rest) : urlQuery (path ++ query) = query := by
  rw [urlQuery, urlPath_append hpath hquery, drop_left]

theorem queryIndex_append_cons (hpath : 63 ∉ path) (rest : Bytes) : queryIndex (path ++ 63 :: rest) = path.length := by
  rw [queryIndex, if_pos (by simp), urlPath_append hpath (.inr ⟨rest, rfl⟩)]

theorem queryIndex_of_notMem (hpath : 63 ∉ path) : queryIndex path = -1 := if_neg hpath

/-- The index of a URL with a path that was changed. -/
theorem queryIndex_append (hpath : 63 ∉ path) (hquery : query = [] ∨ ∃ rest, query = 63 :: rest) :
    queryIndex (path ++ query) = if query = [] then -1 else (path.length : Int) := by
  rcases hquery with rfl | ⟨rest, rfl⟩
  · rw [append_nil, queryIndex_of_notMem hpath, if_pos rfl]
  · rw [queryIndex_append_cons hpath, if_neg (by simp)]

end

/-! ## Percent-normalisation -/

/-- The text has an escape of a byte that is not in UTF-8. -/
def BadUtf8 (text : Bytes) : Prop := ∃ x, utf8InvalidByte x = true ∧ percentEncode x <:+: text

/-- What a percent-normalised text is, with its index: it has no NUL, and unless it is rejected the index is that of the query. -/
structure Basic (text : Bytes) (qs : Int) : Prop where
  nul : 0 ∉ text
  index : qs = -2 ∧ BadUtf8 text ∨ qs = queryIndex text

theorem Basic.index_eq {text : Bytes} (h : Basic text qs) (hqs : qs ≠ -2) : qs = queryIndex text :=
  h.index.resolve_left fun hbad => hqs hbad.1

/-- Bytes that are appended: a question mark among them is after the start of the query. -/
theorem Basic.append {text more : Bytes} (h : Basic text qs) (hnul : 0 ∉ more) (hmark : qs = -1 → 63 ∉ more) :
    Basic (text ++ more) qs := by
  refine ⟨by simp [h.nul, hnul], h.index.imp ?_ fun hqs => ?_⟩
  · rintro ⟨hqs, x, hx, hinf⟩
    exact ⟨hqs, x, hx, hinf.trans (prefix_append _ _).isInfix⟩
  by_cases hmem : 63 ∈ text
  · rw [hqs, queryIndex, queryIndex, if_pos hmem, if_pos (by simp [hmem])]
    obtain hself | ⟨rest, hrest⟩ := firstSegment_cases 63 text
    · exact absurd hmem (hself ▸ notMem_firstSegment)
    · rw [hrest, append_assoc, cons_append, urlPath_append notMem_firstSegment (.inr ⟨_, rfl⟩),
        urlPath_append notMem_firstSegment (.inr ⟨_, rfl⟩)]
  · rw [queryIndex_of_notMem hmem] at hqs
    rw [hqs, queryIndex_of_notMem (by simp [hmem, hmark hqs])]

theorem Basic.question {text : Bytes} (h : Basic text qs) (c : UInt8) (hc : c ≠ 0) :
    Basic (text ++ [c]) (if c = 63 ∧ qs = -1 then text.length else qs) := by
  split
  · rename_i hstart
    obtain ⟨rfl, hqs⟩ := hstart
    refine ⟨by simp [h.nul], .inr ?_⟩
    have hmem : 63 ∉ text := fun hmem => by
      rcases h.index with hindex | hindex
      · omega
      · rw [queryIndex, if_pos hmem] at hindex
        omega
    rw [queryIndex_append_cons hmem]
  · rename_i hstart
    refine h.append (by simpa using hc.symm) fun hqs => ?_
    simpa [eq_comm] using fun hmark => hstart ⟨hmark, hqs⟩

theorem percentEncode_ne (x : UInt8) : 0 ∉ percentEncode x ∧ 63 ∉ percentEncode x ∧ 35 ∉ percentEncode x := by
  have := forall_byte (p := fun x => !(percentEncode x).contains 0 && (!(percentEncode x).contains 63 && !(percentEncode x).contains 35)) x
  simpa using this

theorem Basic.encode {text : Bytes} (h : Basic text qs) (x : UInt8) :
    Basic (text ++ percentEncode x) (if utf8InvalidByte x then -2 else qs) := by
  have happend := h.append (percentEncode_ne x).1 fun _ => (percentEncode_ne x).2.1
  split
  · rename_i hx
    exact ⟨happend.nul, .inl ⟨rfl, x, hx, (suffix_append _ _).isInfix⟩⟩
  · exact happend

/-- A digit in upper case is the one of its value. -/
theorem upperHex_eq {n : Nat} (h : hex2int c = some n) : upperHex c = hexCharUc (UInt8.ofNat n) ∧ n < 16 := by
  have := forall_byte (p := fun c => (hex2int c).all fun n => upperHex c = hexCharUc (UInt8.ofNat n) && n < 16) c
  simpa [h] using this

theorem escape_eq_some {s : Bytes} {x : UInt8} (h : escape s = some x) :
    ∃ high low rest, s = 37 :: high :: low :: rest ∧ [37, upperHex high, upperHex low] = percentEncode x := by
  unfold escape at h
  split at h
  · rename_i high low rest
    split at h
    · rename_i n m hhigh hlow
      obtain ⟨hn, hn16⟩ := upperHex_eq hhigh
      obtain ⟨hm, hm16⟩ := upperHex_eq hlow
      have hencode : ∀ n m : Fin 16, [37, hexCharUc (UInt8.ofNat n), hexCharUc (UInt8.ofNat m)] =
          percentEncode (UInt8.ofNat (n.1 * 16 + m.1)) := by decide +kernel
      refine ⟨high, low, rest, rfl, ?_⟩
      rw [hn, hm, ← Option.some.inj h]
      exact hencode ⟨n, hn16⟩ ⟨m, hm16⟩
    · cases h
  · cases h

theorem encodedReqd_zero : encodedReqd 0 = true := by decide

/-- The bytes that are decoded are no NUL, and no question mark before the query. -/
def Decodes (decodes : Int → UInt8 → Bool) : Prop := ∀ qs x, decodes qs x = true → x ≠ 0 ∧ (qs = -1 → x ≠ 63)

theorem decodes_unreserved : Decodes decodesUnreserved := by
  intro qs x h
  have h : isUnreserved x = true := h
  constructor
  · rintro rfl
    exact absurd h (by decide)
  · rintro - rfl
    exact absurd h (by decide)

theorem decodes_required : Decodes decodesRequired := by
  intro qs x h
  simp only [decodesRequired, Bool.and_eq_true, Bool.not_eq_true'] at h
  refine ⟨?_, fun hqs => ?_⟩
  · rintro rfl
    exact absurd (h.1.symm.trans encodedReqd_zero) (by decide)
  · have hmark := h.2
    rw [hqs] at hmark
    exact (by simpa using hmark : x ≠ 47 ∧ x ≠ 63).2

section

variable {decodes : Int → UInt8 → Bool}

theorem basic_basicFix (hdecodes : Decodes decodes) (s : Bytes) {out : Bytes} (skip : Nat) (h : Basic out qs) :
    Basic (basicFix decodes out qs skip s).1 (basicFix decodes out qs skip s).2 ∧ out <+: (basicFix decodes out qs skip s).1 := by
  induction s generalizing out qs skip with
  | nil => exact ⟨h, prefix_rfl⟩
  | cons c s ih =>
    have hnext {more : Bytes} {qs : Int} (skip : Nat) (h : Basic (out ++ more) qs) :
        Basic (basicFix decodes (out ++ more) qs skip s).1 (basicFix decodes (out ++ more) qs skip s).2 ∧
          out <+: (basicFix decodes (out ++ more) qs skip s).1 :=
      ⟨(ih skip h).1, (prefix_append _ _).trans (ih skip h).2⟩
    rw [basicFix]
    split
    · exact ih _ h
    · split
      · rename_i hreqd
        refine hnext 0 (h.question c ?_)
        rintro rfl
        simp [encodedReqd_zero] at hreqd
      · split
        · rename_i x hescape
          split
          · rename_i hx
            obtain ⟨hnul, hmark⟩ := hdecodes qs x hx
            exact hnext 2 (h.append (by simpa using hnul.symm) fun hqs => by simpa using (hmark hqs).symm)
          · exact hnext 2 (h.encode x)
        · split
          · exact ⟨h, prefix_rfl⟩
          · exact hnext 0 (h.encode c)

/-- The escapes that the first loop leaves in their place are those that the second one writes. -/
theorem basicLoop_eq_basicFix (s out : Bytes) (qs : Int) (skip : Nat) : basicLoop decodes out qs skip s = basicFix decodes out qs skip s := by
  induction s generalizing out qs skip with
  | nil => rfl
  | cons c s ih =>
    by_cases hskip : skip = 0
    · simp only [basicLoop, basicFix, hskip, ne_eq, not_true, if_false]
      split
      · exact ih ..
      · split
        · rename_i x hescape
          obtain ⟨high, low, rest, hs, hencode⟩ := escape_eq_some hescape
          have htake : ((c :: s).take 3).map upperHex = percentEncode x := by
            rw [← hencode, hs]
            rfl
          split
          · rename_i hdecode
            exact if_pos hdecode
          · rw [htake]
            exact ih ..
        · split <;> rfl
    · rw [basicLoop, if_pos hskip, basicFix, if_pos hskip]
      exact ih ..

end

theorem decodes_flags (flags : UrlFlags) : Decodes (if flags.required then decodesRequired else decodesUnreserved) := by
  split
  · exact decodes_required
  · exact decodes_unreserved

theorem basic_normalizeBasic (flags : UrlFlags) (url : Bytes) : Basic (normalizeBasic flags url).1 (normalizeBasic flags url).2 := by
  rw [normalizeBasic, basicLoop_eq_basicFix]
  exact (basic_basicFix (decodes_flags flags) url 0 ⟨not_mem_nil, .inr rfl⟩).1

/-- A URL that begins with a slash does so after percent-normalisation. -/
theorem head?_normalizeBasic {flags : UrlFlags} {url : Bytes} (h : url.head? = some 47) :
    (normalizeBasic flags url).1.head? = some 47 := by
  obtain ⟨url, rfl⟩ := head?_eq_some_iff.1 h
  have hstep : normalizeBasic flags (47 :: url) =
      basicFix (if flags.required then decodesRequired else decodesUnreserved) [47] (-1) 0 url := by
    rw [normalizeBasic, basicLoop_eq_basicFix, basicFix]
    simp [show encodedReqd 47 = false by decide]
  rw [hstep]
  have hbasic : Basic [47] (-1) := ⟨by decide, .inr (by decide)⟩
  obtain ⟨rest, hrest⟩ := (basic_basicFix (decodes_flags flags) url 0 hbasic).2
  rw [← hrest]
  rfl

/-! ## Escapes that are replaced -/

section

variable {pattern s rest : Bytes} {char : UInt8}

theorem replaceEscape_zero_cons (c : UInt8) : replaceEscape pattern char 0 (c :: s) =
    if pattern <+: c :: s then char :: replaceEscape pattern char 2 s else c :: replaceEscape pattern char 0 s := by
  rw [replaceEscape, if_neg (by simp)]

theorem subset_replaceEscape (k : Nat) (h : c ∈ replaceEscape pattern char k s) : c ∈ s ∨ c = char := by
  induction s generalizing k with
  | nil => exact absurd h not_mem_nil
  | cons d s ih =>
    rw [replaceEscape] at h
    split at h
    · exact (ih _ h).imp_left (mem_cons_of_mem _)
    · split at h
      · rcases mem_cons.1 h with h | h
        · exact .inr h
        · exact (ih _ h).imp_left (mem_cons_of_mem _)
      · rcases mem_cons.1 h with rfl | h
        · exact .inl mem_cons_self
        · exact (ih _ h).imp_left (mem_cons_of_mem _)

theorem replaceEscape_eq_self (h : ¬ pattern <:+: s) : replaceEscape pattern char 0 s = s := by
  induction s with
  | nil => rfl
  | cons c s ih =>
    rw [infix_cons_iff, not_or] at h
    rw [replaceEscape_zero_cons, if_neg h.1, ih h.2]

theorem length_replaceEscape_le (k : Nat) : (replaceEscape pattern char k s).length ≤ s.length - k := by
  induction s generalizing k with
  | nil => exact Nat.zero_le _
  | cons c s ih =>
    rw [replaceEscape]
    split
    · have := ih (k - 1)
      simp only [length_cons]
      omega
    · have h0 := ih 0
      have h2 := ih 2
      split
      · simp only [length_cons]
        omega
      · simp only [length_cons]
        omega

/-- A character that is not in the escape separates what is replaced before it and after it. -/
theorem replaceEscape_append_cons (hlength : pattern.length = 3) (hc : c ∉ pattern) {k : Nat} (hk : k ≤ s.length) (rest : Bytes) :
    replaceEscape pattern char k (s ++ c :: rest) = replaceEscape pattern char k s ++ c :: replaceEscape pattern char 0 rest := by
  have hpre {l : Bytes} : pattern <+: l ++ c :: rest ↔ pattern <+: l := by
    refine ⟨fun h => ?_, fun h => h.trans (prefix_append _ _)⟩
    refine prefix_of_prefix_length_le h (prefix_append _ _) (Nat.le_of_not_lt fun hlt => hc ?_)
    have hle : l ++ [c] <+: pattern := by
      refine prefix_of_prefix_length_le ⟨rest, by simp⟩ h ?_
      rw [length_append, length_singleton]
      omega
    exact hle.subset (by simp)
  induction s generalizing k with
  | nil =>
    obtain rfl : k = 0 := Nat.le_zero.1 hk
    have hno : ¬ pattern <+: c :: rest := fun h => by
      have := prefix_nil.1 ((hpre (l := [])).1 h)
      simp [this] at hlength
    rw [nil_append, replaceEscape_zero_cons, if_neg hno]
    rfl
  | cons d s ih =>
    rw [length_cons] at hk
    rw [cons_append]
    by_cases hskip : k = 0
    · subst hskip
      rw [replaceEscape_zero_cons, replaceEscape_zero_cons]
      have hiff : pattern <+: d :: (s ++ c :: rest) ↔ pattern <+: d :: s := hpre (l := d :: s)
      by_cases h : pattern <+: d :: s
      · have hle := h.length_le
        rw [length_cons] at hle
        rw [if_pos (hiff.2 h), if_pos h, ih (by omega), cons_append]
      · rw [if_neg (mt hiff.1 h), if_neg h, ih (by omega), cons_append]
    · rw [replaceEscape, if_pos hskip, replaceEscape, if_pos hskip, ih (by omega)]

/-- An escape of three characters that is replaced makes the text shorter. -/
theorem length_replaceEscape_lt (hlength : pattern.length = 3) (h : pattern <:+: s) :
    (replaceEscape pattern char 0 s).length + 2 ≤ s.length := by
  induction s with
  | nil =>
    rw [infix_nil.1 h] at hlength
    cases hlength
  | cons c s ih =>
    rw [replaceEscape_zero_cons]
    split
    · rename_i hpre
      have hle := hpre.length_le
      have : (replaceEscape pattern char 2 s).length ≤ s.length - 2 := length_replaceEscape_le 2
      simp only [length_cons] at hle ⊢
      omega
    · rename_i hno
      have := ih ((infix_cons_iff.1 h).resolve_left hno)
      simp only [length_cons]
      omega

end

theorem decode2f_append_slash (s rest : Bytes) : decode2f (s ++ 47 :: rest) = decode2f s ++ 47 :: decode2f rest :=
  replaceEscape_append_cons rfl (by decide) (Nat.zero_le _) rest

/-- A segment in which nothing is replaced stays the segment. -/
theorem firstSegment_decode2f {s : Bytes} (h : decode2f (firstSegment 47 s) = firstSegment 47 s) :
    firstSegment 47 (decode2f s) = firstSegment 47 s := by
  rcases firstSegment_cases 47 s with hs | ⟨rest, hs⟩
  · nth_rewrite 1 [hs]
    rw [h]
    exact firstSegment_of_notMem notMem_firstSegment
  · nth_rewrite 1 [hs]
    rw [decode2f_append_slash, h]
    exact firstSegment_append_cons notMem_firstSegment

/-- What is to be removed from a path is still there when more slashes are. -/
theorem cleanPath_of_decode2f {path : Bytes} (h : CleanPath (decode2f path)) : CleanPath path := by
  rintro rest ⟨before, rfl⟩
  rw [decode2f_append_slash] at h
  have hafter : CleanAfter (decode2f rest) := h _ (suffix_append _ _)
  refine ⟨fun hdot => hafter.ne_dot ?_, fun hdotdot => hafter.ne_dotdot ?_, fun hempty => ?_⟩
  · rw [firstSegment_decode2f (by rw [hdot]; rfl), hdot]
  · rw [firstSegment_decode2f (by rw [hdotdot]; rfl), hdotdot]
  · have hnil := hafter.empty (by rw [firstSegment_decode2f (by rw [hempty]; rfl), hempty])
    rcases firstSegment_cases 47 rest with hs | ⟨more, hs⟩
    · rw [hs, hempty]
    · rw [hs, decode2f_append_slash] at hnil
      simp at hnil

/-! ## The search for dots -/

/-- A slash at the given place is followed by a segment that is to be removed. -/
def DotsAfter (n i : Nat) (s : Bytes) : Prop :=
  ∃ rest, s.drop i = 47 :: rest ∧ (rest.head? = some 47 ∨ (i + 1 < n ∧ isDots rest = true))

theorem dotsAfter_zero {n : Nat} {s : Bytes} :
    DotsAfter (n + 1) 0 (c :: s) ↔ c = 47 ∧ (s.head? = some 47 ∨ (0 < n ∧ isDots s = true)) := by
  simp [DotsAfter]

theorem dotsAfter_succ {n i : Nat} {s : Bytes} : DotsAfter (n + 1) (i + 1) (c :: s) ↔ DotsAfter n i s := by
  simp [DotsAfter]

theorem DotsAfter.mono {n m i : Nat} {s : Bytes} (h : DotsAfter n i s) (hle : n ≤ m) : DotsAfter m i s := by
  obtain ⟨rest, hrest, hcases⟩ := h
  exact ⟨rest, hrest, hcases.imp_right fun hdots => ⟨by omega, hdots.2⟩⟩

theorem dotsAfter_drop {n k i : Nat} {s : Bytes} : DotsAfter (n - k) i (s.drop k) ↔ DotsAfter n (k + i) s := by
  simp only [DotsAfter, drop_drop, show i + 1 < n - k ↔ k + i + 1 < n by omega]

theorem slash_prefix_iff {s : Bytes} : [47] <+: s ↔ s.head? = some 47 := by
  cases s with
  | nil => simp
  | cons c s => simp [eq_comm]

/-- What the loop finds: dots at the place itself, or after a slash. -/
def Finds (loop : Nat → Bytes → Bool) (n : Nat) : Prop :=
  ∀ s, loop n s = true ↔ (0 < n ∧ isDots s = true) ∨ ∃ i, 0 < i ∧ i ≤ n ∧ DotsAfter n i s

theorem nextSegment_iff {loop : Nat → Bytes → Bool} (m : Nat) (hloop : ∀ n ≤ m, Finds loop n) (s : Bytes) :
    nextSegment loop m s = true ↔ ∃ i < m + 1, DotsAfter m i s := by
  induction m generalizing s with
  | zero =>
    have hzero : loop 0 (s.drop 1) = false := by
      rw [← Bool.not_eq_true, hloop 0 le_rfl]
      rintro (⟨h, -⟩ | ⟨i, hpos, hle, -⟩) <;> omega
    simp only [nextSegment, take_zero, takeWhile_nil, length_nil, drop_zero, Nat.zero_add, hzero, Bool.or_false,
      decide_eq_true_eq, Nat.lt_one_iff, exists_eq_left, DotsAfter]
    cases s with
    | nil => simp
    | cons c s => simp [slash_prefix_iff, eq_comm (a := (47 : UInt8))]
  | succ m ih =>
    cases s with
    | nil =>
      have hnil : loop (m + 1 - 0 - 1) [] = false := by
        rw [← Bool.not_eq_true, hloop _ (by omega)]
        rintro (⟨-, h⟩ | ⟨i, -, -, rest, hrest, -⟩)
        · exact absurd h (by decide)
        · simp at hrest
      simp only [nextSegment, take_nil, takeWhile_nil, length_nil, drop_nil, hnil, Bool.or_false, decide_eq_true_eq]
      simp [DotsAfter]
    | cons c s =>
      rw [Nat.exists_lt_succ_left, dotsAfter_zero]
      simp only [dotsAfter_succ]
      by_cases hc : c = 47
      · subst hc
        have hnext : nextSegment loop (m + 1) (47 :: s) = true ↔ s.head? = some 47 ∨ loop m s = true := by
          simp [nextSegment, slash_prefix_iff]
        rw [hnext, hloop m (by omega)]
        constructor
        · rintro (hhead | hdots | ⟨i, -, hle, hafter⟩)
          · exact .inl ⟨rfl, .inl hhead⟩
          · exact .inl ⟨rfl, .inr hdots⟩
          · exact .inr ⟨i, by omega, hafter⟩
        · rintro (⟨-, hhead | hdots⟩ | ⟨i, hlt, hafter⟩)
          · exact .inl hhead
          · exact .inr (.inl hdots)
          · by_cases hi : i = 0
            · subst hi
              obtain ⟨rest, hrest, -⟩ := hafter
              rw [drop_zero] at hrest
              exact .inl (by rw [hrest]; rfl)
            · exact .inr (.inr ⟨i, by omega, by omega, hafter⟩)
      · have hnext : nextSegment loop (m + 1) (c :: s) = nextSegment loop m s := by
          simp [nextSegment, hc]
        rw [hnext, ih (fun n hn => hloop n (by omega)), or_iff_right fun hzero => hc hzero.1]

/-- The loop finds what stands after a slash of the path that is not at the place where it starts. -/
theorem finds_dotSegment (fuel n : Nat) (hn : n ≤ fuel) : Finds (dotSegment fuel) n := by
  induction fuel generalizing n with
  | zero =>
    intro s
    refine ⟨fun h => absurd h (by simp [dotSegment]), ?_⟩
    rintro (⟨h, -⟩ | ⟨i, hpos, hle, -⟩) <;> omega
  | succ fuel ih =>
    intro s
    cases n with
    | zero =>
      simp [dotSegment]
    | succ n =>
      -- what the test for dots passes is not a slash
      have hk : dotsLength s = 1 ∨ (dotsLength s = 2 ∧ ∃ t, s = 46 :: 46 :: t) := by
        unfold dotsLength
        split
        · rename_i hpre
          obtain ⟨t, ht⟩ := hpre
          exact .inr ⟨rfl, t, ht.symm⟩
        · exact .inl rfl
      rw [dotSegment, Bool.or_eq_true, nextSegment_iff _ fun m hm => ih m (by omega)]
      constructor
      · rintro (hdots | ⟨i, hle, hafter⟩)
        · exact .inl ⟨by omega, hdots⟩
        · rw [dotsAfter_drop] at hafter
          by_cases hlong : dotsLength s ≤ n + 1
          · exact .inr ⟨_, by omega, by omega, hafter⟩
          · obtain ⟨htwo, t, rfl⟩ := hk.resolve_left (by omega)
            obtain ⟨rest, hrest, -⟩ := hafter
            obtain rfl : i = 0 := by omega
            obtain rfl : t = 47 :: rest := hrest
            exact .inl ⟨by omega, by simp [isDots, dotsLength, isSegmentEnd]⟩
      · rintro (⟨-, hdots⟩ | ⟨i, hi, hle, hafter⟩)
        · exact .inl hdots
        · by_cases hlt : i < dotsLength s
          · obtain ⟨htwo, t, rfl⟩ := hk.resolve_left (by omega)
            obtain ⟨rest, hrest, -⟩ := hafter
            obtain rfl : i = 1 := by omega
            exact absurd (List.cons.inj hrest).1 (by decide)
          · refine .inr ⟨i - dotsLength s, by omega, dotsAfter_drop.2 ?_⟩
            rw [Nat.add_sub_cancel' (by omega)]
            exact hafter

theorem dotSegment_mono {m n : Nat} {s : Bytes} (hle : m ≤ n) (h : dotSegment m m s = true) : dotSegment n n s = true := by
  rw [finds_dotSegment _ _ le_rfl] at h ⊢
  rcases h with ⟨hpos, hdots⟩ | ⟨i, hpos, hi, hdots⟩
  · exact .inl ⟨by omega, hdots⟩
  · exact .inr ⟨i, hpos, hi.trans hle, hdots.mono hle⟩

/-- A segment is followed by a slash, the query or the end. -/
theorem isDots_append (hs : ∀ c ∈ s, c ≠ 47 ∧ c ≠ 63 ∧ c ≠ 0) (hrest : isSegmentEnd rest = true) :
    isDots (s ++ rest) = true ↔ s = [46] ∨ s = [46, 46] := by
  have hend {c : UInt8} {more : Bytes} (hc : c ∈ s) : isSegmentEnd (c :: more) = false := by
    have := hs c hc
    simp [isSegmentEnd, this]
  have hhead : rest.head? ≠ some 46 := fun h => by simp [isSegmentEnd, h] at hrest
  have hone : ¬ [46] <+: rest := fun ⟨more, hmore⟩ => hhead (by rw [← hmore]; rfl)
  match s with
  | [] => simp [isDots, hhead]
  | [a] =>
    by_cases ha : a = 46
    · simp [isDots, dotsLength, cons_prefix_cons, hone, hrest]
    · simp [isDots, ha]
  | [a, b] =>
    by_cases ha : a = 46
    · subst ha
      by_cases hb : b = 46
      · subst hb
        simp [isDots, dotsLength, hrest]
      · simp [isDots, dotsLength, cons_prefix_cons, hb, Ne.symm hb, hend (c := b)]
    · simp [isDots, ha]
  | a :: b :: c :: s =>
    by_cases ha : a = 46
    · subst ha
      by_cases hb : b = 46
      · subst hb
        simp [isDots, dotsLength, hend (c := c)]
      · simp [isDots, dotsLength, cons_prefix_cons, Ne.symm hb, hend (c := b)]
    · simp [isDots, ha]

/-- Dots after a slash of a path are the first segment of what follows. -/
theorem isDots_iff (hs : ∀ c ∈ s, c ≠ 63 ∧ c ≠ 0) (hrest : rest.head? = some 63 ∨ rest.head? = some 0) :
    isDots (s ++ rest) = true ↔ firstSegment 47 s = [46] ∨ firstSegment 47 s = [46, 46] := by
  have hsegment : ∀ c ∈ firstSegment 47 s, c ≠ 47 ∧ c ≠ 63 ∧ c ≠ 0 := fun c hc =>
    ⟨fun h => notMem_firstSegment (h ▸ hc), hs c ( takeWhile_prefix _ |>.subset hc)⟩
  rcases firstSegment_cases 47 s with h | ⟨more, h⟩
  · nth_rewrite 1 [h]
    exact isDots_append hsegment (by rcases hrest with h | h <;> simp [isSegmentEnd, h])
  · nth_rewrite 1 [h]
    rw [append_assoc]
    exact isDots_append hsegment (by simp [isSegmentEnd])

/-- A slash is followed by something to remove. -/
theorem not_cleanAfter_iff (hs : ∀ c ∈ s, c ≠ 63 ∧ c ≠ 0) (hrest : rest.head? = some 63 ∨ rest.head? = some 0) :
    ¬ CleanAfter s ↔ (s ++ rest).head? = some 47 ∨ isDots (s ++ rest) = true := by
  have hhead : (s ++ rest).head? = some 47 ↔ firstSegment 47 s = [] ∧ s ≠ [] := by
    cases s with
    | nil => rcases hrest with h | h <;> simp [h]
    | cons c s =>
      simp [firstSegment]
  rw [hhead, isDots_iff hs hrest]
  constructor
  · intro hnot
    by_contra hno
    simp only [not_or, not_and, not_not] at hno
    exact hnot ⟨hno.2.1, hno.2.2, hno.1⟩
  · rintro (⟨hempty, hne⟩ | h | h) hclean
    · exact hne (hclean.empty hempty)
    · exact hclean.ne_dot h
    · exact hclean.ne_dotdot h

/-- In a path that ends where the index says, the loop finds what is to be removed after any slash but the first. -/
theorem dotSegment_iff {path rest : Bytes} (hpath : ∀ c ∈ path, c ≠ 63 ∧ c ≠ 0) (hhead : path.head? = some 47)
    (hrest : rest.head? = some 63 ∨ rest.head? = some 0) :
    dotSegment path.length path.length (path ++ rest) = true ↔ ¬ CleanPath path.tail := by
  obtain ⟨path, rfl⟩ := head?_eq_some_iff.1 hhead
  have hsuffix {s : Bytes} (hs : s <:+ path) : ∀ c ∈ s, c ≠ 63 ∧ c ≠ 0 := fun c hc => hpath c (mem_cons_of_mem _ (hs.subset hc))
  rw [finds_dotSegment _ _ le_rfl, tail_cons]
  constructor
  · rintro (⟨-, hdots⟩ | ⟨i, hpos, hle, s, hs, hafter⟩) hclean
    · cases hdots
    · have hlt : i < (47 :: path).length := by
        refine lt_of_le_of_ne hle fun heq => ?_
        rw [heq, drop_left] at hs
        rw [hs] at hrest
        simp at hrest
      rw [drop_append_of_le_length hle] at hs
      obtain ⟨i, rfl⟩ := Nat.exists_eq_add_one_of_ne_zero hpos.ne'
      rw [drop_succ_cons] at hs
      obtain ⟨c, s', hs'⟩ := exists_cons_of_ne_nil (l := path.drop i) fun hnil => by
        have := drop_eq_nil_iff.1 hnil
        simp only [length_cons] at hlt
        omega
      rw [hs'] at hs
      obtain ⟨rfl, rfl⟩ := List.cons.inj hs
      have hslash : 47 :: s' <:+ path := hs' ▸ drop_suffix _ _
      refine (not_cleanAfter_iff (hsuffix ((suffix_cons _ _).trans hslash)) hrest).2 ?_ (hclean s' hslash)
      exact hafter.imp_right And.right
  · intro hnot
    right
    by_contra hno
    refine hnot fun s hslash => ?_
    by_contra hbad
    have hs := hsuffix ((suffix_cons _ _).trans hslash)
    obtain ⟨before, rfl⟩ := hslash
    refine hno ⟨before.length + 1, by omega, ?_, s ++ rest, ?_, ?_⟩
    · simp only [length_cons, length_append]
      omega
    · rw [cons_append, drop_succ_cons, append_assoc, drop_left]
      rfl
    · refine ((not_cleanAfter_iff hs hrest).1 hbad).imp_right fun hdots => ⟨?_, hdots⟩
      have hne : s ≠ [] := by
        rintro rfl
        exact hbad ⟨by simp [firstSegment], by simp [firstSegment], fun _ => rfl⟩
      have := length_pos_of_ne_nil hne
      simp only [length_cons, length_append]
      omega

end Osp.Lighttpd
