import Osp.Lighttpd.Lemmas.Burl

/-!
# Normalised URLs

When `burl_normalize` does what it is for: the index that it returns is that of the query, the path has no segment that should have been
removed, and the query is left alone. Two things go wrong: the index is not changed when `%2F` in the path becomes a slash, and the
segment after the first slash is not looked at when segments to remove are searched.
-/

namespace Osp.Lighttpd

open Osp.Lib List Option

/-- What a URL is after normalisation, given the URL after percent-normalisation alone. -/
structure NormalizedUrl (basic text : Bytes) (qs : Int) : Prop where
  index : qs = queryIndex text
  path : CleanPath (urlPath text)
  query : urlQuery text = urlQuery basic

/-- The path after `%2F` is decoded, if it is. -/
def decodedPath (flags : UrlFlags) (basic : Bytes) : Bytes := if flags.path2fDecode then decode2f (urlPath basic) else urlPath basic

/-- The path becomes shorter before the query. -/
def Shifted (flags : UrlFlags) (basic : Bytes) : Prop := flags.path2fDecode = true ∧ slash2f <:+: urlPath basic ∧ urlQuery basic ≠ []

/-- The condition on a percent-normalised URL: no `%2F` that is decoded before a query, nothing to remove after the first slash unless
there is something after another one, and no `%20` in a query where it is replaced. -/
structure Proper (flags : UrlFlags) (basic : Bytes) : Prop where
  index : ¬ Shifted flags basic
  first : CleanAfter (decodedPath flags basic).tail ∨ ¬ CleanPath (decodedPath flags basic).tail
  query : flags.query20Plus = true → ¬ space20 <:+: urlQuery basic

/-! ## Paths -/

/-- The parts of a URL: a path that begins with a slash, and a query or none. -/
structure Parts (path query : Bytes) : Prop where
  chars : ∀ c ∈ path, c ≠ 63 ∧ c ≠ 0
  head : path.head? = some 47
  mark : query = [] ∨ ∃ rest, query = 63 :: rest

namespace Parts

variable {path query after : Bytes} {flags : UrlFlags}

section

variable (h : Parts path query)

include h

theorem notMem : 63 ∉ path := fun hmem => (h.chars _ hmem).1 rfl

theorem eq_cons : path = 47 :: path.tail := by
  have hhead := h.head
  cases path with
  | nil => cases hhead
  | cons c path => rw [Option.some.inj hhead, tail_cons]

theorem cleanPath_iff : CleanPath path ↔ CleanAfter path.tail ∧ CleanPath path.tail := by
  nth_rewrite 1 [h.eq_cons]
  exact afterEach_cons_self

theorem normalized_iff {basic : Bytes} :
    NormalizedUrl basic (path ++ query) (queryIndex (path ++ query)) ↔ CleanPath path ∧ query = urlQuery basic := by
  refine ⟨fun hnorm => ⟨urlPath_append h.notMem h.mark ▸ hnorm.path, urlQuery_append h.notMem h.mark ▸ hnorm.query⟩, ?_⟩
  rintro ⟨hclean, hquery⟩
  exact ⟨rfl, by rwa [urlPath_append h.notMem h.mark], by rwa [urlQuery_append h.notMem h.mark]⟩

/-- The length of the path according to the index. -/
theorem pathLength (after : Bytes) :
    (Url.mk (path ++ query) after (queryIndex (path ++ query))).pathLength = path.length := by
  rw [Url.pathLength, queryIndex_append h.notMem h.mark]
  rcases h.mark with rfl | ⟨rest, rfl⟩ <;> simp

theorem simplify : Parts (pathSimplify path) query := by
  have hne : path ≠ [] := by rw [h.eq_cons]; simp
  refine ⟨fun c hc => ?_, (simplified_pathSimplify hne).head?, h.mark⟩
  rcases subset_pathSimplify hc with hc | rfl
  · exact h.chars c hc
  · decide

theorem cleanPath_simplify : CleanPath (pathSimplify path) :=
  (simplified_pathSimplify (by rw [h.eq_cons]; simp)).cleanPath

theorem decode2f_eq_cons : decode2f path = 47 :: decode2f path.tail := by
  nth_rewrite 1 [h.eq_cons]
  rw [decode2f, replaceEscape, if_neg (by simp), if_neg (by simp [slash2f, cons_prefix_cons])]

theorem decode2f : Parts (decode2f path) query := by
  refine ⟨fun c hc => ?_, by rw [h.decode2f_eq_cons]; rfl, h.mark⟩
  rcases subset_replaceEscape _ hc with hc | rfl
  · exact h.chars c hc
  · decide

/-- The query or the NUL ends the path. -/
theorem head?_rest (hafter : after.head? = some 0) :
    (query ++ after).head? = some 63 ∨ (query ++ after).head? = some 0 := by
  rcases h.mark with rfl | ⟨rest, rfl⟩
  · exact .inr hafter
  · exact .inl rfl

/-- What `burl_normalize_path` finds when the index is right. -/
theorem dotSegment_iff (hafter : after.head? = some 0) :
    dotSegment path.length path.length (path ++ query ++ after) = true ↔ ¬ CleanPath path.tail := by
  rw [append_assoc]
  exact Lighttpd.dotSegment_iff h.chars h.head (h.head?_rest hafter)

theorem normalizePath_of_clean (hafter : after.head? = some 0) (hclean : CleanPath path.tail) :
    normalizePath flags ⟨path ++ query, after, queryIndex (path ++ query)⟩ =
      some ⟨path ++ query, after, queryIndex (path ++ query)⟩ := by
  rw [normalizePath, h.pathLength after, if_neg]
  rw [h.dotSegment_iff hafter]
  exact not_not.2 hclean

theorem normalizePath_of_not_clean (hafter : after.head? = some 0) (hclean : ¬ CleanPath path.tail) :
    normalizePath flags ⟨path ++ query, after, queryIndex (path ++ query)⟩ =
      if flags.pathDotsegReject then some ⟨path ++ query, after, -2⟩
      else some ⟨pathSimplify path ++ query, [0], queryIndex (pathSimplify path ++ query)⟩ := by
  rw [normalizePath, h.pathLength after, if_pos ((h.dotSegment_iff hafter).2 hclean)]
  congr 1
  rw [queryIndex_append h.simplify.notMem h.mark, queryIndex_append h.notMem h.mark]
  rcases h.mark with rfl | ⟨rest, rfl⟩
  · simp
  · simp

/-- The query after its escapes of a space became plus signs. -/
theorem qs20ToPlus (after : Bytes) : ∃ query', Parts path query' ∧ (query' = query ↔ ¬ space20 <:+: query) ∧
    qs20ToPlus ⟨path ++ query, after, queryIndex (path ++ query)⟩ = ⟨path ++ query', after, queryIndex (path ++ query')⟩ := by
  rcases h.mark with rfl | ⟨rest, rfl⟩
  · refine ⟨[], h, by simp [space20], ?_⟩
    rw [Lighttpd.qs20ToPlus, if_pos]
    simp [queryIndex_of_notMem h.notMem]
  · have hparts : Parts path (63 :: toPlus rest) := ⟨h.chars, h.head, .inr ⟨_, rfl⟩⟩
    refine ⟨63 :: toPlus rest, hparts, ?_, ?_⟩
    · rw [infix_cons_iff, List.cons.injEq]
      have hno : ¬ space20 <+: 63 :: rest := by simp [space20, cons_prefix_cons]
      by_cases hinf : space20 <:+: rest
      · have hlt : (toPlus rest).length + 2 ≤ rest.length := length_replaceEscape_lt rfl hinf
        simp only [hno, hinf, or_true, not_true_eq_false, iff_false, true_and]
        intro heq
        rw [heq] at hlt
        omega
      · simp [hno, hinf, toPlus, replaceEscape_eq_self hinf]
    · rw [queryIndex_append_cons h.notMem, queryIndex_append_cons h.notMem, Lighttpd.qs20ToPlus]
      simp only [Int.toNat_natCast]
      have hlength : path.length + 1 = (path ++ [63]).length := by simp
      rw [hlength, show path ++ 63 :: rest = path ++ [63] ++ rest by simp, take_left, drop_left]
      simp

end

end Parts

/-! ## The decoding of slashes -/

variable {flags : UrlFlags} {basic : Bytes}

/-- The URL in its buffer after the pass that decodes `%2F`. -/
def slashed (flags : UrlFlags) (basic : Bytes) : Url :=
  if flags.path2fDecode || flags.path2fReject then toSlash flags ⟨basic, [0], queryIndex basic⟩ else ⟨basic, [0], queryIndex basic⟩

theorem toSlash_basic (h : Parts (urlPath basic) (urlQuery basic)) :
    toSlash flags ⟨basic, [0], queryIndex basic⟩ =
      if slash2f <:+: urlPath basic then
        if flags.path2fDecode then
          ⟨decode2f (urlPath basic) ++ urlQuery basic,
            0 :: (basic ++ [0]).drop ((decode2f (urlPath basic) ++ urlQuery basic).length + 1), queryIndex basic⟩
        else ⟨basic, [0], -2⟩
      else ⟨basic, [0], queryIndex basic⟩ := by
  have hlength := h.pathLength [0]
  have happend := urlPath_append_urlQuery basic
  rw [happend] at hlength
  have htake : (urlPath basic ++ urlQuery basic).take (urlPath basic).length = urlPath basic := take_left
  rw [happend] at htake
  rw [toSlash, toSlashFix, hlength]
  simp only [htake]
  rfl

/-- The query begins where the index says, unless the path became shorter before it. -/
theorem slashed_cases (h : Parts (urlPath basic) (urlQuery basic)) (hqs : (slashed flags basic).qs ≠ -2) :
    (Shifted flags basic ∧ ∃ after, after.head? = some 0 ∧
      slashed flags basic = ⟨decode2f (urlPath basic) ++ urlQuery basic, after, (urlPath basic).length⟩) ∨
    (¬ Shifted flags basic ∧ ∃ after, after.head? = some 0 ∧
      slashed flags basic = ⟨decodedPath flags basic ++ urlQuery basic, after, queryIndex (decodedPath flags basic ++ urlQuery basic)⟩) := by
  have happend := urlPath_append_urlQuery basic
  have hindex : queryIndex basic = if urlQuery basic = [] then -1 else ((urlPath basic).length : Int) := by
    rw [← queryIndex_append h.notMem h.mark, happend]
  unfold slashed at hqs ⊢
  unfold Shifted decodedPath
  rw [toSlash_basic h] at hqs ⊢
  by_cases hinf : slash2f <:+: urlPath basic
  · by_cases hdecode : flags.path2fDecode = true
    · simp only [hdecode, hinf, Bool.true_or, if_true, true_and, not_not]
      by_cases hquery : urlQuery basic = []
      · rw [hindex, queryIndex_append h.decode2f.notMem h.mark, if_pos hquery, if_pos hquery]
        exact .inr ⟨hquery, _, rfl, rfl⟩
      · rw [hindex, if_neg hquery]
        exact .inl ⟨hquery, _, rfl, rfl⟩
    · simp only [hdecode, hinf, Bool.false_or, if_true, Bool.false_eq_true, false_and, not_false_eq_true, true_and, if_false] at hqs ⊢
      split at hqs
      · exact absurd rfl hqs
      · rename_i hreject
        refine .inr ⟨[0], rfl, ?_⟩
        rw [if_neg hreject, happend]
  · have hpath : (if flags.path2fDecode = true then decode2f (urlPath basic) else urlPath basic) = urlPath basic := by
      rw [decode2f, replaceEscape_eq_self hinf, ite_self]
    simp only [hinf, false_and, and_false, not_false_eq_true, true_and, if_false, ite_self, hpath]
    exact .inr ⟨[0], rfl, by rw [happend]⟩

theorem parts_decodedPath (flags : UrlFlags) (h : Parts (urlPath basic) (urlQuery basic)) : Parts (decodedPath flags basic) (urlQuery basic) := by
  unfold decodedPath
  split
  · exact h.decode2f
  · exact h

/-! ## The rest of the passes -/

/-- The pass over the query. -/
def lastPass (flags : UrlFlags) (url : Url) : Url := if url.qs = -2 then url else if flags.query20Plus then qs20ToPlus url else url

/-- The passes after the decoding of slashes. -/
theorem normalizeUrl_eq (hctrls : ¬ (flags.ctrlsReject && containsCtrls basic) = true)
    (hdots : (flags.pathDotsegRemove || flags.pathDotsegReject) = true) :
    normalizeUrl flags ⟨basic, [0], queryIndex basic⟩ =
      if (slashed flags basic).qs = -2 then some (slashed flags basic)
      else (normalizePath flags (slashed flags basic)).map (lastPass flags) := by
  rw [normalizeUrl, if_neg hctrls, slashed]
  simp only [hdots, if_true]
  generalize (if (flags.path2fDecode || flags.path2fReject) = true then toSlash flags ⟨basic, [0], queryIndex basic⟩
    else ⟨basic, [0], queryIndex basic⟩) = url
  split
  · rfl
  · cases normalizePath flags url with
    | none => rfl
    | some url =>
      simp only [map_some, lastPass]
      by_cases hqs : url.qs = -2 <;> simp only [hqs, if_true, if_false]

theorem queryIndex_ne (text : Bytes) : queryIndex text ≠ -2 := by
  unfold queryIndex
  split <;> omega

/-- The pass over the query of a URL with the right index. -/
theorem normalized_lastPass_iff {path after : Bytes} (h : Parts path (urlQuery basic)) {url : Url}
    (hurl : url = ⟨path ++ urlQuery basic, after, queryIndex (path ++ urlQuery basic)⟩) :
    NormalizedUrl basic (lastPass flags url).text (lastPass flags url).qs ↔
      CleanPath path ∧ (flags.query20Plus = true → ¬ space20 <:+: urlQuery basic) := by
  subst hurl
  rw [lastPass, if_neg (queryIndex_ne _)]
  split
  · rename_i hplus
    obtain ⟨query', hparts, hquery, heq⟩ := h.qs20ToPlus after
    rw [heq, hparts.normalized_iff, hquery]
    simp [hplus]
  · rename_i hplus
    rw [h.normalized_iff]
    simp [hplus]

theorem normalized_iff_of_not_shifted (h : Parts (urlPath basic) (urlQuery basic)) (hshift : ¬ Shifted flags basic)
    (hqs : (slashed flags basic).qs ≠ -2) :
    ∃ url, normalizePath flags (slashed flags basic) = some url ∧ ((lastPass flags url).qs ≠ -2 →
      (NormalizedUrl basic (lastPass flags url).text (lastPass flags url).qs ↔ Proper flags basic)) := by
  obtain ⟨hshifted, -⟩ | ⟨-, after, hafter, hslashed⟩ := slashed_cases h hqs
  · exact absurd hshifted hshift
  have hparts := parts_decodedPath flags h
  rw [hslashed]
  by_cases hclean : CleanPath (decodedPath flags basic).tail
  · refine ⟨_, hparts.normalizePath_of_clean hafter hclean, fun _ => ?_⟩
    rw [normalized_lastPass_iff hparts rfl, hparts.cleanPath_iff]
    exact ⟨fun ⟨hfirst, hquery⟩ => ⟨hshift, .inl hfirst.1, hquery⟩,
      fun hproper => ⟨⟨hproper.first.resolve_right (not_not.2 hclean), hclean⟩, hproper.query⟩⟩
  · rw [hparts.normalizePath_of_not_clean hafter hclean]
    split
    · exact ⟨_, rfl, fun hne => absurd rfl hne⟩
    · refine ⟨_, rfl, fun _ => ?_⟩
      rw [normalized_lastPass_iff hparts.simplify rfl]
      exact ⟨fun hnorm => ⟨hshift, .inr hclean, hnorm.2⟩, fun hproper => ⟨hparts.cleanPath_simplify, hproper.query⟩⟩

/-- The pass leaves the index and what is before it, and does not make the text longer. -/
theorem lastPass_spec (flags : UrlFlags) (url : Url) :
    (lastPass flags url).qs = url.qs ∧ (lastPass flags url).text.length ≤ max url.text.length (url.qs.toNat + 1) ∧
      ∀ l, l <+: url.text → l.length ≤ url.qs.toNat + 1 → l <+: (lastPass flags url).text := by
  unfold lastPass
  split
  · exact ⟨rfl, le_max_left _ _, fun _ h _ => h⟩
  · split
    · unfold qs20ToPlus
      split
      · exact ⟨rfl, le_max_left _ _, fun _ h _ => h⟩
      · split
        · refine ⟨rfl, ?_, fun l h hle => prefix_take_iff.2 ⟨h.trans (prefix_append _ _), hle⟩⟩
          rw [length_take]
          omega
        · refine ⟨rfl, ?_, fun l h hle => (prefix_take_iff.2 ⟨h, hle⟩).trans (prefix_append _ _)⟩
          have hle : (toPlus (url.text.drop (url.qs.toNat + 1))).length ≤ (url.text.drop (url.qs.toNat + 1)).length :=
            length_replaceEscape_le 0
          rw [length_drop] at hle
          rw [length_append, length_take]
          omega
    · exact ⟨rfl, le_max_left _ _, fun _ h _ => h⟩

@[simp] theorem qs_lastPass (url : Url) : (lastPass flags url).qs = url.qs := (lastPass_spec flags url).1

/-- A URL whose path became shorter before the query has the wrong index or has lost a part of its query. -/
theorem not_normalized_of_shifted (h : Parts (urlPath basic) (urlQuery basic)) (hshift : Shifted flags basic)
    (hqs : (slashed flags basic).qs ≠ -2) {url : Url} (hresult : normalizePath flags (slashed flags basic) = some url) (hne : (lastPass flags url).qs ≠ -2) :
    ¬ NormalizedUrl basic (lastPass flags url).text (lastPass flags url).qs := by
  obtain ⟨-, after, hafter, hslashed⟩ | ⟨hno, -⟩ := slashed_cases h hqs
  swap
  · exact absurd hshift hno
  have hlt : (decode2f (urlPath basic)).length + 2 ≤ (urlPath basic).length := length_replaceEscape_lt rfl hshift.2.1
  have hparts := h.decode2f
  obtain ⟨rest, hrest⟩ := h.mark.resolve_left hshift.2.2
  generalize decode2f (urlPath basic) = path at *
  rw [hslashed, normalizePath] at hresult
  simp only [Int.toNat_natCast] at hresult
  intro hnorm
  split at hresult
  · split at hresult
    · cases hresult
      simp [lastPass] at hne
    · split at hresult
      · omega
      · split at hresult
        · cases hresult
        · -- a part of the query has been taken for path
          rename_i hlength
          cases hresult
          generalize pathSimplify _ = simplified at *
          have hindex := hnorm.index
          rw [qs_lastPass, queryIndex] at hindex
          have hlost := congrArg List.length hnorm.query
          obtain ⟨-, hle, -⟩ := lastPass_spec flags ⟨simplified ++ (path ++ urlQuery basic).drop (urlPath basic).length, [0], simplified.length⟩
          generalize lastPass flags _ = final at *
          have hpath : (urlPath final.text).length = simplified.length := by
            simp only at hindex
            split at hindex <;> omega
          rw [urlQuery, length_drop, hpath] at hlost
          simp only [length_append, length_drop, Int.toNat_natCast] at hle hlength
          omega
  · -- the index is that of the query before the path became shorter
    cases hresult
    obtain ⟨more, hmore⟩ : path ++ [63] <+: (lastPass flags ⟨path ++ urlQuery basic, after, (urlPath basic).length⟩).text :=
      (lastPass_spec flags _).2.2 _ ⟨rest, by simp [hrest]⟩ (by simp only [length_append, length_singleton, Int.toNat_natCast]; omega)
    have hindex := hnorm.index
    rw [← hmore, append_assoc, singleton_append, queryIndex_append_cons hparts.notMem, qs_lastPass] at hindex
    simp only at hindex
    omega

/-- The parts of a percent-normalised URL. -/
theorem parts_basic (flags : UrlFlags) {url : Bytes} (hslash : url.head? = some 47) :
    Parts (urlPath (normalizeBasic flags url).1) (urlQuery (normalizeBasic flags url).1) := by
  have hhead : (normalizeBasic flags url).1.head? = some 47 := head?_normalizeBasic hslash
  have hnul := (basic_normalizeBasic flags url).nul
  generalize (normalizeBasic flags url).1 = basic at hhead hnul
  refine ⟨fun c hc => ⟨fun h => notMem_firstSegment (h ▸ hc), fun h => hnul ?_⟩, ?_, urlQuery_eq _⟩
  · rw [← urlPath_append_urlQuery basic, ← h]
    exact mem_append_left _ hc
  · cases basic with
    | nil => cases hhead
    | cons c basic =>
      obtain rfl : c = 47 := Option.some.inj hhead
      rw [urlPath, firstSegment, takeWhile_cons_of_pos (by decide), List.head?_cons]

/-! ## The result -/

variable {url : Bytes}

/-- The tests that come before the one for segments to remove, and reject the URL. -/
structure Accepted (flags : UrlFlags) (url : Bytes) : Prop where
  utf8 : (normalizeBasic flags url).2 ≠ -2
  ctrls : ¬ (flags.ctrlsReject && containsCtrls (normalizeBasic flags url).1) = true
  slashes : (slashed flags (normalizeBasic flags url).1).qs ≠ -2

/-- What is left to do for a URL that is not rejected. -/
theorem burlNormalize_of_accepted (hdots : (flags.pathDotsegRemove || flags.pathDotsegReject) = true) (h : Accepted flags url) :
    burlNormalize flags url = (normalizePath flags (slashed flags (normalizeBasic flags url).1)).map fun result =>
      ((lastPass flags result).text, (lastPass flags result).qs) := by
  have hindex := (basic_normalizeBasic flags url).index_eq h.utf8
  unfold burlNormalize
  simp only
  rw [if_neg h.utf8, hindex, normalizeUrl_eq h.ctrls hdots, if_neg h.slashes, Option.map_map]
  rfl

theorem burlNormalize_of_not_accepted (hdots : (flags.pathDotsegRemove || flags.pathDotsegReject) = true) (h : ¬ Accepted flags url) :
    ∃ text, burlNormalize flags url = some (text, -2) := by
  unfold burlNormalize
  simp only
  by_cases hutf8 : (normalizeBasic flags url).2 = -2
  · exact ⟨_, by rw [if_pos hutf8]⟩
  · have hindex := (basic_normalizeBasic flags url).index_eq hutf8
    rw [if_neg hutf8, hindex]
    by_cases hctrls : (flags.ctrlsReject && containsCtrls (normalizeBasic flags url).1) = true
    · exact ⟨_, by rw [normalizeUrl, if_pos hctrls]; rfl⟩
    · have hslashes : (slashed flags (normalizeBasic flags url).1).qs = -2 := by
        by_contra hslashes
        exact h ⟨hutf8, hctrls, hslashes⟩
      exact ⟨_, by rw [normalizeUrl_eq hctrls hdots, if_pos hslashes, map_some, hslashes]⟩

/-- The reasons to reject a percent-normalised URL that are not segments of its path: an escape of a byte that is not in UTF-8, one of a
control character, and one of a slash in the path. -/
def RefusedUrl (flags : UrlFlags) (basic : Bytes) : Prop :=
  BadUtf8 basic ∨ (flags.ctrlsReject = true ∧ containsCtrls basic = true) ∨
    (flags.path2fReject = true ∧ flags.path2fDecode = false ∧ slash2f <:+: urlPath basic)

theorem refused_of_not_accepted (hslash : url.head? = some 47) (h : ¬ Accepted flags url) :
    RefusedUrl flags (normalizeBasic flags url).1 := by
  by_contra hno
  simp only [RefusedUrl, not_or] at hno
  obtain ⟨hutf8, hctrls, hslashes⟩ := hno
  refine h ⟨fun hqs => ?_, by simpa using hctrls, ?_⟩
  · rcases (basic_normalizeBasic flags url).index with hbad | hindex
    · exact hutf8 hbad.2
    · exact queryIndex_ne _ (hindex.symm.trans hqs)
  · unfold slashed
    rw [toSlash_basic (parts_basic flags hslash)]
    split_ifs with hpass hinf hdecode
    · exact queryIndex_ne _
    · simp [hdecode] at hpass hslashes
      exact absurd hinf (hslashes hpass)
    · exact queryIndex_ne _
    · exact queryIndex_ne _

/-- A segment to remove that is not after the first slash is found. Where the path became shorter the search goes beyond it. -/
theorem dotSegment_slashed (h : Parts (urlPath basic) (urlQuery basic)) (hqs : (slashed flags basic).qs ≠ -2)
    (hbad : ¬ CleanPath (decodedPath flags basic).tail) :
    dotSegment (slashed flags basic).pathLength (slashed flags basic).pathLength
      ((slashed flags basic).text ++ (slashed flags basic).after) = true := by
  obtain ⟨hshift, after, hafter, hslashed⟩ | ⟨-, after, hafter, hslashed⟩ := slashed_cases h hqs
  · rw [decodedPath, if_pos hshift.1] at hbad
    have hlength : (slashed flags basic).pathLength = (urlPath basic).length := by simp [hslashed, Url.pathLength]
    rw [hlength, hslashed]
    exact dotSegment_mono (length_replaceEscape_le 0) ((h.decode2f.dotSegment_iff hafter).2 hbad)
  · have hparts := parts_decodedPath flags h
    rw [hslashed, hparts.pathLength after]
    exact (hparts.dotSegment_iff hafter).2 hbad

/-- Segments are removed, and `%2F` is decoded. -/
def removeFlags : UrlFlags := ⟨false, true, true, false, true, false, false⟩

/-- URLs with a segment to remove are rejected, and `%2F` is decoded. -/
def rejectFlags : UrlFlags := ⟨false, true, true, false, false, true, false⟩

end Osp.Lighttpd
