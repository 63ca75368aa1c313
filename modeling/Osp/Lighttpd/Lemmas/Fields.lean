import Osp.Lighttpd.Lemmas.Request

/-!
# What the parser stores of the fields

For a name that the parser does not drop values of, the value that it stores is a function of the fields with that name:
`storedValue`. The first value that is not empty is stored; what a later line adds to it begins with white space or has a comma and a
space before it.
-/

namespace Osp.Lighttpd

open Osp.Lib Headers List

variable {conf : Conf} {strict : Bool} {name : Bytes} {lines : List Line} {fields : List Field}

/-! ## Values without NUL -/

variable {bytes rest value value' key : Bytes}

/-- The loop adds bytes that are not NUL to the value. -/
theorem append_of_scanValue (h : scanValue strict value bytes = some (value', rest)) :
    ∃ added, value' = value ++ added ∧ 0 ∉ added := by
  induction bytes generalizing value with
  | nil => cases h
  | cons c bytes ih =>
    have hmore (hc : c ≠ 0) (h : scanValue strict (value ++ [c]) bytes = some (value', rest)) :
        ∃ added, value' = value ++ added ∧ 0 ∉ added := by
      obtain ⟨added, rfl, hadded⟩ := ih h
      exact ⟨c :: added, append_assoc .., by simp [hadded, hc.symm]⟩
    unfold scanValue at h
    split at h
    · split at h <;> cases h
      exact ⟨[], by simp⟩
    · split at h
      · split at h <;> cases h
        exact ⟨[], by simp⟩
      · split at h
        · rename_i hblank
          refine hmore ?_ h
          rintro rfl
          exact absurd hblank (by decide)
        · split at h
          · cases h
          · rename_i hvalid
            refine hmore ?_ h
            rintro rfl
            cases strict <;> exact hvalid (by decide)

theorem mem_of_mem_stripBlanks {c : UInt8} (h : c ∈ stripBlanks value) : c ∈ value := by
  have h := (dropWhile_sublist _).subset (mem_reverse.1 h)
  exact (dropWhile_sublist _).subset (mem_reverse.1 h)

theorem stripBlanks_eq_nil : stripBlanks value = [] ↔ ∀ c ∈ value, isBlank c = true := by
  rw [stripBlanks, reverse_eq_nil_iff, dropWhile_eq_nil_iff]
  constructor
  · intro h c hc
    by_contra hblank
    have hne : value.dropWhile isBlank ≠ [] := fun hnil => hblank (dropWhile_eq_nil_iff.1 hnil c hc)
    obtain ⟨d, rest, hd⟩ := exists_cons_of_ne_nil hne
    have hnot := head_dropWhile_not isBlank hne
    simp only [hd, head_cons] at hnot
    exact absurd (h d (by simp [hd])) (by simp [hnot])
  · exact fun h c hc => h c ((dropWhile_sublist _).subset (mem_reverse.1 hc))

theorem stripBlanks_of_forall (h : ∀ c ∈ value, isBlank c = false) : stripBlanks value = value := by
  have hdrop (l : Bytes) (hl : ∀ c ∈ l, isBlank c = false) : l.dropWhile isBlank = l := by
    cases l with
    | nil => rfl
    | cons c l => exact dropWhile_cons_of_neg (by simp [hl c mem_cons_self])
  rw [stripBlanks, hdrop value h, hdrop _ fun c hc => h c (mem_reverse.1 hc), reverse_reverse]

/-- A field without NUL bytes whose continuation, if it has one, begins with white space. -/
structure Field.Proper (field : Field) : Prop where
  value : 0 ∉ field.value
  folded : 0 ∉ field.folded
  blank : field.folded ≠ [] → ∃ c ∈ field.folded, isBlank c = true

theorem proper_splitFields
    (hfield : ∀ key value, Line.field key value ∈ lines → 0 ∉ value)
    (hcontinuation : ∀ value, Line.continuation value ∈ lines → 0 ∉ value ∧ ∃ c ∈ value, isBlank c = true) :
    (0 ∉ (splitFields lines).1 ∧ ((splitFields lines).1 ≠ [] → ∃ c ∈ (splitFields lines).1, isBlank c = true)) ∧
      ∀ field ∈ (splitFields lines).2, field.Proper := by
  induction lines with
  | nil => exact ⟨⟨by simp [splitFields], by simp [splitFields]⟩, by simp [splitFields]⟩
  | cons line lines ih =>
    obtain ⟨⟨hzero, hblank⟩, hproper⟩ := ih (fun key value h => hfield key value (mem_cons_of_mem _ h))
      fun value h => hcontinuation value (mem_cons_of_mem _ h)
    cases line with
    | field key value =>
      refine ⟨⟨by simp [splitFields], by simp [splitFields]⟩, fun field hmem => ?_⟩
      rcases mem_cons.1 hmem with rfl | hmem
      · exact ⟨hfield key value mem_cons_self, hzero, hblank⟩
      · exact hproper field hmem
    | continuation value =>
      obtain ⟨hvalue, c, hc, hcblank⟩ := hcontinuation value mem_cons_self
      refine ⟨⟨by simp [splitFields, hvalue, hzero], fun _ => ⟨c, ?_, hcblank⟩⟩, hproper⟩
      simp [splitFields, hc]

/-! ## Continuations -/

theorem blank_of_folding (h : scanKey strict key bytes = .folding rest) :
    ∃ c tail, rest = c :: tail ∧ isBlank c = true := by
  induction bytes generalizing key with
  | nil => cases h
  | cons c bytes ih =>
    unfold scanKey at h
    split at h
    · cases h
    · split at h
      · cases h
      · split at h
        · rename_i hblank
          split at h
          · cases h
            exact ⟨c, bytes, rfl, hblank⟩
          · split at h <;> cases h
        · split at h
          · split at h <;> cases h
          · split at h
            · cases h
            · split at h
              · cases h
              · split at h
                · cases h
                · exact ih h

/-- A continuation has white space. -/
theorem exists_blank_of_folding {key value rest' : Bytes} (hfold : scanKey strict key bytes = .folding rest)
    (hvalue : scanValue strict [] rest = some (value, rest')) : ∃ c ∈ value, isBlank c = true := by
  obtain ⟨c, tail, rfl, hblank⟩ := blank_of_folding hfold
  have h13 : c ≠ 13 := by
    rintro rfl
    exact absurd hblank (by decide)
  have h10 : c ≠ 10 := by
    rintro rfl
    exact absurd hblank (by decide)
  simp only [scanValue, h13, h10, hblank, if_true, if_false] at hvalue
  obtain ⟨added, rfl, -⟩ := append_of_scanValue hvalue
  exact ⟨c, by simp, hblank⟩

theorem proper_headerLines (n : Nat) (bytes : Bytes) :
    ∀ field ∈ (splitFields (headerLines strict n bytes)).2, field.Proper := by
  have hlines : (∀ key value, Line.field key value ∈ headerLines strict n bytes → 0 ∉ value) ∧
      ∀ value, Line.continuation value ∈ headerLines strict n bytes → 0 ∉ value ∧ ∃ c ∈ value, isBlank c = true := by
    induction n generalizing bytes with
    | zero => exact ⟨by simp [headerLines], by simp [headerLines]⟩
    | succ n ih =>
      unfold headerLines
      split
      · simp
      · simp
      · rename_i hkey
        split
        · simp
        · rename_i hvalue
          refine ⟨fun key value hmem => ?_, fun value hmem => ?_⟩
          · exact (ih _).1 key value (by simpa using hmem)
          · rcases mem_cons.1 hmem with hline | hmem
            · cases hline
              obtain ⟨_, rfl, hzero⟩ := append_of_scanValue hvalue
              exact ⟨hzero, exists_blank_of_folding hkey hvalue⟩
            · exact (ih _).2 value hmem
      · split
        · simp
        · rename_i hvalue
          refine ⟨fun key value hmem => ?_, fun value hmem => ?_⟩
          · rcases mem_cons.1 hmem with hline | hmem
            · cases hline
              obtain ⟨_, rfl, hzero⟩ := append_of_scanValue hvalue
              exact fun h => hzero (mem_of_mem_stripBlanks h)
            · exact (ih _).1 key value hmem
          · exact (ih _).2 value (by simpa using hmem)
  exact (proper_splitFields hlines.1 hlines.2).2

theorem proper_requestFields (con : Con) : ∀ field ∈ requestFields conf con, field.Proper := by
  unfold requestFields requestLines
  split
  · simp [splitFields]
  · split
    · exact proper_headerLines _ _
    · simp [splitFields]

/-! ## Stored values -/

namespace Field

/-- The value that is stored after a field. -/
def store (old : Option Bytes) (field : Field) : Option Bytes :=
  (if field.value = [] then old else some (joined old field.value)).map (· ++ field.folded)

/-- What a field adds to a value that is stored. -/
def appended (field : Field) : Bytes := (if field.value = [] then [] else textBytes ", " ++ field.value) ++ field.folded

variable {field : Field}

theorem appended_eq_nil : field.appended = [] ↔ field.value = [] ∧ field.folded = [] := by
  have hcomma : textBytes ", " ≠ [] := by decide
  by_cases h : field.value = [] <;> simp [appended, h, hcomma]

theorem Proper.exists_blank (h : field.Proper) (hne : field.appended ≠ []) :
    ∃ c ∈ field.appended, isBlank c = true := by
  by_cases hvalue : field.value = []
  · obtain ⟨c, hc, hblank⟩ := h.blank fun hfolded => hne (appended_eq_nil.2 ⟨hvalue, hfolded⟩)
    exact ⟨c, by simp [appended, hc], hblank⟩
  · exact ⟨32, by simp [appended, hvalue, textBytes], by decide⟩

end Field

/-- The value that is stored of fields with one name. -/
def storedValue (fields : List Field) : Option Bytes :=
  match fields.dropWhile (·.value = []) with
  | [] => none
  | field :: rest => some (field.value ++ field.folded ++ rest.flatMap Field.appended)

variable {a b stored : Bytes}

theorem foldl_store_some (h : stored ≠ []) :
    fields.foldl Field.store (some stored) = some (stored ++ fields.flatMap Field.appended) := by
  induction fields generalizing stored with
  | nil => simp
  | cons field fields ih =>
    have hstep : Field.store (some stored) field = some (stored ++ field.appended) := by
      by_cases hvalue : field.value = [] <;> simp [Field.store, Field.appended, joined, hvalue]
    rw [foldl_cons, hstep, ih (by simp [h]), flatMap_cons, append_assoc]

theorem foldl_store_none : fields.foldl Field.store none = storedValue fields := by
  induction fields with
  | nil => rfl
  | cons field fields ih =>
    rw [foldl_cons, storedValue]
    by_cases hvalue : field.value = []
    · rw [dropWhile_cons_of_pos (by simpa using hvalue)]
      simp only [Field.store, hvalue, if_true, Option.map_none]
      exact ih
    · rw [dropWhile_cons_of_neg (by simpa using hvalue)]
      simp only [Field.store, hvalue, if_false, Option.map_some, joined]
      exact foldl_store_some (by simp [hvalue])

/-- A stored value without white space is the value of one line, and no other line adds to it. -/
theorem storedValue_eq_some (hproper : ∀ field ∈ fields, field.Proper) (h : storedValue fields = some stored)
    (hblank : ∀ c ∈ stored, isBlank c = false) :
    ∃ before field rest, fields = before ++ field :: rest ∧ fields.dropWhile (·.value = []) = field :: rest ∧
      (∀ field ∈ before, field.value = []) ∧ field.value = stored ∧ field.folded = [] ∧
      ∀ field ∈ rest, field.value = [] ∧ field.folded = [] := by
  unfold storedValue at h
  cases hdrop : fields.dropWhile (·.value = []) with
  | nil => simp [hdrop] at h
  | cons field rest =>
    simp only [hdrop, Option.some.injEq] at h
    have hfields : fields = fields.takeWhile (·.value = []) ++ field :: rest := by rw [← hdrop, takeWhile_append_dropWhile]
    have hmem (f : Field) (hf : f ∈ field :: rest) : f.Proper := hproper f (by rw [hfields]; exact mem_append_right _ hf)
    have hfolded : field.folded = [] := by
      by_contra hne
      obtain ⟨c, hc, hcblank⟩ := (hmem field mem_cons_self).blank hne
      have := hblank c (by simp [← h, hc])
      simp [hcblank] at this
    have hrest (f : Field) (hf : f ∈ rest) : f.appended = [] := by
      by_contra hne
      obtain ⟨c, hc, hcblank⟩ := (hmem f (mem_cons_of_mem _ hf)).exists_blank hne
      have := hblank c (by rw [← h]; exact mem_append_right _ (mem_flatMap.2 ⟨f, hf, hc⟩))
      simp [hcblank] at this
    refine ⟨_, field, rest, hfields, rfl, fun f hf => ?_, ?_, hfolded, fun f hf => Field.appended_eq_nil.1 (hrest f hf)⟩
    · simpa using mem_takeWhile_imp hf
    · rw [← h, hfolded, flatMap_eq_nil_iff.2 hrest]
      simp

theorem cString_storedValue (hproper : ∀ field ∈ fields, field.Proper) (h : storedValue fields = some stored) :
    cString stored = stored := by
  have hzero : 0 ∉ stored := by
    unfold storedValue at h
    split at h
    · cases h
    · rename_i field rest hdrop
      have hmem (f : Field) (hf : f ∈ field :: rest) : f.Proper :=
        hproper f ((dropWhile_sublist _).subset (by rw [hdrop]; exact hf))
      have hfield := hmem field mem_cons_self
      have hrest : 0 ∉ rest.flatMap Field.appended := by
        rw [mem_flatMap]
        rintro ⟨f, hf, hzero⟩
        have hproper := hmem f (mem_cons_of_mem _ hf)
        have hcomma : 0 ∉ textBytes ", " := by decide
        by_cases hvalue : f.value = [] <;> simp [Field.appended, hvalue, hproper.folded, hproper.value, hcomma] at hzero
      cases h
      simp [hfield.value, hfield.folded, hrest]
  rw [cString, takeWhile_eq_self_iff]
  exact fun c hc => by simpa using ne_of_mem_of_not_mem hc hzero

/-! ## Names -/

theorem caselessCompare_congr {c : Bytes} (h : a.map toLower = b.map toLower) : caselessCompare a c = caselessCompare b c := by
  induction a generalizing b c with
  | nil =>
    obtain rfl : b = [] := by simpa using h.symm
    rfl
  | cons x a ih =>
    cases b with
    | nil => simp at h
    | cons y b =>
      rw [map_cons, map_cons, List.cons.injEq] at h
      cases c with
      | nil => rfl
      | cons z c =>
        have hx : x = z → toLower x = toLower z := congrArg toLower
        have hy : y = z → toLower y = toLower z := congrArg toLower
        simp only [caselessCompare, ih h.2, h.1] at hx hy ⊢
        split_ifs <;> simp_all

theorem compareNames_congr (h : sameName a b = true) (names : List (HeaderKind × String)) :
    compareNames a names = compareNames b names := by
  induction names with
  | nil => rfl
  | cons entry names ih => simp only [compareNames, caselessCompare_congr (sameName_iff.1 h), ih]

theorem headerKind_congr (h : sameName a b = true) : headerKind a = headerKind b := compareNames_congr h _

theorem sameName_of_compareNames {names : List (HeaderKind × String)} (h : compareNames key names ≠ .other) :
    ∃ name, (compareNames key names, name) ∈ names ∧ sameName key (textBytes name) = true := by
  induction names with
  | nil => exact absurd rfl h
  | cons entry names ih =>
    obtain ⟨kind, name⟩ := entry
    simp only [compareNames] at h ⊢
    split at h
    · rename_i hzero
      exact ⟨name, by simp [hzero], by simpa [sameName] using hzero⟩
    · rename_i hzero
      split at h
      · rename_i hpos
        obtain ⟨name', hmem, hsame⟩ := ih h
        exact ⟨name', by simp only [hzero, hpos, if_true, if_false]; exact mem_cons_of_mem _ hmem, hsame⟩
      · exact absurd rfl h

theorem headerKind_eq_contentLength :
    headerKind key = .contentLength ↔ sameName key (textBytes "Content-Length") = true := by
  constructor
  · intro h
    have hne : compareNames key headerNames ≠ .other := by
      rw [← headerKind, h]
      nofun
    obtain ⟨name, hmem, hsame⟩ := sameName_of_compareNames hne
    rw [← headerKind, h] at hmem
    obtain rfl : name = "Content-Length" := by simpa [headerNames] using hmem
    exact hsame
  · intro h
    rw [headerKind_congr h]
    decide

/-- The parser drops no values of this name. -/
def KeepsValues (name : Bytes) : Prop :=
  headerKind name ≠ .host ∧ headerKind name ≠ .ifModifiedSince ∧ headerKind name ≠ .ifNoneMatch

theorem keepsValues_transferEncoding : KeepsValues (textBytes "Transfer-Encoding") := ⟨by decide, by decide, by decide⟩

theorem keepsValues_contentLength : KeepsValues (textBytes "Content-Length") := ⟨by decide, by decide, by decide⟩

/-! ## The parser -/

namespace Parser

variable {p p' : Parser} {key value : Bytes}

/-- The end of a field, as far as one name is concerned. -/
theorem endField_ok (hname : KeepsValues name) (h : p.endField key value = .ok p') :
    p'.key = some key ∧ p'.con.headers.getElement name =
      if sameName key name ∧ value ≠ [] then some (joined (p.con.headers.getElement name) value)
      else p.con.headers.getElement name := by
  unfold endField at h
  split at h
  · rename_i hvalue
    cases h
    simp [hvalue]
  · rename_i hvalue
    refine ⟨(stores_of_storeHeader h).lastKey, ?_⟩
    simp only [ne_eq, hvalue, not_false_eq_true, and_true]
    rcases (stores_of_storeHeader h).headers with hheaders | ⟨hheaders, hkind⟩
    · rw [hheaders]
      cases hsame : sameName key name with
      | true => exact getElement_insertUnique_same hsame
      | false => exact getElement_insertUnique_other hsame
    · have hsame : sameName key name = false := by
        refine Bool.eq_false_iff.2 fun hsame => ?_
        rw [headerKind_congr hsame] at hkind
        obtain hkind | hkind | hkind := hkind
        · exact hname.1 hkind
        · exact hname.2.1 hkind
        · exact hname.2.2 hkind
      rw [hheaders, hsame]
      rfl

/-- The end of a continuation, as far as one name is concerned. -/
theorem endContinuation_ok (h : p.endContinuation value = .ok p') :
    p'.key = p.key ∧ p'.conLengthSet = p.conLengthSet ∧ p'.con.contentLength = p.con.contentLength ∧
      ∀ name, p'.con.headers.getElement name =
        if p.key.any (sameName · name) then (p.con.headers.getElement name).map (· ++ value)
        else p.con.headers.getElement name := by
  unfold endContinuation at h
  split at h
  · cases h
  · cases h
  · rename_i key _ hkey
    cases h
    refine ⟨rfl, rfl, rfl, fun name => ?_⟩
    simp only [hkey, Option.any_some]
    cases hsame : sameName key name with
    | true => exact getElement_update_same hsame
    | false => exact getElement_update_other hsame

/-- The value that is stored for a name after the header lines. -/
theorem getElement_of_foldlM (hname : KeepsValues name) (h : lines.foldlM endLine p = .ok p') :
    p'.con.headers.getElement name = (fieldsNamed name (splitFields lines).2).foldl Field.store
      (if p.key.any (sameName · name) then (p.con.headers.getElement name).map (· ++ (splitFields lines).1)
      else p.con.headers.getElement name) := by
  induction lines generalizing p with
  | nil =>
    cases h
    simp [splitFields, fieldsNamed]
  | cons line lines ih =>
    obtain ⟨p₁, hend, hrest⟩ := bind_eq_ok.1 h
    rw [ih hrest]
    cases line with
    | field key value =>
      obtain ⟨hkey, helement⟩ := endField_ok hname hend
      rw [hkey, helement]
      -- the continuations after the line belong to it
      cases hsame : sameName key name with
      | true =>
        have hfields : fieldsNamed name (splitFields (.field key value :: lines)).2 =
            ⟨key, value, (splitFields lines).1⟩ :: fieldsNamed name (splitFields lines).2 := by
          simp [fieldsNamed, splitFields, hsame]
        rw [hfields, foldl_cons]
        congr 1
        by_cases hvalue : value = [] <;> simp [Field.store, splitFields, hsame, hvalue]
      | false => simp [fieldsNamed, splitFields, hsame]
    | continuation value =>
      obtain ⟨hkey, _, _, helement⟩ := endContinuation_ok hend
      rw [hkey, helement]
      cases p.key.any (sameName · name) <;> simp [splitFields, Function.comp_def]

/-- A field with a value is the first length that is given, or does not change the length. -/
theorem length_of_endField (h : p.endField key value = .ok p') :
    (sameName key (textBytes "Content-Length") = true ∧ value ≠ [] ∧ p.conLengthSet = false ∧ 0 ≤ (strtoll value).1 ∧
      p'.conLengthSet = true ∧ p'.con.contentLength = (strtoll value).1) ∨
    ((sameName key (textBytes "Content-Length") = false ∨ value = []) ∧ p'.conLengthSet = p.conLengthSet ∧
      p'.con.contentLength = p.con.contentLength) := by
  unfold endField at h
  split at h
  · rename_i hvalue
    cases h
    exact .inr ⟨.inr hvalue, rfl, rfl⟩
  · rename_i hvalue
    rcases (stores_of_storeHeader h).length with ⟨hkind, hset, _, hpos, hset', hlength⟩ | ⟨hkind, hset, hlength⟩
    · exact .inl ⟨headerKind_eq_contentLength.1 hkind, hvalue, hset, hpos, hset', hlength⟩
    · exact .inr ⟨.inl (Bool.eq_false_iff.2 fun hsame => hkind (headerKind_eq_contentLength.2 hsame)), hset, hlength⟩

/-- The length stays as it is if no field for it has a value; else it was not known, is that of the first field that has one, and
no other field for it has one. -/
theorem length_of_foldlM (h : lines.foldlM endLine p = .ok p') :
    (p'.con.contentLength = p.con.contentLength ∧
      ∀ field ∈ fieldsNamed (textBytes "Content-Length") (splitFields lines).2, field.value = []) ∨
    p.conLengthSet = false ∧ ∃ field rest,
      (fieldsNamed (textBytes "Content-Length") (splitFields lines).2).dropWhile (·.value = []) = field :: rest ∧
        p'.con.contentLength = (strtoll field.value).1 ∧ 0 ≤ (strtoll field.value).1 ∧ ∀ field ∈ rest, field.value = [] := by
  induction lines generalizing p with
  | nil =>
    cases h
    exact .inl ⟨rfl, by simp [fieldsNamed, splitFields]⟩
  | cons line lines ih =>
    obtain ⟨p₁, hend, hrest⟩ := bind_eq_ok.1 h
    have hlines := ih hrest
    cases line with
    | field key value =>
      rw [fieldsNamed, splitFields, filter_cons]
      rcases length_of_endField hend with ⟨hsame, hvalue, hset, hpos, hset₁, hlength⟩ | ⟨hignored, hset₁, hlength⟩
      · rcases hlines with ⟨hkept, hempty⟩ | ⟨hset₁', -⟩
        · rw [if_pos hsame, dropWhile_cons_of_neg (by simpa using hvalue)]
          exact .inr ⟨hset, _, _, rfl, hkept.trans hlength, hpos, hempty⟩
        · exact absurd (hset₁.symm.trans hset₁') (by decide)
      · rw [hset₁, hlength] at hlines
        by_cases hsame : sameName key (textBytes "Content-Length") = true
        · have hvalue : value = [] := hignored.resolve_left (by simpa using hsame)
          rw [if_pos hsame, forall_mem_cons, dropWhile_cons_of_pos (by simpa using hvalue)]
          exact hlines.imp_left fun ⟨hkept, hempty⟩ => ⟨hkept, hvalue, hempty⟩
        · rw [if_neg hsame]
          exact hlines
    | continuation value =>
      obtain ⟨_, hset₁, hlength, _⟩ := endContinuation_ok hend
      rw [hset₁, hlength] at hlines
      exact hlines

end Parser

end Osp.Lighttpd
