import Osp.Lighttpd.Lemmas.Fields

/-!
# Where the body of a request ends

A request that is accepted is framed by one field: a `Transfer-Encoding` that is `chunked`, or a `Content-Length`. What the parser
stores of the two, which is what a backend is sent, agrees with the length it uses itself, unless a field is continued on a further
line or the length is not written in digits alone.
-/

namespace Osp.Lighttpd

open Osp.Lib List

variable {conf : Conf} {con con' : Con} {fields : List Field}

/-- The framing of a request that was read from the given fields is unambiguous. -/
structure Framed (con : Con) (fields : List Field) : Prop where
  encoding : con.contentLength = -1 → con.httpVersion = .http11 ∧
    (∃ value, givenValues (textBytes "Transfer-Encoding") fields = [value] ∧ value.map toLower = textBytes "chunked") ∧
    ∀ stored, con.headers.getElement (textBytes "Content-Length") = some stored → stored = []
  length : con.contentLength ≠ -1 → ∀ stored, con.headers.getElement (textBytes "Content-Length") = some stored → stored ≠ [] →
    (∀ c ∈ stored, isDigit c = true) ∧ (decimalValue stored : Int) = con.contentLength

/-- No continuation of a `Transfer-Encoding` adds to it if one is given. If none is, the first `Content-Length` with a value is
written in digits and less than `2 ^ 63`, and neither it nor a later one is continued. -/
structure ClearFraming (fields : List Field) : Prop where
  encoding : (∃ field ∈ fieldsNamed (textBytes "Transfer-Encoding") fields, field.value ≠ []) →
    ∀ field ∈ fieldsNamed (textBytes "Transfer-Encoding") fields, ∀ c ∈ field.folded, isBlank c = true
  length : (∀ field ∈ fieldsNamed (textBytes "Transfer-Encoding") fields, field.value = []) →
    ∀ field ∈ (fieldsNamed (textBytes "Content-Length") fields).dropWhile (·.value = []),
      field.folded = [] ∧ (∀ c ∈ field.value, isDigit c = true) ∧ decimalValue field.value < 2 ^ 63

/-! ## The two kinds of framing -/

theorem isBlank_of_isDigit {c : UInt8} (h : isDigit c = true) : isBlank c = false := by
  refine Bool.eq_false_iff.2 fun hblank => ?_
  have hcases : c = 32 ∨ c = 9 := by simpa [isBlank] using hblank
  rcases hcases with rfl | rfl <;> exact absurd h (by decide)

variable {stored : Bytes} {con₁ : Con} {host : Option Bytes} {p : Parser}

theorem isBlank_of_chunked (h : stored.map toLower = textBytes "chunked") :
    ∀ c ∈ stored, isBlank c = false := by
  refine fun c hc => Bool.eq_false_iff.2 fun hblank => ?_
  have hmem : toLower c ∈ textBytes "chunked" := h ▸ mem_map_of_mem hc
  have hcases : c = 32 ∨ c = 9 := by simpa [isBlank] using hblank
  rcases hcases with rfl | rfl <;> exact absurd hmem (by decide)

theorem storedValue_eq_none : storedValue fields = none ↔ ∀ field ∈ fields, field.value = [] := by
  unfold storedValue
  cases hdrop : fields.dropWhile (·.value = []) with
  | nil => simpa using dropWhile_eq_nil_iff.1 hdrop
  | cons field rest =>
    simp only [reduceCtorEq, false_iff]
    intro h
    have hnil : fields.dropWhile (·.value = []) = [] := dropWhile_eq_nil_iff.2 fun f hf => by simpa using h f hf
    exact absurd (hdrop.symm.trans hnil) (by nofun)

/-- If the stored encoding is `chunked`, it is the only one that was given exactly if no continuation adds to one. -/
theorem given_chunked_iff (hproper : ∀ field ∈ fields, field.Proper) (hstored : storedValue fields = some stored)
    (hchunked : stored.map toLower = textBytes "chunked") :
    (∃ value, (fields.map Field.fullValue).filter (· ≠ []) = [value] ∧ value.map toLower = textBytes "chunked") ↔
      ∀ field ∈ fields, ∀ c ∈ field.folded, isBlank c = true := by
  have hblank := isBlank_of_chunked hchunked
  have hne : stored ≠ [] := by
    rintro rfl
    exact absurd hchunked (by decide)
  obtain ⟨before, field, rest, rfl, -, hbefore, hvalue, hfolded, hrest⟩ := storedValue_eq_some hproper hstored hblank
  have hfull : field.fullValue = stored := by
    rw [Field.fullValue, hfolded, hvalue, append_nil, stripBlanks_of_forall hblank]
  have hrestFull : (rest.map Field.fullValue).filter (· ≠ []) = [] := by
    rw [filter_eq_nil_iff]
    intro value hmem
    obtain ⟨f, hf, rfl⟩ := mem_map.1 hmem
    simp [Field.fullValue, hrest f hf, stripBlanks]
  have hgiven : ((before ++ field :: rest).map Field.fullValue).filter (· ≠ []) =
      (before.map Field.fullValue).filter (· ≠ []) ++ [stored] := by
    rw [map_append, map_cons, filter_append, filter_cons_of_pos (by simpa [hfull] using hne), hrestFull, hfull]
  have hempty : (before.map Field.fullValue).filter (· ≠ []) = [] ↔ ∀ f ∈ before, ∀ c ∈ f.folded, isBlank c = true := by
    simp only [filter_eq_nil_iff, forall_mem_map, decide_not, Bool.not_eq_true', decide_eq_false_iff_not, not_not]
    refine forall₂_congr fun f hf => ?_
    rw [Field.fullValue, hbefore f hf, nil_append, stripBlanks_eq_nil]
  rw [hgiven]
  constructor
  · rintro ⟨value, hone, _⟩
    have hnil : (before.map Field.fullValue).filter (· ≠ []) = [] := by
      rcases append_eq_singleton_iff.1 hone with ⟨hnil, _⟩ | ⟨_, hcons⟩
      · exact hnil
      · cases hcons
    intro f hf
    rcases mem_append.1 hf with hf | hf
    · exact hempty.1 hnil f hf
    · rcases mem_cons.1 hf with rfl | hf
      · simp [hfolded]
      · simp [hrest f hf]
  · intro h
    rw [hempty.2 fun f hf => h f (mem_append_left _ hf)]
    exact ⟨stored, rfl, hchunked⟩

/-- The stored length is the length that is used exactly if it is written in digits, fits, and is not continued. -/
theorem stored_length_iff {length : Int} (hproper : ∀ field ∈ fields, field.Proper)
    (hlength : ∀ field rest, fields.dropWhile (·.value = []) = field :: rest →
      length = (strtoll field.value).1 ∧ ∀ field ∈ rest, field.value = []) :
    (∀ stored, storedValue fields = some stored → stored ≠ [] →
      (∀ c ∈ stored, isDigit c = true) ∧ (decimalValue stored : Int) = length) ↔
    ∀ field ∈ fields.dropWhile (·.value = []),
      field.folded = [] ∧ (∀ c ∈ field.value, isDigit c = true) ∧ decimalValue field.value < 2 ^ 63 := by
  cases hdrop : fields.dropWhile (·.value = []) with
  | nil => simp [storedValue, hdrop]
  | cons field rest =>
    obtain ⟨rfl, hrest⟩ := hlength field rest hdrop
    have hvalue : field.value ≠ [] := by
      have hne : fields.dropWhile (·.value = []) ≠ [] := by simp [hdrop]
      simpa [hdrop] using head_dropWhile_not (fun f : Field => decide (f.value = [])) hne
    have hfits (h : ∀ c ∈ field.value, isDigit c = true) :
        (decimalValue field.value : Int) = (strtoll field.value).1 ↔ decimalValue field.value < 2 ^ 63 := by
      rw [strtoll_of_digits hvalue h]
      omega
    have hstored : storedValue fields = some (field.value ++ field.folded ++ rest.flatMap Field.appended) := by
      simp [storedValue, hdrop]
    constructor
    · intro h
      obtain ⟨hdigits, heq⟩ := h _ hstored (by simp [hvalue])
      obtain ⟨_, field', rest', _, hdrop', _, hfield, hfolded, hrest'⟩ :=
        storedValue_eq_some hproper hstored fun c hc => isBlank_of_isDigit (hdigits c hc)
      obtain ⟨rfl, rfl⟩ := List.cons.inj (hdrop.symm.trans hdrop')
      rw [← hfield] at hdigits heq
      intro f hf
      rcases mem_cons.1 hf with rfl | hf
      · exact ⟨hfolded, hdigits, (hfits hdigits).1 heq⟩
      · simp [hrest' f hf, decimalValue]
    · intro h stored hsome _
      have happended : rest.flatMap Field.appended = [] :=
        flatMap_eq_nil_iff.2 fun f hf => Field.appended_eq_nil.2 ⟨hrest f hf, (h f (mem_cons_of_mem _ hf)).1⟩
      obtain ⟨hfolded, hdigits, hlt⟩ := h field mem_cons_self
      obtain rfl : field.value = stored := by simpa [hstored, hfolded, happended] using hsome
      exact ⟨hdigits, (hfits hdigits).2 hlt⟩

/-! ## Requests -/

theorem Accepts.getElement {block : Bytes} {con₁ : Con} {host : Option Bytes} {p : Parser}
    (h : Accepts conf (con.next block) con₁ host p con') {name : Bytes} (hname : KeepsValues name)
    (hhost : sameName (textBytes "Host") name = false) :
    p.con.headers.getElement name = storedValue (fieldsNamed name (requestFields conf (con.next block))) := by
  have hnone : (Parser.start con₁ host).con.headers.getElement name = none := by
    have hheaders : con₁.headers = [] := h.headers
    cases host with
    | none => simp [Parser.start, hheaders, Headers.getElement]
    | some host =>
      simp only [Parser.start]
      rw [Headers.getElement_insertUnique_other hhost, hheaders]
      rfl
  have hkey : (Parser.start con₁ host).key = none := by cases host <;> rfl
  rw [Parser.getElement_of_foldlM hname h.lines, hkey, hnone, ← foldl_store_none]
  rfl

theorem Accepts.version_eq (h : Accepts conf con con₁ host p con')
    (hversion : con'.httpVersion ≠ .http10) : con'.httpVersion = .http11 := by
  have hstart : (Parser.start con₁ host).con.httpVersion = con₁.httpVersion := by cases host <;> rfl
  have hunset : con'.httpVersion ≠ .unset := by
    rw [h.ends.version, (Parser.status_of_foldlM h.lines).2, hstart]
    exact h.version
  cases hcon : con'.httpVersion with
  | unset => exact absurd hcon hunset
  | http10 => exact absurd hcon hversion
  | http11 => rfl

/-- The length that the header lines give is not negative, and that of the first field with a value. -/
theorem Accepts.length {block : Bytes} (h : Accepts conf (con.next block) con₁ host p con') :
    0 ≤ p.con.contentLength ∧ ∀ field rest,
      (fieldsNamed (textBytes "Content-Length") (requestFields conf (con.next block))).dropWhile (·.value = []) = field :: rest →
        p.con.contentLength = (strtoll field.value).1 ∧ ∀ field ∈ rest, field.value = [] := by
  have hstart : (Parser.start con₁ host).con.contentLength = 0 := by
    have hlength : con₁.contentLength = 0 := h.contentLength
    cases host <;> exact hlength
  unfold requestFields
  rcases Parser.length_of_foldlM h.lines with ⟨hkept, hempty⟩ | ⟨-, field, rest, hdrop, hlength, hpos, hempty⟩
  · refine ⟨(hkept.trans hstart).ge, fun field rest hdrop => ?_⟩
    rw [dropWhile_eq_nil_iff.2 (by simpa using hempty)] at hdrop
    cases hdrop
  · refine ⟨hlength ▸ hpos, ?_⟩
    rw [hdrop]
    rintro _ _ ⟨⟩
    exact ⟨hlength, hempty⟩

/-- The framing of a request that is accepted is unambiguous exactly if its fields are clear about it. -/
theorem framed_iff (conf : Conf) (con : Con) (block : Bytes)
    (haccepted : (httpRequestParse conf (con.next block)).2.httpStatus = 0) :
    Framed (httpRequestParse conf (con.next block)).2 (requestFields conf (con.next block)) ↔
      ClearFraming (requestFields conf (con.next block)) := by
  unfold httpRequestParse at haccepted ⊢
  cases hparse : parseRequest conf (con.next block) with
  | error con' =>
    simp only [hparse] at haccepted
    exact absurd (status_of_parseRequest hparse) (by simp [haccepted])
  | ok result =>
    obtain ⟨more, con'⟩ := result
    obtain ⟨con₁, host, p, haccepts⟩ := accepts_of_parseRequest rfl hparse
    have hproper (name : Bytes) (field : Field) (hf : field ∈ fieldsNamed name (requestFields conf (con.next block))) :
        field.Proper := proper_requestFields _ field (mem_of_mem_filter hf)
    have hte := haccepts.getElement keepsValues_transferEncoding (by decide)
    have hcl := haccepts.getElement keepsValues_contentLength (by decide)
    rcases haccepts.ends.encoding with ⟨hnone, hlength, hstored⟩ | ⟨value, hsome, hchunked, hversion, hlength, hstored⟩
    · -- no encoding is stored: the length decides
      have hempty := storedValue_eq_none.1 (hte.symm.trans hnone)
      have hne : con'.contentLength ≠ -1 := by
        have := haccepts.length.1
        omega
      have hiff := stored_length_iff (hproper _) haccepts.length.2
      rw [hcl] at hstored
      rw [← hlength, ← hstored] at hiff
      constructor
      · exact fun h => ⟨fun ⟨field, hmem, hvalue⟩ => absurd (hempty field hmem) hvalue, fun _ => hiff.1 (h.length hne)⟩
      · exact fun h => ⟨fun h1 => absurd h1 hne, fun _ => hiff.2 (h.length hempty)⟩
    · -- an encoding is stored: its continuations decide
      have hvalue := hte.symm.trans hsome
      rw [cString_storedValue (hproper _) hvalue] at hchunked
      have hiff := given_chunked_iff (hproper _) hvalue hchunked
      have hgiven : ¬ ∀ field ∈ fieldsNamed (textBytes "Transfer-Encoding") (requestFields conf (con.next block)),
          field.value = [] := fun h => absurd ((storedValue_eq_none.2 h).symm.trans hvalue) (by nofun)
      constructor
      · exact fun h => ⟨fun _ => hiff.1 (h.encoding hlength).2.1, fun h1 => absurd h1 hgiven⟩
      · refine fun h => ⟨fun _ => ⟨haccepts.version_eq hversion, hiff.2 (h.encoding ?_), fun stored hsome => ?_⟩,
          fun h1 => absurd hlength h1⟩
        · simpa using hgiven
        · rw [hstored] at hsome
          obtain ⟨_, _, rfl⟩ := Option.map_eq_some_iff.1 hsome
          rfl

/-- The first request on a connection, with the given header lines. -/
def postRequest (lines : String) : Con := Con.accepted.next (textBytes ("POST / HTTP/1.1\r\nHost: a\r\n" ++ lines ++ "\r\n"))

theorem framed_iff_content_length :
    (httpRequestParse .default (postRequest "Content-Length: 5\r\n")).2.httpStatus = 0 ∧
      Framed (httpRequestParse .default (postRequest "Content-Length: 5\r\n")).2
        (requestFields .default (postRequest "Content-Length: 5\r\n")) :=
  ⟨by decide, (framed_iff .default Con.accepted _ (by decide)).2 ⟨by decide, by decide +kernel⟩⟩

/-- A length that is continued on the next line is read as 5 and stored as `5 3`, and an encoding that has its value on the next line
is not seen. -/
theorem continued_fields_misread :
    ((httpRequestParse .default (postRequest "Content-Length: 5\r\n 3\r\n")).2.httpStatus = 0 ∧
      (httpRequestParse .default (postRequest "Content-Length: 5\r\n 3\r\n")).2.contentLength = 5 ∧
      (httpRequestParse .default (postRequest "Content-Length: 5\r\n 3\r\n")).2.headers.getElement
        (textBytes "Content-Length") = some (textBytes "5 3")) ∧
    ((httpRequestParse .default
        (postRequest "Transfer-Encoding:\r\n gzip\r\nTransfer-Encoding: chunked\r\n")).2.httpStatus = 0 ∧
      (httpRequestParse .default
        (postRequest "Transfer-Encoding:\r\n gzip\r\nTransfer-Encoding: chunked\r\n")).2.contentLength = -1 ∧
      givenValues (textBytes "Transfer-Encoding")
        (requestFields .default (postRequest "Transfer-Encoding:\r\n gzip\r\nTransfer-Encoding: chunked\r\n")) =
          [textBytes "gzip", textBytes "chunked"]) := by
  decide

end Osp.Lighttpd
