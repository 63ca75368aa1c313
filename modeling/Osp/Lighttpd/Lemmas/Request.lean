import Osp.Lib.Outcome
import Osp.Lighttpd.Request

/-!
# The exits of the parser

Every exit of `http_request_parse` but one clears `keep_alive`; an exit that is not the last one sets a status of 400 or more, and the
last one leaves the status as it is.
-/

namespace Osp.Lighttpd

open Osp.Lib

/-! ## Arrays of headers as maps -/

section

variable {a b c key name value : Bytes}

theorem caselessCompare_eq_zero : caselessCompare a b = 0 ↔ a.map toLower = b.map toLower := by
  induction a generalizing b with
  | nil => cases b <;> simp [caselessCompare]
  | cons x a ih =>
    cases b with
    | nil => simp [caselessCompare]
    | cons y b =>
      rw [caselessCompare, List.map_cons, List.map_cons, List.cons.injEq]
      by_cases hxy : x = y
      · simp [hxy, ih]
      · by_cases hlower : toLower x = toLower y
        · simp [hxy, hlower, ih]
        · rw [if_neg hxy, if_neg hlower]
          have hne : (toLower x).toNat ≠ (toLower y).toNat := fun h => hlower (UInt8.toNat.inj h)
          simp only [hlower, false_and, iff_false]
          omega

theorem sameName_iff : sameName a b = true ↔ a.map toLower = b.map toLower := by
  rw [sameName, decide_eq_true_iff, caselessCompare_eq_zero]

@[simp] theorem sameName_refl (a : Bytes) : sameName a a = true := sameName_iff.2 rfl

theorem sameName_congr_right (h : sameName b c = true) : sameName a b = sameName a c := by
  rw [Bool.eq_iff_iff, sameName_iff, sameName_iff, sameName_iff.1 h]

theorem sameName_congr_left (h : sameName a b = true) : sameName a c = sameName b c := by
  rw [Bool.eq_iff_iff, sameName_iff, sameName_iff, sameName_iff.1 h]

namespace Headers

variable {headers : Headers} {f : Bytes → Bytes}

/-- Names that are the same find the same entry. -/
theorem getElement_congr (h : sameName key name = true) : headers.getElement key = headers.getElement name := by
  simp only [getElement, sameName_congr_right h]

theorem getElement_update_same (h : sameName key name = true) :
    (headers.update key f).getElement name = (headers.getElement name).map f := by
  rw [← getElement_congr h, ← getElement_congr h, getElement, update, find_updateFirst, getElement, Option.map_map, Option.map_map]
  · rfl
  · exact fun _ => rfl

theorem getElement_update_other (h : sameName key name = false) :
    (headers.update key f).getElement name = headers.getElement name := by
  have hne (entry : Bytes × Bytes) (hentry : sameName entry.1 key = true) : sameName entry.1 name = false := by
    rw [sameName_congr_left hentry, h]
  rw [getElement, update, find_updateFirst_of_ne, getElement]
  exact fun entry hentry => ⟨hne entry hentry, hne entry hentry⟩

/-- The value of a name after a value was given for it. -/
def joined (old : Option Bytes) (value : Bytes) : Bytes :=
  match old with
  | none | some [] => value
  | some old => old ++ textBytes ", " ++ value

theorem getElement_insertUnique_same (h : sameName key name = true) :
    (headers.insertUnique key value).getElement name = some (joined (headers.getElement name) value) := by
  rw [insertUnique, getElement_congr h]
  cases hold : headers.getElement name with
  | none =>
    have hnone : headers.find? (fun entry => sameName entry.1 name) = none := by simpa [getElement] using hold
    simp [getElement, List.find?_append, hnone, h, joined]
  | some old =>
    simp only [getElement_update_same h, hold, Option.map_some]
    cases old <;> simp [joined]

theorem getElement_insertUnique_other (h : sameName key name = false) :
    (headers.insertUnique key value).getElement name = headers.getElement name := by
  rw [insertUnique]
  cases headers.getElement key with
  | none => simp [getElement, List.find?_append, h]
  | some old => exact getElement_update_other h

end Headers

end

variable {conf : Conf} {con con' : Con} {α β : Type}

/-- An exit that closes the connection. -/
structure Con.Closes (con : Con) : Prop where
  keepAlive : con.keepAlive = false
  status : 400 ≤ con.httpStatus

/-- Every early exit closes the connection. -/
def RejectsClosed (x : Except Con α) : Prop := ∀ con, x = .error con → con.Closes

theorem closes_reject {status : Nat} (h : 400 ≤ status) : (con.reject status).Closes := ⟨rfl, h⟩

theorem RejectsClosed.ok (a : α) : RejectsClosed (.ok a) := fun _ h => nomatch h

theorem RejectsClosed.reject {status : Nat} (h : 400 ≤ status) (con : Con) :
    RejectsClosed (.error (con.reject status) : Except Con α) := by
  rintro _ ⟨⟩
  exact closes_reject h

theorem RejectsClosed.bind {x : Except Con α} {f : α → Except Con β} (hx : RejectsClosed x)
    (hf : ∀ a, RejectsClosed (f a)) : RejectsClosed (x >>= f) := by
  cases x with
  | error con =>
    rintro _ ⟨⟩
    exact hx con rfl
  | ok a => exact hf a

/-! ## Header lines -/

namespace Parser

variable {p p' : Parser} {key value : Bytes}

theorem rejectsClosed_storeHeader : RejectsClosed (p.storeHeader key value) := by
  have hreject : RejectsClosed (p.rejectHeader key value) := .reject (by decide) _
  unfold storeHeader
  cases headerKind key with
  | connection => exact .ok _
  | contentLength =>
    simp only
    split
    · exact hreject
    · split
      · exact .ok _
      · exact hreject
  | contentType =>
    simp only
    split
    · exact hreject
    · exact .ok _
  | host =>
    simp only
    split
    · exact .ok _
    · split
      · exact hreject
      · exact .ok _
  | ifModifiedSince =>
    simp only
    split
    · exact .ok _
    · split
      · exact .ok _
      · exact hreject
  | ifNoneMatch =>
    simp only
    split <;> exact .ok _
  | other => exact .ok _

theorem rejectsClosed_endField : RejectsClosed (p.endField key value) := by
  unfold endField
  split
  · exact .ok _
  · exact rejectsClosed_storeHeader

theorem rejectsClosed_endContinuation : RejectsClosed (p.endContinuation value) := by
  unfold endContinuation
  split
  · exact .reject (by decide) _
  · exact .reject (by decide) _
  · exact .ok _

theorem rejectsClosed_headerLoop (n : Nat) (p : Parser) (bytes : Bytes) : RejectsClosed (headerLoop conf n p bytes) := by
  induction n generalizing p bytes with
  | zero => exact .reject (by decide) _
  | succ n ih =>
    unfold headerLoop
    split
    · exact .reject (by decide) _
    · exact .ok _
    · split
      · exact .reject (by decide) _
      · exact (rejectsClosed_endContinuation).bind fun _ => ih _ _
    · split
      · exact .reject (by decide) _
      · exact (rejectsClosed_endField).bind fun _ => ih _ _

/-! ## The end of the header -/

theorem rejectsClosed_checkKeepAlive : RejectsClosed p.checkKeepAlive := by
  unfold checkKeepAlive
  simp only
  split
  · split
    · exact .reject (by decide) _
    · exact .ok _
  · exact .ok _

theorem rejectsClosed_checkHost : RejectsClosed (checkHost conf con) := by
  unfold checkHost
  split
  · split
    · exact .reject (by decide) _
    · exact .ok _
  · exact .ok _

theorem rejectsClosed_checkTransferEncoding (conLengthSet : Bool) :
    RejectsClosed (checkTransferEncoding conLengthSet con) := by
  unfold checkTransferEncoding
  split
  · exact .ok _
  · split
    · exact .reject (by decide) _
    · split
      · exact .reject (by decide) _
      · exact .ok _

theorem rejectsClosed_checkMethod (conLengthSet : Bool) : RejectsClosed (checkMethod conLengthSet con) := by
  unfold checkMethod
  split
  · exact .reject (by decide) _
  · split
    · exact .reject (by decide) _
    · exact .ok _

theorem rejectsClosed_endHeader : RejectsClosed (p.endHeader conf) := by
  refine (rejectsClosed_checkKeepAlive).bind fun con => ?_
  refine (rejectsClosed_checkHost).bind fun con => ?_
  refine (rejectsClosed_checkTransferEncoding p.conLengthSet).bind fun (conLengthSet, con) => ?_
  exact rejectsClosed_checkMethod conLengthSet

end Parser

theorem rejectsClosed_parseHeaders (host : Option Bytes) (rest : Bytes) :
    RejectsClosed (parseHeaders conf con host rest) := by
  unfold parseHeaders
  split
  · exact .reject (by decide) _
  · exact (Parser.rejectsClosed_headerLoop _ _ _).bind fun _ => Parser.rejectsClosed_endHeader

/-! ## The loop ends -/

/-! ## Requests that are not rejected -/

namespace Parser

variable {p p' : Parser} {key value : Bytes}

/-- What storing a header does to the parser. -/
structure Stores (p : Parser) (key value : Bytes) (p' : Parser) : Prop where
  status : p'.con.httpStatus = p.con.httpStatus
  version : p'.con.httpVersion = p.con.httpVersion
  lastKey : p'.key = p.key
  headers : p'.con.headers = p.con.headers.insertUnique key value ∨
    p'.con.headers = p.con.headers ∧ (headerKind key = .host ∨ headerKind key = .ifModifiedSince ∨ headerKind key = .ifNoneMatch)
  length : (headerKind key = .contentLength ∧ p.conLengthSet = false ∧ (strtoll value).2 = [] ∧ 0 ≤ (strtoll value).1 ∧
      p'.conLengthSet = true ∧ p'.con.contentLength = (strtoll value).1) ∨
    (headerKind key ≠ .contentLength ∧ p'.conLengthSet = p.conLengthSet ∧ p'.con.contentLength = p.con.contentLength)

theorem stores_of_storeHeader (h : p.storeHeader key value = .ok p') : p.Stores key value p' := by
  unfold storeHeader rejectHeader at h
  by_cases hlength : headerKind key = .contentLength
  · simp only [hlength] at h
    split at h
    · cases h
    · rename_i hset
      split at h
      · rename_i hvalue
        cases h
        exact ⟨rfl, rfl, rfl, .inl rfl, .inl ⟨hlength, by simpa using hset, hvalue.1, hvalue.2, rfl, rfl⟩⟩
      · cases h
  · cases hkind : headerKind key <;> simp only [hkind] at h
    case contentLength => exact absurd hkind hlength
    -- the other kinds are stored, dropped if the value is that of an earlier one, or rejected
    all_goals repeat' split at h
    all_goals cases h
    all_goals
      refine ⟨rfl, rfl, rfl, ?_, .inr ⟨hlength, rfl, rfl⟩⟩
      first
      | exact .inl rfl
      | exact .inr ⟨rfl, by simp [hkind]⟩

/-! ### The run over the lines -/

/-- The end of a line. -/
def endLine (p : Parser) : Line → Except Con Parser
  | .field key value => p.endField key value
  | .continuation value => p.endContinuation value

theorem status_of_endLine {line : Line} (h : p.endLine line = .ok p') :
    p'.con.httpStatus = p.con.httpStatus ∧ p'.con.httpVersion = p.con.httpVersion := by
  cases line with
  | field key value =>
    simp only [endLine, endField] at h
    split at h
    · cases h
      exact ⟨rfl, rfl⟩
    · exact ⟨(stores_of_storeHeader h).status, (stores_of_storeHeader h).version⟩
  | continuation value =>
    simp only [endLine, endContinuation] at h
    split at h <;> cases h
    exact ⟨rfl, rfl⟩

theorem status_of_foldlM {lines : List Line} (h : lines.foldlM endLine p = .ok p') :
    p'.con.httpStatus = p.con.httpStatus ∧ p'.con.httpVersion = p.con.httpVersion := by
  induction lines generalizing p with
  | nil =>
    cases h
    exact ⟨rfl, rfl⟩
  | cons line lines ih =>
    obtain ⟨p₁, hend, hrest⟩ := bind_eq_ok.1 h
    have hline := status_of_endLine hend
    have hlines := ih hrest
    exact ⟨hlines.1.trans hline.1, hlines.2.trans hline.2⟩

/-- A header that is accepted is gone over line by line. -/
theorem foldlM_of_headerLoop {n : Nat} {bytes : Bytes} (h : headerLoop conf n p bytes = .ok p') :
    (headerLines conf.headerStrict n bytes).foldlM endLine p = .ok p' := by
  induction n generalizing p bytes with
  | zero => cases h
  | succ n ih =>
    unfold headerLoop at h
    unfold headerLines
    cases hkey : scanKey conf.headerStrict [] bytes with
    | invalid => simp [hkey] at h
    | done =>
      simp only [hkey, Except.ok.injEq] at h
      rw [h]
      rfl
    | folding rest | key _ rest =>
      simp only [hkey] at h ⊢
      cases hvalue : scanValue conf.headerStrict [] rest with
      | none => simp [hvalue] at h
      | some scanned =>
        simp only [hvalue] at h ⊢
        obtain ⟨p₁, hend, hrest⟩ := bind_eq_ok.1 h
        exact bind_eq_ok.2 ⟨p₁, hend, ih hrest⟩

/-! ### The end of the header -/

/-- What the end of the header does to a connection that is accepted. -/
structure Ends (p : Parser) (con : Con) : Prop where
  status : con.httpStatus = p.con.httpStatus
  version : con.httpVersion = p.con.httpVersion
  encoding : (p.con.headers.getElement (textBytes "Transfer-Encoding") = none ∧ con.contentLength = p.con.contentLength ∧
      con.headers.getElement (textBytes "Content-Length") = p.con.headers.getElement (textBytes "Content-Length")) ∨
    (∃ value, p.con.headers.getElement (textBytes "Transfer-Encoding") = some value ∧
      (cString value).map toLower = textBytes "chunked" ∧ con.httpVersion ≠ .http10 ∧ con.contentLength = -1 ∧
      con.headers.getElement (textBytes "Content-Length") =
        (p.con.headers.getElement (textBytes "Content-Length")).map fun _ => [])

theorem ends_of_endHeader {more : Bool} (h : p.endHeader conf = .ok (more, con')) : p.Ends con' := by
  obtain ⟨con₁, hkeep, h⟩ := bind_eq_ok.1 h
  obtain ⟨con₂, hhost, h⟩ := bind_eq_ok.1 h
  obtain ⟨⟨conLengthSet, con₃⟩, hencoding, h⟩ := bind_eq_ok.1 h
  have hmethod : con₃ = con' := by
    simp only [checkMethod] at h
    split at h
    · cases h
    · split at h <;> cases h
      rfl
  obtain rfl := hmethod
  have hcon₁ : con₁ = { p.con with keepAlive := con₁.keepAlive } := by
    unfold checkKeepAlive at hkeep
    simp only at hkeep
    split at hkeep
    · split at hkeep <;> cases hkeep
      rfl
    · cases hkeep
      rfl
  have hcon₂ : ∃ headers, con₂ = { con₁ with headers := headers } ∧
      ∀ name, sameName (textBytes "Host") name = false → headers.getElement name = con₁.headers.getElement name := by
    unfold checkHost at hhost
    split at hhost
    · split at hhost <;> cases hhost
      exact ⟨_, rfl, fun name hname => Headers.getElement_update_other hname⟩
    · cases hhost
      exact ⟨_, rfl, fun _ _ => rfl⟩
  obtain ⟨headers, rfl, hheaders⟩ := hcon₂
  rw [hcon₁] at hencoding hheaders
  have hte := hheaders (textBytes "Transfer-Encoding") (by decide)
  have hcl := hheaders (textBytes "Content-Length") (by decide)
  unfold checkTransferEncoding at hencoding
  split at hencoding
  · rename_i hnone
    cases hencoding
    exact ⟨rfl, rfl, .inl ⟨hte.symm.trans hnone, rfl, hcl⟩⟩
  · rename_i value hsome
    split at hencoding
    · cases hencoding
    · rename_i hversion
      split at hencoding
      · cases hencoding
      · rename_i hchunked
        cases hencoding
        refine ⟨rfl, rfl, .inr ⟨value, hte.symm.trans hsome, by simpa using hchunked, hversion, rfl, ?_⟩⟩
        rw [← hcl]
        rw [Headers.getElement_update_same (sameName_refl _), Headers.getElement_update_other (by decide)]

end Parser

/-! ### Requests -/

/-- The version is well formed but not supported. -/
def UnsupportedLine (method proto : Bytes) : Prop :=
  getHttpMethodKey method ≠ none ∧ ∃ version, scanVersion proto = some version ∧ version ≠ (1, 1) ∧ version ≠ (1, 0)

/-- What a request line does. One that is rejected closes the connection, unless its version is not supported. -/
def LineResult (con : Con) (method proto : Bytes) : Except Con (Con × Option Bytes) → Prop
  | .error con' => con'.Closes ∧ ¬ UnsupportedLine method proto ∨
    con'.httpStatus = 505 ∧ con'.keepAlive = con.keepAlive ∧ UnsupportedLine method proto
  | .ok (con', _) => con'.httpStatus = 0 ∧ con'.httpVersion ≠ .unset ∧ con'.headers = con.headers ∧
    con'.contentLength = con.contentLength ∧ ¬ UnsupportedLine method proto

theorem parseRequestLine_cases {method uri proto : Bytes} {result : Except Con (Con × Option Bytes)}
    (h : parseRequestLine conf con method uri proto = result) : LineResult con method proto result := by
  subst h
  unfold parseRequestLine
  cases hmethod : getHttpMethodKey method with
  | none => exact .inl ⟨closes_reject (by decide), fun hline => hline.1 hmethod⟩
  | some m =>
    cases hversion : scanVersion proto with
    | none =>
      refine .inl ⟨closes_reject (by decide), ?_⟩
      rintro ⟨_, version, hsome, _⟩
      exact absurd (hversion.symm.trans hsome) (by nofun)
    | some version =>
      simp only
      by_cases hne : version ≠ (1, 1) ∧ version ≠ (1, 0)
      · rw [if_pos hne]
        exact .inr ⟨rfl, rfl, by simp [hmethod], version, hversion, hne.1, hne.2⟩
      · rw [if_neg hne]
        have hsupported : ¬ UnsupportedLine method proto := by
          rintro ⟨_, version', hsome, h11, h10⟩
          obtain rfl := Option.some.inj (hversion.symm.trans hsome)
          exact hne ⟨h11, h10⟩
        cases htarget : requestTarget conf m uri with
        | none => exact .inl ⟨closes_reject (by decide), hsupported⟩
        | some target =>
          simp only
          cases invalidPath conf target.1 with
          | true => exact .inl ⟨closes_reject (by decide), hsupported⟩
          | false =>
            refine ⟨rfl, ?_, rfl, rfl, hsupported⟩
            split <;> nofun

/-- The request line is complete, its method is known, and its version is well formed but not supported. -/
def UnsupportedVersion (conf : Conf) (con : Con) : Prop :=
  ∃ block method uri proto rest, headerBlock conf con = some block ∧
    scanRequestLine conf.headerStrict [] [] block = .line [method, uri, proto] rest ∧ UnsupportedLine method proto

/-- A version that is not supported does not close the connection. -/
theorem parseRequest_of_unsupportedVersion (h : UnsupportedVersion conf con) :
    ∃ con', parseRequest conf con = .error con' ∧ con'.httpStatus = 505 ∧ con'.keepAlive = con.keepAlive := by
  obtain ⟨block, method, uri, proto, rest, hblock, hline, hunsupported⟩ := h
  unfold parseRequest
  simp only [hblock, hline]
  cases hrequest : parseRequestLine conf con method uri proto with
  | ok accepted =>
    obtain ⟨_, _, _, _, hsupported⟩ := parseRequestLine_cases hrequest
    exact absurd hunsupported hsupported
  | error con' =>
    rcases parseRequestLine_cases hrequest with ⟨_, hsupported⟩ | ⟨hstatus, hkeep, _⟩
    · exact absurd hunsupported hsupported
    · exact ⟨con', rfl, hstatus, hkeep⟩

/-- Every other exit closes it. -/
theorem rejectsClosed_parseRequest (h : ¬ UnsupportedVersion conf con) : RejectsClosed (parseRequest conf con) := by
  unfold parseRequest
  split
  · exact .reject (by decide) _
  · rename_i block hblock
    split
    · exact rejectsClosed_parseHeaders _ _
    · exact .reject (by decide) _
    · rename_i method uri proto rest hline
      refine RejectsClosed.bind (fun con' hrequest => ?_) fun (con, host) => rejectsClosed_parseHeaders host rest
      rcases parseRequestLine_cases hrequest with ⟨hcloses, _⟩ | ⟨_, _, hunsupported⟩
      · exact hcloses
      · exact absurd ⟨block, method, uri, proto, rest, hblock, hline, hunsupported⟩ h
    · exact .reject (by decide) _

theorem status_of_parseRequest (h : parseRequest conf con = .error con') : 400 ≤ con'.httpStatus := by
  by_cases hversion : UnsupportedVersion conf con
  · obtain ⟨con₁, hparse, hstatus, _⟩ := parseRequest_of_unsupportedVersion hversion
    obtain rfl : con₁ = con' := Except.error.inj (hparse.symm.trans h)
    rw [hstatus]
    decide
  · exact (rejectsClosed_parseRequest hversion con' h).status

/-- What leads to a request that is accepted. -/
structure Accepts (conf : Conf) (con con₁ : Con) (host : Option Bytes) (p : Parser) (con' : Con) : Prop where
  status : con₁.httpStatus = 0
  version : con₁.httpVersion ≠ .unset
  headers : con₁.headers = con.headers
  contentLength : con₁.contentLength = con.contentLength
  lines : (requestLines conf con).foldlM Parser.endLine (.start con₁ host) = .ok p
  ends : p.Ends con'

theorem accepts_of_parseRequest {more : Bool} (huri : con.uri = []) (h : parseRequest conf con = .ok (more, con')) :
    ∃ con₁ host p, Accepts conf con con₁ host p con' := by
  unfold parseRequest at h
  split at h
  · cases h
  · rename_i block hblock
    split at h
    · rw [parseHeaders, if_pos huri] at h
      cases h
    · cases h
    · rename_i method uri proto rest hline
      obtain ⟨⟨con₁, host⟩, hrequest, h⟩ := bind_eq_ok.1 h
      simp only [parseHeaders] at h
      split at h
      · cases h
      · obtain ⟨p, hlines, hend⟩ := bind_eq_ok.1 h
        obtain ⟨hstatus, hversion, hheaders, hlength, _⟩ := parseRequestLine_cases hrequest
        refine ⟨con₁, host, p, hstatus, hversion, hheaders, hlength, ?_, Parser.ends_of_endHeader hend⟩
        simp only [requestLines, hblock, hline]
        exact Parser.foldlM_of_headerLoop hlines
    · cases h

theorem Accepts.status_eq {con₁ : Con} {host : Option Bytes} {p : Parser} (h : Accepts conf con con₁ host p con') :
    con'.httpStatus = 0 := by
  have hstart : (Parser.start con₁ host).con.httpStatus = con₁.httpStatus := by cases host <;> rfl
  rw [h.ends.status, (Parser.status_of_foldlM h.lines).1, hstart, h.status]

end Osp.Lighttpd
