import Osp.Lighttpd.Lemmas.SendFile
import Osp.Lighttpd.Ranges

/-!
# Responses to requests for ranges

When a file is sent for a request with the header `Range`, the response is the ranges, the status 416 or the complete file, unless the
value of the header does not have the syntax of ranges as far as it is read. Then the loop over the ranges ends with an error that sets
no status, after what it has appended, or without an error, and what is left of the value is ignored.
-/

namespace Osp.Lighttpd

open Osp.Lib Response List

/-- The number of bytes of a part of a body. -/
def Piece.length : Piece → Int
  | mem data => data.length
  | file _ _ length => length

/-- The number of bytes of a body. -/
def bodyLength (body : List Piece) : Int := (body.map Piece.length).sum

variable {size : Nat}

namespace FileRange

/-- The bytes of the range. -/
def piece (range : FileRange size) (path : Bytes) : Piece := .file path range.start (range.last - range.start + 1)

/-- The bytes of the range and what stands before them if there is more than one. -/
def part (range : FileRange size) (path contentType : Bytes) : List Piece :=
  [.mem (boundaryHeader contentType range.start range.last size), range.piece path]

end FileRange

/-- What the ranges that are requested are within the file. -/
def Clamped (size : Nat) (specs : List RangeSpec) (ranges : List (FileRange size)) : Prop :=
  List.Forall₂ (fun spec range => spec.clamp size = some range) specs ranges

/-- The type of a response. -/
def Response.contentType (r : Response) : Bytes := (r.headers.getElement (textBytes "Content-Type")).getD []

/-- What the response to a request for ranges may be, given the response before its body is prepared: the complete file, the status 416,
a range, or a body with one part for each range. -/
inductive RangeAnswer (path : Bytes) (size : Nat) (text : Bytes) (r r' : Response) : Prop
  | complete : r'.status = 200 → r'.queue = r.queue ++ [.file path 0 size] → RangeAnswer path size text r r'
  | notSatisfiable : r'.status = 416 → RangeAnswer path size text r r'
  | single {spec : RangeSpec} {range : FileRange size} : r'.status = 206 → RangeSet text [spec] → spec.clamp size = some range →
    r'.queue = r.queue ++ [range.piece path] → r'.contentLength = bodyLength [range.piece path] →
    r'.headers = (r.headerInsert (textBytes "Content-Range") (textBytes "bytes " ++ rangeText range.start range.last size)).headers →
    RangeAnswer path size text r r'
  | multipart {specs : List RangeSpec} {ranges : List (FileRange size)} {body : List Piece} : r'.status = 206 → RangeSet text specs →
    Clamped size specs ranges → body = ranges.flatMap (·.part path r.contentType) ++ [.mem boundaryEnd] →
    r'.queue = r.queue ++ body → r'.contentLength = bodyLength body → RangeAnswer path size text r r'

/-! ## The loop -/

variable {path contentType text : Bytes} {specs : List RangeSpec} {ranges : List (FileRange size)} {st st' : RangeState} {fuel : Nat}

@[simp] theorem bodyLength_append (body body' : List Piece) : bodyLength (body ++ body') = bodyLength body + bodyLength body' := by
  simp [bodyLength]

/-- The response after a part of the body was appended. -/
def Response.appendBody (r : Response) (body : List Piece) : Response :=
  { r with queue := r.queue ++ body, contentLength := r.contentLength + bodyLength body }

theorem boundaryHeader_ne_nil (start last size : Int) : boundaryHeader contentType start last size ≠ [] := by
  have hne : textBytes "\r\n--" ≠ [] := by decide
  simp [boundaryHeader, hne]

/-- A range is appended to a body with several parts. -/
theorem append_of_multipart {comma : Bool} (h : (st.multipart || comma) = true) (range : FileRange size) :
    st.append path contentType size range.start range.last comma =
      ⟨true, range.start, range.last, st.response.appendBody (range.part path contentType)⟩ := by
  have hle := range.start_le
  have hlength : ((range.last : Int) - range.start + 1) ≠ 0 := by omega
  simp only [RangeState.append, h, if_true, appendBuffer, if_neg (boundaryHeader_ne_nil _ _ _), appendFile,
    if_neg hlength, addContentLength, appendBody, FileRange.part, FileRange.piece, bodyLength, map_cons,
    map_nil, sum_cons, sum_nil, Piece.length, append_assoc, singleton_append]
  simp [Int.add_assoc]

/-- A range that is the only one. -/
theorem append_of_single (h : st.multipart = false) (range : FileRange size) :
    st.append path contentType size range.start range.last false =
      ⟨false, range.start, range.last, st.response.appendBody [range.piece path]⟩ := by
  have hle := range.start_le
  have hlength : ((range.last : Int) - range.start + 1) ≠ 0 := by omega
  simp [RangeState.append, h, appendFile, hlength, addContentLength, appendBody, FileRange.piece, bodyLength,
    Piece.length]

theorem rangeStep_of_notMem {s : Bytes} {size : Int} (h : 45 ∉ s) : rangeStep size s = .stop := by
  have hsearch : search [45] s = none := by
    cases hfound : search [45] s with
    | none => rfl
    | some found =>
      have hs := search_eq_append hfound
      exact absurd (by rw [hs]; simp) h
  rw [rangeStep, hsearch]

/-- The loop ends when there is no minus sign. -/
theorem rangeLoop_of_notMem {s : Bytes} (h : 45 ∉ s) : rangeLoop path contentType size fuel s st = (true, st) := by
  cases fuel with
  | zero => rfl
  | succ fuel => rw [rangeLoop, rangeStep_of_notMem h]

theorem notMem_trailing {rest : Bytes} (h : ∀ c ∈ rest, c = 44 ∨ isBlank c = true) : 45 ∉ rest := by
  intro hmem
  rcases h 45 hmem with h | h <;> exact absurd h (by decide)

theorem ends_comma (rest : Bytes) : Ends (44 :: rest) := .inr rfl

section

variable (hsize : 0 < size) (hlt : size < 2 ^ 63)

include hsize hlt

/-- A round for a range that is read. -/
theorem rangeLoop_read {rest : Bytes} {spec : RangeSpec} {range : FileRange size} (h : Read text spec) (hends : Ends rest)
    (hclamp : spec.clamp size = some range) :
    rangeLoop path contentType size (fuel + 1) (text ++ rest) st =
      rangeLoop path contentType size fuel rest.tail (st.append path contentType size range.start range.last (rest ≠ [])) := by
  rw [rangeLoop, rangeStep_read hsize hlt h hends, clampStep, hclamp]

/-- The loop over ranges: there is one range, or several. -/
theorem rangeLoop_rangeSet (path contentType : Bytes) (st : RangeState) (hset : RangeSet text specs)
    (hclamped : Clamped size specs ranges) (hfuel : text.length < fuel) :
    (st.multipart = false ∧ ∃ spec range, specs = [spec] ∧ ranges = [range] ∧ rangeLoop path contentType size fuel text st =
      (true, ⟨false, range.start, range.last, st.response.appendBody [range.piece path]⟩)) ∨
    ∃ start last, rangeLoop path contentType size fuel text st =
      (true, ⟨true, start, last, st.response.appendBody (ranges.flatMap (·.part path contentType))⟩) := by
  induction hset generalizing ranges st fuel with
  | @last text spec helement =>
    obtain ⟨range, ranges, hclamp, hnil, rfl⟩ := forall₂_cons_left_iff.1 hclamped
    obtain rfl := forall₂_nil_left_iff.1 hnil
    obtain ⟨more, rfl⟩ := Nat.exists_eq_add_of_lt hfuel
    have hloop : rangeLoop path contentType size (text.length + more + 1) text st =
        (true, st.append path contentType size range.start range.last (([] : Bytes) ≠ [])) := by
      nth_rewrite 2 [← append_nil text]
      rw [rangeLoop_read hsize hlt helement.read (.inl rfl) ((clamp_saturate hlt _).trans hclamp), tail_nil,
        rangeLoop_of_notMem not_mem_nil]
    cases hst : st.multipart with
    | false => exact .inl ⟨rfl, spec, range, rfl, rfl, hloop.trans (congrArg _ (append_of_single hst range))⟩
    | true => exact .inr ⟨range.start, range.last, by rw [hloop, append_of_multipart (by simp [hst])]; simp⟩
  | @trailing text rest spec helement hrest =>
    obtain ⟨range, ranges, hclamp, hnil, rfl⟩ := forall₂_cons_left_iff.1 hclamped
    obtain rfl := forall₂_nil_left_iff.1 hnil
    obtain ⟨more, rfl⟩ := Nat.exists_eq_add_of_lt hfuel
    rw [rangeLoop_read hsize hlt helement.read (ends_comma rest) ((clamp_saturate hlt _).trans hclamp), append_of_multipart (by simp),
      tail_cons, rangeLoop_of_notMem (notMem_trailing hrest)]
    exact .inr ⟨range.start, range.last, by simp⟩
  | @cons text rest spec specs helement hset ih =>
    obtain ⟨range, ranges, hclamp, htail, rfl⟩ := forall₂_cons_left_iff.1 hclamped
    obtain ⟨more, rfl⟩ := Nat.exists_eq_add_of_lt hfuel
    rw [rangeLoop_read hsize hlt helement.read (ends_comma rest) ((clamp_saturate hlt _).trans hclamp), append_of_multipart (by simp),
      tail_cons]
    have hrest : rest.length < (text ++ 44 :: rest).length + more := by
      simp only [length_append, length_cons]
      omega
    -- after a comma the response has several parts
    rcases ih ⟨true, range.start, range.last, st.response.appendBody (range.part path contentType)⟩ htail hrest with
      ⟨hsingle, -⟩ | ⟨start, last, hloop⟩
    · cases hsingle
    · exact .inr ⟨start, last, by rw [hloop]; simp [appendBody, Int.add_assoc]⟩

/-- A text that is refused. -/
theorem rangeLoop_refused (st : RangeState) (h : Refused size text) (hfuel : text.length < fuel) :
    ∃ st', rangeLoop path contentType size fuel text st = (false, st') ∧ st'.response.httpStatus = 416 := by
  induction h generalizing st fuel with
  | @zero lead rest hlead hzero =>
    obtain ⟨more, rfl⟩ := Nat.exists_eq_add_of_lt hfuel
    exact ⟨_, by rw [rangeLoop, rangeStep_zero hlead hzero], rfl⟩
  | @beyond text rest spec hread hends hclamp =>
    obtain ⟨more, rfl⟩ := Nat.exists_eq_add_of_lt hfuel
    exact ⟨_, by rw [rangeLoop, rangeStep_read hsize hlt hread hends, clampStep, hclamp], rfl⟩
  | @next text rest spec hread _ ih =>
    obtain ⟨more, rfl⟩ := Nat.exists_eq_add_of_lt hfuel
    cases hclamp : spec.clamp size with
    | none => exact ⟨_, by rw [rangeLoop, rangeStep_read hsize hlt hread (ends_comma rest), clampStep, hclamp], rfl⟩
    | some range =>
      rw [rangeLoop_read hsize hlt hread (ends_comma rest) hclamp]
      refine ih _ ?_
      simp only [length_append, length_cons]
      omega

/-- An error of the loop is one that sets the status 416, or comes before anything or after the start of a body with several parts. -/
theorem rangeLoop_error (hfuel : text.length < fuel) (h : rangeLoop path contentType size fuel text st = (false, st')) :
    Refused size text ∨ (st'.response.httpStatus = st.response.httpStatus ∧
      (st'.response.queue = st.response.queue ∨ ∃ data more, st'.response.queue = st.response.queue ++ .mem data :: more)) := by
  induction fuel generalizing text st with
  | zero => omega
  | succ fuel ih =>
    rcases rangeStep_cases size text with hstop | hfail | ⟨text, spec, rest, hread, hends, rfl⟩ | ⟨lead, rest, hlead, hzero, rfl⟩
    · rw [rangeLoop, hstop] at h
      cases h
    · rw [rangeLoop, hfail] at h
      cases h
      exact .inr ⟨rfl, .inl rfl⟩
    · cases hclamp : spec.clamp size with
      | none => exact .inl (.beyond hread hends hclamp)
      | some range =>
        rw [rangeLoop_read hsize hlt hread hends hclamp] at h
        rcases hends with rfl | hcomma
        · rw [tail_nil, rangeLoop_of_notMem not_mem_nil] at h
          cases h
        · obtain ⟨rest, rfl⟩ := head?_eq_some_iff.1 hcomma
          rw [append_of_multipart (by simp), tail_cons] at h
          simp only [length_append, length_cons] at hfuel
          rcases ih (by omega) h with hrefused | ⟨hstatus, hqueue⟩
          · exact .inl (.next hread hrefused)
          · refine .inr ⟨hstatus, .inr ?_⟩
            rcases hqueue with hqueue | ⟨data, more, hqueue⟩
            · exact ⟨_, [range.piece path], by rw [hqueue]; rfl⟩
            · exact ⟨_, range.piece path :: .mem data :: more, by rw [hqueue]; simp [appendBody, FileRange.part]; rfl⟩
    · exact .inl (.zero hlead hzero)

end

/-- Ranges are within the file, or one of them is refused. -/
theorem clamped_or_refused (hlt : size < 2 ^ 63) (hset : RangeSet text specs) : (∃ ranges, Clamped size specs ranges) ∨ Refused size text := by
  induction hset with
  | @last text spec helement =>
    cases hclamp : spec.clamp size with
    | none =>
      right
      simpa using Refused.beyond helement.read (.inl rfl) ((clamp_saturate hlt _).trans hclamp)
    | some range => exact .inl ⟨[range], .cons hclamp .nil⟩
  | @trailing text rest spec helement _ =>
    cases hclamp : spec.clamp size with
    | none => exact .inr (.beyond helement.read (ends_comma rest) ((clamp_saturate hlt _).trans hclamp))
    | some range => exact .inl ⟨[range], .cons hclamp .nil⟩
  | @cons text rest spec specs helement _ ih =>
    cases hclamp : spec.clamp size with
    | none => exact .inr (.beyond helement.read (ends_comma rest) ((clamp_saturate hlt _).trans hclamp))
    | some range =>
      rcases ih with ⟨ranges, hclamped⟩ | hrefused
      · exact .inl ⟨range :: ranges, .cons hclamp hclamped⟩
      · exact .inr (.next helement.read hrefused)

/-! ## The response -/

variable {r r' : Response}

theorem parseRange_eq : parseRange r path size text =
    match rangeLoop path r.contentType size (text.length + 1) text ⟨false, 0, size - 1, { r with contentLength := 0 }⟩ with
    | (false, st) => (false, st.response)
    | (true, st) =>
      if st.multipart then
        (true, ((st.response.appendBuffer boundaryEnd).addContentLength boundaryEnd.length).headerOverwrite (textBytes "Content-Type")
          (textBytes "multipart/byteranges; boundary=" ++ boundary))
      else (true, st.response.headerInsert (textBytes "Content-Range") (textBytes "bytes " ++ rangeText st.start st.last size)) := rfl

theorem contentLength_headerOverwrite (key value : Bytes) : (r.headerOverwrite key value).contentLength = r.contentLength := by
  unfold headerOverwrite
  split <;> rfl

/-- Ranges that are within the file are sent. -/
theorem parseRange_rangeSet (path : Bytes) (hr : r = { r' with fileFinished := true }) (hsize : 0 < size) (hlt : size < 2 ^ 63)
    (hset : RangeSet text specs) (hclamped : Clamped size specs ranges) :
    ∃ r₁, parseRange r path size text = (true, r₁) ∧ RangeAnswer path size text r' { r₁ with httpStatus := 206 } := by
  rw [parseRange_eq]
  rcases rangeLoop_rangeSet hsize hlt path r.contentType ⟨false, 0, size - 1, { r with contentLength := 0 }⟩ hset hclamped (Nat.lt_succ_self _) with
    ⟨-, spec, range, rfl, rfl, hloop⟩ | ⟨start, last, hloop⟩ <;> subst hr
  · rw [hloop]
    refine ⟨_, rfl, .single rfl hset (forall₂_cons.1 hclamped).1 rfl ?_ rfl⟩
    exact Int.zero_add _
  · have hend : boundaryEnd ≠ [] := by decide
    rw [hloop]
    refine ⟨_, rfl, .multipart rfl hset hclamped rfl ?_ ?_⟩
    · simp [addContentLength, appendBuffer, hend, appendBody, Response.contentType]
    · simp only [contentLength_headerOverwrite]
      simp [addContentLength, appendBuffer, hend, appendBody, bodyLength, Piece.length, Response.contentType]

/-- Without an answer there is no status, and not the whole file. -/
theorem parseRange_error (hsize : 0 < size) (hlt : size < 2 ^ 63) (h : parseRange r path size text = (false, r')) :
    Refused size text ∨ (r'.httpStatus = r.httpStatus ∧ r'.queue ≠ r.queue ++ [.file path 0 size]) := by
  rw [parseRange_eq] at h
  split at h
  · rename_i hloop
    cases h
    refine (rangeLoop_error hsize hlt (Nat.lt_succ_self _) hloop).imp_right fun ⟨hstatus, hqueue⟩ => ⟨hstatus, fun heq => ?_⟩
    rcases hqueue with hqueue | ⟨data, more, hqueue⟩
    · rw [hqueue] at heq
      simp at heq
    · rw [hqueue] at heq
      have := append_cancel_left heq
      simp at this
  · split at h <;> cases h

/-- The values of `Range`, after the unit, that are answered as they should be. -/
def Answerable (size : Nat) (text : Bytes) : Prop := (∃ specs, RangeSet text specs) ∨ Refused size text

/-- The body of a response to a request for ranges. -/
theorem rangeAnswer_iff (hsize : 0 < size) (hlt : size < 2 ^ 63) (hstatus : r.httpStatus = 200 ∨ r.httpStatus = 0) :
    RangeAnswer path size text r
        (match parseRange { r with fileFinished := true } path size text with
        | (true, r) => { r with httpStatus := 206 }
        | (false, r) => r) ↔
      Answerable size text := by
  constructor
  · intro hanswer
    by_contra hno
    rw [Answerable, not_or] at hno
    obtain ⟨hset, hrefused⟩ := hno
    cases hparse : parseRange { r with fileFinished := true } path size text with
    | mk ok r' =>
      rw [hparse] at hanswer
      cases ok with
      | true =>
        cases hanswer with
        | complete h => cases h
        | notSatisfiable h => cases h
        | single _ h => exact hset ⟨_, h⟩
        | multipart _ h => exact hset ⟨_, h⟩
      | false =>
        obtain ⟨hstatus', hqueue⟩ := (parseRange_error hsize hlt hparse).resolve_left hrefused
        have h200 : r'.status = 200 := by
          rw [status, hstatus']
          rcases hstatus with h | h <;> simp [h]
        cases hanswer with
        | complete _ h => exact hqueue h
        | notSatisfiable h => exact absurd (h200.symm.trans h) (by decide)
        | single _ h => exact hset ⟨_, h⟩
        | multipart _ h => exact hset ⟨_, h⟩
  · rintro h
    have hclamped : (∃ specs ranges, RangeSet text specs ∧ Clamped size specs ranges) ∨ Refused size text := by
      rcases h with ⟨specs, hset⟩ | hrefused
      · exact (clamped_or_refused hlt hset).imp_left fun ⟨ranges, hclamped⟩ => ⟨specs, ranges, hset, hclamped⟩
      · exact .inr hrefused
    rcases hclamped with ⟨specs, ranges, hset, hclamped⟩ | hrefused
    · obtain ⟨r', hparse, hanswer⟩ := parseRange_rangeSet path rfl hsize hlt hset hclamped
      rw [hparse]
      exact hanswer
    · -- ranges of which one is refused are answered with the status 416
      obtain ⟨st, hloop, h416⟩ := rangeLoop_refused hsize hlt
        ⟨false, 0, size - 1, { r with fileFinished := true, contentLength := 0 }⟩ hrefused (Nat.lt_succ_self _)
      rw [parseRange_eq, hloop]
      exact .notSatisfiable (by simp [status, h416])

/-- When the response for a file is what it should be: the ranges that are to be sent, if any are, have their syntax or are refused. -/
theorem sendFile_rangeAnswer_iff {env : FileEnv} {request : Headers} {r r₁ : Response} {path value : Bytes} {st : FileStat}
    {mtime : Option Bytes} (hstat : env.stat path = .ok st) (hlink : st.isSymlink = true → env.followSymlink = true)
    (hregular : st.isRegular = true) (hsize : 0 < st.size) (hopen : env.openFstat path = some st.size)
    (hheaders : prepareHeaders env r st = .ok (r₁, mtime)) (hvalue : request.getElement (textBytes "Range") = some value) :
    r₁.queue = r.queue ∧
    (RangeAnswer path st.size (cString (value.drop 6)) r₁ (sendFile env request r path) ↔
      (requestedRange env request r₁ mtime ≠ none → Answerable st.size (cString (value.drop 6)))) := by
  refine ⟨queue_prepareHeaders (.inl ⟨_, hheaders⟩), ?_⟩
  have hsend : sendFile env request r path = sendBody env request r₁ path st mtime := by
    have hlink' : (st.isSymlink && !env.followSymlink) = false := by
      cases hsym : st.isSymlink with
      | false => rfl
      | true => simp [hlink hsym]
    simp only [sendFile, hstat, hlink', hregular, hheaders]
    simp
  rw [hsend, sendBody]
  cases hrequested : requestedRange env request r₁ mtime with
  | none =>
    simp only [ne_eq, not_true_eq_false, false_implies, iff_true]
    rw [if_neg (by omega), chunkAppendFile, hopen]
    have hne : ¬ ((st.size : Int) = 0) := by omega
    exact .complete rfl (by simp only [appendFile, if_neg hne])
  | some text =>
    simp only [requestedRange, hvalue] at hrequested
    split at hrequested
    · rename_i hcond
      cases hrequested
      simp only [ne_eq, reduceCtorEq, not_false_eq_true, true_implies]
      exact rangeAnswer_iff hsize st.size_lt hcond.2.1
    · cases hrequested

/-- The response to a request for ranges of a file with five bytes. -/
def sendRange (value : String) : Response :=
  sendFile (fiveBytes false) [(textBytes "Range", textBytes value)] emptyResponse (textBytes "/f")

theorem sendFile_rangeAnswer_iff_two : ∃ r₁ mtime, prepareHeaders (fiveBytes false) emptyResponse fiveBytesStat = .ok (r₁, mtime) ∧
    r₁.queue = [] ∧ RangeAnswer (textBytes "/f") 5 (textBytes "1-2,-1") r₁ (sendRange "bytes=1-2,-1") := by
  have hdigit (c : UInt8) (hc : isDigit c = true) : Digits [c] (decimalValue [c]) := ⟨by simp, by simpa using hc, rfl⟩
  have hset : RangeSet (textBytes "1-2,-1") [.span 1 2, .suffix 1] := by
    have htext : textBytes "1-2,-1" = ([] ++ ([49] ++ 45 :: [50])) ++ 44 :: ([] ++ 45 :: [49]) := by decide
    refine .cons (.span (.inl rfl) ⟨[], [49], rfl, by simp, hdigit 49 (by decide)⟩ (hdigit 50 (by decide)) (by decide)) (.last ?_)
    exact .suffix (.inl rfl) (by simp) (forall_mem_singleton.2 (by decide)) (by decide)
  have hrest : cString ((textBytes "bytes=1-2,-1").drop 6) = textBytes "1-2,-1" := by decide
  have hok : (prepareHeaders (fiveBytes false) emptyResponse fiveBytesStat).isOk = true := by decide
  cases hheaders : prepareHeaders (fiveBytes false) emptyResponse fiveBytesStat with
  | error r => simp [hheaders, Except.isOk, Except.toBool] at hok
  | ok result =>
    obtain ⟨r₁, mtime⟩ := result
    have hiff : r₁.queue = [] ∧
        (RangeAnswer (textBytes "/f") fiveBytesStat.size (cString ((textBytes "bytes=1-2,-1").drop 6)) r₁ (sendRange "bytes=1-2,-1") ↔
          (requestedRange (fiveBytes false) [(textBytes "Range", textBytes "bytes=1-2,-1")] r₁ mtime ≠ none →
            Answerable fiveBytesStat.size (cString ((textBytes "bytes=1-2,-1").drop 6)))) :=
      sendFile_rangeAnswer_iff rfl (by simp [fiveBytesStat]) rfl (by decide) rfl hheaders (by decide)
    exact ⟨r₁, mtime, rfl, hiff.1, hiff.2.2 fun _ => .inl ⟨_, hset⟩⟩

/-- A reversed range is answered with the status 200 and an empty body, a value without any range with the status 206 and an empty body,
and an error after the first range with the status 200 and a part of a body with several parts; so is a blank before a range for the end
of the file. -/
theorem ranges_not_answered :
    ((sendRange "bytes=3-2").status = 200 ∧ (sendRange "bytes=3-2").queue = []) ∧
    ((sendRange "bytes=x").status = 206 ∧ (sendRange "bytes=x").queue = []) ∧
    ((sendRange "bytes=0-1,x-").status = 200 ∧ (sendRange "bytes=0-1,x-").queue =
      [.mem (boundaryHeader (textBytes "application/octet-stream") 0 1 5), .file (textBytes "/f") 0 2]) ∧
    ((sendRange "bytes=0-1, -2").status = 200 ∧ (sendRange "bytes=0-1, -2").queue =
      [.mem (boundaryHeader (textBytes "application/octet-stream") 0 1 5), .file (textBytes "/f") 0 2]) :=
  ⟨by decide, by decide, by decide, by decide⟩

end Osp.Lighttpd
