import Osp.Websocketpp.Http

/-!
# Reading a request, line by line

The loop of `consume` reads lines and counts their bytes. What a whole run comes to is what the lines of all bytes come to, unless
the count exceeds the limit: `consumeAll_eq`.
-/

namespace Osp.Websocketpp.Http

open Osp.Lib List

theorem headerDelimiter_ne_nil : headerDelimiter ≠ [] := by decide

/-- What a line does to the head of a request: it goes on, or ends in an exception or with the blank line. -/
def lineStep (head : Head) (line : Bytes) : Head ⊕ Except StatusCode Head :=
  if line = [] then
    .inr (if head.method = [] ∨ head.getHeader (textBytes "Host") = [] then .error .badRequest else .ok head)
  else
    match head.processLine line with
    | .error status => .inr (.error status)
    | .ok head => .inl head

/-- The lines of a head. -/
def readHead (head : Head) (bytes : Bytes) : Reading UInt8 Head (Except StatusCode Head) :=
  readLines headerDelimiter lineStep head bytes

namespace Request

/-- A request whose head is being read. -/
def waiting (bodyBytesMax : Nat) (head : Head) (buf : Bytes) (headerBytes : Nat) : Request :=
  ⟨head, buf, headerBytes, [], 0, bodyBytesMax, .unknown, false⟩

/-- The body of a request whose head has been read. -/
def beginBody (r : Request) (after : Bytes) : Except StatusCode (Nat × Request) :=
  match { r with buf := [] }.prepareBody with
  | .error status => .error status
  | .ok (true, r) => r.readBody after
  | .ok (false, r) => .ok (0, { r with ready := true })

/-- What comes after the line that ended the head. -/
def afterHead (bodyBytesMax headerBytes : Nat) (result : Except StatusCode Head) (after : Bytes) :
    Except StatusCode (Nat × Request) :=
  match result with
  | .error status => .error status
  | .ok head => (waiting bodyBytesMax head [] headerBytes).beginBody after

variable {r : Request} {bodyBytesMax headerBytes n : Nat} {head head' : Head} {buf rest after : Bytes}

theorem endHeader_eq (hcomplete : ¬ (r.head.method = [] ∨ r.head.getHeader (textBytes "Host") = []))
    (hafter : after <:+ buf) :
    r.endHeader buf after = (r.beginBody after).map fun read => (buf.length - after.length + read.1, read.2) := by
  have hprocessed : buf.length + (sizeofHeaderDelimiter - 1) - (headerDelimiter.length + after.length) =
      buf.length - after.length := by
    simp only [sizeofHeaderDelimiter, headerDelimiter, length_cons, length_nil]
    omega
  unfold endHeader beginBody
  simp only [hcomplete, if_false, hprocessed, ← suffix_iff_eq_drop.1 hafter]
  generalize ({ r with buf := [] } : Request).prepareBody = prepared
  rcases prepared with status | ⟨_ | _, r'⟩ <;> rfl

/-! ## One buffer -/

variable {b line more : Bytes} {result : Except StatusCode Head} {bufs : List Bytes}

/-- What the loop does with a line. -/
theorem headerLoop_line (hafter : after <:+ buf) (hsearch : search headerDelimiter rest = some (line, after)) :
    headerLoop buf (n + 1) (waiting bodyBytesMax head b headerBytes) rest =
      if maxHeaderSize < headerBytes + (line.length + 3) then .error .requestHeaderFieldsTooLarge
      else
        match lineStep head line with
        | .inl head => headerLoop buf n (waiting bodyBytesMax head b (headerBytes + (line.length + 3))) after
        | .inr result =>
          (afterHead bodyBytesMax (headerBytes + (line.length + 3)) result after).map fun read =>
            (buf.length - after.length + read.1, read.2) := by
  simp only [headerLoop, hsearch, waiting, sizeofHeaderDelimiter]
  congr 1
  unfold lineStep
  by_cases hline : line = []
  · simp only [if_pos hline]
    by_cases hincomplete : head.method = [] ∨ head.getHeader (textBytes "Host") = []
    · rw [if_pos hincomplete]
      exact if_pos hincomplete
    · rw [if_neg hincomplete]
      exact endHeader_eq hincomplete hafter
  · simp only [if_neg hline]
    cases head.processLine line <;> rfl

/-- What a run comes to in the state after the last line, with the count of header bytes up to there: the head goes on in the next buffer,
or is followed by the body. The buffers have `size` bytes. -/
def conclude (bodyBytesMax size count : Nat) (state : Head ⊕ Except StatusCode Head) (rest : Bytes) : Except StatusCode (Nat × Request) :=
  match state with
  | .inl head =>
    if maxHeaderSize < count + rest.length + 3 then .error .requestHeaderFieldsTooLarge
    else .ok (size, waiting bodyBytesMax head rest (count + 3))
  | .inr result =>
    if maxHeaderSize < count then .error .requestHeaderFieldsTooLarge
    else (afterHead bodyBytesMax count result rest).map fun read => (size - rest.length + read.1, read.2)

section

variable {size count : Nat} {state : Head ⊕ Except StatusCode Head} {q : Bytes}

theorem conclude_eq_error (hinl : maxHeaderSize < count + rest.length + 3) (hinr : ∀ result, state = .inr result → maxHeaderSize < count) :
    conclude bodyBytesMax size count state rest = .error .requestHeaderFieldsTooLarge := by
  cases state with
  | inl _ => exact if_pos hinl
  | inr result => exact if_pos (hinr result rfl)

theorem conclude_map_add (k : Nat) (hinr : ∀ result, state = .inr result → rest.length < size) :
    (conclude bodyBytesMax size count state rest).map (fun read => (k + read.1, read.2)) = conclude bodyBytesMax (k + size) count state rest := by
  unfold conclude
  split
  · split <;> rfl
  · rename_i result
    have hlt := hinr result rfl
    split
    · rfl
    · cases afterHead bodyBytesMax count result rest with
      | error status => rfl
      | ok read =>
        simp only [Except.map]
        congr 2
        omega

end

theorem headerLoop_eq (hn : rest.length < n)
    (hafter : ∀ line after, search headerDelimiter rest = some (line, after) → after <:+ buf) :
    headerLoop buf n (waiting bodyBytesMax head b headerBytes) rest =
      let reading := readHead head rest
      conclude bodyBytesMax buf.length (headerBytes + (rest.length - reading.rest.length) + reading.lines) reading.state reading.rest := by
  unfold readHead
  induction n generalizing head headerBytes rest with
  | zero => exact absurd hn (Nat.not_lt_zero _)
  | succ n ih =>
    cases hsearch : search headerDelimiter rest with
    | none =>
      rw [readLines_of_none hsearch]
      simp only [headerLoop, hsearch, conclude, waiting, sizeofHeaderDelimiter, Nat.sub_self, Nat.add_zero, ← Nat.add_assoc]
      rw [show headerBytes + rest.length + 3 - rest.length = headerBytes + 3 by omega]
    | some found =>
      obtain ⟨line, after⟩ := found
      have hlength : rest.length = line.length + 2 + after.length := length_of_search hsearch
      cases hstep : lineStep head line with
      | inr result =>
        rw [readLines_of_end hsearch hstep, headerLoop_line (hafter line after hsearch) hsearch, hstep]
        simp only [conclude, show headerBytes + (rest.length - after.length) + 1 = headerBytes + (line.length + 3) by omega]
      | inl head' =>
        have hafter' (line' after' : Bytes) (h : search headerDelimiter after = some (line', after')) : after' <:+ buf :=
          List.IsSuffix.trans (search_eq_append h ▸ suffix_append ..) (hafter line after hsearch)
        have hleft : (readLines headerDelimiter lineStep head' after).rest.length ≤ after.length :=
          (rest_suffix headerDelimiter_ne_nil).length_le
        rw [readLines_of_more headerDelimiter_ne_nil hsearch hstep, headerLoop_line (hafter line after hsearch) hsearch, hstep]
        simp only [ih (show after.length < n by omega) hafter']
        generalize readLines headerDelimiter lineStep head' after = reading at hleft
        have hcount : headerBytes + (line.length + 3) + (after.length - reading.rest.length) + reading.lines =
            headerBytes + (rest.length - reading.rest.length) + (reading.lines + 1) := by omega
        rw [hcount]
        by_cases hline : maxHeaderSize < headerBytes + (line.length + 3)
        · rw [if_pos hline, conclude_eq_error (by omega) fun _ _ => by omega]
        · rw [if_neg hline]

/-! ## The body -/

/-- The request with the body bytes that it needs of `bytes`. -/
def withBody (r : Request) (bytes : Bytes) : Request :=
  { r with
    body := r.body ++ bytes.take r.bodyBytesNeeded
    bodyBytesNeeded := r.bodyBytesNeeded - bytes.length
    ready := r.bodyBytesNeeded ≤ bytes.length }

theorem readBody_eq (hplain : r.bodyEncoding = .plain) (hready : r.ready = false) :
    r.readBody buf = .ok (min r.bodyBytesNeeded buf.length, r.withBody buf) := by
  unfold readBody processBody withBody
  simp only [hplain]
  have htake : buf.take (min r.bodyBytesNeeded buf.length) = buf.take r.bodyBytesNeeded := by
    rw [take_eq_take_iff, Nat.min_assoc, Nat.min_self]
  have hneeded : r.bodyBytesNeeded - min r.bodyBytesNeeded buf.length = r.bodyBytesNeeded - buf.length := by omega
  rw [htake, hneeded]
  by_cases hdone : r.bodyBytesNeeded ≤ buf.length
  · rw [if_pos (by omega), decide_eq_true hdone]
  · rw [if_neg (by omega), decide_eq_false hdone, ← hready]

/-- A request that has a body reads it plainly. -/
theorem plain_of_prepareBody {r' : Request} (h : r.prepareBody = .ok (true, r')) :
    r'.bodyEncoding = .plain ∧ r'.ready = r.ready := by
  unfold prepareBody at h
  simp only at h
  split at h
  · cases h
  · split at h
    · cases h
    · cases h
      exact ⟨rfl, rfl⟩

theorem withBody_withBody (h : buf.length ≤ r.bodyBytesNeeded) :
    (r.withBody buf).withBody more = r.withBody (buf ++ more) := by
  have htake : (buf ++ more).take r.bodyBytesNeeded = buf ++ more.take (r.bodyBytesNeeded - buf.length) := by
    rw [take_append, take_of_length_le h]
  simp only [withBody, htake, take_of_length_le h, append_assoc, length_append, Request.mk.injEq, true_and,
    decide_eq_decide]
  omega

theorem withBody_append_of_le (h : r.bodyBytesNeeded ≤ buf.length) :
    r.withBody (buf ++ more) = r.withBody buf := by
  simp only [withBody, take_append_of_le_length h, length_append, Request.mk.injEq, true_and, decide_eq_decide]
  omega

/-- A request that has a part of its body reads the rest from the buffers. -/
theorem consumeAll_body (hplain : r.bodyEncoding = .plain) (hready : r.ready = false)
    (hneeded : 0 < r.bodyBytesNeeded) :
    consumeAll bufs r = .ok (min r.bodyBytesNeeded bufs.flatten.length, r.withBody bufs.flatten) := by
  induction bufs generalizing r with
  | nil =>
    have hnone : ¬ r.bodyBytesNeeded ≤ 0 := by omega
    simp only [consumeAll, flatten_nil, withBody, take_nil, append_nil, length_nil, Nat.min_zero,
      Nat.sub_zero, decide_eq_false hnone, ← hready]
  | cons buf bufs ih =>
    have hconsume : r.consume buf = .ok (min r.bodyBytesNeeded buf.length, r.withBody buf) := by
      unfold consume
      rw [hready, if_neg Bool.false_ne_true, if_pos hneeded, readBody_eq hplain hready]
    simp only [consumeAll, hconsume, flatten_cons]
    by_cases hdone : r.bodyBytesNeeded ≤ buf.length
    · rw [if_pos (by exact decide_eq_true hdone), withBody_append_of_le hdone, length_append]
      congr 2
      omega
    · have hready' : (r.withBody buf).ready = false := decide_eq_false hdone
      have hneeded' : 0 < (r.withBody buf).bodyBytesNeeded := Nat.sub_pos_of_lt (Nat.lt_of_not_le hdone)
      rw [hready', if_neg Bool.false_ne_true, ih (r := r.withBody buf) hplain hready' hneeded', withBody_withBody (by omega)]
      simp only [Except.map, length_append, withBody]
      congr 2
      omega

/-! ## All buffers -/

/-- What is done with the further buffers. -/
def proceed (bufs : List Bytes) (result : Except StatusCode (Nat × Request)) : Except StatusCode (Nat × Request) :=
  match result with
  | .error status => .error status
  | .ok (processed, r) =>
    if r.ready then .ok (processed, r) else (consumeAll bufs r).map fun result => (processed + result.1, result.2)

theorem consumeAll_cons : consumeAll (buf :: bufs) r = proceed bufs (r.consume buf) := rfl

theorem proceed_map_add (k : Nat) (result : Except StatusCode (Nat × Request)) :
    proceed bufs (result.map fun read => (k + read.1, read.2)) = (proceed bufs result).map fun read => (k + read.1, read.2) := by
  rcases result with status | ⟨processed, r⟩
  · rfl
  · simp only [Except.map, proceed]
    split
    · rfl
    · cases consumeAll bufs r with
      | error status => rfl
      | ok read => simp only [Nat.add_assoc]

theorem proceed_beginBody (hready : r.ready = false) :
    proceed bufs (r.beginBody after) = r.beginBody (after ++ bufs.flatten) := by
  unfold beginBody
  cases hprepare : ({ r with buf := [] } : Request).prepareBody with
  | error status => rfl
  | ok prepared =>
    obtain ⟨body, r'⟩ := prepared
    cases body with
    | false => rfl
    | true =>
      obtain ⟨hplain, hsame⟩ := plain_of_prepareBody hprepare
      have hready' : r'.ready = false := hsame.trans hready
      simp only [readBody_eq hplain hready', proceed]
      by_cases hdone : r'.bodyBytesNeeded ≤ after.length
      · rw [if_pos (by exact decide_eq_true hdone), withBody_append_of_le hdone, length_append]
        congr 2
        omega
      · have hwaits : (r'.withBody after).ready = false := decide_eq_false hdone
        have hneeded : 0 < (r'.withBody after).bodyBytesNeeded := Nat.sub_pos_of_lt (Nat.lt_of_not_le hdone)
        rw [hwaits, if_neg Bool.false_ne_true, consumeAll_body (r := r'.withBody after) hplain hwaits hneeded,
          withBody_withBody (by omega)]
        simp only [Except.map, length_append, withBody]
        congr 2
        omega

theorem proceed_afterHead :
    proceed bufs (afterHead bodyBytesMax headerBytes result after) =
      afterHead bodyBytesMax headerBytes result (after ++ bufs.flatten) := by
  cases result with
  | error status => rfl
  | ok head => exact proceed_beginBody rfl

/-- How many of the buffers end before the byte number `used` of them. -/
def endsBefore : Nat → List Bytes → Nat
  | _, [] => 0
  | used, buf :: bufs => if buf.length < used then endsBefore (used - buf.length) bufs + 1 else 0

/-- How many of the buffers end before the head does, or before the last one if it does not. -/
def endsIn (state : Head ⊕ Except StatusCode Head) (rest : Bytes) (bufs : List Bytes) : Nat :=
  match state with
  | .inl _ => bufs.length - 1
  | .inr _ => endsBefore (bufs.flatten.length - rest.length) bufs

theorem proceed_nil (result : Except StatusCode (Nat × Request)) : proceed [] result = result := by
  rcases result with status | ⟨processed, r⟩
  · rfl
  · simp [proceed, consumeAll, Except.map]

/-- What buffers come to if all their bytes are read at once, with 3 more header bytes for each of them that ends in the head. -/
def readAll (bodyBytesMax : Nat) (head : Head) (buf : Bytes) (headerBytes : Nat) (bufs : List Bytes) : Except StatusCode (Nat × Request) :=
  let reading := readHead head (buf ++ bufs.flatten)
  let used := (buf ++ bufs.flatten).length - reading.rest.length
  conclude bodyBytesMax bufs.flatten.length (headerBytes + used + reading.lines + 3 * endsIn reading.state reading.rest bufs) reading.state
    reading.rest

theorem readAll_singleton (hbuf : search headerDelimiter buf = none) :
    (waiting bodyBytesMax head buf headerBytes).consume q = readAll bodyBytesMax head buf headerBytes [q] := by
  have hends (state : Head ⊕ Except StatusCode Head) (rest : Bytes) : endsIn state rest [q] = 0 := by
    cases state with
    | inl _ => rfl
    | inr _ => exact if_neg (by simp)
  refine (headerLoop_eq (Nat.lt_succ_self _) fun _ _ h => (suffix_of_search_append hbuf h).1).trans ?_
  simp [readAll, hends, waiting]

/-- The head ends in the first buffer. -/
theorem proceed_of_inr (hfirst : (readHead head (buf ++ q)).state = .inr result) :
    proceed bufs (readAll bodyBytesMax head buf headerBytes [q]) = readAll bodyBytesMax head buf headerBytes (q :: bufs) := by
  unfold readAll
  rw [flatten_singleton, flatten_cons, ← append_assoc]
  unfold readHead at *
  rw [readLines_append headerDelimiter_ne_nil head (buf ++ q)]
  simp only [hfirst]
  generalize readLines headerDelimiter lineStep head (buf ++ q) = reading at *
  have hends (more : List Bytes) : endsIn (.inr result) (reading.rest ++ more.flatten) (q :: more) = 0 := by
    refine if_neg ?_
    rw [flatten_cons, length_append, length_append]
    omega
  have hfirstEnds := hends []
  rw [flatten_nil, append_nil] at hfirstEnds
  simp only [hends, hfirstEnds, conclude, length_append]
  rw [show buf.length + q.length + bufs.flatten.length - (reading.rest.length + bufs.flatten.length) =
    buf.length + q.length - reading.rest.length by omega]
  split
  · rfl
  · rw [proceed_map_add, proceed_afterHead, show q.length + bufs.flatten.length - (reading.rest.length + bufs.flatten.length) =
      q.length - reading.rest.length by omega]

/-- The head goes on in the second buffer. -/
theorem proceed_of_inl {q q' : Bytes} (hfirst : (readHead head (buf ++ q)).state = .inl head')
    (ih : ∀ headerBytes, consumeAll (q' :: bufs) (waiting bodyBytesMax head' (readHead head (buf ++ q)).rest headerBytes) =
      readAll bodyBytesMax head' (readHead head (buf ++ q)).rest headerBytes (q' :: bufs)) :
    proceed (q' :: bufs) (readAll bodyBytesMax head buf headerBytes [q]) = readAll bodyBytesMax head buf headerBytes (q :: q' :: bufs) := by
  have hrest := search_rest_of_inl headerDelimiter_ne_nil hfirst
  have hsuffix : (readHead head (buf ++ q)).rest.length ≤ (buf ++ q).length := (rest_suffix headerDelimiter_ne_nil).length_le
  unfold readAll at *
  rw [flatten_singleton, flatten_cons, ← append_assoc]
  unfold readHead at *
  rw [readLines_append headerDelimiter_ne_nil head (buf ++ q)]
  simp only [hfirst]
  generalize readLines headerDelimiter lineStep head (buf ++ q) = reading at *
  have hended (result : Except StatusCode Head)
      (hstate : (readLines headerDelimiter lineStep head' (reading.rest ++ (q' :: bufs).flatten)).state = .inr result) :=
    length_rest_lt_of_inr headerDelimiter_ne_nil hrest hstate
  have hleft : (readLines headerDelimiter lineStep head' (reading.rest ++ (q' :: bufs).flatten)).rest.length ≤
    (reading.rest ++ (q' :: bufs).flatten).length := (rest_suffix headerDelimiter_ne_nil).length_le
  generalize readLines headerDelimiter lineStep head' (reading.rest ++ (q' :: bufs).flatten) = again at *
  have hends : endsIn again.state again.rest (q :: q' :: bufs) = endsIn again.state again.rest (q' :: bufs) + 1 := by
    cases hstate : again.state with
    | inl _ => rfl
    | inr result =>
      have hlt := hended result hstate
      simp only [endsIn, endsBefore, flatten_cons, length_append] at hlt ⊢
      rw [if_pos (by omega), show q.length + (q'.length + bufs.flatten.length) - again.rest.length - q.length =
        q'.length + bufs.flatten.length - again.rest.length by omega]
  have hfirstEnds : endsIn (.inl head') reading.rest [q] = 0 := rfl
  simp only [hends, hfirstEnds, length_append] at ih hsuffix hleft ⊢
  rw [conclude]
  by_cases hcheck : maxHeaderSize < headerBytes + (buf.length + q.length - reading.rest.length) + reading.lines + 3 * 0 +
      reading.rest.length + 3
  · rw [if_pos hcheck, conclude_eq_error (by omega) fun result hstate => by have := hended result hstate; omega]
    rfl
  · have hproceed (r : Request) (hr : r.ready = false) : proceed (q' :: bufs) (.ok (q.length, r)) =
        (consumeAll (q' :: bufs) r).map fun result => (q.length + result.1, result.2) := by
      simp only [proceed, hr, Bool.false_eq_true, if_false]
    rw [if_neg hcheck, hproceed _ rfl, ih, conclude_map_add _ hended]
    congr 1
    omega

/-- Buffers that are passed one after the other come to what their bytes come to. -/
theorem consumeAll_eq (hbuf : search headerDelimiter buf = none) :
    consumeAll (q :: bufs) (waiting bodyBytesMax head buf headerBytes) = readAll bodyBytesMax head buf headerBytes (q :: bufs) := by
  induction bufs generalizing q head buf headerBytes with
  | nil => rw [consumeAll_cons, readAll_singleton hbuf, proceed_nil]
  | cons q' bufs ih =>
    rw [consumeAll_cons, readAll_singleton hbuf]
    cases hfirst : (readHead head (buf ++ q)).state with
    | inr result => exact proceed_of_inr hfirst
    | inl head' => exact proceed_of_inl hfirst fun _ => ih (search_rest_of_inl headerDelimiter_ne_nil hfirst)

end Request

end Osp.Websocketpp.Http
