import Osp.Websocketpp.Lemmas.Http

/-!
# Requests in pieces

What reading a request comes to does not depend on how its bytes are cut into buffers, except for the check of `max_header_size`: every
buffer that ends before the head of the request does adds 3 to `m_header_bytes`, and these are never taken back.
-/

namespace Osp.Websocketpp.Http

open Osp.Lib Request List

variable {bodyBytesMax : Nat} {head : Head} {bytes : Bytes} {bufs : List Bytes} {c : UInt8}

/-- The count of header bytes of a request that comes in one buffer, at the last check. -/
def headerSize (bytes : Bytes) : Nat :=
  let reading := readHead .empty bytes
  match reading.state with
  | .inl _ => bytes.length + reading.lines + sizeofHeaderDelimiter
  | .inr _ => bytes.length - reading.rest.length + reading.lines

/-- How many buffers end before the head of the request does, or before the last buffer if it does not. -/
def interruptions (bufs : List Bytes) : Nat :=
  let reading := readHead .empty bufs.flatten
  match reading.state with
  | .inl _ => bufs.length - 1
  | .inr _ => endsBefore (bufs.flatten.length - reading.rest.length) bufs

/-- The count of header bytes exceeds the limit. -/
def Oversized (bufs : List Bytes) : Prop :=
  maxHeaderSize < headerSize bufs.flatten + sizeofHeaderDelimiter * interruptions bufs

instance (bufs : List Bytes) : Decidable (Oversized bufs) := inferInstanceAs (Decidable (_ < _))

/-- What the bytes of a request come to when its size is not checked. -/
def wholeOutcome (bodyBytesMax : Nat) (bytes : Bytes) : Except StatusCode Seen :=
  let reading := readHead .empty bytes
  match reading.state with
  | .inl head => .ok ⟨false, head, [], bytes.length⟩
  | .inr result =>
    (afterHead bodyBytesMax 0 result reading.rest).map fun read => seen (bytes.length - reading.rest.length + read.1, read.2)

/-- The count of header bytes is not seen. -/
theorem seen_afterHead (headerBytes k : Nat) (result : Except StatusCode Head) (after : Bytes) :
    (afterHead bodyBytesMax headerBytes result after).map (fun read => seen (k + read.1, read.2)) =
      (afterHead bodyBytesMax 0 result after).map fun read => seen (k + read.1, read.2) := by
  cases result with
  | error status => rfl
  | ok head =>
    simp only [afterHead, beginBody, prepareBody, waiting]
    by_cases hlength : head.getHeader (textBytes "Content-Length") = []
    · simp only [hlength, if_true]
      rfl
    · simp only [hlength, if_false]
      by_cases hlarge : bodyBytesMax < strtoul (head.getHeader (textBytes "Content-Length"))
      · simp only [hlarge, if_true]
      · simp only [hlarge, if_false]
        rw [readBody_eq rfl rfl, readBody_eq rfl rfl]
        rfl

/-- A run comes to what the bytes come to, unless the count of header bytes exceeds the limit. -/
theorem outcome_eq :
    outcome bodyBytesMax bufs =
      if Oversized bufs then .error .requestHeaderFieldsTooLarge else wholeOutcome bodyBytesMax bufs.flatten := by
  cases bufs with
  | nil =>
    rfl
  | cons q bufs =>
    have hall : consumeAll (q :: bufs) (.new bodyBytesMax) = readAll bodyBytesMax .empty [] 0 (q :: bufs) := consumeAll_eq rfl
    have hle : (readHead .empty (q :: bufs).flatten).rest.length ≤ (q :: bufs).flatten.length := (rest_suffix headerDelimiter_ne_nil).length_le
    unfold outcome Oversized headerSize interruptions wholeOutcome
    rw [hall, readAll]
    obtain ⟨head, hstate⟩ | ⟨result, hstate⟩ :=
      Sum.exists.1 (⟨_, rfl⟩ : ∃ state, (readHead .empty (q :: bufs).flatten).state = state)
    all_goals simp only [hstate, conclude, endsIn, nil_append, Nat.zero_add, sizeofHeaderDelimiter]
    · rw [apply_ite (Except.map seen)]
      exact if_congr (by omega) rfl rfl
    · split
      · rfl
      · rw [← seen_afterHead]
        cases afterHead bodyBytesMax _ result (readHead .empty (q :: bufs).flatten).rest <;> rfl

/-! ## Exceptions for other reasons -/

theorem badRequest_of_processLine {line : Bytes} {status : StatusCode} (h : head.processLine line = .error status) :
    status = .badRequest := by
  unfold Head.processLine Head.process Head.processHeader Head.appendHeader at h
  split at h
  · split at h
    · cases h
      rfl
    · split at h
      · cases h
        rfl
      · split at h <;> cases h
        rfl
  · split at h
    · cases h
      rfl
    · split at h <;> cases h
      rfl

theorem badRequest_of_readHead {status : StatusCode} (h : (readHead head bytes).state = .inr (.error status)) :
    status = .badRequest := by
  unfold readHead at h
  induction head, bytes using readLines_induct lineStep headerDelimiter_ne_nil with
  | none head bytes hsearch =>
    rw [readLines_of_none hsearch] at h
    cases h
  | more head bytes line after head' hsearch hstep ih =>
    rw [readLines_of_more headerDelimiter_ne_nil hsearch hstep] at h
    exact ih h
  | done head bytes line after result hsearch hstep =>
    rw [readLines_of_end hsearch hstep] at h
    cases h
    unfold lineStep at hstep
    split at hstep
    · have hresult := Sum.inr.inj hstep
      split at hresult <;> cases hresult
      rfl
    · split at hstep
      · rename_i hprocess
        cases hstep
        exact badRequest_of_processLine hprocess
      · cases hstep

/-- The bytes themselves never come to the exception for the size of the header. -/
theorem wholeOutcome_ne : wholeOutcome bodyBytesMax bytes ≠ .error .requestHeaderFieldsTooLarge := by
  unfold wholeOutcome
  cases hstate : (readHead .empty bytes).state with
  | inl head => simp [hstate]
  | inr result =>
    simp only [hstate]
    cases result with
    | error status =>
      rw [badRequest_of_readHead hstate]
      rintro ⟨⟩
    | ok head =>
      simp only [afterHead, beginBody, prepareBody, waiting]
      by_cases hlength : head.getHeader (textBytes "Content-Length") = []
      · simp only [hlength, if_true]
        rintro ⟨⟩
      · simp only [hlength, if_false]
        by_cases hlarge : bodyBytesMax < strtoul (head.getHeader (textBytes "Content-Length"))
        · simp only [hlarge, if_true]
          rintro ⟨⟩
        · simp only [hlarge, if_false]
          rintro ⟨⟩

/-! ## Two ways to cut the bytes -/

theorem outcome_eq_iff {bufs₁ bufs₂ : List Bytes} (h : bufs₁.flatten = bufs₂.flatten) (bodyBytesMax : Nat) :
    outcome bodyBytesMax bufs₁ = outcome bodyBytesMax bufs₂ ↔ (Oversized bufs₁ ↔ Oversized bufs₂) := by
  rw [outcome_eq, outcome_eq, h]
  by_cases h₁ : Oversized bufs₁ <;> by_cases h₂ : Oversized bufs₂ <;> simp only [h₁, h₂, if_true, if_false]
  · exact iff_of_false (Ne.symm wholeOutcome_ne) (by simp)
  · exact iff_of_false wholeOutcome_ne (by simp)

/-- A request with a body of two bytes, in one buffer and cut in a line end and in the body. -/
theorem outcome_eq_iff_two :
    let request := textBytes "PUT / HTTP/1.1\r\nHost: a\r\nContent-Length: 2\r\n\r\nxy"
    outcome 100 [request] = outcome 100 [request.take 15, (request.drop 15).take 32, request.drop 47] ∧
      outcome 100 [request] = .ok ⟨true, ⟨textBytes "PUT", textBytes "/", textBytes "HTTP/1.1",
        [(textBytes "Host", textBytes "a"), (textBytes "Content-Length", textBytes "2")]⟩, textBytes "xy", 48⟩ :=
  ⟨(outcome_eq_iff (by decide) 100).2 (by decide), by decide⟩

/-- A request whose header has 4032 bytes. -/
def longRequest : Bytes := textBytes "GET / HTTP/1.1\r\nHost: a\r\nX: " ++ List.replicate 4000 98 ++ textBytes "\r\n\r\n"

theorem extractLws_of_text (l : Bytes) (hc : c ≠ 13) (hblank : isWhitespaceChar c = false) : extractLws (c :: l) = c :: l := by
  unfold extractLws
  split
  · rename_i heq
    cases heq
    exact absurd rfl hc
  · simp [hblank]

theorem stripLws_blank_replicate (n : Nat) (hc : c ≠ 13) (hblank : isWhitespaceChar c = false) :
    stripLws (32 :: List.replicate (n + 1) c) = List.replicate (n + 1) c := by
  have hbegin : extractAllLws (32 :: List.replicate (n + 1) c) = List.replicate (n + 1) c := by
    have hspace : extractLws (32 :: List.replicate (n + 1) c) = List.replicate (n + 1) c := by
      simp [extractLws, replicate_succ, hblank, show isWhitespaceChar 32 = true from rfl]
    have hrest := extractLws_of_text (List.replicate n c) hc hblank
    rw [← replicate_succ] at hrest
    simp [extractAllLws, extractLwsLoop, hspace, hrest]
  have hrbegin : extractAllLws (32 :: List.replicate (n + 1) c).reverse = List.replicate (n + 1) c ++ [32] := by
    rw [reverse_cons, reverse_replicate, replicate_succ, cons_append]
    simp [extractAllLws, extractLwsLoop, extractLws_of_text _ hc hblank]
  unfold stripLws
  rw [hbegin, hrbegin]
  simp

/-- A request with a field of `n + 1` bytes. -/
def requestWith (n : Nat) : Bytes :=
  textBytes "GET / HTTP/1.1\r\nHost: a\r\nX: " ++ List.replicate (n + 1) 98 ++ textBytes "\r\n\r\n"

def headWith (n : Nat) : Head :=
  ⟨textBytes "GET", textBytes "/", textBytes "HTTP/1.1", [(textBytes "Host", textBytes "a"), (textBytes "X", List.replicate (n + 1) 98)]⟩

theorem length_requestWith (n : Nat) : (requestWith n).length = n + 33 := by
  rw [requestWith, length_append, length_append, length_replicate, Nat.add_comm _ (n + 1)]
  rfl

theorem readHead_requestWith (n : Nat) : readHead .empty (requestWith n) = ⟨4, .inr (.ok (headWith n)), []⟩ := by
  have hlines : requestWith n =
      textBytes "GET / HTTP/1.1" ++ 13 :: ([10] ++ (textBytes "Host: a" ++ 13 :: ([10] ++
        (([88, 58, 32] ++ List.replicate (n + 1) 98) ++ 13 :: ([10] ++ [13, 10]))))) := by
    have hfirst : textBytes "GET / HTTP/1.1\r\nHost: a\r\nX: " =
        textBytes "GET / HTTP/1.1" ++ 13 :: ([10] ++ (textBytes "Host: a" ++ 13 :: ([10] ++ [88, 58, 32]))) := by decide
    have hlast : textBytes "\r\n\r\n" = 13 :: ([10] ++ [13, 10]) := by decide
    rw [requestWith, hfirst, hlast]
    simp only [append_assoc, cons_append, nil_append]
  have hfield : search headerSeparator ([88, 58, 32] ++ List.replicate (n + 1) 98) = some ([88], 32 :: List.replicate (n + 1) 98) :=
    search_cons [] (show (58 : UInt8) ∉ [88] by decide)
  have hstep : lineStep ⟨textBytes "GET", textBytes "/", textBytes "HTTP/1.1", [(textBytes "Host", textBytes "a")]⟩
      ([88, 58, 32] ++ List.replicate (n + 1) 98) = .inl (headWith n) := by
    rw [lineStep, if_neg (by simp), Head.processLine, if_neg (by decide), Head.processHeader, hfield]
    simp only
    rw [stripLws_blank_replicate n (by decide) (by decide)]
    rfl
  have hget : lineStep .empty (textBytes "GET / HTTP/1.1") =
      .inl ⟨textBytes "GET", textBytes "/", textBytes "HTTP/1.1", []⟩ := by decide
  have hhost : lineStep ⟨textBytes "GET", textBytes "/", textBytes "HTTP/1.1", []⟩ (textBytes "Host: a") =
      .inl ⟨textBytes "GET", textBytes "/", textBytes "HTTP/1.1", [(textBytes "Host", textBytes "a")]⟩ := by decide
  have hblank : search headerDelimiter [13, 10] = some ([], []) := by decide
  rw [hlines, readHead, readLines_of_more headerDelimiter_ne_nil (search_cons [10] (by decide)) hget,
    readLines_of_more headerDelimiter_ne_nil (search_cons [10] (by decide)) hhost,
    readLines_of_more headerDelimiter_ne_nil (search_cons [10] (by simp)) hstep, readLines_of_end hblank rfl]
  rfl

/-- All bytes but the last end before it. -/
theorem endsBefore_bytes (l : Bytes) (n : Nat) : endsBefore (n + 1) (l.map fun c => [c]) = min n l.length := by
  induction l generalizing n with
  | nil => simp [endsBefore]
  | cons c l ih =>
    cases n with
    | zero => simp [endsBefore]
    | succ n =>
      rw [map_cons, endsBefore, if_pos (by simp), length_singleton, Nat.add_sub_cancel, ih, length_cons]
      omega

theorem outcome_requestWith {n : Nat} (hn : n + 37 ≤ maxHeaderSize) :
    outcome 100 [requestWith n] = .ok ⟨true, headWith n, [], n + 33⟩ := by
  have hsmall : ¬ Oversized [requestWith n] := by
    simp only [Oversized, headerSize, interruptions, flatten_singleton, readHead_requestWith, length_requestWith, endsBefore,
      length_nil]
    rw [if_neg (by omega)]
    omega
  rw [outcome_eq, if_neg hsmall, flatten_singleton]
  simp only [wholeOutcome, readHead_requestWith, length_requestWith]
  rfl

theorem outcome_requestWith_bytes {n : Nat} (hn : maxHeaderSize < n + 37 + 3 * (n + 32)) :
    outcome 100 ((requestWith n).map fun c => [c]) = .error .requestHeaderFieldsTooLarge := by
  have hflatten : ((requestWith n).map fun c => [c]).flatten = requestWith n := flatMap_singleton' _
  have hlarge : Oversized ((requestWith n).map fun c => [c]) := by
    simp only [Oversized, headerSize, interruptions, hflatten, readHead_requestWith, length_requestWith, length_nil, Nat.sub_zero]
    rw [endsBefore_bytes, length_requestWith, sizeofHeaderDelimiter]
    omega
  rw [outcome_eq, if_pos hlarge]

/-- In one buffer the request is read; byte by byte its header is taken to exceed 16000 bytes. -/
theorem outcome_byte_by_byte :
    outcome 100 [longRequest] = .ok ⟨true, ⟨textBytes "GET", textBytes "/", textBytes "HTTP/1.1",
      [(textBytes "Host", textBytes "a"), (textBytes "X", List.replicate 4000 98)]⟩, [], 4032⟩ ∧
      outcome 100 (longRequest.map fun c => [c]) = .error .requestHeaderFieldsTooLarge :=
  ⟨outcome_requestWith (n := 3999) (by decide), outcome_requestWith_bytes (n := 3999) (by decide)⟩

end Osp.Websocketpp.Http
