import Osp.Lib.Lists
import Osp.Lighttpd.HttpChunk
import Osp.Lighttpd.Lemmas.Chunk

/-!
# Chunked responses decode to their body

The bytes of the write queue are a chunked body with the data that was appended, unless a part of a file with the length 0 is appended
after chunked coding has been switched on: this writes a last chunk.
-/

namespace Osp.Lighttpd

open Osp.Lib SizeLine ChunkCall List Option

/-! ## Bodies are read in one way -/

namespace SizeLine

variable {line line' : SizeLine} {more more' : Bytes}

theorem text_eq (h : line.bytes ++ more = line'.bytes ++ more') : line.text = line'.text ∧ more = more' := by
  have hsearch (l : SizeLine) (m : Bytes) : search [13] (l.bytes ++ m) = some (l.text, 10 :: m) := by
    have hshape : l.bytes ++ m = l.text ++ 13 :: 10 :: m := by simp [bytes, crlf]
    rw [hshape]
    exact search_singleton (l.notMem_text (by decide) (.inr (.inr rfl)))
  have heq := (hsearch line more).symm.trans ((congrArg _ h).trans (hsearch line' more'))
  simpa using heq

/-- The digits are those at the start of the line. -/
theorem digits_eq (line : SizeLine) : (line.text ++ crlf).takeWhile (fun c => (hex2int c).isSome) = line.digits := by
  have hhead := line.hex2int_head? []
  rw [append_nil] at hhead
  rw [text, append_assoc, takeWhile_append_of_pos line.hex]
  cases hext : line.ext ++ crlf with
  | nil => simp [crlf] at hext
  | cons c rest =>
    rw [hext] at hhead
    simp [hhead c rfl]

theorem size_eq_of_text (h : line.text = line'.text) : line.size = line'.size := by
  rw [size, size, ← line.digits_eq, ← line'.digits_eq, h]

end SizeLine

namespace ChunkedBody

variable {body body' : ChunkedBody} {more more' : Bytes}

theorem ending_eq (h : body.ending ++ more = body'.ending ++ more') : more = more' := by
  have hshape (b : ChunkedBody) (m : Bytes) : b.ending ++ m = b.last.bytes ++ (b.trailers ++ crlf ++ m) := by simp [ending]
  rw [hshape, hshape] at h
  have htrailers := (text_eq h).2
  obtain ⟨before, hsearch⟩ := body.trailers_end
  obtain ⟨before', hsearch'⟩ := body'.trailers_end
  have hfound := search_append hsearch more
  have hfound' := search_append hsearch' more'
  simp only [append_assoc] at hfound hfound' htrailers
  rw [htrailers, hfound'] at hfound
  simpa using (congrArg Prod.snd (Option.some.inj hfound)).symm

/-- A stream starts with at most one body. -/
theorem unique_chunks (chunks chunks' : List DataChunk)
    (h : chunks.flatMap DataChunk.bytes ++ (body.ending ++ more) = chunks'.flatMap DataChunk.bytes ++ (body'.ending ++ more')) :
    chunks.flatMap DataChunk.data = chunks'.flatMap DataChunk.data ∧ more = more' := by
  have hends (b : ChunkedBody) (m : Bytes) : b.ending ++ m = b.last.bytes ++ (b.trailers ++ crlf ++ m) := by simp [ending]
  have hstarts (c : DataChunk) (rest : List DataChunk) (m : Bytes) :
      (c :: rest).flatMap DataChunk.bytes ++ m = c.line.bytes ++ (c.data ++ (crlf ++ (rest.flatMap DataChunk.bytes ++ m))) := by
    simp [DataChunk.bytes]
  have hsize (c : DataChunk) : c.line.size ≠ 0 := by
    rw [c.size_eq]
    exact fun h => c.data_ne_nil (length_eq_zero_iff.1 h)
  induction chunks generalizing chunks' with
  | nil =>
    cases chunks' with
    | nil => exact ⟨rfl, ending_eq h⟩
    | cons c chunks' =>
      rw [hstarts, flatMap_nil, nil_append, hends] at h
      exact absurd ((size_eq_of_text (text_eq h).1).symm.trans body.last_size) (hsize c)
  | cons c chunks ih =>
    cases chunks' with
    | nil =>
      rw [hstarts, flatMap_nil, nil_append, hends body'] at h
      exact absurd ((size_eq_of_text (text_eq h).1).trans body'.last_size) (hsize c)
    | cons c' chunks' =>
      rw [hstarts, hstarts] at h
      obtain ⟨htext, hrest⟩ := text_eq h
      have hlength : c.data.length = c'.data.length := by rw [← c.size_eq, ← c'.size_eq, size_eq_of_text htext]
      obtain ⟨hdata, hrest⟩ := append_inj hrest hlength
      obtain ⟨hchunks, hmore⟩ := ih chunks' (append_cancel_left hrest)
      exact ⟨by rw [flatMap_cons, flatMap_cons, hdata, hchunks], hmore⟩

theorem unique (h : body.bytes ++ more = body'.bytes ++ more') : body.data = body'.data ∧ more = more' := by
  rw [bytes, bytes, append_assoc, append_assoc] at h
  exact unique_chunks _ _ h

end ChunkedBody

/-! ## Sizes -/

theorem hex2int_hexCharLc {n : Nat} (h : n < 16) : hex2int (hexCharLc n) = some n := by
  have hall : ∀ k : Fin 16, hex2int (hexCharLc k) = some (k : Nat) := by decide
  exact hall ⟨n, h⟩

theorem hexValue_nibbles (n value k : Nat) : hexValue n (nibbles value k) = n * 16 ^ k + value % 16 ^ k := by
  induction k generalizing n with
  | zero => simp [nibbles, hexValue, Nat.mod_one]
  | succ k ih =>
    have hshift : value >>> (4 * k) = value / 16 ^ k := by
      rw [Nat.shiftRight_eq_div_pow, pow_mul]
      norm_num
    rw [nibbles, hexValue, hex2int_hexCharLc (Nat.mod_lt _ (by decide)), ih, hshift, getD_some, Nat.mod_pow_succ, pow_succ]
    ring

theorem lt_byteCount (fuel value : Nat) (h : value ≤ fuel) : value < 16 ^ (2 * byteCount fuel value) := by
  induction fuel generalizing value with
  | zero =>
    rw [Nat.le_zero.1 h]
    decide
  | succ fuel ih =>
    rw [byteCount]
    split
    · omega
    · have hdiv := ih (value / 256) (by omega)
      have hpow : 16 ^ (2 * (byteCount fuel (value / 256) + 1)) = 256 * 16 ^ (2 * byteCount fuel (value / 256)) := by
        ring
      omega

theorem hexValue_uintHex (value : Nat) : hexValue 0 (uintHex value) = value := by
  rw [uintHex, hexValue_nibbles, Nat.zero_mul, Nat.zero_add, Nat.mod_eq_of_lt (lt_byteCount value value le_rfl)]

theorem hex_nibbles (value k : Nat) : ∀ c ∈ nibbles value k, (hex2int c).isSome = true := by
  induction k with
  | zero => simp [nibbles]
  | succ k ih =>
    intro c hc
    rcases mem_cons.1 hc with rfl | hc
    · rw [hex2int_hexCharLc (Nat.mod_lt _ (by decide))]
      rfl
    · exact ih c hc

theorem byteCount_pos (fuel value : Nat) : 0 < byteCount fuel value := by
  cases fuel with
  | zero => exact Nat.one_pos
  | succ fuel =>
    rw [byteCount]
    split <;> omega

theorem uintHex_ne_nil (value : Nat) : uintHex value ≠ [] := by
  obtain ⟨k, hk⟩ := Nat.exists_eq_add_one_of_ne_zero (byteCount_pos value value).ne'
  rw [uintHex, hk, Nat.mul_add, nibbles]
  simp

/-- The size line that is written. -/
def lineOf (n : Nat) : SizeLine where
  digits := uintHex n
  ext := []
  digits_ne_nil := uintHex_ne_nil n
  hex := hex_nibbles n _
  ext_text := ext_text_nil
  ext_start := ext_start_nil

theorem size_lineOf (n : Nat) : (lineOf n).size = n := hexValue_uintHex n

theorem bytes_lineOf (n : Nat) : (lineOf n).bytes = sizeLine n := by simp [bytes, text, lineOf, sizeLine]

/-- The chunk that is written for data. -/
def chunkOf (data : Bytes) (h : data ≠ []) : DataChunk := ⟨lineOf data.length, data, size_lineOf _, h⟩

/-- The chunks that are written for pieces of data. -/
def chunksOf : List Bytes → List DataChunk
  | [] => []
  | data :: rest => if h : data = [] then chunksOf rest else chunkOf data h :: chunksOf rest

/-- The bytes of the chunk for a piece of data, which are none if there is no data. -/
def frame (data : Bytes) : Bytes := if data = [] then [] else sizeLine data.length ++ data ++ crlf

theorem bytes_chunksOf (pieces : List Bytes) : (chunksOf pieces).flatMap DataChunk.bytes = pieces.flatMap frame := by
  induction pieces with
  | nil => rfl
  | cons data pieces ih =>
    rw [chunksOf, flatMap_cons, frame]
    split
    · exact ih
    · rw [flatMap_cons, ih, DataChunk.bytes, chunkOf, bytes_lineOf]

theorem data_chunksOf (pieces : List Bytes) : (chunksOf pieces).flatMap DataChunk.data = pieces.flatten := by
  induction pieces with
  | nil => rfl
  | cons data pieces ih =>
    rw [chunksOf, flatten_cons]
    split
    · rename_i h
      rw [ih, h, nil_append]
    · rw [flatMap_cons, ih, chunkOf]

/-- A body without trailers. -/
def bodyOf (pieces : List Bytes) (last : SizeLine) (h : last.size = 0) : ChunkedBody where
  chunks := chunksOf pieces
  last := last
  last_size := h
  trailers := []
  trailers_nul := ChunkedBody.trailers_nul_nil
  trailers_end := ChunkedBody.trailers_end_nil

theorem bytes_bodyOf (pieces : List Bytes) (last : SizeLine) (h : last.size = 0) :
    (bodyOf pieces last h).bytes = pieces.flatMap frame ++ (last.bytes ++ crlf) := by
  simp [ChunkedBody.bytes, ChunkedBody.ending, bodyOf, bytes_chunksOf]

/-! ## What a call appends -/

/-- The call is for a part of a file with the length 0. -/
def ChunkCall.isEmptyRange : ChunkCall → Bool
  | fileRange _ length => length = 0
  | _ => false

/-- What a call appends to the write queue. -/
def ChunkCall.bytes (env : ChunkEnv) (chunked : Bool) (call : ChunkCall) : Bytes :=
  if chunked then if call.isEmptyRange then sizeLine 0 ++ crlf else frame (call.data env) else call.data env

/-- A connection after bytes were appended to its write queue. -/
structure ChunkCon.Appends (con : ChunkCon) (bytes : Bytes) (con' : ChunkCon) : Prop where
  chunked : con'.chunked = con.chunked
  bytes : con'.queue.bytes = con.queue.bytes ++ bytes

namespace ChunkCon

variable {con con' con'' : ChunkCon} {env : ChunkEnv} {data data' : Bytes}

theorem Appends.refl (con : ChunkCon) : con.Appends [] con := ⟨rfl, by simp⟩

theorem Appends.trans (h : con.Appends data con') (h' : con'.Appends data' con'') : con.Appends (data ++ data') con'' :=
  ⟨h'.chunked.trans h.chunked, by rw [h'.bytes, h.bytes, append_assoc]⟩

theorem appends_appendLen (con : ChunkCon) (n : Nat) : con.Appends (if con.chunked then sizeLine n else []) (con.appendLen n) := by
  unfold appendLen
  split
  · exact ⟨rfl, ChunkQueue.bytes_appendMem _⟩
  · exact .refl con

theorem appends_appendCrlf : con.Appends (if con.chunked then crlf else []) con.appendCrlf := by
  unfold appendCrlf
  split
  · exact ⟨rfl, ChunkQueue.bytes_appendMem _⟩
  · exact .refl con

/-- Data in a chunk, if the coding is chunked. -/
theorem appends_framed {append : ChunkQueue → ChunkQueue} (happend : ∀ cq, (append cq).bytes = cq.bytes ++ data) :
    con.Appends (if con.chunked then sizeLine data.length ++ data ++ crlf else data)
      (ChunkCon.mk (append (con.appendLen data.length).queue) (con.appendLen data.length).chunked).appendCrlf := by
  have hlen := appends_appendLen con data.length
  generalize con.appendLen data.length = con₁ at hlen
  have hdata : con₁.Appends data ⟨append con₁.queue, con₁.chunked⟩ := ⟨rfl, happend _⟩
  have hall := (hlen.trans hdata).trans (appends_appendCrlf)
  have hchunked := hlen.chunked
  simp only [hchunked] at hall ⊢
  cases hcon : con.chunked with
  | false => simpa [hcon] using hall
  | true => simpa [hcon] using hall

theorem appends_appendFileFdRange (con : ChunkCon) (part : Bytes) :
    con.Appends (if con.chunked then sizeLine part.length ++ part ++ crlf else part) (con.appendFileFdRange part) :=
  appends_framed (fun _ => ChunkQueue.bytes_appendFile part)

theorem appends_writeTempfile (h : con.writeTempfile env data = some con') : con.Appends data con' := by
  unfold writeTempfile at h
  split at h
  · rename_i hwrite
    cases h
    exact ⟨rfl, env.files.bytes_append hwrite⟩
  · cases h

theorem appends_appendToTempfile (h : con.appendToTempfile env data = some con') :
    con.Appends (if con.chunked then sizeLine data.length ++ data ++ crlf else data) con' := by
  unfold appendToTempfile at h
  split at h
  · rename_i hchunked
    obtain ⟨con₁, h₁, h⟩ := bind_eq_some_iff.1 h
    obtain ⟨con₂, h₂, h₃⟩ := bind_eq_some_iff.1 h
    rw [if_pos hchunked]
    exact ((appends_writeTempfile h₁).trans (appends_writeTempfile h₂)).trans (appends_writeTempfile h₃)
  · rename_i hchunked
    rw [if_neg hchunked]
    exact appends_writeTempfile h

theorem frame_of_ne_nil (h : data ≠ []) : frame data = sizeLine data.length ++ data ++ crlf := if_neg h

theorem appends_appendData (h : con.appendData env data = some con') : con.Appends (if con.chunked then frame data else data) con' := by
  unfold appendData at h
  split at h
  · rename_i hempty
    cases h
    rw [length_eq_zero_iff.1 hempty]
    simpa [frame] using Appends.refl con
  · rename_i hne
    rw [frame_of_ne_nil fun hnil => hne (by rw [hnil]; rfl)]
    split at h
    · exact appends_appendToTempfile h
    · cases h
      exact appends_framed (fun _ => ChunkQueue.bytes_appendMem data)

/-- What a call appends: a chunk with its data, if there is any, and a last chunk for a part of a file with the length 0. -/
theorem appends_run {call : ChunkCall} (h : call.run env con = some con') : con.Appends (call.bytes env con.chunked) con' := by
  have hpart {part : Bytes} (hne : part ≠ []) :
      con.Appends (if con.chunked then frame part else part) (con.appendFileFdRange part) := by
    rw [frame_of_ne_nil hne]
    exact appends_appendFileFdRange con part
  cases call with
  | buffer mem => exact appends_appendData h
  | mem mem => exact appends_appendData h
  | file =>
    simp only [run, appendFile] at h
    split at h
    · cases h
    · rename_i content hfound
      simp only [ChunkCall.bytes, data, isEmptyRange, hfound, getD_some, Bool.false_eq_true, if_false]
      split at h
      · rename_i hne
        cases h
        exact hpart fun hnil => hne (by rw [hnil]; rfl)
      · rename_i hempty
        cases h
        rw [length_eq_zero_iff.1 (not_not.1 hempty)]
        simpa [frame] using Appends.refl con
  | fileRange offset length =>
    simp only [run, appendFileRange] at h
    split at h
    · cases h
    · rename_i content hfound
      simp only [ChunkCall.bytes, data, isEmptyRange, hfound, getD_some, decide_eq_true_eq]
      split at h
      · rename_i hlength
        simp only [hlength, if_true]
        split at h
        · rename_i hle
          split at h
          · cases h
            rw [drop_eq_nil_of_le hle]
            simpa [frame] using Appends.refl con
          · cases h
        · rename_i hlt
          cases h
          refine hpart fun hnil => hlt ?_
          exact drop_eq_nil_iff.1 hnil
      · rename_i hlength
        rw [if_neg hlength]
        split at h
        · cases h
        · cases h
          by_cases hzero : length = 0
          · subst hzero
            have hall := appends_appendFileFdRange con []
            simpa using hall
          · rw [if_neg hzero]
            refine hpart fun hnil => ?_
            have := congrArg List.length hnil
            simp only [length_take, length_drop, length_nil] at this
            omega

end ChunkCon

/-- What a series of calls appends. -/
theorem appends_runCalls {calls : List (ChunkEnv × ChunkCall)} {con con' : ChunkCon} (h : runCalls con calls = some con') :
    con.Appends (calls.flatMap fun call => call.2.bytes call.1 con.chunked) con' := by
  induction calls generalizing con with
  | nil =>
    cases h
    exact .refl _
  | cons call calls ih =>
    obtain ⟨con₁, hrun, hrest⟩ := bind_eq_some_iff.1 h
    have hcall := ChunkCon.appends_run hrun
    have hcalls := ih hrest
    rw [hcall.chunked] at hcalls
    exact hcall.trans hcalls

theorem bytes_startChunked (con : ChunkCon) : con.startChunked.queue.bytes = frame con.queue.bytes := by
  have hlength := con.queue.length_eq
  have hprepend {mem : Bytes} (hne : mem ≠ []) : (con.queue.prependBuffer mem).bytes = mem ++ con.queue.bytes := by
    simp [ChunkQueue.prependBuffer, hne, ChunkQueue.bytes]
  have hline (n : Nat) : sizeLine n ≠ [] := by simp [sizeLine, crlf]
  unfold ChunkCon.startChunked frame
  rw [hlength]
  by_cases hnil : con.queue.bytes = []
  · rw [if_neg (by simp [hnil]), if_pos hnil, hnil]
  · rw [if_pos (by simpa using hnil), if_neg hnil, ChunkQueue.bytes_appendMem, hprepend (hline _)]

/-! ## The result -/

theorem bytes_close (con : ChunkCon) (h : con.chunked = true) : con.close.queue.bytes = con.queue.bytes ++ textBytes "0\r\n\r\n" := by
  rw [ChunkCon.close, if_pos h]
  exact ChunkQueue.bytes_appendMem _

/-- The last chunk that is written at the end. -/
def zeroLine : SizeLine where
  digits := [48]
  ext := []
  digits_ne_nil := by decide
  hex := List.forall_mem_singleton.2 (by decide)
  ext_text := ext_text_nil
  ext_start := ext_start_nil

theorem textBytes_zeroLine : textBytes "0\r\n\r\n" = zeroLine.bytes ++ crlf := by decide

theorem flatMap_bytes_of_frame {calls : List (ChunkEnv × ChunkCall)} (h : ∀ call ∈ calls, call.2.isEmptyRange = false) :
    (calls.flatMap fun call => call.2.bytes call.1 true) = (calls.map fun call => call.2.data call.1).flatMap frame := by
  rw [flatMap_map]
  exact flatMap_congr fun call hcall => by simp [ChunkCall.bytes, h call hcall]

/-- The bytes of the write queue at the end of a response. -/
theorem bytes_response {con con₁ con₂ : ChunkCon} {before after : List (ChunkEnv × ChunkCall)} (hchunked : con.chunked = false)
    (hempty : con.queue.bytes = []) (hbefore : runCalls con before = some con₁) (hafter : runCalls con₁.startChunked after = some con₂) :
    con₂.close.queue.bytes =
      frame (callsData before) ++ (after.flatMap fun call => call.2.bytes call.1 true) ++ (zeroLine.bytes ++ crlf) := by
  have hdata := (appends_runCalls hbefore).bytes
  rw [hchunked, hempty, nil_append] at hdata
  change _ = callsData before at hdata
  have hall := appends_runCalls hafter
  have hstart : con₁.startChunked.chunked = true := rfl
  rw [hstart] at hall
  rw [bytes_close con₂ (hall.chunked.trans hstart), hall.bytes, bytes_startChunked, hdata, textBytes_zeroLine]

section

variable {con con₁ con₂ : ChunkCon} {before after : List (ChunkEnv × ChunkCall)} (hchunked : con.chunked = false)
  (hempty : con.queue.bytes = []) (hbefore : runCalls con before = some con₁) (hafter : runCalls con₁.startChunked after = some con₂)

include hchunked hempty hbefore hafter

/-- A call for a part of a file with the length 0 writes a last chunk, and more follows. -/
theorem not_body_of_emptyRange (h : ¬ ∀ call ∈ after, call.2.isEmptyRange = false) :
    ¬ ∃ body : ChunkedBody, con₂.close.queue.bytes = body.bytes := by
  rintro ⟨body, hbody⟩
  obtain ⟨calls, call, rest, hafter', hcalls, hcall⟩ := exists_first (fun call : ChunkEnv × ChunkCall => call.2.isEmptyRange) h
  have hearly : con₂.close.queue.bytes ++ [] =
      (bodyOf (callsData before :: calls.map fun call => call.2.data call.1) (lineOf 0) (size_lineOf 0)).bytes ++
        ((rest.flatMap fun call => call.2.bytes call.1 true) ++ (zeroLine.bytes ++ crlf)) := by
    have hzero : call.2.bytes call.1 true = (lineOf 0).bytes ++ crlf := by simp [ChunkCall.bytes, hcall, bytes_lineOf]
    rw [append_nil, bytes_response hchunked hempty hbefore hafter, hafter', flatMap_append, flatMap_cons,
      flatMap_bytes_of_frame hcalls, bytes_bodyOf, flatMap_cons, hzero]
    simp
  rw [hbody] at hearly
  have hnil := (ChunkedBody.unique hearly).2
  simp [crlf] at hnil

theorem exists_body (h : ∀ call ∈ after, call.2.isEmptyRange = false) :
    ∃ body : ChunkedBody, con₂.close.queue.bytes = body.bytes ∧ body.data = callsData before ++ callsData after := by
  refine ⟨bodyOf (callsData before :: after.map fun call => call.2.data call.1) zeroLine (by decide), ?_, ?_⟩
  · rw [bytes_response hchunked hempty hbefore hafter, bytes_bodyOf, flatMap_bytes_of_frame h, flatMap_cons]
  · rw [ChunkedBody.data, bodyOf, data_chunksOf, flatten_cons, callsData, callsData, flatMap_def, flatMap_def]

end

/-- The write queue holds one chunked body, with the data that was appended, unless a part of a file with the length 0 was appended after
chunked coding had been switched on. -/
theorem chunkedBody_iff {con con₁ con₂ : ChunkCon} {before after : List (ChunkEnv × ChunkCall)} (hchunked : con.chunked = false)
    (hempty : con.queue.bytes = []) (hbefore : runCalls con before = some con₁) (hafter : runCalls con₁.startChunked after = some con₂) :
    (∃ body : ChunkedBody, con₂.close.queue.bytes = body.bytes ∧ body.data = callsData before ++ callsData after) ↔
      ∀ call ∈ after, call.2.isEmptyRange = false := by
  refine ⟨fun ⟨body, hbody, _⟩ => ?_, exists_body hchunked hempty hbefore hafter⟩
  by_contra hno
  exact not_body_of_emptyRange hchunked hempty hbefore hafter hno ⟨body, hbody⟩

/-- A connection without anything to send. -/
def idleCon : ChunkCon := ⟨⟨[], 0, 0⟩, false⟩

/-- What a call finds: a file with the bytes `abc`, and no need for temporary files. -/
def abcEnv : ChunkEnv := ⟨.reliable, false, false, some (textBytes "abc")⟩

/-- Data before chunked coding is switched on, a part of a file, nothing, and data for a temporary file. -/
theorem chunkedBody_iff_abc : ∃ con₁ con₂, runCalls idleCon [(abcEnv, .mem (textBytes "x"))] = some con₁ ∧
    runCalls con₁.startChunked [(abcEnv, .fileRange 1 (-1)), (abcEnv, .buffer []), ({ abcEnv with lastIsTemp := true }, .mem (textBytes "y"))] =
      some con₂ ∧
    con₂.close.queue.bytes = textBytes "01\r\nx\r\n02\r\nbc\r\n01\r\ny\r\n0\r\n\r\n" ∧
    ∃ body : ChunkedBody, con₂.close.queue.bytes = body.bytes ∧ body.data = textBytes "xbcy" := by
  refine ⟨_, _, rfl, rfl, by decide, ?_⟩
  have hbody := (@chunkedBody_iff idleCon _ _ [(abcEnv, .mem (textBytes "x"))]
    [(abcEnv, .fileRange 1 (-1)), (abcEnv, .buffer []), ({ abcEnv with lastIsTemp := true }, .mem (textBytes "y"))] rfl rfl rfl rfl).2
    (by decide)
  obtain ⟨body, hbytes, hdata⟩ := hbody
  exact ⟨body, hbytes, hdata.trans (by decide)⟩

/-- A part of a file with the length 0 ends the body, and what follows is not a part of it. -/
theorem empty_range_ends_body : ∃ con₂, runCalls idleCon.startChunked [(abcEnv, .fileRange 0 0), (abcEnv, .mem (textBytes "y"))] = some con₂ ∧
    con₂.close.queue.bytes = textBytes "00\r\n\r\n01\r\ny\r\n0\r\n\r\n" ∧
    ¬ ∃ body : ChunkedBody, con₂.close.queue.bytes = body.bytes := by
  exact ⟨_, rfl, by decide,
    @not_body_of_emptyRange idleCon _ _ [] [(abcEnv, .fileRange 0 0), (abcEnv, .mem (textBytes "y"))] rfl rfl rfl rfl (by decide)⟩

end Osp.Lighttpd
