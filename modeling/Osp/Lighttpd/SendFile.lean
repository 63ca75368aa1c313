import Osp.Lighttpd.Request

/-!
# Sending a file

`http_response_send_file` and `http_response_parse_range` of `http-header-glue.c`: the status, the headers and the body of the response
for a file of which ranges may be requested. The body is the list of what is appended to the write queue. The functions run before the
headers are written, so that chunked coding has not started.
-/

namespace Osp.Lighttpd

open Osp.Lib

/-- What is appended to the write queue: bytes, or a part of a file. -/
inductive Piece
  | mem (data : Bytes)
  | file (name : Bytes) (start length : Int)
deriving DecidableEq

/-- What `stat` says of a file, with the type, the entity tag, which is empty if there is none, and the time of its last change as
they are sent. -/
structure FileStat where
  size : Nat
  size_lt : size < 2 ^ 63
  isSymlink : Bool
  isRegular : Bool
  contentType : Bytes
  etag : Bytes
  mtime : Bytes

/-- The values of `errno` that are told apart. -/
inductive StatError
  | noEntry
  | other
deriving DecidableEq

/-- What the functions use of a connection for the response. `parsedContentLength` is the flag `HTTP_CONTENT_LENGTH` of
`parsed_response`, and `direct` says whether the mode is `DIRECT`. -/
structure Response where
  httpStatus : Nat
  headers : Headers
  etag : Bytes
  contentLength : Int
  parsedContentLength : Bool
  queue : List Piece
  fileFinished : Bool
  direct : Bool

/-- What the functions use of the configuration and of the file system: what `stat_cache_get_entry` and
`http_chunk_append_file_open_fstat` find, the latter the size of the file that is open; and how `http_response_handle_cachable` answers
a conditional request, with the status that it sets, if it finishes the request. -/
structure FileEnv where
  followSymlink : Bool
  rangeRequests : Bool
  forceLowercaseFilenames : Bool
  stat : Bytes → Except StatError FileStat
  openFstat : Bytes → Option Nat
  handleCachable : Bytes → Bytes → Option (Option Nat)

namespace Response

variable (r : Response)

/-- `response_header_insert`. The value of a header that is there is continued: it has been set, unless it is a `Content-Length`. -/
def headerInsert (key value : Bytes) : Response :=
  { r with
    headers :=
      match r.headers.getElement key with
      | none => r.headers ++ [(key, value)]
      | some _ => updateFirst (fun entry => sameName entry.1 key)
          (fun entry => (entry.1, entry.2 ++ textBytes "\r\n" ++ entry.1 ++ textBytes ": " ++ value)) r.headers }

/-- `response_header_overwrite`. -/
def headerOverwrite (key value : Bytes) : Response :=
  match r.headers.getElement key with
  | none => r.headerInsert key value
  | some _ => { r with headers := r.headers.update key fun _ => value }

/-- `chunkqueue_append_buffer` on the write queue. -/
def appendBuffer (data : Bytes) : Response := if data = [] then r else { r with queue := r.queue ++ [.mem data] }

/-- `chunkqueue_append_file` on the write queue. -/
def appendFile (name : Bytes) (start length : Int) : Response :=
  if length = 0 then r else { r with queue := r.queue ++ [.file name start length] }

/-- The length of the response grows. -/
def addContentLength (n : Int) : Response := { r with contentLength := r.contentLength + n }

end Response

/-! ## Ranges -/

/-- `buffer_append_int`. -/
def intBytes (n : Int) : Bytes := textBytes (toString n)

/-- What a round of the loop over the ranges finds: no further range; an error, with the status that is set; or a range, whether a comma
follows, and what is left. -/
inductive RangeStep
  | stop
  | fail (status : Option Nat)
  | part (start last : Int) (comma : Bool) (rest : Bytes)

/-- The text from the number on, or from the minus sign on if there is no number before it, and the number before the minus sign. The
unit `bytes=` may be repeated before the number. -/
def rangeStart (s after : Bytes) : Option (Bytes × Int) :=
  if s = 45 :: after then some (s, 0)
  else if (strtoll s).2 = 45 :: after then some (s, (strtoll s).1)
  else if textBytes "bytes=" <+: s.dropWhile isBlank then
    let s := (s.dropWhile isBlank).drop 6
    if s = 45 :: after then some (s, 0)
    else if (strtoll s).2 = 45 :: after then some (s, (strtoll s).1)
    else none
  else none

/-- The end of a range: the end of the text or a comma. -/
def rangeEnd (start last : Int) : Bytes → RangeStep
  | [] => .part start last false []
  | 44 :: rest => .part start last true rest
  | _ => .fail none

/-- A range as it is written, with the part of the text from its number on, and from after its minus sign on. -/
def rangeSpec (size : Int) (s after : Bytes) (first : Int) : RangeStep :=
  if s = 45 :: after then
    let (suffix, err) := strtoll s
    if suffix = 0 then .fail (some 416) else rangeEnd (size + suffix) (size - 1) err
  else if after.head? = none ∨ after.head? = some 44 then rangeEnd first (size - 1) after
  else
    let (last, err) := strtoll after
    if last < first then .fail none else rangeEnd first last err

/-- A range within the file. -/
def rangeClamp (size : Int) : RangeStep → RangeStep
  | .part start last comma rest =>
    if size - 1 < max start 0 then .fail (some 416) else .part (max start 0) (min last (size - 1)) comma rest
  | step => step

/-- A round of the loop over the ranges. -/
def rangeStep (size : Int) (s : Bytes) : RangeStep :=
  match search [45] s with
  | none => .stop
  | some (_, after) =>
    match rangeStart s after with
    | none => .fail none
    | some (s, first) => rangeClamp size (rangeSpec size s after first)

/-- The boundary between the parts of a body with more than one range. -/
def boundary : Bytes := textBytes "fkj49sn38dcn3"

/-- A range of a file with a number of bytes. -/
def rangeText (start last size : Int) : Bytes := intBytes start ++ textBytes "-" ++ intBytes last ++ textBytes "/" ++ intBytes size

/-- What stands before the bytes of a range if there is more than one. -/
def boundaryHeader (contentType : Bytes) (start last size : Int) : Bytes :=
  textBytes "\r\n--" ++ boundary ++ textBytes "\r\nContent-Range: bytes " ++ rangeText start last size ++
    textBytes "\r\nContent-Type: " ++ contentType ++ textBytes "\r\n\r\n"

/-- What stands after the last of more than one range. -/
def boundaryEnd : Bytes := textBytes "\r\n--" ++ boundary ++ textBytes "--\r\n"

/-- The variables of the loop over the ranges. -/
structure RangeState where
  multipart : Bool
  start : Int
  last : Int
  response : Response

namespace RangeState

/-- A range is appended to the write queue. -/
def append (st : RangeState) (path contentType : Bytes) (size start last : Int) (comma : Bool) : RangeState :=
  let multipart := st.multipart || comma
  let header := boundaryHeader contentType start last size
  let r := if multipart then (st.response.appendBuffer header).addContentLength header.length else st.response
  ⟨multipart, start, last, (r.appendFile path start (last - start + 1)).addContentLength (last - start + 1)⟩

end RangeState

/-- The loop over the ranges: whether there is no error, and its variables. Every round takes something of the text, so that the number
of rounds is bounded by its length. -/
def rangeLoop (path contentType : Bytes) (size : Int) : Nat → Bytes → RangeState → Bool × RangeState
  | 0, _, st => (true, st)
  | fuel + 1, s, st =>
    match rangeStep size s with
    | .stop => (true, st)
    | .fail none => (false, st)
    | .fail (some status) => (false, { st with response := { st.response with httpStatus := status } })
    | .part start last comma rest => rangeLoop path contentType size fuel rest (st.append path contentType size start last comma)

/-- `http_response_parse_range`: whether it succeeds, and the response. -/
def parseRange (r : Response) (path : Bytes) (size : Nat) (range : Bytes) : Bool × Response :=
  let contentType := (r.headers.getElement (textBytes "Content-Type")).getD []
  match rangeLoop path contentType size (range.length + 1) range ⟨false, 0, size - 1, { r with contentLength := 0 }⟩ with
  | (false, st) => (false, st.response)
  | (true, st) =>
    if st.multipart then
      (true, ((st.response.appendBuffer boundaryEnd).addContentLength boundaryEnd.length).headerOverwrite (textBytes "Content-Type")
        (textBytes "multipart/byteranges; boundary=" ++ boundary))
    else (true, st.response.headerInsert (textBytes "Content-Range") (textBytes "bytes " ++ rangeText st.start st.last size))

variable (env : FileEnv) (request : Headers) (r : Response)

/-! ## The file -/

/-- `http_chunk_append_file`, which takes the size of the file that it opens: whether it succeeds, and the response. -/
def chunkAppendFile (path : Bytes) : Bool × Response :=
  match env.openFstat path with
  | none => (false, r)
  | some size => (true, r.appendFile path 0 size)

/-- `http_chunk_append_file_range`. -/
def chunkAppendFileRange (path : Bytes) (offset length : Int) : Bool × Response :=
  match env.openFstat path with
  | none => (false, r)
  | some size =>
    if length = -1 then
      if (size : Int) ≤ offset then (offset = size, r) else (true, r.appendFile path offset (size - offset))
    else if size - offset < length then (false, r)
    else (true, r.appendFile path offset length)

/-- The type of the file is sent unless there is a type already. -/
def setContentType (st : FileStat) (allowCaching : Bool) : Response × Bool :=
  match r.headers.getElement (textBytes "Content-Type") with
  | some _ => (r, allowCaching)
  | none =>
    if st.contentType = [] then (r.headerOverwrite (textBytes "Content-Type") (textBytes "application/octet-stream"), false)
    else (r.headerOverwrite (textBytes "Content-Type") st.contentType, allowCaching)

/-- The entity tag is sent unless there is one already. -/
def setEtag (st : FileStat) : Response :=
  if st.etag ≠ [] ∧ r.headers.getElement (textBytes "ETag") = none then { r with etag := st.etag }.headerOverwrite (textBytes "ETag") st.etag
  else r

/-- The time of the last change is sent unless there is one already. -/
def setLastModified (st : FileStat) : Response × Bytes :=
  match r.headers.getElement (textBytes "Last-Modified") with
  | none => (r.headerOverwrite (textBytes "Last-Modified") st.mtime, st.mtime)
  | some mtime => (r, mtime)

/-- The headers for caching, and the answer to a conditional request: the response that is finished, or the response and the time of the
last change, if there is one. -/
def prepareCaching (st : FileStat) (allowCaching : Bool) : Except Response (Response × Option Bytes) :=
  if allowCaching then
    let (r, mtime) := setLastModified (setEtag r st) st
    match env.handleCachable r.etag mtime with
    | none => .ok (r, some mtime)
    | some none => .error r
    | some (some status) => .error { r with httpStatus := status, direct := r.direct || status = 412 }
  else .ok (r, none)

/-- The headers for a file: the response that is finished, or the response and the time of the last change, if there is one. -/
def prepareHeaders (st : FileStat) : Except Response (Response × Option Bytes) :=
  let (r, allowCaching) := setContentType r st (r.httpStatus = 0 || r.httpStatus = 200)
  prepareCaching env (if env.rangeRequests then r.headerOverwrite (textBytes "Accept-Ranges") (textBytes "bytes") else r) st allowCaching

/-- The header `If-Range`: it has the entity tag or the time of the last change of the file, or there is none. -/
def ifRange (etag : Bytes) (mtime : Option Bytes) : Bool :=
  match request.getElement (textBytes "If-Range") with
  | none => true
  | some value => if value.head? = some 34 then value = etag else mtime = some value

/-- The ranges that are requested, without the unit, if they are to be sent. -/
def requestedRange (mtime : Option Bytes) : Option Bytes :=
  match request.getElement (textBytes "Range") with
  | none => none
  | some range =>
    if env.rangeRequests ∧ (r.httpStatus = 200 ∨ r.httpStatus = 0) ∧ r.headers.getElement (textBytes "Content-Encoding") = none ∧
        ifRange request r.etag mtime = true ∧ textBytes "bytes=" <+: range then
      some (cString (range.drop 6))
    else none

/-- The body of the response. -/
def sendBody (path : Bytes) (st : FileStat) (mtime : Option Bytes) : Response :=
  match requestedRange env request r mtime with
  | some range =>
    match parseRange { r with fileFinished := true } path st.size range with
    | (true, r) => { r with httpStatus := 206 }
    | (false, r) => r
  | none =>
    if st.size = 0 then { r with httpStatus := 200, fileFinished := true }
    else
      match chunkAppendFile env r path with
      | (true, r) => { r with httpStatus := 200, fileFinished := true }
      | (false, r) => { r with httpStatus := 403 }

/-- `http_response_send_file`. -/
def sendFile (path : Bytes) : Response :=
  match env.stat path with
  | .error .noEntry => { r with httpStatus := 404 }
  | .error .other => { r with httpStatus := 403 }
  | .ok st =>
    if st.isSymlink && !env.followSymlink then { r with httpStatus := 403 }
    else if !st.isRegular then { r with httpStatus := 403 }
    else
      match prepareHeaders env r st with
      | .error r => r
      | .ok (r, mtime) => sendBody env request r path st mtime

/-- The status of a response, which `connection_state_machine` sets if nothing else has. -/
def Response.status : Nat := if r.httpStatus = 0 then 200 else r.httpStatus

end Osp.Lighttpd
