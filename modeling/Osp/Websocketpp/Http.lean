import Osp.Lib.Search
import Osp.Lib.Lists
import Osp.Websocketpp.Close

/-!
# HTTP requests

`http/impl/request.hpp` and `http/impl/parser.hpp`: reading a request from buffers that arrive one after the other. Exceptions are
their status codes. The header map, which ignores the case of names, is the list of its entries.
-/

namespace Osp.Websocketpp.Http

open Osp.Lib

/-- The status codes of the exceptions. -/
inductive StatusCode
  | badRequest
  | requestEntityTooLarge
  | requestHeaderFieldsTooLarge
  | internalServerError
deriving DecidableEq

/-- `header_delimiter`. -/
def headerDelimiter : Bytes := [13, 10]

/-- `sizeof(header_delimiter)`, which counts the NUL at its end. -/
def sizeofHeaderDelimiter : Nat := 3

/-- `header_separator`. -/
def headerSeparator : Bytes := [58]

/-- `max_header_size`. -/
def maxHeaderSize : Nat := 16000

/-! ## Characters -/

/-- The rows 20 to 7f of `header_token`, the others are 0. -/
def headerToken : List Nat :=
  [0, 1, 0, 1, 1, 1, 1, 1, 0, 0, 1, 1, 0, 1, 1, 0,
   1, 1, 1, 1, 1, 1, 1, 1, 1, 1, 0, 0, 0, 0, 0, 0,
   0, 1, 1, 1, 1, 1, 1, 1, 1, 1, 1, 1, 1, 1, 1, 1,
   1, 1, 1, 1, 1, 1, 1, 1, 1, 1, 1, 0, 0, 0, 1, 1,
   1, 1, 1, 1, 1, 1, 1, 1, 1, 1, 1, 1, 1, 1, 1, 1,
   1, 1, 1, 1, 1, 1, 1, 1, 1, 1, 1, 0, 1, 0, 1, 0]

/-- `is_not_token_char`. -/
def isNotTokenChar (c : UInt8) : Bool := c < 0x20 || (headerToken.getD (c.toNat - 0x20) 0) = 0

/-- `is_whitespace_char`. -/
def isWhitespaceChar (c : UInt8) : Bool := c = 9 || c = 32

/-- `extract_lws`: what is left after one unit of white space. -/
def extractLws (l : Bytes) : Bytes :=
  (match l with
    | 13 :: 10 :: c :: rest => if isWhitespaceChar c then rest else l
    | _ => l).dropWhile isWhitespaceChar

/-- The loop of `extract_all_lws`, at most `n` times. -/
def extractLwsLoop : Nat → Bytes → Bytes
  | 0, l => l
  | n + 1, l =>
    let rest := extractLws l
    if rest = [] ∨ rest.length = l.length then rest else extractLwsLoop n rest

/-- `extract_all_lws`. -/
def extractAllLws (l : Bytes) : Bytes := extractLwsLoop (l.length + 1) l

/-- `strip_lws`. -/
def stripLws (input : Bytes) : Bytes :=
  let begin := extractAllLws input
  let rbegin := extractAllLws input.reverse
  if begin = [] ∨ rbegin = [] then [] else (input.take rbegin.length).drop (input.length - begin.length)

/-! ## The head of a request -/

/-- The request line and the headers. -/
structure Head where
  method : Bytes
  uri : Bytes
  version : Bytes
  headers : List (Bytes × Bytes)
deriving DecidableEq

/-- Whether the map takes two names for the same. -/
def sameName (a b : Bytes) : Bool := a.map toLower = b.map toLower

namespace Head

def empty : Head := ⟨[], [], [], []⟩

/-- `get_header`. -/
def getHeader (h : Head) (key : Bytes) : Bytes := ((h.headers.find? fun entry => sameName entry.1 key).map (·.2)).getD []

/-- `m_headers[key] = val`. -/
def setHeader (h : Head) (key val : Bytes) : Head :=
  { h with
    headers :=
      if h.headers.any fun entry => sameName entry.1 key then
        updateFirst (fun entry => sameName entry.1 key) (fun entry => (entry.1, val)) h.headers
      else h.headers ++ [(key, val)] }

/-- `append_header`. -/
def appendHeader (h : Head) (key val : Bytes) : Except StatusCode Head :=
  if key.any isNotTokenChar then .error .badRequest
  else .ok (h.setHeader key (if h.getHeader key = [] then val else h.getHeader key ++ textBytes ", " ++ val))

/-- `process_header`. -/
def processHeader (h : Head) (line : Bytes) : Except StatusCode Head :=
  match search headerSeparator line with
  | none => .error .badRequest
  | some (key, val) => h.appendHeader (stripLws key) (stripLws val)

/-- `process`, of the request line. -/
def process (h : Head) (line : Bytes) : Except StatusCode Head :=
  match search [32] line with
  | none => .error .badRequest
  | some (method, rest) =>
    if method.any isNotTokenChar then .error .badRequest
    else
      match search [32] rest with
      | none => .error .badRequest
      | some (uri, version) => .ok { h with method, uri, version }

/-- What `consume` does with a line that is not blank. -/
def processLine (h : Head) (line : Bytes) : Except StatusCode Head :=
  if h.method = [] then h.process line else h.processHeader line

end Head

/-! ## Requests -/

/-- `body_encoding::value`. -/
inductive BodyEncoding
  | unknown
  | plain
  | chunked
deriving DecidableEq

/-- A request that is being read. -/
structure Request where
  head : Head
  buf : Bytes
  headerBytes : Nat
  body : Bytes
  bodyBytesNeeded : Nat
  bodyBytesMax : Nat
  bodyEncoding : BodyEncoding
  ready : Bool

namespace Request

/-- A request as constructed, with the given `m_body_bytes_max`. -/
def new (bodyBytesMax : Nat) : Request := ⟨.empty, [], 0, [], 0, bodyBytesMax, .unknown, false⟩

/-- `prepare_body`. A request without `Content-Length` has no body, also when its `Transfer-Encoding` is chunked. -/
def prepareBody (r : Request) : Except StatusCode (Bool × Request) :=
  let contentLength := r.head.getHeader (textBytes "Content-Length")
  if contentLength = [] then .ok (false, r)
  else
    let bodyBytesNeeded := strtoul contentLength
    if r.bodyBytesMax < bodyBytesNeeded then .error .requestEntityTooLarge
    else .ok (true, { r with bodyBytesNeeded, bodyEncoding := .plain })

/-- `process_body`. -/
def processBody (r : Request) (buf : Bytes) : Except StatusCode (Nat × Request) :=
  match r.bodyEncoding with
  | .plain =>
    let processed := min r.bodyBytesNeeded buf.length
    .ok (processed, { r with body := r.body ++ buf.take processed, bodyBytesNeeded := r.bodyBytesNeeded - processed })
  | .chunked | .unknown => .error .internalServerError

/-- Body bytes are processed, and the request is ready when the body is. -/
def readBody (r : Request) (buf : Bytes) : Except StatusCode (Nat × Request) :=
  match r.processBody buf with
  | .error status => .error status
  | .ok (processed, r) => .ok (processed, if r.bodyBytesNeeded = 0 then { r with ready := true } else r)

/-- What `consume` does at a blank line, which `after` follows. The count of the bytes is a `size_t`: the difference may wrap, and the
sum wraps back. -/
def endHeader (r : Request) (buf after : Bytes) : Except StatusCode (Nat × Request) :=
  if r.head.method = [] ∨ r.head.getHeader (textBytes "Host") = [] then .error .badRequest
  else
    let bytesProcessed := buf.length + (sizeofHeaderDelimiter - 1) - (headerDelimiter.length + after.length)
    match { r with buf := [] }.prepareBody with
    | .error status => .error status
    | .ok (true, r) => (r.readBody (buf.drop bytesProcessed)).map fun read => (bytesProcessed + read.1, read.2)
    | .ok (false, r) => .ok (bytesProcessed, { r with ready := true })

/-- The loop of `consume` over the lines of the buffer from `rest` on, at most `n` times. -/
def headerLoop (buf : Bytes) : Nat → Request → Bytes → Except StatusCode (Nat × Request)
  | 0, r, _ => .ok (buf.length, r)
  | n + 1, r, rest =>
    match search headerDelimiter rest with
    | none =>
      let headerBytes := r.headerBytes + (rest.length + sizeofHeaderDelimiter)
      if maxHeaderSize < headerBytes then .error .requestHeaderFieldsTooLarge
      else .ok (buf.length, { r with buf := rest, headerBytes := headerBytes - rest.length })
    | some (line, after) =>
      let headerBytes := r.headerBytes + (line.length + sizeofHeaderDelimiter)
      if maxHeaderSize < headerBytes then .error .requestHeaderFieldsTooLarge
      else if line = [] then { r with headerBytes }.endHeader buf after
      else
        match r.head.processLine line with
        | .error status => .error status
        | .ok head => headerLoop buf n { r with head, headerBytes } after

/-- `consume`: how many bytes were processed, and the request. -/
def consume (r : Request) (buf : Bytes) : Except StatusCode (Nat × Request) :=
  if r.ready then .ok (0, r)
  else if 0 < r.bodyBytesNeeded then r.readBody buf
  else
    let r := { r with buf := r.buf ++ buf }
    headerLoop buf (r.buf.length + 1) r r.buf

/-- Buffers are passed to `consume` until the request is ready or an exception is thrown: how many bytes were processed in all, and
the request. -/
def consumeAll : List Bytes → Request → Except StatusCode (Nat × Request)
  | [], r => .ok (0, r)
  | buf :: bufs, r =>
    match r.consume buf with
    | .error status => .error status
    | .ok (processed, r) =>
      if r.ready then .ok (processed, r)
      else (consumeAll bufs r).map fun result => (processed + result.1, result.2)

end Request

/-- What is seen of a request that was read: whether it is ready, its head, its body, and how many bytes were processed. -/
structure Seen where
  ready : Bool
  head : Head
  body : Bytes
  processed : Nat
deriving DecidableEq

def Request.seen (result : Nat × Request) : Seen := ⟨result.2.ready, result.2.head, result.2.body, result.1⟩

/-- What passing buffers to a new request comes to. -/
def outcome (bodyBytesMax : Nat) (bufs : List Bytes) : Except StatusCode Seen :=
  (Request.consumeAll bufs (.new bodyBytesMax)).map Request.seen

end Osp.Websocketpp.Http
