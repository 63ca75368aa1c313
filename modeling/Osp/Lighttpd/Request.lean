import Osp.Lib.Libc
import Osp.Lib.Lists
import Osp.Lib.Search

/-!
# Parsing a request

`http_request_parse` of lighttpd 1.4.51 (`request.c`). The function goes over the header block byte by byte; here each function goes
over one part of it: the request line, the name of a header, its value. Where the function returns early, its state is an error.

The policy for the `Host` header (`http_request_host_policy`) is a parameter: it rejects a host or rewrites it.
-/

namespace Osp.Lighttpd

open Osp.Lib

/-! ## Arrays of headers

`array.c` and `data_string.c`: a map from names, compared without case, to values, as the list of its entries in the order they were
inserted in; the sorted index that `array_get_index` searches is left out. -/

/-- `buffer_caseless_compare`. -/
def caselessCompare : Bytes → Bytes → Int
  | [], [] => 0
  | [], _ :: _ => -1
  | _ :: _, [] => 1
  | a :: as, b :: bs =>
    if a = b then caselessCompare as bs
    else if toLower a = toLower b then caselessCompare as bs
    else (toLower a).toNat - (toLower b).toNat

/-- Whether two names are equal without case. -/
def sameName (a b : Bytes) : Bool := caselessCompare a b = 0

/-- The entries of an array of strings. -/
abbrev Headers := List (Bytes × Bytes)

namespace Headers

/-- `array_get_element`. -/
def getElement (headers : Headers) (key : Bytes) : Option Bytes := (headers.find? fun entry => sameName entry.1 key).map (·.2)

/-- Changes the value of an entry. -/
def update (headers : Headers) (key : Bytes) (f : Bytes → Bytes) : Headers :=
  updateFirst (fun entry => sameName entry.1 key) (fun entry => (entry.1, f entry.2)) headers

/-- `array_insert_unique`: the value of an entry that is there is continued after a comma. -/
def insertUnique (headers : Headers) (key value : Bytes) : Headers :=
  match headers.getElement key with
  | none => headers ++ [(key, value)]
  | some _ => headers.update key fun old => if old = [] then value else old ++ textBytes ", " ++ value

end Headers

/-- `http_method_t`, apart from `HTTP_METHOD_UNSET`. -/
inductive HttpMethod
  | get
  | head
  | post
  | put
  | delete
  | connect
  | options
  | trace
  | acl
  | baselineControl
  | bind
  | checkin
  | checkout
  | copy
  | label
  | link
  | lock
  | merge
  | mkactivity
  | mkcalendar
  | mkcol
  | mkredirectref
  | mkworkspace
  | move
  | orderpatch
  | patch
  | propfind
  | proppatch
  | rebind
  | report
  | search
  | unbind
  | uncheckout
  | unlink
  | unlock
  | update
  | updateredirectref
  | versionControl
deriving DecidableEq

/-- `http_methods`. -/
def httpMethods : List (HttpMethod × String) :=
  [(.get, "GET"), (.head, "HEAD"), (.post, "POST"), (.put, "PUT"), (.delete, "DELETE"), (.connect, "CONNECT"),
   (.options, "OPTIONS"), (.trace, "TRACE"), (.acl, "ACL"), (.baselineControl, "BASELINE-CONTROL"), (.bind, "BIND"),
   (.checkin, "CHECKIN"), (.checkout, "CHECKOUT"), (.copy, "COPY"), (.label, "LABEL"), (.link, "LINK"), (.lock, "LOCK"),
   (.merge, "MERGE"), (.mkactivity, "MKACTIVITY"), (.mkcalendar, "MKCALENDAR"), (.mkcol, "MKCOL"),
   (.mkredirectref, "MKREDIRECTREF"), (.mkworkspace, "MKWORKSPACE"), (.move, "MOVE"), (.orderpatch, "ORDERPATCH"),
   (.patch, "PATCH"), (.propfind, "PROPFIND"), (.proppatch, "PROPPATCH"), (.rebind, "REBIND"), (.report, "REPORT"),
   (.search, "SEARCH"), (.unbind, "UNBIND"), (.uncheckout, "UNCHECKOUT"), (.unlink, "UNLINK"), (.unlock, "UNLOCK"),
   (.update, "UPDATE"), (.updateredirectref, "UPDATEREDIRECTREF"), (.versionControl, "VERSION-CONTROL")]

/-- `get_http_method_key`. -/
def getHttpMethodKey (s : Bytes) : Option HttpMethod :=
  (httpMethods.find? fun method => textBytes method.2 = cString s).map (·.1)

/-- `http_version_t`. -/
inductive HttpVersion
  | unset
  | http10
  | http11
deriving DecidableEq

/-- What the parser uses of the configuration: two flags of `http_parseopts`, `allow_http11`, and the policy for hosts. -/
structure Conf where
  headerStrict : Bool
  urlNormalizeCtrlsReject : Bool
  allowHttp11 : Bool
  hostPolicy : Bytes → Option Bytes

/-- What the parser uses of a connection. `httpHost`, `httpContentType`, `httpIfModifiedSince` and `httpIfNoneMatch` say whether
these members, which point to values of `headers`, are set. -/
structure Con where
  requestCount : Nat
  keepAlive : Bool
  httpStatus : Nat
  request : Bytes
  httpMethod : Option HttpMethod
  httpVersion : HttpVersion
  uri : Bytes
  headers : Headers
  httpHost : Bool
  httpContentType : Bool
  httpIfModifiedSince : Bool
  httpIfNoneMatch : Bool
  contentLength : Int

namespace Con

/-- The request is rejected and the connection is not kept. -/
def reject (con : Con) (status : Nat) : Con := { con with httpStatus := status, keepAlive := false }

end Con

/-! ## The request line -/

/-- What the first line of a header block is. -/
inductive RequestLine
  | incomplete
  | invalid
  | line (tokens : List Bytes) (rest : Bytes)
deriving DecidableEq

/-- The loop over the first line. `tokens` are the parts that a space has ended, at most two, and `token` is the part it is in. -/
def scanRequestLine (strict : Bool) (tokens : List Bytes) (token : Bytes) : Bytes → RequestLine
  | [] => .incomplete
  | c :: rest =>
    if c = 13 ∧ rest.head? = some 10 then .line (tokens ++ [token]) rest.tail
    else if c = 10 then if strict then .invalid else .line (tokens ++ [token]) rest
    else if c = 32 then if 2 ≤ tokens.length then .invalid else scanRequestLine strict (tokens ++ [token]) [] rest
    else scanRequestLine strict tokens (token ++ [c]) rest

/-- The version at the end of a request line: not one, or two numbers, each an `int`. -/
def scanVersion (proto : Bytes) : Option (Int × Int) :=
  let proto := cString proto
  if textBytes "HTTP/" <+: proto then
    match Osp.Lib.search (textBytes ".") (proto.drop 5) with
    | none => none
    | some (major, minor) =>
      if major = [] ∨ minor = [] then none
      else if (strtoll major).2 ≠ [] ∨ (strtoll minor).2 ≠ [] then none
      else some ((strtoll major).1.bmod (2 ^ 32), (strtoll minor).1.bmod (2 ^ 32))
  else none

/-- `request_uri_is_valid_char`. -/
def requestUriIsValidChar (c : UInt8) : Bool := !(c ≤ 32 || c = 127 || c = 255)

/-- `strncasecmp(s, text, strlen(text)) == 0`. -/
def startsWith (s text : Bytes) : Bool := (s.take text.length).map toLower = text.map toLower

/-- The host and the path of an absolute URI with the given scheme, if it has a path. -/
def absoluteUri (scheme uri : Bytes) : Option (Bytes × Bytes) :=
  if startsWith uri scheme then
    match Osp.Lib.search (textBytes "/") (cString (uri.drop scheme.length)) with
    | none => none
    | some (host, _) => some (host, uri.drop (scheme.length + host.length))
  else none

variable (conf : Conf) (con : Con)

/-- The path that is requested, and the host if the request line has it. -/
def requestTarget (method : HttpMethod) (uri : Bytes) : Option (Bytes × Option Bytes) :=
  if uri.head? = some 47 then some (uri, none)
  else
    match (absoluteUri (textBytes "http://") uri).or (absoluteUri (textBytes "https://") uri) with
    | some (host, path) => some (path, some host)
    | none =>
      if !conf.headerStrict || (method = .connect && (uri.head? = some 58 || uri.head?.any isDigit)) ||
          (method = .options && cString uri = [42]) then
        some (uri, none)
      else none

/-- Whether a byte of the path is not allowed. -/
def invalidPath (path : Bytes) : Bool :=
  if conf.urlNormalizeCtrlsReject then false
  else if conf.headerStrict then path.any fun c => !requestUriIsValidChar c
  else path.contains 0

/-- What is done at the end of the first line: the connection, and the host if the request line has it. A version that is not
supported is rejected without a change of `keep_alive`. -/
def parseRequestLine (method uri proto : Bytes) : Except Con (Con × Option Bytes) :=
  match getHttpMethodKey method with
  | none => .error (con.reject 501)
  | some method =>
    let con := { con with httpMethod := some method }
    match scanVersion proto with
    | none => .error (con.reject 400)
    | some version =>
      if version ≠ (1, 1) ∧ version ≠ (1, 0) then .error { con with httpStatus := 505 }
      else
        let con := { con with httpVersion := if version = (1, 1) ∧ conf.allowHttp11 then .http11 else .http10 }
        match requestTarget conf method uri with
        | none => .error (con.reject 400)
        | some (path, host) =>
          let con := { con with uri := path }
          if invalidPath conf path then .error (con.reject 400) else .ok ({ con with httpStatus := 0 }, host)

/-! ## Header lines -/

/-- The separators that a name may not have. -/
def isSeparator (c : UInt8) : Bool := (textBytes "()<>@,;\\\"/[]?=\x7b\x7d").contains c

/-- White space in a header line. -/
def isBlank (c : UInt8) : Bool := c = 32 || c = 9

/-- A byte that a name may not have, apart from the separators. -/
def invalidInKey (strict : Bool) (c : UInt8) : Bool := if strict then c < 32 || 127 ≤ c else c = 0

/-- A byte that a value may not have. -/
def invalidInValue (strict : Bool) (c : UInt8) : Bool := if strict then c < 32 else c = 0

/-- What a header line begins with. -/
inductive KeyScan
  | invalid
  | done
  | folding (rest : Bytes)
  | key (key rest : Bytes)
deriving DecidableEq

/-- The loop over the name of a header line, `key` being its first bytes. The block ends with a NUL. -/
def scanKey (strict : Bool) (key : Bytes) : Bytes → KeyScan
  | [] => .invalid
  | c :: rest =>
    if c = 58 then .key key rest
    else if isSeparator c then .invalid
    else if isBlank c then
      if key = [] then .folding (c :: rest)
      else
        match rest.dropWhile isBlank with
        | 58 :: rest => .key key rest
        | _ => .invalid
    else if c = 13 then if key = [] ∧ rest.head? = some 10 then .done else .invalid
    else if c = 10 ∧ strict then .invalid
    else if c = 10 ∧ key = [] then .done
    else if invalidInKey strict c then .invalid
    else scanKey strict (key ++ [c]) rest

/-- The loop over the value of a header line, `value` being its first bytes: the value and what follows the line. -/
def scanValue (strict : Bool) (value : Bytes) : Bytes → Option (Bytes × Bytes)
  | [] => none
  | c :: rest =>
    if c = 13 then if rest.head? = some 10 then some (value, rest.tail) else none
    else if c = 10 then if strict then none else some (value, rest)
    else if isBlank c then scanValue strict (value ++ [c]) rest
    else if invalidInValue strict c then none
    else scanValue strict (value ++ [c]) rest

/-- A value without the white space around it. -/
def stripBlanks (value : Bytes) : Bytes := ((value.dropWhile isBlank).reverse.dropWhile isBlank).reverse

/-! ## Headers -/

/-- `HTTP_CONNECTION_UNSET`, `HTTP_CONNECTION_KEEPALIVE` and `HTTP_CONNECTION_CLOSE`. -/
inductive KeepAliveSet
  | unset
  | keepAlive
  | close
deriving DecidableEq

/-- The state of the parser in the header lines: the connection, the last name, what the `Connection` header says, whether the length
is known, and whether the host was in the request line. -/
structure Parser where
  con : Con
  key : Option Bytes
  keepAliveSet : KeepAliveSet
  conLengthSet : Bool
  reqlineHost : Bool

/-- `http_request_split_value`. -/
def splitValue (value : Bytes) : List Bytes :=
  ((value.splitOnP (· = 44)).map stripBlanks).filter (· ≠ [])

/-- What the values of a `Connection` header say. -/
def connectionValue (before : KeepAliveSet) : List Bytes → KeepAliveSet
  | [] => before
  | value :: values =>
    if sameName value (textBytes "keep-alive") then .keepAlive
    else if sameName value (textBytes "close") then .close
    else connectionValue before values

/-- The headers that the parser looks at. -/
inductive HeaderKind
  | connection
  | contentLength
  | contentType
  | host
  | ifModifiedSince
  | ifNoneMatch
  | other
deriving DecidableEq

/-- The names of the headers that the parser looks at, in order. -/
def headerNames : List (HeaderKind × String) :=
  [(.connection, "Connection"), (.contentLength, "Content-Length"), (.contentType, "Content-Type"), (.host, "Host"),
   (.ifModifiedSince, "If-Modified-Since"), (.ifNoneMatch, "If-None-Match")]

/-- A name is compared with the names in order, as long as it is greater. -/
def compareNames (key : Bytes) : List (HeaderKind × String) → HeaderKind
  | [] => .other
  | (kind, name) :: names =>
    let cmp := caselessCompare key (textBytes name)
    if cmp = 0 then kind else if 0 < cmp then compareNames key names else .other

def headerKind (key : Bytes) : HeaderKind := compareNames key headerNames

namespace Parser

variable (p : Parser) (key value : Bytes)

def insert : Parser :=
  { p with con.headers := p.con.headers.insertUnique key value }

/-- The request is rejected after the header was stored. -/
def rejectHeader : Except Con Parser := .error ((p.insert key value).con.reject 400)

/-- A header with a value is stored. -/
def storeHeader : Except Con Parser :=
  match headerKind key with
  | .connection => .ok ({ p with keepAliveSet := connectionValue p.keepAliveSet (splitValue value) }.insert key value)
  | .contentLength =>
    if p.conLengthSet then p.rejectHeader key value
    else if (strtoll value).2 = [] ∧ 0 ≤ (strtoll value).1 then
      .ok ({ p with conLengthSet := true, con.contentLength := (strtoll value).1 }.insert key value)
    else p.rejectHeader key value
  | .contentType =>
    if p.con.httpContentType then p.rejectHeader key value
    else .ok ({ p with con.httpContentType := true }.insert key value)
  | .host =>
    if p.reqlineHost then .ok p
    else if p.con.httpHost then p.rejectHeader key value
    else .ok ({ p with con.httpHost := true }.insert key value)
  | .ifModifiedSince =>
    if !p.con.httpIfModifiedSince then .ok ({ p with con.httpIfModifiedSince := true }.insert key value)
    else if (p.con.headers.getElement (textBytes "If-Modified-Since")).any fun old => old.map toLower = value.map toLower then
      .ok p
    else p.rejectHeader key value
  | .ifNoneMatch =>
    if p.con.httpIfNoneMatch then .ok p else .ok ({ p with con.httpIfNoneMatch := true }.insert key value)
  | .other => .ok (p.insert key value)

/-- The end of a header line that is not a continuation. -/
def endField : Except Con Parser :=
  let p := { p with key := some key }
  if value = [] then .ok p else p.storeHeader key value

/-- The end of a continuation. -/
def endContinuation (value : Bytes) : Except Con Parser :=
  match p.key with
  | none | some [] => .error (p.con.reject 400)
  | some key => .ok { p with con.headers := p.con.headers.update key (· ++ value) }

/-- The loop over the header lines, at most `n` of them. -/
def headerLoop (conf : Conf) : Nat → Parser → Bytes → Except Con Parser
  | 0, p, _ => .error (p.con.reject 400)
  | n + 1, p, bytes =>
    match scanKey conf.headerStrict [] bytes with
    | .invalid => .error (p.con.reject 400)
    | .done => .ok p
    | .folding rest =>
      match scanValue conf.headerStrict [] rest with
      | none => .error (p.con.reject 400)
      | some (value, rest) => p.endContinuation value >>= fun p => headerLoop conf n p rest
    | .key key rest =>
      match scanValue conf.headerStrict [] rest with
      | none => .error (p.con.reject 400)
      | some (value, rest) => p.endField key (stripBlanks value) >>= fun p => headerLoop conf n p rest

/-! ## The end of the header -/

/-- Whether the connection is kept, and the check that a host is given. -/
def checkKeepAlive : Except Con Con :=
  if p.con.httpVersion = .http11 then
    let con := { p.con with keepAlive := p.keepAliveSet ≠ .close }
    if !con.httpHost ∨ con.headers.getElement (textBytes "Host") = some [] then .error (con.reject 400) else .ok con
  else .ok { p.con with keepAlive := p.keepAliveSet = .keepAlive }

/-- The check of the host. -/
def checkHost : Except Con Con :=
  if con.httpHost then
    match (con.headers.getElement (textBytes "Host")).bind conf.hostPolicy with
    | none => .error (con.reject 400)
    | some host => .ok { con with headers := con.headers.update (textBytes "Host") fun _ => host }
  else .ok con

/-- The check of `Transfer-Encoding`: whether the length is known, and the connection. -/
def checkTransferEncoding (conLengthSet : Bool) (con : Con) : Except Con (Bool × Con) :=
  match con.headers.getElement (textBytes "Transfer-Encoding") with
  | none => .ok (conLengthSet, con)
  | some value =>
    if con.httpVersion = .http10 then .error (con.reject 400)
    else if (cString value).map toLower ≠ textBytes "chunked" then .error (con.reject 501)
    else
      .ok (true, { con with
        headers := (con.headers.update (textBytes "Transfer-Encoding") fun _ => []).update (textBytes "Content-Length") fun _ => []
        contentLength := -1 })

/-- The check of the length for the method: whether a body follows, and the connection. -/
def checkMethod (conLengthSet : Bool) (con : Con) : Except Con (Bool × Con) :=
  if (con.httpMethod = some .get ∨ con.httpMethod = some .head) ∧ conLengthSet ∧ con.contentLength ≠ 0 then
    .error (con.reject 400)
  else if con.httpMethod = some .post ∧ !conLengthSet then .error (con.reject 411)
  else .ok (conLengthSet && con.contentLength ≠ 0, con)

/-- What is done after the header lines. -/
def endHeader : Except Con (Bool × Con) := do
  let con ← p.checkKeepAlive
  let con ← checkHost conf con
  let (conLengthSet, con) ← checkTransferEncoding p.conLengthSet con
  checkMethod conLengthSet con

end Parser

/-! ## Requests -/

/-- The block that is parsed: a line end that follows the body of the request before is skipped. -/
def headerBlock : Option Bytes :=
  if 1 < con.requestCount ∧ con.request.head? = some 13 ∧ con.request[1]? = some 10 then some (con.request.drop 2)
  else if 0 < con.requestCount ∧ con.request[1]? = some 10 then
    if conf.headerStrict then none else some (con.request.drop 1)
  else some con.request

/-- The parser before the header lines. A host of the request line is stored as a header. -/
def Parser.start : Option Bytes → Parser
  | none => ⟨con, none, .unset, false, false⟩
  | some host =>
    ⟨{ con with headers := con.headers.insertUnique (textBytes "Host") host, httpHost := true }, none, .unset, false, true⟩

/-- The header lines of a block, after a request line that has the given host, and what is done after them. -/
def parseHeaders (host : Option Bytes) (rest : Bytes) : Except Con (Bool × Con) :=
  if con.uri = [] then .error (con.reject 400)
  else Parser.headerLoop conf (rest.length + 1) (.start con host) rest >>= Parser.endHeader conf

/-- `http_request_parse` up to where it returns. -/
def parseRequest : Except Con (Bool × Con) :=
  match headerBlock conf con with
  | none => .error (con.reject 400)
  | some block =>
    match scanRequestLine conf.headerStrict [] [] block with
    | .incomplete => parseHeaders conf con none []
    | .invalid => .error (con.reject 400)
    | .line [method, uri, proto] rest =>
      parseRequestLine conf con method uri proto >>= fun (con, host) => parseHeaders conf con host rest
    | .line _ _ => .error (con.reject 400)

/-- `http_request_parse`: whether a body follows, and the connection. -/
def httpRequestParse : Bool × Con :=
  match parseRequest conf con with
  | .error con => (false, con)
  | .ok result => result

/-! ## Between two requests

`connections.c`: of the states of a connection only what follows a response is modelled. -/

namespace Con

/-- `connection_reset`. It does not clear `keep_alive`. -/
def reset (con : Con) : Con :=
  { con with
    httpStatus := 0
    request := []
    httpMethod := none
    httpVersion := .unset
    uri := []
    headers := []
    httpHost := false
    httpContentType := false
    httpIfModifiedSince := false
    httpIfNoneMatch := false
    contentLength := 0 }

/-- The connection when the header block of its next request has been read. -/
def next (con : Con) (block : Bytes) : Con := { con.reset with requestCount := con.requestCount + 1, request := block }

/-- A connection that was accepted, before its first request. -/
def accepted : Con where
  requestCount := 0
  keepAlive := false
  httpStatus := 0
  request := []
  httpMethod := none
  httpVersion := .unset
  uri := []
  headers := []
  httpHost := false
  httpContentType := false
  httpIfModifiedSince := false
  httpIfNoneMatch := false
  contentLength := 0

end Con

/-- A configuration with the default flags, and a policy that takes every host. -/
def Conf.default : Conf where
  headerStrict := true
  urlNormalizeCtrlsReject := false
  allowHttp11 := true
  hostPolicy := some

/-- Where a connection goes after a response. -/
inductive AfterResponse
  | requestStart
  | shutdown
deriving DecidableEq

/-- `connection_handle_response_end_state`, for a connection that is in the error state or not, and has read the given number of bytes
of the body. -/
def handleResponseEndState (con : Con) (inError : Bool) (bytesIn : Int) : AfterResponse × Con :=
  let con := if con.contentLength ≠ bytesIn ∨ inError then { con with keepAlive := false } else con
  if con.keepAlive then (.requestStart, con.reset) else (.shutdown, con)

/-! ## The fields of a header

The header lines of a request as RFC 7230 reads them: a line that begins with white space continues the field before it. What the
parser makes of the same lines is above; here is what they say. -/

/-- A header line: a name and a value without white space around it, or a continuation with its white space. -/
inductive Line
  | field (key value : Bytes)
  | continuation (value : Bytes)
deriving DecidableEq

/-- The header lines up to the first that is not valid or ends the header, at most `n` of them. -/
def headerLines (strict : Bool) : Nat → Bytes → List Line
  | 0, _ => []
  | n + 1, bytes =>
    match scanKey strict [] bytes with
    | .invalid => []
    | .done => []
    | .folding rest =>
      match scanValue strict [] rest with
      | none => []
      | some (value, rest) => .continuation value :: headerLines strict n rest
    | .key key rest =>
      match scanValue strict [] rest with
      | none => []
      | some (value, rest) => .field key (stripBlanks value) :: headerLines strict n rest

/-- A field: its name, the value on its first line, and what the continuations of that line add. -/
structure Field where
  key : Bytes
  value : Bytes
  folded : Bytes

/-- What the continuations before the first field add, and the fields. -/
def splitFields : List Line → Bytes × List Field
  | [] => ([], [])
  | .field key value :: lines => ([], ⟨key, value, (splitFields lines).1⟩ :: (splitFields lines).2)
  | .continuation value :: lines => (value ++ (splitFields lines).1, (splitFields lines).2)

namespace Field

/-- The whole value of a field. -/
def fullValue (field : Field) : Bytes := stripBlanks (field.value ++ field.folded)

end Field

/-- The fields with the given name. -/
def fieldsNamed (name : Bytes) (fields : List Field) : List Field := fields.filter fun field => sameName field.key name

/-- The values that are given for a name. -/
def givenValues (name : Bytes) (fields : List Field) : List Bytes := ((fieldsNamed name fields).map Field.fullValue).filter (· ≠ [])

/-- The header lines of the request that a connection has read. -/
def requestLines (conf : Conf) (con : Con) : List Line :=
  match headerBlock conf con with
  | none => []
  | some block =>
    match scanRequestLine conf.headerStrict [] [] block with
    | .line _ rest => headerLines conf.headerStrict (rest.length + 1) rest
    | _ => []

/-- The fields of the request that a connection has read. -/
def requestFields (conf : Conf) (con : Con) : List Field := (splitFields (requestLines conf con)).2

end Osp.Lighttpd
