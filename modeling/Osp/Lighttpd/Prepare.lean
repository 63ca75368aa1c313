import Osp.Lighttpd.Burl
import Osp.Lighttpd.Request

/-!
# From the request target to a path

The part of `http_response_prepare` of `response.c` that makes a path of the request target, and a path in the file system of it, with
no plugin that changes them.
-/

namespace Osp.Lighttpd

open Osp.Lib

/-- `con->uri`: the path as it is in the target and after decoding, and the query. -/
structure Uri where
  pathRaw : Bytes
  path : Bytes
  query : Bytes
deriving DecidableEq

/-- What becomes of a target: it is rejected with the status 400, the server aborts, or it has a path. -/
inductive Prepared
  | rejected
  | abort
  | uri (uri : Uri)
deriving DecidableEq

/-- The path of a target is decoded and simplified. -/
def decodePath (pathRaw query : Bytes) : Prepared := .uri ⟨pathRaw, pathSimplify (urldecodePath pathRaw), query⟩

/-- The target without its fragment. -/
def dropFragment (uri : Bytes) : Bytes := if 35 ∈ cString uri then (cString uri).takeWhile (· ≠ 35) else uri

/-- The path and the query of a target that is not normalised. -/
def splitTarget (uri : Bytes) : Prepared :=
  let uri := dropFragment uri
  if 63 ∈ cString uri then
    let pathRaw := (cString uri).takeWhile (· ≠ 63)
    decodePath pathRaw (uri.drop (pathRaw.length + 1))
  else decodePath uri []

/-- The path and the query of a target that is normalised. The server aborts if the index of the query is not in the target, as a
negative number of bytes is copied then. -/
def splitNormalized (flags : UrlFlags) (uri : Bytes) : Prepared :=
  match burlNormalize flags uri with
  | none => .abort
  | some (text, qs) =>
    if qs = -2 then .rejected
    else if qs = -1 then decodePath text []
    else if text.length < qs.toNat + 1 then .abort
    else decodePath (text.take qs.toNat) (text.drop (qs.toNat + 1))

/-- The part of `http_response_prepare` that sets `con->uri`, with the flags of `HTTP_PARSEOPT_URL_NORMALIZE` if this is set. -/
def prepareUri (normalize : Option UrlFlags) (method : HttpMethod) (uri : Bytes) : Prepared :=
  if method = .connect ∨ (method = .options ∧ cString uri = [42]) then .uri ⟨uri, uri, []⟩
  else
    match normalize with
    | some flags => splitNormalized flags uri
    | none => splitTarget uri

/-- `buffer_append_slash`. -/
def appendSlash (b : Bytes) : Bytes := if b ≠ [] ∧ b.getLast? ≠ some 47 then b ++ [47] else b

/-- `con->physical.rel_path`. -/
def relPath (forceLowercaseFilenames : Bool) (path : Bytes) : Bytes := if forceLowercaseFilenames then path.map toLower else path

/-- `con->physical.path`. -/
def physicalPath (docRoot relPath : Bytes) : Bytes :=
  appendSlash docRoot ++ if relPath.head? = some 47 then relPath.tail else relPath

end Osp.Lighttpd
