import Osp.Lighttpd.Path
import Osp.Lighttpd.SendFile

/-!
# Files that a backend names

`http_response_xsendfile` and `http_response_xsendfile2` of `http-header-glue.c`: a backend has the server send files, which may have to
be under one of several roots.
-/

namespace Osp.Lighttpd

open Osp.Lib

/-- The length that the backend sent is dropped. -/
def resetContentLength (r : Response) : Response :=
  if r.parsedContentLength then
    { r with
      headers := r.headers.update (textBytes "Content-Length") fun _ => []
      parsedContentLength := false
      contentLength := -1 }
  else r

variable (env : FileEnv) (request : Headers) (roots : List Bytes) (r : Response)

/-- The path that a backend names. -/
def sendfilePath (name : Bytes) : Bytes :=
  let path := pathSimplify (urldecodePath name)
  if env.forceLowercaseFilenames then path.map toLower else path

/-- Whether the path is under one of the roots, if there are any. -/
def underDocroot (path : Bytes) : Bool :=
  roots.isEmpty || roots.any fun root =>
    root.length ≤ path.length && if env.forceLowercaseFilenames then startsWith path root else root = path.take root.length

/-- The end of both functions, with the status before. -/
def endSendfile (status : Nat) (r : Response) : Response :=
  if 400 ≤ r.httpStatus ∧ status < 300 then { r with direct := true }
  else if status ≠ 0 ∧ status ≠ 200 then { r with httpStatus := status }
  else r

/-- `http_response_xsendfile`. -/
def xsendfile (value : Bytes) : Response :=
  let path := sendfilePath env value
  endSendfile r.httpStatus
    (if underDocroot env roots path then sendFile env request (resetContentLength r) path
    else { resetContentLength r with httpStatus := 403 })

/-- A number that is not negative and in the range of `off_t`, as `strtoll` reads it, and what follows. -/
def readOffset (l : Bytes) : Option (Int × Bytes) :=
  let (negative, digits, rest) := scanNumber l
  if digits = [] ∨ 2 ^ 63 - 1 < decimalValue digits ∨ (negative ∧ decimalValue digits ≠ 0) then none else some (decimalValue digits, rest)

/-- The range after a file name, which ends at the given place: its first and its last byte. -/
def readRange (size : Nat) (range pos : Bytes) : Option (Int × Int) :=
  match readOffset range with
  | some (first, 45 :: rest) =>
    if rest = pos then some (first, size - 1)
    else
      match readOffset rest with
      | some (last, rest) => if rest = pos then some (first, last) else none
      | none => none
  | _ => none

/-- A file name and a range, which are at the start of the text: the response after an error, or the response and what is left. -/
def xsendfile2Entry (pos : Bytes) : Except Response (Response × Bytes) :=
  match search [32] pos with
  | none => .error { r with httpStatus := 502 }
  | some (filename, range) =>
    let pos := range.dropWhile fun c => c ≠ 32 && c ≠ 44
    let path := sendfilePath env filename
    if !underDocroot env roots path then .error { r with httpStatus := 403 }
    else
      match env.stat path with
      | .error _ => .error { r with httpStatus := 404 }
      | .ok st =>
        if !st.isRegular then .error { r with httpStatus := 502 }
        else
          match readRange st.size range pos with
          | none => .error { r with httpStatus := 502 }
          | some (first, last) =>
            let pos := pos.dropWhile (· = 32)
            let length := (last - first + 1).bmod (2 ^ 64)
            if (pos ≠ [] ∧ pos.head? ≠ some 44) ∨ length < 0 then .error { r with httpStatus := 502 }
            else if length = 0 then .ok (r, pos.drop 1)
            else
              match chunkAppendFileRange env r path first length with
              | (true, r) => .ok (r, pos.drop 1)
              | (false, r) => .error { r with httpStatus := 502 }

/-- The loop over the files. Every round takes something of the text. -/
def xsendfile2Loop (env : FileEnv) (roots : List Bytes) : Nat → Response → Bytes → Response
  | 0, r, _ => r
  | fuel + 1, r, pos =>
    match pos.dropWhile (· = 32) with
    | [] => r
    | c :: pos =>
      match xsendfile2Entry env roots r (c :: pos) with
      | .error r => r
      | .ok (r, pos) => xsendfile2Loop env roots fuel r pos

/-- `http_response_xsendfile2`. -/
def xsendfile2 (value : Bytes) : Response :=
  endSendfile r.httpStatus (xsendfile2Loop env roots (cString value).length (resetContentLength r) (cString value))

end Osp.Lighttpd
