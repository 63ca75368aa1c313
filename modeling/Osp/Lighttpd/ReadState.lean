import Osp.Lighttpd.Chunk
import Osp.Lighttpd.Request

/-!
# Reading the header of a request

`connection_handle_read_state` of `connections.c`: it looks for the end of the header in the chunks of the read queue and copies the
header out of them. What `network_read` does to the queue is a parameter. The scan is a loop over the chunks, in it a loop over the
bytes of a chunk, and in that the loops that look for the rest of a line end in the chunks that follow.
-/

namespace Osp.Lighttpd

open Osp.Lib

/-- `connection_state_t`. -/
inductive ConState
  | connect
  | requestStart
  | read
  | requestEnd
  | readPost
  | handleRequest
  | responseStart
  | write
  | responseEnd
  | error
  | close
deriving DecidableEq

/-! ## The scan -/

/-- The bytes that follow the CR at the end of a header. -/
def afterCr : Bytes := [10, 13, 10]

/-- What comes of matching bytes with those of a chunk. -/
inductive Match
  | found (offset : Nat)
  | mismatch
  | more (expected : Bytes)

/-- The loop that matches `expected` with the bytes of a chunk from position `j` on. -/
def matchChunk (expected : Bytes) (j : Nat) : Bytes → Match
  | [] => .more expected
  | ch :: bytes =>
    match expected with
    | [] => .found j
    | e :: rest => if ch = e then if rest = [] then .found (j + 1) else matchChunk rest (j + 1) bytes else .mismatch

/-- The loop over the chunks that matches `expected` with their bytes: the number of the chunk, and the position after the match. -/
def matchChunks (expected : Bytes) : List Bytes → Option (Nat × Nat)
  | [] => none
  | b :: chunks =>
    match matchChunk expected 0 b with
    | .found j => some (0, j)
    | .mismatch => none
    | .more rest => (matchChunks rest chunks).map fun last => (last.1 + 1, last.2)

/-- Matches the bytes after a CR, in its chunk from position `j` on and in the chunks that follow. -/
def matchFrom (expected : Bytes) (j : Nat) (bytes : Bytes) (chunks : List Bytes) : Option (Nat × Nat) :=
  match matchChunk expected j bytes with
  | .found j => some (0, j)
  | .mismatch => none
  | .more rest => (matchChunks rest chunks).map fun last => (last.1 + 1, last.2)

/-- Looks for an LF at the start of the chunks after one that ends with an LF. -/
def matchLf : List Bytes → Option (Nat × Nat)
  | [] => none
  | [] :: chunks => (matchLf chunks).map fun last => (last.1 + 1, last.2)
  | (c :: _) :: _ => if c = 10 then some (0, 1) else none

/-- How the loop over the bytes of a chunk ends: by a jump to `found_header_end`, by a `break`, or after the last byte. The position
after the header is the number of the chunk, from this one on, and the offset in it. -/
inductive ScanEnd
  | found (last : Nat × Nat)
  | leave (offset : Nat)
  | none

/-- The loop over the bytes of a chunk from position `i` on. -/
def scanChunk (chunks : List Bytes) (i : Nat) : Bytes → ScanEnd
  | [] => .none
  | ch :: bytes =>
    if ch = 13 then
      match matchFrom afterCr (i + 1) bytes chunks with
      | some last => .found last
      | none => scanChunk chunks (i + 1) bytes
    else if ch = 10 then
      match bytes.head? with
      | some next => if next = 10 then .leave (i + 2) else scanChunk chunks (i + 1) bytes
      | none =>
        match matchLf chunks with
        | some last => .found (last.1 + 1, last.2)
        | none => .none
    else scanChunk chunks (i + 1) bytes

/-- The loop over the chunks, the first of which has number `k`. A `break` leaves the loop over the bytes only, so the scan goes on with
the next chunk. -/
def scanChunks (k : Nat) (last : Option (Nat × Nat)) : List Bytes → Option (Nat × Nat)
  | [] => last
  | bytes :: chunks =>
    match scanChunk chunks 0 bytes with
    | .found (chunk, offset) => some (k + chunk, offset)
    | .leave offset => scanChunks (k + 1) (some (k, offset)) chunks
    | .none => scanChunks (k + 1) last chunks

/-! ## The copy -/

/-- The loop that copies the header, up to the given offset in the chunk with the given number: the bytes and the chunks. -/
def copyHeader : Nat → Nat → List Chunk → Bytes × List Chunk
  | _, _, [] => ([], [])
  | 0, offset, c :: chunks => (c.unread.take offset, c.skip offset :: chunks)
  | k + 1, offset, c :: chunks =>
    let (header, rest) := copyHeader k offset chunks
    (c.unread ++ header, c.skip c.remaining :: rest)

/-- What `network_read` does: it is not called, it fails, or it leaves the queue in some state and finds the connection closed or
open. -/
inductive NetworkRead
  | notReadable
  | failed
  | read (readQueue : ChunkQueue) (isClosed : Bool)

/-- What the function uses of a connection. -/
structure ReadCon where
  con : Con
  readQueue : ChunkQueue
  state : ConState

namespace ReadCon

/-- The connection when the header has been looked for: the header is copied and the offsets and `bytes_out` are advanced. -/
def takeHeader (rc : ReadCon) (isClosed : Bool) : Bool × ReadCon :=
  match scanChunks 0 none (rc.readQueue.chunks.map Chunk.unread) with
  | some (k, offset) =>
    let (header, chunks) := copyHeader k offset rc.readQueue.chunks
    (true,
      { con := { rc.con with request := header }
        readQueue := { rc.readQueue with chunks := chunks, bytesOut := rc.readQueue.bytesOut + header.length }
        state := .requestEnd })
  | none => (false, if isClosed then { rc with state := .error } else rc)

/-- The size of the header, or of what has been read of it. -/
def headerSize (rc : ReadCon) (found : Bool) : Nat := if found then rc.con.request.length else rc.readQueue.length

/-- The check of the size of the header. -/
def checkSize (rc : ReadCon) (maxRequestFieldSize : Nat) (found : Bool) : ReadCon :=
  if maxRequestFieldSize < rc.headerSize found then
    { rc with
      con := { rc.con with httpStatus := 431, keepAlive := false }
      state := .handleRequest }
  else rc

/-- The function after `network_read`. -/
def readHeader (rc : ReadCon) (maxRequestFieldSize : Nat) (isClosed : Bool) : ReadCon :=
  let rc := { rc with readQueue := rc.readQueue.removeFinishedChunks }
  let (found, rc) := rc.takeHeader isClosed
  let rc := rc.checkSize maxRequestFieldSize found
  { rc with readQueue := rc.readQueue.removeFinishedChunks }

/-- `connection_handle_read_state`: what it returns, and the connection. -/
def handleReadState (rc : ReadCon) (maxRequestFieldSize : Nat) : NetworkRead → Int × ReadCon
  | .failed => (-1, { rc with state := .error })
  | .notReadable => (0, rc.readHeader maxRequestFieldSize false)
  | .read readQueue isClosed => (0, { rc with readQueue := readQueue }.readHeader maxRequestFieldSize isClosed)

end ReadCon

end Osp.Lighttpd
