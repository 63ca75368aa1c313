import Osp.Lib.Search
import Osp.Lighttpd.Chunk
import Osp.Lighttpd.Path

/-!
# Reading a chunked body

`connection_handle_read_post_chunked` of `connections-glue.c`: it decodes the chunked body of a request from the read queue into the
queue of the request content. What has been decoded of a chunk is kept in `te_chunked` between calls: 0 at the start of a chunk, else
the number of bytes of data and of the CRLF after it that are missing.

A call that fails has an error for the client (`connection_handle_read_post_error`), a failed assertion or arithmetic on a null
pointer, or a loop that does not end; the last is what is left when the number of rounds that a loop is given is used up.
-/

namespace Osp.Lighttpd

open Osp.Lib

/-- The values of `handler_t` that are used here, apart from `HANDLER_GO_ON`. -/
inductive Handler
  | finished
  | error
deriving DecidableEq

/-- What the function uses of the configuration: `max_request_size`, an `unsigned int` in kBytes, and `max_request_field_size`; and what
it reads as the length of a chunk that was removed from the queue, 0 if it is in the cache of unused chunks and anything if it was
freed. -/
structure PostConf where
  maxRequestSize : Nat
  maxRequestSize_lt : maxRequestSize < 2 ^ 32
  maxRequestFieldSize : Nat
  removedLength : Nat

/-- What the function uses of a connection, with the read queue and the queue that the content goes to. -/
structure Post where
  cq : ChunkQueue
  dst : ChunkQueue
  teChunked : Int
  contentLength : Int
  keepAlive : Bool
  httpStatus : Nat
  bytesHeader : Nat
deriving DecidableEq

/-- How a call fails. -/
inductive Failure
  | error (handler : Handler) (post : Post)
  | crash
  | endless
deriving DecidableEq

/-- The value of an `off_t` after an overflow. -/
def offT (n : Int) : Int := n.bmod (2 ^ 64)

/-- The end of the trailers: the end of a line and an empty line. -/
def crlfCrlf : Bytes := [13, 10, 13, 10]

namespace Chunk

/-- `buffer_append_string_len` to the buffer of a chunk. -/
def append (c : Chunk) (bytes : Bytes) : Chunk := ⟨c.type, c.data ++ bytes, c.offset, by
  rw [List.length_append]
  exact c.offset_le.trans (Nat.le_add_right _ _)⟩

end Chunk

/-- The loop of `connection_handle_read_post_cq_compact`, which is at most as long as the list of chunks; nothing if an assertion
fails. The first two chunks become one. -/
def compactChunks : Nat → List Chunk → Option (Bool × List Chunk)
  | n + 1, c :: next :: chunks =>
    if c.type = .file ∨ next.type = .file then none
    else
      let chunks := (c.append next.unread :: chunks).dropWhile (·.remaining = 0)
      if next.remaining ≠ 0 then some (true, chunks) else compactChunks n chunks
  | _, chunks => some (false, chunks)

/-- `connection_handle_read_post_cq_compact`. -/
def cqCompact (cq : ChunkQueue) : Option (Bool × ChunkQueue) :=
  (compactChunks cq.chunks.length cq.chunks).map fun (found, chunks) => (found, { cq with chunks := chunks })

/-- `connection_handle_read_post_chunked_crlf`. -/
def chunkedCrlf : List Chunk → Int
  | [] => 0
  | c :: chunks =>
    match c.unread with
    | [13] =>
      match (chunks.flatMap Chunk.unread).head? with
      | none => 0
      | some next => if next = 10 then 1 else -1
    | 13 :: 10 :: _ => 1
    | _ => -1

/-- The loop over the digits of a size: the size and what follows them, or nothing if the size is too large. -/
def readSize (te : Int) : Bytes → Option (Int × Bytes)
  | [] => some (te, [])
  | c :: bytes =>
    match hex2int c with
    | none => some (te, c :: bytes)
    | some u => if 2 ^ 59 - 1 < te then none else readSize (te * 16 + u) bytes

/-- The size in a size line, unless it is too large or followed by a byte that is not allowed. -/
def lineSize (bytes : Bytes) : Option Int :=
  match readSize 0 bytes with
  | none => none
  | some (te, rest) =>
    let rest := rest.dropWhile fun c => c = 32 || c = 9
    if rest.head? = some 13 ∨ rest.head? = some 59 then some te else none

namespace Post

variable (conf : PostConf) (files : TempFiles) (post : Post)

/-- `connection_handle_read_post_error`. -/
def readPostError (status : Nat) : Failure :=
  if post.bytesHeader ≠ 0 then .error .error { post with keepAlive := false }
  else .error .finished { post with keepAlive := false, httpStatus := status }

/-- `chunkqueue_mark_written` of the read queue. -/
def markWritten (len : Nat) : Except Failure Post :=
  match post.cq.markWritten len with
  | none => .error .crash
  | some cq => .ok { post with cq := cq }

/-- The search for the end of a size line in the first chunk, to which chunks are appended while it has none: the length of the line
if it is complete. -/
def findLine : Nat → Post → Except Failure (Option Nat × Post)
  | 0, _ => .error .endless
  | n + 1, post =>
    match post.cq.chunks with
    | [] => .ok (none, post)
    | c :: _ =>
      if c.type = .file then .error .crash
      else
        match search [10] (cString c.unread) with
        | some (line, _) => .ok (some (line.length + 1), post)
        | none =>
          if 1024 ≤ c.remaining then .error (post.readPostError 400)
          else
            match cqCompact post.cq with
            | none => .error .crash
            | some (false, cq) => .ok (none, { post with cq := cq })
            | some (true, cq) => findLine n { post with cq := cq }

/-- The search for the end of the trailers from the given place of the first chunk, to which chunks are appended while it has none: the
place after the end, or the length that is read from the chunk that was the first one. -/
def findEnd (conf : PostConf) (hsz : Nat) : Nat → Post → Except Failure ((Nat ⊕ Nat) × Post)
  | 0, _ => .error .endless
  | n + 1, post =>
    match post.cq.chunks with
    | [] => .error .crash
    | c :: chunks =>
      match search crlfCrlf (cString (c.unread.drop hsz)) with
      | some (trailers, _) => .ok (.inl (hsz + trailers.length + 4), post)
      | none =>
        match cqCompact post.cq with
        | none => .error .crash
        | some (true, cq) => findEnd conf hsz n { post with cq := cq }
        | some (false, cq) =>
          .ok (.inr (if chunks = [] then c.remaining else conf.removedLength), { post with cq := cq })

/-- What is done with the last chunk. The test for a CRLF after its line looks at the LF of the line, so it never succeeds, and the end
of the trailers is looked for from the CRLF of the line on. If the trailers are too long, their end is computed from a null pointer. -/
def lastChunk (hsz : Nat) : Except Failure Post :=
  match findEnd conf (hsz - 2) (post.cq.chunks.length + 1) post with
  | .error failure => .error failure
  | .ok (.inr length, post) => if length < conf.maxRequestFieldSize then .ok post else .error .crash
  | .ok (.inl hsz, post) =>
    match post.markWritten hsz with
    | .error failure => .error failure
    | .ok post => .ok { post with contentLength := post.dst.bytesIn }

/-- Whether a chunk of the given size is too large. -/
def tooLarge (te bytesIn : Int) : Bool :=
  conf.maxRequestSize ≠ 0 ∧ (conf.maxRequestSize * 1024 < te ∨ conf.maxRequestSize * 1024 - te < bytesIn)

/-- What is done with a complete size line of the given length. -/
def sizeLine (hsz : Nat) : Except Failure Post :=
  match lineSize (post.cq.chunks.head?.elim [] Chunk.unread) with
  | none => .error (post.readPostError 400)
  | some te =>
    if 1024 ≤ hsz then .error (post.readPostError 400)
    else if te = 0 then post.lastChunk conf hsz
    else
      match post.markWritten hsz with
      | .error failure => .error failure
      | .ok post =>
        if tooLarge conf te post.dst.bytesIn then .error (post.readPostError 413)
        else .ok { post with teChunked := offT (te + 2) }

/-- The loop at the start of a chunk. -/
def chunkHeader : Except Failure Post :=
  if post.teChunked ≠ 0 then .ok post
  else
    match findLine (post.cq.chunks.length + 1) post with
    | .error failure => .error failure
    | .ok (none, post) => .ok post
    | .ok (some hsz, post) => post.sizeLine conf hsz

/-- `chunkqueue_steal` or, if the content is large, `chunkqueue_steal_with_tempfiles`. -/
def stealData (len : Int) : Bool × ChunkQueue × ChunkQueue :=
  if offT (post.dst.bytesIn + post.teChunked) ≤ 64 * 1024 then ChunkQueue.steal post.dst post.cq len
  else ChunkQueue.stealWithTempfiles files post.dst post.cq len

/-- The data of a chunk. -/
def chunkData : Except Failure Post :=
  if post.teChunked ≤ 2 then .ok post
  else
    let len := min (post.cq.bytesIn - post.cq.bytesOut) (post.teChunked - 2)
    match post.stealData files len with
    | (false, dst, cq) => .error ({ post with dst := dst, cq := cq }.readPostError 500)
    | (true, dst, cq) => .ok { post with dst := dst, cq := cq, teChunked := post.teChunked - len }

/-- The CRLF after the data of a chunk. -/
def chunkEnd : Except Failure Post :=
  if post.teChunked ≠ 2 then .ok post
  else if chunkedCrlf post.cq.chunks = -1 then .error (post.readPostError 400)
  else
    match post.markWritten 2 with
    | .error failure => .error failure
    | .ok post => .ok { post with teChunked := 0 }

/-- The loop over the chunks of the body, at most `n` rounds of it. -/
def decode (conf : PostConf) (files : TempFiles) : Nat → Post → Except Failure Post
  | 0, _ => .error .endless
  | n + 1, post =>
    match post.chunkHeader conf with
    | .error failure => .error failure
    | .ok post =>
      if post.teChunked = 0 then .ok post
      else
        match post.chunkData files with
        | .error failure => .error failure
        | .ok post =>
          if post.cq.bytesIn - post.cq.bytesOut < post.teChunked then .ok post
          else
            match post.chunkEnd with
            | .error failure => .error failure
            | .ok post => if post.cq.chunks = [] then .ok post else decode conf files n post

/-- `connection_handle_read_post_chunked`. The rounds of the loop are bounded by the number of bytes in the read queue, as each takes
some of them. -/
def handleReadPostChunked : Except Failure Post :=
  match decode conf files (post.cq.length + 1) post with
  | .error (.error handler failed) => .error (.error handler { failed with teChunked := post.teChunked })
  | result => result

end Post

end Osp.Lighttpd
