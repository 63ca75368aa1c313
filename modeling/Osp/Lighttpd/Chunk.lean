import Osp.Lib.Bytes

/-!
# Queues of chunks

`chunk.c` as the code that reads requests uses it. A chunk holds bytes in memory or a part of a file, of which the first `offset` have
been read; a queue is a list of chunks with counters of the bytes that went in and out. The cache of unused chunks is left out.
-/

namespace Osp.Lighttpd

open Osp.Lib

/-- `MEM_CHUNK` and `FILE_CHUNK`. -/
inductive ChunkType
  | mem
  | file
deriving DecidableEq

/-- A chunk. The data of a file chunk is the part of the file that it stands for. -/
structure Chunk where
  type : ChunkType
  data : Bytes
  offset : Nat
  offset_le : offset ≤ data.length
deriving DecidableEq

namespace Chunk

/-- A chunk in memory that nothing has been read of. -/
def ofMem (data : Bytes) : Chunk := ⟨.mem, data, 0, Nat.zero_le _⟩

/-- A chunk that stands for a part of a file. -/
def ofFile (data : Bytes) : Chunk := ⟨.file, data, 0, Nat.zero_le _⟩

/-- The bytes that have not been read. -/
def unread (c : Chunk) : Bytes := c.data.drop c.offset

/-- `chunk_remaining_length`. -/
def remaining (c : Chunk) : Nat := c.data.length - c.offset

/-- The chunk after `n` bytes of it have been read, of those that it has. -/
def skip (c : Chunk) (n : Nat) : Chunk := ⟨c.type, c.data, min (c.offset + n) c.data.length, Nat.min_le_right _ _⟩

end Chunk

/-- `chunkqueue`. -/
structure ChunkQueue where
  chunks : List Chunk
  bytesIn : Int
  bytesOut : Int
deriving DecidableEq

namespace ChunkQueue

variable (cq : ChunkQueue)

/-- The bytes that a queue holds. -/
def bytes : Bytes := cq.chunks.flatMap Chunk.unread

/-- `chunkqueue_append_chunk`. -/
def appendChunk (c : Chunk) : ChunkQueue :=
  { cq with
    chunks := cq.chunks ++ [c]
    bytesIn := cq.bytesIn + c.remaining }

/-- `chunkqueue_append_mem`. -/
def appendMem (mem : Bytes) : ChunkQueue := if mem = [] then cq else cq.appendChunk (.ofMem mem)

/-- `chunkqueue_append_file`, for the part of the file with the given bytes. -/
def appendFile (part : Bytes) : ChunkQueue := if part = [] then cq else cq.appendChunk (.ofFile part)

/-- `chunkqueue_remove_finished_chunks`. -/
def removeFinishedChunks : ChunkQueue := { cq with chunks := cq.chunks.dropWhile (·.remaining = 0) }

/-- `chunkqueue_length`. -/
def length : Nat := (cq.chunks.map Chunk.remaining).sum

/-- The loop of `chunkqueue_mark_written` over the chunks; nothing if more is written than there is, which is a failed assertion. -/
def markChunks : List Chunk → Nat → Option (List Chunk)
  | [], written => if written = 0 then some [] else none
  | c :: chunks, written =>
    if written = 0 ∧ c.remaining ≠ 0 then some (c :: chunks)
    else if c.remaining ≤ written then markChunks chunks (written - c.remaining)
    else some (c.skip written :: chunks)

/-- `chunkqueue_mark_written`. -/
def markWritten (len : Nat) : Option ChunkQueue :=
  (markChunks cq.chunks len).map fun chunks => { cq with chunks := chunks, bytesOut := cq.bytesOut + len }

/-- The loop of `chunkqueue_steal` and `chunkqueue_steal_with_tempfiles`. `move` appends the first bytes of a chunk to the other queue,
or fails. -/
def stealLoop (move : ChunkQueue → Chunk → Nat → Bool × ChunkQueue) : List Chunk → Int → ChunkQueue → Int →
    Bool × ChunkQueue × List Chunk × Int
  | [], _, dest, bytesOut => (true, dest, [], bytesOut)
  | c :: chunks, len, dest, bytesOut =>
    if len ≤ 0 then (true, dest, c :: chunks, bytesOut)
    else if c.remaining = 0 then stealLoop move chunks len dest bytesOut
    else if c.remaining ≤ len then
      match move dest c c.remaining with
      | (false, dest) => (false, dest, c :: chunks, bytesOut)
      | (true, dest) => stealLoop move chunks (len - c.remaining) dest (bytesOut + c.remaining)
    else
      match move dest c len.toNat with
      | (false, dest) => (false, dest, c :: chunks, bytesOut)
      | (true, dest) => (true, dest, c.skip len.toNat :: chunks, bytesOut + len)

/-- A chunk is moved if all of it is taken; else its first bytes are copied, or become a further part of the file. -/
def moveChunk (dest : ChunkQueue) (c : Chunk) (use : Nat) : ChunkQueue :=
  if use = c.remaining then dest.appendChunk c
  else
    match c.type with
    | .mem => dest.appendMem (c.unread.take use)
    | .file => dest.appendFile (c.unread.take use)

/-- Takes the first bytes of one queue to the other: whether it succeeds, and the two queues. -/
def stealWith (move : ChunkQueue → Chunk → Nat → Bool × ChunkQueue) (dest src : ChunkQueue) (len : Int) :
    Bool × ChunkQueue × ChunkQueue :=
  let (ok, dest, chunks, bytesOut) := stealLoop move src.chunks len dest src.bytesOut
  (ok, dest, { src with chunks := chunks, bytesOut := bytesOut })

/-- `chunkqueue_steal`, which always succeeds. -/
def steal : ChunkQueue → ChunkQueue → Int → Bool × ChunkQueue × ChunkQueue :=
  stealWith fun dest c use => (true, dest.moveChunk c use)

end ChunkQueue

/-- `chunkqueue_append_mem_to_tempfile`: it appends bytes to a queue by writing them to temporary files, or fails. Where it writes them
and which system calls fail is left open. -/
structure TempFiles where
  append : ChunkQueue → Bytes → Bool × ChunkQueue
  bytes_append : ∀ {cq cq' : ChunkQueue} {mem : Bytes}, append cq mem = (true, cq') → cq'.bytes = cq.bytes ++ mem
  bytesIn_append : ∀ {cq cq' : ChunkQueue} {mem : Bytes}, append cq mem = (true, cq') → cq'.bytesIn = cq.bytesIn + mem.length

namespace ChunkQueue

/-- `chunkqueue_steal_with_tempfiles`. -/
def stealWithTempfiles (files : TempFiles) : ChunkQueue → ChunkQueue → Int → Bool × ChunkQueue × ChunkQueue :=
  stealWith fun dest c use =>
    match c.type with
    | .file => (true, dest.moveChunk c use)
    | .mem => files.append dest (c.unread.take use)

end ChunkQueue

end Osp.Lighttpd
