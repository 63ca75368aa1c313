import Osp.Lighttpd.ChunkedGrammar

/-!
# Chunked responses

`http_chunk.c`, and the part of `connection_handle_write_prepare` that switches chunked coding on: the body of a response is appended to
the write queue in pieces, each in a chunk of its own. A function gives nothing if it fails or the server aborts.
-/

namespace Osp.Lighttpd

open Osp.Lib

/-! ## Sizes -/

/-- `hex_chars_lc`. -/
def hexCharLc (n : Nat) : UInt8 := UInt8.ofNat (if n < 10 then 48 + n else 87 + n)

/-- The first loop of `buffer_append_uint_hex_lc`: the number of bytes of a number. It makes no more rounds than the number is large. -/
def byteCount : Nat → Nat → Nat
  | 0, _ => 1
  | fuel + 1, value => if value < 256 then 1 else byteCount fuel (value / 256) + 1

/-- The second loop: the last digits of a number. -/
def nibbles (value : Nat) : Nat → Bytes
  | 0 => []
  | k + 1 => hexCharLc (value >>> (4 * k) % 16) :: nibbles value k

/-- `buffer_append_uint_hex_lc`. -/
def uintHex (value : Nat) : Bytes := nibbles value (2 * byteCount value value)

/-- The size line of a chunk. -/
def sizeLine (length : Nat) : Bytes := uintHex length ++ crlf

/-! ## The write queue -/

/-- What the functions use of a connection: the write queue, and whether `transfer_encoding` is chunked. -/
structure ChunkCon where
  queue : ChunkQueue
  chunked : Bool

/-- What a call finds: temporary files, whether the last chunk is one, the flag `FDEVENT_STREAM_RESPONSE_BUFMIN`, and the content of the
file that it opens, if it can be opened. -/
structure ChunkEnv where
  files : TempFiles
  lastIsTemp : Bool
  bufmin : Bool
  found : Option Bytes

namespace ChunkQueue

/-- `chunkqueue_prepend_buffer`. -/
def prependBuffer (cq : ChunkQueue) (mem : Bytes) : ChunkQueue :=
  if mem = [] then cq else { cq with chunks := .ofMem mem :: cq.chunks, bytesIn := cq.bytesIn + mem.length }

end ChunkQueue

namespace ChunkCon

variable (env : ChunkEnv) (con : ChunkCon) (mem : Bytes)

/-- `http_chunk_append_len`, if the coding is chunked. -/
def appendLen (length : Nat) : ChunkCon :=
  if con.chunked then { con with queue := con.queue.appendMem (sizeLine length) } else con

/-- The end of a chunk, if the coding is chunked. -/
def appendCrlf : ChunkCon := if con.chunked then { con with queue := con.queue.appendMem crlf } else con

/-- `http_chunk_append_file_fd_range`, for a part of the file with the given bytes. -/
def appendFileFdRange (part : Bytes) : ChunkCon :=
  let con := con.appendLen part.length
  { con with queue := con.queue.appendFile part }.appendCrlf

/-- `http_chunk_append_file_range`. A negative length other than -1 is a failed assertion. -/
def appendFileRange (offset : Nat) (length : Int) : Option ChunkCon :=
  match env.found with
  | none => none
  | some content =>
    if length = -1 then
      if content.length ≤ offset then if offset = content.length then some con else none
      else some (con.appendFileFdRange (content.drop offset))
    else if (content.length : Int) - offset < length ∨ length < 0 then none
    else some (con.appendFileFdRange ((content.drop offset).take length.toNat))

/-- `http_chunk_append_file`. -/
def appendFile : Option ChunkCon :=
  match env.found with
  | none => none
  | some content => if content.length ≠ 0 then some (con.appendFileFdRange content) else some con

/-- `chunkqueue_append_mem_to_tempfile` on the write queue. -/
def writeTempfile : Option ChunkCon :=
  match env.files.append con.queue mem with
  | (true, queue) => some { con with queue := queue }
  | (false, _) => none

/-- `http_chunk_append_to_tempfile`. -/
def appendToTempfile : Option ChunkCon :=
  if con.chunked then do
    let con ← con.writeTempfile env (sizeLine mem.length)
    let con ← con.writeTempfile env mem
    con.writeTempfile env crlf
  else con.writeTempfile env mem

/-- How many bytes of the response are kept in memory. -/
def memoryLimit (bufmin : Bool) : Int := 1024 * if bufmin then 128 else 64

/-- `http_chunk_append_data`. -/
def appendData : Option ChunkCon :=
  if mem.length = 0 then some con
  else if env.lastIsTemp ∨ memoryLimit env.bufmin < con.queue.bytesIn - con.queue.bytesOut + mem.length then
    con.appendToTempfile env mem
  else
    let con := con.appendLen mem.length
    some { con with queue := con.queue.appendMem mem }.appendCrlf

/-- `http_chunk_append_buffer`. -/
def appendBuffer : Option ChunkCon := con.appendData env mem

/-- `http_chunk_append_mem`. -/
def appendMem : Option ChunkCon := con.appendData env mem

/-- `http_chunk_close`. -/
def close : ChunkCon := if con.chunked then { con with queue := con.queue.appendMem (textBytes "0\r\n\r\n") } else con

/-- The part of `connection_handle_write_prepare` that switches chunked coding on. -/
def startChunked : ChunkCon :=
  ⟨if con.queue.length ≠ 0 then (con.queue.prependBuffer (sizeLine con.queue.length)).appendMem crlf else con.queue, true⟩

end ChunkCon

/-! ## Series of calls -/

/-- The functions that append to the body of a response. -/
inductive ChunkCall
  | buffer (mem : Bytes)
  | mem (mem : Bytes)
  | file
  | fileRange (offset : Nat) (length : Int)

namespace ChunkCall

def run (env : ChunkEnv) (con : ChunkCon) : ChunkCall → Option ChunkCon
  | buffer bytes => con.appendBuffer env bytes
  | mem bytes => con.appendMem env bytes
  | file => con.appendFile env
  | fileRange offset length => con.appendFileRange env offset length

/-- The data that a call appends. -/
def data (env : ChunkEnv) : ChunkCall → Bytes
  | buffer bytes => bytes
  | mem bytes => bytes
  | file => env.found.getD []
  | fileRange offset length =>
    let rest := (env.found.getD []).drop offset
    if length = -1 then rest else rest.take length.toNat

end ChunkCall

/-- A series of calls, each with what it finds. -/
def runCalls (con : ChunkCon) (calls : List (ChunkEnv × ChunkCall)) : Option ChunkCon :=
  calls.foldlM (fun con call => call.2.run call.1 con) con

/-- The data that a series of calls appends. -/
def callsData (calls : List (ChunkEnv × ChunkCall)) : Bytes := calls.flatMap fun call => call.2.data call.1

end Osp.Lighttpd
