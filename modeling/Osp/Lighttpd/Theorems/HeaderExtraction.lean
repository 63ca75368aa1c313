import Osp.Lighttpd.Request
import Osp.Lighttpd.Lemmas.ReadState

/-!
# How the header is cut out of the read queue

`connection_handle_read_state` copies the header out of the read queue as if the queue was one buffer, unless the header ends with two
LF in one chunk and a later chunk has an empty line too: the scan then goes on to that one, and the header that is copied has the
bytes of a further request in it.
-/

namespace Osp.Lighttpd

open Osp.Lib Chunk

/-- The shortest prefix of a queue that ends in an empty line was copied as the request and taken from the queue; if there is none,
the bytes of the queue are the same. -/
structure Extracts (cq : ChunkQueue) (rc : ReadCon) : Prop where
  header : ∀ header, IsHeader cq.bytes header → rc.con.request = header ∧ rc.readQueue.bytes = cq.bytes.drop header.length ∧
    rc.readQueue.bytesOut = cq.bytesOut + header.length
  none : (∀ header, ¬ IsHeader cq.bytes header) → rc.readQueue.bytes = cq.bytes

namespace ReadCon

variable (rc : ReadCon) (maxRequestFieldSize : Nat)

@[simp] theorem request_checkSize (found : Bool) : (rc.checkSize maxRequestFieldSize found).con.request = rc.con.request := by
  unfold checkSize
  split <;> rfl

@[simp] theorem readQueue_checkSize (found : Bool) : (rc.checkSize maxRequestFieldSize found).readQueue = rc.readQueue := by
  unfold checkSize
  split <;> rfl

/-- Empty chunks at the start do not matter. -/
theorem overruns_removeFinishedChunks (cq : ChunkQueue) :
    Overruns (cq.removeFinishedChunks.chunks.map unread) ↔ Overruns (cq.chunks.map unread) := by
  simp only [ChunkQueue.removeFinishedChunks]
  induction cq.chunks with
  | nil => rfl
  | cons c chunks ih =>
    by_cases hc : c.remaining = 0
    · rw [List.dropWhile_cons_of_pos (by simpa using hc), ih, List.map_cons, unread_eq_nil.2 hc, overruns_nil_cons]
    · rw [List.dropWhile_cons_of_neg (by simpa using hc)]

theorem extracts_readHeader (isClosed : Bool) :
    Extracts rc.readQueue (rc.readHeader maxRequestFieldSize isClosed) ↔ ¬ Overruns (rc.readQueue.chunks.map unread) := by
  rw [← overruns_removeFinishedChunks]
  have hbytes := rc.readQueue.bytes_removeFinishedChunks
  have hout : rc.readQueue.removeFinishedChunks.bytesOut = rc.readQueue.bytesOut := rfl
  unfold readHeader takeHeader
  generalize rc.readQueue.removeFinishedChunks = cq at hbytes hout ⊢
  have hflatten : (cq.chunks.map unread).flatten = rc.readQueue.bytes := by
    rw [← hbytes, ChunkQueue.bytes, List.flatMap_def]
  rcases scanChunks_cases 0 none (cq.chunks.map unread) with
    ⟨hend, hscan⟩ | ⟨n, r, hend, hscan, hwithin, hle, hiff⟩
  · rw [hflatten] at hend
    simp only [hscan]
    refine iff_of_true ⟨fun header hheader => absurd hheader (not_isHeader_of_headerEnd hend header), fun _ => ?_⟩ ?_
    · cases isClosed <;> simp [hbytes]
    · rintro ⟨_, _, _, _, _, _, _, hheader, _⟩
      rw [hflatten] at hheader
      exact not_isHeader_of_headerEnd hend _ hheader
  · rw [hflatten] at hend
    obtain ⟨hheader, hlength⟩ := headerEnd_eq_some.1 hend
    obtain ⟨hcopy, hrest⟩ := copyHeader_eq cq.chunks r.1 r.2 hwithin
    have hbytes : cq.chunks.flatMap unread = rc.readQueue.bytes := hbytes
    rw [hbytes] at hcopy hrest
    rw [Nat.zero_add] at hscan
    simp only [hscan]
    rw [← hiff]
    constructor
    · intro h
      have hrequest := (h.header _ hheader).1
      simp only [request_checkSize, hcopy] at hrequest
      have hlen := congrArg List.length hrequest
      have hlocate := locate_le hwithin
      rw [hflatten] at hlocate
      simpa [Nat.min_eq_left hlength, Nat.min_eq_left hlocate] using hlen
    · intro hlocate
      rw [show (r.1, r.2) = r from rfl, hlocate] at hcopy hrest
      refine ⟨fun header hheader' => ?_, fun h => absurd hheader (h _)⟩
      obtain rfl := hheader.unique hheader'
      simp only [request_checkSize, readQueue_checkSize, ChunkQueue.bytes_removeFinishedChunks]
      refine ⟨hcopy, ?_, ?_⟩
      · rw [List.length_take, Nat.min_eq_left hlength]
        exact hrest
      · simp only [ChunkQueue.removeFinishedChunks, hcopy, hout]

/-- The header is cut out of the bytes that the queue holds, without what `network_read` does to the queue or with it, exactly if the
scan does not overrun. -/
theorem extracts_iff :
    (Extracts rc.readQueue (rc.handleReadState maxRequestFieldSize .notReadable).2 ↔
      ¬ Overruns (rc.readQueue.chunks.map unread)) ∧
    ∀ cq isClosed, Extracts cq (rc.handleReadState maxRequestFieldSize (.read cq isClosed)).2 ↔
      ¬ Overruns (cq.chunks.map unread) :=
  ⟨rc.extracts_readHeader maxRequestFieldSize false,
    fun cq isClosed => { rc with readQueue := cq }.extracts_readHeader maxRequestFieldSize isClosed⟩

end ReadCon

/-- A connection that has read two chunks with a request each. -/
def pipelined : ReadCon where
  con := .accepted
  readQueue := ⟨[.ofMem (textBytes "GET / HTTP/1.0\n\nGET "), .ofMem (textBytes "/ HTTP/1.0\n\n")], 32, 0⟩
  state := .read

/-- The header of the first request is copied with the second request in it. -/
theorem pipelined_request_in_header :
    IsHeader pipelined.readQueue.bytes (textBytes "GET / HTTP/1.0\n\n") ∧
      (pipelined.handleReadState 8192 .notReadable).2.con.request = textBytes "GET / HTTP/1.0\n\nGET / HTTP/1.0\n\n" :=
  ⟨(headerEnd_eq_some (n := 16)).1 (by decide) |>.1, by decide⟩

end Osp.Lighttpd
