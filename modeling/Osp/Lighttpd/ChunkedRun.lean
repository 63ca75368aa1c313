import Osp.Lighttpd.Lemmas.PostChunked

/-!
# Calls of the decoder of chunked bodies

The body of a request is read by a series of calls of `connection_handle_read_post_chunked`, before each of which bytes may have
arrived. The server calls it as long as the length of the content is -1 and there was no error.
-/

namespace Osp.Lighttpd

open Osp.Lib

namespace Post

/-- Further bytes have been read from the network. How the bytes of the read queue are cut into chunks is left open. -/
structure Feeds (cq : ChunkQueue) (bytes : Bytes) (cq' : ChunkQueue) : Prop where
  inMemory : InMemory cq'.chunks
  balanced : cq'.Balanced
  bytes : cq'.bytes = cq.bytes ++ bytes

/-- A connection before the first call. -/
structure Starts (post : Post) : Prop where
  te : post.teChunked = 0
  contentLength : post.contentLength = -1
  dst : post.dst = ⟨[], 0, 0⟩
  cq : post.cq.bytes = []

/-- The bytes that have arrived and the connection after some calls, each of which met a condition. -/
inductive Run (conf : PostConf) (files : TempFiles) (ok : Post → Prop) : Bytes → Post → Prop
  | start {post : Post} : post.Starts → Run conf files ok [] post
  | call {arrived bytes : Bytes} {post post' : Post} {cq : ChunkQueue} : Run conf files ok arrived post → post.contentLength = -1 →
    Feeds post.cq bytes cq → ok { post with cq := cq } → handleReadPostChunked conf files { post with cq := cq } = .ok post' →
    Run conf files ok (arrived ++ bytes) post'

variable {conf : PostConf} {files : TempFiles} {ok : Post → Prop} {arrived bytes : Bytes} {post post' : Post} {cq : ChunkQueue}

/-- What a call comes to is what its loop comes to. -/
theorem outcome_handle (hready : post.Ready) : Outcome conf files post (handleReadPostChunked conf files post) := by
  have houtcome : Outcome conf files post (decode conf files (post.cq.length + 1) post) :=
    outcome_decode _ post hready (by rw [ChunkQueue.length_eq]; omega)
  unfold handleReadPostChunked
  split
  · rename_i handler failed heq
    rw [heq] at houtcome
    cases houtcome with
    | rejected hfollows _ hcause => exact .rejected hfollows ⟨_, _, rfl⟩ hcause
  · exact houtcome

/-- What holds after the calls, as long as the body has not ended. -/
structure Waiting (conf : PostConf) (arrived : Bytes) (post : Post) : Prop where
  reads : Position.Reads conf ⟨0, [], arrived⟩ post.position
  counted : post.dst.bytesIn = post.dst.bytes.length
  te : post.teChunked ≠ 1

namespace Waiting

theorem of_starts (h : post.Starts) : Waiting conf [] post where
  reads := by
    rw [position, h.te, h.dst, h.cq]
    exact .refl
  counted := by rw [h.dst]; rfl
  te := by rw [h.te]; decide

section

variable (h : Waiting conf arrived post) (hfeeds : Feeds post.cq bytes cq)

include h hfeeds

theorem ready : { post with cq := cq }.Ready :=
  ⟨hfeeds.inMemory, hfeeds.balanced, h.counted, h.te⟩

/-- The bytes that arrive follow the position. -/
theorem feeds :
    Position.Reads conf ⟨0, [], arrived ++ bytes⟩ { post with cq := cq }.position := by
  simp only [position, hfeeds.bytes]
  exact h.reads.more bytes

theorem follows
    (hfollows : Follows conf { post with cq := cq } post') : Waiting conf (arrived ++ bytes) post' :=
  ⟨(h.feeds hfeeds).trans hfollows.reads, hfollows.ready.counted, hfollows.ready.te⟩

end

end Waiting

/-- What the calls have come to: the decoder waits, or it is at the end of the body. -/
theorem Run.cases (h : Run conf files ok arrived post) :
    (post.contentLength = -1 ∧ Waiting conf arrived post) ∨
      ∃ last n, Position.Reads conf ⟨0, [], arrived⟩ last ∧ last.EndsAfter n ∧
        post.contentLength = last.data.length ∧ post.dst.bytes = last.data ∧ post.cq.bytes = last.unread.drop n := by
  induction h with
  | start hstarts => exact .inl ⟨hstarts.contentLength, .of_starts hstarts⟩
  | call _ hlength hfeeds _ hcall ih =>
    obtain ⟨-, hwaiting⟩ | ⟨last, n, -, -, hended, -⟩ := ih
    swap
    · omega
    have houtcome : Outcome conf files _ (handleReadPostChunked conf files _) := outcome_handle (hwaiting.ready hfeeds)
    rw [hcall] at houtcome
    cases houtcome with
    | waits hfollows =>
      refine .inl ⟨?_, hwaiting.follows hfeeds hfollows⟩
      rw [hfollows.eq]
      exact hlength
    | ends hfollows hends htakes =>
      have hwaiting' := hwaiting.follows hfeeds hfollows
      exact .inr ⟨_, _, hwaiting'.reads, hends, hwaiting'.counted, rfl, htakes.bytes⟩

theorem Run.waiting (h : Run conf files ok arrived post) (hlength : post.contentLength = -1) : Waiting conf arrived post := by
  obtain ⟨-, hwaiting⟩ | ⟨_, _, _, _, hended, _⟩ := h.cases
  · exact hwaiting
  · omega

/-! ## One call -/

/-- A connection that has received the given chunks and has read nothing of a body. -/
def received (chunks : List Bytes) : Post :=
  ⟨⟨chunks.map .ofMem, chunks.flatten.length, 0⟩, ⟨[], 0, 0⟩, 0, -1, true, 0, 0⟩

theorem starts_received : (received []).Starts := ⟨rfl, rfl, rfl, rfl⟩

theorem feeds_received (chunks : List Bytes) : Feeds (received []).cq chunks.flatten (received chunks).cq := by
  have hbytes : (received chunks).cq.bytes = chunks.flatten := by
    simp only [received, ChunkQueue.bytes, List.flatMap_map, Chunk.unread_ofMem]
    exact List.flatMap_id
  refine ⟨?_, ?_, hbytes⟩
  · intro c hc
    obtain ⟨data, -, rfl⟩ := List.mem_map.1 hc
    rfl
  · rw [ChunkQueue.Balanced, hbytes]
    simp [received]

theorem run_received {chunks : List Bytes} (hok : ok (received chunks))
    (hcall : handleReadPostChunked conf files (received chunks) = .ok post') : Run conf files ok chunks.flatten post' :=
  .call (.start starts_received) rfl (feeds_received chunks) hok hcall

theorem exists_ok_of_contentLength {result : Except Failure Post} {n : Int} (h : result.toOption.map contentLength = some n) :
    ∃ post, result = .ok post ∧ post.contentLength = n := by
  cases result with
  | error => cases h
  | ok post => exact ⟨post, rfl, Option.some.inj h⟩

/-- No limit on the content, and the given `max_request_field_size`. -/
def fieldSizeConf (max : Nat) : PostConf := ⟨0, by decide, max, 0⟩

/-- The body and the start of the next request, in two pieces. -/
def abcChunks : List Bytes := [textBytes "3\r\nab", textBytes "c\r\n0\r\n\r\nGET"]

end Post

end Osp.Lighttpd
