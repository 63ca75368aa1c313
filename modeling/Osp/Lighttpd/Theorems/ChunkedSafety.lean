import Osp.Lighttpd.Theorems.ChunkedBody

/-!
# Calls of the decoder of chunked bodies come to an end

A call of `connection_handle_read_post_chunked` returns, without a failed assertion and with a `te_chunked` that is not negative, unless
the stream has one of two things: a chunk whose size is so large that `te_chunked` overflows when the CRLF is added, which only
`max_request_size` prevents, or a last chunk without an end that is as long as `max_request_field_size`.
-/

namespace Osp.Lighttpd

open Osp.Lib

namespace Post

variable {conf : PostConf} {files : TempFiles} {arrived bytes : Bytes} {post post' : Post} {cq : ChunkQueue}

/-- The call has returned, and has left `te_chunked` as it may be. -/
def Robust : Except Failure Post → Prop
  | .ok post => 0 ≤ post.teChunked
  | .error (.error _ post) => 0 ≤ post.teChunked
  | .error .crash => False
  | .error .endless => False

/-- What a call finds in the read queue is safe: the last chunk of the queue is not empty, and of the size lines that are read none has
a size that overflows, and a last chunk is short as long as it has no end. -/
structure Safe (conf : PostConf) (post : Post) : Prop where
  lastFull : LastFull post.cq.chunks
  size : ∀ pos hsz size, Position.Reads conf post.position pos → pos.HasLine hsz size → conf.maxRequestSize = 0 → size + 2 < 2 ^ 63
  trailers : ∀ pos hsz, Position.Reads conf post.position pos → pos.HasLine hsz 0 → trailersEnd pos.unread hsz = none →
    pos.unread.length < conf.maxRequestFieldSize

namespace Safe

/-- A queue with a whole body is safe. -/
theorem of_ends {last : Position} {n : Nat} (hfull : LastFull post.cq.chunks) (hreads : Position.Reads conf post.position last)
    (hend : last.EndsAfter n) : Safe conf post where
  lastFull := hfull
  size pos hsz size hpos hline _ := by
    have hlast := hreads.reads_last hend hpos
    obtain ⟨hnonneg, hlt⟩ := lineSize_bounds hline.size
    by_cases hsize : size = 0
    · omega
    · obtain ⟨hsz', size', hline', hlarge⟩ := hlast.hasLine hend hline.te
      obtain rfl : size = size' := Option.some.inj (hline.size.symm.trans hline'.size)
      have hte := (hlast.reads_last hend (.single (.line hline hsize (hlarge hsize)))).te_le hend
      exact ((offT_size (by omega) hlt).resolve_right (by simp only at hte; omega)).2
  trailers pos hsz hpos hline hnone := by
    obtain rfl := (hreads.reads_last hend hpos).eq_of_stuck hline.not_step
    obtain ⟨hsz', hline', hsome⟩ := hend
    obtain rfl : hsz = hsz' := Option.some.inj (hline.line.symm.trans hline'.line)
    exact absurd (hnone.symm.trans hsome) (by nofun)

/-- No position with a negative `te_chunked` is reached. -/
theorem te_nonneg (h : Safe conf post) (hte : 0 ≤ post.teChunked) {pos : Position} (hreads : Position.Reads conf post.position pos) :
    0 ≤ pos.te := by
  induction hreads with
  | refl => exact hte
  | tail hreads hstep ih =>
    cases hstep with
    | line hline hsize hlarge =>
      rename_i hsz size
      obtain ⟨hnonneg, hlt⟩ := lineSize_bounds hline.size
      have hfits : size + 2 < 2 ^ 63 := by
        by_cases hmax : conf.maxRequestSize = 0
        · exact h.size _ _ _ hreads hline hmax
        · have := conf.maxRequestSize_lt
          simp only [tooLarge, decide_eq_false_iff_not, not_and, not_or] at hlarge
          omega
      obtain ⟨hoff, -⟩ := (offT_size (by omega) hlt).resolve_right (by omega)
      simp only
      omega
    | data hlt =>
      simp only
      omega
    | crlf => exact le_rfl

/-- A call on a safe queue is robust. -/
theorem robust (h : Safe conf post) (hready : post.Ready) (hte : 0 ≤ post.teChunked) :
    Robust (handleReadPostChunked conf files post) := by
  have houtcome : Outcome conf files post (handleReadPostChunked conf files post) := outcome_handle hready
  cases hresult : handleReadPostChunked conf files post with
  | ok post' =>
    rw [hresult] at houtcome
    cases houtcome with
    | waits hfollows => exact h.te_nonneg hte hfollows.reads
    | ends hfollows => exact h.te_nonneg hte hfollows.reads
  | error failure =>
    rw [hresult] at houtcome
    cases houtcome with
    | rejected _ hfailed =>
      -- `te_chunked` is stored only by a call that goes on
      obtain ⟨handler, failed, rfl⟩ := hfailed
      unfold handleReadPostChunked at hresult
      split at hresult
      · cases hresult
        exact hte
      · rename_i hno
        exact absurd hresult (hno _ _)
    | crash hfollows hline hend hlong =>
      have := h.trailers _ _ hfollows.reads hline hend
      have := hlong (hfollows.trimmed.lastFull h.lastFull)
      simp only [position] at *
      omega
    | endless hfollows hneg =>
      have hnonneg := h.te_nonneg hte hfollows.reads
      simp only [position] at hnonneg
      omega

end Safe

theorem Run.te_nonneg (h : Run conf files (Safe conf) arrived post) : 0 ≤ post.teChunked := by
  induction h with
  | start hstarts => rw [hstarts.te]
  | call hrun hlength hfeeds hsafe hcall ih =>
    have hrobust : Robust (handleReadPostChunked conf files _) := hsafe.robust ((hrun.waiting hlength).ready hfeeds) ih
    rw [hcall] at hrobust
    exact hrobust

/-- Every call is robust, in every series of calls on safe queues. -/
theorem robust_of_run (hrun : Run conf files (Safe conf) arrived post) (hlength : post.contentLength = -1)
    (hfeeds : Feeds post.cq bytes cq) (hsafe : Safe conf { post with cq := cq }) :
    Robust (handleReadPostChunked conf files { post with cq := cq }) :=
  hsafe.robust ((hrun.waiting hlength).ready hfeeds) hrun.te_nonneg

theorem robust_of_run_abc : Safe (fieldSizeConf 8192) (received abcChunks) ∧
    Robust (handleReadPostChunked (fieldSizeConf 8192) .reliable (received abcChunks)) := by
  have hbytes : (received abcChunks).cq.bytes = abcBody.bytes ++ textBytes "GET" := by decide
  have hposition : (received abcChunks).position = ⟨0, [], abcBody.bytes ++ textBytes "GET"⟩ := by
    rfl
  have hfits : abcBody.Fits (fieldSizeConf 8192) := fits_abcBody
  have hsafe : Safe (fieldSizeConf 8192) (received abcChunks) :=
    .of_ends (by unfold LastFull; decide) (hposition ▸ hfits.reads (textBytes "GET")) (hfits.endsAfter _ _)
  have hrun : Run (fieldSizeConf 8192) .reliable (Safe (fieldSizeConf 8192)) [] (received []) := .start starts_received
  have hrobust := robust_of_run hrun rfl (feeds_received abcChunks) hsafe
  exact ⟨hsafe, hrobust⟩

/-- A call with a negative `te_chunked` and bytes in the queue does not end. -/
theorem decode_endless (n : Nat) (hte : post.teChunked < 0) (hchunks : post.cq.chunks ≠ []) (hbalanced : post.cq.Balanced) :
    decode conf files n post = .error .endless := by
  induction n with
  | zero => rfl
  | succ n ih =>
    have hheader : post.chunkHeader conf = .ok post := if_pos hte.ne
    have hdata : post.chunkData files = .ok post := if_pos (by omega)
    have hend : post.chunkEnd = .ok post := if_pos (by omega)
    have hlt : ¬ (post.cq.bytes.length : Int) < post.teChunked := by omega
    simp only [decode, hheader, hte.ne, hdata, hend, hchunks, if_false, hbalanced.symm ▸ hlt, ih]

/-- A chunk of the largest size. -/
def largestChunk : Bytes := textBytes "7fffffffffffffff\r\nx"

/-- The largest size makes `te_chunked` negative, and the call does not end if more bytes follow. A last chunk that has no end yet crashes
if `max_request_field_size` is not larger. -/
theorem not_robust :
    (handleReadPostChunked (fieldSizeConf 8192) .reliable (received [largestChunk.dropLast])).toOption.map teChunked =
      some (1 - 2 ^ 63) ∧
    (∀ n, decode (fieldSizeConf 8192) .reliable n (received [largestChunk]) = .error .endless) ∧
    handleReadPostChunked (fieldSizeConf 3) .reliable (received [textBytes "0\r\n"]) = .error .crash := by
  refine ⟨by decide, fun n => ?_, by decide⟩
  cases n with
  | zero => rfl
  | succ n =>
    -- what is left after the size line
    let mid : Post := ⟨⟨[⟨.mem, largestChunk, 18, by decide⟩], 19, 18⟩, ⟨[], 0, 0⟩, 1 - 2 ^ 63, -1, true, 0, 0⟩
    have hheader : (received [largestChunk]).chunkHeader (fieldSizeConf 8192) = .ok mid := by decide
    have hmid : mid.chunkHeader (fieldSizeConf 8192) = .ok mid := if_pos (by decide)
    have hsame : decode (fieldSizeConf 8192) .reliable (n + 1) (received [largestChunk]) =
        decode (fieldSizeConf 8192) .reliable (n + 1) mid := by rw [decode, decode, hheader, hmid]
    rw [hsame]
    exact decode_endless _ (by decide) (by simp [mid]) (by unfold ChunkQueue.Balanced; decide)

end Post

end Osp.Lighttpd
