import Osp.Lighttpd.ChunkedGrammar
import Osp.Lighttpd.ChunkedRun

/-!
# Chunked bodies are decoded

For every body of the grammar and every way in which its bytes arrive, the calls of `connection_handle_read_post_chunked` decode it. For
this no chunk of the read queue is empty when a call is made, and the last chunk with the trailers is no longer than
`max_request_field_size`: the code compares all that is there of them with it, and then uses the end that it has not found.
-/

namespace Osp.Lighttpd

open Osp.Lib List

namespace Post

variable {conf : PostConf} {files : TempFiles} {ok : Post → Prop} {arrived bytes : Bytes} {post post' : Post} {cq : ChunkQueue}

/-- What the connection looks like after a call: the content is complete if the whole body has arrived. -/
def Decoded (body : ChunkedBody) (arrived : Bytes) (post : Post) : Prop :=
  if body.bytes.length ≤ arrived.length then
    post.contentLength = body.data.length ∧ post.dst.bytes = body.data ∧ post.cq.bytes = arrived.drop body.bytes.length
  else post.contentLength = -1

section

variable {body : ChunkedBody} {more rest : Bytes}

/-- A position in what has arrived of a stream with a body leads to the last chunk of the body. -/
theorem reads_ending (hfits : body.Fits conf) {pos : Position} (hreads : Position.Reads conf ⟨0, [], arrived⟩ pos)
    (hstream : arrived ++ more = body.bytes ++ rest) :
    Position.Reads conf (pos.more more) ⟨0, body.data, body.ending ++ rest⟩ := by
  have hmore : Position.Reads conf ⟨0, [], arrived ++ more⟩ (pos.more more) := hreads.more more
  rw [hstream] at hmore
  exact (hfits.reads rest).reads_last (hfits.endsAfter _ rest) hmore

/-- A last chunk that is found is the last chunk of the body. -/
theorem eq_ending (hfits : body.Fits conf) {pos : Position} (hreads : Position.Reads conf ⟨0, [], arrived⟩ pos)
    (hstream : arrived ++ more = body.bytes ++ rest) {hsz : Nat} (hline : pos.HasLine hsz 0) :
    pos.more more = ⟨0, body.data, body.ending ++ rest⟩ :=
  ((reads_ending hfits hreads hstream).eq_of_stuck (hline.more more).not_step).symm

theorem decoded_of_waits (hfits : body.Fits conf) (hreads : Position.Reads conf ⟨0, [], arrived⟩ post.position)
    (hstream : arrived ++ more = body.bytes ++ rest) (hwaits : post.position.Waits ∨ post.teChunked < 0)
    (hlength : post.contentLength = -1) : Decoded body arrived post := by
  rw [Decoded, if_neg]
  · exact hlength
  · -- else the whole body is there, and the decoder does not wait
    intro hle
    obtain ⟨rest', rfl⟩ : body.bytes <+: arrived :=
      prefix_of_prefix_length_le ⟨rest, hstream.symm⟩ (prefix_append _ _) hle
    have hlast := (hfits.reads rest').reads_last (hfits.endsAfter _ rest') hreads
    rcases hwaits with hwaits | hneg
    · exact hlast.not_waits (hfits.endsAfter _ rest') hwaits
    · have := (hlast.te_le (hfits.endsAfter _ rest')).1
      simp only [position] at this
      omega

theorem decoded_of_ends (hfits : body.Fits conf) (hreads : Position.Reads conf ⟨0, [], arrived⟩ post.position)
    (hstream : arrived ++ more = body.bytes ++ rest) {n : Nat} (hends : post.position.EndsAfter n) (htakes : post.cq.Takes n cq)
    (hcounted : post.dst.bytesIn = post.dst.bytes.length) :
    Decoded body arrived { post with cq := cq, contentLength := post.dst.bytesIn } := by
  obtain ⟨hsz, hline, -⟩ := id hends
  have heq := eq_ending hfits hreads hstream hline
  obtain rfl : n = body.ending.length := (heq ▸ hends.more more).unique (hfits.endsAfter _ rest)
  have hdata : post.dst.bytes = body.data := congrArg Position.data heq
  have hunread : post.cq.bytes ++ more = body.ending ++ rest := congrArg Position.unread heq
  have hlength := congrArg List.length hunread
  have hstream_length := congrArg List.length hstream
  have hle := htakes.le
  simp only [length_append] at hlength hstream_length
  rw [Decoded, if_pos (by omega)]
  refine ⟨by rw [hcounted, hdata], hdata, ?_⟩
  rw [htakes.bytes]
  apply (append_left_inj more).1
  rw [← drop_append_of_le_length hle, ← drop_append_of_le_length (by omega), hunread, hstream, drop_left, drop_left]

end

/-- Every body that fits is decoded, however its bytes arrive. -/
theorem decodes_body (hfiles : ∀ cq mem, (files.append cq mem).1 = true) {body : ChunkedBody} (hfits : body.Fits conf)
    (hending : body.ending.length ≤ conf.maxRequestFieldSize)
    (hrun : Run conf files (fun post => NoEmpty post.cq.chunks) arrived post) (hlength : post.contentLength = -1)
    (hfeeds : Feeds post.cq bytes cq) (hfull : NoEmpty cq.chunks) {rest : Bytes} (hstream : arrived ++ bytes <+: body.bytes ++ rest) :
    ∃ post', handleReadPostChunked conf files { post with cq := cq } = .ok post' ∧ Decoded body (arrived ++ bytes) post' := by
  have hwaiting := hrun.waiting hlength
  have houtcome : Outcome conf files _ (handleReadPostChunked conf files { post with cq := cq }) :=
    outcome_handle (hwaiting.ready hfeeds)
  obtain ⟨more, hstream⟩ := hstream
  generalize handleReadPostChunked conf files { post with cq := cq } = result at houtcome
  cases houtcome with
  | waits hfollows hwaits =>
    refine ⟨_, rfl, decoded_of_waits hfits (hwaiting.follows hfeeds hfollows).reads hstream (hwaits hfull) ?_⟩
    rw [hfollows.eq]
    exact hlength
  | ends hfollows hends htakes =>
    have hwaiting' := hwaiting.follows hfeeds hfollows
    exact ⟨_, rfl, decoded_of_ends hfits hwaiting'.reads hstream hends htakes hwaiting'.counted⟩
  | rejected hfollows _ hcause =>
    exfalso
    rcases hcause with hrejected | hempty | ⟨cq, mem, hfails⟩
    · exact (reads_ending hfits (hwaiting.follows hfeeds hfollows).reads hstream).not_rejected (hfits.endsAfter _ rest) hrejected
    · exact hempty (hfollows.trimmed.noEmpty hfull)
    · exact absurd ((hfiles cq mem).symm.trans hfails) (by decide)
  | crash hfollows hline hnone hlong =>
    -- the last chunk is not complete, so less than its length is there
    rename_i mid hsz
    exfalso
    have hunread : mid.cq.bytes ++ more = body.ending ++ rest :=
      congrArg Position.unread (eq_ending hfits (hwaiting.follows hfeeds hfollows).reads hstream hline)
    have hlt : mid.cq.bytes.length < body.ending.length := by
      by_contra hle
      obtain ⟨rest', hrest⟩ : body.ending <+: mid.cq.bytes :=
        prefix_of_prefix_length_le ⟨rest, hunread.symm⟩ (prefix_append _ _) (by omega)
      obtain ⟨hsz', hline', hend⟩ := hfits.endsAfter mid.dst.bytes rest'
      rw [hrest] at hline' hend
      obtain rfl : hsz = hsz' := Option.some.inj (hline.line.symm.trans hline'.line)
      exact absurd (hnone.symm.trans hend) (by nofun)
    have := hlong (hfollows.trimmed.noEmpty hfull).lastFull
    omega
  | endless hfollows hneg =>
    exfalso
    have := ((reads_ending hfits (hwaiting.follows hfeeds hfollows).reads hstream).te_le (hfits.endsAfter _ rest)).1
    simp only [Position.more, position] at this
    omega

/-- A size line with one digit. -/
def digitLine (c : UInt8) (h : (hex2int c).isSome = true) : SizeLine where
  digits := [c]
  ext := []
  digits_ne_nil := List.cons_ne_nil _ _
  hex := by simpa using h
  ext_text := SizeLine.ext_text_nil
  ext_start := SizeLine.ext_start_nil

/-- The body without chunks and trailers. -/
def emptyBody : ChunkedBody := ⟨[], digitLine 48 (by decide), by decide, [], ChunkedBody.trailers_nul_nil, ChunkedBody.trailers_end_nil⟩

/-- The body `3\r\nabc\r\n0\r\n\r\n`. -/
def abcBody : ChunkedBody :=
  { emptyBody with chunks := [⟨digitLine 51 (by decide), textBytes "abc", by decide, by decide⟩] }

theorem fits_emptyBody {max : Nat} : emptyBody.Fits (fieldSizeConf max) :=
  ⟨by simp [emptyBody], by simp [emptyBody], by decide, by simp [fieldSizeConf]⟩

theorem fits_abcBody {max : Nat} : abcBody.Fits (fieldSizeConf max) :=
  ⟨by simp [abcBody]; decide, by simp [abcBody]; decide, by decide, by simp [fieldSizeConf]⟩

theorem decodes_body_abc : ∃ post', handleReadPostChunked (fieldSizeConf 8192) .reliable (received abcChunks) = .ok post' ∧
    Decoded abcBody abcChunks.flatten post' := by
  have hrun : Run (fieldSizeConf 8192) .reliable (fun post => NoEmpty post.cq.chunks) [] (received []) := .start starts_received
  have hstream : [] ++ abcChunks.flatten <+: abcBody.bytes ++ textBytes "GET" := by decide
  have hdecodes := decodes_body (fun _ _ => rfl) fits_abcBody (by decide) hrun rfl (feeds_received abcChunks)
    (by unfold NoEmpty; decide) hstream
  exact hdecodes

/-- With a `max_request_field_size` of 4, the empty body fails when its last byte arrives in a second call: the end of the trailers is not
there, four bytes are, and the end is used. And a body fails if there is an empty chunk after the data of one of its chunks. -/
theorem bodies_not_decoded :
    (emptyBody.Fits (fieldSizeConf 4) ∧ emptyBody.trailers.length < 4 ∧ textBytes "0\r\n\r" <+: emptyBody.bytes ∧
      Run (fieldSizeConf 4) .reliable (fun _ => True) [] (received []) ∧
      Feeds (received []).cq (textBytes "0\r\n\r") (received [textBytes "0\r\n\r"]).cq ∧
      handleReadPostChunked (fieldSizeConf 4) .reliable (received [textBytes "0\r\n\r"]) = .error .crash) ∧
    (abcBody.Fits (fieldSizeConf 8192) ∧ abcBody.trailers.length < 8192 ∧
      Feeds (received []).cq abcBody.bytes (received [textBytes "3\r\nabc", [], textBytes "\r\n0\r\n\r\n"]).cq ∧
      ∃ post', handleReadPostChunked (fieldSizeConf 8192) .reliable
        (received [textBytes "3\r\nabc", [], textBytes "\r\n0\r\n\r\n"]) = .error (.error .finished post') ∧ post'.httpStatus = 400) := by
  refine ⟨⟨fits_emptyBody, by decide, by decide, .start starts_received, ?_, by decide⟩,
    ⟨fits_abcBody, by decide, ?_, _, rfl, rfl⟩⟩
  · exact feeds_received [textBytes "0\r\n\r"]
  · exact feeds_received [textBytes "3\r\nabc", [], textBytes "\r\n0\r\n\r\n"]

end Post

end Osp.Lighttpd
