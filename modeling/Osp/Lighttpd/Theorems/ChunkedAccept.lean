import Osp.Lib.Lists
import Osp.Lighttpd.ChunkedGrammar
import Osp.Lighttpd.ChunkedRun

/-!
# What is accepted as a chunked body

When the decoder comes to the end of a body, what it has read is a body of the grammar with the content that it has decoded, unless a
size line was not proper: the decoder takes an LF for the end of a line, whatever stands before it, and a size without digits for 0.
-/

namespace Osp.Lighttpd

open Osp.Lib SizeLine List

/-- The bytes begin with a digit, and the first CR is right before the first LF. -/
def ProperLine (bytes : Bytes) : Prop :=
  (∃ c ∈ bytes.head?, (hex2int c).isSome = true) ∧ ∃ text, 13 ∉ text ∧ 10 ∉ text ∧ text ++ crlf <+: bytes

/-- All size lines that are read of a stream are proper. -/
def ProperLines (conf : PostConf) (pos : Position) : Prop := ∀ pos', Position.Reads conf pos pos' → pos'.te = 0 → ProperLine pos'.unread

/-! ## Size lines -/

theorem readSize_eq_some {n : Nat} {te : Int} {bytes rest : Bytes} (h : readSize n bytes = some (te, rest)) :
    te = hexValue n (bytes.takeWhile fun c => (hex2int c).isSome) ∧ rest = bytes.dropWhile fun c => (hex2int c).isSome := by
  induction bytes generalizing n with
  | nil =>
    cases h
    exact ⟨rfl, rfl⟩
  | cons c bytes ih =>
    unfold readSize at h
    cases hc : hex2int c with
    | none =>
      rw [hc] at h
      cases h
      simp [hc, hexValue]
    | some u =>
      simp only [hc] at h
      split at h
      · cases h
      · have hrest := ih (n := n * 16 + u) (by exact_mod_cast h)
        rw [takeWhile_cons_of_pos (by simp [hc]), dropWhile_cons_of_pos (by simp [hc]), hexValue, hc]
        exact hrest

/-- The size of a line is that of its digits, and what follows them and blanks is a CR or a semicolon. -/
theorem lineSize_eq_some {bytes : Bytes} {size : Int} (h : lineSize bytes = some size) :
    size = hexValue 0 (bytes.takeWhile fun c => (hex2int c).isSome) ∧
      ∀ c ∈ ((bytes.dropWhile fun c => (hex2int c).isSome).dropWhile fun c => c = 32 || c = 9).head?, c = 13 ∨ c = 59 := by
  unfold lineSize at h
  split at h
  · cases h
  · rename_i te rest hread
    obtain ⟨hte, hrest⟩ := readSize_eq_some (n := 0) hread
    simp only [Option.ite_none_right_eq_some, Option.some.injEq] at h
    obtain ⟨hhead, rfl⟩ := h
    refine ⟨hte, fun c hc => ?_⟩
    rw [← hrest, Option.mem_def] at hc
    rw [hc] at hhead
    simpa using hhead

namespace SizeLine

theorem takeWhile_digits (line : SizeLine) (more : Bytes) :
    (line.bytes ++ more).takeWhile (fun c => (hex2int c).isSome) = line.digits := by
  have hbytes : line.bytes ++ more = line.digits ++ (line.ext ++ (crlf ++ more)) := by simp [bytes, text]
  rw [hbytes, takeWhile_append_of_pos line.hex, append_right_eq_self]
  have hhead := line.hex2int_head? more
  cases hrest : line.ext ++ (crlf ++ more) with
  | nil => rfl
  | cons c rest =>
    rw [hrest] at hhead
    exact takeWhile_cons_of_neg (by simp [hhead c rfl])

theorem properLine (line : SizeLine) (more : Bytes) : ProperLine (line.bytes ++ more) := by
  refine ⟨?_, line.text, line.notMem_text (by decide) (.inr (.inr rfl)), line.notMem_text (by decide) (.inr (.inl rfl)),
    prefix_append _ _⟩
  obtain ⟨c, digits, hdigits⟩ := exists_cons_of_ne_nil line.digits_ne_nil
  exact ⟨c, by simp [bytes, text, hdigits], line.hex c (by simp [hdigits])⟩

end SizeLine

/-- The text of a line, if its only CR is at its end. -/
theorem line_eq {line rest text : Bytes} (hlf : 10 ∉ line) (htext : 10 ∉ text) (h : text ++ crlf <+: line ++ 10 :: rest) :
    line = text ++ [13] := by
  obtain ⟨more, hmore⟩ := h
  have hleft : search [10] (text ++ [13] ++ 10 :: more) = some (text ++ [13], more) := search_singleton (by simp [htext])
  have hright : search [10] (line ++ 10 :: rest) = some (line, rest) := search_singleton hlf
  have heq : text ++ [13] ++ 10 :: more = line ++ 10 :: rest := by simpa [crlf] using hmore
  rw [heq, hright] at hleft
  simp only [Option.some.injEq, Prod.mk.injEq] at hleft
  exact hleft.1

/-- A proper line that is read is a line of the grammar. -/
theorem exists_sizeLine {pos : Position} {hsz : Nat} {size : Int} (hline : pos.HasLine hsz size) (hproper : ProperLine pos.unread) :
    ∃ line : SizeLine, pos.unread = line.bytes ++ pos.unread.drop hsz ∧ line.bytes.length = hsz ∧ (line.size : Int) = size := by
  obtain ⟨line, rest, hunread, hlength, hnul, hlf⟩ := lineLength_eq_some hline.line
  obtain ⟨⟨c, hc, hhex⟩, text, hcr, htext, hpre⟩ := hproper
  rw [hunread] at hpre
  obtain rfl := line_eq hlf htext hpre
  obtain ⟨hsize, hhead⟩ := lineSize_eq_some hline.size
  have hbytes : pos.unread = text ++ 13 :: 10 :: rest := by rw [hunread]; simp
  -- the digits and the extension are those of the text, as a CR ends both
  rw [hbytes, takeWhile_append_cons (by decide)] at hsize
  rw [hbytes, dropWhile_append_cons (by decide), dropWhile_append_cons (by decide)] at hhead
  have hend : pos.unread = (text ++ crlf) ++ rest := by rw [hbytes]; simp [crlf]
  have hcrlf : (text ++ crlf).length = hsz := by rw [← hlength]; simp [crlf]
  have hparts : text.takeWhile (fun c => (hex2int c).isSome) ++ text.dropWhile (fun c => (hex2int c).isSome) = text :=
    takeWhile_append_dropWhile
  refine ⟨⟨text.takeWhile fun c => (hex2int c).isSome, text.dropWhile fun c => (hex2int c).isSome, ?_, fun c hc => ?_,
    fun c hc => ?_, fun c hc => ?_⟩, ?_, ?_, hsize.symm⟩
  · cases text with
    | nil =>
      rw [hbytes] at hc
      cases hc
      exact absurd hhex (by decide)
    | cons d text =>
      rw [hbytes] at hc
      cases hc
      simp [hhex]
  · exact mem_takeWhile_imp (p := fun c => (hex2int c).isSome) hc
  · have hmem : c ∈ text := (dropWhile_suffix _).subset hc
    exact ⟨fun h => hnul (by simp [← h, hmem]), fun h => htext (h ▸ hmem), fun h => hcr (h ▸ hmem)⟩
  · have hmem : c ∈ text := (dropWhile_suffix _).subset ((dropWhile_suffix _).subset (mem_of_mem_head? hc))
    refine (hhead c ?_).resolve_left fun h => hcr (h ▸ hmem)
    rw [List.head?_append, hc]
    rfl
  · rw [bytes, SizeLine.text, hparts, hend, ← hcrlf, drop_left]
  · rw [bytes, SizeLine.text, hparts, hcrlf]

/-! ## Bodies -/

section

variable {conf : PostConf} {pos last : Position} {n : Nat}

theorem Position.EndsAfter.te (h : last.EndsAfter n) : last.te = 0 := by
  obtain ⟨_, hline, _⟩ := h
  exact hline.te

/-- A chunk with data is there, and what the decoder reads after its line. -/
theorem step_chunk (hreads : Position.Reads conf pos last) (hend : last.EndsAfter n) {hsz : Nat} {size : Int}
    (hline : pos.HasLine hsz size) (hsize : size ≠ 0) :
    Position.Step conf pos ⟨size + 2, pos.data, pos.unread.drop hsz⟩ ∧ 0 < size ∧ size ≤ (pos.unread.drop hsz).length := by
  obtain ⟨hsz', size', hline', hlarge⟩ := hreads.hasLine hend hline.te
  obtain rfl : size = size' := Option.some.inj (hline.size.symm.trans hline'.size)
  have hstep : Position.Step conf pos _ := .line hline hsize (hlarge hsize)
  obtain ⟨hnonneg, hle⟩ := (hreads.reads_last hend (.single hstep)).te_le hend
  obtain ⟨hpos, hlt⟩ := Post.lineSize_bounds hline.size
  simp only at hnonneg hle
  -- a size that overflows would leave the decoder where it is
  obtain ⟨hoff, -⟩ : offT (size + 2) = size + 2 ∧ size + 2 < 2 ^ 63 := (Post.offT_size (by omega) hlt).resolve_right (by omega)
  rw [hoff] at hstep hle
  exact ⟨hstep, by omega, by omega⟩

/-- A stream with proper lines that leads to a last chunk starts with the chunks of a body. -/
theorem exists_chunks (m : Nat) (pos : Position) (hm : pos.unread.length < m) (hte : pos.te = 0)
    (hreads : Position.Reads conf pos last) (hend : last.EndsAfter n) (hproper : ProperLines conf pos) :
    ∃ chunks : List DataChunk, pos.unread = chunks.flatMap DataChunk.bytes ++ last.unread ∧
      last.data = pos.data ++ chunks.flatMap DataChunk.data := by
  induction m generalizing pos with
  | zero => exact absurd hm (Nat.not_lt_zero _)
  | succ m ih =>
    obtain ⟨hsz, size, hline, -⟩ := hreads.hasLine hend hte
    by_cases hsize : size = 0
    · subst hsize
      rw [hreads.eq_of_stuck hline.not_step]
      exact ⟨[], by simp, by simp⟩
    · obtain ⟨hstep, hpos, hle⟩ := step_chunk hreads hend hline hsize
      obtain ⟨line, hunread, hlength, rfl⟩ := exists_sizeLine hline (hproper pos .refl hte)
      have hmid := hreads.reads_last hend (.single hstep)
      generalize pos.unread.drop hsz = unread at hstep hmid hle hunread
      obtain ⟨hcrlf, hnext⟩ := hmid.past_chunk (by simp only; omega) hend.te
      simp only [show (line.size + 2 - 2 : Int).toNat = line.size by omega] at hcrlf hnext
      have hle : line.size ≤ unread.length := by omega
      obtain ⟨chunks, hchunks, hdata⟩ := ih _
        (by
          have := congrArg List.length hunread
          simp only [length_append, length_drop] at this ⊢
          omega)
        rfl hnext fun pos' hpos' hte' =>
          hproper pos' ((Relation.ReflTransGen.head hstep (Position.reads_chunk hle hcrlf)).trans hpos') hte'
      refine ⟨⟨line, unread.take line.size, by simpa using hle, fun hnil => ?_⟩ :: chunks, ?_, ?_⟩
      · have := congrArg List.length hnil
        simp only [length_take, length_nil] at this
        omega
      · have hdrop : unread.drop line.size = crlf ++ (chunks.flatMap DataChunk.bytes ++ last.unread) := by
          rw [← hchunks]
          exact (prefix_iff_eq_append.1 hcrlf).symm
        rw [hunread, flatMap_cons, DataChunk.bytes]
        simp only [append_assoc]
        rw [← hdrop, take_append_drop]
      · rw [hdata, flatMap_cons, append_assoc]

/-- The end of a body is a last chunk with trailers. -/
theorem exists_ending (hend : last.EndsAfter n) (hproper : ProperLine last.unread) (chunks : List DataChunk) :
    ∃ body : ChunkedBody, body.chunks = chunks ∧ last.unread = body.ending ++ last.unread.drop n := by
  obtain ⟨hsz, hline, htrailers⟩ := hend
  obtain ⟨line, hunread, rfl, hsize⟩ := exists_sizeLine hline hproper
  generalize last.unread.drop line.bytes.length = rest at hunread
  have htext : line.bytes.length - 2 = line.text.length := by simp [bytes, crlf]
  have hdrop : last.unread.drop (line.bytes.length - 2) = crlf ++ rest := by
    rw [htext, hunread, bytes, append_assoc, drop_left]
  rw [trailersEnd, hdrop, htext] at htrailers
  obtain ⟨⟨before, after⟩, hsearch, rfl⟩ := Option.map_eq_some_iff.1 htrailers
  -- what the search has found begins with the end of the line and ends with an empty line
  have hfound : before ++ crlfCrlf <+: cString (crlf ++ rest) := ⟨after, (search_eq_append hsearch).symm⟩
  have hpre := hfound.trans (prefix_cString _)
  obtain ⟨lines, hlines⟩ : crlf <+: before ++ crlfCrlf :=
    prefix_of_prefix_length_le (prefix_append _ _) hpre (by simp [crlf, crlfCrlf])
  have hlength := congrArg List.length hlines
  simp only [length_append, crlf, crlfCrlf, length_cons, length_nil] at hlength
  have hsuffix : crlf <:+ before ++ crlfCrlf := ⟨before ++ crlf, by simp [crlf, crlfCrlf]⟩
  obtain ⟨trailers, rfl⟩ : crlf <:+ lines := suffix_of_suffix_length_le hsuffix ⟨crlf, hlines⟩
    (by simp only [crlf, length_cons, length_nil]; omega)
  have hnul : 0 ∉ trailers := fun hmem => by
    have : 0 ∈ cString (crlf ++ rest) := hfound.subset (by rw [← hlines]; simp [hmem])
    simpa using mem_takeWhile_imp this
  refine ⟨⟨chunks, line, by exact_mod_cast hsize, trailers, hnul, before, ?_⟩, rfl, ?_⟩
  · rw [append_assoc, hlines]
    exact search_prefix hsearch
  · obtain ⟨after', hafter⟩ := hpre
    rw [← hlines, append_assoc] at hafter
    have hending : last.unread = line.bytes ++ trailers ++ crlf ++ after' := by
      rw [hunread, ← append_cancel_left hafter]
      simp
    have hn : line.text.length + before.length + 4 = (line.bytes ++ trailers ++ crlf).length := by
      simp only [length_append, bytes, crlf, length_cons, length_nil] at hlength ⊢
      omega
    show last.unread = line.bytes ++ trailers ++ crlf ++ last.unread.drop (line.text.length + before.length + 4)
    rw [hending, hn, drop_left]

/-- The size that is read of a line of the grammar is its size. -/
theorem SizeLine.size_eq {line : SizeLine} {more : Bytes} {hsz : Nat} {size : Int} (hunread : pos.unread = line.bytes ++ more)
    (hline : pos.HasLine hsz size) : size = line.size ∧ hsz = line.bytes.length := by
  refine ⟨?_, Option.some.inj (hline.line.symm.trans (hunread ▸ line.lineLength_append more))⟩
  rw [(lineSize_eq_some hline.size).1, hunread, line.takeWhile_digits, SizeLine.size]

/-- What is read after a chunk is read from its end on. -/
theorem DataChunk.reads_past (c : DataChunk) {data next : Bytes}
    (h : Position.Reads conf ⟨c.line.size + 2, data, c.data ++ (crlf ++ next)⟩ pos) (hte : pos.te = 0) :
    Position.Reads conf ⟨0, data ++ c.data, next⟩ pos := by
  have hpast := (h.past_chunk (by simp only; omega) hte).2
  simp only [show (c.line.size + 2 - 2 : Int).toNat = c.data.length by rw [c.size_eq]; omega, take_left, drop_left] at hpast
  exact hpast

/-- The lines of a body are proper. -/
theorem properLines_of_chunks (body : ChunkedBody) (chunks : List DataChunk) (data rest : Bytes)
    (hreads : Position.Reads conf ⟨0, data, chunks.flatMap DataChunk.bytes ++ (body.ending ++ rest)⟩ last) (hend : last.EndsAfter n) :
    ProperLines conf ⟨0, data, chunks.flatMap DataChunk.bytes ++ (body.ending ++ rest)⟩ := by
  induction chunks generalizing data with
  | nil =>
    intro pos hpos hte
    have hunread : body.ending ++ rest = body.last.bytes ++ (body.trailers ++ crlf ++ rest) := by simp [ChunkedBody.ending]
    obtain ⟨hsz, size, hline, -⟩ := hreads.hasLine hend rfl
    obtain ⟨rfl, -⟩ := SizeLine.size_eq hunread hline
    rw [body.last_size] at hline
    obtain rfl := hpos.eq_of_stuck hline.not_step
    rw [flatMap_nil, nil_append, hunread]
    exact body.last.properLine _
  | cons c chunks ih =>
    intro pos hpos hte
    have hunread : (c :: chunks).flatMap DataChunk.bytes ++ (body.ending ++ rest) =
        c.line.bytes ++ (c.data ++ (crlf ++ (chunks.flatMap DataChunk.bytes ++ (body.ending ++ rest)))) := by
      simp [DataChunk.bytes]
    obtain ⟨hsz, size, hline, -⟩ := hreads.hasLine hend rfl
    obtain ⟨rfl, rfl⟩ := SizeLine.size_eq hunread hline
    have hsize : (c.line.size : Int) ≠ 0 := by
      rw [c.size_eq]
      exact_mod_cast fun h => c.data_ne_nil (length_eq_zero_iff.1 h)
    obtain ⟨hstep, -, -⟩ := step_chunk hreads hend hline hsize
    simp only [hunread, drop_left] at hstep hpos hreads ⊢
    rcases Relation.ReflTransGen.cases_head hpos with rfl | ⟨mid, hstep', hmid⟩
    · exact c.line.properLine _
    · obtain rfl := hstep.unique hstep'
      exact ih (data ++ c.data) (c.reads_past (hreads.reads_last hend (.single hstep)) hend.te) pos (c.reads_past hmid hte) hte

end

namespace Post

variable {conf : PostConf} {files : TempFiles} {arrived : Bytes} {post : Post}

theorem properLines_of_accepted (hrun : Run conf files (fun _ => True) arrived post) (hended : post.contentLength ≠ -1)
    {body : ChunkedBody} (harrived : arrived = body.bytes ++ post.cq.bytes) : ProperLines conf ⟨0, [], arrived⟩ := by
  obtain ⟨hwaits, -⟩ | ⟨last, n, hreads, hend, -⟩ := hrun.cases
  · exact absurd hwaits hended
  · rw [harrived, ChunkedBody.bytes, append_assoc] at hreads ⊢
    exact properLines_of_chunks body body.chunks [] post.cq.bytes hreads hend

/-- What is accepted as a body is one, with the decoded content, exactly if all its size lines are proper. -/
theorem accepted_iff (hrun : Run conf files (fun _ => True) arrived post) (hended : post.contentLength ≠ -1) :
    (∃ body : ChunkedBody, arrived = body.bytes ++ post.cq.bytes ∧ post.dst.bytes = body.data) ↔ ProperLines conf ⟨0, [], arrived⟩ := by
  refine ⟨fun ⟨body, harrived, _⟩ => properLines_of_accepted hrun hended harrived, fun hproper => ?_⟩
  obtain ⟨hwaits, -⟩ | ⟨last, n, hreads, hend, -, hdst, hcq⟩ := hrun.cases
  · exact absurd hwaits hended
  · obtain ⟨chunks, hunread, hdata⟩ := exists_chunks _ _ (Nat.lt_succ_self _) rfl hreads hend hproper
    obtain ⟨body, rfl, hending⟩ := exists_ending hend (hproper last hreads hend.te) chunks
    refine ⟨body, ?_, hdst.trans hdata⟩
    simp only at hunread
    rw [hunread, ChunkedBody.bytes, append_assoc, hcq, ← hending]

theorem accepted_iff_abc : ∃ post, Run (fieldSizeConf 8192) .reliable (fun _ => True) abcChunks.flatten post ∧ post.contentLength = 3 ∧
    ((∃ body : ChunkedBody, abcChunks.flatten = body.bytes ++ post.cq.bytes ∧ post.dst.bytes = body.data) ↔
      ProperLines (fieldSizeConf 8192) ⟨0, [], abcChunks.flatten⟩) := by
  obtain ⟨post, hcall, hlength⟩ : ∃ post, handleReadPostChunked (fieldSizeConf 8192) .reliable (received abcChunks) = .ok post ∧
      post.contentLength = 3 := exists_ok_of_contentLength (by decide)
  have hrun : Run (fieldSizeConf 8192) .reliable (fun _ => True) abcChunks.flatten post := run_received trivial hcall
  exact ⟨post, hrun, hlength, accepted_iff hrun (by rw [hlength]; decide)⟩

/-- A size line that ends in LF alone is accepted, and an empty line as a last chunk. -/
theorem improper_lines_accepted :
    (∃ post, Run (fieldSizeConf 8192) .reliable (fun _ => True) [textBytes "5;\nhello\r\n0\r\n\r\n"].flatten post ∧
      post.contentLength = 5 ∧ ¬ ∃ body : ChunkedBody, [textBytes "5;\nhello\r\n0\r\n\r\n"].flatten = body.bytes ++ post.cq.bytes) ∧
    (∃ post, Run (fieldSizeConf 8192) .reliable (fun _ => True) [textBytes "\r\n\r\n"].flatten post ∧
      post.contentLength = 0 ∧ ¬ ∃ body : ChunkedBody, [textBytes "\r\n\r\n"].flatten = body.bytes ++ post.cq.bytes) := by
  constructor
  · obtain ⟨post, hcall, hlength⟩ : ∃ post, handleReadPostChunked (fieldSizeConf 8192) .reliable
        (received [textBytes "5;\nhello\r\n0\r\n\r\n"]) = .ok post ∧ post.contentLength = 5 :=
      exists_ok_of_contentLength (by decide)
    refine ⟨post, run_received trivial hcall, hlength, fun ⟨body, hbody⟩ => ?_⟩
    have hproper := properLines_of_accepted (run_received trivial hcall) (by rw [hlength]; decide) hbody
    obtain ⟨-, text, -, hlf, hpre⟩ := hproper _ .refl rfl
    have hbytes : [textBytes "5;\nhello\r\n0\r\n\r\n"].flatten = [53, 59] ++ 10 :: textBytes "hello\r\n0\r\n\r\n" := by decide
    simp only [hbytes] at hpre
    have hlast := congrArg List.getLast? (line_eq (by decide) hlf hpre)
    simp at hlast
  · obtain ⟨post, hcall, hlength⟩ : ∃ post, handleReadPostChunked (fieldSizeConf 8192) .reliable
        (received [textBytes "\r\n\r\n"]) = .ok post ∧ post.contentLength = 0 := exists_ok_of_contentLength (by decide)
    refine ⟨post, run_received trivial hcall, hlength, fun ⟨body, hbody⟩ => ?_⟩
    have hproper := properLines_of_accepted (run_received trivial hcall) (by rw [hlength]; decide) hbody
    obtain ⟨⟨c, hc, hhex⟩, -⟩ := hproper _ .refl rfl
    obtain rfl : 13 = c := Option.some.inj hc
    exact absurd hhex (by decide)

end Post

end Osp.Lighttpd
