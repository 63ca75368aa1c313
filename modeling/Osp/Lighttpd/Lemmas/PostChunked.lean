import Osp.Lighttpd.ChunkedStream
import Osp.Lighttpd.Lemmas.Chunk

/-!
# The decoder of chunked bodies on queues

What each part of `connection_handle_read_post_chunked` does to the queues, for every way of cutting the bytes into chunks in memory.
The result is `decode_cases`: a call reads the stream as `Position.Reads` says, and ends where the stream makes it wait, ends the body
or is rejected. The exceptions are a chunk that is empty, and the two ways in which a call can go wrong: the end of trailers that are
too long, and a size that makes `te_chunked` negative.
-/

namespace Osp.Lighttpd

open Osp.Lib Chunk ChunkQueue List

variable {conf : PostConf} {files : TempFiles} {cq : ChunkQueue}

/-! ## Compacting -/

namespace Chunk

@[simp] theorem unread_append (c : Chunk) (bytes : Bytes) : (c.append bytes).unread = c.unread ++ bytes :=
  drop_append_of_le_length c.offset_le

end Chunk

theorem flatMap_dropWhile (chunks : List Chunk) :
    (chunks.dropWhile (·.remaining = 0)).flatMap unread = chunks.flatMap unread :=
  bytes_removeFinishedChunks ⟨chunks, 0, 0⟩

/-- Chunks after compacting hold the same bytes. If nothing was found, all bytes were in the first chunk, unless it was empty; else there
are fewer chunks. -/
structure Compacted (chunks : List Chunk) (found : Bool) (chunks' : List Chunk) : Prop where
  bytes : chunks'.flatMap unread = chunks.flatMap unread
  trimmed : Trimmed chunks chunks'
  whole : found = false → ∀ c rest, chunks = c :: rest → c.remaining ≠ 0 → c.unread = chunks.flatMap unread
  fewer : found = true → chunks'.length < chunks.length
  first : ∀ c rest, chunks = c :: rest → c.remaining ≠ 0 → ∃ c' rest', chunks' = c' :: rest' ∧ c.unread <+: c'.unread

theorem compactChunks_spec (n : Nat) (chunks : List Chunk) (hmem : InMemory chunks) (hn : chunks.length ≤ n) :
    ∃ found chunks', compactChunks n chunks = some (found, chunks') ∧ Compacted chunks found chunks' := by
  induction n generalizing chunks with
  | zero =>
    obtain rfl : chunks = [] := length_eq_zero_iff.1 (by omega)
    exact ⟨false, [], rfl, rfl, .refl _, by simp, nofun, by simp⟩
  | succ n ih =>
    match chunks with
    | [] => exact ⟨false, [], rfl, rfl, .refl _, by simp, nofun, by simp⟩
    | [c] => exact ⟨false, [c], rfl, rfl, .refl _, by simp, nofun, by simp⟩
    | c :: next :: chunks =>
      have hc : c.type ≠ .file := by rw [hmem c (by simp)]; nofun
      have hnext : next.type ≠ .file := by rw [hmem next (by simp)]; nofun
      have hbytes : ((c.append next.unread :: chunks).dropWhile (·.remaining = 0)).flatMap unread =
          (c :: next :: chunks).flatMap unread := by
        rw [flatMap_dropWhile]
        simp
      have htrimmed : Trimmed (c :: next :: chunks) ((c.append next.unread :: chunks).dropWhile (·.remaining = 0)) := by
        by_cases hempty : (c.append next.unread).remaining = 0
        · rw [dropWhile_cons_of_pos (by simpa using hempty)]
          exact .inl ((dropWhile_suffix _).trans ((suffix_cons next chunks).trans (suffix_cons c _)))
        · rw [dropWhile_cons_of_neg (by simpa using hempty)]
          exact .inr ⟨next, _, chunks, suffix_cons c _, rfl, by
            rw [hmem next (by simp)]
            exact hmem c (by simp), hempty⟩
      have hfirst (hfull : c.remaining ≠ 0) : (c.append next.unread).remaining ≠ 0 := by
        rw [← length_unread, unread_append, length_append, length_unread]
        omega
      have hlength : ((c.append next.unread :: chunks).dropWhile (·.remaining = 0)).length ≤ chunks.length + 1 :=
        (dropWhile_suffix _).length_le
      simp only [length_cons] at hn
      rw [compactChunks]
      simp only [hc, hnext, or_self, if_false]
      by_cases hremaining : next.remaining ≠ 0
      · rw [if_pos hremaining]
        refine ⟨true, _, rfl, hbytes, htrimmed, nofun, fun _ => by simp only [length_cons]; omega, ?_⟩
        rintro _ _ ⟨⟩ hfull
        rw [dropWhile_cons_of_neg (by simpa using hfirst hfull)]
        exact ⟨_, _, rfl, by simp⟩
      · rw [if_neg hremaining]
        obtain ⟨found, chunks', hcompact, h⟩ := ih _ (htrimmed.inMemory hmem) (by omega)
        refine ⟨found, chunks', hcompact, h.bytes.trans hbytes, htrimmed.trans h.trimmed, ?_, fun hfound => ?_, ?_⟩
        · -- the chunk that was appended is empty, so the first chunk is still the same
          rintro hfound _ _ ⟨⟩ hfull
          have hnil : next.unread = [] := unread_eq_nil.2 (by simpa using hremaining)
          have hwhole := h.whole hfound _ _ (dropWhile_cons_of_neg (by simpa using hfirst hfull)) (hfirst hfull)
          rwa [hbytes, unread_append, hnil, append_nil] at hwhole
        · have := h.fewer hfound
          simp only [length_cons]
          omega
        · rintro _ _ ⟨⟩ hfull
          obtain ⟨c', rest, hchunks', hpre⟩ := h.first _ _ (dropWhile_cons_of_neg (by simpa using hfirst hfull)) (hfirst hfull)
          exact ⟨c', rest, hchunks', List.IsPrefix.trans (by simp) hpre⟩

/-- All bytes of a queue are in its first chunk and its last chunk is not empty: there is no other. -/
theorem eq_nil_of_lastFull {c : Chunk} {chunks : List Chunk} (h : c.unread = (c :: chunks).flatMap unread)
    (hlast : LastFull (c :: chunks)) : chunks = [] := by
  have hnil : chunks.flatMap unread = [] := by simpa using h
  by_contra hne
  have hmem : chunks.getLast hne ∈ (c :: chunks).getLast? := by
    rw [List.getLast?_cons, List.getLast?_eq_some_getLast hne]
    rfl
  exact hlast _ hmem (unread_eq_nil.1 (flatMap_eq_nil_iff.1 hnil _ (getLast_mem hne)))

theorem takes_cqCompact (hmem : InMemory cq.chunks) :
    ∃ found cq', cqCompact cq = some (found, cq') ∧ cq.Takes 0 cq' ∧ Compacted cq.chunks found cq'.chunks := by
  obtain ⟨found, chunks', hcompact, h⟩ := compactChunks_spec _ cq.chunks hmem le_rfl
  exact ⟨found, { cq with chunks := chunks' }, by simp [cqCompact, hcompact], ⟨Nat.zero_le _, h.bytes, rfl, by simp, h.trimmed⟩, h⟩

theorem takes_zero : cq.Takes 0 cq := ⟨Nat.zero_le _, rfl, rfl, by simp, .refl _⟩

/-! ## The size line -/

namespace Post

variable {post post' : Post}

/-- The call fails with an error for the client. -/
def Failed (failure : Failure) : Prop := ∃ handler post', failure = .error handler post'

theorem failed_readPostError (status : Nat) : Failed (post.readPostError status) := by
  unfold readPostError
  split
  · exact ⟨_, _, rfl⟩
  · exact ⟨_, _, rfl⟩

/-- What the search for the end of a size line comes to. -/
inductive FindsLine (post : Post) : Except Failure (Option Nat × Post) → Prop
  | none {cq : ChunkQueue} : (NoEmpty post.cq.chunks → lineLength post.cq.bytes = none) → post.cq.Takes 0 cq →
    FindsLine post (.ok (none, { post with cq := cq }))
  | line {hsz : Nat} {cq : ChunkQueue} {c : Chunk} {chunks : List Chunk} : lineLength post.cq.bytes = some hsz →
    post.cq.Takes 0 cq → cq.chunks = c :: chunks → hsz ≤ c.unread.length → FindsLine post (.ok (some hsz, { post with cq := cq }))
  | long {failure : Failure} : (lineLength post.cq.bytes = Option.none ∧ 1024 ≤ post.cq.bytes.length) ∨
    (∃ hsz, lineLength post.cq.bytes = some hsz ∧ 1024 ≤ hsz) → Failed failure → FindsLine post (.error failure)

/-- The first chunk of a queue that has some bytes of the queue. -/
theorem bytes_eq_append {c : Chunk} {chunks : List Chunk} (h : cq.chunks = c :: chunks) :
    cq.bytes = c.unread ++ chunks.flatMap unread := by
  rw [bytes, h, flatMap_cons]

theorem FindsLine.of_takes {result : Except Failure (Option Nat × Post)} (htakes : post.cq.Takes 0 cq)
    (h : FindsLine { post with cq := cq } result) : FindsLine post result := by
  have hbytes : cq.bytes = post.cq.bytes := htakes.bytes
  cases h with
  | none hnone htakes' =>
    refine .none (fun hfull => ?_) (htakes.trans htakes')
    rw [← hbytes]
    exact hnone (htakes.trimmed.noEmpty hfull)
  | line hline htakes' hchunks hle =>
    exact .line (by rw [← hbytes]; exact hline) (htakes.trans htakes') hchunks hle
  | long hlong hfailed =>
    simp only [hbytes] at hlong
    exact .long hlong hfailed

theorem findsLine_findLine (n : Nat) (post : Post) (hmem : InMemory post.cq.chunks) (hn : post.cq.chunks.length < n) :
    FindsLine post (findLine n post) := by
  induction n generalizing post with
  | zero => exact absurd hn (Nat.not_lt_zero _)
  | succ n ih =>
    unfold findLine
    cases hchunks : post.cq.chunks with
    | nil =>
      have hbytes : post.cq.bytes = [] := by rw [bytes, hchunks]; rfl
      exact .none (fun _ => by rw [hbytes]; rfl) takes_zero
    | cons c chunks =>
      have hbytes := bytes_eq_append hchunks
      have hc : c.type ≠ .file := by rw [hmem c (by simp [hchunks])]; rintro ⟨⟩
      simp only [hc, if_false]
      cases hsearch : search [10] (cString c.unread) with
      | some found =>
        obtain ⟨line, after⟩ := found
        have hline : lineLength c.unread = some (line.length + 1) := by simp [lineLength, hsearch]
        exact .line (by rw [hbytes]; exact lineLength_append hline _) takes_zero hchunks
          (lineLength_le hline).2
      | none =>
        have hnone : lineLength c.unread = none := by simp [lineLength, hsearch]
        simp only
        split
        · rename_i hlong
          refine .long ?_ (failed_readPostError _)
          rw [← length_unread] at hlong
          cases hline : lineLength post.cq.bytes with
          | none =>
            refine .inl ⟨rfl, ?_⟩
            rw [hbytes, length_append]
            omega
          | some hsz =>
            rw [hbytes] at hline
            exact .inr ⟨hsz, rfl, hlong.trans (lt_of_lineLength_append hnone hline).le⟩
        · obtain ⟨found, cq', hcompact, htakes, hcompacted⟩ := takes_cqCompact hmem
          rw [hcompact]
          cases found with
          | false =>
            refine .none (fun hfull => ?_) htakes
            rw [bytes, ← hcompacted.whole rfl c chunks hchunks (hfull c (by simp [hchunks])), hnone]
          | true =>
            have := hcompacted.fewer rfl
            exact FindsLine.of_takes htakes (ih { post with cq := cq' } (htakes.trimmed.inMemory hmem) (by simp only; omega))

/-! ## The last chunk -/

/-- What the search for the end of the trailers comes to. -/
inductive FindsEnd (conf : PostConf) (post : Post) (hsz : Nat) : Except Failure ((Nat ⊕ Nat) × Post) → Prop
  | found {n : Nat} {cq : ChunkQueue} : trailersEnd post.cq.bytes hsz = some n → n ≤ post.cq.bytes.length → post.cq.Takes 0 cq →
    FindsEnd conf post hsz (.ok (.inl n, { post with cq := cq }))
  | none {length : Nat} {cq : ChunkQueue} : trailersEnd post.cq.bytes hsz = Option.none → post.cq.Takes 0 cq →
    (LastFull post.cq.chunks → length = post.cq.bytes.length) → FindsEnd conf post hsz (.ok (.inr length, { post with cq := cq }))

theorem FindsEnd.of_takes {hsz : Nat} {result : Except Failure ((Nat ⊕ Nat) × Post)}
    (htakes : post.cq.Takes 0 cq) (h : FindsEnd conf { post with cq := cq } hsz result) : FindsEnd conf post hsz result := by
  have hbytes : cq.bytes = post.cq.bytes := htakes.bytes
  cases h with
  | found hend hle htakes' =>
    simp only [hbytes] at hend hle
    exact .found hend hle (htakes.trans htakes')
  | none hend htakes' hlength =>
    simp only [hbytes] at hend hlength
    exact .none hend (htakes.trans htakes') fun hlast => hlength (htakes.trimmed.lastFull hlast)

theorem trailersEnd_le_length {bytes : Bytes} {hsz n : Nat} (hle : hsz - 2 ≤ bytes.length) (h : trailersEnd bytes hsz = some n) :
    n ≤ bytes.length := by
  obtain ⟨⟨before, after⟩, hsearch, rfl⟩ := Option.map_eq_some_iff.1 h
  have hlength := congrArg List.length (search_eq_append hsearch)
  have hpre := (prefix_cString (bytes.drop (hsz - 2))).length_le
  simp only [length_append, length_drop, crlfCrlf, length_cons, length_nil] at hlength hpre
  show hsz - 2 + before.length + 4 ≤ _
  omega

theorem findsEnd_findEnd (hsz n : Nat) (post : Post) (hmem : InMemory post.cq.chunks) (hn : post.cq.chunks.length < n)
    (hfirst : ∃ c chunks, post.cq.chunks = c :: chunks ∧ hsz ≤ c.unread.length ∧ 0 < hsz) :
    FindsEnd conf post hsz (findEnd conf (hsz - 2) n post) := by
  induction n generalizing post with
  | zero => exact absurd hn (Nat.not_lt_zero _)
  | succ n ih =>
    obtain ⟨c, chunks, hchunks, hle, hpos⟩ := hfirst
    have hbytes := bytes_eq_append hchunks
    unfold findEnd
    simp only [hchunks]
    cases hsearch : search crlfCrlf (cString (c.unread.drop (hsz - 2))) with
    | some found =>
      obtain ⟨trailers, after⟩ := found
      have hend : trailersEnd post.cq.bytes hsz = some (hsz - 2 + trailers.length + 4) := by
        rw [hbytes]
        exact trailersEnd_append (by omega) (by simp [trailersEnd, hsearch]) _
      refine .found hend (trailersEnd_le_length ?_ hend) takes_zero
      rw [hbytes, length_append]
      omega
    | none =>
      obtain ⟨found, cq', hcompact, htakes, hcompacted⟩ := takes_cqCompact hmem
      simp only [hcompact]
      have hfull : c.remaining ≠ 0 := by
        rw [← length_unread]
        omega
      cases found with
      | false =>
        have hall : c.unread = post.cq.bytes := hcompacted.whole rfl c chunks hchunks hfull
        refine .none ?_ htakes fun hlast => ?_
        · rw [← hall, trailersEnd, hsearch]
          rfl
        · rw [hchunks] at hlast
          have hnil := eq_nil_of_lastFull (hall.trans (by rw [bytes, hchunks])) hlast
          rw [if_pos hnil, ← hall, length_unread]
      | true =>
        have := hcompacted.fewer rfl
        refine FindsEnd.of_takes htakes (ih { post with cq := cq' } (htakes.trimmed.inMemory hmem) (by simp only; omega) ?_)
        obtain ⟨c', rest, hchunks', hpre⟩ := hcompacted.first c chunks hchunks hfull
        exact ⟨c', rest, hchunks', hle.trans hpre.length_le, hpos⟩

/-! ## Positions -/

/-- Where the decoder is in the stream. -/
def position (post : Post) : Position := ⟨post.teChunked, post.dst.bytes, post.cq.bytes⟩

/-- What holds between the calls: the read queue is in memory, its counters and those of the content are right, and at least a CRLF is
missing of a chunk that is not complete. -/
structure Ready (post : Post) : Prop where
  inMemory : InMemory post.cq.chunks
  balanced : post.cq.Balanced
  counted : post.dst.bytesIn = post.dst.bytes.length
  te : post.teChunked ≠ 1

/-- The decoder has read on, and nothing else has changed. -/
structure Follows (conf : PostConf) (post post' : Post) : Prop where
  reads : Position.Reads conf post.position post'.position
  ready : post'.Ready
  trimmed : Trimmed post.cq.chunks post'.cq.chunks
  eq : post' = { post with cq := post'.cq, dst := post'.dst, teChunked := post'.teChunked }

namespace Follows

variable {post₁ post₂ : Post}

theorem refl (h : post.Ready) : Follows conf post post := ⟨.refl, h, .refl _, rfl⟩

theorem trans (h : Follows conf post post₁) (h' : Follows conf post₁ post₂) : Follows conf post post₂ where
  reads := Relation.ReflTransGen.trans h.reads h'.reads
  ready := h'.ready
  trimmed := h.trimmed.trans h'.trimmed
  eq := by rw [h'.eq, h.eq]

/-- Bytes are taken from the read queue, and `te_chunked` changes. -/
theorem of_takes {n : Nat} {te : Int} (hready : post.Ready) (htakes : post.cq.Takes n cq) (hte : te ≠ 1)
    (hreads : Position.Reads conf post.position ⟨te, post.dst.bytes, post.cq.bytes.drop n⟩) :
    Follows conf post { post with cq := cq, teChunked := te } where
  reads := by
    simp only [position, htakes.bytes]
    exact hreads
  ready := ⟨htakes.trimmed.inMemory hready.inMemory, htakes.balanced hready.balanced, hready.counted, hte⟩
  trimmed := htakes.trimmed
  eq := rfl

/-- The read queue is compacted. -/
theorem of_takes_zero (hready : post.Ready) (htakes : post.cq.Takes 0 cq) :
    Follows conf post { post with cq := cq } :=
  of_takes hready htakes hready.te .refl

end Follows

/-- What a call comes to, or the rest of it. -/
inductive Outcome (conf : PostConf) (files : TempFiles) (post : Post) : Except Failure Post → Prop
  | waits {post' : Post} : Follows conf post post' → (NoEmpty post.cq.chunks → post'.position.Waits ∨ post'.teChunked < 0) →
    Outcome conf files post (.ok post')
  | ends {mid : Post} {n : Nat} {cq : ChunkQueue} : Follows conf post mid → mid.position.EndsAfter n → mid.cq.Takes n cq →
    Outcome conf files post (.ok { mid with cq := cq, contentLength := mid.dst.bytesIn })
  | rejected {mid : Post} {failure : Failure} : Follows conf post mid → Failed failure →
    (mid.position.Rejected conf ∨ ¬ NoEmpty mid.cq.chunks ∨ ∃ cq mem, (files.append cq mem).1 = false) →
    Outcome conf files post (.error failure)
  | crash {mid : Post} {hsz : Nat} : Follows conf post mid → mid.position.HasLine hsz 0 → trailersEnd mid.cq.bytes hsz = none →
    (LastFull mid.cq.chunks → conf.maxRequestFieldSize ≤ mid.cq.bytes.length) → Outcome conf files post (.error .crash)
  | endless {mid : Post} : Follows conf post mid → mid.teChunked < 0 → Outcome conf files post (.error .endless)

theorem Outcome.of_follows {mid : Post} {result : Except Failure Post} (hfollows : Follows conf post mid)
    (h : Outcome conf files mid result) : Outcome conf files post result := by
  cases h with
  | waits h hwaits => exact .waits (hfollows.trans h) fun hfull => hwaits (hfollows.trimmed.noEmpty hfull)
  | ends h hends htakes => exact .ends (hfollows.trans h) hends htakes
  | rejected h hfailed hcause => exact .rejected (hfollows.trans h) hfailed hcause
  | crash h hline hend hlong => exact .crash (hfollows.trans h) hline hend hlong
  | endless h hte => exact .endless (hfollows.trans h) hte

/-! ## The parts of a round -/

/-- The size that is read is in the range of an `off_t`. -/
theorem readSize_bounds {te size : Int} {bytes rest : Bytes} (h : readSize te bytes = some (size, rest)) (hte : 0 ≤ te)
    (hlt : te < 2 ^ 63) : 0 ≤ size ∧ size < 2 ^ 63 := by
  induction bytes generalizing te with
  | nil =>
    cases h
    exact ⟨hte, hlt⟩
  | cons c bytes ih =>
    unfold readSize at h
    split at h
    · cases h
      exact ⟨hte, hlt⟩
    · rename_i u hu
      have : u < 16 := by
        simp only [hex2int, UInt8.le_iff_toNat_le] at hu
        grind
      split at h
      · cases h
      · exact ih h (by omega) (by omega)

theorem lineSize_bounds {bytes : Bytes} {size : Int} (h : lineSize bytes = some size) : 0 ≤ size ∧ size < 2 ^ 63 := by
  unfold lineSize at h
  split at h
  · cases h
  · rename_i te rest hread
    simp only [Option.ite_none_right_eq_some, Option.some.injEq] at h
    obtain ⟨-, rfl⟩ := h
    exact readSize_bounds hread le_rfl (by norm_num)

theorem offT_size {size : Int} (hpos : 0 < size) (hlt : size < 2 ^ 63) :
    offT (size + 2) = size + 2 ∧ size + 2 < 2 ^ 63 ∨ offT (size + 2) < 0 ∧ 2 ^ 63 ≤ size + 2 := by
  unfold offT
  rw [Int.bmod_def]
  split <;> omega

/-- The last chunk is read when the end of its trailers is there. -/
theorem outcome_lastChunk {hsz : Nat} (hready : post.Ready) (hline : post.position.HasLine hsz 0)
    (hfirst : ∃ c chunks, post.cq.chunks = c :: chunks ∧ hsz ≤ c.unread.length ∧ 0 < hsz) :
    Outcome conf files post (post.lastChunk conf hsz) ∧ ∀ post', post.lastChunk conf hsz = .ok post' → post'.teChunked = 0 := by
  have hte : post.teChunked = 0 := hline.te
  have hfinds : FindsEnd conf post hsz (findEnd conf (hsz - 2) (post.cq.chunks.length + 1) post) :=
    findsEnd_findEnd hsz _ post hready.inMemory (Nat.lt_succ_self _) hfirst
  unfold lastChunk
  generalize findEnd conf (hsz - 2) (post.cq.chunks.length + 1) post = found at hfinds
  cases hfinds with
  | found hend hle htakes =>
    rename_i n cq
    have hfollows : Follows conf post { post with cq := cq } := .of_takes_zero hready htakes
    have hbytes : cq.bytes = post.cq.bytes := htakes.bytes
    have hn : n ≤ cq.bytes.length := by rw [hbytes]; exact hle
    obtain ⟨cq', hmark, htakes', _⟩ := takes_markWritten hn
    simp only [markWritten, hmark]
    have hends : (position { post with cq := cq }).EndsAfter n := by
      rw [position, hbytes]
      exact ⟨hsz, hline, hend⟩
    have houtcome : Outcome conf files post _ := .ends hfollows hends htakes'
    exact ⟨houtcome, by rintro _ ⟨⟩; exact hte⟩
  | none hend htakes hlength =>
    rename_i length cq
    have hfollows : Follows conf post { post with cq := cq } := .of_takes_zero hready htakes
    have hbytes : cq.bytes = post.cq.bytes := htakes.bytes
    simp only
    split
    · refine ⟨.waits hfollows fun _ => .inl (.inr (.inl ⟨hsz, ?_, ?_⟩)), by rintro _ ⟨⟩; exact hte⟩
      · rw [position, hbytes]
        exact hline
      · rw [position, hbytes]
        exact hend
    · refine ⟨.crash (.refl hready) hline hend fun hlast => ?_, nofun⟩
      rw [← hlength hlast]
      omega

/-- What the loop at the start of a chunk comes to: a chunk of which something is missing, or the outcome of the call. -/
theorem chunkHeader_cases (hready : post.Ready) :
    (∃ post', post.chunkHeader conf = .ok post' ∧ Follows conf post post' ∧ post'.teChunked ≠ 0) ∨
      Outcome conf files post (post.chunkHeader conf) ∧ ∀ post', post.chunkHeader conf = .ok post' → post'.teChunked = 0 := by
  by_cases hte : post.teChunked = 0
  swap
  · exact .inl ⟨post, if_pos hte, .refl hready, hte⟩
  have hfinds := findsLine_findLine _ post hready.inMemory (Nat.lt_succ_self _)
  unfold chunkHeader
  rw [if_neg (by simpa using hte)]
  generalize findLine (post.cq.chunks.length + 1) post = found at hfinds
  cases hfinds with
  | none hnone htakes =>
    rename_i cq
    refine .inr ⟨.waits (.of_takes_zero hready htakes) fun hfull => .inl (.inl ⟨hte, ?_⟩), by rintro _ ⟨⟩; exact hte⟩
    rw [position, show cq.bytes = post.cq.bytes from htakes.bytes]
    exact hnone hfull
  | long hlong hfailed =>
    refine .inr ⟨.rejected (.refl hready) hfailed (.inl ?_), nofun⟩
    rcases hlong with hlong | ⟨hsz, hline, hlong⟩
    · exact .inl ⟨hte, hlong⟩
    · exact .inr (.inl ⟨hte, hsz, hline, .inl hlong⟩)
  | line hline htakes hchunks hle =>
    rename_i hsz cq c chunks
    have hbytes : cq.bytes = post.cq.bytes := htakes.bytes
    have hfollows : Follows conf post { post with cq := cq } := .of_takes_zero hready htakes
    -- the line is in the first chunk, so the rest of the queue does not matter
    have hsize : lineSize (cq.chunks.head?.elim [] unread) = lineSize post.cq.bytes := by
      rw [← hbytes, bytes_eq_append hchunks] at hline ⊢
      rw [hchunks, lineSize_append (lf_mem_of_lineLength_append hline hle)]
      rfl
    simp only [sizeLine, hsize]
    cases hlineSize : lineSize post.cq.bytes with
    | none =>
      exact .inr ⟨.rejected (.refl hready) (failed_readPostError _) (.inl (.inr (.inl ⟨hte, hsz, hline, .inr hlineSize⟩))), nofun⟩
    | some size =>
      simp only
      by_cases hlong : 1024 ≤ hsz
      · rw [if_pos hlong]
        exact .inr ⟨.rejected (.refl hready) (failed_readPostError _) (.inl (.inr (.inl ⟨hte, hsz, hline, .inl hlong⟩))), nofun⟩
      have hhas : post.position.HasLine hsz size := ⟨hte, hline, by omega, hlineSize⟩
      rw [if_neg hlong]
      by_cases hzero : size = 0
      · subst hzero
        have hhas' : Position.HasLine (position { post with cq := cq }) hsz 0 := by rw [position, hbytes]; exact hhas
        obtain ⟨houtcome, hzero⟩ := outcome_lastChunk hfollows.ready hhas' ⟨c, chunks, hchunks, hle, (lineLength_le hline).1⟩
        exact .inr ⟨houtcome.of_follows hfollows, hzero⟩
      · rw [if_neg hzero]
        have hle' : hsz ≤ cq.bytes.length := by rw [hbytes]; exact (lineLength_le hline).2
        obtain ⟨cq', hmark, htakes', _⟩ := takes_markWritten hle'
        simp only [markWritten, hmark, hready.counted]
        split
        · rename_i hlarge
          exact .inr ⟨.rejected (.refl hready) (failed_readPostError _) (.inl (.inr (.inr (.inl ⟨hsz, size, hhas, hzero, hlarge⟩)))),
            nofun⟩
        · rename_i hlarge
          obtain ⟨hnonneg, hlt⟩ := lineSize_bounds hlineSize
          have hoff := offT_size (lt_of_le_of_ne hnonneg (Ne.symm hzero)) hlt
          refine .inl ⟨_, rfl, .of_takes hready (htakes.trans htakes') (by omega) ?_, by simp only; omega⟩
          rw [Nat.zero_add]
          exact .single (.line hhas hzero (Bool.eq_false_iff.2 hlarge))

/-- What is taken of the data of a chunk: all that is missing, or all that is there. -/
theorem chunkData_cases (hready : post.Ready) (hte : post.teChunked ≠ 0) :
    (∃ post', post.chunkData files = .ok post' ∧ Follows conf post post' ∧ post'.teChunked ≠ 0 ∧
        (2 < post'.teChunked → post'.cq.bytes = [])) ∨
      ∃ failure, post.chunkData files = .error failure ∧ Failed failure ∧ ∃ cq mem, (files.append cq mem).1 = false := by
  unfold chunkData
  by_cases htwo : post.teChunked ≤ 2
  · rw [if_pos htwo]
    exact .inl ⟨post, rfl, .refl hready, hte, by omega⟩
  rw [if_neg htwo, hready.balanced]
  simp only
  generalize hlen : min (post.cq.bytes.length : Int) (post.teChunked - 2) = len
  have hle : len ≤ post.cq.bytes.length := by omega
  -- both ways of moving the data do the same, or the temporary files fail
  have hsteal : (∃ dst cq, post.stealData files len = (true, dst, cq) ∧ post.dst.Gains (post.cq.bytes.take len.toNat) dst ∧
      post.cq.Takes len.toNat cq) ∨
      ∃ dst cq, post.stealData files len = (false, dst, cq) ∧ ∃ cq mem, (files.append cq mem).1 = false := by
    unfold stealData
    split
    · exact .inl (steal_spec hle)
    · rcases hresult : stealWithTempfiles files post.dst post.cq len with ⟨ok, dst, cq⟩
      cases ok with
      | true => exact .inl ⟨dst, cq, rfl, stealWithTempfiles_spec files hle hresult⟩
      | false => exact .inr ⟨dst, cq, rfl, exists_append_false_of_steal files (by rw [hresult])⟩
  rcases hsteal with ⟨dst, cq, hsteal, hgains, htakes⟩ | ⟨dst, cq, hsteal, hfails⟩
  · rw [hsteal]
    have hreads : Position.Reads conf _ _ :=
      Position.reads_data post.teChunked post.dst.bytes post.cq.bytes len.toNat htakes.le (by omega)
    rw [show ((len.toNat : Nat) : Int) = len by omega] at hreads
    refine .inl ⟨_, rfl, ⟨?_, ⟨htakes.trimmed.inMemory hready.inMemory, htakes.balanced hready.balanced, ?_, ?_⟩, htakes.trimmed, rfl⟩,
      ?_, fun hmore => ?_⟩
    · simp only [position, hgains.bytes, htakes.bytes]
      exact hreads
    · rw [hgains.bytes, hgains.bytesIn, hready.counted, length_append, Nat.cast_add]
    · simp only
      omega
    · simp only
      omega
    · rw [htakes.bytes]
      exact drop_eq_nil_of_le (by simp only at hmore; omega)
  · rw [hsteal]
    exact .inr ⟨_, rfl, failed_readPostError _, hfails⟩

/-- The CRLF after the data is found if it is there, unless the first chunk is empty. -/
theorem chunkedCrlf_cases (chunks : List Chunk) (h : 2 ≤ (chunks.flatMap unread).length) :
    (chunkedCrlf chunks ≠ -1 ∧ [13, 10] <+: chunks.flatMap unread) ∨
      (chunkedCrlf chunks = -1 ∧ (¬ [13, 10] <+: chunks.flatMap unread ∨ ¬ NoEmpty chunks)) := by
  cases chunks with
  | nil => simp at h
  | cons c chunks =>
    rw [chunkedCrlf]
    rw [flatMap_cons] at h ⊢
    split
    · rename_i hunread
      rw [hunread] at h ⊢
      cases hrest : chunks.flatMap unread with
      | nil => simp [hrest] at h
      | cons next rest =>
        simp only [List.head?_cons]
        split
        · rename_i hnext
          subst hnext
          exact .inl ⟨by decide, by simp⟩
        · rename_i hnext
          exact .inr ⟨rfl, .inl fun hpre => hnext (by simpa [eq_comm] using hpre)⟩
    · rename_i rest hunread
      rw [hunread]
      exact .inl ⟨by decide, by simp⟩
    · rename_i hone htwo
      refine .inr ⟨rfl, ?_⟩
      by_cases hempty : c.remaining = 0
      · exact .inr fun hfull => hfull c mem_cons_self hempty
      · refine .inl fun hpre => ?_
        match hunread : c.unread with
        | [] => exact hempty (unread_eq_nil.1 hunread)
        | [a] =>
          rw [hunread] at hpre
          obtain ⟨rfl, -⟩ := cons_prefix_cons.1 hpre
          exact hone hunread
        | a :: b :: rest =>
          rw [hunread] at hpre
          obtain ⟨rfl, hlf⟩ := cons_prefix_cons.1 hpre
          obtain ⟨rfl, -⟩ := cons_prefix_cons.1 hlf
          exact htwo _ hunread

/-! ## The loop -/

/-- With a negative `te_chunked` nothing is read. -/
theorem outcome_of_neg (n : Nat) (hready : post.Ready) (hte : post.teChunked < 0) :
    Outcome conf files post (decode conf files n post) := by
  induction n with
  | zero => exact .endless (.refl hready) hte
  | succ n ih =>
    have hheader : post.chunkHeader conf = .ok post := if_pos hte.ne
    have hdata : post.chunkData files = .ok post := if_pos (by omega)
    have hend : post.chunkEnd = .ok post := if_pos (by omega)
    simp only [decode, hheader, hte.ne, hdata, hend, if_false]
    split
    · exact .waits (.refl hready) fun _ => .inr hte
    · split
      · exact .waits (.refl hready) fun _ => .inr hte
      · exact ih

/-- A call reads the stream up to where it waits, the body ends or the stream is rejected. -/
theorem outcome_decode (n : Nat) (post : Post) (hready : post.Ready) (hn : post.cq.bytes.length < n) :
    Outcome conf files post (decode conf files n post) := by
  induction n generalizing post with
  | zero => exact absurd hn (Nat.not_lt_zero _)
  | succ n ih =>
    unfold decode
    -- the start of a chunk, unless there is one already
    rcases @chunkHeader_cases conf files _ hready with ⟨mid, hheader, hfollows, hte⟩ | ⟨houtcome, hzero⟩
    swap
    · generalize post.chunkHeader conf = result at houtcome hzero
      cases result with
      | error failure => exact houtcome
      | ok mid =>
        simp only [hzero mid rfl, if_true]
        exact houtcome
    simp only [hheader, hte, if_false]
    -- its data
    rcases @chunkData_cases conf files _ hfollows.ready hte with
      ⟨mid', hdata, hfollows', hte', hmore⟩ | ⟨failure, hdata, hfailed, hfails⟩
    swap
    · rw [hdata]
      exact .rejected hfollows hfailed (.inr (.inr hfails))
    have hmid := hfollows.trans hfollows'
    simp only [hdata, show mid'.cq.bytesIn - mid'.cq.bytesOut = mid'.cq.bytes.length from hmid.ready.balanced]
    split
    · rename_i hlt
      exact .waits hmid fun _ => .inl (.inr (.inr ⟨by simp only [position]; omega, hlt⟩))
    · rename_i hle
      by_cases hneg : mid'.teChunked < 0
      · have hend : mid'.chunkEnd = .ok mid' := if_pos (by omega)
        simp only [hend]
        split
        · exact .waits hmid fun _ => .inr hneg
        · exact (outcome_of_neg n hmid.ready hneg).of_follows hmid
      -- its end
      have hnil : ¬ 2 < mid'.teChunked := fun h => by
        have := hmore h
        rw [this] at hle
        simp only [length_nil] at hle
        omega
      have htwo : mid'.teChunked = 2 := by
        have := hmid.ready.te
        omega
      have htwo_le : 2 ≤ mid'.cq.bytes.length := by omega
      unfold chunkEnd
      rw [if_neg (by simpa using htwo)]
      rcases chunkedCrlf_cases mid'.cq.chunks htwo_le with ⟨hcrlf, hpre⟩ | ⟨hcrlf, hbad⟩
      swap
      · rw [if_pos hcrlf]
        refine .rejected hmid (failed_readPostError _) ?_
        rcases hbad with hbad | hempty
        · exact .inl (.inr (.inr (.inr ⟨htwo, htwo_le, hbad⟩)))
        · exact .inr (.inl hempty)
      obtain ⟨cq, hmark, htakes, -⟩ := takes_markWritten htwo_le
      have hfollows := hmid.trans (.of_takes hmid.ready htakes (by decide) (.single (.crlf htwo hpre)))
      simp only [if_neg hcrlf, markWritten, hmark]
      split
      · rename_i hchunks
        refine .waits hfollows fun _ => .inl (.inl ⟨rfl, ?_⟩)
        simp only [position, bytes, hchunks]
        rfl
      · refine (ih _ hfollows.ready ?_).of_follows hfollows
        have hlength : mid'.cq.bytes.length ≤ post.cq.bytes.length := hmid.reads.suffix.length_le
        simp only [htakes.bytes, length_drop]
        omega

end Post

end Osp.Lighttpd
