import Osp.Lighttpd.Chunk

/-!
# Queues of chunks as byte strings

What the operations on a queue do to the bytes that it holds.
-/

namespace Osp.Lighttpd

open Osp.Lib Chunk List

namespace Chunk

@[simp] theorem unread_ofMem (data : Bytes) : (ofMem data).unread = data := rfl

@[simp] theorem unread_ofFile (data : Bytes) : (ofFile data).unread = data := rfl

@[simp] theorem length_unread (c : Chunk) : c.unread.length = c.remaining := length_drop

theorem unread_eq_nil {c : Chunk} : c.unread = [] ↔ c.remaining = 0 := by
  rw [← length_unread, length_eq_zero_iff]

@[simp] theorem unread_skip (c : Chunk) (n : Nat) : (c.skip n).unread = c.unread.drop n := by
  simp only [skip, unread, drop_drop]
  rcases Nat.le_total (c.offset + n) c.data.length with h | h
  · rw [Nat.min_eq_left h]
  · rw [Nat.min_eq_right h, drop_length, drop_eq_nil_of_le h]

end Chunk

/-- A list of chunks after bytes were read from its start: the first chunk that is left may have changed, and is not empty then. -/
def Trimmed (chunks chunks' : List Chunk) : Prop :=
  chunks' <:+ chunks ∨ ∃ c c' rest, c :: rest <:+ chunks ∧ chunks' = c' :: rest ∧ c'.type = c.type ∧ c'.remaining ≠ 0

/-- No chunk is empty. -/
def NoEmpty (chunks : List Chunk) : Prop := ∀ c ∈ chunks, c.remaining ≠ 0

/-- The last chunk is not empty. -/
def LastFull (chunks : List Chunk) : Prop := ∀ c ∈ chunks.getLast?, c.remaining ≠ 0

/-- All chunks are in memory. -/
def InMemory (chunks : List Chunk) : Prop := ∀ c ∈ chunks, c.type = .mem

section

variable {chunks chunks' chunks'' : List Chunk}

theorem NoEmpty.lastFull (h : NoEmpty chunks) : LastFull chunks := fun c hc => h c (mem_of_getLast? hc)

namespace Trimmed

theorem refl (chunks : List Chunk) : Trimmed chunks chunks := .inl suffix_rfl

theorem of_suffix (h : chunks' <:+ chunks) (h' : Trimmed chunks' chunks'') : Trimmed chunks chunks'' := by
  rcases h' with h' | ⟨c, c', rest, hsuffix, heq, htype, hne⟩
  · exact .inl (h'.trans h)
  · exact .inr ⟨c, c', rest, hsuffix.trans h, heq, htype, hne⟩

theorem trans (h : Trimmed chunks chunks') (h' : Trimmed chunks' chunks'') : Trimmed chunks chunks'' := by
  rcases h with h | ⟨c, c', rest, hsuffix, rfl, htype, hne⟩
  · exact of_suffix h h'
  · have hrest : rest <:+ chunks := (suffix_cons c rest).trans hsuffix
    rcases h' with h' | ⟨d, d', rest', hsuffix', rfl, htype', hne'⟩
    · rcases suffix_cons_iff.1 h' with rfl | h'
      · exact .inr ⟨c, c', rest, hsuffix, rfl, htype, hne⟩
      · exact .inl (h'.trans hrest)
    · rcases suffix_cons_iff.1 hsuffix' with heq | hsuffix'
      · obtain ⟨rfl, rfl⟩ := List.cons.inj heq
        exact .inr ⟨c, d', rest', hsuffix, rfl, htype'.trans htype, hne'⟩
      · exact .inr ⟨d, d', rest', hsuffix'.trans hrest, rfl, htype', hne'⟩

theorem inMemory (h : Trimmed chunks chunks') (hmem : InMemory chunks) : InMemory chunks' := by
  rcases h with h | ⟨c, c', rest, hsuffix, rfl, htype, _⟩
  · exact fun c hc => hmem c (h.subset hc)
  · intro d hd
    rcases mem_cons.1 hd with rfl | hd
    · rw [htype]
      exact hmem c (hsuffix.subset mem_cons_self)
    · exact hmem d (hsuffix.subset (mem_cons_of_mem _ hd))

theorem noEmpty (h : Trimmed chunks chunks') (hfull : NoEmpty chunks) : NoEmpty chunks' := by
  rcases h with h | ⟨c, c', rest, hsuffix, rfl, _, hne⟩
  · exact fun c hc => hfull c (h.subset hc)
  · intro d hd
    rcases mem_cons.1 hd with rfl | hd
    · exact hne
    · exact hfull d (hsuffix.subset (mem_cons_of_mem _ hd))

theorem lastFull (h : Trimmed chunks chunks') (hfull : LastFull chunks) : LastFull chunks' := by
  have hsuffix_last {l : List Chunk} (hl : l <:+ chunks) : LastFull l := by
    intro c hc
    obtain ⟨before, rfl⟩ := hl
    exact hfull c (by rw [List.getLast?_append, hc]; rfl)
  rcases h with h | ⟨c, c', rest, hsuffix, rfl, _, hne⟩
  · exact hsuffix_last h
  · intro d hd
    cases hrest : rest.getLast? with
    | none =>
      obtain rfl := List.getLast?_eq_none_iff.1 hrest
      cases hd
      exact hne
    | some e =>
      rw [List.getLast?_cons, hrest] at hd
      cases hd
      exact hsuffix_last ((suffix_cons c rest).trans hsuffix) e hrest

end Trimmed

end

namespace ChunkQueue

variable {cq cq' cq'' : ChunkQueue} {n m : Nat}

theorem length_eq (cq : ChunkQueue) : cq.length = cq.bytes.length := by
  simp [length, bytes, length_flatMap]

@[simp] theorem bytes_removeFinishedChunks (cq : ChunkQueue) : cq.removeFinishedChunks.bytes = cq.bytes := by
  simp only [removeFinishedChunks, bytes]
  induction cq.chunks with
  | nil => rfl
  | cons c chunks ih =>
    by_cases hc : c.remaining = 0
    · rw [dropWhile_cons_of_pos (by simpa using hc), ih, flatMap_cons, unread_eq_nil.2 hc, nil_append]
    · rw [dropWhile_cons_of_neg (by simpa using hc)]

/-- The counters agree with the bytes that a queue holds. -/
def Balanced (cq : ChunkQueue) : Prop := cq.bytesIn - cq.bytesOut = cq.bytes.length

/-- A queue after its first bytes were taken. -/
structure Takes (cq : ChunkQueue) (n : Nat) (cq' : ChunkQueue) : Prop where
  le : n ≤ cq.bytes.length
  bytes : cq'.bytes = cq.bytes.drop n
  bytesIn : cq'.bytesIn = cq.bytesIn
  bytesOut : cq'.bytesOut = cq.bytesOut + n
  trimmed : Trimmed cq.chunks cq'.chunks

namespace Takes

theorem trans (h : cq.Takes n cq') (h' : cq'.Takes m cq'') : cq.Takes (n + m) cq'' where
  le := by
    have := h'.le
    rw [h.bytes, length_drop] at this
    have := h.le
    omega
  bytes := by rw [h'.bytes, h.bytes, drop_drop]
  bytesIn := h'.bytesIn.trans h.bytesIn
  bytesOut := by rw [h'.bytesOut, h.bytesOut, Nat.cast_add, Int.add_assoc]
  trimmed := h.trimmed.trans h'.trimmed

theorem balanced (h : cq.Takes n cq') (hcq : cq.Balanced) : cq'.Balanced := by
  have hle := h.le
  unfold Balanced at *
  rw [h.bytesIn, h.bytesOut, h.bytes, length_drop]
  omega

end Takes

/-! ## Taking bytes -/

theorem markChunks_of_le (chunks : List Chunk) (h : n ≤ (chunks.flatMap unread).length) :
    ∃ chunks', markChunks chunks n = some chunks' ∧ chunks'.flatMap unread = (chunks.flatMap unread).drop n ∧
      Trimmed chunks chunks' ∧ ((chunks.flatMap unread).drop n = [] → chunks' = []) := by
  induction chunks generalizing n with
  | nil =>
    cases h
    exact ⟨[], rfl, rfl, .refl _, fun _ => rfl⟩
  | cons c chunks ih =>
    rw [flatMap_cons, length_append, length_unread] at h
    rw [markChunks, flatMap_cons]
    by_cases hrest : n = 0 ∧ c.remaining ≠ 0
    · rw [if_pos hrest, hrest.1]
      refine ⟨_, rfl, by simp, .refl _, fun hnil => ?_⟩
      have := congrArg List.length hnil
      simp only [drop_zero, length_append, length_unread, length_nil] at this
      omega
    · by_cases hle : c.remaining ≤ n
      · rw [if_neg hrest, if_pos hle]
        obtain ⟨chunks', hmark, hbytes, htrimmed, hnil⟩ := ih (n := n - c.remaining) (by omega)
        have hdrop : (c.unread ++ chunks.flatMap unread).drop n = (chunks.flatMap unread).drop (n - c.remaining) := by
          rw [drop_append, drop_eq_nil_of_le (by simpa using hle), length_unread, nil_append]
        exact ⟨chunks', hmark, hbytes.trans hdrop.symm, htrimmed.of_suffix (suffix_cons c chunks), fun h =>
          hnil (hdrop.symm.trans h)⟩
      · rw [if_neg hrest, if_neg hle]
        have hskip : (c.skip n).remaining ≠ 0 := by
          rw [← length_unread, unread_skip, length_drop, length_unread]
          omega
        have hdrop : (c.unread ++ chunks.flatMap unread).drop n = c.unread.drop n ++ chunks.flatMap unread :=
          drop_append_of_le_length (by rw [length_unread]; omega)
        refine ⟨_, rfl, by rw [hdrop, flatMap_cons, unread_skip], ?_, fun h => ?_⟩
        · exact .inr ⟨c, _, chunks, suffix_rfl, rfl, rfl, hskip⟩
        · rw [hdrop, ← unread_skip] at h
          exact absurd (unread_eq_nil.1 (append_eq_nil_iff.1 h).1) hskip

/-- Bytes that the queue holds are marked as written; if there are no others, no chunk is left. -/
theorem takes_markWritten (h : n ≤ cq.bytes.length) :
    ∃ cq', cq.markWritten n = some cq' ∧ cq.Takes n cq' ∧ (cq'.bytes = [] → cq'.chunks = []) := by
  obtain ⟨chunks', hmark, hbytes, htrimmed, hnil⟩ := markChunks_of_le cq.chunks h
  refine ⟨{ cq with chunks := chunks', bytesOut := cq.bytesOut + n }, by simp [markWritten, hmark], ?_, fun h => ?_⟩
  · exact ⟨h, hbytes, rfl, rfl, htrimmed⟩
  · exact hnil (hbytes.symm.trans h)

/-! ## Moving bytes -/

variable {dest dest' : ChunkQueue}

@[simp] theorem bytes_appendChunk (c : Chunk) : (cq.appendChunk c).bytes = cq.bytes ++ c.unread := by
  simp [appendChunk, bytes]

@[simp] theorem bytesIn_appendChunk (c : Chunk) : (cq.appendChunk c).bytesIn = cq.bytesIn + c.unread.length := by
  simp [appendChunk]

@[simp] theorem bytes_appendMem (mem : Bytes) : (cq.appendMem mem).bytes = cq.bytes ++ mem := by
  unfold appendMem
  split <;> simp [*]

@[simp] theorem bytesIn_appendMem (mem : Bytes) : (cq.appendMem mem).bytesIn = cq.bytesIn + mem.length := by
  unfold appendMem
  split
  · simp [*]
  · rw [bytesIn_appendChunk, unread_ofMem]

@[simp] theorem bytes_appendFile (part : Bytes) : (cq.appendFile part).bytes = cq.bytes ++ part := by
  unfold appendFile
  split <;> simp [*]

@[simp] theorem bytesIn_appendFile (part : Bytes) : (cq.appendFile part).bytesIn = cq.bytesIn + part.length := by
  unfold appendFile
  split
  · simp [*]
  · rw [bytesIn_appendChunk, unread_ofFile]

/-- The queue after bytes were appended to it. -/
structure Gains (cq : ChunkQueue) (mem : Bytes) (cq' : ChunkQueue) : Prop where
  bytes : cq'.bytes = cq.bytes ++ mem
  bytesIn : cq'.bytesIn = cq.bytesIn + mem.length

variable {mem : Bytes} {src src' : ChunkQueue} {move : ChunkQueue → Chunk → Nat → Bool × ChunkQueue} {len : Int}

theorem Gains.trans {mem' : Bytes} (h : cq.Gains mem cq') (h' : cq'.Gains mem' cq'') : cq.Gains (mem ++ mem') cq'' where
  bytes := by rw [h'.bytes, h.bytes, append_assoc]
  bytesIn := by rw [h'.bytesIn, h.bytesIn, length_append, Nat.cast_add, Int.add_assoc]

theorem gains_moveChunk (c : Chunk) : dest.Gains (c.unread.take n) (dest.moveChunk c n) := by
  unfold moveChunk
  split
  · rename_i h
    rw [h, ← length_unread, take_length]
    exact ⟨bytes_appendChunk c, bytesIn_appendChunk c⟩
  · cases c.type
    · exact ⟨bytes_appendMem _, bytesIn_appendMem _⟩
    · exact ⟨bytes_appendFile _, bytesIn_appendFile _⟩

/-- What the loop does if every chunk that is moved is appended. -/
theorem stealLoop_spec (hmove : ∀ dest c n dest', move dest c n = (true, dest') → dest.Gains (c.unread.take n) dest') (chunks : List Chunk)
    (len : Int) (dest : ChunkQueue) (out : Int) {chunks' : List Chunk} {out' : Int}
    (h : stealLoop move chunks len dest out = (true, dest', chunks', out')) :
    dest.Gains ((chunks.flatMap unread).take len.toNat) dest' ∧
      chunks'.flatMap unread = (chunks.flatMap unread).drop len.toNat ∧
      out' = out + min len.toNat (chunks.flatMap unread).length ∧ Trimmed chunks chunks' := by
  induction chunks generalizing len dest out with
  | nil =>
    cases h
    exact ⟨⟨by simp, by simp⟩, by simp, by simp, .refl _⟩
  | cons c chunks ih =>
    unfold stealLoop at h
    split at h
    · rename_i hlen
      cases h
      rw [Int.toNat_eq_zero.2 hlen]
      exact ⟨⟨by simp, by simp⟩, by simp, by simp, .refl _⟩
    · split at h
      · rename_i hempty
        have := ih len dest out h
        rw [flatMap_cons, unread_eq_nil.2 hempty, nil_append]
        exact ⟨this.1, this.2.1, this.2.2.1, this.2.2.2.of_suffix (suffix_cons c chunks)⟩
      · split at h
        · rename_i hle
          -- the whole chunk is moved
          split at h
          · cases h
          · rename_i dest₁ hmoved
            have hgains := hmove _ _ _ _ hmoved
            rw [← length_unread, take_length] at hgains
            obtain ⟨hgains', hbytes, hout, htrimmed⟩ := ih _ _ _ h
            have hnat : len.toNat = c.unread.length + (len - c.remaining).toNat := by
              rw [length_unread]
              omega
            rw [flatMap_cons, hnat, take_length_add_append, drop_length_add_append]
            refine ⟨hgains.trans hgains', hbytes, ?_, htrimmed.of_suffix (suffix_cons c chunks)⟩
            rw [hout, length_append, length_unread]
            omega
        · rename_i hlt
          -- the first bytes of the chunk are moved
          split at h
          · cases h
          · rename_i dest₁ hmoved
            have hle : len.toNat ≤ c.unread.length := by
              rw [length_unread]
              omega
            cases h
            rw [flatMap_cons, flatMap_cons, take_append_of_le_length hle, drop_append_of_le_length hle,
              unread_skip]
            refine ⟨hmove _ _ _ _ hmoved, rfl, ?_, .inr ⟨c, _, chunks, suffix_rfl, rfl, rfl, ?_⟩⟩
            · rw [length_append, Nat.min_eq_left (hle.trans (Nat.le_add_right _ _))]
              omega
            · rw [← length_unread, unread_skip, length_drop, length_unread]
              omega

/-- A move that does not fail for the chunks of a queue does not make the loop fail. -/
theorem stealLoop_ok (chunks : List Chunk)
    (hmove : ∀ dest, ∀ c ∈ chunks, ∀ n, (move dest c n).1 = true) (len : Int) (dest : ChunkQueue) (out : Int) :
    (stealLoop move chunks len dest out).1 = true := by
  induction chunks generalizing len dest out with
  | nil => rfl
  | cons c chunks ih =>
    have ih := ih fun dest d hd => hmove dest d (mem_cons_of_mem _ hd)
    unfold stealLoop
    split
    · rfl
    · split
      · exact ih _ _ _
      · split
        · split
          · rename_i hmoved
            have := hmove dest c mem_cons_self c.remaining
            simp [hmoved] at this
          · exact ih _ _ _
        · split
          · rename_i hmoved
            have := hmove dest c mem_cons_self len.toNat
            simp [hmoved] at this
          · rfl

/-- Bytes that the source holds are taken from it and appended to the destination. -/
theorem stealWith_spec (hmove : ∀ dest c n dest', move dest c n = (true, dest') → dest.Gains (c.unread.take n) dest')
    (hlen : len ≤ src.bytes.length) (h : stealWith move dest src len = (true, dest', src')) :
    dest.Gains (src.bytes.take len.toNat) dest' ∧ src.Takes len.toNat src' := by
  simp only [stealWith, Prod.mk.injEq] at h
  obtain ⟨hok, rfl, rfl⟩ := h
  have hloop : stealLoop move src.chunks len dest src.bytesOut =
      (true, (stealLoop move src.chunks len dest src.bytesOut).2.1, (stealLoop move src.chunks len dest src.bytesOut).2.2.1,
        (stealLoop move src.chunks len dest src.bytesOut).2.2.2) := Prod.ext hok rfl
  obtain ⟨hgains, hbytes, hout, htrimmed⟩ := stealLoop_spec hmove _ _ _ _ hloop
  have hle : len.toNat ≤ src.bytes.length := by omega
  rw [← ChunkQueue.bytes, Nat.min_eq_left hle] at hout
  exact ⟨hgains, hle, hbytes, rfl, hout, htrimmed⟩

theorem steal_spec (hlen : len ≤ src.bytes.length) :
    ∃ dest' src', steal dest src len = (true, dest', src') ∧ dest.Gains (src.bytes.take len.toNat) dest' ∧
      src.Takes len.toNat src' := by
  have hok : (steal dest src len).1 = true := stealLoop_ok _ (fun _ _ _ _ => rfl) _ _ _
  have hsteal : steal dest src len = (true, (steal dest src len).2.1, (steal dest src len).2.2) := Prod.ext hok rfl
  refine ⟨_, _, hsteal, stealWith_spec ?_ hlen hsteal⟩
  rintro dest c n _ ⟨⟩
  exact gains_moveChunk c

theorem stealWithTempfiles_spec (files : TempFiles) (hlen : len ≤ src.bytes.length)
    (h : stealWithTempfiles files dest src len = (true, dest', src')) :
    dest.Gains (src.bytes.take len.toNat) dest' ∧ src.Takes len.toNat src' := by
  refine stealWith_spec (fun dest c n dest' hmove => ?_) hlen h
  cases htype : c.type with
  | mem =>
    rw [htype] at hmove
    exact ⟨files.bytes_append hmove, files.bytesIn_append hmove⟩
  | file =>
    rw [htype] at hmove
    cases hmove
    exact gains_moveChunk c

/-- Bytes are taken unless a write to a temporary file fails. -/
theorem exists_append_false_of_steal (files : TempFiles) (h : (stealWithTempfiles files dest src len).1 = false) : ∃ cq mem,
    (files.append cq mem).1 = false := by
  by_contra hnone
  push Not at hnone
  refine absurd (stealLoop_ok src.chunks (fun dest c _ n => ?_) len dest src.bytesOut) (by simpa [stealWithTempfiles, stealWith] using h)
  cases htype : c.type with
  | mem => simpa [htype] using hnone dest (c.unread.take n)
  | file => simp

end ChunkQueue

/-- Temporary files that can always be written. -/
def TempFiles.reliable : TempFiles where
  append cq mem := (true, cq.appendFile mem)
  bytes_append := by
    rintro cq cq' mem ⟨⟩
    exact ChunkQueue.bytes_appendFile mem
  bytesIn_append := by
    rintro cq cq' mem ⟨⟩
    exact ChunkQueue.bytesIn_appendFile mem

end Osp.Lighttpd
