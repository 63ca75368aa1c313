import Osp.Lighttpd.PostChunked

/-!
# Chunked bodies as byte streams

What the decoder of chunked bodies does, on a stream of bytes in place of a queue of chunks: the positions it gets to, and what it
finds there. `Osp.Lighttpd.Lemmas.PostChunked` shows that this is what `connection_handle_read_post_chunked` does for every way of
cutting the stream into chunks.
-/

namespace Osp.Lighttpd

open Osp.Lib List Option

/-- The length of the first line, up to the first NUL, with its LF. -/
def lineLength (bytes : Bytes) : Option Nat := (search [10] (cString bytes)).map (·.1.length + 1)

/-- The end of the trailers that follow a size line of the given length. -/
def trailersEnd (bytes : Bytes) (hsz : Nat) : Option Nat :=
  (search crlfCrlf (cString (bytes.drop (hsz - 2)))).map (hsz - 2 + ·.1.length + 4)

/-- A position in the stream: what is missing of a chunk, the data so far, and the bytes that follow. -/
structure Position where
  te : Int
  data : Bytes
  unread : Bytes

namespace Position

/-- The stream goes on after what was there. -/
def more (pos : Position) (bytes : Bytes) : Position := { pos with unread := pos.unread ++ bytes }

/-- A size line that is read, with its length and the size. -/
structure HasLine (pos : Position) (hsz : Nat) (size : Int) : Prop where
  te : pos.te = 0
  line : lineLength pos.unread = some hsz
  lt : hsz < 1024
  size : lineSize pos.unread = some size

/-- What the decoder reads next: a size line, a byte of the data of a chunk, or the CRLF after it. -/
inductive Step (conf : PostConf) : Position → Position → Prop
  | line {pos : Position} {hsz : Nat} {size : Int} : pos.HasLine hsz size → size ≠ 0 →
    Post.tooLarge conf size pos.data.length = false →
    Step conf pos { pos with te := offT (size + 2), unread := pos.unread.drop hsz }
  | data {te : Int} {data unread : Bytes} {c : UInt8} : 2 < te → Step conf ⟨te, data, c :: unread⟩ ⟨te - 1, data ++ [c], unread⟩
  | crlf {pos : Position} : pos.te = 2 → [13, 10] <+: pos.unread →
    Step conf pos { pos with te := 0, unread := pos.unread.drop 2 }

/-- The positions that the decoder gets to. -/
def Reads (conf : PostConf) : Position → Position → Prop := Relation.ReflTransGen (Step conf)

/-- The decoder waits for more bytes. -/
def Waits (pos : Position) : Prop :=
  (pos.te = 0 ∧ lineLength pos.unread = none) ∨ (∃ hsz, pos.HasLine hsz 0 ∧ trailersEnd pos.unread hsz = none) ∨
    (0 < pos.te ∧ (pos.unread.length : Int) < pos.te)

/-- The body ends, after the given number of bytes. -/
def EndsAfter (pos : Position) (n : Nat) : Prop := ∃ hsz, pos.HasLine hsz 0 ∧ trailersEnd pos.unread hsz = some n

/-- The bytes are rejected. -/
def Rejected (conf : PostConf) (pos : Position) : Prop :=
  (pos.te = 0 ∧ lineLength pos.unread = none ∧ 1024 ≤ pos.unread.length) ∨
    (pos.te = 0 ∧ ∃ hsz, lineLength pos.unread = some hsz ∧ (1024 ≤ hsz ∨ lineSize pos.unread = none)) ∨
    (∃ hsz size, pos.HasLine hsz size ∧ size ≠ 0 ∧ Post.tooLarge conf size pos.data.length = true) ∨
    (pos.te = 2 ∧ 2 ≤ pos.unread.length ∧ ¬ [13, 10] <+: pos.unread)

end Position

/-! ## Streams that go on -/

section

variable {bytes more : Bytes} {hsz n : Nat}

theorem cString_of_notMem (h : 0 ∉ bytes) : cString bytes = bytes := by
  simpa [cString] using cString_append_of_notMem h []

theorem search_cString_append {pattern before after : Bytes} (h : search pattern (cString bytes) = some (before, after))
    (more : Bytes) : ∃ after', search pattern (cString (bytes ++ more)) = some (before, after') := by
  by_cases hzero : 0 ∈ bytes
  · rw [cString_append_of_mem hzero]
    exact ⟨after, h⟩
  · rw [cString_append_of_notMem hzero]
    rw [cString_of_notMem hzero] at h
    exact ⟨_, search_append h _⟩

theorem lineLength_append (h : lineLength bytes = some n) (more : Bytes) : lineLength (bytes ++ more) = some n := by
  obtain ⟨⟨before, after⟩, hsearch, rfl⟩ := map_eq_some_iff.1 h
  obtain ⟨after', hmore⟩ := search_cString_append hsearch more
  simp [lineLength, hmore]

theorem trailersEnd_append (hle : hsz - 2 ≤ bytes.length) (h : trailersEnd bytes hsz = some n) (more : Bytes) :
    trailersEnd (bytes ++ more) hsz = some n := by
  obtain ⟨⟨before, after⟩, hsearch, rfl⟩ := map_eq_some_iff.1 h
  obtain ⟨after', hmore⟩ := search_cString_append hsearch more
  rw [trailersEnd, drop_append_of_le_length hle, hmore]
  rfl

/-- A line, its LF and what follows. -/
theorem lineLength_eq_some (h : lineLength bytes = some n) :
    ∃ line rest, bytes = line ++ 10 :: rest ∧ line.length + 1 = n ∧ 0 ∉ line ∧ 10 ∉ line := by
  obtain ⟨⟨line, after⟩, hsearch, rfl⟩ := map_eq_some_iff.1 h
  obtain ⟨rest, hrest⟩ := prefix_cString bytes
  have happend := search_eq_append hsearch
  refine ⟨line, after ++ rest, ?_, rfl, fun hmem => ?_, notMem_of_search_singleton hsearch⟩
  · rw [← hrest, happend]
    simp
  · have hmem : 0 ∈ cString bytes := by
      rw [happend]
      simp [hmem]
    simpa using mem_takeWhile_imp hmem

theorem lineLength_le (h : lineLength bytes = some n) : 0 < n ∧ n ≤ bytes.length := by
  obtain ⟨line, rest, rfl, rfl, -⟩ := lineLength_eq_some h
  simp

/-- A line that is only complete when the stream goes on is longer than what was there. -/
theorem lt_of_lineLength_append (hnone : lineLength bytes = none) (h : lineLength (bytes ++ more) = some n) :
    bytes.length < n := by
  have hnone : search [10] (cString bytes) = none := map_eq_none_iff.1 hnone
  by_cases hzero : 0 ∈ bytes
  · rw [lineLength, cString_append_of_mem hzero, hnone] at h
    cases h
  · obtain ⟨⟨before, after⟩, hsearch, rfl⟩ := map_eq_some_iff.1 h
    rw [cString_append_of_notMem hzero] at hsearch
    rw [cString_of_notMem hzero] at hnone
    exact length_lt_of_search_append hnone hsearch

/-- The LF of a line that is there already. -/
theorem lf_mem_of_lineLength_append (h : lineLength (bytes ++ more) = some n) (hle : n ≤ bytes.length) : 10 ∈ bytes := by
  obtain ⟨line, rest, heq, rfl, -⟩ := lineLength_eq_some h
  have hget : (bytes ++ more)[line.length]? = some 10 := by rw [heq]; simp
  rw [List.getElem?_append_left (by omega)] at hget
  exact mem_of_getElem? hget

/-- The digits of a size end before an LF. -/
theorem readSize_append (te : Int) (h : 10 ∈ bytes) :
    readSize te (bytes ++ more) = (readSize te bytes).map (fun r => (r.1, r.2 ++ more)) ∧
      ∀ r, readSize te bytes = some r → 10 ∈ r.2 := by
  induction bytes generalizing te with
  | nil => exact absurd h not_mem_nil
  | cons c bytes ih =>
    rw [cons_append, readSize, readSize]
    cases hc : hex2int c with
    | none => exact ⟨rfl, by rintro _ ⟨⟩; exact h⟩
    | some u =>
      have hmem : 10 ∈ bytes := by
        rcases mem_cons.1 h with rfl | h
        · exact absurd hc nofun
        · exact h
      simp only
      split
      · exact ⟨rfl, by nofun⟩
      · exact ih _ hmem

theorem lineSize_append (h : 10 ∈ bytes) (more : Bytes) : lineSize (bytes ++ more) = lineSize bytes := by
  obtain ⟨happend, hmem⟩ := readSize_append 0 h
  rw [lineSize, lineSize, happend]
  cases hread : readSize 0 bytes with
  | none => rfl
  | some r =>
    simp only [map_some]
    have hne : r.2.dropWhile (fun c => c = 32 || c = 9) ≠ [] := fun hnil =>
      absurd (dropWhile_eq_nil_iff.1 hnil 10 (hmem r hread)) (by decide)
    have hhead : ((r.2 ++ more).dropWhile (fun c => c = 32 || c = 9)).head? =
        (r.2.dropWhile (fun c => c = 32 || c = 9)).head? := by
      rw [dropWhile_append, if_neg (by simpa using hne), List.head?_append_of_ne_nil _ hne]
    rw [hhead]

end

namespace Position

variable {conf : PostConf} {pos pos' : Position}

theorem HasLine.more {hsz : Nat} {size : Int} (h : pos.HasLine hsz size) (bytes : Bytes) : (pos.more bytes).HasLine hsz size where
  te := h.te
  line := lineLength_append h.line bytes
  lt := h.lt
  size := by
    obtain ⟨line, rest, heq, _⟩ := lineLength_eq_some h.line
    rw [Position.more, lineSize_append (by rw [heq]; simp), h.size]

theorem Step.more (h : Step conf pos pos') (bytes : Bytes) : Step conf (pos.more bytes) (pos'.more bytes) := by
  cases h with
  | line hline hsize hlarge =>
    have hstep : Step conf (pos.more bytes) _ := .line (hline.more bytes) hsize hlarge
    simpa only [Position.more, drop_append_of_le_length (lineLength_le hline.line).2] using hstep
  | data hte => exact .data hte
  | crlf hte hpre =>
    have hle : 2 ≤ pos.unread.length := hpre.length_le
    have hstep : Step conf (pos.more bytes) _ := .crlf hte (hpre.trans (prefix_append _ _))
    simpa only [Position.more, drop_append_of_le_length hle] using hstep

/-- What is read does not depend on the bytes that follow. -/
theorem Reads.more (h : Reads conf pos pos') (bytes : Bytes) : Reads conf (pos.more bytes) (pos'.more bytes) := by
  induction h with
  | refl => exact .refl
  | tail _ hstep ih => exact ih.tail (hstep.more bytes)

theorem Step.suffix (h : Step conf pos pos') : pos'.unread <:+ pos.unread := by
  cases h with
  | line => exact drop_suffix _ _
  | data => exact suffix_cons _ _
  | crlf => exact drop_suffix _ _

theorem Reads.suffix (h : Reads conf pos pos') : pos'.unread <:+ pos.unread := by
  induction h with
  | refl => exact suffix_rfl
  | tail _ hstep ih => exact hstep.suffix.trans ih

/-- Data of a chunk that is there is read. -/
theorem reads_data (te : Int) (data unread : Bytes) (k : Nat) (hk : k ≤ unread.length) (hte : (k : Int) ≤ te - 2) :
    Reads conf ⟨te, data, unread⟩ ⟨te - k, data ++ unread.take k, unread.drop k⟩ := by
  induction k generalizing te data unread with
  | zero =>
    simp only [Nat.cast_zero, Int.sub_zero, take_zero, append_nil, drop_zero]
    exact .refl
  | succ k ih =>
    cases unread with
    | nil => simp at hk
    | cons c unread =>
      have hrest := ih (te - 1) (data ++ [c]) unread (by simpa using hk) (by omega)
      have hsum : te - 1 - (k : Int) = te - ((k + 1 : Nat) : Int) := by omega
      rw [hsum, append_assoc] at hrest
      exact .head (.data (by omega)) hrest

/-- The data of a chunk and the CRLF after it are read. -/
theorem reads_chunk {k : Nat} {data unread : Bytes} (hk : k ≤ unread.length) (hcrlf : [13, 10] <+: unread.drop k) :
    Reads conf ⟨k + 2, data, unread⟩ ⟨0, data ++ unread.take k, (unread.drop k).drop 2⟩ := by
  have hdata : Reads conf ⟨k + 2, data, unread⟩ ⟨k + 2 - k, data ++ unread.take k, unread.drop k⟩ :=
    reads_data (k + 2) data unread k hk (by omega)
  rw [show (k + 2 - k : Int) = 2 by omega] at hdata
  exact .tail hdata (.crlf rfl hcrlf)

/-- There is one way to read on. -/
theorem Step.unique {pos₁ pos₂ : Position} (h₁ : Step conf pos pos₁) (h₂ : Step conf pos pos₂) : pos₁ = pos₂ := by
  cases h₁ with
  | line hline₁ =>
    have hte := hline₁.te
    cases h₂ with
    | line hline₂ =>
      obtain rfl := Option.some.inj (hline₁.line.symm.trans hline₂.line)
      obtain rfl := Option.some.inj (hline₁.size.symm.trans hline₂.size)
      rfl
    | data h => exact absurd hte (by simp only; omega)
    | crlf h => exact absurd hte (by omega)
  | data h =>
    cases h₂ with
    | line hline₂ => exact absurd hline₂.te (by simp only; omega)
    | data => rfl
    | crlf h' => exact absurd h' (by simp only; omega)
  | crlf h =>
    cases h₂ with
    | line hline₂ => exact absurd hline₂.te (by omega)
    | data h' => exact absurd h (by simp only; omega)
    | crlf => rfl

/-- Of two positions that are reached, one is reached from the other. -/
theorem Reads.total {pos₁ pos₂ : Position} (h₁ : Reads conf pos pos₁) (h₂ : Reads conf pos pos₂) :
    Reads conf pos₁ pos₂ ∨ Reads conf pos₂ pos₁ :=
  Relation.ReflTransGen.total_of_right_unique (fun _ _ _ => Step.unique) h₁ h₂

theorem EndsAfter.more {n : Nat} (h : pos.EndsAfter n) (bytes : Bytes) : (pos.more bytes).EndsAfter n := by
  obtain ⟨hsz, hline, hend⟩ := h
  exact ⟨hsz, hline.more bytes, trailersEnd_append ((Nat.sub_le _ _).trans (lineLength_le hline.line).2) hend bytes⟩

theorem EndsAfter.unique {n m : Nat} (h : pos.EndsAfter n) (h' : pos.EndsAfter m) : n = m := by
  obtain ⟨hsz, hline, hend⟩ := h
  obtain ⟨hsz', hline', hend'⟩ := h'
  obtain rfl : hsz = hsz' := Option.some.inj (hline.line.symm.trans hline'.line)
  exact Option.some.inj (hend.symm.trans hend')

/-! ## Streams with a body -/

variable {n : Nat} {last : Position}

theorem Reads.eq_of_stuck (h : Reads conf pos pos') (hstuck : ∀ next, ¬ Step conf pos next) : pos' = pos := by
  rcases Relation.ReflTransGen.cases_head h with rfl | ⟨next, hstep, -⟩
  · rfl
  · exact absurd hstep (hstuck next)

/-- Nothing is read at a last chunk. -/
theorem HasLine.not_step {hsz : Nat} (h : pos.HasLine hsz 0) (next : Position) : ¬ Step conf pos next := by
  intro hstep
  have hzero := h.te
  cases hstep with
  | line hline hsize => exact hsize (Option.some.inj (hline.size.symm.trans h.size))
  | data hte => exact absurd hte (by simp only at hzero; omega)
  | crlf hte => omega

section

variable (h : Reads conf pos last) (hend : last.EndsAfter n)

include h hend

/-- All positions that are reached lead to the end of the body. -/
theorem Reads.reads_last (h' : Reads conf pos pos') : Reads conf pos' last := by
  obtain ⟨hsz, hline, -⟩ := hend
  rcases Reads.total h h' with hreads | hreads
  · rw [hreads.eq_of_stuck hline.not_step]
    exact .refl
  · exact hreads

/-- What is missing of a chunk is there. -/
theorem Reads.te_le : 0 ≤ pos.te ∧ pos.te ≤ pos.unread.length := by
  obtain ⟨hsz, hline, -⟩ := hend
  induction h using Relation.ReflTransGen.head_induction_on with
  | refl =>
    rw [hline.te]
    exact ⟨le_rfl, by omega⟩
  | head hstep _ ih =>
    cases hstep with
    | line hline =>
      rw [hline.te]
      exact ⟨le_rfl, by omega⟩
    | data hte =>
      simp only [length_cons] at ih ⊢
      omega
    | crlf hte hpre =>
      have := hpre.length_le
      simp only [length_cons, length_nil] at this
      omega

/-- At the start of a chunk there is a size line. -/
theorem Reads.hasLine (hte : pos.te = 0) :
    ∃ hsz size, pos.HasLine hsz size ∧ (size ≠ 0 → Post.tooLarge conf size pos.data.length = false) := by
  rcases Relation.ReflTransGen.cases_head h with rfl | ⟨next, hstep, -⟩
  · obtain ⟨hsz, hline, -⟩ := hend
    exact ⟨hsz, 0, hline, fun h => absurd rfl h⟩
  · cases hstep with
    | line hline _ hlarge => exact ⟨_, _, hline, fun _ => hlarge⟩
    | data h => exact absurd hte (by simp only; omega)
    | crlf h => omega

/-- After the data of a chunk there is a CRLF. -/
theorem Reads.crlf_prefix (hte : pos.te = 2) : [13, 10] <+: pos.unread := by
  rcases Relation.ReflTransGen.cases_head h with rfl | ⟨next, hstep, -⟩
  · obtain ⟨hsz, hline, -⟩ := hend
    exact absurd hline.te (by omega)
  · cases hstep with
    | line hline => exact absurd hline.te (by omega)
    | data h => exact absurd hte (by simp only; omega)
    | crlf _ hpre => exact hpre

end

/-- A stream that starts with a body is not rejected, wherever it is cut. -/
theorem Reads.not_rejected {bytes : Bytes} (h : Reads conf (pos.more bytes) last) (hend : last.EndsAfter n) : ¬ pos.Rejected conf := by
  rintro (⟨hte, hnone, hlong⟩ | ⟨hte, hsz, hline, hbad⟩ | ⟨hsz, size, hline, hsize, hlarge⟩ | ⟨hte, hlength, hno⟩)
  · obtain ⟨hsz, size, hline, -⟩ := h.hasLine hend hte
    have := lt_of_lineLength_append hnone hline.line
    have := hline.lt
    omega
  · obtain ⟨hsz', size, hline', -⟩ := h.hasLine hend hte
    obtain rfl : hsz = hsz' := Option.some.inj ((lineLength_append hline bytes).symm.trans hline'.line)
    rcases hbad with hlong | hbad
    · have := hline'.lt
      omega
    · obtain ⟨line, rest, heq, _⟩ := lineLength_eq_some hline
      have hsize : lineSize (pos.unread ++ bytes) = some size := hline'.size
      rw [lineSize_append (by rw [heq]; simp), hbad] at hsize
      cases hsize
  · obtain ⟨hsz', size', hline', hnot⟩ := h.hasLine hend hline.te
    obtain rfl : size = size' := Option.some.inj ((hline.more bytes).size.symm.trans hline'.size)
    exact absurd (hnot hsize) (by simp only [Position.more, hlarge]; decide)
  · exact hno (prefix_of_prefix_length_le (h.crlf_prefix hend hte) (prefix_append _ _) hlength)

/-- The decoder does not wait in a stream that holds a body. -/
theorem Reads.not_waits (h : Reads conf pos last) (hend : last.EndsAfter n) : ¬ pos.Waits := by
  rintro (⟨hte, hnone⟩ | ⟨hsz, hline, hnone⟩ | ⟨-, hlt⟩)
  · obtain ⟨hsz, size, hline, -⟩ := h.hasLine hend hte
    exact absurd (hnone.symm.trans hline.line) (by nofun)
  · obtain rfl := h.eq_of_stuck hline.not_step
    obtain ⟨hsz', hline', hend⟩ := hend
    obtain rfl : hsz = hsz' := Option.some.inj (hline.line.symm.trans hline'.line)
    exact absurd (hnone.symm.trans hend) (by nofun)
  · have := (h.te_le hend).2
    omega

/-- The reading of a chunk goes through its end. -/
theorem Reads.past_chunk (h : Reads conf pos pos') (hte : 2 ≤ pos.te) (hzero : pos'.te = 0) :
    [13, 10] <+: pos.unread.drop (pos.te - 2).toNat ∧ Reads conf
      ⟨0, pos.data ++ pos.unread.take (pos.te - 2).toNat, (pos.unread.drop (pos.te - 2).toNat).drop 2⟩ pos' := by
  induction h using Relation.ReflTransGen.head_induction_on with
  | refl => omega
  | head hstep hreads ih =>
    cases hstep with
    | line hline => exact absurd hline.te (by omega)
    | data hlt =>
      rename_i te data unread c
      obtain ⟨hpre, hrest⟩ := ih (by simp only; omega)
      have hnat : (te - 2).toNat = (te - 1 - 2).toNat + 1 := by omega
      simp only [hnat, take_succ_cons, drop_succ_cons] at hpre hrest ⊢
      rw [append_assoc] at hrest
      exact ⟨hpre, hrest⟩
    | crlf htwo hpre =>
      rw [htwo, show ((2 : Int) - 2).toNat = 0 from rfl]
      simp only [drop_zero, take_zero, append_nil]
      exact ⟨hpre, hreads⟩

end Position

end Osp.Lighttpd
