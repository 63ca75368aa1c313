import Osp.Lighttpd.Lemmas.Chunk
import Osp.Lighttpd.ReadState

/-!
# Where the scan for the end of a header stops

`headerEnd` is the length of the shortest prefix that ends in an empty line. The scan over chunks finds that position, wherever the
chunks are cut, with one exception: after two LF in one chunk it goes on with the chunks that follow, and a header end in them wins
(`Overruns`).
-/

namespace Osp.Lighttpd

open Osp.Lib List

variable {expected bytes header c : Bytes} {chunks pieces : List Bytes} {r : Nat × Nat} {n : Nat}

/-! ## The end of a header -/

/-- The bytes end in an empty line: CRLFCRLF or LFLF. -/
def EndsHeader (bytes : Bytes) : Prop := [13, 10, 13, 10] <:+ bytes ∨ [10, 10] <:+ bytes

instance (bytes : Bytes) : Decidable (EndsHeader bytes) :=
  inferInstanceAs (Decidable ([13, 10, 13, 10] <:+ bytes ∨ [10, 10] <:+ bytes))

/-- The shortest prefix that ends in an empty line. -/
structure IsHeader (bytes header : Bytes) : Prop where
  isPrefix : header <+: bytes
  ends : EndsHeader header
  shortest : ∀ other, other <+: bytes → EndsHeader other → header.length ≤ other.length

theorem IsHeader.unique {header' : Bytes} (h : IsHeader bytes header) (h' : IsHeader bytes header') : header = header' :=
  (prefix_of_prefix_length_le h.isPrefix h'.isPrefix (h.shortest _ h'.isPrefix h'.ends)).eq_of_length_le
    (h'.shortest _ h.isPrefix h.ends)

/-- The length of the header in some bytes. -/
def headerEnd : Bytes → Option Nat
  | [] => none
  | c :: bytes =>
    if c = 13 ∧ afterCr <+: bytes then some 4
    else if c = 10 ∧ bytes.head? = some 10 then some 2
    else (headerEnd bytes).map (· + 1)

theorem two_le_length (h : EndsHeader bytes) : 2 ≤ bytes.length := by
  rcases h with h | h
  · exact le_trans (by decide) h.length_le
  · exact h.length_le

theorem endsHeader_cons {a : UInt8} :
    EndsHeader (a :: bytes) ↔ a :: bytes = [13, 10, 13, 10] ∨ a :: bytes = [10, 10] ∨ EndsHeader bytes := by
  simp only [EndsHeader, suffix_cons_iff]
  constructor
  · rintro ((h | h) | (h | h))
    · exact .inl h.symm
    · exact .inr (.inr (.inl h))
    · exact .inr (.inl h.symm)
    · exact .inr (.inr (.inr h))
  · rintro (h | h | h | h)
    · exact .inl (.inl h.symm)
    · exact .inr (.inl h.symm)
    · exact .inl (.inr h)
    · exact .inr (.inr h)

/-- The two ends of a header are the shortest ones at the byte they start with; elsewhere the first byte does not matter. -/
theorem isHeader_take_headerEnd :
    (∀ n, headerEnd bytes = some n → IsHeader bytes (bytes.take n) ∧ n ≤ bytes.length) ∧
      (headerEnd bytes = none → ∀ header, header <+: bytes → ¬ EndsHeader header) := by
  induction bytes with
  | nil =>
    refine ⟨by simp [headerEnd], fun _ header hpre hends => ?_⟩
    rw [prefix_nil.1 hpre] at hends
    exact absurd (two_le_length hends) (by decide)
  | cons a bytes ih =>
    rw [headerEnd]
    split_ifs with hcr hlf
    · obtain ⟨rfl, rest, rfl⟩ := hcr
      refine ⟨?_, by nofun⟩
      rintro _ ⟨⟩
      refine ⟨⟨ take_prefix _ _, .inl (by simp [afterCr]), fun other hpre hends => ?_⟩, by simp [afterCr]⟩
      by_contra hlt
      have hother := prefix_iff_eq_take.1 hpre
      have hlen : other.length = 2 ∨ other.length = 3 := by
        have := two_le_length hends
        simp [afterCr] at hlt
        omega
      rcases hlen with hlen | hlen
      · rw [hlen] at hother
        obtain rfl : other = [13, 10] := hother
        exact absurd hends (by decide)
      · rw [hlen] at hother
        obtain rfl : other = [13, 10, 13] := hother
        exact absurd hends (by decide)
    · obtain ⟨rfl, hhead⟩ := hlf
      obtain ⟨rest, rfl⟩ := List.head?_eq_some_iff.1 hhead
      refine ⟨?_, by nofun⟩
      rintro _ ⟨⟩
      refine ⟨⟨ take_prefix _ _, .inr (by simp), fun other hpre hends => ?_⟩, by simp⟩
      simpa using two_le_length hends
    · -- neither end starts here
      have hcons (other : Bytes) (hpre : other <+: a :: bytes) (hends : EndsHeader other) :
          ∃ tail, other = a :: tail ∧ tail <+: bytes ∧ EndsHeader tail := by
        rcases prefix_cons_iff.1 hpre with rfl | ⟨tail, rfl, hrest⟩
        · exact absurd (two_le_length hends) (by decide)
        refine ⟨tail, rfl, hrest, ?_⟩
        rcases endsHeader_cons.1 hends with h | h | h
        · obtain ⟨rfl, rfl⟩ := List.cons.inj h
          exact absurd ⟨rfl, hrest⟩ hcr
        · obtain ⟨rfl, rfl⟩ := List.cons.inj h
          obtain ⟨rest, rfl⟩ := hrest
          exact absurd ⟨rfl, rfl⟩ hlf
        · exact h
      refine ⟨fun n hn => ?_, fun hnone header hpre hends => ?_⟩
      · obtain ⟨m, hm, rfl⟩ := Option.map_eq_some_iff.1 hn
        obtain ⟨hheader, hle⟩ := ih.1 m hm
        refine ⟨⟨ take_prefix _ _, ?_, fun other hpre hends => ?_⟩, by simpa using hle⟩
        · exact endsHeader_cons.2 (.inr (.inr hheader.ends))
        · obtain ⟨tail, rfl, hrest, htail⟩ := hcons other hpre hends
          simpa [hle] using hheader.shortest tail hrest htail
      · obtain ⟨tail, rfl, hrest, htail⟩ := hcons header hpre hends
        exact ih.2 (by simpa using hnone) tail hrest htail

theorem headerEnd_eq_some : headerEnd bytes = some n ↔ IsHeader bytes (bytes.take n) ∧ n ≤ bytes.length := by
  constructor
  · exact isHeader_take_headerEnd.1 n
  · rintro ⟨hheader, hle⟩
    cases hend : headerEnd bytes with
    | none => exact absurd hheader.ends (isHeader_take_headerEnd.2 hend _ hheader.isPrefix)
    | some m =>
      obtain ⟨hheader', hle'⟩ := isHeader_take_headerEnd.1 m hend
      have hlength := congrArg List.length (hheader.unique hheader')
      simp only [length_take, Nat.min_eq_left hle, Nat.min_eq_left hle'] at hlength
      rw [hlength]

theorem headerEnd_of_isHeader (h : IsHeader bytes header) : headerEnd bytes = some header.length :=
  headerEnd_eq_some.2 ⟨by rwa [← prefix_iff_eq_take.1 h.isPrefix], h.isPrefix.length_le⟩

theorem not_isHeader_of_headerEnd (h : headerEnd bytes = none) (header : Bytes) : ¬ IsHeader bytes header :=
  fun hheader => absurd hheader.ends (isHeader_take_headerEnd.2 h _ hheader.isPrefix)

theorem two_le_headerEnd (h : headerEnd bytes = some n) : 2 ≤ n := by
  obtain ⟨hheader, hle⟩ := headerEnd_eq_some.1 h
  simpa [Nat.min_eq_left hle] using two_le_length hheader.ends

/-! ## Positions -/

/-- The number of bytes before a position that is given by the number of a piece and the offset in it. -/
def locate (pieces : List Bytes) (r : Nat × Nat) : Nat := (pieces.take r.1).flatten.length + r.2

/-- The position is in the pieces. -/
def Within (pieces : List Bytes) (r : Nat × Nat) : Prop := ∃ c, pieces[r.1]? = some c ∧ r.2 ≤ c.length

@[simp] theorem locate_zero (k : Nat) : locate (c :: pieces) (0, k) = k := by simp [locate]

@[simp] theorem locate_succ (r : Nat × Nat) : locate (c :: pieces) (r.1 + 1, r.2) = c.length + locate pieces r := by
  simp [locate, Nat.add_assoc]

@[simp] theorem within_zero (k : Nat) : Within (c :: pieces) (0, k) ↔ k ≤ c.length := by simp [Within]

@[simp] theorem within_succ : Within (c :: pieces) (r.1 + 1, r.2) ↔ Within pieces r := by simp [Within]

theorem locate_le (h : Within pieces r) : locate pieces r ≤ pieces.flatten.length := by
  obtain ⟨k, offset⟩ := r
  induction pieces generalizing k with
  | nil =>
    obtain ⟨_, h, _⟩ := h
    simp at h
  | cons c pieces ih =>
    cases k with
    | zero =>
      have hle : offset ≤ c.length := (within_zero offset).1 h
      rw [locate_zero, flatten_cons, length_append]
      omega
    | succ k =>
      have hle := ih k (within_succ.1 h)
      rw [locate_succ (k, offset), flatten_cons, length_append]
      omega

/-! ## The inner loops -/

/-- Matching goes on in the next chunk exactly if the bytes of this one all match. -/
theorem matchChunk_cases (hne : expected ≠ []) (j : Nat) (bytes : Bytes) :
    (expected <+: bytes ∧ matchChunk expected j bytes = .found (j + expected.length)) ∨
      (∃ rest, rest ≠ [] ∧ expected = bytes ++ rest ∧ matchChunk expected j bytes = .more rest) ∨
      ((∀ more, ¬ expected <+: bytes ++ more) ∧ matchChunk expected j bytes = .mismatch) := by
  induction bytes generalizing expected j with
  | nil => exact .inr (.inl ⟨expected, hne, rfl, by simp [matchChunk]⟩)
  | cons ch bytes ih =>
    obtain ⟨e, rest, rfl⟩ := exists_cons_of_ne_nil hne
    by_cases hch : ch = e
    · subst hch
      by_cases hrest : rest = []
      · subst hrest
        exact .inl ⟨by simp, by simp [matchChunk]⟩
      · simp only [matchChunk, if_true, if_neg hrest, cons_append, prefix_cons_inj, List.cons.injEq, true_and,
          length_cons]
        rcases ih hrest (j + 1) with ⟨hpre, h⟩ | h | h
        · exact .inl ⟨hpre, by rw [h]; congr 1; omega⟩
        · exact .inr (.inl h)
        · exact .inr (.inr h)
    · refine .inr (.inr ⟨fun more h => hch ?_, by simp [matchChunk, hch]⟩)
      exact ((cons_prefix_cons.1 h).1).symm

/-- The bytes after a CR at the given place of a chunk; the chunks after it are matched from their beginning. -/
theorem matchFrom_cases {expected : Bytes} (hne : expected ≠ []) (before bytes : Bytes) (chunks : List Bytes) :
    (∃ r, matchFrom expected before.length bytes chunks = some r ∧ expected <+: bytes ++ chunks.flatten ∧
      locate ((before ++ bytes) :: chunks) r = before.length + expected.length ∧ Within ((before ++ bytes) :: chunks) r) ∨
    (matchFrom expected before.length bytes chunks = none ∧ ¬ expected <+: bytes ++ chunks.flatten) := by
  rw [matchFrom]
  rcases matchChunk_cases hne before.length bytes with ⟨hpre, h⟩ | ⟨rest, hrest, rfl, h⟩ | ⟨hmismatch, h⟩
  · refine .inl ⟨(0, before.length + expected.length), by simp [h], hpre.trans (prefix_append _ _), by simp, ?_⟩
    rw [within_zero, length_append]
    exact Nat.add_le_add_left hpre.length_le _
  · rw [h]
    simp only [prefix_append_right_inj]
    cases chunks with
    | nil => exact .inr ⟨rfl, by simpa using hrest⟩
    | cons b chunks =>
      rcases matchFrom_cases hrest [] b chunks with ⟨r, hr, hpre, hlocate, hwithin⟩ | ⟨hnone, hpre⟩
      · replace hr : matchChunks rest (b :: chunks) = some r := hr
        exact .inl ⟨(r.1 + 1, r.2), by simp [hr], hpre, by simp_all [Nat.add_assoc], within_succ.2 hwithin⟩
      · replace hnone : matchChunks rest (b :: chunks) = none := hnone
        exact .inr ⟨by simp [hnone], hpre⟩
  · exact .inr ⟨by simp [h], hmismatch _⟩

theorem matchLf_cases (pieces : List Bytes) :
    (∃ r, matchLf pieces = some r ∧ pieces.flatten.head? = some 10 ∧ locate pieces r = 1 ∧ Within pieces r) ∨
    (matchLf pieces = none ∧ pieces.flatten.head? ≠ some 10) := by
  induction pieces with
  | nil => exact .inr ⟨rfl, by simp⟩
  | cons b pieces ih =>
    cases b with
    | nil =>
      rcases ih with ⟨r, hr, hhead, hlocate, hwithin⟩ | ⟨hnone, hhead⟩
      · exact .inl ⟨(r.1 + 1, r.2), by simp [matchLf, hr], by simpa using hhead, by simp [hlocate], within_succ.2 hwithin⟩
      · exact .inr ⟨by simp [matchLf, hnone], by simpa using hhead⟩
    | cons ch b =>
      by_cases hch : ch = 10
      · exact .inl ⟨(0, 1), by simp [matchLf, hch], by simp [hch], by simp, by simp⟩
      · exact .inr ⟨by simp [matchLf, hch], by simp [hch]⟩

/-! ## The scan of a chunk -/

/-- What the scan of the bytes of a chunk says about the end of the header. -/
inductive Scanned (before bytes : Bytes) (chunks : List Bytes) : ScanEnd → Prop
  | crlf {r : Nat × Nat} {n : Nat} : headerEnd (bytes ++ chunks.flatten) = some n →
    [13, 10, 13, 10] <:+ (bytes ++ chunks.flatten).take n → locate ((before ++ bytes) :: chunks) r = before.length + n →
    Within ((before ++ bytes) :: chunks) r → Scanned before bytes chunks (.found r)
  | lf {r : Nat × Nat} : headerEnd (bytes ++ chunks.flatten) = some (bytes.length + 1) →
    locate ((before ++ bytes) :: chunks) r = before.length + bytes.length + 1 → Within ((before ++ bytes) :: chunks) r →
    Scanned before bytes chunks (.found r)
  | leave {n : Nat} : headerEnd (bytes ++ chunks.flatten) = some n → n ≤ bytes.length → [10, 10] <:+ bytes.take n →
    Scanned before bytes chunks (.leave (before.length + n))
  | none : headerEnd (bytes ++ chunks.flatten) = (headerEnd chunks.flatten).map (bytes.length + ·) →
    Scanned before bytes chunks .none

/-- A byte at which no end of the header starts may be put before the bytes. -/
theorem Scanned.cons {before : Bytes} {ch : UInt8} {result : ScanEnd} (h : Scanned (before ++ [ch]) bytes chunks result)
    (hend : headerEnd (ch :: (bytes ++ chunks.flatten)) = (headerEnd (bytes ++ chunks.flatten)).map (· + 1)) :
    Scanned before (ch :: bytes) chunks result := by
  have hbefore : before ++ [ch] ++ bytes = before ++ ch :: bytes := by simp
  cases h with
  | crlf hsome hsuffix hlocate hwithin =>
    rw [hbefore] at hlocate hwithin
    refine .crlf (by rw [cons_append, hend, hsome]; rfl) ?_ (by rw [hlocate]; simp; omega) hwithin
    exact hsuffix.trans (suffix_cons _ _)
  | lf hsome hlocate hwithin =>
    rw [hbefore] at hlocate hwithin
    exact .lf (by rw [cons_append, hend, hsome]; rfl) (by rw [hlocate]; simp; omega) hwithin
  | leave hsome hle hsuffix =>
    rw [length_append, length_singleton, Nat.add_assoc, Nat.add_comm 1]
    exact .leave (by rw [cons_append, hend, hsome]; rfl) (by simpa using hle) (hsuffix.trans (suffix_cons _ _))
  | none hnone =>
    refine .none ?_
    rw [cons_append, hend, hnone]
    cases headerEnd chunks.flatten with
    | none => rfl
    | some n => simp; omega

theorem scanned_scanChunk (before bytes : Bytes) (chunks : List Bytes) :
    Scanned before bytes chunks (scanChunk chunks before.length bytes) := by
  induction bytes generalizing before with
  | nil => exact .none (by simp)
  | cons ch bytes ih =>
    have hnext : Scanned (before ++ [ch]) bytes chunks (scanChunk chunks (before.length + 1) bytes) := by
      simpa using ih (before ++ [ch])
    have hbefore : before ++ [ch] ++ bytes = before ++ ch :: bytes := by simp
    rw [scanChunk]
    by_cases h13 : ch = 13
    · subst h13
      have hmatch := matchFrom_cases (show afterCr ≠ [] by decide) (before ++ [13]) bytes chunks
      simp only [length_append, length_singleton, hbefore] at hmatch
      rcases hmatch with ⟨r, hr, hpre, hlocate, hwithin⟩ | ⟨hnone, hpre⟩
      · simp only [hr]
        refine .crlf (n := 4) (by simp [headerEnd, hpre]) ?_ (by rw [hlocate]; simp [afterCr]) hwithin
        obtain ⟨rest, hrest⟩ := hpre
        simp [← hrest, afterCr]
      · simp only [hnone]
        exact hnext.cons (by simp [headerEnd, hpre])
    · by_cases h10 : ch = 10
      · subst h10
        cases bytes with
        | nil =>
          rcases matchLf_cases chunks with ⟨r, hr, hhead, hlocate, hwithin⟩ | ⟨hnone, hhead⟩
          · simp only [hr]
            refine .lf (by simp [headerEnd, hhead]) (by simp [hlocate]) (within_succ.2 hwithin)
          · simp only [hnone]
            exact hnext.cons (by simp [headerEnd, hhead])
        | cons d bytes =>
          simp only [List.head?_cons]
          by_cases hd : d = 10
          · rw [if_pos hd]
            exact .leave (by simp [headerEnd, hd]) (by simp) (by simp [hd])
          · rw [if_neg hd]
            exact hnext.cons (by simp [headerEnd, hd])
      · rw [if_neg h13, if_neg h10]
        exact hnext.cons (by simp [headerEnd, h13, h10])

/-! ## The scan of the chunks -/

/-- The header ends with two LF that are in one piece, and there is an empty line in the pieces after it. -/
def Overruns (pieces : List Bytes) : Prop :=
  ∃ before c after offset, pieces = before ++ c :: after ∧ offset ≤ c.length ∧ [10, 10] <:+ c.take offset ∧
    IsHeader pieces.flatten (before.flatten ++ c.take offset) ∧ ∃ header, IsHeader after.flatten header

theorem isHeader_of_append (h : IsHeader (c ++ bytes) (c ++ header)) (hends : EndsHeader header) : IsHeader bytes header where
  isPrefix := (prefix_append_right_inj c).1 h.isPrefix
  ends := hends
  shortest other hpre hother := by
    have hother : EndsHeader (c ++ other) := hother.imp (·.trans (suffix_append _ _)) (·.trans (suffix_append _ _))
    simpa using h.shortest (c ++ other) ((prefix_append_right_inj c).2 hpre) hother

theorem not_lfLf_of_crlf (hcrlf : [13, 10, 13, 10] <:+ bytes) : ¬ [10, 10] <:+ bytes := by
  intro hlf
  exact absurd (suffix_of_suffix_length_le hlf hcrlf (by decide)) (by decide)

theorem Overruns.lfLf (h : Overruns pieces) (hend : headerEnd pieces.flatten = some n) : [10, 10] <:+ pieces.flatten.take n := by
  obtain ⟨before, c, after, offset, rfl, _, hsuffix, hheader, _⟩ := h
  rw [← hheader.unique (headerEnd_eq_some.1 hend).1]
  exact hsuffix.trans (suffix_append _ _)

/-- The same in terms of positions, by cases on the first piece. -/
theorem overruns_cons (hend : headerEnd (c ++ pieces.flatten) = some n) :
    Overruns (c :: pieces) ↔
      (n ≤ c.length ∧ [10, 10] <:+ c.take n ∧ ∃ header, IsHeader pieces.flatten header) ∨
      (∃ m, n = c.length + m ∧ headerEnd pieces.flatten = some m ∧ Overruns pieces) := by
  have hheader := (headerEnd_eq_some.1 hend).1
  constructor
  · rintro ⟨before, c', after, offset, hpieces, hle, hsuffix, hheader', hafter⟩
    have hn : n = before.flatten.length + offset := by
      have := hend.symm.trans (headerEnd_of_isHeader hheader')
      simpa [Nat.min_eq_left hle] using this
    cases before with
    | nil =>
      obtain ⟨rfl, rfl⟩ := List.cons.inj hpieces
      obtain rfl : n = offset := by simpa using hn
      exact .inl ⟨hle, hsuffix, hafter⟩
    | cons b before =>
      obtain ⟨rfl, rfl⟩ := List.cons.inj hpieces
      have hrest : IsHeader (before ++ c' :: after).flatten (before.flatten ++ c'.take offset) := by
        refine isHeader_of_append (c := c) ?_ (.inr (hsuffix.trans (suffix_append _ _)))
        simpa using hheader'
      refine .inr ⟨before.flatten.length + offset, by simpa [Nat.add_assoc] using hn, ?_, ?_⟩
      · simpa [Nat.min_eq_left hle] using headerEnd_of_isHeader hrest
      · exact ⟨before, c', after, offset, rfl, hle, hsuffix, hrest, hafter⟩
  · rintro (⟨hle, hsuffix, hafter⟩ | ⟨m, rfl, hm, before, c', after, offset, rfl, hle, hsuffix, hheader', hafter⟩)
    · refine ⟨[], c, pieces, n, rfl, hle, hsuffix, ?_, hafter⟩
      simpa [take_append_of_le_length hle] using hheader
    · refine ⟨c :: before, c', after, offset, rfl, hle, hsuffix, ?_, hafter⟩
      have htake : (c ++ (before ++ c' :: after).flatten).take (c.length + m) = c ++ (before.flatten ++ c'.take offset) := by
        rw [take_length_add_append, hheader'.unique (headerEnd_eq_some.1 hm).1]
      rw [htake] at hheader
      simpa using hheader

theorem overruns_nil_cons : Overruns ([] :: pieces) ↔ Overruns pieces := by
  constructor
  · rintro ⟨before, c, after, offset, hpieces, hle, hsuffix, hheader, hafter⟩
    cases before with
    | nil =>
      obtain ⟨rfl, -⟩ := List.cons.inj hpieces
      simp at hsuffix
    | cons b before =>
      obtain ⟨rfl, rfl⟩ := List.cons.inj hpieces
      exact ⟨before, c, after, offset, rfl, hle, hsuffix, hheader, hafter⟩
  · rintro ⟨before, c, after, offset, rfl, h⟩
    exact ⟨[] :: before, c, after, offset, rfl, h⟩

/-- The scan finds an end of the header if there is one: the right one, or a later one if it overruns. -/
theorem scanChunks_cases (k : Nat) (last : Option (Nat × Nat)) (pieces : List Bytes) :
    (headerEnd pieces.flatten = none ∧ scanChunks k last pieces = last) ∨
      (∃ n r, headerEnd pieces.flatten = some n ∧ scanChunks k last pieces = some (k + r.1, r.2) ∧ Within pieces r ∧
        n ≤ locate pieces r ∧ (locate pieces r = n ↔ ¬ Overruns pieces)) := by
  induction pieces generalizing k last with
  | nil => exact .inl ⟨rfl, rfl⟩
  | cons c pieces ih =>
    have hscan := scanned_scanChunk [] c pieces
    rw [flatten_cons, scanChunks]
    generalize scanChunk pieces 0 c = result at hscan
    cases hscan with
    | crlf hend hsuffix hlocate hwithin =>
      rename_i r n
      simp only [length_nil, nil_append, Nat.zero_add] at hlocate hwithin
      refine .inr ⟨n, r, hend, rfl, hwithin, hlocate.ge, iff_of_true hlocate ?_⟩
      rw [overruns_cons hend]
      rintro (⟨hle, hlf, _⟩ | ⟨m, rfl, hm, hoverruns⟩)
      · rw [take_append_of_le_length hle] at hsuffix
        exact not_lfLf_of_crlf hsuffix hlf
      · rw [take_length_add_append] at hsuffix
        exact not_lfLf_of_crlf hsuffix ((hoverruns.lfLf hm).trans (suffix_append _ _))
    | lf hend hlocate hwithin =>
      rename_i r
      simp only [length_nil, nil_append, Nat.zero_add] at hlocate hwithin
      refine .inr ⟨c.length + 1, r, hend, rfl, hwithin, hlocate.ge, iff_of_true hlocate ?_⟩
      rw [overruns_cons hend]
      rintro (⟨hle, _⟩ | ⟨m, hn, hm, _⟩)
      · omega
      · have := two_le_headerEnd hm
        omega
    | leave hend hle hsuffix =>
      rename_i n
      simp only [length_nil, Nat.zero_add]
      rcases ih (k + 1) (some (k, n)) with ⟨hnone, hscan⟩ | ⟨m, r, hm, hscan, hwithin, hmle, _⟩
      · refine .inr ⟨n, (0, n), hend, by simpa using hscan, (within_zero n).2 hle, by simp, iff_of_true (by simp) ?_⟩
        rw [overruns_cons hend]
        rintro (⟨_, _, header, hheader⟩ | ⟨m, _, hm, _⟩)
        · exact not_isHeader_of_headerEnd hnone header hheader
        · exact absurd (hnone.symm.trans hm) (by nofun)
      · have h2 := two_le_headerEnd hm
        have hlocate : locate (c :: pieces) (r.1 + 1, r.2) = c.length + locate pieces r := locate_succ r
        refine .inr ⟨n, (r.1 + 1, r.2), hend, by rw [hscan, Nat.add_assoc, Nat.add_comm 1], within_succ.2 hwithin, by omega,
          iff_of_false (by omega) ?_⟩
        rw [not_not, overruns_cons hend]
        exact .inl ⟨hle, hsuffix, _, (headerEnd_eq_some.1 hm).1⟩
    | none hend =>
      rcases ih (k + 1) last with ⟨hnone, hscan⟩ | ⟨m, r, hm, hscan, hwithin, hmle, hiff⟩
      · exact .inl ⟨by rw [hend, hnone]; rfl, hscan⟩
      · have h2 := two_le_headerEnd hm
        have hlocate : locate (c :: pieces) (r.1 + 1, r.2) = c.length + locate pieces r := locate_succ r
        have hend : headerEnd (c ++ pieces.flatten) = some (c.length + m) := by rw [hend, hm]; rfl
        refine .inr ⟨c.length + m, (r.1 + 1, r.2), hend, by rw [hscan, Nat.add_assoc, Nat.add_comm 1], within_succ.2 hwithin,
          by omega, ?_⟩
        rw [hlocate, Nat.add_left_cancel_iff, hiff, overruns_cons hend, not_iff_not]
        constructor
        · exact fun h => .inr ⟨m, rfl, hm, h⟩
        · rintro (⟨hle, _⟩ | ⟨m', hm', _, h⟩)
          · omega
          · exact h

/-! ## The copy -/

/-- The copy takes the bytes before the position and leaves the others. -/
theorem copyHeader_eq (chunks : List Chunk) (k offset : Nat) (h : Within (chunks.map Chunk.unread) (k, offset)) :
    let n := locate (chunks.map Chunk.unread) (k, offset)
    (copyHeader k offset chunks).1 = (chunks.flatMap Chunk.unread).take n ∧
      (copyHeader k offset chunks).2.flatMap Chunk.unread = (chunks.flatMap Chunk.unread).drop n := by
  dsimp only
  induction chunks generalizing k with
  | nil => obtain ⟨_, h, _⟩ := h; simp at h
  | cons c chunks ih =>
    cases k with
    | zero =>
      have hle : offset ≤ c.unread.length := (within_zero offset).1 h
      simp [copyHeader, take_append_of_le_length hle, drop_append_of_le_length hle]
    | succ k =>
      obtain ⟨hheader, hrest⟩ := ih k (within_succ.1 h)
      rw [map_cons, locate_succ (k, offset)]
      simp only [copyHeader, hheader, flatMap_cons, hrest, Chunk.unread_skip, ← Chunk.length_unread, drop_length, nil_append,
        take_length_add_append, drop_length_add_append, true_and]

end Osp.Lighttpd
