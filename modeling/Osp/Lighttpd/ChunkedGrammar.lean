import Osp.Lighttpd.ChunkedStream

/-!
# The grammar of chunked bodies

Chunked bodies as RFC 7230 has them: chunks with a size in hexadecimal digits, the last chunk, trailers and an empty line. What is in an
extension or in the trailers matters only as far as it ends the line or the body, so more is allowed there. The reading of a stream
that starts with a body gets to its last chunk with the data of the body.
-/

namespace Osp.Lighttpd

open Osp.Lib List

/-- The end of a line. -/
def crlf : Bytes := [13, 10]

/-- The number with further hexadecimal digits. -/
def hexValue (n : Nat) : Bytes → Nat
  | [] => n
  | c :: digits => hexValue (n * 16 + (hex2int c).getD 0) digits

/-- A size line: at least one digit, and an extension that begins with a semicolon, or blanks. -/
structure SizeLine where
  digits : Bytes
  ext : Bytes
  digits_ne_nil : digits ≠ []
  hex : ∀ c ∈ digits, (hex2int c).isSome = true
  ext_text : ∀ c ∈ ext, c ≠ 0 ∧ c ≠ 10 ∧ c ≠ 13
  ext_start : ∀ c ∈ (ext.dropWhile fun c => c = 32 || c = 9).head?, c = 59

namespace SizeLine

theorem ext_text_nil : ∀ c ∈ ([] : Bytes), c ≠ 0 ∧ c ≠ 10 ∧ c ≠ 13 := by simp

theorem ext_start_nil : ∀ c ∈ (([] : Bytes).dropWhile fun c => c = 32 || c = 9).head?, c = 59 := by simp

def size (line : SizeLine) : Nat := hexValue 0 line.digits

/-- What stands before the end of the line. -/
def text (line : SizeLine) : Bytes := line.digits ++ line.ext

def bytes (line : SizeLine) : Bytes := line.text ++ crlf

end SizeLine

/-- A chunk that is not the last. -/
structure DataChunk where
  line : SizeLine
  data : Bytes
  size_eq : line.size = data.length
  data_ne_nil : data ≠ []

def DataChunk.bytes (c : DataChunk) : Bytes := c.line.bytes ++ c.data ++ crlf

/-- A chunked body. The trailers are lines, none of which is empty: the first empty line is the one after them. -/
structure ChunkedBody where
  chunks : List DataChunk
  last : SizeLine
  last_size : last.size = 0
  trailers : Bytes
  trailers_nul : 0 ∉ trailers
  trailers_end : ∃ before, search crlfCrlf (crlf ++ trailers ++ crlf) = some (before, [])

namespace ChunkedBody

theorem trailers_nul_nil : 0 ∉ ([] : Bytes) := not_mem_nil

theorem trailers_end_nil : ∃ before, search crlfCrlf (crlf ++ [] ++ crlf) = some (before, []) := ⟨[], by decide⟩

/-- Lines that are not empty and hold no CR are trailers. -/
theorem trailers_end_of_lines {lines : List Bytes} (h : ∀ line ∈ lines, line ≠ [] ∧ 13 ∉ line) :
    ∃ before, search crlfCrlf (crlf ++ lines.flatMap (· ++ crlf) ++ crlf) = some (before, []) := by
  induction lines with
  | nil => exact trailers_end_nil
  | cons line lines ih =>
    obtain ⟨hne, hcr⟩ := h line mem_cons_self
    obtain ⟨before, hrest⟩ := ih fun line hline => h line (mem_cons_of_mem _ hline)
    obtain ⟨c, line, rfl⟩ := exists_cons_of_ne_nil hne
    have hbytes : crlf ++ ((c :: line) :: lines).flatMap (· ++ crlf) ++ crlf =
        13 :: (10 :: c :: line ++ (crlf ++ lines.flatMap (· ++ crlf) ++ crlf)) := by simp [crlf]
    have hno : ¬ crlfCrlf <+: 13 :: (10 :: c :: line ++ (crlf ++ lines.flatMap (· ++ crlf) ++ crlf)) := fun hpre => by
      simp_all [crlfCrlf, cons_prefix_cons]
    rw [hbytes, search, if_neg hno, crlfCrlf, search_append_of_notMem _ _ (by simpa using hcr), ← crlfCrlf, hrest]
    exact ⟨_, rfl⟩

/-- The content. -/
def data (body : ChunkedBody) : Bytes := body.chunks.flatMap DataChunk.data

/-- The last chunk with the trailers and the empty line. -/
def ending (body : ChunkedBody) : Bytes := body.last.bytes ++ body.trailers ++ crlf

def bytes (body : ChunkedBody) : Bytes := body.chunks.flatMap DataChunk.bytes ++ body.ending

/-- The body is within the limits on sizes, lines and the content. -/
structure Fits (conf : PostConf) (body : ChunkedBody) : Prop where
  size : ∀ c ∈ body.chunks, c.data.length + 2 < 2 ^ 63
  line : ∀ c ∈ body.chunks, c.line.bytes.length < 1024
  last : body.last.bytes.length < 1024
  total : conf.maxRequestSize ≠ 0 → body.data.length ≤ conf.maxRequestSize * 1024

end ChunkedBody

/-! ## Size lines -/

theorem le_hexValue (n : Nat) (digits : Bytes) : n ≤ hexValue n digits := by
  induction digits generalizing n with
  | nil => exact le_rfl
  | cons c digits ih => exact le_trans (by omega) (ih (n * 16 + (hex2int c).getD 0))

theorem readSize_digits {digits rest : Bytes} (n : Nat) (hhex : ∀ c ∈ digits, (hex2int c).isSome = true)
    (hrest : ∀ c ∈ rest.head?, hex2int c = none) (hlt : hexValue n digits < 2 ^ 63) :
    readSize n (digits ++ rest) = some ((hexValue n digits : Int), rest) := by
  induction digits generalizing n with
  | nil =>
    cases rest with
    | nil => rfl
    | cons c rest => simp [readSize, hexValue, hrest c rfl]
  | cons c digits ih =>
    obtain ⟨u, hu⟩ := Option.isSome_iff_exists.1 (hhex c mem_cons_self)
    rw [hexValue, hu, Option.getD_some] at hlt ⊢
    have hstep := (le_hexValue (n * 16 + u) digits).trans_lt hlt
    rw [cons_append, readSize, hu]
    simp only
    rw [if_neg (by omega)]
    exact_mod_cast ih (n * 16 + u) (fun c hc => hhex c (mem_cons_of_mem _ hc)) hlt

namespace SizeLine

variable (line : SizeLine)

theorem notMem_text {c : UInt8} (hhex : hex2int c = none) (hext : c = 0 ∨ c = 10 ∨ c = 13) : c ∉ line.text := by
  intro hmem
  rcases mem_append.1 hmem with hmem | hmem
  · simpa [hhex] using line.hex c hmem
  · have := line.ext_text c hmem
    rcases hext with rfl | rfl | rfl
    · exact this.1 rfl
    · exact this.2.1 rfl
    · exact this.2.2 rfl

theorem lineLength_append (more : Bytes) : lineLength (line.bytes ++ more) = some line.bytes.length := by
  have hnul : 0 ∉ line.text ++ [13, 10] := by
    simp [line.notMem_text (c := 0) (by decide) (.inl rfl)]
  have hlf : 10 ∉ line.text ++ [13] := by
    simp [line.notMem_text (c := 10) (by decide) (.inr (.inl rfl))]
  have hline : search [10] (line.text ++ [13] ++ [10]) = some (line.text ++ [13], []) := search_singleton hlf
  have hsearch := search_append hline (cString more)
  rw [lineLength, bytes, crlf, cString_append_of_notMem hnul]
  simp only [append_assoc, cons_append, nil_append] at hsearch ⊢
  simp [hsearch]

/-- The extension begins with a byte that is not a digit. -/
theorem hex2int_head? (more : Bytes) : ∀ c ∈ (line.ext ++ (crlf ++ more)).head?, hex2int c = none := by
  have hstart := line.ext_start
  cases hext : line.ext with
  | nil =>
    rintro c ⟨⟩
    decide
  | cons c ext =>
    rintro d ⟨⟩
    rw [hext] at hstart
    by_cases hblank : (c = 32 || c = 9) = true
    · have hcases : c = 32 ∨ c = 9 := by simpa using hblank
      rcases hcases with rfl | rfl <;> decide
    · rw [dropWhile_cons, if_neg hblank] at hstart
      rw [hstart c rfl]
      decide

theorem lineSize_append (h : line.size < 2 ^ 63) (more : Bytes) : lineSize (line.bytes ++ more) = some (line.size : Int) := by
  have hread := readSize_digits 0 line.hex (line.hex2int_head? more) h
  have hbytes : line.bytes ++ more = line.digits ++ (line.ext ++ (crlf ++ more)) := by simp [bytes, text]
  rw [lineSize, hbytes, show (0 : Int) = (0 : Nat) from rfl, hread]
  simp only
  rw [if_pos, size]
  rw [dropWhile_append]
  split
  · exact .inl rfl
  · rename_i hne
    have hne : line.ext.dropWhile (fun c => c = 32 || c = 9) ≠ [] := by simpa using hne
    rw [List.head?_append_of_ne_nil _ hne, List.head?_eq_some_head hne]
    exact .inr (congrArg some (line.ext_start _ (by rw [List.head?_eq_some_head hne]; rfl)))

/-- A size line that is not too long is read. -/
theorem hasLine (hsize : line.size < 2 ^ 63) (hlength : line.bytes.length < 1024) (data more : Bytes) :
    (⟨0, data, line.bytes ++ more⟩ : Position).HasLine line.bytes.length line.size :=
  ⟨rfl, line.lineLength_append more, hlength, line.lineSize_append hsize more⟩

end SizeLine

/-! ## Bodies -/

namespace DataChunk

variable {conf : PostConf} (c : DataChunk)

theorem reads (hsize : c.data.length + 2 < 2 ^ 63) (hlength : c.line.bytes.length < 1024) (data more : Bytes)
    (htotal : conf.maxRequestSize ≠ 0 → data.length + c.data.length ≤ conf.maxRequestSize * 1024) :
    Position.Reads conf ⟨0, data, c.bytes ++ more⟩ ⟨0, data ++ c.data, more⟩ := by
  have hne : (c.line.size : Int) ≠ 0 := by
    rw [c.size_eq]
    exact_mod_cast fun h => c.data_ne_nil (length_eq_zero_iff.1 h)
  have hlarge : Post.tooLarge conf c.line.size data.length = false := by
    simp only [Post.tooLarge, c.size_eq, decide_eq_false_iff_not, not_and, not_or]
    intro hmax
    omega
  have hline := c.line.hasLine (by rw [c.size_eq]; omega) hlength data (c.data ++ (crlf ++ more))
  have hte : offT (c.line.size + 2) = c.data.length + 2 := by
    rw [c.size_eq, offT, Int.bmod_def]
    split <;> omega
  have hbytes : c.bytes ++ more = c.line.bytes ++ (c.data ++ (crlf ++ more)) := by simp [bytes]
  rw [hbytes]
  refine .head (.line hline hne hlarge) ?_
  have hreads : Position.Reads conf ⟨c.data.length + 2, data, c.data ++ (crlf ++ more)⟩ _ :=
    Position.reads_chunk (k := c.data.length) (by simp) (by rw [drop_left]; exact prefix_append _ _)
  simp only [drop_left, take_left] at hreads
  simp only [hte, drop_left]
  exact hreads

end DataChunk

namespace ChunkedBody

variable {conf : PostConf} {body : ChunkedBody}

/-- The chunks of a body that are left are read. -/
theorem reads_chunks (chunks : List DataChunk) (data more : Bytes) (hsize : ∀ c ∈ chunks, c.data.length + 2 < 2 ^ 63)
    (hline : ∀ c ∈ chunks, c.line.bytes.length < 1024)
    (htotal : conf.maxRequestSize ≠ 0 → (data ++ chunks.flatMap DataChunk.data).length ≤ conf.maxRequestSize * 1024) :
    Position.Reads conf ⟨0, data, chunks.flatMap DataChunk.bytes ++ more⟩ ⟨0, data ++ chunks.flatMap DataChunk.data, more⟩ := by
  induction chunks generalizing data with
  | nil =>
    simp only [flatMap_nil, nil_append, append_nil]
    exact .refl
  | cons c chunks ih =>
    rw [flatMap_cons, flatMap_cons, ← append_assoc, append_assoc (DataChunk.bytes c)]
    rw [flatMap_cons, ← append_assoc] at htotal
    refine Relation.ReflTransGen.trans (c.reads (hsize c mem_cons_self) (hline c mem_cons_self) data _ fun hmax => ?_)
      (ih (data ++ c.data) (fun c hc => hsize c (mem_cons_of_mem _ hc)) (fun c hc => hline c (mem_cons_of_mem _ hc)) htotal)
    have := htotal hmax
    simp only [length_append] at this
    omega

/-- A stream that starts with a body is read up to the last chunk. -/
theorem Fits.reads (h : body.Fits conf) (more : Bytes) :
    Position.Reads conf ⟨0, [], body.bytes ++ more⟩ ⟨0, body.data, body.ending ++ more⟩ := by
  rw [bytes, append_assoc]
  exact reads_chunks body.chunks [] _ h.size h.line h.total

/-- The body ends after its last chunk, the trailers and the empty line. -/
theorem Fits.endsAfter (h : body.Fits conf) (data more : Bytes) :
    (⟨0, data, body.ending ++ more⟩ : Position).EndsAfter body.ending.length := by
  obtain ⟨before, hsearch⟩ := body.trailers_end
  have hending : body.ending ++ more = body.last.bytes ++ (body.trailers ++ crlf ++ more) := by simp [ending]
  have hline := body.last.hasLine (by rw [body.last_size]; norm_num) h.last data (body.trailers ++ crlf ++ more)
  rw [body.last_size, ← hending] at hline
  refine ⟨_, hline, ?_⟩
  have hlength : body.last.bytes.length = body.last.text.length + 2 := by simp [SizeLine.bytes, crlf]
  have hdrop : (body.ending ++ more).drop (body.last.bytes.length - 2) = crlf ++ body.trailers ++ crlf ++ more := by
    rw [hlength, Nat.add_sub_cancel]
    simp [ending, SizeLine.bytes]
  have hnul : 0 ∉ crlf ++ body.trailers ++ crlf := by simp [crlf, body.trailers_nul]
  rw [trailersEnd, hdrop, cString_append_of_notMem hnul, search_append hsearch]
  have hbefore := congrArg List.length (search_eq_append hsearch)
  simp only [length_append, crlf, crlfCrlf, length_cons, length_nil] at hbefore
  simp only [Option.map_some, ending, hlength, length_append, crlf, length_cons, length_nil, Option.some.injEq]
  omega

end ChunkedBody

end Osp.Lighttpd
