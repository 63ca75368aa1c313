import Osp.Lighttpd.Lemmas.Path
import Osp.Lighttpd.Lemmas.SendFile
import Osp.Lighttpd.Prepare
import Osp.Lighttpd.Xsendfile

/-!
# Files stay under their roots

The path that is made of a request target has no component `..`, nor has the path of a file that a backend names, which is under one of
the roots. The first is empty if the target has no path. With `force_lowercase_filenames` the second is under a root up to case.
-/

namespace Osp.Lighttpd

open Osp.Lib List

/-! ## Paths -/

theorem toLower_eq_slash {c : UInt8} : toLower c = 47 ↔ c = 47 := by
  unfold toLower
  grind

theorem toLower_eq_dot {c : UInt8} : toLower c = 46 ↔ c = 46 := by
  unfold toLower
  grind

theorem toLower_toLower (c : UInt8) : toLower (toLower c) = toLower c := by
  unfold toLower
  grind

theorem firstSegment_map_toLower (l : Bytes) : firstSegment 47 (l.map toLower) = (firstSegment 47 l).map toLower := by
  rw [firstSegment, firstSegment, takeWhile_map]
  congr 2
  funext c
  simp [toLower_eq_slash]

/-- Letters in lower case do not make dots. -/
theorem NoDotDot.map_toLower {path : Bytes} (h : NoDotDot path) : NoDotDot (path.map toLower) := by
  rintro rest ⟨before, hbefore⟩
  obtain ⟨before', rest', rfl, -, hrest⟩ := map_eq_append_iff.1 hbefore.symm
  obtain ⟨c, rest', rfl, hc, rfl⟩ := map_eq_cons_iff.1 hrest
  obtain rfl := toLower_eq_slash.1 hc
  rw [firstSegment_map_toLower]
  intro hdots
  refine h rest' (suffix_append _ _) ?_
  obtain ⟨a, l, ha, ha46, hl⟩ := map_eq_cons_iff.1 hdots
  obtain ⟨b, l', hb, hb46, hl'⟩ := map_eq_cons_iff.1 hl
  rw [ha, hb, map_eq_nil_iff.1 hl', toLower_eq_dot.1 ha46, toLower_eq_dot.1 hb46]

theorem urldecodeLoop_eq_nil {src : Bytes} (h : urldecodeLoop false 0 src = []) : src = [] := by
  cases src with
  | nil => rfl
  | cons c src =>
    rw [urldecodeLoop, if_neg (by simp), if_neg (by simp)] at h
    split at h <;> cases h

/-- What a path is after decoding and simplifying. -/
theorem simplified_of_decode {pathRaw : Bytes} (h : cString pathRaw ≠ []) : Simplified (pathSimplify (urldecodePath pathRaw)) :=
  simplified_pathSimplify fun hnil => h (urldecodeLoop_eq_nil hnil)

theorem decode_of_empty {pathRaw : Bytes} (h : cString pathRaw = []) : pathSimplify (urldecodePath pathRaw) = [] := by
  rw [urldecodePath, h]
  rfl

theorem noDotDot_decode (pathRaw : Bytes) : NoDotDot (pathSimplify (urldecodePath pathRaw)) := by
  by_cases h : cString pathRaw = []
  · rw [decode_of_empty h]
    exact afterEach_nil
  · exact (simplified_of_decode h).cleanPath.noDotDot

/-! ## Request targets -/

variable {normalize : Option UrlFlags} {method : HttpMethod} {uri : Bytes} {u : Uri}

theorem path_of_decodePath {pathRaw query : Bytes} (h : decodePath pathRaw query = .uri u) :
    u.path = pathSimplify (urldecodePath u.pathRaw) := by
  cases h
  rfl

theorem path_prepareUri (hmethod : method ≠ .connect) (htarget : cString uri ≠ [42]) (h : prepareUri normalize method uri = .uri u) :
    u.path = pathSimplify (urldecodePath u.pathRaw) := by
  unfold prepareUri at h
  rw [if_neg (by simp [hmethod, htarget])] at h
  split at h
  · unfold splitNormalized at h
    split at h
    · cases h
    · split at h
      · cases h
      · split at h
        · exact path_of_decodePath h
        · split at h
          · cases h
          · exact path_of_decodePath h
  · unfold splitTarget at h
    simp only at h
    split at h
    · exact path_of_decodePath h
    · exact path_of_decodePath h

/-- A path without `..` after the document root. -/
theorem physicalPath_eq {docRoot path : Bytes} (lower : Bool) (hpath : path.head? = some 47 ∨ path = []) (h : NoDotDot path) :
    ∃ components, physicalPath docRoot (relPath lower path) = appendSlash docRoot ++ components ∧ NoDotDot (47 :: components) := by
  have hrel : NoDotDot (relPath lower path) := by
    unfold relPath
    split
    · exact h.map_toLower
    · exact h
  rcases hpath with hhead | rfl
  · have hhead' : (relPath lower path).head? = some 47 := by
      unfold relPath
      split
      · rw [List.head?_map, hhead]
        rfl
      · exact hhead
    refine ⟨(relPath lower path).tail, by rw [physicalPath, if_pos hhead'], ?_⟩
    rwa [cons_head?_tail hhead']
  · have hnil : relPath lower [] = [] := by cases lower <;> rfl
    refine ⟨[], by rw [hnil]; rfl, ?_⟩
    exact afterEach_cons_self.2 ⟨by simp [firstSegment], afterEach_nil⟩

/-! ## Files of a backend -/

/-- A path under one of the roots, up to case if file names are in lower case, and without `..`. -/
structure Confined (env : FileEnv) (roots : List Bytes) (path : Bytes) : Prop where
  root : ∃ root ∈ roots, (if env.forceLowercaseFilenames then root.map toLower else root) <+: path
  noDotDot : NoDotDot path

/-- Every file that has been appended to the write queue has the property. -/
def AppendsOnly (P : Bytes → Prop) (r r' : Response) : Prop :=
  ∃ pieces, r'.queue = r.queue ++ pieces ∧ ∀ name start length, Piece.file name start length ∈ pieces → P name

namespace AppendsOnly

variable {P : Bytes → Prop} {r r' r'' : Response}

theorem of_queue (h : r'.queue = r.queue) : AppendsOnly P r r' := ⟨[], by simpa using h, by simp⟩

theorem trans (h : AppendsOnly P r r') (h' : AppendsOnly P r' r'') : AppendsOnly P r r'' := by
  obtain ⟨pieces, hq, hpieces⟩ := h
  obtain ⟨pieces', hq', hpieces'⟩ := h'
  refine ⟨pieces ++ pieces', by rw [hq', hq, append_assoc], fun name start length hmem => ?_⟩
  rcases mem_append.1 hmem with hmem | hmem
  · exact hpieces name start length hmem
  · exact hpieces' name start length hmem

/-- What is done besides the write queue does not matter. -/
theorem congr (h : AppendsOnly P r r') (hq : r''.queue = r'.queue) : AppendsOnly P r r'' := h.trans (of_queue hq)

theorem appendBuffer (r : Response) (data : Bytes) : AppendsOnly P r (r.appendBuffer data) := by
  unfold Response.appendBuffer
  split
  · exact of_queue rfl
  · exact ⟨[.mem data], rfl, by simp⟩

theorem appendFile {path : Bytes} (hpath : P path) (r : Response) (start length : Int) : AppendsOnly P r (r.appendFile path start length) := by
  unfold Response.appendFile
  split
  · exact of_queue rfl
  · refine ⟨[.file path start length], rfl, fun name start' length' hmem => ?_⟩
    simp only [mem_singleton, Piece.file.injEq] at hmem
    rw [hmem.1]
    exact hpath

end AppendsOnly

@[simp] theorem queue_resetContentLength (r : Response) : (resetContentLength r).queue = r.queue := by
  unfold resetContentLength
  split <;> rfl

@[simp] theorem queue_endSendfile (status : Nat) (r : Response) : (endSendfile status r).queue = r.queue := by
  unfold endSendfile
  split
  · rfl
  · split <;> rfl

section

variable {P : Bytes → Prop} {path : Bytes}

theorem appendsOnly_rangeAppend (hpath : P path) (st : RangeState) (contentType : Bytes) (size start last : Int) (comma : Bool) :
    AppendsOnly P st.response (st.append path contentType size start last comma).response := by
  unfold RangeState.append
  simp only
  split
  · exact (AppendsOnly.appendBuffer st.response _).trans ((AppendsOnly.appendFile hpath (Response.addContentLength _ _) _ _).congr rfl)
  · exact (AppendsOnly.appendFile hpath _ _ _).congr rfl

theorem appendsOnly_rangeLoop (hpath : P path) (contentType : Bytes) (size : Int) (fuel : Nat) (s : Bytes) (st : RangeState) :
    AppendsOnly P st.response (rangeLoop path contentType size fuel s st).2.response := by
  induction fuel generalizing s st with
  | zero => exact .of_queue rfl
  | succ fuel ih =>
    rw [rangeLoop]
    split
    · exact .of_queue rfl
    · exact .of_queue rfl
    · exact .of_queue rfl
    · exact (appendsOnly_rangeAppend hpath st _ _ _ _ _).trans (ih _ _)

theorem appendsOnly_parseRange (hpath : P path) (r : Response) (size : Nat) (range : Bytes) :
    AppendsOnly P r (parseRange r path size range).2 := by
  have hloop := appendsOnly_rangeLoop hpath ((r.headers.getElement (textBytes "Content-Type")).getD []) size (range.length + 1) range
    ⟨false, 0, size - 1, { r with contentLength := 0 }⟩
  unfold parseRange
  simp only
  generalize rangeLoop _ _ _ _ _ _ = result at hloop
  obtain ⟨ok, st⟩ := result
  cases ok with
  | false => exact hloop
  | true =>
    simp only
    split
    · exact (hloop.trans (AppendsOnly.appendBuffer st.response boundaryEnd)).congr (queue_headerOverwrite _ _ _)
    · exact hloop.congr rfl

theorem appendsOnly_sendBody (hpath : P path) (env : FileEnv) (request : Headers) (r : Response) (st : FileStat) (mtime : Option Bytes) :
    AppendsOnly P r (sendBody env request r path st mtime) := by
  unfold sendBody
  split
  · rename_i range _
    have hparse := appendsOnly_parseRange hpath { r with fileFinished := true } st.size range
    split
    · rename_i hresult
      rw [hresult] at hparse
      exact (AppendsOnly.of_queue rfl).trans (hparse.congr rfl)
    · rename_i hresult
      rw [hresult] at hparse
      exact (AppendsOnly.of_queue rfl).trans hparse
  · split
    · exact .of_queue rfl
    · unfold chunkAppendFile
      split
      · rename_i hopen
        split at hopen
        · cases hopen
        · cases hopen
          exact (AppendsOnly.appendFile hpath _ _ _).congr rfl
      · rename_i hopen
        split at hopen
        · cases hopen
          exact .of_queue rfl
        · cases hopen

/-- A file that is sent is the one that is named. -/
theorem appendsOnly_sendFile (hpath : P path) (env : FileEnv) (request : Headers) (r : Response) :
    AppendsOnly P r (sendFile env request r path) := by
  unfold sendFile
  split
  · exact .of_queue rfl
  · exact .of_queue rfl
  · split
    · exact .of_queue rfl
    · split
      · exact .of_queue rfl
      · split
        · rename_i hheaders
          exact .of_queue (queue_prepareHeaders (.inr hheaders))
        · rename_i hheaders
          exact (AppendsOnly.of_queue (queue_prepareHeaders (.inl ⟨_, hheaders⟩))).trans (appendsOnly_sendBody hpath _ _ _ _ _)

end

section

variable {env : FileEnv} {roots : List Bytes}

theorem noDotDot_sendfilePath (name : Bytes) : NoDotDot (sendfilePath env name) := by
  unfold sendfilePath
  split
  · exact (noDotDot_decode name).map_toLower
  · exact noDotDot_decode name

/-- A path that passes the test is under a root. -/
theorem confined_sendfilePath {name : Bytes} (hroots : roots ≠ []) (h : underDocroot env roots (sendfilePath env name) = true) :
    Confined env roots (sendfilePath env name) := by
  refine ⟨?_, noDotDot_sendfilePath name⟩
  have hempty : roots.isEmpty = false := by simpa using hroots
  rw [underDocroot, hempty, Bool.false_or, any_eq_true] at h
  obtain ⟨root, hmem, h⟩ := h
  refine ⟨root, hmem, ?_⟩
  simp only [Bool.and_eq_true] at h
  obtain ⟨-, h⟩ := h
  by_cases hlower : env.forceLowercaseFilenames = true
  · rw [if_pos hlower] at h ⊢
    have hpath : (sendfilePath env name).map toLower = sendfilePath env name := by
      simp only [sendfilePath, if_pos hlower, map_map]
      exact map_congr_left fun c _ => toLower_toLower c
    have heq : ((sendfilePath env name).take root.length).map toLower = root.map toLower := by simpa [startsWith] using h
    rw [← heq, map_take, hpath]
    exact take_prefix _ _
  · rw [if_neg hlower] at h ⊢
    have heq : root = (sendfilePath env name).take root.length := by simpa using h
    rw [heq]
    exact take_prefix _ _

theorem appendsOnly_xsendfile (hroots : roots ≠ []) (request : Headers) (r : Response) (value : Bytes) :
    AppendsOnly (Confined env roots) r (xsendfile env request roots r value) := by
  refine AppendsOnly.congr ?_ (queue_endSendfile _ _)
  split
  · rename_i hunder
    exact (AppendsOnly.of_queue (queue_resetContentLength r)).trans (appendsOnly_sendFile (confined_sendfilePath hroots hunder) env request _)
  · exact .of_queue (queue_resetContentLength r)

theorem appendsOnly_chunkAppendFileRange {P : Bytes → Prop} {path : Bytes} (env : FileEnv) (hpath : P path) (r : Response) (offset length : Int) :
    AppendsOnly P r (chunkAppendFileRange env r path offset length).2 := by
  unfold chunkAppendFileRange
  split
  · exact .of_queue rfl
  · split
    · split
      · exact .of_queue rfl
      · exact .appendFile hpath _ _ _
    · split
      · exact .of_queue rfl
      · exact .appendFile hpath _ _ _

/-- The response after an entry, whether or not the loop goes on. -/
def entryResponse : Except Response (Response × Bytes) → Response
  | .error r => r
  | .ok (r, _) => r

theorem appendsOnly_xsendfile2Entry (env : FileEnv) (hroots : roots ≠ []) (r : Response) (pos : Bytes) :
    AppendsOnly (Confined env roots) r (entryResponse (xsendfile2Entry env roots r pos)) := by
  unfold xsendfile2Entry
  split
  · exact .of_queue rfl
  · simp only
    split
    · exact .of_queue rfl
    · rename_i hunder
      split
      · exact .of_queue rfl
      · split
        · exact .of_queue rfl
        · split
          · exact .of_queue rfl
          · rename_i first last _
            split
            · exact .of_queue rfl
            · split
              · exact .of_queue rfl
              · have happend := appendsOnly_chunkAppendFileRange env (confined_sendfilePath hroots (by simpa using hunder)) r first
                  ((last - first + 1).bmod (2 ^ 64))
                split
                · rename_i hresult
                  rw [hresult] at happend
                  exact happend
                · rename_i hresult
                  rw [hresult] at happend
                  exact happend.congr rfl

theorem appendsOnly_xsendfile2Loop (hroots : roots ≠ []) (fuel : Nat) (r : Response) (pos : Bytes) :
    AppendsOnly (Confined env roots) r (xsendfile2Loop env roots fuel r pos) := by
  induction fuel generalizing r pos with
  | zero => exact .of_queue rfl
  | succ fuel ih =>
    rw [xsendfile2Loop]
    split
    · exact .of_queue rfl
    · rename_i c rest _
      have hentry := appendsOnly_xsendfile2Entry env hroots r (c :: rest)
      split
      · rename_i hresult
        rw [hresult] at hentry
        exact hentry
      · rename_i hresult
        rw [hresult] at hentry
        exact hentry.trans (ih _ _)

theorem appendsOnly_xsendfile2 (hroots : roots ≠ []) (r : Response) (value : Bytes) :
    AppendsOnly (Confined env roots) r (xsendfile2 env roots r value) :=
  (AppendsOnly.of_queue (queue_resetContentLength r)).trans
    ((appendsOnly_xsendfile2Loop hroots _ _ _).congr (queue_endSendfile _ _))

end

/-! ## The result -/

/-- What the path of a target is: it has no component `..`, and it begins with a slash unless the target has no path. The path in the
file system is the document root followed by components that are not `..`. -/
structure ConfinedUri (docRoot : Bytes) (lower : Bool) (u : Uri) : Prop where
  noDotDot : NoDotDot u.path
  head : u.path.head? = some 47 ∨ (cString u.pathRaw = [] ∧ u.path = [])
  physical : ∃ components, physicalPath docRoot (relPath lower u.path) = appendSlash docRoot ++ components ∧ NoDotDot (47 :: components)

theorem confinedUri_prepareUri (docRoot : Bytes) (lower : Bool) (hmethod : method ≠ .connect) (htarget : cString uri ≠ [42])
    (h : prepareUri normalize method uri = .uri u) : ConfinedUri docRoot lower u := by
  have hpath := path_prepareUri hmethod htarget h
  have hdots : NoDotDot u.path := hpath ▸ noDotDot_decode u.pathRaw
  have hhead : u.path.head? = some 47 ∨ (cString u.pathRaw = [] ∧ u.path = []) := by
    rw [hpath]
    by_cases hempty : cString u.pathRaw = []
    · exact .inr ⟨hempty, decode_of_empty hempty⟩
    · exact .inl (simplified_of_decode hempty).head?
  exact ⟨hdots, hhead, physicalPath_eq lower (hhead.imp_right And.right) hdots⟩

/-- The files that a request or a backend names are under their roots. -/
theorem files_confined (normalize : Option UrlFlags) (method : HttpMethod) (uri : Bytes) (u : Uri) (docRoot : Bytes) (env : FileEnv)
    (request : Headers) (roots : List Bytes) (r : Response) (value : Bytes) :
    (method ≠ .connect → cString uri ≠ [42] → prepareUri normalize method uri = .uri u →
      ConfinedUri docRoot env.forceLowercaseFilenames u) ∧
    (roots ≠ [] → AppendsOnly (Confined env roots) r (xsendfile env request roots r value) ∧
      AppendsOnly (Confined env roots) r (xsendfile2 env roots r value)) :=
  ⟨fun hmethod htarget h => confinedUri_prepareUri _ _ hmethod htarget h,
    fun hroots => ⟨appendsOnly_xsendfile hroots request r value, appendsOnly_xsendfile2 hroots r value⟩⟩

theorem files_confined_dots :
    ConfinedUri (textBytes "/www") false ⟨textBytes "/%2e%2e/a", textBytes "/a", textBytes "x"⟩ ∧
    (let r := xsendfile (fiveBytes false) [] [textBytes "/srv/"] emptyResponse (textBytes "/srv/%2e%2e/srv/a");
      r.queue = [.file (textBytes "/srv/a") 0 5] ∧ AppendsOnly (Confined (fiveBytes false) [textBytes "/srv/"]) emptyResponse r) ∧
    (let r := xsendfile2 (fiveBytes false) [textBytes "/srv/"] emptyResponse (textBytes "/srv/%2e%2e/srv/a 1-3");
      r.queue = [.file (textBytes "/srv/a") 1 3] ∧ AppendsOnly (Confined (fiveBytes false) [textBytes "/srv/"]) emptyResponse r) := by
  have hprepare : prepareUri none .get (textBytes "/%2e%2e/a?x") =
      .uri ⟨textBytes "/%2e%2e/a", textBytes "/a", textBytes "x"⟩ := by decide
  have hresult := files_confined none .get (textBytes "/%2e%2e/a?x") ⟨textBytes "/%2e%2e/a", textBytes "/a", textBytes "x"⟩
    (textBytes "/www") (fiveBytes false) [] [textBytes "/srv/"] emptyResponse
  exact ⟨(hresult []).1 (by decide) (by decide) hprepare, ⟨by decide, ((hresult _).2 (by simp)).1⟩, by decide, ((hresult _).2 (by simp)).2⟩

/-- A target without a path, which is accepted unless the header is parsed strictly, has an empty path. And with
`force_lowercase_filenames` a file may be sent that is under a root only up to case. -/
theorem not_confined_exactly :
    (requestTarget ⟨false, false, true, some⟩ .get (textBytes "?x") = some (textBytes "?x", none) ∧
      prepareUri none .get (textBytes "?x") = .uri ⟨[], [], textBytes "x"⟩) ∧
    ((xsendfile (fiveBytes true) [] [textBytes "/Srv/"] emptyResponse (textBytes "/srv/a")).queue = [.file (textBytes "/srv/a") 0 5] ∧
      ¬ textBytes "/Srv/" <+: textBytes "/srv/a") :=
  ⟨⟨by decide, by decide⟩, by decide, by decide⟩

end Osp.Lighttpd
