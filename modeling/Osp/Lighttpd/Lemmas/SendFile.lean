import Osp.Lighttpd.SendFile

/-!
# The headers of a file

The steps that set headers leave the write queue as it is.
-/

namespace Osp.Lighttpd

open Osp.Lib

@[simp] theorem queue_headerOverwrite (r : Response) (key value : Bytes) : (r.headerOverwrite key value).queue = r.queue := by
  unfold Response.headerOverwrite
  split <;> rfl

theorem queue_setContentType (r : Response) (st : FileStat) (allowCaching : Bool) : (setContentType r st allowCaching).1.queue = r.queue := by
  unfold setContentType
  split
  · rfl
  · split <;> exact queue_headerOverwrite _ _ _

theorem queue_setLastModified (r : Response) (st : FileStat) : (setLastModified (setEtag r st) st).1.queue = r.queue := by
  have hetag : (setEtag r st).queue = r.queue := by
    unfold setEtag
    split
    · exact queue_headerOverwrite _ _ _
    · rfl
  unfold setLastModified
  split
  · exact (queue_headerOverwrite _ _ _).trans hetag
  · exact hetag

theorem queue_prepareCaching {env : FileEnv} {r r' : Response} {st : FileStat} {allowCaching : Bool}
    (h : (∃ mtime, prepareCaching env r st allowCaching = .ok (r', mtime)) ∨ prepareCaching env r st allowCaching = .error r') :
    r'.queue = r.queue := by
  have hqueue := queue_setLastModified r st
  unfold prepareCaching at h
  cases allowCaching with
  | false =>
    rcases h with ⟨_, h⟩ | h
    · cases h
      rfl
    · cases h
  | true =>
    simp only [if_true] at h
    generalize setLastModified (setEtag r st) st = result at h hqueue
    obtain ⟨r₁, mtime₁⟩ := result
    split at h
    · rcases h with ⟨_, h⟩ | h
      · cases h
        exact hqueue
      · cases h
    · rcases h with ⟨_, h⟩ | h
      · cases h
      · cases h
        exact hqueue
    · rcases h with ⟨_, h⟩ | h
      · cases h
      · cases h
        exact hqueue

theorem queue_prepareHeaders {env : FileEnv} {r r' : Response} {st : FileStat}
    (h : (∃ mtime, prepareHeaders env r st = .ok (r', mtime)) ∨ prepareHeaders env r st = .error r') : r'.queue = r.queue := by
  have htype := queue_setContentType r st (r.httpStatus = 0 || r.httpStatus = 200)
  unfold prepareHeaders at h
  generalize setContentType r st (r.httpStatus = 0 || r.httpStatus = 200) = result at h htype
  refine (queue_prepareCaching h).trans ?_
  split
  · exact (queue_headerOverwrite _ _ _).trans htype
  · exact htype

/-! ## Samples -/

/-- What there is to know of a file with five bytes. -/
def fiveBytesStat : FileStat := ⟨5, by decide, false, true, [], [], []⟩

/-- A file system in which every file has five bytes. -/
def fiveBytes (forceLowercaseFilenames : Bool) : FileEnv where
  followSymlink := true
  rangeRequests := true
  forceLowercaseFilenames := forceLowercaseFilenames
  stat := fun _ => .ok fiveBytesStat
  openFstat := fun _ => some 5
  handleCachable := fun _ _ => none

/-- A response that nothing has been done for. -/
def emptyResponse : Response := ⟨0, [], [], -1, false, [], false, true⟩

end Osp.Lighttpd
