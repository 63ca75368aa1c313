import Osp.Lib.Segments
import Osp.Lighttpd.Path

/-!
# Simplified paths

What `buffer_path_simplify` writes is a list of components, none of which is empty, `.` or `..`, each after a slash, and perhaps a slash.
-/

namespace Osp.Lighttpd

open Osp.Lib List

/-- A component that stays when a path is simplified. -/
structure Component (segment : Bytes) : Prop where
  ne_nil : segment ≠ []
  slash : 47 ∉ segment
  ne_dot : segment ≠ [46]
  ne_dotdot : segment ≠ [46, 46]

/-- What a path without empty segments, `.` and `..` has after a slash; the last segment may be empty. -/
structure CleanAfter (rest : Bytes) : Prop where
  ne_dot : firstSegment 47 rest ≠ [46]
  ne_dotdot : firstSegment 47 rest ≠ [46, 46]
  empty : firstSegment 47 rest = [] → rest = []

/-- The path has no empty segment, other than the last one, and no segment `.` or `..`. -/
def CleanPath : Bytes → Prop := AfterEach 47 CleanAfter

/-- The path has no segment `..`. -/
def NoDotDot : Bytes → Prop := AfterEach 47 fun rest => firstSegment 47 rest ≠ [46, 46]

variable {out path rest s src token : Bytes} {segments : List Bytes} {c : UInt8}

theorem CleanPath.noDotDot (h : CleanPath path) : NoDotDot path := h.imp fun _ hafter => hafter.ne_dotdot

/-- Components, each after a slash, and perhaps a slash. -/
inductive Simplified : Bytes → Prop
  | slash {segments : List Bytes} : (∀ s ∈ segments, Component s) → Simplified (joinSegments 47 segments ++ [47])
  | components {segments : List Bytes} {s : Bytes} : (∀ s ∈ segments, Component s) → Component s →
    Simplified (joinSegments 47 segments ++ 47 :: s)

theorem Component.cleanAfter (h : Component s) (hs : firstSegment 47 rest = s) : CleanAfter rest := by
  subst hs
  exact ⟨h.ne_dot, h.ne_dotdot, fun hnil => absurd hnil h.ne_nil⟩

theorem cleanPath_joinSegments (h : ∀ s ∈ segments, Component s)
    (hrest : CleanPath (47 :: rest)) : CleanPath (joinSegments 47 segments ++ 47 :: rest) := by
  induction segments with
  | nil => exact hrest
  | cons s segments ih =>
    have hs := h s mem_cons_self
    have ih := ih fun s hs => h s (mem_cons_of_mem _ hs)
    rw [joinSegments, flatMap_cons, cons_append, cons_append, append_assoc]
    refine afterEach_cons_self.2 ⟨hs.cleanAfter ?_, (afterEach_append_of_notMem hs.slash).2 ih⟩
    cases segments <;> exact firstSegment_append_cons hs.slash

theorem Simplified.cleanPath (h : Simplified path) : CleanPath path := by
  cases h with
  | slash hsegments =>
    refine cleanPath_joinSegments hsegments (afterEach_cons_self.2 ⟨⟨?_, ?_, fun _ => rfl⟩, afterEach_nil⟩) <;> simp [firstSegment]
  | components hsegments hs =>
    refine cleanPath_joinSegments hsegments (afterEach_cons_self.2 ⟨hs.cleanAfter (firstSegment_of_notMem hs.slash), ?_⟩)
    exact fun rest hrest => absurd (hrest.mem mem_cons_self) hs.slash

theorem Simplified.head? (h : Simplified path) : path.head? = some 47 := by
  cases h with
  | @slash segments _ => cases segments <;> rfl
  | @components segments _ _ _ => cases segments <;> rfl

/-! ## The loop -/

theorem dropComponent_append (h : 47 ∉ s) : dropComponent (out ++ 47 :: s) = out := by
  have hall : ∀ c ∈ s.reverse, decide (c ≠ 47) = true := fun c hc =>
    decide_eq_true fun heq => h (heq ▸ mem_reverse.1 hc)
  rw [dropComponent, reverse_append, reverse_cons, append_assoc, dropWhile_append_of_pos hall]
  simp

theorem dropComponent_joinSegments (h : ∀ s ∈ segments, Component s) :
    ∃ segments', (∀ s ∈ segments', Component s) ∧ dropComponent (joinSegments 47 segments) = joinSegments 47 segments' := by
  rcases eq_nil_or_concat segments with rfl | ⟨segments, s, rfl⟩
  · exact ⟨[], h, rfl⟩
  · refine ⟨segments, fun s hs => h s (by simp [hs]), ?_⟩
    have hs := h s (by simp)
    rw [concat_eq_append, joinSegments, flatMap_append, flatMap_singleton, dropComponent_append hs.slash]
    rfl

/-- A token is a slash and a part of a component. -/
def Token (token : Bytes) : Prop := ∃ s, token = 47 :: s ∧ 47 ∉ s

theorem endToken_inner (h : ∀ s ∈ segments, Component s) (htoken : Token token) :
    ∃ segments', (∀ s ∈ segments', Component s) ∧ endToken (joinSegments 47 segments) token false = joinSegments 47 segments' := by
  obtain ⟨s, rfl, hs⟩ := htoken
  unfold endToken
  split
  · simpa using dropComponent_joinSegments h
  · split
    · exact ⟨segments, h, by simp⟩
    · rename_i hdotdot hdot
      simp only [List.cons.injEq, true_and, not_or] at hdotdot hdot
      refine ⟨segments ++ [s], ?_, by simp [joinSegments]⟩
      simp only [mem_append, mem_singleton]
      rintro s' (hs' | rfl)
      · exact h s' hs'
      · exact ⟨hdot.1, hs, hdot.2, hdotdot⟩

theorem endToken_last (h : ∀ s ∈ segments, Component s) (htoken : Token token) :
    Simplified (endToken (joinSegments 47 segments) token true) := by
  obtain ⟨s, rfl, hs⟩ := htoken
  unfold endToken
  split
  · obtain ⟨segments', h', heq⟩ := dropComponent_joinSegments h
    rw [heq]
    exact .slash h'
  · split
    · exact .slash h
    · rename_i hdotdot hdot
      simp only [List.cons.injEq, true_and, not_or] at hdotdot hdot
      exact .components h ⟨hdot.1, hs, hdot.2, hdotdot⟩

/-- The loop from within a path: at the slash before a component, or within a token. -/
theorem simplified_simplifyLoop (h : ∀ s ∈ segments, Component s) (hsrc : src ≠ [])
    (htoken : (token = [] ∧ src.head? = some 47) ∨ (Token token ∧ src.head? ≠ some 47)) :
    Simplified (simplifyLoop (joinSegments 47 segments) token src) := by
  induction src generalizing segments token with
  | nil => exact absurd rfl hsrc
  | cons c src ih =>
    have htoken' : Token (token ++ [c]) := by
      rcases htoken with ⟨rfl, hc⟩ | ⟨⟨s, rfl, hs⟩, hc⟩
      · exact ⟨[], by simpa using hc, by simp⟩
      · exact ⟨s ++ [c], by simp, by simpa [hs, eq_comm] using hc⟩
    rw [simplifyLoop]
    by_cases hnil : src = []
    · subst hnil
      simpa [simplifyLoop] using endToken_last h htoken'
    · by_cases hslash : src.head? = some 47
      · rw [if_pos (.inl hslash)]
        obtain ⟨segments', h', heq⟩ := endToken_inner h htoken'
        simp only [hnil, decide_false]
        rw [heq]
        exact ih h' hnil (.inl ⟨rfl, hslash⟩)
      · rw [if_neg (by simp [hslash, hnil])]
        exact ih h hnil (.inr ⟨htoken', hslash⟩)

/-- A path that is not empty is simplified. -/
theorem simplified_pathSimplify (h : src ≠ []) : Simplified (pathSimplify src) := by
  rw [pathSimplify, if_neg h]
  generalize (cString src).dropWhile (· = 32) = src
  have hnil : ∀ s ∈ ([] : List Bytes), Component s := by simp
  simp only
  split
  · rename_i hhead
    exact simplified_simplifyLoop hnil (by rintro rfl; simp at hhead) (.inl ⟨rfl, hhead⟩)
  · rename_i hhead
    by_cases hsrc : src = []
    · subst hsrc
      exact .slash hnil
    · exact simplified_simplifyLoop hnil hsrc (.inr ⟨⟨[], rfl, by simp⟩, hhead⟩)

/-! ## A stack of components

The loop takes components back out of what it has written. It writes what a stack of the components gives.
-/

/-- The components after a segment. -/
def resolve (stack : List Bytes) (s : Bytes) : List Bytes :=
  if s = [46, 46] then stack.dropLast else if s = [] ∨ s = [46] then stack else stack ++ [s]

/-- The path of the components that segments lead to. It ends with a slash if the last segment is not a component. -/
def resolved (stack segments : List Bytes) : Bytes :=
  joinSegments 47 (segments.foldl resolve stack) ++ if ∃ s ∈ segments.getLast?, s ∈ [[], [46], [46, 46]] then [47] else []

variable {stack : List Bytes}

theorem dropComponent_eq_dropLast (h : ∀ s ∈ stack, 47 ∉ s) : dropComponent (joinSegments 47 stack) = joinSegments 47 stack.dropLast := by
  rcases eq_nil_or_concat stack with rfl | ⟨stack, s, rfl⟩
  · rfl
  · rw [concat_eq_append, dropLast_concat, joinSegments, flatMap_append, flatMap_singleton, dropComponent_append (h s (by simp))]
    rfl

theorem endToken_eq (h : ∀ s ∈ stack, 47 ∉ s) (atEnd : Bool) :
    endToken (joinSegments 47 stack) (47 :: s) atEnd =
      joinSegments 47 (resolve stack s) ++ if atEnd ∧ s ∈ [[], [46], [46, 46]] then [47] else [] := by
  have hjoin : joinSegments 47 (stack ++ [s]) = joinSegments 47 stack ++ 47 :: s := by simp [joinSegments]
  unfold endToken resolve
  split_ifs <;> simp_all [dropComponent_eq_dropLast h]

theorem notMem_of_mem_resolve (h : ∀ s ∈ stack, 47 ∉ s) (hs : 47 ∉ s) : ∀ s' ∈ resolve stack s, 47 ∉ s' := by
  unfold resolve
  split_ifs
  · exact fun s' hs' => h s' (mem_of_mem_dropLast hs')
  · exact h
  · simpa [or_imp, forall_and] using ⟨h, hs⟩

theorem resolved_splitOn (hs : 47 ∉ s) : resolved stack ((s ++ 47 :: src).splitOn 47) = resolved (resolve stack s) (src.splitOn 47) := by
  obtain ⟨s', segments, hsplit⟩ := exists_cons_of_ne_nil (splitOn_ne_nil 47 src)
  simp [resolved, splitOn_append_cons_self_of_not_mem hs, hsplit]

/-- The loop at a character that ends the part of a token that is a slash and `s`. -/
theorem simplifyLoop_eq (h : ∀ s ∈ stack, 47 ∉ s) (hs : 47 ∉ s) (htoken : token ++ [c] = 47 :: s) :
    simplifyLoop (joinSegments 47 stack) token (c :: src) = resolved stack ((s ++ src).splitOn 47) := by
  induction src generalizing stack token c s with
  | nil => simp [endToken_eq h, simplifyLoop, htoken, resolved, splitOn_eq_singleton hs]
  | cons d src ih =>
    rw [simplifyLoop, htoken]
    -- the token ends before a slash
    by_cases hd : d = 47
    · subst hd
      rw [if_pos (.inl rfl), endToken_eq h, resolved_splitOn hs]
      simpa using ih (notMem_of_mem_resolve h hs) not_mem_nil rfl
    · rw [if_neg (by simpa using hd), append_cons]
      exact ih h (by simp [hs, Ne.symm hd]) rfl

/-- `buffer_path_simplify` writes the path that the segments between the slashes lead to. -/
theorem pathSimplify_eq_resolved (src : Bytes) :
    pathSimplify src = if src = [] then [] else resolved [] (((cString src).dropWhile (· = 32)).splitOn 47) := by
  have hnil : ∀ s ∈ ([] : List Bytes), 47 ∉ s := by simp
  rw [pathSimplify]
  generalize (cString src).dropWhile (· = 32) = path
  split
  · rfl
  · rcases path with _ | ⟨c, path⟩
    · rfl
    · by_cases hc : c = 47
      · subst hc
        exact (@simplifyLoop_eq [] path [] 47 [] hnil not_mem_nil rfl).trans (resolved_splitOn not_mem_nil).symm
      · refine (if_neg (by simpa using hc)).trans ?_
        exact @simplifyLoop_eq [c] path [47] c [] hnil (by simpa [eq_comm] using hc) rfl

/-! ## The characters of a simplified path -/

theorem subset_endToken {atEnd : Bool} (h : c ∈ endToken out token atEnd) :
    c ∈ out ∨ c ∈ token ∨ c = 47 := by
  have hdrop : ∀ c ∈ dropComponent out, c ∈ out := fun c hc =>
    mem_reverse.1 ((dropWhile_suffix _).subset (mem_of_mem_drop (mem_reverse.1 hc)))
  unfold endToken at h
  split at h
  · rcases mem_append.1 h with h | h
    · exact .inl (hdrop c h)
    · cases atEnd <;> simp_all
  · split at h
    · rcases mem_append.1 h with h | h
      · exact .inl h
      · cases atEnd <;> simp_all
    · rcases mem_append.1 h with h | h
      · exact .inl h
      · exact .inr (.inl h)

theorem subset_simplifyLoop (h : c ∈ simplifyLoop out token src) :
    c ∈ out ∨ c ∈ token ∨ c ∈ src ∨ c = 47 := by
  induction src generalizing out token with
  | nil =>
    rcases mem_append.1 h with h | h
    · exact .inl h
    · exact .inr (.inl h)
  | cons d src ih =>
    rw [simplifyLoop] at h
    split at h
    · rcases ih h with h | h | h | h
      · rcases subset_endToken h with h | h | h
        · exact .inl h
        · simp only [mem_append, mem_singleton] at h
          simp only [mem_cons]
          tauto
        · exact .inr (.inr (.inr h))
      · exact absurd h not_mem_nil
      · exact .inr (.inr (.inl (mem_cons_of_mem _ h)))
      · exact .inr (.inr (.inr h))
    · have := ih h
      simp only [mem_append, mem_cons, not_mem_nil, or_false] at this ⊢
      tauto

theorem subset_pathSimplify (h : c ∈ pathSimplify src) : c ∈ src ∨ c = 47 := by
  have hsub : ∀ c ∈ (cString src).dropWhile (· = 32), c ∈ src := fun c hc =>
    (prefix_cString src).subset ((dropWhile_suffix _).subset hc)
  unfold pathSimplify at h
  split at h
  · exact absurd h not_mem_nil
  · simp only at h
    split at h
    · have := subset_simplifyLoop h
      simp only [not_mem_nil, false_or] at this
      exact this.imp_left (hsub c)
    · have := subset_simplifyLoop h
      simp only [not_mem_nil, false_or, mem_singleton] at this
      rcases this with h | h | h
      · exact .inr h
      · exact .inl (hsub c h)
      · exact .inr h

end Osp.Lighttpd
