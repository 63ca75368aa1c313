import Osp.Freeradius.Pairmove

/-!
# Moving pairs conserves them

`pairmove` keeps the order of what it leaves and of what it moves, and touches only attributes that `from` names. It loses the nodes that
it copied if the next node that is not copied is moved, and deletes nodes that it has moved before.
-/

namespace Osp.Freeradius

open List

variable {δ : Type} {p : Bool} {i : PairNode δ} {source : List (PairNode δ)} {m : Moving δ} {q : PairNode δ → Bool} {x : Nat}

/-- Where the nodes of a list are. -/
def places (l : List (PairNode δ)) : List Nat := l.map PairNode.place

@[simp] theorem places_append (l l' : List (PairNode δ)) : places (l ++ l') = places l ++ places l' := map_append

@[simp] theorem places_cons (i : PairNode δ) (l : List (PairNode δ)) : places (i :: l) = i.place :: places l := rfl

@[simp] theorem places_nil : places ([] : List (PairNode δ)) = [] := rfl

theorem places_overwrite (i : PairNode δ) (l : List (PairNode δ)) : places (overwrite i l) <+ places l := by
  induction l with
  | nil => exact Sublist.refl _
  | cons found l ih =>
    rw [overwrite]
    split
    · exact (filter_sublist.map PairNode.place).cons_cons found.place
    · exact ih.cons_cons found.place

theorem filter_pairdelete {attr : Nat} (hq : ∀ j : PairNode δ, j.attr = attr → q j = false) (l : List (PairNode δ)) :
    (pairdelete l attr).filter q = l.filter q := by
  rw [pairdelete, filter_filter]
  refine filter_congr ?_
  intro j _
  by_cases hj : j.attr = attr
  · simp [hj, hq j hj]
  · simp [hj]

theorem filter_overwrite (hq : ∀ j : PairNode δ, j.attr = i.attr → q j = false) (l : List (PairNode δ)) :
    (overwrite i l).filter q = l.filter q := by
  induction l with
  | nil => rfl
  | cons found l ih =>
    rw [overwrite]
    split
    · rename_i hfound
      simp [hq found hfound, hq { i with place := found.place } rfl, filter_pairdelete hq]
    · simp only [filter_cons, ih]

/-- What a pass does: the node is moved, or it is left and nodes with its attribute may be deleted from `to`. -/
theorem next_cases (p : Bool) (m : Moving δ) (i : PairNode δ) :
    (moveOne p m.target i).1 = .moved ∧ m.next p i = ⟨m.target ++ [i], m.front, []⟩ ∨
    (moveOne p m.target i).1 ≠ .moved ∧ (m.next p i).front ++ (m.next p i).passed = m.front ++ m.passed ++ [i] ∧
      places (m.next p i).target <+ places m.target ∧
      ∀ q : PairNode δ → Bool, (∀ j, j.attr = i.attr → q j = false) → (m.next p i).target.filter q = m.target.filter q := by
  unfold Moving.next moveOne
  split_ifs
  · simp
  · simp
  · simp
  · split
    · rename_i found _ hfound
      have hattr : found.attr = i.attr := by simpa using find?_some hfound
      split_ifs
      · refine .inr ⟨nofun, by simp, filter_sublist.map PairNode.place, ?_⟩
        rw [hattr]
        exact fun q hq => filter_pairdelete hq m.target
      · simp
    · simp
    · simp
    · exact .inr ⟨nofun, by simp, places_overwrite i m.target, fun q hq => filter_overwrite hq m.target⟩
    · simp

/-- What the loop leaves and what it moves. -/
theorem foldl_next (p : Bool) (source : List (PairNode δ)) (m : Moving δ) :
    let m' := source.foldl (Moving.next p) m
    m'.front ++ m'.passed <+ m.front ++ m.passed ++ source ∧
    (∃ kept moved, places m'.target = kept ++ moved ∧ kept <+ places m.target ∧ moved <+ places source) ∧
    ∀ q : PairNode δ → Bool, (∀ j, j.attr ∈ source.map PairNode.attr → q j = false) → m'.target.filter q = m.target.filter q := by
  induction source generalizing m with
  | nil => exact ⟨by simp, ⟨places m.target, [], by simp, Sublist.refl _, Sublist.refl _⟩, fun _ _ => rfl⟩
  | cons i source ih =>
    obtain ⟨hleft, ⟨kept, moved, hplaces, hkept, hmoved⟩, hfilter⟩ := ih (m.next p i)
    have hrest {q : PairNode δ → Bool} (hq : ∀ j, j.attr ∈ (i :: source).map PairNode.attr → q j = false) :=
      hfilter q fun j hj => hq j (mem_cons_of_mem _ hj)
    rw [foldl_cons]
    rcases next_cases p m i with ⟨-, hnext⟩ | ⟨-, hfront, hsub, hsame⟩
    · have hnext' : (m.next p i).front ++ (m.next p i).passed <+ m.front ++ m.passed := by simp [hnext]
      have htarget : (m.next p i).target = m.target ++ [i] := by rw [hnext]
      rw [htarget, places_append] at hkept
      obtain ⟨k, k', rfl, hk, hk'⟩ := sublist_append_iff.1 hkept
      refine ⟨hleft.trans (hnext'.append (sublist_cons_self i source)),
        ⟨k, k' ++ moved, by rw [hplaces, append_assoc], hk, hk'.append hmoved⟩, ?_⟩
      intro q hq
      rw [hrest hq, htarget, filter_append]
      simp [hq i]
    · rw [hfront] at hleft
      refine ⟨by simpa using hleft, ⟨kept, moved, hplaces, hkept.trans hsub, hmoved.cons _⟩, ?_⟩
      intro q hq
      rw [hrest hq, hsame q fun j hj => hq j (by simp [hj])]

/-! ## Where the nodes are -/

/-- The places of all lists. -/
def spread (m : Moving δ) (rest : List (PairNode δ)) : List Nat := places m.target ++ (places (m.front ++ m.passed) ++ places rest)

/-- When a node is moved, the nodes that were passed before it are lost. -/
theorem spread_moved (m : Moving δ) (i : PairNode δ) (rest : List (PairNode δ)) :
    spread m (i :: rest) ~ places m.passed ++ spread ⟨m.target ++ [i], m.front, []⟩ rest := by
  rw [perm_iff_count]
  intro x
  simp only [spread, places_append, places_cons, places_nil, count_append, count_cons, count_nil]
  omega

theorem spread_foldl (p : Bool) (l : List (PairNode δ)) (m : Moving δ) (rest : List (PairNode δ)) :
    spread (l.foldl (Moving.next p) m) rest <+~ spread m (l ++ rest) := by
  induction l generalizing m with
  | nil => exact Subperm.refl _
  | cons i l ih =>
    refine (ih (m.next p i)).trans ?_
    rcases next_cases p m i with ⟨-, hnext⟩ | ⟨-, hfront, hsub, -⟩
    · rw [hnext]
      exact (sublist_append_right _ _).subperm.trans (spread_moved m i (l ++ rest)).symm.subperm
    · unfold spread
      rw [hfront]
      simpa using (hsub.append (Sublist.refl (places (m.front ++ m.passed ++ i :: (l ++ rest))))).subperm

theorem nodup_spread (p : Bool) {l rest : List (PairNode δ)} {m : Moving δ} (h : (spread m (l ++ rest)).Nodup) :
    (spread (l.foldl (Moving.next p) m) rest).Nodup := by
  obtain ⟨l', hperm, hsub⟩ := spread_foldl p l m rest
  exact hperm.nodup_iff.1 (h.sublist hsub)

/-! ## When a node is lost -/

namespace PairNode

/-- The node looks for a pair with its attribute in `to`. -/
def looks (i : PairNode δ) : Bool := !i.repeats && (i.operator = .eq || i.operator = .set || i.operator = .sub)

/-- What happens to a node by its operator, if `to` has a password or not, and its attribute or not. -/
def fate (i : PairNode δ) (hasPassword hasAttr : Bool) : Fate :=
  if hasPassword && i.isPassword || i.compares then .stays
  else if i.repeats then .moved
  else
    match i.operator with
    | .sub => .stays
    | .eq => if hasAttr then .stays else .moved
    | .set => if hasAttr then .copied else .moved
    | _ => .moved

/-- What happens to a node by the list `to` as it was. -/
def fateIn (target : List (PairNode δ)) (i : PairNode δ) : Fate :=
  i.fate (target.any isPassword) (pairfind target i.attr).isSome

end PairNode

theorem target_next (p : Bool) (m : Moving δ) (i : PairNode δ) :
    (m.next p i).target = (moveOne p m.target i).2 ∧ ((m.next p i).passed = [] ↔ (moveOne p m.target i).1 ≠ .copied) := by
  unfold Moving.next
  split <;> rename_i h <;> simp [h]

theorem fate_moveOne (p : Bool) (l : List (PairNode δ)) (i : PairNode δ) :
    (moveOne p l i).1 = i.fate p (pairfind l i.attr).isSome := by
  unfold moveOne PairNode.fate
  cases p && i.isPassword <;> cases i.compares <;> cases i.repeats <;> simp
  cases i.operator <;> cases pairfind l i.attr <;> rfl

/-- A node that does not look for a pair is moved, or leaves `to` as it is. -/
theorem moveOne_of_not_looks (h : i.looks = false) (p : Bool) (l : List (PairNode δ)) :
    (moveOne p l i).1 = i.fate p false ∧ ((moveOne p l i).1 ≠ .moved → (moveOne p l i).2 = l) := by
  revert h
  unfold moveOne PairNode.fate PairNode.looks
  cases p && i.isPassword <;> cases i.compares <;> cases i.repeats <;> cases i.operator <;> simp

section

variable {target before rest : List (PairNode δ)}

/-- The lists when some nodes of `from` have been gone over. -/
def passes (target before : List (PairNode δ)) : Moving δ :=
  before.foldl (Moving.next (target.any PairNode.isPassword)) ⟨target, [], []⟩

variable (hnd : (places (target ++ source)).Nodup) (hlooks : source.Pairwise fun i j => j.looks = true → i.attr ≠ j.attr)

include hnd hlooks

/-- If no node that looks for a pair has its attribute earlier in `from`, then a pass does with its node what the list `to` decides as it
was, and deletes no node of `from`. -/
theorem pass_spec (hsource : source = before ++ i :: rest) :
    let p := passes target before
    let p' := passes target (before ++ [i])
    (i.fateIn target = .moved ∧ p' = ⟨p.target ++ [i], p.front, []⟩ ∨
      i.fateIn target ≠ .moved ∧ p'.front ++ p'.passed = p.front ++ p.passed ++ [i] ∧
        ∀ x ∈ places source, x ∈ places p.target → x ∈ places p'.target) ∧
    (p'.passed = [] ↔ i.fateIn target ≠ .copied) := by
  dsimp only
  have hpass : passes target (before ++ [i]) = (passes target before).next (target.any PairNode.isPassword) i := by
    simp [passes, foldl_append]
  rw [hpass, (target_next ..).2]
  have hcases := next_cases (target.any PairNode.isPassword) (passes target before) i
  cases hl : i.looks with
  | false =>
    obtain ⟨hfate, hsame⟩ := moveOne_of_not_looks hl (target.any PairNode.isPassword) (passes target before).target
    rw [PairNode.fateIn, ← fate_moveOne, (moveOne_of_not_looks hl _ target).1, ← hfate]
    refine ⟨hcases.imp id fun ⟨hmoved, hfront, _⟩ => ⟨hmoved, hfront, fun x _ hx => ?_⟩, Iff.rfl⟩
    rwa [(target_next ..).1, hsame hmoved]
  | true =>
    -- the pairs of `to` with this attribute are the ones that were there at first
    have hattr : i.attr ∉ before.map PairNode.attr := by
      rw [hsource, pairwise_append] at hlooks
      intro h
      obtain ⟨j, hj, hji⟩ := mem_map.1 h
      exact hlooks.2.2 j hj i mem_cons_self hl hji
    have hfilter : (passes target before).target.filter (·.attr = i.attr) = target.filter (·.attr = i.attr) := by
      refine (foldl_next _ before ⟨target, [], []⟩).2.2 _ fun j hj => ?_
      simpa using fun h : j.attr = i.attr => hattr (h ▸ hj)
    have hfate : (moveOne (target.any PairNode.isPassword) (passes target before).target i).1 = i.fateIn target := by
      rw [fate_moveOne, PairNode.fateIn, pairfind, pairfind, ← head?_filter, hfilter, head?_filter]
    rw [← hfate]
    refine ⟨hcases.imp id fun ⟨hmoved, hfront, _, hsame⟩ => ⟨hmoved, hfront, fun x hx hmem => ?_⟩, Iff.rfl⟩
    obtain ⟨y, hy, rfl⟩ := mem_map.1 hmem
    have hne : y.attr ≠ i.attr := by
      intro h
      have hy' : y ∈ target := (mem_filter.1 (hfilter ▸ mem_filter.2 ⟨hy, by simpa using h⟩)).1
      exact (nodup_append.1 (places_append .. ▸ hnd)).2.2 _ (mem_map_of_mem hy') _ hx rfl
    have hmem' : y ∈ (passes target before).target.filter (·.attr ≠ i.attr) := mem_filter.2 ⟨hy, by simpa using hne⟩
    rw [← hsame _ (by simp)] at hmem'
    exact mem_map_of_mem (mem_filter.1 hmem').1

/-- No node is lost in the passes over the rest of `from` if and only if no node that is copied stands directly before one that is moved,
the last one that has been gone over included. -/
theorem kept_iff (hsource : source = before ++ rest) (hall : ∀ x ∈ places source, x ∈ spread (passes target before) rest) :
    (∀ x ∈ places source, x ∈ spread (passes target source) []) ↔
      (∀ j ∈ rest.head?, j.fateIn target = .moved → (passes target before).passed = []) ∧
        rest.IsChain fun i j => i.fateIn target = .copied → j.fateIn target ≠ .moved := by
  induction rest generalizing before with
  | nil =>
    rw [append_nil] at hsource
    exact iff_of_true (hsource ▸ hall) ⟨nofun, .nil⟩
  | cons i rest ih =>
    obtain ⟨hcases, hpassed⟩ := pass_spec hnd hlooks hsource
    rw [isChain_cons]
    by_cases hcond : i.fateIn target = .moved → (passes target before).passed = []
    · have hall' : ∀ x ∈ places source, x ∈ spread (passes target (before ++ [i])) rest := by
        intro x hx
        have hmem := hall x hx
        rcases hcases with ⟨hmoved, hnext⟩ | ⟨-, hfront, hkeeps⟩
        · rw [(spread_moved _ _ _).mem_iff, hcond hmoved, ← hnext] at hmem
          exact hmem
        · simp only [spread, hfront, places_append, places_cons, places_nil, mem_append, mem_cons, not_mem_nil, false_or, or_assoc]
            at hmem ⊢
          exact hmem.imp (hkeeps x hx) id
      rw [ih (by rw [hsource]; simp) hall', hpassed]
      refine ⟨fun h => ⟨?_, fun j hj hc hmoved => h.1 j hj hmoved hc, h.2⟩, fun h => ⟨fun j hj hmoved hc => h.2.1 j hj hc hmoved, h.2.2⟩⟩
      intro j hj
      cases hj
      exact hcond
    · refine iff_of_false (fun h => ?_) fun h => hcond (h.1 i rfl)
      obtain ⟨hmoved, hne⟩ := Classical.not_imp.1 hcond
      obtain ⟨-, hnext⟩ := hcases.resolve_right fun hstays => hstays.1 hmoved
      -- a node that was passed is in no list any more
      obtain ⟨j, hj⟩ := exists_mem_of_ne_nil _ hne
      have hbefore : (passes target before).front ++ (passes target before).passed <+ before := (foldl_next _ before ⟨target, [], []⟩).1
      have hx : j.place ∈ places source := by
        rw [hsource, places_append]
        exact mem_append_left _ (mem_map_of_mem (hbefore.subset (mem_append_right _ hj)))
      have hlast : j.place ∈ spread (passes target (before ++ [i])) rest := by
        have hsub := spread_foldl (target.any PairNode.isPassword) rest (passes target (before ++ [i])) []
        rw [passes, ← foldl_append, append_assoc, singleton_append, ← hsource, append_nil] at hsub
        exact hsub.subset (h _ hx)
      have hnd' : (spread (passes target before) (i :: rest)).Nodup := nodup_spread _ (by simpa [spread, hsource] using hnd)
      rw [hnext] at hlast
      exact (nodup_append.1 ((spread_moved _ _ _).nodup_iff.1 hnd')).2.2 _ (mem_map_of_mem hj) _ hlast rfl

end

/-- A node with a place, an attribute and an operator. -/
def sampleNode (place attr : Nat) (operator : FrToken) : PairNode Unit := ⟨place, attr, operator, [], ()⟩

end Osp.Freeradius
