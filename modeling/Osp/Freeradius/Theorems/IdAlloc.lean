import Mathlib.Data.Fintype.Card
import Osp.Freeradius.PacketList

/-!
# Which requests get an id

An id is taken that is free on some socket of the list, and only then a socket is looked for. So a request fails if that id is free
on sockets only that it cannot use, whatever other ids are free on its own.
-/

namespace Osp.Freeradius

variable (pl : PacketList) (request : IdRequest)

/-- An added socket of the family of the destination that satisfies the requested source address. -/
def Serves (i : Fin 32) : Prop := pl.mask.getLsb i = true ∧ usable request (pl.sockets i) = true

/-- The ids that a socket uses to the destination. -/
def idsInUse (i : Fin 32) : Finset (Fin 256) := {id | (pl.ids request.dst id).getLsb i = true}

/-- The request has a valid destination, and a socket that serves it has an id left. -/
def HasId : Prop :=
  request.dst.2 ≠ 0 ∧ request.dst.1.inaddrAny = some false ∧ ∃ i, Serves pl request i ∧ (idsInUse pl request i).card < 256

variable {pl request}

theorem mem_cyclic (start id : Fin 256) : id ∈ cyclic start :=
  List.mem_map.2 ⟨id - start, List.mem_finRange _, add_sub_cancel start id⟩

variable {i : Fin 32}

theorem card_idsInUse : (idsInUse pl request i).card < 256 ↔ ∃ id, id ∉ idsInUse pl request i := by
  rw [← not_forall, ← Finset.eq_univ_iff_forall, ← ne_eq, ← Finset.card_lt_iff_ne_univ, Fintype.card_fin]

theorem free_iff {id : Fin 256} :
    (usable request (pl.sockets i) && !(~~~(~~~pl.ids request.dst id &&& pl.mask)).getLsb i) = true ↔
      Serves pl request i ∧ id ∉ idsInUse pl request i := by
  simp only [Serves, idsInUse, Finset.mem_filter_univ, Bool.and_eq_true]
  simp
  tauto

/-- A request gets an id exactly if a socket that serves it is free at the first id that is not used by all sockets. -/
theorem idAlloc_ok_iff (h : HasId pl request) (rand : Fin 256) :
    (idAlloc pl request rand).isOk = true ↔
      ∃ id, (cyclic rand).find? (pl.ids request.dst · ≠ pl.mask) = some id ∧ ∃ i, Serves pl request i ∧ id ∉ idsInUse pl request i := by
  obtain ⟨hport, hdst, -⟩ := h
  have hunspec : request.dst.1 ≠ .unspec := by
    intro hunspec
    rw [hunspec] at hdst
    cases hdst
  have hsource : request.source.inaddrAny ≠ none := by
    unfold IdRequest.source
    split
    · cases hcase : request.dst.1 <;> simp_all [Ipaddr.inaddrAny, Ipaddr.zeros]
    · cases hcase : request.src.1 <;> simp_all [Ipaddr.inaddrAny]
  simp only [idAlloc, hunspec, hport, or_self, if_false, hsource, hdst, ne_eq, not_true_eq_false]
  split
  · rename_i hnone
    simp only [hnone, reduceCtorEq, false_and, exists_false]
    exact iff_of_false Bool.false_ne_true id
  · rename_i id hid
    simp only [hid, Option.some.injEq, exists_eq_left', ← free_iff]
    split
    · rename_i hnone
      have hused := List.find?_eq_none.1 hnone
      exact ⟨fun herror => absurd herror Bool.false_ne_true, fun ⟨i, hfree⟩ => absurd hfree (hused i (List.mem_finRange i))⟩
    · rename_i i hsome
      have hfree := List.find?_some hsome
      exact ⟨fun _ => ⟨i, hfree⟩, fun _ => rfl⟩

/-- A request that can have an id gets one from every start exactly if each id that is not used by all sockets is free on one that
serves the request. -/
theorem idAlloc_complete_iff :
    (HasId pl request → ∀ rand, (idAlloc pl request rand).isOk = true) ↔
      (HasId pl request → ∀ id, pl.ids request.dst id ≠ pl.mask → ∃ i, Serves pl request i ∧ id ∉ idsInUse pl request i) := by
  refine forall_congr' fun h => ?_
  simp only [idAlloc_ok_iff h]
  constructor
  · intro hall id hid
    obtain ⟨id', hfind, hserves⟩ := hall id
    rw [cyclic, List.finRange_succ, List.map_cons, add_zero, List.find?_cons_of_pos (by simpa using hid)] at hfind
    cases hfind
    exact hserves
  · intro hfree rand
    obtain ⟨-, -, i, hserves, hcard⟩ := h
    obtain ⟨id, hid⟩ := card_idsInUse.1 hcard
    have hmask : pl.ids request.dst id ≠ pl.mask := by
      intro hmask
      exact hid ((Finset.mem_filter_univ id).2 (hmask ▸ hserves.1))
    cases hfind : (cyclic rand).find? (pl.ids request.dst · ≠ pl.mask) with
    | none => exact absurd (decide_eq_true hmask) (List.find?_eq_none.1 hfind id (mem_cyclic rand id))
    | some id' => exact ⟨id', rfl, hfree id' (by simpa using List.find?_some hfind)⟩

/-- Two sockets with an address of their own, and two requests to send from the first one. -/
def twoSockets : PacketList := socketAdd (socketAdd {} 3 (some (.inet 1, 1812))) 4 (some (.inet 2, 1812))

theorem idAlloc_gives_up :
    let request : IdRequest := ⟨(.inet 9, 1812), (.inet 1, 0), -1, 0⟩
    ∃ pl first, idAlloc twoSockets request 0 = .ok (pl, first) ∧ HasId pl request ∧
      idAlloc pl request 0 = .error "Internal sanity check failed" := by
  refine ⟨_, _, rfl, ⟨by decide, rfl, 25, ⟨rfl, rfl⟩, card_idsInUse.2 ⟨1, fun hmem => ?_⟩⟩, rfl⟩
  exact absurd ((Finset.mem_filter_univ 1).1 hmem) (by decide)

end Osp.Freeradius
