import Mathlib.Computability.Language

/-!
# Languages of patterns

A pattern is a list of wildcards and letters; its language is the product of theirs.
-/

namespace Osp.Lib

/-- A part of a pattern. -/
inductive GlobToken (α : Type) where
  | star
  | one
  | letter (a : α)
deriving DecidableEq

variable {α : Type} {a : α} {w : List α} {p q : List (GlobToken α)}

/-- Any word, any word of one letter, or a letter. -/
def GlobToken.language : GlobToken α → Language α
  | .star => ⊤
  | .one => {w | w.length = 1}
  | .letter a => {[a]}

/-- The language of a pattern. -/
def globLanguage (p : List (GlobToken α)) : Language α := (p.map GlobToken.language).prod

theorem mem_globLanguage_nil : w ∈ globLanguage ([] : List (GlobToken α)) ↔ w = [] := Language.mem_one w

theorem globLanguage_cons (t : GlobToken α) : globLanguage (t :: p) = t.language * globLanguage p :=
  List.prod_cons

theorem globLanguage_append (p q : List (GlobToken α)) : globLanguage (p ++ q) = globLanguage p * globLanguage q := by
  rw [globLanguage, List.map_append, List.prod_append, globLanguage, globLanguage]

theorem mem_globLanguage_star : w ∈ globLanguage (.star :: p) ↔ ∃ u v, w = u ++ v ∧ v ∈ globLanguage p := by
  rw [globLanguage_cons, Language.mem_mul]
  constructor
  · rintro ⟨u, -, v, hv, rfl⟩
    exact ⟨u, v, rfl, hv⟩
  · rintro ⟨u, v, rfl, hv⟩
    exact ⟨u, Set.mem_univ u, v, hv, rfl⟩

theorem mem_globLanguage_one : w ∈ globLanguage (.one :: p) ↔ ∃ a v, w = a :: v ∧ v ∈ globLanguage p := by
  rw [globLanguage_cons, Language.mem_mul]
  constructor
  · rintro ⟨u, hu, v, hv, rfl⟩
    obtain ⟨a, rfl⟩ := List.length_eq_one_iff.1 hu
    exact ⟨a, v, rfl, hv⟩
  · rintro ⟨a, v, rfl, hv⟩
    exact ⟨[a], rfl, v, hv, rfl⟩

theorem mem_globLanguage_letter : w ∈ globLanguage (.letter a :: p) ↔ ∃ v, w = a :: v ∧ v ∈ globLanguage p := by
  rw [globLanguage_cons, Language.mem_mul]
  constructor
  · rintro ⟨u, rfl, v, hv, rfl⟩
    exact ⟨v, rfl, hv⟩
  · rintro ⟨v, rfl, hv⟩
    exact ⟨[a], rfl, v, hv, rfl⟩

/-- The empty word is in the language of a pattern of stars only. -/
theorem nil_mem_globLanguage : [] ∈ globLanguage p ↔ ∀ t ∈ p, t = .star := by
  induction p with
  | nil => simp [mem_globLanguage_nil]
  | cons t p ih =>
    cases t with
    | star => simp [mem_globLanguage_star, ih]
    | one => simp [mem_globLanguage_one]
    | letter a => simp [mem_globLanguage_letter]

end Osp.Lib
