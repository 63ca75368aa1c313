import Mathlib.Data.List.Forall2

/-!
# Computations that may fail

When a sequence of computations succeeds, each of them did. Running a fallible function over a list or an option succeeds exactly
when every call does.
-/

namespace Osp.Lib

variable {ε α β : Type}

variable {x : Except ε α} {l : List α} {o : Option α} {f : α → Except ε β} {b : β} {g : β → Except ε α} {P : β → Prop}

/-- A sequence succeeds when both of its parts do. -/
theorem bind_eq_ok : (x >>= f) = .ok b ↔ ∃ a, x = .ok a ∧ f a = .ok b := by
  cases x with
  | error e => simp [bind, Except.bind]
  | ok a => simp [bind, Except.bind]

theorem map_eq_ok {f : α → β} : x.map f = .ok b ↔ ∃ a, x = .ok a ∧ f a = b := by
  cases x with
  | error e => simp [Except.map]
  | ok a => simp [Except.map]

/-- A run over a list that succeeds has called the function with success on each element. -/
theorem forall₂_of_mapM_eq_ok {l' : List β} (h : l.mapM f = .ok l') : List.Forall₂ (fun a b => f a = .ok b) l l' := by
  induction l generalizing l' with
  | nil =>
    cases h
    exact .nil
  | cons a l ih =>
    rw [List.mapM_cons] at h
    obtain ⟨b, hb, h⟩ := bind_eq_ok.1 h
    obtain ⟨bs, hbs, h⟩ := bind_eq_ok.1 h
    cases h
    exact .cons hb (ih hbs)

/-- What every successful call gives, the whole list has. -/
theorem forall_of_mapM_eq_ok (hf : ∀ a b, f a = .ok b → P b) {l' : List β} (h : l.mapM f = .ok l') : ∀ b ∈ l', P b := by
  have hcalls := forall₂_of_mapM_eq_ok h
  clear h
  induction hcalls with
  | nil => exact fun b hb => absurd hb List.not_mem_nil
  | cons hab _ ih => exact List.forall_mem_cons.2 ⟨hf _ _ hab, ih⟩

theorem forall_of_option_mapM_eq_ok (hf : ∀ a b, f a = .ok b → P b) {o' : Option β} (h : o.mapM f = .ok o') : ∀ b ∈ o', P b := by
  cases o with
  | none =>
    cases h
    nofun
  | some a =>
    obtain ⟨b, hb, h⟩ := map_eq_ok.1 h
    subst h
    rintro c ⟨⟩
    exact hf a b hb

/-- A call that undoes a function undoes it on the whole list. -/
theorem mapM_map_ok {f : α → β} (h : ∀ a ∈ l, g (f a) = .ok a) :
    (l.map f).mapM g = .ok l := by
  induction l with
  | nil => rfl
  | cons a l ih =>
    rw [List.map_cons, List.mapM_cons, h a List.mem_cons_self, ih fun b hb => h b (List.mem_cons_of_mem _ hb)]
    rfl

theorem option_mapM_map_ok {f : α → β} (h : ∀ a ∈ o, g (f a) = .ok a) :
    (o.map f).mapM g = .ok o := by
  cases o with
  | none => rfl
  | some a =>
    rw [Option.map_some, Option.mapM_some, h a rfl]
    rfl

end Osp.Lib
