/-!
# Calls that let other calls in

A component whose calls, at certain points of their bodies, run code from outside, which may make calls of its own before the body
goes on. A body is given the function that runs what comes from outside at a point; `perform` ties the knot, for calls nested to a
given depth. A relation between states holds of every call once it holds of every body.
-/

namespace Osp.Lib

variable {σ ι κ : Type}

section

variable (body : (κ → σ → σ) → ι → σ → σ) (outside : κ → σ → List ι)

/-- The state after a call, whose body may let other calls in, to the given depth. -/
def perform : Nat → ι → σ → σ
  | 0, _, s => s
  | n + 1, i, s => body (fun k s => (outside k s).foldl (fun s j => perform n j s) s) i s

/-- The state after a sequence of calls. -/
def performAll (n : Nat) (calls : List ι) (s : σ) : σ := calls.foldl (fun s i => perform body outside n i s) s

end

variable {body : (κ → σ → σ) → ι → σ → σ} {outside : κ → σ → List ι} {R : σ → σ → Prop} {Ok : ι → Prop}

section

variable (hrefl : ∀ s, R s s) (htrans : ∀ s t u, R s t → R t u → R s u)

include hrefl htrans

theorem foldl_rel {f : σ → ι → σ} {calls : List ι}
    (hf : ∀ i ∈ calls, ∀ s, R s (f s i)) (s : σ) : R s (calls.foldl f s) := by
  induction calls generalizing s with
  | nil => exact hrefl s
  | cons i calls ih =>
    exact htrans _ _ _ (hf i List.mem_cons_self s) (ih (fun j hj => hf j (List.mem_cons_of_mem _ hj)) (f s i))

variable (hbody : ∀ yield : κ → σ → σ, (∀ k s, R s (yield k s)) → ∀ i, Ok i → ∀ s, R s (body yield i s))
  (houtside : ∀ k s, ∀ i ∈ outside k s, Ok i) (n : Nat)

include hbody houtside

/-- A relation that every body keeps, when what it lets in keeps it, holds of every call. -/
theorem perform_rel {i : ι} (hi : Ok i) (s : σ) : R s (perform body outside n i s) := by
  induction n generalizing i s with
  | zero => exact hrefl s
  | succ n ih =>
    refine hbody _ (fun k t => ?_) i hi s
    exact foldl_rel hrefl htrans (fun j hj u => ih (houtside k t j hj) u) t

/-- The same for a sequence of calls. -/
theorem performAll_rel {calls : List ι} (hcalls : ∀ i ∈ calls, Ok i) (s : σ) :
    R s (performAll body outside n calls s) :=
  foldl_rel hrefl htrans (fun _ hi t => perform_rel hrefl htrans hbody houtside n (hcalls _ hi) t) s

end

end Osp.Lib
