import Mathlib.Tactic

/-!
# Resumable machines

A machine that reads a stream from buffers of any size. One step looks at the input that is available and reads a part of it;
when the input is used up and the machine waits for more, it can be resumed with the next buffer. The main result is that a
machine whose steps do not depend on where a buffer ends gives the same outcome for every way of cutting the stream.
-/

namespace Osp.Lib

open List

/-- What a run delivers before it stops, and how it stops: with an error, or in a state from which it can be resumed. -/
@[ext]
structure Outcome (β ε σ : Type*) where
  out : List β
  stop : Except ε σ

namespace Outcome

variable {β ε σ τ : Type*}

/-- The run that delivers nothing and stops in a state. -/
def pure (s : σ) : Outcome β ε σ := ⟨[], .ok s⟩

/-- The run that delivers nothing and stops with an error. -/
def fail (e : ε) : Outcome β ε σ := ⟨[], .error e⟩

/-- Delivers more in front of what a run delivers. -/
def after (o : List β) (r : Outcome β ε σ) : Outcome β ε σ := ⟨o ++ r.out, r.stop⟩

/-- Resumes a run that stopped in a state. -/
def bind (r : Outcome β ε σ) (f : σ → Outcome β ε τ) : Outcome β ε τ :=
  match r.stop with
  | .error e => ⟨r.out, .error e⟩
  | .ok s => after r.out (f s)

@[simp] theorem after_nil (r : Outcome β ε σ) : after [] r = r := rfl

@[simp] theorem pure_bind (s : σ) (f : σ → Outcome β ε τ) : (pure s).bind f = f s := rfl

@[simp] theorem fail_bind (e : ε) (f : σ → Outcome β ε τ) : (fail e).bind f = fail e := rfl

@[simp] theorem after_bind (o : List β) (r : Outcome β ε σ) (f : σ → Outcome β ε τ) :
    (after o r).bind f = after o (r.bind f) := by
  cases h : r.stop <;> simp [bind, after, h]

end Outcome

/-! ## Feeding buffers -/

section Feed

variable {α β ε σ : Type*} {s : σ}

/-- Feeds the buffers one after the other and stops at the first error. -/
def feedAll (feed : σ → List α → Outcome β ε σ) (s : σ) : List (List α) → Outcome β ε σ
  | [] => Outcome.pure s
  | c :: cs => (feed s c).bind fun s' => feedAll feed s' cs

/-- Feeding is compositional on the states that satisfy an invariant: a buffer may be cut anywhere. -/
structure Compositional (feed : σ → List α → Outcome β ε σ) (inv : σ → Prop) : Prop where
  nil : ∀ s, inv s → feed s [] = Outcome.pure s
  append : ∀ s a b, inv s → feed s (a ++ b) = (feed s a).bind fun s' => feed s' b
  keeps : ∀ s s' a, inv s → (feed s a).stop = .ok s' → inv s'

/-- Feeding the buffers is feeding the stream they make up. -/
theorem Compositional.feedAll_eq {feed : σ → List α → Outcome β ε σ} {inv : σ → Prop} (h : Compositional feed inv)
    (cs : List (List α)) (hs : inv s) : feedAll feed s cs = feed s cs.flatten := by
  induction cs generalizing s with
  | nil => simp [feedAll, h.nil s hs]
  | cons c cs ih =>
    rw [feedAll, flatten_cons, h.append s c _ hs]
    unfold Outcome.bind
    split
    · rfl
    · rename_i s' hstop
      exact congrArg _ (ih (h.keeps s s' c hs hstop))

end Feed

/-! ## Machines -/

/-- What one step does: the next state, how much of the input it read and what it delivered. -/
structure Stride (β σ : Type*) where
  next : σ
  read : Nat
  out : List β

/-- A machine by its step on the input available, and the states in which it waits when there is none. -/
structure Machine (α β ε σ : Type*) where
  step : σ → List α → Except ε (Stride β σ)
  waits : σ → Bool

namespace Machine

variable {α β ε σ : Type*} (M : Machine α β ε σ)

/-- A run of at most so many steps. -/
def run : Nat → σ → List α → Outcome β ε σ
  | 0, s, _ => Outcome.pure s
  | n + 1, s, buf =>
    if buf = [] ∧ M.waits s then Outcome.pure s
    else
      match M.step s buf with
      | .error e => Outcome.fail e
      | .ok r => Outcome.after r.out (run n r.next (buf.drop r.read))

/-- The machine makes progress: a step reads input, or goes down in a rank with a bound, and it keeps the invariant. -/
structure Progress (inv : σ → Prop) (rank : σ → Nat) (bound : Nat) : Prop where
  rank_le : ∀ s, rank s ≤ bound
  step : ∀ s buf r, inv s → ¬(buf = [] ∧ M.waits s) → M.step s buf = .ok r →
    inv r.next ∧ r.read ≤ buf.length ∧ (0 < r.read ∨ rank r.next < rank s)

/-- How many steps a run can take, given the bound on the rank. -/
def budget (rank : σ → Nat) (bound : Nat) (s : σ) (buf : List α) : Nat :=
  (bound + 1) * buf.length + rank s

variable {M} {inv : σ → Prop} {rank : σ → Nat} {bound : Nat} {buf : List α}

theorem Progress.budget_lt (h : M.Progress inv rank bound) {r : Stride β σ} (hs : inv s)
    (hw : ¬(buf = [] ∧ M.waits s)) (hr : M.step s buf = .ok r) :
    budget rank bound r.next (buf.drop r.read) < budget rank bound s buf := by
  obtain ⟨-, hle, hlt⟩ := h.step s buf r hs hw hr
  have hb := h.rank_le r.next
  simp only [budget, length_drop]
  rcases hlt with hread | hrank
  · obtain ⟨k, hk⟩ : ∃ k, buf.length = k + r.read := ⟨buf.length - r.read, by omega⟩
    rw [hk, Nat.add_sub_cancel, Nat.mul_add]
    have := Nat.le_mul_of_pos_right (bound + 1) hread
    omega
  · have := Nat.mul_le_mul_left (bound + 1) (Nat.sub_le buf.length r.read)
    omega

/-- Beyond the budget more steps change nothing: the run has stopped. -/
theorem Progress.run_eq (h : M.Progress inv rank bound) {n m : Nat} (hs : inv s)
    (hn : budget rank bound s buf < n) (hm : budget rank bound s buf < m) : M.run n s buf = M.run m s buf := by
  induction n generalizing m s buf with
  | zero => omega
  | succ n ih =>
    obtain ⟨m, rfl⟩ : ∃ j, m = j + 1 := ⟨m - 1, by omega⟩
    simp only [run]
    split_ifs with hw
    · rfl
    · split
      · rfl
      · rename_i r hr
        have hlt := h.budget_lt hs hw hr
        exact congrArg _ (ih (h.step s buf r hs hw hr).1 (by omega) (by omega))

variable (M) in
/-- A run to the end, given the rank that bounds it. -/
def runAll (rank : σ → Nat) (bound : Nat) (s : σ) (buf : List α) : Outcome β ε σ :=
  M.run (budget rank bound s buf + 1) s buf

theorem runAll_wait (hw : M.waits s) : M.runAll rank bound s [] = Outcome.pure s := by
  simp [runAll, run, hw]

theorem runAll_error {e : ε} (hw : ¬(buf = [] ∧ M.waits s)) (he : M.step s buf = .error e) :
    M.runAll rank bound s buf = Outcome.fail e := by
  rw [runAll, run, if_neg hw, he]

theorem Progress.runAll_step (h : M.Progress inv rank bound) {r : Stride β σ} (hs : inv s)
    (hw : ¬(buf = [] ∧ M.waits s)) (hr : M.step s buf = .ok r) :
    M.runAll rank bound s buf = Outcome.after r.out (M.runAll rank bound r.next (buf.drop r.read)) := by
  have hlt := h.budget_lt hs hw hr
  rw [runAll, run, if_neg hw, hr]
  exact congrArg (Outcome.after r.out) (h.run_eq (h.step s buf r hs hw hr).1 hlt (Nat.lt_succ_self _))

/-- An induction over the steps of a run. -/
theorem Progress.induction (h : M.Progress inv rank bound) {P : σ → List α → Prop}
    (wait : ∀ s, inv s → M.waits s → P s [])
    (fail : ∀ s buf e, inv s → ¬(buf = [] ∧ M.waits s) → M.step s buf = .error e → P s buf)
    (step : ∀ s buf r, inv s → ¬(buf = [] ∧ M.waits s) → M.step s buf = .ok r → P r.next (buf.drop r.read) → P s buf)
    (hs : inv s) (buf : List α) : P s buf := by
  induction hn : budget rank bound s buf using Nat.strong_induction_on generalizing s buf with
  | _ n ih =>
    subst hn
    by_cases hw : buf = [] ∧ M.waits s
    · obtain ⟨rfl, hw⟩ := hw
      exact wait s hs hw
    · cases hr : M.step s buf with
      | error e => exact fail s buf e hs hw hr
      | ok r => exact step s buf r hs hw hr (ih _ (h.budget_lt hs hw hr) (h.step s buf r hs hw hr).1 _ rfl)

/-! ## Independence of the buffers -/

/-- A step does not depend on where the buffer ends: more input behind the buffer makes no difference to it, or it reads the
whole buffer and waits, and with more input it does at once what it would do when resumed. -/
def Local (M : Machine α β ε σ) (inv : σ → Prop) : Prop :=
  ∀ s a, inv s → ¬(a = [] ∧ M.waits s) →
    (∀ b, M.step s (a ++ b) = M.step s a) ∨
    ∃ s', M.step s a = .ok ⟨s', a.length, []⟩ ∧ M.waits s' ∧
      ∀ b, b ≠ [] → M.step s (a ++ b) = (M.step s' b).map fun r => ⟨r.next, a.length + r.read, r.out⟩

/-- A run on two buffers in one is the run on the first, resumed with the second. -/
theorem Progress.runAll_append (h : M.Progress inv rank bound) (hl : M.Local inv) (hs : inv s)
    (a b : List α) :
    M.runAll rank bound s (a ++ b) = (M.runAll rank bound s a).bind fun s' => M.runAll rank bound s' b := by
  refine h.induction (P := fun s a => M.runAll rank bound s (a ++ b) =
    (M.runAll rank bound s a).bind fun s' => M.runAll rank bound s' b) ?_ ?_ ?_ hs a
  · intro s _ hw
    rw [nil_append, runAll_wait hw, Outcome.pure_bind]
  · intro s a e hs hw he
    have hw' : ¬(a ++ b = [] ∧ M.waits s) := fun ⟨hab, h⟩ => hw ⟨(append_eq_nil_iff.mp hab).1, h⟩
    rcases hl s a hs hw with hfull | ⟨s', hs', -⟩
    · rw [runAll_error hw he, runAll_error hw' (by rw [hfull, he]), Outcome.fail_bind]
    · rw [hs'] at he
      cases he
  · intro s a r hs hw hr ih
    have hw' : ¬(a ++ b = [] ∧ M.waits s) := fun ⟨hab, h⟩ => hw ⟨(append_eq_nil_iff.mp hab).1, h⟩
    have hle := (h.step s a r hs hw hr).2.1
    rcases hl s a hs hw with hfull | ⟨s', hs', hwait, hres⟩
    · rw [h.runAll_step hs hw hr, h.runAll_step hs hw' (by rw [hfull, hr]), Outcome.after_bind, ← ih,
        drop_append_of_le_length hle]
    · obtain rfl : r = ⟨s', a.length, []⟩ := by
        rw [hs'] at hr
        exact (Except.ok.inj hr).symm
      have hinv : inv s' := (h.step s a _ hs hw hr).1
      rw [h.runAll_step hs hw hr]
      simp only [Outcome.after_nil, drop_length]
      rw [runAll_wait hwait, Outcome.pure_bind]
      by_cases hb : b = []
      · subst hb
        rw [append_nil, h.runAll_step hs hw hr]
        simp
      · have hwb : ¬(b = [] ∧ M.waits s') := fun hc => hb hc.1
        cases hr' : M.step s' b with
        | error e =>
          rw [runAll_error hwb hr', runAll_error hw' (by rw [hres b hb, hr']; rfl)]
        | ok r' =>
          rw [h.runAll_step hs hw' (by rw [hres b hb, hr']; rfl), h.runAll_step hinv hwb hr']
          rw [drop_append, drop_eq_nil_of_le (Nat.le_add_right _ _), nil_append, Nat.add_sub_cancel_left]

/-- A run that stops without an error stops in a state that satisfies the invariant and waits. -/
theorem Progress.runAll_stop (h : M.Progress inv rank bound) {s s' : σ} (hs : inv s) (buf : List α)
    (hstop : (M.runAll rank bound s buf).stop = .ok s') : inv s' ∧ M.waits s' := by
  refine h.induction (P := fun s buf => (M.runAll rank bound s buf).stop = .ok s' → inv s' ∧ M.waits s')
    ?_ ?_ ?_ hs buf hstop
  · intro s hs hw hstop
    rw [runAll_wait hw] at hstop
    obtain rfl : s = s' := Except.ok.inj hstop
    exact ⟨hs, hw⟩
  · intro s buf e hs hw he hstop
    rw [runAll_error hw he] at hstop
    cases hstop
  · intro s buf r hs hw hr ih hstop
    rw [h.runAll_step hs hw hr] at hstop
    exact ih hstop

/-! ## What is delivered -/

/-- A property that the steps establish of what they deliver, given an invariant that they keep, holds of all that a run
delivers. -/
theorem Progress.forall_out (h : M.Progress inv rank bound) {J : σ → Prop} {Q : β → Prop}
    (hstep : ∀ s buf r, inv s → J s → ¬(buf = [] ∧ M.waits s) → M.step s buf = .ok r → J r.next ∧ ∀ o ∈ r.out, Q o)
    (hs : inv s) (hJ : J s) (buf : List α) : ∀ o ∈ (M.runAll rank bound s buf).out, Q o := by
  refine h.induction (P := fun s buf => J s → ∀ o ∈ (M.runAll rank bound s buf).out, Q o) ?_ ?_ ?_ hs buf hJ
  · intro s _ hw _ o ho
    rw [runAll_wait hw] at ho
    cases ho
  · intro s buf e _ hw he _ o ho
    rw [runAll_error hw he] at ho
    cases ho
  · intro s buf r hs hw hr ih hJ o ho
    obtain ⟨hJ', hQ⟩ := hstep s buf r hs hJ hw hr
    rw [h.runAll_step hs hw hr] at ho
    rcases mem_append.mp ho with ho | ho
    · exact hQ o ho
    · exact ih hJ' o ho

/-- The machine that delivers something else for each thing delivered. -/
def flatMapOut {γ : Type*} (f : β → List γ) (M : Machine α β ε σ) : Machine α γ ε σ where
  step s buf := (M.step s buf).map fun r => ⟨r.next, r.read, r.out.flatMap f⟩
  waits := M.waits

theorem run_flatMapOut {γ : Type*} (f : β → List γ) (n : Nat) (s : σ) (buf : List α) :
    (M.flatMapOut f).run n s buf = ⟨(M.run n s buf).out.flatMap f, (M.run n s buf).stop⟩ := by
  induction n generalizing s buf with
  | zero => rfl
  | succ n ih =>
    have hwaits : (M.flatMapOut f).waits s = M.waits s := rfl
    have hstep : (M.flatMapOut f).step s buf =
        (M.step s buf).map fun r => ⟨r.next, r.read, r.out.flatMap f⟩ := rfl
    by_cases hw : buf = [] ∧ M.waits s
    · rw [run, if_pos (by rwa [hwaits]), run, if_pos hw]
      rfl
    · rw [run, if_neg (by rwa [hwaits]), run, if_neg hw, hstep]
      cases M.step s buf with
      | error e => rfl
      | ok r => simp [Except.map, Outcome.after, ih]

end Machine

end Osp.Lib
