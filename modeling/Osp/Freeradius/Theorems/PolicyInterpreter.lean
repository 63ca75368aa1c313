import Osp.Freeradius.Modcall

/-!
# The policy interpreter

What a policy means, by recursion over its sections, and that `modcall` calls the modules that are called by this reading, in the same
order, and returns the same code.
-/

namespace Osp.Freeradius

open List

/-! ## The recursive reading -/

/-- The highest priority of the children that ran. -/
def highest (ran : List (Rcode × Nat)) : Nat := (ran.map Prod.snd).foldr max 0

/-- The code of the latest child among those with the highest priority. -/
def latestHighest (default : Rcode) (ran : List (Rcode × Nat)) : Rcode :=
  ((ran.filter fun x => x.2 = highest ran).getLast?).elim default Prod.fst

section

variable {μ σ : Type} (w : World μ σ) (component : Component)

/-- A child of a section: its name, its table of actions and what it does to a request. -/
structure Branch (μ σ : Type) where
  name : Option Bytes
  actions : Rcode → Action
  run : Request μ σ → Rcode × Request μ σ

/-- The children run in order until one returns or rejects. -/
def runBranches (default : Rcode) : List (Rcode × Nat) → List (Branch μ σ) → Request μ σ → Rcode × Request μ σ
  | ran, [], request => (latestHighest default ran, request)
  | ran, b :: bs, request =>
    let (code, request) := b.run request
    match b.actions code with
    | .ret => (code, request)
    | .reject => (.reject, request)
    | .priority n => runBranches default (ran ++ [(code, n)]) bs request

/-- The children of a section that may run, in their order, and the world after they were chosen. -/
def chosen (type : ModType μ) (branches : List (Branch μ σ)) (s : σ) : List (Branch μ σ) × σ :=
  match type with
  | .group | .policy | .case => (branches, s)
  | .loadBalance =>
    let (q, s) := pick w branches.length s
    ((q.bind (branches[·]?)).toList, s)
  | .redundantLoadBalance =>
    let (q, s) := pick w branches.length s
    (branches.rotate (q.getD 0), s)
  | .switch name =>
    let (buffer, s) := switchValue w name s
    (((branches.find? fun b => b.name = some buffer).or (branches.find? fun b => b.name = none)).toList, s)
  | _ => ([], s)

mutual

/-- What a section does to a request. -/
def evaluate : Callable μ → Request μ σ → Rcode × Request μ σ
  | .mk (.single modinst) _ _ _, request =>
    let (code, s) := w.callModsingle modinst request.world
    (code, ⟨s, modinst :: request.calls⟩)
  | .mk type _ _ children, request =>
    let (branches, s) := chosen w type (evaluateAll children) request.world
    runBranches (defaultComponentResults component) [] branches { request with world := s }

/-- What the children of a section do. -/
def evaluateAll : List (Callable μ) → List (Branch μ σ)
  | [] => []
  | c :: cs => ⟨c.name, c.actions, evaluate c⟩ :: evaluateAll cs

end

end

/-! ## Sections -/

namespace Callable

variable {μ : Type}

/-- The types of sections that the reading is about. -/
def plainType : ModType μ → Bool
  | .single _ | .group | .loadBalance | .redundantLoadBalance | .switch _ | .case | .policy => true
  | _ => false

mutual

/-- There are no conditions in the section, and no calls other than of modules. -/
def plain : Callable μ → Bool
  | .mk type _ _ children => plainType type && plainAll children

def plainAll : List (Callable μ) → Bool
  | [] => true
  | c :: cs => plain c && plainAll cs

end

mutual

/-- How many sections are nested. -/
def depth : Callable μ → Nat
  | .mk (.single _) _ _ _ => 0
  | .mk _ _ _ children => depthAll children + 1

def depthAll : List (Callable μ) → Nat
  | [] => 0
  | c :: cs => max (depth c) (depthAll cs)

end

/-- Induction over the sections of a policy. -/
theorem induction {p : Callable μ → Prop}
    (h : ∀ type name actions children, (∀ c ∈ children, p c) → p (.mk type name actions children)) (c : Callable μ) : p c :=
  @Callable.rec μ p (fun cs => ∀ c ∈ cs, p c) (fun type name actions children ih => h type name actions children ih) (by simp)
    (fun c cs hc hcs => forall_mem_cons.2 ⟨hc, hcs⟩) c

theorem plainAll_iff (cs : List (Callable μ)) : plainAll cs = true ↔ ∀ c ∈ cs, plain c = true := by
  induction cs with
  | nil => simp [plainAll]
  | cons c cs ih => simp [plainAll, ih]

theorem depth_le_depthAll {c : Callable μ} {cs : List (Callable μ)} (h : c ∈ cs) : depth c ≤ depthAll cs := by
  induction cs with
  | nil => simp at h
  | cons d cs ih =>
    rw [depthAll]
    rcases mem_cons.1 h with rfl | h
    · omega
    · have := ih h
      omega

end Callable

/-! ## Priorities -/

theorem highest_append (ran : List (Rcode × Nat)) (code : Rcode) (n : Nat) : highest (ran ++ [(code, n)]) = max (highest ran) n := by
  induction ran with
  | nil => simp [highest]
  | cons x ran ih =>
    simp only [highest, cons_append, map_cons, foldr_cons] at ih ⊢
    omega

/-- One more child ran: its code is the one, unless an earlier one has a higher priority. -/
theorem latestHighest_append (default : Rcode) (ran : List (Rcode × Nat)) (code : Rcode) (n : Nat) :
    latestHighest default (ran ++ [(code, n)]) = if highest ran ≤ n then code else latestHighest default ran := by
  unfold latestHighest
  rw [highest_append, filter_append]
  split
  · rename_i hle
    rw [max_eq_right hle]
    simp
  · rw [max_eq_left (by omega), filter_cons_of_neg (by simp; omega), filter_nil, append_nil]

/-! ## The order of the children -/

section

variable {μ σ : Type} {w : World μ σ} {component : Component} {type : ModType μ}

theorem evaluateAll_eq (cs : List (Callable μ)) :
    evaluateAll w component cs = cs.map fun c => ⟨c.name, c.actions, evaluate w component c⟩ := by
  induction cs with
  | nil => rfl
  | cons c cs ih => rw [evaluateAll, ih, map_cons]

/-- The children that follow each other from one that is next, if there is one. -/
inductive Follows (next : Nat → Option (Option Nat)) (siblings : List (Callable μ)) : Option Nat → List (Callable μ) → Prop
  | done : Follows next siblings none []
  | step {i : Nat} {c : Callable μ} {after : Option Nat} {cs : List (Callable μ)} :
    siblings[i]? = some c → next i = some after → Follows next siblings after cs → Follows next siblings (some i) (c :: cs)

/-- The children of a group follow each other in their order. -/
theorem follows_group (htype : type = .group ∨ type = .policy ∨ type = .case) (siblings : List (Callable μ)) (start : Option Nat) (i : Nat) :
    Follows (nextChild type siblings.length start) siblings (if i < siblings.length then some i else none) (siblings.drop i) := by
  have hnext : ∀ i, nextChild type siblings.length start i = some (if i + 1 < siblings.length then some (i + 1) else none) := by
    intro i
    rcases htype with rfl | rfl | rfl <;> rfl
  induction hleft : siblings.length - i generalizing i with
  | zero =>
    rw [if_neg (by omega), drop_of_length_le (by omega)]
    exact .done
  | succ left ih =>
    have hi : i < siblings.length := by omega
    rw [if_pos hi, drop_eq_getElem_cons hi]
    exact .step (List.getElem?_eq_getElem hi) (hnext i) (ih (i + 1) (by omega))

/-- The children of a redundant load-balance section follow each other from the one that was picked, and from the first one on up to it. -/
theorem follows_redundant (siblings : List (Callable μ)) {q : Nat} (hq : q < siblings.length) :
    Follows (nextChild (.redundantLoadBalance : ModType μ) siblings.length (some q)) siblings (some q)
      (siblings.drop q ++ siblings.take q) := by
  -- up to the one that was picked
  have hfront : ∀ left i, q = i + left → Follows (nextChild (.redundantLoadBalance : ModType μ) siblings.length (some q)) siblings
      (if i = q then none else some i) ((siblings.take q).drop i) := by
    intro left
    induction left with
    | zero =>
      intro i hleft
      rw [if_pos (by omega), drop_of_length_le (by rw [length_take]; omega)]
      exact .done
    | succ left ih =>
      intro i hleft
      have hi : i < (siblings.take q).length := by rw [length_take]; omega
      rw [if_neg (by omega), drop_eq_getElem_cons hi, getElem_take]
      refine .step (List.getElem?_eq_getElem _) ?_ (ih (i + 1) (by omega))
      simp only [nextChild, if_pos (show i + 1 < siblings.length by omega), Option.some.injEq]
  -- from there to the end
  have hback : ∀ left i, siblings.length = i + 1 + left → q ≤ i →
      Follows (nextChild (.redundantLoadBalance : ModType μ) siblings.length (some q)) siblings (some i) (siblings.drop i ++ siblings.take q) := by
    intro left
    induction left with
    | zero =>
      intro i hleft hle
      have hi : i < siblings.length := by omega
      rw [drop_eq_getElem_cons hi, drop_of_length_le (by omega)]
      refine .step (List.getElem?_eq_getElem hi) ?_ (hfront q 0 (by omega))
      simp only [nextChild, if_neg (show ¬i + 1 < siblings.length by omega), Option.some.injEq]
    | succ left ih =>
      intro i hleft hle
      have hi : i < siblings.length := by omega
      rw [drop_eq_getElem_cons hi]
      refine .step (List.getElem?_eq_getElem hi) ?_ (ih (i + 1) (by omega) (by omega))
      simp only [nextChild, if_pos (show i + 1 < siblings.length by omega), Option.some.injEq, if_neg (show ¬i + 1 = q by omega)]
  exact hback (siblings.length - (q + 1)) q (by omega) le_rfl

theorem pickLoop_spec (left p count q : Nat) (s : σ) (hq : q < p) : ∃ q', (pickLoop w left p count (some q) s).1 = some q' ∧ q' < p + left := by
  induction left generalizing p count q s with
  | zero => exact ⟨q, rfl, by omega⟩
  | succ left ih =>
    obtain ⟨q', hq', hlt⟩ := ih (p + 1) (count + 1) (if (count + 1) * ((w.frRand s).1 % 65536) % 2 ^ 32 < 65536 then p else q) (w.frRand s).2
      (by split <;> omega)
    exact ⟨q', hq', by omega⟩

/-- One of the children is picked, if there are any. -/
theorem pick_spec (n : Nat) (s : σ) : n = 0 ∧ pick w n s = (none, s) ∨ ∃ q s', pick w n s = (some q, s') ∧ q < n := by
  cases n with
  | zero => exact .inl ⟨rfl, rfl⟩
  | succ n =>
    obtain ⟨q, hq, hlt⟩ := pickLoop_spec (w := w) n 1 1 0 s (by omega)
    exact .inr ⟨q, (pickLoop w n 1 1 (some 0) s).2, Prod.ext hq rfl, by omega⟩

/-- The first case with the name, or the first one without a name. -/
theorem findCase_eq (buffer : Bytes) (before cs : List (Callable μ)) {nullCase : Option Nat} {null : Option (Callable μ)}
    (hnull : nullCase.map ((before ++ cs)[·]?) = null.map some) :
    (findCase buffer cs before.length nullCase).map ((before ++ cs)[·]?) =
      ((cs.find? fun c => c.name = some buffer).or (null.or (cs.find? fun c => c.name = none))).map some := by
  induction cs generalizing before nullCase null with
  | nil => simpa [findCase] using hnull
  | cons c cs ih =>
    have hsplit : before ++ c :: cs = before ++ [c] ++ cs := by simp
    have hlength : (before ++ [c]).length = before.length + 1 := by simp
    have hget : (before ++ c :: cs)[before.length]? = some c := by simp
    rw [findCase]
    cases hname : c.name with
    | none =>
      have hnull' : (nullCase.or (some before.length)).map ((before ++ [c] ++ cs)[·]?) = (null.or (some c)).map some := by
        rw [← hsplit, Option.map_or, hnull, Option.map_or, Option.map_some, hget, Option.map_some]
      have hrest := ih (before ++ [c]) hnull'
      rw [hlength, ← hsplit] at hrest
      rw [hrest]
      simp [hname]
    | some name =>
      dsimp only
      split
      · rename_i heq
        simp [hname, heq]
      · rename_i hne
        have hrest := ih (before ++ [c]) (by rw [← hsplit]; exact hnull)
        rw [hlength, ← hsplit] at hrest
        rw [hrest]
        have hne' : ¬name = buffer := fun h => hne h.symm
        simp [hname, hne']

/-- Entering a section puts the first of its children on the stack that may run, and they follow each other from there. -/
theorem firstChild_spec (hplain : Callable.plainType type = true) (hsingle : ∀ m, type ≠ .single m) (name : Option Bytes)
    (actions : Rcode → Action) (children : List (Callable μ)) (s : σ) :
    ∃ first s' cs, firstChild w (.mk type name actions children) s = some (first, s') ∧
      chosen w type (evaluateAll w component children) s = (evaluateAll w component cs, s') ∧
      Follows (nextChild type children.length first) children first cs := by
  by_cases htype : type = .group ∨ type = .policy ∨ type = .case
  · refine ⟨if children = [] then none else some 0, s, children, ?_, ?_, ?_⟩
    · rcases htype with rfl | rfl | rfl <;> rfl
    · rcases htype with rfl | rfl | rfl <;> rfl
    cases children with
    | nil => exact .done
    | cons c children => exact follows_group htype (c :: children) (some 0) 0
  cases type with
  | group | policy | case => simp at htype
  | loadBalance =>
    rcases pick_spec (w := w) children.length s with ⟨hzero, hpick⟩ | ⟨q, s', hpick, hlt⟩
    · refine ⟨none, s, [], by simp only [firstChild, Callable.type, Callable.children, hpick], ?_, .done⟩
      simp only [chosen, evaluateAll_eq, length_map, hpick]
      rfl
    · refine ⟨some q, s', [children[q]], by simp only [firstChild, Callable.type, Callable.children, hpick], ?_,
        .step (List.getElem?_eq_getElem hlt) rfl .done⟩
      simp only [chosen, evaluateAll_eq, length_map, hpick, Option.bind_some, List.getElem?_map, List.getElem?_eq_getElem hlt]
      rfl
  | redundantLoadBalance =>
    rcases pick_spec (w := w) children.length s with ⟨hzero, hpick⟩ | ⟨q, s', hpick, hlt⟩
    · obtain rfl := length_eq_zero_iff.1 hzero
      exact ⟨none, s, [], by simp only [firstChild, Callable.type, Callable.children, hpick], rfl, .done⟩
    · have hfollows := follows_redundant children hlt
      rw [← rotate_eq_drop_append_take (by omega)] at hfollows
      refine ⟨some q, s', children.rotate q, by simp only [firstChild, Callable.type, Callable.children, hpick], ?_, hfollows⟩
      simp only [chosen, evaluateAll_eq, length_map, hpick, Option.getD_some, map_rotate]
  | switch text =>
    generalize hfound : (children.find? fun c => c.name = some (switchValue w text s).1).or (children.find? fun c => c.name = none) = found
    have hcase : (findCase (switchValue w text s).1 children 0 none).map (children[·]?) = found.map some := by
      rw [← hfound]
      have hnull : (none : Option Nat).map (([] ++ children)[·]?) = (none : Option (Callable μ)).map some := rfl
      exact findCase_eq (switchValue w text s).1 [] children hnull
    have hchosen : chosen w (.switch text) (evaluateAll w component children) s =
        (evaluateAll w component found.toList, (switchValue w text s).2) := by
      simp only [chosen, evaluateAll_eq, List.find?_map, ← hfound, Function.comp_def, ← Option.map_or, Option.toList_map]
    refine ⟨findCase (switchValue w text s).1 children 0 none, (switchValue w text s).2, found.toList, rfl, hchosen, ?_⟩
    cases found with
    | none =>
      rw [Option.map_eq_none_iff.1 hcase]
      exact .done
    | some c =>
      obtain ⟨i, hi, hget⟩ := Option.map_eq_some_iff.1 hcase
      rw [hi]
      exact .step hget rfl .done
  | single m => exact absurd rfl (hsingle m)
  | modIf | modElse | modElsif | update | reference | xlat => cases hplain

/-! ## The stack and the recursion -/

/-- The loop goes on after a round. -/
def resume (w : World μ σ) (component : Component) (rounds : Nat) (outcome : Option (Outcome μ σ)) : Option (Rcode × Request μ σ) :=
  outcome.bind fun outcome =>
    match outcome with
    | .running m => modcallLoop w component rounds m
    | .returned code request => some (code, request)

/-- The label `do_return`, with the stack below the group that is done. -/
def doReturn (parent : Option (Callable μ)) (rest : List (Frame μ)) (result : Rcode) (request : Request μ σ) : Option (Outcome μ σ) :=
  match rest with
  | [] => none
  | [_] => some (.returned result request)
  | _ => settle rest (.unroll result) result (isIf parent) (isIf parent) request

theorem settle_unroll {f : Frame μ} {child parent : Callable μ} (rest : List (Frame μ)) (hcurrent : f.current = some child)
    (hparent : f.parent = some parent) (code myresult : Rcode) (wasIf ifTaken : Bool) (request : Request μ σ) :
    settle (f :: rest) (.unroll code) myresult wasIf ifTaken request =
      match child.actions code with
      | .ret => doReturn (some parent) rest code request
      | .reject => doReturn (some parent) rest .reject request
      | .priority n =>
        let f' := if f.priority ≤ n then { f with result := code, priority := n } else f
        (nextChild parent.type f.siblings.length f.start (f.child.getD 0)).bind fun next =>
          match next with
          | none => doReturn (some parent) rest f'.result request
          | some j => some (.running ⟨{ f' with child := some j } :: rest, myresult, wasIf, ifTaken, request⟩) := by
  rw [settle, hcurrent, Option.bind_some]
  cases haction : child.actions code with
  | ret | reject => rcases rest with _ | ⟨g, _ | ⟨h, rest⟩⟩ <;> simp [haction, doReturn, hparent]
  | priority n =>
    rcases hnext : nextChild parent.type f.siblings.length f.start (f.child.getD 0) with _ | _ | j <;>
      by_cases hle : f.priority ≤ n <;> rcases rest with _ | ⟨g, _ | ⟨h, rest⟩⟩ <;> simp [haction, doReturn, hle, hparent, hnext]

/-- What holds of a section that is on the top of the stack: the loop comes to the label `unroll` with the code of the section. -/
def Runs (w : World μ σ) (component : Component) (c : Callable μ) : Prop :=
  ∀ (f g : Frame μ) (rest : List (Frame μ)) (myresult : Rcode) (wasIf ifTaken : Bool) (request : Request μ σ), f.current = some c →
    rest.length + 2 + c.depth ≤ 32 → ∃ k wasIf' ifTaken', ∀ rounds,
      modcallLoop w component (rounds + k) ⟨f :: g :: rest, myresult, wasIf, ifTaken, request⟩ =
        resume w component rounds (settle (f :: g :: rest) (.unroll (evaluate w component c request).1) (evaluate w component c request).1
          wasIf' ifTaken' (evaluate w component c request).2)

/-- The level of a parent's children, with one of them next after some of them ran. -/
structure Frame.Within (f : Frame μ) (component : Component) (parent : Callable μ) (start : Option Nat) (i : Nat) (ran : List (Rcode × Nat)) :
    Prop where
  parent_eq : f.parent = some parent
  siblings_eq : f.siblings = parent.children
  child_eq : f.child = some i
  start_eq : f.start = start
  priority_eq : f.priority = highest ran
  result_eq : f.result = latestHighest (defaultComponentResults component) ran

section

variable {f : Frame μ} {parent : Callable μ} {start : Option Nat} {i : Nat} {done : List (Rcode × Nat)}
  (h : f.Within component parent start i done)

include h

theorem Frame.Within.current {c : Callable μ} (hget : parent.children[i]? = some c) : f.current = some c := by
  rw [Frame.current, h.child_eq, h.siblings_eq, Option.bind_some, hget]

theorem Frame.Within.next :
    nextChild parent.type f.siblings.length f.start (f.child.getD 0) = nextChild parent.type parent.children.length start i := by
  rw [h.siblings_eq, h.start_eq, h.child_eq, Option.getD_some]

/-- The level after one more child ran. -/
theorem Frame.Within.ran (code : Rcode) (n j : Nat) :
    Frame.Within { (if f.priority ≤ n then { f with result := code, priority := n } else f) with child := some j } component parent start j
      (done ++ [(code, n)]) := by
  by_cases hle : f.priority ≤ n
  · rw [if_pos hle]
    refine ⟨h.parent_eq, h.siblings_eq, rfl, h.start_eq, ?_, ?_⟩
    · rw [highest_append, ← h.priority_eq, max_eq_right hle]
    · rw [latestHighest_append, ← h.priority_eq, if_pos hle]
  · rw [if_neg hle]
    refine ⟨h.parent_eq, h.siblings_eq, rfl, h.start_eq, ?_, ?_⟩
    · rw [highest_append, ← h.priority_eq, max_eq_left (by omega)]
    · rw [latestHighest_append, ← h.priority_eq, if_neg hle]
      exact h.result_eq

end

/-- The children of a section run one after the other, up to the label `do_return` of the section. -/
theorem loop_children (parent : Callable μ) {f g : Frame μ} {rest : List (Frame μ)} {cs : List (Callable μ)} {i : Nat} {start first : Option Nat}
    {ran : List (Rcode × Nat)} (hruns : ∀ c ∈ parent.children, Runs w component c)
    (hdepth : ∀ c ∈ parent.children, rest.length + 2 + c.depth ≤ 32)
    (hfollows : Follows (nextChild parent.type parent.children.length start) parent.children first cs) (hfirst : first = some i)
    (hf : f.Within component parent start i ran) (myresult : Rcode) (wasIf ifTaken : Bool) (request : Request μ σ) :
    let result := runBranches (defaultComponentResults component) ran (evaluateAll w component cs) request
    ∃ k, ∀ rounds, modcallLoop w component (rounds + k) ⟨f :: g :: rest, myresult, wasIf, ifTaken, request⟩ =
      resume w component rounds (doReturn (some parent) (g :: rest) result.1 result.2) := by
  induction hfollows generalizing i f ran myresult wasIf ifTaken request with
  | done => cases hfirst
  | @step i c after cs hget hnext hrest ih =>
    cases hfirst
    have hmem := mem_of_getElem? hget
    have hcurrent := hf.current hget
    obtain ⟨k, wasIf', ifTaken', hloop⟩ := hruns c hmem f g rest myresult wasIf ifTaken request hcurrent (hdepth c hmem)
    rw [evaluateAll, runBranches]
    dsimp only
    cases haction : c.actions (evaluate w component c request).1 with
    | ret | reject =>
      refine ⟨k, fun rounds => ?_⟩
      rw [hloop, settle_unroll (g :: rest) hcurrent hf.parent_eq, haction]
    | priority n =>
      cases after with
      | none =>
        cases hrest
        refine ⟨k, fun rounds => ?_⟩
        rw [hloop, settle_unroll (g :: rest) hcurrent hf.parent_eq, haction]
        dsimp only
        rw [hf.next, hnext, Option.bind_some, evaluateAll, runBranches, ← (hf.ran (evaluate w component c request).1 n 0).result_eq]
      | some j =>
        obtain ⟨k', hloop'⟩ := ih rfl (hf.ran (evaluate w component c request).1 n j) (evaluate w component c request).1 wasIf' ifTaken'
          (evaluate w component c request).2
        refine ⟨k' + k, fun rounds => ?_⟩
        rw [← Nat.add_assoc, hloop, settle_unroll (g :: rest) hcurrent hf.parent_eq, haction]
        dsimp only
        rw [hf.next, hnext, Option.bind_some]
        exact hloop' rounds

theorem loop_succ (rounds : Nat) (m : Machine μ σ) :
    modcallLoop w component (rounds + 1) m = resume w component rounds (modcallStep w component m) := rfl

/-- A section that is entered: its children are on the stack, or it is empty. -/
theorem loop_section (hstop : ∀ s, w.stopped s = false) {name : Option Bytes} {actions : Rcode → Action}
    {children : List (Callable μ)} (hplain : Callable.plainType type = true) (hsingle : ∀ m, type ≠ .single m)
    (hruns : ∀ c ∈ children, Runs w component c) {f : Frame μ} (rest : List (Frame μ)) {c : Callable μ}
    (hc : c = .mk type name actions children) (hcurrent : f.current = some c) (hdepth : rest.length + 1 + c.depth ≤ 32)
    (myresult : Rcode) (wasIf ifTaken : Bool) (request : Request μ σ) :
    ∃ k parent, ∀ rounds, modcallLoop w component (rounds + k) ⟨f :: rest, myresult, wasIf, ifTaken, request⟩ =
      resume w component rounds (doReturn parent (f :: rest) (evaluate w component c request).1 (evaluate w component c request).2) := by
  have hevaluate : evaluate w component c request =
      runBranches (defaultComponentResults component) [] (chosen w type (evaluateAll w component children) request.world).1
        { request with world := (chosen w type (evaluateAll w component children) request.world).2 } := by
    rw [hc]
    cases type with
    | single m => exact absurd rfl (hsingle m)
    | _ => rfl
  have hdepth_eq : c.depth = Callable.depthAll children + 1 := by
    rw [hc]
    cases type with
    | single m => exact absurd rfl (hsingle m)
    | _ => rfl
  have hstep : modcallStep w component ⟨f :: rest, myresult, wasIf, ifTaken, request⟩ =
      enterGroup w component c ⟨f :: rest, myresult, wasIf, ifTaken, request⟩ := by
    simp only [modcallStep, hstop, Bool.false_eq_true, if_false, List.head?_cons, Option.bind_some, hcurrent, hc, Callable.type]
    cases type with
    | single m => exact absurd rfl (hsingle m)
    | group | policy | case | loadBalance | redundantLoadBalance | switch => rfl
    | _ => cases hplain
  obtain ⟨first, s, cs, hfirst, hchosen, hcs⟩ := @firstChild_spec μ σ w component type hplain hsingle name actions children request.world
  rw [← hc] at hfirst
  rw [hevaluate, hchosen]
  rw [enterGroup, if_neg (by simp only [length_cons]; omega), hfirst, Option.bind_some] at hstep
  rcases first with _ | i
  · cases hcs
    refine ⟨1, f.parent, fun rounds => ?_⟩
    rw [loop_succ, hstep, evaluateAll, runBranches]
    cases rest <;> rfl
  · subst hc
    have hwithin : Frame.Within ⟨some _, children, some i, some i, 0, defaultComponentResults component⟩ component
        (.mk type name actions children) (some i) i [] := ⟨rfl, rfl, rfl, rfl, rfl, rfl⟩
    have hdepth' : ∀ c ∈ children, rest.length + 2 + c.depth ≤ 32 := by
      intro c hc
      have := Callable.depth_le_depthAll hc
      omega
    obtain ⟨k, hloop⟩ : ∃ k, ∀ rounds, modcallLoop w component (rounds + k) ⟨_ :: f :: rest, _, _, _, _⟩ = _ :=
      loop_children (.mk type name actions children) hruns hdepth' hcs rfl hwithin myresult wasIf ifTaken { request with world := s }
    refine ⟨k + 1, some (.mk type name actions children), fun rounds => ?_⟩
    rw [← Nat.add_assoc, loop_succ, hstep]
    exact hloop rounds

theorem runs_of_plain (hstop : ∀ s, w.stopped s = false) (c : Callable μ) (hplain : c.plain = true) : Runs w component c := by
  induction c using Callable.induction with
  | h type name actions children ih =>
    rw [Callable.plain, Bool.and_eq_true, Callable.plainAll_iff] at hplain
    intro f g rest myresult wasIf ifTaken request hcurrent hdepth
    by_cases hsingle : ∃ m, type = .single m
    · obtain ⟨m, rfl⟩ := hsingle
      refine ⟨1, wasIf, ifTaken, fun rounds => ?_⟩
      rw [loop_succ, modcallStep]
      simp only [hstop, Bool.false_eq_true, if_false, List.head?_cons, Option.bind_some, hcurrent, Callable.type]
      rfl
    · have hsingle' : ∀ m, type ≠ .single m := fun m h => hsingle ⟨m, h⟩
      obtain ⟨k, parent, hloop⟩ := loop_section hstop hplain.1 hsingle' (fun c hc => ih c hc (hplain.2 c hc)) (g :: rest) rfl hcurrent
        hdepth myresult wasIf ifTaken request
      exact ⟨k, isIf parent, isIf parent, hloop⟩

/-- For every section of a policy without conditions that is nested less than 32 deep, `modcall` ends, has called the modules that the recursive
reading calls, in the same order, and returns the same code, unless the request is stopped from outside. -/
theorem modcall_eq_evaluate (w : World μ σ) (component : Component) (hstop : ∀ s, w.stopped s = false) (root : Callable μ)
    (hplain : root.plain = true)
    (hgroup : ∀ m, root.type ≠ .single m) (hdepth : root.depth < 32) (request : Request μ σ) :
    ∃ enough, ∀ rounds, enough ≤ rounds → modcall w component rounds root request = some (evaluate w component root request) := by
  obtain ⟨type, name, actions, children⟩ := root
  rw [Callable.plain, Bool.and_eq_true, Callable.plainAll_iff] at hplain
  have hcurrent : Frame.current ⟨none, [Callable.mk type name actions children], some 0, none, 0, defaultComponentResults component⟩ =
      some (.mk type name actions children) := rfl
  obtain ⟨k, parent, hloop⟩ := loop_section hstop hplain.1 hgroup (fun c hc => runs_of_plain hstop c (hplain.2 c hc)) [] rfl hcurrent
    (by simp only [length_nil]; omega) (defaultComponentResults component) false false request
  refine ⟨k, fun rounds hle => ?_⟩
  obtain ⟨n, rfl⟩ : ∃ n, rounds = n + k := ⟨rounds - k, by omega⟩
  exact hloop n

end

/-- Modules are numbers: an even one is found to be ok, an odd one fails. Random numbers count up, and every attribute is `b`. -/
def sampleWorld : World Nat Nat where
  stopped _ := false
  callModsingle m s := (if m % 2 = 0 then .ok else .fail, s)
  evaluateCondition _ _ s := (none, s)
  updateAttrlist _ s := (.updated, s)
  reference _ s := (.noop, s)
  xlat _ s := s
  radiusXlat name s := (name, s)
  radiusGetVp _ _ := some [98]
  frRand s := (s, s + 40000)

/-- A fail is left behind, anything else has a priority. -/
def sampleActions : Rcode → Action
  | .fail => .priority 1
  | .ok => .priority 3
  | .updated => .ret
  | _ => .priority 2

/-- A switch that comes to its second case, with a redundant load-balance section in it. -/
def samplePolicy : Callable Nat :=
  .mk .group none sampleActions
    [.mk (.single 1) none sampleActions [],
      .mk (.switch [85]) none sampleActions
        [.mk .case (some [97]) (fun _ => .ret) [.mk (.single 2) none sampleActions []],
          .mk .case (some [98]) (fun _ => .ret)
            [.mk .redundantLoadBalance none sampleActions
              [.mk (.single 3) none sampleActions [], .mk (.single 5) none sampleActions [], .mk (.single 4) none (fun _ => .ret) []]]],
      .mk .policy none sampleActions []]

theorem modcall_eq_evaluate_samplePolicy : ∃ enough, ∀ rounds, enough ≤ rounds →
    modcall sampleWorld .autz rounds samplePolicy ⟨1, []⟩ = some (.ok, ⟨80001, [4, 5, 1]⟩) :=
  modcall_eq_evaluate sampleWorld .autz (fun _ => rfl) samplePolicy (by decide) (by intro m h; cases h) (by decide) ⟨1, []⟩

end Osp.Freeradius
