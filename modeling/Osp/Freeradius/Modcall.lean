import Osp.Lib.Bytes

/-!
# Calling modules

`modcall` of `modcall.c`, which runs the sections of a policy with a stack of its own. Modules, conditions, attributes and random numbers are
those of a world that every call may change. `none` is an end of the process, by `exit` or by an assertion.
-/

namespace Osp.Freeradius

/-- `RLM_MODULE_*`. -/
inductive Rcode where
  | reject | fail | ok | handled | invalid | userlock | notfound | noop | updated
deriving DecidableEq

/-- `RLM_COMPONENT_*`. -/
inductive Component where
  | auth | autz | preacct | acct | sess | preProxy | postProxy | postAuth | recvCoa | sendCoa
deriving DecidableEq

/-- `default_component_results`. -/
def defaultComponentResults : Component → Rcode
  | .auth => .reject
  | .autz => .notfound
  | .sess => .fail
  | _ => .noop

/-- An entry of the table of actions: `MOD_ACTION_RETURN`, `MOD_ACTION_REJECT` or a priority. -/
inductive Action where
  | ret
  | reject
  | priority (n : Nat)
deriving DecidableEq

/-- The types of a `modcallable`, with what is called by those that call something. -/
inductive ModType (μ : Type) where
  | single (modinst : μ)
  | group
  | loadBalance
  | redundantLoadBalance
  | modIf
  | modElse
  | modElsif
  | update (vps : μ)
  | switch (name : Bytes)
  | case
  | policy
  | reference (server : μ)
  | xlat (text : μ)
deriving DecidableEq

/-- `modcallable`. The pointers `parent` and `next` are given by the place in the tree. -/
inductive Callable (μ : Type) where
  | mk (type : ModType μ) (name : Option Bytes) (actions : Rcode → Action) (children : List (Callable μ))

namespace Callable

variable {μ : Type}

def type : Callable μ → ModType μ
  | .mk type _ _ _ => type

def name : Callable μ → Option Bytes
  | .mk _ name _ _ => name

def actions : Callable μ → Rcode → Action
  | .mk _ _ actions _ => actions

def children : Callable μ → List (Callable μ)
  | .mk _ _ _ children => children

end Callable

/-- What a request is processed with: whether its processing was stopped from outside, `call_modsingle`, `radius_evaluate_condition`,
`radius_update_attrlist`, a nested call of another server, the expansion of a text, the printed value of an attribute, and `fr_rand`. -/
structure World (μ σ : Type) where
  stopped : σ → Bool
  callModsingle : μ → σ → Rcode × σ
  evaluateCondition : Rcode → Option Bytes → σ → Option Bool × σ
  updateAttrlist : μ → σ → Rcode × σ
  reference : μ → σ → Rcode × σ
  xlat : μ → σ → σ
  radiusXlat : Bytes → σ → Bytes × σ
  radiusGetVp : Bytes → σ → Option Bytes
  frRand : σ → Nat × σ

/-- The world of a request, and the modules that were called for it, newest first. -/
structure Request (μ σ : Type) where
  world : σ
  calls : List μ

section

variable {μ σ : Type} (w : World μ σ) (component : Component)

/-- The loop that picks one of the children: `p` is the next one of those that are left. -/
def pickLoop : Nat → Nat → Nat → Option Nat → σ → Option Nat × σ
  | 0, _, _, q, s => (q, s)
  | left + 1, p, _, none, s => pickLoop left (p + 1) 1 (some p) s
  | left + 1, p, count, some q, s =>
    let (r, s) := w.frRand s
    pickLoop left (p + 1) (count + 1) (some (if (count + 1) * (r % 65536) % 2 ^ 32 < 65536 then p else q)) s

/-- The child that is picked of so many. -/
def pick (n : Nat) (s : σ) : Option Nat × σ := pickLoop w n 0 1 none s

/-- The text that the cases are compared with. -/
def switchValue (name : Bytes) (s : σ) : Bytes × σ :=
  if 37 ∈ name then w.radiusXlat name s else ((w.radiusGetVp name s).getD [], s)

/-- The loop that looks for a case. -/
def findCase (buffer : Bytes) : List (Callable μ) → Nat → Option Nat → Option Nat
  | [], _, nullCase => nullCase
  | p :: ps, i, nullCase =>
    match p.name with
    | none => findCase buffer ps (i + 1) (nullCase.or (some i))
    | some name => if buffer = name then some i else findCase buffer ps (i + 1) nullCase

/-- One level of `modcall_stack`: the children of a parent, with the one that is next. -/
structure Frame (μ : Type) where
  parent : Option (Callable μ)
  siblings : List (Callable μ)
  child : Option Nat
  start : Option Nat
  priority : Nat
  result : Rcode

def Frame.current (f : Frame μ) : Option (Callable μ) := f.child.bind (f.siblings[·]?)

/-- The variables of `modcall` between two rounds of its loop, the stack with its top first. -/
structure Machine (μ σ : Type) where
  stack : List (Frame μ)
  myresult : Rcode
  wasIf : Bool
  ifTaken : Bool
  request : Request μ σ

/-- A round of the loop goes on with the next one, or leaves the loop. -/
inductive Outcome (μ σ : Type) where
  | running (m : Machine μ σ)
  | returned (code : Rcode) (request : Request μ σ)

/-- The child after the one at an index, by the type of the parent. -/
def nextChild (type : ModType μ) (n : Nat) (start : Option Nat) (i : Nat) : Option (Option Nat) :=
  match type with
  | .modIf | .modElse | .modElsif | .case | .group | .policy => some (if i + 1 < n then some (i + 1) else none)
  | .switch _ | .loadBalance => some none
  | .redundantLoadBalance =>
    let next := if i + 1 < n then i + 1 else 0
    some (if some next = start then none else some next)
  | _ => none

def isIf (parent : Option (Callable μ)) : Bool :=
  match parent.map Callable.type with
  | some .modIf | some .modElsif => true
  | _ => false

/-- Where the end of a round is entered: at the label `unroll` with a result, or at `next_section`. -/
inductive Entry where
  | unroll (myresult : Rcode)
  | nextSection

/-- The end of a round, from `unroll` or `next_section` on. It goes up the stack as long as groups are done. -/
def settle : List (Frame μ) → Entry → Rcode → Bool → Bool → Request μ σ → Option (Outcome μ σ)
  | [], _, _, _, _, _ => none
  | f :: rest, entry, myresult, wasIf, ifTaken, request =>
    f.current.bind fun child =>
      let doReturn := fun (result : Rcode) =>
        match rest with
        | [] => none
        | [_] => some (.returned result request)
        | _ => settle rest (.unroll result) result (isIf f.parent) (isIf f.parent) request
      let nextSection := fun (f : Frame μ) =>
        match f.parent with
        | none => some (.returned f.result request)
        | some parent =>
          (nextChild parent.type f.siblings.length f.start (f.child.getD 0)).bind fun next =>
            match next with
            | none => doReturn f.result
            | some j => some (.running ⟨{ f with child := some j } :: rest, myresult, wasIf, ifTaken, request⟩)
      match entry with
      | .nextSection => nextSection f
      | .unroll myresult =>
        match child.actions myresult with
        | .ret => doReturn myresult
        | .reject => doReturn .reject
        | .priority n => nextSection (if f.priority ≤ n then { f with result := myresult, priority := n } else f)

/-- The children of a group that are on the stack when it is entered. -/
def firstChild (child : Callable μ) (s : σ) : Option (Option Nat × σ) :=
  match child.type with
  | .modIf | .modElse | .modElsif | .case | .group | .policy => some (if child.children = [] then none else some 0, s)
  | .loadBalance | .redundantLoadBalance => some (pick w child.children.length s)
  | .switch name =>
    let (buffer, s) := switchValue w name s
    some (findCase buffer child.children 0 none, s)
  | _ => none

/-- The part of a round for a group. -/
def enterGroup (child : Callable μ) (m : Machine μ σ) : Option (Outcome μ σ) :=
  if 32 ≤ m.stack.length then none
  else
    (firstChild w child m.request.world).bind fun (first, s) =>
      let request := { m.request with world := s }
      let result := defaultComponentResults component
      match first with
      | some i => some (.running { m with stack := ⟨some child, child.children, some i, some i, 0, result⟩ :: m.stack, request })
      | none =>
        match m.stack with
        | [_] => some (.returned result request)
        | stack =>
          -- the flags are set by the type of the parent of the empty group
          let flag := isIf (m.stack.head?.bind Frame.parent)
          settle stack (.unroll result) result flag flag request

/-- The part of a round for a module. -/
def callSingle (modinst : μ) (m : Machine μ σ) : Option (Outcome μ σ) :=
  let (code, s) := w.callModsingle modinst m.request.world
  settle m.stack (.unroll code) code m.wasIf m.ifTaken ⟨s, modinst :: m.request.calls⟩

/-- One round of the loop of `modcall`. -/
def modcallStep (m : Machine μ σ) : Option (Outcome μ σ) :=
  if w.stopped m.request.world then some (.returned .fail m.request)
  else m.stack.head?.bind fun f =>
    match f.current with
    | none => some (.returned f.result m.request)
    | some child =>
      match child.type with
      | .single modinst => callSingle w modinst m
      | .modIf => branch child m
      | .modElse =>
        if !m.wasIf || m.ifTaken then settle m.stack (.unroll f.result) f.result m.wasIf m.ifTaken m.request
        else enterGroup w component child { m with myresult := f.result }
      | .modElsif =>
        if !m.wasIf || m.ifTaken then settle m.stack (.unroll f.result) f.result m.wasIf m.ifTaken m.request
        else branch child { m with myresult := f.result }
      | .update vps =>
        let (code, s) := w.updateAttrlist vps m.request.world
        let code := if code = .updated then m.myresult else code
        settle m.stack (.unroll code) code m.wasIf m.ifTaken { m.request with world := s }
      | .reference server =>
        let (code, s) := w.reference server m.request.world
        settle m.stack (.unroll code) code m.wasIf m.ifTaken { m.request with world := s }
      | .xlat text =>
        settle m.stack (.unroll m.myresult) m.myresult m.wasIf m.ifTaken { m.request with world := w.xlat text m.request.world }
      | _ => enterGroup w component child m
where
  /-- The part of a round for a condition. -/
  branch (child : Callable μ) (m : Machine μ σ) : Option (Outcome μ σ) :=
    let (condition, s) := w.evaluateCondition m.myresult child.name m.request.world
    if condition.getD false then enterGroup w component child { m with request := { m.request with world := s } }
    else
      match m.stack with
      | [] => none
      | f :: rest => settle ({ f with result := m.myresult } :: rest) .nextSection m.myresult true false { m.request with world := s }

/-- The loop of `modcall`, for at most so many rounds. -/
def modcallLoop : Nat → Machine μ σ → Option (Rcode × Request μ σ)
  | 0, _ => none
  | rounds + 1, m =>
    (modcallStep w component m).bind fun outcome =>
      match outcome with
      | .running m => modcallLoop rounds m
      | .returned code request => some (code, request)

/-- `modcall`, for at most so many rounds of its loop. -/
def modcall (rounds : Nat) (c : Callable μ) (request : Request μ σ) : Option (Rcode × Request μ σ) :=
  let result := defaultComponentResults component
  modcallLoop w component rounds ⟨[⟨none, [c], some 0, none, 0, result⟩], result, false, false, request⟩

end

end Osp.Freeradius
