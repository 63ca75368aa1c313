import Osp.Lib.Bytes

/-!
# The option negotiation automaton

`fsm.c`. The callbacks of a protocol act on a state of their own, which also has the MRU of the peer. What the automaton sends and
receives, the timers it sets and the callbacks that inform other layers are written to a log, the newest entry first.
-/

namespace Osp.Pppd

open Osp.Lib

/-- The states of the automaton. -/
inductive State where
  | initial
  | starting
  | closed
  | stopped
  | closing
  | stopping
  | reqsent
  | ackrcvd
  | acksent
  | opened
deriving DecidableEq

/-- The codes of the packets that the automaton sends. -/
inductive Code where
  | confreq
  | confack
  | confnak
  | confrej
  | termreq
  | termack
  | coderej
deriving DecidableEq

/-- The replies to a Configure-Request that `reqci` can ask for. -/
inductive Reply where
  | ack
  | nak
  | rej
deriving DecidableEq

def Reply.code : Reply → Code
  | .ack => .confack
  | .nak => .confnak
  | .rej => .confrej

/-- `OPT_PASSIVE`, `OPT_RESTART`, `OPT_SILENT`, and the limits that options set. -/
structure Options where
  passive : Bool
  restart : Bool
  silent : Bool
  timeouttime : Int
  maxconfreqtransmits : Int
  maxtermtransmits : Int
  maxnakloops : Int

structure Fsm where
  state : State
  options : Options
  id : UInt8
  reqid : UInt8
  seenAck : Bool
  retransmits : Int
  nakloops : Int
  rnakloops : Int
  termReason : Bytes

/-- The callbacks of a protocol, on a state of their own. `addci` and `reqci` return the options to send. -/
structure Callbacks (σ : Type) where
  resetci : Option (Fsm → σ → σ)
  cilen : Option (Fsm → σ → Nat)
  addci : Option (Fsm → σ → Nat → Bytes × σ)
  ackci : Option (Fsm → σ → Bytes → Bool × σ)
  nakci : Option (Fsm → σ → Bytes → Bool → Int × σ)
  rejci : Option (Fsm → σ → Bytes → Int × σ)
  reqci : Option (Fsm → σ → Bytes → Bool → Reply × Bytes × σ)
  up : Option (Fsm → σ → σ)
  down : Option (Fsm → σ → σ)
  starting : Option (Fsm → σ → σ)
  finished : Option (Fsm → σ → σ)
  retransmit : Option (Fsm → σ → σ)
  extcode : Option (Fsm → σ → UInt8 → UInt8 → Bytes → Bool × σ)
  peerMru : σ → Nat

/-- An entry of the log. -/
inductive Entry where
  | received (code id : UInt8) (data : Bytes)
  | sent (code : Code) (id : UInt8) (data : Bytes)
  /-- `ackci` has accepted an Ack -/
  | accepted (id : UInt8) (data : Bytes)
  | timeout (time : Int)
  | untimeout
  | up
  | down
  | starting
  | finished
  | retransmit

/-- The automaton, the state of the protocol and the log. -/
structure Layer (σ : Type) where
  fsm : Fsm
  user : σ
  log : List Entry

variable {σ : Type} (cb : Callbacks σ) (m : Layer σ)

namespace Layer

def emit (e : Entry) : Layer σ := { m with log := e :: m.log }

def setState (state : State) : Layer σ := { m with fsm := { m.fsm with state := state } }

def setRetransmits (n : Int) : Layer σ := { m with fsm := { m.fsm with retransmits := n } }

/-- Takes the next id for a request. -/
def nextReqid : Layer σ := { m with fsm := { m.fsm with id := m.fsm.id + 1, reqid := m.fsm.id + 1 } }

/-- A callback that only changes the state of the protocol, if it is there. -/
def inform : Option (Fsm → σ → σ) → Layer σ
  | none => m
  | some callback => { m with user := callback m.fsm m.user }

/-- A callback that informs another layer, if it is there. -/
def call (e : Entry) : Option (Fsm → σ → σ) → Layer σ
  | none => m
  | some callback => (m.inform (some callback)).emit e

end Layer

/-- `fsm_init`, with the options that are set afterwards. What it does not set is as it was. -/
def fsmInit (fsm : Fsm) (options : Options) (user : σ) : Layer σ :=
  ⟨{ fsm with state := .initial, options, id := 0, termReason := [] }, user, []⟩

/-- `fsm_sdata`. -/
def fsmSdata (code : Code) (id : UInt8) (data : Bytes) : Layer σ :=
  m.emit (.sent code id (data.take (cb.peerMru m.user - 4)))

/-- The options of a Configure-Request. -/
def requestOptions : Bytes × σ :=
  match cb.cilen, cb.addci with
  | some cilen, some addci => addci m.fsm m.user (min (cilen m.fsm m.user) (cb.peerMru m.user - 4))
  | _, _ => ([], m.user)

/-- The part of `fsm_sconfreq` before the packet is made up. -/
def prepareRequest (retransmit : Bool) : Layer σ :=
  let m :=
    if m.fsm.state ≠ .reqsent ∧ m.fsm.state ≠ .ackrcvd ∧ m.fsm.state ≠ .acksent then
      let m := m.inform cb.resetci
      { m with fsm := { m.fsm with nakloops := 0, rnakloops := 0 } }
    else m
  let m := if retransmit then m else (m.setRetransmits m.fsm.options.maxconfreqtransmits).nextReqid
  { m with fsm := { m.fsm with seenAck := false } }

/-- `fsm_sconfreq`. -/
def fsmSconfreq (retransmit : Bool) : Layer σ :=
  let m := prepareRequest cb m retransmit
  let (data, user) := requestOptions cb m
  let m := fsmSdata cb { m with user } .confreq m.fsm.reqid data
  (m.setRetransmits (m.fsm.retransmits - 1)).emit (.timeout m.fsm.options.timeouttime)

/-- `fsm_lowerup`. -/
def fsmLowerup : Layer σ :=
  match m.fsm.state with
  | .initial => m.setState .closed
  | .starting => if m.fsm.options.silent then m.setState .stopped else (fsmSconfreq cb m false).setState .reqsent
  | _ => m

/-- `fsm_lowerdown`. -/
def fsmLowerdown : Layer σ :=
  match m.fsm.state with
  | .closed => m.setState .initial
  | .stopped => (m.setState .starting).call .starting cb.starting
  | .closing => (m.setState .initial).emit .untimeout
  | .stopping | .reqsent | .ackrcvd | .acksent => (m.setState .starting).emit .untimeout
  | .opened => (m.call .down cb.down).setState .starting
  | .initial | .starting => m

/-- The down and up events that `OPT_RESTART` makes of an open event. -/
def restart : Layer σ := if m.fsm.options.restart then fsmLowerup cb (fsmLowerdown cb m) else m

/-- `fsm_open`. -/
def fsmOpen : Layer σ :=
  match m.fsm.state with
  | .initial => (m.setState .starting).call .starting cb.starting
  | .closed => if m.fsm.options.silent then m.setState .stopped else (fsmSconfreq cb m false).setState .reqsent
  | .closing => restart cb (m.setState .stopping)
  | .stopped | .opened => restart cb m
  | _ => m

/-- A Terminate-Request. -/
def sendTermreq : Layer σ :=
  let m := m.nextReqid
  fsmSdata cb m .termreq m.fsm.reqid m.fsm.termReason

/-- `terminate_layer`. -/
def terminateLayer (nextstate : State) : Layer σ :=
  let m := if m.fsm.state ≠ .opened then m.emit .untimeout else m.call .down cb.down
  let m := sendTermreq cb (m.setRetransmits m.fsm.options.maxtermtransmits)
  if m.fsm.retransmits = 0 then
    (m.setState (if nextstate = .closing then .closed else .stopped)).call .finished cb.finished
  else
    let m := m.emit (.timeout m.fsm.options.timeouttime)
    (m.setRetransmits (m.fsm.retransmits - 1)).setState nextstate

/-- The switch of `fsm_close`. -/
def closeLayer : Layer σ :=
  match m.fsm.state with
  | .starting => m.setState .initial
  | .stopped => m.setState .closed
  | .stopping => m.setState .closing
  | .reqsent | .ackrcvd | .acksent | .opened => terminateLayer cb m .closing
  | _ => m

/-- `fsm_close`. -/
def fsmClose (reason : Bytes) : Layer σ := closeLayer cb { m with fsm := { m.fsm with termReason := reason } }

/-- `fsm_timeout`. -/
def fsmTimeout : Layer σ :=
  match m.fsm.state with
  | .closing | .stopping =>
    if m.fsm.retransmits ≤ 0 then
      (m.setState (if m.fsm.state = .closing then .closed else .stopped)).call .finished cb.finished
    else
      let m := (sendTermreq cb m).emit (.timeout m.fsm.options.timeouttime)
      m.setRetransmits (m.fsm.retransmits - 1)
  | .reqsent | .ackrcvd | .acksent =>
    if m.fsm.retransmits ≤ 0 then
      let m := m.setState .stopped
      if m.fsm.options.passive then m else m.call .finished cb.finished
    else
      let m := fsmSconfreq cb (m.call .retransmit cb.retransmit) true
      if m.fsm.state = .ackrcvd then m.setState .reqsent else m
  | _ => m

/-- What `fsm_rconfreq` asks `reqci`, or decides without it. -/
def checkRequest (data : Bytes) : Reply × Bytes × σ :=
  match cb.reqci with
  | some reqci => reqci m.fsm m.user data (m.fsm.options.maxnakloops ≤ m.fsm.nakloops)
  | none => (if data = [] then .ack else .rej, data, m.user)

/-- The part of `fsm_rconfreq` that replies to the request. -/
def replyToRequest (id : UInt8) (data : Bytes) : Layer σ :=
  let (reply, options, user) := checkRequest cb m data
  let m := fsmSdata cb { m with user } reply.code id options
  match reply with
  | .ack =>
    let m :=
      if m.fsm.state = .ackrcvd then ((m.emit .untimeout).setState .opened).call .up cb.up else m.setState .acksent
    { m with fsm := { m.fsm with nakloops := 0 } }
  | .nak | .rej =>
    let m := if m.fsm.state ≠ .ackrcvd then m.setState .reqsent else m
    if reply = .nak then { m with fsm := { m.fsm with nakloops := m.fsm.nakloops + 1 } } else m

/-- Goes down and starts the negotiation again. -/
def renegotiate : Layer σ := (fsmSconfreq cb (m.call .down cb.down) false).setState .reqsent

/-- `fsm_rconfreq`. -/
def fsmRconfreq (id : UInt8) (data : Bytes) : Layer σ :=
  match m.fsm.state with
  | .closed => fsmSdata cb m .termack id []
  | .closing | .stopping => m
  | .opened => replyToRequest cb (renegotiate cb m) id data
  | .stopped => replyToRequest cb ((fsmSconfreq cb m false).setState .reqsent) id data
  | _ => replyToRequest cb m id data

/-- Whether `ackci` accepts an Ack. -/
def checkAck (data : Bytes) : Bool × σ :=
  match cb.ackci with
  | some ackci => ackci m.fsm m.user data
  | none => (data = [], m.user)

/-- The part of `fsm_rconfack` for an Ack that is accepted. -/
def takeAck (id : UInt8) : Layer σ :=
  match m.fsm.state with
  | .closed | .stopped => fsmSdata cb m .termack id []
  | .reqsent => (m.setState .ackrcvd).setRetransmits m.fsm.options.maxconfreqtransmits
  | .ackrcvd => (fsmSconfreq cb (m.emit .untimeout) false).setState .reqsent
  | .acksent =>
    (((m.emit .untimeout).setState .opened).setRetransmits m.fsm.options.maxconfreqtransmits).call .up cb.up
  | .opened => renegotiate cb m
  | _ => m

/-- `fsm_rconfack`. -/
def fsmRconfack (id : UInt8) (data : Bytes) : Layer σ :=
  if id ≠ m.fsm.reqid ∨ m.fsm.seenAck then m
  else
    let (ok, user) := checkAck cb m data
    let m := { m with user }
    if !ok then m
    else takeAck cb ({ m with fsm := { m.fsm with seenAck := true, rnakloops := 0 } }.emit (.accepted id data)) id

/-- What `nakci` or `rejci` says about a Nak or a Reject. -/
def checkNakRej (isNak : Bool) (data : Bytes) : Int × σ :=
  if isNak then
    match cb.nakci with
    | some nakci => nakci m.fsm m.user data (m.fsm.options.maxnakloops ≤ m.fsm.rnakloops)
    | none => (0, m.user)
  else
    match cb.rejci with
    | some rejci => rejci m.fsm m.user data
    | none => (0, m.user)

/-- The part of `fsm_rconfnakrej` for a Nak or a Reject that is accepted. -/
def takeNakRej (ret : Int) (id : UInt8) : Layer σ :=
  match m.fsm.state with
  | .closed | .stopped => fsmSdata cb m .termack id []
  | .reqsent | .acksent =>
    let m := m.emit .untimeout
    if ret < 0 then m.setState .stopped else fsmSconfreq cb m false
  | .ackrcvd => (fsmSconfreq cb (m.emit .untimeout) false).setState .reqsent
  | .opened => renegotiate cb m
  | _ => m

/-- `fsm_rconfnakrej`. -/
def fsmRconfnakrej (isNak : Bool) (id : UInt8) (data : Bytes) : Layer σ :=
  if id ≠ m.fsm.reqid ∨ m.fsm.seenAck then m
  else
    let m := { m with fsm := { m.fsm with rnakloops := if isNak then m.fsm.rnakloops + 1 else 0 } }
    let (ret, user) := checkNakRej cb m isNak data
    let m := { m with user }
    if ret = 0 then m else takeNakRej cb { m with fsm := { m.fsm with seenAck := true } } ret id

/-- `fsm_rtermreq`. -/
def fsmRtermreq (id : UInt8) : Layer σ :=
  let m := match m.fsm.state with
    | .ackrcvd | .acksent => m.setState .reqsent
    | .opened => (((m.setRetransmits 0).setState .stopping).call .down cb.down).emit (.timeout m.fsm.options.timeouttime)
    | _ => m
  fsmSdata cb m .termack id []

/-- `fsm_rtermack`. -/
def fsmRtermack : Layer σ :=
  match m.fsm.state with
  | .closing => ((m.emit .untimeout).setState .closed).call .finished cb.finished
  | .stopping => ((m.emit .untimeout).setState .stopped).call .finished cb.finished
  | .ackrcvd => m.setState .reqsent
  | .opened => renegotiate cb m
  | _ => m

/-- `fsm_rcoderej`. -/
def fsmRcoderej (data : Bytes) : Layer σ :=
  if data.length < 4 then m else if m.fsm.state = .ackrcvd then m.setState .reqsent else m

/-- Whether `extcode` handles a packet. -/
def checkExtcode (code id : UInt8) (data : Bytes) : Bool × σ :=
  match cb.extcode with
  | some extcode => extcode m.fsm m.user code id data
  | none => (false, m.user)

/-- A code that the automaton does not know: `extcode` handles it, or the packet is rejected. -/
def unknownCode (packet : Bytes) (code id : UInt8) (data : Bytes) : Layer σ :=
  let (ok, user) := checkExtcode cb m code id data
  let m := { m with user }
  if ok then m
  else
    let m := { m with fsm := { m.fsm with id := m.fsm.id + 1 } }
    fsmSdata cb m .coderej m.fsm.id packet

/-- The action of `fsm_input` for a packet of a code. -/
def dispatch (packet : Bytes) (code id : UInt8) (data : Bytes) : Layer σ :=
  match code with
  | 1 => fsmRconfreq cb m id data
  | 2 => fsmRconfack cb m id data
  | 3 => fsmRconfnakrej cb m true id data
  | 4 => fsmRconfnakrej cb m false id data
  | 5 => fsmRtermreq cb m id
  | 6 => fsmRtermack cb m
  | 7 => fsmRcoderej m data
  | _ => unknownCode cb m packet code id data

/-- `fsm_input`. -/
def fsmInput (packet : Bytes) : Layer σ :=
  match packet with
  | code :: id :: hi :: lo :: rest =>
    let len := hi.toNat * 256 + lo.toNat
    if len < 4 then m
    else if packet.length < len then m
    else
      let data := rest.take (len - 4)
      let m := m.emit (.received code id data)
      if m.fsm.state = .initial ∨ m.fsm.state = .starting then m else dispatch cb m (packet.take len) code id data
  | _ => m

/-- `fsm_protreject`. -/
def fsmProtreject : Layer σ :=
  match m.fsm.state with
  | .closing => ((m.emit .untimeout).setState .closed).call .finished cb.finished
  | .closed => (m.setState .closed).call .finished cb.finished
  | .stopping | .reqsent | .ackrcvd | .acksent => ((m.emit .untimeout).setState .stopped).call .finished cb.finished
  | .stopped => (m.setState .stopped).call .finished cb.finished
  | .opened => terminateLayer cb m .stopping
  | _ => m

/-! ## Runs -/

/-- What happens to an automaton. -/
inductive Event where
  | lowerup
  | lowerdown
  | open
  | close (reason : Bytes)
  | timeout
  | input (packet : Bytes)
  | protreject
  /-- the options are changed from outside -/
  | options (options : Options)

def step : Event → Layer σ
  | .lowerup => fsmLowerup cb m
  | .lowerdown => fsmLowerdown cb m
  | .open => fsmOpen cb m
  | .close reason => fsmClose cb m reason
  | .timeout => fsmTimeout cb m
  | .input packet => fsmInput cb m packet
  | .protreject => fsmProtreject cb m
  | .options options => { m with fsm := { m.fsm with options } }

def runEvents (events : List Event) : Layer σ := events.foldl (step cb) m

end Osp.Pppd
