import Osp.Lib.Reentrant
import Osp.Websocketpp.Close
import Osp.Websocketpp.WriteQueue

/-!
# A connection

`impl/connection_impl.hpp`: every function that writes `m_state` or `m_internal_state`, ends the connection or puts a frame on the
send queue. The calls are those of the user and the callbacks of the transport, which may come in any order. Wherever a function
calls the transport or a handler of the user, that code may make calls of its own before the function goes on; the argument `yield`
runs it. The processor, and what the opening handshake finds in a request or a response, are parameters.
-/

namespace Osp.Websocketpp

open Osp.Lib

/-- `session::state::value`. -/
inductive SessionState
  | connecting
  | open
  | closing
  | closed
deriving DecidableEq

/-- The place of a state in the life of a connection. -/
def SessionState.value : SessionState → Nat
  | .connecting => 0
  | .open => 1
  | .closing => 2
  | .closed => 3

/-- `session::internal_state::value`. -/
inductive InternalState
  | userInit
  | transportInit
  | readHttpRequest
  | writeHttpRequest
  | readHttpResponse
  | processHttpRequest
  | processConnection
deriving DecidableEq

/-- `session::http_state::value`. -/
inductive HttpState
  | init
  | deferred
  | bodyWritten
  | closed
deriving DecidableEq

/-- `terminate_status`, apart from `unknown`. -/
inductive TerminateStatus
  | failed
  | closed
deriving DecidableEq

/-- What a connection uses of its processor. The `prepare` functions include getting a message buffer to write into. Control
messages are not data frames. -/
structure FrameProcessor (P : Type) where
  create : Int → Option P
  version : P → Int
  clientHandshakeRequest : P → Option ConnectionError
  consume : P → Bytes → P × Nat × Option ProcessorError
  ready : P → Bool
  getMessage : P → Option Message × P
  prepareDataFrame : P → Message → Except ConnectionError Prepared × P
  preparePing : P → Bytes → Except ConnectionError Prepared × P
  preparePong : P → Bytes → Except ConnectionError Prepared × P
  prepareClose : P → UInt16 → Bytes → Except ConnectionError Prepared × P
  prepareDataFrame_control : ∀ p msg, msg.opcode.isControl = true → ∃ ec, (prepareDataFrame p msg).1 = .error ec

/-- A connection. The last six members record what has happened: the values `m_state` has had, the `async_shutdown` calls whose
handler has not been called, how many there were, the fail and close handlers that were called, the control frames that were
processed, with the state they were processed in, and how often code from outside has run. Lists are newest first, except the
pending calls. -/
structure Connection (P : Type) where
  state : SessionState
  internalState : InternalState
  httpState : HttpState
  isHttp : Bool
  processor : Option P
  ec : Option ConnectionError
  statusCode : Nat
  remoteCloseCode : UInt16
  remoteCloseReason : Bytes
  wasClean : Bool
  readFlag : Bool
  buf : Bytes
  queue : WriteQueue
  states : List SessionState
  shutdowns : List TerminateStatus
  shutdownCount : Nat
  ended : List TerminateStatus
  controls : List (SessionState × Message)
  clock : Nat

/-- The configuration of a connection: its role, the flags and the client version of `config`, its processor, whether it has an HTTP
handler, and what its validate and ping handlers answer. -/
structure Config (P : Type) where
  server : Bool
  dropOnProtocolError : Bool
  silentClose : Bool
  clientVersion : Int
  processor : FrameProcessor P
  httpHandler : Bool
  validateHandler : Connection P → Bool
  pingHandler : Connection P → Bytes → Bool

/-- The places where code from outside runs: calls of the transport, and handlers. -/
inductive Point
  | init
  | asyncRead
  | asyncWrite
  | asyncShutdown
  | dispatch
  | interrupt
  | openHandler
  | messageHandler (msg : Message)
  | pingHandler (payload : Bytes)
  | pongHandler (payload : Bytes)
  | pongTimeoutHandler (payload : Bytes)
  | httpHandler
  | validateHandler
  | interruptHandler
  | failHandler
  | closeHandler
  | terminationHandler

/-- What the opening handshake finds in a complete request. -/
structure CompleteRequest where
  isWebsocketHandshake : Bool
  version : Int
  hasKey3 : Bool
  uriValid : Bool
  validate : Option ConnectionError
  negotiation : Option ConnectionError
  process : Option ConnectionError
  rest : Bytes

/-- What reading bytes of a request comes to. -/
inductive RequestOutcome
  | oversized
  | rejected (statusCode : Nat)
  | overread
  | incomplete
  | complete (request : CompleteRequest)

/-- What reading bytes of a response comes to. -/
inductive ResponseOutcome
  | rejected
  | incomplete
  | ready (validate negotiation : Option ConnectionError) (rest : Bytes)

variable {P : Type}

namespace Connection

/-- A connection as constructed. -/
def new : Connection P where
  state := .connecting
  internalState := .userInit
  httpState := .init
  isHttp := false
  processor := none
  ec := none
  statusCode := 0
  remoteCloseCode := closeAbnormalClose
  remoteCloseReason := []
  wasClean := false
  readFlag := true
  buf := []
  queue := .empty
  states := [.connecting]
  shutdowns := []
  shutdownCount := 0
  ended := []
  controls := []
  clock := 0

/-- Writes `m_state`. -/
def setState (c : Connection P) (state : SessionState) : Connection P := { c with state, states := state :: c.states }

variable (cfg : Config P) (yield : Point → Connection P → Connection P) (ec : Option ConnectionError) (request : CompleteRequest) (c : Connection P)

/-! ## The end of a connection -/

/-- The connection is closed and the transport is told to shut down. -/
def shut (tstat : TerminateStatus) (c : Connection P) : Connection P :=
  { c.setState .closed with shutdowns := c.shutdowns ++ [tstat], shutdownCount := c.shutdownCount + 1 }

/-- `terminate`. -/
def terminate : Connection P :=
  let c := if ec.isSome then { c with ec } else c
  let c := if c.isHttp then { c with httpState := .closed } else c
  match c.state with
  | .connecting => yield .asyncShutdown (c.shut .failed)
  | .closed => c
  | .open | .closing => yield .asyncShutdown (c.shut .closed)

/-- `handle_terminate`, for the oldest `async_shutdown` that it has not been called for. -/
def handleTerminate : Connection P :=
  match c.shutdowns with
  | [] => c
  | tstat :: shutdowns =>
    let c := { c with shutdowns }
    let c :=
      match tstat with
      | .failed =>
        if c.ec ≠ some .httpConnectionEnded then yield .failHandler { c with ended := .failed :: c.ended } else c
      | .closed => yield .closeHandler { c with ended := .closed :: c.ended }
    yield .terminationHandler c

/-! ## Writing frames -/

/-- The end of `send`, `ping`, `pong` and `send_close_frame`. -/
def pushMessage (msg : Outgoing) (c : Connection P) : Connection P :=
  let needsWriting := (c.queue.writePush msg).needsWriting
  let c := { c with queue := c.queue.push msg }
  if needsWriting then yield .dispatch c else c

/-- What `prepare` returns for the processor of the connection. A connection without one does not get here. -/
def prepared (prepare : P → Except ConnectionError Prepared × P) (c : Connection P) :
    Except ConnectionError Prepared × Connection P :=
  match c.processor with
  | none => (.error .invalidState, c)
  | some p => ((prepare p).1, { c with processor := some (prepare p).2 })

/-- A frame is prepared and pushed, in state `open`. -/
def sendPreparedAs (op : Opcode) (prepare : P → Except ConnectionError Prepared × P) (c : Connection P) :
    Option ConnectionError × Connection P :=
  if c.state ≠ .open then (some .invalidState, c)
  else
    match c.prepared prepare with
    | (.error ec, c) => (some ec, c)
    | (.ok msg, c) => (none, c.pushMessage yield ⟨op, msg.header, msg.payload, false⟩)

/-- `send`, of a message that is not prepared. -/
def send (msg : Message) (c : Connection P) : Option ConnectionError × Connection P :=
  c.sendPreparedAs yield msg.opcode fun p => cfg.processor.prepareDataFrame p msg

/-- `send`, of a message that is prepared. -/
def sendPrepared (msg : Outgoing) (c : Connection P) : Option ConnectionError × Connection P :=
  if c.state ≠ .open then (some .invalidState, c) else (none, c.pushMessage yield msg)

/-- `ping`. -/
def ping (payload : Bytes) (c : Connection P) : Option ConnectionError × Connection P :=
  c.sendPreparedAs yield .ping fun p => cfg.processor.preparePing p payload

/-- `pong`. -/
def pong (payload : Bytes) (c : Connection P) : Option ConnectionError × Connection P :=
  c.sendPreparedAs yield .pong fun p => cfg.processor.preparePong p payload

/-- The code and the reason that `send_close_frame` closes with. -/
def localClose (code : UInt16) (reason : Bytes) (ack : Bool) (c : Connection P) : UInt16 × Bytes :=
  if cfg.silentClose then (closeNoStatus, [])
  else if code ≠ closeBlank then (code, reason)
  else if !ack then (closeNoStatus, [])
  else if c.remoteCloseCode = closeNoStatus then (closeNormal, [])
  else (c.remoteCloseCode, c.remoteCloseReason)

/-- `send_close_frame`. -/
def sendCloseFrame (code : UInt16) (reason : Bytes) (ack terminal : Bool) (c : Connection P) :
    Option ConnectionError × Connection P :=
  let localClose := c.localClose cfg code reason ack
  match c.prepared fun p => cfg.processor.prepareClose p localClose.1 localClose.2 with
  | (.error ec, c) => (some ec, c)
  | (.ok msg, c) =>
    let c := c.setState .closing
    let c := if ack then { c with wasClean := true } else c
    (none, c.pushMessage yield ⟨.close, msg.header, msg.payload, terminal⟩)

/-- `send_close_ack`. -/
def sendCloseAck (code : UInt16) (reason : Bytes) (c : Connection P) : Option ConnectionError × Connection P :=
  c.sendCloseFrame cfg yield code reason true cfg.server

/-- `close`. -/
def close (code : UInt16) (reason : Bytes) (c : Connection P) : Option ConnectionError × Connection P :=
  if c.state ≠ .open then (some .invalidState, c)
  else c.sendCloseFrame cfg yield code (reason.take closeReasonSize) false (closeTerminal code)

/-- `write_frame`. -/
def writeFrame : Connection P :=
  let c' := { c with queue := c.queue.writeFrame }
  if c.queue.outstanding < c'.queue.outstanding then yield .asyncWrite c' else c'

/-- `handle_write_frame`. -/
def handleWriteFrame : Connection P :=
  let terminal := c.queue.endsTerminal
  let c := { c with queue := c.queue.clearCurrent }
  if ec.isSome then c.terminate yield ec
  else if terminal then c.terminate yield none
  else
    let c := { c with queue := c.queue.release }
    if c.queue.sendQueue.isEmpty then c else yield .dispatch c

/-! ## Reading frames -/

/-- A close frame whose code or reason is not valid. -/
def invalidClose (ec : ConnectionError) (reason : Bytes) (c : Connection P) : Connection P :=
  if cfg.dropOnProtocolError then c.terminate yield (some ec)
  else (c.sendCloseAck cfg yield closeProtocolError reason).2

/-- The part of `process_control_frame` for a close frame. -/
def processClose (payload : Bytes) (c : Connection P) : Connection P :=
  let code := extractCode payload
  let c := { c with remoteCloseCode := code.1 }
  match code.2 with
  | some ec => c.invalidClose cfg yield ec (textBytes "Invalid close code")
  | none =>
    let reason := extractReason payload
    let c := { c with remoteCloseReason := reason.1 }
    match reason.2 with
    | some ec => c.invalidClose cfg yield ec (textBytes "Invalid close reason")
    | none =>
      if c.state = .open then (c.sendCloseAck cfg yield closeBlank []).2
      else if c.state = .closing ∧ !c.wasClean then
        let c := { c with wasClean := true }
        if cfg.server then c.terminate yield none else c
      else c

/-- `process_control_frame`. -/
def processControlFrame (msg : Message) (c : Connection P) : Connection P :=
  let c := { c with controls := (c.state, msg) :: c.controls }
  if c.state = .closed then c
  else if msg.opcode ≠ .close ∧ c.state ≠ .open then c
  else
    match msg.opcode with
    | .ping =>
      let c' := yield (.pingHandler msg.payload) c
      if cfg.pingHandler c msg.payload then (c'.pong cfg yield msg.payload).2 else c'
    | .pong => yield (.pongHandler msg.payload) c
    | .close => c.processClose cfg yield msg.payload
    | _ => c

/-- `read_frame`. -/
def readFrame : Connection P := if c.readFlag then yield .asyncRead c else c

/-- What `handle_read_frame` does with a message. -/
def deliver (msg : Message) (c : Connection P) : Connection P :=
  if msg.opcode.isControl then c.processControlFrame cfg yield msg
  else if c.state ≠ .open then c
  else yield (.messageHandler msg) c

/-- What `handle_read_frame` does when the processor reports an error. -/
def consumeFailed (ec : ProcessorError) (c : Connection P) : Connection P :=
  if cfg.dropOnProtocolError then c.terminate yield (some (.processor ec))
  else
    match c.close cfg yield ec.toWs ec.message with
    | (some ec, c) => c.terminate yield (some ec)
    | (none, c) => c

/-- The loop of `handle_read_frame`, at most `n` times, from the byte `p` on: whether it came to its end, and the connection. -/
def readLoop (bytesTransferred : Nat) : Nat → Nat → Connection P → Bool × Connection P
  | 0, _, c => (true, c)
  | n + 1, p, c =>
    if bytesTransferred ≤ p then (true, c)
    else
      match c.processor with
      | none => (false, c)
      | some pr =>
        match cfg.processor.consume pr ((c.buf.take bytesTransferred).drop p) with
        | (pr, _, some ec) => (false, { c with processor := some pr }.consumeFailed cfg yield ec)
        | (pr, read, none) =>
          if cfg.processor.ready pr then
            let (msg, pr) := cfg.processor.getMessage pr
            let c := { c with processor := some pr }
            match msg with
            | none => readLoop bytesTransferred n (p + read) c
            | some msg => readLoop bytesTransferred n (p + read) (c.deliver cfg yield msg)
          else readLoop bytesTransferred n (p + read) { c with processor := some pr }

/-- What `handle_read_frame` does with an error. -/
def readFailed (ec : ConnectionError) (c : Connection P) : Connection P :=
  if ec = .eof ∧ c.state = .closed then c
  else if ec = .eof ∧ c.state = .closing ∧ !cfg.server then c.terminate yield none
  else if ec = .invalidState ∧ c.state = .closed then c
  else c.terminate yield (some ec)

/-- `handle_read_frame`, on the bytes in the buffer. -/
def handleReadFrame (bytesTransferred : Nat) (c : Connection P) : Connection P :=
  match ec with
  | some ec => c.readFailed cfg yield ec
  | none =>
    if c.internalState ≠ .processConnection then c.readFailed cfg yield .invalidState
    else
      match c.readLoop cfg yield bytesTransferred (bytesTransferred + 1) 0 with
      | (true, c) => c.readFrame yield
      | (false, c) => c

/-! ## The opening handshake -/

/-- What the callbacks of the handshake begin with: `none` when they are to be ignored, else the error they go on with. -/
def handshakeError (expected : InternalState) (ec : Option ConnectionError) (c : Connection P) :
    Option (Option ConnectionError) :=
  match ec with
  | some ec => if ec = .eof ∧ c.state = .closed then none else some (some ec)
  | none =>
    match c.state with
    | .connecting => if c.internalState ≠ expected then some (some .invalidState) else some none
    | .closed => none
    | .open | .closing => some (some .invalidState)

/-- `write_http_response`. -/
def writeHttpResponse : Connection P :=
  if ec = some .httpConnectionEnded then c
  else
    let c := if c.statusCode = 0 then { c with statusCode := 500, ec := some .general } else { c with ec }
    yield .asyncWrite c

/-- `write_http_response_error`. -/
def writeHttpResponseError (ec : ConnectionError) (c : Connection P) : Connection P :=
  if c.internalState ≠ .readHttpRequest then c.terminate yield (some .invalidState)
  else { c with internalState := .processHttpRequest }.writeHttpResponse yield (some ec)

/-- `initialize_processor`. -/
def initializeProcessor : Option ConnectionError × Connection P :=
  if !request.isWebsocketHandshake then (none, c)
  else if request.version < 0 then (some .invalidVersion, { c with statusCode := 400 })
  else
    match cfg.processor.create request.version with
    | some p => (none, { c with processor := some p })
    | none => (some .unsupportedVersion, { c with processor := none, statusCode := 400 })

/-- The part of `process_handshake_request` for a request that is not a WebSocket handshake. -/
def processHttpRequest : Option ConnectionError × Connection P :=
  if !request.uriValid then (some .invalidUri, { c with statusCode := 400 })
  else if cfg.httpHandler then
    let c := yield .httpHandler { c with isHttp := true }
    (if c.state = .closed then some .httpConnectionEnded else none, c)
  else (some .upgradeRequired, { c with statusCode := 426 })

/-- `process_handshake_request`. -/
def processHandshakeRequest : Option ConnectionError × Connection P :=
  if !request.isWebsocketHandshake then c.processHttpRequest cfg yield request
  else if request.validate.isSome then (request.validate, { c with statusCode := 400 })
  else if request.negotiation = some .extensionParseError then (request.negotiation, { c with statusCode := 400 })
  else if !request.uriValid then (some .invalidUri, { c with statusCode := 400 })
  else
    let accepted := cfg.validateHandler c
    let c := yield .validateHandler c
    if accepted then
      if request.process.isSome then (request.process, { c with statusCode := 500 })
      else (none, { c with statusCode := 101 })
    else (some .rejected, if c.statusCode = 0 then { c with statusCode := 400 } else c)

/-- The part of `handle_read_handshake` for a complete request. -/
def readRequest : Connection P :=
  match c.initializeProcessor cfg request with
  | (some ec, c) => c.writeHttpResponseError yield ec
  | (none, c) =>
    if (c.processor.map cfg.processor.version) = some 0 ∧ !request.hasKey3 then
      { c with statusCode := 500 }.writeHttpResponseError yield .shortKey3
    else
      match { c with buf := request.rest, internalState := .processHttpRequest }.processHandshakeRequest cfg yield request with
      | (ec, c) => if !c.isHttp || c.httpState = .init then c.writeHttpResponse yield ec else c

/-- `handle_read_handshake`. -/
def handleReadHandshake (outcome : RequestOutcome) (c : Connection P) : Connection P :=
  match c.handshakeError .readHttpRequest ec with
  | none => c
  | some (some ec) => c.terminate yield (some ec)
  | some none =>
    match outcome with
    | .oversized => c.terminate yield (some .general)
    | .rejected statusCode => { c with statusCode }.writeHttpResponseError yield .httpParseError
    | .overread => c.terminate yield (some .general)
    | .incomplete => yield .asyncRead c
    | .complete request => c.readRequest cfg yield request

/-- `handle_write_http_response`. -/
def handleWriteHttpResponse : Connection P :=
  match c.handshakeError .processHttpRequest ec with
  | none => c
  | some (some ec) => c.terminate yield (some ec)
  | some none =>
    if c.statusCode ≠ 101 then
      let c := if c.isHttp then { c with ec := some .httpConnectionEnded } else c
      c.terminate yield c.ec
    else
      let c := { c with internalState := .processConnection }.setState .open
      let c := yield .openHandler c
      c.handleReadFrame cfg yield none c.buf.length

/-- `send_http_request`. -/
def sendHttpRequest : Connection P :=
  match c.processor with
  | none => c
  | some p => if (cfg.processor.clientHandshakeRequest p).isSome then c else yield .asyncWrite c

/-- `handle_send_http_request`. -/
def handleSendHttpRequest : Connection P :=
  match c.handshakeError .writeHttpRequest ec with
  | none => c
  | some (some ec) => c.terminate yield (some ec)
  | some none => yield .asyncRead { c with internalState := .readHttpResponse }

/-- `handle_read_http_response`. After a failed extension negotiation the connection is terminated, and the function goes on. -/
def handleReadHttpResponse (outcome : ResponseOutcome) (c : Connection P) : Connection P :=
  match c.handshakeError .readHttpResponse ec with
  | none => c
  | some (some ec) => c.terminate yield (some ec)
  | some none =>
    match outcome with
    | .rejected => c.terminate yield (some .general)
    | .incomplete => yield .asyncRead c
    | .ready (some ec) _ _ => c.terminate yield (some ec)
    | .ready none negotiation rest =>
      let c := if negotiation.isSome then c.terminate yield (some .extensionNegFailed) else c
      let c := { c with internalState := .processConnection }.setState .open
      let c := yield .openHandler c
      { c with buf := rest }.handleReadFrame cfg yield none rest.length

/-- `handle_transport_init`. -/
def handleTransportInit : Connection P :=
  let ecm := if c.internalState ≠ .transportInit then some .invalidState else ec
  if ecm.isSome then c.terminate yield ecm
  else if cfg.server then yield .asyncRead { c with internalState := .readHttpRequest }
  else
    { c with
      internalState := .writeHttpRequest
      processor := cfg.processor.create cfg.clientVersion }.sendHttpRequest cfg yield

/-- `start`. -/
def start : Connection P :=
  if c.internalState ≠ .userInit then c.terminate yield (some .invalidState)
  else yield .init { c with internalState := .transportInit }

/-- `send_http_response`. -/
def sendHttpResponse : Option ConnectionError × Connection P :=
  if c.httpState ≠ .deferred then (some .invalidState, c)
  else (none, { c with httpState := .bodyWritten }.writeHttpResponse yield none)

/-- `set_status`, which throws in other states. -/
def setStatus (statusCode : Nat) (c : Connection P) : Connection P :=
  if c.internalState ≠ .processHttpRequest then c else { c with statusCode }

/-- `handle_open_handshake_timeout` and `handle_close_handshake_timeout`, which differ in the error they terminate with. -/
def handleTimeout (expired : ConnectionError) (ec : Option ConnectionError) (c : Connection P) : Connection P :=
  if ec.isSome then c else c.terminate yield (some expired)

/-- `handle_pong_timeout`. -/
def handlePongTimeout (payload : Bytes) (ec : Option ConnectionError) (c : Connection P) : Connection P :=
  if ec.isSome then c else yield (.pongTimeoutHandler payload) c

end Connection

/-! ## Runs -/

/-- The calls of the user and of the transport. -/
inductive Call
  | start
  | send (msg : Message)
  | sendPrepared (msg : Outgoing)
  | ping (payload : Bytes)
  | pong (payload : Bytes)
  | close (code : UInt16) (reason : Bytes)
  | terminate (ec : Option ConnectionError)
  | setStatus (statusCode : Nat)
  | deferHttpResponse
  | sendHttpResponse
  | pauseReading
  | resumeReading
  | interrupt
  | handleTransportInit (ec : Option ConnectionError)
  | handleReadHandshake (ec : Option ConnectionError) (outcome : RequestOutcome)
  | handleWriteHttpResponse (ec : Option ConnectionError)
  | handleSendHttpRequest (ec : Option ConnectionError)
  | handleReadHttpResponse (ec : Option ConnectionError) (outcome : ResponseOutcome)
  | handleReadFrame (ec : Option ConnectionError) (bytes : Bytes)
  | writeFrame
  | handleWriteFrame (ec : Option ConnectionError)
  | handleOpenHandshakeTimeout (ec : Option ConnectionError)
  | handleCloseHandshakeTimeout (ec : Option ConnectionError)
  | handlePongTimeout (payload : Bytes) (ec : Option ConnectionError)
  | handlePauseReading
  | handleResumeReading
  | handleInterrupt
  | handleTerminate

/-- The body of a call. -/
def Call.body (cfg : Config P) (yield : Point → Connection P → Connection P) : Call → Connection P → Connection P
  | .start, c => c.start yield
  | .send msg, c => (c.send cfg yield msg).2
  | .sendPrepared msg, c => (c.sendPrepared yield msg).2
  | .ping payload, c => (c.ping cfg yield payload).2
  | .pong payload, c => (c.pong cfg yield payload).2
  | .close code reason, c => (c.close cfg yield code reason).2
  | .terminate ec, c => c.terminate yield ec
  | .setStatus statusCode, c => c.setStatus statusCode
  | .deferHttpResponse, c => { c with httpState := .deferred }
  | .sendHttpResponse, c => (c.sendHttpResponse yield).2
  | .pauseReading, c => yield .dispatch c
  | .resumeReading, c => yield .dispatch c
  | .interrupt, c => yield .interrupt c
  | .handleTransportInit ec, c => c.handleTransportInit cfg yield ec
  | .handleReadHandshake ec outcome, c => c.handleReadHandshake cfg yield ec outcome
  | .handleWriteHttpResponse ec, c => c.handleWriteHttpResponse cfg yield ec
  | .handleSendHttpRequest ec, c => c.handleSendHttpRequest yield ec
  | .handleReadHttpResponse ec outcome, c => c.handleReadHttpResponse cfg yield ec outcome
  | .handleReadFrame ec bytes, c => { c with buf := bytes }.handleReadFrame cfg yield ec bytes.length
  | .writeFrame, c => c.writeFrame yield
  | .handleWriteFrame ec, c => c.handleWriteFrame yield ec
  | .handleOpenHandshakeTimeout ec, c => c.handleTimeout yield .openHandshakeTimeout ec
  | .handleCloseHandshakeTimeout ec, c => c.handleTimeout yield .closeHandshakeTimeout ec
  | .handlePongTimeout payload ec, c => c.handlePongTimeout yield payload ec
  | .handlePauseReading, c => { c with readFlag := false }
  | .handleResumeReading, c => { c with readFlag := true }.readFrame yield
  | .handleInterrupt, c => yield .interruptHandler c
  | .handleTerminate, c => c.handleTerminate yield

/-- A call, which counts how often code from outside runs. -/
def Call.run (cfg : Config P) (yield : Point → Connection P → Connection P) : Call → Connection P → Connection P :=
  Call.body cfg fun point c => yield point { c with clock := c.clock + 1 }

/-- No calls come from outside. -/
def quietOutside : Point → Connection P → List Call := fun _ _ => []

/-- A new connection after a sequence of calls. `outside` says which calls come from outside at a point, each time it is reached,
and `n` how deep calls are nested in calls. -/
def Connection.after (cfg : Config P) (outside : Point → Connection P → List Call) (n : Nat) (calls : List Call) : Connection P :=
  performAll (Call.run cfg) outside n calls .new

/-! ## The processors

`get_processor`: what a connection gets for the versions 7, 8 and 13. The numbers `m_rng` returns are a parameter. There is no processor for
version 0 here. -/

section

/-- A processor of the family of `hybi13`, and how many numbers it has drawn. -/
structure HybiProcessor where
  version : Int
  frames : Processor
  drawn : Nat

namespace HybiProcessor

variable (ep : Endpoint) (rng : Nat → MaskingKey)

/-- `error::no_protocol_support`. -/
def noProtocolSupport : ConnectionError := .handshake 1

/-- A frame is prepared with the next masking key, which is drawn if the frame is masked. -/
def prepare (frame : MaskingKey → Except ProcessorError Prepared) (p : HybiProcessor) :
    Except ConnectionError Prepared × HybiProcessor :=
  match frame (rng p.drawn) with
  | .error ec => (.error (.processor ec), p)
  | .ok msg => (.ok msg, if ep.server then p else { p with drawn := p.drawn + 1 })

/-- The processors that `get_processor` makes. -/
def processors : FrameProcessor HybiProcessor where
  create version := if version = 7 ∨ version = 8 ∨ version = 13 then some ⟨version, .init, 0⟩ else none
  version p := p.version
  clientHandshakeRequest p := if p.version = 13 then none else some noProtocolSupport
  consume p buf := ({ p with frames := (p.frames.consume ep buf).1 }, (p.frames.consume ep buf).2)
  ready p := p.frames.ready
  getMessage p := (p.frames.getMessage.1, { p with frames := p.frames.getMessage.2 })
  prepareDataFrame p msg := p.prepare ep rng (Osp.Websocketpp.prepareDataFrame ep msg.opcode true msg.payload)
  preparePing p payload := p.prepare ep rng (Osp.Websocketpp.preparePing ep payload)
  preparePong p payload := p.prepare ep rng (Osp.Websocketpp.preparePong ep payload)
  prepareClose p code reason := p.prepare ep rng (Osp.Websocketpp.prepareClose ep code reason)
  prepareDataFrame_control p msg hcontrol := by
    refine ⟨.processor .invalidOpcode, ?_⟩
    simp only [prepare, Osp.Websocketpp.prepareDataFrame, hcontrol, if_true]

end HybiProcessor

end

end Osp.Websocketpp
