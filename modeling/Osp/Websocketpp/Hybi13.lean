import Osp.Lib.Machine
import Osp.Websocketpp.Frame
import Osp.Websocketpp.Utf8Validator

/-!
# The hybi13 processor

`processors/hybi13.hpp` with permessage-deflate disabled: reading frames from a buffer into messages, preparing data and control
frames for writing, and the loop of `connection::handle_read_frame` that feeds a buffer to the processor.
-/

namespace Osp.Websocketpp

open Lib ExtendedHeader

/-- The codes of `processor::error` that reading and preparing frames can return. -/
inductive ProcessorError
  | general
  | messageTooBig
  | invalidPayload
  | invalidOpcode
  | controlTooBig
  | invalidRsvBit
  | fragmentedControl
  | invalidContinuation
  | maskingRequired
  | maskingForbidden
  | nonMinimalEncoding
  | requires64bit
  | invalidUtf8
  | reservedCloseCode
  | invalidCloseCode
  | reasonRequiresCode
deriving DecidableEq

/-- What a processor is constructed with: the machine, its role and `m_max_message_size`, which is a `size_t`. -/
structure Endpoint where
  platform : Platform
  server : Bool
  maxMessageSize : Nat
  maxMessageSize_lt : maxMessageSize < platform.sizeLimit

/-- The limit of the default configuration. -/
theorem maxMessageSize_default_lt : 32000000 < (⟨.eight, true⟩ : Platform).sizeLimit := by decide

/-- A message buffer: the opcode it was created with and its raw payload. -/
structure Message where
  opcode : Opcode
  payload : Bytes
deriving DecidableEq

/-- `msg_metadata`. -/
structure MsgMetadata where
  msgPtr : Option Message
  preparedKey : Nat
  validator : Validator

/-- `msg_metadata()`. -/
def MsgMetadata.empty : MsgMetadata := ⟨none, 0, Validator.init⟩

/-- `msg_metadata(m, p)` for a new message and a masking key. -/
def MsgMetadata.new (pl : Platform) (op : Opcode) (key : MaskingKey) : MsgMetadata :=
  ⟨some ⟨op, []⟩, prepareMaskingKey pl key, Validator.init⟩

/-- `hybi13::state`. -/
inductive State
  | headerBasic
  | headerExtended
  | extension
  | application
  | ready
  | fatalError
deriving DecidableEq

/-- The target of the pointer `m_current_msg`. -/
inductive CurrentMsg
  | data
  | control
deriving DecidableEq

/-- The state of a processor that reading frames changes. -/
structure Processor where
  basicHeader : BasicHeader
  bytesNeeded : Nat
  cursor : Nat
  dataMsg : MsgMetadata
  controlMsg : MsgMetadata
  currentMsg : CurrentMsg
  extendedHeader : ExtendedHeader
  state : State

variable (ep : Endpoint) (pr : Processor) (buf : Bytes)

namespace Processor

/-- What `m_current_msg` points to. -/
def current : MsgMetadata :=
  match pr.currentMsg with
  | .data => pr.dataMsg
  | .control => pr.controlMsg

/-- Writes through `m_current_msg`. -/
def setCurrent (m : MsgMetadata) : Processor :=
  match pr.currentMsg with
  | .data => { pr with dataMsg := m }
  | .control => { pr with controlMsg := m }

/-- `reset_headers`. -/
def resetHeaders : Processor :=
  { pr with
    state := .headerBasic, bytesNeeded := basicHeaderLength, basicHeader := BasicHeader.zero
    extendedHeader := zero }

/-- A processor as constructed. -/
def init : Processor :=
  resetHeaders
    { basicHeader := BasicHeader.zero, bytesNeeded := 0, cursor := 0, dataMsg := MsgMetadata.empty
      controlMsg := MsgMetadata.empty, currentMsg := .data, extendedHeader := zero, state := .headerBasic }

/-- `ready`. -/
def ready : Bool := pr.state = .ready

/-- `get_message`. -/
def getMessage : Option Message × Processor :=
  if !pr.ready then (none, pr)
  else
    match pr.current.msgPtr with
    | none => (none, pr)
    | some ret =>
      let pr := pr.setCurrent { pr.current with msgPtr := none }
      let pr :=
        if ret.opcode.isControl then { pr with controlMsg := { pr.controlMsg with msgPtr := none } }
        else { pr with dataMsg := { pr.dataMsg with msgPtr := none } }
      (some ret, pr.resetHeaders)

/-! ## Reading headers -/

/-- `copy_basic_header_bytes`, with the number of bytes it read. -/
def copyBasicHeaderBytes : Bytes → Processor × Nat
  | [] => (pr, 0)
  | x :: rest =>
    if pr.bytesNeeded = 0 then (pr, 0)
    else
      match rest with
      | y :: _ =>
        if pr.bytesNeeded = 2 then
          ({ pr with basicHeader := ⟨x, y⟩, bytesNeeded := pr.bytesNeeded - 2 }, 2)
        else ({ pr with basicHeader := { pr.basicHeader with b1 := x }, bytesNeeded := pr.bytesNeeded - 1 }, 1)
      | [] =>
        if pr.bytesNeeded = 2 then
          ({ pr with basicHeader := { pr.basicHeader with b0 := x }, bytesNeeded := pr.bytesNeeded - 1 }, 1)
        else ({ pr with basicHeader := { pr.basicHeader with b1 := x }, bytesNeeded := pr.bytesNeeded - 1 }, 1)

/-- `copy_extended_header_bytes`, with the number of bytes it read. -/
def copyExtendedHeaderBytes : Processor × Nat :=
  let bytesToRead := min pr.bytesNeeded buf.length
  ({ pr with
      extendedHeader := pr.extendedHeader.write pr.cursor (buf.take bytesToRead)
      cursor := pr.cursor + bytesToRead
      bytesNeeded := pr.bytesNeeded - bytesToRead }, bytesToRead)

end Processor

/-- `validate_incoming_basic_header`. -/
def validateIncomingBasicHeader (h : BasicHeader) (isServer newMsg : Bool) : Option ProcessorError :=
  let op := h.getOpcode
  if op.isControl && payloadSizeBasic < h.getBasicSize.toNat then some .controlTooBig
  else if h.getRsv1 then some .invalidRsvBit
  else if h.getRsv2 || h.getRsv3 then some .invalidRsvBit
  else if op.reserved then some .invalidOpcode
  else if op.invalid then some .invalidOpcode
  else if op.isControl && !h.getFin then some .fragmentedControl
  else if newMsg && op = .continuation then some .invalidContinuation
  else if !newMsg && !op.isControl && op ≠ .continuation then some .invalidContinuation
  else if isServer && !h.getMasked then some .maskingRequired
  else if !isServer && h.getMasked then some .maskingForbidden
  else none

/-- `validate_incoming_extended_header`. -/
def validateIncomingExtendedHeader (pl : Platform) (h : BasicHeader) (e : ExtendedHeader) : Option ProcessorError :=
  let basicSize := h.getBasicSize
  let payloadSize := getPayloadSize h e
  if basicSize = payloadSizeCode16bit ∧ payloadSize ≤ payloadSizeBasic then some .nonMinimalEncoding
  else if basicSize = payloadSizeCode64bit ∧ payloadSize ≤ payloadSizeExtended then some .nonMinimalEncoding
  else if pl.wordSize.bytes = 4 ∧ payloadSize >>> 32 ≠ 0 then some .requires64bit
  else none

/-! ## Consuming a buffer -/

/-- What one pass of the loop of `consume` does: the new state, the number of bytes read and the error it stops with. -/
structure Iteration where
  proc : Processor
  read : Nat
  ec : Option ProcessorError

namespace Processor

/-- The end of the pass of `consume` in state `HEADER_BASIC`, when the basic header is complete. -/
def enterExtended (read : Nat) : Iteration :=
  match validateIncomingBasicHeader pr.basicHeader ep.server pr.dataMsg.msgPtr.isNone with
  | some ec => ⟨pr, read, some ec⟩
  | none =>
    ⟨{ pr with
        state := .headerExtended, cursor := 0
        bytesNeeded := pr.basicHeader.getHeaderLen - basicHeaderLength }, read, none⟩

/-- The pass of `consume` in state `HEADER_BASIC`. -/
def consumeHeaderBasic : Iteration :=
  let (pr, read) := pr.copyBasicHeaderBytes buf
  if 0 < pr.bytesNeeded then ⟨pr, read, none⟩ else pr.enterExtended ep read

/-- The part of `consume` that sets up the metadata of the message a frame belongs to. -/
def startFrame : Processor × Option ProcessorError :=
  let pr := { pr with
    state := .application
    bytesNeeded := getPayloadSize pr.basicHeader pr.extendedHeader % ep.platform.sizeLimit }
  let op := pr.basicHeader.getOpcode
  let key := getMaskingKey pr.basicHeader pr.extendedHeader
  if op.isControl then
    ({ pr with controlMsg := MsgMetadata.new ep.platform op key, currentMsg := .control }, none)
  else
    match pr.dataMsg.msgPtr with
    | none =>
      if ep.maxMessageSize < pr.bytesNeeded then (pr, some .messageTooBig)
      else ({ pr with dataMsg := MsgMetadata.new ep.platform op key, currentMsg := .data }, none)
    | some out =>
      if ep.maxMessageSize < (out.payload.length + pr.bytesNeeded) % ep.platform.sizeLimit then
        (pr, some .messageTooBig)
      else
        ({ pr with
            dataMsg := { pr.dataMsg with preparedKey := prepareMaskingKey ep.platform key }, currentMsg := .data }, none)

/-- The end of the pass of `consume` in state `HEADER_EXTENDED`, when the extended header is complete. -/
def enterApplication (read : Nat) : Iteration :=
  match validateIncomingExtendedHeader ep.platform pr.basicHeader pr.extendedHeader with
  | some ec => ⟨pr, read, some ec⟩
  | none => ⟨(pr.startFrame ep).1, read, (pr.startFrame ep).2⟩

/-- The pass of `consume` in state `HEADER_EXTENDED`. -/
def consumeHeaderExtended : Iteration :=
  let (pr, read) := pr.copyExtendedHeaderBytes buf
  if 0 < pr.bytesNeeded then ⟨pr, read, none⟩ else pr.enterApplication ep read

/-- `process_payload_bytes`. The source dereferences the message of the current metadata, which the error `general` stands for
when there is none. -/
def processPayloadBytes : Processor × Option ProcessorError :=
  match pr.current.msgPtr with
  | none => (pr, some .general)
  | some msg =>
    let (data, key) :=
      if pr.basicHeader.getMasked then byteMaskCirc ep.platform buf pr.current.preparedKey
      else (buf, pr.current.preparedKey)
    let (validator, ok) :=
      if msg.opcode = .text then pr.current.validator.decode data else (pr.current.validator, true)
    let pr := pr.setCurrent ⟨some { msg with payload := msg.payload ++ data }, key, validator⟩
    if ok then ({ pr with bytesNeeded := pr.bytesNeeded - buf.length }, none) else (pr, some .invalidUtf8)

/-- `finalize_message`. -/
def finalizeMessage : Processor × Option ProcessorError :=
  if pr.basicHeader.getOpcode = .text ∧ !pr.current.validator.complete then (pr, some .invalidUtf8)
  else ({ pr with state := .ready }, none)

/-- The end of the pass of `consume` in state `APPLICATION`, when the payload of the frame is complete. -/
def endFrame : Processor × Option ProcessorError :=
  if pr.basicHeader.getFin then pr.finalizeMessage else (pr.resetHeaders, none)

/-- The end of the pass of `consume` in state `APPLICATION`, given what processing the payload bytes returned. -/
def afterPayload (r : Processor × Option ProcessorError) (read : Nat) : Iteration :=
  match r with
  | (pr, some ec) => ⟨pr, 0, some ec⟩
  | (pr, none) => if 0 < pr.bytesNeeded then ⟨pr, read, none⟩ else ⟨pr.endFrame.1, read, pr.endFrame.2⟩

/-- The pass of `consume` in state `APPLICATION`. -/
def consumeApplication : Iteration :=
  let bytesToProcess := min pr.bytesNeeded buf.length
  if 0 < bytesToProcess then afterPayload (pr.processPayloadBytes ep (buf.take bytesToProcess)) bytesToProcess
  else afterPayload (pr, none) 0

/-- One pass of the loop of `consume`. -/
def consumeIteration : Iteration :=
  match pr.state with
  | .headerBasic => pr.consumeHeaderBasic ep buf
  | .headerExtended => pr.consumeHeaderExtended ep buf
  | .extension => ⟨{ pr with state := .application }, 0, none⟩
  | .application => pr.consumeApplication ep buf
  | .ready => ⟨pr, 0, some .general⟩
  | .fatalError => ⟨pr, 0, some .general⟩

/-- The condition of the loop of `consume`. -/
def continues : Bool :=
  pr.state ≠ .ready && pr.state ≠ .fatalError && (!buf.isEmpty || pr.bytesNeeded = 0)

/-- The loop of `consume`, with a bound on the number of passes. `consume` allows more than any run takes. -/
def consumeLoop (ep : Endpoint) : Nat → Processor → Bytes → Processor × Bytes × Option ProcessorError
  | 0, pr, buf => (pr, buf, none)
  | n + 1, pr, buf =>
    if pr.continues buf then
      let it := pr.consumeIteration ep buf
      match it.ec with
      | some ec => (it.proc, buf.drop it.read, some ec)
      | none => consumeLoop ep n it.proc (buf.drop it.read)
    else (pr, buf, none)

/-- `consume`: the new state, the number of bytes processed and the error code. -/
def consume : Processor × Nat × Option ProcessorError :=
  let (pr, rest, ec) := consumeLoop ep (5 * buf.length + 5) pr buf
  (pr, buf.length - rest.length, ec)

/-- The loop of `connection::handle_read_frame`, with a bound on the number of passes: feeds a buffer to the processor and,
each time a message is ready, takes it. What is recorded of the processor when a message is ready is a parameter. -/
def handleReadFrameLoop {β : Type} (observe : Processor → List β) (ep : Endpoint) :
    Nat → Processor → Bytes → Outcome β ProcessorError Processor
  | 0, pr, _ => Outcome.pure pr
  | n + 1, pr, buf =>
    if buf = [] then Outcome.pure pr
    else
      match pr.consume ep buf with
      | (_, _, some ec) => Outcome.fail ec
      | (pr, p, none) =>
        if pr.ready then
          Outcome.after (observe pr) (handleReadFrameLoop observe ep n pr.getMessage.2 (buf.drop p))
        else handleReadFrameLoop observe ep n pr (buf.drop p)

/-- `connection::handle_read_frame`, with what is recorded when a message is ready. -/
def observeReadFrame {β : Type} (observe : Processor → List β) (ep : Endpoint) (pr : Processor) (buf : Bytes) :
    Outcome β ProcessorError Processor :=
  handleReadFrameLoop observe ep (buf.length + 1) pr buf

/-- The message that `get_message` takes. -/
def messages : List Message := pr.getMessage.1.toList

/-- `connection::handle_read_frame`: the messages delivered for a buffer, and the error or the state it ends with. -/
def handleReadFrame : Outcome Message ProcessorError Processor :=
  observeReadFrame messages ep pr buf

end Processor

/-! ## Preparing frames -/

/-- A prepared message: the frame header and the payload that are written to the wire. -/
structure Prepared where
  header : Bytes
  payload : Bytes

/-- The bytes of a prepared message on the wire. -/
def Prepared.wire (m : Prepared) : Bytes := m.header ++ m.payload

/-- The header and the payload of a frame, masked if the endpoint is a client. -/
def prepareFrame (op : Opcode) (fin : Bool) (payload : Bytes) (key : MaskingKey) : Prepared :=
  let masked := !ep.server
  let h := BasicHeader.ofFields op payload.length fin masked false false false
  if masked then
    { header := prepareHeader h (ofSizeKey payload.length key), payload := byteMask payload key 0 }
  else { header := prepareHeader h (ofSize payload.length), payload := payload }

/-- `prepare_data_frame`, given the number `m_rng` returns as a masking key. -/
def prepareDataFrame (op : Opcode) (fin : Bool) (payload : Bytes) (key : MaskingKey) :
    Except ProcessorError Prepared :=
  if op.isControl then .error .invalidOpcode
  else if op = .text ∧ !validate payload then .error .invalidPayload
  else .ok (prepareFrame ep op fin payload key)

/-- `prepare_control`. -/
def prepareControl (op : Opcode) (payload : Bytes) (key : MaskingKey) : Except ProcessorError Prepared :=
  if !op.isControl then .error .invalidOpcode
  else if payloadSizeBasic < payload.length then .error .controlTooBig
  else .ok (prepareFrame ep op true payload key)

/-- `prepare_ping`. -/
def preparePing (payload : Bytes) (key : MaskingKey) : Except ProcessorError Prepared :=
  prepareControl ep .ping payload key

/-- `prepare_pong`. -/
def preparePong (payload : Bytes) (key : MaskingKey) : Except ProcessorError Prepared :=
  prepareControl ep .pong payload key

/-- `close::status::no_status`. -/
def closeNoStatus : UInt16 := 1005

/-- `close::status::reserved`. -/
def closeReserved (code : UInt16) : Bool := (1016 ≤ code && code ≤ 2999) || code = 1004

/-- `close::status::invalid`. -/
def closeInvalid (code : UInt16) : Bool :=
  code ≤ 999 || 5000 ≤ code || code = closeNoStatus || code = 1006 || code = 1015

/-- The payload of a close frame: nothing without a status, else the code in network byte order and the reason. -/
def closePayload (code : UInt16) (reason : Bytes) : Bytes :=
  if code ≠ closeNoStatus then beBytes 2 code.toNat ++ reason else []

/-- `prepare_close`. -/
def prepareClose (code : UInt16) (reason : Bytes) (key : MaskingKey) : Except ProcessorError Prepared :=
  if closeReserved code then .error .reservedCloseCode
  else if closeInvalid code && code ≠ closeNoStatus then .error .invalidCloseCode
  else if code = closeNoStatus ∧ 0 < reason.length then .error .reasonRequiresCode
  else if payloadSizeBasic - 2 < reason.length then .error .controlTooBig
  else prepareControl ep .close (closePayload code reason) key

end Osp.Websocketpp
