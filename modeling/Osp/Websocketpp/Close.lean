import Osp.Lib.Libc
import Osp.Websocketpp.Hybi13

/-!
# Close codes

`close.hpp`, the error codes that a connection sees, and the close code and reason for an error of the processor
(`processors/base.hpp`).
-/

namespace Osp.Websocketpp

open Osp.Lib

/-- The `error_code`s of a connection: of the transport, of the library, of the frames, and of the opening handshake. -/
inductive ConnectionError
  | eof
  | operationAborted
  | actionAfterShutdown
  | transport (code : Nat)
  | general
  | invalidState
  | noOutgoingBuffers
  | badCloseCode
  | invalidCloseCode
  | reservedCloseCode
  | invalidUtf8
  | invalidUri
  | httpConnectionEnded
  | openHandshakeTimeout
  | closeHandshakeTimeout
  | rejected
  | upgradeRequired
  | invalidVersion
  | unsupportedVersion
  | httpParseError
  | extensionNegFailed
  | extensionParseError
  | shortKey3
  | processor (ec : ProcessorError)
  | handshake (code : Nat)
deriving DecidableEq

/-! ## Status values -/

/-- `close::status::blank`. -/
def closeBlank : UInt16 := 0

/-- `close::status::normal`. -/
def closeNormal : UInt16 := 1000

/-- `close::status::protocol_error`. -/
def closeProtocolError : UInt16 := 1002

/-- `close::status::abnormal_close`. -/
def closeAbnormalClose : UInt16 := 1006

/-- `close::status::invalid_payload`. -/
def closeInvalidPayload : UInt16 := 1007

/-- `close::status::policy_violation`. -/
def closePolicyViolation : UInt16 := 1008

/-- `close::status::message_too_big`. -/
def closeMessageTooBig : UInt16 := 1009

/-- `close::status::internal_endpoint_error`. -/
def closeInternalEndpointError : UInt16 := 1011

/-- `close::status::terminal`. -/
def closeTerminal (code : UInt16) : Bool :=
  code = closeProtocolError || code = closeInvalidPayload || code = closePolicyViolation || code = closeMessageTooBig ||
    code = closeInternalEndpointError

/-- `frame::limits::close_reason_size`. -/
def closeReasonSize : Nat := 123

/-! ## The payload of a close frame -/

/-- `close::extract_code`. -/
def extractCode : Bytes → UInt16 × Option ConnectionError
  | [] => (closeNoStatus, none)
  | [_] => (closeProtocolError, some .badCloseCode)
  | c0 :: c1 :: _ =>
    let code := UInt16.ofNat (256 * c0.toNat + c1.toNat)
    let ec : Option ConnectionError := if closeInvalid code then some .invalidCloseCode else none
    (code, if closeReserved code then some .reservedCloseCode else ec)

/-- `close::extract_reason`. -/
def extractReason (payload : Bytes) : Bytes × Option ConnectionError :=
  let reason := if 2 < payload.length then payload.drop 2 else []
  (reason, if validate reason then none else some .invalidUtf8)

/-! ## Errors of the processor -/

/-- `processor::error::to_ws`. -/
def ProcessorError.toWs : ProcessorError → UInt16
  | .controlTooBig | .invalidOpcode | .invalidRsvBit | .fragmentedControl | .invalidContinuation | .maskingRequired
  | .maskingForbidden | .reservedCloseCode | .invalidCloseCode => closeProtocolError
  | .invalidPayload | .invalidUtf8 => closeInvalidPayload
  | .messageTooBig => closeMessageTooBig
  | .general | .nonMinimalEncoding | .requires64bit | .reasonRequiresCode => closeInternalEndpointError

/-- `processor_category::message`. -/
def ProcessorError.message : ProcessorError → Bytes
  | .general => textBytes "Generic processor error"
  | .messageTooBig => textBytes "A message was too large"
  | .invalidPayload => textBytes "A payload contained invalid data"
  | .invalidOpcode => textBytes "invalid opcode"
  | .controlTooBig => textBytes "Control messages are limited to fewer than 125 characters"
  | .invalidRsvBit => textBytes "Invalid use of reserved bits"
  | .fragmentedControl => textBytes "Control messages cannot be fragmented"
  | .invalidContinuation => textBytes "Invalid message continuation"
  | .maskingRequired => textBytes "Clients may not send unmasked frames"
  | .maskingForbidden => textBytes "Servers may not send masked frames"
  | .nonMinimalEncoding => textBytes "Payload length was not minimally encoded"
  | .requires64bit => textBytes "64 bit frames are not supported on 32 bit systems"
  | .invalidUtf8 => textBytes "Invalid UTF8 encoding"
  | .reservedCloseCode => textBytes "Reserved close code used"
  | .invalidCloseCode => textBytes "Invalid close code used"
  | .reasonRequiresCode => textBytes "Using a close reason requires a valid close code"

end Osp.Websocketpp
