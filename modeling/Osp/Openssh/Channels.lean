import Mathlib.Algebra.Group.Nat.Defs
import Mathlib.Tactic.Common

/-!
# The window of a channel

What `channels.c` and `nchan.c` do to the receive window of an open channel of protocol 2 that is a stream without filters. Of a
buffer only its length counts. A call of `write` or `read` returns a length, 0 for a failure, or nothing if it is to be tried again.
-/

namespace Osp.Openssh

/-- `CHAN_OUTPUT_OPEN` and so on. -/
inductive OutputState
  | open
  | waitDrain
  | closed
deriving DecidableEq

/-- `CHAN_EXTENDED_IGNORE` and so on. -/
inductive ExtendedUsage
  | ignore
  | read
  | write
deriving DecidableEq

structure Channel where
  ostate : OutputState
  localWindow : Nat
  localWindowMax : Nat
  localConsumed : Nat
  localMaxpacket : Nat
  output : Nat
  extended : Nat
  extendedUsage : ExtendedUsage
  efdOpen : Bool
  eofRcvd : Bool
  closeRcvd : Bool
  closeSent : Bool

variable (c : Channel)

/-- `chan_shutdown_write`. -/
def chanShutdownWrite : Channel := { c with output := 0 }

/-- `chan_write_failed2`. -/
def chanWriteFailed2 : Channel :=
  match c.ostate with
  | .open | .waitDrain => { chanShutdownWrite c with ostate := .closed }
  | .closed => c

/-- `chan_obuf_empty`, where the output is found to be drained: `CHANNEL_EFD_OUTPUT_ACTIVE` delays it. -/
def checkDrained : Channel :=
  let efdActive := c.extendedUsage = .write ∧ c.efdOpen ∧ (¬(c.eofRcvd ∨ c.closeRcvd) ∨ 0 < c.extended)
  if c.ostate = .waitDrain ∧ c.output = 0 ∧ ¬efdActive then { chanShutdownWrite c with ostate := .closed } else c

/-- The output is to be drained. -/
def waitDrain : Channel := if c.ostate = .open then { c with ostate := .waitDrain } else c

/-- `chan_rcvd_ieof`. -/
def chanRcvdIeof : Channel := checkDrained (waitDrain { c with eofRcvd := true })

/-- `chan_rcvd_close2`. -/
def chanRcvdClose2 : Channel := waitDrain { c with closeRcvd := true }

/-- `channel_input_data`. Data for an output that is no longer open counts as consumed. -/
def channelInputData (len : Nat) : Channel :=
  if c.ostate ≠ .open then { c with localWindow := c.localWindow - len, localConsumed := c.localConsumed + len }
  else if c.localWindow < len then c
  else { c with localWindow := c.localWindow - len, output := c.output + len }

/-- `channel_input_extended_data`; `accept` if the peer has `SSH_BUG_EXTEOF`. After EOF the connection ends otherwise. -/
def channelInputExtendedData (accept stderr : Bool) (len : Nat) : Channel :=
  if c.eofRcvd ∧ ¬accept then c
  else if ¬c.efdOpen ∨ c.extendedUsage ≠ .write ∨ ¬stderr then c
  else if c.localWindow < len then c
  else { c with localWindow := c.localWindow - len, extended := c.extended + len }

/-- `channel_handle_wfd`. -/
def channelHandleWfd (written : Option Nat) : Channel :=
  if c.output = 0 then c
  else
    match written with
    | none => c
    | some 0 => chanWriteFailed2 c
    | some len => { c with output := c.output - len, localConsumed := c.localConsumed + (c.output - (c.output - len)) }

/-- `channel_handle_efd`. No more is written than there is. -/
def channelHandleEfd (result : Option Nat) : Channel :=
  if ¬c.efdOpen ∨ c.extendedUsage = .write ∧ c.extended = 0 then c
  else
    match c.extendedUsage, result with
    | _, none => c
    | _, some 0 => { c with efdOpen := false }
    | .write, some len =>
      { c with extended := c.extended - len, localConsumed := c.localConsumed + min len c.extended }
    | .read, some len => { c with extended := c.extended + len }
    | .ignore, some _ => c

/-- `channel_check_window`, with the adjustment that it sends. -/
def channelCheckWindow : Channel × Nat :=
  if ¬(c.closeSent ∨ c.closeRcvd) ∧
      (c.localMaxpacket * 3 % 2 ^ 32 < c.localWindowMax - c.localWindow ∨ c.localWindow < c.localWindowMax / 2) ∧
      0 < c.localConsumed then
    ({ c with localWindow := c.localWindow + c.localConsumed, localConsumed := 0 }, c.localConsumed)
  else (c, 0)

/-- The part of `channel_output_poll` that sends what was read from the extended descriptor. -/
def sendExtended (len : Nat) : Channel := if c.extendedUsage = .read then { c with extended := c.extended - len } else c

inductive ChannelEvent
  | data (len : Nat)
  | extendedData (accept stderr : Bool) (len : Nat)
  | eof
  | close
  | wfd (written : Option Nat)
  | efd (result : Option Nat)
  | checkWindow
  | sendExtended (len : Nat)
  /-- `client_status_confirm` tells a multiplexed client about a failure -/
  | message (len : Nat)
  | drained
  /-- `chan_write_failed` outside a write: the child has exited, or the other end of a multiplexed session is gone -/
  | writeFailed
  | closeSent

def channelStep : ChannelEvent → Channel
  | .data len => channelInputData c len
  | .extendedData accept stderr len => channelInputExtendedData c accept stderr len
  | .eof => chanRcvdIeof c
  | .close => chanRcvdClose2 c
  | .wfd written => channelHandleWfd c written
  | .efd result => channelHandleEfd c result
  | .checkWindow => (channelCheckWindow c).1
  | .sendExtended len => sendExtended c len
  | .message len => { c with extended := c.extended + len }
  | .drained => checkDrained c
  | .writeFailed => chanWriteFailed2 c
  | .closeSent => { c with closeSent := true }

end Osp.Openssh
