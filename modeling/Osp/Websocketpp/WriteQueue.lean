import Osp.Websocketpp.Hybi13

/-!
# The write queue of a connection

The members of `connection` that writing frames uses, and what `write_push`, `write_pop`, `write_frame` and `handle_write_frame`
do to them. Beside the members, a `WriteQueue` records what has happened: the messages that were pushed, the buffers that were
handed to the transport, the writes that have not completed, and the `write_frame` calls that were dispatched and have not run.
-/

namespace Osp.Websocketpp

/-- A message that is ready to be written. After a terminal one the connection is terminated. -/
structure Outgoing where
  opcode : Opcode
  header : Bytes
  payload : Bytes
  terminal : Bool
deriving DecidableEq

/-- The buffers of a message. -/
def Outgoing.buffers (msg : Outgoing) : List Bytes := [msg.header, msg.payload]

/-- The write queue; `m_send_buffer_size` is a `size_t`. -/
structure WriteQueue where
  sendQueue : List Outgoing
  sendBufferSize : UInt64
  writeFlag : Bool
  currentMsgs : List Outgoing
  sendBuffer : List Bytes
  pushed : List Outgoing
  written : List Bytes
  outstanding : Nat
  dispatched : Nat

namespace WriteQueue

variable (q : WriteQueue)

/-- The queue of a new connection. -/
def empty : WriteQueue := ⟨[], 0, false, [], [], [], [], 0, 0⟩

/-- The size of a payload, as a `size_t`. -/
def payloadSize (msg : Outgoing) : UInt64 := UInt64.ofNat msg.payload.length

/-- `write_push`. -/
def writePush (msg : Outgoing) : WriteQueue :=
  { q with
    sendBufferSize := q.sendBufferSize + payloadSize msg
    sendQueue := q.sendQueue ++ [msg]
    pushed := q.pushed ++ [msg] }

/-- `write_pop`. -/
def writePop : Option Outgoing × WriteQueue :=
  match q.sendQueue with
  | [] => (none, q)
  | msg :: rest => (some msg, { q with sendBufferSize := q.sendBufferSize - payloadSize msg, sendQueue := rest })

/-- `write_frame` is dispatched. -/
def dispatch : WriteQueue := { q with dispatched := q.dispatched + 1 }

/-- The test that `send`, `ping`, `pong` and `send_close_frame` make after a push. -/
def needsWriting : Bool := !q.writeFlag && !q.sendQueue.isEmpty

/-- The locked end of `send`, `ping`, `pong` and `send_close_frame`, with the dispatch it decides on. -/
def push (msg : Outgoing) : WriteQueue :=
  if (q.writePush msg).needsWriting then (q.writePush msg).dispatch else q.writePush msg

/-- The loop of `write_frame`, at most `n` times: messages are moved to the current ones up to one that is terminal. -/
def popMessages : Nat → WriteQueue → WriteQueue
  | 0, q => q
  | n + 1, q =>
    match q.writePop with
    | (none, q) => q
    | (some msg, q) =>
      let q := { q with currentMsgs := q.currentMsgs ++ [msg] }
      if msg.terminal then q else popMessages n q

/-- The transport write at the end of `write_frame`. -/
def asyncWrite : WriteQueue :=
  let q := { q with sendBuffer := q.sendBuffer ++ q.currentMsgs.flatMap Outgoing.buffers }
  { q with written := q.written ++ q.sendBuffer, outstanding := q.outstanding + 1 }

/-- `write_frame`, as a call that was dispatched. -/
def writeFrame : WriteQueue :=
  let q := { q with dispatched := q.dispatched - 1 }
  if q.writeFlag then q
  else
    let q := popMessages q.sendQueue.length q
    if q.currentMsgs.isEmpty then q else asyncWrite { q with writeFlag := true }

/-- Whether the current messages end with a terminal one. -/
def endsTerminal : Bool := (q.currentMsgs.getLast?.map Outgoing.terminal).getD false

/-- `handle_write_frame`, up to the point where it terminates the connection because of an error or a terminal message. -/
def clearCurrent : WriteQueue :=
  { q with sendBuffer := [], currentMsgs := [], outstanding := q.outstanding - 1 }

/-- The locked end of `handle_write_frame`, with the dispatch it decides on. -/
def release : WriteQueue :=
  let q := { q with writeFlag := false }
  if q.sendQueue.isEmpty then q else q.dispatch

/-- `handle_write_frame` after a write that did not fail. -/
def handleWriteFrame : WriteQueue :=
  if q.endsTerminal then q.clearCurrent else q.clearCurrent.release

/-! ## What was pushed -/

@[simp] theorem pushed_push (msg : Outgoing) : (q.push msg).pushed = q.pushed ++ [msg] := by
  unfold push
  split <;> rfl

theorem pushed_popMessages (n : Nat) (q : WriteQueue) : (popMessages n q).pushed = q.pushed := by
  induction n generalizing q with
  | zero => rfl
  | succ n ih =>
    unfold popMessages writePop
    split
    · rename_i hpop
      split at hpop <;> cases hpop
      rfl
    · rename_i hpop
      split at hpop <;> cases hpop
      split
      · rfl
      · rw [ih]

@[simp] theorem pushed_writeFrame : q.writeFrame.pushed = q.pushed := by
  unfold writeFrame
  simp only
  split
  · rfl
  · split
    · rw [pushed_popMessages]
    · simp only [asyncWrite, pushed_popMessages]

@[simp] theorem pushed_release : q.release.pushed = q.pushed := by
  unfold release
  simp only
  split <;> rfl

/-! ## Runs -/

/-- The queues that are reached by pushes, by `write_frame` calls that were dispatched, and by completions of writes, none of
which failed. -/
inductive Reaches : WriteQueue → Prop
  | empty : Reaches empty
  | push {q : WriteQueue} (msg : Outgoing) : Reaches q → Reaches (q.push msg)
  | writeFrame {q : WriteQueue} : Reaches q → 0 < q.dispatched → Reaches q.writeFrame
  | handleWriteFrame {q : WriteQueue} : Reaches q → 0 < q.outstanding → Reaches q.handleWriteFrame

end WriteQueue

end Osp.Websocketpp
