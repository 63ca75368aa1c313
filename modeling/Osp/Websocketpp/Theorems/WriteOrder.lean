import Mathlib.Data.UInt
import Osp.Lib.Lists
import Osp.Websocketpp.WriteQueue

/-!
# Frames are written once and in order

Whatever the order in which messages are pushed, dispatched `write_frame` calls run and writes complete: the transport is given
the messages in the order in which they were pushed, up to the first terminal one, one write at a time, and a queue that is not
empty has someone to write it.
-/

namespace Osp.Websocketpp

open Osp.Lib List

namespace WriteQueue

/-- The sum of the sizes of the payloads, as a `size_t`. -/
def totalSize : List Outgoing → UInt64
  | [] => 0
  | msg :: l => payloadSize msg + totalSize l

theorem totalSize_append (l l' : List Outgoing) : totalSize (l ++ l') = totalSize l + totalSize l' := by
  induction l with
  | nil => simp [totalSize]
  | cons msg l ih => rw [cons_append, totalSize, totalSize, ih, UInt64.add_assoc]

variable {q : WriteQueue} {handed : List Outgoing}

/-- The loop of `write_frame` takes the messages up to the first terminal one. -/
theorem popMessages_eq (q : WriteQueue) :
    let taken := takeThrough Outgoing.terminal q.sendQueue
    ∃ rest, q.sendQueue = taken ++ rest ∧ popMessages q.sendQueue.length q = { q with
      currentMsgs := q.currentMsgs ++ taken
      sendQueue := rest
      sendBufferSize := q.sendBufferSize - totalSize taken } := by
  dsimp only
  generalize hl : q.sendQueue = l
  induction l generalizing q with
  | nil =>
    obtain ⟨queue, size, flag, current, buffer, pushed, written, outstanding, dispatched⟩ := q
    obtain rfl : queue = [] := hl
    simp [popMessages, takeThrough, totalSize]
  | cons msg l ih =>
    rw [length_cons, popMessages, writePop, hl]
    by_cases hterminal : msg.terminal = true
    · refine ⟨l, ?_, ?_⟩
      · rw [takeThrough, if_pos hterminal, singleton_append]
      · simp [hterminal, takeThrough, totalSize]
    · obtain ⟨rest, hrest, hpop⟩ := ih { q with
        sendBufferSize := q.sendBufferSize - payloadSize msg
        sendQueue := l
        currentMsgs := q.currentMsgs ++ [msg] } rfl
      refine ⟨rest, ?_, ?_⟩
      · rw [takeThrough, if_neg hterminal, cons_append]
        exact congrArg (msg :: ·) hrest
      · simp only [hterminal, takeThrough, Bool.false_eq_true, if_false, hpop]
        rw [totalSize, ← sub_sub, append_assoc, singleton_append]

/-- What a queue that was reached is doing. While the flag is clear, nothing is being written. While it is set, either one write
is outstanding, of the last messages that were handed over, or a terminal message has been written and nothing more will be. -/
inductive Stage (q : WriteQueue) (handed : List Outgoing) : Prop
  | idle (flag : q.writeFlag = false) (outstanding : q.outstanding = 0) (current : q.currentMsgs = [])
    (buffer : q.sendBuffer = []) (open_ : ∀ msg ∈ handed, msg.terminal = false)
  | writing (flag : q.writeFlag = true) (outstanding : q.outstanding = 1) (before : List Outgoing)
    (split : handed = before ++ q.currentMsgs) (open_ : ∀ msg ∈ before, msg.terminal = false)
    (through : takeThrough Outgoing.terminal q.currentMsgs = q.currentMsgs)
  | ended (flag : q.writeFlag = true) (outstanding : q.outstanding = 0) (terminal : ∃ msg ∈ handed, msg.terminal = true)
    (through : takeThrough Outgoing.terminal handed = handed)

/-- What holds of every queue that is reached, for the messages that have been handed to the transport. -/
structure Sound (q : WriteQueue) (handed : List Outgoing) : Prop where
  pushed : q.pushed = handed ++ q.sendQueue
  written : q.written = handed.flatMap Outgoing.buffers
  size : q.sendBufferSize = totalSize q.sendQueue
  stage : q.Stage handed
  wake : q.sendQueue ≠ [] → q.writeFlag = true ∨ 0 < q.dispatched

theorem sound_empty : empty.Sound [] :=
  ⟨rfl, rfl, rfl, .idle rfl rfl rfl rfl fun _ h => absurd h not_mem_nil, fun h => absurd rfl h⟩

theorem Stage.congr (h : q.Stage handed) {q' : WriteQueue} (hflag : q'.writeFlag = q.writeFlag)
    (houtstanding : q'.outstanding = q.outstanding) (hcurrent : q'.currentMsgs = q.currentMsgs)
    (hbuffer : q'.sendBuffer = q.sendBuffer) : q'.Stage handed := by
  cases h with
  | idle flag outstanding current buffer open_ =>
    exact .idle (hflag.trans flag) (houtstanding.trans outstanding) (hcurrent.trans current) (hbuffer.trans buffer) open_
  | writing flag outstanding before split open_ through =>
    exact .writing (hflag.trans flag) (houtstanding.trans outstanding) before (by rw [hcurrent, split]) open_
      (by rw [hcurrent, through])
  | ended flag outstanding terminal through =>
    exact .ended (hflag.trans flag) (houtstanding.trans outstanding) terminal through

/-- A message that is pushed is the last of the queue; if nothing is being written, `write_frame` is dispatched. -/
theorem Sound.push (h : q.Sound handed) (msg : Outgoing) : (q.push msg).Sound handed := by
  have hpushed : q.pushed ++ [msg] = handed ++ (q.sendQueue ++ [msg]) := by rw [h.pushed, append_assoc]
  have hsize : q.sendBufferSize + payloadSize msg = totalSize (q.sendQueue ++ [msg]) := by
    rw [totalSize_append, h.size, totalSize, totalSize, add_zero]
  unfold WriteQueue.push
  split
  · exact ⟨hpushed, h.written, hsize, h.stage.congr rfl rfl rfl rfl, fun _ => .inr (Nat.succ_pos _)⟩
  · rename_i hneeds
    refine ⟨hpushed, h.written, hsize, h.stage.congr rfl rfl rfl rfl, fun _ => .inl ?_⟩
    simpa [needsWriting, writePush] using hneeds

/-- `write_frame` hands the messages up to the first terminal one over, unless a write is outstanding. -/
theorem Sound.writeFrame (h : q.Sound handed) : ∃ handed', q.writeFrame.Sound handed' := by
  unfold WriteQueue.writeFrame
  by_cases hflag : q.writeFlag = true
  · rw [if_pos hflag]
    exact ⟨handed, h.pushed, h.written, h.size, h.stage.congr rfl rfl rfl rfl, fun _ => .inl hflag⟩
  · rw [if_neg hflag]
    obtain ⟨rest, hrest, hpop⟩ := popMessages_eq { q with dispatched := q.dispatched - 1 }
    cases h.stage with
    | writing flag => exact absurd flag hflag
    | ended flag => exact absurd flag hflag
    | idle flag outstanding current buffer open_ =>
      rw [hpop]
      simp only [current, nil_append]
      split
      · rename_i hnone
        have hbatch : takeThrough Outgoing.terminal q.sendQueue = [] := isEmpty_iff.1 hnone
        have hqueue : q.sendQueue = rest := hrest.trans (by rw [hbatch, nil_append])
        refine ⟨handed, ?_, h.written, ?_, .idle flag outstanding hbatch buffer open_, fun hne => ?_⟩
        · rw [← hqueue]
          exact h.pushed
        · rw [hbatch, totalSize, sub_zero, ← hqueue]
          exact h.size
        · cases hq : q.sendQueue with
          | nil => exact absurd (hqueue.symm.trans hq) hne
          | cons msg l =>
            rw [hq, takeThrough] at hbatch
            split at hbatch <;> cases hbatch
      · refine ⟨handed ++ takeThrough Outgoing.terminal q.sendQueue, ?_, ?_, ?_, ?_, fun _ => .inl rfl⟩
        · rw [append_assoc]
          exact h.pushed.trans (congrArg (handed ++ ·) hrest)
        · simp only [asyncWrite, buffer, nil_append, h.written, flatMap_append]
        · show q.sendBufferSize - totalSize (takeThrough Outgoing.terminal q.sendQueue) = totalSize rest
          rw [h.size]
          nth_rewrite 1 [hrest]
          rw [totalSize_append, add_sub_cancel_left]
        · refine .writing rfl (congrArg (· + 1) outstanding) handed rfl open_ ?_
          exact takeThrough_takeThrough _ _

/-- The completion of a write lets the next one begin, unless the last message written was terminal. -/
theorem Sound.handleWriteFrame (h : q.Sound handed) (hout : 0 < q.outstanding) : q.handleWriteFrame.Sound handed := by
  cases h.stage with
  | idle _ outstanding => exact absurd hout (by rw [outstanding]; exact Nat.lt_irrefl 0)
  | ended _ outstanding => exact absurd hout (by rw [outstanding]; exact Nat.lt_irrefl 0)
  | writing flag outstanding before split open_ through =>
    have hthrough : takeThrough Outgoing.terminal handed = handed := by
      rw [split, takeThrough_append_of_forall open_, through]
    have hdone : q.outstanding - 1 = 0 := by rw [outstanding]
    unfold WriteQueue.handleWriteFrame
    by_cases hterminal : q.endsTerminal = true
    · rw [if_pos hterminal]
      refine ⟨h.pushed, h.written, h.size, .ended flag hdone ?_ hthrough, fun _ => .inl flag⟩
      unfold endsTerminal at hterminal
      cases hlast : q.currentMsgs.getLast? with
      | none => simp [hlast] at hterminal
      | some msg =>
        rw [hlast] at hterminal
        exact ⟨msg, split ▸ mem_append_right _ (mem_of_getLast? hlast), hterminal⟩
    · rw [if_neg hterminal]
      have hopen : ∀ msg ∈ handed, msg.terminal = false := by
        have hcurrent := forall_of_takeThrough_of_getLast through fun msg hlast => by
          simpa [endsTerminal, hlast] using hterminal
        intro msg hmem
        rcases mem_append.1 (split ▸ hmem) with hmem | hmem
        · exact open_ msg hmem
        · exact hcurrent msg hmem
      unfold release
      simp only
      split
      · rename_i hempty
        exact ⟨h.pushed, h.written, h.size, .idle rfl hdone rfl rfl hopen, fun hne => absurd (isEmpty_iff.1 hempty) hne⟩
      · exact ⟨h.pushed, h.written, h.size, .idle rfl hdone rfl rfl hopen, fun _ => .inr (Nat.succ_pos _)⟩

theorem Reaches.sound (h : q.Reaches) : ∃ handed, q.Sound handed := by
  induction h with
  | empty => exact ⟨[], sound_empty⟩
  | push msg _ ih =>
    obtain ⟨handed, hs⟩ := ih
    exact ⟨handed, hs.push msg⟩
  | writeFrame _ _ ih =>
    obtain ⟨handed, hs⟩ := ih
    exact hs.writeFrame
  | handleWriteFrame _ hout ih =>
    obtain ⟨handed, hs⟩ := ih
    exact ⟨handed, hs.handleWriteFrame hout⟩

theorem Sound.prefix_pushed (h : q.Sound handed) : handed <+: takeThrough Outgoing.terminal q.pushed := by
  rw [h.pushed]
  by_cases hopen : ∀ msg ∈ handed, msg.terminal = false
  · rw [takeThrough_append_of_forall hopen]
    exact prefix_append ..
  · have hterminal : ∃ msg ∈ handed, msg.terminal = true := by simpa using hopen
    rw [takeThrough_append_of_mem hterminal]
    cases h.stage with
    | idle _ _ _ _ open_ => exact absurd open_ hopen
    | writing _ _ before split open_ through =>
      rw [split, takeThrough_append_of_forall open_]
      exact (prefix_append_right_inj before).2 (through.symm ▸ prefix_rfl)
    | ended _ _ _ through => rw [through]

/-- When no write is outstanding and no `write_frame` is pending, everything up to the first terminal message was handed over. -/
theorem Sound.all_handed (h : q.Sound handed) (hdispatched : q.dispatched = 0) (hout : q.outstanding = 0) :
    handed = takeThrough Outgoing.terminal q.pushed := by
  cases h.stage with
  | idle flag _ _ _ open_ =>
    have hempty : q.sendQueue = [] := by
      by_contra hne
      rcases h.wake hne with hflag | hpending
      · exact absurd (flag.symm.trans hflag) Bool.false_ne_true
      · exact absurd hdispatched (Nat.ne_of_gt hpending)
    rw [h.pushed, hempty, append_nil, takeThrough_of_forall open_]
  | writing _ outstanding => exact absurd (outstanding.symm.trans hout) Nat.one_ne_zero
  | ended _ _ terminal through => rw [h.pushed, takeThrough_append_of_mem terminal, through]

end WriteQueue

open WriteQueue in
/-- For every order of pushes, dispatched `write_frame` calls and completions: what was given to the transport are the buffers of
the messages pushed first, in order, each once, never beyond the first terminal one; at most one write is outstanding;
`m_send_buffer_size` is the size of the payloads in the queue; while the queue is not empty, the flag is set or a `write_frame` is
pending; and when nothing is pending or outstanding, everything up to the first terminal message has been handed over. -/
theorem frames_written_in_order {q : WriteQueue} (h : q.Reaches) :
    ∃ handed, q.pushed = handed ++ q.sendQueue ∧ q.written = handed.flatMap Outgoing.buffers ∧
      handed <+: takeThrough Outgoing.terminal q.pushed ∧ q.outstanding ≤ 1 ∧ q.sendBufferSize = totalSize q.sendQueue ∧
      (q.sendQueue ≠ [] → q.writeFlag = true ∨ 0 < q.dispatched) ∧
      (q.dispatched = 0 → q.outstanding = 0 → handed = takeThrough Outgoing.terminal q.pushed) := by
  obtain ⟨handed, hs⟩ := h.sound
  refine ⟨handed, hs.pushed, hs.written, hs.prefix_pushed, ?_, hs.size, hs.wake, hs.all_handed⟩
  cases hs.stage with
  | idle _ outstanding => exact outstanding ▸ Nat.zero_le 1
  | writing _ outstanding => exact outstanding ▸ Nat.le_refl 1
  | ended _ outstanding => exact outstanding ▸ Nat.zero_le 1

open WriteQueue in
/-- A text is pushed and its write begins; a close frame is pushed meanwhile, then a ping; the write completes and the next one
begins. The close frame is terminal, so the ping stays in the queue. -/
theorem frames_written_in_order_close :
    let text : Outgoing := ⟨.text, [0x81, 1], [65], false⟩
    let close : Outgoing := ⟨.close, [0x88, 0], [], true⟩
    let ping : Outgoing := ⟨.ping, [0x89, 0], [], false⟩
    let q := ((((empty.push text).writeFrame.push close).push ping).handleWriteFrame).writeFrame
    q.written = [[0x81, 1], [65], [0x88, 0], []] ∧ q.sendQueue = [ping] ∧
      ∃ handed, q.pushed = handed ++ q.sendQueue ∧ q.written = handed.flatMap Outgoing.buffers ∧
        handed <+: takeThrough Outgoing.terminal q.pushed := by
  intro text close ping q
  have hreached : q.Reaches :=
    .writeFrame (.handleWriteFrame (.push ping (.push close (.writeFrame (.push text .empty) (by decide)))) (by decide)) (by decide)
  obtain ⟨handed, hpushed, hwritten, hpre, -⟩ := frames_written_in_order hreached
  exact ⟨by decide, by decide, handed, hpushed, hwritten, hpre⟩

end Osp.Websocketpp
