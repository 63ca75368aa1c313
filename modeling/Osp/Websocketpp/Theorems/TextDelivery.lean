import Osp.Websocketpp.Theorems.Chunking

/-!
# Text messages are well-formed UTF-8, unless a continuation frame ends them inside a character

Payload bytes of a text message are validated as they come in, in all frames of the message. Whether the message ends between
two characters is checked in `finalize_message`, but only if the frame that ends the message is itself a text frame. So a
fragmented text message may end inside a character.
-/

namespace Osp.Websocketpp

open Lib Processor

namespace Processor

/-- The validator of the data message has seen its payload and not refused it, if it is a text message. -/
def TextData (pr : Processor) : Prop :=
  ∀ msg, pr.dataMsg.msgPtr = some msg → msg.opcode = .text →
    pr.dataMsg.validator.state = utf8Run 0 msg.payload ∧ utf8Run 0 msg.payload ≠ 1

/-- The invariant of reading frames: the validator follows the text, and a message that a text frame ended ends between two
characters. -/
structure TextOk (pr : Processor) : Prop where
  data : pr.TextData
  final : pr.ready = true → pr.basicHeader.getOpcode = .text → pr.current.validator.complete = true

theorem textOk_init : TextOk init := ⟨nofun, nofun⟩

variable {ep : Endpoint} {pr : Processor}

theorem textData_startFrame (h : pr.TextData) (he : (pr.startFrame ep).2 = none) :
    (pr.startFrame ep).1.TextData ∧ (pr.startFrame ep).1.ready = false := by
  rcases startFrame_cases he with ⟨-, hst⟩ | ⟨-, -, -, hst⟩ | ⟨-, out, hout, -, hst⟩ <;> rw [hst]
  · exact ⟨h, rfl⟩
  · refine ⟨fun msg hmsg _ => ?_, rfl⟩
    obtain rfl := Option.some.inj hmsg
    exact ⟨rfl, Nat.zero_ne_one⟩
  · exact ⟨h, rfl⟩

/-- Payload bytes that are not refused keep the validator in step with the payload. -/
theorem textData_received (h : pr.TextData) {msg : Message} {key : MaskingKey}
    {buf : Bytes} (hm : pr.current.msgPtr = some msg)
    (hok : (checkText msg.opcode pr.current.validator (pr.basicHeader.unmask key buf)).2 = true) (n : Nat) :
    ((pr.setCurrent (pr.received ep msg key buf)).needing n).TextData := by
  unfold current at hm
  unfold TextData setCurrent needing
  cases hc : pr.currentMsg <;> simp only [hc] at hm ⊢
  · intro msg' hmsg' htext
    obtain rfl := Option.some.inj hmsg'
    have htext : msg.opcode = .text := htext
    have hcur : pr.current = pr.dataMsg := by simp [current, hc]
    obtain ⟨hstate, hne⟩ := h msg hm htext
    have hv : pr.dataMsg.validator.state ≠ 1 := by rw [hstate]; exact hne
    have hdec := pr.dataMsg.validator.decode_spec (pr.basicHeader.unmask key buf) hv
    simp only [checkText, htext, if_true, hcur] at hok
    simp only [received, checkText, htext, if_true, hcur]
    rw [utf8Run_append, ← hstate]
    exact ⟨hdec.2 hok, hdec.1.mp hok⟩
  · exact h

theorem textOk_endFrame (h : pr.TextData) (he : pr.endFrame.2 = none) : TextOk pr.endFrame.1 := by
  unfold endFrame finalizeMessage at he ⊢
  split_ifs at he ⊢ with hfin htext
  · refine ⟨h, fun _ hop => ?_⟩
    have hcomplete : pr.current.validator.complete = true := by
      by_contra hc
      exact htext ⟨hop, by simpa using hc⟩
    exact hcomplete
  · exact ⟨h, nofun⟩

/-- A pass of `consume` keeps the invariant. -/
theorem TextOk.pass {pr' : Processor} (h : TextOk pr) (hp : Pass ep pr pr') : TextOk pr' := by
  cases hp with
  | header hd _ hready =>
    refine ⟨?_, fun hr => by simp [hready] at hr⟩
    unfold TextData
    rw [hd]
    exact h.data
  | @start pr₁ hd _ he =>
    have hdata : pr₁.TextData := by
      unfold TextData
      rw [hd]
      exact h.data
    obtain ⟨h1, h2⟩ := textData_startFrame hdata he
    exact ⟨h1, fun hr => by simp [h2] at hr⟩
  | payload hs hm hok =>
    exact ⟨textData_received h.data hm hok _, fun hr => by simp [ready, hs] at hr⟩
  | endFrame _ he => exact textOk_endFrame h.data he
  | payloadEnd _ hm hok he => exact textOk_endFrame (textData_received h.data hm hok _) he

theorem TextOk.getMessage {ep : Endpoint} {pr : Processor} (hw : Wf ep pr) (h : TextOk pr) (hr : pr.ready = true) :
    TextOk pr.getMessage.2 := by
  obtain ⟨m, hm, -, -, hstate, -⟩ := hw.getMessage hr
  refine ⟨?_, fun hready => by simp [ready, hstate] at hready⟩
  intro msg hmsg htext
  unfold Processor.getMessage at hmsg ⊢
  simp only [hr, Bool.not_true, hm] at hmsg ⊢
  have hm' := hm
  unfold current at hm'
  cases hc : pr.currentMsg <;> simp only [hc] at hm'
  · have hop := hw.dataOp m hm'
    simp [setCurrent, hc, hop, resetHeaders, current] at hmsg
  · have hop := hw.controlOp m hm'
    simp [setCurrent, hc, hop, resetHeaders] at hmsg ⊢
    exact h.data msg hmsg htext

/-- A text message that is ready is well formed exactly if its validator is complete. -/
theorem wellFormed_iff_complete (hw : Wf ep pr) (h : TextOk pr) {m : Message}
    (hm : pr.current.msgPtr = some m) (htext : m.opcode = .text) :
    WellFormedUtf8 m.payload ↔ pr.current.validator.complete = true := by
  unfold current at hm ⊢
  cases hc : pr.currentMsg <;> simp only [hc] at hm ⊢
  · rw [← utf8Run_accept_iff, ← (h.data m hm htext).1]
    exact (Validator.complete_iff _).symm
  · have := hw.controlOp m hm
    rw [htext] at this
    cases this

/-- The processor each time a message is ready, while buffers are read. -/
def readyStates (ep : Endpoint) (cs : List Bytes) : List Processor :=
  (feedAll (observeReadFrame (fun pr => [pr]) ep) init cs).out

/-- The messages delivered are those of the processors with a message ready. -/
theorem handleReadFrame_out (cs : List Bytes) :
    (feedAll (handleReadFrame ep) init cs).out = (readyStates ep cs).flatMap messages := by
  have hmachine : machine messages ep = (machine (fun pr => [pr]) ep).flatMapOut messages := by
    have hstep : (machine messages ep).step = ((machine (fun pr => [pr]) ep).flatMapOut messages).step := by
      funext pr buf
      simp only [Machine.flatMapOut]
      cases hready : pr.ready with
      | true =>
        rw [machine_step_ready _ ep hready, machine_step_ready _ ep hready]
        simp [Except.map]
      | false =>
        rw [machine_step_pass _ ep hready, machine_step_pass _ ep hready]
        unfold Iteration.stride
        split <;> rfl
    exact congrArg (fun f => (⟨f, waiting⟩ : Machine UInt8 Message ProcessorError Processor)) hstep
  have hfeed : handleReadFrame ep = observeReadFrame messages ep := rfl
  rw [readyStates, hfeed, (observeReadFrame_compositional _ ep).feedAll_eq cs (atRest_init ep),
    (observeReadFrame_compositional _ ep).feedAll_eq cs (atRest_init ep),
    observeReadFrame_eq_feed _ (wf_init ep) rfl, observeReadFrame_eq_feed _ (wf_init ep) rfl, feed, feed, hmachine]
  simp only [Machine.runAll, Machine.run_flatMapOut]

/-- Whenever a message is ready the processor is well formed and satisfies the invariant. -/
theorem readyStates_inv (cs : List Bytes) :
    ∀ q ∈ readyStates ep cs, Wf ep q ∧ TextOk q ∧ q.ready = true := by
  rw [readyStates, (observeReadFrame_compositional _ ep).feedAll_eq cs (atRest_init ep),
    observeReadFrame_eq_feed _ (wf_init ep) rfl]
  refine (machine_progress _ ep).forall_out ?_ (wf_init ep) textOk_init cs.flatten
  intro pr buf r hwf hok hw hr
  rcases machine_step_cases _ hwf hw hr with ⟨hready, rfl⟩ | ⟨-, hpass, hout⟩
  · refine ⟨hok.getMessage hwf hready, ?_⟩
    intro q hq
    obtain rfl := List.mem_singleton.mp hq
    exact ⟨hwf, hok, hready⟩
  · refine ⟨hok.pass hpass, ?_⟩
    rw [hout]
    exact fun q hq => absurd hq List.not_mem_nil

/-- `finalize_message` leaves its check out: the message is a text message, but the frame that ends it is not a text frame. -/
def SkipsCheck (q : Processor) : Prop :=
  (∃ m, q.current.msgPtr = some m ∧ m.opcode = .text) ∧ q.basicHeader.getOpcode ≠ .text

end Processor

/-- Every text message delivered is well-formed UTF-8 exactly if, whenever `finalize_message` leaves its check out, the validator
of the message is complete. -/
theorem text_delivered_wellFormed_iff (ep : Endpoint) (cs : List Bytes) :
    (∀ m ∈ (feedAll (handleReadFrame ep) init cs).out, m.opcode = .text → WellFormedUtf8 m.payload) ↔
      ∀ q ∈ readyStates ep cs, q.SkipsCheck → q.current.validator.complete = true := by
  rw [Processor.handleReadFrame_out]
  constructor
  · rintro h q hq ⟨⟨m, hm, htext⟩, -⟩
    obtain ⟨hwf, hok, hready⟩ := readyStates_inv cs q hq
    obtain ⟨m', hm', hget, -⟩ := hwf.getMessage hready
    obtain rfl : m = m' := Option.some.inj (hm.symm.trans hm')
    have hmem : m ∈ (readyStates ep cs).flatMap messages :=
      List.mem_flatMap.mpr ⟨q, hq, by simp [messages, hget]⟩
    exact (wellFormed_iff_complete hwf hok hm htext).mp (h m hmem htext)
  · intro h m hmem htext
    obtain ⟨q, hq, hmq⟩ := List.mem_flatMap.mp hmem
    obtain ⟨hwf, hok, hready⟩ := readyStates_inv cs q hq
    obtain ⟨m', hm', hget, -⟩ := hwf.getMessage hready
    obtain rfl : m = m' := by simpa [messages, hget] using hmq
    refine (wellFormed_iff_complete hwf hok hm' htext).mpr ?_
    by_cases hop : q.basicHeader.getOpcode = .text
    · exact hok.final hready hop
    · exact h q hq ⟨⟨m, hm', htext⟩, hop⟩

/-- A client receives an empty text frame without FIN and a continuation frame with FIN whose payload is the first byte of a
two byte character. The message is delivered, and its payload is not well formed. -/
theorem text_delivered_cut_character :
    (feedAll (handleReadFrame (.default false)) init [[0x01, 0x00, 0x80, 0x01, 0xC3]]).out =
        [⟨.text, [0xC3]⟩] ∧
      ¬WellFormedUtf8 [0xC3] := by
  rw [← validate_iff]
  decide

end Osp.Websocketpp
