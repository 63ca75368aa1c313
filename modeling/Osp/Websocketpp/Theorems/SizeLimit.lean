import Osp.Websocketpp.Lemmas.Consume

/-!
# The message size limit

When a frame continues a message, `consume` compares the length it announces, added to the length of what has been received, with
`m_max_message_size`. The sum is a `size_t` and can wrap, and then the limit does not hold. As long as no sum wraps, no data
message ever grows beyond the limit.
-/

namespace Osp.Websocketpp

open Lib Processor

namespace Processor

/-- The length of the raw payload of the data message that is being assembled. -/
def dataLength (pr : Processor) : Nat := (pr.dataMsg.msgPtr.map fun msg => msg.payload.length).getD 0

/-- The processors, with the error code of the last pass, that are reached when passes of `consume` of a kind are made, on any
bytes, and messages that are ready are taken. Nothing is read after an error. -/
inductive Reached (ep : Endpoint) (Ok : Processor → Bytes → Prop) : Processor → Option ProcessorError → Prop
  | init : Reached ep Ok init none
  | pass {pr : Processor} {buf : Bytes} : Reached ep Ok pr none → pr.continues buf = true → Ok pr buf →
    Reached ep Ok (pr.consumeIteration ep buf).proc (pr.consumeIteration ep buf).ec
  | getMessage {pr : Processor} : Reached ep Ok pr none → Reached ep Ok pr.getMessage.2 none

/-- If the bytes complete the header of a frame that continues a data message, the length it announces, added to the length of
what has been received, does not wrap. -/
def NoWrap (ep : Endpoint) (pr : Processor) (buf : Bytes) : Prop :=
  pr.state = .headerExtended → pr.basicHeader.getOpcode.isControl = false → pr.bytesNeeded ≤ buf.length →
    pr.dataLength + getPayloadSize pr.basicHeader (pr.copyExtendedHeaderBytes buf).1.extendedHeader < ep.platform.sizeLimit

/-- The data message is within the limit, and so is what the current frame will add to it. -/
structure Bounded (ep : Endpoint) (pr : Processor) : Prop where
  le : pr.dataLength ≤ ep.maxMessageSize
  rest : pr.state = .extension ∨ pr.state = .application → pr.currentMsg = .data →
    pr.dataLength + pr.bytesNeeded ≤ ep.maxMessageSize

variable {ep : Endpoint} {pr : Processor} {buf : Bytes}

/-- A call of `consume` is a series of passes. -/
theorem Reached.consume {Ok : Processor → Bytes → Prop} (hok : ∀ pr buf, Ok pr buf) (h : pr.Reached ep Ok none) :
    (pr.consume ep buf).1.Reached ep Ok (pr.consume ep buf).2.2 := by
  have hloop : ∀ n pr buf, Reached ep Ok pr none → (consumeLoop ep n pr buf).1.Reached ep Ok (consumeLoop ep n pr buf).2.2 := by
    intro n
    induction n with
    | zero => exact fun _ _ h => h
    | succ n ih =>
      intro pr buf h
      rw [consumeLoop]
      split
      · rename_i hc
        have hpass := h.pass hc (hok pr buf)
        cases he : (pr.consumeIteration ep buf).ec with
        | some ec =>
          rw [he] at hpass
          simpa only [he] using hpass
        | none =>
          rw [he] at hpass
          simpa only [he] using ih _ _ hpass
      · exact h
  exact hloop (5 * buf.length + 5) pr buf h

theorem bounded_init : Bounded ep init := ⟨Nat.zero_le _, nofun⟩

/-- A processor that keeps the data message and is not inside a payload is bounded again. -/
theorem Bounded.of_header (h : Bounded ep pr) {pr' : Processor} (hdata : pr'.dataMsg = pr.dataMsg)
    (hs : pr'.state ≠ .extension ∧ pr'.state ≠ .application) : Bounded ep pr' := by
  refine ⟨?_, fun hin => hin.elim (fun he => absurd he hs.1) fun ha => absurd ha hs.2⟩
  rw [dataLength, hdata]
  exact h.le

/-- Taking a message leaves the data message, or none. -/
theorem Bounded.getMessage (h : Bounded ep pr) : Bounded ep pr.getMessage.2 := by
  unfold Processor.getMessage
  split
  · exact h
  · split
    · exact h
    · rename_i ret hcurrent
      refine ⟨?_, nofun⟩
      have hle : pr.dataLength ≤ ep.maxMessageSize := h.le
      cases hc : pr.currentMsg <;> cases ho : ret.opcode.isControl <;>
        simp_all [resetHeaders, setCurrent, dataLength]

/-- Reading a basic header does not touch the data message. -/
theorem Bounded.headerBasic (h : Bounded ep pr) (hs : pr.state = .headerBasic) (buf : Bytes) :
    Bounded ep (pr.consumeHeaderBasic ep buf).proc := by
  have hcopy : (pr.copyBasicHeaderBytes buf).1.dataMsg = pr.dataMsg ∧
      (pr.copyBasicHeaderBytes buf).1.state = .headerBasic := by
    unfold copyBasicHeaderBytes
    split
    · exact ⟨rfl, hs⟩
    · split
      · exact ⟨rfl, hs⟩
      · split <;> split <;> exact ⟨rfl, hs⟩
  unfold consumeHeaderBasic
  simp only
  split
  · exact h.of_header hcopy.1 (by rw [hcopy.2]; decide)
  · unfold enterExtended
    split
    · exact h.of_header hcopy.1 (by rw [hcopy.2]; decide)
    · exact h.of_header hcopy.1 ⟨nofun, nofun⟩

/-- What a frame whose header was accepted announces fits into the limit, if the sum does not wrap. -/
theorem Bounded.startFrame (h : Bounded ep pr) (hwrap : pr.basicHeader.getOpcode.isControl = false →
      pr.dataLength + getPayloadSize pr.basicHeader pr.extendedHeader < ep.platform.sizeLimit)
    (he : (pr.startFrame ep).2 = none) : Bounded ep (pr.startFrame ep).1 := by
  rcases startFrame_cases he with ⟨-, hst⟩ | ⟨-, hnone, hle, hst⟩ | ⟨hop, out, hout, hle, hst⟩ <;> rw [hst]
  · exact ⟨h.le, nofun⟩
  · refine ⟨Nat.zero_le _, fun _ _ => ?_⟩
    simpa [dataLength, MsgMetadata.new] using hle
  · refine ⟨h.le, fun _ _ => ?_⟩
    have hlength : pr.dataLength = out.payload.length := by simp [dataLength, hout]
    have hsum := hwrap hop
    rw [← hlength, frameSize, Nat.add_mod_mod, Nat.mod_eq_of_lt hsum] at hle
    exact (Nat.add_le_add_left (Nat.mod_le _ _) _).trans hle

/-- The start of a frame adds nothing to the data message. -/
theorem dataLength_startFrame_le : (pr.startFrame ep).1.dataLength ≤ pr.dataLength := by
  unfold Processor.startFrame
  simp only
  split
  · exact Nat.le_refl _
  · split <;> split
    · exact Nat.le_refl _
    · exact Nat.zero_le _
    · exact Nat.le_refl _
    · exact Nat.le_refl _

theorem Bounded.headerExtended (h : Bounded ep pr) (hs : pr.state = .headerExtended) (hwrap : pr.NoWrap ep buf) :
    (pr.consumeHeaderExtended ep buf).proc.dataLength ≤ ep.maxMessageSize ∧
      ((pr.consumeHeaderExtended ep buf).ec = none → Bounded ep (pr.consumeHeaderExtended ep buf).proc) := by
  by_cases hfull : pr.bytesNeeded ≤ buf.length
  · have hwithin : Bounded ep (pr.withExtended (buf.take pr.bytesNeeded)) :=
      h.of_header rfl (by rw [show (pr.withExtended _).state = pr.state from rfl, hs]; decide)
    have hsum : pr.basicHeader.getOpcode.isControl = false → _ := fun hop => hwrap hs hop hfull
    rw [copyExtendedHeaderBytes, Nat.min_eq_left hfull] at hsum
    rw [consumeHeaderExtended_full hfull]
    unfold enterApplication
    split
    · exact ⟨h.le, by rintro ⟨⟩⟩
    · refine ⟨?_, fun he => hwithin.startFrame hsum he⟩
      exact (dataLength_startFrame_le).trans h.le
  · have hwithin : Bounded ep (pr.withExtended buf) :=
      h.of_header rfl (by rw [show (pr.withExtended _).state = pr.state from rfl, hs]; decide)
    rw [consumeHeaderExtended_part (Nat.lt_of_not_le hfull)]
    exact ⟨hwithin.le, fun _ => hwithin⟩

/-- Payload bytes are added to the data message if it is the current one. -/
theorem processPayloadBytes_cases :
    let r := pr.processPayloadBytes ep buf
    r.1.state = pr.state ∧ r.1.currentMsg = pr.currentMsg ∧ (r.2 = none → r.1.bytesNeeded = pr.bytesNeeded - buf.length) ∧
      (r.1.dataLength = pr.dataLength ∨ pr.currentMsg = .data ∧ r.1.dataLength = pr.dataLength + buf.length) := by
  unfold processPayloadBytes
  cases hmsg : pr.current.msgPtr with
  | none => exact ⟨rfl, rfl, by rintro ⟨⟩, .inl rfl⟩
  | some msg =>
    simp only
    have hlength : (if pr.basicHeader.getMasked then byteMaskCirc ep.platform buf pr.current.preparedKey
        else (buf, pr.current.preparedKey)).1.length = buf.length := by
      split
      · exact length_byteMaskCircLoop ..
      · rfl
    generalize (if pr.basicHeader.getMasked then byteMaskCirc ep.platform buf pr.current.preparedKey
      else (buf, pr.current.preparedKey)) = masked at hlength ⊢
    generalize (if msg.opcode = .text then pr.current.validator.decode masked.1 else (pr.current.validator, true)) = checked
    have hadded (m : MsgMetadata) (hm : m.msgPtr = some { msg with payload := msg.payload ++ masked.1 }) :
        (pr.setCurrent m).dataLength = pr.dataLength ∨
          pr.currentMsg = .data ∧ (pr.setCurrent m).dataLength = pr.dataLength + buf.length := by
      unfold Processor.current at hmsg
      cases hc : pr.currentMsg with
      | control => exact .inl (by simp [setCurrent, hc, dataLength])
      | data =>
        rw [hc] at hmsg
        exact .inr ⟨rfl, by simp [setCurrent, hc, dataLength, hm, hmsg, hlength]⟩
    have hcurrent (m : MsgMetadata) : (pr.setCurrent m).currentMsg = pr.currentMsg := by
      cases hc : pr.currentMsg <;> simp [setCurrent, hc]
    split
    · exact ⟨setCurrent_state .., hcurrent _, fun _ => by simp, hadded _ rfl⟩
    · exact ⟨setCurrent_state .., hcurrent _, by rintro ⟨⟩, hadded _ rfl⟩

/-- The end of a frame leaves the data message as it is. -/
theorem afterPayload_bounded {r : Processor × Option ProcessorError} (hle : r.1.dataLength ≤ ep.maxMessageSize)
    (hb : r.2 = none → Bounded ep r.1) {n : Nat} :
    (afterPayload r n).proc.dataLength ≤ ep.maxMessageSize ∧
      ((afterPayload r n).ec = none → Bounded ep (afterPayload r n).proc) := by
  obtain ⟨pr, ec⟩ := r
  cases ec with
  | some ec => exact ⟨hle, by rintro ⟨⟩⟩
  | none =>
    have hb := hb rfl
    simp only [afterPayload]
    split
    · exact ⟨hle, fun _ => hb⟩
    · unfold endFrame finalizeMessage
      split
      · split
        · exact ⟨hle, by rintro ⟨⟩⟩
        · exact ⟨hle, fun _ => hb.of_header rfl ⟨by rintro ⟨⟩, by rintro ⟨⟩⟩⟩
      · exact ⟨hle, fun _ => hb.of_header rfl ⟨by rintro ⟨⟩, by rintro ⟨⟩⟩⟩

theorem Bounded.application (h : Bounded ep pr) (hs : pr.state = .application) (buf : Bytes) :
    (pr.consumeApplication ep buf).proc.dataLength ≤ ep.maxMessageSize ∧
      ((pr.consumeApplication ep buf).ec = none → Bounded ep (pr.consumeApplication ep buf).proc) := by
  unfold consumeApplication
  simp only
  split
  · obtain ⟨hstate, hcurrent, hneeded, hlength⟩ :=
      processPayloadBytes_cases
    have htaken : (buf.take (min pr.bytesNeeded buf.length)).length ≤ pr.bytesNeeded := by
      simp
    have hle : (pr.processPayloadBytes ep (buf.take (min pr.bytesNeeded buf.length))).1.dataLength ≤ ep.maxMessageSize := by
      rcases hlength with hsame | ⟨hdata, hadded⟩
      · rw [hsame]
        exact h.le
      · rw [hadded]
        exact (Nat.add_le_add_left htaken _).trans (h.rest (.inr hs) hdata)
    refine afterPayload_bounded hle fun hnone => ⟨hle, fun _ hdata => ?_⟩
    rw [hcurrent] at hdata
    have hrest := h.rest (.inr hs) hdata
    rw [hneeded hnone]
    rcases hlength with hsame | ⟨-, hadded⟩ <;> omega
  · exact afterPayload_bounded h.le fun _ => h

/-- A pass of `consume` keeps the message within the limit if no sum wraps, also when it ends in an error. -/
theorem Bounded.pass (h : Bounded ep pr) (hwrap : pr.NoWrap ep buf) :
    (pr.consumeIteration ep buf).proc.dataLength ≤ ep.maxMessageSize ∧
      ((pr.consumeIteration ep buf).ec = none → Bounded ep (pr.consumeIteration ep buf).proc) := by
  unfold consumeIteration
  cases hs : pr.state with
  | headerBasic => exact ⟨(h.headerBasic hs buf).le, fun _ => h.headerBasic hs buf⟩
  | headerExtended => exact h.headerExtended hs hwrap
  | extension => exact ⟨h.le, fun _ => ⟨h.le, fun _ => h.rest (.inl hs)⟩⟩
  | application => exact h.application hs buf
  | ready => exact ⟨h.le, nofun⟩
  | fatalError => exact ⟨h.le, nofun⟩

end Processor

/-- In every run in which no sum wraps, the raw payload of the data message being assembled is never longer than the limit. -/
theorem payload_within_limit {ep : Endpoint} {pr : Processor} {ec : Option ProcessorError}
    (h : pr.Reached ep (Processor.NoWrap ep) ec) : pr.dataLength ≤ ep.maxMessageSize := by
  have hinvariant : pr.dataLength ≤ ep.maxMessageSize ∧ (ec = none → pr.Bounded ep) := by
    induction h with
    | init => exact ⟨Nat.zero_le _, fun _ => Processor.bounded_init⟩
    | pass _ _ hwrap ih => exact (ih.2 rfl).pass hwrap
    | getMessage _ ih =>
      have hb := (ih.2 rfl).getMessage
      exact ⟨hb.le, fun _ => hb⟩
  exact hinvariant.1

/-- A client that accepts messages of one byte. -/
def oneByteClient : Endpoint := ⟨⟨.eight, true⟩, false, 1, by decide⟩

/-- A binary message of one byte is read in three passes. -/
theorem payload_within_limit_one_byte :
    let p₁ := (init.consumeIteration oneByteClient [0x82, 1, 7]).proc
    let p₂ := (p₁.consumeIteration oneByteClient [7]).proc
    let p₃ := (p₂.consumeIteration oneByteClient [7]).proc
    p₃.dataLength = 1 ∧ p₃.dataLength ≤ oneByteClient.maxMessageSize := by
  intro p₁ p₂ p₃
  have hpass {pr : Processor} {buf : Bytes} (h : pr.Reached oneByteClient (Processor.NoWrap oneByteClient) none)
      (hc : pr.continues buf = true) (hw : pr.NoWrap oneByteClient buf)
      (he : (pr.consumeIteration oneByteClient buf).ec = none) :
      (pr.consumeIteration oneByteClient buf).proc.Reached oneByteClient (Processor.NoWrap oneByteClient) none :=
    he ▸ h.pass hc hw
  have hwrap₂ : p₁.NoWrap oneByteClient [7] := fun _ _ _ => by decide
  have hwrap₃ : p₂.NoWrap oneByteClient [7] := fun hs => absurd hs (by decide)
  have h₁ := hpass .init rfl (show init.NoWrap oneByteClient [0x82, 1, 7] from nofun) (by decide)
  have h₂ := hpass h₁ (by decide) hwrap₂ (by decide)
  have h₃ := hpass h₂ (by decide) hwrap₃ (by decide)
  exact ⟨by decide, payload_within_limit h₃⟩

/-- A binary frame of one byte that does not end the message, then a frame that continues it and announces 2 ^ 64 - 1 bytes: the
sum of the lengths wraps to 0, and the bytes that follow are added to the message of a client that accepts only one byte. -/
theorem payload_beyond_limit :
    let bytes := [0x02, 1, 7] ++ [0x80, 127, 255, 255, 255, 255, 255, 255, 255, 255] ++ [8, 9]
    let result := init.consume oneByteClient bytes
    result.2 = (bytes.length, none) ∧ result.1.dataMsg.msgPtr = some ⟨.binary, [7, 8, 9]⟩ ∧
      oneByteClient.maxMessageSize = 1 ∧ result.1.dataLength = 3 := by
  decide

end Osp.Websocketpp
