import Osp.Websocketpp.Hybi13
import Osp.Websocketpp.Lemmas.Masking
import Osp.Websocketpp.Lemmas.Utf8

/-!
# The processor as a resumable machine

The loop of `consume` and the loop around it that takes the messages are one machine: a step is a pass of `consume`, or taking
the message that is ready. The machine makes progress, and its steps do not depend on where a buffer ends.
-/

namespace Osp.Websocketpp

open Lib Machine List

namespace Processor

/-! ## The current message -/

@[simp] theorem current_setCurrent (pr : Processor) (m : MsgMetadata) : (pr.setCurrent m).current = m := by
  cases h : pr.currentMsg <;> simp [setCurrent, current, h]

@[simp] theorem setCurrent_setCurrent (pr : Processor) (m m' : MsgMetadata) :
    (pr.setCurrent m).setCurrent m' = pr.setCurrent m' := by
  cases h : pr.currentMsg <;> simp [setCurrent, h]

@[simp] theorem setCurrent_basicHeader (pr : Processor) (m : MsgMetadata) :
    (pr.setCurrent m).basicHeader = pr.basicHeader := by
  cases h : pr.currentMsg <;> simp [setCurrent, h]

@[simp] theorem setCurrent_bytesNeeded (pr : Processor) (m : MsgMetadata) :
    (pr.setCurrent m).bytesNeeded = pr.bytesNeeded := by
  cases h : pr.currentMsg <;> simp [setCurrent, h]

@[simp] theorem setCurrent_state (pr : Processor) (m : MsgMetadata) : (pr.setCurrent m).state = pr.state := by
  cases h : pr.currentMsg <;> simp [setCurrent, h]

/-- The processor with the number of bytes it needs set. -/
def needing (pr : Processor) (n : Nat) : Processor := { pr with bytesNeeded := n }

@[simp] theorem needing_current (pr : Processor) (n : Nat) : (pr.needing n).current = pr.current := rfl

@[simp] theorem needing_basicHeader (pr : Processor) (n : Nat) : (pr.needing n).basicHeader = pr.basicHeader := rfl

@[simp] theorem needing_bytesNeeded (pr : Processor) (n : Nat) : (pr.needing n).bytesNeeded = n := rfl

@[simp] theorem needing_state (pr : Processor) (n : Nat) : (pr.needing n).state = pr.state := rfl

@[simp] theorem needing_setCurrent (pr : Processor) (m : MsgMetadata) (n : Nat) :
    (pr.needing n).setCurrent m = (pr.setCurrent m).needing n := by
  cases h : pr.currentMsg <;> simp [setCurrent, needing, h]

end Processor

/-! ## Payload bytes -/

namespace BasicHeader

/-- Payload bytes of a frame as they come out of the unmasking. -/
def unmask (h : BasicHeader) (key : MaskingKey) (buf : Bytes) : Bytes :=
  if h.getMasked then byteMaskCircLoop key 0 buf else buf

/-- The masking key for what follows a number of payload bytes. -/
def turn (h : BasicHeader) (key : MaskingKey) (n : Nat) : MaskingKey :=
  if h.getMasked then key.rotate n else key

theorem unmask_append (h : BasicHeader) (key : MaskingKey) (a b : Bytes) :
    h.unmask key (a ++ b) = h.unmask key a ++ h.unmask (h.turn key a.length) b := by
  unfold unmask turn
  split_ifs
  · rw [byteMaskCircLoop_append, byteMaskCircLoop_rotate]
  · rfl

theorem turn_add (h : BasicHeader) (key : MaskingKey) (m n : Nat) :
    h.turn key (m + n) = h.turn (h.turn key m) n := by
  unfold turn
  split_ifs
  · exact key.rotate_add m n
  · rfl

end BasicHeader

/-- The validation of payload bytes: only a text message is checked. -/
def checkText (op : Opcode) (v : Validator) (data : Bytes) : Validator × Bool :=
  if op = .text then v.decode data else (v, true)

theorem checkText_append (op : Opcode) (v : Validator) (a b : Bytes) :
    checkText op v (a ++ b) =
      if (checkText op v a).2 then checkText op (checkText op v a).1 b else ((checkText op v a).1, false) := by
  unfold checkText
  split_ifs with h h' h'
  · rw [v.decode_append, if_pos h']
  · rw [v.decode_append, if_neg h']
  · rfl
  · exact absurd rfl h'

namespace Processor

/-- The metadata of the current message after payload bytes. -/
def received (ep : Endpoint) (pr : Processor) (msg : Message) (key : MaskingKey) (buf : Bytes) : MsgMetadata :=
  ⟨some ⟨msg.opcode, msg.payload ++ pr.basicHeader.unmask key buf⟩,
    prepareMaskingKey ep.platform (pr.basicHeader.turn key buf.length),
    (checkText msg.opcode pr.current.validator (pr.basicHeader.unmask key buf)).1⟩

variable {ep : Endpoint} {pr : Processor} {key : MaskingKey} {msg : Message}

/-- `process_payload_bytes`, when there is a current message and its prepared key comes from a masking key. -/
theorem processPayloadBytes_eq (msg : Message) (key : MaskingKey)
    (hm : pr.current.msgPtr = some msg) (hk : pr.current.preparedKey = prepareMaskingKey ep.platform key) (buf : Bytes) :
    pr.processPayloadBytes ep buf =
      if (checkText msg.opcode pr.current.validator (pr.basicHeader.unmask key buf)).2 then
        ((pr.setCurrent (pr.received ep msg key buf)).needing (pr.bytesNeeded - buf.length), none)
      else (pr.setCurrent (pr.received ep msg key buf), some .invalidUtf8) := by
  unfold processPayloadBytes received BasicHeader.unmask BasicHeader.turn checkText needing
  rw [hm, hk]
  cases pr.basicHeader.getMasked with
  | true => simp [byteMaskCirc_prepare]
  | false => simp

/-! ## Well-formed processors -/

/-- What holds of a processor between two passes of `consume`: it never enters the states that the code does not use, the basic
header is one or two bytes short, the current metadata has a message while its payload is read and when it is ready, prepared
keys come from masking keys, and data and control messages are kept apart. -/
structure Wf (ep : Endpoint) (pr : Processor) : Prop where
  state : pr.state ≠ .extension ∧ pr.state ≠ .fatalError
  basic : pr.state = .headerBasic → pr.bytesNeeded = 1 ∨ pr.bytesNeeded = 2
  current : pr.state = .application ∨ pr.state = .ready → ∃ m, pr.current.msgPtr = some m
  dataKey : ∃ key, pr.dataMsg.preparedKey = prepareMaskingKey ep.platform key
  controlKey : ∃ key, pr.controlMsg.preparedKey = prepareMaskingKey ep.platform key
  dataOp : ∀ m, pr.dataMsg.msgPtr = some m → m.opcode.isControl = false
  controlOp : ∀ m, pr.controlMsg.msgPtr = some m → m.opcode.isControl = true

theorem prepareMaskingKey_zero (pl : Platform) : prepareMaskingKey pl ⟨0, 0, 0, 0⟩ = 0 := by
  obtain ⟨_ | _, _ | _⟩ := pl <;> rfl

theorem wf_init (ep : Endpoint) : Wf ep init where
  state := by decide
  basic _ := .inr rfl
  current := by rintro (h | h) <;> cases h
  dataKey := ⟨_, (prepareMaskingKey_zero _).symm⟩
  controlKey := ⟨_, (prepareMaskingKey_zero _).symm⟩
  dataOp := nofun
  controlOp := nofun

theorem Wf.currentKey (h : Wf ep pr) :
    ∃ key, pr.current.preparedKey = prepareMaskingKey ep.platform key := by
  unfold Processor.current
  cases pr.currentMsg with
  | data => exact h.dataKey
  | control => exact h.controlKey

/-- Resetting the headers makes a processor that is between messages or frames. -/
theorem Wf.resetHeaders (h : Wf ep pr) : Wf ep pr.resetHeaders where
  state := ⟨nofun, nofun⟩
  basic _ := .inr rfl
  current := nofun
  dataKey := h.dataKey
  controlKey := h.controlKey
  dataOp := h.dataOp
  controlOp := h.controlOp

/-- Writing a message of the same kind with a prepared key through `m_current_msg` keeps the processor well formed. -/
theorem Wf.setCurrent (h : Wf ep pr) {m : MsgMetadata}
    (hm : pr.current.msgPtr = some msg) (hk : m.preparedKey = prepareMaskingKey ep.platform key)
    (hop : ∃ s, m.msgPtr = some ⟨msg.opcode, s⟩) : Wf ep (pr.setCurrent m) := by
  obtain ⟨s, hs⟩ := hop
  have hcur : (pr.setCurrent m).current.msgPtr = some ⟨msg.opcode, s⟩ := by rw [current_setCurrent, hs]
  refine ⟨by simpa using h.state, by simpa using h.basic, fun _ => ⟨_, hcur⟩, ?_, ?_, ?_, ?_⟩
  all_goals
    unfold Processor.setCurrent
    unfold Processor.current at hm
    cases hc : pr.currentMsg <;> simp only [hc] at hm ⊢
  · exact ⟨key, hk⟩
  · exact h.dataKey
  · exact h.controlKey
  · exact ⟨key, hk⟩
  · intro m' hm'
    rw [hs] at hm'
    obtain rfl := Option.some.inj hm'
    exact h.dataOp msg hm
  · exact h.dataOp
  · exact h.controlOp
  · intro m' hm'
    rw [hs] at hm'
    obtain rfl := Option.some.inj hm'
    exact h.controlOp msg hm

/-- The message that is ready is the one taken, and the processor is then at the start of a frame. -/
theorem Wf.getMessage (h : Wf ep pr) (hr : pr.ready = true) :
    ∃ m, pr.current.msgPtr = some m ∧ pr.getMessage.1 = some m ∧ Wf ep pr.getMessage.2 ∧
      pr.getMessage.2.state = .headerBasic ∧ pr.getMessage.2.bytesNeeded = 2 := by
  obtain ⟨m, hm⟩ := h.current (.inr (by simpa [ready] using hr))
  refine ⟨m, hm, ?_⟩
  unfold Processor.getMessage
  simp only [hr, Bool.not_true, hm]
  have hcases : (pr.currentMsg = .data ∧ m.opcode.isControl = false) ∨
      (pr.currentMsg = .control ∧ m.opcode.isControl = true) := by
    unfold Processor.current at hm
    cases hc : pr.currentMsg <;> simp only [hc] at hm
    · exact .inl ⟨rfl, h.dataOp m hm⟩
    · exact .inr ⟨rfl, h.controlOp m hm⟩
  refine ⟨rfl, ?_, rfl, rfl⟩
  refine ⟨⟨nofun, nofun⟩, fun _ => .inr rfl, nofun, ?_, ?_, ?_, ?_⟩
  all_goals
    rcases hcases with ⟨hc, hop⟩ | ⟨hc, hop⟩ <;>
      simp [Processor.setCurrent, Processor.current, hc, hop, Processor.resetHeaders]
  · exact h.dataKey
  · exact h.dataKey
  · exact h.controlKey
  · exact h.controlKey
  · exact h.dataOp
  · exact h.controlOp

/-! ## Passes -/

end Processor

variable {β : Type}

/-- A pass as the step of a machine. -/
def Iteration.stride (it : Iteration) : Except ProcessorError (Stride β Processor) :=
  match it.ec with
  | some e => .error e
  | none => .ok ⟨it.proc, it.read, []⟩

@[simp] theorem Iteration.stride_some (pr : Processor) (n : Nat) (e : ProcessorError) :
    Iteration.stride (β := β) ⟨pr, n, some e⟩ = .error e := rfl

@[simp] theorem Iteration.stride_none (pr : Processor) (n : Nat) :
    Iteration.stride (β := β) ⟨pr, n, none⟩ = .ok ⟨pr, n, []⟩ := rfl

/-- Adds to the number of bytes a step reads. -/
def shiftRead (n : Nat) (r : Stride β Processor) : Stride β Processor := ⟨r.next, n + r.read, r.out⟩

namespace Processor

variable (β) in
/-- A pass does not depend on where the buffer ends. -/
def LocalPass (pass : Processor → Bytes → Iteration) (pr : Processor) (a : Bytes) : Prop :=
  (∀ b, (pass pr (a ++ b)).stride (β := β) = (pass pr a).stride) ∨
  ∃ pr', pass pr a = ⟨pr', a.length, none⟩ ∧ pr'.state = pr.state ∧ 0 < pr'.bytesNeeded ∧
    ∀ b, b ≠ [] → (pass pr (a ++ b)).stride (β := β) = ((pass pr' b).stride).map (shiftRead a.length)

/-- The processor with its basic header complete. -/
def withBasic (pr : Processor) (h : BasicHeader) : Processor := { pr with basicHeader := h, bytesNeeded := 0 }

variable {a buf : Bytes} {ep : Endpoint} {pr : Processor}

theorem consumeHeaderBasic_one (h : pr.bytesNeeded = 1) (x : UInt8) (rest : Bytes) :
    pr.consumeHeaderBasic ep (x :: rest) = (pr.withBasic ⟨pr.basicHeader.b0, x⟩).enterExtended ep 1 := by
  cases rest <;> simp [consumeHeaderBasic, copyBasicHeaderBytes, h, withBasic]

theorem consumeHeaderBasic_two (h : pr.bytesNeeded = 2) (x y : UInt8) (rest : Bytes) :
    pr.consumeHeaderBasic ep (x :: y :: rest) = (pr.withBasic ⟨x, y⟩).enterExtended ep 2 := by
  simp [consumeHeaderBasic, copyBasicHeaderBytes, h, withBasic]

theorem consumeHeaderBasic_half (h : pr.bytesNeeded = 2) (x : UInt8) :
    pr.consumeHeaderBasic ep [x] =
      ⟨{ pr with basicHeader := { pr.basicHeader with b0 := x }, bytesNeeded := 1 }, 1, none⟩ := by
  simp [consumeHeaderBasic, copyBasicHeaderBytes, h]

theorem stride_enterExtended_shift (m n : Nat) :
    (pr.enterExtended ep (m + n)).stride (β := β) = ((pr.enterExtended ep n).stride).map (shiftRead m) := by
  unfold enterExtended
  split <;> rfl

theorem consumeHeaderBasic_local (ep : Endpoint) (h : pr.bytesNeeded = 1 ∨ pr.bytesNeeded = 2)
    (ha : a ≠ []) : LocalPass β (fun pr => pr.consumeHeaderBasic ep) pr a := by
  obtain ⟨x, a, rfl⟩ := exists_cons_of_ne_nil ha
  rcases h with h | h
  · left
    simp [consumeHeaderBasic_one h]
  · cases a with
    | cons y a =>
      left
      simp [consumeHeaderBasic_two h]
    | nil =>
      right
      refine ⟨_, consumeHeaderBasic_half h x, rfl, Nat.one_pos, ?_⟩
      intro b hb
      obtain ⟨y, b, rfl⟩ := exists_cons_of_ne_nil hb
      simp only [singleton_append, consumeHeaderBasic_two h]
      rw [consumeHeaderBasic_one rfl]
      exact stride_enterExtended_shift 1 1

/-- The processor with bytes added to its extended header. -/
def withExtended (pr : Processor) (bs : Bytes) : Processor :=
  { pr with
    extendedHeader := pr.extendedHeader.write pr.cursor bs
    cursor := pr.cursor + bs.length
    bytesNeeded := pr.bytesNeeded - bs.length }

theorem withExtended_append (a b : Bytes) :
    pr.withExtended (a ++ b) = (pr.withExtended a).withExtended b := by
  simp [withExtended, ExtendedHeader.write, writeAt_append, Nat.add_assoc, Nat.sub_sub]

theorem consumeHeaderExtended_full (h : pr.bytesNeeded ≤ buf.length) :
    pr.consumeHeaderExtended ep buf =
      (pr.withExtended (buf.take pr.bytesNeeded)).enterApplication ep pr.bytesNeeded := by
  simp [consumeHeaderExtended, copyExtendedHeaderBytes, h, withExtended]

theorem consumeHeaderExtended_part (h : buf.length < pr.bytesNeeded) :
    pr.consumeHeaderExtended ep buf = ⟨pr.withExtended buf, buf.length, none⟩ := by
  have hmin : min pr.bytesNeeded buf.length = buf.length := by omega
  simp [consumeHeaderExtended, copyExtendedHeaderBytes, hmin, withExtended, h]

theorem stride_enterApplication_shift (m n : Nat) :
    (pr.enterApplication ep (m + n)).stride (β := β) = ((pr.enterApplication ep n).stride).map (shiftRead m) := by
  unfold enterApplication
  split
  · rfl
  · cases h : (pr.startFrame ep).2 <;> simp [Except.map, shiftRead]

theorem consumeHeaderExtended_local (ep : Endpoint) :
    LocalPass β (fun pr => pr.consumeHeaderExtended ep) pr a := by
  by_cases h : pr.bytesNeeded ≤ a.length
  · left
    intro b
    have hab : pr.bytesNeeded ≤ (a ++ b).length := by
      rw [length_append]
      omega
    simp [consumeHeaderExtended_full h, consumeHeaderExtended_full hab, take_append_of_le_length h]
  · right
    have hlt : a.length < pr.bytesNeeded := by omega
    refine ⟨_, consumeHeaderExtended_part hlt, rfl, Nat.sub_pos_of_lt hlt, ?_⟩
    intro b _
    have hneed : (pr.withExtended a).bytesNeeded = pr.bytesNeeded - a.length := rfl
    by_cases hb : pr.bytesNeeded - a.length ≤ b.length
    · have hab : pr.bytesNeeded ≤ (a ++ b).length := by
        rw [length_append]
        omega
      have hb' : (pr.withExtended a).bytesNeeded ≤ b.length := hb
      simp only [consumeHeaderExtended_full hb', consumeHeaderExtended_full hab]
      rw [take_append, take_of_length_le (by omega), withExtended_append, hneed,
        ← stride_enterApplication_shift]
      congr 2
      omega
    · have hab : (a ++ b).length < pr.bytesNeeded := by
        rw [length_append]
        omega
      have hb' : b.length < (pr.withExtended a).bytesNeeded := by omega
      simp only [consumeHeaderExtended_part hb', consumeHeaderExtended_part hab, withExtended_append]
      simp [Except.map, shiftRead]

theorem consumeApplication_full (h : pr.bytesNeeded ≤ buf.length) :
    pr.consumeApplication ep buf =
      if 0 < pr.bytesNeeded then
        afterPayload (pr.processPayloadBytes ep (buf.take pr.bytesNeeded)) pr.bytesNeeded
      else afterPayload (pr, none) 0 := by
  simp [consumeApplication, h]

theorem consumeApplication_part (h : buf.length < pr.bytesNeeded)
    (hne : buf ≠ []) : pr.consumeApplication ep buf = afterPayload (pr.processPayloadBytes ep buf) buf.length := by
  have hmin : min pr.bytesNeeded buf.length = buf.length := by omega
  have hpos : 0 < buf.length := length_pos_of_ne_nil hne
  simp [consumeApplication, hmin, hpos]

theorem consumeApplication_pos (h : 0 < pr.bytesNeeded) (hne : buf ≠ []) :
    pr.consumeApplication ep buf =
      afterPayload (pr.processPayloadBytes ep (buf.take (min pr.bytesNeeded buf.length)))
        (min pr.bytesNeeded buf.length) := by
  have hpos : 0 < buf.length := length_pos_of_ne_nil hne
  rw [consumeApplication, if_pos (by omega)]

theorem stride_afterPayload_error {r : Processor × Option ProcessorError} {e : ProcessorError} (h : r.2 = some e)
    (n : Nat) : (afterPayload r n).stride (β := β) = .error e := by
  obtain ⟨pr, ec⟩ := r
  obtain rfl : ec = some e := h
  rfl

theorem stride_afterPayload_shift (r : Processor × Option ProcessorError) (m n : Nat) :
    (afterPayload r (m + n)).stride (β := β) = ((afterPayload r n).stride).map (shiftRead m) := by
  obtain ⟨pr, _ | ec⟩ := r
  · simp only [afterPayload]
    split
    · rfl
    · cases h : pr.endFrame.2 <;> simp [Except.map, shiftRead]
  · rfl

/-- Processing payload bytes in two parts is processing them at once: the same error, or the same state. -/
theorem stride_afterPayload_append
    (hm : pr.current.msgPtr = some msg) (hk : pr.current.preparedKey = prepareMaskingKey ep.platform key) (a b : Bytes) (n : Nat) :
    (afterPayload (pr.processPayloadBytes ep (a ++ b)) n).stride (β := β) =
      match pr.processPayloadBytes ep a with
      | (_, some e) => .error e
      | (pr', none) => (afterPayload (pr'.processPayloadBytes ep b) n).stride := by
  rw [processPayloadBytes_eq msg key hm hk, processPayloadBytes_eq msg key hm hk, pr.basicHeader.unmask_append,
    checkText_append]
  by_cases h1 : (checkText msg.opcode pr.current.validator (pr.basicHeader.unmask key a)).2 = true
  · have hrec : pr.received ep msg key (a ++ b) =
        ((pr.setCurrent (pr.received ep msg key a)).needing (pr.bytesNeeded - a.length)).received ep
          ⟨msg.opcode, msg.payload ++ pr.basicHeader.unmask key a⟩ (pr.basicHeader.turn key a.length) b := by
      simp [received, BasicHeader.unmask_append, checkText_append, h1, BasicHeader.turn_add]
    simp only [if_pos h1]
    rw [processPayloadBytes_eq ⟨msg.opcode, msg.payload ++ pr.basicHeader.unmask key a⟩
      (pr.basicHeader.turn key a.length) (by simp [received]) (by simp [received]), ← hrec]
    simp [received, Nat.sub_sub]
    split <;> rfl
  · rw [if_neg h1, if_neg h1]
    rfl

/-- Bytes of a payload leave the processor as it is but for the current metadata and the number of bytes needed. -/
theorem processPayloadBytes_none
    (hm : pr.current.msgPtr = some msg) (hk : pr.current.preparedKey = prepareMaskingKey ep.platform key)
    (h : (pr.processPayloadBytes ep buf).2 = none) :
    (checkText msg.opcode pr.current.validator (pr.basicHeader.unmask key buf)).2 = true ∧
      pr.processPayloadBytes ep buf =
        ((pr.setCurrent (pr.received ep msg key buf)).needing (pr.bytesNeeded - buf.length), none) := by
  rw [processPayloadBytes_eq msg key hm hk] at h ⊢
  split_ifs at h ⊢ with hok
  exact ⟨hok, rfl⟩

theorem consumeApplication_local (hw : Wf ep pr) (hs : pr.state = .application)
    (ha : a ≠ [] ∨ pr.bytesNeeded = 0) : LocalPass β (fun pr => pr.consumeApplication ep) pr a := by
  obtain ⟨msg, hm⟩ := hw.current (.inl hs)
  obtain ⟨key, hk⟩ := hw.currentKey
  by_cases h : pr.bytesNeeded ≤ a.length
  · left
    intro b
    have hab : pr.bytesNeeded ≤ (a ++ b).length := by
      rw [length_append]
      omega
    simp only [consumeApplication_full h, consumeApplication_full hab, take_append_of_le_length h]
  · have hlt : a.length < pr.bytesNeeded := by omega
    have hne : a ≠ [] := ha.resolve_right (by omega)
    -- with more input the pass takes the whole of `a` and some of the rest
    have htake : ∀ b : Bytes, (a ++ b).take (min pr.bytesNeeded (a ++ b).length) =
        a ++ b.take (min (pr.bytesNeeded - a.length) b.length) := by
      intro b
      rw [take_append, length_append, take_of_length_le (by omega)]
      congr 2
      omega
    cases he : (pr.processPayloadBytes ep a).2 with
    | some e =>
      left
      intro b
      simp only [consumeApplication_part hlt hne]
      rw [consumeApplication_pos (by omega) (by simp [hne]), htake, stride_afterPayload_error he, stride_afterPayload_append hm hk]
      split <;> simp_all
    | none =>
      right
      obtain ⟨-, hproc⟩ := processPayloadBytes_none hm hk he
      have hneed : (pr.processPayloadBytes ep a).1.bytesNeeded = pr.bytesNeeded - a.length := by rw [hproc]; rfl
      have hpos : 0 < (pr.processPayloadBytes ep a).1.bytesNeeded := by omega
      refine ⟨(pr.processPayloadBytes ep a).1, ?_, by rw [hproc]; simp, hpos, ?_⟩
      · simp only [consumeApplication_part hlt hne, afterPayload]
        rw [hproc] at hpos ⊢
        simp only [if_pos hpos]
      · intro b hb
        simp only []
        rw [consumeApplication_pos (by omega) (by simp [hne]), htake, consumeApplication_pos hpos hb, hneed,
          ← stride_afterPayload_shift]
        have hread : min pr.bytesNeeded (a ++ b).length = a.length + min (pr.bytesNeeded - a.length) b.length := by
          rw [length_append]
          omega
        rw [hread, stride_afterPayload_append hm hk, hproc]

/-! ## The machine -/

variable (observe : Processor → List β)

/-- The processor has no message ready and waits for input. -/
def waiting (pr : Processor) : Bool := !pr.ready && pr.bytesNeeded ≠ 0

/-- Reading frames as a machine: a step takes the message that is ready, or is a pass of `consume`. -/
def machine (ep : Endpoint) : Machine UInt8 β ProcessorError Processor where
  step pr buf :=
    if pr.ready then .ok ⟨pr.getMessage.2, 0, observe pr⟩ else (pr.consumeIteration ep buf).stride
  waits := waiting

/-- How many steps that read nothing can follow. -/
def rank (pr : Processor) : Nat :=
  match pr.state with
  | .ready => 1
  | .application => if pr.bytesNeeded = 0 then 2 else 0
  | .headerExtended => if pr.bytesNeeded = 0 then 3 else 0
  | _ => 0

theorem rank_le (pr : Processor) : pr.rank ≤ 3 := by
  unfold rank
  split <;> (try split) <;> omega

variable {buf : Bytes} {ep : Endpoint} {n : Nat} {pr : Processor} {r : Stride β Processor}

theorem machine_step_ready (ep : Endpoint) (h : pr.ready = true) (buf : Bytes) :
    (machine observe ep).step pr buf = .ok ⟨pr.getMessage.2, 0, observe pr⟩ := if_pos h

theorem machine_step_pass (ep : Endpoint) (h : pr.ready = false) (buf : Bytes) :
    (machine observe ep).step pr buf = (pr.consumeIteration ep buf).stride := by
  simp [machine, h]

/-- When a pass runs there is input, or nothing is needed. -/
theorem input_of_not_waits (h : pr.ready = false) (hw : ¬(buf = [] ∧ pr.waiting)) : buf ≠ [] ∨ pr.bytesNeeded = 0 := by
  by_cases hb : buf = []
  · right
    by_contra hne
    exact hw ⟨hb, by simp [waiting, h, hne]⟩
  · exact .inl hb

/-- The number of payload bytes a frame announces. -/
def frameSize (ep : Endpoint) (pr : Processor) : Nat :=
  getPayloadSize pr.basicHeader pr.extendedHeader % ep.platform.sizeLimit

/-- The masking key a frame announces. -/
def frameKey (pr : Processor) : MaskingKey := getMaskingKey pr.basicHeader pr.extendedHeader

/-- What setting up a frame does, when it is not refused: it starts a control message, starts a data message or continues the
data message. -/
theorem startFrame_cases (he : (pr.startFrame ep).2 = none) :
    let started := { pr with state := .application, bytesNeeded := pr.frameSize ep }
    let new := MsgMetadata.new ep.platform pr.basicHeader.getOpcode pr.frameKey
    (pr.basicHeader.getOpcode.isControl = true ∧ (pr.startFrame ep).1 = { started with currentMsg := .control, controlMsg := new }) ∨
    (pr.basicHeader.getOpcode.isControl = false ∧ pr.dataMsg.msgPtr = none ∧ pr.frameSize ep ≤ ep.maxMessageSize ∧
      (pr.startFrame ep).1 = { started with currentMsg := .data, dataMsg := new }) ∨
    (pr.basicHeader.getOpcode.isControl = false ∧
      ∃ out, pr.dataMsg.msgPtr = some out ∧
        (out.payload.length + pr.frameSize ep) % ep.platform.sizeLimit ≤ ep.maxMessageSize ∧
        (pr.startFrame ep).1 = { started with
          currentMsg := .data, dataMsg := { pr.dataMsg with preparedKey := prepareMaskingKey ep.platform pr.frameKey } }) := by
  unfold startFrame at he ⊢
  unfold frameSize frameKey
  cases hop : pr.basicHeader.getOpcode.isControl with
  | true => exact .inl ⟨rfl, by simp [hop]⟩
  | false =>
    simp only [hop] at he ⊢
    cases hd : pr.dataMsg.msgPtr with
    | none =>
      by_cases hbig : ep.maxMessageSize < getPayloadSize pr.basicHeader pr.extendedHeader % ep.platform.sizeLimit
      · simp [hd, hbig] at he
      · exact .inr (.inl ⟨trivial, rfl, by omega, by simp [hbig]⟩)
    | some out =>
      by_cases hbig : ep.maxMessageSize < (out.payload.length +
          getPayloadSize pr.basicHeader pr.extendedHeader % ep.platform.sizeLimit) % ep.platform.sizeLimit
      · simp only [hd, hbig] at he
        cases he
      · refine .inr (.inr ⟨trivial, out, rfl, by omega, ?_⟩)
        simp only [hbig]
        rfl

/-- When setting up a frame is not refused. -/
theorem startFrame_accepts (h : pr.basicHeader.getOpcode.isControl = true ∨ pr.dataMsg.msgPtr = none ∧ pr.frameSize ep ≤ ep.maxMessageSize ∨
      ∃ out, pr.dataMsg.msgPtr = some out ∧
        (out.payload.length + pr.frameSize ep) % ep.platform.sizeLimit ≤ ep.maxMessageSize) :
    (pr.startFrame ep).2 = none := by
  unfold frameSize at h
  unfold startFrame
  cases hop : pr.basicHeader.getOpcode.isControl with
  | true => simp [hop]
  | false =>
    rw [hop] at h
    simp only [hop]
    rcases h with h | ⟨hd, hle⟩ | ⟨out, hd, hle⟩
    · cases h
    · simp [hd, Nat.not_lt.mpr hle]
    · have hbig := Nat.not_lt.mpr hle
      simp only [hd, hbig]
      rfl

theorem wf_startFrame (h : Wf ep pr) (he : (pr.startFrame ep).2 = none) :
    Wf ep (pr.startFrame ep).1 ∧ (pr.startFrame ep).1.state = .application := by
  rcases startFrame_cases he with ⟨hop, hst⟩ | ⟨hop, -, -, hst⟩ | ⟨-, out, hout, -, hst⟩ <;> rw [hst]
  · exact ⟨⟨⟨nofun, nofun⟩, nofun, fun _ => ⟨_, rfl⟩, h.dataKey, ⟨_, rfl⟩, h.dataOp,
      fun m hm => Option.some.inj hm ▸ hop⟩, rfl⟩
  · exact ⟨⟨⟨nofun, nofun⟩, nofun, fun _ => ⟨_, rfl⟩, ⟨_, rfl⟩, h.controlKey,
      fun m hm => Option.some.inj hm ▸ hop, h.controlOp⟩, rfl⟩
  · exact ⟨⟨⟨nofun, nofun⟩, nofun, fun _ => ⟨out, hout⟩, ⟨_, rfl⟩, h.controlKey, h.dataOp, h.controlOp⟩, rfl⟩

/-- What a pass can do: read header bytes, start a frame, or read payload bytes and end the frame. -/
inductive Pass (ep : Endpoint) (pr : Processor) : Processor → Prop
  | header {pr' : Processor} : pr'.dataMsg = pr.dataMsg → pr'.controlMsg = pr.controlMsg → pr'.ready = false → Pass ep pr pr'
  | start {pr₁ : Processor} : pr₁.dataMsg = pr.dataMsg → pr₁.controlMsg = pr.controlMsg → (pr₁.startFrame ep).2 = none →
      Pass ep pr (pr₁.startFrame ep).1
  | payload {msg : Message} {key : MaskingKey} {buf : Bytes} {n : Nat} : pr.state = .application →
      pr.current.msgPtr = some msg →
      (checkText msg.opcode pr.current.validator (pr.basicHeader.unmask key buf)).2 = true →
      Pass ep pr ((pr.setCurrent (pr.received ep msg key buf)).needing n)
  | endFrame : pr.state = .application → pr.endFrame.2 = none → Pass ep pr pr.endFrame.1
  | payloadEnd {msg : Message} {key : MaskingKey} {buf : Bytes} {n : Nat} : pr.state = .application →
      pr.current.msgPtr = some msg →
      (checkText msg.opcode pr.current.validator (pr.basicHeader.unmask key buf)).2 = true →
      ((pr.setCurrent (pr.received ep msg key buf)).needing n).endFrame.2 = none →
      Pass ep pr ((pr.setCurrent (pr.received ep msg key buf)).needing n).endFrame.1

/-- What a pass without an error does: it is one of the above, leaves the processor well formed, and reads or goes down in rank. -/
structure Passed (ep : Endpoint) (pr : Processor) (buf : Bytes) (r : Stride β Processor) : Prop where
  wf : Wf ep r.next
  read : r.read ≤ buf.length
  progress : 0 < r.read ∨ r.next.rank < pr.rank
  pass : Pass ep pr r.next
  out : r.out = []

theorem passed_headerBasic (h : Wf ep pr) (hs : pr.state = .headerBasic) (hb : buf ≠ [])
    (hr : (pr.consumeHeaderBasic ep buf).stride = .ok r) : Passed ep pr buf r := by
  have henter : ∀ (hd : BasicHeader) (n : Nat), 0 < n → n ≤ buf.length →
      ((pr.withBasic hd).enterExtended ep n).stride = .ok r → Passed ep pr buf r := by
    intro hd n hpos hle hn
    unfold enterExtended at hn
    split at hn
    · cases hn
    · obtain rfl := Except.ok.inj hn
      exact ⟨⟨⟨nofun, nofun⟩, nofun, nofun, h.dataKey, h.controlKey, h.dataOp, h.controlOp⟩, hle, .inl hpos, .header rfl rfl rfl, rfl⟩
  obtain ⟨x, rest, rfl⟩ := exists_cons_of_ne_nil hb
  rcases h.basic hs with h1 | h2
  · rw [consumeHeaderBasic_one h1] at hr
    exact henter _ 1 (by omega) (by simp) hr
  · cases rest with
    | nil =>
      rw [consumeHeaderBasic_half h2] at hr
      obtain rfl := Except.ok.inj hr
      refine ⟨⟨h.state, fun _ => .inl rfl, ?_, h.dataKey, h.controlKey, h.dataOp, h.controlOp⟩, by simp, .inl Nat.one_pos,
        .header rfl rfl (by simp [ready, hs]), rfl⟩
      intro hstate
      simp [hs] at hstate
    | cons y rest =>
      rw [consumeHeaderBasic_two h2] at hr
      exact henter _ 2 (by omega) (by simp) hr

theorem Wf.withExtended (h : Wf ep pr) (hs : pr.state = .headerExtended) (bs : Bytes) :
    Wf ep (pr.withExtended bs) :=
  ⟨h.state, fun hb => by simp [Processor.withExtended, hs] at hb, fun hc => by simp [Processor.withExtended, hs] at hc,
    h.dataKey, h.controlKey, h.dataOp, h.controlOp⟩

theorem passed_headerExtended (h : Wf ep pr) (hs : pr.state = .headerExtended) (hb : buf ≠ [] ∨ pr.bytesNeeded = 0)
    (hr : (pr.consumeHeaderExtended ep buf).stride = .ok r) : Passed ep pr buf r := by
  by_cases hle : pr.bytesNeeded ≤ buf.length
  · rw [consumeHeaderExtended_full hle] at hr
    unfold enterApplication at hr
    split at hr
    · cases hr
    · have hwf := h.withExtended hs (buf.take pr.bytesNeeded)
      cases he : ((pr.withExtended (buf.take pr.bytesNeeded)).startFrame ep).2 with
      | some e =>
        rw [he] at hr
        cases hr
      | none =>
        rw [he] at hr
        obtain rfl := Except.ok.inj hr
        obtain ⟨hwf', hstate⟩ := wf_startFrame hwf he
        refine ⟨hwf', hle, (Nat.eq_zero_or_pos _).symm.imp id fun h0 => ?_, .start rfl rfl he, rfl⟩
        simp only [rank, hs, hstate]
        split <;> omega
  · have hlt : buf.length < pr.bytesNeeded := by omega
    rw [consumeHeaderExtended_part hlt] at hr
    obtain rfl := Except.ok.inj hr
    refine ⟨h.withExtended hs buf, Nat.le_refl _, .inl ?_, .header rfl rfl (by simp [ready, Processor.withExtended, hs]), rfl⟩
    exact length_pos_of_ne_nil (hb.resolve_right (by omega))

/-- What the end of a pass in state `APPLICATION` does. -/
theorem afterPayload_step (hr : (afterPayload (pr, none) n).stride = .ok r) :
    (r.next = pr ∧ 0 < pr.bytesNeeded ∨ pr.endFrame.2 = none ∧ r.next = pr.endFrame.1) ∧ r.read = n ∧ r.out = [] := by
  unfold afterPayload at hr
  simp only at hr
  split_ifs at hr with hpos
  · obtain rfl := Except.ok.inj hr
    exact ⟨.inl ⟨rfl, hpos⟩, rfl, rfl⟩
  · cases he : pr.endFrame.2 with
    | some e =>
      rw [he] at hr
      cases hr
    | none =>
      rw [he] at hr
      obtain rfl := Except.ok.inj hr
      exact ⟨.inr ⟨rfl, rfl⟩, rfl, rfl⟩

theorem wf_endFrame (h : Wf ep pr) (hs : pr.state = .application) (he : pr.endFrame.2 = none) :
    Wf ep pr.endFrame.1 ∧ pr.endFrame.1.rank < 2 := by
  unfold endFrame finalizeMessage at he ⊢
  split_ifs at he ⊢ with hfin htext
  · obtain ⟨m, hm⟩ := h.current (.inl hs)
    exact ⟨⟨⟨nofun, nofun⟩, nofun, fun _ => ⟨m, hm⟩, h.dataKey, h.controlKey, h.dataOp, h.controlOp⟩, by simp [rank]⟩
  · exact ⟨h.resetHeaders, by simp [rank, Processor.resetHeaders]⟩

theorem passed_application (h : Wf ep pr) (hs : pr.state = .application) (hb : buf ≠ [] ∨ pr.bytesNeeded = 0)
    (hr : (pr.consumeApplication ep buf).stride = .ok r) : Passed ep pr buf r := by
  obtain ⟨msg, hm⟩ := h.current (.inl hs)
  obtain ⟨key, hk⟩ := h.currentKey
  by_cases h0 : pr.bytesNeeded = 0
  · rw [consumeApplication_full (by omega), if_neg (by omega)] at hr
    obtain ⟨⟨-, hpos⟩ | ⟨he, hnext⟩, hread, hout⟩ := afterPayload_step hr
    · omega
    · obtain ⟨hwf, hrank⟩ := wf_endFrame h hs he
      rw [← hnext] at hwf hrank
      exact ⟨hwf, by omega, .inr (by simpa [rank, hs, h0] using hrank), hnext ▸ .endFrame hs he, hout⟩
  · have hne := hb.resolve_right h0
    have hpos : 0 < buf.length := length_pos_of_ne_nil hne
    rw [consumeApplication_pos (by omega) hne] at hr
    cases he : (pr.processPayloadBytes ep (buf.take (min pr.bytesNeeded buf.length))).2 with
    | some e =>
      rw [stride_afterPayload_error he] at hr
      cases hr
    | none =>
      obtain ⟨hok, hproc⟩ := processPayloadBytes_none hm hk he
      rw [hproc] at hr
      have hwf : Wf ep (pr.setCurrent (pr.received ep msg key (buf.take (min pr.bytesNeeded buf.length)))) :=
        h.setCurrent hm rfl ⟨_, rfl⟩
      have hwf' : Wf ep ((pr.setCurrent (pr.received ep msg key (buf.take (min pr.bytesNeeded buf.length)))).needing
          (pr.bytesNeeded - (buf.take (min pr.bytesNeeded buf.length)).length)) :=
        ⟨hwf.state, fun hbasic => by simp [hs] at hbasic, hwf.current, hwf.dataKey, hwf.controlKey, hwf.dataOp,
          hwf.controlOp⟩
      obtain ⟨⟨hnext, -⟩ | ⟨hend, hnext⟩, hread, hout⟩ := afterPayload_step hr
      · exact ⟨hnext ▸ hwf', by omega, .inl (by omega), hnext ▸ .payload hs hm hok, hout⟩
      · have hwf := (wf_endFrame hwf' (by simp [hs]) hend).1
        exact ⟨hnext ▸ hwf, by omega, .inl (by omega), hnext ▸ .payloadEnd hs hm hok hend, hout⟩

/-- What a pass of `consume` does. -/
theorem passed_consumeIteration (h : Wf ep pr) (hready : pr.ready = false) (hw : ¬(buf = [] ∧ pr.waiting))
    (hr : (pr.consumeIteration ep buf).stride = .ok r) : Passed ep pr buf r := by
  have hin := input_of_not_waits hready hw
  unfold consumeIteration at hr
  cases hst : pr.state <;> simp only [hst] at hr
  case headerBasic => exact passed_headerBasic h hst (hin.resolve_right (by have := h.basic hst; omega)) hr
  case headerExtended => exact passed_headerExtended h hst hin hr
  case application => exact passed_application h hst hin hr
  case extension => exact absurd hst h.state.1
  case ready => simp [ready, hst] at hready
  case fatalError => exact absurd hst h.state.2

/-- The machine makes progress and keeps its processor well formed. -/
theorem machine_progress (ep : Endpoint) : (machine observe ep).Progress (Wf ep) rank 3 where
  rank_le := rank_le
  step pr buf r h hw hr := by
    cases hready : pr.ready with
    | true =>
      rw [machine_step_ready observe ep hready] at hr
      obtain rfl := Except.ok.inj hr
      obtain ⟨m, -, -, hwf, hstate, -⟩ := h.getMessage hready
      refine ⟨hwf, Nat.zero_le _, .inr ?_⟩
      have hst : pr.state = .ready := by simpa [ready] using hready
      simp [rank, hstate, hst]
    | false =>
      rw [machine_step_pass observe ep hready] at hr
      have hpassed := passed_consumeIteration h hready hw hr
      exact ⟨hpassed.wf, hpassed.read, hpassed.progress⟩

/-- The steps of the machine do not depend on where a buffer ends. -/
theorem machine_local : (machine observe ep).Local (Wf ep) := by
  intro pr a h hw
  cases hready : pr.ready with
  | true => exact .inl fun b => by rw [machine_step_ready observe ep hready, machine_step_ready observe ep hready]
  | false =>
    have hin := input_of_not_waits hready hw
    have hne : pr.state ≠ .ready := by simpa [ready] using hready
    have hpass : LocalPass β (fun pr => pr.consumeIteration ep) pr a := by
      -- the pass is the one of the state, for this processor and for one that it leaves in the same state
      have hsame : ∀ pass : Processor → Bytes → Iteration, LocalPass β pass pr a →
          (∀ pr' buf, pr'.state = pr.state → pr'.consumeIteration ep buf = pass pr' buf) →
          LocalPass β (fun pr => pr.consumeIteration ep) pr a := by
        intro pass hpass heq
        rcases hpass with hfull | ⟨pr', h1, h2, h3, h4⟩
        · exact .inl fun b => by simp only [heq pr _ rfl, hfull b]
        · exact .inr ⟨pr', by simp only [heq pr _ rfl, h1], h2, h3,
            fun b hb => by simp only [heq pr _ rfl, heq pr' _ h2, h4 b hb]⟩
      cases hst : pr.state with
      | headerBasic =>
        have hb : a ≠ [] := hin.resolve_right (by have := h.basic hst; omega)
        exact hsame _ (consumeHeaderBasic_local ep (h.basic hst) hb) fun pr' buf h' => by
          simp [consumeIteration, h', hst]
      | headerExtended =>
        exact hsame _ (consumeHeaderExtended_local ep) fun pr' buf h' => by simp [consumeIteration, h', hst]
      | application =>
        exact hsame _ (consumeApplication_local h hst hin) fun pr' buf h' => by simp [consumeIteration, h', hst]
      | extension => exact absurd hst h.state.1
      | ready => exact absurd hst hne
      | fatalError => exact absurd hst h.state.2
    rcases hpass with hfull | ⟨pr', h1, h2, h3, h4⟩
    · exact .inl fun b => by rw [machine_step_pass observe ep hready, machine_step_pass observe ep hready, hfull b]
    · have hready' : pr'.ready = false := by simp [ready, h2, hne]
      refine .inr ⟨pr', ?_, ?_, ?_⟩
      · rw [machine_step_pass observe ep hready, show pr.consumeIteration ep a = _ from h1]
        rfl
      · simp [machine, waiting, hready']
        omega
      · intro b hb
        rw [machine_step_pass observe ep hready, machine_step_pass observe ep hready', h4 b hb]
        rfl

/-- What a step of the machine can do: take the message that is ready, or a pass. -/
theorem machine_step_cases (h : Wf ep pr) (hw : ¬(buf = [] ∧ pr.waiting)) (hr : (machine observe ep).step pr buf = .ok r) :
    (pr.ready = true ∧ r = ⟨pr.getMessage.2, 0, observe pr⟩) ∨ (pr.ready = false ∧ Pass ep pr r.next ∧ r.out = []) := by
  cases hready : pr.ready with
  | true =>
    rw [machine_step_ready observe ep hready] at hr
    exact .inl ⟨rfl, (Except.ok.inj hr).symm⟩
  | false =>
    rw [machine_step_pass observe ep hready] at hr
    have hpassed := passed_consumeIteration h hready hw hr
    exact .inr ⟨rfl, hpassed.pass, hpassed.out⟩

/-- The whole run of the machine on a buffer. -/
def feed (ep : Endpoint) (pr : Processor) (buf : Bytes) : Outcome β ProcessorError Processor :=
  (machine observe ep).runAll rank 3 pr buf

/-! ## The loops of the source -/

/-- The condition of the loop of `consume`, for a well-formed processor. -/
theorem continues_iff (h : Wf ep pr) :
    pr.continues buf = true ↔ pr.ready = false ∧ ¬(buf = [] ∧ pr.waiting) := by
  have hf := h.state.2
  unfold continues
  simp only [waiting, ready]
  by_cases hr : pr.state = .ready <;> by_cases hb : buf = [] <;> simp [hr, hb, hf]

/-- What `consume` is for the machine: a run that stops when a message is ready. -/
theorem consumeLoop_spec (h : Wf ep pr)
    (hn : budget rank 3 pr buf < n) :
    (∃ pr' rest e, consumeLoop ep n pr buf = (pr', rest, some e) ∧ feed observe ep pr buf = Outcome.fail e) ∨
    ∃ pr' rest k, consumeLoop ep n pr buf = (pr', rest, none) ∧ feed observe ep pr buf = feed observe ep pr' rest ∧ Wf ep pr' ∧
      (pr'.ready = true ∨ rest = [] ∧ pr'.waiting) ∧ rest = buf.drop k ∧ k ≤ buf.length ∧
      (pr.waiting → buf ≠ [] → 0 < k) := by
  induction n generalizing pr buf with
  | zero => omega
  | succ n ih =>
    rw [consumeLoop]
    by_cases hc : pr.continues buf = true
    · obtain ⟨hready, hw⟩ := (continues_iff h).mp hc
      rw [if_pos hc]
      have hstep := machine_step_pass observe ep hready buf
      generalize pr.consumeIteration ep buf = pass at hstep ⊢
      cases hec : pass.ec with
      | some e =>
        left
        refine ⟨pass.proc, buf.drop pass.read, e, by simp [hec], runAll_error hw ?_⟩
        rw [hstep, Iteration.stride, hec]
      | none =>
        have hr : (machine observe ep).step pr buf = .ok ⟨pass.proc, pass.read, []⟩ := by
          rw [hstep, Iteration.stride, hec]
        obtain ⟨hwf, hle, hprog⟩ := (machine_progress observe ep).step pr buf _ h hw hr
        have hlt := (machine_progress observe ep).budget_lt h hw hr
        dsimp only at hle hprog
        have hfeed : feed observe ep pr buf = feed observe ep pass.proc (buf.drop pass.read) :=
          (machine_progress observe ep).runAll_step h hw hr
        simp only [hec, hfeed]
        have hn' : budget rank 3 pass.proc (buf.drop pass.read) < n := Nat.lt_of_lt_of_le hlt (Nat.le_of_lt_succ hn)
        rcases ih hwf hn' with hfail | ⟨pr', rest, k, h1, h2, h3, h4, h5, h6, -⟩
        · exact .inl hfail
        · right
          refine ⟨pr', rest, pass.read + k, h1, h2, h3, h4, by rw [h5, drop_drop], ?_, ?_⟩
          · rw [length_drop] at h6
            omega
          · intro hwait _
            -- a processor that waits for input has the lowest rank, so its pass reads
            have hrank : pr.rank = 0 := by
              have hneed : pr.bytesNeeded ≠ 0 := by simpa [waiting, hready] using hwait
              have hst : pr.state ≠ .ready := by simpa [ready] using hready
              unfold rank
              split <;> simp_all
            omega
    · rw [if_neg hc]
      right
      refine ⟨pr, buf, 0, rfl, rfl, h, ?_, rfl, Nat.zero_le _, ?_⟩
      · by_contra hcon
        rw [not_or, Bool.not_eq_true] at hcon
        exact hc ((continues_iff h).mpr hcon)
      · intro hwait hb
        refine absurd ((continues_iff h).mpr ⟨?_, fun hcon => hb hcon.1⟩) hc
        simp [waiting] at hwait
        exact hwait.1

/-- The loop around `consume` runs the machine on the whole buffer. -/
theorem observeReadFrame_eq_feed (h : Wf ep pr) (hw : pr.waiting)
    (buf : Bytes) : observeReadFrame observe ep pr buf = feed observe ep pr buf := by
  have hloop : ∀ n pr buf, Wf ep pr → pr.waiting → buf.length < n →
      handleReadFrameLoop observe ep n pr buf = feed observe ep pr buf := by
    intro n
    induction n with
    | zero => omega
    | succ n ih =>
      intro pr buf h hw hn
      rw [handleReadFrameLoop]
      by_cases hb : buf = []
      · rw [if_pos hb, hb]
        exact (runAll_wait hw).symm
      · rw [if_neg hb, consume]
        have hbudget : budget rank 3 pr buf < 5 * buf.length + 5 := by
          have := rank_le pr
          unfold budget
          omega
        rcases consumeLoop_spec observe h hbudget with ⟨pr', rest, e, h1, h2⟩ | ⟨pr', rest, k, h1, h2, hwf, hstop, h5, h6, h7⟩
        · rw [h1, h2]
        · have hk := h7 hw hb
          have hdrop : buf.drop (buf.length - rest.length) = rest := by
            rw [h5, length_drop]
            congr 1
            omega
          have hlen : rest.length < n := by
            rw [h5, length_drop]
            omega
          rw [h1, h2]
          simp only [hdrop]
          rcases hstop with hready | ⟨hrest, hwait⟩
          · obtain ⟨m, -, hmsg, hwf', hstate, hneed⟩ := hwf.getMessage hready
            have hwait' : pr'.getMessage.2.waiting := by simp [waiting, ready, hstate, hneed]
            rw [if_pos hready, ih _ _ hwf' hwait' hlen]
            have hne : ¬(rest = [] ∧ pr'.waiting) := fun hcon => by simp [waiting, hready] at hcon
            exact ((machine_progress observe ep).runAll_step hwf hne (machine_step_ready observe ep hready rest)).symm
          · have hnr : pr'.ready = false := by
              simp [waiting] at hwait
              exact hwait.1
            rw [hnr]
            exact ih _ _ hwf hwait hlen
  exact hloop _ pr buf h hw (Nat.lt_succ_self _)

/-- A processor at rest: well formed and waiting for input. -/
def AtRest (ep : Endpoint) (pr : Processor) : Prop := Wf ep pr ∧ pr.waiting = true

theorem atRest_init (ep : Endpoint) : AtRest ep init := ⟨wf_init ep, rfl⟩

/-- Feeding buffers through the loops of the source may cut the stream anywhere. -/
theorem observeReadFrame_compositional (ep : Endpoint) : Compositional (observeReadFrame observe ep) (AtRest ep) where
  nil pr h := by rw [observeReadFrame_eq_feed observe h.1 h.2]; exact runAll_wait h.2
  append pr a b h := by
    rw [observeReadFrame_eq_feed observe h.1 h.2, observeReadFrame_eq_feed observe h.1 h.2]
    refine ((machine_progress observe ep).runAll_append (machine_local observe) h.1 a b).trans ?_
    unfold Outcome.bind
    cases hstop : ((machine observe ep).runAll rank 3 pr a).stop with
    | error e => simp [feed, hstop]
    | ok pr' =>
      obtain ⟨hwf, hwait⟩ := (machine_progress observe ep).runAll_stop h.1 a hstop
      simp only [feed, hstop]
      rw [observeReadFrame_eq_feed observe hwf hwait]
      rfl
  keeps pr pr' a h hstop := by
    rw [observeReadFrame_eq_feed observe h.1 h.2] at hstop
    exact (machine_progress observe ep).runAll_stop h.1 a hstop

end Processor

end Osp.Websocketpp
