import Osp.Websocketpp.Lemmas.Header
import Osp.Websocketpp.Theorems.Chunking

/-!
# What one endpoint prepares the other delivers

Frames prepared by an endpoint, written one behind the other, are delivered by the peer as the messages they make up: control
messages where they stand, data messages where their last frame stands.
-/

namespace Osp.Websocketpp

open Lib BasicHeader Processor List

namespace Processor

/-! ## Receiving one frame -/

/-- A processor between two frames, with the data message it is in the middle of. -/
structure Between (ep : Endpoint) (pr : Processor) (cur : Option Message) : Prop where
  wf : Wf ep pr
  reset : pr.resetHeaders = pr
  msg : pr.dataMsg.msgPtr = cur
  text : ∀ m, cur = some m → m.opcode = .text → pr.dataMsg.validator.state = utf8Run 0 m.payload

variable {ep : Endpoint} {key : MaskingKey} {m : Message} {pr : Processor}

theorem feed_step {buf : Bytes} {r : Stride Message Processor} (h : Wf ep pr)
    (hw : ¬(buf = [] ∧ pr.waiting)) (hr : (machine messages ep).step pr buf = .ok r) :
    feed messages ep pr buf = Outcome.after r.out (feed messages ep r.next (buf.drop r.read)) :=
  (machine_progress messages ep).runAll_step h hw hr

/-- A pass that reads the bytes that are needed. -/
theorem feed_pass {pr' : Processor} {data rest : Bytes} (h : Wf ep pr) (hready : pr.ready = false) (hneed : pr.bytesNeeded = data.length)
    (hpass : pr.consumeIteration ep (data ++ rest) = ⟨pr', data.length, none⟩) :
    feed messages ep pr (data ++ rest) = feed messages ep pr' rest := by
  have hw : ¬(data ++ rest = [] ∧ pr.waiting) := by
    rintro ⟨hnil, hwait⟩
    have hnil' : data = [] := (append_eq_nil_iff.mp hnil).1
    simp [waiting, hready, hneed, hnil'] at hwait
  have hstep : (machine messages ep).step pr (data ++ rest) = .ok ⟨pr', data.length, []⟩ := by
    rw [machine_step_pass _ ep hready, hpass]
    rfl
  rw [feed_step h hw hstep]
  simp

/-- The processor with the header of a frame read. -/
def headed (pr : Processor) (h : BasicHeader) (ext : Bytes) : Processor :=
  { pr with
    basicHeader := h, bytesNeeded := 0, cursor := ext.length, extendedHeader := ExtendedHeader.zero.write 0 ext
    state := .headerExtended }

theorem Wf.headed (h : Wf ep pr) (hd : BasicHeader) (ext : Bytes) :
    Wf ep (pr.headed hd ext) :=
  ⟨⟨nofun, nofun⟩, nofun, nofun, h.dataKey, h.controlKey, h.dataOp, h.controlOp⟩

/-- Reading the header of a frame: two passes, then the frame is set up. -/
theorem feed_header {cur : Option Message} (hb : Between ep pr cur) (h : BasicHeader)
    (ext rest : Bytes) (hlen : h.getHeaderLen - basicHeaderLength = ext.length)
    (hbasic : validateIncomingBasicHeader h ep.server cur.isNone = none)
    (hext : validateIncomingExtendedHeader ep.platform h (ExtendedHeader.zero.write 0 ext) = none)
    (hstart : ((pr.headed h ext).startFrame ep).2 = none) :
    feed messages ep pr (h.b0 :: h.b1 :: (ext ++ rest)) = feed messages ep ((pr.headed h ext).startFrame ep).1 rest := by
  have hstate : pr.state = .headerBasic := by rw [← hb.reset]; rfl
  have hneed : pr.bytesNeeded = 2 := by rw [← hb.reset]; rfl
  have hzero : pr.extendedHeader = ExtendedHeader.zero := by rw [← hb.reset]; rfl
  have hready : pr.ready = false := by simp [ready, hstate]
  -- the first pass reads the basic header
  obtain ⟨pr₁, hpr₁⟩ : ∃ pr₁, pr₁ = { pr.withBasic h with
      state := .headerExtended, cursor := 0, bytesNeeded := ext.length } := ⟨_, rfl⟩
  have hfirst : feed messages ep pr ([h.b0, h.b1] ++ (ext ++ rest)) = feed messages ep pr₁ (ext ++ rest) := by
    have hval : validateIncomingBasicHeader (pr.withBasic h).basicHeader ep.server
        (pr.withBasic h).dataMsg.msgPtr.isNone = none := by
      have hcur : (pr.withBasic h).dataMsg.msgPtr = cur := hb.msg
      rw [hcur]
      exact hbasic
    refine feed_pass hb.wf hready hneed ?_
    rw [consumeIteration, hstate]
    simp only [cons_append, nil_append]
    rw [consumeHeaderBasic_two hneed, enterExtended, hval, hpr₁, ← hlen]
    rfl
  -- the second pass reads the extended header
  have hwf₁ : Wf ep pr₁ := by
    rw [hpr₁]
    refine ⟨⟨?_, ?_⟩, ?_, ?_, hb.wf.dataKey, hb.wf.controlKey, hb.wf.dataOp, hb.wf.controlOp⟩ <;> rintro (⟨⟨⟩⟩ | ⟨⟨⟩⟩)
  have hstate₁ : pr₁.state = .headerExtended := by rw [hpr₁]
  have hneed₁ : pr₁.bytesNeeded = ext.length := by rw [hpr₁]
  have hheaded : pr₁.withExtended ext = pr.headed h ext := by
    rw [hpr₁]
    simp [withExtended, withBasic, headed, hzero]
  have hval : validateIncomingExtendedHeader ep.platform (pr.headed h ext).basicHeader (pr.headed h ext).extendedHeader = none := hext
  refine hfirst.trans (feed_pass hwf₁ (by simp [ready, hstate₁]) hneed₁ ?_)
  rw [consumeIteration, hstate₁]
  rw [consumeHeaderExtended_full (by rw [hneed₁]; simp), hneed₁, take_left, hheaded, enterApplication, hval, hstart]

/-- The processor with the payload of a frame read. -/
def bodied (ep : Endpoint) (pr : Processor) (m : Message) (key : MaskingKey) (data : Bytes) : Processor :=
  (pr.setCurrent (pr.received ep m key data)).needing 0

theorem setCurrent_current : pr.setCurrent pr.current = pr := by
  cases pr with
  | mk _ _ _ _ _ currentMsg _ _ => cases currentMsg <;> rfl

theorem Wf.bodied {ep : Endpoint} {pr : Processor} (h : Wf ep pr) (hs : pr.state = .application) {m : Message}
    (hm : pr.current.msgPtr = some m) (key : MaskingKey) (data : Bytes) : Wf ep (pr.bodied ep m key data) := by
  have hwf : Wf ep (pr.setCurrent (pr.received ep m key data)) := h.setCurrent hm rfl ⟨_, rfl⟩
  exact ⟨hwf.state, fun hbasic => by simp [Processor.bodied, hs] at hbasic, hwf.current, hwf.dataKey, hwf.controlKey,
    hwf.dataOp, hwf.controlOp⟩

/-- A processor that is to read the payload of a frame. -/
structure Reading (ep : Endpoint) (pr : Processor) (m : Message) (key : MaskingKey) (data : Bytes) : Prop where
  wf : Wf ep pr
  state : pr.state = .application
  msg : pr.current.msgPtr = some m
  prepared : pr.current.preparedKey = prepareMaskingKey ep.platform key
  need : pr.bytesNeeded = data.length
  ok : (checkText m.opcode pr.current.validator (pr.basicHeader.unmask key data)).2 = true

variable {data : Bytes}

/-- Reading the payload of a frame: one pass, which also ends the frame. -/
theorem feed_payload (h : Reading ep pr m key data) (rest : Bytes) (hend : (pr.bodied ep m key data).endFrame.2 = none) :
    feed messages ep pr (data ++ rest) = feed messages ep (pr.bodied ep m key data).endFrame.1 rest := by
  obtain ⟨hwf, hs, hm, hk, hneed, hok⟩ := h
  have hready : pr.ready = false := by simp [ready, hs]
  have hpass : pr.consumeIteration ep (data ++ rest) = ⟨(pr.bodied ep m key data).endFrame.1, data.length, none⟩ := by
    rw [consumeIteration, hs]
    rw [consumeApplication_full (by rw [hneed]; simp), hneed, take_left]
    have hafter : afterPayload (pr.bodied ep m key data, none) data.length =
        ⟨(pr.bodied ep m key data).endFrame.1, data.length, none⟩ := by
      have hzero : ¬0 < (pr.bodied ep m key data).bytesNeeded := by simp [bodied]
      simp only [afterPayload, if_neg hzero, hend]
    by_cases hpos : 0 < data.length
    · have hproc : pr.processPayloadBytes ep data = (pr.bodied ep m key data, none) := by
        rw [processPayloadBytes_eq m key hm hk, if_pos hok, hneed, Nat.sub_self]
        rfl
      rw [if_pos hpos, hproc, hafter]
    · -- an empty payload leaves the processor as it is
      obtain rfl : data = [] := length_eq_zero_iff.mp (by omega)
      have hsame : pr.bodied ep m key [] = pr := by
        have hrec : pr.received ep m key [] = pr.current := by
          have hunmask : pr.basicHeader.unmask key [] = [] := by simp [unmask, byteMaskCircLoop]
          have hturn : pr.basicHeader.turn key 0 = key := by simp [turn, MaskingKey.rotate]
          have hcheck : checkText m.opcode pr.current.validator [] = (pr.current.validator, true) := by
            simp [checkText, Validator.decode]
          rw [received, hunmask, length_nil, hturn, hcheck, append_nil, ← hk]
          cases hcur : pr.current
          rw [hcur] at hm
          exact congrArg (fun x => MsgMetadata.mk x _ _) hm.symm
        rw [bodied, hrec, setCurrent_current, needing]
        have hneed' : pr.bytesNeeded = 0 := hneed
        cases pr
        simp only at hneed'
        rw [hneed']
      rw [hsame] at hafter ⊢
      exact hafter
  exact feed_pass hwf hready hneed hpass

@[simp] theorem bodied_basicHeader :
    (pr.bodied ep m key data).basicHeader = pr.basicHeader := by
  simp [bodied]

@[simp] theorem bodied_current :
    (pr.bodied ep m key data).current = pr.received ep m key data := by
  simp [bodied]

/-- A payload that ends the message: the message is delivered. -/
theorem feed_payload_fin (h : Reading ep pr m key data) (rest : Bytes)
    (hfin : pr.basicHeader.getFin = true)
    (hfinal : pr.basicHeader.getOpcode = .text → (pr.received ep m key data).validator.complete = true) :
    ∃ pr', feed messages ep pr (data ++ rest) =
        Outcome.after [⟨m.opcode, m.payload ++ pr.basicHeader.unmask key data⟩] (feed messages ep pr' rest) ∧
      Wf ep pr' ∧ pr'.resetHeaders = pr' ∧
      (pr.currentMsg = .data → pr'.dataMsg.msgPtr = none) ∧ (pr.currentMsg = .control → pr'.dataMsg = pr.dataMsg) := by
  obtain ⟨q, hq⟩ : ∃ q, q = { pr.bodied ep m key data with state := .ready } := ⟨_, rfl⟩
  have hcheck : ¬((pr.bodied ep m key data).basicHeader.getOpcode = .text ∧
      (!(pr.bodied ep m key data).current.validator.complete) = true) := by
    rw [bodied_basicHeader, bodied_current]
    rintro ⟨hop, hc⟩
    rw [hfinal hop] at hc
    cases hc
  have hend : (pr.bodied ep m key data).endFrame = (q, none) := by
    rw [endFrame, bodied_basicHeader, hfin, if_pos rfl, finalizeMessage, if_neg hcheck, hq]
  have hwfb := h.wf.bodied h.state h.msg key data
  have hcurq : q.current = pr.received ep m key data := by rw [hq]; exact bodied_current
  have hreadyq : q.ready = true := by rw [hq]; rfl
  have hwfq : Wf ep q := by
    rw [hq]
    exact ⟨⟨nofun, nofun⟩, nofun, fun _ => ⟨_, congrArg MsgMetadata.msgPtr (hq ▸ hcurq)⟩, hwfb.dataKey, hwfb.controlKey,
      hwfb.dataOp, hwfb.controlOp⟩
  obtain ⟨m', hm', hget, hwf', -, -⟩ := hwfq.getMessage hreadyq
  obtain rfl : m' = ⟨m.opcode, m.payload ++ pr.basicHeader.unmask key data⟩ := by
    rw [hcurq] at hm'
    exact (Option.some.inj hm').symm
  have hcurMsg : q.currentMsg = pr.currentMsg := by
    rw [hq]
    cases hc : pr.currentMsg <;> simp [bodied, needing, setCurrent, hc]
  have hstepq : feed messages ep q rest =
      Outcome.after [⟨m.opcode, m.payload ++ pr.basicHeader.unmask key data⟩] (feed messages ep q.getMessage.2 rest) := by
    rw [feed_step hwfq (by simp [waiting, hreadyq]) (machine_step_ready messages ep hreadyq rest)]
    simp [messages, hget]
  refine ⟨q.getMessage.2, ?_, hwf', ?_, ?_, ?_⟩
  · rw [feed_payload h rest (by rw [hend]), hend, hstepq]
  all_goals simp only [getMessage, hreadyq, Bool.not_true, hm']
  · rfl
  · intro hdata
    have hop : m.opcode.isControl = false := h.wf.dataOp m (by simpa [current, hdata] using h.msg)
    simp [hop, setCurrent, hcurMsg, hdata, resetHeaders]
  · intro hcontrol
    have hop : m.opcode.isControl = true := h.wf.controlOp m (by simpa [current, hcontrol] using h.msg)
    have hdataq : q.dataMsg = pr.dataMsg := by
      rw [hq]
      simp [bodied, needing, setCurrent, hcontrol]
    simp [hop, setCurrent, hcurMsg, hcontrol, resetHeaders, hdataq]

end Processor

/-! ## Prepared frames on the wire -/

open Processor

section Wire

variable {sender peer : Endpoint} (hrole : peer.server = !sender.server)

/-- The basic header of a frame sent to a peer. -/
def frameHeader (peer : Endpoint) (op : Opcode) (fin : Bool) (payload : Bytes) : BasicHeader :=
  ofFields op payload.length fin peer.server false false false

/-- The payload of a frame sent to a peer. -/
def frameBody (peer : Endpoint) (key : MaskingKey) (payload : Bytes) : Bytes :=
  if peer.server then byteMask payload key 0 else payload

/-- The masking key the peer reads from the header. -/
def receivedKey (peer : Endpoint) (key : MaskingKey) : MaskingKey := if peer.server then key else ⟨0, 0, 0, 0⟩

include hrole in
theorem wire_prepareFrame (op : Opcode) (fin : Bool) (payload : Bytes) (key : MaskingKey) :
    (prepareFrame sender op fin payload key).wire =
      (frameHeader peer op fin payload).b0 :: (frameHeader peer op fin payload).b1 ::
        (extendedBytes payload.length peer.server key ++ frameBody peer key payload) := by
  have hheader := prepareHeader_ofFields op payload.length fin peer.server key
  unfold prepareFrame Prepared.wire frameHeader frameBody
  rw [← hrole]
  cases hs : peer.server <;> rw [hs] at hheader
  · exact congrArg (· ++ payload) hheader
  · exact congrArg (· ++ byteMask payload key 0) hheader

theorem length_frameBody (key : MaskingKey) (payload : Bytes) : (frameBody peer key payload).length = payload.length := by
  unfold frameBody
  split_ifs
  · rw [byteMask_eq, length_byteMaskCircLoop]
  · rfl

theorem unmask_frameBody (op : Opcode) (fin : Bool) (key : MaskingKey) (payload : Bytes) :
    (frameHeader peer op fin payload).unmask (receivedKey peer key) (frameBody peer key payload) = payload := by
  unfold unmask frameHeader frameBody receivedKey
  rw [getMasked_ofFields]
  split_ifs
  · rw [byteMask_eq, byteMaskCircLoop_involutive]
  · rfl

variable {payload : Bytes} {acc : Message} {op : Opcode} {cur : Option Message} {pr : Processor} {fin : Bool}

/-- A processor that has read the header of a frame. -/
structure Headed (peer : Endpoint) (pr q : Processor) (op : Opcode) (fin : Bool) (key : MaskingKey) (payload : Bytes) : Prop where
  wf : Wf peer q
  data : q.dataMsg = pr.dataMsg
  header : q.basicHeader = frameHeader peer op fin payload
  key : q.frameKey = receivedKey peer key
  size : q.frameSize peer = payload.length

theorem Headed.opcode {q : Processor} {key : MaskingKey} (h : Headed peer pr q op fin key payload) : q.basicHeader.getOpcode = op := by
  rw [h.header]
  exact getOpcode_ofFields _ _ _ _

include hrole in
/-- The header of a prepared frame is read, and the frame is set up. -/
theorem feed_prepared (hb : Between peer pr cur) (fin : Bool) (key : MaskingKey) (rest : Bytes) (hsize : payload.length < peer.platform.sizeLimit)
    (hcontrol : op.isControl = true → payload.length ≤ 125 ∧ fin = true) (hres : op.reserved = false)
    (hdata : op.isControl = false → (cur.isNone = true ↔ op ≠ .continuation)) :
    ∃ q, Headed peer pr q op fin key payload ∧ ((q.startFrame peer).2 = none →
      feed messages peer pr ((prepareFrame sender op fin payload key).wire ++ rest) =
        feed messages peer (q.startFrame peer).1 (frameBody peer key payload ++ rest)) := by
  refine ⟨pr.headed (frameHeader peer op fin payload) (extendedBytes payload.length peer.server key),
    ⟨hb.wf.headed _ _, rfl, rfl, ?_, ?_⟩, fun hstart => ?_⟩
  · unfold frameKey headed frameHeader receivedKey
    split_ifs with h
    · rw [h, getMaskingKey_extendedBytes]
    · rw [getMaskingKey, getMasked_ofFields, if_neg h]
  · have hlimit : peer.platform.sizeLimit ≤ 2 ^ 64 := by
      unfold Platform.sizeLimit
      cases peer.platform.wordSize <;> decide
    unfold frameSize headed frameHeader
    rw [getPayloadSize_extendedBytes _ _ _ _ (by omega), Nat.mod_eq_of_lt hsize]
  · rw [wire_prepareFrame hrole]
    simp only [cons_append, append_assoc]
    refine feed_header hb _ _ _ ?_ ?_ ?_ hstart
    · rw [length_extendedBytes, frameHeader, getHeaderLen_ofFields, basicHeaderLength]
      omega
    · exact validateIncomingBasicHeader_ofFields _ _ hcontrol hres hdata
    · exact validateIncomingExtendedHeader_extendedBytes _ _ _ _ _ hsize

include hrole in
/-- A control frame is delivered, and the data message in progress is left as it is. -/
theorem feed_control (hb : Between peer pr cur)
    (key : MaskingKey) (rest : Bytes) (hop : op.isControl = true) (hres : op.reserved = false)
    (hle : payload.length ≤ 125) :
    ∃ pr', feed messages peer pr ((prepareFrame sender op true payload key).wire ++ rest) =
        Outcome.after [⟨op, payload⟩] (feed messages peer pr' rest) ∧ Between peer pr' cur := by
  have hsize : payload.length < peer.platform.sizeLimit := by
    unfold Platform.sizeLimit
    cases peer.platform.wordSize <;> simp only [WordSize.bytes] <;> omega
  obtain ⟨q, hq, hfeed⟩ := feed_prepared hrole hb true key rest hsize (fun _ => ⟨hle, rfl⟩) hres (fun h => by simp [hop] at h)
  have hctl : q.basicHeader.getOpcode.isControl = true := by rw [hq.opcode, hop]
  have hstart : (q.startFrame peer).2 = none := startFrame_accepts (.inl hctl)
  obtain ⟨hwf, hstate⟩ := wf_startFrame hq.wf hstart
  rw [hfeed hstart]
  rcases startFrame_cases hstart with ⟨-, hst⟩ | ⟨hno, -⟩ | ⟨hno, -⟩
  · have hnotext : op ≠ .text := fun h => by simp [h, Opcode.isControl, Opcode.value] at hop
    rw [hst] at hwf hstate ⊢
    have hunmask : q.basicHeader.unmask q.frameKey (frameBody peer key payload) = payload := by
      rw [hq.header, hq.key]
      exact unmask_frameBody op true key payload
    have hreading : Reading peer _ ⟨q.basicHeader.getOpcode, []⟩ q.frameKey (frameBody peer key payload) :=
      ⟨hwf, hstate, rfl, rfl, by rw [length_frameBody]; exact hq.size, by rw [hq.opcode]; simp [checkText, hnotext]⟩
    obtain ⟨pr', h1, h2, h3, -, h5⟩ := feed_payload_fin hreading rest
      (by rw [hq.header]; exact getFin_ofFields _ _ _ _) (fun h => absurd (hq.opcode.symm.trans h) hnotext)
    have hsame : pr'.dataMsg = pr.dataMsg := (h5 rfl).trans hq.data
    refine ⟨pr', ?_, ⟨h2, h3, hsame ▸ hb.msg, hsame ▸ hb.text⟩⟩
    rw [h1]
    simp only [nil_append]
    rw [hunmask, hq.opcode]
  · rw [hctl] at hno
    cases hno
  · rw [hctl] at hno
    cases hno

/-- The frame of a data message: the first one, with the opcode of the message, or a continuation of the message in progress. -/
def DataFrame (cur : Option Message) (op : Opcode) (acc : Message) : Prop :=
  (cur = none ∧ (op = .text ∨ op = .binary) ∧ acc = ⟨op, []⟩) ∨ (cur = some acc ∧ op = .continuation)

/-- What holds of a processor that is to read the payload of a data frame. -/
structure Started (peer : Endpoint) (pr : Processor) (acc : Message) (key : MaskingKey) (n : Nat) : Prop where
  wf : Wf peer pr
  state : pr.state = .application
  data : pr.currentMsg = .data
  msg : pr.current.msgPtr = some acc
  key : pr.current.preparedKey = prepareMaskingKey peer.platform key
  need : pr.bytesNeeded = n
  text : acc.opcode = .text → pr.current.validator.state = utf8Run 0 acc.payload

include hrole in
/-- The header of a data frame is read, and the message starts or goes on. -/
theorem feed_data_header (hb : Between peer pr cur) (hframe : DataFrame cur op acc) (fin : Bool) (key : MaskingKey) (rest : Bytes)
    (hle : (acc.payload ++ payload).length ≤ peer.maxMessageSize) :
    ∃ q, feed messages peer pr ((prepareFrame sender op fin payload key).wire ++ rest) =
        feed messages peer q (frameBody peer key payload ++ rest) ∧
      Started peer q acc (receivedKey peer key) payload.length ∧ q.basicHeader = frameHeader peer op fin payload := by
  have hmax := peer.maxMessageSize_lt
  rw [length_append] at hle
  have hsize : payload.length < peer.platform.sizeLimit := by omega
  have hctl : op.isControl = false := by
    rcases hframe with ⟨-, rfl | rfl, -⟩ | ⟨-, rfl⟩ <;> rfl
  have hres : op.reserved = false := by
    rcases hframe with ⟨-, rfl | rfl, -⟩ | ⟨-, rfl⟩ <;> rfl
  have hcont : cur.isNone = true ↔ op ≠ .continuation := by
    rcases hframe with ⟨rfl, rfl | rfl, -⟩ | ⟨rfl, rfl⟩ <;> simp
  obtain ⟨q, hq, hfeed⟩ := feed_prepared hrole hb fin key rest hsize (fun h => by simp [hctl] at h) hres (fun _ => hcont)
  have hqmsg : q.dataMsg.msgPtr = cur := by rw [hq.data, hb.msg]
  have hstart : (q.startFrame peer).2 = none := by
    refine startFrame_accepts (.inr ?_)
    rw [hqmsg, hq.size]
    rcases hframe with ⟨rfl, -, rfl⟩ | ⟨rfl, -⟩
    · exact .inl ⟨rfl, by simpa using hle⟩
    · refine .inr ⟨acc, rfl, ?_⟩
      rw [Nat.mod_eq_of_lt (by omega)]
      exact hle
  obtain ⟨hwf, hstate⟩ := wf_startFrame hq.wf hstart
  refine ⟨(q.startFrame peer).1, hfeed hstart, ?_⟩
  rcases startFrame_cases hstart with ⟨hno, -⟩ | ⟨-, hnone, -, hst⟩ | ⟨-, out, hout, -, hst⟩
  · rw [hq.opcode, hctl] at hno
    cases hno
  · rw [hqmsg] at hnone
    rcases hframe with ⟨-, -, rfl⟩ | ⟨hsome, -⟩
    · rw [hst] at hwf hstate ⊢
      refine ⟨⟨hwf, hstate, rfl, ?_, ?_, hq.size, fun _ => rfl⟩, hq.header⟩
      · rw [hq.opcode]
        rfl
      · rw [hq.key]
        rfl
    · rw [hnone] at hsome
      cases hsome
  · rw [hqmsg] at hout
    rcases hframe with ⟨hnone, -⟩ | ⟨hsome, -⟩
    · rw [hout] at hnone
      cases hnone
    · rw [hst] at hwf hstate ⊢
      refine ⟨⟨hwf, hstate, rfl, hqmsg.trans hsome, ?_, hq.size, fun htext => ?_⟩, hq.header⟩
      · rw [hq.key]
        rfl
      · rw [hq.data]
        exact hb.text acc hsome htext

/-- The validator of a data message goes along with a payload that can be continued to a well-formed string. -/
theorem Started.check {key : MaskingKey} {n : Nat} (h : Started peer pr acc key n)
    (htext : acc.opcode = .text → utf8Run 0 (acc.payload ++ payload) ≠ 1) :
    (checkText acc.opcode pr.current.validator payload).2 = true ∧
      (acc.opcode = .text →
        (checkText acc.opcode pr.current.validator payload).1.state = utf8Run 0 (acc.payload ++ payload)) := by
  by_cases hop : acc.opcode = .text
  · have hstate := h.text hop
    have hne := htext hop
    rw [utf8Run_append, ← hstate] at hne ⊢
    have hv : pr.current.validator.state ≠ 1 := by
      intro hv
      rw [hv, utf8Run_reject] at hne
      exact hne rfl
    obtain ⟨h1, h2⟩ := pr.current.validator.decode_spec payload hv
    rw [checkText, if_pos hop]
    exact ⟨h1.mpr hne, fun _ => h2 (h1.mpr hne)⟩
  · rw [checkText, if_neg hop]
    exact ⟨rfl, fun h => absurd h hop⟩

/-- The payload of a data message is read, unmasked and validated. -/
theorem Started.reading {key : MaskingKey} (h : Started peer pr acc (receivedKey peer key) payload.length)
    (hhead : pr.basicHeader = frameHeader peer op fin payload) (htext : acc.opcode = .text → utf8Run 0 (acc.payload ++ payload) ≠ 1) :
    pr.basicHeader.unmask (receivedKey peer key) (frameBody peer key payload) = payload ∧
    Reading peer pr acc (receivedKey peer key) (frameBody peer key payload) ∧
    (acc.opcode = .text → (pr.received peer acc (receivedKey peer key) (frameBody peer key payload)).validator.state =
      utf8Run 0 (acc.payload ++ payload)) := by
  have hunmask : pr.basicHeader.unmask (receivedKey peer key) (frameBody peer key payload) = payload := by
    rw [hhead]
    exact unmask_frameBody op fin key payload
  obtain ⟨hok, hstate⟩ := h.check htext
  rw [received, hunmask]
  exact ⟨rfl, ⟨h.wf, h.state, h.msg, h.key, by rw [length_frameBody, h.need], by rw [hunmask]; exact hok⟩, hstate⟩

include hrole in
/-- A data frame that leaves its message open. -/
theorem feed_data_more (hb : Between peer pr cur) (hframe : DataFrame cur op acc) (key : MaskingKey) (rest : Bytes)
    (hle : (acc.payload ++ payload).length ≤ peer.maxMessageSize)
    (htext : acc.opcode = .text → utf8Run 0 (acc.payload ++ payload) ≠ 1) :
    ∃ pr', feed messages peer pr ((prepareFrame sender op false payload key).wire ++ rest) = feed messages peer pr' rest ∧
      Between peer pr' (some ⟨acc.opcode, acc.payload ++ payload⟩) := by
  obtain ⟨q, hfeed, hq, hhead⟩ := feed_data_header hrole hb hframe false key rest hle
  obtain ⟨hunmask, hreading, hstate⟩ := hq.reading hhead htext
  obtain ⟨q', hq'⟩ : ∃ q', q' = q.bodied peer acc (receivedKey peer key) (frameBody peer key payload) := ⟨_, rfl⟩
  have hend : q'.endFrame = (q'.resetHeaders, none) := by
    rw [endFrame, hq', bodied_basicHeader, hhead, frameHeader, getFin_ofFields]
    rfl
  have hdata : q'.resetHeaders.dataMsg = q.received peer acc (receivedKey peer key) (frameBody peer key payload) := by
    simp [hq', bodied, setCurrent, hq.data, resetHeaders, needing]
  refine ⟨q'.resetHeaders, ?_, ?_, rfl, ?_, ?_⟩
  · rw [hfeed, feed_payload hreading rest (by rw [← hq', hend]), ← hq', hend]
  · exact hq' ▸ (hreading.wf.bodied hreading.state hreading.msg _ _).resetHeaders
  · rw [hdata, received, hunmask]
  · intro m hm htext'
    obtain rfl := Option.some.inj hm
    rw [hdata]
    exact hstate htext'

include hrole in
/-- A data frame that ends its message: the message is delivered. -/
theorem feed_data_fin (hb : Between peer pr cur) (hframe : DataFrame cur op acc) (key : MaskingKey) (rest : Bytes)
    (hle : (acc.payload ++ payload).length ≤ peer.maxMessageSize)
    (htext : acc.opcode = .text → utf8Run 0 (acc.payload ++ payload) = 0) :
    ∃ pr', feed messages peer pr ((prepareFrame sender op true payload key).wire ++ rest) =
        Outcome.after [⟨acc.opcode, acc.payload ++ payload⟩] (feed messages peer pr' rest) ∧ Between peer pr' none := by
  obtain ⟨q, hfeed, hq, hhead⟩ := feed_data_header hrole hb hframe true key rest hle
  obtain ⟨hunmask, hreading, hstate⟩ := hq.reading hhead fun h => by rw [htext h]; exact Nat.zero_ne_one
  have hopcode : q.basicHeader.getOpcode = op := by rw [hhead]; exact getOpcode_ofFields _ _ _ _
  obtain ⟨pr', h1, h2, h3, h4, -⟩ := feed_payload_fin hreading rest (by rw [hhead]; exact getFin_ofFields _ _ _ _) (by
    intro hop
    rw [hopcode] at hop
    have hacc : acc.opcode = .text := by
      rcases hframe with ⟨-, -, rfl⟩ | ⟨-, hc⟩
      · exact hop
      · rw [hc] at hop
        cases hop
    rw [Validator.complete_iff]
    exact (hstate hacc).trans (htext hacc))
  refine ⟨pr', by rw [hfeed, h1, hunmask], ⟨h2, h3, h4 hq.data, by rintro msg ⟨⟩⟩⟩

end Wire

/-! ## Sequences of messages -/

/-- A call of a prepare function, with the masking key it draws. -/
inductive PrepareCall
  | data (op : Opcode) (fin : Bool) (payload : Bytes) (key : MaskingKey)
  | ping (payload : Bytes) (key : MaskingKey)
  | pong (payload : Bytes) (key : MaskingKey)
  | close (code : UInt16) (reason : Bytes) (key : MaskingKey)

/-- What a prepare function returns. -/
def PrepareCall.prepare (ep : Endpoint) : PrepareCall → Except ProcessorError Prepared
  | .data op fin payload key => prepareDataFrame ep op fin payload key
  | .ping payload key => preparePing ep payload key
  | .pong payload key => preparePong ep payload key
  | .close code reason key => prepareClose ep code reason key

/-- The bytes that a sequence of calls writes to the wire, if none of them fails. -/
def prepareAll (ep : Endpoint) : List PrepareCall → Except ProcessorError Bytes
  | [] => .ok []
  | c :: cs =>
    match c.prepare ep with
    | .error e => .error e
    | .ok m =>
      match prepareAll ep cs with
      | .error e => .error e
      | .ok bytes => .ok (m.wire ++ bytes)

/-- A sequence of calls that sends messages, starting inside a data message or between messages: a data message is sent whole or
as a first frame and continuation frames, a control message may stand anywhere. Each data message is no longer than the limit
and, if it is a text message, well-formed UTF-8. The messages are listed in the order of their last frames. -/
inductive Sends (limit : Nat) : Option Message → List PrepareCall → List Message → Prop
  | nil : Sends limit none [] []
  | ping (payload : Bytes) (key : MaskingKey) :
      Sends limit cur cs ms → Sends limit cur (.ping payload key :: cs) (⟨.ping, payload⟩ :: ms)
  | pong (payload : Bytes) (key : MaskingKey) :
      Sends limit cur cs ms → Sends limit cur (.pong payload key :: cs) (⟨.pong, payload⟩ :: ms)
  | close (code : UInt16) (reason : Bytes) (key : MaskingKey) :
      Sends limit cur cs ms → Sends limit cur (.close code reason key :: cs) (⟨.close, closePayload code reason⟩ :: ms)
  | more (payload : Bytes) (key : MaskingKey) :
      DataFrame cur op acc → Sends limit (some ⟨acc.opcode, acc.payload ++ payload⟩) cs ms →
      Sends limit cur (.data op false payload key :: cs) ms
  | last (payload : Bytes) (key : MaskingKey) :
      DataFrame cur op acc → (acc.payload ++ payload).length ≤ limit →
      (acc.opcode = .text → WellFormedUtf8 (acc.payload ++ payload)) → Sends limit none cs ms →
      Sends limit cur (.data op true payload key :: cs) (⟨acc.opcode, acc.payload ++ payload⟩ :: ms)

variable {payload : Bytes} {ep : Endpoint} {ms : List Message} {cs : List PrepareCall} {key : MaskingKey} {op : Opcode}
  {cur : Option Message} {m : Prepared}

/-- The data message in progress can still become a message within the limit and well formed. -/
theorem Sends.open_message {limit : Nat} (h : Sends limit cur cs ms) :
    ∀ m, cur = some m → m.payload.length ≤ limit ∧ (m.opcode = .text → utf8Run 0 m.payload ≠ 1) := by
  induction h with
  | nil => nofun
  | ping _ _ _ ih => exact ih
  | pong _ _ _ ih => exact ih
  | close _ _ _ _ ih => exact ih
  | more payload key hframe _ ih =>
    rintro m rfl
    rcases hframe with ⟨hnone, -⟩ | ⟨hsome, -⟩
    · cases hnone
    · obtain rfl := Option.some.inj hsome
      obtain ⟨hlen, hrun⟩ := ih _ rfl
      rw [length_append] at hlen
      refine ⟨by omega, fun htext hreject => hrun htext ?_⟩
      rw [utf8Run_append, hreject, utf8Run_reject]
  | last payload key hframe hlen htext _ _ =>
    rintro m rfl
    rcases hframe with ⟨hnone, -⟩ | ⟨hsome, -⟩
    · cases hnone
    · obtain rfl := Option.some.inj hsome
      rw [length_append] at hlen
      exact ⟨by omega, fun h => utf8Run_ne_reject (htext h)⟩

/-- A control call that succeeds prepared a frame with a short payload. -/
theorem prepareControl_ok (h : prepareControl ep op payload key = .ok m) : m = prepareFrame ep op true payload key ∧ payload.length ≤ 125 := by
  unfold prepareControl payloadSizeBasic at h
  split_ifs at h with h1 h2
  exact ⟨(Except.ok.inj h).symm, by omega⟩

theorem prepareDataFrame_ok (h : prepareDataFrame ep op fin payload key = .ok m) : m = prepareFrame ep op fin payload key := by
  unfold prepareDataFrame at h
  split_ifs at h
  exact (Except.ok.inj h).symm

theorem prepareAll_cons {c : PrepareCall} {bytes : Bytes}
    (h : prepareAll ep (c :: cs) = .ok bytes) :
    ∃ m rest, c.prepare ep = .ok m ∧ prepareAll ep cs = .ok rest ∧ bytes = m.wire ++ rest := by
  unfold prepareAll at h
  split at h
  · cases h
  · rename_i m hm
    split at h
    · cases h
    · rename_i rest hrest
      exact ⟨m, rest, hm, hrest, (Except.ok.inj h).symm⟩

/-- The peer delivers the messages that a sequence of calls sends. -/
theorem feed_sends {sender peer : Endpoint} {pr : Processor} {bytes : Bytes} (hrole : peer.server = !sender.server)
    (h : Sends peer.maxMessageSize cur cs ms) (hb : Between peer pr cur) (hbytes : prepareAll sender cs = .ok bytes) :
    ∃ pr', feed messages peer pr bytes = ⟨ms, .ok pr'⟩ ∧ Between peer pr' none := by
  have hcontrol {pr : Processor} {cur : Option Message} {bytes : Bytes} {ms : List Message} {c : PrepareCall} {cs : List PrepareCall}
      (op : Opcode) (payload : Bytes) (key : MaskingKey) (hb : Between peer pr cur) (hbytes : prepareAll sender (c :: cs) = .ok bytes)
      (hop : op.isControl = true) (hres : op.reserved = false)
      (hc : ∀ m, c.prepare sender = .ok m → prepareControl sender op payload key = .ok m)
      (ih : ∀ {pr : Processor} {bytes : Bytes}, Between peer pr cur → prepareAll sender cs = .ok bytes →
        ∃ pr', feed messages peer pr bytes = ⟨ms, .ok pr'⟩ ∧ Between peer pr' none) :
      ∃ pr', feed messages peer pr bytes = ⟨⟨op, payload⟩ :: ms, .ok pr'⟩ ∧ Between peer pr' none := by
    obtain ⟨m, rest, hm, hrest, rfl⟩ := prepareAll_cons hbytes
    obtain ⟨rfl, hle⟩ := prepareControl_ok (hc m hm)
    obtain ⟨pr₁, hfeed, hb₁⟩ := feed_control hrole hb key rest hop hres hle
    obtain ⟨pr', hfeed', hb'⟩ := ih hb₁ hrest
    exact ⟨pr', by rw [hfeed, hfeed']; rfl, hb'⟩
  induction h generalizing pr bytes with
  | nil =>
    obtain rfl := Except.ok.inj hbytes
    have hstate : pr.state = .headerBasic := by rw [← hb.reset]; rfl
    have hneed : pr.bytesNeeded = 2 := by rw [← hb.reset]; rfl
    exact ⟨pr, Machine.runAll_wait (by simp [machine, waiting, ready, hstate, hneed]), hb⟩
  | ping payload key _ ih => exact hcontrol .ping payload key hb hbytes rfl rfl (fun _ hm => hm) ih
  | pong payload key _ ih => exact hcontrol .pong payload key hb hbytes rfl rfl (fun _ hm => hm) ih
  | close code reason key _ ih =>
    refine hcontrol .close _ key hb hbytes rfl rfl (fun m hm => ?_) ih
    change prepareClose sender code reason key = .ok m at hm
    unfold prepareClose at hm
    split_ifs at hm
    exact hm
  | more payload key hframe hsends ih =>
    obtain ⟨m, rest, hm, hrest, rfl⟩ := prepareAll_cons hbytes
    obtain rfl := prepareDataFrame_ok hm
    obtain ⟨hlen, hrun⟩ := hsends.open_message _ rfl
    obtain ⟨pr₁, hfeed, hb₁⟩ := feed_data_more hrole hb hframe key rest hlen hrun
    obtain ⟨pr', hfeed', hb'⟩ := ih hb₁ hrest
    exact ⟨pr', by rw [hfeed, hfeed'], hb'⟩
  | last payload key hframe hlen htext _ ih =>
    obtain ⟨m, rest, hm, hrest, rfl⟩ := prepareAll_cons hbytes
    obtain rfl := prepareDataFrame_ok hm
    obtain ⟨pr₁, hfeed, hb₁⟩ := feed_data_fin hrole hb hframe key rest hlen fun h => (utf8Run_accept_iff _).mpr (htext h)
    obtain ⟨pr', hfeed', hb'⟩ := ih hb₁ hrest
    exact ⟨pr', by rw [hfeed, hfeed']; rfl, hb'⟩

/-- The buffers into which the bytes of prepared messages are cut deliver these messages. -/
theorem feedAll_sends {sender peer : Endpoint} (hrole : peer.server = !sender.server) {calls : List PrepareCall}
    (hsends : Sends peer.maxMessageSize none calls ms) {bytes : Bytes} (hbytes : prepareAll sender calls = .ok bytes)
    {cs : List Bytes} (hcs : cs.flatten = bytes) :
    ∃ pr, feedAll (handleReadFrame peer) init cs = ⟨ms, .ok pr⟩ := by
  have hcomp : Compositional (handleReadFrame peer) (AtRest peer) :=
    observeReadFrame_compositional messages peer
  obtain ⟨pr, hfeed, -⟩ := feed_sends hrole hsends ⟨wf_init peer, rfl, rfl, nofun⟩ hbytes
  refine ⟨pr, ?_⟩
  rw [hcomp.feedAll_eq cs (atRest_init peer), hcs, ← hfeed]
  exact observeReadFrame_eq_feed _ (wf_init peer) rfl bytes

/-- Whatever sequence of messages an endpoint prepares and however the bytes are cut into buffers, a peer of the opposite role
delivers exactly these messages, in the order of their last frames and without an error. -/
theorem handleReadFrame_prepared (sender peer : Endpoint) (hrole : peer.server = !sender.server) (calls : List PrepareCall)
    (ms : List Message) (hsends : Sends peer.maxMessageSize none calls ms) (bytes : Bytes)
    (hbytes : prepareAll sender calls = .ok bytes) (cs : List Bytes) (hcs : cs.flatten = bytes) :
    (feedAll (handleReadFrame peer) init cs).out = ms ∧
      ∃ pr, (feedAll (handleReadFrame peer) init cs).stop = .ok pr := by
  obtain ⟨pr, hread⟩ := feedAll_sends hrole hsends hbytes hcs
  rw [hread]
  exact ⟨rfl, pr, rfl⟩

/-- A client sends a text message in two frames with a ping between them, and a close. The server reads the bytes in two buffers,
cut inside the first header. -/
theorem handleReadFrame_prepared_text_ping_close :
    (feedAll (handleReadFrame (.default true)) init
      [[0x01], [0x82, 1, 2, 3, 4, 0xC2, 0xAB, 0x89, 0x80, 5, 6, 7, 8, 0x80, 0x81, 9, 10, 11, 12, 0x48, 0x88, 0x82, 0, 0, 0, 0,
        0x03, 0xE8]]).out =
      [⟨.ping, []⟩, ⟨.text, [0xC3, 0xA9, 0x41]⟩, ⟨.close, [0x03, 0xE8]⟩] := by
  have htext : WellFormedUtf8 [0xC3, 0xA9, 0x41] := ⟨['é', 'A'], by decide⟩
  have hfirst : DataFrame none .text ⟨.text, []⟩ := .inl ⟨rfl, .inl rfl, rfl⟩
  have hlast : DataFrame (some ⟨.text, [0xC3, 0xA9]⟩) .continuation ⟨.text, [0xC3, 0xA9]⟩ := .inr ⟨rfl, rfl⟩
  have hclose : Sends 32000000 none [.close 1000 [] ⟨0, 0, 0, 0⟩] [⟨.close, [0x03, 0xE8]⟩] := .close _ _ _ .nil
  have hsends : Sends 32000000 none
      [.data .text false [0xC3, 0xA9] ⟨1, 2, 3, 4⟩, .ping [] ⟨5, 6, 7, 8⟩, .data .continuation true [0x41] ⟨9, 10, 11, 12⟩,
        .close 1000 [] ⟨0, 0, 0, 0⟩]
      [⟨.ping, []⟩, ⟨.text, [0xC3, 0xA9, 0x41]⟩, ⟨.close, [0x03, 0xE8]⟩] :=
    .more _ _ hfirst (.ping _ _ (.last _ _ hlast (by decide) (fun _ => htext) hclose))
  exact (handleReadFrame_prepared (.default false) (.default true) rfl _ _ hsends _ (by decide) _ rfl).1

end Osp.Websocketpp
