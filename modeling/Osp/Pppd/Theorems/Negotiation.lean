import Osp.Pppd.Fsm

/-!
# Agreement

When the automaton is opened, the peer has accepted the last Configure-Request and the last Configure-Request of the peer was accepted,
and other layers have been told so.
-/

namespace Osp.Pppd

open Osp.Lib Layer Entry

variable {σ : Type} {cb : Callbacks σ} {s : State} {r : UInt8} {log : List Entry} {e : Entry} {m : Layer σ}

/-! ## Reading the log -/

/-- The id of a Configure-Request that was sent. -/
def Entry.requestId : Entry → Option UInt8
  | .sent .confreq id _ => some id
  | _ => none

/-- The id of a Configure-Request that was received. -/
def Entry.peerRequestId : Entry → Option UInt8
  | .received code id _ => if code = 1 then some id else none
  | _ => none

/-- A reply to a Configure-Request. -/
def Entry.isReply : Entry → Bool
  | .sent .confack _ _ | .sent .confnak _ _ | .sent .confrej _ _ => true
  | _ => false

inductive Call where
  | up
  | down

def Entry.call? : Entry → Option Call
  | .up => some .up
  | .down => some .down
  | _ => none

/-- The entries since the Configure-Request most recently sent. -/
def sinceRequest (log : List Entry) : List Entry := log.takeWhile (·.requestId.isNone)

/-- The entries since the Configure-Request most recently received. -/
def sincePeerRequest (log : List Entry) : List Entry := log.takeWhile (·.peerRequestId.isNone)

/-- The Configure-Request most recently sent has been acknowledged, by its id, with an Ack that `ackci` accepted. -/
def RequestAcked (log : List Entry) : Prop :=
  ∃ id data, log.findSome? requestId = some id ∧ .accepted id data ∈ sinceRequest log

/-- The reply to the Configure-Request most recently received, by its id, was a Configure-Ack. -/
def PeerAcked (log : List Entry) : Prop :=
  ∃ id data, log.findSome? peerRequestId = some id ∧ (sincePeerRequest log).find? isReply = some (.sent .confack id data)

/-- The calls of the `up` and `down` callbacks, the latest first. -/
def calls (log : List Entry) : List Call := log.filterMap call?

/-- The calls alternate, and `up` was the first. -/
structure Alternate (calls : List Call) : Prop where
  chain : calls.IsChain (· ≠ ·)
  first : calls.getLast? ≠ some .down

/-! ## Entries -/

/-- An entry that says nothing about requests, replies and calls. -/
structure Entry.Quiet (e : Entry) : Prop where
  requestId : e.requestId = none
  peerRequestId : e.peerRequestId = none
  isReply : e.isReply = false
  call : e.call? = none

theorem RequestAcked.cons (h : RequestAcked log) (he : e.requestId = none) : RequestAcked (e :: log) := by
  obtain ⟨id, data, hid, hmem⟩ := h
  exact ⟨id, data, by simp [he, hid], by simp [sinceRequest, he]; exact .inr hmem⟩

theorem PeerAcked.cons (h : PeerAcked log) (he : e.peerRequestId = none) (hr : e.isReply = false) : PeerAcked (e :: log) := by
  obtain ⟨id, data, hid, hfind⟩ := h
  refine ⟨id, data, by simp [he, hid], ?_⟩
  rw [sincePeerRequest, List.takeWhile_cons, if_pos (by simp [he]), List.find?_cons_of_neg (by simp [hr])]
  exact hfind

/-- The callbacks are there and have been called in turn, `up` last exactly if the automaton is opened. -/
def CallsAgree (cb : Callbacks σ) (opened : Prop) (log : List Entry) : Prop :=
  cb.up.isSome → cb.down.isSome → Alternate (calls log) ∧ ((calls log).head? = some .up ↔ opened)

theorem CallsAgree.cons {opened : Prop} (h : CallsAgree cb opened log) (he : e.call? = none) : CallsAgree cb opened (e :: log) := by
  intro hup hdown
  rw [calls, List.filterMap_cons, he]
  exact h hup hdown

/-- What the log says about an automaton in a state. -/
structure Holds (cb : Callbacks σ) (s : State) (reqid : UInt8) (log : List Entry) : Prop where
  request : s = .reqsent ∨ s = .ackrcvd ∨ s = .acksent ∨ s = .opened → log.findSome? requestId = some reqid
  acked : s = .ackrcvd ∨ s = .opened → RequestAcked log
  peer : s = .acksent ∨ s = .opened → PeerAcked log
  told : CallsAgree cb (s = .opened) log

theorem Holds.cons (h : Holds cb s r log) (he : e.Quiet) : Holds cb s r (e :: log) where
  request hs := by simp [he.requestId, h.request hs]
  acked hs := (h.acked hs).cons he.requestId
  peer hs := (h.peer hs).cons he.peerRequestId he.isReply
  told := h.told.cons he.call

theorem Holds.reqsent (h : Holds cb s r log) (hs : s = .ackrcvd ∨ s = .acksent) : Holds cb .reqsent r log where
  request _ := h.request (by tauto)
  acked hs := by simp at hs
  peer hs := by simp at hs
  told := by
    have hne : s ≠ .opened := by rcases hs with rfl | rfl <;> simp
    simpa [hne] using h.told

/-- The other layers have not been told that the automaton is opened. -/
def Resting (cb : Callbacks σ) (log : List Entry) : Prop := CallsAgree cb False log

theorem Resting.cons (h : Resting cb log) (he : e.call? = none) : Resting cb (e :: log) := CallsAgree.cons h he

theorem Holds.resting (h : Holds cb s r log) (hs : s ≠ .opened) : Resting cb log := by
  have htold := h.told
  simp only [hs] at htold
  exact htold

/-- A state in which nothing is negotiated. -/
def State.rests : State → Bool
  | .reqsent | .ackrcvd | .acksent | .opened => false
  | _ => true

theorem Resting.holds (h : Resting cb log) (hs : s.rests = true) : Holds cb s r log := by
  cases s
  case reqsent | ackrcvd | acksent | opened => cases hs
  case initial | starting | closed | stopped | closing | stopping => exact ⟨by simp, by simp, by simp, by simpa [Resting] using h⟩

/-- The log agrees with the state of the automaton. -/
def Layer.Agrees (cb : Callbacks σ) (m : Layer σ) : Prop := Holds cb m.fsm.state m.fsm.reqid m.log

theorem Layer.Agrees.emit (h : m.Agrees cb) (he : e.Quiet := by exact ⟨rfl, rfl, rfl, rfl⟩) : (m.emit e).Agrees cb := Holds.cons h he

theorem Resting.setState (h : Resting cb m.log) (hs : s.rests = true) : (m.setState s).Agrees cb := Resting.holds h hs

/-! ## Calls -/

theorem Layer.log_call_up (hup : cb.up.isSome) : (m.call .up cb.up).log = .up :: m.log := by
  obtain ⟨f, hf⟩ := Option.isSome_iff_exists.1 hup
  rw [hf]
  rfl

theorem Layer.log_call_down (hdown : cb.down.isSome) : (m.call .down cb.down).log = .down :: m.log := by
  obtain ⟨f, hf⟩ := Option.isSome_iff_exists.1 hdown
  rw [hf]
  rfl

@[simp] theorem Layer.fsm_call (c : Option (Fsm → σ → σ)) : (m.call e c).fsm = m.fsm := by cases c <;> rfl

theorem Layer.log_call (m : Layer σ) (e : Entry) (c : Option (Fsm → σ → σ)) :
    (m.call e c).log = m.log ∨ (m.call e c).log = e :: m.log := by
  cases c
  · exact .inl rfl
  · exact .inr rfl

theorem Layer.Agrees.call (h : m.Agrees cb) (c : Option (Fsm → σ → σ)) (he : e.Quiet := by exact ⟨rfl, rfl, rfl, rfl⟩) :
    (m.call e c).Agrees cb := by
  unfold Layer.Agrees
  rw [fsm_call]
  rcases m.log_call e c with hlog | hlog <;> rw [hlog]
  · exact h
  · exact Holds.cons h he

/-- After `down` the other layers know that the automaton is not opened. -/
theorem CallsAgree.call_down {opened : Prop} (h : CallsAgree cb opened m.log) (hs : opened) :
    Resting cb (m.call .down cb.down).log := by
  intro hup hdown
  obtain ⟨halt, hhead⟩ := h hup hdown
  obtain ⟨rest, hrest⟩ := List.head?_eq_some_iff.1 (hhead.2 hs)
  have hcalls : calls (m.call .down cb.down).log = .down :: .up :: rest := by
    rw [Layer.log_call_down hdown, ← hrest]
    rfl
  rw [hrest] at halt
  rw [hcalls]
  exact ⟨⟨halt.chain.cons_cons (by simp), by simpa using halt.first⟩, by simp⟩

/-- After `up` they know that it is. -/
theorem Resting.call_up (h : Resting cb m.log) : CallsAgree cb True (m.call .up cb.up).log := by
  intro hup hdown
  obtain ⟨halt, hhead⟩ := h hup hdown
  have hcalls : calls (m.call .up cb.up).log = .up :: calls m.log := by
    rw [Layer.log_call_up hup]
    rfl
  rw [hcalls]
  refine ⟨?_, by simp⟩
  cases hrest : calls m.log with
  | nil => exact ⟨.singleton _, by simp⟩
  | cons c rest =>
    rw [hrest] at halt hhead
    refine ⟨halt.chain.cons_cons ?_, by simpa using halt.first⟩
    rintro rfl
    exact hhead.1 rfl

theorem Resting.opened (h : Resting cb m.log) (hrequest : m.log.findSome? requestId = some r) (hacked : RequestAcked m.log)
    (hpeer : PeerAcked m.log) : Holds cb .opened r (m.call .up cb.up).log := by
  have htold := h.call_up
  rcases m.log_call .up cb.up with hlog | hlog <;> rw [hlog] at htold ⊢
  · exact ⟨fun _ => hrequest, fun _ => hacked, fun _ => hpeer, by simpa using htold⟩
  · refine ⟨fun _ => ?_, fun _ => hacked.cons rfl, fun _ => hpeer.cons rfl rfl, by simpa using htold⟩
    exact hrequest

/-! ## Sending -/

@[simp] theorem Layer.fsm_inform (c : Option (Fsm → σ → σ)) : (m.inform c).fsm = m.fsm := by cases c <;> rfl

@[simp] theorem Layer.log_inform (c : Option (Fsm → σ → σ)) : (m.inform c).log = m.log := by cases c <;> rfl

theorem prepareRequest_spec (retransmit : Bool) :
    (prepareRequest cb m retransmit).fsm.state = m.fsm.state ∧ (prepareRequest cb m retransmit).log = m.log := by
  unfold prepareRequest
  cases retransmit <;> simp only [Layer.setRetransmits, Layer.nextReqid, Bool.false_eq_true, if_true, if_false] <;> split <;> simp

/-- What `fsm_sconfreq` adds to the log. -/
theorem fsmSconfreq_spec (cb : Callbacks σ) (m : Layer σ) (retransmit : Bool) : (fsmSconfreq cb m retransmit).fsm.state = m.fsm.state ∧
    ∃ time data, (fsmSconfreq cb m retransmit).log =
      .timeout time :: .sent .confreq (fsmSconfreq cb m retransmit).fsm.reqid data :: m.log := by
  obtain ⟨hstate, hlog⟩ := prepareRequest_spec retransmit
  refine ⟨hstate, ?_⟩
  rw [← hlog]
  exact ⟨_, _, rfl⟩

theorem Resting.sconfreq (h : Resting cb m.log) (retransmit : Bool) :
    ((fsmSconfreq cb m retransmit).setState .reqsent).Agrees cb := by
  obtain ⟨-, time, data, hlog⟩ := fsmSconfreq_spec cb m retransmit
  have hrests : Resting cb (fsmSconfreq cb m retransmit).log := by
    rw [hlog]
    exact (h.cons rfl).cons rfl
  have hrequest : (fsmSconfreq cb m retransmit).log.findSome? requestId = some (fsmSconfreq cb m retransmit).fsm.reqid := by
    rfl
  exact ⟨fun _ => hrequest, by simp [Layer.setState], by simp [Layer.setState], by simpa [Layer.setState, Resting] using hrests⟩

section

variable (h : m.Agrees cb)

include h

/-- A new request when no request has been acknowledged. -/
theorem Layer.Agrees.sconfreq (hs : m.fsm.state = .reqsent ∨ m.fsm.state = .acksent) (retransmit : Bool) :
    (fsmSconfreq cb m retransmit).Agrees cb := by
  obtain ⟨hstate, time, data, hlog⟩ := fsmSconfreq_spec cb m retransmit
  have hne : m.fsm.state ≠ .opened := by rcases hs with hs | hs <;> simp [hs]
  have hne' : m.fsm.state ≠ .ackrcvd := by rcases hs with hs | hs <;> simp [hs]
  refine ⟨fun _ => ?_, by simp [hstate, hne, hne'], fun hpeer => ?_, ?_⟩
  · rfl
  · rw [hstate] at hpeer
    rw [hlog]
    exact ((h.peer hpeer).cons rfl rfl).cons rfl rfl
  · rw [hstate, hlog]
    exact (h.told.cons rfl).cons rfl

theorem renegotiate_agrees (hs : m.fsm.state = .opened) : (renegotiate cb m).Agrees cb :=
  (h.told.call_down hs).sconfreq false

/-! ## The events -/

theorem Layer.Agrees.resting (hs : m.fsm.state ≠ .opened := by simp [*]) : Resting cb m.log := Holds.resting h hs

theorem fsmLowerup_agrees : (fsmLowerup cb m).Agrees cb := by
  unfold fsmLowerup
  split <;> rename_i hs
  · exact h.resting.setState rfl
  · have hrests := h.resting
    split
    · exact hrests.setState rfl
    · exact hrests.sconfreq false
  · exact h

theorem fsmLowerdown_agrees : (fsmLowerdown cb m).Agrees cb := by
  unfold fsmLowerdown
  cases hs : m.fsm.state <;> simp only
  case initial | starting => exact h
  case closed => exact h.resting.setState rfl
  case stopped => exact (h.resting.setState rfl).call _
  case closing | stopping | reqsent | ackrcvd | acksent => exact (h.resting.setState rfl).emit
  case opened => exact (h.told.call_down hs).setState rfl

theorem restart_agrees : (restart cb m).Agrees cb := by
  unfold restart
  split
  · exact fsmLowerup_agrees (fsmLowerdown_agrees h)
  · exact h

theorem fsmOpen_agrees : (fsmOpen cb m).Agrees cb := by
  unfold fsmOpen
  cases hs : m.fsm.state <;> simp only
  case initial => exact (h.resting.setState rfl).call _
  case closed =>
    have hrests := h.resting
    split
    · exact hrests.setState rfl
    · exact hrests.sconfreq false
  case closing => exact restart_agrees (h.resting.setState rfl)
  case stopped | opened => exact restart_agrees h
  case starting | stopping | reqsent | ackrcvd | acksent => exact h

theorem terminateLayer_agrees {next : State} (hnext : next.rests = true) : (terminateLayer cb m next).Agrees cb := by
  unfold terminateLayer
  have hrests : Resting cb (if m.fsm.state ≠ .opened then m.emit .untimeout else m.call .down cb.down).log := by
    split
    · rename_i hs
      exact (h.resting hs).cons rfl
    · rename_i hs
      exact h.told.call_down (not_not.1 hs)
  generalize (if m.fsm.state ≠ .opened then m.emit .untimeout else m.call .down cb.down) = m' at hrests
  have hsent : Resting cb (sendTermreq cb (m'.setRetransmits m'.fsm.options.maxtermtransmits)).log := hrests.cons rfl
  simp only
  split
  · refine (hsent.setState ?_).call _
    split <;> rfl
  · exact (hsent.cons rfl).setState hnext

theorem closeLayer_agrees : (closeLayer cb m).Agrees cb := by
  unfold closeLayer
  cases hs : m.fsm.state <;> simp only
  case starting | stopped | stopping => exact h.resting.setState rfl
  case reqsent | ackrcvd | acksent | opened => exact terminateLayer_agrees h rfl
  case initial | closed | closing => exact h

theorem fsmTimeout_agrees : (fsmTimeout cb m).Agrees cb := by
  unfold fsmTimeout
  have hterm (hs : m.fsm.state.rests = true) : ((sendTermreq cb m).emit (.timeout m.fsm.options.timeouttime)).Agrees cb := by
    have hne : m.fsm.state ≠ .opened := fun ho => by simp [ho, State.rests] at hs
    exact (((h.resting hne).cons rfl).cons rfl).holds hs
  have hretry (hs : m.fsm.state = .reqsent ∨ m.fsm.state = .ackrcvd ∨ m.fsm.state = .acksent) :
      (if (fsmSconfreq cb (m.call .retransmit cb.retransmit) true).fsm.state = .ackrcvd then
        (fsmSconfreq cb (m.call .retransmit cb.retransmit) true).setState .reqsent
      else fsmSconfreq cb (m.call .retransmit cb.retransmit) true).Agrees cb := by
    have h' := h.call (e := .retransmit) cb.retransmit
    have hne : (m.call .retransmit cb.retransmit).fsm.state ≠ .opened := by
      rcases hs with hs | hs | hs <;> simp [hs]
    rw [(fsmSconfreq_spec cb _ true).1]
    split
    · exact (h'.resting hne).sconfreq true
    · rename_i hack
      refine h'.sconfreq ?_ true
      rw [fsm_call] at hack ⊢
      tauto
  cases hs : m.fsm.state <;> simp only
  case closing | stopping =>
    split
    · exact (h.resting.setState rfl).call _
    · exact hterm (by simp [hs, State.rests])
  case reqsent | ackrcvd | acksent =>
    split
    · have hstopped : (m.setState .stopped).Agrees cb := h.resting.setState rfl
      split
      · exact hstopped
      · exact hstopped.call _
    · exact hretry (by simp [hs])
  case initial | starting | closed | stopped | opened => exact h

end

/-- An automaton that has to reply to a Configure-Request. -/
structure Layer.Asked (cb : Callbacks σ) (m : Layer σ) (id : UInt8) : Prop where
  negotiates : m.fsm.state = .reqsent ∨ m.fsm.state = .ackrcvd ∨ m.fsm.state = .acksent
  request : m.log.findSome? requestId = some m.fsm.reqid
  acked : m.fsm.state = .ackrcvd → RequestAcked m.log
  asked : m.log.findSome? peerRequestId = some id
  rests : Resting cb m.log

/-- The reply leaves the negotiation as it is. -/
theorem Layer.Asked.reply {id : UInt8} (h : m.Asked cb id) (user : σ) (reply : Reply) (data : Bytes) :
    (fsmSdata cb { m with user } reply.code id data).Asked cb id where
  negotiates := h.negotiates
  request := by cases reply <;> exact h.request
  acked hs := (h.acked hs).cons (by cases reply <;> rfl)
  asked := h.asked
  rests := h.rests.cons (by cases reply <;> rfl)

theorem replyToRequest_agrees {id : UInt8} (h : m.Asked cb id) (data : Bytes) : (replyToRequest cb m id data).Agrees cb := by
  unfold replyToRequest
  obtain ⟨reply, options, user⟩ := checkRequest cb m data
  simp only
  have hsent := h.reply user reply options
  have hpeer (hack : reply = .ack) : PeerAcked (fsmSdata cb { m with user } reply.code id options).log := by
    subst hack
    exact ⟨id, _, h.asked, rfl⟩
  generalize fsmSdata cb { m with user } reply.code id options = m' at hsent hpeer
  have hrefused : (if m'.fsm.state ≠ .ackrcvd then m'.setState .reqsent else m').Agrees cb := by
    split
    · exact ⟨fun _ => hsent.request, by simp [Layer.setState], by simp [Layer.setState],
        by simpa [Layer.setState, Resting] using hsent.rests⟩
    · rename_i hs
      have hs' := not_not.1 hs
      exact ⟨fun _ => hsent.request, fun _ => hsent.acked hs', by simp [hs'], by simpa [hs', Resting] using hsent.rests⟩
  cases reply with
  | ack =>
    have haccepted : (if m'.fsm.state = .ackrcvd then ((m'.emit .untimeout).setState .opened).call .up cb.up
        else m'.setState .acksent).Agrees cb := by
      split
      · rename_i hs
        have hopened := Resting.opened (m := (m'.emit .untimeout).setState .opened) (hsent.rests.cons rfl) hsent.request
          ((hsent.acked hs).cons rfl) ((hpeer rfl).cons rfl rfl)
        unfold Layer.Agrees
        rw [fsm_call]
        exact hopened
      · exact ⟨fun _ => hsent.request, by simp [Layer.setState], fun _ => hpeer rfl, by simpa [Layer.setState, Resting] using hsent.rests⟩
    exact haccepted
  | nak => exact hrefused
  | rej => exact hrefused

/-- A new request before the reply. -/
theorem Resting.asked {id : UInt8} (h : Resting cb m.log) (hasked : m.log.findSome? peerRequestId = some id) :
    ((fsmSconfreq cb m false).setState .reqsent).Asked cb id := by
  obtain ⟨-, time, data, hlog⟩ := fsmSconfreq_spec cb m false
  have hagrees := h.sconfreq false
  refine ⟨.inl rfl, hagrees.request (.inl rfl), by simp [Layer.setState], ?_, hagrees.resting (by simp [Layer.setState])⟩
  simp only [Layer.setState, hlog]
  exact hasked

theorem fsmRconfreq_agrees {id : UInt8} {data : Bytes} (h : Holds cb m.fsm.state m.fsm.reqid log)
    (hup : m.fsm.state ≠ .initial ∧ m.fsm.state ≠ .starting) (hlog : m.log = .received 1 id data :: log) :
    (fsmRconfreq cb m id data).Agrees cb := by
  have hasked : m.log.findSome? peerRequestId = some id := by
    rw [hlog]
    rfl
  have htold : CallsAgree cb (m.fsm.state = .opened) m.log := by
    rw [hlog]
    exact h.told.cons rfl
  have hrests (hs : m.fsm.state ≠ .opened) : Resting cb m.log := by
    rw [hlog]
    exact (h.resting hs).cons rfl
  have hnegotiates (hs : m.fsm.state = .reqsent ∨ m.fsm.state = .ackrcvd ∨ m.fsm.state = .acksent) : m.Asked cb id := by
    refine ⟨hs, ?_, fun hack => ?_, hasked, hrests ?_⟩
    · rw [hlog]
      exact h.request (by tauto)
    · rw [hlog]
      exact (h.acked (.inl hack)).cons rfl
    · rcases hs with hs | hs | hs <;> simp [hs]
  have hagrees (hs : m.fsm.state.rests = true) : m.Agrees cb := by
    have hne : m.fsm.state ≠ .opened := fun ho => by simp [ho, State.rests] at hs
    exact (hrests hne).holds hs
  unfold fsmRconfreq
  cases hs : m.fsm.state <;> simp only
  case closed => exact (hagrees (by simp [hs, State.rests])).emit
  case closing | stopping => exact hagrees (by simp [hs, State.rests])
  case opened =>
    refine replyToRequest_agrees ((htold.call_down hs).asked ?_) data
    rcases m.log_call .down cb.down with hcall | hcall <;> rw [hcall]
    · exact hasked
    · exact hasked
  case stopped => exact replyToRequest_agrees ((hrests (by simp [hs])).asked hasked) data
  case reqsent | ackrcvd | acksent => exact replyToRequest_agrees (hnegotiates (by simp [hs])) data
  case initial => exact absurd hs hup.1
  case starting => exact absurd hs hup.2

theorem takeAck_agrees {id : UInt8} {data : Bytes} (h : Holds cb m.fsm.state m.fsm.reqid log) (hid : id = m.fsm.reqid)
    (hlog : m.log = .accepted id data :: log) : (takeAck cb m id).Agrees cb := by
  have hagrees : m.Agrees cb := by
    unfold Layer.Agrees
    rw [hlog]
    exact h.cons ⟨rfl, rfl, rfl, rfl⟩
  have hacked (hs : m.fsm.state = .reqsent ∨ m.fsm.state = .acksent) : RequestAcked m.log := by
    rw [hlog]
    refine ⟨id, data, ?_, by simp [sinceRequest, requestId]⟩
    rw [hid]
    exact h.request (by tauto)
  unfold takeAck
  cases hs : m.fsm.state <;> simp only
  case closed | stopped => exact hagrees.emit
  case reqsent =>
    exact ⟨fun _ => hagrees.request (.inl hs), fun _ => hacked (.inl hs), by simp [Layer.setState, Layer.setRetransmits],
      by simpa [Layer.setState, Layer.setRetransmits, Resting] using hagrees.resting⟩
  case ackrcvd => exact hagrees.resting.cons (e := .untimeout) rfl |>.sconfreq (m := m.emit .untimeout) false
  case acksent =>
    unfold Layer.Agrees
    rw [fsm_call]
    exact Resting.opened (m := ((m.emit .untimeout).setState .opened).setRetransmits _)
      (hagrees.resting.cons rfl) (hagrees.request (by simp [hs])) ((hacked (.inr hs)).cons rfl)
      ((hagrees.peer (.inl hs)).cons rfl rfl)
  case opened => exact renegotiate_agrees hagrees hs
  case initial | starting | closing | stopping => exact hagrees

section

variable (h : m.Agrees cb)

include h

theorem fsmRconfack_agrees (id : UInt8) (data : Bytes) : (fsmRconfack cb m id data).Agrees cb := by
  unfold fsmRconfack
  split
  · exact h
  · rename_i hid
    push Not at hid
    simp only
    split
    · exact h
    · exact takeAck_agrees h hid.1 rfl

theorem takeNakRej_agrees (ret : Int) (id : UInt8) : (takeNakRej cb m ret id).Agrees cb := by
  unfold takeNakRej
  cases hs : m.fsm.state <;> simp only
  case closed | stopped => exact h.emit
  case reqsent | acksent =>
    split
    · exact Resting.setState (m := m.emit .untimeout) (h.resting.cons rfl) rfl
    · exact h.emit.sconfreq (by simp [Layer.emit, hs]) false
  case ackrcvd => exact Resting.sconfreq (m := m.emit .untimeout) (h.resting.cons rfl) false
  case opened => exact renegotiate_agrees h hs
  case initial | starting | closing | stopping => exact h

theorem fsmRconfnakrej_agrees (isNak : Bool) (id : UInt8) (data : Bytes) :
    (fsmRconfnakrej cb m isNak id data).Agrees cb := by
  unfold fsmRconfnakrej
  split
  · exact h
  · generalize (if isNak then m.fsm.rnakloops + 1 else 0) = rnakloops
    simp only
    split
    · exact h
    · refine takeNakRej_agrees ?_ _ id
      exact h

theorem fsmRtermreq_agrees (id : UInt8) : (fsmRtermreq cb m id).Agrees cb := by
  refine Layer.Agrees.emit ?_
  cases hs : m.fsm.state <;> simp only
  case ackrcvd | acksent => exact Holds.reqsent h (by simp [hs])
  case opened =>
    have hrests : Resting cb (((m.setRetransmits 0).setState .stopping).call .down cb.down).log :=
      CallsAgree.call_down (m := (m.setRetransmits 0).setState .stopping) h.told hs
    refine Layer.Agrees.emit ?_
    unfold Layer.Agrees
    rw [fsm_call]
    exact hrests.holds rfl
  all_goals exact h

theorem fsmRtermack_agrees : (fsmRtermack cb m).Agrees cb := by
  unfold fsmRtermack
  cases hs : m.fsm.state <;> simp only
  case closing | stopping =>
    have hrests : Resting cb (m.emit .untimeout).log := h.resting.cons rfl
    exact (hrests.setState rfl).call _
  case ackrcvd => exact Holds.reqsent h (by simp [hs])
  case opened => exact renegotiate_agrees h hs
  all_goals exact h

theorem fsmRcoderej_agrees (data : Bytes) : (fsmRcoderej m data).Agrees cb := by
  unfold fsmRcoderej
  split
  · exact h
  · split
    · rename_i hs
      exact Holds.reqsent h (.inl hs)
    · exact h

theorem unknownCode_agrees (packet : Bytes) (code id : UInt8) (data : Bytes) :
    (unknownCode cb m packet code id data).Agrees cb := by
  unfold unknownCode
  simp only
  split
  · exact h
  · exact Holds.cons h ⟨rfl, rfl, rfl, rfl⟩

/-- A packet is written to the log before it is handled. -/
theorem dispatch_agrees (hup : m.fsm.state ≠ .initial ∧ m.fsm.state ≠ .starting) (packet : Bytes) (code id : UInt8)
    (data : Bytes) : (dispatch cb (m.emit (.received code id data)) packet code id data).Agrees cb := by
  by_cases hcode : code = 1
  · subst hcode
    exact fsmRconfreq_agrees h hup rfl
  · have h' := h.emit (e := received code id data) ⟨rfl, by simp [peerRequestId, hcode], rfl, rfl⟩
    unfold dispatch
    split
    · exact absurd rfl hcode
    · exact fsmRconfack_agrees h' id data
    · exact fsmRconfnakrej_agrees h' true id data
    · exact fsmRconfnakrej_agrees h' false id data
    · exact fsmRtermreq_agrees h' id
    · exact fsmRtermack_agrees h'
    · exact fsmRcoderej_agrees h' data
    · exact unknownCode_agrees h' packet code id data

theorem fsmInput_agrees (packet : Bytes) : (fsmInput cb m packet).Agrees cb := by
  unfold fsmInput
  split
  · rename_i code id hi lo rest
    simp only
    split
    · exact h
    split
    · exact h
    split
    · rename_i hs
      have hs' : m.fsm.state = .initial ∨ m.fsm.state = .starting := hs
      have hrests : m.fsm.state.rests = true := by rcases hs' with hs' | hs' <;> simp [hs', State.rests]
      have hne : m.fsm.state ≠ .opened := by rcases hs' with hs' | hs' <;> simp [hs']
      exact ((h.resting hne).cons rfl).holds hrests
    · rename_i hs
      exact dispatch_agrees h (not_or.1 hs) _ code id _
  · exact h

theorem fsmProtreject_agrees : (fsmProtreject cb m).Agrees cb := by
  unfold fsmProtreject
  cases hs : m.fsm.state <;> simp only
  case closing | stopping | reqsent | ackrcvd | acksent =>
    have hrests : Resting cb (m.emit .untimeout).log := h.resting.cons rfl
    exact (hrests.setState rfl).call _
  case closed | stopped => exact (h.resting.setState rfl).call _
  case opened => exact terminateLayer_agrees h rfl
  case initial | starting => exact h

/-! ## Runs -/

theorem step_agrees (event : Event) : (step cb m event).Agrees cb := by
  cases event with
  | lowerup => exact fsmLowerup_agrees h
  | lowerdown => exact fsmLowerdown_agrees h
  | «open» => exact fsmOpen_agrees h
  | close reason => exact closeLayer_agrees (m := { m with fsm := { m.fsm with termReason := reason } }) h
  | timeout => exact fsmTimeout_agrees h
  | input packet => exact fsmInput_agrees h packet
  | protreject => exact fsmProtreject_agrees h
  | options options => exact h

theorem runEvents_agrees (events : List Event) : (runEvents cb m events).Agrees cb := by
  induction events generalizing m with
  | nil => exact h
  | cons event events ih => exact ih (step_agrees h event)

end

theorem fsmInit_agrees (cb : Callbacks σ) (fsm : Fsm) (options : Options) (user : σ) : (fsmInit fsm options user).Agrees cb := by
  have hrests : Resting cb [] := fun _ _ => ⟨⟨.nil, by simp [calls]⟩, by simp [calls]⟩
  exact hrests.holds rfl

/-- In every run the automaton is opened only when both sides have acknowledged the last request of the other, and the callbacks `up` and
`down`, if the protocol has them, are called in turn, `up` last exactly while the automaton is opened. -/
theorem opened_agreed (cb : Callbacks σ) (fsm : Fsm) (options : Options) (user : σ) (events : List Event) :
    ((runEvents cb (fsmInit fsm options user) events).fsm.state = .opened →
      RequestAcked (runEvents cb (fsmInit fsm options user) events).log ∧
      PeerAcked (runEvents cb (fsmInit fsm options user) events).log) ∧
    (cb.up.isSome → cb.down.isSome → Alternate (calls (runEvents cb (fsmInit fsm options user) events).log) ∧
      ((calls (runEvents cb (fsmInit fsm options user) events).log).head? = some .up ↔
        (runEvents cb (fsmInit fsm options user) events).fsm.state = .opened)) := by
  have h := runEvents_agrees (fsmInit_agrees cb fsm options user) events
  exact ⟨fun hs => ⟨h.acked (.inr hs), h.peer (.inr hs)⟩, h.told⟩

/-- A protocol without options. -/
def plainCallbacks : Callbacks Unit where
  resetci := none
  cilen := none
  addci := none
  ackci := none
  nakci := none
  rejci := none
  reqci := none
  up := some fun _ _ => ()
  down := some fun _ _ => ()
  starting := none
  finished := none
  retransmit := none
  extcode := none
  peerMru _ := 1500

def defaultOptions : Options := ⟨false, false, false, 3, 10, 2, 5⟩

def plainFsm : Fsm := ⟨.initial, defaultOptions, 0, 0, false, 0, 0, 0, []⟩

/-- The peer requests first, and then acknowledges the request with id 1. -/
def plainRun : Layer Unit :=
  runEvents plainCallbacks (fsmInit plainFsm defaultOptions ()) [.open, .lowerup, .input [1, 5, 0, 4], .input [2, 1, 0, 4]]

/-- The run opens the automaton. -/
theorem opened_agreed_plain : plainRun.fsm.state = .opened ∧ RequestAcked plainRun.log ∧ PeerAcked plainRun.log ∧
    Alternate (calls plainRun.log) := by
  have hs : plainRun.fsm.state = .opened := by decide
  obtain ⟨hacked, hcalls⟩ := opened_agreed plainCallbacks plainFsm defaultOptions () [.open, .lowerup, .input [1, 5, 0, 4], .input [2, 1, 0, 4]]
  exact ⟨hs, (hacked hs).1, (hacked hs).2, (hcalls rfl rfl).1⟩

end Osp.Pppd
