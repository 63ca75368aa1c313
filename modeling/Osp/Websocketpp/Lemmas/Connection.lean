import Osp.Websocketpp.Connection

/-!
# What a call can do to a connection

The functions of a connection change its state, its send queue and what is recorded of them in a few ways only. `Steps` lists them,
and `Call.steps` shows that every call is made of such steps. What a whole run keeps is proved over them.
-/

namespace Osp.Websocketpp

open Osp.Lib

variable {P : Type} {cfg : Config P}

/-- What the steps of a connection are about: the state, what is recorded of it, and what was pushed. -/
structure Connection.Record where
  state : SessionState
  states : List SessionState
  shutdowns : List TerminateStatus
  shutdownCount : Nat
  ended : List TerminateStatus
  controls : List (SessionState × Message)
  pushed : List Outgoing

def Connection.record (c : Connection P) : Record where
  state := c.state
  states := c.states
  shutdowns := c.shutdowns
  shutdownCount := c.shutdownCount
  ended := c.ended
  controls := c.controls
  pushed := c.queue.pushed

/-- The connection is taken to process frames, and is still connecting. -/
def Connection.Early (c : Connection P) : Prop := c.state = .connecting ∧ c.internalState = .processConnection

/-- The record stays as it is. -/
structure Connection.Same (c c' : Connection P) : Prop where
  record : c'.record = c.record
  early : c'.Early → c.Early

/-- The payload of a close frame has an invalid code or an invalid reason. -/
def InvalidClose (payload : Bytes) : Prop := (extractCode payload).2 ≠ none ∨ (extractReason payload).2 ≠ none

/-- A close frame with an invalid payload was processed while the connection was closing, and is answered. -/
def Connection.Reanswers (cfg : Config P) (c : Connection P) : Prop :=
  cfg.dropOnProtocolError = false ∧ ∃ msg, (SessionState.closing, msg) ∈ c.controls ∧ msg.opcode = .close ∧
    InvalidClose msg.payload

/-- The ways in which calls change a connection. `F` says whether a response with a failed extension negotiation may be read, and
`G` whether a close frame may be sent that the user has prepared. Nothing is said of a connection that processes frames before it
is open; there are none. -/
inductive Connection.Steps (cfg : Config P) (F G : Prop) : Connection P → Connection P → Prop
  | early {c c' : Connection P} : c.Early → Steps cfg F G c c'
  | same {c c' : Connection P} : c.Same c' → Steps cfg F G c c'
  | trans {c c' c'' : Connection P} : Steps cfg F G c c' → Steps cfg F G c' c'' → Steps cfg F G c c''
  | shut {c : Connection P} (tstat : TerminateStatus) : c.state ≠ .closed → Steps cfg F G c (c.shut tstat)
  | opened {c : Connection P} : c.state = .connecting → Steps cfg F G c (c.setState .open)
  | reopened {c c' : Connection P} {tstat : TerminateStatus} : F → c.state = .connecting → Steps cfg F G (c.shut tstat) c' →
    Steps cfg F G c (c'.setState .open)
  | pushed {c : Connection P} {msg : Outgoing} : c.state = .open → (msg.opcode = .close → G) →
    Steps cfg F G c { c with queue := c.queue.push msg }
  | closing {c : Connection P} {msg : Outgoing} : c.state = .open ∨ c.state = .closing ∧ c.Reanswers cfg →
    Steps cfg F G c { c.setState .closing with queue := c.queue.push msg }
  | control {c : Connection P} (msg : Message) : Steps cfg F G c { c with controls := (c.state, msg) :: c.controls }
  | dropped {c : Connection P} {tstat : TerminateStatus} {shutdowns : List TerminateStatus} :
    c.shutdowns = tstat :: shutdowns → Steps cfg F G c { c with shutdowns }
  | ended {c : Connection P} {tstat : TerminateStatus} {shutdowns : List TerminateStatus} :
    c.shutdowns = tstat :: shutdowns → Steps cfg F G c { c with shutdowns, ended := tstat :: c.ended }

namespace Connection

variable {F G : Prop} {yield : Point → Connection P → Connection P} {c c' d : Connection P}

namespace Same

theorem state (h : c.Same c') : c'.state = c.state := congrArg Record.state h.record

theorem controls (h : c.Same c') : c'.controls = c.controls := congrArg Record.controls h.record

theorem refl (c : Connection P) : c.Same c := ⟨rfl, id⟩

end Same

theorem Steps.refl (c : Connection P) : Steps cfg F G c c := .same (Same.refl c)

theorem Steps.after_same (h : Steps cfg F G c' d) (hsame : c.Same c') : Steps cfg F G c d := .trans (.same hsame) h

/-- What runs outside is made of steps too. -/
def Yields (cfg : Config P) (F G : Prop) (yield : Point → Connection P → Connection P) : Prop :=
  ∀ point c, Steps cfg F G c (yield point c)

theorem Steps.then_yield (h : Steps cfg F G c c') (hy : Yields cfg F G yield) (point : Point) :
    Steps cfg F G c (yield point c') := h.trans (hy point c')

/-- A connection that has left the first state does not come back to it. -/
theorem Steps.ne_connecting (h : Steps cfg F G c c') (hc : c.state ≠ .connecting) : c'.state ≠ .connecting := by
  induction h with
  | early hearly => exact absurd hearly.1 hc
  | same hsame => rwa [hsame.state]
  | trans _ _ ih₁ ih₂ => exact ih₂ (ih₁ hc)
  | shut | opened | reopened | closing => nofun
  | pushed | control | dropped | ended => exact hc

/-- No connection processes frames before it is open. -/
theorem Steps.not_early (h : Steps cfg F G c c') (hc : ¬ c.Early) : ¬ c'.Early := by
  induction h with
  | early hearly => exact absurd hearly hc
  | same hsame => exact fun hearly => hc (hsame.early hearly)
  | trans _ _ ih₁ ih₂ => exact ih₂ (ih₁ hc)
  | shut | opened | reopened | closing => exact fun hearly => nomatch hearly.1
  | pushed | control | dropped | ended => exact hc

/-! ## The end of a connection -/

/-- What `terminate` does, once the error and the state of an HTTP response are set. -/
theorem terminate_eq (yield : Point → Connection P → Connection P) (ec : Option ConnectionError) :
    ∃ d, c.Same d ∧ c.terminate yield ec = match d.state with
      | .connecting => yield .asyncShutdown (d.shut .failed)
      | .closed => d
      | .open | .closing => yield .asyncShutdown (d.shut .closed) := by
  refine ⟨_, ⟨?_, ?_⟩, rfl⟩
  · split <;> split <;> rfl
  · split <;> split <;> exact id

section

variable {ec : Option ConnectionError} {request : CompleteRequest} (hy : Yields cfg F G yield)

include hy

theorem steps_terminate : Steps cfg F G c (c.terminate yield ec) := by
  obtain ⟨d, hd, heq⟩ := terminate_eq yield ec
  have hsame : Steps cfg F G c d := .same hd
  rw [heq]
  cases hstate : d.state with
  | closed => exact hsame
  | connecting => exact (hsame.trans (.shut _ (by rw [hstate]; nofun))).then_yield hy _
  | «open» => exact (hsame.trans (.shut _ (by rw [hstate]; nofun))).then_yield hy _
  | closing => exact (hsame.trans (.shut _ (by rw [hstate]; nofun))).then_yield hy _

theorem steps_handleTerminate : Steps cfg F G c (c.handleTerminate yield) := by
  unfold handleTerminate
  split
  · exact .refl c
  · rename_i tstat shutdowns hpending
    refine Steps.then_yield ?_ hy _
    cases tstat with
    | failed =>
      simp only
      split
      · exact Steps.then_yield (.ended hpending) hy _
      · exact .dropped hpending
    | closed => exact Steps.then_yield (.ended hpending) hy _

/-! ## Writing frames -/

theorem steps_pushMessage {msg : Outgoing}
    (h : Steps cfg F G c { c' with queue := c'.queue.push msg }) : Steps cfg F G c (c'.pushMessage yield msg) := by
  unfold pushMessage
  simp only
  split
  · exact h.then_yield hy _
  · exact h

omit hy in
theorem same_prepared (prepare : P → Except ConnectionError Prepared × P) (c : Connection P) :
    c.Same (c.prepared prepare).2 := by
  unfold prepared
  split <;> exact ⟨rfl, id⟩

theorem steps_sendPreparedAs {op : Opcode} {prepare : P → Except ConnectionError Prepared × P}
    (hop : op = .close → ∀ p, ∃ ec, (prepare p).1 = .error ec) :
    Steps cfg F G c (c.sendPreparedAs yield op prepare).2 := by
  unfold sendPreparedAs
  split
  · exact .refl c
  · rename_i hopen
    have hsame := same_prepared prepare c
    split
    · rename_i hprepared
      rw [hprepared] at hsame
      exact .same hsame
    · rename_i msg c' hprepared
      rw [hprepared] at hsame
      have hstate : c'.state = .open := hsame.state.trans (by simpa using hopen)
      refine steps_pushMessage hy (Steps.trans (.same hsame) (.pushed hstate fun hclose => ?_))
      obtain ⟨p, hp⟩ : ∃ p, (prepare p).1 = .ok msg := by
        unfold prepared at hprepared
        split at hprepared
        · cases hprepared
        · exact ⟨_, congrArg Prod.fst hprepared⟩
      obtain ⟨ec, hec⟩ := hop hclose p
      rw [hec] at hp
      cases hp

theorem steps_sendPrepared {msg : Outgoing} (hG : msg.opcode = .close → G) : Steps cfg F G c (c.sendPrepared yield msg).2 := by
  unfold sendPrepared
  split
  · exact .refl c
  · rename_i hopen
    exact steps_pushMessage hy (.pushed (by simpa using hopen) hG)

theorem steps_sendCloseFrame (code : UInt16) (reason : Bytes) (ack terminal : Bool)
    (hstate : c.state = .open ∨ c.state = .closing ∧ c.Reanswers cfg) :
    Steps cfg F G c (c.sendCloseFrame cfg yield code reason ack terminal).2 := by
  unfold sendCloseFrame
  simp only
  have hsame := same_prepared (fun p => cfg.processor.prepareClose p (c.localClose cfg code reason ack).1
    (c.localClose cfg code reason ack).2) c
  split
  · rename_i hprepared
    rw [hprepared] at hsame
    exact .same hsame
  · rename_i msg c' hprepared
    rw [hprepared] at hsame
    have hstate' : c'.state = .open ∨ c'.state = .closing ∧ c'.Reanswers cfg := by
      unfold Reanswers at hstate ⊢
      rw [hsame.state, hsame.controls]
      exact hstate
    refine steps_pushMessage hy (Steps.trans (.same hsame) ?_)
    split
    · exact Steps.trans (.closing hstate') (.same ⟨rfl, id⟩)
    · exact .closing hstate'

theorem steps_close (code : UInt16) (reason : Bytes) : Steps cfg F G c (c.close cfg yield code reason).2 := by
  unfold close
  split
  · exact .refl c
  · rename_i hopen
    exact steps_sendCloseFrame hy _ _ _ _ (.inl (by simpa using hopen))

theorem steps_writeFrame : Steps cfg F G c (c.writeFrame yield) := by
  have hsame : Steps cfg F G c { c with queue := c.queue.writeFrame } :=
    .same ⟨by simp only [record, WriteQueue.pushed_writeFrame], id⟩
  unfold writeFrame
  simp only
  split
  · exact hsame.then_yield hy _
  · exact hsame

theorem steps_handleWriteFrame : Steps cfg F G c (c.handleWriteFrame yield ec) := by
  have hcleared : Steps cfg F G c { c with queue := c.queue.clearCurrent } := .same ⟨rfl, id⟩
  have hreleased : Steps cfg F G c { c with queue := c.queue.clearCurrent.release } :=
    .same ⟨by simp only [record, WriteQueue.pushed_release]; rfl, id⟩
  unfold handleWriteFrame
  simp only
  split
  · exact hcleared.trans (steps_terminate hy ..)
  · split
    · exact hcleared.trans (steps_terminate hy ..)
    · split
      · exact hreleased
      · exact hreleased.then_yield hy _

/-! ## Reading frames -/

theorem steps_invalidClose (ec : ConnectionError) (reason : Bytes)
    (hstate : c.state = .open ∨ c.state = .closing ∧ (cfg.dropOnProtocolError = false → c.Reanswers cfg)) :
    Steps cfg F G c (c.invalidClose cfg yield ec reason) := by
  unfold invalidClose
  cases hdrop : cfg.dropOnProtocolError with
  | true => exact steps_terminate hy ..
  | false =>
    refine steps_sendCloseFrame hy _ _ _ _ ?_
    rcases hstate with hopen | ⟨hclosing, hanswer⟩
    · exact .inl hopen
    · exact .inr ⟨hclosing, hanswer hdrop⟩

theorem steps_processClose {msg : Message} (hop : msg.opcode = .close)
    (hcontrol : (c.state, msg) ∈ c.controls) (hstate : c.state = .open ∨ c.state = .closing) :
    Steps cfg F G c (c.processClose cfg yield msg.payload) := by
  have hinvalid (h : InvalidClose msg.payload) (d : Connection P) (hd : c.Same d) :
      d.state = .open ∨ d.state = .closing ∧ (cfg.dropOnProtocolError = false → d.Reanswers cfg) := by
    rw [hd.state]
    rcases hstate with hopen | hclosing
    · exact .inl hopen
    · refine .inr ⟨hclosing, fun hdrop => ⟨hdrop, msg, ?_, hop, h⟩⟩
      rw [hd.controls, ← hclosing]
      exact hcontrol
  unfold processClose
  simp only
  split
  · rename_i ec hcode
    have hsame : c.Same { c with remoteCloseCode := (extractCode msg.payload).1 } := ⟨rfl, id⟩
    exact Steps.trans (.same hsame) (steps_invalidClose hy _ _ (hinvalid (.inl (by rw [hcode]; nofun)) _ hsame))
  · have hsame : c.Same { c with
        remoteCloseCode := (extractCode msg.payload).1
        remoteCloseReason := (extractReason msg.payload).1 } := ⟨rfl, id⟩
    split
    · rename_i ec hreason
      exact Steps.trans (.same hsame) (steps_invalidClose hy _ _ (hinvalid (.inr (by rw [hreason]; nofun)) _ hsame))
    · split
      · rename_i hopen
        exact Steps.trans (.same hsame) (steps_sendCloseFrame hy _ _ _ _ (.inl hopen))
      · split
        · split
          · refine (steps_terminate hy ..).after_same ⟨rfl, id⟩
          · exact .same ⟨rfl, id⟩
        · exact .same hsame

theorem steps_processControlFrame (msg : Message) (hc : c.state ≠ .connecting) :
    Steps cfg F G c (c.processControlFrame cfg yield msg) := by
  have hcontrol : Steps cfg F G c { c with controls := (c.state, msg) :: c.controls } := .control msg
  unfold processControlFrame
  simp only
  split
  · exact hcontrol
  · rename_i hclosed
    split
    · exact hcontrol
    · split
      · split
        · exact (hcontrol.then_yield hy _).trans (steps_sendPreparedAs hy (by nofun))
        · exact hcontrol.then_yield hy _
      · exact hcontrol.then_yield hy _
      · rename_i hop
        refine hcontrol.trans (steps_processClose hy hop List.mem_cons_self ?_)
        cases hstate : c.state with
        | connecting => exact absurd hstate hc
        | «open» => exact .inl rfl
        | closing => exact .inr rfl
        | closed => exact absurd hstate hclosed
      · exact hcontrol

theorem steps_deliver (msg : Message) (hc : c.state ≠ .connecting) : Steps cfg F G c (c.deliver cfg yield msg) := by
  unfold deliver
  split
  · exact steps_processControlFrame hy msg hc
  · split
    · exact .refl c
    · exact hy _ c

theorem steps_consumeFailed (ec : ProcessorError) : Steps cfg F G c (c.consumeFailed cfg yield ec) := by
  have hclose := steps_close (c := c) hy ec.toWs ec.message
  unfold consumeFailed
  split
  · exact steps_terminate hy ..
  · split
    · rename_i hresult
      rw [hresult] at hclose
      exact hclose.trans (steps_terminate hy ..)
    · rename_i hresult
      rw [hresult] at hclose
      exact hclose

theorem steps_readLoop (bytesTransferred n p : Nat) (hc : c.state ≠ .connecting) :
    Steps cfg F G c (c.readLoop cfg yield bytesTransferred n p).2 := by
  induction n generalizing p c with
  | zero => exact .refl c
  | succ n ih =>
    have hset (pr : P) : Steps cfg F G c { c with processor := some pr } := .same ⟨rfl, id⟩
    unfold readLoop
    split
    · exact .refl c
    · split
      · exact .refl c
      · split
        · exact (hset _).trans (steps_consumeFailed hy ..)
        · split
          · simp only
            split
            · exact (hset _).trans (ih _ hc)
            · rename_i pr _ _ _ _ msg _
              have hdeliver := (hset (cfg.processor.getMessage pr).2).trans (steps_deliver hy msg hc)
              exact hdeliver.trans (ih _ (hdeliver.ne_connecting hc))
          · exact (hset _).trans (ih _ hc)

theorem steps_readFailed (ec : ConnectionError) : Steps cfg F G c (c.readFailed cfg yield ec) := by
  unfold readFailed
  split
  · exact .refl c
  · split
    · exact steps_terminate hy ..
    · split
      · exact .refl c
      · exact steps_terminate hy ..

theorem steps_readFrame : Steps cfg F G c (c.readFrame yield) := by
  unfold readFrame
  split
  · exact hy ..
  · exact .refl c

theorem steps_handleReadFrame (bytesTransferred : Nat) : Steps cfg F G c (c.handleReadFrame cfg yield ec bytesTransferred) := by
  unfold handleReadFrame
  split
  · exact steps_readFailed hy ..
  · split
    · exact steps_readFailed hy ..
    · rename_i hinternal
      by_cases hc : c.state = .connecting
      · exact .early ⟨hc, by simpa using hinternal⟩
      · have hloop := steps_readLoop hy bytesTransferred (bytesTransferred + 1) 0 hc
        split
        · rename_i hresult
          rw [hresult] at hloop
          exact hloop.trans (steps_readFrame hy ..)
        · rename_i hresult
          rw [hresult] at hloop
          exact hloop

/-! ## The opening handshake -/

omit hy in
theorem connecting_of_handshakeError {expected : InternalState} {ec : Option ConnectionError}
    (h : c.handshakeError expected ec = some none) : ec = none ∧ c.state = .connecting := by
  unfold handshakeError at h
  split at h
  · split at h <;> cases h
  · split at h
    · exact ⟨rfl, by assumption⟩
    · cases h
    · cases h
    · cases h

omit hy in
/-- A connection that takes up another part of the handshake. -/
theorem steps_internalState {internalState : InternalState} (h : internalState ≠ .processConnection) :
    Steps cfg F G c { c with internalState } :=
  .same ⟨rfl, fun hearly => absurd hearly.2 h⟩

theorem steps_writeHttpResponse : Steps cfg F G c (c.writeHttpResponse yield ec) := by
  unfold writeHttpResponse
  split
  · exact .refl c
  · refine Steps.then_yield (.same ?_) hy _
    split <;> exact ⟨rfl, id⟩

theorem steps_writeHttpResponseError (ec : ConnectionError) : Steps cfg F G c (c.writeHttpResponseError yield ec) := by
  unfold writeHttpResponseError
  split
  · exact steps_terminate hy ..
  · exact (steps_internalState (by nofun)).trans (steps_writeHttpResponse hy ..)

omit hy in
theorem steps_initializeProcessor : Steps cfg F G c (c.initializeProcessor cfg request).2 := by
  unfold initializeProcessor
  split
  · exact .refl c
  · split
    · exact .same ⟨rfl, id⟩
    · split <;> exact .same ⟨rfl, id⟩

theorem steps_processHttpRequest : Steps cfg F G c (c.processHttpRequest cfg yield request).2 := by
  unfold processHttpRequest
  split
  · exact .same ⟨rfl, id⟩
  · split
    · exact (hy .httpHandler { c with isHttp := true }).after_same ⟨rfl, id⟩
    · exact .same ⟨rfl, id⟩

theorem steps_processHandshakeRequest (request : CompleteRequest) :
    Steps cfg F G c (c.processHandshakeRequest cfg yield request).2 := by
  have hyield := hy .validateHandler c
  unfold processHandshakeRequest
  split
  · exact steps_processHttpRequest hy ..
  · split
    · exact .same ⟨rfl, id⟩
    · split
      · exact .same ⟨rfl, id⟩
      · split
        · exact .same ⟨rfl, id⟩
        · simp only
          split
          · split <;> exact hyield.trans (.same ⟨rfl, id⟩)
          · refine hyield.trans ?_
            split <;> exact .same ⟨rfl, id⟩

theorem steps_readRequest : Steps cfg F G c (c.readRequest cfg yield request) := by
  have hinit : Steps cfg F G c (c.initializeProcessor cfg request).2 := steps_initializeProcessor
  unfold readRequest
  split
  · rename_i hresult
    rw [hresult] at hinit
    exact hinit.trans (steps_writeHttpResponseError hy ..)
  · rename_i d hresult
    rw [hresult] at hinit
    refine hinit.trans ?_
    split
    · exact (steps_writeHttpResponseError hy ..).after_same ⟨rfl, id⟩
    · have hset : Steps cfg F G d { d with buf := request.rest, internalState := .processHttpRequest } :=
        .same ⟨rfl, fun hearly => nomatch hearly.2⟩
      have hprocess := hset.trans (steps_processHandshakeRequest hy request)
      split
      rename_i ec d' hresult
      rw [hresult] at hprocess
      split
      · exact hprocess.trans (steps_writeHttpResponse hy ..)
      · exact hprocess

theorem steps_handleReadHandshake (outcome : RequestOutcome) : Steps cfg F G c (c.handleReadHandshake cfg yield ec outcome) := by
  unfold handleReadHandshake
  split
  · exact .refl c
  · exact steps_terminate hy ..
  · cases outcome with
    | oversized => exact steps_terminate hy ..
    | rejected statusCode =>
      exact (steps_writeHttpResponseError hy ..).after_same ⟨rfl, id⟩
    | overread => exact steps_terminate hy ..
    | incomplete => exact hy ..
    | complete request => exact steps_readRequest hy ..

omit hy in
/-- The connection takes up processing frames when it is opened. -/
theorem Steps.then_processConnection (h : Steps cfg F G c (c'.setState .open)) :
    Steps cfg F G c ({ c' with internalState := .processConnection }.setState .open) :=
  h.trans (.same ⟨rfl, fun hearly => nomatch hearly.1⟩)

theorem steps_handleWriteHttpResponse : Steps cfg F G c (c.handleWriteHttpResponse cfg yield ec) := by
  unfold handleWriteHttpResponse
  split
  · exact .refl c
  · exact steps_terminate hy ..
  · rename_i herror
    split
    · split
      · exact (steps_terminate hy ..).after_same ⟨rfl, id⟩
      · exact steps_terminate hy ..
    · have hopened : Steps cfg F G c ({ c with internalState := .processConnection }.setState .open) :=
        Steps.then_processConnection (.opened (connecting_of_handshakeError herror).2)
      exact (hopened.then_yield hy _).trans (steps_handleReadFrame hy ..)

theorem steps_sendHttpRequest : Steps cfg F G c (c.sendHttpRequest cfg yield) := by
  unfold sendHttpRequest
  split
  · exact .refl c
  · split
    · exact .refl c
    · exact hy ..

theorem steps_handleSendHttpRequest : Steps cfg F G c (c.handleSendHttpRequest yield ec) := by
  unfold handleSendHttpRequest
  split
  · exact .refl c
  · exact steps_terminate hy ..
  · exact (steps_internalState (by nofun)).then_yield hy _

theorem steps_handleReadHttpResponse (outcome : ResponseOutcome)
    (hF : ec = none → ∀ negotiation rest, outcome = .ready none (some negotiation) rest → F) :
    Steps cfg F G c (c.handleReadHttpResponse cfg yield ec outcome) := by
  unfold handleReadHttpResponse
  split
  · exact .refl c
  · exact steps_terminate hy ..
  · rename_i herror
    obtain ⟨hec, hconnecting⟩ := connecting_of_handshakeError herror
    split
    · exact steps_terminate hy ..
    · exact hy ..
    · exact steps_terminate hy ..
    · rename_i negotiation rest
      have hopened : Steps cfg F G c
          ((if negotiation.isSome then c.terminate yield (some .extensionNegFailed) else c).setState .open) := by
        cases negotiation with
        | none => exact .opened hconnecting
        | some negotiation =>
          -- the connection is shut, and opened all the same
          obtain ⟨d, hd, heq⟩ := terminate_eq yield (some .extensionNegFailed)
          have hstate := hd.state.trans hconnecting
          simp only [Option.isSome_some, if_true, heq, hstate]
          exact Steps.trans (.same hd) (.reopened (hF hec _ _ rfl) hstate (hy ..))
      exact (hopened.then_processConnection.then_yield hy .openHandler).trans
        ((steps_handleReadFrame hy ..).after_same ⟨rfl, id⟩)

theorem steps_handleTransportInit : Steps cfg F G c (c.handleTransportInit cfg yield ec) := by
  unfold handleTransportInit
  simp only
  generalize (if c.internalState ≠ .transportInit then some ConnectionError.invalidState else ec) = ecm
  split
  · exact steps_terminate hy ..
  · split
    · exact (steps_internalState (by nofun)).then_yield hy _
    · refine (steps_sendHttpRequest hy ..).after_same ⟨rfl, ?_⟩
      exact fun hearly => nomatch hearly.2

theorem steps_start : Steps cfg F G c (c.start yield) := by
  unfold start
  split
  · exact steps_terminate hy ..
  · exact (steps_internalState (by nofun)).then_yield hy _

theorem steps_sendHttpResponse : Steps cfg F G c (c.sendHttpResponse yield).2 := by
  unfold sendHttpResponse
  split
  · exact .refl c
  · show Steps cfg F G c (writeHttpResponse yield none _)
    exact (steps_writeHttpResponse hy ..).after_same ⟨rfl, id⟩

omit hy in
theorem steps_setStatus (statusCode : Nat) : Steps cfg F G c (c.setStatus statusCode) := by
  unfold setStatus
  split
  · exact .refl c
  · exact .same ⟨rfl, id⟩

theorem steps_handleTimeout (expired : ConnectionError) : Steps cfg F G c (c.handleTimeout yield expired ec) := by
  unfold handleTimeout
  split
  · exact .refl c
  · exact steps_terminate hy ..

theorem steps_handlePongTimeout (payload : Bytes) : Steps cfg F G c (c.handlePongTimeout yield payload ec) := by
  unfold handlePongTimeout
  split
  · exact .refl c
  · exact hy ..

end

end Connection

open Connection

/-! ## Calls -/

/-- A response is read whose handshake is valid and whose extension negotiation fails. -/
def Call.FailsNegotiation (call : Call) : Prop :=
  ∃ negotiation rest, call = .handleReadHttpResponse none (.ready none (some negotiation) rest)

/-- A close frame is sent that the user has prepared. -/
def Call.SendsClose (call : Call) : Prop := ∃ msg, call = .sendPrepared msg ∧ msg.opcode = .close

/-- Every call is made of steps. -/
theorem Call.steps {F G : Prop} {yield : Point → Connection P → Connection P} (hy : Yields cfg F G yield) (call : Call)
    (hF : call.FailsNegotiation → F) (hG : call.SendsClose → G) (c : Connection P) :
    Steps cfg F G c (call.body cfg yield c) := by
  cases call with
  | start => exact steps_start hy
  | send msg => exact steps_sendPreparedAs hy (fun hop p => cfg.processor.prepareDataFrame_control p msg (by rw [hop]; rfl))
  | sendPrepared msg => exact steps_sendPrepared hy (fun hop => hG ⟨msg, rfl, hop⟩)
  | ping payload => exact steps_sendPreparedAs hy (by nofun)
  | pong payload => exact steps_sendPreparedAs hy (by nofun)
  | close code reason => exact steps_close hy code reason
  | terminate ec => exact steps_terminate hy
  | setStatus statusCode => exact steps_setStatus statusCode
  | deferHttpResponse => exact .same ⟨rfl, id⟩
  | sendHttpResponse => exact steps_sendHttpResponse hy
  | pauseReading | resumeReading | interrupt | handleInterrupt => exact hy _ c
  | handleTransportInit ec => exact steps_handleTransportInit hy
  | handleReadHandshake ec outcome => exact steps_handleReadHandshake hy outcome
  | handleWriteHttpResponse ec => exact steps_handleWriteHttpResponse hy
  | handleSendHttpRequest ec => exact steps_handleSendHttpRequest hy
  | handleReadHttpResponse ec outcome =>
    exact steps_handleReadHttpResponse hy outcome (fun hec _ _ h => hF ⟨_, _, by rw [hec, h]⟩)
  | handleReadFrame ec bytes =>
    exact (steps_handleReadFrame hy ..).after_same ⟨rfl, id⟩
  | writeFrame => exact steps_writeFrame hy
  | handleWriteFrame ec => exact steps_handleWriteFrame hy
  | handleOpenHandshakeTimeout ec => exact steps_handleTimeout hy _
  | handleCloseHandshakeTimeout ec => exact steps_handleTimeout hy _
  | handlePongTimeout payload ec => exact steps_handlePongTimeout hy payload
  | handlePauseReading => exact .same ⟨rfl, id⟩
  | handleResumeReading => exact (steps_readFrame hy).after_same ⟨rfl, id⟩
  | handleTerminate => exact steps_handleTerminate hy

/-- Every run is made of steps. -/
theorem Connection.steps_after {F G : Prop} {outside : Point → Connection P → List Call} {calls : List Call}
    (houtside : ∀ point c, ∀ call ∈ outside point c, (call.FailsNegotiation → F) ∧ (call.SendsClose → G))
    (hcalls : ∀ call ∈ calls, (call.FailsNegotiation → F) ∧ (call.SendsClose → G)) (n : Nat) :
    Steps cfg F G .new (after cfg outside n calls) := by
  refine performAll_rel (fun c => .refl c) (fun _ _ _ => .trans) (fun yield hy call hcall c => ?_) houtside n hcalls _
  exact Call.steps (fun point d => (hy point { d with clock := d.clock + 1 }).after_same ⟨rfl, id⟩) call hcall.1 hcall.2 c

end Osp.Websocketpp
