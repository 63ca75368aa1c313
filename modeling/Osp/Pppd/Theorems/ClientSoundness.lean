import Osp.Pppd.EapClient
import Osp.Pppd.Lemmas.EapTls

/-!
# Soundness of the client

A client that has accepted a Start reports success only after the handshake is finished, as long as no Success comes in a state in which the
client does not authenticate. There it counts unless the client uses TLS, because `eap_client_active` is true in every state.
-/

namespace Osp.Pppd

open Osp.Lib Option List

variable {ε : Type} {env : Env ε} {c c' : Client ε}

/-- A client that does not authenticate. -/
def Client.Inactive (c : Client ε) : Prop := c.state = .initial ∨ c.state = .pending ∨ c.state = .closed ∨ c.state = .badAuth

/-- A Success in a state in which the client does not authenticate has no effect exactly when the client uses TLS. -/
theorem eapSuccess_inactive (h : c.Inactive) : eapSuccess c = c ↔ c.usingEaptls = true := by
  have hstate : c.state ≠ .open ∧ c.state ≠ .tlsRecvSuccess := by
    obtain hs | hs | hs | hs := h <;> simp [hs]
  have hactive : c.active = true := by
    obtain hs | hs | hs | hs := h <;> simp [Client.active, hs]
  have hlog : ((c.untimeout.setState .open).emit .succeeded).log ≠ c.log := by
    intro heq
    have hlength := congrArg List.length heq
    simp only [Client.emit, Client.setState, Client.untimeout] at hlength
    split at hlength <;> simp only [length_cons] at hlength <;> omega
  simp only [eapSuccess, hactive, hstate, ne_eq, not_false_eq_true, Bool.not_true, Bool.false_eq_true, and_false, if_false,
    and_true]
  cases c.usingEaptls with
  | true => simp
  | false =>
    simp only [Bool.false_eq_true, if_false, iff_false]
    exact fun heq => hlog (congrArg Client.log heq)

/-! ## The states of a client -/

/-- Success is reported after a Start only if the handshake is finished. -/
def FinishedFirst (log : List EapEntry) : Prop :=
  ∀ later earlier, log = later ++ .succeeded :: earlier → .start true ∈ earlier → handshakeFinished earlier = true

theorem FinishedFirst.cons {log : List EapEntry} (h : FinishedFirst log) {e : EapEntry} (he : e ≠ .succeeded := by simp) : FinishedFirst (e :: log) := by
  intro later earlier heq
  cases later with
  | nil => exact absurd (List.cons.inj heq).1 he
  | cons _ later => exact h later earlier (List.cons.inj heq).2

theorem FinishedFirst.succeeded {log : List EapEntry} (h : FinishedFirst log) (hlog : .start true ∈ log → handshakeFinished log = true) :
    FinishedFirst (.succeeded :: log) := by
  intro later earlier heq
  cases later with
  | nil => exact (List.cons.inj heq).2 ▸ hlog
  | cons _ later => exact h later earlier (List.cons.inj heq).2

/-- A session between two requests, when the client is not sending fragments. -/
structure Session.Listening (s : Session ε) : Prop extends s.Receivable where
  offset : s.offset = 0
  rtx : s.rtx.length ≤ 1496

/-- A session between two fragments. -/
structure Session.Fragmenting (s : Session ε) : Prop extends s.Sendable where
  frag : s.frag = true
  rtx : s.rtx.length ≤ 1496

/-- Data that was received but makes up no message is sent back. -/
theorem Session.Listening.sendable {s : Session ε} (h : s.Listening) : s.Sendable := by
  refine ⟨h.toSound, ?_⟩
  obtain hdata | ⟨data, hdata, -, hle⟩ := h.data
  · exact .inl hdata
  · exact .inr ⟨data, hdata, hle, h.offset ▸ Nat.zero_le _⟩

/-- What holds of a client between events. -/
def Client.StateOk (c : Client ε) : Prop :=
  match c.state with
  | .listen => .start true ∉ c.log
  | .tlsRecv => c.usingEaptls = true ∧ c.session.Has Session.Listening
  | .tlsRecvAck => c.usingEaptls = true ∧ c.session.Has Session.Fragmenting
  | .tlsRecvSuccess => handshakeFinished c.log = true
  | .open => .start true ∈ c.log → handshakeFinished c.log = true
  | .badAuth => True
  | _ => False

structure Client.Ok (c : Client ε) : Prop where
  log : FinishedFirst c.log
  state : c.StateOk

/-- An entry that neither reports success nor tells about the session. -/
def EapEntry.isNeutral : EapEntry → Bool
  | .succeeded | .start _ | .finished _ => false
  | _ => true

/-- An entry that is neutral leaves the client as it is. -/
theorem Client.Ok.emit (h : c.Ok) {e : EapEntry} (he : e.isNeutral = true) : (c.emit e).Ok := by
  have hne : e ≠ .succeeded := by
    rintro rfl
    cases he
  have hfinished : handshakeFinished (e :: c.log) = handshakeFinished c.log := by cases e <;> first | rfl | cases he
  have hstart : .start true ∈ e :: c.log ↔ .start true ∈ c.log := by
    refine ⟨fun hmem => ?_, mem_cons_of_mem _⟩
    obtain rfl | hmem := mem_cons.1 hmem
    · cases he
    · exact hmem
  refine ⟨h.log.cons hne, ?_⟩
  have hstate := h.state
  unfold Client.StateOk at hstate ⊢
  simp only [Client.emit, hfinished, hstart]
  exact hstate

/-- A response leaves the client as it is. -/
theorem Client.Ok.sendResponse (h : c.Ok) (id : UInt8) (body : Bytes) : (sendResponse c id body).Ok :=
  Client.Ok.emit (c := { c with id }) ⟨h.log, h.state⟩ rfl

theorem Client.Ok.untimeout (h : c.Ok) : c.untimeout.Ok := by
  unfold Client.untimeout
  split
  · exact h.emit rfl
  · exact h

theorem Client.Ok.finishClient (h : c.Ok) : (finishClient c).Ok := by
  unfold Osp.Pppd.finishClient
  split
  · exact (h.emit rfl).emit rfl
  · exact h

/-! ## TLS requests -/

variable {inp : Bytes} {len : Nat} {id : UInt8}

/-- A response with TLS data, for a session that has one to repeat or can send. -/
theorem eapTlsResponse_ok {ets : Session ε} (hlog : FinishedFirst c.log) (husing : c.usingEaptls = true)
    (hagain : id = c.id → ets.Fragmenting ∨ ets.Listening ∧ ets.frag = false) (hsend : id ≠ c.id → ets.Sendable) :
    ∃ c', eapTlsResponse env c ets id = some c' ∧ c'.Ok := by
  have hfinish : ∀ (ets' : Session ε) (packet : Bytes), ets'.Fragmenting ∨ ets'.Listening ∧ ets'.frag = false →
      ((sendResponse ({ c with session := .live ets' }.emit .used) id packet).setState
        (if ets'.frag then .tlsRecvAck else .tlsRecv)).Ok := by
    rintro ets' packet hets
    refine ⟨hlog.cons.cons, ?_⟩
    obtain hets | ⟨hets, hfrag⟩ := hets
    · rw [hets.frag]
      exact ⟨husing, hets⟩
    · rw [hfrag]
      exact ⟨husing, hets⟩
  by_cases hid : id = c.id
  · have hets := hagain hid
    have hrtx : ets.rtx.length ≤ 1496 := by
      obtain hets | ⟨hets, -⟩ := hets
      · exact hets.rtx
      · exact hets.rtx
    refine ⟨_, ?_, hfinish ets ets.rtx hets⟩
    simp only [eapTlsResponse, if_pos hid, bind_eq_bind, bind_some]
    rw [if_neg (by omega)]
  · obtain ⟨packet, ets', hpacket, hsent⟩ := eaptlsSend_defined env.tls (hsend hid)
    have hlength := hsent.length
    refine ⟨_, ?_, hfinish ets' packet ?_⟩
    · simp only [eapTlsResponse, if_neg hid, hpacket, bind_eq_bind, bind_some]
      rw [if_neg (by omega)]
    · have hrtx : ets'.rtx.length ≤ 1496 := hsent.rtx ▸ hlength
      cases hfrag : ets'.frag with
      | true => exact .inl ⟨hsent.more hfrag, hfrag, hrtx⟩
      | false =>
        obtain ⟨hidle, hoffset⟩ := hsent.whole hfrag
        exact .inr ⟨⟨hidle.receivable, hoffset, hrtx⟩, rfl⟩

/-- The sessions of the client are set up for packets that fit the output buffer. -/
def SmallClientMtu (env : Env ε) : Prop := ∀ name peer new, env.initClient name peer = some new → new.session.mtu ≤ 1490

/-- A request in the state `eapListen`. The id of a Start is not that of the last response, or the client repeats what it has not sent. -/
theorem tlsListen_ok (hmtu : SmallClientMtu env) (h : c.Ok) (hs : c.state = .listen) (hid : inp.headD 0 &&& 32 ≠ 0 → id ≠ c.id) :
    ∃ c', tlsListen env c inp id = some c' ∧ c'.Ok := by
  have hstart : .start true ∉ c.log := by
    have hstate := h.state
    simpa only [Client.StateOk, hs] using hstate
  unfold tlsListen
  split
  · rename_i hflags
    simp only [tlsAccept]
    split
    · refine ⟨_, rfl, h.log.cons.cons, ?_⟩
      simp only [Client.StateOk, eapSendNak, sendResponse, Client.emit, hs]
      simpa using hstart
    · rename_i new hnew
      have hsession : new.session.Sendable := ⟨⟨new.alertSent, new.alertRecv, hmtu _ _ _ hnew⟩, .inl ⟨new.data, new.datalen⟩⟩
      exact eapTlsResponse_ok (h.log.cons) rfl (fun heq => absurd heq (hid hflags)) fun _ => hsession
  · exact ⟨_, rfl, h.sendResponse _ _⟩

/-- A request in the state `eapTlsRecv`. -/
theorem tlsData_ok (h : c.Ok) (hs : c.state = .tlsRecv) (hlen : LongEnough inp len) :
    ∃ c', tlsData env c inp id len = some c' ∧ c'.Ok := by
  obtain ⟨husing, hsession⟩ : c.usingEaptls = true ∧ c.session.Has Session.Listening := by
    have hstate := h.state
    simpa only [Client.StateOk, hs] using hstate
  obtain ⟨ets, hets, hsession⟩ := hsession.live
  obtain ⟨status, ets', hreceive, hreceived⟩ := eaptlsReceive_defined env.tls hsession.toReceivable hlen
  have hlistening : ets'.Listening :=
    ⟨hreceived.toReceivable, hreceived.offset.trans hsession.offset, hreceived.rtx ▸ hsession.rtx⟩
  simp only [tlsData, hets, Pointer.deref, hreceive, bind_eq_bind, bind_some]
  split
  · exact ⟨_, rfl, h.log.cons.cons, husing, hlistening⟩
  · rename_i hfrag
    have hfrag : ets'.frag = false := by simpa using hfrag
    rw [if_neg (by simp [hreceived.alertRecv])]
    split
    · rename_i hfinished
      refine ⟨_, rfl, h.log.cons.cons.cons.cons, ?_⟩
      simp [Client.StateOk, Client.setState, eapTlsSendack, sendResponse, Client.emit, handshakeFinished, hfinished]
    · refine eapTlsResponse_ok (h.log.cons.cons) husing (fun _ => .inr ⟨hlistening, hfrag⟩) fun _ => ?_
      exact hlistening.sendable

/-! ## Runs -/

/-- What a request must not be, in this state of the client. -/
structure AllowedRequest (c : Client ε) (id typenum : UInt8) (inp : Bytes) (len : Nat) : Prop where
  /-- a name that is longer than the buffer -/
  name : typenum = 4 → (inp.headD 0).toNat ≤ len - 1 → len - 1 - (inp.headD 0).toNat ≤ 255
  /-- a Start with the id of the last response -/
  start : typenum = 13 → c.state = .listen → inp.headD 0 &&& 32 ≠ 0 → id ≠ c.id
  /-- a TLS packet that is too short for its header -/
  tls : typenum = 13 → c.state = .tlsRecv → LongEnough inp len

/-- What must not happen to a client in this state: a Success while it neither authenticates nor uses TLS, or a request as above. -/
def ClientAllowed (c : Client ε) : ClientEvent → Prop
  | .input packet =>
    (∀ id inp len, eapHeader packet = some (3, id, inp, len) → c.Inactive → c.usingEaptls = true) ∧
    ∀ id typenum rest n, eapHeader packet = some (1, id, typenum :: rest, n + 1) → AllowedRequest c id typenum rest n
  | .timeout => True

/-- A run in which nothing happens that is not allowed. -/
def ClientAllowedRun (env : Env ε) : Client ε → List ClientEvent → Prop
  | _, [] => True
  | c, event :: events => ClientAllowed c event ∧ ∀ c', clientStep env c event = some c' → ClientAllowedRun env c' events

theorem tlsRequest_ok (hmtu : SmallClientMtu env) (h : c.Ok) (hallowed : AllowedRequest c id 13 inp len) :
    ∃ c', tlsRequest env c inp id len = some c' ∧ c'.Ok := by
  have hstate := h.state
  cases hs : c.state <;> simp only [Client.StateOk, hs] at hstate <;> simp only [tlsRequest, hs]
  case listen => exact tlsListen_ok hmtu h hs (hallowed.start rfl hs)
  case tlsRecv => exact tlsData_ok h hs (hallowed.tls rfl hs)
  case tlsRecvAck =>
    obtain ⟨husing, hsession⟩ := hstate
    obtain ⟨ets, hets, hsession⟩ := hsession.live
    rw [hets]
    exact eapTlsResponse_ok h.log husing (fun _ => .inl hsession) fun _ => hsession.toSendable
  -- in the other states the client no longer uses TLS, which does not matter there
  case badAuth => exact ⟨_, rfl, h.log.cons, by simp only [Client.StateOk, eapSendNak, sendResponse, Client.emit, hs]⟩
  case tlsRecvSuccess | «open» =>
    have hnak := h.sendResponse id [3, 13]
    refine ⟨_, rfl, hnak.log, ?_⟩
    have hnext := hnak.state
    simp only [Client.StateOk, eapSendNak, sendResponse, Client.emit, hs] at hnext ⊢
    exact hnext

theorem md5Request_ok (h : c.Ok) {vallen : UInt8} (hname : vallen.toNat ≤ len → len - vallen.toNat ≤ 255) :
    ∃ c', md5Request env c inp id vallen len = some c' ∧ c'.Ok := by
  unfold md5Request
  split
  · exact ⟨_, rfl, h.sendResponse _ _⟩
  · rw [if_neg (by omega)]
    simp only
    split
    · exact ⟨_, rfl, h.sendResponse _ _⟩
    · exact ⟨_, rfl, h.sendResponse _ _⟩

theorem eapRequest_ok (hmtu : SmallClientMtu env) (h : c.Ok) (hle : len ≤ inp.length)
    (hallowed : ∀ typenum rest n, inp = typenum :: rest → len = n + 1 → AllowedRequest c id typenum rest n) :
    ∃ c', eapRequest env c inp id len = some c' ∧ c'.Ok := by
  let c₁ : Client ε := { c with requests := c.requests + 1 }
  have h₁ : c₁.Ok := ⟨h.log, h.state⟩
  unfold eapRequest
  simp only
  split
  · exact ⟨_, rfl, h₁.untimeout.emit rfl⟩
  · split
    · exact ⟨_, rfl, h₁⟩
    · obtain ⟨typenum, rest, rfl⟩ : ∃ b rest, inp = b :: rest := exists_cons_of_length_pos (by omega)
      obtain ⟨n, rfl⟩ : ∃ n, len = n + 1 := ⟨len - 1, by omega⟩
      have hrequest : AllowedRequest c₁ id typenum rest n :=
        let ha := hallowed typenum rest n rfl rfl
        { ha with }
      have hfinish : ∀ r : Option (Client ε), (∃ c', r = some c' ∧ c'.Ok) →
          ∃ c', (r.bind fun c' => some (finishClient c')) = some c' ∧ c'.Ok := by
        rintro r ⟨c', rfl, hok⟩
        exact ⟨_, rfl, hok.finishClient⟩
      simp only [getChar, headD_cons, tail_cons, Nat.add_sub_cancel, bind_eq_bind]
      split
      · exact ⟨_, rfl, (h₁.sendResponse _ _).finishClient⟩
      · exact ⟨_, rfl, (h₁.sendResponse _ _).finishClient⟩
      · exact ⟨_, rfl, h₁⟩
      · split
        · exact ⟨_, rfl, h₁⟩
        · exact hfinish _ (md5Request_ok h₁ (hrequest.name rfl))
      · exact hfinish _ (tlsRequest_ok hmtu h₁ hrequest)
      · exact ⟨_, rfl, (h₁.sendResponse _ _).finishClient⟩

theorem eapSuccess_ok (h : c.Ok) (hallowed : c.Inactive → c.usingEaptls = true) : (eapSuccess c).Ok := by
  by_cases hinactive : c.Inactive
  · rw [(eapSuccess_inactive hinactive).2 (hallowed hinactive)]
    exact h
  · unfold eapSuccess
    split
    · exact h
    · split
      · exact h
      · rename_i husing
        have hstart : .start true ∈ c.log → handshakeFinished c.log = true := by
          have hstate := h.state
          cases hs : c.state <;> simp only [Client.StateOk, hs] at hstate
          case listen => exact fun hmem => absurd hmem hstate
          case tlsRecv | tlsRecvAck => simp [hs, hstate.1] at husing
          case tlsRecvSuccess => exact fun _ => hstate
          case «open» => exact hstate
          case badAuth => exact absurd (.inr (.inr (.inr hs))) hinactive
        have hlog : .start true ∈ c.untimeout.log → handshakeFinished c.untimeout.log = true := by
          unfold Client.untimeout
          split
          · simpa [Client.emit, handshakeFinished] using hstart
          · exact hstart
        refine ⟨h.untimeout.log.succeeded hlog, ?_⟩
        simpa [Client.StateOk, Client.emit, Client.setState, handshakeFinished] using hlog

theorem clientStep_ok (hmtu : SmallClientMtu env) (h : c.Ok) {event : ClientEvent} (hallowed : ClientAllowed c event) :
    ∃ c', clientStep env c event = some c' ∧ c'.Ok := by
  cases event with
  | timeout =>
    refine ⟨_, rfl, ?_⟩
    unfold eapClientTimeout
    split
    · exact h
    · exact ⟨h.log.cons, trivial⟩
  | input packet =>
    simp only [clientStep, clientInput]
    split
    · exact ⟨c, rfl, h⟩
    · rename_i code id inp len hheader
      split
      · refine eapRequest_ok hmtu (h.emit rfl) (eapHeader_le hheader) fun typenum rest n hinp hlen => ?_
        have ha := hallowed.2 id typenum rest n (by rw [hheader, hinp, hlen])
        exact { ha with }
      · exact ⟨_, rfl, eapSuccess_ok h (hallowed.1 id inp len hheader)⟩
      · exact ⟨_, rfl, h.untimeout.log.cons, trivial⟩
      · exact ⟨c, rfl, h⟩

theorem clientRun_ok (hmtu : SmallClientMtu env) (h : c.Ok) {events : List ClientEvent} (hallowed : ClientAllowedRun env c events) :
    ∃ c', clientRun env c events = some c' ∧ c'.Ok := by
  induction events generalizing c with
  | nil => exact ⟨c, rfl, h⟩
  | cons event events ih =>
    obtain ⟨c₁, hstep, hok⟩ := clientStep_ok hmtu h hallowed.1
    obtain ⟨c', hrun, hok'⟩ := ih hok (hallowed.2 c₁ hstep)
    exact ⟨c', by simp only [clientRun, hstep, bind_eq_bind, bind_some, hrun], hok'⟩

theorem eapAuthwithpeer_ok (hlog : c.log = []) (localname : Bytes) : (eapAuthwithpeer c localname).Ok := by
  have hok : ({ c with name := localname, state := .listen } : Client ε).Ok := by
    refine ⟨?_, ?_⟩
    · simp [FinishedFirst, hlog]
    · simp [Client.StateOk, hlog]
  unfold eapAuthwithpeer
  simp only
  split
  · exact hok.emit rfl
  · exact hok

/-- After `eap_authwithpeer` every run of packets and timeouts that are allowed is defined, and success is reported after a Start only if the
handshake is finished. A Success in a state in which the client does not authenticate has no effect exactly when it is allowed. -/
theorem client_sound (env : Env ε) :
    (SmallClientMtu env → ∀ (c : Client ε) (localname : Bytes) (events : List ClientEvent), c.log = [] →
      ClientAllowedRun env (eapAuthwithpeer c localname) events →
      ∃ c', clientRun env (eapAuthwithpeer c localname) events = some c' ∧ FinishedFirst c'.log) ∧
    ∀ c : Client ε, c.Inactive → (eapSuccess c = c ↔ c.usingEaptls = true) := by
  refine ⟨fun hmtu c localname events hlog hallowed => ?_, fun c hinactive => eapSuccess_inactive hinactive⟩
  obtain ⟨c', hrun, hok⟩ := clientRun_ok hmtu (eapAuthwithpeer_ok hlog localname) hallowed
  exact ⟨c', hrun, hok.log⟩

/-- An engine that is finished at once, or never, and writes nothing. -/
def silentEnv (finished : Bool) : Env Unit where
  explicitRemote := false
  remoteName := []
  getSecret _ _ := none
  md5 _ := []
  tls := { negotiate := .done, finished := fun _ => finished }
  initServer _ _ := none
  initClient _ _ := some
    { session := ⟨none, 0, 0, 0, 0, false, false, false, [], 1000, .none, (), []⟩
      data := rfl, datalen := rfl, alertSent := rfl, alertRecv := rfl, mtu := by decide }

/-- A client after `eap_lowerup`. -/
def closedClient : Client Unit where
  name := [65]
  peer := none
  session := .null
  timeout := 0
  maxrequests := 20
  state := .closed
  id := 0
  requests := 0
  usingEaptls := false
  log := []

/-- A packet that fills the buffer. -/
def clientPacket (buf : Bytes) : ClientEvent := .input (.whole buf)

/-- A Start, an empty message and a Success. -/
def tlsEvents : List ClientEvent := [clientPacket [1, 1, 0, 6, 13, 32], clientPacket [1, 2, 0, 6, 13, 0], clientPacket [3, 3, 0, 4]]

theorem tlsEvents_allowed : ClientAllowedRun (silentEnv true) (eapAuthwithpeer closedClient [66]) tlsEvents := by
  refine ⟨⟨fun id inp len h => ?_, fun id typenum rest n h => ?_⟩, fun c₁ h₁ => ⟨⟨fun id inp len h => ?_, fun id typenum rest n h => ?_⟩,
    fun c₂ h₂ => ⟨⟨fun id inp len h hinactive => ?_, fun id typenum rest n h => ?_⟩, fun _ _ => trivial⟩⟩⟩
  · cases h
  · have hread : some ((1 : UInt8), (1 : UInt8), [(13 : UInt8), 32], 2) = some (1, id, typenum :: rest, n + 1) := h
    cases hread
    exact ⟨fun htype => by simp at htype, fun _ _ _ => by decide, fun _ _ => by decide⟩
  · cases h
  · have hread : some ((1 : UInt8), (2 : UInt8), [(13 : UInt8), 0], 2) = some (1, id, typenum :: rest, n + 1) := h
    cases hread
    exact ⟨fun htype => by simp at htype, fun _ _ hflags => absurd hflags (by decide), fun _ _ => by decide⟩
  · have hstate : ((clientStep (silentEnv true) (eapAuthwithpeer closedClient [66]) (clientPacket [1, 1, 0, 6, 13, 32])).bind
        (clientStep (silentEnv true) · (clientPacket [1, 2, 0, 6, 13, 0]))).map (·.state) = some .tlsRecvSuccess := by
      decide
    rw [h₁, bind_some, h₂, map_some, Option.some.injEq] at hstate
    simp [Client.Inactive, hstate] at hinactive
  · cases h

theorem client_sound_tls : (∃ c', clientRun (silentEnv true) (eapAuthwithpeer closedClient [66]) tlsEvents = some c' ∧ FinishedFirst c'.log) ∧
    (eapSuccess closedClient = closedClient ↔ closedClient.usingEaptls = true) :=
  have hmtu : SmallClientMtu (silentEnv true) := by
    rintro _ _ _ ⟨⟩
    decide
  ⟨(client_sound (silentEnv true)).1 hmtu closedClient [66] tlsEvents rfl tlsEvents_allowed,
    (client_sound (silentEnv true)).2 closedClient (.inr (.inr (.inl rfl)))⟩

/-- After a Failure in the middle of the handshake, one more TLS request and a Success make the client report success. A Success before
`eap_authwithpeer` does so too. -/
theorem success_without_handshake : (∃ c', clientRun (silentEnv false) (eapAuthwithpeer closedClient [66])
      [clientPacket [1, 1, 0, 6, 13, 32], clientPacket [4, 2, 0, 4], clientPacket [1, 3, 0, 6, 13, 0], clientPacket [3, 4, 0, 4]] = some c' ∧
        ¬FinishedFirst c'.log) ∧
    closedClient.Inactive ∧ (eapSuccess closedClient).log = [.succeeded] := by
  refine ⟨?_, .inr (.inr (.inl rfl)), rfl⟩
  have hlog : (clientRun (silentEnv false) (eapAuthwithpeer closedClient [66]) [clientPacket [1, 1, 0, 6, 13, 32],
      clientPacket [4, 2, 0, 4], clientPacket [1, 3, 0, 6, 13, 0], clientPacket [3, 4, 0, 4]]).map (·.log) =
        some [.succeeded, .sent 2 3 [3, 13], .received 3 [13, 0], .failed, .sent 2 1 [13, 0], .used, .start true, .received 1 [13, 32]] := by
    decide
  obtain ⟨c', hrun, hlog⟩ := map_eq_some_iff.1 hlog
  refine ⟨c', hrun, fun hfinished => ?_⟩
  have hfalse := hfinished [] _ hlog (by decide)
  simp [handshakeFinished] at hfalse

end Osp.Pppd
