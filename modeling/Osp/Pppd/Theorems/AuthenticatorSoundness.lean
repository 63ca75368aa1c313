import Osp.Pppd.EapServer
import Osp.Pppd.Lemmas.EapTls

/-!
# Soundness of the authenticator

A server that waits for a response has made no report. Once it has made one it stays in a state in which no packet counts, as long as no Nak
makes it start over.
-/

namespace Osp.Pppd

open Osp.Lib Pointer List Option

/-! ## The log -/

/-- A report to the rest of pppd. -/
def EapEntry.isReport : EapEntry → Bool
  | .succeeded | .failed => true
  | _ => false

/-- A use of the TLS session. -/
def EapEntry.usesSession : EapEntry → Bool
  | .start _ | .finished _ | .used => true
  | _ => false

/-- The newest packet: its id and body, and the log before it. -/
def newestPacket : List EapEntry → Option (UInt8 × Bytes × List EapEntry)
  | [] => none
  | .received id body :: log => some (id, body, log)
  | _ :: log => newestPacket log

/-- No report was made. -/
def Unreported (log : List EapEntry) : Prop := ∀ e ∈ log, e.isReport = false

/-- No report was made before the newest packet. -/
def UnreportedBefore (log : List EapEntry) : Prop := ∀ id body earlier, newestPacket log = some (id, body, earlier) → Unreported earlier

/-- The newest MD5 request: its id and what follows the type. -/
def newestChallenge : List EapEntry → Option (UInt8 × Bytes)
  | [] => none
  | .sent code id body :: log => if code = 1 ∧ body.head? = some 4 then some (id, body.tail) else newestChallenge log
  | _ :: log => newestChallenge log

section

variable {ε : Type} (env : Env ε)

/-- The newest packet has the hash of its id, the secret of the peer and the newest challenge, which was sent with this id. -/
def HashCorrect (log : List EapEntry) : Prop :=
  ∃ id hash rest earlier challenge name secret,
    newestPacket log = some (id, 4 :: 16 :: (hash ++ rest), earlier) ∧ hash.length = 16 ∧
    newestChallenge earlier = some (id, UInt8.ofNat challenge.length :: (challenge ++ name)) ∧ challenge.length < 24 ∧
    env.getSecret (some (responseName env (hash ++ rest) (hash ++ rest).length)) name = some secret ∧
    hash = env.md5 (id :: (secret ++ challenge))

/-- The newest packet is the acknowledgement of a TLS message, and the handshake was finished before. -/
def Acknowledged (log : List EapEntry) : Prop :=
  ∃ id earlier, newestPacket log = some (id, [13, 0], earlier) ∧ handshakeFinished earlier = true

/-- Success is reported for a reason and once, and after a report no packet leads to success or to a use of the TLS session. -/
structure Sound (log : List EapEntry) : Prop where
  justified : ∀ later earlier, log = later ++ .succeeded :: earlier → HashCorrect env earlier ∨ Acknowledged earlier
  once : log.count .succeeded ≤ 1
  after : ∀ later e earlier, log = later ++ e :: earlier → e = .succeeded ∨ e.usesSession = true → UnreportedBefore earlier

variable {env} {log : List EapEntry}

theorem Sound.cons {e : EapEntry} (h : Sound env log)
    (hsucceeded : e = .succeeded → (HashCorrect env log ∨ Acknowledged log) ∧ .succeeded ∉ log)
    (hafter : e = .succeeded ∨ e.usesSession = true → UnreportedBefore log) : Sound env (e :: log) := by
  refine ⟨fun later earlier heq => ?_, ?_, fun later e' earlier heq => ?_⟩
  · cases later with
    | nil =>
      obtain ⟨he, rfl⟩ := List.cons.inj heq
      exact (hsucceeded he).1
    | cons _ later => exact h.justified later earlier (List.cons.inj heq).2
  · by_cases he : e = .succeeded
    · rw [he, count_cons_self, count_eq_zero_of_not_mem (hsucceeded he).2]
    · rw [count_cons_of_ne he]
      exact h.once
  · cases later with
    | nil =>
      obtain ⟨rfl, rfl⟩ := List.cons.inj heq
      exact hafter
    | cons _ later => exact h.after later e' earlier (List.cons.inj heq).2

/-- An entry that neither reports success nor uses the session. -/
def EapEntry.isQuiet (e : EapEntry) : Bool := e ≠ .succeeded ∧ e.usesSession = false

variable {e : EapEntry}

theorem Sound.quiet (h : Sound env log) (he : e.isQuiet = true) : Sound env (e :: log) := by
  simp only [EapEntry.isQuiet, decide_eq_true_eq] at he
  refine h.cons (fun hs => absurd hs he.1) ?_
  rintro (hs | hs)
  · exact absurd hs he.1
  · exact absurd hs (by simp [he.2])

theorem Unreported.cons (h : Unreported log) (he : e.isReport = false) : Unreported (e :: log) :=
  forall_mem_cons.2 ⟨he, h⟩

theorem Unreported.not_mem (h : Unreported log) : .succeeded ∉ log := fun hmem => absurd (h _ hmem) (by simp [EapEntry.isReport])

theorem newestPacket_suffix {id : UInt8} {body : Bytes} {earlier : List EapEntry} (h : newestPacket log = some (id, body, earlier)) :
    earlier <:+ log := by
  induction log with
  | nil => cases h
  | cons e log ih =>
    cases e
    case received =>
      simp only [newestPacket, Option.some.injEq, Prod.mk.injEq] at h
      rw [h.2.2]
      exact suffix_cons _ _
    all_goals exact (ih h).trans (suffix_cons _ _)

theorem Unreported.before (h : Unreported log) : UnreportedBefore log :=
  fun _ _ _ heq e he => h e ((newestPacket_suffix heq).subset he)

variable (env log) in
/-- A sound log without a report. -/
structure Fresh : Prop where
  sound : Sound env log
  unreported : Unreported log

/-- Before a report the session may be used. -/
theorem Fresh.cons (h : Fresh env log) (he : e.isReport = false) : Fresh env (e :: log) := by
  refine ⟨h.sound.cons (fun hs => ?_) (fun _ => h.unreported.before), h.unreported.cons he⟩
  rw [hs] at he
  cases he

end

/-! ## The states of a server -/

section

variable {ε : Type} {env : Env ε} {s s' : Server ε}

/-- The handshake is finished, and the acknowledgement is missing. -/
structure Server.AwaitsAck (s : Server ε) : Prop where
  session : s.session.Has (fun _ => True)
  prevState : s.prevState = .tlsSend
  finished : handshakeFinished s.log = true

/-- A server that waits for a response, without a report so far. -/
def Server.Waiting (s : Server ε) : Prop :=
  match s.state with
  | .identify => True
  | .md5Chall =>
    newestChallenge s.log = some (s.id, UInt8.ofNat s.challenge.length :: (s.challenge ++ s.name)) ∧ s.challenge.length < 24
  | .tlsRecv => s.session.Has Session.Receivable
  | .tlsRecvAck => s.session.Has Session.Sendable
  | .tlsRecvClient => s.AwaitsAck
  | _ => False

/-- A server that is to make a request. -/
def Server.Due (s : Server ε) : Prop :=
  match s.state with
  | .identify | .md5Chall | .tlsStart => True
  | .tlsSendAck | .tlsRecv => s.session.Has Session.Receivable
  | .tlsSend | .tlsRecvAck => s.session.Has Session.Sendable
  | .tlsRecvClient => s.AwaitsAck
  | _ => False

/-- A server that has made a report. After TLS its state is still that of the acknowledgement, with the session freed. -/
inductive Server.Over (s : Server ε) : Prop where
  | open (state : s.state = .open)
  | badAuth (state : s.state = .badAuth)
  | acknowledged (state : s.state = .tlsRecvClient) (session : s.session = .invalid) (prevState : s.prevState = .tlsSend)

/-- What `eap_figure_next_state` does first. -/
@[simp] def Server.stamped (s : Server ε) (prev : EapState) : Server ε := { s with timeout := s.savedtime, prevState := prev }

theorem Server.Waiting.due (h : s.Waiting) : s.Due := by
  unfold Server.Waiting at h
  unfold Server.Due
  cases hs : s.state <;> simp only [hs] at h ⊢ <;> trivial

/-- Between events: the log is sound, and the server waits or has made a report. -/
structure Server.Settled (env : Env ε) (s : Server ε) : Prop where
  sound : Sound env s.log
  state : Unreported s.log ∧ s.Waiting ∨ s.Over

/-- Within an event. -/
structure Server.Underway (env : Env ε) (s : Server ε) : Prop where
  sound : Sound env s.log
  state : Unreported s.log ∧ s.Due ∨ s.Over

/-- The server is settled afterwards. -/
abbrev Settles (env : Env ε) (r : Option (Server ε)) : Prop := ∃ s', r = some s' ∧ s'.Settled env

/-- The server goes on with the event. -/
abbrev Proceeds (env : Env ε) (r : Option (Server ε)) : Prop := ∃ s', r = some s' ∧ s'.Underway env

theorem Fresh.settled (h : Fresh env s.log) (hw : s.Waiting) : s.Settled env := ⟨h.sound, .inl ⟨h.unreported, hw⟩⟩

theorem Fresh.underway (h : Fresh env s.log) (hdue : s.Due) : s.Underway env := ⟨h.sound, .inl ⟨h.unreported, hdue⟩⟩

theorem eapSendFailure_sound (h : Sound env s.log) : Sound env (eapSendFailure s).log := (h.quiet rfl).quiet rfl

theorem eapSendFailure_settled (h : Sound env s.log) : (eapSendFailure s).Settled env := ⟨eapSendFailure_sound h, .inr (.badAuth rfl)⟩

theorem eapSendFailure_underway (h : Sound env s.log) : (eapSendFailure s).Underway env := ⟨eapSendFailure_sound h, .inr (.badAuth rfl)⟩

/-! ## Requests -/

/-- What `finishRequest` does to the log. -/
def requestEntries (s : Server ε) (id : UInt8) (body : Bytes) : List EapEntry :=
  (if 0 < s.timeout then [.timeout] else []) ++ [if s.state = .badAuth then .sent 4 s.id body else .sent 1 id body]

theorem finishRequest_eq (id : UInt8) (body : Bytes) :
    finishRequest s id body = { s with requests := s.requests + 1, log := requestEntries s id body ++ s.log } := by
  unfold finishRequest requestEntries Server.emit
  simp only
  split <;> rfl

/-- What holds of the log and is kept by a packet that is sent and by a timeout holds after a request. -/
theorem requestEntries_induct {P : List EapEntry → Prop} (hsent : ∀ code id body log, P log → P (.sent code id body :: log))
    (htimeout : ∀ log, P log → P (.timeout :: log)) (id : UInt8) (body : Bytes) {log : List EapEntry} (h : P log) :
    P (requestEntries s id body ++ log) := by
  have hfirst : P ((if s.state = .badAuth then .sent 4 s.id body else .sent 1 id body) :: log) := by
    split <;> exact hsent _ _ _ _ h
  unfold requestEntries
  split
  · exact htimeout _ hfirst
  · exact hfirst

theorem requestEntries_fresh (h : Fresh env s.log) (id : UInt8) (body : Bytes) : Fresh env (requestEntries s id body ++ s.log) :=
  requestEntries_induct (fun _ _ _ _ h => h.cons rfl) (fun _ h => h.cons rfl) id body h

/-- After a failure the end of a request changes nothing that counts. -/
theorem finishRequest_over (h : Sound env s.log) (hover : s.state = .badAuth) (id : UInt8) (body : Bytes) :
    (finishRequest s id body).Settled env := by
  rw [finishRequest_eq]
  exact ⟨requestEntries_induct (fun _ _ _ _ h => h.quiet rfl) (fun _ h => h.quiet rfl) id body h, .inr (.badAuth hover)⟩

/-- After the identity the server is to send a challenge or to start TLS. -/
theorem figureNextState_identify (hs : s.state = .identify) :
    ∃ s', figureNextState env s 0 = some s' ∧ s'.log = s.log ∧ s'.Due := by
  have hnext : ∀ next, figureState env { s with timeout := s.savedtime, prevState := s.state } 0 =
      some { s with timeout := s.savedtime, prevState := s.state, state := next } → next ≠ .badAuth →
      figureNextState env s 0 = some { s with timeout := s.savedtime, prevState := s.state, state := next } := by
    intro next hfigure hne
    simp [figureNextState, hs ▸ hfigure, hs, hne]
  cases hsecret : (env.getSecret s.peer s.name).isNone with
  | false => exact ⟨_, hnext .md5Chall (by simp [figureState, hs, hsecret]) (by simp), rfl, trivial⟩
  | true => exact ⟨_, hnext .tlsStart (by simp [figureState, hs, hsecret]) (by simp), rfl, trivial⟩

/-- The sessions of the server are set up for packets that fit the output buffer. -/
def SmallMtu (env : Env ε) : Prop := ∀ peer name new, env.initServer peer name = some new → new.session.mtu ≤ 1490

section

variable (h : Fresh env s.log)

include h

/-- A request that is no challenge leaves the server waiting. -/
theorem finishRequest_waiting (hw : s.Waiting) (hs : s.state ≠ .md5Chall) (id : UInt8)
    (body : Bytes) : (finishRequest s id body).Settled env := by
  rw [finishRequest_eq]
  refine (requestEntries_fresh h id body).settled ?_
  unfold Server.Waiting at hw ⊢
  cases hstate : s.state <;> simp only [hstate] at hw ⊢
  case md5Chall => exact absurd hstate hs
  case tlsRecvClient => exact ⟨hw.session, hw.prevState,
    requestEntries_induct (P := fun log => handshakeFinished log = true) (fun _ _ _ _ h => h) (fun _ h => h) id body hw.finished⟩
  all_goals exact hw

theorem makeRequest_tlsStart (hmtu : SmallMtu env) (hs : s.state = .tlsStart)
    (challenge : Challenge) : Settles env (makeRequest env s challenge) := by
  cases hinit : s.peer.bind (env.initServer · s.name) with
  | none =>
    let failed : Server ε := ({ s with timeout := s.savedtime, prevState := .tlsStart, session := .invalid }.emit (.start false)).setState .badAuth
    have hfigure : figureNextState env s 0 = some (eapSendFailure failed) := by
      simp [failed, figureNextState, figureState, hs, initSslServer, hinit]
    have hfailed : Fresh env failed.log := h.cons rfl
    refine ⟨finishRequest (eapSendFailure failed) s.id [13, 32], ?_, finishRequest_over (eapSendFailure_sound hfailed.sound) rfl _ _⟩
    simp only [makeRequest, hs, hfigure, bind_eq_bind, bind_some]
  | some new =>
    let started : Server ε :=
      ({ s with timeout := s.savedtime, prevState := .tlsStart, session := .live new.session }.emit (.start true)).setState .tlsRecv
    have hfigure : figureNextState env s 0 = some started := by
      simp [started, figureNextState, figureState, hs, initSslServer, hinit]
    have hnew : new.session.Receivable := by
      obtain ⟨peer, -, hpeer⟩ := bind_eq_some_iff.1 hinit
      exact ⟨⟨new.alertSent, new.alertRecv, hmtu _ _ _ hpeer⟩, .inl ⟨new.data, new.datalen⟩⟩
    have hwaiting : started.Waiting := hnew
    have hstarted : Fresh env started.log := h.cons rfl
    refine ⟨finishRequest started s.id [13, 32], ?_, finishRequest_waiting hstarted hwaiting (by simp [started]) _ _⟩
    simp only [makeRequest, hs, hfigure, bind_eq_bind, bind_some]

/-- After a packet of TLS data the server waits for the next one, for an acknowledgement of a fragment or for that of the last message. -/
theorem figureNextState_tlsSend {ets : Session ε} {packet : Bytes} (hs : s.state = .tlsSend) (hsession : s.session = .live ets)
    (hsent : Sent packet ets) :
    ∃ s', figureNextState env s 0 = some s' ∧ Fresh env s'.log ∧ s'.Waiting ∧ s'.state ≠ .md5Chall := by
  have hfresh : ∀ b, Fresh env (.finished b :: s.log) := fun b => h.cons rfl
  cases hfinished : env.tls.finished ets.engine with
  | true =>
    let next : Server ε := ((s.stamped .tlsSend).emit (.finished true)).setState .tlsRecvClient
    have hawaits : next.AwaitsAck := ⟨by simp [next, hsession, Pointer.Has], rfl, rfl⟩
    refine ⟨next, ?_, hfresh _, hawaits, by simp [next]⟩
    simp [next, figureNextState, figureState, hs, hsession, deref, hfinished]
  | false =>
    cases hfrag : ets.frag with
    | true =>
      refine ⟨(((s.stamped .tlsSend).emit (.finished false)).setState .tlsRecvAck), ?_, hfresh _, ?_,
        by simp⟩
      · simp [figureNextState, figureState, hs, hsession, deref, hfinished, hfrag]
      · simp only [Server.Waiting, Server.setState, Server.emit, Server.stamped, hsession]
        exact hsent.more hfrag
    | false =>
      refine ⟨(((s.stamped .tlsSend).emit (.finished false)).setState .tlsRecv), ?_, hfresh _, ?_,
        by simp⟩
      · simp [figureNextState, figureState, hs, hsession, deref, hfinished, hfrag]
      · simp only [Server.Waiting, Server.setState, Server.emit, Server.stamped, hsession]
        exact (hsent.whole hfrag).1.receivable

theorem makeRequest_tlsSend (hs : s.state = .tlsSend)
    (hsession : s.session.Has Session.Sendable) (challenge : Challenge) :
    Settles env (makeRequest env s challenge) := by
  obtain ⟨ets, hets, hsession⟩ := hsession.live
  obtain ⟨packet, ets', hsend, hsent⟩ := eaptlsSend_defined env.tls hsession
  obtain ⟨s', hfigure, hfresh, hwaiting, hne⟩ :=
    figureNextState_tlsSend (s := { s with session := .live ets' }.emit .used) (h.cons rfl) hs rfl hsent
  refine ⟨finishRequest s' s.id packet, ?_, finishRequest_waiting hfresh hwaiting hne _ _⟩
  have hlength := hsent.length
  have hmake : makeRequest env s challenge = sendTlsData env s := by simp only [makeRequest, hs]
  rw [hmake, sendTlsData]
  simp only [hets, deref, hsend, bind_eq_bind, bind_some, hfigure]
  rw [if_neg (by omega)]

theorem makeRequest_tlsSendAck (hs : s.state = .tlsSendAck)
    (hsession : s.session.Has Session.Receivable) (challenge : Challenge) :
    Settles env (makeRequest env s challenge) := by
  let acked : Server ε := ((s.stamped .tlsSendAck).setState .tlsRecv)
  have hfigure : figureNextState env s 0 = some acked := by
    simp [acked, figureNextState, figureState, hs]
  have hwaiting : acked.Waiting := hsession
  have hacked : (finishRequest acked s.id [13, 0]).Settled env :=
    finishRequest_waiting (s := acked) h hwaiting (by simp [acked]) _ _
  refine ⟨_, ?_, hacked⟩
  simp only [makeRequest, hs, hfigure, bind_eq_bind, bind_some]

theorem makeRequest_md5Chall (hs : s.state = .md5Chall) (challenge : Challenge) :
    Settles env (makeRequest env s challenge) := by
  refine ⟨finishRequest { s with challenge := challenge.bytes } s.id
    (4 :: UInt8.ofNat challenge.bytes.length :: (challenge.bytes ++ s.name)), by simp only [makeRequest, hs], ?_⟩
  rw [finishRequest_eq]
  refine (requestEntries_fresh h _ _).settled ?_
  simp only [Server.Waiting, hs]
  refine ⟨?_, challenge.length_lt⟩
  unfold requestEntries
  split <;> simp [newestChallenge]

/-- The switch of `eap_send_request`. -/
theorem makeRequest_settled (hmtu : SmallMtu env) (hdue : s.Due) (challenge : Challenge) :
    Settles env (makeRequest env s challenge) := by
  cases hs : s.state <;> simp only [Server.Due, hs] at hdue
  case identify =>
    exact ⟨_, by simp only [makeRequest, hs]; rfl, finishRequest_waiting h (by simp [Server.Waiting, hs]) (by simp [hs]) _ _⟩
  case md5Chall => exact makeRequest_md5Chall h hs challenge
  case tlsStart => exact makeRequest_tlsStart h hmtu hs challenge
  case tlsSend => exact makeRequest_tlsSend h hs hdue challenge
  case tlsSendAck => exact makeRequest_tlsSendAck h hs hdue challenge
  case tlsRecv | tlsRecvAck | tlsRecvClient =>
    exact ⟨s, by simp only [makeRequest, hs], h.settled (by simpa only [Server.Waiting, hs] using hdue)⟩

theorem eapSendRequest_started (hmtu : SmallMtu env) {s₀ : Server ε} (hstart : startRequest env s₀ = some s) (hdue : s.Due)
    (challenge : Challenge) : Settles env (eapSendRequest env s₀ challenge) := by
  simp only [eapSendRequest, hstart, bind_eq_bind, bind_some]
  split
  · exact ⟨_, rfl, eapSendFailure_settled h.sound⟩
  · exact makeRequest_settled h hmtu hdue challenge

theorem eapSendRequest_due (hmtu : SmallMtu env) (hdue : s.Due) (challenge : Challenge) :
    Settles env (eapSendRequest env s challenge) := by
  have hstart : startRequest env s = some s := by
    cases hs : s.state <;> simp only [Server.Due, hs] at hdue <;> simp only [startRequest, hs]
  exact eapSendRequest_started h hmtu hstart hdue challenge

/-- The first request. -/
theorem eapSendRequest_pending (hmtu : SmallMtu env) (hs : s.state = .pending)
    (challenge : Challenge) : Settles env (eapSendRequest env s challenge) := by
  have hstart : ∃ s₁, startRequest env s = some s₁ ∧ s₁.log = s.log ∧ s₁.Due := by
    cases hexplicit : env.explicitRemote with
    | false => exact ⟨s.setState .identify, by simp [startRequest, hs, hexplicit], rfl, by simp [Server.Due]⟩
    | true =>
      obtain ⟨s₁, hfigure, hlog, hdue⟩ :=
        figureNextState_identify (s := { s.setState .identify with peer := some env.remoteName }) rfl
      exact ⟨s₁, by simpa [startRequest, hs, hexplicit] using hfigure, hlog, hdue⟩
  obtain ⟨s₁, hstart, hlog, hdue⟩ := hstart
  rw [← hlog] at h
  exact eapSendRequest_started h hmtu hstart hdue challenge

end

/-! ## Responses -/

/-- What a response that is read must not be, in this state of the server. -/
structure AllowedResponse (s : Server ε) (typenum : UInt8) (inp : Bytes) (len : Nat) : Prop where
  /-- a Nak that suggests a method, after a report -/
  nak : typenum = 3 → 1 ≤ len → inp.headD 0 = 4 ∨ inp.headD 0 = 13 ∨ inp.headD 0 = 19 → ¬s.Over
  /-- a TLS packet that is too short for its header -/
  tls : typenum = 13 → s.state = .tlsRecv → LongEnough inp len
  /-- TLS data instead of the acknowledgement, or a TLS packet after it -/
  ack : typenum = 13 → s.state = .tlsRecvClient →
    s.session.Has (fun ets => len = 1 ∧ inp.headD 0 = 0 ∨ LongEnough inp.tail len ∧ ets.Receivable)
  /-- a name that is longer than the buffer -/
  name : typenum = 4 → s.state = .md5Chall → inp.headD 0 = 16 → len ≤ 272

/-- While the server waits, a failed check ends the authentication. -/
theorem figureNextState_fail (hw : s.Waiting) (h : Sound env s.log) {status : Nat} (hstatus : status ≠ 0) :
    Proceeds env (figureNextState env s status) := by
  have hfail : figureState env { s with timeout := s.savedtime, prevState := s.state } status =
      some { s with timeout := s.savedtime, prevState := s.state, state := .badAuth } := by
    cases hs : s.state <;> simp only [Server.Waiting, hs] at hw
    case tlsRecv =>
      obtain ⟨ets, hets, hw⟩ := hw.live
      simp [figureState, hets, deref, hw.alertSent, hstatus]
    all_goals simp [figureState, hstatus]
  have hne : s.state ≠ .badAuth := by
    intro hs
    simp [Server.Waiting, hs] at hw
  refine ⟨eapSendFailure { s with timeout := s.savedtime, prevState := s.state, state := .badAuth }, ?_, eapSendFailure_underway h⟩
  simp only [figureNextState, if_neg hne, hfail, bind_eq_bind, bind_some, if_true]

variable {inp : Bytes} {challenge : Challenge} {earlier : List EapEntry} {events : List ServerEvent} {len : Nat} {id : UInt8}

/-- The name is read from the packet. -/
theorem responseName_take : responseName env (inp.take len) len = responseName env inp len := by
  simp only [responseName]
  split
  · rfl
  · rw [drop_take, take_take, Nat.min_self]

/-- A response with the right hash. -/
theorem md5Response_hash {id : UInt8} {secret : Bytes}
    (hpacket : newestPacket s.log = some (id, 4 :: 16 :: inp.take len, earlier)) (hid : id = s.id)
    (hchallenge : newestChallenge earlier = some (s.id, UInt8.ofNat s.challenge.length :: (s.challenge ++ s.name)))
    (hshort : s.challenge.length < 24) (hle : len ≤ inp.length) (hlen : 16 ≤ len)
    (hsecret : env.getSecret (some (responseName env inp len)) s.name = some secret)
    (hhash : env.md5 (s.id :: (secret ++ s.challenge)) = inp.take 16) : HashCorrect env s.log := by
  have htake : inp.take 16 ++ (inp.take len).drop 16 = inp.take len := by
    have hfirst : inp.take 16 = (inp.take len).take 16 := by rw [take_take, Nat.min_eq_left hlen]
    rw [hfirst, take_append_drop]
  have hlength : (inp.take len).length = len := by rw [length_take, Nat.min_eq_left hle]
  refine ⟨id, inp.take 16, (inp.take len).drop 16, earlier, s.challenge, s.name, secret, ?_, ?_, ?_, hshort, ?_, ?_⟩
  · rw [htake]
    exact hpacket
  · rw [length_take]
    omega
  · rw [hid]
    exact hchallenge
  · rw [htake, hlength, responseName_take]
    exact hsecret
  · rw [hid]
    exact hhash.symm

section

variable (h : Fresh env s.log)

include h

/-- A TLS packet while the server waits for data. -/
theorem tlsResponse_recv (hs : s.state = .tlsRecv)
    (hsession : s.session.Has Session.Receivable) (hlen : LongEnough inp len) :
    Proceeds env (tlsResponse env s inp len) := by
  obtain ⟨ets, hets, hsession⟩ := hsession.live
  obtain ⟨status, ets', hreceive, hreceived⟩ := eaptlsReceive_defined env.tls hsession hlen
  let s₁ : Server ε := { s with session := .live ets' }.emit .used
  have hfresh : Fresh env s₁.log := h.cons rfl
  have hfigure : Proceeds env (figureNextState env s₁ status) := by
    by_cases hstatus : status = 0
    · cases hfrag : ets'.frag with
      | true =>
        refine ⟨((s₁.stamped .tlsRecv).setState .tlsSendAck), ?_, Fresh.underway hfresh ?_⟩
        · simp [s₁, figureNextState, figureState, hs, deref, hreceived.alertSent, hstatus, hfrag]
        · exact hreceived.toReceivable
      | false =>
        refine ⟨((s₁.stamped .tlsRecv).setState .tlsSend), ?_, Fresh.underway hfresh ?_⟩
        · simp [s₁, figureNextState, figureState, hs, deref, hreceived.alertSent, hstatus, hfrag]
        · exact (hreceived.whole hstatus hfrag).sendable
    · refine ⟨eapSendFailure ((s₁.stamped .tlsRecv).setState .badAuth), ?_,
        eapSendFailure_underway hfresh.sound⟩
      simp [s₁, figureNextState, figureState, hs, deref, hreceived.alertSent, hstatus]
  obtain ⟨s', hfigure, hunderway⟩ := hfigure
  refine ⟨s', ?_, hunderway⟩
  unfold tlsResponse
  simp only [hs, hets, deref, hreceive, bind_eq_bind, bind_some, hreceived.alertRecv, Bool.false_eq_true, if_false]
  simp only [s₁, hs] at hfigure
  simp only [hfigure, bind_some]

/-- A TLS packet while the server waits for the last acknowledgement. The session is freed in any case. -/
theorem tlsResponse_ack (hpacket : newestPacket s.log = some (id, 13 :: inp.take len, earlier)) (hfinished : handshakeFinished earlier = true)
    (hle : len ≤ inp.length) (hs : s.state = .tlsRecvClient) (hprev : s.prevState = .tlsSend)
    (hack : s.session.Has (fun ets => len = 1 ∧ inp.headD 0 = 0 ∨ LongEnough inp.tail len ∧ ets.Receivable)) :
    Proceeds env (tlsResponse env s inp len) := by
  obtain ⟨ets, hets, hack⟩ := hack.live
  by_cases hzero : len = 1 ∧ inp.headD 0 = 0
  · -- the acknowledgement
    have hbody : inp.take len = [0] := by
      obtain ⟨rfl, hhead⟩ := hzero
      cases inp with
      | nil => simp at hle
      | cons b inp =>
        simp only [headD_cons] at hhead
        simp [hhead]
    have hacknowledged : Acknowledged (.sent 3 (s.id + 1) [] :: s.log) := ⟨id, earlier, by rw [← hbody]; exact hpacket, hfinished⟩
    have hsent : Fresh env (.sent 3 (s.id + 1) [] :: s.log) := h.cons rfl
    have hsound : Sound env (eapSendSuccess s).log :=
      hsent.sound.cons (fun _ => ⟨.inr hacknowledged, hsent.unreported.not_mem⟩) (fun _ => hsent.unreported.before)
    refine ⟨{ eapSendSuccess s with session := .invalid }.emit .used, ?_, ?_, .inr (.acknowledged hs rfl hprev)⟩
    · simp only [tlsResponse, hs, hets, deref, getChar, if_pos hzero, bind_eq_bind, bind_some]
    · exact hsound.cons (fun he => by cases he) (fun _ => hsent.unreported.before)
  · obtain hack | ⟨hlong, hreceivable⟩ := hack
    · exact absurd hack hzero
    · obtain ⟨status, ets', hreceive, -⟩ := eaptlsReceive_defined env.tls hreceivable hlong
      let s₁ : Server ε := { s with session := .live ets' }.emit .used
      have hused : Fresh env s₁.log := h.cons rfl
      refine ⟨{ eapSendFailure s₁ with session := .invalid }.emit .used, ?_, ?_, .inr (.badAuth rfl)⟩
      · simp only [tlsResponse, hs, hets, deref, getChar, if_neg hzero, hreceive, bind_eq_bind, bind_some]
        simp [s₁, hs]
      · exact (eapSendFailure_sound hused.sound).cons (fun he => by cases he) (fun _ => hused.unreported.before)

theorem tlsResponse_underway (hw : s.Waiting) (hpacket : newestPacket s.log = some (id, 13 :: inp.take len, earlier))
    (hfinished : handshakeFinished s.log = true → handshakeFinished earlier = true) (hle : len ≤ inp.length)
    (hallowed : AllowedResponse s 13 inp len) : Proceeds env (tlsResponse env s inp len) := by
  cases hs : s.state <;> simp only [Server.Waiting, hs] at hw
  case tlsRecv => exact tlsResponse_recv h hs hw (hallowed.tls rfl hs)
  case tlsRecvClient => exact tlsResponse_ack h hpacket (hfinished hw.finished) hle hs hw.prevState (hallowed.ack rfl hs)
  case tlsRecvAck =>
    refine ⟨((s.stamped .tlsRecvAck).setState .tlsSend), ?_, Fresh.underway h hw⟩
    simp [tlsResponse, hs, figureNextState, figureState]
  case identify | md5Chall =>
    have hfail := figureNextState_fail (s := s) (by unfold Server.Waiting; rw [hs]; exact hw) h.sound Nat.one_ne_zero
    simpa only [tlsResponse, hs] using hfail

theorem nakResponse_underway (hw : s.Waiting) :
    Proceeds env (nakResponse env s inp len) := by
  have hidentify : Proceeds env (figureNextState env (s.setState .identify) 0) := by
    obtain ⟨s', hfigure, hlog, hdue⟩ := figureNextState_identify (s := s.setState .identify) rfl
    have hsame : s'.log = s.log := hlog
    exact ⟨s', hfigure, (hsame ▸ h : Fresh env s'.log).underway hdue⟩
  have hset : ∀ state, (s.setState state).Due → Proceeds env (some (s.setState state)) :=
    fun state hdue => ⟨_, rfl, Fresh.underway h hdue⟩
  unfold nakResponse
  split
  · exact figureNextState_fail hw h.sound Nat.one_ne_zero
  · split
    · exact figureNextState_fail hw h.sound Nat.one_ne_zero
    · split
      · exact hidentify
      · exact hset .md5Chall trivial
      · exact hset .tlsStart trivial
      · split
        · exact hset .md5Chall trivial
        · exact hset .md5Chall trivial
        · exact hset .md5Chall trivial
        · exact hidentify
        · exact hidentify
        · exact ⟨s, rfl, h.underway hw.due⟩

theorem md5Response_underway (hw : s.Waiting) (hpacket : newestPacket s.log = some (id, 4 :: inp.take len, earlier)) (hid : id = s.id)
    (hchallenge : newestChallenge earlier = newestChallenge s.log) (hle : len ≤ inp.length) (hallowed : AllowedResponse s 4 inp len) :
    Proceeds env (md5Response env s inp len) := by
  have hfail := figureNextState_fail hw h.sound Nat.one_ne_zero
  by_cases hs : s.state = .md5Chall ∧ 1 ≤ len
  · obtain ⟨hs, hpos⟩ := hs
    obtain ⟨vallen, inp, rfl⟩ : ∃ b rest, inp = b :: rest := exists_cons_of_length_pos (by omega)
    rw [md5Response, if_neg (by simp [hs]), if_neg (by omega)]
    change Proceeds env (if vallen ≠ 16 ∨ len - 1 < 16 then _ else _)
    by_cases hvallen : vallen ≠ 16 ∨ len - 1 < 16
    · rw [if_pos hvallen]
      exact hfail
    · rw [if_neg hvallen]
      obtain ⟨rfl, hlen⟩ : vallen = 16 ∧ ¬len - 1 < 16 := by simpa using hvallen
      have hname := hallowed.name rfl hs rfl
      rw [if_neg (by omega), tail_cons]
      cases hsecret : env.getSecret (some (responseName env inp (len - 1))) s.name with
      | none => exact ⟨_, rfl, eapSendFailure_underway h.sound⟩
      | some secret =>
        simp only
        split
        · exact ⟨_, rfl, eapSendFailure_underway h.sound⟩
        · rename_i hhash
          simp only [Server.Waiting, hs] at hw
          have hbody : ((16 : UInt8) :: inp).take len = 16 :: inp.take (len - 1) := by
            obtain ⟨n, rfl⟩ : ∃ n, len = n + 1 := ⟨len - 1, by omega⟩
            simp
          rw [hbody] at hpacket
          have hcorrect : HashCorrect env (.sent 3 (s.id + 1) [] :: s.log) :=
            md5Response_hash (s := { s with log := .sent 3 (s.id + 1) [] :: s.log }) hpacket hid (hchallenge.trans hw.1) hw.2
              (by simp only [length_cons] at hle; omega) (by omega) hsecret (by simpa using hhash)
          refine ⟨(((eapSendSuccess s).stamped .md5Chall).setState .open), ?_, ?_, .inr (.open rfl)⟩
          · simp [figureNextState, figureState, eapSendSuccess, hs]
          · have hsent : Fresh env (.sent 3 (s.id + 1) [] :: s.log) := h.cons rfl
            exact hsent.sound.cons (fun _ => ⟨.inl hcorrect, hsent.unreported.not_mem⟩) (fun _ => hsent.unreported.before)
  · have heq : md5Response env s inp len = figureNextState env s 1 := by
      unfold md5Response
      split
      · rfl
      · rw [if_pos]
        by_contra hlt
        exact hs ⟨by simp_all, by omega⟩
    rw [heq]
    exact hfail

end

/-! ## After a report -/

section

variable (h : Sound env s.log) (hover : s.Over)

include h hover

/-- A failed check after a report leaves the server over. -/
theorem figureNextState_over : Proceeds env (figureNextState env s 1) := by
  cases hover with
  | badAuth hs => exact ⟨(s.stamped s.state), by simp [figureNextState, hs], h, .inr (.badAuth hs)⟩
  | «open» hs | acknowledged hs =>
    refine ⟨eapSendFailure ((s.stamped s.state).setState .badAuth), ?_, eapSendFailure_underway h⟩
    simp [figureNextState, figureState, hs]

theorem tlsResponse_over (hallowed : AllowedResponse s 13 inp len) :
    Proceeds env (tlsResponse env s inp len) := by
  have hfigure := figureNextState_over h hover
  cases hover with
  | badAuth hs | «open» hs => simpa only [tlsResponse, hs] using hfigure
  | acknowledged hs hsession =>
    have hack := hallowed.ack rfl hs
    rw [hsession] at hack
    exact hack.elim

theorem nakResponse_over (hallowed : AllowedResponse s 3 inp len) :
    Proceeds env (nakResponse env s inp len) := by
  have hfigure := figureNextState_over h hover
  unfold nakResponse
  split
  · exact hfigure
  · have hnone : ¬(inp.headD 0 = 4 ∨ inp.headD 0 = 13 ∨ inp.headD 0 = 19) :=
      fun hsuggested => hallowed.nak rfl (by omega) hsuggested hover
    split
    · exact hfigure
    · split
      · rename_i heq
        exact absurd (.inr (.inr heq)) hnone
      · rename_i heq
        exact absurd (.inl heq) hnone
      · rename_i heq
        exact absurd (.inr (.inl heq)) hnone
      · -- the states in which a Nak without a suggestion counts are not those after a report
        refine ⟨s, ?_, h, .inr hover⟩
        cases hover with
        | badAuth hs | «open» hs | acknowledged hs => simp only [hs]

theorem md5Response_over :
    Proceeds env (md5Response env s inp len) := by
  have hs : s.state ≠ .md5Chall := by
    cases hover with
    | badAuth hs | «open» hs | acknowledged hs => simp [hs]
  rw [md5Response, if_pos hs]
  exact figureNextState_over h hover

end

/-- After TLS the server would make another request in the state of the acknowledgement, but there is none to make. -/
theorem eapSendRequest_acknowledged (h : Sound env s.log) (hs : s.state = .tlsRecvClient) (hsession : s.session = .invalid)
    (hprev : s.prevState = .tlsSend) : Settles env (eapSendRequest env s challenge) := by
  simp only [eapSendRequest, startRequest, hs, bind_eq_bind, bind_some]
  split
  · exact ⟨_, rfl, eapSendFailure_settled h⟩
  · exact ⟨s, by simp only [makeRequest, hs], h, .inr (.acknowledged hs hsession hprev)⟩

/-! ## Steps -/

/-- Two servers that differ at most in what the states do not depend on. -/
structure Server.Alike (s s' : Server ε) : Prop where
  state : s'.state = s.state
  session : s'.session = s.session
  prevState : s'.prevState = s.prevState
  finished : handshakeFinished s'.log = handshakeFinished s.log

theorem Server.AwaitsAck.alike (h : s.AwaitsAck) (hs : s.Alike s') : s'.AwaitsAck :=
  ⟨hs.session ▸ h.session, hs.prevState.trans h.prevState, hs.finished.trans h.finished⟩

theorem Server.Due.alike (h : s.Due) (hs : s.Alike s') : s'.Due := by
  unfold Server.Due at h ⊢
  rw [hs.state, hs.session]
  cases hstate : s.state <;> simp only [hstate] at h ⊢
  case tlsRecvClient => exact h.alike hs
  all_goals exact h

theorem Server.Over.alike (h : s.Over) (hs : s.Alike s') : s'.Over := by
  cases h with
  | badAuth hstate => exact .badAuth (hs.state.trans hstate)
  | «open» hstate => exact .open (hs.state.trans hstate)
  | acknowledged hstate hsession hprev =>
    exact .acknowledged (hs.state.trans hstate) (hs.session.trans hsession) (hs.prevState.trans hprev)

theorem Server.Alike.symm (h : s.Alike s') : s'.Alike s := ⟨h.state.symm, h.session.symm, h.prevState.symm, h.finished.symm⟩

/-- The challenge is the same too. -/
theorem Server.Waiting.alike (h : s.Waiting) (hs : s.Alike s') (hid : s'.id = s.id) (hchallenge : s'.challenge = s.challenge)
    (hname : s'.name = s.name) (hlog : newestChallenge s'.log = newestChallenge s.log) : s'.Waiting := by
  unfold Server.Waiting at h ⊢
  rw [hs.state, hs.session, hid, hchallenge, hname, hlog]
  cases hstate : s.state <;> simp only [hstate] at h ⊢
  case tlsRecvClient => exact h.alike hs
  all_goals exact h

theorem AllowedResponse.alike {typenum : UInt8} {inp : Bytes} {len : Nat} (h : AllowedResponse s typenum inp len) (hs : s.Alike s') :
    AllowedResponse s' typenum inp len where
  nak htype hlen hsuggested hover := h.nak htype hlen hsuggested (hover.alike hs.symm)
  tls htype hstate := h.tls htype (hs.state.symm.trans hstate)
  ack htype hstate := hs.session ▸ h.ack htype (hs.state.symm.trans hstate)
  name htype hstate := h.name htype (hs.state.symm.trans hstate)

/-- The end of `eap_response`. -/
theorem finishResponse_settled (hmtu : SmallMtu env) (h : s.Underway env) :
    Settles env (finishResponse env s challenge) := by
  let s₁ : Server ε := if 0 < s.timeout then s.emit .untimeout else s
  have hfinish : finishResponse env s challenge =
      if s₁.state ≠ .badAuth ∧ s₁.state ≠ .open then eapSendRequest env { s₁ with id := s₁.id + 1 } challenge else some s₁ := rfl
  have hsound : Sound env s₁.log := by
    simp only [s₁]
    split
    · exact h.sound.quiet rfl
    · exact h.sound
  have hsame : s.Alike s₁ := by
    simp only [s₁]
    split <;> exact ⟨rfl, rfl, rfl, rfl⟩
  have hnext : s.Alike { s₁ with id := s₁.id + 1 } := { hsame with }
  rw [hfinish]
  obtain ⟨hu, hdue⟩ | hover := h.state
  · have hfresh : Fresh env s₁.log := by
      simp only [s₁]
      split
      · exact Fresh.cons ⟨h.sound, hu⟩ rfl
      · exact ⟨h.sound, hu⟩
    have hactive : s₁.state ≠ .badAuth ∧ s₁.state ≠ .open := by
      rw [hsame.state]
      constructor <;> intro hs <;> simp only [Server.Due, hs] at hdue
    rw [if_pos hactive]
    exact eapSendRequest_due (s := { s₁ with id := s₁.id + 1 }) hfresh hmtu (hdue.alike hnext) challenge
  · have hover₁ := hover.alike hsame
    have hsettled : s₁.Settled env := ⟨hsound, .inr hover₁⟩
    cases hover₁ with
    | badAuth hs | «open» hs =>
      rw [if_neg (by simp [hs])]
      exact ⟨s₁, rfl, hsettled⟩
    | acknowledged hs hinvalid hsend =>
      rw [if_pos (by simp [hs])]
      exact eapSendRequest_acknowledged (s := { s₁ with id := s₁.id + 1 }) hsound hs hinvalid hsend

theorem Server.Settled.underway (h : s.Settled env) : s.Underway env :=
  ⟨h.sound, h.state.imp_left fun hw => ⟨hw.1, hw.2.due⟩⟩

/-- A response that is read. -/
theorem eapResponse_settled (hmtu : SmallMtu env) (h : s.Settled env) (hlog : s.log = .received id (inp.take len) :: earlier)
    (hle : len ≤ inp.length)
    (hallowed : ∀ typenum rest n, inp = typenum :: rest → len = n + 1 → id = s.id → AllowedResponse s typenum rest n) :
    Settles env (eapResponse env s inp id len challenge) := by
  unfold eapResponse
  split
  · exact ⟨s, rfl, h⟩
  · rename_i hid
    have hid : id = s.id := by simpa using Eq.symm (by simpa using hid)
    let s₁ : Server ε := { s with responses := s.responses + 1 }
    have hsame : s.Alike s₁ := ⟨rfl, rfl, rfl, rfl⟩
    have hsettled : s₁.Settled env :=
      ⟨h.sound, h.state.imp (fun hw => ⟨hw.1, hw.2.alike hsame rfl rfl rfl rfl⟩) fun hover => hover.alike hsame⟩
    split
    · exact ⟨s₁, rfl, hsettled⟩
    · obtain ⟨typenum, rest, rfl⟩ : ∃ b rest, inp = b :: rest := exists_cons_of_length_pos (by omega)
      obtain ⟨n, rfl⟩ : ∃ n, len = n + 1 := ⟨len - 1, by omega⟩
      have hrest : n ≤ rest.length := by simpa using hle
      have hresponse := (hallowed typenum rest n rfl rfl hid).alike hsame
      have hpacket : newestPacket s₁.log = some (id, typenum :: rest.take n, earlier) := by
        simp only [s₁, hlog, newestPacket, take_succ_cons]
      have hfinish : ∀ r : Option (Server ε), Proceeds env r →
          Settles env (r.bind fun s' => finishResponse env s' challenge) := by
        rintro r ⟨s', rfl, hunderway⟩
        exact finishResponse_settled hmtu hunderway
      have hfinished : handshakeFinished s₁.log = handshakeFinished earlier := by simp only [s₁, hlog, handshakeFinished]
      have hchallenge : newestChallenge earlier = newestChallenge s₁.log := by simp only [s₁, hlog, newestChallenge]
      simp only [getChar, headD_cons, tail_cons, Nat.add_sub_cancel, bind_eq_bind]
      split
      · -- the identity
        split
        · exact finishResponse_settled hmtu hsettled.underway
        · rename_i hidentify
          have hidentify : s.state = .identify := by simpa using hidentify
          apply hfinish
          obtain ⟨s', hfigure, hlog', hdue⟩ := figureNextState_identify (s := { s₁ with peer := some (rest.take n) }) hidentify
          have hsame' : s'.log = s.log := hlog'
          refine ⟨s', hfigure, hsame' ▸ h.sound, .inl ⟨hsame' ▸ ?_, hdue⟩⟩
          obtain ⟨hu, -⟩ | hover := h.state
          · exact hu
          · cases hover with
            | badAuth hs | «open» hs | acknowledged hs => simp [hidentify] at hs
      · -- TLS
        apply hfinish
        obtain ⟨hu, hw⟩ | hover := hsettled.state
        · exact tlsResponse_underway ⟨hsettled.sound, hu⟩ hw hpacket (fun hf => hfinished ▸ hf) hrest hresponse
        · exact tlsResponse_over hsettled.sound hover hresponse
      · exact finishResponse_settled hmtu hsettled.underway
      · -- a Nak
        apply hfinish
        obtain ⟨hu, hw⟩ | hover := hsettled.state
        · exact nakResponse_underway ⟨hsettled.sound, hu⟩ hw
        · exact nakResponse_over hsettled.sound hover hresponse
      · -- MD5
        apply hfinish
        obtain ⟨hu, hw⟩ | hover := hsettled.state
        · exact md5Response_underway ⟨hsettled.sound, hu⟩ hw hpacket hid hchallenge hrest hresponse
        · exact md5Response_over hsettled.sound hover
      · exact ⟨s₁, rfl, hsettled⟩

/-! ## Runs -/

/-- What must not happen to a server in this state. -/
def Allowed (s : Server ε) : ServerEvent → Prop
  | .input packet _ =>
    ∀ typenum rest n, eapHeader packet = some (2, s.id, typenum :: rest, n + 1) → AllowedResponse s typenum rest n
  | .timeout _ =>
    s.active = true →
      (s.prevState = .tlsSend ∨ s.prevState = .tlsSendAlert →
        s.session.Has (fun ets => ets.rtx.head? = some 13 ∧ ets.rtx.length ≤ 1496)) ∧
      (s.prevState = .tlsSendAck → s.session.Has Session.Receivable)

/-- A run in which nothing happens that is not allowed. -/
def AllowedRun (env : Env ε) : Server ε → List ServerEvent → Prop
  | _, [] => True
  | s, event :: events => Allowed s event ∧ ∀ s', serverStep env s event = some s' → AllowedRun env s' events

/-- The retransmission of TLS data changes nothing that counts. -/
theorem retransmitRequest_settled (h : Fresh env s.log) (hw : s.Waiting)
    (hrtx : s.session.Has (fun ets => ets.rtx.head? = some 13 ∧ ets.rtx.length ≤ 1496)) :
    Settles env (retransmitRequest s) := by
  obtain ⟨ets, hets, hrtx⟩ := hrtx.live
  obtain ⟨hhead, hlength⟩ := hrtx
  let s₁ : Server ε := { (s.emit .used).emit (.sent 1 s.id ets.rtx) with requests := s.requests + 1 }
  have hretransmit : retransmitRequest s = some (if 0 < s₁.timeout then s₁.emit .timeout else s₁) := by
    simp only [retransmitRequest, hets, deref, bind_eq_bind, bind_some]
    rw [if_neg (by omega)]
  have hsame : s.Alike s₁ := ⟨rfl, rfl, rfl, rfl⟩
  have hchallenge : newestChallenge s₁.log = newestChallenge s.log := by
    simp [s₁, newestChallenge, hhead]
  have hwaiting : s₁.Waiting := hw.alike hsame rfl rfl rfl hchallenge
  have hfresh : Fresh env s₁.log := (h.cons rfl).cons rfl
  rw [hretransmit]
  split
  · exact ⟨_, rfl, Fresh.settled (hfresh.cons rfl) (hwaiting.alike ⟨rfl, rfl, rfl, rfl⟩ rfl rfl rfl rfl)⟩
  · exact ⟨_, rfl, hfresh.settled hwaiting⟩

section

variable (hmtu : SmallMtu env) (h : s.Settled env)

include hmtu h

theorem serverInput_settled {packet : Input} (hallowed : Allowed s (.input packet challenge)) :
    Settles env (serverInput env s packet challenge) := by
  unfold serverInput
  split
  · exact ⟨s, rfl, h⟩
  · rename_i code id inp len hheader
    split
    · rename_i hcode
      let s₁ : Server ε := s.emit (.received id (inp.take len))
      have hsame : s.Alike s₁ := ⟨rfl, rfl, rfl, rfl⟩
      have hsettled : s₁.Settled env :=
        ⟨h.sound.quiet rfl, h.state.imp (fun hw => ⟨hw.1.cons rfl, hw.2.alike hsame rfl rfl rfl rfl⟩) fun hover => hover.alike hsame⟩
      refine eapResponse_settled hmtu hsettled rfl (eapHeader_le hheader) (fun typenum rest n hinp hlen hid => ?_)
      have hread : eapHeader packet = some (2, s.id, typenum :: rest, n + 1) := by
        rw [hheader, hcode, hinp, hlen, hid]
        rfl
      exact (hallowed typenum rest n hread).alike hsame
    · exact ⟨s, rfl, h⟩

theorem eapServerTimeout_settled (hallowed : Allowed s (.timeout challenge)) :
    Settles env (eapServerTimeout env s challenge) := by
  unfold eapServerTimeout
  split
  · exact ⟨s, rfl, h⟩
  · rename_i hactive
    obtain ⟨hsend, hack⟩ := hallowed (by simpa using hactive)
    obtain ⟨hu, hw⟩ | hover := h.state
    · split
      · rename_i hprev
        exact eapSendRequest_due (s := s.setState s.prevState) ⟨h.sound, hu⟩ hmtu (by simp [hprev, Server.Due]) challenge
      · rename_i hprev
        exact eapSendRequest_due (s := s.setState s.prevState) ⟨h.sound, hu⟩ hmtu
          (by simpa [hprev, Server.Due] using hack hprev) challenge
      · rename_i hprev
        exact retransmitRequest_settled ⟨h.sound, hu⟩ hw (hsend (.inl hprev))
      · rename_i hprev
        exact retransmitRequest_settled ⟨h.sound, hu⟩ hw (hsend (.inr hprev))
      · exact eapSendRequest_due ⟨h.sound, hu⟩ hmtu hw.due challenge
    · cases hover with
      | badAuth hs | «open» hs => simp [Server.active, hs] at hactive
      | acknowledged hs hinvalid hprev =>
        have hlive := hsend (.inl hprev)
        rw [hinvalid] at hlive
        exact hlive.elim

theorem serverStep_settled {event : ServerEvent} (hallowed : Allowed s event) :
    Settles env (serverStep env s event) := by
  cases event with
  | input packet challenge => exact serverInput_settled hmtu h hallowed
  | timeout challenge => exact eapServerTimeout_settled hmtu h hallowed

theorem serverRun_settled (hallowed : AllowedRun env s events) :
    Settles env (serverRun env s events) := by
  induction events generalizing s with
  | nil => exact ⟨s, rfl, h⟩
  | cons event events ih =>
    obtain ⟨s₁, hstep, hsettled⟩ := serverStep_settled hmtu h hallowed.1
    obtain ⟨s', hrun, hsettled'⟩ := ih hsettled (hallowed.2 s₁ hstep)
    exact ⟨s', by simp only [serverRun, hstep, bind_eq_bind, bind_some, hrun], hsettled'⟩

end

theorem eapAuthpeer_settled (hmtu : SmallMtu env) (hs : s.state = .closed) (hlog : s.log = []) (localname : Bytes) :
    Settles env (eapAuthpeer env s localname challenge) := by
  let s₁ : Server ε := { s with name := localname, savedtime := s.timeout, state := .pending }
  have hauth : eapAuthpeer env s localname challenge = eapSendRequest env s₁ challenge := by
    simp [eapAuthpeer, hs, s₁]
  have hfresh : Fresh env s₁.log := by
    have hempty : s₁.log = [] := hlog
    rw [hempty]
    exact ⟨⟨by simp, by simp, by simp⟩, by simp [Unreported]⟩
  rw [hauth]
  exact eapSendRequest_pending hfresh hmtu rfl challenge

/-- After `eap_authpeer` every run of packets and timeouts that are allowed is defined, and its log is sound. -/
theorem authenticator_sound (env : Env ε) (hmtu : SmallMtu env) (s : Server ε) (hs : s.state = .closed) (hlog : s.log = [])
    (localname : Bytes) (challenge : Challenge) (events : List ServerEvent)
    (hallowed : ∀ s₁, eapAuthpeer env s localname challenge = some s₁ → AllowedRun env s₁ events) :
    ∃ s₁ s', eapAuthpeer env s localname challenge = some s₁ ∧ serverRun env s₁ events = some s' ∧ Sound env s'.log := by
  obtain ⟨s₁, hauth, hsettled⟩ := eapAuthpeer_settled hmtu hs hlog localname
  obtain ⟨s', hrun, hsettled'⟩ := serverRun_settled hmtu hsettled (hallowed s₁ hauth)
  exact ⟨s₁, s', hauth, hrun, hsettled'.sound⟩

theorem AllowedRun.of_forall (h : ∀ event ∈ events, ∀ s : Server ε, Allowed s event) (s : Server ε) :
    AllowedRun env s events := by
  induction events generalizing s with
  | nil => trivial
  | cons event events ih =>
    exact ⟨h event mem_cons_self s, fun s' _ => ih (fun e he => h e (mem_cons_of_mem _ he)) s'⟩

end

/-- An authentication with MD5, for a hash that is always zero. -/
def zeroEnv : Env Unit where
  explicitRemote := false
  remoteName := []
  getSecret _ _ := some [1]
  md5 _ := List.replicate 16 0
  tls := { negotiate := .done, finished := fun _ => true }
  initServer _ _ := none
  initClient _ _ := none

/-- A server after `eap_lowerup`. -/
def closedServer : Server Unit where
  name := []
  peer := none
  session := .null
  timeout := 3
  savedtime := 0
  maxrequests := 10
  state := .closed
  prevState := .initial
  id := 0
  requests := 0
  responses := 0
  challenge := []
  log := []

def zeroChallenge : Challenge := ⟨List.replicate 16 0, by decide, by decide⟩

/-- The identity of the peer, and the hash. -/
def identityPacket : Input := .whole [2, 0, 0, 6, 1, 65]
def hashPacket (id : UInt8) : Input := .whole ([2, id, 0, 23, 4, 16] ++ List.replicate 16 0 ++ [65])

/-- The packets of an authentication. -/
def md5Events : List ServerEvent := [.input identityPacket zeroChallenge, .input (hashPacket 1) zeroChallenge]

theorem md5Events_allowed : ∀ event ∈ md5Events, ∀ s : Server Unit, Allowed s event := by
  simp only [md5Events, forall_mem_cons]
  refine ⟨fun s typenum rest n h => ?_, fun s typenum rest n h => ?_, by simp⟩
  · have hheader : eapHeader identityPacket = some (2, 0, [1, 65], 2) := by decide
    rw [hheader] at h
    obtain ⟨-, ⟨rfl, -⟩, -⟩ : _ ∧ (1 = typenum ∧ _) ∧ _ := by simpa using h
    constructor <;> intro htype <;> cases htype
  · have hheader : eapHeader (hashPacket 1) = some (2, 1, 4 :: 16 :: (List.replicate 16 0 ++ [65]), 19) := by decide
    rw [hheader] at h
    obtain ⟨-, ⟨rfl, -⟩, hn⟩ : _ ∧ (4 = typenum ∧ _) ∧ n = 18 := by simpa using h
    constructor <;> intro htype
    case name => exact fun _ _ => by omega
    all_goals cases htype

theorem authenticator_sound_md5 : ((eapAuthpeer zeroEnv closedServer [] zeroChallenge).bind (serverRun zeroEnv · md5Events)).map
      (·.log.count .succeeded) = some 1 ∧
    ∃ s₁ s', eapAuthpeer zeroEnv closedServer [] zeroChallenge = some s₁ ∧ serverRun zeroEnv s₁ md5Events = some s' ∧
      Sound zeroEnv s'.log :=
  ⟨by decide, authenticator_sound zeroEnv (fun _ _ _ h => by cases h) closedServer rfl rfl [] zeroChallenge md5Events
    fun s₁ _ => AllowedRun.of_forall md5Events_allowed s₁⟩

/-- A Nak for MD5 after the success makes the server start over, and it reports success once more. -/
theorem nak_restarts : ∃ s', (eapAuthpeer zeroEnv closedServer [] zeroChallenge).bind
      (serverRun zeroEnv · (md5Events ++ [.input (.whole [2, 2, 0, 6, 3, 4]) zeroChallenge, .input (hashPacket 3) zeroChallenge])) =
        some s' ∧ ¬Sound zeroEnv s'.log := by
  have hcount : ((eapAuthpeer zeroEnv closedServer [] zeroChallenge).bind (serverRun zeroEnv · (md5Events ++
      [.input (.whole [2, 2, 0, 6, 3, 4]) zeroChallenge, .input (hashPacket 3) zeroChallenge]))).map (·.log.count .succeeded) = some 2 := by
    decide
  obtain ⟨s', hrun, htwice⟩ := map_eq_some_iff.1 hcount
  refine ⟨s', hrun, fun hsound => ?_⟩
  have honce := hsound.once
  omega

end Osp.Pppd
