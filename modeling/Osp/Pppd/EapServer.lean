import Osp.Pppd.EapTls

/-!
# EAP

The authenticator of `eap.c`, without rechallenges, and what the client and the server share, compiled with EAP-TLS and without SRP. Names
and secrets come from files, the TLS engine is set up by wolfSSL: these are parameters. The log of a party has what it sends and receives,
the calls to other parts of pppd and the uses of the TLS session, the newest entry first. `none` is behaviour that C does not define, as in
`eap-tls.c`.
-/

namespace Osp.Pppd

open Osp.Lib

/-- `enum eap_state_code`. -/
inductive EapState where
  | initial
  | pending
  | closed
  | listen
  | identify
  | tlsStart
  | tlsRecv
  | tlsSendAck
  | tlsSend
  | tlsRecvAck
  | tlsRecvClient
  | tlsSendAlert
  | tlsRecvAlertAck
  | tlsRecvSuccess
  | tlsRecvFailure
  | srp1
  | srp2
  | srp3
  | md5Chall
  | open
  | srp4
  | badAuth
deriving DecidableEq

/-- A pointer to a session: `NULL`, a session, or memory that is not one, or no longer. -/
inductive Pointer (α : Type) where
  | null
  | live (a : α)
  | invalid

/-- The session behind a pointer. -/
def Pointer.deref {α : Type} : Pointer α → Option α
  | .live a => some a
  | _ => none

/-- A pointer to something with a property. -/
def Pointer.Has {α : Type} (p : α → Prop) : Pointer α → Prop
  | .live a => p a
  | _ => False

theorem Pointer.Has.live {α : Type} {p : α → Prop} {pointer : Pointer α} (h : pointer.Has p) : ∃ a, pointer = .live a ∧ p a := by
  cases pointer with
  | null | invalid => cases h
  | live a => exact ⟨a, rfl, h⟩

/-- A challenge of `eap_send_request`. -/
structure Challenge where
  bytes : Bytes
  length_ge : 16 ≤ bytes.length
  length_lt : bytes.length < 24

/-- A session as `eaptls_init_ssl_server` and `eaptls_init_ssl_client` leave it. `eaptls_get_mtu` gives at most 16370. -/
structure NewSession (ε : Type) where
  session : Session ε
  data : session.data = none
  datalen : session.datalen = 0
  alertSent : session.alertSent = false
  alertRecv : session.alertRecv = false
  mtu : session.mtu ≤ 16370

/-- What the parties get from outside: the options, the secrets of `get_secret` for a client and a server, MD5, and the TLS engine with the
sessions that are set up for our name and the name of the peer. -/
structure Env (ε : Type) where
  explicitRemote : Bool
  remoteName : Bytes
  getSecret : Option Bytes → Bytes → Option Bytes
  md5 : Bytes → Bytes
  tls : Tls ε
  initServer : Bytes → Bytes → Option (NewSession ε)
  initClient : Bytes → Option Bytes → Option (NewSession ε)

/-- An entry of the log of a party. -/
inductive EapEntry where
  | received (id : UInt8) (body : Bytes)
  | sent (code id : UInt8) (body : Bytes)
  | timeout
  | untimeout
  /-- a session was set up, or could not be -/
  | start (ok : Bool)
  /-- `wolfSSL_is_init_finished` was called -/
  | finished (result : Bool)
  /-- another use of the session -/
  | used
  /-- `auth_peer_success` or `auth_withpeer_success` -/
  | succeeded
  /-- `auth_peer_fail` or `auth_withpeer_fail` -/
  | failed
deriving DecidableEq

/-- Whether the engine of the newest session has reported that the handshake is finished. -/
def handshakeFinished : List EapEntry → Bool
  | [] => false
  | .finished true :: _ => true
  | .start true :: _ => false
  | _ :: log => handshakeFinished log

/-- The input buffer with a packet. What is behind the packet may be read too. -/
structure Input where
  buf : Bytes
  inlen : Nat
  le : inlen ≤ buf.length

/-- A packet that fills the buffer. -/
def Input.whole (buf : Bytes) : Input := ⟨buf, buf.length, Nat.le_refl _⟩

/-- The first part of `eap_input`: the code, the id, what follows in memory and its length. -/
def eapHeader (packet : Input) : Option (UInt8 × UInt8 × Bytes × Nat) :=
  let code := packet.buf.headD 0
  let id := (packet.buf.drop 1).headD 0
  let len := ofBe ((packet.buf.drop 2).take 2)
  if packet.inlen < 4 then none
  else if len < 4 ∨ packet.inlen < len then none
  else some (code, id, packet.buf.drop 4, len - 4)

/-- What follows the header is in the buffer. -/
theorem eapHeader_le {packet : Input} {code id : UInt8} {inp : Bytes} {len : Nat} (h : eapHeader packet = some (code, id, inp, len)) :
    len ≤ inp.length := by
  have hle := packet.le
  simp only [eapHeader] at h
  split at h
  · cases h
  · split at h
    · cases h
    · cases h
      rw [List.length_drop]
      omega

/-- `es_server` and the challenge. -/
structure Server (ε : Type) where
  name : Bytes
  peer : Option Bytes
  session : Pointer (Session ε)
  timeout : Int
  savedtime : Int
  maxrequests : Int
  state : EapState
  prevState : EapState
  id : UInt8
  requests : UInt8
  responses : UInt8
  challenge : Bytes
  log : List EapEntry

variable {ε : Type} (env : Env ε) (s : Server ε)

@[simp] def Server.emit (e : EapEntry) : Server ε := { s with log := e :: s.log }

@[simp] def Server.setState (state : EapState) : Server ε := { s with state }

/-- `eap_server_active`. -/
def Server.active : Bool :=
  match s.state with
  | .initial | .pending | .closed | .listen | .open | .srp4 | .badAuth => false
  | _ => true

/-- `eap_send_failure`. -/
def eapSendFailure : Server ε :=
  ((({ s with id := s.id + 1 }.emit (.sent 4 (s.id + 1) [])).setState .badAuth).emit .failed)

/-- `eap_send_success`. -/
def eapSendSuccess : Server ε := ({ s with id := s.id + 1 }.emit (.sent 3 (s.id + 1) [])).emit .succeeded

/-- `eaptls_init_ssl_server`. -/
def initSslServer : Server ε :=
  match s.peer.bind (env.initServer · s.name) with
  | none => ({ s with session := .invalid }.emit (.start false)).setState .badAuth
  | some new => ({ s with session := .live new.session }.emit (.start true)).setState .tlsRecv

/-- The switch of `eap_figure_next_state`. The code with SRP is left out. -/
def figureState (status : Nat) : Option (Server ε) :=
  match s.state with
  | .badAuth => some s
  | .identify =>
    if status ≠ 0 then some (s.setState .badAuth)
    else if (env.getSecret s.peer s.name).isNone then some (s.setState .tlsStart)
    else some (s.setState .md5Chall)
  | .tlsStart => some (initSslServer env s)
  | .tlsRecv => do
    let ets ← s.session.deref
    if ets.alertSent then some (s.setState .tlsSendAlert)
    else if status ≠ 0 then some (s.setState .badAuth)
    else if ets.frag then some (s.setState .tlsSendAck)
    else some (s.setState .tlsSend)
  | .tlsSend => do
    let ets ← s.session.deref
    let s := s.emit (.finished (env.tls.finished ets.engine))
    if env.tls.finished ets.engine then some (s.setState .tlsRecvClient)
    else if ets.frag then some (s.setState .tlsRecvAck)
    else some (s.setState .tlsRecv)
  | .tlsSendAck => some (s.setState .tlsRecv)
  | .tlsRecvAck => if status ≠ 0 then some (s.setState .badAuth) else some (s.setState .tlsSend)
  | .tlsSendAlert => some (s.setState .tlsRecvAlertAck)
  | .srp1 =>
    if status = 1 then some (s.setState .md5Chall)
    else if status ≠ 0 ∨ (s.session matches .null) then some (s.setState .badAuth)
    else some (s.setState .srp2)
  | .srp2 => if status ≠ 0 ∨ (s.session matches .null) then some (s.setState .badAuth) else some (s.setState .srp3)
  | .srp3 | .srp4 => if status ≠ 0 ∨ (s.session matches .null) then some (s.setState .badAuth) else some (s.setState .open)
  | .md5Chall => if status ≠ 0 then some (s.setState .badAuth) else some (s.setState .open)
  | .initial | .pending | .closed | .listen | .tlsRecvClient | .tlsRecvAlertAck | .tlsRecvSuccess | .tlsRecvFailure | .open =>
    some (s.setState .badAuth)

/-- `eap_figure_next_state`. -/
def figureNextState (status : Nat) : Option (Server ε) :=
  let s := { s with timeout := s.savedtime, prevState := s.state }
  if s.state = .badAuth then some s
  else do
    let s ← figureState env s status
    if s.state = .badAuth then some (eapSendFailure s) else some s

/-- The first part of `eap_send_request`: a new authentication starts with the identity, or with what follows if the name is known. -/
def startRequest : Option (Server ε) :=
  match s.state with
  | .pending | .closed | .listen =>
    let s := s.setState .identify
    if env.explicitRemote then figureNextState env { s with peer := some env.remoteName } 0 else some s
  | _ => some s

/-- The end of `eap_send_request`. If `eap_send_failure` was called after the header had been made up, the header in the buffer is that of
the Failure. -/
def finishRequest (id : UInt8) (body : Bytes) : Server ε :=
  let s := s.emit (if s.state = .badAuth then .sent 4 s.id body else .sent 1 id body)
  let s := { s with requests := s.requests + 1 }
  if 0 < s.timeout then s.emit .timeout else s

/-- A packet of TLS data in a request. The buffer has 1504 bytes, of which the headers take 8. -/
def sendTlsData : Option (Server ε) := do
  let ets ← s.session.deref
  let (packet, ets) ← eaptlsSend env.tls ets
  if 1504 < 8 + packet.length then none
  else
    let s' ← figureNextState env ({ s with session := .live ets }.emit .used) 0
    some (finishRequest s' s.id packet)

/-- The switch of `eap_send_request`. -/
def makeRequest (challenge : Challenge) : Option (Server ε) :=
  match s.state with
  | .identify => some (finishRequest s s.id [1, 78, 97, 109, 101])
  | .md5Chall =>
    let s := { s with challenge := challenge.bytes }
    some (finishRequest s s.id (4 :: UInt8.ofNat challenge.bytes.length :: (challenge.bytes ++ s.name)))
  | .tlsStart => do
    let s' ← figureNextState env s 0
    some (finishRequest s' s.id [13, 32])
  | .tlsSend | .tlsSendAlert => sendTlsData env s
  | .tlsSendAck => do
    let s' ← figureNextState env s 0
    some (finishRequest s' s.id [13, 0])
  | _ => some s

/-- `eap_send_request`, with the challenge to use. -/
def eapSendRequest (challenge : Challenge) : Option (Server ε) := do
  let s ← startRequest env s
  if 0 < s.maxrequests ∧ s.maxrequests ≤ s.requests.toNat then some (eapSendFailure s) else makeRequest env s challenge

/-- `eap_authpeer`. -/
def eapAuthpeer (localname : Bytes) (challenge : Challenge) : Option (Server ε) :=
  let s := { s with name := localname, savedtime := s.timeout }
  if s.state = .initial ∨ s.state = .pending then some (s.setState .pending) else eapSendRequest env (s.setState .pending) challenge

/-- The retransmission of TLS data in `eap_server_timeout`. -/
def retransmitRequest : Option (Server ε) := do
  let ets ← s.session.deref
  if 1504 < 8 + ets.rtx.length then none
  else
    let s := { (s.emit .used).emit (.sent 1 s.id ets.rtx) with requests := s.requests + 1 }
    some (if 0 < s.timeout then s.emit .timeout else s)

/-- `eap_server_timeout`. -/
def eapServerTimeout (challenge : Challenge) : Option (Server ε) :=
  if !s.active then some s
  else
    match s.prevState with
    | .tlsStart | .tlsSendAck => eapSendRequest env (s.setState s.prevState) challenge
    | .tlsSend | .tlsSendAlert => retransmitRequest s
    | _ => eapSendRequest env s challenge

/-- The end of `eap_response`. -/
def finishResponse (challenge : Challenge) : Option (Server ε) :=
  let s := if 0 < s.timeout then s.emit .untimeout else s
  if s.state ≠ .badAuth ∧ s.state ≠ .open then eapSendRequest env { s with id := s.id + 1 } challenge else some s

/-- A TLS response of the client. -/
def tlsResponse (inp : Bytes) (len : Nat) : Option (Server ε) :=
  match s.state with
  | .tlsRecv => do
    let ets ← s.session.deref
    let (status, ets) ← eaptlsReceive env.tls ets inp len
    let s ← figureNextState env ({ s with session := .live ets }.emit .used) status
    some (if ets.alertRecv then eapSendFailure s else s)
  | .tlsRecvAck => figureNextState env s 0
  | .tlsRecvClient => do
    let ets ← s.session.deref
    let (flags, inp) := getChar inp
    let s ←
      if len = 1 ∧ flags = 0 then some (eapSendSuccess s)
      else do
        -- the flags have been read, but the length is that of the packet with them
        let (_, ets) ← eaptlsReceive env.tls ets inp len
        some (eapSendFailure ({ s with session := .live ets }.emit .used))
    some ({ s with session := .invalid }.emit .used)
  | .tlsRecvAlertAck => some (eapSendFailure s)
  | _ => figureNextState env s 1

/-- A Nak of the client. -/
def nakResponse (inp : Bytes) (len : Nat) : Option (Server ε) :=
  if len < 1 then figureNextState env s 1
  else if !env.explicitRemote && s.state = .identify then figureNextState env s 1
  else
    match (getChar inp).1 with
    | 19 => figureNextState env (s.setState .identify) 0
    | 4 => some (s.setState .md5Chall)
    | 13 => some (s.setState .tlsStart)
    | _ =>
      match s.state with
      | .srp1 | .srp2 | .srp3 => some (s.setState .md5Chall)
      | .md5Chall | .srp4 => figureNextState env (s.setState .identify) 0
      | _ => some s

/-- The name in an MD5 response, or the one that is configured. -/
def responseName (inp : Bytes) (len : Nat) : Bytes :=
  if env.explicitRemote ∨ env.remoteName ≠ [] ∧ len = 16 then env.remoteName.take 255 else (inp.drop 16).take (len - 16)

/-- An MD5 response of the client. The name is copied into a buffer of 256 bytes. -/
def md5Response (inp : Bytes) (len : Nat) : Option (Server ε) :=
  if s.state ≠ .md5Chall then figureNextState env s 1
  else if len < 1 then figureNextState env s 1
  else
    let (vallen, inp) := getChar inp
    let len := len - 1
    if vallen ≠ 16 ∨ len < 16 then figureNextState env s 1
    else if 255 < len - 16 then none
    else
      match env.getSecret (some (responseName env inp len)) s.name with
      | none => some (eapSendFailure s)
      | some secret =>
        if env.md5 (s.id :: (secret ++ s.challenge)) ≠ inp.take 16 then some (eapSendFailure s)
        else figureNextState env (eapSendSuccess s) 0

/-- `eap_response`, with the challenge for the next request. -/
def eapResponse (inp : Bytes) (id : UInt8) (len : Nat) (challenge : Challenge) : Option (Server ε) :=
  if s.id ≠ id then some s
  else
    let s := { s with responses := s.responses + 1 }
    if len = 0 then some s
    else
      let (typenum, inp) := getChar inp
      let len := len - 1
      match typenum with
      | 1 => do
        let s ← if s.state ≠ .identify then some s else figureNextState env { s with peer := some (inp.take len) } 0
        finishResponse env s challenge
      | 13 => do
        let s ← tlsResponse env s inp len
        finishResponse env s challenge
      | 2 => finishResponse env s challenge
      | 3 => do
        let s ← nakResponse env s inp len
        finishResponse env s challenge
      | 4 => do
        let s ← md5Response env s inp len
        finishResponse env s challenge
      | _ => some s

/-! ## Runs -/

/-- What happens to a server, with the challenge for a request that is made then. -/
inductive ServerEvent where
  /-- `eap_input` -/
  | input (packet : Input) (challenge : Challenge)
  | timeout (challenge : Challenge)

/-- `eap_input` as far as it concerns the server. -/
def serverInput (packet : Input) (challenge : Challenge) : Option (Server ε) :=
  match eapHeader packet with
  | none => some s
  | some (code, id, inp, len) =>
    if code = 2 then eapResponse env (s.emit (.received id (inp.take len))) inp id len challenge else some s

def serverStep : ServerEvent → Option (Server ε)
  | .input packet challenge => serverInput env s packet challenge
  | .timeout challenge => eapServerTimeout env s challenge

def serverRun : Server ε → List ServerEvent → Option (Server ε)
  | s, [] => some s
  | s, event :: events => do
    let s ← serverStep env s event
    serverRun s events

end Osp.Pppd
