import Osp.Pppd.EapServer

/-!
# The EAP client

The authenticatee of `eap.c`.
-/

namespace Osp.Pppd

open Osp.Lib

/-- `es_client`. -/
structure Client (ε : Type) where
  name : Bytes
  peer : Option Bytes
  session : Pointer (Session ε)
  timeout : Int
  maxrequests : Int
  state : EapState
  id : UInt8
  requests : UInt8
  usingEaptls : Bool
  log : List EapEntry

variable {ε : Type} (env : Env ε) (c : Client ε)

def Client.emit (e : EapEntry) : Client ε := { c with log := e :: c.log }

def Client.setState (state : EapState) : Client ε := { c with state }

/-- `eap_client_active`, which is the disjunction of three inequalities. -/
def Client.active : Bool := c.state ≠ .initial ∨ c.state ≠ .pending ∨ c.state ≠ .closed

/-- Stops the timer if there is one. -/
def Client.untimeout : Client ε := if 0 < c.timeout then c.emit .untimeout else c

/-- `eap_authwithpeer`. -/
def eapAuthwithpeer (localname : Bytes) : Client ε :=
  let c := { c with name := localname, state := .listen }
  if 0 < c.timeout then c.emit .timeout else c

/-- `eap_client_timeout`. -/
def eapClientTimeout : Client ε := if !c.active then c else (c.emit .failed).setState .badAuth

/-- A response. -/
def sendResponse (id : UInt8) (body : Bytes) : Client ε := { c with id }.emit (.sent 2 id body)

/-- `eap_send_nak`. -/
def eapSendNak (id type : UInt8) : Client ε := sendResponse c id [3, type]

/-- `eap_tls_sendack`. -/
def eapTlsSendack (id : UInt8) : Client ε := sendResponse c id [13, 0]

/-- `eap_tls_response`. The state that the callers set then is determined by the session. The buffer has 1504 bytes, of which the headers
take 8. -/
def eapTlsResponse (ets : Session ε) (id : UInt8) : Option (Client ε) := do
  let (packet, ets) ← if id = c.id then some (ets.rtx, ets) else eaptlsSend env.tls ets
  if 1504 < 8 + packet.length then none
  else
    let c := sendResponse ({ c with session := .live ets }.emit .used) id packet
    some (c.setState (if ets.frag then .tlsRecvAck else .tlsRecv))

/-- A Start in the state `eapListen`. -/
def tlsAccept (id : UInt8) : Option (Client ε) :=
  let peer := if env.explicitRemote then some env.remoteName else none
  match env.initClient c.name peer with
  | none => some (eapSendNak ({ c with peer, usingEaptls := false, session := .invalid }.emit (.start false)) id 13)
  | some new => eapTlsResponse env ({ c with peer, usingEaptls := true }.emit (.start true)) new.session id

/-- A TLS request in the state `eapListen`. -/
def tlsListen (inp : Bytes) (id : UInt8) : Option (Client ε) :=
  if (getChar inp).1 &&& 32 ≠ 0 then tlsAccept env c id else some (eapSendNak c id 13)

/-- A TLS request in the state `eapTlsRecv`. The result of `eaptls_receive` is not used. -/
def tlsData (inp : Bytes) (id : UInt8) (len : Nat) : Option (Client ε) := do
  let ets ← c.session.deref
  let (_, ets) ← eaptlsReceive env.tls ets inp len
  let c := { c with session := .live ets }.emit .used
  if ets.frag then some ((eapTlsSendack c id).setState .tlsRecv)
  else if ets.alertRecv then some ((eapTlsSendack c id).setState .tlsRecvFailure)
  else
    let c := c.emit (.finished (env.tls.finished ets.engine))
    if env.tls.finished ets.engine then some ((eapTlsSendack ({ c with session := .invalid }.emit .used) id).setState .tlsRecvSuccess)
    else eapTlsResponse env c ets id

/-- A TLS request. -/
def tlsRequest (inp : Bytes) (id : UInt8) (len : Nat) : Option (Client ε) :=
  match c.state with
  | .listen => tlsListen env c inp id
  | .tlsRecvAck => do
    let ets ← c.session.deref
    eapTlsResponse env c ets id
  | .tlsRecv => tlsData env c inp id len
  | _ => some { eapSendNak c id 13 with usingEaptls := false }

/-- An MD5 request with a challenge. The name is copied into a buffer of 256 bytes. -/
def md5Request (inp : Bytes) (id vallen : UInt8) (len : Nat) : Option (Client ε) :=
  if vallen.toNat < 8 ∨ len < vallen.toNat then some (eapSendNak c id 19)
  else if 255 < len - vallen.toNat then none
  else
    let rhostname :=
      if env.explicitRemote ∨ env.remoteName ≠ [] ∧ vallen.toNat = len then env.remoteName.take 255
      else (inp.drop vallen.toNat).take (len - vallen.toNat)
    match env.getSecret (some c.name) rhostname with
    | none => some (eapSendNak c id 19)
    | some secret => some (sendResponse c id (4 :: 16 :: ((env.md5 (id :: (secret ++ inp.take vallen.toNat))).take 16 ++ c.name)))

/-- The end of `eap_request`. -/
def finishClient : Client ε := if 0 < c.timeout then (c.emit .untimeout).emit .timeout else c

/-- `eap_request`. -/
def eapRequest (inp : Bytes) (id : UInt8) (len : Nat) : Option (Client ε) :=
  let c := { c with requests := c.requests + 1 }
  if c.maxrequests ≠ 0 ∧ c.maxrequests < c.requests.toNat then some (c.untimeout.emit .failed)
  else if len = 0 then some c
  else
    let (typenum, inp) := getChar inp
    let len := len - 1
    match typenum with
    | 1 => some (finishClient (sendResponse c id (1 :: c.name)))
    | 2 => some (finishClient (sendResponse c id [2]))
    | 3 => some c
    | 4 =>
      if len < 1 then some c
      else do
        let (vallen, inp) := getChar inp
        let c ← md5Request env c inp id vallen (len - 1)
        some (finishClient c)
    | 13 => do
      let c ← tlsRequest env c inp id len
      some (finishClient c)
    | _ => some (finishClient (eapSendNak c id 19))

/-- `eap_success`. -/
def eapSuccess : Client ε :=
  if c.state ≠ .open ∧ !c.active ∧ c.state ≠ .tlsRecvSuccess then c
  else if c.usingEaptls ∧ c.state ≠ .tlsRecvSuccess then c
  else (c.untimeout.setState .open).emit .succeeded

/-- `eap_failure`. -/
def eapFailure : Client ε := (c.untimeout.setState .badAuth).emit .failed

/-! ## Runs -/

/-- What happens to a client. -/
inductive ClientEvent where
  /-- `eap_input` -/
  | input (packet : Input)
  | timeout

/-- `eap_input` as far as it concerns the client. -/
def clientInput (packet : Input) : Option (Client ε) :=
  match eapHeader packet with
  | none => some c
  | some (code, id, inp, len) =>
    match code with
    | 1 => eapRequest env (c.emit (.received id (inp.take len))) inp id len
    | 3 => some (eapSuccess c)
    | 4 => some (eapFailure c)
    | _ => some c

def clientStep : ClientEvent → Option (Client ε)
  | .input packet => clientInput env c packet
  | .timeout => some (eapClientTimeout c)

def clientRun : Client ε → List ClientEvent → Option (Client ε)
  | c, [] => some c
  | c, event :: events => do
    let c ← clientStep env c event
    clientRun c events

end Osp.Pppd
