import Osp.Lib.Bytes

/-!
# EAP-TLS sessions

`eap-tls.c`: the buffer of a session, which serves both directions, and the callbacks through which wolfSSL reads and writes it. A call of
`wolfSSL_negotiate` is the tree of the callbacks it makes. The calls are written to a log of the session, the latest last. `none` is
behaviour that C does not define, or the end of the process: a copy of a negative number of bytes or behind the end of a buffer, or an
allocation that cannot succeed.
-/

namespace Osp.Pppd

open Osp.Lib

/-- What `wolfSSL_negotiate` does with the callbacks: it reads at most so many bytes, or hands over bytes, and goes on according to the
result, until it returns with the next state of the engine. `none` and `false` are the result -2. -/
inductive Io (ε : Type) where
  | done (engine : ε)
  | recv (sz : Nat) (next : Option Bytes → Io ε)
  | send (buf : Bytes) (next : Bool → Io ε)

/-- A TLS engine: a call of `wolfSSL_negotiate` and `wolfSSL_is_init_finished`. -/
structure Tls (ε : Type) where
  negotiate : ε → Io ε
  finished : ε → Bool

/-- A call of a callback. -/
inductive IoCall where
  | recv (sz : Nat) (result : Option Bytes)
  | send (buf : Bytes) (accepted : Bool)

inductive RwState where
  | none
  | read
  | write
deriving DecidableEq

/-- `struct eaptls_session`. The length of `data` is the size of the allocated buffer, `rtx` is as long as `rtx_len`. -/
structure Session (ε : Type) where
  data : Option Bytes
  datalen : Nat
  dataused : Nat
  offset : Nat
  tlslen : Nat
  frag : Bool
  alertSent : Bool
  alertRecv : Bool
  rtx : Bytes
  mtu : Nat
  rwstate : RwState
  engine : ε
  calls : List IoCall

variable {ε : Type}

/-- `malloc`. What the buffer holds at first is never read. -/
def alloc (n : Nat) : Bytes := List.replicate n 0

/-- `realloc` to a larger buffer. -/
def realloc (data : Bytes) (n : Nat) : Bytes := data ++ alloc (n - data.length)

/-- `wolfssl_recv_callback`. -/
def wolfsslRecvCallback (s : Session ε) (sz : Nat) : Option Bytes × Session ε :=
  match s.rwstate, s.data with
  | .read, some data =>
    let available := s.datalen - s.dataused
    let recvd := if sz ≤ available then sz else available
    (some ((data.drop s.dataused).take recvd), { s with dataused := s.dataused + recvd })
  | _, _ => (none, s)

/-- `wolfssl_send_callback`. -/
def wolfsslSendCallback (s : Session ε) (buf : Bytes) : Bool × Session ε :=
  if s.rwstate = .write then
    let s := match s.data with
      | none => { s with dataused := 0, datalen := buf.length, data := some (alloc buf.length) }
      | some data => { s with datalen := s.datalen + buf.length, data := some (realloc data (s.datalen + buf.length)) }
    (true, { s with data := s.data.map (writeAt · s.dataused buf), dataused := s.datalen })
  else (false, s)

/-- Writes a call to the log. -/
def Session.note (s : Session ε) (call : IoCall) : Session ε := { s with calls := s.calls ++ [call] }

/-- Runs the callbacks of a call of `wolfSSL_negotiate`. -/
def runIo : Io ε → Session ε → Session ε
  | .done engine, s => { s with engine }
  | .recv sz next, s =>
    let (result, s) := wolfsslRecvCallback s sz
    runIo (next result) (s.note (.recv sz result))
  | .send buf next, s =>
    let (accepted, s) := wolfsslSendCallback s buf
    runIo (next accepted) (s.note (.send buf accepted))

variable (tls : Tls ε) (s : Session ε)

/-- `wolfSSL_negotiate`. -/
def wolfSSLNegotiate : Session ε := runIo (tls.negotiate s.engine) s

/-- `GETCHAR`. What is behind the bytes that are known is not read by the code. -/
def getChar (inp : Bytes) : UInt8 × Bytes := (inp.headD 0, inp.tail)

/-- `GETLONG`. -/
def getLong (inp : Bytes) : Nat × Bytes := (ofBe (inp.take 4), inp.drop 4)

/-- The part of `eaptls_receive` that reads the length and allocates the buffer: the session, what is left of the packet and its length. -/
def receiveHeader (flags : UInt8) (inp : Bytes) (len : Int) : Option (Session ε × Bytes × Int) :=
  if flags &&& 128 ≠ 0 then
    let (tlslen, inp) := getLong inp
    match s.data with
    | none =>
      -- the first packet of a message
      let tlslen := if 65536 < tlslen then 65536 else tlslen
      some ({ s with data := some (alloc tlslen), datalen := 0, tlslen }, inp, len - 4)
    | some _ => some (s, inp, len - 4)
  else
    match s.data with
    | none =>
      -- a message that is not fragmented
      if len < 0 then none else some ({ s with data := some (alloc len.toNat), datalen := 0, tlslen := len.toNat }, inp, len)
    | some _ => some (s, inp, len)

/-- The part of `eaptls_receive` that passes a whole message to the engine. -/
def passMessage : Session ε :=
  { wolfSSLNegotiate tls { s with dataused := 0 } with data := none, datalen := 0, dataused := 0 }

/-- The part of `eaptls_receive` that copies the data. -/
def receiveData (inp : Bytes) (len : Int) : Option (Nat × Session ε) :=
  if (s.tlslen : Int) < len + s.datalen then some (1, { s with rwstate := .none })
  else if len < 0 then none
  else
    let data := s.data.getD []
    if data.length < s.datalen + len.toNat then none
    else
      let s := { s with data := some (writeAt data s.datalen (inp.take len.toNat)), datalen := s.datalen + len.toNat }
      if s.frag then some (0, { s with rwstate := .none })
      else if s.datalen ≠ s.tlslen then some (1, { s with rwstate := .none })
      else some (0, { passMessage tls s with rwstate := .none })

/-- `eaptls_receive`: the result and the session. -/
def eaptlsReceive (inp : Bytes) (len : Int) : Option (Nat × Session ε) := do
  let (flags, inp) := getChar inp
  let (s, inp, len) ← receiveHeader { s with rwstate := .read } flags inp (len - 1)
  receiveData tls { s with frag := flags &&& 64 ≠ 0 } inp len

/-- The type, the flags and the length of a packet. -/
def sendHeader (frag first : Bool) (datalen : Nat) : Bytes :=
  if frag && first then [13, 192] ++ beBytes 4 datalen else if frag then [13, 64] else [13, 0]

/-- The part of `eaptls_send` that lets the engine fill the buffer. -/
def sendFill : Session ε :=
  { (if s.alertSent then s else wolfSSLNegotiate tls s) with offset := 0 }

/-- The part of `eaptls_send` that makes up a packet. -/
def sendPacket (first : Bool) : Option (Bytes × Session ε) :=
  let rest := (s.datalen : Int) - s.offset
  let frag : Bool := s.mtu < rest
  let size := if frag then (s.mtu : Int) else rest
  let data := s.data.getD []
  if size < 0 then none
  else if data.length < s.offset + size.toNat then none
  else
    let packet := sendHeader frag first s.datalen ++ (data.drop s.offset).take size.toNat
    if 65536 < packet.length then none
    else
      let s := { s with frag, rtx := packet, offset := s.offset + size.toNat, rwstate := .none }
      if s.datalen ≤ s.offset then some (packet, { s with data := none, datalen := 0, offset := 0 }) else some (packet, s)

/-- `eaptls_send`: the packet and the session. -/
def eaptlsSend : Option (Bytes × Session ε) :=
  let s := { s with rwstate := .write }
  match s.data with
  | none => sendPacket (sendFill tls s) true
  | some _ => sendPacket s false

/-- Calls of `eaptls_send` until the message is sent: the packets and the session. -/
def sendAll : Nat → Session ε → Option (List Bytes × Session ε)
  | 0, _ => none
  | n + 1, s => do
    let (packet, s) ← eaptlsSend tls s
    if s.frag then
      let (packets, s) ← sendAll n s
      some (packet :: packets, s)
    else some ([packet], s)

/-- Passes packets without their type to `eaptls_receive`, as long as it returns 0. -/
def receiveAll : List Bytes → Session ε → Option (Session ε)
  | [], s => some s
  | packet :: packets, s =>
    match eaptlsReceive tls s packet packet.length with
    | some (0, s) => receiveAll packets s
    | _ => none

/-! ## The log -/

/-- The bytes that the engine was given. -/
def given : List IoCall → Bytes
  | [] => []
  | .recv _ result :: calls => result.getD [] ++ given calls
  | .send _ _ :: calls => given calls

/-- How many bytes the engine asked for. -/
def asked : List IoCall → Nat
  | [] => 0
  | .recv sz _ :: calls => sz + asked calls
  | .send _ _ :: calls => asked calls

/-- The bytes that the engine handed over. -/
def handed : List IoCall → Bytes
  | [] => []
  | .recv _ _ :: calls => handed calls
  | .send buf accepted :: calls => (if accepted then buf else []) ++ handed calls

end Osp.Pppd
