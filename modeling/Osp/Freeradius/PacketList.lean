import Mathlib.Data.ZMod.Defs

/-!
# Packet lists that allocate ids

`packet.c`. A socket has a bit in the mask of the list and one for every id and destination. A destination that is not in the hash
table gets an entry of zeros, so it has one here.
-/

namespace Osp.Freeradius

/-- `fr_ipaddr_t`. -/
inductive Ipaddr where
  | unspec
  | inet (addr : BitVec 32)
  | inet6 (addr : BitVec 128) (scope : Nat)
deriving DecidableEq

namespace Ipaddr

def af : Ipaddr → Nat
  | unspec => 0
  | inet _ => 2
  | inet6 .. => 10

/-- `fr_inaddr_any`. -/
def inaddrAny : Ipaddr → Option Bool
  | unspec => none
  | inet addr => some (addr = 0)
  | inet6 addr _ => some (addr = 0)

/-- The address of zeros in the family of an address. -/
def zeros : Ipaddr → Ipaddr
  | unspec => unspec
  | inet _ => inet 0
  | inet6 .. => inet6 0 0

end Ipaddr

/-- `fr_packet_socket_t`. -/
structure PacketSocket where
  sockfd : Int := -1
  numOutgoing : Nat := 0
  inaddrAny : Bool := false
  ipaddr : Ipaddr := .unspec
  port : Nat := 0

/-- `fr_packet_list_t`, with the ids of `dst2id_ht`. -/
structure PacketList where
  numOutgoing : Nat := 0
  mask : BitVec 32 := 0
  sockets : Fin 32 → PacketSocket := fun _ => {}
  ids : Ipaddr × Nat → Fin 256 → BitVec 32 := fun _ _ => 0

/-- What `fr_packet_list_id_alloc` reads and sets of a packet. -/
structure IdRequest where
  dst : Ipaddr × Nat
  src : Ipaddr × Nat := (.unspec, 0)
  sockfd : Int := -1
  id : Fin 256 := 0

/-- The order in which a loop that starts in the middle visits its indices. -/
def cyclic {n : Nat} [NeZero n] (start : Fin n) : List (Fin n) := (List.finRange n).map (start + ·)

/-- `fr_packet_list_socket_add`, with the address that `getsockname` gives. -/
def socketAdd (pl : PacketList) (sockfd : Nat) (name : Option (Ipaddr × Nat)) : PacketList :=
  match (cyclic (Fin.ofNat 32 (sockfd * 0x01000193))).find? fun i => (pl.sockets i).sockfd = -1 with
  | none => pl
  | some i =>
    match name with
    | none => { pl with sockets := Function.update pl.sockets i { sockfd } }
    | some (ipaddr, port) =>
      let inaddrAny := ipaddr.inaddrAny = some true
      { pl with
        mask := pl.mask ||| 1#32 <<< i.val
        sockets := Function.update pl.sockets i { sockfd, inaddrAny, ipaddr, port } }

/-- The source address that is asked for. -/
def IdRequest.source (request : IdRequest) : Ipaddr := if request.src.1 = .unspec then request.dst.1.zeros else request.src.1

/-- A socket that `fr_packet_list_id_alloc` does not skip. -/
def usable (request : IdRequest) (ps : PacketSocket) : Bool :=
  let srcAny := request.source.inaddrAny = some true
  ps.sockfd ≠ -1 ∧ ps.ipaddr.af = request.dst.1.af ∧ ¬(ps.inaddrAny ∧ ¬srcAny) ∧
    ¬(!ps.inaddrAny ∧ ¬srcAny ∧ request.source ≠ ps.ipaddr)

/-- `fr_packet_list_id_alloc`, with the random number. -/
def idAlloc (pl : PacketList) (request : IdRequest) (rand : Fin 256) : Except String (PacketList × IdRequest) :=
  let used := pl.ids request.dst
  if request.dst.1 = .unspec ∨ request.dst.2 = 0 then .error "No destination address/port specified"
  else if request.source.inaddrAny = none then .error "Error checking src IP address"
  else if request.dst.1.inaddrAny ≠ some false then .error "Error checking dst IP address"
  else
    match (cyclic rand).find? fun id => used id ≠ pl.mask with
    | none => .error "All IDs are being used"
    | some id =>
      let freeMask := ~~~(~~~used id &&& pl.mask)
      match (List.finRange 32).find? fun i => usable request (pl.sockets i) && !freeMask.getLsb i with
      | none => .error "Internal sanity check failed"
      | some i =>
        let ps := pl.sockets i
        .ok ({ pl with
            numOutgoing := pl.numOutgoing + 1
            sockets := Function.update pl.sockets i { ps with numOutgoing := ps.numOutgoing + 1 }
            ids := Function.update pl.ids request.dst (Function.update used id (used id ||| 1#32 <<< i.val)) },
          { request with id, sockfd := ps.sockfd, src := (ps.ipaddr, ps.port) })

end Osp.Freeradius
