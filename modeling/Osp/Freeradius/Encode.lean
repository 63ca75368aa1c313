import Osp.Lib.Bytes

/-!
# Packets

The part of `radius.c` that writes value pairs into a packet, hides passwords, and signs and verifies packets. `none` is a return of -1, or
a pointer that is used without being one.
-/

namespace Osp.Freeradius

open Osp.Lib

/-! ## Value pairs and the dictionary

The data of `libradius.h`; names, operators and the other flags are left out. -/

/-- `PW_TYPE_*`. -/
inductive PwType where
  | string | integer | ipaddr | date | abinary | octets | ifid | ipv6addr | ipv6Prefix | byte | short | ethernet | signed | comboIp | tlv
deriving DecidableEq

/-- `FLAG_ENCRYPT_*`; any other number leaves a value as it is. -/
inductive Encrypt where
  | none | userPassword | tunnelPassword | ascendSecret | other
deriving DecidableEq

/-- `ATTR_FLAGS`. -/
structure AttrFlags where
  hasTag : Bool := false
  unknownAttr : Bool := false
  isTlv : Bool := false
  encoded : Bool := false
  tag : UInt8 := 0
  encrypt : Encrypt := .none
deriving DecidableEq

/-- `TAG_VALID`. -/
def tagValid (tag : UInt8) : Bool := 0 < tag && tag < 32

/-- `DICT_ATTR`. -/
structure DictAttr where
  type : PwType
  flags : AttrFlags

/-- `DICT_VENDOR`: how many bytes the type and the length of an attribute have, and whether a byte for continuations follows. The loader of
dictionaries refuses other sizes. -/
structure DictVendor where
  type : Nat
  length : Nat
  flags : Bool
  type_eq : type = 1 ∨ type = 2 ∨ type = 4
  length_eq : length = 0 ∨ length = 1 ∨ length = 2

/-- The tables of the dictionary. The number of an attribute has the number of its vendor in its upper half. The loader refuses tags except
for strings and integers, and sets no flag that belongs to a value pair. -/
structure Dict where
  attrByValue : Nat → Option DictAttr
  vendorByValue : Nat → Option DictVendor
  tagged : ∀ n da, attrByValue n = some da → da.flags.hasTag = true → da.type = .string ∨ da.type = .integer
  unset : ∀ n da, attrByValue n = some da → da.flags.unknownAttr = false ∧ da.flags.encoded = false ∧ da.flags.tag = 0

/-- `VENDOR`. -/
def vendorOf (attr : Nat) : Nat := attr / 65536 % 65536

/-- `VALUE_PAIR`. The bytes are those of the union `data`, of which the ones that are not given are 0; a TLV has a pointer there, with what
it points to here. -/
structure ValuePair where
  attr : Nat
  type : PwType
  length : Nat
  flags : AttrFlags
  lvalue : Nat := 0
  octets : Bytes := []
deriving DecidableEq

/-- The first bytes at a place in memory. -/
def readMem (mem : Bytes) (n : Nat) : Bytes := (mem ++ List.replicate n 0).take n

@[simp] theorem length_readMem (mem : Bytes) (n : Nat) : (readMem mem n).length = n := by simp [readMem]

/-- `pairalloc`. -/
def pairalloc (attr : Nat) (da : Option DictAttr) : ValuePair :=
  match da with
  | none => { attr := 0, type := .octets, length := 0, flags := { unknownAttr := true } }
  | some da =>
    { attr, type := da.type, flags := da.flags
      length :=
        match da.type with
        | .byte => 1
        | .short => 2
        | .integer | .ipaddr | .date | .signed => 4
        | .ifid => 8
        | .ipv6addr => 16
        | .ipv6Prefix => 18
        | .ethernet => 6
        | _ => 0 }

/-- `paircreate_raw`, for a pair from `pairalloc`. -/
def paircreateRaw (attr : Nat) (type : PwType) : ValuePair :=
  { attr, type, length := 0, flags := { unknownAttr := true } }

/-- `paircreate`. -/
def paircreate (dict : Dict) (attr : Nat) (type : PwType) : ValuePair :=
  match dict.attrByValue attr with
  | none => paircreateRaw attr type
  | some da => pairalloc attr (some da)

/-! ## Digests -/

/-- An array of `AUTH_VECTOR_LEN` bytes. -/
abbrev Digest := Vector UInt8 16

/-- The digest at a place in a packet. -/
def digestAt (data : Bytes) (off : Nat) : Digest := Vector.ofFn fun i => data.getD (off + i) 0

def zeroDigest : Digest := Vector.replicate 16 0

@[simp] theorem digestAt_append (front back : Bytes) (digest : Digest) : digestAt (front ++ (digest.toList ++ back)) front.length = digest := by
  ext i hi
  have hget : (front ++ (digest.toList ++ back)).getD (front.length + i) 0 = digest.toList.getD i 0 := by
    simp [List.getElem?_append_right, List.getElem?_append_left, hi]
  simp only [digestAt, Vector.getElem_ofFn]
  rw [hget]
  simp [hi]

/-- MD5 and HMAC-MD5. -/
structure Md5 where
  md5 : Bytes → Digest
  hmac : (key text : Bytes) → Digest

/-- `RADIUS_PACKET`, without the addresses. A packet that is not encoded has no data. -/
structure RadPacket where
  code : Nat
  id : Int
  vector : Digest
  data : Bytes
  offset : Nat
  vps : List ValuePair
deriving DecidableEq

/-- What encoding is given: the dictionary, the digests, the secret, and the salt for an attribute at an offset. -/
structure EncodeEnv where
  dict : Dict
  md5 : Md5
  secret : Bytes
  salt : Nat → UInt8 × UInt8

def xorBytes (a b : Bytes) : Bytes := List.zipWith (· ^^^ ·) a b

variable (e : EncodeEnv) (packet : RadPacket) (original : Option RadPacket) (salt : UInt8 × UInt8) (vp : ValuePair)

/-! ## Encryption -/

/-- Rounded up to whole blocks of `AUTH_PASS_LEN`. -/
def roundBlocks (n : Nat) : Nat := (n + 15) / 16 * 16

/-- The loop of `make_passwd` and `make_tunnel_passwd`, for so many blocks: each block is combined with the digest of the secret and the
block before it as it was sent. -/
def hideBlocks (e : EncodeEnv) : Nat → Bytes → Bytes → Bytes
  | 0, _, _ => []
  | blocks + 1, before, text =>
    let block := xorBytes (text.take 16) (e.md5.md5 (e.secret ++ before)).toList
    block ++ hideBlocks e blocks block (text.drop 16)

/-- `make_passwd`. -/
def makePasswd (vector : Digest) (input : Bytes) : Bytes :=
  let text := input.take 128
  let len := if text.length = 0 then 16 else roundBlocks text.length
  hideBlocks e (len / 16) vector.toList (readMem text len)

/-- `make_tunnel_passwd`. -/
def makeTunnelPasswd (vector : Digest) (salt : UInt8 × UInt8) (room : Nat) (input : Bytes) : Bytes :=
  let text := input.take ((min room 253 - 2) / 16 * 16 - 1)
  let len := roundBlocks (text.length + 1)
  salt.1 :: salt.2 ::
    hideBlocks e (len / 16) (vector.toList ++ [salt.1, salt.2]) (readMem (UInt8.ofNat text.length :: text) len)

/-- `make_secret`. -/
def makeSecret (vector : Digest) (input : Bytes) : Bytes :=
  xorBytes (e.md5.md5 (vector.toList ++ e.secret)).toList (readMem input 16)

/-! ## Values -/

/-- The first part of `vp2data`: the bytes of a value. A signed number is not converted, because the converted one is not used. -/
def vpData : Option Bytes :=
  match vp.type with
  | .string | .octets | .ifid | .ipv6addr | .ipv6Prefix | .abinary => some (readMem vp.octets vp.length)
  | .byte => some (beBytes 1 vp.lvalue)
  | .short => some (beBytes 2 vp.lvalue)
  | .integer | .date => some (beBytes 4 vp.lvalue)
  | .ipaddr => some (leBytes 4 vp.lvalue)
  | .signed => some (readMem vp.octets 4)
  | .tlv => if vp.octets = [] then none else some (readMem vp.octets vp.length)
  | .ethernet | .comboIp => none

/-- The vector that hides a tunnel password. -/
def tunnelVector : Option Digest :=
  match packet.code with
  | 4 | 40 | 43 => some packet.vector
  | _ => original.map RadPacket.vector

/-- `vp2data`. -/
def vp2data (room : Nat) :
    Option Bytes :=
  (vpData vp).bind fun data =>
    match vp.flags.encrypt with
    | .userPassword => some (makePasswd e packet.vector (data.take room))
    | .tunnelPassword =>
      if room < 18 then some []
      else (tunnelVector packet original).map fun vector => makeTunnelPasswd e vector salt room (data.take room)
    | .ascendSecret => some (makeSecret e packet.vector data)
    | .none | .other => some (data.take room)

/-! ## Attributes -/

/-- The part of `rad_vp2attr` that writes the value, with its tag. -/
def taggedData (room : Nat) :
    Option Bytes :=
  if vp.flags.hasTag ∧ vp.type = .string ∧ (tagValid vp.flags.tag ∨ vp.flags.encrypt = .tunnelPassword) then
    (vp2data e packet original salt vp (room - 1)).map (vp.flags.tag :: ·)
  else if vp.flags.hasTag ∧ vp.type = .integer then (vp2data e packet original salt vp room).map (·.set 0 vp.flags.tag)
  else vp2data e packet original salt vp room

/-- `PW_CHARGEABLE_USER_IDENTITY`. -/
def chargeableUserIdentity : Nat := 89

/-- An attribute, unless its value is empty. -/
def unlessEmpty (data : Bytes) (attr : Bytes) : Bytes :=
  if data = [] ∧ vp.attr ≠ chargeableUserIdentity then [] else attr

/-- The type of an attribute in a vendor's format. -/
def vsaType (vendor : DictVendor) (attr : Nat) : Bytes := if vendor.type = 4 then [0, 0] ++ beBytes 2 attr else beBytes vendor.type attr

/-- The length of an attribute in a vendor's format. -/
def vsaLength (vendor : DictVendor) (len : Nat) : Bytes :=
  if vendor.length = 0 then [] else if vendor.length = 1 then [UInt8.ofNat len] else [0, UInt8.ofNat len]

/-- The loop of `rad_vp2continuation`, for at most so many pieces. -/
def continuationPieces (header : Bytes) : Nat → Bytes → Bytes
  | 0, _ => []
  | pieces + 1, data =>
    if data = [] then []
    else
      let piece := min data.length (254 - header.length)
      let header' := (header.set 1 (UInt8.ofNat (header.length + piece + 1))).set (header.length - 1)
        (UInt8.ofNat (header.length - 6 + 1 + piece))
      header' ++ (if 254 - header.length < data.length then 0x80 else 0) :: data.take piece ++
        continuationPieces header pieces (data.drop piece)

/-- `rad_vp2continuation`. -/
def radVp2continuation (header : Bytes) : Bytes :=
  if vp.flags.encrypt ≠ .none then []
  else
    match vp.type with
    | .tlv | .octets | .string => continuationPieces header vp.length (readMem vp.octets vp.length)
    | _ => []

/-- The formats of a vendor that is not in the dictionary. -/
def rfcFormat : DictVendor := ⟨1, 1, false, .inl rfl, .inr (.inl rfl)⟩

/-- `rad_vp2attr` for an attribute of a vendor. -/
def radVp2vsa : Option Bytes :=
  let vendor := (e.dict.vendorByValue (vendorOf vp.attr)).getD rfcFormat
  let front := beBytes 4 (vendorOf vp.attr) ++ vsaType vendor vp.attr
  let size := 6 + vendor.type + vendor.length
  if vendor.flags ∧ 254 - size < vp.length then some (radVp2continuation vp ([26, 6] ++ front ++ List.replicate vendor.length 0))
  else
    let sub := vendor.flags && vp.flags.isTlv
    let offset := if vendor.flags then if sub then 3 else 1 else 0
    (taggedData e packet original salt vp (255 - (size + offset))).map fun data =>
      let flags : Bytes := if vendor.flags then [0] else []
      let inner : Bytes := if sub then [UInt8.ofNat (vp.attr / 256), UInt8.ofNat (2 + data.length)] else []
      let len := vendor.type + vendor.length + offset + data.length
      unlessEmpty vp data ([26, UInt8.ofNat (6 + len)] ++ front ++ vsaLength vendor len ++ flags ++ inner ++ data)

/-- `rad_vp2attr`: nothing is written if it returns 0. -/
def radVp2attr : Option Bytes :=
  if vendorOf vp.attr = 0 then
    (taggedData e packet original salt vp 253).map fun data =>
      unlessEmpty vp data (UInt8.ofNat vp.attr :: UInt8.ofNat (2 + data.length) :: data)
  else radVp2vsa e packet original salt vp

/-! ## Sub-attributes -/

/-- The number of an attribute without the number of a sub-attribute. -/
def parentAttr (attr : Nat) : Nat := attr / 65536 * 65536 + attr % 256

/-- Whether `rad_vp2tlv` goes on with a pair. -/
def tlvNext (parent maxattr : Nat) (vp : ValuePair) : Bool :=
  vp.flags.isTlv && !vp.flags.encoded && vp.flags.encrypt = .none && parentAttr vp.attr = parent && maxattr < vp.attr / 256 % 256 * 256

/-- The first loop of `rad_vp2tlv`. -/
def tlvLength (parent : Nat) : Nat → List ValuePair → Nat
  | _, [] => 0
  | maxattr, vp :: vps => if tlvNext parent maxattr vp then vp.length + 2 + tlvLength parent (vp.attr / 256 % 256 * 256) vps else 0

/-- The second loop of `rad_vp2tlv`: the bytes, unless a sub-attribute is too long, and the pairs with those marked that were encoded. -/
def tlvFill (parent : Nat) : Nat → Nat → List ValuePair → Option (Option Bytes × List ValuePair)
  | _, _, [] => some (some [], [])
  | maxattr, room, vp :: vps =>
    if tlvNext parent maxattr vp then
      (vpData vp).bind fun data =>
        let data := data.take room
        if 255 < 2 + data.length then some (none, vp :: vps)
        else
          (tlvFill parent (vp.attr / 256 % 256 * 256) (room - (2 + data.length)) vps).map fun (bytes, vps) =>
            (bytes.map fun bytes => UInt8.ofNat (vp.attr / 256) :: UInt8.ofNat (2 + data.length) :: data ++ bytes,
              { vp with flags := { vp.flags with encoded := true } } :: vps)
    else some (some [], vp :: vps)

/-- `rad_vp2tlv` for a pair and those behind it. -/
def radVp2tlv (dict : Dict) (vp : ValuePair) (vps : List ValuePair) : Option (Option ValuePair × List ValuePair) :=
  let parent := parentAttr vp.attr
  let length := tlvLength parent (vp.attr % 256) (vp :: vps)
  if length = 0 then some (none, vps)
  else
    (tlvFill parent (vp.attr % 256) length (vp :: vps)).map fun (bytes, vps) =>
      (bytes.map fun octets => { paircreate dict parent .tlv with length, octets }, vps.tail)

/-! ## Packets -/

/-- `PW_MESSAGE_AUTHENTICATOR`. -/
def messageAuthenticator : Nat := 80

/-- An attribute that is not sent. -/
def nonWire : Bool := vendorOf vp.attr = 0 && 0xff < vp.attr % 65536

/-- The value of the Message-Authenticator is cleared. -/
def clearAuthenticator : ValuePair :=
  if vp.attr = messageAuthenticator then { vp with length := 16, octets := List.replicate 16 0 ++ vp.octets.drop 16 } else vp

/-- The part of the loop of `rad_encode` that writes a pair: the bytes, and the pairs behind it. -/
def encodePair
    (vps : List ValuePair) : Option (Bytes × List ValuePair) :=
  if vp.flags.isTlv then
    (radVp2tlv e.dict vp vps).bind fun (tlv, vps) =>
      match tlv, vps with
      | some tlv, vps => (radVp2attr e packet original salt tlv).map (·, vps)
      | none, [] => none
      | none, vp :: vps => (radVp2attr e packet original salt vp).map (·, vps)
  else (radVp2attr e packet original salt vp).map (·, vps)

/-- What the loop of `rad_encode` wrote, where the Message-Authenticator is, and whether data was discarded. -/
structure Encoded where
  bytes : Bytes
  offset : Nat
  discarded : Bool

/-- The loop of `rad_encode`, for at most so many pairs. -/
def encodeLoop (e : EncodeEnv) (packet : RadPacket) (original : Option RadPacket) : Nat → Nat → Nat → List ValuePair → Option Encoded
  | _, _, offset, [] => some ⟨[], offset, false⟩
  | 0, _, _, _ :: _ => none
  | pairs + 1, total, offset, vp :: vps =>
    if nonWire vp then encodeLoop e packet original pairs total offset vps
    else
      let offset := if vp.attr = messageAuthenticator then total else offset
      if vp.flags.encoded then encodeLoop e packet original pairs total offset vps
      else
        (encodePair e packet original (e.salt total) (clearAuthenticator vp) vps).bind fun step =>
          if 4096 < total + step.1.length then some ⟨[], offset, true⟩
          else
            (encodeLoop e packet original pairs (total + step.1.length) offset step.2).map fun rest =>
              { rest with bytes := step.1 ++ rest.bytes }

/-- The header of a packet. -/
def packetHeader (code : Nat) (id : Int) (length : Nat) : Bytes :=
  [UInt8.ofNat code, UInt8.ofNat (id % 256).toNat] ++ beBytes 2 length

/-- The checks of `rad_encode` that depend on the code. -/
def startEncode : Option RadPacket :=
  match packet.code with
  | 2 | 3 | 11 => if original.isNone then none else some packet
  | 4 | 40 | 43 => some { packet with vector := zeroDigest }
  | _ => some packet

/-- `rad_encode`, and whether data was discarded. -/
def radEncode : Option (RadPacket × Bool) :=
  (startEncode packet original).bind fun packet =>
    (encodeLoop e packet original packet.vps.length 20 0 packet.vps).map fun encoded =>
      ({ packet with
          data := packetHeader packet.code packet.id (20 + encoded.bytes.length) ++ packet.vector.toList ++ encoded.bytes
          offset := encoded.offset },
        encoded.discarded)

/-! ## Passwords outside of packets -/

section

variable (e : EncodeEnv) (vector : Digest)

/-- `rad_pwencode`. -/
def radPwencode (passwd : Bytes) : Bytes :=
  let text := passwd.take 128
  let len := if text.length = 0 then 16 else if text.length % 16 ≠ 0 then text.length + (16 - text.length % 16) else text.length
  hideBlocks e (len / 16) vector.toList (readMem text len)

/-- The loop of `rad_pwdecode` and `rad_tunnel_pwdecode`, for so many blocks: a block is read before it is written over. -/
def revealBlocks : Nat → Bytes → Bytes → Bytes
  | 0, _, _ => []
  | blocks + 1, before, text =>
    xorBytes (text.take 16) (e.md5.md5 (e.secret ++ before)).toList ++ revealBlocks blocks (text.take 16) (text.drop 16)

/-- `rad_pwdecode`: the password, and the length of the string. -/
def radPwdecode (passwd : Bytes) : Bytes × Nat :=
  let len := min passwd.length 128
  let text := (revealBlocks e ((len + 15) / 16) vector.toList passwd).take len
  (text, (text.takeWhile (· ≠ 0)).length)

/-- `rad_tunnel_pwencode`. The secret, the vector and the salt are copied into a buffer of 273 bytes. -/
def radTunnelPwencode (salt : UInt8 × UInt8) (passwd : Bytes) : Option Bytes :=
  let text := passwd.take 127
  let len := text.length + 1
  let len := if len % 16 ≠ 0 then len + (16 - len % 16) else len
  if 273 < e.secret.length + 16 + 2 then none
  else
    some (salt.1 :: salt.2 ::
      hideBlocks e (len / 16) (vector.toList ++ [salt.1, salt.2]) (readMem (UInt8.ofNat text.length :: text) len))

/-- `rad_tunnel_pwdecode`. The first byte that is read is the length of the password. -/
def radTunnelPwdecode (passwd : Bytes) : Option Bytes :=
  if passwd.length < 2 then none
  else if passwd.length ≤ 3 then some []
  else
    let len := passwd.length - 2
    let text := revealBlocks e ((len + 15) / 16) (vector.toList ++ passwd.take 2) (passwd.drop 2)
    let reallen := (text.headD 0).toNat
    if len ≤ reallen then none else some (text.tail.take (min reallen 239))

end

/-! ## Signing and verifying packets -/

section

/-- `rad_sign`: the vector of the header while the Message-Authenticator is calculated. -/
def signVector (code : Nat) (original : Option RadPacket) (vector : Digest) : Option Digest :=
  match code with
  | 5 => if original.any (·.code = 12) then original.map RadPacket.vector else some zeroDigest
  | 4 | 40 | 41 | 42 | 43 | 44 | 45 => some zeroDigest
  | 2 | 3 | 11 => original.map RadPacket.vector
  | _ => some vector

variable (md5 : Md5) (secret : Bytes) (packet : RadPacket) (original : Option RadPacket)

/-- `rad_sign`. -/
def radSign : Option RadPacket :=
  if packet.id < 0 ∨ packet.data.length < 20 then none
  else
    (if 0 < packet.offset then
      (signVector packet.code original (digestAt packet.data 4)).map fun vector =>
        let data := writeAt packet.data 4 vector.toList
        writeAt (writeAt data (packet.offset + 2) (md5.hmac secret data).toList) 4 packet.vector.toList
    else some packet.data).map fun data =>
      match packet.code with
      | 1 | 12 => { packet with data }
      | _ => { packet with data := writeAt data 4 (md5.md5 (data ++ secret)).toList, vector := md5.md5 (data ++ secret) }

/-- What the walk of `rad_packet_ok` over the attributes found. -/
structure Walked where
  requireMa : Bool
  seenMa : Bool
  numAttributes : Nat

/-- The walk of `rad_packet_ok`, for at most so many attributes. -/
def okLoop : Nat → Walked → Bytes → Option Walked
  | _, w, [] => some w
  | 0, _, _ :: _ => none
  | attrs + 1, w, attr =>
    let type := attr.getD 0 0
    let len := (attr.getD 1 0).toNat
    if attr.length < 2 ∨ type = 0 ∨ len < 2 ∨ attr.length < len ∨ type = 80 ∧ len ≠ 18 then none
    else
      okLoop attrs ⟨w.requireMa || type = 79, w.seenMa || type = 80, w.numAttributes + 1⟩ (attr.drop len)

/-- `rad_packet_ok`, with `fr_max_attributes` and whether the caller requires a Message-Authenticator: the packet that was received. -/
def radPacketOk (maxAttributes : Nat) (flags : Bool) (data : Bytes) : Option RadPacket :=
  let code := (data.getD 0 0).toNat
  let totallen := ofBe ((data.drop 2).take 2)
  if data.length < 20 ∨ 4096 < data.length ∨ code = 0 ∨ 52 ≤ code ∨ totallen < 20 ∨ 4096 < totallen ∨ data.length < totallen then none
  else
    let data := data.take totallen
    (okLoop totallen ⟨code = 12 || flags, false, 0⟩ (data.drop 20)).bind fun w =>
      if 0 < maxAttributes ∧ maxAttributes < w.numAttributes ∨ w.requireMa ∧ !w.seenMa then none
      else some { code, id := (data.getD 1 0).toNat, vector := digestAt data 4, data, offset := 0, vps := [] }

/-- `rad_verify`: the vector of the header while the Message-Authenticator is checked. -/
def verifyVector (code : Nat) (original : Option RadPacket) (vector : Digest) : Option Digest :=
  match code with
  | 5 => if original.any (·.code = 12) then original.map RadPacket.vector else some zeroDigest
  | 4 | 40 | 41 | 42 | 43 | 44 | 45 => some zeroDigest
  | 2 | 3 | 11 => original.map RadPacket.vector
  | _ => some vector

/-- The check of a Message-Authenticator that is at an offset: the data after it. -/
def checkAuthenticator (off : Nat) (data : Bytes) :
    Option Bytes :=
  let sent := digestAt data (off + 2)
  let cleared := writeAt data (off + 2) zeroDigest.toList
  (verifyVector packet.code original (digestAt cleared 4)).bind fun vector =>
    let data := writeAt cleared 4 vector.toList
    if md5.hmac secret data = sent then some (writeAt (writeAt data (off + 2) sent.toList) 4 packet.vector.toList) else none

/-- The loop of `rad_verify` from an offset on, for at most so many attributes. -/
def verifyLoop (md5 : Md5) (secret : Bytes) (packet : RadPacket) (original : Option RadPacket) : Nat → Nat → Bytes → Option Bytes
  | 0, off, data => if data.length ≤ off then some data else none
  | attrs + 1, off, data =>
    if data.length ≤ off then some data
    else
      (if data.getD off 0 = 80 then checkAuthenticator md5 secret packet original off data else some data).bind fun data =>
        verifyLoop md5 secret packet original attrs (off + (data.getD (off + 1) 0).toNat) data

/-- `rad_verify`: whether it returns 0. -/
def radVerify : Bool :=
  match verifyLoop md5 secret packet original packet.data.length 20 packet.data with
  | none => false
  | some data =>
    match packet.code with
    | 1 | 12 => true
    | 4 | 40 | 43 => md5.md5 (writeAt data 4 zeroDigest.toList ++ secret) = packet.vector
    | 2 | 3 | 5 | 11 | 41 | 42 | 44 | 45 =>
      original.any fun original => md5.md5 (writeAt data 4 original.vector.toList ++ secret) = packet.vector
    | _ => false

end

end Osp.Freeradius
