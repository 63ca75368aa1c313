import Osp.Freeradius.Encode
import Osp.Lib.Tlv

/-!
# What encoding writes

The pairs of a packet are written as whole attributes, and the Message-Authenticator is cleared.
-/

namespace Osp.Freeradius

open Osp.Lib List Option

variable {e : EncodeEnv} {packet : RadPacket} {original : Option RadPacket} {salt : UInt8 × UInt8} {vp : ValuePair} {room : Nat}

/-! ## Lengths -/

theorem length_hideBlocks_le (blocks : Nat) (before text : Bytes) : (hideBlocks e blocks before text).length ≤ 16 * blocks := by
  induction blocks generalizing before text with
  | zero => simp [hideBlocks]
  | succ blocks ih =>
    simp only [hideBlocks, length_append, xorBytes, length_zipWith, length_take, Vector.length_toList]
    have hrest := ih (xorBytes (text.take 16) (e.md5.md5 (e.secret ++ before)).toList) (text.drop 16)
    simp only [xorBytes] at hrest
    omega

theorem length_makePasswd_le (vector : Digest) (input : Bytes) : (makePasswd e vector input).length ≤ 128 := by
  refine (length_hideBlocks_le _ _ _).trans ?_
  have hlen : (input.take 128).length ≤ 128 := length_take_le _ _
  unfold roundBlocks
  split <;> omega

theorem length_makeTunnelPasswd_le (vector : Digest) (input : Bytes) (hroom : 18 ≤ room) :
    (makeTunnelPasswd e vector salt room input).length ≤ room := by
  have hlen : (input.take ((min room 253 - 2) / 16 * 16 - 1)).length ≤ (min room 253 - 2) / 16 * 16 - 1 := length_take_le _ _
  refine (Nat.add_le_add_right (Nat.add_le_add_right (length_hideBlocks_le _ _ _) 1) 1).trans ?_
  unfold roundBlocks
  omega

variable {bytes data : Bytes} {encoded : Encoded} {vps vps' : List ValuePair} {offset pairs total : Nat} {type : UInt8} {vp' : ValuePair}

theorem length_vp2data_le (h : vp2data e packet original salt vp room = some data) (hroom : 128 ≤ room) :
    data.length ≤ room := by
  obtain ⟨source, -, h⟩ := bind_eq_some_iff.1 h
  split at h
  · obtain rfl := Option.some.inj h
    exact (length_makePasswd_le _ _).trans hroom
  · rw [if_neg (by omega)] at h
    obtain ⟨vector, -, rfl⟩ := map_eq_some_iff.1 h
    exact length_makeTunnelPasswd_le _ _ (by omega)
  · obtain rfl := Option.some.inj h
    simp only [makeSecret, xorBytes, length_zipWith, Vector.length_toList, length_readMem]
    omega
  · obtain rfl := Option.some.inj h
    exact length_take_le _ _
  · obtain rfl := Option.some.inj h
    exact length_take_le _ _

theorem length_taggedData_le (h : taggedData e packet original salt vp room = some data) (hroom : 129 ≤ room) :
    data.length ≤ room := by
  unfold taggedData at h
  split at h
  · obtain ⟨data, hdata, rfl⟩ := map_eq_some_iff.1 h
    have hlen := length_vp2data_le hdata (by omega)
    simp only [length_cons]
    omega
  · split at h
    · obtain ⟨data, hdata, rfl⟩ := map_eq_some_iff.1 h
      rw [length_set]
      exact length_vp2data_le hdata (by omega)
    · exact length_vp2data_le h (by omega)

/-! ## Attributes -/

theorem length_vsaType (vendor : DictVendor) (attr : Nat) : (vsaType vendor attr).length = vendor.type := by
  unfold vsaType
  split
  · rename_i h
    simp [h]
  · simp

theorem length_vsaLength (vendor : DictVendor) (len : Nat) : (vsaLength vendor len).length = vendor.length := by
  obtain h | h | h := vendor.length_eq <;> simp [vsaLength, h]

/-- Bytes that are attributes of one type. -/
def AttrsOf (type : UInt8) (bytes : Bytes) : Prop := ∃ attrs : List Tlv, bytes = tlvBytes attrs ∧ ∀ a ∈ attrs, a.type = type

theorem AttrsOf.nil (type : UInt8) : AttrsOf type [] := ⟨[], rfl, by simp⟩

theorem AttrsOf.one {len : UInt8} {value : Bytes} (hlen : len = UInt8.ofNat (value.length + 2)) (hvalue : value.length ≤ 253) :
    AttrsOf type (type :: len :: value) :=
  ⟨[⟨type, value, hvalue⟩], by simp [Tlv.bytes, Tlv.lengthByte, hlen], by simp⟩

theorem AttrsOf.append {a b : Bytes} (ha : AttrsOf type a) (hb : AttrsOf type b) : AttrsOf type (a ++ b) := by
  obtain ⟨attrs, rfl, hattrs⟩ := ha
  obtain ⟨more, rfl, hmore⟩ := hb
  refine ⟨attrs ++ more, (tlvBytes_append attrs more).symm, fun x hx => ?_⟩
  obtain hx | hx := mem_append.1 hx
  · exact hattrs x hx
  · exact hmore x hx

theorem AttrsOf.unlessEmpty {type : UInt8} {data attr : Bytes} (h : AttrsOf type attr) : AttrsOf type (unlessEmpty vp data attr) := by
  unfold Freeradius.unlessEmpty
  split
  · exact AttrsOf.nil type
  · exact h

theorem continuationPieces_attrs {front : Bytes} (hfront : 5 ≤ front.length) (hfront' : front.length ≤ 250) (pieces : Nat) (data : Bytes) :
    AttrsOf 26 (continuationPieces ([26, 6] ++ front) pieces data) := by
  induction pieces generalizing data with
  | zero => exact AttrsOf.nil 26
  | succ pieces ih =>
    rw [continuationPieces]
    split
    · exact AttrsOf.nil 26
    · have hlen : ([26, 6] ++ front : Bytes).length = front.length + 2 := rfl
      have htake : (data.take (min data.length (254 - (front.length + 2)))).length = min data.length (254 - (front.length + 2)) := by
        rw [length_take]
        omega
      have hindex : front.length + 2 - 1 = (front.length - 1) + 2 := by omega
      simp only [hlen, hindex]
      refine AttrsOf.append ?_ (ih _)
      simp only [cons_append, nil_append, set_cons_succ, set_cons_zero]
      refine AttrsOf.one ?_ ?_
      · simp only [length_append, length_cons, length_set, htake]
        congr 1
        omega
      · simp only [length_append, length_cons, length_set, htake]
        omega

theorem radVp2vsa_attrs (h : radVp2vsa e packet original salt vp = some bytes) : AttrsOf 26 bytes := by
  simp only [radVp2vsa] at h
  generalize (e.dict.vendorByValue (vendorOf vp.attr)).getD rfcFormat = vendor at h
  have htype := vendor.type_eq
  have hlength := vendor.length_eq
  have hfront : (beBytes 4 (vendorOf vp.attr) ++ vsaType vendor vp.attr).length = 4 + vendor.type := by simp [length_vsaType]
  split at h
  · obtain rfl := Option.some.inj h
    have hpieces : ∀ pieces data, AttrsOf 26 (continuationPieces ([26, 6] ++ (beBytes 4 (vendorOf vp.attr) ++ vsaType vendor vp.attr ++
        List.replicate vendor.length 0)) pieces data) :=
      continuationPieces_attrs (by simp only [length_append, hfront]; omega)
        (by simp only [length_append, hfront, length_replicate]; omega)
    unfold radVp2continuation
    split
    · exact AttrsOf.nil 26
    · split
      · exact hpieces _ _
      · exact hpieces _ _
      · exact hpieces _ _
      · exact AttrsOf.nil 26
  · obtain ⟨data, hdata, rfl⟩ := map_eq_some_iff.1 h
    generalize hoffset : (if vendor.flags = true then if (vendor.flags && vp.flags.isTlv) = true then 3 else 1 else 0) = offset at hdata ⊢
    have hrest : ((if vendor.flags = true then [0] else [] : Bytes) ++ (if (vendor.flags && vp.flags.isTlv) = true then
        [UInt8.ofNat (vp.attr / 256), UInt8.ofNat (2 + data.length)] else [] : Bytes)).length = offset ∧ offset ≤ 3 := by
      rw [← hoffset]
      cases vendor.flags <;> cases vp.flags.isTlv <;> simp
    have hdata := length_taggedData_le hdata (by omega)
    refine AttrsOf.unlessEmpty ?_
    simp only [append_assoc, cons_append, nil_append]
    rw [← append_assoc (if vendor.flags = true then [0] else [] : Bytes)]
    refine AttrsOf.one ?_ ?_
    · congr 1
      simp only [length_append, length_beBytes, length_vsaType, length_vsaLength]
      rw [← length_append, hrest.1]
      omega
    · simp only [length_append, length_beBytes, length_vsaType, length_vsaLength]
      rw [← length_append, hrest.1]
      omega

/-- The type of the attributes that a pair is written as. -/
def wireType (attr : Nat) : UInt8 := if vendorOf attr = 0 then UInt8.ofNat attr else 26

theorem radVp2attr_attrs (h : radVp2attr e packet original salt vp = some bytes) : AttrsOf (wireType vp.attr) bytes := by
  unfold radVp2attr at h
  split at h
  · rename_i hvendor
    obtain ⟨data, hdata, rfl⟩ := map_eq_some_iff.1 h
    rw [wireType, if_pos hvendor]
    have hlen := length_taggedData_le hdata (by decide)
    exact AttrsOf.unlessEmpty (AttrsOf.one (by rw [Nat.add_comm]) hlen)
  · rename_i hvendor
    rw [wireType, if_neg hvendor]
    exact radVp2vsa_attrs h

/-! ## Sub-attributes -/

/-- A pair that a packet can be given: a sub-attribute belongs to a vendor's attribute, is not encrypted and fits into one byte of length,
only sub-attributes are marked, and the Message-Authenticator is a string of octets. -/
structure WireOk (vp : ValuePair) : Prop where
  attr_lt : vp.attr < 2 ^ 32
  sub : vp.flags.isTlv = true → vp.flags.encrypt = .none ∧ 0 < vp.attr / 256 % 256 ∧ vp.length ≤ 253
  marked : vp.flags.encoded = true → vp.flags.isTlv = true
  authenticator : vp.attr = messageAuthenticator →
    vp.type = .octets ∧ vp.flags.isTlv = false ∧ vp.flags.encrypt = .none ∧ vp.flags.hasTag = false

/-- A pair may have been marked. -/
def Marked (vp vp' : ValuePair) : Prop := vp' = vp ∨ vp.flags.isTlv = true ∧ vp' = { vp with flags := { vp.flags with encoded := true } }

theorem Marked.attr {vp : ValuePair} (h : Marked vp vp') : vp'.attr = vp.attr := by
  obtain rfl | ⟨-, rfl⟩ := h <;> rfl

theorem Marked.wireOk {vp : ValuePair} (h : Marked vp vp') (hok : WireOk vp) : WireOk vp' := by
  obtain rfl | ⟨hsub, rfl⟩ := h
  · exact hok
  · exact ⟨hok.attr_lt, hok.sub, fun _ => hsub, hok.authenticator⟩

theorem marked_refl : List.Forall₂ Marked vps vps := forall₂_same.2 fun _ _ => .inl rfl

theorem length_vpData_le (h : vpData vp = some data) (hlen : vp.length ≤ 253) : data.length ≤ 253 := by
  unfold vpData at h
  split at h <;> try (obtain rfl := Option.some.inj h; simp; try omega)
  · split at h
    · cases h
    · obtain rfl := Option.some.inj h
      simpa using hlen
  · cases h
  · cases h

theorem tlvFill_spec {parent maxattr : Nat} {bytes : Option Bytes} (hok : ∀ vp ∈ vps, WireOk vp)
    (h : tlvFill parent maxattr room vps = some (bytes, vps')) : bytes.isSome = true ∧ List.Forall₂ Marked vps vps' := by
  induction vps generalizing maxattr room bytes vps' with
  | nil =>
    obtain ⟨rfl, rfl⟩ := h
    exact ⟨rfl, List.Forall₂.nil⟩
  | cons vp vps ih =>
    rw [tlvFill] at h
    split at h
    · rename_i hnext
      have hsub : vp.flags.isTlv = true := by
        simp only [tlvNext, Bool.and_eq_true] at hnext
        exact hnext.1.1.1.1
      obtain ⟨data, hdata, h⟩ := bind_eq_some_iff.1 h
      have hlen := length_vpData_le hdata ((hok vp mem_cons_self).sub hsub).2.2
      have htake : (data.take room).length ≤ data.length := by simp
      rw [if_neg (by omega)] at h
      obtain ⟨⟨bytes', vps''⟩, hfill, heq⟩ := map_eq_some_iff.1 h
      obtain ⟨hsome, hmarked⟩ := ih (fun vp hvp => hok vp (mem_cons_of_mem _ hvp)) hfill
      cases heq
      exact ⟨by simpa using hsome, List.Forall₂.cons (.inr ⟨hsub, rfl⟩) hmarked⟩
    · cases h
      exact ⟨rfl, marked_refl⟩

theorem radVp2tlv_spec {tlv : Option ValuePair} (hok : ∀ x ∈ vp :: vps, WireOk x)
    (hsub : vp.flags.isTlv = true) (hencoded : vp.flags.encoded = false) (h : radVp2tlv e.dict vp vps = some (tlv, vps')) :
    (∃ x, tlv = some x ∧ x.attr = parentAttr vp.attr) ∧ List.Forall₂ Marked vps vps' := by
  obtain ⟨hencrypt, hattr, -⟩ := (hok vp mem_cons_self).sub hsub
  have hnext : tlvNext (parentAttr vp.attr) (vp.attr % 256) vp = true := by
    have hmax : vp.attr % 256 < vp.attr / 256 % 256 * 256 := by omega
    simp [tlvNext, hsub, hencoded, hencrypt, hmax]
  have hlength : tlvLength (parentAttr vp.attr) (vp.attr % 256) (vp :: vps) ≠ 0 := by
    rw [tlvLength, if_pos hnext]
    omega
  simp only [radVp2tlv] at h
  rw [if_neg hlength] at h
  obtain ⟨⟨bytes, all⟩, hfill, heq⟩ := map_eq_some_iff.1 h
  obtain ⟨hsome, hmarked⟩ := tlvFill_spec hok hfill
  obtain ⟨octets, rfl⟩ := isSome_iff_exists.1 hsome
  obtain ⟨rfl, rfl⟩ := heq
  refine ⟨⟨_, rfl, by unfold paircreate; split <;> rfl⟩, ?_⟩
  cases hmarked with
  | cons _ hrest => exact hrest

/-! ## Packets -/

/-- The attribute that the Message-Authenticator is written as. -/
def authenticatorAttr (digest : Digest) : Tlv := ⟨80, digest.toList, by simp⟩

theorem encodePair_attrs (hok : ∀ x ∈ vp :: vps, WireOk x) (hwire : nonWire vp = false)
    (hencoded : vp.flags.encoded = false) (h : encodePair e packet original salt vp vps = some (bytes, vps')) :
    AttrsOf (wireType vp.attr) bytes ∧ List.Forall₂ Marked vps vps' := by
  unfold encodePair at h
  split at h
  · rename_i hsub
    obtain ⟨⟨tlv, rest⟩, htlv, h⟩ := bind_eq_some_iff.1 h
    obtain ⟨⟨x, rfl, hx⟩, hmarked⟩ := radVp2tlv_spec hok hsub hencoded htlv
    simp only [map_eq_some_iff, Prod.mk.injEq] at h
    obtain ⟨bytes, hattr, rfl, rfl⟩ := h
    refine ⟨?_, hmarked⟩
    have hvendor : vendorOf x.attr = vendorOf vp.attr := by
      rw [hx, parentAttr, vendorOf, vendorOf]
      omega
    have hne : vendorOf vp.attr ≠ 0 := by
      obtain ⟨-, hattr, -⟩ := (hok vp mem_cons_self).sub hsub
      intro hzero
      simp only [nonWire, hzero, decide_true, Bool.true_and, decide_eq_false_iff_not] at hwire
      omega
    have htype : wireType vp.attr = wireType x.attr := by rw [wireType, wireType, hvendor, if_neg hne, if_neg hne]
    rw [htype]
    exact radVp2attr_attrs hattr
  · obtain ⟨bytes, hattr, heq⟩ := map_eq_some_iff.1 h
    cases heq
    exact ⟨radVp2attr_attrs hattr, marked_refl⟩

/-- How many Message-Authenticators there are. -/
def authenticators (vps : List ValuePair) : Nat := vps.countP fun vp => vp.attr = messageAuthenticator

theorem authenticators_marked (h : List.Forall₂ Marked vps vps') : authenticators vps' = authenticators vps := by
  induction h with
  | nil => rfl
  | cons hvp _ ih =>
    simp only [authenticators] at ih ⊢
    rw [countP_cons, countP_cons, ih, hvp.attr]

theorem wireOk_marked (h : List.Forall₂ Marked vps vps') (hok : ∀ vp ∈ vps, WireOk vp) :
    ∀ vp ∈ vps', WireOk vp := by
  induction h with
  | nil => exact hok
  | cons hvp _ ih =>
    intro x hx
    obtain rfl | hx := mem_cons.1 hx
    · exact hvp.wireOk (hok _ mem_cons_self)
    · exact ih (fun vp hvp => hok vp (mem_cons_of_mem _ hvp)) x hx

theorem WireOk.cleared (h : WireOk vp) : WireOk (clearAuthenticator vp) := by
  unfold clearAuthenticator
  split
  · rename_i hattr
    obtain ⟨htype, hsub, hencrypt, htag⟩ := h.authenticator hattr
    exact ⟨h.attr_lt, fun hsub' => by simp [hsub] at hsub', h.marked, fun _ => ⟨htype, hsub, hencrypt, htag⟩⟩
  · exact h

theorem clearAuthenticator_attr : (clearAuthenticator vp).attr = vp.attr := by
  unfold clearAuthenticator
  split <;> rfl

theorem clearAuthenticator_flags : (clearAuthenticator vp).flags = vp.flags := by
  unfold clearAuthenticator
  split <;> rfl

theorem wireType_ne (h : WireOk vp) (hwire : nonWire vp = false) (hattr : vp.attr ≠ messageAuthenticator) : wireType vp.attr ≠ 80 := by
  unfold wireType
  split
  · rename_i hvendor
    simp only [nonWire, hvendor, decide_true, Bool.true_and, decide_eq_false_iff_not] at hwire
    have hlt := h.attr_lt
    intro heq
    have hnat := congrArg UInt8.toNat heq
    rw [UInt8.toNat_ofNat'] at hnat
    unfold vendorOf at hvendor
    unfold messageAuthenticator at hattr
    have : (80 : UInt8).toNat = 80 := rfl
    omega
  · decide

/-- The Message-Authenticator is written with a value of zeros. -/
theorem radVp2attr_authenticator (h : WireOk vp) (hattr : vp.attr = messageAuthenticator) :
    radVp2attr e packet original salt (clearAuthenticator vp) = some (authenticatorAttr zeroDigest).bytes := by
  obtain ⟨htype, -, hencrypt, htag⟩ := h.authenticator hattr
  have hclear : clearAuthenticator vp = { vp with length := 16, octets := List.replicate 16 0 ++ vp.octets.drop 16 } := by
    rw [clearAuthenticator, if_pos hattr]
  have hread : readMem (List.replicate 16 0 ++ vp.octets.drop 16) 16 = List.replicate 16 0 := by
    rw [readMem, take_append_of_le_length (by simp), take_append_of_le_length (by simp), take_of_length_le (by simp)]
  have hdata : vp2data e packet original salt (clearAuthenticator vp) 253 = some (List.replicate 16 0) := by
    simp only [hclear, vp2data, vpData, htype, hencrypt, hread, bind_some]
    rfl
  have hvendor : vendorOf (clearAuthenticator vp).attr = 0 := by
    rw [clearAuthenticator_attr, hattr]
    rfl
  have htagged : taggedData e packet original salt (clearAuthenticator vp) 253 = some (List.replicate 16 0) := by
    rw [taggedData, clearAuthenticator_flags, htag]
    simpa using hdata
  rw [radVp2attr, if_pos hvendor, htagged, map_some, clearAuthenticator_attr, hattr]
  rfl

theorem encodeLoop_cons (hok : ∀ x ∈ vp :: vps, WireOk x)
    (h : encodeLoop e packet original (pairs + 1) total offset (vp :: vps) = some encoded) (hfits : encoded.discarded = false) :
    vp.attr ≠ messageAuthenticator ∧ encodeLoop e packet original pairs total offset vps = some encoded ∨
    ∃ attrs vps' rest, (vp.attr ≠ messageAuthenticator → ∀ a ∈ attrs, a.type ≠ 80) ∧
      (vp.attr = messageAuthenticator → attrs = [authenticatorAttr zeroDigest]) ∧ List.Forall₂ Marked vps vps' ∧
      total + (tlvBytes attrs).length ≤ 4096 ∧
      encodeLoop e packet original pairs (total + (tlvBytes attrs).length) (if vp.attr = messageAuthenticator then total else offset) vps' =
        some rest ∧ rest.discarded = false ∧ encoded = { rest with bytes := tlvBytes attrs ++ rest.bytes } := by
  have hvp := hok vp mem_cons_self
  rw [encodeLoop] at h
  split at h
  · rename_i hwire
    refine .inl ⟨fun hattr => ?_, h⟩
    rw [nonWire, hattr] at hwire
    exact absurd hwire (by decide)
  · rename_i hwire
    by_cases hencoded : vp.flags.encoded = true
    · simp only [hencoded, if_true] at h
      have hattr : vp.attr ≠ messageAuthenticator := by
        intro hattr
        have hsub := hvp.marked hencoded
        rw [(hvp.authenticator hattr).2.1] at hsub
        cases hsub
      rw [if_neg hattr] at h
      exact .inl ⟨hattr, h⟩
    · simp only [hencoded, if_false, Bool.false_eq_true] at h
      obtain ⟨⟨bytes, vps'⟩, hpair, h⟩ := bind_eq_some_iff.1 h
      split at h
      · obtain rfl := Option.some.inj h
        cases hfits
      · rename_i hlen
        obtain ⟨rest, hrest, rfl⟩ := map_eq_some_iff.1 h
        have hwire' : nonWire (clearAuthenticator vp) = false := by
          rw [nonWire, clearAuthenticator_attr]
          simpa [nonWire] using hwire
        have hok' : ∀ x ∈ clearAuthenticator vp :: vps, WireOk x := by
          intro x hx
          obtain rfl | hx := mem_cons.1 hx
          · exact hvp.cleared
          · exact hok x (mem_cons_of_mem _ hx)
        have hspec := encodePair_attrs hok' hwire' (by rw [clearAuthenticator_flags]; simpa using hencoded) hpair
        obtain ⟨⟨attrs, rfl, htypes⟩, hmarked⟩ := hspec
        refine .inr ⟨attrs, vps', rest, fun hattr a ha => ?_, fun hattr => ?_, hmarked, Nat.le_of_not_lt hlen, hrest, hfits, rfl⟩
        · rw [htypes a ha, clearAuthenticator_attr]
          exact wireType_ne hvp (by simpa using hwire) hattr
        · have hsub : (clearAuthenticator vp).flags.isTlv = false := by
            rw [clearAuthenticator_flags]
            exact (hvp.authenticator hattr).2.1
          rw [encodePair, hsub, if_neg (by decide), radVp2attr_authenticator hvp hattr, map_some] at hpair
          have hbytes : (authenticatorAttr zeroDigest).bytes = tlvBytes attrs := congrArg Prod.fst (Option.some.inj hpair)
          cases attrs with
          | nil => cases hbytes
          | cons a attrs =>
            obtain ⟨rfl, hnil⟩ := Tlv.bytes_append_inj hbytes
            rw [tlvBytes_eq_nil.1 hnil.symm]

/-- At most one Message-Authenticator is written once, between attributes of other types, and its offset is kept. What is written fits into
a packet. -/
theorem encodeLoop_attrs (hok : ∀ vp ∈ vps, WireOk vp) (hone : authenticators vps ≤ 1) (htotal : total ≤ 4096)
    (h : encodeLoop e packet original pairs total offset vps = some encoded) (hfits : encoded.discarded = false) :
    total + encoded.bytes.length ≤ 4096 ∧ ∃ pre post, (∀ a ∈ pre ++ post, a.type ≠ 80) ∧
      (authenticators vps = 0 ∧ encoded.offset = offset ∧ encoded.bytes = tlvBytes (pre ++ post) ∨
        authenticators vps = 1 ∧ encoded.offset = total + (tlvBytes pre).length ∧
          encoded.bytes = tlvBytes (pre ++ authenticatorAttr zeroDigest :: post)) := by
  induction pairs generalizing total offset vps encoded with
  | zero =>
    cases vps with
    | nil =>
      obtain rfl := Option.some.inj h
      exact ⟨htotal, [], [], by simp, .inl ⟨rfl, rfl, rfl⟩⟩
    | cons vp vps => cases h
  | succ pairs ih =>
    cases vps with
    | nil =>
      obtain rfl := Option.some.inj h
      exact ⟨htotal, [], [], by simp, .inl ⟨rfl, rfl, rfl⟩⟩
    | cons vp vps =>
      have hvps : ∀ x ∈ vps, WireOk x := fun x hx => hok x (mem_cons_of_mem _ hx)
      have hcount : authenticators (vp :: vps) = authenticators vps + if vp.attr = messageAuthenticator then 1 else 0 := by
        simp [authenticators, countP_cons]
      obtain ⟨hattr, h⟩ | ⟨attrs, vps', rest, hne, heq, hmarked, hlen, hrest, hfits', rfl⟩ := encodeLoop_cons hok h hfits
      · rw [if_neg hattr, Nat.add_zero] at hcount
        rw [hcount] at hone ⊢
        exact ih hvps hone htotal h hfits
      · obtain ⟨hbound, pre, post, hothers, hwritten⟩ :=
          ih (wireOk_marked hmarked hvps) (by rw [authenticators_marked hmarked]; omega) hlen hrest hfits'
        rw [authenticators_marked hmarked] at hwritten
        refine ⟨by rw [length_append]; omega, ?_⟩
        by_cases hattr : vp.attr = messageAuthenticator
        · rw [if_pos hattr] at hcount hwritten
          obtain ⟨hzero, hoffset, hbytes⟩ | ⟨hone', -⟩ := hwritten
          · refine ⟨[], pre ++ post, hothers, .inr ⟨by omega, hoffset, ?_⟩⟩
            rw [heq hattr, hbytes]
            simp
          · omega
        · rw [if_neg hattr, Nat.add_zero] at hcount
          rw [if_neg hattr] at hwritten
          rw [hcount]
          refine ⟨attrs ++ pre, post, ?_, hwritten.imp ?_ ?_⟩
          · intro a ha
            rw [append_assoc, mem_append] at ha
            exact ha.elim (hne hattr a) (hothers a)
          · rintro ⟨hzero, hoffset, hbytes⟩
            exact ⟨hzero, hoffset, by rw [hbytes, append_assoc, tlvBytes_append attrs]⟩
          · rintro ⟨hone', hoffset, hbytes⟩
            refine ⟨hone', ?_, by rw [hbytes, append_assoc, tlvBytes_append attrs]⟩
            simp only [hoffset, tlvBytes_append, length_append]
            omega

end Osp.Freeradius
