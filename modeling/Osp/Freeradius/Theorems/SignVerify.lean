import Osp.Freeradius.Encode
import Osp.Freeradius.Lemmas.Encode

/-!
# Signed packets are verified

A packet that was encoded and signed is accepted if it has a Message-Authenticator where one is required, and its signature is right.
-/

namespace Osp.Freeradius

open Osp.Lib Tlv List

/-! ## The bytes of a packet -/

/-- A packet with a vector and attributes. -/
def packetBytes (code : Nat) (id : Int) (vector : Digest) (attrs : List Tlv) : Bytes :=
  packetHeader code id (20 + (tlvBytes attrs).length) ++ vector.toList ++ tlvBytes attrs

section

variable {code : Nat} {id : Int} {vector : Digest} {attrs pre post : List Tlv} {md5 : Md5} {secret : Bytes} {packet : RadPacket}
  {original : Option RadPacket}

theorem length_packetHeader (length : Nat) : (packetHeader code id length).length = 4 := by simp [packetHeader]

theorem length_packetBytes :
    (packetBytes code id vector attrs).length = 20 + (tlvBytes attrs).length := by
  simp only [packetBytes, length_append, length_packetHeader, Vector.length_toList]

theorem drop_packetBytes :
    (packetBytes code id vector attrs).drop 20 = tlvBytes attrs :=
  drop_left' (by simp [length_packetHeader])

/-- Replacing the vector. -/
@[simp] theorem writeAt_vector (vector vector' : Digest) :
    writeAt (packetBytes code id vector attrs) 4 vector'.toList = packetBytes code id vector' attrs := by
  have hwrite := writeAt_eq (packetHeader code id (20 + (tlvBytes attrs).length)) (vector.toList ++ tlvBytes attrs) vector'.toList
    (by simp)
  rw [length_packetHeader] at hwrite
  rw [packetBytes, append_assoc, hwrite, Vector.length_toList, drop_left' (Vector.length_toList), packetBytes]

@[simp] theorem digestAt_vector :
    digestAt (packetBytes code id vector attrs) 4 = vector := by
  have hdigest := digestAt_append (packetHeader code id (20 + (tlvBytes attrs).length)) (tlvBytes attrs) vector
  rw [length_packetHeader] at hdigest
  rw [packetBytes, append_assoc, hdigest]

/-- What is in front of the value of a Message-Authenticator, and what is behind it. -/
theorem packetBytes_authenticator (vector digest : Digest) :
    ∃ front, front.length = 20 + (tlvBytes pre).length + 2 ∧ ∀ digest' : Digest,
      packetBytes code id vector (pre ++ authenticatorAttr digest' :: post) = front ++ (digest'.toList ++ tlvBytes post) := by
  refine ⟨packetHeader code id (20 + (tlvBytes (pre ++ authenticatorAttr digest :: post)).length) ++ vector.toList ++ tlvBytes pre ++ [80, 18],
    by simp only [length_append, length_packetHeader, Vector.length_toList, length_cons, length_nil], fun digest' => ?_⟩
  have hlen : (tlvBytes (pre ++ authenticatorAttr digest' :: post)).length = (tlvBytes (pre ++ authenticatorAttr digest :: post)).length := by
    simp [authenticatorAttr]
  have hbyte : (authenticatorAttr digest').lengthByte = 18 := by
    rw [lengthByte, authenticatorAttr, Vector.length_toList]
    rfl
  have hbytes : tlvBytes (pre ++ authenticatorAttr digest' :: post) = tlvBytes pre ++ (80 :: 18 :: (digest'.toList ++ tlvBytes post)) := by
    rw [tlvBytes_append, tlvBytes_cons, bytes, hbyte]
    rfl
  rw [packetBytes, hlen, hbytes]
  simp only [append_assoc, cons_append, nil_append]

/-- Replacing the value of the Message-Authenticator. -/
@[simp] theorem writeAt_authenticator (vector digest digest' : Digest) :
    writeAt (packetBytes code id vector (pre ++ authenticatorAttr digest :: post)) (20 + (tlvBytes pre).length + 2) digest'.toList =
      packetBytes code id vector (pre ++ authenticatorAttr digest' :: post) := by
  obtain ⟨front, hlen, hform⟩ := packetBytes_authenticator vector digest
  rw [hform, hform, ← hlen, writeAt_eq front _ _ (by simp), Vector.length_toList, drop_left' (Vector.length_toList),
    append_assoc]

@[simp] theorem digestAt_authenticator (vector digest : Digest) :
    digestAt (packetBytes code id vector (pre ++ authenticatorAttr digest :: post)) (20 + (tlvBytes pre).length + 2) = digest := by
  obtain ⟨front, hlen, hform⟩ := packetBytes_authenticator vector digest
  rw [hform, ← hlen, digestAt_append]

/-- The type and the length of the attribute that follows some others. -/
theorem getD_packetBytes (a : Tlv) :
    (packetBytes code id vector (pre ++ a :: post)).getD (20 + (tlvBytes pre).length) 0 = a.type ∧
      (packetBytes code id vector (pre ++ a :: post)).getD (20 + (tlvBytes pre).length + 1) 0 = a.lengthByte := by
  have hform : packetBytes code id vector (pre ++ a :: post) =
      (packetHeader code id (20 + (tlvBytes (pre ++ a :: post)).length) ++ vector.toList ++ tlvBytes pre) ++
        (a.type :: a.lengthByte :: (a.value ++ tlvBytes post)) := by
    rw [packetBytes, tlvBytes_append, tlvBytes_cons, bytes]
    simp
  have hlen : (packetHeader code id (20 + (tlvBytes (pre ++ a :: post)).length) ++ vector.toList ++ tlvBytes pre).length =
      20 + (tlvBytes pre).length := by
    simp only [length_append, length_packetHeader, Vector.length_toList]
  rw [hform]
  constructor
  · rw [getD_append_right _ _ _ _ hlen.le, hlen, Nat.sub_self]
    rfl
  · rw [getD_append_right _ _ _ _ (hlen.le.trans (Nat.le_succ _)), hlen, Nat.succ_sub le_rfl, Nat.sub_self]
    rfl

/-! ## Checking -/

/-- What the walk over the attributes finds. -/
theorem okLoop_tlvBytes (n : Nat) (w : Walked) (hn : attrs.length ≤ n) :
    okLoop n w (tlvBytes attrs) =
      if (∀ a ∈ attrs, a.type ≠ 0) ∧ ∀ a ∈ attrs, a.type = 80 → a.value.length = 16 then
        some ⟨w.requireMa || attrs.any (·.type = 79), w.seenMa || attrs.any (·.type = 80), w.numAttributes + attrs.length⟩
      else none := by
  induction attrs generalizing n w with
  | nil => cases n <;> simp [okLoop]
  | cons a attrs ih =>
    cases n with
    | zero => simp at hn
    | succ n =>
      have hdrop : (tlvBytes (a :: attrs)).drop a.lengthByte.toNat = tlvBytes attrs := by
        rw [tlvBytes_cons, toNat_lengthByte, ← length_bytes]
        exact drop_left
      have hstep : okLoop (n + 1) w (tlvBytes (a :: attrs)) =
          if (tlvBytes (a :: attrs)).length < 2 ∨ a.type = 0 ∨ a.lengthByte.toNat < 2 ∨
            (tlvBytes (a :: attrs)).length < a.lengthByte.toNat ∨ a.type = 80 ∧ a.lengthByte.toNat ≠ 18 then none
          else okLoop n ⟨w.requireMa || a.type = 79, w.seenMa || a.type = 80, w.numAttributes + 1⟩
            ((tlvBytes (a :: attrs)).drop a.lengthByte.toNat) := rfl
      have hlen : (tlvBytes (a :: attrs)).length = a.value.length + 2 + (tlvBytes attrs).length := by simp
      rw [hstep, hdrop, ih n _ (by simpa using hn), hlen, toNat_lengthByte]
      by_cases hbad : a.type = 0 ∨ a.type = 80 ∧ a.value.length ≠ 16
      · obtain hbad | ⟨htype, hvalue⟩ := hbad
        · rw [if_pos (.inr (.inl hbad)), if_neg fun h => h.1 a mem_cons_self hbad]
        · rw [if_pos (.inr (.inr (.inr (.inr ⟨htype, by omega⟩)))), if_neg fun h => hvalue (h.2 a mem_cons_self htype)]
      · have hhead : a.type ≠ 0 ∧ (a.type = 80 → a.value.length = 16) :=
          ⟨fun h => hbad (.inl h), fun h => by_contra fun hne => hbad (.inr ⟨h, hne⟩)⟩
        rw [if_neg]
        · simp only [forall_mem_cons, and_iff_right hhead.1, and_iff_right hhead.2, any_cons, length_cons, Bool.or_assoc,
            Nat.add_assoc, Nat.add_comm 1]
        · obtain ⟨hzero, hma⟩ := hhead
          rintro (h | h | h | h | ⟨h, h'⟩)
          · omega
          · exact hzero h
          · omega
          · omega
          · exact h' (by rw [hma h])

/-- The conditions under which a packet with some attributes is accepted. -/
def Acceptable (maxAttributes : Nat) (flags : Bool) (code : Nat) (attrs : List Tlv) : Prop :=
  (∀ a ∈ attrs, a.type ≠ 0) ∧ (maxAttributes = 0 ∨ attrs.length ≤ maxAttributes) ∧
    (code = 12 ∨ flags = true ∨ (∃ a ∈ attrs, a.type = 79) → ∃ a ∈ attrs, a.type = 80)

theorem length_le_tlvBytes (attrs : List Tlv) : attrs.length ≤ (tlvBytes attrs).length := by
  induction attrs with
  | nil => simp
  | cons a attrs ih =>
    simp only [length_cons, tlvBytes_cons, length_append, length_bytes]
    omega

theorem radPacketOk_packetBytes {maxAttributes : Nat} {flags : Bool} {received : RadPacket} (hcode : 0 < code ∧ code < 52)
    (hlen : 20 + (tlvBytes attrs).length ≤ 4096) (hma : ∀ a ∈ attrs, a.type = 80 → a.value.length = 16) :
    radPacketOk maxAttributes flags (packetBytes code id vector attrs) = some received ↔ Acceptable maxAttributes flags code attrs ∧
      ⟨code, id % 256, vector, packetBytes code id vector attrs, 0, []⟩ = received := by
  obtain ⟨data, hdata⟩ : ∃ data, data = packetBytes code id vector attrs := ⟨_, rfl⟩
  have hcodeByte : (data.getD 0 0).toNat = code := by
    have hbyte : data.getD 0 0 = UInt8.ofNat code := hdata ▸ rfl
    rw [hbyte, UInt8.toNat_ofNat']
    omega
  have hidByte : ((data.getD 1 0).toNat : Int) = id % 256 := by
    have hbyte : data.getD 1 0 = UInt8.ofNat (id % 256).toNat := hdata ▸ rfl
    rw [hbyte, UInt8.toNat_ofNat']
    omega
  have htotal : ofBe ((data.drop 2).take 2) = 20 + (tlvBytes attrs).length := by
    have hbytes : (data.drop 2).take 2 = beBytes 2 (20 + (tlvBytes attrs).length) := by
      simp [hdata, packetBytes, packetHeader, append_assoc, cons_append, nil_append, drop_succ_cons]
    rw [hbytes, ofBe_beBytes (by omega)]
  have hlength : data.length = 20 + (tlvBytes attrs).length := hdata ▸ length_packetBytes
  have hwalk := okLoop_tlvBytes (20 + (tlvBytes attrs).length) ⟨code = 12 || flags, false, 0⟩
    ((length_le_tlvBytes attrs).trans (Nat.le_add_left _ _))
  have hok : radPacketOk maxAttributes flags data =
      (okLoop (20 + (tlvBytes attrs).length) ⟨code = 12 || flags, false, 0⟩ (tlvBytes attrs)).bind fun w =>
        if 0 < maxAttributes ∧ maxAttributes < w.numAttributes ∨ w.requireMa ∧ !w.seenMa then none
        else some { code, id := id % 256, vector, data, offset := 0, vps := [] } := by
    simp only [radPacketOk, hcodeByte, htotal, take_of_length_le hlength.le, hidByte, hlength]
    rw [if_neg (by omega), hdata, drop_packetBytes, digestAt_vector]
  have hmax : (0 < maxAttributes ∧ maxAttributes < 0 + attrs.length) ↔ ¬(maxAttributes = 0 ∨ attrs.length ≤ maxAttributes) := by omega
  simp only [← hdata, hok, hwalk, Option.bind_eq_some_iff, Option.ite_none_right_eq_some, Option.ite_none_left_eq_some, Option.some.injEq, and_iff_left hma,
    and_assoc, exists_and_left, exists_eq_left', Acceptable, hmax]
  simp only [Bool.or_eq_true, decide_eq_true_eq, any_eq_true, Bool.false_or, Bool.not_eq_true', any_eq_false, not_not, not_and, not_forall, and_imp,
    or_iff_not_imp_left, exists_prop, and_assoc]

/-! ## Verifying -/

theorem length_tlvBytes_snoc (a : Tlv) : 20 + (tlvBytes (pre ++ [a])).length = 20 + (tlvBytes pre).length + a.lengthByte.toNat := by
  simp only [tlvBytes_append, tlvBytes_cons, tlvBytes_nil, append_nil, length_append, length_bytes, toNat_lengthByte]
  omega

theorem lt_length_packetBytes (a : Tlv) : ¬(packetBytes code id vector (pre ++ a :: post)).length ≤ 20 + (tlvBytes pre).length := by
  simp only [length_packetBytes, tlvBytes_append, tlvBytes_cons, length_append, length_bytes]
  omega

theorem verifyVector_eq : verifyVector = signVector := rfl

/-- A Message-Authenticator between other attributes is the HMAC of the packet with an empty one and the vector that its code requires. -/
def AuthenticAt (md5 : Md5) (secret : Bytes) (packet : RadPacket) (original : Option RadPacket) (code : Nat) (id : Int) (pre : List Tlv)
    (a : Tlv) (post : List Tlv) : Prop :=
  a.type = 80 → ∃ vector, signVector packet.code original packet.vector = some vector ∧
    (md5.hmac secret (packetBytes code id vector (pre ++ authenticatorAttr zeroDigest :: post))).toList = a.value

/-- Every Message-Authenticator of the attributes that follow some others is right. -/
def Authentic (md5 : Md5) (secret : Bytes) (packet : RadPacket) (original : Option RadPacket) (code : Nat) (id : Int) (pre attrs : List Tlv) :
    Prop :=
  ∀ mid a post, attrs = mid ++ a :: post → AuthenticAt md5 secret packet original code id (pre ++ mid) a post

theorem authentic_cons {a : Tlv} : Authentic md5 secret packet original code id pre (a :: post) ↔
    AuthenticAt md5 secret packet original code id pre a post ∧ Authentic md5 secret packet original code id (pre ++ [a]) post := by
  constructor
  · intro h
    refine ⟨by simpa using h [] a post rfl, fun mid b rest heq => ?_⟩
    simpa using h (a :: mid) b rest (by rw [heq]; rfl)
  · rintro ⟨hfirst, hrest⟩ mid b rest heq
    cases mid with
    | nil =>
      obtain ⟨rfl, rfl⟩ := cons.inj heq
      simpa using hfirst
    | cons c mid =>
      obtain ⟨rfl, rfl⟩ := cons.inj heq
      simpa using hrest mid b rest rfl

theorem authenticAt_iff {digest : Digest} : AuthenticAt md5 secret packet original code id pre (authenticatorAttr digest) post ↔
    ∃ vector, signVector packet.code original packet.vector = some vector ∧
      md5.hmac secret (packetBytes code id vector (pre ++ authenticatorAttr zeroDigest :: post)) = digest := by
  simp only [← Vector.toList_inj]
  exact forall_prop_of_true rfl

theorem checkAuthenticator_iff {data : Bytes} {digest : Digest} : checkAuthenticator md5 secret packet original (20 + (tlvBytes pre).length)
    (packetBytes code id packet.vector (pre ++ authenticatorAttr digest :: post)) = some data ↔
      data = packetBytes code id packet.vector (pre ++ authenticatorAttr digest :: post) ∧
        AuthenticAt md5 secret packet original code id pre (authenticatorAttr digest) post := by
  simp only [checkAuthenticator, digestAt_authenticator, writeAt_authenticator, digestAt_vector, writeAt_vector, verifyVector_eq,
    Option.bind_eq_some_iff, Option.ite_none_right_eq_some, Option.some.injEq, authenticAt_iff]
  constructor
  · rintro ⟨vector, hvector, hmac, hdata⟩
    exact ⟨hdata.symm, vector, hvector, hmac⟩
  · rintro ⟨hdata, vector, hvector, hmac⟩
    exact ⟨vector, hvector, hmac, hdata.symm⟩

/-- The loop passes exactly if every Message-Authenticator is right, and leaves the packet as it is. -/
theorem verifyLoop_iff {n : Nat} {data : Bytes} (hn : post.length ≤ n) (hma : ∀ a ∈ post, a.type = 80 → a.value.length = 16) :
    verifyLoop md5 secret packet original n (20 + (tlvBytes pre).length) (packetBytes code id packet.vector (pre ++ post)) = some data ↔
      data = packetBytes code id packet.vector (pre ++ post) ∧ Authentic md5 secret packet original code id pre post := by
  induction post generalizing pre n with
  | nil =>
    have hend : verifyLoop md5 secret packet original n (20 + (tlvBytes pre).length) (packetBytes code id packet.vector (pre ++ [])) =
        some (packetBytes code id packet.vector (pre ++ [])) := by
      rw [append_nil]
      cases n <;> rw [verifyLoop, if_pos length_packetBytes.le]
    have hnone : Authentic md5 secret packet original code id pre [] := by
      intro mid a post heq
      simp at heq
    rw [hend, Option.some.injEq, eq_comm, and_iff_left hnone]
  | cons a post ih =>
    obtain ⟨m, rfl⟩ : ∃ m, n = m + 1 := ⟨n - 1, by simp only [length_cons] at hn; omega⟩
    obtain ⟨htype, hlength⟩ := getD_packetBytes a
    have hsplit : pre ++ a :: post = pre ++ [a] ++ post := by simp
    have hrest := @ih (pre ++ [a]) m (Nat.le_of_succ_le_succ hn) fun x hx => hma x (mem_cons_of_mem _ hx)
    rw [← hsplit, length_tlvBytes_snoc] at hrest
    rw [verifyLoop, if_neg (lt_length_packetBytes a), htype, authentic_cons]
    by_cases hauth : a.type = 80
    · obtain ⟨digest, rfl⟩ : ∃ digest, a = authenticatorAttr digest := by
        obtain ⟨_, value, _⟩ := a
        subst hauth
        exact ⟨⟨⟨value⟩, hma _ mem_cons_self rfl⟩, rfl⟩
      rw [if_pos hauth, Option.bind_eq_some_iff]
      simp only [checkAuthenticator_iff, and_assoc, exists_eq_left, hlength, hrest]
      tauto
    · have hother : AuthenticAt md5 secret packet original code id pre a post := fun h => absurd h hauth
      rw [if_neg hauth, Option.bind_some, hlength, hrest, and_iff_right hother]

/-! ## Signing -/

/-- The vector of a packet after it is signed. -/
def signedVector (md5 : Md5) (secret : Bytes) (code : Nat) (vector : Digest) (data : Bytes) : Digest :=
  match code with
  | 1 | 12 => vector
  | _ => md5.md5 (data ++ secret)

/-- Once the Message-Authenticator is written, the vector is. -/
theorem radSign_eq (hid : 0 ≤ packet.id) (hlen : 20 ≤ packet.data.length)
    (hdata : (if 0 < packet.offset then
      (signVector packet.code original (digestAt packet.data 4)).map fun vector =>
        let data := writeAt packet.data 4 vector.toList
        writeAt (writeAt data (packet.offset + 2) (md5.hmac secret data).toList) 4 packet.vector.toList
    else some packet.data) = some (packetBytes code id packet.vector attrs)) :
    ∃ packet', radSign md5 secret packet original = some packet' ∧
      packet'.data = packetBytes code id (signedVector md5 secret packet.code packet.vector (packetBytes code id packet.vector attrs)) attrs := by
  rw [radSign, if_neg (by omega), hdata, Option.map_some]
  refine ⟨_, rfl, ?_⟩
  unfold signedVector
  generalize packet.code = c
  split <;> simp only [writeAt_vector]

/-! ## Signing and verifying -/

/-- The codes of replies. -/
def replyCodes : List Nat := [2, 3, 5, 11, 41, 42, 44, 45]

/-- The codes that `rad_verify` handles. -/
def verifiedCodes : List Nat := [1, 12] ++ [4, 40, 43] ++ replyCodes

/-- A packet whose signature can be verified: `rad_verify` handles its code, a request that is signed like a reply has an empty vector, and
a reply has the vector of the request. -/
structure Verifiable (code : Nat) (vector : Digest) (original : Option RadPacket) : Prop where
  handled : code ∈ verifiedCodes
  request : code ∈ [4, 40, 43] → vector = zeroDigest
  reply : code ∈ replyCodes → ∃ o, original = some o ∧ o.vector = vector

/-- A packet is verified if its Message-Authenticator passes and its vector is the one it was signed with. -/
theorem radVerify_signed {received : RadPacket} {vector : Digest} (h : Verifiable received.code vector original)
    (hdata : received.data = packetBytes code id received.vector attrs)
    (hsigned : received.vector = signedVector md5 secret received.code vector (packetBytes code id vector attrs))
    (hloop : verifyLoop md5 secret received original received.data.length 20 received.data = some received.data) :
    radVerify md5 secret received original = true := by
  rw [radVerify, hloop]
  simp only [hdata, writeAt_vector]
  unfold signedVector at hsigned
  obtain ⟨hcode, hzero, horiginal⟩ := h
  simp only [verifiedCodes, mem_append] at hcode
  obtain (hplain | hrequest) | hreply := hcode
  · simp only [mem_cons, not_mem_nil, or_false] at hplain
    obtain h | h := hplain <;> simp [h]
  · rw [hzero hrequest] at hsigned
    simp only [mem_cons, not_mem_nil, or_false] at hrequest
    obtain h | h | h := hrequest <;> simp [h, hsigned]
  · obtain ⟨o, rfl, rfl⟩ := horiginal hreply
    simp only [replyCodes, mem_cons, not_mem_nil, or_false] at hreply
    obtain h | h | h | h | h | h | h | h := hreply <;> simp [h, hsigned]

theorem startEncode_spec {packet' : RadPacket} (h : startEncode packet original = some packet') :
    packet'.code = packet.code ∧ packet'.id = packet.id ∧ packet'.vps = packet.vps ∧
      (packet.code ∈ [4, 40, 43] → packet'.vector = zeroDigest) ∧ (packet.code ∈ replyCodes → packet'.vector = packet.vector) := by
  unfold startEncode at h
  split at h
  all_goals
    rename_i hcode
    simp only [Option.ite_none_left_eq_some, Option.some.injEq] at h
  · obtain ⟨-, rfl⟩ := h
    simp [hcode]
  · obtain ⟨-, rfl⟩ := h
    simp [hcode]
  · obtain ⟨-, rfl⟩ := h
    simp [hcode]
  · obtain rfl := h
    simp [hcode, replyCodes]
  · obtain rfl := h
    simp [hcode, replyCodes]
  · obtain rfl := h
    simp [hcode, replyCodes]
  · obtain rfl := h
    simp_all

/-- Signing and verifying use the same vector for the Message-Authenticator. -/
theorem signVector_received (secret data : Bytes) {vector : Digest} (h : Verifiable code vector original) :
    ∃ vector', signVector code original vector = some vector' ∧
      signVector code original (signedVector md5 secret code vector data) = some vector' := by
  obtain ⟨hcode, -, horiginal⟩ := h
  simp only [verifiedCodes, mem_append] at hcode
  obtain (hplain | hrequest) | hreply := hcode
  · simp only [mem_cons, not_mem_nil, or_false] at hplain
    obtain rfl | rfl := hplain <;> exact ⟨vector, rfl, rfl⟩
  · simp only [mem_cons, not_mem_nil, or_false] at hrequest
    obtain rfl | rfl | rfl := hrequest <;> exact ⟨zeroDigest, rfl, rfl⟩
  · obtain ⟨o, rfl, rfl⟩ := horiginal hreply
    simp only [replyCodes, mem_cons, not_mem_nil, or_false] at hreply
    obtain rfl | rfl | rfl | rfl | rfl | rfl | rfl | rfl := hreply
    · exact ⟨o.vector, rfl, rfl⟩
    · exact ⟨o.vector, rfl, rfl⟩
    · by_cases ho : o.code = 12
      · exact ⟨o.vector, by simp [signVector, ho], by simp [signVector, ho]⟩
      · exact ⟨zeroDigest, by simp [signVector, ho], by simp [signVector, ho]⟩
    · exact ⟨o.vector, rfl, rfl⟩
    all_goals exact ⟨zeroDigest, rfl, rfl⟩

/-- Only the types of the attributes matter. -/
theorem Acceptable.of_types {maxAttributes : Nat} {flags : Bool} {attrs' : List Tlv} (h : Acceptable maxAttributes flags code attrs)
    (htypes : attrs.map type = attrs'.map type) : Acceptable maxAttributes flags code attrs' := by
  have hmem : ∀ t, (∃ a ∈ attrs, a.type = t) ↔ ∃ a ∈ attrs', a.type = t := by
    intro t
    rw [← mem_map, ← mem_map, htypes]
  have hlen : attrs.length = attrs'.length := by simpa using congrArg List.length htypes
  obtain ⟨hzero, hmax, hrequired⟩ := h
  refine ⟨fun a ha htype => ?_, hlen ▸ hmax, ?_⟩
  · obtain ⟨x, hx, hxtype⟩ := (hmem 0).2 ⟨a, ha, htype⟩
    exact hzero x hx hxtype
  · rw [← hmem, ← hmem]
    exact hrequired

/-- What is to be shown of a packet with some attributes that is signed. -/
def SignedOk (md5 : Md5) (secret : Bytes) (original : Option RadPacket) (maxAttributes : Nat) (flags : Bool) (packet : RadPacket)
    (attrs : List Tlv) : Prop :=
  ∃ packet', radSign md5 secret packet original = some packet' ∧
    ((radPacketOk maxAttributes flags packet'.data).isSome = true ↔ Acceptable maxAttributes flags packet.code attrs) ∧
    ∀ received, radPacketOk maxAttributes flags packet'.data = some received → radVerify md5 secret received original = true

variable {maxAttributes : Nat} {flags : Bool}

/-- A packet with the attributes of a signed one is accepted under the conditions, and verified. -/
theorem signedOk_of_authentic {packet' : RadPacket} (h : Verifiable packet.code packet.vector original)
    (hlen : 20 + (tlvBytes attrs).length ≤ 4096) (hma : ∀ a ∈ attrs, a.type = 80 → a.value.length = 16)
    (hsign : radSign md5 secret packet original = some packet')
    (hsigned : packet'.data = packetBytes packet.code id (signedVector md5 secret packet.code packet.vector
      (packetBytes packet.code id packet.vector attrs)) attrs)
    (hauth : ∀ received : RadPacket, received.code = packet.code →
      received.vector = signedVector md5 secret packet.code packet.vector (packetBytes packet.code id packet.vector attrs) →
      Authentic md5 secret received original packet.code id [] attrs) : SignedOk md5 secret original maxAttributes flags packet attrs := by
  have hbounds : 0 < packet.code ∧ packet.code < 52 := by
    have hcode := h.handled
    simp only [verifiedCodes, replyCodes, cons_append, nil_append, mem_cons, not_mem_nil, or_false] at hcode
    omega
  refine ⟨packet', hsign, ?_, fun received hreceived => ?_⟩
  · rw [hsigned, Option.isSome_iff_exists]
    simp only [radPacketOk_packetBytes hbounds hlen hma, exists_and_left, exists_eq', and_true]
  · rw [hsigned] at hreceived
    obtain ⟨-, hreceived⟩ := (radPacketOk_packetBytes hbounds hlen hma).1 hreceived
    have hrcode : received.code = packet.code := by rw [← hreceived]
    have hdata : received.data = packetBytes packet.code id received.vector attrs := by rw [← hreceived]
    have hcount : attrs.length ≤ received.data.length := by
      rw [hdata, length_packetBytes]
      exact (length_le_tlvBytes attrs).trans (Nat.le_add_left _ _)
    have hloop : verifyLoop md5 secret received original received.data.length (20 + (tlvBytes []).length)
        (packetBytes packet.code id received.vector ([] ++ attrs)) = _ :=
      (verifyLoop_iff hcount hma).2 ⟨rfl, hauth received hrcode (by rw [← hreceived])⟩
    exact radVerify_signed (hrcode ▸ h) hdata (by rw [hrcode, ← hreceived]) (hdata ▸ hloop)

section

variable (h : Verifiable packet.code packet.vector original) (hid : 0 ≤ packet.id)
  (hdata : packet.data = packetBytes packet.code packet.id packet.vector attrs) (hlen : 20 + (tlvBytes attrs).length ≤ 4096)

include h hid hdata hlen

theorem signedOk_none (hoffset : packet.offset = 0) (hattrs : ∀ a ∈ attrs, a.type ≠ 80) :
    SignedOk md5 secret original maxAttributes flags packet attrs := by
  obtain ⟨packet', hsign, hsigned⟩ : ∃ packet', radSign md5 secret packet original = some packet' ∧ _ :=
    radSign_eq hid (by rw [hdata, length_packetBytes]; omega) (by rw [if_neg (by omega), hdata])
  refine signedOk_of_authentic h hlen (fun a ha htype => absurd htype (hattrs a ha)) hsign hsigned fun received _ _ => ?_
  rintro mid a post rfl htype
  exact absurd htype (hattrs a mem_append_cons_self)

theorem signedOk_authenticator (hoffset : packet.offset = 20 + (tlvBytes pre).length) (hattrs : attrs = pre ++ authenticatorAttr zeroDigest :: post)
    (hothers : ∀ a ∈ pre ++ post, a.type ≠ 80) : SignedOk md5 secret original maxAttributes flags packet attrs := by
  subst hattrs
  obtain ⟨vector', hvector, -⟩ : ∃ vector', signVector packet.code original packet.vector = some vector' ∧
      signVector packet.code original (signedVector md5 secret packet.code packet.vector []) = some vector' :=
    signVector_received secret [] h
  let digest := md5.hmac secret (packetBytes packet.code packet.id vector' (pre ++ authenticatorAttr zeroDigest :: post))
  obtain ⟨packet', hsign, hsigned⟩ : ∃ packet', radSign md5 secret packet original = some packet' ∧
      packet'.data = packetBytes packet.code packet.id _ (pre ++ authenticatorAttr digest :: post) := by
    refine radSign_eq hid (by rw [hdata, length_packetBytes]; omega) ?_
    rw [if_pos (by omega)]
    simp only [hdata, digestAt_vector, hvector, Option.map_some, writeAt_vector, hoffset, writeAt_authenticator, digest]
  have hlen' : (tlvBytes (pre ++ authenticatorAttr digest :: post)).length = (tlvBytes (pre ++ authenticatorAttr zeroDigest :: post)).length := by
    simp [authenticatorAttr]
  have htypes : (pre ++ authenticatorAttr digest :: post).map type = (pre ++ authenticatorAttr zeroDigest :: post).map type := by
    simp [authenticatorAttr]
  have hma : ∀ a ∈ pre ++ authenticatorAttr digest :: post, a.type = 80 → a.value.length = 16 := by
    intro a ha htype
    obtain rfl | ha := mem_cons.1 (perm_middle.subset ha)
    · exact Vector.length_toList
    · exact absurd htype (hothers a ha)
  obtain ⟨hpre, hpost⟩ := forall_mem_append.1 hothers
  have hok : SignedOk md5 secret original maxAttributes flags packet (pre ++ authenticatorAttr digest :: post) := by
    refine signedOk_of_authentic h (hlen'.symm ▸ hlen) hma hsign hsigned fun received hrcode hrvector => ?_
    obtain ⟨vector'', hvector'', hverify⟩ := signVector_received secret
      (packetBytes packet.code packet.id packet.vector (pre ++ authenticatorAttr digest :: post)) h
    obtain rfl : vector'' = vector' := Option.some.inj (hvector''.symm.trans hvector)
    rw [← hrvector, ← hrcode] at hverify
    intro mid a rest heq htype
    obtain ⟨rfl, rfl, rfl⟩ := (append_cons_inj_of_notMem (fun ha => hpre a ha htype) fun ha => hpost a ha htype).1 heq
    exact authenticAt_iff.2 ⟨_, hverify, rfl⟩ htype
  obtain ⟨packet'', hsign', haccept, hverify⟩ := hok
  exact ⟨packet'', hsign', haccept.trans ⟨fun h => h.of_types htypes, fun h => h.of_types htypes.symm⟩, hverify⟩

end

end

/-- A packet that was encoded whole and signed is accepted exactly if it has no attribute 0, not too many attributes, and a
Message-Authenticator where one is required; an accepted one is verified. -/
theorem signed_packet_verifies (e : EncodeEnv) (packet packet₁ : RadPacket) (original : Option RadPacket) (maxAttributes : Nat) (flags : Bool)
    (hcode : packet.code ∈ verifiedCodes) (hid : 0 ≤ packet.id) (hok : ∀ vp ∈ packet.vps, WireOk vp)
    (hone : authenticators packet.vps ≤ 1) (horiginal : packet.code ∈ replyCodes → ∃ o, original = some o ∧ o.vector = packet.vector)
    (hencode : radEncode e packet original = some (packet₁, false)) :
    ∃ attrs packet₂, packet₁.data = packetBytes packet.code packet.id packet₁.vector attrs ∧
      radSign e.md5 e.secret packet₁ original = some packet₂ ∧
      ((radPacketOk maxAttributes flags packet₂.data).isSome = true ↔ Acceptable maxAttributes flags packet.code attrs) ∧
      ∀ received, radPacketOk maxAttributes flags packet₂.data = some received → radVerify e.md5 e.secret received original = true := by
  obtain ⟨start, hstart, hencode⟩ := Option.bind_eq_some_iff.1 hencode
  obtain ⟨hscode, hsid, hsvps, hszero, hsvector⟩ := startEncode_spec hstart
  obtain ⟨encoded, hloop, heq⟩ := Option.map_eq_some_iff.1 hencode
  simp only [Prod.mk.injEq] at heq
  obtain ⟨hpacket, hfits⟩ := heq
  obtain ⟨hlength, pre, post, hothers, hwritten⟩ := encodeLoop_attrs (hsvps ▸ hok) (hsvps ▸ hone) (by decide) hloop hfits
  have hcode₁ : packet₁.code = packet.code := by rw [← hpacket, ← hscode]
  have hid₁ : packet₁.id = packet.id := by rw [← hpacket, ← hsid]
  have hoffset₁ : packet₁.offset = encoded.offset := by rw [← hpacket]
  have hvector₁ : packet₁.vector = start.vector := by rw [← hpacket]
  have hdata₁ : ∀ attrs, encoded.bytes = tlvBytes attrs → packet₁.data = packetBytes packet₁.code packet₁.id packet₁.vector attrs := by
    intro attrs hbytes
    rw [packetBytes, ← hbytes, ← hpacket]
  have hverifiable : Verifiable packet₁.code packet₁.vector original := by
    rw [hcode₁, hvector₁]
    refine ⟨hcode, hszero, fun hreply => ?_⟩
    rw [hsvector hreply]
    exact horiginal hreply
  have hall : ∃ attrs, encoded.bytes = tlvBytes attrs ∧ SignedOk e.md5 e.secret original maxAttributes flags packet₁ attrs := by
    obtain ⟨-, hoffset, hbytes⟩ | ⟨-, hoffset, hbytes⟩ := hwritten
    · exact ⟨_, hbytes, signedOk_none hverifiable (hid₁ ▸ hid) (hdata₁ _ hbytes) (hbytes ▸ hlength) (hoffset₁.trans hoffset) hothers⟩
    · exact ⟨_, hbytes, signedOk_authenticator hverifiable (hid₁ ▸ hid) (hdata₁ _ hbytes) (hbytes ▸ hlength) (hoffset₁.trans hoffset) rfl hothers⟩
  obtain ⟨attrs, hbytes, packet₂, hsign, haccept, hverify⟩ := hall
  exact ⟨attrs, packet₂, hcode₁ ▸ hid₁ ▸ hdata₁ attrs hbytes, hsign, hcode₁ ▸ haccept, hverify⟩

/-! ## Samples -/

/-- A dictionary that is empty, and simple digests. -/
def plainEnv : EncodeEnv where
  dict := ⟨fun _ => none, fun _ => none, by simp, by simp⟩
  md5 := ⟨fun text => digestAt text.reverse 0, fun key text => digestAt (key ++ text.reverse) 3⟩
  secret := [115, 51, 99]
  salt := fun _ => (0x80, 0)

def bob : ValuePair := { attr := 1, type := .string, length := 3, flags := {}, octets := [98, 111, 98] }

def authenticatorPair : ValuePair := { attr := 80, type := .octets, length := 16, flags := {}, octets := List.replicate 16 7 }

def accessRequest : RadPacket := ⟨1, 5, Vector.replicate 16 9, [], 0, []⟩

def accessAccept : RadPacket := ⟨2, 5, Vector.replicate 16 9, [], 0, [bob, authenticatorPair]⟩

theorem wireOk_bob : WireOk bob := ⟨by decide, by decide, by decide, by decide⟩

theorem wireOk_authenticatorPair : WireOk authenticatorPair := ⟨by decide, by decide, by decide, by decide⟩

theorem signed_packet_verifies_accept : ∃ packet₁, radEncode plainEnv accessAccept (some accessRequest) = some (packet₁, false) ∧
    ∃ attrs packet₂, packet₁.data = packetBytes 2 5 packet₁.vector attrs ∧
      radSign plainEnv.md5 plainEnv.secret packet₁ (some accessRequest) = some packet₂ ∧
      ((radPacketOk 200 true packet₂.data).isSome = true ↔ Acceptable 200 true 2 attrs) ∧
      ∀ received, radPacketOk 200 true packet₂.data = some received →
        radVerify plainEnv.md5 plainEnv.secret received (some accessRequest) = true := by
  have hencode : ∃ packet₁, radEncode plainEnv accessAccept (some accessRequest) = some (packet₁, false) := ⟨_, rfl⟩
  obtain ⟨packet₁, hencode⟩ := hencode
  refine ⟨packet₁, hencode, signed_packet_verifies plainEnv accessAccept packet₁ (some accessRequest) 200 true (by decide) (by decide) ?_
    (by decide) (fun _ => ⟨accessRequest, rfl, rfl⟩) hencode⟩
  intro vp hvp
  simp only [accessAccept, mem_cons, not_mem_nil, or_false] at hvp
  obtain rfl | rfl := hvp
  · exact wireOk_bob
  · exact wireOk_authenticatorPair

/-- A sub-attribute that is too long for its byte of length. -/
def longSubAttribute : ValuePair :=
  { attr := 24757 * 65536 + 1 * 256 + 1, type := .octets, length := 254, flags := { isTlv := true }, octets := List.replicate 254 1 }

/-- A Status-Server packet without attributes is refused. Behind a sub-attribute that is too long, a Message-Authenticator is sent as it is
and does not pass. -/
theorem signed_packet_refused :
    ((radEncode plainEnv { accessRequest with code := 12 } none).bind fun packet₁ =>
      (radSign plainEnv.md5 plainEnv.secret packet₁.1 none).map fun packet₂ => (packet₁.2, radPacketOk 0 false packet₂.data)) =
        some (false, none) ∧
    ((radEncode plainEnv { accessRequest with vps := [longSubAttribute, authenticatorPair] } none).bind fun packet₁ =>
      (radSign plainEnv.md5 plainEnv.secret packet₁.1 none).bind fun packet₂ => (radPacketOk 0 false packet₂.data).map fun received =>
        (packet₁.2, radVerify plainEnv.md5 plainEnv.secret received none)) = some (false, false) := by
  decide +kernel

/-! ## What `rad_verify` accepts, and what it leaves -/

section

section

variable (md5 : Md5) (secret : Bytes) (packet : RadPacket) (original : Option RadPacket)

/-- `rad_verify`: the data of the packet when it has returned 0. `calc_replydigest` writes the vector back, `calc_acctdigest` does not. -/
def verifiedData : Option Bytes :=
  if radVerify md5 secret packet original then
    (verifyLoop md5 secret packet original packet.data.length 20 packet.data).map fun data =>
      match packet.code with
      | 4 | 40 | 43 => writeAt data 4 zeroDigest.toList
      | 2 | 3 | 5 | 11 | 41 | 42 | 44 | 45 => writeAt data 4 packet.vector.toList
      | _ => data
  else none

/-- The vector of the packet is the MD5 that its code requires. -/
def Signed (attrs : List Tlv) : Prop :=
  let digest (vector : Digest) := md5.md5 (packetBytes packet.code packet.id vector attrs ++ secret)
  (packet.code ∈ [4, 40, 43] → packet.vector = digest zeroDigest) ∧
    (packet.code ∈ replyCodes → ∃ o, original = some o ∧ packet.vector = digest o.vector)

end

/-- A packet as `rad_packet_ok` gives it, with attributes whose Message-Authenticators have 16 bytes. -/
structure Received where
  packet : RadPacket
  attrs : List Tlv
  data_eq : packet.data = packetBytes packet.code packet.id packet.vector attrs
  length_authenticator : ∀ a ∈ attrs, a.type = 80 → a.value.length = 16

/-- What the walk passes over are attributes. -/
theorem exists_attrs_of_okLoop {n : Nat} {w w' : Walked} {data : Bytes} (h : okLoop n w data = some w') :
    ∃ attrs, data = tlvBytes attrs ∧ ∀ a ∈ attrs, a.type = 80 → a.value.length = 16 := by
  fun_induction okLoop n w data with
  | case1 => exact ⟨[], rfl, by simp⟩
  | case2 | case3 => cases h
  | case4 _ _ data _ type len hok ih =>
    obtain ⟨attrs, hattrs, hma⟩ := ih h
    obtain ⟨t, l, data, rfl⟩ : ∃ t l rest, data = t :: l :: rest := by
      rcases data with _ | ⟨_, _ | _⟩ <;> simp_all
    simp only [type, len, getD_cons_zero, getD_cons_succ, length_cons, not_or, not_and, ne_eq, not_not] at hok hattrs
    obtain ⟨k, hk⟩ : ∃ k, l.toNat = k + 2 := ⟨l.toNat - 2, by omega⟩
    have hlength : (data.take k).length = k := length_take_of_le (by omega)
    have hbyte := l.toNat_lt
    refine ⟨⟨t, data.take k, by omega⟩ :: attrs, ?_, forall_mem_cons.2 ⟨fun htype => ?_, hma⟩⟩
    · rw [hk, drop_succ_cons, drop_succ_cons] at hattrs
      simp [Tlv.bytes, Tlv.lengthByte, ← hattrs, hlength, ← hk]
    · have := hok.2.2.2.2 htype
      show (data.take k).length = 16
      omega

/-- What `rad_packet_ok` gives is such a packet. -/
theorem Received.of_radPacketOk {packet : RadPacket} (h : radPacketOk maxAttributes flags data = some packet) :
    ∃ r : Received, r.packet = packet := by
  simp only [radPacketOk, Option.ite_none_left_eq_some, Option.bind_eq_some_iff] at h
  obtain ⟨hlen, w, hwalk, -, h⟩ := h
  cases h
  obtain ⟨attrs, hattrs, hma⟩ := exists_attrs_of_okLoop hwalk
  refine ⟨⟨_, attrs, ?_, hma⟩, rfl⟩
  obtain ⟨code, id, high, low, rest, rfl⟩ : ∃ a b c d rest, data = a :: b :: c :: d :: rest := by
    rcases data with _ | ⟨_, _ | ⟨_, _ | ⟨_, _ | _⟩⟩⟩ <;> simp_all
  have hlow := low.toNat_lt
  have hid : ((id.toNat : Int) % 256).toNat = id.toNat := by
    have := id.toNat_lt
    omega
  obtain ⟨n, hn⟩ : ∃ n, ofBe [high, low] = n + 20 := ⟨ofBe [high, low] - 20, by simp at hlen; omega⟩
  have hheader : beBytes 2 (n + 20) = [high, low] := by
    have hmod : UInt8.ofNat (low.toNat + 256 * high.toNat) = low := UInt8.toNat.inj (by rw [UInt8.toNat_ofNat']; omega)
    simp [← hn, ofBe, ofLe, beBytes, leBytes, hmod, show (low.toNat + 256 * high.toNat) / 256 = high.toNat by omega]
  simp only [drop_succ_cons, drop_zero, take_succ_cons, take_zero, getD_cons_zero, getD_cons_succ, length_cons, hn] at hlen hattrs ⊢
  have hlength : 20 + (tlvBytes attrs).length = n + 20 := by
    rw [← hattrs, length_drop, length_take]
    omega
  have hsplit := take_append_drop 16 (rest.take (n + 16))
  rw [take_take, Nat.min_eq_left (by omega), hattrs] at hsplit
  have hdigest := digestAt_append [code, id, high, low] (tlvBytes attrs) ⟨⟨rest.take 16⟩, by simp; omega⟩
  rw [← hsplit, packetBytes, hlength, packetHeader, hheader,
    show digestAt (code :: id :: high :: low :: (rest.take 16 ++ tlvBytes attrs)) 4 = _ from hdigest]
  simp [hid]

variable {md5 : Md5} {secret : Bytes} {original : Option RadPacket} (r : Received)

theorem verifiedData_of_radVerify (h : radVerify md5 secret r.packet original = true) :
    Authentic md5 secret r.packet original r.packet.code r.packet.id [] r.attrs ∧ Signed md5 secret r.packet original r.attrs ∧
      verifiedData md5 secret r.packet original =
        some (packetBytes r.packet.code r.packet.id (if r.packet.code ∈ [4, 40, 43] then zeroDigest else r.packet.vector) r.attrs) := by
  rw [verifiedData, if_pos h]
  unfold radVerify at h
  split at h
  · cases h
  · rename_i data hloop
    have hcount : r.attrs.length ≤ r.packet.data.length := by
      rw [r.data_eq, length_packetBytes]
      exact (length_le_tlvBytes r.attrs).trans (Nat.le_add_left _ _)
    have hstart := hloop
    nth_rewrite 2 [r.data_eq] at hstart
    obtain ⟨rfl, hauth⟩ := (@verifyLoop_iff _ _ [] _ _ _ _ _ _ _ hcount r.length_authenticator).1 hstart
    rw [hloop]
    simp only [nil_append, writeAt_vector, Option.map_some] at h ⊢
    refine ⟨hauth, ?_⟩
    unfold Signed
    split at h <;> cases original <;> simp_all [replyCodes]

/-- Verifying is sound; it leaves the data as it was exactly if the packet is no request with a vector that is calculated and not zero. -/
theorem radVerify_sound_iff :
    (radVerify md5 secret r.packet original = true →
      Authentic md5 secret r.packet original r.packet.code r.packet.id [] r.attrs ∧ Signed md5 secret r.packet original r.attrs ∧
        verifiedData md5 secret r.packet original = some r.packet.data) ↔
      (radVerify md5 secret r.packet original = true → r.packet.code ∈ [4, 40, 43] → r.packet.vector = zeroDigest) := by
  refine forall_congr' fun hverify => ?_
  obtain ⟨hauth, hsigned, hdata⟩ := verifiedData_of_radVerify r hverify
  rw [and_iff_right hauth, and_iff_right hsigned, hdata, Option.some.injEq, r.data_eq]
  constructor
  · intro hsame hcode
    rw [if_pos hcode] at hsame
    have hvector := congrArg (digestAt · 4) hsame
    simpa only [digestAt_vector] using hvector.symm
  · intro hzero
    split
    · rename_i hcode
      rw [hzero hcode]
    · rfl

/-- An Accounting-Request without attributes, signed with a digest that is the same for all data. -/
def accountingRequest : Received :=
  let vector := Vector.replicate 16 7
  ⟨⟨4, 5, vector, packetBytes 4 5 vector [], 0, []⟩, [], rfl, by simp⟩

theorem radVerify_leaves_zeros :
    let md5 : Md5 := ⟨fun _ => Vector.replicate 16 7, fun _ _ => zeroDigest⟩
    radVerify md5 [] accountingRequest.packet none = true ∧
      verifiedData md5 [] accountingRequest.packet none = some (packetBytes 4 5 zeroDigest []) ∧
      verifiedData md5 [] accountingRequest.packet none ≠ some accountingRequest.packet.data := by
  decide

end

end Osp.Freeradius
