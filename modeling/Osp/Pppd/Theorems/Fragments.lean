import Osp.Pppd.Lemmas.EapTls

/-!
# Fragments of a flight

What the engine of one side hands over, cut into packets by `eaptls_send`, is given to the engine of the other side by `eaptls_receive`.
-/

namespace Osp.Pppd

open Osp.Lib List

variable {ε ε' : Type} {tls : Tls ε} {s r : Session ε} {flight got chunk : Bytes}

/-! ## Flights -/

/-- The bytes that the engine hands over when it is to write. -/
def flightOf (tls : Tls ε) (s : Session ε) : Bytes :=
  handed ((wolfSSLNegotiate tls { s with rwstate := .write }).calls.drop s.calls.length)

/-- A session without a message that is half sent or half received. -/
structure Session.Ready (s : Session ε) : Prop where
  data : s.data = none
  alertSent : s.alertSent = false

/-- A session that has sent so many bytes of a flight. -/
structure Session.Sending (s : Session ε) (flight : Bytes) (offset : Nat) : Prop where
  data : s.data = some flight
  datalen : s.datalen = flight.length
  offset : s.offset = offset
  alertSent : s.alertSent = false

theorem sendFill_sending (hs : s.Ready) (hne : flightOf tls s ≠ []) :
    (sendFill tls { s with rwstate := .write }).Sending (flightOf tls s) 0 ∧ (sendFill tls { s with rwstate := .write }).mtu = s.mtu := by
  have hholding : ({ s with rwstate := .write } : Session ε).Holding [] s.datalen := ⟨rfl, .inl ⟨hs.data, rfl, rfl⟩⟩
  have hkept := runIo_kept (tls.negotiate s.engine) { s with rwstate := .write }
  obtain ⟨new, hcalls, hdata⟩ := runIo_holding (tls.negotiate s.engine) hholding
  have hflight : flightOf tls s = handed new := by
    rw [flightOf, wolfSSLNegotiate, hcalls, drop_left]
  rw [nil_append, ← hflight] at hdata
  obtain ⟨-, hnil, -⟩ | ⟨hdata, hlen, -⟩ := hdata.data
  · exact absurd hnil hne
  · rw [sendFill, if_neg (by simp [hs.alertSent])]
    exact ⟨⟨hdata, hlen, rfl, hkept.alertSent.trans hs.alertSent⟩, hkept.mtu⟩

/-! ## Packets -/

variable {offset total : Nat}

/-- A packet that is not the last one. -/
theorem sendPacket_more (hs : s.Sending flight offset) (hmore : offset + s.mtu < flight.length) (first : Bool)
    (hrtx : (sendHeader true first flight.length).length + s.mtu ≤ 65536) :
    ∃ s', sendPacket s first = some (sendHeader true first flight.length ++ (flight.drop offset).take s.mtu, s') ∧
      s'.Sending flight (offset + s.mtu) ∧ s'.frag = true ∧ s'.mtu = s.mtu := by
  have hfrag : (s.mtu : Int) < (flight.length : Int) - offset := by omega
  have hlength : ((flight.drop offset).take s.mtu).length = s.mtu := by
    rw [length_take, length_drop]
    omega
  have hsize : (sendHeader true first flight.length ++ (flight.drop offset).take s.mtu).length ≤ 65536 := by
    rw [length_append, hlength]
    exact hrtx
  refine ⟨{ s with frag := true, rtx := sendHeader true first flight.length ++ (flight.drop offset).take s.mtu,
                   offset := offset + s.mtu, rwstate := .none }, ?_, ⟨hs.data, hs.datalen, rfl, hs.alertSent⟩, rfl, rfl⟩
  simp only [sendPacket, hs.data, hs.datalen, hs.offset, hfrag, decide_true, if_true, Option.getD_some, Int.toNat_natCast]
  rw [if_neg (by omega), if_neg (by omega), if_neg (by omega), if_neg (by omega)]

/-- The last packet. -/
theorem sendPacket_last (hs : s.Sending flight offset) (hle : offset ≤ flight.length)
    (hlast : flight.length ≤ offset + s.mtu) (first : Bool) (hrtx : 2 + (flight.length - offset) ≤ 65536) :
    ∃ s', sendPacket s first = some ([13, 0] ++ flight.drop offset, s') ∧ s'.Ready ∧ s'.frag = false := by
  have hfrag : ¬ (s.mtu : Int) < (flight.length : Int) - offset := by omega
  have hrest : ((flight.length : Int) - offset).toNat = (flight.drop offset).length := by
    rw [length_drop]
    omega
  have hsize : ([13, 0] ++ flight.drop offset).length ≤ 65536 := by
    rw [length_append, length_drop]
    exact hrtx
  have hend : offset + (flight.drop offset).length = flight.length := by
    omega
  refine ⟨{ s with frag := false, rtx := [13, 0] ++ flight.drop offset, offset := 0, rwstate := .none, data := none, datalen := 0 },
    ?_, ⟨rfl, hs.alertSent⟩, rfl⟩
  simp only [sendPacket, hs.data, hs.datalen, hs.offset, hfrag, decide_false, Bool.false_eq_true, if_false, Option.getD_some, hrest,
    take_length, sendHeader, Bool.false_and, hend]
  rw [if_neg (by omega), if_neg (by omega), if_neg (by omega), if_pos le_rfl]

/-! ## Receiving -/

/-- A session that has received so much of a message of a length. -/
structure Session.Collecting (s : Session ε) (got : Bytes) (total : Nat) : Prop where
  data : ∃ space, s.data = some (got ++ space) ∧ got.length + space.length = total
  datalen : s.datalen = got.length
  tlslen : s.tlslen = total
  alertSent : s.alertSent = false

/-- The data of a packet goes into the space behind what there is. -/
theorem Session.Collecting.write (h : s.Collecting got total) (hle : got.length + chunk.length ≤ total) :
    s.datalen + chunk.length ≤ (s.data.getD []).length ∧
    ∃ space, writeAt (s.data.getD []) s.datalen chunk = got ++ chunk ++ space ∧ (got ++ chunk).length + space.length = total := by
  obtain ⟨space, hdata, hspace⟩ := h.data
  rw [hdata, Option.getD_some, h.datalen]
  refine ⟨by simp; omega, space.drop chunk.length, writeAt_eq _ _ _ (by omega), ?_⟩
  rw [length_append, length_drop]
  omega

/-- A packet is taken as a part of a message. -/
def Continues (s : Session ε) (got : Bytes) (total : Nat) (result : Option (Nat × Session ε)) : Prop :=
  ∃ s', result = some (0, s') ∧ s'.Collecting got total ∧ s'.calls = s.calls

/-- A packet completes a message, which is given to the engine as far as the engine asks for it. -/
def Completes (s : Session ε) (message : Bytes) (result : Option (Nat × Session ε)) : Prop :=
  ∃ s', result = some (0, s') ∧ s'.Ready ∧ ∃ new, s'.calls = s.calls ++ new ∧ given new = message.take (asked new)

theorem receiveData_more (h : s.Collecting got total) (hfrag : s.frag = true) (hle : got.length + chunk.length ≤ total) :
    Continues s (got ++ chunk) total (receiveData tls s chunk chunk.length) := by
  obtain ⟨hcap, space, hwrite, hspace⟩ := h.write hle
  have hdatalen := h.datalen
  have htlslen := h.tlslen
  refine ⟨{ s with data := some (got ++ chunk ++ space), datalen := s.datalen + chunk.length, rwstate := .none }, ?_,
    ⟨⟨space, rfl, hspace⟩, by simp [h.datalen], h.tlslen, h.alertSent⟩, rfl⟩
  simp only [receiveData, Int.toNat_natCast, take_length, hfrag, if_true, hwrite]
  rw [if_neg (by omega), if_neg (by omega), if_neg (by omega)]

theorem receiveData_last (h : s.Collecting got total) (hread : s.rwstate = .read) (hfrag : s.frag = false)
    (hend : got.length + chunk.length = total) : Completes s (got ++ chunk) (receiveData tls s chunk chunk.length) := by
  obtain ⟨hcap, space, hwrite, hspace⟩ := h.write hend.le
  have hdatalen := h.datalen
  have htlslen := h.tlslen
  obtain rfl : space = [] := by
    rw [length_append] at hspace
    exact eq_nil_of_length_eq_zero (by omega)
  rw [append_nil] at hwrite
  have hreading : ({ s with data := some (got ++ chunk), datalen := (got ++ chunk).length, dataused := 0 } : Session ε).Reading
      (got ++ chunk) 0 := ⟨hread, rfl, rfl, rfl, Nat.zero_le _⟩
  have hkept := runIo_kept (tls.negotiate s.engine) { s with data := some (got ++ chunk), datalen := (got ++ chunk).length, dataused := 0 }
  obtain ⟨new, hcalls, hgiven⟩ := runIo_reading (tls.negotiate s.engine) hreading
  refine ⟨{ passMessage tls { s with data := some (got ++ chunk), datalen := (got ++ chunk).length } with rwstate := .none }, ?_,
    ⟨rfl, hkept.alertSent.trans h.alertSent⟩, new, hcalls, hgiven⟩
  simp only [receiveData, Int.toNat_natCast, take_length, hfrag, hwrite, Bool.false_eq_true, if_false]
  rw [if_neg (by omega), if_neg (by omega), if_neg (by omega), if_neg (by omega)]
  simp only [h.datalen, length_append]

/-! ## Packets without their type -/

theorem Session.Collecting.begin (h : s.Collecting got total) (rwstate : RwState) (frag : Bool) :
    ({ s with rwstate, frag } : Session ε).Collecting got total := { h with }

theorem eaptlsReceive_eq {flags : UInt8} {rest inp : Bytes} {len : Int} {s₁ : Session ε}
    (h : receiveHeader { s with rwstate := .read } flags rest rest.length = some (s₁, inp, len)) :
    eaptlsReceive tls s (flags :: rest) (flags :: rest).length = receiveData tls { s₁ with frag := flags &&& 64 ≠ 0 } inp len := by
  have hlen : ((flags :: rest).length : Int) - 1 = rest.length := by
    rw [length_cons]
    omega
  simp only [eaptlsReceive, getChar, headD_cons, tail_cons, hlen, h]
  rfl

/-- The header of a packet without the length of the message. -/
theorem receiveHeader_collecting {flags : UInt8} (h : s.Collecting got total) (hflags : ¬ flags &&& 128 ≠ 0) :
    receiveHeader { s with rwstate := .read } flags chunk chunk.length = some ({ s with rwstate := .read }, chunk, (chunk.length : Int)) := by
  obtain ⟨space, hdata, -⟩ := h.data
  rw [receiveHeader, if_neg hflags, hdata]

/-- A packet in the middle of a message. -/
theorem eaptlsReceive_more (h : s.Collecting got total) (hle : got.length + chunk.length ≤ total) :
    Continues s (got ++ chunk) total (eaptlsReceive tls s (64 :: chunk) (64 :: chunk).length) := by
  rw [eaptlsReceive_eq (receiveHeader_collecting h (by decide))]
  exact receiveData_more (h.begin .read true) rfl hle

/-- The last packet of a message. -/
theorem eaptlsReceive_last (h : s.Collecting got total) (hend : got.length + chunk.length = total) :
    Completes s (got ++ chunk) (eaptlsReceive tls s (0 :: chunk) (0 :: chunk).length) := by
  rw [eaptlsReceive_eq (receiveHeader_collecting h (by decide))]
  exact receiveData_last (h.begin .read false) rfl rfl hend

/-- The first packet of a message that is fragmented. -/
theorem eaptlsReceive_first (hs : s.Ready) (htotal : total ≤ 65536) (hle : chunk.length ≤ total) :
    Continues s chunk total (eaptlsReceive tls s (192 :: (beBytes 4 total ++ chunk)) (192 :: (beBytes 4 total ++ chunk)).length) := by
  have hlong : getLong (beBytes 4 total ++ chunk) = (total, chunk) := by
    have hlen : (beBytes 4 total).length = 4 := length_beBytes 4 total
    rw [getLong, take_append_of_le_length hlen.ge, take_of_length_le hlen.le, ofBe_beBytes (by omega),
      drop_append_of_le_length hlen.ge, drop_of_length_le hlen.le, nil_append]
  have hheader : receiveHeader { s with rwstate := .read } 192 (beBytes 4 total ++ chunk) (beBytes 4 total ++ chunk).length =
      some ({ s with rwstate := .read, data := some (alloc total), datalen := 0, tlslen := total }, chunk, (chunk.length : Int)) := by
    have hlen : ((beBytes 4 total ++ chunk).length : Int) - 4 = chunk.length := by
      rw [length_append, length_beBytes]
      omega
    rw [receiveHeader, if_pos (by decide), hlong, hlen]
    simp only [hs.data, if_neg htotal.not_gt]
  have hcollecting : ({ s with rwstate := .read, data := some (alloc total), datalen := 0, tlslen := total, frag := true } :
      Session ε).Collecting [] total := ⟨⟨alloc total, rfl, by simp [alloc]⟩, rfl, rfl, hs.alertSent⟩
  rw [eaptlsReceive_eq hheader]
  exact receiveData_more hcollecting rfl (by simpa using hle)

/-- A message in one packet. -/
theorem eaptlsReceive_single (hs : s.Ready) (message : Bytes) :
    Completes s message (eaptlsReceive tls s (0 :: message) (0 :: message).length) := by
  have hheader : receiveHeader { s with rwstate := .read } 0 message message.length =
      some ({ s with rwstate := .read, data := some (alloc message.length), datalen := 0, tlslen := message.length }, message,
        (message.length : Int)) := by
    rw [receiveHeader, if_neg (by decide)]
    simp only [hs.data, Int.toNat_natCast]
    rw [if_neg (by omega)]
  have hcollecting : ({ s with data := some (alloc message.length), datalen := 0, tlslen := message.length } :
      Session ε).Collecting [] message.length := ⟨⟨alloc message.length, rfl, by simp [alloc]⟩, rfl, rfl, hs.alertSent⟩
  rw [eaptlsReceive_eq hheader]
  exact receiveData_last (hcollecting.begin .read false) rfl rfl (by simp)

/-! ## The round trip -/

/-- The packets for a flight fit into the buffer for retransmission. -/
def FitsRtx (mtu length : Nat) : Prop := if length ≤ mtu then 2 + length ≤ 65536 else 6 + mtu ≤ 65536

/-- The next `n` packets give a flight to the engine of the other side when the last one arrives, as far as the engine asks for it. -/
def Arrives (tls : Tls ε) (tls' : Tls ε') (flight : Bytes) (n : Nat) (s : Session ε) (r : Session ε') : Prop :=
  ∃ packets s' r₁ r', sendAll tls n s = some (packets, s') ∧ packets ≠ [] ∧ (∀ packet ∈ packets, packet.head? = some 13) ∧
    receiveAll tls' (packets.dropLast.map List.tail) r = some r₁ ∧ r₁.calls = r.calls ∧
    receiveAll tls' (packets.map List.tail) r = some r' ∧
    (∃ new, r'.calls = r.calls ++ new ∧ given new = flight.take (asked new)) ∧ s'.Ready ∧ r'.Ready

section Arrives

variable {tls : Tls ε} {tls' : Tls ε'} {s₁ : Session ε} {r r₁ : Session ε'} {body : Bytes} {n : Nat}

/-- The last packet. -/
theorem Arrives.last (hsend : eaptlsSend tls s = some (13 :: body, s₁)) (hfrag : s₁.frag = false) (hready : s₁.Ready)
    (hreceive : Completes r flight (eaptlsReceive tls' r body body.length)) : Arrives tls tls' flight (n + 1) s r := by
  obtain ⟨r', hreceive, hready', hgiven⟩ := hreceive
  refine ⟨[13 :: body], s₁, r, r', ?_, by simp, by simp, rfl, rfl, ?_, hgiven, hready, hready'⟩
  · simp [sendAll, hsend, hfrag]
  · simp only [map_cons, map_nil, tail_cons, receiveAll, hreceive]

/-- A packet that others follow. -/
theorem Arrives.cons (hsend : eaptlsSend tls s = some (13 :: body, s₁)) (hfrag : s₁.frag = true)
    (hreceive : eaptlsReceive tls' r body body.length = some (0, r₁)) (hcalls₁ : r₁.calls = r.calls)
    (h : Arrives tls tls' flight n s₁ r₁) : Arrives tls tls' flight (n + 1) s r := by
  obtain ⟨packets, s', r₂, r', hall, hne, htype, hr₂, hcalls₂, hr', ⟨new, hcalls, hgiven⟩, hready, hready'⟩ := h
  refine ⟨(13 :: body) :: packets, s', r₂, r', ?_, by simp, by simpa using htype, ?_, hcalls₂.trans hcalls₁, ?_,
    ⟨new, by rw [hcalls, hcalls₁], hgiven⟩, hready, hready'⟩
  · simp [sendAll, hsend, hfrag, hall]
  · rw [dropLast_cons_of_ne_nil hne]
    simp only [map_cons, tail_cons, receiveAll, hreceive]
    exact hr₂
  · simp only [map_cons, tail_cons, receiveAll, hreceive]
    exact hr'

/-- What is left of a flight arrives at a session that has received the rest. -/
theorem remaining_arrives (hs : s.Sending flight offset) (hr : r.Collecting (flight.take offset) flight.length)
    (hlt : offset < flight.length) (hmtu : 0 < s.mtu) (hfits : 6 + s.mtu ≤ 65536) (hn : flight.length - offset ≤ n) :
    Arrives tls tls' flight n s r := by
  induction n generalizing s r offset with
  | zero => omega
  | succ n ih =>
    have hwrite : ({ s with rwstate := .write } : Session ε).Sending flight offset := { hs with }
    have hsend : eaptlsSend tls s = sendPacket { s with rwstate := .write } false := by
      rw [eaptlsSend]
      simp only [hs.data]
    by_cases hlast : flight.length ≤ offset + s.mtu
    · obtain ⟨s', hpacket, hready, hfrag⟩ := sendPacket_last hwrite hlt.le hlast false (by omega)
      have hend : (flight.take offset).length + (flight.drop offset).length = flight.length := by
        rw [← length_append, take_append_drop]
      have hreceive : Completes r _ (eaptlsReceive tls' r _ _) := eaptlsReceive_last hr hend
      rw [take_append_drop] at hreceive
      exact .last (hsend.trans hpacket) hfrag hready hreceive
    · push Not at hlast
      obtain ⟨s₁, hpacket, hsending, hfrag, hmtu₁⟩ := sendPacket_more hwrite hlast false (by simp [sendHeader]; omega)
      have hmtu₁ : s₁.mtu = s.mtu := hmtu₁
      have hchunk : (flight.take offset).length + ((flight.drop offset).take s.mtu).length ≤ flight.length := by
        rw [length_take, length_take, length_drop]
        omega
      obtain ⟨r₁, hreceive, hcollecting, hcalls₁⟩ := eaptlsReceive_more hr hchunk
      rw [← take_add] at hcollecting
      exact .cons (hsend.trans hpacket) hfrag hreceive hcalls₁ (ih hsending hcollecting hlast (by omega) (by omega) (by omega))

end Arrives

/-- An engine that hands over these pieces, or reads with these sizes. -/
def scripted (pieces : List Bytes) (sizes : List Nat) : Tls Unit where
  negotiate _ := pieces.foldr (fun piece io => .send piece fun _ => io) (sizes.foldr (fun sz io => .recv sz fun _ => io) (.done ()))
  finished _ := false

def freshSession (mtu : Nat) : Session Unit := ⟨none, 0, 0, 0, 0, false, false, false, [], mtu, .none, (), []⟩

theorem freshSession_ready (mtu : Nat) : (freshSession mtu).Ready := ⟨rfl, rfl⟩

theorem flightOf_scripted (piece : Bytes) (mtu : Nat) : flightOf (scripted [piece] []) (freshSession mtu) = piece := by
  simp [flightOf, wolfSSLNegotiate, scripted, runIo, wolfsslSendCallback, Session.note, handed, freshSession]

/-- A packet that does not fit the buffer for retransmission. -/
theorem sendPacket_overflow (hs : s.Sending flight 0) (hle : flight.length ≤ s.mtu) (hlong : 65534 < flight.length) (first : Bool) :
    sendPacket s first = none := by
  have hfrag : ¬ (s.mtu : Int) < (flight.length : Int) - (0 : Nat) := by omega
  have hsize : ((flight.length : Int) - (0 : Nat)).toNat = flight.length := by omega
  simp only [sendPacket, hs.data, hs.datalen, hs.offset, hfrag, decide_false, Bool.false_eq_true, if_false, Option.getD_some, hsize,
    sendHeader, Bool.false_and, drop_zero, take_length]
  rw [if_neg (by omega), if_neg (by omega), if_pos]
  rw [length_append]
  simp only [length_cons, length_nil]
  omega

end Osp.Pppd
