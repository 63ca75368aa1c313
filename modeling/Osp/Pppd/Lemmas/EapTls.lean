import Osp.Pppd.EapTls

/-!
# Calls of the TLS engine

What the callbacks do to a session while the engine is to write and while it is to read, and when the calls of `eap-tls.c` are defined.
-/

namespace Osp.Pppd

open Osp.Lib Session List

variable {ε : Type} {s : Session ε}

/-- What the callbacks leave as it is. -/
structure Session.Kept (s s' : Session ε) : Prop where
  offset : s'.offset = s.offset
  tlslen : s'.tlslen = s.tlslen
  frag : s'.frag = s.frag
  alertSent : s'.alertSent = s.alertSent
  alertRecv : s'.alertRecv = s.alertRecv
  mtu : s'.mtu = s.mtu
  rtx : s'.rtx = s.rtx

theorem Session.Kept.trans {s₁ s₂ s₃ : Session ε} (h : s₁.Kept s₂) (h' : s₂.Kept s₃) : s₁.Kept s₃ :=
  ⟨h'.offset.trans h.offset, h'.tlslen.trans h.tlslen, h'.frag.trans h.frag, h'.alertSent.trans h.alertSent,
    h'.alertRecv.trans h.alertRecv, h'.mtu.trans h.mtu, h'.rtx.trans h.rtx⟩

theorem recvCallback_kept (sz : Nat) : s.Kept (wolfsslRecvCallback s sz).2 := by
  unfold wolfsslRecvCallback
  split <;> exact ⟨rfl, rfl, rfl, rfl, rfl, rfl, rfl⟩

theorem sendCallback_kept (buf : Bytes) : s.Kept (wolfsslSendCallback s buf).2 := by
  unfold wolfsslSendCallback
  split
  · cases s.data <;> exact ⟨rfl, rfl, rfl, rfl, rfl, rfl, rfl⟩
  · exact ⟨rfl, rfl, rfl, rfl, rfl, rfl, rfl⟩

theorem note_kept (call : IoCall) : s.Kept (s.note call) := ⟨rfl, rfl, rfl, rfl, rfl, rfl, rfl⟩

theorem runIo_kept (io : Io ε) (s : Session ε) : s.Kept (runIo io s) := by
  induction io generalizing s with
  | done engine => exact ⟨rfl, rfl, rfl, rfl, rfl, rfl, rfl⟩
  | recv sz next ih => exact (recvCallback_kept sz).trans ((note_kept _).trans (ih _ _))
  | send buf next ih => exact (sendCallback_kept buf).trans ((note_kept _).trans (ih _ _))

/-! ## Writing -/

/-- The buffer of a session to which the engine has written so much. -/
structure Session.Holding (s : Session ε) (bytes : Bytes) (idle : Nat) : Prop where
  write : s.rwstate = .write
  data : s.data = none ∧ bytes = [] ∧ s.datalen = idle ∨ s.data = some bytes ∧ s.datalen = bytes.length ∧ s.dataused = bytes.length

/-- The session with these bytes in its buffer. -/
def Session.hold (s : Session ε) (bytes : Bytes) : Session ε :=
  { s with data := some bytes, datalen := bytes.length, dataused := bytes.length }

variable {bytes message : Bytes} {idle used : Nat}

theorem Session.Holding.send (h : s.Holding bytes idle) (buf : Bytes) :
    wolfsslSendCallback s buf = (true, s.hold (bytes ++ buf)) := by
  rw [wolfsslSendCallback, if_pos h.write]
  obtain ⟨hdata, rfl, -⟩ | ⟨hdata, hlen, hused⟩ := h.data
  · have hwrite : writeAt (alloc buf.length) 0 buf = buf := by
      rw [writeAt_zero _ _ (by simp [alloc])]
      simp [alloc]
    simp [hdata, hwrite, hold]
  · have hwrite : writeAt (realloc bytes (bytes.length + buf.length)) bytes.length buf = bytes ++ buf := by
      rw [realloc, writeAt_eq _ _ _ (by simp [alloc])]
      simp [alloc]
    simp [hdata, hused, hlen, hwrite, hold]

/-- Reading is refused while the engine is to write. -/
theorem Session.Holding.recv (h : s.Holding bytes idle) (sz : Nat) :
    wolfsslRecvCallback s sz = (none, s) := by
  unfold wolfsslRecvCallback
  split
  · rename_i hread _
    rw [h.write] at hread
    cases hread
  · rfl

theorem runIo_holding (io : Io ε) (h : s.Holding bytes idle) :
    ∃ new, (runIo io s).calls = s.calls ++ new ∧ (runIo io s).Holding (bytes ++ handed new) idle := by
  induction io generalizing s bytes with
  | done engine => exact ⟨[], by simp [runIo], ⟨h.write, by simpa [handed, runIo] using h.data⟩⟩
  | recv sz next ih =>
    simp only [runIo, h.recv sz]
    obtain ⟨new, hcalls, hholding⟩ := ih none (s := s.note (.recv sz none)) ⟨h.write, h.data⟩
    refine ⟨.recv sz none :: new, ?_, hholding⟩
    rw [hcalls]
    simp [note]
  | send buf next ih =>
    simp only [runIo, h.send buf]
    obtain ⟨new, hcalls, hholding⟩ := ih true (s := (s.hold (bytes ++ buf)).note (.send buf true)) ⟨h.write, .inr ⟨rfl, rfl, rfl⟩⟩
    refine ⟨.send buf true :: new, ?_, ?_⟩
    · rw [hcalls]
      simp [note, hold]
    · simpa [handed] using hholding

/-! ## Reading -/

/-- A session whose engine reads a message and has read so much of it. -/
structure Session.Reading (s : Session ε) (message : Bytes) (used : Nat) : Prop where
  read : s.rwstate = .read
  data : s.data = some message
  datalen : s.datalen = message.length
  dataused : s.dataused = used
  le : used ≤ message.length

theorem Session.Reading.recv (h : s.Reading message used) (sz : Nat) :
    wolfsslRecvCallback s sz = (some ((message.drop used).take sz), { s with dataused := min message.length (used + sz) }) := by
  have hle := h.le
  have htake : (message.drop used).take (if sz ≤ message.length - used then sz else message.length - used) =
      (message.drop used).take sz := by
    split
    · rfl
    · rw [take_of_length_le (by simp), take_of_length_le (by rw [length_drop]; omega)]
  have hused : used + (if sz ≤ message.length - used then sz else message.length - used) = min message.length (used + sz) := by
    split <;> omega
  simp only [wolfsslRecvCallback, h.read, h.data, h.datalen, h.dataused, htake, hused]

/-- Writing is refused while the engine is to read. -/
theorem Session.Reading.send (h : s.Reading message used) (buf : Bytes) :
    wolfsslSendCallback s buf = (false, s) := by
  rw [wolfsslSendCallback, if_neg (by simp [h.read])]

theorem runIo_reading (io : Io ε) (h : s.Reading message used) :
    ∃ new, (runIo io s).calls = s.calls ++ new ∧ given new = (message.drop used).take (asked new) := by
  induction io generalizing s used with
  | done engine => exact ⟨[], by simp [runIo], by simp [given, asked]⟩
  | recv sz next ih =>
    simp only [runIo, h.recv sz]
    have hreading : (({ s with dataused := min message.length (used + sz) } : Session ε).note
        (.recv sz (some ((message.drop used).take sz)))).Reading message (min message.length (used + sz)) :=
      ⟨h.read, h.data, h.datalen, rfl, Nat.min_le_left _ _⟩
    obtain ⟨new, hcalls, hgiven⟩ := ih _ hreading
    refine ⟨.recv sz (some ((message.drop used).take sz)) :: new, ?_, ?_⟩
    · rw [hcalls]
      simp [note]
    · have hdrop : message.drop (min message.length (used + sz)) = (message.drop used).drop sz := by
        rw [drop_drop]
        rcases le_total message.length (used + sz) with hle | hle
        · rw [min_eq_left hle, drop_length, drop_eq_nil_of_le hle]
        · rw [min_eq_right hle]
      rw [given, asked, hgiven, hdrop, Option.getD_some, take_add]
  | send buf next ih =>
    simp only [runIo, h.send buf]
    obtain ⟨new, hcalls, hgiven⟩ := ih false (s := s.note (.send buf false)) { h with }
    refine ⟨.send buf false :: new, ?_, hgiven⟩
    rw [hcalls]
    simp [note]

/-! ## Sessions for which the calls are defined -/

/-- The alert flags are never set, and the packets fit the buffers. -/
structure Session.Sound (s : Session ε) : Prop where
  alertSent : s.alertSent = false
  alertRecv : s.alertRecv = false
  mtu : s.mtu ≤ 1490

/-- A session that has no message, or a part of one that is received. -/
structure Session.Receivable (s : Session ε) : Prop extends s.Sound where
  data : s.data = none ∧ s.datalen = 0 ∨ ∃ data, s.data = some data ∧ data.length = s.tlslen ∧ s.datalen ≤ data.length

/-- A session that has no message, or a part of one that is sent. -/
structure Session.Sendable (s : Session ε) : Prop extends s.Sound where
  data : s.data = none ∧ s.datalen = 0 ∨ ∃ data, s.data = some data ∧ s.datalen ≤ data.length ∧ s.offset ≤ s.datalen

/-- A session without a message. -/
structure Session.Idle (s : Session ε) : Prop extends s.Sound where
  data : s.data = none
  datalen : s.datalen = 0

theorem Session.Idle.receivable (h : s.Idle) : s.Receivable := ⟨h.toSound, .inl ⟨h.data, h.datalen⟩⟩

theorem Session.Idle.sendable (h : s.Idle) : s.Sendable := ⟨h.toSound, .inl ⟨h.data, h.datalen⟩⟩

/-- A packet that is as long as its header. -/
def LongEnough (inp : Bytes) (len : Nat) : Prop := 1 ≤ len ∧ (inp.headD 0 &&& 128 ≠ 0 → 5 ≤ len)

instance (inp : Bytes) (len : Nat) : Decidable (LongEnough inp len) := inferInstanceAs (Decidable (_ ∧ _))

/-- A session with a buffer for the message that is received. -/
structure Session.Buffered (s : Session ε) : Prop extends s.Sound where
  data : ∃ data, s.data = some data ∧ data.length = s.tlslen ∧ s.datalen ≤ data.length

theorem receiveHeader_defined (inp : Bytes) (len : Nat) (h : s.Receivable) (flags : UInt8) (hlen : flags &&& 128 ≠ 0 → 4 ≤ len) :
    ∃ s' inp' len', receiveHeader s flags inp len = some (s', inp', len') ∧ 0 ≤ len' ∧ s'.Buffered ∧ s'.offset = s.offset ∧
      s'.rtx = s.rtx := by
  unfold receiveHeader
  split
  · rename_i hflags
    have hle := hlen hflags
    obtain ⟨hdata, -⟩ | ⟨data, hdata, hlength, hdatalen⟩ := h.data
    · simp only [getLong, hdata]
      exact ⟨_, _, _, rfl, by omega, ⟨{ h with }, _, rfl, by simp [alloc], Nat.zero_le _⟩, rfl, rfl⟩
    · simp only [getLong, hdata]
      exact ⟨_, _, _, rfl, by omega, ⟨h.toSound, data, hdata, hlength, hdatalen⟩, rfl, rfl⟩
  · obtain ⟨hdata, -⟩ | ⟨data, hdata, hlength, hdatalen⟩ := h.data
    · simp only [hdata, if_neg (show ¬(len : Int) < 0 by omega)]
      exact ⟨_, _, _, rfl, by omega, ⟨{ h with }, _, rfl, by simp [alloc], Nat.zero_le _⟩, rfl, rfl⟩
    · simp only [hdata]
      exact ⟨_, _, _, rfl, by omega, ⟨h.toSound, data, hdata, hlength, hdatalen⟩, rfl, rfl⟩

theorem passMessage_idle (tls : Tls ε) (h : s.Sound) : (passMessage tls s).Idle := by
  have hkept := runIo_kept (tls.negotiate s.engine) { s with dataused := 0 }
  exact ⟨⟨hkept.alertSent.trans h.alertSent, hkept.alertRecv.trans h.alertRecv, hkept.mtu.trans_le h.mtu⟩, rfl, rfl⟩

/-- What `eaptls_receive` leaves, by its result. -/
structure Received (before : Session ε) (status : Nat) (s : Session ε) : Prop extends s.Receivable where
  offset : s.offset = before.offset
  rtx : s.rtx = before.rtx
  whole : status = 0 → s.frag = false → s.Idle

theorem receiveData_defined (tls : Tls ε) (inp : Bytes) {len : Int} (h : s.Buffered) (hlen : 0 ≤ len) :
    ∃ status s', receiveData tls s inp len = some (status, s') ∧ Received s status s' := by
  obtain ⟨data, hdata, hlength, hdatalen⟩ := h.data
  unfold receiveData
  split
  · exact ⟨_, _, rfl, ⟨{ h with }, .inr h.data⟩, rfl, rfl, by simp⟩
  · rw [if_neg (by omega)]
    simp only [hdata, Option.getD_some, if_neg (show ¬data.length < s.datalen + len.toNat by omega)]
    let filled : Session ε :=
      { s with data := some (writeAt data s.datalen (inp.take len.toNat)), datalen := s.datalen + len.toNat }
    have hwritten : (writeAt data s.datalen (inp.take len.toNat)).length = data.length := length_writeAt _ _ _
    have hbuffer : filled.data = none ∧ filled.datalen = 0 ∨
        ∃ data, filled.data = some data ∧ data.length = filled.tlslen ∧ filled.datalen ≤ data.length :=
      .inr ⟨_, rfl, hwritten.trans hlength, by simp only [filled, hwritten]; omega⟩
    split
    · rename_i hfrag
      refine ⟨_, _, rfl, ⟨{ h with }, hbuffer⟩, rfl, rfl, fun _ hf => ?_⟩
      simp [hfrag] at hf
    · split
      · exact ⟨_, _, rfl, ⟨{ h with }, hbuffer⟩, rfl, rfl, by simp⟩
      · have hidle : (passMessage tls filled).Idle := passMessage_idle tls { h with }
        have hkept := runIo_kept (tls.negotiate filled.engine) { filled with dataused := 0 }
        have hresult : ({ passMessage tls filled with rwstate := .none } : Session ε).Idle :=
          { hidle with }
        exact ⟨_, _, rfl, hresult.receivable, hkept.offset, hkept.rtx, fun _ _ => hresult⟩

theorem eaptlsReceive_defined (tls : Tls ε) {inp : Bytes} {len : Nat} (h : s.Receivable) (hlen : LongEnough inp len) :
    ∃ status s', eaptlsReceive tls s inp len = some (status, s') ∧ Received s status s' := by
  have hreading : ({ s with rwstate := .read } : Session ε).Receivable := ⟨{ h with }, h.data⟩
  obtain ⟨s', inp', len', heq, hle, hbuf, hoffset, hrtx⟩ := receiveHeader_defined inp.tail (len - 1) hreading (inp.headD 0)
    (fun hflags => Nat.le_sub_one_of_lt (hlen.2 hflags))
  have hcast : ((len - 1 : Nat) : Int) = (len : Int) - 1 := by have := hlen.1; omega
  rw [hcast] at heq
  have hbuffered : ({ s' with frag := inp.headD 0 &&& 64 ≠ 0 } : Session ε).Buffered :=
    { hbuf with }
  obtain ⟨status, s'', heq', hreceived⟩ := receiveData_defined tls inp' hbuffered hle
  refine ⟨status, s'', ?_, hreceived.toReceivable, hreceived.offset.trans hoffset, hreceived.rtx.trans hrtx, hreceived.whole⟩
  simp only [eaptlsReceive, getChar, heq, Option.bind_eq_bind, Option.bind_some]
  exact heq'

/-- What `eaptls_send` leaves, and the packet. -/
structure Sent (packet : Bytes) (s : Session ε) : Prop extends s.Sound where
  tls : packet.head? = some 13
  length : packet.length ≤ 1496
  rtx : s.rtx = packet
  more : s.frag = true → s.Sendable
  whole : s.frag = false → s.Idle ∧ s.offset = 0

theorem sendPacket_defined {first : Bool} (h : s.Sound) (hdata : s.datalen ≤ (s.data.getD []).length) (hoffset : s.offset ≤ s.datalen)
    (hsome : s.data = none → s.datalen = 0) : ∃ packet s', sendPacket s first = some (packet, s') ∧ Sent packet s' := by
  have hmtu := h.mtu
  have hheader : ∀ frag datalen, (sendHeader frag first datalen).length ≤ 6 ∧ (sendHeader frag first datalen).head? = some 13 := by
    intro frag datalen
    unfold sendHeader
    split
    · simp
    · split <;> simp
  by_cases hfrag : (s.mtu : Int) < (s.datalen : Int) - s.offset
  · -- there is more to send than one packet takes
    have hpacket : (sendHeader true first s.datalen ++ ((s.data.getD []).drop s.offset).take s.mtu).length ≤ 1496 := by
      have := (hheader true s.datalen).1
      rw [length_append, length_take]
      omega
    simp only [sendPacket, hfrag, decide_true, if_true, Int.toNat_natCast]
    rw [if_neg (by omega), if_neg (by omega), if_neg (by omega), if_neg (by omega)]
    refine ⟨_, _, rfl, { h with }, ?_, hpacket, rfl, fun _ => ?_, fun hf => by cases hf⟩
    · rw [List.head?_append, (hheader true s.datalen).2]
      rfl
    · refine ⟨{ h with }, ?_⟩
      cases hd : s.data with
      | none =>
        have := hsome hd
        omega
      | some data =>
        rw [hd] at hdata
        exact .inr ⟨data, rfl, hdata, by show s.offset + s.mtu ≤ s.datalen; omega⟩
  · have hsize : ((s.datalen : Int) - s.offset).toNat = s.datalen - s.offset := by omega
    have hpacket : (sendHeader false first s.datalen ++ ((s.data.getD []).drop s.offset).take (s.datalen - s.offset)).length ≤ 1496 := by
      have := (hheader false s.datalen).1
      rw [length_append, length_take]
      omega
    simp only [sendPacket, hfrag, decide_false, Bool.false_eq_true, if_false, hsize]
    rw [if_neg (by omega), if_neg (by omega), if_neg (by omega), if_pos (by omega)]
    refine ⟨_, _, rfl, { h with }, ?_, hpacket, rfl, fun hf => (by cases hf), fun _ => ?_⟩
    · rfl
    · exact ⟨⟨{ h with }, rfl, rfl⟩, rfl⟩

theorem eaptlsSend_defined (tls : Tls ε) (h : s.Sendable) : ∃ packet s', eaptlsSend tls s = some (packet, s') ∧ Sent packet s' := by
  obtain ⟨hdata, hdatalen⟩ | ⟨data, hdata, hdatalen, hoffset⟩ := h.data
  · -- the engine fills the buffer
    have hwriting : ({ s with rwstate := .write } : Session ε).Holding [] 0 := ⟨rfl, .inl ⟨hdata, rfl, hdatalen⟩⟩
    obtain ⟨new, -, hholding⟩ := runIo_holding (tls.negotiate s.engine) hwriting
    have hkept := runIo_kept (tls.negotiate s.engine) { s with rwstate := .write }
    have hsend : eaptlsSend tls s = sendPacket (sendFill tls { s with rwstate := .write }) true := by
      simp only [eaptlsSend, hdata]
    have hfill : sendFill tls { s with rwstate := .write } =
        { runIo (tls.negotiate s.engine) { s with rwstate := .write } with offset := 0 } := by
      simp [sendFill, h.alertSent, wolfSSLNegotiate]
    rw [hsend, hfill]
    refine sendPacket_defined ⟨hkept.alertSent.trans h.alertSent, hkept.alertRecv.trans h.alertRecv, hkept.mtu.trans_le h.mtu⟩ ?_
      (Nat.zero_le _) ?_
    · obtain ⟨-, -, hzero⟩ | ⟨hsome, hlen, -⟩ := hholding.data
      · simp only [hzero]
        exact Nat.zero_le _
      · simp only [hsome, hlen, Option.getD_some]
        exact Nat.le_refl _
    · intro hnone
      obtain ⟨-, -, hzero⟩ | ⟨hsome, -⟩ := hholding.data
      · exact hzero
      · exact absurd (hsome.symm.trans hnone) (by simp)
  · have hsend : eaptlsSend tls s = sendPacket { s with rwstate := .write } false := by
      simp only [eaptlsSend, hdata]
    rw [hsend]
    refine sendPacket_defined { h with } (by simpa [hdata] using hdatalen) hoffset ?_
    intro hnone
    exact absurd (hdata.symm.trans hnone) (by simp)

end Osp.Pppd
