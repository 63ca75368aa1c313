import Osp.Websocketpp.Connection
import Osp.Websocketpp.Theorems.RoundTrip

/-!
# What the peer reads from a close frame

`connection::close` cuts the reason to the bytes that fit into a close frame. The peer validates what is left of it, so it takes the frame
if and only if the cut does not split a character.
-/

namespace Osp.Websocketpp

open Lib Connection HybiProcessor List

variable {code : UInt16} {reason : Bytes}

/-- The peer reads the code, and without an error a reason that is a prefix of the one that was given. -/
def TakesClose (code : UInt16) (reason payload : Bytes) : Prop :=
  extractCode payload = (code, none) ∧ (extractReason payload).2 = none ∧ (extractReason payload).1 <+: reason

theorem takesClose_nil : TakesClose code reason [] ↔ code = closeNoStatus := by
  constructor
  · rintro ⟨hcode, -⟩
    exact (congrArg Prod.fst hcode).symm
  · rintro rfl
    exact ⟨rfl, by decide, nil_prefix⟩

/-- The two bytes of a code that may stand on the wire are read as that code. -/
theorem extractCode_closePayload (hreserved : closeReserved code = false) (hinvalid : closeInvalid code = false) (text : Bytes) :
    extractCode (beBytes 2 code.toNat ++ text) = (code, none) := by
  obtain ⟨high, low, hbytes⟩ : ∃ high low, beBytes 2 code.toNat = [high, low] := length_eq_two.1 (length_beBytes 2 _)
  have hvalue : 256 * high.toNat + low.toNat = code.toNat := by
    have hread := ofBe_beBytes (k := 2) (n := code.toNat) code.toNat_lt
    rw [hbytes] at hread
    simp only [ofBe, ofLe, reverse_cons, reverse_nil, nil_append, cons_append] at hread
    omega
  rw [hbytes]
  simp only [cons_append, extractCode, hvalue, UInt16.ofNat_toNat, hreserved, hinvalid]
  rfl

theorem takesClose_closePayload (hcode : code ≠ closeNoStatus) (hreserved : closeReserved code = false)
    (hinvalid : closeInvalid code = false) (n : Nat) :
    TakesClose code reason (closePayload code (reason.take n)) ↔ WellFormedUtf8 (reason.take n) := by
  have hreason : extractReason (beBytes 2 code.toNat ++ reason.take n) =
      (reason.take n, if validate (reason.take n) then none else some .invalidUtf8) := by
    have hlength : (beBytes 2 code.toNat).length = 2 := length_beBytes 2 _
    have htext : (if 2 < (beBytes 2 code.toNat ++ reason.take n).length then (beBytes 2 code.toNat ++ reason.take n).drop 2 else []) =
        reason.take n := by
      rw [drop_left' hlength, length_append, hlength]
      split
      · rfl
      · exact (length_eq_zero_iff.1 (by omega)).symm
    rw [extractReason, htext]
  rw [TakesClose, closePayload, if_pos hcode, extractCode_closePayload hreserved hinvalid, hreason, ← validate_iff]
  constructor
  · rintro ⟨-, hvalid, -⟩
    by_contra hno
    rw [if_neg hno] at hvalid
    cases hvalid
  · intro hvalid
    exact ⟨rfl, if_pos hvalid, take_prefix _ _⟩

/-- A close frame that was prepared has an accepted code, and a reason only if it has a code. -/
theorem prepareClose_eq_ok {ep : Endpoint} {key : MaskingKey} {msg : Prepared} (h : prepareClose ep code reason key = .ok msg) :
    closeReserved code = false ∧ (closeInvalid code = true → code = closeNoStatus) ∧ (code = closeNoStatus → reason = []) := by
  unfold prepareClose at h
  split at h
  · cases h
  · rename_i hreserved
    split at h
    · cases h
    · rename_i hinvalid
      split at h
      · cases h
      · rename_i hreason
        refine ⟨by simpa using hreserved, fun hbad => ?_, fun hcode => ?_⟩
        · by_contra hne
          exact hinvalid (by simp [hbad, hne])
        · by_contra hne
          exact hreason ⟨hcode, length_pos_iff.2 hne⟩

section

variable {ep : Endpoint} {rng : Nat → MaskingKey} {cfg : Config HybiProcessor} {c : Connection HybiProcessor}
  {yield : Point → Connection HybiProcessor → Connection HybiProcessor}

/-- What `close` does when it returns no error. -/
theorem close_eq_none (hcfg : cfg.processor = processors ep rng) (h : (c.close cfg yield code reason).1 = none) :
    ∃ (c₁ : Connection HybiProcessor) (key : MaskingKey) (msg : Prepared),
      prepareClose ep (c.localClose cfg code (reason.take closeReasonSize) false).1
        (c.localClose cfg code (reason.take closeReasonSize) false).2 key = .ok msg ∧
      c.close cfg yield code reason = (none, c₁.pushMessage yield ⟨.close, msg.header, msg.payload, closeTerminal code⟩) := by
  unfold close at h ⊢
  split at h
  · cases h
  · rename_i hopen
    rw [if_neg hopen]
    unfold sendCloseFrame prepared at h ⊢
    cases hp : c.processor with
    | none => simp [hp] at h
    | some p =>
      simp only [hp, hcfg, processors, prepare] at h ⊢
      cases hmsg : prepareClose ep (c.localClose cfg code (reason.take closeReasonSize) false).1
          (c.localClose cfg code (reason.take closeReasonSize) false).2 (rng p.drawn) with
      | error ec => simp [hmsg] at h
      | ok msg => exact ⟨_, _, msg, hmsg, rfl⟩

end

/-- For a code that `prepare_close` accepts, whenever `close` emits a frame, the peer reads one close message from it, and it takes code
and reason if and only if the first 123 bytes of the reason are well-formed, or, where the endpoint closes silently, the code says that
there is no status. -/
theorem close_taken_iff (code : UInt16) (reason : Bytes) (ep peer : Endpoint) (rng : Nat → MaskingKey)
    (cfg : Config HybiProcessor) (yield : Point → Connection HybiProcessor → Connection HybiProcessor) (c : Connection HybiProcessor)
    (hcfg : cfg.processor = processors ep rng) (hrole : peer.server = !ep.server)
    (hcode : ∃ key msg, prepareClose ep code [] key = .ok msg) (hemits : (c.close cfg yield code reason).1 = none) :
    ∃ (c₁ : Connection HybiProcessor) (msg : Prepared) (payload : Bytes),
      c.close cfg yield code reason = (none, c₁.pushMessage yield ⟨.close, msg.header, msg.payload, closeTerminal code⟩) ∧
      (∀ bufs : List Bytes, bufs.flatten = msg.wire →
        (feedAll (Processor.handleReadFrame peer) Processor.init bufs).out = [⟨.close, payload⟩]) ∧
      (TakesClose code reason payload ↔
        if cfg.silentClose then code = closeNoStatus else WellFormedUtf8 (reason.take closeReasonSize)) := by
  obtain ⟨_, _, haccepted⟩ := hcode
  obtain ⟨hreserved, hinvalid, -⟩ := prepareClose_eq_ok haccepted
  have hblank : code ≠ closeBlank := by
    rintro rfl
    exact absurd (hinvalid (by decide)) (by decide)
  obtain ⟨c₁, key, msg, hmsg, hclose⟩ := close_eq_none hcfg hemits
  refine ⟨c₁, msg, closePayload (c.localClose cfg code (reason.take closeReasonSize) false).1
    (c.localClose cfg code (reason.take closeReasonSize) false).2, hclose, fun bufs hbufs => ?_, ?_⟩
  · have hbytes : prepareAll ep [.close (c.localClose cfg code (reason.take closeReasonSize) false).1
        (c.localClose cfg code (reason.take closeReasonSize) false).2 key] = .ok msg.wire := by
      simp only [prepareAll, PrepareCall.prepare, hmsg, append_nil]
    obtain ⟨pr, hread⟩ := feedAll_sends hrole (.close _ _ key .nil) hbytes hbufs
    rw [hread]
  · by_cases hsilent : cfg.silentClose = true
    · rw [localClose, if_pos hsilent, if_pos hsilent]
      exact takesClose_nil
    · rw [if_neg hsilent]
      rw [localClose, if_neg hsilent, if_pos hblank] at hmsg ⊢
      obtain ⟨-, -, hnone⟩ := prepareClose_eq_ok hmsg
      by_cases hstatus : code = closeNoStatus
      · have hreason : reason.take closeReasonSize = [] := hnone hstatus
        rw [hreason, closePayload, if_neg (not_not.2 hstatus), takesClose_nil]
        exact iff_of_true hstatus ⟨[], rfl⟩
      · exact takesClose_closePayload hstatus hreserved (by simpa using mt hinvalid hstatus) _

/-- An open server connection. -/
def openServer : Connection HybiProcessor :=
  { (new : Connection HybiProcessor) with state := .open, processor := some ⟨13, .init, 0⟩ }

def defaultServer : Config HybiProcessor where
  server := true
  dropOnProtocolError := false
  silentClose := false
  clientVersion := 13
  processor := processors (.default true) fun _ => ⟨0, 0, 0, 0⟩
  httpHandler := false
  validateHandler _ := true
  pingHandler _ _ := true

theorem close_taken_iff_normal : ∃ payload, TakesClose 1000 [98, 121, 101] payload := by
  obtain ⟨-, -, payload, -, -, htaken⟩ := close_taken_iff 1000 [98, 121, 101] (.default true) (.default false)
    (fun _ => ⟨0, 0, 0, 0⟩) defaultServer (fun _ c => c) openServer rfl rfl ⟨⟨0, 0, 0, 0⟩, _, rfl⟩ rfl
  exact ⟨payload, htaken.2 ((validate_iff _).1 (by decide))⟩

set_option maxRecDepth 8192 in
/-- A reason of 122 letters and a character of two bytes, of which the frame holds the first. -/
theorem close_splits_character :
    WellFormedUtf8 (List.replicate 122 97 ++ [0xC3, 0xA9]) ∧
    (openServer.close defaultServer (fun _ c => c) 1000 (List.replicate 122 97 ++ [0xC3, 0xA9])).1 = none ∧
    (openServer.close defaultServer (fun _ c => c) 1000 (List.replicate 122 97 ++ [0xC3, 0xA9])).2.queue.pushed.map
      (fun msg => extractReason msg.payload) = [(List.replicate 122 97 ++ [0xC3], some .invalidUtf8)] := by
  refine ⟨(validate_iff _).1 ?_, ?_, ?_⟩ <;> decide

end Osp.Websocketpp
