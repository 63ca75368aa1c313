import Osp.Websocketpp.Lemmas.Connection
import Osp.Websocketpp.Connection

/-!
# The closing handshake

A connection pushes one close frame at most, and nothing after it. Two things break this: a connection that does not drop a peer for
protocol errors answers every close frame with an invalid payload, also when it has sent a close frame before; and `send` pushes a
message that the user has prepared as a close frame like any other.
-/

namespace Osp.Websocketpp

open Osp.Lib Connection List

variable {P : Type} {cfg : Config P} {F : Prop} {c c' : Connection P}

/-- The close frames of a record: one at most, pushed last, by a connection that is closing or closed. -/
structure Connection.Record.ClosesOnce (r : Record) : Prop where
  last : ∀ msg ∈ r.pushed.dropLast, msg.opcode ≠ .close
  closing : ∀ msg ∈ r.pushed, msg.opcode = .close → r.state = .closing ∨ r.state = .closed
  quiet : r.state = .connecting → r.pushed = []

namespace Connection.Record.ClosesOnce

variable {r : Record} {msg : Outgoing}

/-- Before the connection closes no close frame has been pushed. -/
theorem no_close (h : r.ClosesOnce) (hstate : r.state = .connecting ∨ r.state = .open)
    (hmem : msg ∈ r.pushed) : msg.opcode ≠ .close := by
  intro hop
  rcases hstate with hstate | hstate <;> rcases h.closing msg hmem hop with h' | h' <;> simp [hstate] at h'

theorem nil_of_close (h : r.ClosesOnce) {before after : List Outgoing}
    (hpushed : r.pushed = before ++ msg :: after) (hop : msg.opcode = .close) : after = [] := by
  cases hafter : after with
  | nil => rfl
  | cons next rest =>
    refine absurd hop (h.last msg ?_)
    rw [hpushed, hafter, dropLast_append_of_ne_nil (by simp), dropLast_cons_of_ne_nil (by simp)]
    simp

theorem countP_le (h : r.ClosesOnce) : r.pushed.countP (·.opcode = .close) ≤ 1 := by
  have hinit : r.pushed.dropLast.countP (·.opcode = .close) = 0 :=
    countP_eq_zero.2 fun msg hmem => by simpa using h.last msg hmem
  rcases eq_nil_or_concat r.pushed with hnil | ⟨init, msg, hconcat⟩
  · rw [hnil]
    exact Nat.zero_le 1
  · rw [hconcat, concat_eq_append] at hinit ⊢
    rw [dropLast_concat] at hinit
    rw [countP_append, hinit, Nat.zero_add]
    exact countP_le_length

end Connection.Record.ClosesOnce

/-- A frame pushed by a connection that has not pushed a close frame. -/
theorem Connection.Record.ClosesOnce.push {r r' : Record} (h : r.ClosesOnce) (hopen : r.state = .open)
    (hpushed : r'.pushed = r.pushed ++ [msg]) (hclosing : msg.opcode = .close → r'.state = .closing)
    (hstate : r'.state ≠ .connecting) : r'.ClosesOnce where
  last := by
    rw [hpushed, dropLast_concat]
    exact fun _ hmem => h.no_close (.inr hopen) hmem
  closing sent hmem hop := by
    rw [hpushed] at hmem
    rcases mem_append.1 hmem with hmem | hmem
    · exact absurd hop (h.no_close (.inr hopen) hmem)
    · rw [mem_singleton.1 hmem] at hop
      exact .inl (hclosing hop)
  quiet hconnecting := absurd hconnecting hstate

namespace Connection.Steps

variable {G : Prop}

theorem controls_suffix (h : Steps cfg F G c c') (hearly : ¬ c.Early) : c.controls <:+ c'.controls := by
  induction h with
  | early he => exact absurd he hearly
  | same hsame => rw [hsame.controls]
  | trans hfirst _ ih₁ ih₂ => exact (ih₁ hearly).trans (ih₂ (hfirst.not_early hearly))
  | control msg => exact suffix_cons ..
  | reopened _ _ _ ih => exact ih fun he => nomatch he.1
  | shut | opened | pushed | closing | dropped | ended => exact suffix_rfl

theorem reanswers (h : Steps cfg F G c c') (hearly : ¬ c.Early) (hc : c.Reanswers cfg) : c'.Reanswers cfg := by
  obtain ⟨hdrop, msg, hmem, hop, hinvalid⟩ := hc
  exact ⟨hdrop, msg, (h.controls_suffix hearly).subset hmem, hop, hinvalid⟩

/-- Nothing is pushed on a connection that is closed. -/
theorem of_closed (h : Steps cfg F G c c') (hc : c.state = .closed) :
    c'.state = .closed ∧ c'.queue.pushed = c.queue.pushed := by
  induction h with
  | early he => exact nomatch hc.symm.trans he.1
  | same hsame => exact ⟨hsame.state.trans hc, congrArg Record.pushed hsame.record⟩
  | trans _ _ ih₁ ih₂ =>
    obtain ⟨hstate, hpushed⟩ := ih₁ hc
    obtain ⟨hstate', hpushed'⟩ := ih₂ hstate
    exact ⟨hstate', hpushed'.trans hpushed⟩
  | shut _ hopen => exact absurd hc hopen
  | opened hstate | reopened _ hstate | pushed hstate => exact nomatch hc.symm.trans hstate
  | closing hstate =>
    rcases hstate with hstate | ⟨hstate, -⟩ <;> exact nomatch hc.symm.trans hstate
  | control | dropped | ended => exact ⟨hc, rfl⟩

/-- What a step keeps, when no close frame is answered again and the user has not prepared one. -/
theorem closesOnce (hsteps : Steps cfg F False c c') (hearly : ¬ c.Early) (hanswers : ¬ c'.Reanswers cfg)
    (h : c.record.ClosesOnce) : c'.record.ClosesOnce := by
  induction hsteps with
  | early he => exact absurd he hearly
  | same hsame => exact hsame.record ▸ h
  | trans hfirst hsecond ih₁ ih₂ =>
    have hearly' := hfirst.not_early hearly
    exact ih₂ hearly' hanswers (ih₁ hearly (fun hc => hanswers (hsecond.reanswers hearly' hc)) h)
  | shut => exact ⟨h.last, fun _ _ _ => .inr rfl, by rintro ⟨⟩⟩
  | opened hstate => exact ⟨h.last, fun msg hmem hop => absurd hop (h.no_close (.inl hstate) hmem), by rintro ⟨⟩⟩
  | @reopened c c' tstat _ hstate hshut =>
    -- nothing was pushed before, and nothing while the connection was closed
    have hnil : c'.queue.pushed = [] := (hshut.of_closed rfl).2.trans (h.quiet hstate)
    refine ⟨fun msg hmem => ?_, fun msg hmem => ?_, by rintro ⟨⟩⟩
    · simp only [record, setState, hnil, dropLast_nil, not_mem_nil] at hmem
    · simp only [record, setState, hnil, not_mem_nil] at hmem
  | @pushed c msg hstate hG =>
    exact h.push hstate (c.queue.pushed_push msg) (fun hop => (hG hop).elim) (fun hc => by cases hstate.symm.trans hc)
  | @closing c msg hstate =>
    rcases hstate with hstate | ⟨-, hagain⟩
    · exact h.push hstate (c.queue.pushed_push msg) (fun _ => rfl) (by rintro ⟨⟩)
    · exact absurd hagain hanswers
  | control | dropped | ended => exact { h with }

end Connection.Steps

theorem one_close_frame {outside : Point → Connection P → List Call} {calls : List Call} {n : Nat}
    (houtside : ∀ point c, ∀ call ∈ outside point c, ¬ call.SendsClose) (hcalls : ∀ call ∈ calls, ¬ call.SendsClose)
    (hanswers : ¬ (after cfg outside n calls).Reanswers cfg) :
    let pushed := (after cfg outside n calls).queue.pushed
    pushed.countP (·.opcode = .close) ≤ 1 ∧
      ∀ before msg after, pushed = before ++ msg :: after → msg.opcode = .close → after = [] := by
  have hsteps : Steps cfg True False .new (after cfg outside n calls) :=
    steps_after (fun point d call hcall => ⟨fun _ => trivial, houtside point d call hcall⟩)
      (fun call hcall => ⟨fun _ => trivial, hcalls call hcall⟩) n
  have hnew : (new : Connection P).record.ClosesOnce := ⟨nofun, nofun, fun _ => rfl⟩
  have hcloses := hsteps.closesOnce (fun hearly => nomatch hearly.2) hanswers hnew
  exact ⟨hcloses.countP_le, fun _ _ _ => hcloses.nil_of_close⟩

/-- A server that answers protocol errors. -/
def sampleServer : Config HybiProcessor where
  server := true
  dropOnProtocolError := false
  silentClose := false
  clientVersion := 13
  processor := HybiProcessor.processors ⟨⟨.eight, true⟩, true, 32000000, maxMessageSize_default_lt⟩ fun _ => ⟨0, 0, 0, 0⟩
  httpHandler := false
  validateHandler _ := true
  pingHandler _ _ := true

/-- The calls by which a server is opened. -/
def serverCalls : List Call :=
  [.start, .handleTransportInit none, .handleReadHandshake none (.complete ⟨true, 13, false, true, none, none, none, []⟩),
    .handleWriteHttpResponse none]

/-- A server that closes, and gets the close frame of the client, with the same code. -/
theorem one_close_frame_answered :
    let c := after sampleServer quietOutside 1
      (serverCalls ++ [.close 1000 [], .handleReadFrame none [0x88, 0x82, 0, 0, 0, 0, 3, 0xe8]])
    c.state = .closed ∧ c.queue.pushed.countP (·.opcode = .close) = 1 ∧ c.queue.pushed.countP (·.opcode = .close) ≤ 1 := by
  have houtside : ∀ point c, ∀ call ∈ quietOutside (P := HybiProcessor) point c, ¬ call.SendsClose :=
    fun _ _ _ h => nomatch h
  have hcalls : ∀ call ∈ serverCalls ++ [.close 1000 [], .handleReadFrame none [0x88, 0x82, 0, 0, 0, 0, 3, 0xe8]],
      ¬ call.SendsClose := by
    rintro call hcall ⟨msg, rfl, -⟩
    simp [serverCalls] at hcall
  refine ⟨by decide, by decide, (one_close_frame houtside hcalls ?_).1⟩
  rintro ⟨-, msg, hmem, -, hinvalid⟩
  have hcontrols : (after sampleServer quietOutside 1
      (serverCalls ++ [.close 1000 [], .handleReadFrame none [0x88, 0x82, 0, 0, 0, 0, 3, 0xe8]])).controls =
      [(.closing, ⟨.close, [3, 0xe8]⟩)] := by decide
  rw [hcontrols] at hmem
  obtain rfl : msg = ⟨.close, [3, 0xe8]⟩ := by simpa using hmem
  revert hinvalid
  unfold InvalidClose
  decide

/-- A server that closes, and gets a close frame of one byte, sends a second close frame. A server that sends a message prepared as a
close frame is still open, and sends a message after it. -/
theorem two_close_frames :
    let closed := after sampleServer quietOutside 1
      (serverCalls ++ [.close 1000 [], .handleReadFrame none [0x88, 0x81, 0, 0, 0, 0, 7]])
    let sent := after sampleServer quietOutside 1
      (serverCalls ++ [.sendPrepared ⟨.close, [0x88, 0], [], false⟩, .send ⟨.binary, [7]⟩])
    closed.queue.pushed.map (·.opcode) = [.close, .close] ∧ sent.queue.pushed.map (·.opcode) = [.close, .binary] := by
  decide

end Osp.Websocketpp
