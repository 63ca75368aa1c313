import Osp.Websocketpp.Lemmas.Connection
import Osp.Websocketpp.Connection

/-!
# The life of a connection

In every run the state of a connection moves forward only, the transport is told to shut down at most once, and one of the fail and
the close handler is called, at most once. The exception is a client that reads a valid response whose extension negotiation fails:
it terminates the connection, and then opens it.
-/

namespace Osp.Websocketpp

open Osp.Lib Connection List

variable {P : Type} {cfg : Config P} {G : Prop} {c c' : Connection P}

/-- The states of a record moved forward, to its state, and there is one shutdown if it is closed. -/
structure Connection.Record.Forward (r : Record) : Prop where
  current : r.states.head? = some r.state
  ordered : r.states.Pairwise fun later earlier => earlier.value ≤ later.value
  count : r.shutdownCount = if r.state = .closed then 1 else 0
  ended : r.shutdowns.length + r.ended.length ≤ r.shutdownCount

namespace Connection.Record.Forward

variable {r : Record}

theorem le_state (h : r.Forward) {state : SessionState} (hmem : state ∈ r.states) : state.value ≤ r.state.value := by
  obtain ⟨earlier, hstates⟩ := List.head?_eq_some_iff.1 h.current
  have hordered := h.ordered
  rw [hstates] at hmem hordered
  rcases mem_cons.1 hmem with rfl | hearlier
  · exact Nat.le_refl _
  · exact rel_of_pairwise_cons hordered hearlier

/-- A state that is not before the current one may be next. -/
theorem ordered_cons (h : r.Forward) {state : SessionState} (hle : r.state.value ≤ state.value) :
    (state :: r.states).Pairwise fun later earlier => earlier.value ≤ later.value :=
  pairwise_cons.2 ⟨fun _ hmem => (h.le_state hmem).trans hle, h.ordered⟩

theorem shutdownCount_le (h : r.Forward) : r.shutdownCount ≤ 1 := by
  rw [h.count]
  split <;> decide

theorem state_of_closed_mem (h : r.Forward) (hmem : .closed ∈ r.states) : r.state = .closed := by
  have hle := h.le_state hmem
  cases hstate : r.state with
  | closed => rfl
  | connecting | «open» | closing =>
    rw [hstate] at hle
    exact absurd hle (by decide)

end Connection.Record.Forward

/-- The connection goes on to a state that is not `closed`. -/
theorem Connection.Record.Forward.setState (h : c.record.Forward) {state : SessionState} (hopen : c.state ≠ .closed)
    (hle : c.state.value ≤ state.value) (hstate : state ≠ .closed) : (c.setState state).record.Forward where
  current := rfl
  ordered := h.ordered_cons hle
  count := by
    have hcount : c.shutdownCount = 0 := h.count.trans (if_neg hopen)
    exact hcount.trans (if_neg hstate).symm
  ended := h.ended

/-- What a step keeps, when no response with a failed extension negotiation is read. -/
theorem Connection.Steps.forward (hsteps : Steps cfg False G c c') (hearly : ¬ c.Early) (h : c.record.Forward) :
    c'.record.Forward := by
  induction hsteps with
  | early he => exact absurd he hearly
  | same hsame => exact hsame.record ▸ h
  | trans hfirst _ ih₁ ih₂ => exact ih₂ (hfirst.not_early hearly) (ih₁ hearly h)
  | @shut c tstat hopen =>
    have hcount : c.shutdownCount = 0 := h.count.trans (if_neg hopen)
    refine ⟨rfl, h.ordered_cons ?_, congrArg (· + 1) hcount, ?_⟩
    · show c.state.value ≤ _
      cases c.state <;> decide
    · have hended : c.shutdowns.length + c.ended.length ≤ c.shutdownCount := h.ended
      show (c.shutdowns ++ [tstat]).length + c.ended.length ≤ c.shutdownCount + 1
      simp only [length_append, length_singleton]
      omega
  | @opened c hstate => exact h.setState (by rw [hstate]; nofun) (by rw [hstate]; decide) nofun
  | reopened hF => exact hF.elim
  | @pushed c msg hstate => exact { h with }
  | @closing c msg hstate =>
    have hclosing : (c.setState .closing).record.Forward := by
      rcases hstate with hopen | ⟨hclosing, -⟩
      · exact h.setState (by rw [hopen]; nofun) (by rw [hopen]; decide) nofun
      · exact h.setState (by rw [hclosing]; nofun) (by rw [hclosing]) nofun
    exact { hclosing with }
  | control => exact { h with }
  | dropped hpending =>
    refine ⟨h.current, h.ordered, h.count, Nat.le_trans (Nat.add_le_add_right ?_ _) h.ended⟩
    simp only [record, hpending, length_cons]
    exact Nat.le_succ _
  | ended hpending =>
    refine ⟨h.current, h.ordered, h.count, Nat.le_trans (Nat.le_of_eq ?_) h.ended⟩
    simp only [record, hpending, length_cons]
    omega

theorem lifecycle_forward {outside : Point → Connection P → List Call} {calls : List Call}
    (houtside : ∀ point c, ∀ call ∈ outside point c, ¬ call.FailsNegotiation)
    (hcalls : ∀ call ∈ calls, ¬ call.FailsNegotiation) (n : Nat) :
    let c := Connection.after cfg outside n calls
    c.states.head? = some c.state ∧ c.states.Pairwise (fun later earlier => earlier.value ≤ later.value) ∧
      (.closed ∈ c.states → c.state = .closed) ∧ c.shutdownCount ≤ 1 ∧ c.ended.length ≤ 1 := by
  intro c
  have hsteps : Steps cfg False True .new c :=
    steps_after (fun point d call hcall => ⟨houtside point d call hcall, fun _ => trivial⟩)
      (fun call hcall => ⟨hcalls call hcall, fun _ => trivial⟩) n
  have hforward : c.record.Forward :=
    hsteps.forward (fun hearly => nomatch hearly.2) ⟨rfl, pairwise_singleton .., rfl, Nat.le_refl _⟩
  have hcount : c.shutdownCount ≤ 1 := hforward.shutdownCount_le
  have hended : c.shutdowns.length + c.ended.length ≤ c.shutdownCount := hforward.ended
  exact ⟨hforward.current, hforward.ordered, hforward.state_of_closed_mem, hcount, by omega⟩

/-- A client of version 13, whose masking keys are all 0. -/
def sampleClient : Config HybiProcessor where
  server := false
  dropOnProtocolError := true
  silentClose := false
  clientVersion := 13
  processor := HybiProcessor.processors ⟨⟨.eight, true⟩, false, 32000000, maxMessageSize_default_lt⟩ fun _ => ⟨0, 0, 0, 0⟩
  httpHandler := false
  validateHandler _ := true
  pingHandler _ _ := true

/-- The calls up to the response, the response, and its end. -/
def clientCalls (negotiation : Option ConnectionError) : List Call :=
  [.start, .handleTransportInit none, .handleSendHttpRequest none, .handleReadHttpResponse none (.ready none negotiation []),
    .handleTerminate, .handleReadFrame (some .eof) [], .handleTerminate]

/-- A client that is connected, and reads the end of the stream. -/
theorem lifecycle_forward_eof :
    let c := Connection.after sampleClient quietOutside 1 (clientCalls none)
    c.states = [.closed, .open, .connecting] ∧ c.ended = [.closed] ∧ c.shutdownCount ≤ 1 := by
  have hcalls : ∀ call ∈ clientCalls none, ¬ call.FailsNegotiation := by
    rintro call hcall ⟨negotiation, rest, rfl⟩
    simp [clientCalls] at hcall
  have houtside : ∀ point c, ∀ call ∈ quietOutside (P := HybiProcessor) point c, ¬ call.FailsNegotiation :=
    fun _ _ _ h => nomatch h
  exact ⟨by decide, by decide, (lifecycle_forward houtside hcalls 1).2.2.2.1⟩

/-- A client that reads a response whose extensions cannot be parsed: it is closed and then open, the transport is told twice to
shut down, and both handlers are called. -/
theorem lifecycle_reopened :
    let c := Connection.after sampleClient quietOutside 1 (clientCalls (some .extensionParseError))
    c.states = [.closed, .open, .closed, .connecting] ∧ c.shutdownCount = 2 ∧ c.ended = [.closed, .failed] := by
  decide

end Osp.Websocketpp
