import Osp.Openssh.Channels

/-!
# Receive credit

A write that fails discards the output without giving its window back, extended data that is dropped uses up window of the peer, and
what is read from the extended descriptor is kept in the buffer of what was received. Nothing else changes the sums.
-/

namespace Osp.Openssh

/-- What is to be given back of the window, and what waits to be written. -/
def Channel.held (c : Channel) : Nat := c.localConsumed + c.output + c.extended

/-- A channel, and how much of the window granted to it the peer has not used. -/
structure Link where
  channel : Channel
  granted : Nat

/-- An event at the channel, and what it does to the peer's window. -/
def Link.step (l : Link) (e : ChannelEvent) : Link where
  channel := channelStep l.channel e
  granted :=
    match e with
    | .data len => l.granted - len
    -- after EOF the connection ends
    | .extendedData accept _ len => if l.channel.eofRcvd ∧ ¬accept then l.granted else l.granted - len
    | .checkWindow => l.granted + (channelCheckWindow l.channel).2
    | _ => l.granted

/-- The window as either side counts it is, with what is held of it, the whole window. -/
def Link.Whole (l : Link) : Prop :=
  l.channel.localWindow + l.channel.held = l.channel.localWindowMax ∧ l.granted + l.channel.held = l.channel.localWindowMax

/-- The peer sends no more than it was granted. -/
def Link.Fits (l : Link) : ChannelEvent → Prop
  | .data len | .extendedData _ _ len => len ≤ l.granted
  | _ => True

/-- A failure to write while output waits, extended data that is dropped, or data of the other direction that enters or leaves the
extended buffer. -/
def ChannelEvent.Unbalanced (c : Channel) : ChannelEvent → Prop
  | .wfd (some 0) | .writeFailed => c.output ≠ 0 ∧ c.ostate ≠ .closed
  | .extendedData accept stderr len =>
    ¬(c.eofRcvd = true ∧ ¬accept) ∧ (¬c.efdOpen ∨ c.extendedUsage ≠ .write ∨ ¬stderr) ∧ len ≠ 0
  | .efd (some (_ + 1)) => c.efdOpen = true ∧ c.extendedUsage = .read
  | .sendExtended len => c.extendedUsage = .read ∧ c.extended ≠ 0 ∧ len ≠ 0
  | .message len => len ≠ 0
  | _ => False

/-- Every event of a run is of a kind. -/
def Along (P : Link → ChannelEvent → Prop) : Link → List ChannelEvent → Prop
  | _, [] => True
  | l, e :: events => P l e ∧ Along P (l.step e) events

/-- The window is whole in every state of a run. -/
def Conserved : Link → List ChannelEvent → Prop
  | l, [] => l.Whole
  | l, e :: events => l.Whole ∧ Conserved (l.step e) events

variable {c : Channel} {l : Link} {e : ChannelEvent}

theorem held_waitDrain : (waitDrain c).held = c.held := by
  unfold waitDrain
  split <;> rfl

theorem held_checkDrained : (checkDrained c).held = c.held := by
  unfold checkDrained
  simp only
  split
  · rename_i h
    simp [Channel.held, chanShutdownWrite, h.2.1]
  · rfl

theorem held_chanWriteFailed2 : (chanWriteFailed2 c).held = c.held ↔ ¬(c.output ≠ 0 ∧ c.ostate ≠ .closed) := by
  cases hs : c.ostate <;> simp [chanWriteFailed2, chanShutdownWrite, Channel.held, hs]

theorem held_channelHandleWfd (written : Option Nat) :
    (channelHandleWfd c written).held = c.held ↔ ¬(ChannelEvent.wfd written).Unbalanced c := by
  unfold channelHandleWfd
  split_ifs with ho <;> rcases written with _ | _ | len
  case neg.some.zero => exact held_chanWriteFailed2
  case neg.some.succ =>
    refine iff_of_true ?_ id
    simp only [Channel.held]
    omega
  all_goals simp [ChannelEvent.Unbalanced, ho]

theorem held_channelHandleEfd (result : Option Nat) :
    (channelHandleEfd c result).held = c.held ↔ ¬(ChannelEvent.efd result).Unbalanced c := by
  unfold channelHandleEfd
  split_ifs with he
  · refine iff_of_true rfl ?_
    rcases result with _ | _ | len <;> rcases he with he | ⟨he, -⟩ <;> simp [ChannelEvent.Unbalanced, he]
  · rcases result with _ | _ | len <;> cases hu : c.extendedUsage <;> simp_all [ChannelEvent.Unbalanced, Channel.held]
    omega

/-- The events that change the window. -/
def ChannelEvent.Moves : ChannelEvent → Prop
  | .data _ | .extendedData .. | .checkWindow => True
  | _ => False

theorem window_channelStep (c : Channel) (e : ChannelEvent) :
    (channelStep c e).localWindowMax = c.localWindowMax ∧ (e.Moves ∨ (channelStep c e).localWindow = c.localWindow) := by
  cases e
  all_goals
    simp only [channelStep, channelInputData, channelInputExtendedData, chanRcvdIeof, chanRcvdClose2, channelHandleWfd, channelHandleEfd,
      channelCheckWindow, sendExtended, checkDrained, waitDrain, chanWriteFailed2, chanShutdownWrite]
    repeat' split
    all_goals simp [ChannelEvent.Moves]

/-- Any other event keeps what is held exactly if it is balanced. -/
theorem held_channelStep (h : ¬e.Moves) : (channelStep c e).held = c.held ↔ ¬e.Unbalanced c := by
  cases e with
  | data | extendedData | checkWindow => exact absurd trivial h
  | eof => exact iff_of_true (held_checkDrained.trans held_waitDrain) id
  | close => exact iff_of_true held_waitDrain id
  | drained => exact iff_of_true held_checkDrained id
  | wfd written => exact held_channelHandleWfd written
  | efd result => exact held_channelHandleEfd result
  | writeFailed => exact held_chanWriteFailed2
  | sendExtended len =>
    simp only [channelStep, sendExtended, ChannelEvent.Unbalanced, Channel.held]
    split_ifs <;> simp_all
    omega
  | message len => simp [channelStep, ChannelEvent.Unbalanced, Channel.held]
  | closeSent => exact iff_of_true rfl id

/-- An event keeps the window whole exactly if it is balanced. -/
theorem Link.whole_step (hw : l.Whole) (h : l.Fits e) : (l.step e).Whole ↔ ¬e.Unbalanced l.channel := by
  by_cases hm : e.Moves
  · unfold Link.Whole Channel.held at hw ⊢
    cases e with
    | data len =>
      have hlen : len ≤ l.granted := h
      refine iff_of_true ?_ id
      simp only [Link.step, channelStep, channelInputData]
      split_ifs <;> (try simp only) <;> omega
    | extendedData accept stderr len =>
      have hlen : len ≤ l.granted := h
      simp only [Link.step, channelStep, channelInputExtendedData]
      split_ifs with hend hdrop
      · exact iff_of_true hw fun hu => hu.1 hend
      · have hu : (ChannelEvent.extendedData accept stderr len).Unbalanced l.channel ↔ len ≠ 0 :=
          ⟨fun hu => hu.2.2, fun hne => ⟨hend, hdrop, hne⟩⟩
        rw [hu]
        omega
      · omega
      · refine iff_of_true ?_ fun hu => hdrop hu.2.1
        simp only
        omega
    | checkWindow =>
      refine iff_of_true ?_ id
      simp only [Link.step, channelStep, channelCheckWindow]
      split_ifs <;> simp only <;> omega
    | _ => cases hm
  · -- neither side's window changes
    have hwin := window_channelStep l.channel e
    have hg : (l.step e).granted = l.granted := by
      cases e <;> first | rfl | exact absurd trivial hm
    have hc : (l.step e).channel = channelStep l.channel e := rfl
    rw [← held_channelStep hm]
    unfold Link.Whole at hw ⊢
    rw [hg, hc, hwin.2.resolve_left hm]
    omega

/-- The window is whole in every state of a run exactly if it is at first and every event is balanced. -/
theorem receiveCredit_iff {events : List ChannelEvent} (h : Along Link.Fits l events) :
    Conserved l events ↔ l.Whole ∧ Along (fun l e => ¬e.Unbalanced l.channel) l events := by
  induction events generalizing l with
  | nil => simp [Conserved, Along]
  | cons e events ih =>
    rw [Conserved, Along, ih h.2, and_congr_right]
    intro hw
    rw [Link.whole_step hw h.1]

/-- A window of 100 bytes, all of it granted. -/
def sampleLink : Link where
  channel :=
    { ostate := .open, localWindow := 100, localWindowMax := 100, localConsumed := 0, localMaxpacket := 10, output := 0
      extended := 0, extendedUsage := .write, efdOpen := true, eofRcvd := false, closeRcvd := false, closeSent := false }
  granted := 100

/-- Forty bytes arrive, are written and are granted again. -/
theorem receiveCredit_iff_written : Conserved sampleLink [.data 40, .wfd (some 40), .checkWindow, .extendedData false true 5] := by
  have hfits : Along Link.Fits sampleLink [.data 40, .wfd (some 40), .checkWindow, .extendedData false true 5] :=
    ⟨show 40 ≤ 100 by decide, trivial, trivial, show 5 ≤ 100 by decide, trivial⟩
  exact (receiveCredit_iff hfits).2 ⟨⟨rfl, rfl⟩, id, id, id, fun hu => absurd hu.2.1 (by decide), trivial⟩

/-- Ten bytes arrive and cannot be written, or are extended data of an unknown type: the peer never gets their window back. -/
theorem receiveCredit_lost :
    sampleLink.Whole ∧
      (let l := [.data 10, .wfd (some 0), .checkWindow].foldl Link.step sampleLink
       l.channel.localWindow = 90 ∧ l.granted = 90 ∧ l.channel.held = 0) ∧
      (let l := [.extendedData false false 10, .checkWindow].foldl Link.step sampleLink
       l.channel.localWindow = 100 ∧ l.granted = 90 ∧ l.channel.held = 0) := by
  refine ⟨⟨rfl, rfl⟩, ?_⟩
  decide

end Osp.Openssh
