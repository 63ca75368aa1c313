import Osp.Websocketpp.Lemmas.Consume

/-!
# Frame parsing does not depend on the buffers

A byte stream, well formed or not, is delivered as the same messages however it is cut into buffers, and the processor ends with
the same error or in the same state.
-/

namespace Osp.Websocketpp

open Lib Processor

/-- An endpoint on a 64 bit little-endian machine with the default size limit. -/
def Endpoint.default (server : Bool) : Endpoint :=
  { platform := ⟨.eight, true⟩, server := server, maxMessageSize := 32000000, maxMessageSize_lt := maxMessageSize_default_lt }

/-- Feeding two cuttings of one stream into buffers to a new processor, and taking each message that is ready, delivers the same
messages and stops with the same error code, or without an error in the same state. -/
theorem handleReadFrame_chunking_independent (ep : Endpoint) (stream : Bytes) (cs ds : List Bytes)
    (hcs : cs.flatten = stream) (hds : ds.flatten = stream) :
    feedAll (handleReadFrame ep) init cs = feedAll (handleReadFrame ep) init ds := by
  have hcomp : Compositional (handleReadFrame ep) (Processor.AtRest ep) :=
    observeReadFrame_compositional messages ep
  rw [hcomp.feedAll_eq cs (atRest_init ep), hcomp.feedAll_eq ds (atRest_init ep), hcs, hds]

/-- A text frame with a ping behind it, cut inside the header and inside the payload, and in one buffer. -/
theorem handleReadFrame_chunking_independent_text_ping :
    feedAll (handleReadFrame (.default false)) init
        [[0x81], [0x03, 0xE2], [0x82, 0xAC, 0x89], [0x00]] =
      feedAll (handleReadFrame (.default false)) init [[0x81, 0x03, 0xE2, 0x82, 0xAC, 0x89, 0x00]] ∧
    (feedAll (handleReadFrame (.default false)) init
        [[0x81, 0x03, 0xE2, 0x82, 0xAC, 0x89, 0x00]]).out =
      [⟨.text, [0xE2, 0x82, 0xAC]⟩, ⟨.ping, []⟩] :=
  ⟨handleReadFrame_chunking_independent (.default false) [0x81, 0x03, 0xE2, 0x82, 0xAC, 0x89, 0x00] _ _ rfl rfl,
    by decide⟩

end Osp.Websocketpp
