import AuthVideo.Lemmas.RtpConnection

/-!
# Theorem 66: a stream for every client

The clients of a scheduler share one copy of each packet, and each of them writes its own headers into it before it sends it.
-/

namespace AuthVideo.Xop

open Streams

/-- Theorem 66 (streams of a session). However pushes, posts, events and commands of any number of threads, schedulers and clients
follow each other: what is given to `TcpConnection::Send` or to `sendto` on a channel of a client are some of the packets that were
pushed to it, in the order in which they were posted, each with its payload, timestamp and mark as they were pushed, under the
client's own source number and under sequence numbers without a gap. What a full queue or the socket then drops is a gap. -/
theorem every_client_has_a_stream (clients : ℕ → RtpConnection) (steps : List StreamStep) (client : ℕ) (channel : MediaChannelId) :
    (∃ pkts : List RtpPacket, pkts.Sublist (postedTo client channel (run clients steps).1) ∧
      List.Forall₂ (Frames ((clients client).info channel).ssrc) (numbered ((clients client).info channel).packetSeq pkts)
        (handedTo client channel (run clients steps).1)) ∧
    ∀ p ∈ postedTo client channel (run clients steps).1, ∃ thread pkt multicast targets heads,
      StreamStep.push thread channel pkt multicast targets heads ∈ steps ∧ client ∈ targets ∧
        p = ⟨pkt.payload, pkt.timestamp, pkt.last⟩ := by
  have hsound : ∃ s, Sound clients (run clients steps).1 s := by
    have hlog := Machine.run_log (Sound clients) (sound_step clients) (sound_start clients) steps
    unfold run
    rcases hrun : Machine.run step steps (start clients) with ⟨log, e | s⟩ <;> rw [hrun] at hlog
    · obtain ⟨-, s, hsound, -⟩ := hlog
      exact ⟨s, hsound⟩
    · exact ⟨s, hlog⟩
  obtain ⟨s, hsound⟩ := hsound
  constructor
  · obtain ⟨taken, pkts, hposted, hsub, hsent, -⟩ := hsound.stream client channel
    refine ⟨pkts, ?_, hsent⟩
    rw [hposted]
    exact hsub.trans (List.sublist_append_left _ _)
  · intro p hp
    obtain ⟨thread, pkt, multicast, targets, heads, event, hmem, htarget, rfl⟩ := hsound.source client channel p hp
    refine ⟨thread, pkt, multicast, targets, heads, ?_, htarget, rfl⟩
    have hprefix := Machine.map_fst_run_prefix step steps (start clients)
    exact hprefix.subset (List.mem_map_of_mem hmem)

end AuthVideo.Xop
