import NetServer.Tcp.Objects
import NetServer.Tcp.Stream
/-!
# Graceful shutdown

`shutdown()` tests `connectState_ != CONNECTED` (`TcpConnection.cpp:127`), and `socket_` is not the client's
descriptor, so the write side of `channel_->fd()` stays open in every state (`Objects.notShut`). What is left
of a graceful shutdown is that nothing is shut down *while output is pending* (`graceful_iff_pending`).
-/

namespace NetServer
open Exec

/-- The write side of the client's descriptor is shut down, once, iff no output is pending. -/
def Graceful (w : World) (o : TcpConnection) : Prop :=
  (o.outputBuffer.readable = [] → w.shutWr o.channel.fd = 1) ∧
    (o.outputBuffer.readable ≠ [] → w.shutWr o.channel.fd = 0)

/-- **After `shutdown()` on a connected connection** the shutdown is graceful so far iff `::write` has
accepted less than was passed to `send`. -/
theorem graceful_iff_pending (ipPort : Name) (listenFd timerFd : Fd) (w : World)
    (h : Visited ipPort listenFd timerFd w) (c : ConnId) (o : TcpConnection) (hc : w.conns c = some o)
    (_called : ∃ writing, Event.shutdown c .CONNECTED writing ∈ w.trace) :
    Graceful w o ↔ (writtenBytes c w.trace).length < (sentBytes c w.trace).length := by
  have hlen := congrArg List.length (h.streamOk.stream c o hc)
  rw [List.length_append] at hlen
  have pending : (writtenBytes c w.trace).length < (sentBytes c w.trace).length ↔ o.outputBuffer.readable ≠ [] := by
    rw [← List.length_pos_iff]; omega
  rw [pending, Graceful, h.objects.notShut c o hc]
  constructor
  · intro hg he
    exact absurd (hg.1 he) (by decide)
  · exact fun hne => ⟨fun he => absurd he hne, fun _ => rfl⟩

/-- The UP callback sends two bytes, one of which goes out, and calls `shutdown()`. -/
theorem graceful_iff_pending_one :
    ∃ (w : World) (o : TcpConnection), Visited [] 3 4 w ∧ w.conns 0 = some o ∧ .shutdown 0 .CONNECTED true ∈ w.trace ∧
      (Graceful w o ↔ (writtenBytes 0 w.trace).length < (sentBytes 0 w.trace).length) := by
  obtain ⟨w, run, hw, hs⟩ := Run.reaches step (fun _ _ => True) (World.init [] 3 4)
    [.newConnection 5 (some 6) (.send 0 [1, 2] (some 1) (.shutdown 0 true .done))]
    (fun w => (w.conns 0).isSome ∧ .shutdown 0 .CONNECTED true ∈ w.trace) (by decide +kernel) (by decide +kernel)
  obtain ⟨o, hc⟩ := Option.isSome_iff_exists.1 hw
  exact ⟨w, o, .inl run, hc, hs, graceful_iff_pending [] 3 4 w (.inl run) 0 o hc ⟨_, hs⟩⟩

/-- `DayTimeServerTest`: the UP callback sends, all of it goes out, and `shutdown()` leaves the descriptor as
it is. -/
theorem not_graceful_drained :
    ¬ ∀ (ipPort : Name) (listenFd timerFd : Fd) (w : World), Visited ipPort listenFd timerFd w →
      ∀ (c : ConnId) (o : TcpConnection), w.conns c = some o → (∃ writing, .shutdown c .CONNECTED writing ∈ w.trace) →
        Graceful w o := by
  intro graceful
  obtain ⟨w, run, hw, hs⟩ := Run.reaches step (fun _ _ => True) (World.init [] 3 4)
    [.newConnection 5 (some 6) (.send 0 [1, 2] (some 2) (.shutdown 0 true .done))]
    (fun w => (w.conns 0).any (fun o => o.outputBuffer.readable == [] && w.shutWr o.channel.fd == 0) = true ∧
      .shutdown 0 .CONNECTED false ∈ w.trace) (by decide +kernel) (by decide +kernel)
  obtain ⟨o, hc, ho⟩ := (Option.any_eq_true ..).1 hw
  obtain ⟨hempty, hzero⟩ := Bool.and_eq_true_iff.1 ho
  have hone := (graceful [] 3 4 w (.inl run) 0 o hc ⟨_, hs⟩).1 (eq_of_beq hempty)
  exact absurd (hone.symm.trans (eq_of_beq hzero)) (by decide)

end NetServer
