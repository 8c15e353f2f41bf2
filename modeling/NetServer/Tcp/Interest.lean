import NetServer.Tcp.Effects
/-!
# Write interest and pending output

`send` asks for `EPOLLOUT` when it keeps bytes back, `handleWrite` gives it up with the last byte, and going down
wipes it: between two operations a connection asks for `EPOLLOUT` only while bytes wait, and a connected one always
does (`Paced`). The registration says the same of the kernel (`Objects.mirrors`).
-/

namespace NetServer
open Exec

/-! ## Masks -/

namespace Mask

variable (mask flag : Mask)

theorem has_or_self (h : flag ≠ 0#32) : Mask.has (mask ||| flag) flag = true := by
  have absorbed : (mask ||| flag) &&& flag = flag := by
    rw [BitVec.and_or_distrib_right, BitVec.and_self, BitVec.or_comm, BitVec.and_comm]
    ext i hi
    simp only [BitVec.getElem_or, BitVec.getElem_and]
    cases flag[i] <;> simp
  simpa [Mask.has, absorbed] using h

theorem has_and_not_self : Mask.has (mask &&& ~~~flag) flag = false := by
  have gone : (mask &&& ~~~flag) &&& flag = 0#32 := by
    ext i hi
    simp only [BitVec.getElem_and, BitVec.getElem_not, BitVec.getElem_zero]
    cases flag[i] <;> simp
  simp [Mask.has, gone]

theorem has_or_other {other : Mask} (h : other &&& flag = 0#32) : Mask.has (mask ||| other) flag = mask.has flag := by
  rw [Mask.has, BitVec.and_or_distrib_right, h, BitVec.or_zero]
  rfl

theorem has_and_not_other {other : Mask} (h : ~~~other &&& flag = flag) :
    Mask.has (mask &&& ~~~other) flag = mask.has flag := by
  rw [Mask.has, BitVec.and_assoc, h]
  rfl

variable {mask flag}

theorem ne_noEvent (h : mask.has flag = true) : mask ≠ Channel.NoEvent := by
  intro hn
  simp [hn, Mask.has, Channel.NoEvent] at h

end Mask

/-- A channel that asks for something after `f` is in the interest set. -/
theorem Channel.set_added {f : Mask → Mask} {ch : Channel} (h : f ch.events ≠ Channel.NoEvent) :
    (ch.set f).status = .ADDED := by
  simp [Channel.set, Channel.nextStatus, h]

/-! ## The invariant -/

structure Paced (o : TcpConnection) : Prop where
  /-- `EPOLLOUT` is asked for, of the kernel too, only while bytes wait. -/
  writing : o.channel.isWriting = true → o.channel.status = .ADDED ∧ o.outputBuffer.readable ≠ []
  connected : o.connectState = .CONNECTED → o.channel.status = .ADDED ∧ o.channel.events.has EPOLLIN = true
  /-- No bytes wait for nothing. -/
  stranded : o.connectState = .CONNECTED → o.outputBuffer.readable ≠ [] → o.channel.isWriting = true

theorem isWriting_none {ch : Channel} (h : ch.events = Channel.NoEvent) : ch.isWriting = false := by
  simp [Channel.isWriting, Mask.has, Channel.NoEvent, h]

theorem paced_goneDown (o : TcpConnection) : Paced o.goneDown where
  writing h := by
    have silent : o.goneDown.channel.isWriting = false := isWriting_none rfl
    exact absurd (silent.symm.trans h) (by decide)
  connected h := by cases h
  stranded h := by cases h

theorem ownInvariant_paced : OwnInvariant Paced where
  own {c waiting o o' evs} hown h := by
    cases hown with
    | @queued b hb hr =>
      cases hw : o.channel.isWriting with
      | true => exact ⟨fun _ => ⟨(h.writing hw).1, hr⟩, h.connected, fun _ _ => hw⟩
      | false =>
        have writes : (o.channel.set (· ||| EPOLLOUT)).isWriting = true := Mask.has_or_self _ _ (by decide)
        have added : (o.channel.set (· ||| EPOLLOUT)).status = .ADDED := Channel.set_added (Mask.ne_noEvent writes)
        refine ⟨fun _ => ⟨added, hr⟩, fun hst => ⟨added, ?_⟩, fun _ _ => writes⟩
        exact (Mask.has_or_other _ _ (by decide)).trans (h.connected hst).2
    | wrote hw hb hr => exact ⟨fun _ => ⟨(h.writing hw).1, hr⟩, h.connected, fun _ _ => hw⟩
    | drained hw hb hr =>
      have silent : (o.channel.set (· &&& ~~~EPOLLOUT)).isWriting = false := Mask.has_and_not_self _ _
      refine ⟨fun hn => absurd (silent.symm.trans hn) (by decide), fun hst => ?_, fun _ hne => absurd hr hne⟩
      have reads : (o.channel.events &&& ~~~EPOLLOUT).has EPOLLIN = true :=
        (Mask.has_and_not_other _ _ (by decide)).trans (h.connected hst).2
      exact ⟨Channel.set_added (Mask.ne_noEvent reads), reads⟩
    | input => exact ⟨h.writing, h.connected, h.stranded⟩
    | removed hidle =>
      have hnone : o.channel.events = Channel.NoEvent := by simpa [Channel.isNoneEvent] using hidle
      have silent := isWriting_none hnone
      refine ⟨fun hn => absurd (silent.symm.trans hn) (by decide), fun hst => ?_, fun hst => ?_⟩
      · exact absurd hnone (Mask.ne_noEvent (h.connected hst).2)
      · exact absurd hnone (Mask.ne_noEvent (h.connected hst).2)
    | down => exact paced_goneDown o
  shut _ hw h := ⟨h.writing, nofun, nofun⟩
  reported _ h := ⟨h.writing, h.connected, h.stranded⟩
  made _ _ fd := by
    have reads : ((Channel.new fd).set (· ||| EPOLLIN)).events.has EPOLLIN = true := Mask.has_or_self _ _ (by decide)
    have silent : ((Channel.new fd).set (· ||| EPOLLIN)).isWriting = false := by
      simp [Channel.isWriting, Channel.set, Channel.new, Channel.WritableEvent]
      decide
    refine ⟨fun hn => ?_, fun _ => ⟨Channel.set_added (Mask.ne_noEvent reads), reads⟩, fun _ hne => ?_⟩
    · exact absurd (silent.symm.trans hn) (by decide)
    · exact absurd (Buffer.readable_new _) hne

theorem Visited.paced {ipPort : Name} {listenFd timerFd : Fd} {w : World} (h : Visited ipPort listenFd timerFd w) :
    ∀ c o, w.conns c = some o → Paced o :=
  (h.effects (I := fun w => ∀ c o, w.conns c = some o → Paced o) nofun fun _ _ _ e =>
    e.connections ownInvariant_paced).2

/-! ## What the kernel is asked for, and what `handleWrite` finds -/

/-- The mask registered for a connection. -/
theorem Objects.registered_mask {w : World} (h : Objects w) {c : ConnId} {o : TcpConnection} (hc : w.conns c = some o)
    {e : EpollEvent ChannelPtr} (he : w.interest o.channel.fd = some e) : e.events = o.channel.events := by
  have mirrors := h.mirrors c o hc
  simp only [Polled.Mirrors, he] at mirrors
  split at mirrors
  · cases mirrors; rfl
  · cases mirrors

/-- What `shutdown()` can stop with: a connection that is gone, or a `::shutdown` that fails. -/
theorem shutdown_faults (c : ConnId) (ok : Bool) (w : World) : Ensures (TcpConnection.shutdown c ok) w (fun _ _ => True)
    fun e t => e = .useAfterFree ∨ e = .abort ∧ ok = false ∧ ∃ st, .shutWr c st false ∈ t.trace := by
  simp only [TcpConnection.shutdown, shutdownWrite, ensures_bind, ensures_deref, ensures_emit, ensures_ite,
    ensures_setConnectState, ensures_modify, ensures_throw, ensures_pure]
  refine ⟨fun o _ => ⟨fun _ => ⟨fun x _ => ⟨fun _ => trivial, fun hok => ?_⟩, fun _ => .inl trivial⟩, fun _ => trivial⟩,
    fun _ => .inl trivial⟩
  have hok : ok = false := by simpa using hok
  exact .inr ⟨trivial, hok, o.connectState, by simp [hok]⟩

/-- **`handleWrite`** aborts only where `::write` takes nothing or `::shutdown` fails, since it runs only where bytes wait. -/
theorem handleWrite_faults {w : World} (hw : WellFormed w) {c : ConnId} (hp : ∀ o, w.conns c = some o → Paced o) (r : Option Nat)
    (shut : Bool) :
    Ensures (TcpConnection.handleWrite c r shut) w (fun _ _ => True) fun e t => e = .useAfterFree ∨
      e = .abort ∧ (r.getD 0 = 0 ∧ .handleWrite c r ∈ t.trace ∨ shut = false ∧ ∃ st, .shutWr c st false ∈ t.trace) := by
  refine handleWrite_enters (fun o hc => (hw.buffers c o hc).2) r shut (.inl rfl) trivial ?_ ?_
  · intro o evs hc hwriting hnone hm
    have zero : r.getD 0 = 0 := hnone.resolve_right ((hp o hc).writing hwriting).2
    exact .inr ⟨rfl, .inl ⟨zero, List.mem_append_right _ hm⟩⟩
  · intro n o b _ hc _ _ _
    have self : (({ w with trace := w.trace ++ [.handleWrite c r, .written c (o.outputBuffer.readable.take n)] } : World).put c
        { o with outputBuffer := b }).conns c = some { o with outputBuffer := b } := Function.update_self ..
    refine drained_enters self (hw.objects.mirrors c o hc) shut (fun _ => trivial) fun _ => ?_
    simp only [ensures_bind (deref c), ensures_deref, ensures_ite, ensures_pure]
    refine ⟨fun _ _ => ⟨fun _ => ?_, fun _ => trivial⟩, fun _ => .inl trivial⟩
    exact (shutdown_faults c shut _).mono (fun _ _ _ => trivial) fun _ _ he => he.imp id fun he => ⟨he.1, .inr he.2⟩

/-- **Write interest is exact** in every state a run visits: a connected connection asks for `EPOLLOUT`, in its own
mask and in the registered one, iff bytes wait; no connection asks for it, of the kernel either, while none do; and
`handleWrite` does not abort over a write of nothing. -/
theorem write_interest_exact (ipPort : Name) (listenFd timerFd : Fd) (w : World) (h : Visited ipPort listenFd timerFd w)
    (c : ConnId) (o : TcpConnection) (hc : w.conns c = some o) :
    (o.connectState = .CONNECTED → (o.channel.isWriting = true ↔ 0 < o.outputBuffer.readableSize) ∧
      ∃ e, w.interest o.channel.fd = some e ∧ e.ptr = .conn c ∧
        (e.events.has EPOLLOUT = true ↔ 0 < o.outputBuffer.readableSize)) ∧
    (o.channel.isWriting = true → 0 < o.outputBuffer.readableSize) ∧
    (∀ e, w.interest o.channel.fd = some e → e.events.has EPOLLOUT = true → 0 < o.outputBuffer.readableSize) ∧
    ∀ n shut, 1 ≤ n → Ensures (TcpConnection.handleWrite c (some n) shut) w (fun _ _ => True)
      fun e _ => e = .abort → shut = false := by
  have hw := h.wellFormed
  have hp := h.paced c o hc
  have pending : 0 < o.outputBuffer.readableSize ↔ o.outputBuffer.readable ≠ [] := by
    rw [Nat.pos_iff_ne_zero, Ne, (hw.buffers c o hc).2.readableSize_eq_zero]
  have writing : o.channel.isWriting = true → 0 < o.outputBuffer.readableSize := fun hn => pending.2 (hp.writing hn).2
  refine ⟨fun hst => ?_, writing, fun e he hout => ?_, fun n shut hn => ?_⟩
  · have exact : o.channel.isWriting = true ↔ 0 < o.outputBuffer.readableSize :=
      ⟨writing, fun hn => hp.stranded hst (pending.1 hn)⟩
    have mirrors := hw.objects.mirrors c o hc
    rw [Polled.Mirrors, if_pos (hp.connected hst).1] at mirrors
    exact ⟨exact, _, mirrors, rfl, exact⟩
  · rw [hw.objects.registered_mask hc he] at hout
    exact writing hout
  · refine (handleWrite_faults hw (h.paced c) (some n) shut).mono (fun _ _ _ => trivial) fun e _ he habort => ?_
    obtain rfl | ⟨-, ⟨hzero, -⟩ | ⟨hshut, -⟩⟩ := he
    · cases habort
    · exact absurd hzero (Nat.pos_iff_ne_zero.1 hn)
    · exact hshut

/-- The UP callback sends three bytes, one goes out, `handleWrite` gets another one out, and the last one waits. -/
theorem write_interest_exact_partial :
    ∃ (w : World) (o : TcpConnection), Run step (fun _ _ => True) (World.init [] 3 4) w ∧ w.conns 0 = some o ∧
      o.connectState = .CONNECTED ∧ o.channel.isWriting = true ∧ 0 < o.outputBuffer.readableSize := by
  obtain ⟨w, run, hw⟩ := Run.reaches step (fun _ _ => True) (World.init [] 3 4)
    [.newConnection 5 (some 6) (.send 0 [1, 2, 3] (some 1) .done), .handleWrite 0 (some 1) true]
    (fun w => (w.conns 0).any (fun o => o.connectState == .CONNECTED && o.channel.isWriting) = true)
    (by decide +kernel) (by decide +kernel)
  obtain ⟨o, hc, ho⟩ := (Option.any_eq_true ..).1 hw
  obtain ⟨hst, hwriting⟩ := Bool.and_eq_true_iff.1 ho
  exact ⟨w, o, run, hc, eq_of_beq hst, hwriting, (write_interest_exact [] 3 4 w (.inl run) 0 o hc).2.1 hwriting⟩

end NetServer
