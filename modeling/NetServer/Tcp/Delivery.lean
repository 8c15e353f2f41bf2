import NetServer.Buffer.Layout
import NetServer.Tcp.Interest
import NetServer.Tcp.Stream
/-!
# Pending output gets out

While bytes wait on a connection it asks for `EPOLLOUT`, so that the kernel can report it again and again. Each such turn of
the loop takes from the head what `::write` accepts (`turn_delivers`); after as many turns as it takes nothing waits, all that
was ever passed to `send` is written, and the connection no longer asks (`backlog_delivered`).

| here | there |
| --- | --- |
| `turns fd ns` | `EPOLLOUT` is reported on `fd` as often as `ns` is long, and the `::write`s accept up to these numbers of bytes |
-/

namespace NetServer
open Exec

def turns (fd : Fd) (ns : List Nat) : List Act :=
  ns.flatMap fun n => [.poll [(fd, EPOLLOUT)], .dispatch { write := some n, shut := true }]

/-- From `s` to `t` the first `n` of the bytes that waited on `c` have gone out, and no other connection has changed. -/
structure Delivers (c : ConnId) (n : Nat) (o x : TcpConnection) (s t : World) : Prop where
  conn : t.conns c = some x
  fd : x.channel.fd = o.channel.fd
  left : x.outputBuffer.readable = o.outputBuffer.readable.drop n
  writing : x.channel.isWriting = true ↔ n < o.outputBuffer.readable.length
  written : writtenBytes c t.trace = writtenBytes c s.trace ++ o.outputBuffer.readable.take n
  sent : sentBytes c t.trace = sentBytes c s.trace
  others : ∀ d ≠ c, t.conns d = s.conns d

section
variable {c : ConnId} {m n : Nat} {o x y : TcpConnection} {s t u : World}

theorem Delivers.trans (h : Delivers c m o x s t) (h' : Delivers c n x y t u) : Delivers c (m + n) o y s u where
  conn := h'.conn
  fd := h'.fd.trans h.fd
  left := by rw [h'.left, h.left, List.drop_drop]
  writing := by
    rw [h'.writing, h.left, List.length_drop]
    omega
  written := by rw [h'.written, h.written, h.left, List.append_assoc, List.take_add]
  sent := h'.sent.trans h.sent
  others d hd := (h'.others d hd).trans (h.others d hd)

/-- No byte of what waits is passed over. -/
theorem Delivers.none (hc : s.conns c = some o) (hw : o.channel.isWriting = true ↔ 0 < o.outputBuffer.readable.length) :
    Delivers c 0 o o s s :=
  ⟨hc, rfl, rfl, hw, by simp, rfl, fun _ _ => rfl⟩

end

section
variable {w : World} {c : ConnId} {o : TcpConnection}

/-- `shutdown()`, where `::shutdown` succeeds, touches none of this. -/
theorem shutdown_delivers {n : Nat} {x : TcpConnection} {s t : World} (h : Delivers c n o x s t) :
    Ensures (TcpConnection.shutdown c true) t
      (fun _ u => u.activeChannels = t.activeChannels ∧ ∃ y, Delivers c n o y s u) fun _ _ => False := by
  have told : ∀ evs, (∀ ev ∈ evs, ev.sent c = [] ∧ ev.accepted c = []) →
      writtenBytes c (t.trace ++ evs) = writtenBytes c t.trace ∧ sentBytes c (t.trace ++ evs) = sentBytes c t.trace := by
    intro evs hevs
    have accepted : writtenBytes c evs = [] := List.flatMap_eq_nil_iff.2 fun ev hev => (hevs ev hev).2
    have sent : sentBytes c evs = [] := List.flatMap_eq_nil_iff.2 fun ev hev => (hevs ev hev).1
    rw [writtenBytes_append, sentBytes_append, accepted, sent, List.append_nil, List.append_nil]
    exact ⟨rfl, rfl⟩
  simp only [TcpConnection.shutdown, shutdownWrite, ensures_bind, ensures_deref, ensures_emit, ensures_ite,
    ensures_setConnectState, ensures_modify, ensures_throw, ensures_pure, List.append_assoc]
  refine ⟨fun y hy => ?_, fun hn => by simp [h.conn] at hn⟩
  obtain rfl : x = y := Option.some.inj (h.conn.symm.trans hy)
  refine ⟨fun _ => ⟨fun y hy => ⟨fun _ => ?_, fun hn => hn trivial⟩, fun hn => by simp [h.conn] at hn⟩, fun _ => ?_⟩
  · obtain rfl : x = y := Option.some.inj (h.conn.symm.trans hy)
    have same := told [.shutdown c x.connectState x.channel.isWriting, .setConnectState c x.connectState .DISCONNECTING,
      .shutWr c x.connectState true] (by simp [Event.sent, Event.accepted])
    exact ⟨rfl, { x with connectState := .DISCONNECTING }, Function.update_self .., h.fd, h.left, h.writing,
      same.1.trans h.written, same.2.trans h.sent, fun d hd => (Function.update_of_ne hd ..).trans (h.others d hd)⟩
  · have same := told [.shutdown c x.connectState x.channel.isWriting] (by simp [Event.sent, Event.accepted])
    exact ⟨trivial, x, h.conn, h.fd, h.left, h.writing, same.1.trans h.written, same.2.trans h.sent, h.others⟩

/-- `handleWrite` up to where the accepted bytes have left the buffer, when bytes wait and `::write` accepts some. -/
theorem handleWrite_takes (hb : o.outputBuffer.Inv) (hc : w.conns c = some o) (writing : o.channel.isWriting = true)
    (pending : o.outputBuffer.readable ≠ []) {n : Nat} (hn : 0 < n) (shut : Bool) {Q : Unit → World → Prop}
    {E : Fault → World → Prop}
    (took : ∀ b, b.Inv → b.readable = o.outputBuffer.readable.drop n → b.writeIndex ≤ o.outputBuffer.writeIndex → Ensures (do
        let o ← deref c
        if o.outputBuffer.readableSize = 0 then
          onChannel c Channel.disabledWritable
          let o ← deref c
          if o.connectState = .DISCONNECTING then
            TcpConnection.shutdown c shut)
      (({ w with trace := w.trace ++ [.handleWrite c (some n), .written c (o.outputBuffer.readable.take n)] } : World).put c
        { o with outputBuffer := b }) Q E) :
    Ensures (TcpConnection.handleWrite c (some n) shut) w Q E := by
  have live : ∀ {t : World}, t.conns = w.conns → deref c t = .ok o t := fun ht => by simp [deref, ht, hc]
  have same : w.put c o = w := by rw [World.put, ← hc, Function.update_eq_self]
  have some_taken : (o.outputBuffer.readable.take n).length ≠ 0 := by
    have := List.length_pos_of_ne_nil pending
    rw [List.length_take]
    omega
  rw [TcpConnection.handleWrite, ensures_bind, ensures_ok (live rfl), if_pos writing, ensures_bind, ensures_onOutput]
  refine ⟨fun x hx => ?_, fun hnone => by simp [hc] at hnone⟩
  obtain rfl : o = x := Option.some.inj (hc.symm.trans hx)
  refine (Buffer.peek_spec hb).mono ?_ fun _ _ hf => hf.elim
  rintro _ _ ⟨rfl, rfl⟩
  rw [same]
  simp only [write, bind_assoc, pure_bind, ensures_bind (emit _), ensures_emit, List.append_assoc, List.cons_append,
    List.nil_append]
  rw [if_pos (by omega), ensures_bind, ensures_onOutput]
  refine ⟨fun x hx => ?_, fun hnone => by simp [hc] at hnone⟩
  obtain rfl : o = x := Option.some.inj (hc.symm.trans hx)
  refine (Buffer.retrieve_within hb _).mono ?_ fun _ _ hf => hf.elim
  rintro _ b ⟨hbi, hbr, hwi⟩
  refine took b hbi ?_ hwi
  rw [hbr, Int.toNat_natCast, List.length_take, List.drop_eq_drop_iff]
  omega

/-- **`handleWrite`** while bytes wait and `::write` accepts some. -/
theorem handleWrite_delivers (hw : WellFormed w) (hc : w.conns c = some o) (hp : Paced o) (writing : o.channel.isWriting = true)
    {n : Nat} (hn : 0 < n) :
    Ensures (TcpConnection.handleWrite c (some n) true) w
      (fun _ t => t.activeChannels = w.activeChannels ∧ ∃ x, Delivers c n o x w t) fun _ _ => False := by
  have pending := (hp.writing writing).2
  refine handleWrite_takes (hw.buffers c o hc).2 hc writing pending hn true fun b hb hleft _ => ?_
  have empty : b.readableSize = 0 ↔ o.outputBuffer.readable.length ≤ n := by
    rw [hb.readableSize_eq_zero, hleft, List.drop_eq_nil_iff]
  have self : (({ w with trace := w.trace ++ [.handleWrite c (some n), .written c (o.outputBuffer.readable.take n)] } : World).put c
      { o with outputBuffer := b }).conns c = some { o with outputBuffer := b } := Function.update_self ..
  have told : writtenBytes c (w.trace ++ [.handleWrite c (some n), .written c (o.outputBuffer.readable.take n)]) =
        writtenBytes c w.trace ++ o.outputBuffer.readable.take n ∧
      sentBytes c (w.trace ++ [.handleWrite c (some n), .written c (o.outputBuffer.readable.take n)]) = sentBytes c w.trace := by
    simp [writtenBytes, sentBytes, Event.accepted, Event.sent]
  refine drained_enters self (hw.objects.mirrors c o hc) true (fun hleft' => ?_) fun hdrained => ?_
  · have more : n < o.outputBuffer.readable.length := Nat.lt_of_not_le (mt empty.2 hleft')
    exact ⟨rfl, _, self, rfl, hleft, ⟨fun _ => more, fun _ => writing⟩, told.1, told.2, fun d hd => Function.update_of_ne hd ..⟩
  · have all := empty.1 hdrained
    have silent : (o.channel.set (· &&& ~~~EPOLLOUT)).isWriting = false := Mask.has_and_not_self _ _
    have writes : (o.channel.set (· &&& ~~~EPOLLOUT)).isWriting = true ↔ n < o.outputBuffer.readable.length := by
      rw [silent]
      exact ⟨fun hf => absurd hf Bool.false_ne_true, fun hlt => absurd all (Nat.not_le_of_lt hlt)⟩
    have settles : ∀ {m : World} {x : TcpConnection}, Delivers c n o x w m → m.activeChannels = w.activeChannels →
        Ensures (do
          let o ← deref c
          if o.connectState = .DISCONNECTING then
            TcpConnection.shutdown c true) m
          (fun _ t => t.activeChannels = w.activeChannels ∧ ∃ x, Delivers c n o x w t) fun _ _ => False := by
      intro m x done active
      rw [ensures_bind, ensures_deref]
      refine ⟨fun y hy => ?_, fun hnone => by simp [done.conn] at hnone⟩
      rw [ensures_ite]
      refine ⟨fun _ => ?_, fun _ => ⟨active, _, done⟩⟩
      exact (shutdown_delivers done).mono (fun _ _ ht => ⟨ht.1.trans active, ht.2⟩) fun _ _ => id
    refine settles ⟨Function.update_self .., rfl, hleft, writes, told.1, told.2, fun d hd => ?_⟩ rfl
    exact (Function.update_of_ne hd ..).trans (Function.update_of_ne hd ..)

/-! ## The loop -/

/-- Between two iterations of the loop. -/
abbrev Turning (ipPort : Name) (listenFd timerFd : Fd) (w : World) : Prop :=
  Run step (fun _ a => a.ofLoop = true) (World.init ipPort listenFd timerFd) w ∧ w.activeChannels = []

/-- `poll` reports the connection, and nothing else. -/
theorem poll_conn (idle : w.activeChannels = []) (hc : w.conns c = some o) {e : EpollEvent ChannelPtr}
    (he : w.interest o.channel.fd = some e) (hptr : e.ptr = .conn c) (mask : Mask) :
    poll [(o.channel.fd, mask)] w = .ok () { w.put c { o with channel := { o.channel with revents := mask } } with
      trace := w.trace ++ [.reported (.conn c)], activeChannels := [.conn c] } := by
  simp [poll, World.reports, pollEvents, setReturnEvents, deref, emit, store, World.put, idle, he, hptr, hc]

/-- The dispatch of a connection that was reported writable is a `handleWrite`. -/
theorem dispatch_writable (active : w.activeChannels = [.conn c]) (hc : w.conns c = some o)
    (hr : o.channel.revents = EPOLLOUT) (inp : EventInput) {Q : Unit → World → Prop} {E : Fault → World → Prop}
    (h : Ensures (TcpConnection.handleWrite c inp.write inp.shut) w (fun _ t => Q () { t with activeChannels := [] }) E) :
    Ensures (dispatch inp) w Q E := by
  have live : channelOf (.conn c) w = .ok o.channel w := by simp [channelOf, deref, hc]
  have hup : EPOLLOUT.has EPOLLHUP = false := by decide
  have readable : EPOLLOUT.has EPOLLIN = false := by decide
  have writable : EPOLLOUT.has EPOLLOUT = true := by decide
  simp only [dispatch, handleEvents, writeEventCallback, ensures_bind, ensures_get, active, ensures_ok live, hr, hup, readable,
    writable, Bool.false_eq_true, if_false, if_true, ensures_modify]
  exact h

/-- **One turn**: the descriptor is reported writable and `handleWrite` is called, with a `::shutdown` that succeeds. -/
theorem turn_delivers {ipPort : Name} {listenFd timerFd : Fd} (h : Turning ipPort listenFd timerFd w) (hc : w.conns c = some o)
    (writing : o.channel.isWriting = true) {n : Nat} (hn : 0 < n) :
    Ensures (steps step [.poll [(o.channel.fd, EPOLLOUT)], .dispatch { write := some n, shut := true }]) w
      (fun _ t => Turning ipPort listenFd timerFd t ∧ ∃ x, Delivers c n o x w t) fun _ _ => False := by
  obtain ⟨run, idle⟩ := h
  have visited : ∀ {t}, Run step (fun _ a => a.ofLoop = true) (World.init ipPort listenFd timerFd) t →
      Visited ipPort listenFd timerFd t := fun ht => .inl (ht.weaken fun _ _ _ => trivial)
  have paced := (visited run).paced c o hc
  have mirrors := (visited run).wellFormed.objects.mirrors c o hc
  rw [Polled.Mirrors, if_pos (paced.writing writing).1] at mirrors
  have polled := poll_conn idle hc mirrors rfl EPOLLOUT
  obtain ⟨p, hp⟩ : ∃ p : World, p = { w.put c { o with channel := { o.channel with revents := EPOLLOUT } } with
    trace := w.trace ++ [.reported (.conn c)], activeChannels := [.conn c] } := ⟨_, rfl⟩
  rw [← hp] at polled
  have reported : Run step (fun _ a => a.ofLoop = true) (World.init ipPort listenFd timerFd) p :=
    run.step (a := .poll [(o.channel.fd, EPOLLOUT)]) rfl polled
  have self : p.conns c = some { o with channel := { o.channel with revents := EPOLLOUT } } := by
    rw [hp]
    exact Function.update_self ..
  have waits : o.channel.isWriting = true ↔ 0 < o.outputBuffer.readable.length :=
    ⟨fun _ => List.length_pos_of_ne_nil (paced.writing writing).2, fun _ => writing⟩
  have before : Delivers c 0 o { o with channel := { o.channel with revents := EPOLLOUT } } w p := by
    refine ⟨self, rfl, rfl, waits, ?_, ?_, fun d hd => ?_⟩
    · simp [hp, writtenBytes, Event.accepted]
    · simp [hp, sentBytes, Event.sent]
    · rw [hp]
      exact Function.update_of_ne hd ..
  have writes := handleWrite_delivers (visited reported).wellFormed self ((visited reported).paced c _ self) writing hn
  have handled : Ensures (dispatch { write := some n, shut := true }) p
      (fun _ t => t.activeChannels = [] ∧ ∃ x, Delivers c n o x w t) fun _ _ => False := by
    refine dispatch_writable (by rw [hp]) self rfl _ (writes.mono ?_ fun _ _ => id)
    rintro _ t ⟨-, x, hx⟩
    have whole := before.trans hx
    rw [Nat.zero_add] at whole
    exact ⟨rfl, x, { whole with }⟩
  have onward : Ensures (step (.dispatch { write := some n, shut := true })) p
      (fun _ t => Run step (fun _ a => a.ofLoop = true) (World.init ipPort listenFd timerFd) t) fun _ _ => True :=
    reported.next rfl
  simp only [steps, ensures_bind, ensures_pure]
  refine (ensures_ok polled).2 ?_
  exact (Ensures.and handled onward).mono (fun _ t ht => ⟨⟨ht.2, ht.1.1⟩, ht.1.2⟩) fun _ _ he => he.1

/-- Several turns, as many as it takes or fewer. -/
theorem turns_deliver {ipPort : Name} {listenFd timerFd : Fd} {ns : List Nat} (h : Turning ipPort listenFd timerFd w)
    (hc : w.conns c = some o) (writing : o.channel.isWriting = true) (some_taken : ∀ n ∈ ns, 0 < n)
    (needed : ns.dropLast.sum < o.outputBuffer.readable.length) :
    Ensures (steps step (turns o.channel.fd ns)) w
      (fun _ t => Turning ipPort listenFd timerFd t ∧ ∃ x, Delivers c ns.sum o x w t) fun _ _ => False := by
  induction ns generalizing w o with
  | nil => exact ⟨h, o, .none hc ⟨fun _ => needed, fun _ => writing⟩⟩
  | cons n ns ih =>
    rw [turns, List.flatMap_cons, steps_append, ensures_bind]
    refine (turn_delivers h hc writing (some_taken n List.mem_cons_self)).mono ?_ fun _ _ => id
    rintro _ t ⟨turning, x, hx⟩
    rw [← turns, ← hx.fd]
    by_cases hns : ns = []
    · subst hns
      exact ⟨turning, x, by simpa using hx⟩
    · rw [List.dropLast_cons_of_ne_nil hns, List.sum_cons] at needed
      refine (ih turning hx.conn (hx.writing.2 (by omega)) (fun m hm => some_taken m (List.mem_cons_of_mem _ hm)) ?_).mono ?_
        fun _ _ => id
      · rw [hx.left, List.length_drop]
        omega
      · rintro _ u ⟨turning, y, hy⟩
        exact ⟨turning, y, by rw [List.sum_cons]; exact hx.trans hy⟩

/-- **Pending output gets out**: between two iterations of the loop, let a connection ask for `EPOLLOUT`. The kernel reports it
turn by turn, each `::write` accepts at least one byte, and `::shutdown` returns 0 where it is called; these turns return,
touch no other connection, and write what waits from the head, `ns.sum` bytes of it. After the turn that reaches the end all
that was ever passed to `send` is written, nothing waits, and the connection no longer asks. -/
theorem backlog_delivered (ipPort : Name) (listenFd timerFd : Fd) (w : World) (h : Turning ipPort listenFd timerFd w)
    (c : ConnId) (o : TcpConnection) (hc : w.conns c = some o) (writing : o.channel.isWriting = true) (ns : List Nat)
    (some_taken : ∀ n ∈ ns, 0 < n) (needed : ns.dropLast.sum < o.outputBuffer.readable.length) :
    Ensures (steps step (turns o.channel.fd ns)) w (fun _ t => ∃ x, Delivers c ns.sum o x w t ∧
      (o.outputBuffer.readable.length ≤ ns.sum →
        writtenBytes c t.trace = sentBytes c t.trace ∧ x.outputBuffer.readable = [] ∧ x.channel.isWriting = false))
      fun _ _ => False := by
  refine (turns_deliver h hc writing some_taken needed).mono ?_ fun _ _ => id
  rintro _ t ⟨⟨run, -⟩, x, hx⟩
  refine ⟨x, hx, fun all => ?_⟩
  have visited : Visited ipPort listenFd timerFd t := .inl (run.weaken fun _ _ _ => trivial)
  have empty : x.outputBuffer.readable = [] := by
    rw [hx.left]
    exact List.drop_eq_nil_of_le all
  have stream := visited.streamOk.stream c x hx.conn
  rw [empty, List.append_nil] at stream
  refine ⟨stream, empty, ?_⟩
  cases hn : x.channel.isWriting with
  | false => rfl
  | true => exact absurd (hx.writing.1 hn) (Nat.not_lt.2 all)

/-- Of three bytes one went out at once; two turns get the others out. -/
theorem backlog_delivered_two : ∃ (w : World) (o : TcpConnection), Turning [] 3 4 w ∧ w.conns 0 = some o ∧
    o.outputBuffer.readable = [2, 3] ∧
    Ensures (steps step (turns o.channel.fd [1, 5])) w (fun _ t => ∃ x, Delivers 0 [1, 5].sum o x w t ∧
      (o.outputBuffer.readable.length ≤ [1, 5].sum →
        writtenBytes 0 t.trace = sentBytes 0 t.trace ∧ x.outputBuffer.readable = [] ∧ x.channel.isWriting = false))
      fun _ _ => False := by
  obtain ⟨w, run, hw, idle⟩ := Run.reaches step (fun _ a => a.ofLoop = true) (World.init [] 3 4)
    [.poll [(3, EPOLLIN)], .dispatch { clientfd := some 5, sock := some 6, up := .send 0 [1, 2, 3] (some 1) .done }]
    (fun w => (w.conns 0).any (fun o => o.channel.isWriting && o.outputBuffer.readable == [2, 3]) = true ∧ w.activeChannels = [])
    (by decide +kernel) (by decide +kernel)
  obtain ⟨o, hc, ho⟩ := (Option.any_eq_true ..).1 hw
  obtain ⟨writing, hout⟩ := Bool.and_eq_true_iff.1 ho
  refine ⟨w, o, ⟨run, idle⟩, hc, eq_of_beq hout, ?_⟩
  refine backlog_delivered [] 3 4 w ⟨run, idle⟩ 0 o hc writing [1, 5] (by decide) ?_
  rw [eq_of_beq hout]
  decide

end

end NetServer
