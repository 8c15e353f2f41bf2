import NetServer.Tcp.Pointers
/-!
# Output stream integrity

What `::write` accepted on a connection, followed by what waits in `outputBuffer_`, is what was passed to
`send`. Two functions touch the stream: `send` (`send_keeps`), which writes directly only while nothing
waits, and `handleWrite` (`handleWrite_keeps`), which takes from the head what was accepted.
-/

namespace NetServer
open Exec

def Event.sent (c : ConnId) : Event → Bytes
  | .send d message => if d = c then message else []
  | _ => []

def Event.accepted (c : ConnId) : Event → Bytes
  | .written d bytes => if d = c then bytes else []
  | _ => []

/-- The messages passed to `send`, in call order. -/
def sentBytes (c : ConnId) (trace : List Event) : Bytes := trace.flatMap (Event.sent c)

/-- The bytes `::write` accepted, in order. -/
def writtenBytes (c : ConnId) (trace : List Event) : Bytes := trace.flatMap (Event.accepted c)

@[simp] theorem sentBytes_append (c : ConnId) (tr evs : List Event) :
    sentBytes c (tr ++ evs) = sentBytes c tr ++ sentBytes c evs := List.flatMap_append

@[simp] theorem writtenBytes_append (c : ConnId) (tr evs : List Event) :
    writtenBytes c (tr ++ evs) = writtenBytes c tr ++ writtenBytes c evs := List.flatMap_append

structure StreamOk (w : World) : Prop where
  allocated : ∀ c o, w.conns c = some o → c < w.nextConn
  fresh : ∀ c, w.nextConn ≤ c → sentBytes c w.trace = [] ∧ writtenBytes c w.trace = []
  buffer : ∀ c o, w.conns c = some o → o.outputBuffer.Inv
  stream : ∀ c o, w.conns c = some o → writtenBytes c w.trace ++ o.outputBuffer.readable = sentBytes c w.trace

namespace StreamOk

variable {w t : World} {c : ConnId} {o : TcpConnection}

theorem init (ipPort : Name) (listenFd timerFd : Fd) : StreamOk (World.init ipPort listenFd timerFd) where
  allocated := by intro c o h; cases h
  fresh := by intro c _; exact ⟨rfl, rfl⟩
  buffer := by intro c o h; cases h
  stream := by intro c o h; cases h

/-- A step that appends to the trace nothing of any stream and makes no object out of nothing. -/
theorem quiet (h : StreamOk w) (hnext : t.nextConn = w.nextConn)
    (hconns : ∀ d x, t.conns d = some x → ∃ o, w.conns d = some o ∧ x.outputBuffer = o.outputBuffer)
    (evs : List Event) (htrace : t.trace = w.trace ++ evs)
    (hevs : ∀ d, sentBytes d evs = [] ∧ writtenBytes d evs = []) : StreamOk t where
  allocated d x hx := by
    obtain ⟨o, ho, _⟩ := hconns d x hx
    exact hnext ▸ h.allocated d o ho
  fresh d hd := by
    obtain ⟨h1, h2⟩ := h.fresh d (hnext ▸ hd)
    obtain ⟨h3, h4⟩ := hevs d
    simp [htrace, h1, h2, h3, h4]
  buffer d x hx := by
    obtain ⟨o, ho, hb⟩ := hconns d x hx
    exact hb ▸ h.buffer d o ho
  stream d x hx := by
    obtain ⟨o, ho, hb⟩ := hconns d x hx
    obtain ⟨h3, h4⟩ := hevs d
    simpa [htrace, hb, h3, h4] using h.stream d o ho

/-- A change of one connection's own stream. -/
theorem own (h : StreamOk w) (hc : w.conns c = some o) (o' : TcpConnection)
    (hconns : t.conns = Function.update w.conns c (some o'))
    (hnext : t.nextConn = w.nextConn) (evs : List Event) (htrace : t.trace = w.trace ++ evs)
    (hevs : ∀ d, d ≠ c → sentBytes d evs = [] ∧ writtenBytes d evs = []) (hb : o'.outputBuffer.Inv)
    (hs : writtenBytes c evs ++ o'.outputBuffer.readable = o.outputBuffer.readable ++ sentBytes c evs) : StreamOk t where
  allocated d x hx := by
    rw [hconns] at hx; rw [hnext]
    obtain ⟨rfl, _⟩ | ⟨_, hx⟩ := of_update_some hx
    · exact h.allocated d o hc
    · exact h.allocated d x hx
  fresh d hd := by
    rw [hnext] at hd
    have hdc : d ≠ c := fun he => absurd (he ▸ h.allocated c o hc) (Nat.not_lt.2 hd)
    obtain ⟨h1, h2⟩ := h.fresh d hd
    obtain ⟨h3, h4⟩ := hevs d hdc
    simp [htrace, h1, h2, h3, h4]
  buffer d x hx := by
    rw [hconns] at hx
    obtain ⟨rfl, rfl⟩ | ⟨_, hx⟩ := of_update_some hx
    · exact hb
    · exact h.buffer d x hx
  stream d x hx := by
    rw [hconns] at hx
    obtain ⟨rfl, rfl⟩ | ⟨hd, hx⟩ := of_update_some hx
    · simp only [htrace, writtenBytes_append, sentBytes_append, ← h.stream d o hc, List.append_assoc, hs]
    · obtain ⟨h3, h4⟩ := hevs d hd
      simpa [htrace, h3, h4] using h.stream d x hx

/-- A write to the object that leaves `outputBuffer_` alone. -/
theorem put (h : StreamOk w) (hc : w.conns c = some o) {o' : TcpConnection}
    (hconns : t.conns = Function.update w.conns c (some o')) (ho : o'.outputBuffer = o.outputBuffer) (hnext : t.nextConn = w.nextConn)
    (htrace : t.trace = w.trace) : StreamOk t :=
  h.own hc o' hconns hnext [] (by simp [htrace]) (fun _ _ => ⟨rfl, rfl⟩) (ho ▸ h.buffer c o hc)
    (by simp [ho, sentBytes, writtenBytes])

/-- Nothing of the streams is touched. -/
theorem same (h : StreamOk w) (hconns : t.conns = w.conns) (hnext : t.nextConn = w.nextConn)
    (htrace : t.trace = w.trace) : StreamOk t :=
  h.quiet hnext (fun d x hx => ⟨x, by rwa [hconns] at hx, rfl⟩) [] (by simp [htrace]) fun _ => ⟨rfl, rfl⟩

theorem emit (h : StreamOk w) (ev : Event) (hev : ∀ d, ev.sent d = [] ∧ ev.accepted d = []) :
    StreamOk { w with trace := w.trace ++ [ev] } :=
  h.quiet rfl (fun d x hx => ⟨x, hx, rfl⟩) [ev] rfl fun d => by simp [sentBytes, writtenBytes, hev d]

end StreamOk

/-- Keeping the streams, also up to where a callback pauses. -/
abbrev KeepsStream {α : Type} (x : M α) : Prop := Keeps StreamOk (· = .outside) x

/-! ## The two writers -/

theorem deref_keeps (c : ConnId) : KeepsStream (deref c) := by
  refine .intro fun s h => ?_
  rw [ensures_deref]
  exact ⟨fun _ _ => h, fun _ he => by cases he⟩

/-- Code of the channel leaves the streams alone. -/
theorem onChannel_keeps (c : ConnId) (op : ChannelOp) : KeepsStream (onChannel c fun self => op.code self) := by
  refine .intro fun s h => ?_
  rw [ensures_onChannel]
  refine ⟨fun o hc => ?_, fun _ he => by cases he⟩
  have frame := op.code_frame (ChannelPtr.conn c) ⟨o.channel, s.interest⟩
  refine frame.mono (fun _ p _ => ?_) fun e p hf he => ?_
  · exact h.put hc rfl rfl rfl rfl
  · rcases hf with rfl | rfl <;> cases he

/-- **`send`** writes directly only while nothing waits, and keeps back what was not accepted. -/
theorem send_keeps (c : ConnId) (message : Bytes) (r : Option Nat) : KeepsStream (TcpConnection.send c message r) := by
  refine .intro fun s h => ?_
  refine send_enters (h.buffer c) message r (fun _ he => by cases he) (fun _ _ _ _ _ _ hf _ he => absurd he hf.ne_outside) ?_
  rintro o evs accepted left hc - rfl hevs
  obtain ⟨tr, htr⟩ : ∃ tr, tr = Event.send c (accepted ++ left) :: evs := ⟨_, rfl⟩
  have other : ∀ d, d ≠ c → sentBytes d tr = [] ∧ writtenBytes d tr = [] := fun d hd => by
    obtain ⟨rfl, -⟩ | ⟨rfl, -⟩ := hevs
    · simp [htr, sentBytes, writtenBytes, Event.sent, Event.accepted, Ne.symm hd]
    · simp [htr, sentBytes, writtenBytes, Event.sent, Event.accepted, Ne.symm hd]
  have own : writtenBytes c tr ++ (o.outputBuffer.readable ++ left) = o.outputBuffer.readable ++ sentBytes c tr := by
    obtain ⟨rfl, rfl⟩ | ⟨rfl, hempty⟩ := hevs
    · simp [htr, sentBytes, writtenBytes, Event.sent, Event.accepted]
    · simp [htr, sentBytes, writtenBytes, Event.sent, Event.accepted, hempty]
  rw [← htr]
  refine ⟨?_, fun b _ hb hr => ?_⟩
  · rintro rfl
    rw [List.append_nil] at own
    exact h.own hc o (by simp [← hc]) rfl tr rfl other (h.buffer c o hc) own
  · have kept : StreamOk (({ s with trace := s.trace ++ tr } : World).put c { o with outputBuffer := b }) :=
      h.own hc { o with outputBuffer := b } rfl rfl tr rfl other hb (by rw [hr]; exact own)
    rw [ensures_bind, ensures_deref]
    refine ⟨fun x _ => ?_, fun _ he => by cases he⟩
    rw [ensures_bind, ensures_emit, ensures_ite]
    have queued := kept.emit (.queued c x.connectState) fun d => ⟨rfl, rfl⟩
    exact ⟨fun _ => (onChannel_keeps c .enabledWritable).from queued, fun _ => queued⟩

theorem shutdown_keeps (c : ConnId) (ok : Bool) : KeepsStream (TcpConnection.shutdown c ok) := by
  refine .intro fun s h => ?_
  rw [TcpConnection.shutdown, ensures_bind, ensures_deref]
  refine ⟨fun o hc => ?_, fun _ he => by cases he⟩
  have ht := h.emit (.shutdown c o.connectState o.channel.isWriting) fun d => ⟨rfl, rfl⟩
  simp only [shutdownWrite, ensures_bind, ensures_emit, ensures_ite, ensures_setConnectState, ensures_modify,
    ensures_throw, ensures_pure]
  refine ⟨fun _ => ⟨fun x hx => ⟨fun _ => ?_, fun _ he => by cases he⟩, fun _ he => by cases he⟩, fun _ => ht⟩
  have down := ht.emit (.setConnectState c x.connectState .DISCONNECTING) fun d => ⟨rfl, rfl⟩
  have shut := down.emit (.shutWr c o.connectState ok) fun d => ⟨rfl, rfl⟩
  exact shut.put hx rfl rfl rfl rfl

/-- The end of `handleWrite`. -/
theorem drained_keeps (c : ConnId) (shut : Bool) : KeepsStream (do
    let o ← deref c
    if o.outputBuffer.readableSize = 0 then
      onChannel c Channel.disabledWritable
      let o ← deref c
      if o.connectState = .DISCONNECTING then
        TcpConnection.shutdown c shut) := by
  refine (deref_keeps c).bind fun o => .ite ?_ (Keeps.pure ())
  exact (onChannel_keeps c .disabledWritable).bind fun _ => (deref_keeps c).bind fun o =>
    .ite (shutdown_keeps c shut) (Keeps.pure ())

/-- **`handleWrite`** takes from the head what was accepted, and no more. -/
theorem handleWrite_keeps (c : ConnId) (r : Option Nat) (shut : Bool) :
    KeepsStream (TcpConnection.handleWrite c r shut) := by
  refine .intro fun s h => ?_
  refine handleWrite_enters (h.buffer c) r shut (fun he => by cases he) h (fun _ _ _ _ _ _ he => by cases he) ?_
  rintro n o b rfl hc - hb hleft
  refine (drained_keeps c shut).from (h.own hc { o with outputBuffer := b } rfl rfl
    [.handleWrite c (some n), .written c (o.outputBuffer.readable.take n)] rfl (fun d hd => ?_) hb ?_)
  · simp [sentBytes, writtenBytes, Event.sent, Event.accepted, Ne.symm hd]
  · simp [sentBytes, writtenBytes, Event.sent, Event.accepted, hleft]

/-! ## Everything else leaves the streams alone -/

theorem emit_keeps (ev : Event) (hev : ∀ d, ev.sent d = [] ∧ ev.accepted d = []) : KeepsStream (emit ev) :=
  .intro fun _ h => h.emit ev hev

theorem openFd_keeps (fd : Fd) : KeepsStream (openFd fd) := by
  refine .intro fun s h => ?_
  simp only [openFd, ensures_bind, ensures_get, ensures_ite, ensures_throw, ensures_set]
  exact ⟨fun _ _ => h, fun _ => h.same rfl rfl rfl⟩

theorem streamReleases : Releases (fun s t => StreamOk s → StreamOk t)
    (fun e s t => e = Fault.outside → StreamOk s → StreamOk t) where
  toComposes := composes_invariant StreamOk (· = Fault.outside)
  gone _ he := by cases he
  outside _ _ h := h
  owners _ _ _ h := h.same rfl rfl rfl
  destroyed := fun {s c o} _ h => h.quiet rfl (fun _ x hx => ⟨x, (of_update_none hx).2, rfl⟩)
    [.destroyed c (s.inBatch c) (s.registered c) (s.borrowed.contains c), .closed o.socket] rfl fun _ => ⟨rfl, rfl⟩

theorem withPtr_keeps (c : ConnId) {x : M Unit} (hx : KeepsStream x) : KeepsStream (withPtr c x) :=
  streamReleases.withPtr (fun _ _ h => h.same rfl rfl rfl) c hx

theorem withRef_keeps (c : ConnId) {x : M Unit} (hx : KeepsStream x) : KeepsStream (withRef c x) :=
  withRef_moves (composes_invariant _ _) (fun _ h => h) (fun _ _ h => h.same rfl rfl rfl) c hx

theorem onTimers_keeps {α : Type} {x : Timers.M α} (hx : Timers.Contained x) : KeepsStream (onTimers x) :=
  onTimers_moves (fun _ _ _ h => h.same rfl rfl rfl) (fun _ _ _ h => h.same rfl rfl rfl) hx

theorem construct_keeps (name : Name) (clientfd sock : Fd) : KeepsStream (TcpServer.construct name clientfd (some sock)) := by
  simp only [TcpServer.construct, Sockets.new, bind_assoc, pure_bind]
  refine (openFd_keeps sock).bind fun _ => .intro fun s h => ?_
  simp only [ensures_bind, ensures_get, ensures_set, ensures_pure, ensures_emit]
  obtain ⟨hsent, hwritten⟩ := h.fresh s.nextConn (Nat.le_refl _)
  refine StreamOk.emit (w := { s with nextConn := s.nextConn + 1, conns := _ }) ⟨fun d x hx => ?_,
    fun d hd => h.fresh d (Nat.le_of_succ_le hd), fun d x hx => ?_, fun d x hx => ?_⟩ (.constructed s.nextConn clientfd sock)
    fun d => ⟨rfl, rfl⟩
  · obtain ⟨rfl, _⟩ | ⟨_, hx⟩ := of_update_some hx
    · exact Nat.lt_succ_self _
    · exact Nat.lt_succ_of_lt (h.allocated d x hx)
  · obtain ⟨_, rfl⟩ | ⟨_, hx⟩ := of_update_some hx
    · exact Buffer.inv_new (by decide) (by decide)
    · exact h.buffer d x hx
  · obtain ⟨rfl, rfl⟩ | ⟨_, hx⟩ := of_update_some hx
    · simp [hsent, hwritten]
    · exact h.stream d x hx

theorem setReturnEvents_keeps (p : ChannelPtr) (mask : Mask) : KeepsStream (setReturnEvents p mask) := by
  refine .intro fun s h => ?_
  cases p with
  | acceptor => exact h.same rfl rfl rfl
  | timer => exact h.same rfl rfl rfl
  | conn c =>
    simp only [setReturnEvents, ensures_bind, ensures_deref, ensures_store]
    exact ⟨fun o ho => h.put ho rfl rfl rfl rfl, fun _ he => by cases he⟩

theorem setConnectState_keeps (c : ConnId) (st : ConnectState) : KeepsStream (setConnectState c st) := by
  refine Keeps.intro fun s h => ?_
  rw [ensures_setConnectState]
  refine ⟨fun o ho => ?_, fun _ he => by cases he⟩
  exact (h.emit (.setConnectState c o.connectState st) fun d => ⟨rfl, rfl⟩).put ho rfl rfl rfl rfl

theorem onInput_keeps {α : Type} (c : ConnId) {x : BufM α} (hx : Buffer.Contained x) : KeepsStream (onInput c x) := by
  refine Keeps.intro fun s h => ?_
  rw [ensures_onInput]
  refine ⟨fun o ho => ?_, fun _ he => by cases he⟩
  exact (hx o.inputBuffer).mono (fun _ b _ => h.put ho rfl rfl rfl rfl) fun _ _ hf he => absurd he hf.ne_outside

theorem streamUnits : Units (fun _ => Anywhere) (fun s t => StreamOk s → StreamOk t)
    (fun e s t => e = Fault.outside → StreamOk s → StreamOk t) where
  toComposes := composes_invariant StreamOk (· = Fault.outside)
  atHand _ _ := trivial
  deref := deref_keeps
  withPtr c _ hx := withPtr_keeps c hx
  connectionCallback _ _ := emit_keeps _ fun _ => ⟨rfl, rfl⟩
  closeCallback _ := emit_keeps _ fun _ => ⟨rfl, rfl⟩
  called _ := emit_keeps _ fun _ => ⟨rfl, rfl⟩
  comesUp c := (deref_keeps c).bind fun _ =>
    Keeps.bind (.ite (.pure (composes_invariant _ _) _) fun _ _ he => by cases he) fun _ => setConnectState_keeps c _
  goesDown c := setConnectState_keeps c _
  onChannel c op _ := onChannel_keeps c op
  removeChannel c := (deref_keeps c).bind fun _ => Keeps.bind (Moves.get (composes_invariant _ _)) fun _ =>
    (emit_keeps _ fun _ => ⟨rfl, rfl⟩).bind fun _ => onChannel_keeps c .remove
  handleWrite := handleWrite_keeps
  eraseOwn := streamReleases.eraseOwn

theorem newConnection_keeps (clientfd sock : Fd) {up : M Unit} (hu : KeepsStream up) :
    KeepsStream (do openFd clientfd; TcpServer.newConnection clientfd (some sock) up) :=
  (openFd_keeps clientfd).bind fun _ => Keeps.bind (Moves.get streamUnits.toComposes) fun _ =>
    (construct_keeps _ clientfd sock).bind fun c => streamUnits.entered streamReleases (fun _ _ h => h.same rfl rfl rfl)
      (fun _ _ h => h.same rfl rfl rfl) (fun _ he => by cases he) (fun _ => emit_keeps _ fun _ => ⟨rfl, rfl⟩) _ c hu

theorem streamParts : Parts (fun s t => StreamOk s → StreamOk t)
    (fun e s t => e = Fault.outside → StreamOk s → StreamOk t) where
  toReaders := streamUnits.readers (fun _ => emit_keeps _ fun _ => ⟨rfl, rfl⟩) onInput_keeps
    fun _ _ => emit_keeps _ fun _ => ⟨rfl, rfl⟩
  outside _ _ h := h
  send := send_keeps
  retrieve c := retrieve_moves streamUnits.toComposes (fun _ h => h) (onInput_keeps c) (fun _ => emit_keeps _ fun _ => ⟨rfl, rfl⟩)
    (deref_keeps c)
  retrieveAll c := retrieveAsString_moves streamUnits.toComposes (fun _ h => h) (onInput_keeps c) fun _ =>
    emit_keeps _ fun _ => ⟨rfl, rfl⟩
  shutdown := shutdown_keeps
  removeConnection c _ hd := (streamUnits.callRemoveConnection c (withRef_keeps c) hd).weaken fun _ _ => trivial
  keepPtr c := (streamReleases.keepPtr c).weaken fun _ _ => trivial
  dropPtr := streamReleases.dropPtr
  timer x := onTimers_keeps (Timers.contained_call x)
  accept4 _ := emit_keeps _ fun _ => ⟨rfl, rfl⟩
  refused := Calls.refused_of streamUnits.toComposes (fun _ he => by cases he) (fun _ => emit_keeps _ fun _ => ⟨rfl, rfl⟩)
    openFd_keeps
  noSocket := Calls.noSocket_of streamUnits.toComposes (fun _ he => by cases he) (emit_keeps _ fun _ => ⟨rfl, rfl⟩) openFd_keeps
  newConnection clientfd sock _ := newConnection_keeps clientfd sock

theorem report_keeps (p : ChannelPtr) (mask : Mask) : KeepsStream (do
    setReturnEvents p mask
    emit (.reported p)
    modify fun w => { w with activeChannels := w.activeChannels ++ [p] }) :=
  (setReturnEvents_keeps p mask).bind fun _ => (emit_keeps _ fun _ => ⟨rfl, rfl⟩).bind fun _ =>
    .intro fun _ h => h.same rfl rfl rfl

theorem step_stream (a : Act) : KeepsStream (step a) :=
  streamParts.step_moves streamUnits.toComposes id id id report_keeps (fun _ _ h => h.same rfl rfl rfl)
    (streamParts.timingRead onTimers_keeps fun _ _ => emit_keeps _ fun _ => ⟨rfl, rfl⟩) a

theorem Visited.streamOk {ipPort : Name} {listenFd timerFd : Fd} {w : World} (h : Visited ipPort listenFd timerFd w) :
    StreamOk w := h.invariant (.init ..) step_stream

/-- **Output stream integrity**: in every state a run visits, for every connection, the bytes `::write`
accepted and then the bytes that wait are the bytes passed to `send`. -/
theorem output_stream_intact (ipPort : Name) (listenFd timerFd : Fd) (w : World)
    (h : Visited ipPort listenFd timerFd w) (c : ConnId) (o : TcpConnection) (hc : w.conns c = some o) :
    writtenBytes c w.trace ++ o.outputBuffer.readable = sentBytes c w.trace :=
  h.streamOk.stream c o hc

/-- The UP callback sends three bytes, of which one goes out; a second message queues behind the rest, and
`handleWrite` gets one more byte out. -/
theorem output_stream_intact_partial :
    ∃ (w : World) (o : TcpConnection), Run step (fun _ _ => True) (World.init [] 3 4) w ∧ w.conns 0 = some o ∧
      o.outputBuffer.readable = [3, 4] ∧ writtenBytes 0 w.trace ++ o.outputBuffer.readable = sentBytes 0 w.trace := by
  obtain ⟨w, run, hw⟩ := Run.reaches step (fun _ _ => True) (World.init [] 3 4)
    [.newConnection 5 (some 6) (.send 0 [1, 2, 3] (some 1) .done), .send 0 [4] (some 1), .handleWrite 0 (some 1) true]
    (fun w => (w.conns 0).any (·.outputBuffer.readable == [3, 4]) = true) (by decide +kernel) (by decide +kernel)
  obtain ⟨o, hc, ho⟩ := (Option.any_eq_true ..).1 hw
  exact ⟨w, o, run, hc, eq_of_beq ho, output_stream_intact [] 3 4 w (.inl run) 0 o hc⟩

end NetServer
