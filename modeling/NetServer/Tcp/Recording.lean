import NetServer.Tcp.Objects
/-!
# What handlers and user code record

Besides what passes between a connection and user code (`send`, a read, the bytes in `inputBuffer_` and those taken from
it), handlers and user code record only routine events, neither an `accept4` nor a new connection among them. A relation between states that
silent changes and routine events respect (`Recording`) therefore holds between the states before and after every handler
and every script that returns; where a handler reads or a script sends, it has to respect that too (`RecordingAll`).
`Acceptor::accept` asks for one thing more, the new connection (`Admits`).
-/

namespace NetServer
open Exec

/-- Neither an `accept4` nor a new connection, and nothing that passes between a connection and user code. -/
def Event.routine : Event → Bool
  | .accept4 _ | .constructed .. | .send .. | .read .. | .taken .. => false
  | _ => true

/-- Nothing is recorded, no connection is new, and no input buffer changes. -/
structure Silent (s t : World) : Prop where
  trace : t.trace = s.trace
  next : t.nextConn = s.nextConn
  input : ∀ d x, t.conns d = some x → ∃ o, s.conns d = some o ∧ x.inputBuffer = o.inputBuffer

/-- A relation that silent changes and routine events respect. -/
structure Recording (R : World → World → Prop) : Prop where
  refl : ∀ s, R s s
  trans : ∀ {s t u}, R s t → R t u → R s u
  silent : ∀ {s t}, Silent s t → R s t
  event : ∀ s ev, ev.routine = true → R s { s with trace := s.trace ++ [ev] }

/-- One that reading and sending respect, too. -/
structure RecordingAll (R : World → World → Prop) : Prop extends Recording R where
  send : ∀ s c message, R s { s with trace := s.trace ++ [.send c message] }
  read : ∀ s c bytes, R s { s with trace := s.trace ++ [.read c bytes] }
  taken : ∀ s c bytes, R s { s with trace := s.trace ++ [.taken c bytes] }
  input : ∀ s c o b, s.conns c = some o → R s (s.put c { o with inputBuffer := b })

/-- `x` goes along `R`. -/
abbrev Records (R : World → World → Prop) {α : Type} (x : M α) : Prop := Moves Anywhere R (fun _ _ _ => True) x

theorem Silent.same {s t : World} (htr : t.trace = s.trace) (hn : t.nextConn = s.nextConn) (hc : t.conns = s.conns) :
    Silent s t := ⟨htr, hn, fun _ x hx => ⟨x, hc ▸ hx, rfl⟩⟩

/-- A change of one connection but for its input buffer. -/
theorem Silent.put {s t : World} {c : ConnId} {o o' : TcpConnection} (hc : s.conns c = some o)
    (ht : t.conns = Function.update s.conns c (some o')) (hb : o'.inputBuffer = o.inputBuffer) (htr : t.trace = s.trace)
    (hn : t.nextConn = s.nextConn) : Silent s t := by
  refine ⟨htr, hn, fun d x hx => ?_⟩
  rw [ht] at hx
  obtain ⟨rfl, rfl⟩ | ⟨_, hx⟩ := of_update_some hx
  · exact ⟨o, hc, hb⟩
  · exact ⟨x, hx, rfl⟩

section
variable {R : World → World → Prop} (h : Recording R)
include h

theorem records_composes : Composes R (fun (_ : Fault) _ _ => True) := ⟨h.refl, h.trans, fun _ _ => trivial⟩

theorem Records.bind {α β : Type} {x : M α} {f : α → M β} (hx : Records R x) (hf : ∀ a, Records R (f a)) :
    Records R (x >>= f) := Moves.bind (records_composes h) (fun _ h => h) hx hf

/-- Code that records nothing. -/
theorem silent_records {α : Type} {x : M α} (hx : ∀ s, Ensures x s (fun _ t => Silent s t) fun _ _ => True) :
    Records R x := fun s _ => (hx s).mono (fun _ _ ht => h.silent ht) fun _ _ ht => ht

theorem deref_records (c : ConnId) : Records R (deref c) := by
  intro s _
  rw [ensures_deref]
  exact ⟨fun _ _ => h.refl s, fun _ => trivial⟩

theorem onChannel_records (c : ConnId) (op : ChannelOp) : Records R (onChannel c fun self => op.code self) := by
  refine silent_records h fun s => ?_
  rw [ensures_onChannel]
  refine ⟨fun o hc => ?_, fun _ => trivial⟩
  exact (op.code_frame _ _).mono (fun _ _ _ => .put hc rfl rfl rfl rfl) fun _ _ _ => trivial

theorem onOutput_records {α : Type} (c : ConnId) {x : BufM α} (hx : Buffer.Contained x) : Records R (onOutput c x) := by
  refine silent_records h fun s => ?_
  rw [ensures_onOutput]
  exact ⟨fun o hc => (hx o.outputBuffer).mono (fun _ _ _ => .put hc rfl rfl rfl rfl) fun _ _ _ => trivial, fun _ => trivial⟩

theorem emit_records {ev : Event} (hev : ev.routine = true) : Records R (emit ev) := fun s _ => h.event s ev hev

theorem setConnectState_records (c : ConnId) (st : ConnectState) : Records R (setConnectState c st) := by
  intro s _
  rw [ensures_setConnectState]
  refine ⟨fun o hc => ?_, fun _ => trivial⟩
  refine h.trans (h.event s (.setConnectState c o.connectState st) rfl) (h.silent ?_)
  exact .put hc rfl rfl rfl rfl

theorem shutdown_records (c : ConnId) (ok : Bool) : Records R (TcpConnection.shutdown c ok) := by
  refine Records.bind h (deref_records h c) fun o => Records.bind h (emit_records h rfl) fun _ =>
    .ite ?_ (.pure (records_composes h) _)
  refine Records.bind h (setConnectState_records h c _) fun _ => Records.bind h (emit_records h rfl) fun _ =>
    silent_records h fun s => ?_
  simp only [shutdownWrite, ensures_ite, ensures_modify, ensures_throw]
  exact ⟨fun _ => .same rfl rfl rfl, fun _ => trivial⟩

theorem writer_records (c : ConnId) (ev : Event) (hev : ev.ofWriter c = true) (hne : ∀ message, ev ≠ .send c message) :
    Records R (emit ev) := by
  refine emit_records h ?_
  cases ev with
  | send d message =>
    obtain rfl : d = c := eq_of_beq hev
    exact absurd rfl (hne message)
  | written => rfl
  | queued => rfl
  | handleWrite => rfl
  | _ => cases hev

/-- `send`, as far as what it is told goes along. -/
theorem send_records (c : ConnId) (message : Bytes) (htold : Records R (emit (.send c message))) (r : Option Nat) :
    Records R (TcpConnection.send c message r) :=
  send_moves (records_composes h) (fun _ h => h) (fun _ => trivial) (deref_records h c) (writer_records h c)
    (onOutput_records h c) (fun op _ => onChannel_records h c op) message htold r

theorem recordsReleases : Releases R (fun _ _ _ => True) where
  toComposes := records_composes h
  gone _ := trivial
  outside _ := trivial
  owners _ _ _ := h.silent (.same rfl rfl rfl)
  destroyed {s c o} _ := by
    have told := h.event s (.destroyed c (s.inBatch c) (s.registered c) (s.borrowed.contains c)) rfl
    refine h.trans (h.trans told (h.event _ (.closed o.socket) rfl)) (h.silent ⟨by simp [World.destroyed], rfl, fun d x hx => ?_⟩)
    exact ⟨x, (of_update_none hx).2, rfl⟩

theorem withPtr_records (c : ConnId) {x : M Unit} (hx : Records R x) : Records R (withPtr c x) :=
  (recordsReleases h).withPtr (fun _ _ => h.silent (.same rfl rfl rfl)) c hx

theorem withRef_records (c : ConnId) {x : M Unit} (hx : Records R x) : Records R (withRef c x) :=
  withRef_moves (records_composes h) (fun _ h => h) (fun _ _ => h.silent (.same rfl rfl rfl)) c hx

theorem onTimers_records {α : Type} {x : Timers.M α} (hx : Timers.Contained x) : Records R (onTimers x) :=
  onTimers_moves (fun _ _ _ => h.silent (.same rfl rfl rfl)) (fun _ _ => trivial) hx

theorem recordsUnits : Units (fun _ => Anywhere) R (fun _ _ _ => True) where
  toComposes := records_composes h
  atHand _ _ := trivial
  deref := deref_records h
  withPtr c _ hx := withPtr_records h c hx
  connectionCallback _ _ := emit_records h rfl
  closeCallback _ := emit_records h rfl
  called _ := emit_records h rfl
  comesUp c := Records.bind h (deref_records h c) fun _ =>
    Records.bind h (.ite (.pure (records_composes h) _) fun _ _ => trivial) fun _ => setConnectState_records h c _
  goesDown c := setConnectState_records h c _
  onChannel c op _ := onChannel_records h c op
  removeChannel c := Records.bind h (deref_records h c) fun _ => Records.bind h (.get (records_composes h)) fun _ =>
    Records.bind h (emit_records h rfl) fun _ => onChannel_records h c .remove
  handleWrite c := handleWrite_moves (records_composes h) (fun _ h => h) (fun _ => trivial) (deref_records h c)
    (writer_records h c) (onOutput_records h c) (fun op _ => onChannel_records h c op) (shutdown_records h c)
  eraseOwn := (recordsReleases h).eraseOwn

/-! ## User code -/

/-- A call on a connection that neither sends nor takes from the input. -/
def CallKind.routine : CallKind → ConnId → Bool
  | .send, _ | .echo, _ | .retrieve, _ => false
  | _, _ => true

/-- **User code** that neither sends nor takes from the input goes along. -/
theorem recordsCalls : UserCalls CallKind.routine R (fun _ _ _ => True) where
  toComposes := records_composes h
  outside _ := trivial
  send _ _ _ hmay := by cases hmay
  echo _ _ hmay := by cases hmay
  retrieve _ _ hmay := by cases hmay
  shutdown c ok _ := (shutdown_records h c ok).weaken fun _ _ => trivial
  removeConnection c _ _ hd := ((recordsUnits h).callRemoveConnection c (withRef_records h c) hd).weaken fun _ _ => trivial
  keepPtr c _ := ((recordsReleases h).keepPtr c).weaken fun _ _ => trivial
  dropPtr c _ := (recordsReleases h).dropPtr c
  timer x := onTimers_records h (Timers.contained_call x)

end

section
variable {R : World → World → Prop} (h : RecordingAll R)
include h

theorem onInput_records {α : Type} (c : ConnId) {x : BufM α} (hx : Buffer.Contained x) : Records R (onInput c x) := by
  intro s _
  rw [ensures_onInput]
  exact ⟨fun o hc => (hx o.inputBuffer).mono (fun _ b _ => h.input s c o b hc) fun _ _ _ => trivial, fun _ => trivial⟩

theorem taken_records (c : ConnId) (bytes : Bytes) : Records R (emit (.taken c bytes)) := fun s _ => h.taken s c bytes

theorem sendAny_records (c : ConnId) (message : Bytes) (r : Option Nat) : Records R (TcpConnection.send c message r) :=
  send_records h.toRecording c message (fun s _ => h.send s c message) r

/-- **Every handler** goes along, reading included. -/
theorem recordsReaders : Readers (fun _ => Anywhere) R (fun _ _ _ => True) :=
  (recordsUnits h.toRecording).readers (fun _ => emit_records h.toRecording rfl) (onInput_records h)
    fun c bytes s _ => h.read s c bytes

/-- **User code** does. -/
theorem recordsAnyCalls : UserCalls anyCall R (fun _ _ _ => True) where
  toComposes := records_composes h.toRecording
  outside _ := trivial
  send c message r _ := (sendAny_records h c message r).weaken fun _ _ => trivial
  echo c r _ := by
    have takes := retrieveAsString_moves (records_composes h.toRecording) (fun _ h => h) (onInput_records h c) (taken_records h c)
    exact (Records.bind h.toRecording takes fun s => sendAny_records h c s r).weaken fun _ _ => trivial
  retrieve c len _ := (retrieve_moves (records_composes h.toRecording) (fun _ h => h) (onInput_records h c) (taken_records h c)
    (deref_records h.toRecording c) len).weaken fun _ _ => trivial
  shutdown c ok _ := (recordsCalls h.toRecording).shutdown c ok rfl
  removeConnection c _ _ hd := (recordsCalls h.toRecording).removeConnection c rfl hd
  keepPtr c _ := (recordsCalls h.toRecording).keepPtr c rfl
  dropPtr c _ := (recordsCalls h.toRecording).dropPtr c rfl
  timer := (recordsCalls h.toRecording).timer

theorem script_records (x : Script) : Records R x.run := (recordsAnyCalls h).script x x.only_anyCall

end

/-! ## The loop -/

/-- `R` goes along with the new connection: the state after `new TcpConnection` on what `accept4` returned. -/
def Admits (R : World → World → Prop) : Prop :=
  ∀ (s t : World) (clientfd sock : Fd), t.conns = Function.update s.conns s.nextConn (some (s.admittedConn clientfd sock)) →
    t.nextConn = s.nextConn + 1 →
    t.trace = s.trace ++ [.accept4 (some clientfd)] ++ [.constructed s.nextConn clientfd sock] → R s t

section
variable {R : World → World → Prop} (h : Recording R)
include h

/-- `newConnection` after `new TcpConnection`. -/
theorem enter_records (name : Name) (c : ConnId) {up : M Unit} (hu : Records R up) : Records R (withPtr c do
    TcpServer.bumpConnIdx
    TcpConnection.connectionEstablished c up
    emit (.established c)
    assignEntry name c) :=
  (recordsUnits h).entered (recordsReleases h) (fun _ _ => h.silent (.same rfl rfl rfl)) (fun _ _ => h.silent (.same rfl rfl rfl))
    (fun _ => trivial) (fun _ => emit_records h rfl) name c hu

/-- `Acceptor::accept`, and `newConnection` on what it returns. -/
theorem accept_records (hnew : Admits R) (clientfd sock : Option Fd) {up : M Unit} (hu : Records R up) :
    Records R (Acceptor.accept clientfd sock up) := by
  intro s _
  cases clientfd with
  | none => trivial
  | some fd =>
    simp only [Acceptor.accept, TcpServer.newConnection, TcpServer.construct, openFd, bind_assoc, pure_bind, ensures_bind (emit _),
      ensures_bind get, ensures_bind (assert _), ensures_bind (ite ..), ensures_emit, ensures_get, ensures_ite, ensures_throw,
      ensures_set, ensures_assert]
    refine ⟨fun _ => trivial, fun _ => ⟨fun _ => ?_, fun _ => trivial⟩⟩
    cases sock with
    | none => trivial
    | some sock =>
      simp only [Sockets.new, openFd, bind_assoc, pure_bind, ensures_bind get, ensures_bind (set _), ensures_bind (emit _),
        ensures_bind (ite ..), ensures_emit, ensures_get, ensures_ite, ensures_throw, ensures_set]
      refine ⟨fun _ => trivial, fun _ => ?_⟩
      have enters := enter_records h (TcpServer.connectionName s.ipPort s.nextConnIdx) s.nextConn hu
      refine (enters _ trivial).mono (fun _ t ht => h.trans (hnew s _ fd sock ?_ ?_ ?_) ht) fun _ _ _ => trivial
      · rfl
      · rfl
      · rfl

theorem report_records (p : ChannelPtr) (mask : Mask) : Records R (do
    setReturnEvents p mask
    emit (.reported p)
    modify fun w => { w with activeChannels := w.activeChannels ++ [p] }) := by
  refine Records.bind h (silent_records h fun s => ?_) fun _ => Records.bind h (emit_records h rfl) fun _ =>
    silent_records h fun _ => .same rfl rfl rfl
  cases p with
  | acceptor => exact .same rfl rfl rfl
  | timer => exact .same rfl rfl rfl
  | conn c =>
    simp only [setReturnEvents, ensures_bind, ensures_deref, ensures_store]
    exact ⟨fun o hc => .put hc rfl rfl rfl rfl, fun _ => trivial⟩

theorem poll_records (events : List (Fd × Mask)) : Records R (poll events) :=
  Records.bind h (.get (records_composes h)) fun _ => .ite (fun _ _ => trivial)
    (pollEvents_moves (records_composes h) (fun _ => trivial) (report_records h) events)

/-- One dispatch, from what its scripts do and, where the channel is a connection's, its read. -/
theorem dispatch_records (hnew : Admits R) (inp : EventInput) (hdown : Records R inp.hupDown.run)
    (huser : Records R inp.hupUser.run) (hup : Records R inp.up.run) (htimers : ∀ t, Records R (inp.callback t).run) (s : World)
    (hread : ∀ c, s.activeChannels.head? = some (.conn c) →
      Records R (TcpConnection.handleRead c inp.readv inp.message.run inp.readDown.run inp.readUser.run)) :
    Ensures (dispatch inp) s (fun _ t => R s t) fun _ _ => True := by
  simp only [dispatch, ensures_bind, ensures_get]
  split
  · trivial
  · rename_i p rest hactive
    have read : Moves (AtHandPtr (fun _ => Anywhere) p) R (fun _ _ _ => True) (readEventCallback p inp) := by
      cases p with
      | acceptor => exact accept_records h hnew _ _ hup
      | timer =>
        exact timingRead_moves (records_composes h) (fun _ h => h) (onTimers_records h) (fun _ _ => emit_records h rfl) htimers
          inp.curr inp.now
      | conn c => exact hread c (by rw [hactive]; rfl)
    have atHand : AtHandPtr (fun _ => Anywhere) p s := by cases p <;> trivial
    rw [ensures_bind]
    exact ((recordsUnits h).handlers.handleEvents p inp hdown huser read s atHand).mono
      (fun _ _ ht => h.trans ht (h.silent (.same rfl rfl rfl))) fun _ _ _ => trivial

end

/-- **Every step of the loop** goes along. -/
theorem step_records {R : World → World → Prop} (h : RecordingAll R) (hnew : Admits R) (a : Act) (ha : a.ofLoop = true) :
    Records R (step a) := by
  have scripts := script_records h
  cases a with
  | poll events => exact poll_records h.toRecording events
  | dispatch inp =>
    exact fun s _ => dispatch_records h.toRecording hnew inp (scripts _) (scripts _) (scripts _) (fun _ => scripts _) s fun c _ =>
      (recordsReaders h).handleRead c _ (scripts _) (scripts _) (scripts _)
  | user script => exact scripts script
  | _ => cases ha

end NetServer
