import NetServer.Buffer.Model
import NetServer.Reactor.Channel
import NetServer.Timer.Batch
/-!
# The state of a v1.7 server process

One event loop, one `TcpServer` and its connections, with the kernel objects behind them. A
`TcpConnection*` is a `ConnId`, an allocation number that is never used twice, so a pointer to a
destroyed object is told from one to a later object at the same address.

| here | there |
| --- | --- |
| `World.conns`, `nextConn`            | the heap of `TcpConnection` objects; `none` once destroyed |
| `World.frames`                       | the `shared_ptr` temporaries, parameters and locals of the frames on the stack |
| `World.userRefs`                     | copies of a `TcpConnectionPtr` that user code keeps |
| `World.borrowed`                     | the `const TcpConnectionPtr&` that running calls of `removeConnection` got from user code; they own nothing, and no function reads them |
| `World.tcpConnections`, `nextConnIdx`, `ipPort` | the members of `TcpServer` |
| `World.timerQueue`                   | the member of `EventLoop`, with its timers and the timerfd |
| `World.activeChannels`               | the part of `activeChannels_` the range-for of `EventLoop::loop` has not finished, the channel being handled first |
| `World.interest`, `openFds`, `shutWr` | the kernel: the epoll interest set, the open descriptors, the `SHUT_WR`s issued on the open socket behind a descriptor |
| `Event`, `World.trace`               | what is recorded of a run; no function reads it |

The peer and local addresses are only printed and are left out.
-/

namespace NetServer
open Exec

abbrev ConnId := Nat
abbrev Name := List Char

inductive ConnectState where
  | CONNECTED | CONNECTING | DISCONNECTED | DISCONNECTING
deriving DecidableEq, Repr

/-- A `Channel*` of the loop: the acceptor's, the timer queue's, or that of a connection. -/
inductive ChannelPtr where
  | acceptor | timer
  | conn (c : ConnId)
deriving DecidableEq, Repr

/-- `handleEvents` calls one of the three callbacks. -/
def Channel.callsBack (ch : Channel) : Bool :=
  ch.revents.has EPOLLHUP || ch.revents.has EPOLLIN || ch.revents.has EPOLLOUT

structure TcpConnection where
  name : Name
  /-- The descriptor `Sockets()` opened for `socket_`; the client's own is `channel.fd`. -/
  socket : Fd
  channel : Channel
  connectState : ConnectState
  inputBuffer : Buffer
  outputBuffer : Buffer
deriving DecidableEq, Repr

inductive Event where
  /-- `send(message)` was called. -/
  | send (c : ConnId) (message : Bytes)
  /-- `::write` accepted `bytes` on the connection's client descriptor. -/
  | written (c : ConnId) (bytes : Bytes)
  /-- `readv` returned `bytes` on it. -/
  | read (c : ConnId) (bytes : Bytes)
  /-- `connectionCallback_` was called, with `connected()` as it was then. -/
  | connectionCallback (c : ConnId) (connected : Bool)
  | messageCallback (c : ConnId)
  | closeCallback (c : ConnId)
  /-- User code took `bytes` out of `inputBuffer_`. -/
  | taken (c : ConnId) (bytes : Bytes)
  /-- `shutdown()` was called in this `connectState_`, with `isWriting()` as it was then. -/
  | shutdown (c : ConnId) (st : ConnectState) (writing : Bool)
  /-- The last `TcpConnectionPtr` went, and the connection with it: was its channel still in the unfinished
  part of `activeChannels_`, or in the interest set, or was a call of `removeConnection` still running on it? -/
  | destroyed (c : ConnId) (inBatch registered inUse : Bool)
  /-- `setConnectState(st)`, with `connectState_` as it was. -/
  | setConnectState (c : ConnId) (was st : ConnectState)
  /-- `shutdown()` passed its test in the state `was`; did `::shutdown(SHUT_WR)` on `socket_` return 0? -/
  | shutWr (c : ConnId) (was : ConnectState) (ok : Bool)
  /-- `send` kept bytes back, in this `connectState_`. -/
  | queued (c : ConnId) (st : ConnectState)
  /-- The `::write` of `handleWrite`, with its result. -/
  | handleWrite (c : ConnId) (r : Option Nat)
  /-- `channel_->remove()`, with `isNoneEvent()` and with whether the channel was still to be dispatched. -/
  | remove (c : ConnId) (idle waiting : Bool)
  /-- User code called `TcpServer::removeConnection`. -/
  | removeConnection (c : ConnId)
  /-- `accept4`, with its result. -/
  | accept4 (r : Option Fd)
  /-- `::socket` or `::setsockopt` returned `-1` in the constructor of `Sockets`. -/
  | socketFailed
  /-- `new TcpConnection` on the descriptor `accept4` returned; `sock` is its own. -/
  | constructed (c : ConnId) (clientfd sock : Fd)
  /-- `connectionEstablished` has returned. -/
  | established (c : ConnId)
  | closed (fd : Fd)
  /-- `Epoller::poll` reported the channel. -/
  | reported (p : ChannelPtr)
  /-- `handleTimingRead` was called: had the timerfd an unread expiration, and was no timer due the nanosecond after
  the clock reading? -/
  | timingRead (unread exact : Bool)
deriving DecidableEq, Repr

structure World where
  conns : ConnId → Option TcpConnection
  nextConn : ConnId
  frames : List ConnId
  userRefs : ConnId → Nat
  borrowed : List ConnId
  tcpConnections : List (Name × ConnId)
  nextConnIdx : Nat
  ipPort : Name
  acceptChannel : Channel
  timerChannel : Channel
  timerQueue : Timers.TimerQueue
  activeChannels : List ChannelPtr
  interest : Interest ChannelPtr
  openFds : Fd → Bool
  shutWr : Fd → Nat
  trace : List Event

abbrev M := EStateM Fault World

namespace World

/-- After `TcpServer::start()`: the acceptor and the timer queue are registered for reading, and there
are no connections. -/
def init (ipPort : Name) (listenFd timerFd : Fd) : World where
  conns _ := none
  nextConn := 0
  frames := []
  userRefs _ := 0
  borrowed := []
  tcpConnections := []
  nextConnIdx := 1
  ipPort := ipPort
  acceptChannel := ⟨listenFd, EPOLLIN, 0, .ADDED⟩
  timerChannel := ⟨timerFd, EPOLLIN, 0, .ADDED⟩
  timerQueue := .init
  activeChannels := []
  interest f := if f = listenFd then some ⟨EPOLLIN, .acceptor⟩ else if f = timerFd then some ⟨EPOLLIN, .timer⟩ else none
  openFds f := f == listenFd || f == timerFd
  shutWr _ := 0
  trace := []

/-- Write the object behind a `TcpConnection*`. -/
def put (w : World) (c : ConnId) (o : TcpConnection) : World := { w with conns := Function.update w.conns c (some o) }

def inMap (w : World) (c : ConnId) : Bool := w.tcpConnections.any (·.2 == c)

def owned (w : World) (c : ConnId) : Bool := w.inMap c || 0 < w.userRefs c || w.frames.contains c

def inBatch (w : World) (c : ConnId) : Bool := w.activeChannels.contains (.conn c)

/-- The interest set holds the channel of the connection. -/
def registered (w : World) (c : ConnId) : Bool :=
  match w.conns c with
  | some o => (w.interest o.channel.fd).any (·.ptr == .conn c)
  | none => false

/-- The channel of the connection is to be dispatched after the one being handled, and will call back. -/
def waiting (w : World) (c : ConnId) : Bool :=
  w.activeChannels.tail.contains (.conn c) && (w.conns c).any (·.channel.callsBack)

end World

/-! ## Access to objects -/

def emit (ev : Event) : M Unit := modify fun w => { w with trace := w.trace ++ [ev] }

/-- The object behind a `TcpConnection*`. -/
def deref (c : ConnId) : M TcpConnection := do
  match (← get).conns c with
  | some o => pure o
  | none => throw .useAfterFree

def store (c : ConnId) (o : TcpConnection) : M Unit := modify (·.put c o)

def setConnectState (c : ConnId) (st : ConnectState) : M Unit := do
  let o ← deref c
  emit (.setConnectState c o.connectState st)
  store c { o with connectState := st }

/-- A call on `*channel_`. -/
def onChannel (c : ConnId) (x : ChannelPtr → ChanM ChannelPtr Unit) : M Unit := do
  let o ← deref c
  zoom (fun w => ⟨o.channel, w.interest⟩)
    (fun p w => { w.put c { o with channel := p.channel } with interest := p.interest }) (x (.conn c))

/-- A call on `inputBuffer_`. -/
def onInput {α : Type} (c : ConnId) (x : BufM α) : M α := do
  let o ← deref c
  zoom (fun _ => o.inputBuffer) (fun b w => w.put c { o with inputBuffer := b }) x

/-- A call on `timerQueue_`. -/
def onTimers {α : Type} (x : Timers.M α) : M α := zoom World.timerQueue (fun q w => { w with timerQueue := q }) x

/-- A call on `outputBuffer_`. -/
def onOutput {α : Type} (c : ConnId) (x : BufM α) : M α := do
  let o ← deref c
  zoom (fun _ => o.outputBuffer) (fun b w => w.put c { o with outputBuffer := b }) x

section
variable {α : Type} {c : ConnId} {w : World} {Q : α → World → Prop} {E : Fault → World → Prop}

@[simp] theorem ensures_emit {ev : Event} {Q : Unit → World → Prop} :
    Ensures (emit ev) w Q E ↔ Q () { w with trace := w.trace ++ [ev] } := Iff.rfl

@[simp] theorem ensures_store {o : TcpConnection} {Q : Unit → World → Prop} :
    Ensures (store c o) w Q E ↔ Q () (w.put c o) := Iff.rfl

@[simp] theorem ensures_deref {Q : TcpConnection → World → Prop} :
    Ensures (deref c) w Q E ↔ (∀ o, w.conns c = some o → Q o w) ∧ (w.conns c = none → E .useAfterFree w) := by
  simp only [deref, ensures_bind, ensures_get]
  cases w.conns c <;> simp

@[simp] theorem ensures_setConnectState {st : ConnectState} {Q : Unit → World → Prop} :
    Ensures (setConnectState c st) w Q E ↔
      (∀ o, w.conns c = some o → Q () { w.put c { o with connectState := st } with
        trace := w.trace ++ [.setConnectState c o.connectState st] }) ∧ (w.conns c = none → E .useAfterFree w) := by
  simp [setConnectState, World.put]

@[simp] theorem ensures_onChannel {x : ChannelPtr → ChanM ChannelPtr Unit} {Q : Unit → World → Prop} :
    Ensures (onChannel c x) w Q E ↔
      (∀ o, w.conns c = some o → Ensures (x (.conn c)) ⟨o.channel, w.interest⟩
        (fun _ p => Q () { w.put c { o with channel := p.channel } with interest := p.interest })
        (fun e p => E e { w.put c { o with channel := p.channel } with interest := p.interest })) ∧
        (w.conns c = none → E .useAfterFree w) := by
  simp [onChannel]

@[simp] theorem ensures_onInput {x : BufM α} :
    Ensures (onInput c x) w Q E ↔
      (∀ o, w.conns c = some o → Ensures x o.inputBuffer (fun a b => Q a (w.put c { o with inputBuffer := b }))
        (fun e b => E e (w.put c { o with inputBuffer := b }))) ∧ (w.conns c = none → E .useAfterFree w) := by
  simp [onInput]

@[simp] theorem ensures_onOutput {x : BufM α} :
    Ensures (onOutput c x) w Q E ↔
      (∀ o, w.conns c = some o → Ensures x o.outputBuffer (fun a b => Q a (w.put c { o with outputBuffer := b }))
        (fun e b => E e (w.put c { o with outputBuffer := b }))) ∧ (w.conns c = none → E .useAfterFree w) := by
  simp [onOutput]

@[simp] theorem ensures_onTimers {x : Timers.M α} :
    Ensures (onTimers x) w Q E ↔ Ensures x w.timerQueue (fun a q => Q a { w with timerQueue := q })
      fun e q => E e { w with timerQueue := q } := by
  simp [onTimers]

end

/-! ## Descriptors -/

/-- The kernel hands out `fd`, a number not in use. -/
def openFd (fd : Fd) : M Unit := do
  let w ← get
  if w.openFds fd then
    throw .outside
  else
    set { w with openFds := Function.update w.openFds fd true, shutWr := Function.update w.shutWr fd 0 }

/-- `Sockets()` with its `setReuseAddr` (`Sockets.cpp:8-23`): `none` is a `-1` of `::socket` or `::setsockopt`. -/
def Sockets.new (r : Option Fd) : M Fd := do
  match r with
  | none => do
    emit .socketFailed
    throw .assertFailed
  | some fd => do
    openFd fd
    pure fd

/-- `::close(fd)`; the kernel drops the descriptor from the interest set. -/
def closeFd (fd : Fd) : M Unit := do
  emit (.closed fd)
  modify fun w => { w with openFds := Function.update w.openFds fd false, interest := Function.update w.interest fd none }

/-- `Sockets::shutdownWrite` (`Sockets.cpp:52`); `ok` is whether `::shutdown` returned 0. -/
def shutdownWrite (fd : Fd) (ok : Bool) : M Unit := do
  if ok then
    modify fun w => { w with shutWr := Function.update w.shutWr fd (w.shutWr fd + 1) }
  else
    throw .abort

/-- `::write` on the client descriptor: `none` is an error, `some n` accepts `n` bytes or all there are. -/
def write (c : ConnId) (r : Option Nat) (bytes : Bytes) : M Int := do
  match r with
  | none => pure (-1)
  | some n => do
    emit (.written c (bytes.take n))
    pure (bytes.take n).length

/-! ## Ownership -/

/-- `~TcpConnection`: `channel_` goes without a word to the epoller, `~Sockets` closes its own descriptor. -/
def destroy (c : ConnId) : M Unit := do
  let o ← deref c
  let w ← get
  emit (.destroyed c (w.inBatch c) (w.registered c) (w.borrowed.contains c))
  modify fun w => { w with conns := Function.update w.conns c none }
  closeFd o.socket

/-- A `TcpConnectionPtr` has gone; the last one takes the object with it. -/
def release (c : ConnId) : M Unit := do
  let w ← get
  if w.owned c then pure () else destroy c

/-- Run `x` while a frame holds a `TcpConnectionPtr`. -/
def withPtr (c : ConnId) (x : M Unit) : M Unit := do
  let _ ← deref c
  modify fun w => { w with frames := c :: w.frames }
  x
  modify fun w => { w with frames := w.frames.erase c }
  release c

/-- Run `x` while a call has a `const TcpConnectionPtr&`. -/
def withRef (c : ConnId) (x : M Unit) : M Unit := do
  modify fun w => { w with borrowed := c :: w.borrowed }
  x
  modify fun w => { w with borrowed := w.borrowed.erase c }

/-- `tcpConnections_.erase(name)`. -/
def eraseEntry (name : Name) : M Unit := do
  let w ← get
  match w.tcpConnections.lookup name with
  | none => pure ()
  | some c => do
    set { w with tcpConnections := w.tcpConnections.filter (·.1 != name) }
    release c

/-- `tcpConnections_[name] = connection`. -/
def assignEntry (name : Name) (c : ConnId) : M Unit := do
  let w ← get
  set { w with tcpConnections := (name, c) :: w.tcpConnections.filter (·.1 != name) }
  match w.tcpConnections.lookup name with
  | none => pure ()
  | some old => release old

end NetServer
