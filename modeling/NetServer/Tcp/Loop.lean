import NetServer.Tcp.Connection
/-!
# The event loop (v1.7/src/EventLoop.cpp, Epoller.cpp, Channel.cpp)

One iteration of `EventLoop::loop` is a `poll` and then one `dispatch` for every channel it reported. The
interest set decides whose pointer a report carries; the mask of a report is free, but the timerfd is readable only
while it has an unread expiration. `EventInput` is what user code and system calls do during one `handleEvents`.

| here | there |
| --- | --- |
| `setReturnEvents`, `poll` | `Epoller::poll` (`Epoller.cpp:21`), which first reads the channel it writes to |
| `handleEvents`            | `Channel::handleEvents` (`Channel.cpp:25`): `revents_` is read again before each of the three tests |
| `closeEventCallback`, `readEventCallback`, `writeEventCallback` | the callbacks set in the constructors of `TcpConnection`, `Acceptor` and `TimerQueue`; the others are empty |
| `TimerQueue.handleTimingRead` | `TimerQueue.cpp:134`, where a timer's callback is code of the whole process |
| `Act`, `step`, `Visited`  | a step of the loop, or (for properties of one connection under any order of its handlers) a direct call |
-/

namespace NetServer
open Exec

/-- What happens during one `handleEvents`, branch by branch. -/
structure EventInput where
  /-- The DOWN callback of a `handleClose` for `EPOLLHUP`. -/
  hupDown : Script := .done
  hupUser : Script := .done
  readv : Option Bytes := none
  message : Script := .done
  /-- The DOWN callback of a `handleClose` after a zero read. -/
  readDown : Script := .done
  readUser : Script := .done
  write : Option Nat := none
  shut : Bool := true
  /-- `accept4`, `::socket` and the UP callback. -/
  clientfd : Option Fd := none
  sock : Option Fd := none
  up : Script := .done
  /-- The two clock readings of `handleTimingRead`, and what the callbacks of timers do between them. -/
  curr : Int := 0
  callbacks : List (Timers.TimerPtr × Script) := []
  now : Int := 0
deriving DecidableEq, Repr

/-- What the callback of this timer does. -/
def EventInput.callback (inp : EventInput) (t : Timers.TimerPtr) : Script := (inp.callbacks.lookup t).getD .done

/-- What user code does during it. -/
def EventInput.scripts (inp : EventInput) : List Script :=
  [inp.hupDown, inp.hupUser, inp.message, inp.readDown, inp.readUser, inp.up] ++ inp.callbacks.map Prod.snd

/-- The callbacks make only calls that `may` allows. -/
def EventInput.only (may : CallKind → ConnId → Bool) (inp : EventInput) : Bool := inp.scripts.all (·.only may)

namespace TimerQueue

/-- The body of the loop over `expired`, around the callback. -/
def runExpired (curr : Int) (e : Timers.Entry) (callback : M Unit) : M Unit := do
  if ← onTimers (Timers.enterExpired curr e) then
    callback
  onTimers (Timers.leaveExpired e)

def runAllExpired (curr : Int) (callbacks : Timers.TimerPtr → M Unit) : List Timers.Entry → M Unit
  | [] => pure ()
  | e :: rest => do
    runExpired curr e (callbacks e.timer)
    runAllExpired curr callbacks rest

/-- `TimerQueue.cpp:134`. -/
def handleTimingRead (curr : Int) (callbacks : Timers.TimerPtr → M Unit) (now : Int) : M Unit := do
  let q := (← get).timerQueue
  emit (.timingRead q.timerfd.unread (q.timerList.elems.all (·.time ≠ curr + 1)))
  let expired ← onTimers do
    Timers.readTimerfd
    Timers.getExpired curr
  runAllExpired curr callbacks expired
  onTimers (Timers.rearmTimerfd now)

end TimerQueue

/-- The channel behind a `Channel*`. -/
def channelOf : ChannelPtr → M Channel
  | .acceptor => do return (← get).acceptChannel
  | .timer => do return (← get).timerChannel
  | .conn c => do return (← deref c).channel

def closeEventCallback (p : ChannelPtr) (inp : EventInput) : M Unit :=
  match p with
  | .conn c => TcpConnection.handleClose c inp.hupDown.run inp.hupUser.run
  | _ => pure ()

def readEventCallback (p : ChannelPtr) (inp : EventInput) : M Unit :=
  match p with
  | .acceptor => Acceptor.accept inp.clientfd inp.sock inp.up.run
  | .timer => TimerQueue.handleTimingRead inp.curr (fun t => (inp.callback t).run) inp.now
  | .conn c => TcpConnection.handleRead c inp.readv inp.message.run inp.readDown.run inp.readUser.run

def writeEventCallback (p : ChannelPtr) (inp : EventInput) : M Unit :=
  match p with
  | .conn c => TcpConnection.handleWrite c inp.write inp.shut
  | _ => pure ()

def handleEvents (p : ChannelPtr) (inp : EventInput) : M Unit := do
  let ch ← channelOf p
  if ch.revents.has EPOLLHUP then
    closeEventCallback p inp
  let ch ← channelOf p
  if ch.revents.has EPOLLIN then
    readEventCallback p inp
  let ch ← channelOf p
  if ch.revents.has EPOLLOUT then
    writeEventCallback p inp

/-- `channel->setReturnEvents(events)`, after `channel->returnEvents()` for the log line. -/
def setReturnEvents (p : ChannelPtr) (mask : Mask) : M Unit :=
  match p with
  | .acceptor => modify fun w => { w with acceptChannel := { w.acceptChannel with revents := mask } }
  | .timer => modify fun w => { w with timerChannel := { w.timerChannel with revents := mask } }
  | .conn c => do
    let o ← deref c
    store c { o with channel := { o.channel with revents := mask } }

/-- The loop over the reported events. -/
def pollEvents : List (Fd × Mask) → M Unit
  | [] => pure ()
  | (fd, mask) :: rest => do
    match (← get).interest fd with
    | none => throw .outside
    | some e => do
      setReturnEvents e.ptr mask
      emit (.reported e.ptr)
      modify fun w => { w with activeChannels := w.activeChannels ++ [e.ptr] }
      pollEvents rest

/-- The timerfd is reported readable only while it has an unread expiration. -/
def World.reports (w : World) (ev : Fd × Mask) : Bool :=
  !((w.interest ev.1).any (·.ptr == .timer) && ev.2.has EPOLLIN) || w.timerQueue.timerfd.unread

/-- One `epoll_wait` that reports these descriptors, each once. -/
def poll (events : List (Fd × Mask)) : M Unit := do
  let w ← get
  if w.activeChannels ≠ [] ∨ ¬ (events.map Prod.fst).Nodup ∨ ¬ events.all w.reports then
    throw .outside
  else
    pollEvents events

/-- The next turn of the range-for over `activeChannels_`. -/
def dispatch (inp : EventInput) : M Unit := do
  match (← get).activeChannels with
  | [] => throw .outside
  | p :: rest => do
    handleEvents p inp
    modify fun w => { w with activeChannels := rest }

inductive Act where
  | poll (events : List (Fd × Mask))
  | dispatch (inp : EventInput)
  /-- User code outside of every handler. -/
  | user (script : Script)
  | newConnection (sockfd : Fd) (sock : Option Fd) (up : Script)
  | send (c : ConnId) (message : Bytes) (r : Option Nat)
  | handleRead (c : ConnId) (r : Option Bytes) (message down user : Script)
  | handleWrite (c : ConnId) (r : Option Nat) (shut : Bool)
  | handleClose (c : ConnId) (down user : Script)
deriving DecidableEq, Repr

/-- The loop itself makes the step. -/
def Act.ofLoop : Act → Bool
  | .poll _ | .dispatch _ | .user _ => true
  | _ => false

def step : Act → M Unit
  | .poll events => NetServer.poll events
  | .dispatch inp => NetServer.dispatch inp
  | .user script => script.run
  | .newConnection sockfd sock up => do
    openFd sockfd
    TcpServer.newConnection sockfd sock up.run
  | .send c message r => TcpConnection.send c message r
  | .handleRead c r message down user => TcpConnection.handleRead c r message.run down.run user.run
  | .handleWrite c r shut => TcpConnection.handleWrite c r shut
  | .handleClose c down user => TcpConnection.handleClose c down.run user.run

/-- A state between two operations of a run of the server: after a step, or within one, where a callback
has made some of its calls and `outside` says that no further one comes. -/
def Visited (ipPort : Name) (listenFd timerFd : Fd) (w : World) : Prop :=
  Run step (fun _ _ => True) (World.init ipPort listenFd timerFd) w ∨
    ∃ s a, Run step (fun _ _ => True) (World.init ipPort listenFd timerFd) s ∧ step a s = .error .outside w

end NetServer
