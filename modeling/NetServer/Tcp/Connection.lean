import NetServer.Buffer.Inv
import NetServer.Tcp.World
/-!
# `TcpConnection` and `TcpServer` (v1.7/src/TcpConnection.cpp, TcpServer.cpp, Acceptor.cpp)

User callbacks are code of the whole process: a handler takes what its callbacks do as arguments. Results
of system calls are arguments too: `::write` as in `write`, `::readv` as in `Buffer.readFd`, `::shutdown`
as whether it returned 0, `accept4` and `::socket` as the descriptor they return, if they do.

| here | there |
| --- | --- |
| `connectionCallback`, `closeCallback` | `connectionCallback_(shared_from_this())`, `closeCallback_(shared_from_this())` with `closeCallback_ = TcpServer::removeConnection` |
| `TcpServer.newConnection`, `removeConnection` | `TcpServer.cpp:30-53` |
| `Acceptor.accept` | `Acceptor::accept` with `Sockets::accept`, whose `assert` leaves the `else` branch dead |
-/

namespace NetServer
open Exec

namespace TcpConnection

/-- `connectionCallback_(shared_from_this())`. -/
def connectionCallback (c : ConnId) (user : M Unit) : M Unit := do
  let o ← deref c
  withPtr c do
    emit (.connectionCallback c (o.connectState == .CONNECTED))
    user

/-- `TcpConnection.cpp:125`. -/
def shutdown (c : ConnId) (ok : Bool) : M Unit := do
  let o ← deref c
  emit (.shutdown c o.connectState o.channel.isWriting)
  if o.connectState ≠ .CONNECTED ∧ !o.channel.isWriting then
    setConnectState c .DISCONNECTING
    emit (.shutWr c o.connectState ok)
    shutdownWrite o.socket ok

/-- `TcpConnection.cpp:134`. -/
def send (c : ConnId) (message : Bytes) (r : Option Nat) : M Unit := do
  let o ← deref c
  emit (.send c message)
  let nwrote ←
    if !o.channel.isWriting ∧ o.outputBuffer.readableSize = 0 then do
      let n ← write c r message
      pure (if n ≥ 0 then n else 0)
    else
      pure 0
  assert (nwrote ≥ 0)
  if nwrote.toNat < message.length then
    onOutput c (Buffer.append (message.drop nwrote.toNat))
    let o ← deref c
    emit (.queued c o.connectState)
    if !o.channel.isWriting then
      onChannel c Channel.enabledWritable

/-- `TcpConnection.cpp:80`. -/
def handleWrite (c : ConnId) (r : Option Nat) (shut : Bool) : M Unit := do
  let o ← deref c
  if o.channel.isWriting then
    let bytes ← onOutput c Buffer.peek
    emit (.handleWrite c r)
    let n ← write c r bytes
    if n > 0 then
      onOutput c (Buffer.retrieve n.toNat)
      let o ← deref c
      if o.outputBuffer.readableSize = 0 then
        onChannel c Channel.disabledWritable
        let o ← deref c
        if o.connectState = .DISCONNECTING then
          shutdown c shut
    else
      throw .abort

/-- `TcpConnection.cpp:43`. -/
def connectionEstablished (c : ConnId) (up : M Unit) : M Unit := do
  let o ← deref c
  assert (o.connectState = .CONNECTING)
  setConnectState c .CONNECTED
  onChannel c Channel.enabledReadable
  connectionCallback c up

/-- `channel_->remove()`. -/
def removeChannel (c : ConnId) : M Unit := do
  let o ← deref c
  let w ← get
  emit (.remove c o.channel.isNoneEvent (w.waiting c))
  onChannel c Channel.remove

/-- `TcpConnection.cpp:53`. -/
def connectionDestroy (c : ConnId) (down : M Unit) : M Unit := do
  let o ← deref c
  if o.connectState = .CONNECTED then
    setConnectState c .DISCONNECTED
    onChannel c Channel.diabledAllEvents
    connectionCallback c down
  removeChannel c

end TcpConnection

namespace TcpServer

/-- `TcpServer.cpp:48`. -/
def removeConnection (c : ConnId) (down : M Unit) : M Unit := do
  let o ← deref c
  eraseEntry o.name
  TcpConnection.connectionDestroy c down

/-- `ipPort_ + "-" + std::to_string(nextConnIdx_)`. -/
def connectionName (ipPort : Name) (idx : Nat) : Name := ipPort ++ '-' :: Nat.toDigits 10 idx

/-- `new TcpConnection(...)` on the client descriptor, with a `new Sockets()`. -/
def construct (name : Name) (clientfd : Fd) (sock : Option Fd) : M ConnId := do
  let sock ← Sockets.new sock
  let w ← get
  let o : TcpConnection :=
    { name := name, socket := sock, channel := Channel.new clientfd, connectState := .CONNECTING,
      inputBuffer := Buffer.new Buffer.InitSize, outputBuffer := Buffer.new Buffer.InitSize }
  set { w with conns := Function.update w.conns w.nextConn (some o), nextConn := w.nextConn + 1 }
  emit (.constructed w.nextConn clientfd sock)
  pure w.nextConn

/-- `++nextConnIdx_`, an `int`. -/
def bumpConnIdx : M Unit := do
  let w ← get
  if w.nextConnIdx ≥ 2 ^ 31 - 1 then
    throw .overflow
  else
    set { w with nextConnIdx := w.nextConnIdx + 1 }

/-- `TcpServer.cpp:30`. -/
def newConnection (sockfd : Fd) (sock : Option Fd) (up : M Unit) : M Unit := do
  let w ← get
  let name := connectionName w.ipPort w.nextConnIdx
  let c ← construct name sockfd sock
  withPtr c do
    bumpConnIdx
    TcpConnection.connectionEstablished c up
    emit (.established c)
    assignEntry name c

end TcpServer

namespace TcpConnection

/-- `closeCallback_(shared_from_this())`. -/
def closeCallback (c : ConnId) (user : M Unit) : M Unit := do
  let _ ← deref c
  withPtr c do
    emit (.closeCallback c)
    TcpServer.removeConnection c user

/-- `TcpConnection.cpp:115`; `user` is what a DOWN callback out of `connectionDestroy` would do. -/
def handleClose (c : ConnId) (down user : M Unit) : M Unit := do
  setConnectState c .DISCONNECTED
  onChannel c Channel.diabledAllEvents
  connectionCallback c down
  closeCallback c user

/-- `messageCallback_(shared_from_this(), &inputBuffer_)`. -/
def messageCallback (c : ConnId) (user : M Unit) : M Unit := do
  let _ ← deref c
  withPtr c do
    emit (.messageCallback c)
    user

/-- `TcpConnection.cpp:66`. -/
def handleRead (c : ConnId) (r : Option Bytes) (message down user : M Unit) : M Unit := do
  let n ← onInput c (Buffer.readFd r)
  emit (.read c ((r.getD []).take n.toNat))
  if n > 0 then
    messageCallback c message
  else if n = 0 then
    handleClose c down user

end TcpConnection

/-- `Acceptor.cpp:25`; `none` is a failed `accept4`. -/
def Acceptor.accept (clientfd sock : Option Fd) (up : M Unit) : M Unit := do
  emit (.accept4 clientfd)
  match clientfd with
  | none => throw .assertFailed
  | some fd => do
    openFd fd
    assert (fd > 0)
    TcpServer.newConnection fd sock up

/-! ## User code -/

namespace TcpConnection

/-- `buf->retrieveAsString()` on `inputBuffer_`. -/
def retrieveAsString (c : ConnId) : M Bytes := do
  let s ← onInput c Buffer.retrieveAllAsString
  emit (.taken c s)
  pure s

/-- `buf->retrieve(len)` on `inputBuffer_`. -/
def retrieve (c : ConnId) (len : Nat) : M Unit := do
  let o ← deref c
  onInput c (Buffer.retrieve len)
  emit (.taken c (o.inputBuffer.readable.take len))

end TcpConnection

/-- What a user callback does, call by call; `down` is what the DOWN callback does if the
`removeConnection` before it makes one. -/
inductive Script where
  | done
  | send (c : ConnId) (message : Bytes) (r : Option Nat) (next : Script)
  /-- `conn->send(buf->retrieveAsString())`. -/
  | echo (c : ConnId) (r : Option Nat) (next : Script)
  /-- `buf->retrieve(len)`. -/
  | retrieve (c : ConnId) (len : Nat) (next : Script)
  | shutdown (c : ConnId) (ok : Bool) (next : Script)
  | removeConnection (c : ConnId) (down next : Script)
  /-- Keep a copy of a `TcpConnectionPtr`. -/
  | keep (c : ConnId) (next : Script)
  /-- Let go of one. -/
  | drop (c : ConnId) (next : Script)
  /-- A call on the timers of the loop, or an expiry of the timerfd. -/
  | timer (x : Timers.Call) (next : Script)
deriving DecidableEq, Repr

inductive CallKind where
  | send | echo | retrieve | shutdown | removeConnection | keep | drop
deriving DecidableEq, Repr

/-- The calls of the script on connections are calls that `may` allows. -/
def Script.only (may : CallKind → ConnId → Bool) : Script → Bool
  | .done => true
  | .send c _ _ next => may .send c && next.only may
  | .echo c _ next => may .echo c && next.only may
  | .retrieve c _ next => may .retrieve c && next.only may
  | .shutdown c _ next => may .shutdown c && next.only may
  | .removeConnection c down next => may .removeConnection c && down.only may && next.only may
  | .keep c next => may .keep c && next.only may
  | .drop c next => may .drop c && next.only may
  | .timer _ next => next.only may

/-- The script makes no call on timers. -/
def Script.timerless : Script → Bool
  | .done => true
  | .send _ _ _ next | .echo _ _ next | .retrieve _ _ next | .shutdown _ _ next | .keep _ next | .drop _ next => next.timerless
  | .removeConnection _ down next => down.timerless && next.timerless
  | .timer _ _ => false

/-- User code has a pointer to call through: one it keeps, or one a frame passed to it. -/
def userPtr (c : ConnId) : M Unit := do
  let w ← get
  if 0 < w.userRefs c ∨ c ∈ w.frames then pure () else throw .outside

def keepPtr (c : ConnId) : M Unit :=
  modify fun w => { w with userRefs := Function.update w.userRefs c (w.userRefs c + 1) }

def dropPtr (c : ConnId) : M Unit := do
  let w ← get
  if w.userRefs c = 0 then
    throw .outside
  else
    set { w with userRefs := Function.update w.userRefs c (w.userRefs c - 1) }
    release c

def Script.run : Script → M Unit
  | .done => pure ()
  | .send c message r next => do
    userPtr c
    TcpConnection.send c message r
    next.run
  | .echo c r next => do
    userPtr c
    let s ← TcpConnection.retrieveAsString c
    TcpConnection.send c s r
    next.run
  | .retrieve c len next => do
    userPtr c
    TcpConnection.retrieve c len
    next.run
  | .shutdown c ok next => do
    userPtr c
    TcpConnection.shutdown c ok
    next.run
  | .removeConnection c down next => do
    userPtr c
    withRef c do
      emit (.removeConnection c)
      TcpServer.removeConnection c down.run
    next.run
  | .keep c next => do
    userPtr c
    keepPtr c
    next.run
  | .drop c next => do
    dropPtr c
    next.run
  | .timer x next => do
    onTimers x.run
    next.run

end NetServer
