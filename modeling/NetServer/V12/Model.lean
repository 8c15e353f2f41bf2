import NetServer.Reactor.Channel
/-!
# The first reactor (v1.2/src/Channel.h, Epoller.cpp, EventLoop.cpp)

`Epoller` owns the channels, in the `std::map` from descriptors; `poll` collects pointers to the map's nodes, and `loop`
calls the channels through them, while their callbacks insert and erase nodes. A node is its allocation number in the heap
`nodes`, so that a pointer to an erased node is told from one to a later node with the same key.

| here | there |
| --- | --- |
| `ReadCallback`       | the two lambdas that are registered (`Epoller.cpp:18`, `:90`) |
| `Channel.fd`         | `fd_`; `none` after `Channel()`, which leaves it uninitialised |
| `clients`            | the descriptors that `accept4` returned and that are open; `others` are all further open ones |
| `interest`           | the interest set of `epollFd_`; closing a descriptor takes it out |
| `activeChannels`     | what `loop` has still to dispatch of `activeChannels_` |
| `defaulted`          | the keys for which `operator[]` constructed a `Channel` |
-/

namespace NetServer.V12
open Exec

inductive ReadCallback where
  | acceptConnection
  | onMessage (clientSock : Fd)
deriving DecidableEq, Repr

structure Channel where
  fd : Option Fd
  readCallback : Option ReadCallback
  closeCallback : Option ReadCallback
  revents : Mask
deriving DecidableEq, Repr

/-- `Channel(int fd)`. -/
def Channel.new (fd : Fd) : Channel := ⟨some fd, none, none, 0⟩

/-- `Channel()`. -/
def Channel.default : Channel := ⟨none, none, none, 0⟩

structure Epoller where
  serverSock : Fd
  others : Fd → Bool
  nodes : Nat → Option Channel
  next : Nat
  channelsMap : Fd → Option Nat
  clients : Fd → Bool
  interest : Fd → Bool
  activeChannels : List Nat
  sent : List (Fd × Bytes)
  defaulted : List Fd

abbrev M := EStateM Fault Epoller

/-- What the kernel does in one handler. -/
structure Kernel where
  /-- `accept4`; `none` is `-1`. -/
  accepted : Option Fd := none
  /-- `recv`; `none` is `-1`. -/
  received : Option Bytes := none
deriving DecidableEq, Repr

def BufferSize : Nat := 4096

/-! ## `std::map` -/

/-- A new node. -/
def emplace (fd : Fd) (channel : Channel) : M Nat := do
  let s ← get
  set { s with
    nodes := Function.update s.nodes s.next (some channel)
    next := s.next + 1
    channelsMap := Function.update s.channelsMap fd (some s.next) }
  pure s.next

/-- `channelsMap.insert(std::make_pair(fd, channel))` does not overwrite. -/
def insert (fd : Fd) (channel : Channel) : M Unit := do
  match (← get).channelsMap fd with
  | some _ => pure ()
  | none =>
    let _ ← emplace fd channel

/-- `&channelsMap[fd]`. -/
def subscript (fd : Fd) : M Nat := do
  match (← get).channelsMap fd with
  | some node => pure node
  | none =>
    modify fun s => { s with defaulted := s.defaulted ++ [fd] }
    emplace fd .default

def erase (fd : Fd) : M Unit := do
  let s ← get
  match s.channelsMap fd with
  | none => pure ()
  | some node =>
    set { s with nodes := Function.update s.nodes node none, channelsMap := Function.update s.channelsMap fd none }

/-- `*channel`. -/
def deref (node : Nat) : M Channel := do
  match (← get).nodes node with
  | some channel => pure channel
  | none => throw .useAfterFree

/-! ## `Epoller` -/

def registerFd (fd : Fd) (callback : ReadCallback) : M Unit := do
  modify fun s => { s with interest := Function.update s.interest fd true }
  insert fd { Channel.new fd with readCallback := some callback }

/-- Before the constructor, which is given a listening socket. -/
def unbuilt (serverSock : Fd) (others : Fd → Bool) : Epoller where
  serverSock := serverSock
  others := Function.update others serverSock true
  nodes := fun _ => none
  next := 0
  channelsMap := fun _ => none
  clients := fun _ => false
  interest := fun _ => false
  activeChannels := []
  sent := []
  defaulted := []

/-- `Epoller(socket)`. -/
def construct : M Unit := do registerFd (← get).serverSock .acceptConnection

def setRevents (node : Nat) (events : Mask) : M Unit := do
  let channel ← deref node
  modify fun s => { s with nodes := Function.update s.nodes node (some { channel with revents := events }) }

/-- The loop of `poll` over what `epoll_wait` reported. -/
def collect : List (Fd × Mask) → M Unit
  | [] => pure ()
  | (fd, events) :: rest => do
    let channel ← subscript fd
    setRevents channel events
    modify fun s => { s with activeChannels := s.activeChannels ++ [channel] }
    collect rest

/-- `activeChannels_.clear()`, and `poll`: `epoll_wait` reports descriptors of the interest set, each at most once. -/
def poll (events : List (Fd × Mask)) : M Unit := do
  let s ← get
  if s.activeChannels ≠ [] ∨ ¬ (events.map Prod.fst).Nodup ∨ ∃ e ∈ events, s.interest e.1 = false then throw .outside
  collect events

def close (fd : Fd) : M Unit := modify fun s =>
  { s with clients := Function.update s.clients fd false, interest := Function.update s.interest fd false }

def onMessage (fd : Fd) (k : Kernel) : M Unit := do
  match k.received.map (·.take (BufferSize - 1)) with
  | none | some [] =>
    erase fd
    close fd
  | some data => modify fun s => { s with sent := s.sent ++ [(fd, data)] }

/-- `Sockets::accept`: a descriptor that `accept4` returns was not open. -/
def accept (accepted : Option Fd) : M Fd := do
  match accepted with
  | none => throw .assertFailed
  | some clientFd =>
    let s ← get
    if s.clients clientFd = true ∨ s.others clientFd = true then throw .outside
    set { s with clients := Function.update s.clients clientFd true }
    assert (clientFd > 0)
    pure clientFd

def acceptConnection (k : Kernel) : M Unit := do
  let clientSock ← accept k.accepted
  registerFd clientSock (.onMessage clientSock)

/-! ## `Channel` and `EventLoop` -/

def invoke (callback : Option ReadCallback) (k : Kernel) : M Unit :=
  match callback with
  | none => pure ()
  | some .acceptConnection => acceptConnection k
  | some (.onMessage clientSock) => onMessage clientSock k

def handleEvents (node : Nat) (k : Kernel) : M Unit := do
  let channel ← deref node
  if !channel.revents.has EPOLLIN then invoke channel.closeCallback k
  let channel ← deref node
  if channel.revents.has EPOLLIN then invoke channel.readCallback k

inductive Act where
  | poll (events : List (Fd × Mask))
  /-- The next channel of `activeChannels_` is called. -/
  | dispatch (k : Kernel)
deriving DecidableEq, Repr

/-- One iteration of `loop` is a `poll` and as many dispatches as it reports. -/
def step : Act → M Unit
  | .poll events => poll events
  | .dispatch k => do
    match (← get).activeChannels with
    | [] => throw .outside
    | node :: rest =>
      modify fun s => { s with activeChannels := rest }
      handleEvents node k

end NetServer.V12
