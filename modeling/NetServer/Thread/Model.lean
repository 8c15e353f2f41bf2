import NetServer.Lib.Exec
/-!
# `Thread` (v1.7/src/Thread.h, Thread.cpp)

Two parties share the object: the owner, who constructs it, calls `start`, `join` and the destructor, and the worker,
which is in `run` as soon as `thread_` is initialised. Every step is one access to what they share; a step that cannot be
made yet (`mutex_` is held, the joined thread has not ended) stops with `disabled`, and the step of the other party comes
first. Every access to a member stops with `notAlive` before the member is initialised and after it is destroyed.

| here | there |
| --- | --- |
| `F`, `threadFunc`         | the callables, and `threadFunc_` (`none`: an empty `std::function`); a callable that throws ends the process |
| `joinable`                | `thread_.joinable()` |
| `holder`                  | who has locked `mutex_` |
| `blocked signalled`       | the worker is in `cv_.wait`, without the lock; `signalled` if a `notify_one` came since |
| `calls`, `completed`      | what the worker has called, and what has returned |
| `startReturned`, `joinReturned` | which calls have returned |
-/

namespace NetServer
open Exec

/-- The members of `Thread`. -/
inductive Member where
  | started | joined | name | threadFunc | thread | pthreadId | cv | mutex
deriving DecidableEq, Repr

/-- In the order of their declarations, in which they are initialised. -/
def Member.declared : List Member := [.started, .joined, .name, .threadFunc, .thread, .pthreadId, .cv, .mutex]

inductive Party where
  | owner
  | worker
deriving DecidableEq, Repr

/-- Where the owner is. -/
inductive Owner where
  /-- In the constructor: these members are still to be initialised. -/
  | initialising (ms : List Member)
  /-- In no call. -/
  | idle
  /-- In `start`, before it locks `mutex_`, sets `started_`, notifies, unlocks. -/
  | lock | set | notify | unlock
  /-- In `thread_.join()`. -/
  | joining
  /-- In the destructor, after its body: these members are still to be destroyed. -/
  | destroying (ms : List Member)
deriving DecidableEq, Repr

/-- Where the worker is. -/
inductive Worker where
  /-- There is no thread yet. -/
  | absent
  /-- In `run`, before it locks `mutex_`. -/
  | begin
  /-- Before the test of `started_`, with the lock. -/
  | test
  /-- Before `cv_.wait(lock)`. -/
  | wait
  | blocked (signalled : Bool)
  /-- Still in `cv_.wait`, before it locks `mutex_` again. -/
  | woken
  /-- Before `lock` goes out of scope. -/
  | unlock
  /-- Before `if (threadFunc_)`, before `threadFunc_()`, inside it. -/
  | check | call | calling
  /-- `run` has returned. -/
  | done
deriving DecidableEq, Repr

structure Thread (F : Type) where
  started : Bool
  joined : Bool
  threadFunc : Option F
  joinable : Bool
  holder : Option Party
  live : Member → Bool
  owner : Owner
  worker : Worker
  calls : List F
  completed : List F
  startReturned : Bool
  joinReturned : Bool

namespace Thread

inductive Fault where
  /-- A failing `assert`. -/
  | assertFailed
  /-- An access to a member that is not initialised yet, or destroyed already. -/
  | notAlive (m : Member)
  /-- The destructor of a locked `mutex_`, or of `cv_` while a thread waits that was not notified. -/
  | inUse (m : Member)
  /-- A call of `std::terminate`. -/
  | terminate
  /-- `std::system_error`, for a `join` or `detach` of a thread that is not joinable. -/
  | systemError
  /-- No behaviour of the code: the step cannot be made in this state. -/
  | disabled
deriving DecidableEq, Repr

abbrev ThreadM (F : Type) := EStateM Fault (Thread F)

variable {F : Type}

/-- Memory in which nothing is initialised. -/
def unbuilt : Thread F where
  started := false
  joined := false
  threadFunc := none
  joinable := false
  holder := none
  live := fun _ => false
  owner := .initialising Member.declared
  worker := .absent
  calls := []
  completed := []
  startReturned := false
  joinReturned := false

/-! ## What both parties do -/

def use (m : Member) : ThreadM F Unit := do
  if (← get).live m then pure () else throw (.notAlive m)

def assert (c : Bool) : ThreadM F Unit := if c then pure () else throw .assertFailed

/-- `std::unique_lock<std::mutex> lock(mutex_)`. -/
def acquire (p : Party) : ThreadM F Unit := do
  use .mutex
  if (← get).holder = none then
    modify fun s => { s with holder := some p }
  else
    throw .disabled

def release : ThreadM F Unit := do
  use .mutex
  modify fun s => { s with holder := none }

def ownerAt (pc : Owner) : ThreadM F Unit := modify fun s => { s with owner := pc }

def workerAt (pc : Worker) : ThreadM F Unit := modify fun s => { s with worker := pc }

/-! ## The owner -/

/-- The initialiser of one member; `func` is the constructor's argument. -/
def initialise (func : Option F) (m : Member) : ThreadM F Unit := do
  match m with
  | .started => modify fun s => { s with started := false }
  | .joined => modify fun s => { s with joined := false }
  | .threadFunc => modify fun s => { s with threadFunc := func }
  -- the new thread enters `run` at once
  | .thread => modify fun s => { s with joinable := true, worker := .begin }
  | .pthreadId => use .thread
  | .name | .cv | .mutex => pure ()
  modify fun s => { s with live := Function.update s.live m true }

/-- The destructor of one member: `~thread` ends the process if the thread is joinable. -/
def destruct (m : Member) : ThreadM F Unit := do
  if m = .thread ∧ (← get).joinable = true then throw .terminate
  if m = .mutex ∧ (← get).holder ≠ none ∨ m = .cv ∧ (← get).worker = .blocked false then throw (.inUse m)
  modify fun s => { s with live := Function.update s.live m false }

/-- `cv_.notify_one()`: no one but the worker waits. -/
def notifyOne : ThreadM F Unit := do
  use .cv
  match (← get).worker with
  | .blocked _ => workerAt (.blocked true)
  | _ => pure ()

def detach : ThreadM F Unit := do
  use .thread
  if (← get).joinable then modify fun s => { s with joinable := false } else throw .systemError

/-- `start()` is called. -/
def start : ThreadM F Unit := do
  if (← get).owner ≠ .idle then throw .disabled
  use .started
  assert (!(← get).started)
  ownerAt .lock

/-- `join()` is called. -/
def join : ThreadM F Unit := do
  if (← get).owner ≠ .idle then throw .disabled
  use .started
  use .joined
  assert ((← get).started && !(← get).joined)
  modify fun s => { s with joined := true }
  ownerAt .joining

/-- `~Thread()` is called, and its body runs. -/
def destroy : ThreadM F Unit := do
  if (← get).owner ≠ .idle then throw .disabled
  use .started
  use .joined
  if (← get).started = true ∧ (← get).joined = false then detach
  ownerAt (.destroying Member.declared.reverse)

/-- The next step of the call the owner is in. -/
def proceed (func : Option F) : ThreadM F Unit := do
  match (← get).owner with
  | .initialising (m :: ms) =>
    initialise func m
    ownerAt (.initialising ms)
  | .initialising [] => ownerAt .idle
  | .idle => throw .disabled
  | .lock =>
    acquire .owner
    ownerAt .set
  | .set =>
    use .started
    modify fun s => { s with started := true }
    ownerAt .notify
  | .notify =>
    notifyOne
    ownerAt .unlock
  | .unlock =>
    release
    modify fun s => { s with startReturned := true }
    ownerAt .idle
  | .joining =>
    use .thread
    if (← get).joinable = false then throw .systemError
    if (← get).worker ≠ .done then throw .disabled
    modify fun s => { s with joinable := false, joinReturned := true }
    ownerAt .idle
  | .destroying (m :: ms) =>
    destruct m
    ownerAt (.destroying ms)
  | .destroying [] => throw .disabled

/-! ## The worker -/

/-- The next step of `run()`. -/
def run : ThreadM F Unit := do
  match (← get).worker with
  | .absent | .done => throw .disabled
  | .begin | .woken =>
    acquire .worker
    workerAt .test
  | .test =>
    use .started
    if (← get).started then workerAt .unlock else workerAt .wait
  | .wait =>
    use .cv
    release
    workerAt (.blocked false)
  | .blocked signalled =>
    use .cv
    if signalled then workerAt .woken else throw .disabled
  | .unlock =>
    release
    workerAt .check
  | .check =>
    use .threadFunc
    if (← get).threadFunc.isSome then workerAt .call else workerAt .done
  | .call =>
    use .threadFunc
    match (← get).threadFunc with
    | some f =>
      modify fun s => { s with calls := s.calls ++ [f] }
      workerAt .calling
    -- `bad_function_call` out of a thread
    | none => throw .terminate
  | .calling =>
    use .threadFunc
    modify fun s => { s with completed := s.completed ++ s.threadFunc.toList }
    workerAt .done

/-- `cv_.wait` wakes up, notified or not. -/
def wake : ThreadM F Unit := do
  match (← get).worker with
  | .blocked _ =>
    use .cv
    workerAt .woken
  | _ => throw .disabled

/-! ## The machine -/

inductive Act where
  /-- The owner calls. -/
  | start | join | destroy
  /-- The owner makes the next step of its call. -/
  | owner
  /-- The worker makes its next step, or wakes up spuriously. -/
  | worker | wake
deriving DecidableEq, Repr

/-- One step of a `Thread` that is constructed with `func`. -/
def step (func : Option F) : Act → ThreadM F Unit
  | .start => start
  | .join => join
  | .destroy => destroy
  | .owner => proceed func
  | .worker => run
  | .wake => wake

end Thread

end NetServer
