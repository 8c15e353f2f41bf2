import NetServer.Basic
import NetServer.Lib.OrdSet
/-!
# `Timer`, `TimerQueue` and the timerfd (v1.7/src/TimerQueue.h, TimerQueue.cpp)

A `Timestamp`, a `time_point` of `system_clock`, is an `Int`: nanoseconds in an `int64_t`, where an overflow is a fault.
Clock readings are arguments, as the results of system calls are elsewhere; so is the address `new` returns.
A `Timer*` carries, next to the address it compares by, the number of its allocation, so that a pointer to a
deleted timer is told from one to a later timer at the same address. A callback is the `Script` that a run of
it executes.

| here | there |
| --- | --- |
| `Timer`, `restart`, `cancel` | `class Timer`; `timerId_` is only printed and is left out |
| `Entry`, `Entry.key`         | `std::pair<Timestamp, Timer*>` in the order of `operator<` |
| `TimerQueue.timers`          | the heap of `Timer` objects; `none` once deleted |
| `Timerfd`                    | the kernel's timer: one-shot; `timerfd_settime` discards an unread expiration |
| `durationFromNow`, `setTimerfd`, `readTimerfd` | `TimerQueue.cpp:21-61` |
| `addTimer`, `cancelTimer`, `getExpired`, `handleTimingRead` | `TimerQueue.cpp:109-176` |
| `runAt`, `runAfter`, `runEvery` | `EventLoop.cpp:87-110` |
-/

namespace NetServer.Timers
open Exec

structure TimerPtr where
  addr : Nat
  serial : Nat
deriving DecidableEq, Repr

structure Timer where
  timing : Int
  /-- Microseconds. -/
  interval : Int
  repeated : Bool
  canceled : Bool
deriving DecidableEq, Repr

/-- `Timer(cb, when, interval)`. -/
def Timer.new (when : Int) (interval : Int) : Timer := ⟨when, interval, interval > 0, false⟩

def Timer.expired (timer : Timer) (now : Int) : Bool := now ≥ timer.timing

structure Entry where
  time : Int
  timer : TimerPtr
deriving DecidableEq, Repr

/-- `operator<` of pairs: the time, then the address. -/
def Entry.key (e : Entry) : Int ×ₗ Nat := toLex (e.time, e.timer.addr)

def UINTPTR_MAX : Nat := 2 ^ 64 - 1

/-- A timer that is set: when `timerfd_settime` was called and when it expires. -/
structure Armed where
  setAt : Int
  expiry : Int
deriving DecidableEq, Repr

structure Timerfd where
  armed : Option Armed
  /-- An expiration that has not been read. -/
  unread : Bool
deriving DecidableEq, Repr

inductive TimerEvent where
  | added (t : TimerPtr) (when : Int) (interval : Int)
  /-- `timer->run()`, with `timer->when()`. -/
  | run (t : TimerPtr) (when : Int)
  /-- `cancelTimer(timer)` returned; was the timer's entry in `timerList_` when it was called? -/
  | canceled (t : TimerPtr) (queued : Bool)
  | deleted (t : TimerPtr)
deriving DecidableEq, Repr

structure TimerQueue where
  timers : TimerPtr → Option Timer
  next : Nat
  timerList : OrdSet Entry.key
  timerfd : Timerfd
  trace : List TimerEvent

abbrev M := EStateM Fault TimerQueue

def TimerQueue.init : TimerQueue := ⟨fun _ => none, 0, .empty, ⟨none, false⟩, []⟩

/-- The timer's entry is in `timerList_`. -/
def TimerQueue.queued (q : TimerQueue) (t : TimerPtr) : Bool := q.timerList.elems.any (·.timer == t)

def emit (ev : TimerEvent) : M Unit := modify fun q => { q with trace := q.trace ++ [ev] }

/-- The result of signed 64-bit arithmetic. -/
def int64 (x : Int) : M Int :=
  if -2 ^ 63 ≤ x ∧ x < 2 ^ 63 then pure x else throw .overflow

/-- `Timestamp + Microsecond`: nanoseconds first. -/
def plus (t : Int) (d : Int) : M Int := do
  let ns ← int64 (d * 1000)
  int64 (t + ns)

/-! ## The timerfd -/

/-- `::timerfd_settime(timerfd, 0, {0, sec, nsec})` at `now`; `none` is `EINVAL`. -/
def timerfdSettime (sec nsec : Int) (now : Int) : Option Timerfd :=
  if sec < 0 ∨ nsec < 0 ∨ 999999999 < nsec then
    none
  else if sec = 0 ∧ nsec = 0 then
    some ⟨none, false⟩
  else
    some ⟨some ⟨now, now + (sec * 1000000000 + nsec)⟩, false⟩

def readTimerfd : M Unit := do
  let q ← get
  let n : Int := if q.timerfd.unread then 8 else -1
  set { q with timerfd := { q.timerfd with unread := false } }
  assert (n = 8)

/-- `(tv_sec, tv_nsec)`: microseconds, at least 1000 of them, split by `std::nano::den`. -/
def durationFromNow (when now : Int) : M (Int × Int) := do
  let ns ← int64 (when - now)
  let microseconds := ns.tdiv 1000
  let microseconds := if microseconds < 1000 then 1000 else microseconds
  pure (microseconds.tdiv 1000000000, microseconds.tmod 1000000000)

/-- `now()` in `durationFromNow` and `timerfd_settime` are at one time. -/
def setTimerfd (ts now : Int) : M Unit := do
  let (sec, nsec) ← durationFromNow ts now
  match timerfdSettime sec nsec now with
  | some fd => modify fun q => { q with timerfd := fd }
  | none => throw .abort

/-! ## Timers -/

/-- `new Timer(cb, when, interval)`; `addr` is not that of a live timer. -/
def newTimer (when : Int) (interval : Int) (addr : Nat) : M TimerPtr := do
  let q ← get
  if addr < UINTPTR_MAX ∧ ∀ n < q.next, q.timers ⟨addr, n⟩ = none then
    let t : TimerPtr := ⟨addr, q.next⟩
    set { q with timers := Function.update q.timers t (some (.new when interval)), next := q.next + 1 }
    pure t
  else
    throw .outside

def deref (t : TimerPtr) : M Timer := do
  match (← get).timers t with
  | some timer => pure timer
  | none => throw .deletedTimer

def store (t : TimerPtr) (timer : Timer) : M Unit :=
  modify fun q => { q with timers := Function.update q.timers t (some timer) }

/-- `delete timer`. -/
def deleteTimer (t : TimerPtr) : M Unit := do
  let _ ← deref t
  modify fun q => { q with timers := Function.update q.timers t none }
  emit (.deleted t)

/-- `timing_ += interval_`. -/
def restart (t : TimerPtr) : M Unit := do
  let timer ← deref t
  assert (timer.repeated = true)
  let timing ← plus timer.timing timer.interval
  store t { timer with timing := timing }

def cancel (t : TimerPtr) : M Unit := do
  let timer ← deref t
  assert (timer.canceled = false)
  store t { timer with canceled := true }

def insertEntry (e : Entry) : M Unit := modify fun q => { q with timerList := q.timerList.insert e }

def addTimer (when : Int) (interval : Int) (addr : Nat) (now : Int) : M TimerPtr := do
  let t ← newTimer when interval addr
  emit (.added t when interval)
  insertEntry ⟨when, t⟩
  if (← get).timerList.first.map Entry.key = some (Entry.key ⟨when, t⟩) then
    setTimerfd when now
  pure t

def cancelTimer (t : TimerPtr) : M Unit := do
  let q ← get
  cancel t
  let timer ← deref t
  modify fun q => { q with timerList := q.timerList.erase (Entry.key ⟨timer.timing, t⟩) }
  deleteTimer t
  emit (.canceled t (q.queued t))

/-! ## User code -/

inductive Call where
  | addTimer (when : Int) (interval : Int) (addr : Nat) (now : Int)
  | runAt (when : Int) (addr : Nat) (now : Int)
  | runAfter (delay : Int) (addr : Nat) (now now' : Int)
  | runEvery (interval : Int) (addr : Nat) (now now' : Int)
  | cancelTimer (t : TimerPtr)
  /-- No call: the timer that is set expires while user code runs. -/
  | expire
deriving DecidableEq, Repr

def runAt (when : Int) (addr : Nat) (now : Int) : M Unit := do
  let _ ← addTimer when 0 addr now

def runAfter (delay : Int) (addr : Nat) (now now' : Int) : M Unit := do
  let t ← plus now delay
  runAt t addr now'

def runEvery (interval : Int) (addr : Nat) (now now' : Int) : M Unit := do
  let t ← plus now interval
  let _ ← addTimer t interval addr now'

/-- The kernel: the timer expires and is no longer set. -/
def expire : M Unit := do
  let q ← get
  if q.timerfd.armed.isSome then
    set { q with timerfd := ⟨none, true⟩ }
  else
    throw .outside

/-- User code has a pointer to a timer that it has not cancelled and that has not been deleted. -/
def userTimer (t : TimerPtr) : M Unit := do
  if ((← get).timers t).isSome then pure () else throw .outside

def Call.run : Call → M Unit
  | .addTimer when interval addr now => do
    let _ ← Timers.addTimer when interval addr now
  | .runAt when addr now => Timers.runAt when addr now
  | .runAfter delay addr now now' => Timers.runAfter delay addr now now'
  | .runEvery interval addr now now' => Timers.runEvery interval addr now now'
  | .cancelTimer t => do
    userTimer t
    Timers.cancelTimer t
  | .expire => Timers.expire

abbrev Script := List Call

def Script.run (script : Script) : M Unit := steps Call.run script

/-! ## Expiration -/

/-- The entries before `(curr + 1ns, UINTPTR_MAX)` move out of `timerList_`. -/
def getExpired (curr : Int) : M (List Entry) := do
  let later ← int64 (curr + 1)
  let q ← get
  let entry : Int ×ₗ Nat := toLex (later, UINTPTR_MAX)
  let rest := q.timerList.above entry
  assert (rest.first.all (curr < ·.time) = true)
  set { q with timerList := rest }
  pure (q.timerList.below entry)

/-- The body of the loop over `expired`; `callback` is what the timer's callback does. -/
def runExpired (curr : Int) (e : Entry) (callback : Script) : M Unit := do
  let timer ← deref e.timer
  assert (timer.expired curr = true)
  if !timer.canceled then
    emit (.run e.timer timer.timing)
    callback.run
  let timer ← deref e.timer
  if !timer.canceled && timer.repeated then
    restart e.timer
    let timer ← deref e.timer
    insertEntry ⟨timer.timing, e.timer⟩
  else
    deleteTimer e.timer

def runAllExpired (curr : Int) (callbacks : TimerPtr → Script) : List Entry → M Unit
  | [] => pure ()
  | e :: rest => do
    runExpired curr e (callbacks e.timer)
    runAllExpired curr callbacks rest

def handleTimingRead (curr : Int) (callbacks : TimerPtr → Script) (now : Int) : M Unit := do
  readTimerfd
  let expired ← getExpired curr
  runAllExpired curr callbacks expired
  match (← get).timerList.first with
  | some e => setTimerfd e.time now
  | none => pure ()

/-- A step of a timer queue. -/
inductive Op where
  /-- User code outside of every timer callback. -/
  | call (x : Call)
  | handleTimingRead (curr : Int) (callbacks : TimerPtr → Script) (now : Int)

def step : Op → M Unit
  | .call x => x.run
  | .handleTimingRead curr callbacks now => Timers.handleTimingRead curr callbacks now

end NetServer.Timers
