import NetServer.Basic
/-!
# `Channel` and `Epoller` (v1.7/src/Channel.h, Channel.cpp, Epoller.cpp)

A `Channel*` is a value of the type `ι`; the kernel hands the same pointer back in `data.ptr`. The code
of one channel works on a `Polled ι`: the channel's own fields and the kernel's interest set.

| here | there |
| --- | --- |
| `Interest`, `epollCtl` | the epoll instance behind `epollfd_`; `none` is `-1`: `ADD` of a present descriptor, `MOD` or `DEL` of an absent one |
| `Epoller.updateChannel`, `.updateChannelOp`, `.removeChannel` | the two `updateChannel` overloads and `removeChannel` (`Epoller.cpp:56-106`); `EventLoop` only forwards to them |
| `Channel.enabledReadable` … `Channel.remove` | `Channel.h:24-29`, `Channel.cpp:52-61` |
-/

namespace NetServer
open Exec

abbrev Fd := Nat
abbrev Mask := BitVec 32

def EPOLLIN : Mask := 0x001#32
def EPOLLOUT : Mask := 0x004#32
def EPOLLHUP : Mask := 0x010#32

/-- `mask & flag` as a condition. -/
def Mask.has (mask flag : Mask) : Bool := mask &&& flag != 0#32

/-- `status_`: the constants `NEW = -1`, `ADDED = 1`, `DEL = 2` of `Epoller`. -/
inductive Status where
  | NEW | ADDED | DEL
deriving DecidableEq, Repr

structure Channel where
  fd : Fd
  events : Mask
  revents : Mask
  status : Status
deriving DecidableEq, Repr

namespace Channel

def NoEvent : Mask := 0#32
def ReadableEvent : Mask := EPOLLIN
def WritableEvent : Mask := EPOLLOUT

/-- The constructor (`Channel.cpp:12`). -/
def new (fd : Fd) : Channel := ⟨fd, 0, 0, .NEW⟩

def isNoneEvent (ch : Channel) : Bool := ch.events == NoEvent
def isWriting (ch : Channel) : Bool := ch.events.has WritableEvent

end Channel

/-! ## The kernel side -/

/-- `struct epoll_event` as registered: the mask and `data.ptr`. -/
structure EpollEvent (ι : Type) where
  events : Mask
  ptr : ι
deriving DecidableEq, Repr

abbrev Interest (ι : Type) := Fd → Option (EpollEvent ι)

inductive CtlOp where
  | ADD | MOD | DEL
deriving DecidableEq, Repr

def epollCtl {ι : Type} (k : Interest ι) (op : CtlOp) (fd : Fd) (event : EpollEvent ι) : Option (Interest ι) :=
  match op, k fd with
  | .ADD, none => some (Function.update k fd (some event))
  | .MOD, some _ => some (Function.update k fd (some event))
  | .DEL, some _ => some (Function.update k fd none)
  | _, _ => none

/-! ## Code of one channel -/

/-- What the code of one channel reads and writes. -/
structure Polled (ι : Type) where
  channel : Channel
  interest : Interest ι

abbrev ChanM (ι : Type) := EStateM Fault (Polled ι)

variable {ι : Type}

def setStatus (st : Status) : ChanM ι Unit := modify fun p => { p with channel := { p.channel with status := st } }

def setEvents (f : Mask → Mask) : ChanM ι Unit :=
  modify fun p => { p with channel := { p.channel with events := f p.channel.events } }

namespace Epoller

/-- `updateChannel(channel, op)` (`Epoller.cpp:83`). -/
def updateChannelOp (self : ι) (op : CtlOp) : ChanM ι Unit := do
  let p ← get
  match epollCtl p.interest op p.channel.fd ⟨p.channel.events, self⟩ with
  | some k => set { p with interest := k }
  | none => throw .abort

/-- `updateChannel(channel)` (`Epoller.cpp:56`). -/
def updateChannel (self : ι) : ChanM ι Unit := do
  let p ← get
  if p.channel.status = .NEW ∨ p.channel.status = .DEL then
    setStatus .ADDED
    updateChannelOp self .ADD
  else if !p.channel.isNoneEvent then
    updateChannelOp self .MOD
  else
    setStatus .DEL
    updateChannelOp self .DEL

/-- `removeChannel` (`Epoller.cpp:97`). -/
def removeChannel (self : ι) : ChanM ι Unit := do
  let p ← get
  assert (p.channel.isNoneEvent)
  if p.channel.status = .ADDED then
    updateChannelOp self .DEL
  setStatus .NEW

end Epoller

namespace Channel

def enabledReadable (self : ι) : ChanM ι Unit := do
  setEvents (· ||| ReadableEvent)
  Epoller.updateChannel self

def enabledWritable (self : ι) : ChanM ι Unit := do
  setEvents (· ||| WritableEvent)
  Epoller.updateChannel self

def diabledAllEvents (self : ι) : ChanM ι Unit := do
  setEvents fun _ => NoEvent
  Epoller.updateChannel self

def disabledReadable (self : ι) : ChanM ι Unit := do
  setEvents (· &&& ~~~ReadableEvent)
  Epoller.updateChannel self

def disabledWritable (self : ι) : ChanM ι Unit := do
  setEvents (· &&& ~~~WritableEvent)
  Epoller.updateChannel self

/-- `remove` (`Channel.cpp:57`). -/
def remove (self : ι) : ChanM ι Unit := do
  let p ← get
  assert (p.channel.isNoneEvent)
  Epoller.removeChannel self

end Channel

/-! ## What an update makes of the channel and of the interest set -/

/-- The interest set holds the channel's descriptor iff `status_` is `ADDED`. -/
def Polled.Known (p : Polled ι) : Prop := (p.interest p.channel.fd).isSome ↔ p.channel.status = .ADDED

/-- The interest set holds for the channel's descriptor what its fields say. -/
def Polled.Mirrors (self : ι) (p : Polled ι) : Prop :=
  p.interest p.channel.fd = if p.channel.status = .ADDED then some ⟨p.channel.events, self⟩ else none

theorem Polled.Mirrors.known {self : ι} {p : Polled ι} (h : p.Mirrors self) : p.Known := by
  unfold Mirrors at h; unfold Known; rw [h]
  by_cases hs : p.channel.status = .ADDED <;> simp [hs]

/-- `status_` after `updateChannel`. -/
def Channel.nextStatus (ch : Channel) : Status :=
  if ch.status = .ADDED ∧ ch.events = NoEvent then .DEL else .ADDED

/-- The channel and the interest set after `updateChannel`. -/
def Polled.updated (self : ι) (p : Polled ι) : Polled ι where
  channel := { p.channel with status := p.channel.nextStatus }
  interest := Function.update p.interest p.channel.fd
    (if p.channel.nextStatus = .ADDED then some ⟨p.channel.events, self⟩ else none)

/-- **`updateChannel`** never fails on a known channel: it asks for the `ADD`, `MOD` or `DEL` that fits. -/
theorem Epoller.updateChannel_eq (self : ι) {p : Polled ι} (h : p.Known) :
    Epoller.updateChannel self p = .ok () (p.updated self) := by
  obtain ⟨⟨fd, ev, re, st⟩, k⟩ := p
  simp only [Polled.Known] at h
  cases hk : k fd with
  | none =>
    cases st with
    | ADDED => simp [hk] at h
    | NEW => simp [Epoller.updateChannel, Epoller.updateChannelOp, setStatus, epollCtl, hk, Polled.updated, Channel.nextStatus]
    | DEL => simp [Epoller.updateChannel, Epoller.updateChannelOp, setStatus, epollCtl, hk, Polled.updated, Channel.nextStatus]
  | some old =>
    have hst : st = .ADDED := by simpa [hk] using h
    subst hst
    by_cases he : ev = Channel.NoEvent
    · simp [Epoller.updateChannel, Epoller.updateChannelOp, setStatus, Channel.isNoneEvent, he, epollCtl, hk,
        Polled.updated, Channel.nextStatus]
    · simp [Epoller.updateChannel, Epoller.updateChannelOp, Channel.isNoneEvent, he, epollCtl, hk, Polled.updated, Channel.nextStatus]

theorem Polled.updated_mirrors (self : ι) (p : Polled ι) : (p.updated self).Mirrors self := by
  exact Function.update_self ..

/-- Setting `events_` and updating: the shape of the five enable/disable operations. -/
theorem setEvents_update_eq (self : ι) (f : Mask → Mask) {p : Polled ι} (h : p.Known) :
    (do setEvents f; Epoller.updateChannel self : ChanM ι Unit) p =
      .ok () (({ p with channel := { p.channel with events := f p.channel.events } } : Polled ι).updated self) :=
  Epoller.updateChannel_eq self (p := { p with channel := { p.channel with events := f p.channel.events } }) h

/-- The channel after `f` on `events_` and `updateChannel`. -/
def Channel.set (f : Mask → Mask) (ch : Channel) : Channel :=
  { ch with events := f ch.events, status := { ch with events := f ch.events }.nextStatus }

@[simp] theorem Channel.set_fd (f : Mask → Mask) (ch : Channel) : (ch.set f).fd = ch.fd := rfl

/-- What the interest set holds for the channel. -/
def Channel.registration (self : ι) (ch : Channel) : Option (EpollEvent ι) :=
  if ch.status = .ADDED then some ⟨ch.events, self⟩ else none

/-- The same with the channel's new fields named. -/
theorem setEvents_update_set (self : ι) (f : Mask → Mask) {p : Polled ι} (h : p.Known) :
    (do setEvents f; Epoller.updateChannel self : ChanM ι Unit) p =
      .ok () ⟨p.channel.set f, Function.update p.interest p.channel.fd ((p.channel.set f).registration self)⟩ :=
  setEvents_update_eq self f h

/-- **`remove`** of a channel without interest takes its descriptor out of the interest set. -/
theorem Channel.remove_eq (self : ι) {p : Polled ι} (h : p.Known) (hn : p.channel.isNoneEvent = true) :
    Channel.remove self p =
      .ok () ⟨{ p.channel with status := .NEW }, Function.update p.interest p.channel.fd none⟩ := by
  obtain ⟨⟨fd, ev, re, st⟩, k⟩ := p
  simp only [Polled.Known] at h
  simp only at hn
  by_cases hs : st = .ADDED
  · obtain ⟨old, hk⟩ := Option.isSome_iff_exists.1 (h.2 hs)
    subst hs
    simp [Channel.remove, Epoller.removeChannel, Epoller.updateChannelOp, setStatus, hn, epollCtl, hk]
  · have hk : k fd = none := by simpa using fun hsome => hs (h.1 hsome)
    simp [Channel.remove, Epoller.removeChannel, setStatus, hn, hs, ← hk]

/-- `remove` with interest left fails its `assert`. -/
theorem Channel.remove_busy (self : ι) {p : Polled ι} (hn : p.channel.isNoneEvent = false) :
    Channel.remove self p = .error .assertFailed p := by
  simp [Channel.remove, hn]

end NetServer
