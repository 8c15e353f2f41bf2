import NetServer.Lib.Alike
import NetServer.Reactor.Registration
/-!
# `polling_`, before it became `status_` (v1.3/src to v1.5/src: Channel.h, Channel.cpp, Epoller.cpp)

Up to v1.5 a channel says with one flag whether the epoll instance has it; v1.6 and v1.7 have `status_`, which also tells
a channel that was never added from one that was deleted. For the enable and disable calls the flag was enough
(`status_as_polling`): it is `status_ = ADDED`, and the two versions ask the kernel for the same at every call, also for
what makes them abort. Only `remove`, which the older versions do not have, needs more.
-/

namespace NetServer.V15
open Exec

variable {ι : Type}

structure Channel where
  fd : Fd
  events : Mask
  revents : Mask
  polling : Bool
deriving DecidableEq, Repr

/-- The constructor. -/
def Channel.new (fd : Fd) : Channel := ⟨fd, 0, 0, false⟩

def Channel.isNoneEvent (ch : Channel) : Bool := ch.events == NetServer.Channel.NoEvent

/-- What the code of one channel reads and writes. -/
structure Polled (ι : Type) where
  channel : Channel
  interest : Interest ι

abbrev ChanM (ι : Type) := EStateM Fault (Polled ι)

def setPolling (on : Bool) : ChanM ι Unit := modify fun p => { p with channel := { p.channel with polling := on } }

def setEvents (f : Mask → Mask) : ChanM ι Unit :=
  modify fun p => { p with channel := { p.channel with events := f p.channel.events } }

/-- `updateChannel(channel, op)`. -/
def Epoller.updateChannelOp (self : ι) (op : CtlOp) : ChanM ι Unit := do
  let p ← get
  match epollCtl p.interest op p.channel.fd ⟨p.channel.events, self⟩ with
  | some k => set { p with interest := k }
  | none => throw .abort

/-- `updateChannel(channel)`. -/
def Epoller.updateChannel (self : ι) : ChanM ι Unit := do
  let p ← get
  if !p.channel.polling then
    setPolling true
    Epoller.updateChannelOp self .ADD
  else if !p.channel.isNoneEvent then
    Epoller.updateChannelOp self .MOD
  else
    setPolling false
    Epoller.updateChannelOp self .DEL

/-- The calls of a channel: the five that both versions have. -/
inductive ChannelOp where
  | enabledReadable | enabledWritable | disabledReadable | disabledWritable | diabledAllEvents
deriving DecidableEq, Repr

/-- What the call makes of `events_`. -/
def ChannelOp.mask : ChannelOp → Mask → Mask
  | .enabledReadable, events => events ||| NetServer.Channel.ReadableEvent
  | .enabledWritable, events => events ||| NetServer.Channel.WritableEvent
  | .disabledReadable, events => events &&& ~~~NetServer.Channel.ReadableEvent
  | .disabledWritable, events => events &&& ~~~NetServer.Channel.WritableEvent
  | .diabledAllEvents, _ => NetServer.Channel.NoEvent

/-- `events_ |= …; update();` and its like (`Channel.h`). -/
def ChannelOp.code (self : ι) (op : ChannelOp) : ChanM ι Unit := do
  setEvents op.mask
  Epoller.updateChannel self

/-- The call of the later version. -/
def ChannelOp.later : ChannelOp → NetServer.ChannelOp
  | .enabledReadable => .enabledReadable
  | .enabledWritable => .enabledWritable
  | .disabledReadable => .disabledReadable
  | .disabledWritable => .disabledWritable
  | .diabledAllEvents => .diabledAllEvents

theorem ChannelOp.later_code (self : ι) (op : ChannelOp) :
    op.later.code self = (do NetServer.setEvents op.mask; NetServer.Epoller.updateChannel self) := by
  cases op <;> rfl

/-! ## One call -/

/-- The flag is `status_ = ADDED`, and all else is the same. -/
structure Same (p : Polled ι) (q : NetServer.Polled ι) : Prop where
  fd : q.channel.fd = p.channel.fd
  events : q.channel.events = p.channel.events
  revents : q.channel.revents = p.channel.revents
  polling : p.channel.polling = decide (q.channel.status = .ADDED)
  interest : q.interest = p.interest

section
variable {p : Polled ι} {q : NetServer.Polled ι}

theorem Same.setEvents (h : Same p q) (f : Mask → Mask) :
    Same { p with channel := { p.channel with events := f p.channel.events } }
      { q with channel := { q.channel with events := f q.channel.events } } :=
  { h with events := congrArg f h.events }

theorem Same.setPolling (h : Same p q) (st : Status) :
    Same { p with channel := { p.channel with polling := decide (st = .ADDED) } }
      { q with channel := { q.channel with status := st } } :=
  { h with polling := rfl }

/-- `epoll_ctl` answers both the same. -/
theorem updateChannelOp_same (h : Same p q) (self : ι) (op : CtlOp) :
    Alike (Epoller.updateChannelOp self op) p (NetServer.Epoller.updateChannelOp self op) q fun _ p' _ q' => Same p' q' := by
  simp only [Epoller.updateChannelOp, NetServer.Epoller.updateChannelOp, alike_left (run_get p), alike_right (run_get q),
    h.interest, h.fd, h.events]
  cases epollCtl p.interest op p.channel.fd ⟨p.channel.events, self⟩ with
  | none => exact alike_throw _
  | some k => exact (alike_ok (run_set p _) (run_set q _)).2 { h with interest := rfl }

theorem updateChannel_same (h : Same p q) (self : ι) :
    Alike (Epoller.updateChannel self) p (NetServer.Epoller.updateChannel self) q fun _ p' _ q' => Same p' q' := by
  have none : q.channel.isNoneEvent = p.channel.isNoneEvent := by
    simp [NetServer.Channel.isNoneEvent, Channel.isNoneEvent, h.events]
  have absent : (!p.channel.polling) = true ↔ q.channel.status = .NEW ∨ q.channel.status = .DEL := by
    rw [h.polling]
    cases q.channel.status <;> simp
  simp only [Epoller.updateChannel, NetServer.Epoller.updateChannel, alike_left (run_get p), alike_right (run_get q), none]
  refine alike_ite absent (fun _ => ?_) fun _ => alike_ite Iff.rfl (fun _ => updateChannelOp_same h self .MOD) fun _ => ?_
  · simp only [setPolling, setStatus, alike_left (run_modify p _), alike_right (run_modify q _)]
    exact updateChannelOp_same (h.setPolling .ADDED) self .ADD
  · simp only [setPolling, setStatus, alike_left (run_modify p _), alike_right (run_modify q _)]
    exact updateChannelOp_same (h.setPolling .DEL) self .DEL

/-- **One call**, from any two channels that agree. -/
theorem code_same (h : Same p q) (self : ι) (op : ChannelOp) :
    Alike (op.code self) p (op.later.code self) q fun _ p' _ q' => Same p' q' := by
  simp only [ChannelOp.later_code, ChannelOp.code, setEvents, NetServer.setEvents, alike_left (run_modify p _),
    alike_right (run_modify q _)]
  exact updateChannel_same (h.setEvents op.mask) self

end

/-! ## A system of channels -/

/-- All channels of one loop and the interest set of its epoll instance. -/
structure PollSys (ι : Type) where
  channels : ι → Channel
  interest : Interest ι

namespace PollSys

/-- Freshly constructed channels, nothing registered. -/
def fresh (fd : ι → Fd) : PollSys ι := ⟨fun i => Channel.new (fd i), fun _ => none⟩

/-- One call on channel `a.1`. -/
def step [DecidableEq ι] (a : ι × ChannelOp) : EStateM Fault (PollSys ι) Unit :=
  zoom (fun s => ⟨s.channels a.1, s.interest⟩) (fun p s => ⟨Function.update s.channels a.1 p.channel, p.interest⟩)
    (a.2.code a.1)

/-- All channels agree. -/
structure Agree (s : PollSys ι) (t : NetServer.PollSys ι) : Prop where
  interest : t.interest = s.interest
  channels : ∀ i, Same ⟨s.channels i, s.interest⟩ ⟨t.channels i, t.interest⟩

theorem fresh_agree (fd : ι → Fd) : Agree (fresh fd) (NetServer.PollSys.fresh fd) := ⟨rfl, fun _ => ⟨rfl, rfl, rfl, rfl, rfl⟩⟩

section
variable [DecidableEq ι] {s : PollSys ι} {t : NetServer.PollSys ι}

/-- The channel that is called, and the ones that are not: they see another interest set. -/
theorem Agree.update (h : Agree s t) {i : ι} {p : Polled ι} {q : NetServer.Polled ι} (hp : Same p q) :
    Agree ⟨Function.update s.channels i p.channel, p.interest⟩ ⟨Function.update t.channels i q.channel, q.interest⟩ := by
  refine ⟨hp.interest, fun j => ?_⟩
  by_cases hj : j = i
  · subst hj
    simpa using hp
  · simpa [hj] using { h.channels j with interest := hp.interest }

/-- **Every call** does the same in both versions. -/
theorem step_agree : LockStep step (fun _ _ => True) NetServer.PollSys.step (fun a => (a.1, a.2.later)) (Agree (ι := ι)) := by
  rintro s t ⟨i, op⟩ h -
  exact alike_zoom.2 ((code_same (h.channels i) i op).mono fun _ _ _ _ hp => h.update hp)

end

/-- **One flag was enough**: any sequence of enable and disable calls, on any number of channels, either returns in both
versions, with the same interest set, the same masks, and the flag set exactly where `status_` is `ADDED`; or stops at the
same call of both, with the same fault. -/
theorem status_as_polling [DecidableEq ι] (fd : ι → Fd) (as : List (ι × ChannelOp)) :
    Alike (steps step as) (fresh fd) (steps NetServer.PollSys.step (as.map fun a => (a.1, a.2.later)))
      (NetServer.PollSys.fresh fd) fun _ s _ t =>
        s.interest = t.interest ∧ ∀ i, (s.channels i).events = (t.channels i).events ∧
          ((s.channels i).polling = true ↔ (t.channels i).status = .ADDED) := by
  refine (step_agree.steps (fresh_agree fd) (meets_true step as _)).mono ?_
  rintro _ s _ t h
  refine ⟨h.interest.symm, fun i => ⟨(h.channels i).events.symm, ?_⟩⟩
  have flag : (s.channels i).polling = decide ((t.channels i).status = .ADDED) := (h.channels i).polling
  rw [flag]
  exact decide_eq_true_iff

/-- A call of the older version beside the later one, whose registration mirrors its channels. -/
theorem step_mirrored [DecidableEq ι] {fd : ι → Fd} (hfd : Function.Injective fd) {s : PollSys ι} {t : NetServer.PollSys ι}
    (hm : NetServer.PollSys.Mirror fd t) (h : Agree s t) (a : ι × ChannelOp) :
    ∃ s', step a s = .ok () s' ∧ ∃ t', NetServer.PollSys.Mirror fd t' ∧ Agree s' t' := by
  have may : NetServer.PollSys.MayRun t (a.1, a.2.later) := by
    intro hr
    cases hop : a.2 <;> simp [hop, ChannelOp.later] at hr
  obtain ⟨t', ht, hm'⟩ := NetServer.PollSys.step_mirror hfd hm _ may
  obtain ⟨_, s', hs, h'⟩ := (step_agree s t a h trivial).returned ht
  exact ⟨s', hs, t', hm', h'⟩

/-- **The interest set mirrors the flag**, as it mirrors `status_`: on distinct descriptors no call of the older versions
aborts, and in every run a descriptor is in the interest set iff its channel is `polling`, with the mask of the channel. -/
theorem registration_mirrors_polling [DecidableEq ι] (fd : ι → Fd) (hfd : Function.Injective fd) (s : PollSys ι)
    (h : Run step (fun _ _ => True) (fresh fd) s) :
    (∀ i, s.interest (fd i) = if (s.channels i).polling then some ⟨(s.channels i).events, i⟩ else none) ∧
    ∀ a, ∃ s', step a s = .ok () s' := by
  obtain ⟨t, hm, hst⟩ : ∃ t, NetServer.PollSys.Mirror fd t ∧ Agree s t := by
    refine h.invariant (I := fun s => ∃ t, NetServer.PollSys.Mirror fd t ∧ Agree s t) ?_ ?_
    · exact ⟨_, NetServer.PollSys.mirror_fresh fd, fresh_agree fd⟩
    · rintro s a ⟨t, hm, hst⟩ -
      obtain ⟨s', hs, h'⟩ := step_mirrored hfd hm hst a
      exact (ensures_ok hs).2 h'
  constructor
  · intro i
    have mirror := hm.mirrors i
    have same := hst.channels i
    have flag : (s.channels i).polling = decide ((t.channels i).status = .ADDED) := same.polling
    have events : (t.channels i).events = (s.channels i).events := same.events
    unfold NetServer.Polled.Mirrors at mirror
    rw [hm.fds i, hst.interest, events] at mirror
    simpa only [flag, decide_eq_true_eq] using mirror
  · intro a
    obtain ⟨s', hs, -⟩ := step_mirrored hfd hm hst a
    exact ⟨s', hs⟩

/-- One channel is enabled and disabled, the other one disabled before it was ever added. -/
theorem registration_mirrors_polling_two : ∃ s, Run step (fun _ _ => True) (fresh fun i : Bool => if i then 5 else 6) s ∧
    s.interest 5 = none ∧ s.interest 6 = some ⟨0, false⟩ ∧ ∃ s', step (true, .enabledWritable) s = .ok () s' := by
  have inj : Function.Injective fun i : Bool => if i then 5 else 6 := by
    intro i j
    cases i <;> cases j <;> simp
  obtain ⟨s, run, h5, h6, hev⟩ := Run.reaches step (fun _ _ => True) (fresh fun i : Bool => if i then 5 else 6)
    [(true, .enabledReadable), (true, .diabledAllEvents), (false, .disabledWritable)]
    (fun s => (s.channels true).polling = false ∧ (s.channels false).polling = true ∧ (s.channels false).events = 0)
    (by decide) (by decide)
  obtain ⟨mirror, next⟩ := registration_mirrors_polling _ inj s run
  have m5 := mirror true
  have m6 := mirror false
  rw [h5] at m5
  rw [h6, hev] at m6
  exact ⟨s, run, m5, m6, next _⟩

end PollSys

end NetServer.V15
