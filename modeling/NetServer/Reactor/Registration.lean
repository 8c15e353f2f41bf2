import NetServer.Reactor.Channel
/-!
# The epoll registration mirrors `status_` and `events_`

Any number of channels on pairwise distinct descriptors, any sequence of enable, disable and remove
calls (`remove` only under its own `assert`). `ChannelOp.code_spec` says what one call does; `Mirror` is
the invariant of the whole system: only a channel's own call touches its registration.
-/

namespace NetServer
open Exec

inductive ChannelOp where
  | enabledReadable | enabledWritable | disabledReadable | disabledWritable | diabledAllEvents | remove
deriving DecidableEq, Repr

variable {ι : Type}

def ChannelOp.code (self : ι) : ChannelOp → ChanM ι Unit
  | .enabledReadable => Channel.enabledReadable self
  | .enabledWritable => Channel.enabledWritable self
  | .disabledReadable => Channel.disabledReadable self
  | .disabledWritable => Channel.disabledWritable self
  | .diabledAllEvents => Channel.diabledAllEvents self
  | .remove => Channel.remove self

/-- What code of one channel leaves alone, and what it can stop with. -/
structure Polled.Frame (p p' : Polled ι) : Prop where
  fd : p'.channel.fd = p.channel.fd
  revents : p'.channel.revents = p.channel.revents
  others : ∀ f, f ≠ p.channel.fd → p'.interest f = p.interest f

theorem Epoller.updateChannelOp_frame (self : ι) (op : CtlOp) (p : Polled ι) :
    Ensures (Epoller.updateChannelOp self op) p (fun _ p' => p.Frame p') (fun e _ => e = .abort) := by
  simp only [Epoller.updateChannelOp, ensures_bind, ensures_get]
  unfold epollCtl
  split
  · rename_i k hk
    rw [ensures_set]
    refine ⟨rfl, rfl, fun f hf => ?_⟩
    split at hk
    · cases hk; exact Function.update_of_ne hf ..
    · cases hk; exact Function.update_of_ne hf ..
    · cases hk; exact Function.update_of_ne hf ..
    · cases hk
  · rfl

theorem Epoller.updateChannel_frame (self : ι) (p : Polled ι) :
    Ensures (Epoller.updateChannel self) p (fun _ p' => p.Frame p') (fun e _ => e = .abort) := by
  simp only [Epoller.updateChannel, setStatus, ensures_bind, ensures_get, ensures_ite, ensures_modify]
  have status : ∀ (op : CtlOp) (st : Status),
      Ensures (Epoller.updateChannelOp self op) { p with channel := { p.channel with status := st } }
        (fun _ p' => p.Frame p') (fun e _ => e = .abort) := fun op st =>
    (Epoller.updateChannelOp_frame self op _).mono (fun _ _ h => ⟨h.fd, h.revents, h.others⟩) fun _ _ h => h
  exact ⟨fun _ => status .ADD .ADDED, fun _ =>
    ⟨fun _ => Epoller.updateChannelOp_frame self .MOD p, fun _ => status .DEL .DEL⟩⟩

/-- Whatever the channel's state, a call stays on its descriptor and stops only by `abort` or `assert`. -/
theorem ChannelOp.code_frame (self : ι) (op : ChannelOp) (p : Polled ι) :
    Ensures (op.code self) p (fun _ p' => p.Frame p') (fun e _ => e = .abort ∨ e = .assertFailed) := by
  have update : ∀ f : Mask → Mask, Ensures (do setEvents f; Epoller.updateChannel self : ChanM ι Unit) p
      (fun _ p' => p.Frame p') (fun e _ => e = .abort ∨ e = .assertFailed) := fun f =>
    (Epoller.updateChannel_frame self { p with channel := { p.channel with events := f p.channel.events } }).mono
      (fun _ _ h => ⟨h.fd, h.revents, h.others⟩) fun _ _ h => .inl h
  cases op with
  | enabledReadable => exact update _
  | enabledWritable => exact update _
  | disabledReadable => exact update _
  | disabledWritable => exact update _
  | diabledAllEvents => exact update _
  | remove =>
    simp only [ChannelOp.code, Channel.remove, Epoller.removeChannel, setStatus, ensures_bind, ensures_get,
      ensures_assert, ensures_ite, ensures_modify]
    refine ⟨fun _ => ⟨fun _ => ⟨fun _ => ?_, fun _ => ⟨rfl, rfl, fun _ _ => rfl⟩⟩, fun _ => .inr trivial⟩, fun _ => .inr trivial⟩
    exact (Epoller.updateChannelOp_frame self .DEL p).mono (fun _ _ h => ⟨h.fd, h.revents, h.others⟩) fun _ _ h => .inl h

/-- A call on one channel returns, leaves a registration that mirrors the channel, and touches no other
descriptor. -/
theorem ChannelOp.code_spec (self : ι) (op : ChannelOp) {p : Polled ι} (h : p.Known)
    (hr : op = .remove → p.channel.isNoneEvent = true) :
    ∃ p', op.code self p = .ok () p' ∧ p'.channel.fd = p.channel.fd ∧ p'.Mirrors self ∧
      ∀ f, f ≠ p.channel.fd → p'.interest f = p.interest f := by
  have update : ∀ f : Mask → Mask, ∃ p', (do setEvents f; Epoller.updateChannel self : ChanM ι Unit) p = .ok () p' ∧
      p'.channel.fd = p.channel.fd ∧ p'.Mirrors self ∧ ∀ f, f ≠ p.channel.fd → p'.interest f = p.interest f :=
    fun f => ⟨_, setEvents_update_eq self f h, rfl, Polled.updated_mirrors self _,
      fun g hg => Function.update_of_ne hg ..⟩
  cases op with
  | enabledReadable => exact update _
  | enabledWritable => exact update _
  | disabledReadable => exact update _
  | disabledWritable => exact update _
  | diabledAllEvents => exact update _
  | remove =>
    refine ⟨_, Channel.remove_eq self h (hr rfl), rfl, ?_, fun f hf => Function.update_of_ne hf ..⟩
    simp [Polled.Mirrors]

/-- A call keeps the mirror, or its `assert` fails. -/
theorem ChannelOp.code_mirrors (self : ι) (op : ChannelOp) {p : Polled ι} (h : p.Mirrors self) :
    Ensures (op.code self) p (fun _ p' => p'.channel.fd = p.channel.fd ∧ p'.Mirrors self ∧
      ∀ f, f ≠ p.channel.fd → p'.interest f = p.interest f) (fun e _ => e = .assertFailed) := by
  by_cases hr : op = .remove → p.channel.isNoneEvent = true
  · obtain ⟨p', he, hp⟩ := op.code_spec self h.known hr
    exact (ensures_ok he).2 hp
  · obtain ⟨rfl, hn⟩ := Classical.not_imp.1 hr
    exact (ensures_error (Channel.remove_busy self (by simpa using hn))).2 rfl

/-! ## A system of channels -/

/-- All channels of one loop and the interest set of its epoll instance. -/
structure PollSys (ι : Type) where
  channels : ι → Channel
  interest : Interest ι

namespace PollSys

/-- Freshly constructed channels, nothing registered. -/
def fresh (fd : ι → Fd) : PollSys ι := ⟨fun i => Channel.new (fd i), fun _ => none⟩

/-- One call on channel `a.1`. -/
def step [DecidableEq ι] (a : ι × ChannelOp) : EStateM Fault (PollSys ι) Unit :=
  zoom (fun s => ⟨s.channels a.1, s.interest⟩) (fun p s => ⟨Function.update s.channels a.1 p.channel, p.interest⟩)
    (a.2.code a.1)

/-- `remove` is called as its `assert` requires. -/
def MayRun (s : PollSys ι) (a : ι × ChannelOp) : Prop :=
  a.2 = .remove → (s.channels a.1).isNoneEvent = true

instance decidableMayRun (s : PollSys ι) (a : ι × ChannelOp) : Decidable (MayRun s a) :=
  inferInstanceAs (Decidable (_ → _))

structure Mirror (fd : ι → Fd) (s : PollSys ι) : Prop where
  fds : ∀ i, (s.channels i).fd = fd i
  mirrors : ∀ i, Polled.Mirrors i ⟨s.channels i, s.interest⟩

theorem mirror_fresh (fd : ι → Fd) : Mirror fd (fresh fd) :=
  ⟨fun _ => rfl, fun _ => by simp [Polled.Mirrors, fresh, Channel.new]⟩

/-- **A call never fails and keeps the mirror.** -/
theorem step_mirror [DecidableEq ι] {fd : ι → Fd} (hfd : Function.Injective fd) {s : PollSys ι} (h : Mirror fd s)
    (a : ι × ChannelOp) (ha : MayRun s a) : ∃ t, step a s = .ok () t ∧ Mirror fd t := by
  obtain ⟨i, op⟩ := a
  obtain ⟨p, he, hpf, hpm, hother⟩ := op.code_spec i (h.mirrors i).known ha
  simp only [h.fds i] at hpf hother
  refine ⟨⟨Function.update s.channels i p.channel, p.interest⟩, by simp [step, zoom, he], fun j => ?_, fun j => ?_⟩
  · by_cases hj : j = i
    · subst hj; simpa using hpf
    · simpa [hj] using h.fds j
  · by_cases hj : j = i
    · subst hj; simpa [Polled.Mirrors] using hpm
    · have hne : fd j ≠ fd i := fun he => hj (hfd he)
      have hm := h.mirrors j
      simp only [Polled.Mirrors, h.fds j] at hm
      simp [Polled.Mirrors, hj, h.fds j, hother _ hne, hm]

theorem run_mirror [DecidableEq ι] {fd : ι → Fd} (hfd : Function.Injective fd) {s : PollSys ι}
    (h : Run step MayRun (fresh fd) s) : Mirror fd s :=
  h.invariant (mirror_fresh fd) fun _ a hs ha => by
    obtain ⟨t, he, ht⟩ := step_mirror hfd hs a ha
    exact (ensures_ok he).2 ht

/-- **The interest set mirrors the channels** after every sequence of calls: a descriptor is in it iff
its channel is `ADDED`, with the channel's mask and pointer; and the next call does not abort. -/
theorem registration_mirrors_status [DecidableEq ι] (fd : ι → Fd) (hfd : Function.Injective fd) (s : PollSys ι)
    (h : Run step MayRun (fresh fd) s) :
    (∀ i, ((s.interest (fd i)).isSome ↔ (s.channels i).status = .ADDED) ∧
      ∀ e, s.interest (fd i) = some e → e.events = (s.channels i).events ∧ e.ptr = i) ∧
    ∀ a, MayRun s a → ∃ t, step a s = .ok () t := by
  have hm := run_mirror hfd h
  refine ⟨fun i => ?_, fun a ha => ?_⟩
  · have := hm.mirrors i
    simp only [Polled.Mirrors, hm.fds i] at this
    rw [this]
    split <;> simp_all
  · obtain ⟨t, he, _⟩ := step_mirror hfd hm a ha
    exact ⟨t, he⟩

/-- One channel is enabled, disabled (so deleted) and removed, the other is disabled before it was ever
registered and stays in the interest set with an empty mask. -/
theorem registration_mirrors_status_two :
    ∃ s, Run step MayRun (fresh fun i : Bool => if i then 5 else 6) s ∧ (s.channels true).status = .NEW ∧
      (s.interest 6).isSome ∧ ∃ t, step (true, .enabledWritable) s = .ok () t := by
  have inj : Function.Injective fun i : Bool => if i then 5 else 6 := by
    intro i j; cases i <;> cases j <;> simp
  obtain ⟨s, run, h1, h2⟩ := Run.reaches step MayRun (fresh fun i : Bool => if i then 5 else 6)
    [(true, .enabledReadable), (true, .diabledAllEvents), (true, .remove), (false, .disabledWritable)]
    (fun s => (s.channels true).status = .NEW ∧ (s.channels false).status = .ADDED) (by decide) (by decide)
  have mirror := registration_mirrors_status _ inj s run
  exact ⟨s, run, h1, (mirror.1 false).1.2 h2, mirror.2 _ fun h => by cases h⟩

end PollSys

end NetServer
