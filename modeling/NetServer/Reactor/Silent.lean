import NetServer.Reactor.Registration
/-!
# Channels without interest in the interest set

`Epoller::updateChannel` takes an `ADDED` channel out of the interest set when it has no interest left, and looks at
the mask of no other channel: a disable of a channel that was never registered, or that has been taken out, puts it in
with an empty mask, and the kernel then reports `EPOLLHUP` on it. So a channel is registered exactly when it has interest as
long as no such call is made (`registered_iff_interest`).
-/

namespace NetServer
open Exec

variable {ι : Type}

/-- What the call makes of `events_`. -/
def ChannelOp.mask : ChannelOp → Mask → Mask
  | .enabledReadable, events => events ||| Channel.ReadableEvent
  | .enabledWritable, events => events ||| Channel.WritableEvent
  | .disabledReadable, events => events &&& ~~~Channel.ReadableEvent
  | .disabledWritable, events => events &&& ~~~Channel.WritableEvent
  | .diabledAllEvents, _ => Channel.NoEvent
  | .remove, events => events

/-- An enable or disable sets the mask and updates. -/
theorem ChannelOp.code_set (self : ι) {op : ChannelOp} (hop : op ≠ .remove) {p : Polled ι} (h : p.Known) :
    op.code self p = .ok () ⟨p.channel.set op.mask,
      Function.update p.interest p.channel.fd ((p.channel.set op.mask).registration self)⟩ := by
  cases op with
  | remove => exact absurd rfl hop
  | enabledReadable => exact setEvents_update_set self _ h
  | enabledWritable => exact setEvents_update_set self _ h
  | disabledReadable => exact setEvents_update_set self _ h
  | disabledWritable => exact setEvents_update_set self _ h
  | diabledAllEvents => exact setEvents_update_set self _ h

/-- **After an update** the channel is registered exactly when it has interest, unless it has none and was not registered
before. -/
theorem Channel.set_registered_iff (self : ι) (f : Mask → Mask) (ch : Channel) :
    (((ch.set f).registration self).isSome ↔ (ch.set f).events ≠ NoEvent) ↔ f ch.events ≠ NoEvent ∨ ch.status = .ADDED := by
  unfold registration set nextStatus
  by_cases hnone : f ch.events = NoEvent
  · by_cases hst : ch.status = .ADDED
    · simp [hnone, hst]
    · simp [hnone, hst]
  · simp [hnone]

namespace PollSys

/-- The channel is registered exactly when it has interest. -/
def Exact (s : PollSys ι) (i : ι) : Prop :=
  (s.interest (s.channels i).fd).isSome ↔ (s.channels i).events ≠ Channel.NoEvent

/-- The call leaves interest, or finds the channel registered. -/
def Heard (s : PollSys ι) (a : ι × ChannelOp) : Prop :=
  a.2.mask (s.channels a.1).events ≠ Channel.NoEvent ∨ (s.channels a.1).status = .ADDED

instance decidableHeard (s : PollSys ι) (a : ι × ChannelOp) : Decidable (Heard s a) := inferInstanceAs (Decidable (_ ∨ _))

/-- `remove` is called as its `assert` requires, and every other call is `Heard`. -/
def MayRunHeard (s : PollSys ι) (a : ι × ChannelOp) : Prop := MayRun s a ∧ (a.2 ≠ .remove → Heard s a)

instance decidableMayRunHeard (s : PollSys ι) (a : ι × ChannelOp) : Decidable (MayRunHeard s a) :=
  inferInstanceAs (Decidable (_ ∧ _))

section
variable [DecidableEq ι] {fd : ι → Fd} {s t : PollSys ι} {i : ι} {op : ChannelOp}

/-- An enable or disable, with what it makes of the system. -/
theorem step_set (h : Mirror fd s) (hop : op ≠ .remove) :
    step (i, op) s = .ok () ⟨Function.update s.channels i ((s.channels i).set op.mask),
      Function.update s.interest (s.channels i).fd (((s.channels i).set op.mask).registration i)⟩ := by
  have code := ChannelOp.code_set i hop (h.mirrors i).known
  simp [step, zoom, code]

/-- **One enable or disable** leaves its channel exact iff it is `Heard`. -/
theorem step_exact_iff (h : Mirror fd s) (hop : op ≠ .remove) (ht : step (i, op) s = .ok () t) :
    Exact t i ↔ Heard s (i, op) := by
  rw [step_set h hop] at ht
  cases ht
  have own : Function.update s.channels i ((s.channels i).set op.mask) i = (s.channels i).set op.mask :=
    Function.update_self ..
  unfold Exact Heard
  dsimp only
  rw [own, Channel.set_fd, Function.update_self]
  exact Channel.set_registered_iff i op.mask (s.channels i)

theorem step_exact_remove (h : Mirror fd s) (hr : MayRun s (i, .remove)) (ht : step (i, .remove) s = .ok () t) : Exact t i := by
  have code := Channel.remove_eq i (h.mirrors i).known (hr rfl)
  have none : (s.channels i).events = Channel.NoEvent := by
    simpa [Channel.isNoneEvent] using hr rfl
  simp only [step, zoom, ChannelOp.code, code, EStateM.Result.ok.injEq, true_and] at ht
  subst ht
  simp [Exact, none]

/-- A call on one channel leaves the others as they are. -/
theorem step_exact_other (hfd : Function.Injective fd) (h : Mirror fd s) {a : ι × ChannelOp} (ha : MayRun s a)
    (ht : step a s = .ok () t) {j : ι} (hj : j ≠ a.1) : Exact t j ↔ Exact s j := by
  obtain ⟨i, op⟩ := a
  obtain ⟨p, hp, -, -, hother⟩ := op.code_spec i (h.mirrors i).known ha
  simp only [step, zoom, hp, EStateM.Result.ok.injEq, true_and] at ht
  subst ht
  have hne : (s.channels j).fd ≠ (s.channels i).fd := by
    rw [h.fds j, h.fds i]
    intro he
    exact hj (hfd he)
  unfold Exact
  simp [hj, hother _ hne]

/-- **A run of calls that are all `Heard`** keeps every channel exact. -/
theorem run_exact (hfd : Function.Injective fd) (h : Run step MayRunHeard (fresh fd) s) : Mirror fd s ∧ ∀ i, Exact s i := by
  have start : Mirror fd (fresh fd) ∧ ∀ i, Exact (fresh fd) i :=
    ⟨mirror_fresh fd, fun i => by simp [Exact, fresh, Channel.new, Channel.NoEvent]⟩
  refine h.invariant (I := fun s => Mirror fd s ∧ ∀ i, Exact s i) start ?_
  rintro s ⟨i, op⟩ ⟨hm, hexact⟩ ⟨ha, hheard⟩
  obtain ⟨t, ht, hmt⟩ := step_mirror hfd hm (i, op) ha
  rw [ensures_ok ht]
  refine ⟨hmt, fun j => ?_⟩
  by_cases hj : j = i
  · subst hj
    by_cases hop : op = .remove
    · subst hop
      exact step_exact_remove hm ha ht
    · exact (step_exact_iff hm hop ht).2 (hheard hop)
  · exact (step_exact_other hfd hm ha ht hj).2 (hexact j)

end

/-- **Registered exactly with interest**: in every run whose calls are all `Heard` every channel is, whenever no call is
being made; and in any run, the next enable or disable leaves its channel so iff it is `Heard`. -/
theorem registered_iff_interest [DecidableEq ι] (fd : ι → Fd) (hfd : Function.Injective fd) :
    (∀ s, Run step MayRunHeard (fresh fd) s → ∀ i, (s.interest (fd i)).isSome ↔ (s.channels i).events ≠ Channel.NoEvent) ∧
    ∀ s, Run step MayRun (fresh fd) s → ∀ i op, op ≠ .remove →
      ∃ t, step (i, op) s = .ok () t ∧ (((t.interest (fd i)).isSome ↔ (t.channels i).events ≠ Channel.NoEvent) ↔
        op.mask (s.channels i).events ≠ Channel.NoEvent ∨ (s.channels i).status = .ADDED) := by
  constructor
  · intro s h i
    obtain ⟨hm, hexact⟩ := run_exact hfd h
    rw [← hm.fds i]
    exact hexact i
  · intro s h i op hop
    have hm := run_mirror hfd h
    obtain ⟨t, ht, hmt⟩ := step_mirror hfd hm (i, op) fun he => absurd he hop
    have exact := step_exact_iff hm hop ht
    unfold Exact at exact
    rw [hmt.fds i] at exact
    exact ⟨t, ht, exact⟩

/-- A channel is enabled, disabled, removed and enabled again, and would be disabled once too often on another one. -/
theorem registered_iff_interest_two :
    ∃ s, Run step MayRunHeard (fresh fun i : Bool => if i then 5 else 6) s ∧ (s.interest 5).isSome ∧
      ∃ t, step (false, .diabledAllEvents) s = .ok () t ∧ ¬ ((t.interest 6).isSome ↔ (t.channels false).events ≠ Channel.NoEvent) := by
  have inj : Function.Injective fun i : Bool => if i then 5 else 6 := by
    intro i j
    cases i <;> cases j <;> simp
  obtain ⟨s, run, hevents, hst⟩ := Run.reaches step MayRunHeard (fresh fun i : Bool => if i then 5 else 6)
    [(true, .enabledReadable), (true, .diabledAllEvents), (true, .remove), (true, .enabledWritable)]
    (fun s => (s.channels true).events ≠ Channel.NoEvent ∧ (s.channels false).status = .NEW) (by decide) (by decide)
  obtain ⟨exact, next⟩ := registered_iff_interest _ inj
  refine ⟨s, run, (exact s run true).2 hevents, ?_⟩
  obtain ⟨t, ht, hiff⟩ := next s (run.weaken fun _ _ ha => ha.1) false .diabledAllEvents (by decide)
  refine ⟨t, ht, fun hn => ?_⟩
  obtain hmask | hadded := hiff.1 hn
  · exact hmask rfl
  · rw [hst] at hadded
    cases hadded

/-- `diabledAllEvents` twice, as by two `handleClose`s: the second one registers the channel again, with an empty mask. -/
theorem not_registered_iff_interest_twice :
    ¬ ∀ (fd : Unit → Fd), Function.Injective fd → ∀ s, Run step MayRun (fresh fd) s → ∀ i,
      (s.interest (fd i)).isSome ↔ (s.channels i).events ≠ Channel.NoEvent := by
  intro exact
  have inj : Function.Injective fun _ : Unit => 5 := fun _ _ _ => rfl
  obtain ⟨s, run, hin, hnone⟩ := Run.reaches step MayRun (fresh fun _ : Unit => 5)
    [((), .enabledReadable), ((), .diabledAllEvents), ((), .diabledAllEvents)]
    (fun s => (s.interest 5).isSome ∧ (s.channels ()).events = Channel.NoEvent) (by decide) (by decide)
  exact (exact _ inj s run ()).1 hin hnone

end PollSys

end NetServer
