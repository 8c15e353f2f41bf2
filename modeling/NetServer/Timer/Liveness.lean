import NetServer.Timer.Firing
import NetServer.Timer.Wakeup
/-!
# Every timer fires

`durationFromNow` arms the timerfd for a thousandth of the time that is left, but for a microsecond at least, so the loop
wakes up early, finds nothing expired and arms again. `Turns` says what this comes to: a wake-up is at least a microsecond
later than the one before it, so that a timer which is queued fires, or is cancelled, within as many wake-ups as there are
microseconds to its deadline (`timer_fires`). `TimerClock` is a queue on the clock that the timerfd counts on.
-/

namespace NetServer.Timers
open Exec

structure TimerClock where
  queue : TimerQueue
  clock : Int
  /-- How often `handleTimingRead` was called. -/
  wakeups : Nat

def TimerClock.init : TimerClock := ⟨.init, 0, 0⟩

inductive ClockAct where
  | tick (d : Nat)
  /-- The kernel: the timer that is set expires. -/
  | expire
  /-- User code outside of every timer callback. -/
  | call (x : Call)
  | wakeup (curr : Int) (callbacks : TimerPtr → Script) (now : Int)

/-- The clock readings of a call, the last one being that of `durationFromNow`. -/
def Call.readings : Call → List Int
  | .addTimer _ _ _ now | .runAt _ _ now => [now]
  | .runAfter _ _ now now' | .runEvery _ _ now now' => [now, now']
  | .cancelTimer _ | .expire => []

/-- The clock when a call that started at `clock` returns. -/
def Call.after (clock : Int) (x : Call) : Int := x.readings.getLastD clock

def onTimers (x : M Unit) : EStateM Fault TimerClock Unit := zoom TimerClock.queue (fun q s => { s with queue := q }) x

def clockStep : ClockAct → EStateM Fault TimerClock Unit
  | .tick d => modify fun s => { s with clock := s.clock + d }
  | .expire => onTimers Timers.expire
  | .call x => do
    onTimers x.run
    modify fun s => { s with clock := x.after s.clock }
  | .wakeup curr callbacks now => do
    onTimers (handleTimingRead curr callbacks now)
    modify fun s => { s with clock := now, wakeups := s.wakeups + 1 }

/-- The clock does not go back, and the timer does not expire before its time. -/
def ClockAct.onTime (s : TimerClock) : ClockAct → Prop
  | .tick _ => True
  | .expire => ∀ a ∈ s.queue.timerfd.armed, a.expiry ≤ s.clock
  | .call x => x ≠ .expire ∧ (s.clock :: x.readings).Pairwise (· ≤ ·)
  | .wakeup curr _ now => s.clock ≤ curr ∧ curr ≤ now

instance decidableOnTime (s : TimerClock) : ∀ a : ClockAct, Decidable (a.onTime s)
  | .tick _ => .isTrue trivial
  | .expire => inferInstanceAs (Decidable (∀ a ∈ s.queue.timerfd.armed, a.expiry ≤ s.clock))
  | .call _ => inferInstanceAs (Decidable (_ ∧ _))
  | .wakeup _ _ _ => inferInstanceAs (Decidable (_ ∧ _))

/-! ## One entry -/

/-- The events in which the wait of an entry ends. -/
def Ended (e : Entry) (evs : List TimerEvent) : Prop :=
  (e.timer, e.time) ∈ runs evs ∨ .canceled e.timer true ∈ evs

/-- Since the trace was `base`, the timer of the entry has been run for its deadline or cancelled, or the entry is queued
(`kept`) or in the part of the batch that has not been run. -/
def Waiting (base : List TimerEvent) (e : Entry) (kept : Prop) (batch : List Entry) (running : Bool) (q : TimerQueue) : Prop :=
  ∃ evs, q.trace = base ++ evs ∧
    (Ended e evs ∨ (kept ∧ e ∈ q.timerList.elems) ∨ e ∈ batch.drop (if running then 1 else 0))

namespace Waiting

variable {base : List TimerEvent} {e : Entry} {kept : Prop} {batch : List Entry} {running : Bool} {q : TimerQueue}

/-- More events, while the entries stay where they are. -/
theorem later (h : Waiting base e kept batch running q) {q' : TimerQueue} {batch' : List Entry} {running' : Bool}
    (new : List TimerEvent) (htr : q'.trace = q.trace ++ new)
    (hlist : e ∈ q.timerList.elems → Ended e new ∨ e ∈ q'.timerList.elems)
    (hbatch : e ∈ batch.drop (if running then 1 else 0) → Ended e new ∨ e ∈ batch'.drop (if running' then 1 else 0)) :
    Waiting base e kept batch' running' q' := by
  obtain ⟨evs, hevs, h⟩ := h
  have old : Ended e evs → Ended e (evs ++ new) := fun h =>
    h.imp (fun h => by rw [runs_append]; exact List.mem_append_left _ h) (List.mem_append_left _)
  have last : Ended e new → Ended e (evs ++ new) := fun h =>
    h.imp (fun h => by rw [runs_append]; exact List.mem_append_right _ h) (List.mem_append_right _)
  refine ⟨evs ++ new, by rw [htr, hevs, List.append_assoc], ?_⟩
  obtain h | ⟨hk, h⟩ | h := h
  · exact .inl (old h)
  · exact (hlist h).imp last fun h => .inl ⟨hk, h⟩
  · exact (hbatch h).imp last .inr

theorem effect (h : Waiting base e kept batch running q) {inv : List Entry} (hi : Inv inv q) {cancels : Bool}
    {q' : TimerQueue} (he : Effect q cancels q') : Waiting base e kept batch running q' := by
  cases he with
  | @added t when interval _ _ _ free =>
    exact h.later [.added t when interval] rfl
      (fun h => .inr ((OrdSet.mem_insert (hi.key_free free when)).2 (.inr h))) .inr
  | expired => exact h.later [] (List.append_nil _).symm .inr .inr
  | @canceled t timer live =>
    refine h.later [.deleted t, .canceled t (q.queued t)] (List.append_assoc ..) (fun h => ?_) .inr
    by_cases het : e.timer = t
    · have queued : q.queued t = true := List.any_eq_true.2 ⟨e, h, by simp [het]⟩
      exact .inl (.inr (by simp [queued, het]))
    · exact .inr (OrdSet.mem_erase.2 ⟨h, fun hk => het ((hi.key_iff live h).1 hk)⟩)

end Waiting

/-- **The loop** leaves no entry of the batch that has not been run. -/
theorem carried_waiting (base : List TimerEvent) (e : Entry) (kept : Prop) (curr : Int) :
    Carried curr true (Waiting base e kept) where
  fd _ h := h
  effect hi h he _ := h.effect hi he
  run {x batch q timer} hi h ht _ := by
    refine h.later [.run x.timer timer.timing] rfl .inr fun hin => ?_
    obtain rfl | hin := List.mem_cons.1 hin
    · have htime := hi.pending e (List.mem_cons_self ..) timer ht
      exact .inl (.inl (by simp [runs, TimerEvent.ran, htime]))
    · exact .inr hin
  rearm hi h ht _ := by
    have hkey := hi.key_own ht (hi.once _ (List.mem_cons_self ..))
    exact h.later [] (List.append_nil _).symm (fun h => .inr ((OrdSet.mem_insert (hkey _)).2 (.inr h))) .inr
  finish {x batch q timer} _ h _ _ := h.later [.deleted x.timer] rfl .inr .inr

/-- **`handleTimingRead`** runs the timer of every entry that is due, or it was cancelled. -/
theorem handleTimingRead_waiting {base : List TimerEvent} {e : Entry} {kept : Prop} {q : TimerQueue} (hi : Inv [] q)
    (h : Waiting base e kept [] false q) (curr : Int) (callbacks : TimerPtr → Script) (now : Int) :
    Ensures (handleTimingRead curr callbacks now) q
      (fun _ q' => Waiting base e (kept ∧ curr < e.time) [] false q') fun _ _ => True := by
  refine ((carried_waiting base e (kept ∧ curr < e.time) curr).handleTimingRead callbacks (fun _ _ _ _ => rfl) now
    (Waiting base e kept [] false) hi h fun q hi h => ?_).mono (fun _ _ h => h.2.1) fun _ _ _ => trivial
  obtain ⟨evs, hevs, h | ⟨hk, hin⟩ | h⟩ := h
  · exact ⟨evs, hevs, .inl h⟩
  · refine ⟨evs, hevs, .inr ?_⟩
    by_cases hlt : e.key < toLex (curr + 1, UINTPTR_MAX)
    · right
      rw [OrdSet.below_eq]
      exact List.mem_filter.2 ⟨hin, by simpa using hlt⟩
    · left
      refine ⟨⟨hk, Int.not_le.1 fun hle => hlt (Entry.key_lt_cut hle)⟩, ?_⟩
      rw [OrdSet.above_eq]
      exact List.mem_filter.2 ⟨hin, by simpa using hlt⟩
  · exact absurd h (by simp)

theorem Waiting.keep {base : List TimerEvent} {e : Entry} {kept kept' : Prop} {batch : List Entry} {running : Bool}
    {q : TimerQueue} (h : Waiting base e kept batch running q) (hk : kept → e ∈ q.timerList.elems → kept') :
    Waiting base e kept' batch running q := by
  obtain ⟨evs, hevs, h⟩ := h
  exact ⟨evs, hevs, h.imp id (.imp (fun h => ⟨hk h.1 h.2, h.2⟩) id)⟩

/-! ## The timerfd -/

/-- User code arms it for a microsecond at least. -/
theorem Call.run_timerfd (x : Call) (hx : x ≠ .expire) (clock : Int) (q : TimerQueue) :
    Ensures x.run q
      (fun _ q' => q'.timerfd = q.timerfd ∨ ∃ a, q'.timerfd = ⟨some a, false⟩ ∧ x.after clock + 1000 ≤ a.expiry)
      fun _ _ => True := by
  have added : ∀ (when interval : Int) (addr : Nat) (now : Int), Ensures (Timers.addTimer when interval addr now) q
      (fun _ q' => q'.timerfd = q.timerfd ∨ ∃ a, q'.timerfd = ⟨some a, false⟩ ∧ now + 1000 ≤ a.expiry) fun _ _ => True := by
    intro when interval addr now
    simp only [Timers.addTimer, newTimer, ensures_bind, ensures_get, ensures_ite, ensures_set, ensures_pure, ensures_throw,
      ensures_emit, ensures_insertEntry]
    refine ⟨fun _ => ⟨fun _ => ?_, fun _ => .inl trivial⟩, fun _ => trivial⟩
    refine (setTimerfd_armed when now _).mono ?_ fun _ _ _ => trivial
    rintro _ _ rfl
    have least : 1000 ≤ microsFromNow when now := Int.le_max_right ..
    exact .inr ⟨_, rfl, by simp only; omega⟩
  cases x with
  | addTimer when interval addr now =>
    rw [Call.run, ensures_bind]
    exact added when interval addr now
  | runAt when addr now =>
    rw [Call.run, Timers.runAt, ensures_bind]
    exact added when 0 addr now
  | runAfter delay addr now now' =>
    rw [Call.run, Timers.runAfter, ensures_bind]
    refine ensures_plus ?_ trivial
    rw [Timers.runAt, ensures_bind]
    exact added _ 0 addr now'
  | runEvery interval addr now now' =>
    rw [Call.run, Timers.runEvery, ensures_bind]
    refine ensures_plus ?_ trivial
    rw [ensures_bind]
    exact added _ interval addr now'
  | cancelTimer t =>
    simp only [Call.run, userTimer, ensures_bind, ensures_get, ensures_ite, ensures_pure, ensures_throw]
    refine ⟨fun ht => ?_, fun _ => trivial⟩
    obtain ⟨timer, live⟩ := Option.isSome_iff_exists.1 ht
    refine (cancelTimer_spec live).mono ?_ fun _ _ _ => trivial
    rintro _ _ rfl
    exact .inl rfl
  | expire => exact absurd rfl hx

/-- `handleTimingRead` starts with an expiration to read, and arms the timerfd again while entries are left. -/
theorem handleTimingRead_timerfd (curr : Int) (callbacks : TimerPtr → Script) (now : Int) (q : TimerQueue) :
    Ensures (handleTimingRead curr callbacks now) q
      (fun _ q' => q.timerfd.unread = true ∧
        (q'.timerList.elems ≠ [] → ∃ a, q'.timerfd = ⟨some a, false⟩ ∧ now + 1000 ≤ a.expiry))
      fun _ _ => True := by
  have rearmed : ∀ q₂ : TimerQueue, Ensures (rearmTimerfd now) q₂
      (fun _ q' => q'.timerList.elems ≠ [] → ∃ a, q'.timerfd = ⟨some a, false⟩ ∧ now + 1000 ≤ a.expiry) fun _ _ => True := by
    intro q₂
    rw [rearmTimerfd, ensures_bind, ensures_get]
    cases hf : q₂.timerList.first with
    | none => exact fun hne => absurd (List.head?_eq_none_iff.1 hf) hne
    | some x =>
      refine (setTimerfd_armed x.time now q₂).mono ?_ fun _ _ _ => trivial
      rintro _ _ rfl _
      have least : 1000 ≤ microsFromNow x.time now := Int.le_max_right ..
      exact ⟨_, rfl, by simp only; omega⟩
  simp only [handleTimingRead_parts, readTimerfd, ensures_bind, ensures_get, ensures_set, ensures_assert]
  refine ⟨fun hread => ?_, fun _ => trivial⟩
  have unread : q.timerfd.unread = true := by
    by_contra hn
    simp [hn] at hread
  exact .of_forall fun expired q₁ => .of_forall fun _ q₂ =>
    (rearmed q₂).mono (fun _ _ h => ⟨unread, h⟩) fun _ _ _ => trivial

/-! ## Wake-ups -/

/-- How late it is, by the wake-ups since `s₀`, while an entry waits. -/
structure Slow (s₀ : TimerClock) (e : Entry) (s : TimerClock) : Prop where
  clock : s₀.clock + 1000 * (s.wakeups - s₀.wakeups) ≤ s.clock + 1000
  armed : ∀ a ∈ s.queue.timerfd.armed, s₀.clock + 1000 * (s.wakeups - s₀.wakeups) ≤ max a.expiry s.clock
  unread : s.queue.timerfd.unread = true → s₀.clock + 1000 * (s.wakeups - s₀.wakeups) ≤ s.clock
  early : s.wakeups = s₀.wakeups ∨ s₀.clock + 1000 * (s.wakeups - s₀.wakeups) < e.time + 1000

theorem Call.le_after {clock : Int} {x : Call} (h : (clock :: x.readings).Pairwise (· ≤ ·)) : clock ≤ x.after clock := by
  cases x with
  | addTimer | runAt | runAfter | runEvery => simp_all [Call.readings, Call.after]
  | cancelTimer | expire => exact Int.le_refl _

/-- **One step** on the clock. -/
theorem clockStep_waiting {s₀ s : TimerClock} {base : List TimerEvent} {e : Entry} (hi : Inv [] s.queue)
    (hawake : Awake s.queue) (h : Waiting base e (Slow s₀ e s) [] false s.queue) {a : ClockAct} (ha : a.onTime s) :
    Ensures (clockStep a) s
      (fun _ t => Inv [] t.queue ∧ Awake t.queue ∧ Waiting base e (Slow s₀ e t) [] false t.queue) fun _ _ => True := by
  cases a with
  | tick d =>
    refine ⟨hi, hawake, h.keep fun hs _ => ⟨?_, fun a ha => ?_, fun hu => ?_, hs.early⟩⟩
    · have := hs.clock
      simp only
      omega
    · have := hs.armed a ha
      simp only
      omega
    · have := hs.unread hu
      simp only
      omega
  | expire =>
    rw [clockStep, onTimers, ensures_zoom]
    have expires : Ensures Timers.expire s.queue
        (fun _ q' => q' = { s.queue with timerfd := ⟨none, true⟩ } ∧ s.queue.timerfd.armed.isSome) fun _ _ => True := by
      simp only [Timers.expire, ensures_bind, ensures_get, ensures_ite, ensures_set, ensures_throw]
      exact ⟨fun h => ⟨trivial, h⟩, fun _ => trivial⟩
    refine ((step_awake (.call .expire) hi hawake).and expires).mono ?_ fun _ _ _ => trivial
    rintro _ _ ⟨⟨hi', hawake'⟩, rfl, armed⟩
    refine ⟨hi', hawake', (h.effect hi (.expired armed)).keep fun hs _ => ?_⟩
    obtain ⟨x, hx⟩ := Option.isSome_iff_exists.1 armed
    have hlate := hs.armed x hx
    have hexp : x.expiry ≤ s.clock := ha x hx
    exact ⟨hs.clock, fun _ hy => absurd hy.symm (Option.some_ne_none _), fun _ => by simp only; omega, hs.early⟩
  | call x =>
    obtain ⟨hx, hread⟩ := ha
    have later := x.le_after hread
    rw [clockStep, ensures_bind, onTimers, ensures_zoom]
    refine ((step_awake (.call x) hi hawake).and ((x.run_spec s.queue).and (x.run_timerfd hx s.clock s.queue))).mono ?_
      fun _ _ _ => trivial
    rintro _ q' ⟨⟨hi', hawake'⟩, he, hfd⟩
    refine ⟨hi', hawake', (h.effect hi he).keep fun hs _ => ?_⟩
    have hclock := hs.clock
    refine ⟨by simp only; omega, fun y hy => ?_, fun hu => ?_, hs.early⟩
    · simp only at hy ⊢
      obtain hfd | ⟨z, hfd, hz⟩ := hfd
      · rw [hfd] at hy
        have := hs.armed y hy
        omega
      · rw [hfd] at hy
        cases hy
        omega
    · simp only at hu ⊢
      obtain hfd | ⟨z, hfd, -⟩ := hfd
      · rw [hfd] at hu
        have := hs.unread hu
        omega
      · rw [hfd] at hu
        cases hu
  | wakeup curr callbacks now =>
    obtain ⟨hcurr, hnow⟩ := ha
    rw [clockStep, ensures_bind, onTimers, ensures_zoom]
    refine (((step_awake (.handleTimingRead curr callbacks now) hi hawake).and
      (handleTimingRead_timerfd curr callbacks now s.queue)).and
      (handleTimingRead_waiting hi h curr callbacks now)).mono ?_ fun _ _ _ => trivial
    rintro _ q' ⟨⟨⟨hi', hawake'⟩, hunread, hfd⟩, h'⟩
    refine ⟨hi', hawake', h'.keep fun hs hin => ?_⟩
    obtain ⟨hs, hwait⟩ := hs
    obtain ⟨x, hx, hexp⟩ := hfd (List.ne_nil_of_mem hin)
    have hlate := hs.unread hunread
    refine ⟨?_, fun y hy => ?_, fun hu => ?_, .inr ?_⟩
    · simp only [Int.natCast_add, Int.cast_ofNat_Int]
      omega
    · simp only [hx] at hy
      cases hy
      simp only [Int.natCast_add, Int.cast_ofNat_Int]
      omega
    · simp [hx] at hu
    · simp only [Int.natCast_add, Int.cast_ofNat_Int]
      omega

/-- What is queued at `s₀` waits from there on. -/
theorem waiting_start {s : TimerClock} {e : Entry} (he : e ∈ s.queue.timerList.elems) :
    Waiting s.queue.trace e (Slow s e s) [] false s.queue := by
  refine ⟨[], (List.append_nil _).symm, .inr (.inl ⟨⟨?_, fun a _ => ?_, fun _ => ?_, .inl rfl⟩, he⟩)⟩ <;> omega

/-- The queue of a run on the clock. -/
theorem clockStep_inv {s : TimerClock} (hi : Inv [] s.queue) (h : Awake s.queue) (a : ClockAct) :
    Ensures (clockStep a) s (fun _ t => Inv [] t.queue ∧ Awake t.queue) fun _ _ => True := by
  cases a with
  | tick d => exact ⟨hi, h⟩
  | expire =>
    rw [clockStep, onTimers, ensures_zoom]
    exact step_awake (.call .expire) hi h
  | call x =>
    rw [clockStep, ensures_bind, onTimers, ensures_zoom]
    exact step_awake (.call x) hi h
  | wakeup curr callbacks now =>
    rw [clockStep, ensures_bind, onTimers, ensures_zoom]
    exact step_awake (.handleTimingRead curr callbacks now) hi h

/-- **Every timer fires**: in every run on a clock, let an entry be queued between two calls on the timers. Between any two later
ones its timer has been run for its deadline, or cancelled while it was queued, or it waits: then the timerfd has an unread
expiration or is set, and the loop has woken up no oftener than there were microseconds left, and once more. What
`handleTimingRead` or user code do in between makes no difference. -/
theorem timer_fires (s₀ s : TimerClock) (h₀ : Run clockStep (fun s a => a.onTime s) .init s₀) (e : Entry)
    (he : e ∈ s₀.queue.timerList.elems) (h : Run clockStep (fun s a => a.onTime s) s₀ s) :
    ∃ evs, s.queue.trace = s₀.queue.trace ++ evs ∧
      ((e.timer, e.time) ∈ runs evs ∨ .canceled e.timer true ∈ evs ∨
        e ∈ s.queue.timerList.elems ∧ (s.queue.timerfd.unread = true ∨ s.queue.timerfd.armed.isSome) ∧
          (s.wakeups = s₀.wakeups ∨ 1000 * (s.wakeups - s₀.wakeups - 1 : Int) < e.time - s₀.clock)) := by
  obtain ⟨hi, hawake⟩ : Inv [] s₀.queue ∧ Awake s₀.queue :=
    h₀.invariant ⟨inv_init, .init⟩ fun s a hs _ => clockStep_inv hs.1 hs.2 a
  obtain ⟨-, hawake', evs, hevs, hw⟩ := h.invariant
    (I := fun s => Inv [] s.queue ∧ Awake s.queue ∧ Waiting s₀.queue.trace e (Slow s₀ e s) [] false s.queue)
    ⟨hi, hawake, waiting_start he⟩ fun s a hs ha => clockStep_waiting hs.1 hs.2.1 hs.2.2 ha
  refine ⟨evs, hevs, ?_⟩
  obtain (ran | canceled) | ⟨hs, hin⟩ | hnil := hw
  · exact .inl ran
  · exact .inr (.inl canceled)
  · refine .inr (.inr ⟨hin, hawake'.set (List.ne_nil_of_mem hin), hs.early.imp id fun hearly => ?_⟩)
    omega
  · exact absurd hnil (by simp)

/-- A deadline three microseconds away: the loop wakes up every microsecond, and its fourth wake-up runs the timer. -/
theorem timer_fires_fourth :
    ∃ (s₀ s : TimerClock) (evs : List TimerEvent), Run clockStep (fun s a => a.onTime s) .init s₀ ∧
      Run clockStep (fun s a => a.onTime s) s₀ s ∧ s₀.clock = 1000 ∧ s.wakeups = s₀.wakeups + 4 ∧
      s.queue.trace = s₀.queue.trace ++ evs ∧ ((⟨16, 0⟩, 4000) ∈ runs evs ∨ .canceled ⟨16, 0⟩ true ∈ evs) := by
  let turns : List ClockAct := [.wakeup 1000 (fun _ => []) 1000, .tick 1000, .expire, .wakeup 2000 (fun _ => []) 2000,
    .tick 1000, .expire, .wakeup 3000 (fun _ => []) 3000, .tick 1000, .expire, .wakeup 4000 (fun _ => []) 4000]
  obtain ⟨s₀, run, hclock, hin, hmeets, hsteps⟩ := Run.reaches clockStep (fun s a => a.onTime s) .init
    [.call (.addTimer 4000 0 16 0), .tick 1000, .expire]
    (fun s₀ => s₀.clock = 1000 ∧ ⟨4000, ⟨16, 0⟩⟩ ∈ s₀.queue.timerList.elems ∧ Meets clockStep (fun s a => a.onTime s) turns s₀ ∧
      Ensures (steps clockStep turns) s₀ (fun _ s => s.wakeups = s₀.wakeups + 4) fun _ _ => False)
    (by decide +kernel) (by decide +kernel)
  obtain ⟨_, s, he, hwakeups⟩ := hsteps.returns
  have later := Run.start.steps hmeets he
  obtain ⟨evs, hevs, hended⟩ := timer_fires s₀ s run _ hin later
  refine ⟨s₀, s, evs, run, later, hclock, hwakeups, hevs, ?_⟩
  rw [hclock, hwakeups] at hended
  obtain ran | canceled | ⟨-, -, hslow⟩ := hended
  · exact .inl ran
  · exact .inr canceled
  · simp only at hslow
    omega

end NetServer.Timers
