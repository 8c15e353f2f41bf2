import NetServer.Timer.Inv
/-!
# How long the timerfd is armed for (v1.7/src/TimerQueue.cpp:32)

`durationFromNow` counts microseconds and splits the count by `std::nano::den`, as if it counted nanoseconds: the
timespec is in normal form and not zero, and it is a thousandth of the duration (`armed_duration_never`). Every timer
still fires, after a thousand wake-ups that find nothing expired.
-/

namespace NetServer.Timers
open Exec

/-- The timespec is in normal form, not zero, and the duration it stands for is the one that was counted. -/
structure RealDuration (when now : Int) (ts : Int × Int) : Prop where
  sec : 0 ≤ ts.1
  nsec : 0 ≤ ts.2 ∧ ts.2 < 1000000000
  nonzero : ts ≠ (0, 0)
  real : ts.1 * 1000000000 + ts.2 = 1000 * max ((when - now).tdiv 1000) 1000

/-- **The armed duration is never the real one**: for every deadline and every clock value, `durationFromNow` returns the
count of microseconds as nanoseconds, and the timerfd expires too early. -/
theorem armed_duration_never (when now : Int) (h : -2 ^ 63 ≤ when - now ∧ when - now < 2 ^ 63) (q : TimerQueue) :
    (¬ Ensures (durationFromNow when now) q (fun ts _ => RealDuration when now ts) fun _ _ => False) ∧
    Ensures (setTimerfd when now) q (fun _ q' => ∃ a, q'.timerfd.armed = some a ∧ a.setAt = now ∧
      a.expiry = now + max ((when - now).tdiv 1000) 1000 ∧ a.expiry < now + max (when - now) 1000000) fun _ _ => False := by
  constructor
  · intro real
    have returns := (durationFromNow_spec when now q).mono (fun _ _ ht => ht) fun _ _ he => he.2.2 h
    obtain ⟨ts, q', hts, -, -, -, -, htotal⟩ := returns.returns
    have hreal := ((ensures_ok hts).1 real).real
    unfold microsFromNow at htotal
    omega
  · refine (setTimerfd_armed when now q).mono ?_ fun _ _ he => he.2.2 h
    rintro _ _ rfl
    have early := microsFromNow_early when now
    exact ⟨_, rfl, rfl, rfl, by simp only; omega⟩

/-- A deadline two seconds away. -/
theorem armed_duration_never_two :
    (¬ Ensures (durationFromNow 2000000000 0) .init (fun ts _ => RealDuration 2000000000 0 ts) fun _ _ => False) ∧
    Ensures (setTimerfd 2000000000 0) .init (fun _ q' => ∃ a, q'.timerfd.armed = some a ∧ a.setAt = 0 ∧
      a.expiry = 2000000 ∧ a.expiry < 2000000000) fun _ _ => False :=
  armed_duration_never 2000000000 0 (by decide) .init

/-- A deadline two seconds away is armed for two milliseconds. -/
theorem not_armed_duration_two :
    ¬ ∀ when now : Int, -2 ^ 63 ≤ when - now ∧ when - now < 2 ^ 63 → ∀ q : TimerQueue,
      Ensures (durationFromNow when now) q (fun ts _ => RealDuration when now ts) fun _ _ => False := by
  intro real
  have short : Ensures (durationFromNow 2000000000 0) .init (fun ts _ => ts = (0, 2000000)) fun _ _ => False := by
    decide
  obtain ⟨ts, q', hts, rfl⟩ := short.returns
  have hreal := ((ensures_ok hts).1 (real 2000000000 0 (by decide) .init)).real
  revert hreal
  decide

end NetServer.Timers
