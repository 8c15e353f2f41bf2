import NetServer.Timer.Cancel
/-!
# The entries of `timerList_`

The key of an entry is a copy of the timer's `timing_`, which `restart` changes while the entry is in the local vector, and
`cancelTimer` finds the entry by a key that it makes of `timing_`. User code runs in the middle of that: `handleTimingReadUpTo`
is the call up to any point of any of its callbacks. At every such point, as between two operations (`Point`), copy and
field agree and a timer has one entry, in `timerList_` or in the rest of the batch (`entries_exact`).
-/

namespace NetServer.Timers
open Exec

/-! ## The points at which user code is in control -/

/-- `handleTimingRead` until its callback number `n` has made `m` calls: what is left of the batch and of the callback. -/
def handleTimingReadUpTo (curr : Int) (callbacks : TimerPtr → Script) (n m : Nat) : M (List Entry × Script) := do
  readTimerfd
  let expired ← getExpired curr
  runAllExpired curr callbacks (expired.take n)
  match expired.drop n with
  | [] => pure ([], [])
  | e :: rest => do
    if ← enterExpired curr e then
      Script.run ((callbacks e.timer).take m)
      pure (e :: rest, (callbacks e.timer).drop m)
    else
      pure (e :: rest, [])

/-- The rest of `handleTimingRead`. -/
def handleTimingReadFrom (curr : Int) (callbacks : TimerPtr → Script) (now : Int) (batch : List Entry) (calls : Script) : M Unit := do
  calls.run
  match batch with
  | [] => pure ()
  | e :: rest => do
    leaveExpired e
    runAllExpired curr callbacks rest
  rearmTimerfd now

theorem runAllExpired_append (curr : Int) (callbacks : TimerPtr → Script) (done left : List Entry) :
    runAllExpired curr callbacks (done ++ left) = (do
      runAllExpired curr callbacks done
      runAllExpired curr callbacks left) := by
  induction done with
  | nil => simp [runAllExpired]
  | cons e done ih => simp only [List.cons_append, runAllExpired, ih, bind_assoc]

/-- **`handleTimingRead` comes through each of these points**. -/
theorem handleTimingRead_eq (curr : Int) (callbacks : TimerPtr → Script) (now : Int) (n m : Nat) :
    handleTimingRead curr callbacks now = (do
      let left ← handleTimingReadUpTo curr callbacks n m
      handleTimingReadFrom curr callbacks now left.1 left.2) := by
  rw [handleTimingRead_parts]
  simp only [handleTimingReadUpTo, bind_assoc]
  refine bind_congr fun _ => bind_congr fun expired => ?_
  conv_lhs => rw [← List.take_append_drop n expired, runAllExpired_append]
  rw [bind_assoc]
  refine bind_congr fun _ => ?_
  cases expired.drop n with
  | nil =>
    simp only [runAllExpired, handleTimingReadFrom, Script.run, steps, pure_bind]
  | cons e rest =>
    simp only [runAllExpired, runExpired_eq, bind_assoc]
    refine bind_congr fun called => ?_
    cases called with
    | false =>
      simp only [Bool.false_eq_true, if_false, handleTimingReadFrom, Script.run, steps, pure_bind]
    | true =>
      simp only [if_true, handleTimingReadFrom, Script.run, pure_bind, bind_assoc]
      conv_lhs => rw [← List.take_append_drop m (callbacks e.timer), steps_append]
      rw [bind_assoc]

/-- User code is in control: between two operations, or in the callback of the first timer of `batch`, which is what
`handleTimingRead` has not processed. -/
inductive Point : List Entry → TimerQueue → Prop where
  | between {q : TimerQueue} (run : Run step (fun _ _ => True) .init q) : Point [] q
  | within {q₀ q : TimerQueue} {curr : Int} {callbacks : TimerPtr → Script} {n m : Nat} {batch : List Entry} {calls : Script}
      (run : Run step (fun _ _ => True) .init q₀) (reached : handleTimingReadUpTo curr callbacks n m q₀ = .ok (batch, calls) q) :
      Point batch q

/-- **Up to a point**, what the loop carries holds of the rest of the batch. -/
theorem Carried.handleTimingReadUpTo {curr : Int} {cancels : Bool} {J : List Entry → Bool → TimerQueue → Prop}
    (hJ : Carried curr cancels J) (callbacks : TimerPtr → Script)
    (hs : ∀ t, ∀ x ∈ callbacks t, x.cancels = true → cancels = true) (n m : Nat) (J₀ : TimerQueue → Prop) {q : TimerQueue}
    (hi : Inv [] q) (hj₀ : J₀ { q with timerfd := { q.timerfd with unread := false } })
    (hsplit : ∀ q : TimerQueue, Inv [] q → J₀ q → J (q.timerList.below (toLex (curr + 1, UINTPTR_MAX))) false
      { q with timerList := q.timerList.above (toLex (curr + 1, UINTPTR_MAX)) }) :
    Ensures (handleTimingReadUpTo curr callbacks n m) q (fun left q' => Inv left.1 q' ∧ ∃ running, J left.1 running q')
      fun _ _ => True := by
  rw [Timers.handleTimingReadUpTo, ← bind_assoc, ensures_bind]
  refine (readExpired_spec J₀ hi hj₀ hsplit).mono ?_ fun _ _ _ => trivial
  rintro expired q₁ ⟨hi₁, hj₁⟩
  rw [← List.take_append_drop n expired] at hi₁ hj₁
  rw [ensures_bind]
  refine (hJ.runAllExpired callbacks hs (expired.drop n) hi₁ hj₁).mono ?_ fun _ _ _ => trivial
  rintro _ q₂ ⟨hi₂, hj₂⟩
  cases hleft : expired.drop n with
  | nil =>
    rw [hleft] at hi₂ hj₂
    exact ⟨hi₂, false, hj₂⟩
  | cons e rest =>
    rw [hleft] at hi₂ hj₂
    dsimp only
    rw [ensures_bind]
    refine (hJ.enterExpired hi₂ hj₂).mono ?_ fun _ _ _ => trivial
    rintro _ q₃ ⟨rfl, hi₃, hj₃⟩
    rw [if_pos rfl, ensures_bind]
    have some_calls : ∀ x ∈ (callbacks e.timer).take m, x.cancels = true → cancels = true := fun x hx =>
      hs e.timer x (List.mem_of_mem_take hx)
    exact (hJ.script _ some_calls hi₃ hj₃).mono (fun _ _ h => ⟨h.1, true, h.2⟩) fun _ _ _ => trivial

theorem Point.kept {batch : List Entry} {q : TimerQueue} (h : Point batch q) : Inv batch q ∧ Alive batch q := by
  cases h with
  | between run => exact ⟨(run_settled run).1, fun _ => by simp⟩
  | @within q₀ q curr callbacks n m batch calls run reached =>
    obtain ⟨hi, hs⟩ := run_settled run
    have read : Settled { q₀ with timerfd := { q₀.timerfd with unread := false } } := ⟨hs.gone, hs.order⟩
    have carried := (carried_cancel curr).handleTimingReadUpTo callbacks (fun _ _ _ _ => rfl) n m Settled hi read
      fun p hp hs => settled_due curr hp hs
    obtain ⟨hi', _, hj⟩ := (ensures_ok reached).1 carried
    exact ⟨hi', hj.2⟩

/-! ## Entries and timers -/

/-- The entries of `timerList_` and of the rest of the batch are those of live timers, one of each. -/
structure Represents (batch : List Entry) (q : TimerQueue) : Prop where
  live : ∀ e ∈ q.timerList.elems ++ batch, ∃ timer, q.timers e.timer = some timer ∧ timer.canceled = false ∧ e.time = timer.timing
  apart : (q.timerList.elems ++ batch).Pairwise (·.timer.addr ≠ ·.timer.addr)

namespace Inv

variable {q : TimerQueue} {batch : List Entry}

theorem represents (h : Inv batch q) (hb : ∀ e ∈ batch, (q.timers e.timer).isSome) : Represents batch q := by
  have live : ∀ e ∈ q.timerList.elems ++ batch, ∃ timer, q.timers e.timer = some timer ∧ timer.timing = e.time := by
    intro e he
    obtain he | he := List.mem_append.1 he
    · exact h.queued e he
    · obtain ⟨timer, ht⟩ := Option.isSome_iff_exists.1 (hb e he)
      exact ⟨timer, ht, h.pending e he timer ht⟩
  -- of live timers, different ones have different addresses
  have apart : ∀ x ∈ q.timerList.elems ++ batch, ∀ y ∈ q.timerList.elems ++ batch, x.timer ≠ y.timer → x.timer.addr ≠ y.timer.addr := by
    intro x hx y hy hne ha
    obtain ⟨a, hxa, _⟩ := live x hx
    obtain ⟨c, hyc, _⟩ := live y hy
    exact hne (h.apart x.timer y.timer a c hxa hyc ha)
  refine ⟨fun e he => ?_, ?_⟩
  · obtain ⟨timer, ht, htime⟩ := live e he
    exact ⟨timer, ht, h.uncanceled e.timer timer ht, htime.symm⟩
  · have once : (q.timerList.elems ++ batch).Pairwise (·.timer ≠ ·.timer) := by
      refine List.pairwise_append.2 ⟨?_, h.distinct, fun x hx e he => h.once e he x hx⟩
      refine q.timerList.ordered.imp_of_mem fun {x y} hx hy hlt ht => ?_
      rw [h.entry_unique hx hy ht] at hlt
      exact lt_irrefl _ hlt
    exact once.imp_of_mem fun hx hy hne => apart _ hx _ hy hne

/-- **The key that `cancelTimer` rebuilds** is that of the timer's entry, and erasing it erases nothing else. -/
theorem cancels (h : Inv batch q) {t : TimerPtr} (ht : q.queued t = true) :
    Ensures (cancelTimer t) q (fun _ q' => ∃ e : Entry, e.timer = t ∧ q.timerList.elems.Perm (e :: q'.timerList.elems))
      fun _ _ => False := by
  obtain ⟨e, he, het⟩ := List.any_eq_true.1 ht
  obtain rfl : e.timer = t := eq_of_beq het
  obtain ⟨timer, live, htime⟩ := h.queued e he
  refine (cancelTimer_spec live).mono ?_ fun err q' hstop => ?_
  · rintro _ _ rfl
    refine ⟨e, rfl, ?_⟩
    rw [TimerQueue.cancelled, htime]
    exact OrdSet.elems_erase_perm he
  · rw [h.uncanceled e.timer timer live] at hstop
    exact absurd hstop.2.1 (by decide)

/-- **The insertion of a periodic timer** that has run succeeds. -/
theorem rearms {e : Entry} (h : Inv (e :: batch) q) {timer : Timer} (ht : q.timers e.timer = some timer)
    (hrep : timer.repeated = true) :
    Ensures (leaveExpired e) q
      (fun _ q' => ∃ timer', q'.timers e.timer = some timer' ∧
        q'.timerList.elems.Perm (⟨timer'.timing, e.timer⟩ :: q.timerList.elems))
      fun err _ => err = .overflow := by
  refine (leaveExpired_repeats ht (h.uncanceled e.timer timer ht) hrep).mono ?_ fun _ _ hstop => hstop.1
  rintro _ _ rfl
  have hkey := h.key_own ht (h.once e (List.mem_cons_self ..)) (timer.timing + timer.interval * 1000)
  exact ⟨_, Function.update_self .., OrdSet.elems_insert_perm hkey⟩

end Inv

/-- **`timerList_` represents the timers**: as long as every timer is cancelled while its entry is there, at every point
where user code is in control the entries are those of live timers, with their deadlines, and no timer has two; so
`cancelTimer` erases the timer's entry and that alone, and a periodic timer that has run is inserted. -/
theorem entries_exact (batch : List Entry) (q : TimerQueue) (h : Point batch q) (hq : ∀ ev ∈ q.trace, ev.Queued) :
    Represents batch q ∧
    (∀ t, q.queued t = true → Ensures (cancelTimer t) q
      (fun _ q' => ∃ e : Entry, e.timer = t ∧ q.timerList.elems.Perm (e :: q'.timerList.elems)) fun _ _ => False) ∧
    ∀ e rest timer, batch = e :: rest → q.timers e.timer = some timer → timer.repeated = true →
      Ensures (leaveExpired e) q
        (fun _ q' => ∃ timer', q'.timers e.timer = some timer' ∧
          q'.timerList.elems.Perm (⟨timer'.timing, e.timer⟩ :: q.timerList.elems))
        fun err _ => err = .overflow := by
  obtain ⟨hi, halive⟩ := h.kept
  refine ⟨hi.represents (halive hq), fun t ht => hi.cancels ht, ?_⟩
  rintro e rest timer rfl ht hrep
  exact hi.rearms ht hrep

/-- Two timers expire together; the callback of the first, a periodic one, has cancelled a third and added a fourth. -/
theorem entries_exact_callback :
    ∃ e rest q, Point (e :: rest) q ∧ e.timer = ⟨16, 0⟩ ∧ rest.map (·.timer) = [⟨32, 1⟩] ∧
      q.timerList.elems.map (·.timer) = [⟨64, 3⟩] ∧ Represents (e :: rest) q ∧
      Ensures (cancelTimer ⟨64, 3⟩) q
        (fun _ q' => ∃ e : Entry, e.timer = ⟨64, 3⟩ ∧ q.timerList.elems.Perm (e :: q'.timerList.elems)) (fun _ _ => False) ∧
      Ensures (leaveExpired e) q
        (fun _ q' => ∃ timer', q'.timers e.timer = some timer' ∧
          q'.timerList.elems.Perm (⟨timer'.timing, e.timer⟩ :: q.timerList.elems))
        fun err _ => err = .overflow := by
  obtain ⟨q₀, run, hq₀⟩ := Run.reaches step (fun _ _ => True) .init
    [.call (.addTimer 5000000 2000 16 0), .call (.addTimer 5000000 0 32 0), .call (.addTimer 9000000 0 48 0), .call .expire]
    (fun q₀ => Ensures (handleTimingReadUpTo 6000000 (fun _ => [.cancelTimer ⟨48, 2⟩, .addTimer 9000000 0 64 6000000]) 0 2) q₀
      (fun left q => left.1 = [⟨5000000, ⟨16, 0⟩⟩, ⟨5000000, ⟨32, 1⟩⟩] ∧ q.timerList.elems = [⟨9000000, ⟨64, 3⟩⟩] ∧
        q.timers ⟨16, 0⟩ = some ⟨5000000, 2000, true, false⟩ ∧ ∀ ev ∈ q.trace, ev.Queued) fun _ _ => False)
    (by decide +kernel) (by decide +kernel)
  obtain ⟨⟨batch, calls⟩, q, reached, hbatch, hlist, ht, hq⟩ := hq₀.returns
  obtain ⟨represents, cancels, rearms⟩ := entries_exact batch q (.within run reached) hq
  obtain rfl : batch = _ := hbatch
  refine ⟨⟨5000000, ⟨16, 0⟩⟩, _, q, .within run reached, rfl, by decide, by rw [hlist]; rfl, represents, cancels _ ?_,
    rearms _ _ _ rfl ht rfl⟩
  simp [TimerQueue.queued, hlist]

end NetServer.Timers
