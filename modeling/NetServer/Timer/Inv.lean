import NetServer.Timer.Model
/-!
# The timers and their entries

`Inv batch q` holds at every call of user code: `batch` is the part of `expired` that `handleTimingRead` has not
finished, the timer being run first, and is empty between two calls. `Effect` is all that one call of user code
can do to the queue; every invariant below and in the modules after it is shown against it once.
-/

namespace NetServer.Timers
open Exec

/-! ## What a call of user code does -/

/-- With a new timer, its entry and the record of it. -/
def TimerQueue.admitted (q : TimerQueue) (t : TimerPtr) (when : Int) (interval : Int) : TimerQueue :=
  { q with
    timers := Function.update q.timers t (some (.new when interval))
    next := q.next + 1
    timerList := q.timerList.insert ⟨when, t⟩
    trace := q.trace ++ [.added t when interval] }

/-- Without a timer that was cancelled. -/
def TimerQueue.cancelled (q : TimerQueue) (t : TimerPtr) (timer : Timer) : TimerQueue :=
  { q with
    timers := Function.update q.timers t none
    timerList := q.timerList.erase (Entry.key ⟨timer.timing, t⟩)
    trace := q.trace ++ [.deleted t] ++ [.canceled t (q.queued t)] }

/-- An entry is the first of the list that it was inserted into. -/
def Leads (list : OrdSet Entry.key) (e : Entry) : Prop := list.first.map Entry.key = some e.key

instance decidableLeads (list : OrdSet Entry.key) (e : Entry) : Decidable (Leads list e) :=
  inferInstanceAs (Decidable (_ = _))

/-- What `setTimerfd(ts)` sets, read on a clock that shows `now`. -/
def SetFor (ts now : Int) (fd : Timerfd) : Prop :=
  ∃ expiry, fd = ⟨some ⟨now, expiry⟩, false⟩ ∧ expiry ≤ max ts (now + 1000000)

/-- All that one call can do; `cancels` is whether it is a `cancelTimer`. -/
inductive Effect (q : TimerQueue) : (cancels : Bool) → TimerQueue → Prop where
  | added {t : TimerPtr} {when : Int} {interval : Int} {now : Int} {fd : Timerfd}
      (serial : t.serial = q.next) (free : ∀ n < q.next, q.timers ⟨t.addr, n⟩ = none)
      (leads : Leads (q.timerList.insert ⟨when, t⟩) ⟨when, t⟩ → SetFor when now fd)
      (behind : ¬ Leads (q.timerList.insert ⟨when, t⟩) ⟨when, t⟩ → fd = q.timerfd) :
      Effect q false { q.admitted t when interval with timerfd := fd }
  | expired (armed : q.timerfd.armed.isSome) : Effect q false { q with timerfd := ⟨none, true⟩ }
  | canceled {t : TimerPtr} {timer : Timer} (live : q.timers t = some timer) : Effect q true (q.cancelled t timer)

def Call.cancels : Call → Bool
  | .cancelTimer _ => true
  | _ => false

section
variable {α : Type} {t : TimerPtr} {q : TimerQueue} {E : Fault → TimerQueue → Prop}

@[simp] theorem ensures_deref {Q : Timer → TimerQueue → Prop} :
    Ensures (deref t) q Q E ↔ (∀ timer, q.timers t = some timer → Q timer q) ∧ (q.timers t = none → E .deletedTimer q) := by
  simp only [deref, ensures_bind, ensures_get]
  cases q.timers t <;> simp

@[simp] theorem ensures_emit {ev : TimerEvent} {Q : Unit → TimerQueue → Prop} :
    Ensures (emit ev) q Q E ↔ Q () { q with trace := q.trace ++ [ev] } := Iff.rfl

@[simp] theorem ensures_store {timer : Timer} {Q : Unit → TimerQueue → Prop} :
    Ensures (store t timer) q Q E ↔ Q () { q with timers := Function.update q.timers t (some timer) } := Iff.rfl

@[simp] theorem ensures_insertEntry {e : Entry} {Q : Unit → TimerQueue → Prop} :
    Ensures (insertEntry e) q Q E ↔ Q () { q with timerList := q.timerList.insert e } := Iff.rfl

@[simp] theorem ensures_int64 {x : Int} {Q : Int → TimerQueue → Prop} :
    Ensures (int64 x) q Q E ↔ (-2 ^ 63 ≤ x ∧ x < 2 ^ 63 → Q x q) ∧ (¬ (-2 ^ 63 ≤ x ∧ x < 2 ^ 63) → E .overflow q) := by
  rw [int64, ensures_ite]; rfl

@[simp] theorem ensures_deleteTimer {Q : Unit → TimerQueue → Prop} :
    Ensures (deleteTimer t) q Q E ↔
      ((q.timers t).isSome → Q () { q with timers := Function.update q.timers t none, trace := q.trace ++ [.deleted t] }) ∧
        (q.timers t = none → E .deletedTimer q) := by
  simp only [deleteTimer, ensures_bind, ensures_deref, ensures_modify, ensures_emit]
  cases q.timers t <;> simp

end

/-- `Timestamp + Microsecond` is exact or overflows. -/
theorem ensures_plus {t d : Int} {q : TimerQueue} {Q : Int → TimerQueue → Prop} {E : Fault → TimerQueue → Prop}
    (hq : Q (t + d * 1000) q) (he : E .overflow q) : Ensures (plus t d) q Q E := by
  rw [plus, ensures_bind, ensures_int64]
  refine ⟨fun _ => ?_, fun _ => he⟩
  rw [ensures_int64]
  exact ⟨fun _ => hq, fun _ => he⟩

/-- What `durationFromNow` counts: whole microseconds, at least a millisecond of them. -/
def microsFromNow (when now : Int) : Int := max ((when - now).tdiv 1000) 1000

/-- As nanoseconds they are over before the deadline, and before the millisecond that is the least delay. -/
theorem microsFromNow_early (when now : Int) : microsFromNow when now < max (when - now) 1000000 := by
  unfold microsFromNow
  rcases Int.le_total 0 (when - now) with h | h
  · rw [Int.tdiv_eq_ediv_of_nonneg h]
    omega
  · have negative : when - now = -(now - when) := by omega
    rw [negative, Int.neg_tdiv, Int.tdiv_eq_ediv_of_nonneg (by omega)]
    omega

/-- **`durationFromNow`** returns a timespec in normal form, whose *nanoseconds* are the microseconds it counted. -/
theorem durationFromNow_spec (when now : Int) (q : TimerQueue) :
    Ensures (durationFromNow when now) q
      (fun ts q' => q' = q ∧ 0 ≤ ts.1 ∧ 0 ≤ ts.2 ∧ ts.2 < 1000000000 ∧ ts.1 * 1000000000 + ts.2 = microsFromNow when now)
      fun e q' => e = .overflow ∧ q' = q ∧ ¬ (-2 ^ 63 ≤ when - now ∧ when - now < 2 ^ 63) := by
  rw [durationFromNow, ensures_bind, ensures_int64]
  refine ⟨fun _ => ?_, fun hn => ⟨rfl, rfl, hn⟩⟩
  have clamp : (if (when - now).tdiv 1000 < 1000 then 1000 else (when - now).tdiv 1000) = microsFromNow when now := by
    unfold microsFromNow
    split <;> omega
  dsimp only
  rw [clamp, ensures_pure]
  have least : 1000 ≤ microsFromNow when now := Int.le_max_right ..
  dsimp only
  rw [Int.tdiv_eq_ediv_of_nonneg (by omega), Int.tmod_eq_emod_of_nonneg (by omega)]
  refine ⟨rfl, ?_, ?_, ?_, ?_⟩ <;> omega

/-- **`setTimerfd`** arms the timer for that long: the timespec is never refused and never disarms. -/
theorem setTimerfd_armed (ts now : Int) (q : TimerQueue) :
    Ensures (setTimerfd ts now) q (fun _ q' => q' = { q with timerfd := ⟨some ⟨now, now + microsFromNow ts now⟩, false⟩ })
      fun e q' => e = .overflow ∧ q' = q ∧ ¬ (-2 ^ 63 ≤ ts - now ∧ ts - now < 2 ^ 63) := by
  rw [setTimerfd, ensures_bind]
  refine (durationFromNow_spec ts now q).mono ?_ fun _ _ h => h
  rintro ⟨sec, nsec⟩ _ ⟨rfl, hsec, hnsec, hlt, htotal⟩
  simp only at hsec hnsec hlt htotal
  have least : 1000 ≤ microsFromNow ts now := Int.le_max_right ..
  have settime : timerfdSettime sec nsec now = some ⟨some ⟨now, now + microsFromNow ts now⟩, false⟩ := by
    unfold timerfdSettime
    rw [if_neg (by omega), if_neg (by omega), htotal]
  simp only [settime, ensures_modify]

theorem setTimerfd_spec (ts now : Int) (q : TimerQueue) :
    Ensures (setTimerfd ts now) q (fun _ q' => ∃ fd, SetFor ts now fd ∧ q' = { q with timerfd := fd })
      fun e q' => e = .overflow ∧ q' = q := by
  refine (setTimerfd_armed ts now q).mono ?_ fun _ _ h => ⟨h.1, h.2.1⟩
  rintro _ _ rfl
  have early := microsFromNow_early ts now
  exact ⟨_, ⟨_, rfl, by omega⟩, rfl⟩

/-- No timer is live and cancelled: `cancelTimer` deletes what it cancels. -/
def TimerQueue.Uncanceled (q : TimerQueue) : Prop := ∀ t timer, q.timers t = some timer → timer.canceled = false

/-- Where a call of user code stops: it has done nothing, or all but setting the timerfd. -/
def CallStop (q : TimerQueue) (e : Fault) (q' : TimerQueue) : Prop :=
  (e = .outside ∨ e = .overflow ∨ e = .assertFailed ∧ ¬ q.Uncanceled) ∧ (q' = q ∨ ∃ fd, Effect q false { q' with timerfd := fd })

/-- **`addTimer`** adds one timer and its entry, and sets the timerfd for it iff the entry comes first. -/
theorem addTimer_spec (when interval : Int) (addr : Nat) (now : Int) (q : TimerQueue) :
    Ensures (addTimer when interval addr now) q (fun _ q' => Effect q false q') fun e q' => CallStop q e q' := by
  simp only [addTimer, newTimer, ensures_bind, ensures_get, ensures_ite, ensures_set, ensures_pure, ensures_throw,
    ensures_emit, ensures_insertEntry]
  refine ⟨fun haddr => ⟨fun hfirst => ?_, fun hfirst => ?_⟩, fun _ => ⟨.inl rfl, .inl rfl⟩⟩
  · have hfree := haddr.2
    refine (setTimerfd_spec when now (q.admitted ⟨addr, q.next⟩ when interval)).mono ?_ ?_
    · rintro _ _ ⟨fd, hset, rfl⟩
      exact .added rfl hfree (fun _ => hset) fun hn => absurd hfirst hn
    · rintro _ _ ⟨rfl, rfl⟩
      refine ⟨.inr (.inl rfl), .inr ⟨⟨some ⟨now, when⟩, false⟩, ?_⟩⟩
      exact .added rfl hfree (fun _ => ⟨when, rfl, Int.le_max_left ..⟩) fun hn => absurd hfirst hn
  · have hfree := haddr.2
    exact Effect.added rfl hfree (fun hl => (absurd hl hfirst : SetFor when now _)) fun _ => rfl

/-- **`cancelTimer`** takes the timer and its entry away, unless it was cancelled before. -/
theorem cancelTimer_spec {q : TimerQueue} {t : TimerPtr} {timer : Timer} (ht : q.timers t = some timer) :
    Ensures (cancelTimer t) q (fun _ q' => q' = q.cancelled t timer)
      fun e q' => e = .assertFailed ∧ timer.canceled = true ∧ q' = q := by
  simp only [cancelTimer, cancel, ensures_bind, ensures_get, ensures_deref, ensures_assert, ensures_store,
    ensures_modify, ensures_deleteTimer, ensures_emit]
  refine ⟨fun x hx => ?_, fun hn => by simp [ht] at hn⟩
  obtain rfl : timer = x := Option.some.inj (ht.symm.trans hx)
  refine ⟨fun _ => ⟨fun y hy => ⟨fun _ => ?_, fun hn => by simp at hn⟩, fun hn => by simp at hn⟩,
    fun hc => ⟨trivial, by simpa using hc, trivial⟩⟩
  obtain rfl : { timer with canceled := true } = y := by simpa using hy
  simp [TimerQueue.cancelled]

/-- **One call of user code.** -/
theorem Call.run_spec (x : Call) (q : TimerQueue) :
    Ensures x.run q (fun _ q' => Effect q x.cancels q') fun e q' => CallStop q e q' := by
  have nothing : CallStop q .overflow q := ⟨.inr (.inl rfl), .inl rfl⟩
  cases x with
  | addTimer when interval addr now =>
    rw [Call.run, ensures_bind]
    exact addTimer_spec when interval addr now q
  | runAt when addr now =>
    rw [Call.run, Timers.runAt, ensures_bind]
    exact addTimer_spec when 0 addr now q
  | runAfter delay addr now now' =>
    rw [Call.run, Timers.runAfter, ensures_bind]
    refine ensures_plus ?_ nothing
    rw [Timers.runAt, ensures_bind]
    exact addTimer_spec _ 0 addr now' q
  | runEvery interval addr now now' =>
    rw [Call.run, Timers.runEvery, ensures_bind]
    refine ensures_plus ?_ nothing
    rw [ensures_bind]
    exact addTimer_spec _ interval addr now' q
  | cancelTimer t =>
    simp only [Call.run, userTimer, ensures_bind, ensures_get, ensures_ite, ensures_pure, ensures_throw]
    refine ⟨fun ht => ?_, fun _ => ⟨.inl rfl, .inl rfl⟩⟩
    obtain ⟨timer, live⟩ := Option.isSome_iff_exists.1 ht
    refine (cancelTimer_spec live).mono ?_ ?_
    · rintro _ _ rfl
      exact .canceled live
    · rintro _ _ ⟨rfl, hcan, rfl⟩
      refine ⟨.inr (.inr ⟨rfl, fun h => ?_⟩), .inl rfl⟩
      rw [h t timer live] at hcan
      cases hcan
  | expire =>
    simp only [Call.run, Timers.expire, ensures_bind, ensures_get, ensures_ite, ensures_set, ensures_throw]
    exact ⟨fun h => .expired h, fun _ => ⟨.inl rfl, .inl rfl⟩⟩

/-- A call leaves no cancelled timer. -/
theorem Effect.uncanceled {q q' : TimerQueue} {cancels : Bool} (he : Effect q cancels q') (h : q.Uncanceled) : q'.Uncanceled := by
  cases he with
  | @added t when interval =>
    intro u x hx
    obtain ⟨-, rfl⟩ | ⟨-, hx⟩ := of_update_some hx
    · rfl
    · exact h u x hx
  | expired => exact h
  | canceled => exact fun u x hx => h u x (of_update_none hx).2

/-! ## The invariant -/

/-- **Every timer has one entry**, in `timerList_` or in the unfinished part of the expired batch. -/
structure Inv (batch : List Entry) (q : TimerQueue) : Prop where
  fresh : ∀ t timer, q.timers t = some timer → t.serial < q.next
  apart : ∀ t u x y, q.timers t = some x → q.timers u = some y → t.addr = u.addr → t = u
  repeats : ∀ t timer, q.timers t = some timer → timer.repeated = decide (timer.interval > 0)
  uncanceled : ∀ t timer, q.timers t = some timer → timer.canceled = false
  queued : ∀ e ∈ q.timerList.elems, ∃ timer, q.timers e.timer = some timer ∧ timer.timing = e.time
  pending : ∀ e ∈ batch, ∀ timer, q.timers e.timer = some timer → timer.timing = e.time
  allocated : ∀ e ∈ batch, e.timer.serial < q.next
  once : ∀ e ∈ batch, ∀ x ∈ q.timerList.elems, x.timer ≠ e.timer
  distinct : batch.Pairwise (·.timer ≠ ·.timer)
  listed : ∀ t timer, q.timers t = some timer → (∃ e ∈ q.timerList.elems, e.timer = t) ∨ ∃ e ∈ batch, e.timer = t

theorem Entry.key_eq {a b : Entry} : a.key = b.key ↔ a.time = b.time ∧ a.timer.addr = b.timer.addr := by
  simp [Entry.key]

theorem inv_init : Inv [] TimerQueue.init where
  fresh := nofun
  apart := nofun
  repeats := nofun
  uncanceled := nofun
  queued := nofun
  pending := nofun
  allocated := nofun
  once := nofun
  distinct := .nil
  listed := nofun

namespace Inv

variable {q : TimerQueue} {batch : List Entry}

/-- An entry of `timerList_` is told from every other by its timer. -/
theorem entry_unique (h : Inv batch q) {x y : Entry} (hx : x ∈ q.timerList.elems) (hy : y ∈ q.timerList.elems)
    (ht : x.timer = y.timer) : x = y := by
  obtain ⟨a, ha, hat⟩ := h.queued x hx
  obtain ⟨b, hb, hbt⟩ := h.queued y hy
  rw [ht] at ha
  obtain rfl : a = b := Option.some.inj (ha.symm.trans hb)
  exact OrdSet.key_inj hx hy (Entry.key_eq.2 ⟨hat.symm.trans hbt, by rw [ht]⟩)

/-- The key that `cancelTimer` rebuilds is that of the timer's entry and of no other. -/
theorem key_iff (h : Inv batch q) {t : TimerPtr} {timer : Timer} (ht : q.timers t = some timer) {x : Entry}
    (hx : x ∈ q.timerList.elems) : x.key = Entry.key ⟨timer.timing, t⟩ ↔ x.timer = t := by
  obtain ⟨a, ha, hat⟩ := h.queued x hx
  rw [Entry.key_eq]
  constructor
  · exact fun hk => h.apart x.timer t a timer ha ht hk.2
  · rintro rfl
    obtain rfl : a = timer := Option.some.inj (ha.symm.trans ht)
    exact ⟨hat.symm, rfl⟩

/-- The key of a timer that has no entry is new. -/
theorem key_new (h : Inv batch q) {t : TimerPtr} (time : Int)
    (ht : ∀ u x, q.timers u = some x → u.addr = t.addr → ∀ y ∈ q.timerList.elems, y.timer ≠ u) :
    ∀ y ∈ q.timerList.elems, y.key ≠ Entry.key ⟨time, t⟩ := by
  intro y hy hk
  obtain ⟨x, hx, _⟩ := h.queued y hy
  exact ht y.timer x hx (Entry.key_eq.1 hk).2 y hy rfl

theorem key_free (h : Inv batch q) {t : TimerPtr} (free : ∀ n < q.next, q.timers ⟨t.addr, n⟩ = none) (time : Int) :
    ∀ y ∈ q.timerList.elems, y.key ≠ Entry.key ⟨time, t⟩ := by
  refine h.key_new time fun u x hx hu => ?_
  have hnone := free u.serial (h.fresh u x hx)
  rw [← hu] at hnone
  cases hx.symm.trans hnone

theorem key_own (h : Inv batch q) {t : TimerPtr} {timer : Timer} (ht : q.timers t = some timer)
    (hout : ∀ y ∈ q.timerList.elems, y.timer ≠ t) (time : Int) : ∀ y ∈ q.timerList.elems, y.key ≠ Entry.key ⟨time, t⟩ :=
  h.key_new time fun u x hx hu y hy => by rw [h.apart u t x timer hx ht hu]; exact hout y hy

theorem admitted (h : Inv batch q) {t : TimerPtr} (serial : t.serial = q.next)
    (free : ∀ n < q.next, q.timers ⟨t.addr, n⟩ = none) (when interval : Int) : Inv batch (q.admitted t when interval) := by
  have hkey := h.key_free free when
  have cases : ∀ u x, Function.update q.timers t (some (.new when interval)) u = some x →
      (u = t ∧ x = .new when interval) ∨ (u ≠ t ∧ q.timers u = some x) := fun _ _ => of_update_some
  have old : ∀ u, u.serial < q.next → u ≠ t := fun u hu he => by rw [he, serial] at hu; exact Nat.lt_irrefl _ hu
  have alone : ∀ u x, q.timers u = some x → u.addr ≠ t.addr := fun u x hx ha => by
    have hnone := free u.serial (h.fresh u x hx)
    rw [← ha] at hnone
    cases hx.symm.trans hnone
  refine ⟨fun u x hx => ?_, fun u v x y hx hy ha => ?_, fun u x hx => ?_, fun u x hx => ?_, fun e he => ?_,
    fun e he x hx => ?_, fun e he => Nat.lt_succ_of_lt (h.allocated e he), fun e he x hx => ?_, h.distinct, fun u x hx => ?_⟩
  · obtain ⟨rfl, _⟩ | ⟨_, hx⟩ := cases u x hx
    · exact serial ▸ Nat.lt_succ_self _
    · exact Nat.lt_succ_of_lt (h.fresh u x hx)
  · obtain ⟨rfl, _⟩ | ⟨_, hx'⟩ := cases u x hx
    · obtain ⟨rfl, _⟩ | ⟨_, hy'⟩ := cases v y hy
      · rfl
      · exact absurd ha.symm (alone v y hy')
    · obtain ⟨rfl, _⟩ | ⟨_, hy'⟩ := cases v y hy
      · exact absurd ha (alone u x hx')
      · exact h.apart u v x y hx' hy' ha
  · obtain ⟨_, rfl⟩ | ⟨_, hx⟩ := cases u x hx
    · rfl
    · exact h.repeats u x hx
  · obtain ⟨_, rfl⟩ | ⟨_, hx⟩ := cases u x hx
    · rfl
    · exact h.uncanceled u x hx
  · obtain rfl | he := (OrdSet.mem_insert hkey).1 he
    · exact ⟨.new when interval, Function.update_self .., rfl⟩
    · obtain ⟨x, hx, hxt⟩ := h.queued e he
      exact ⟨x, by simpa [TimerQueue.admitted, old _ (h.fresh e.timer x hx)] using hx, hxt⟩
  · obtain ⟨hu, _⟩ | ⟨_, hx⟩ := cases e.timer x hx
    · exact absurd hu (old _ (h.allocated e he))
    · exact h.pending e he x hx
  · obtain rfl | hx := (OrdSet.mem_insert hkey).1 hx
    · exact (old _ (h.allocated e he)).symm
    · exact h.once e he x hx
  · obtain ⟨rfl, _⟩ | ⟨_, hx⟩ := cases u x hx
    · exact .inl ⟨⟨when, u⟩, (OrdSet.mem_insert hkey).2 (.inl rfl), rfl⟩
    · obtain ⟨e, he, ht⟩ | hb := h.listed u x hx
      · exact .inl ⟨e, (OrdSet.mem_insert hkey).2 (.inr he), ht⟩
      · exact .inr hb

/-- A timer goes, with its entry or out of the batch. -/
theorem without (h : Inv batch q) {rest : List Entry} (list : OrdSet Entry.key) {t : TimerPtr} (tr : List TimerEvent)
    (hlist : ∀ x, x ∈ list.elems ↔ x ∈ q.timerList.elems ∧ x.timer ≠ t) (hrest : rest.Sublist batch)
    (hleft : ∀ e ∈ batch, e.timer ≠ t → e ∈ rest) :
    Inv rest { q with timers := Function.update q.timers t none, timerList := list, trace := tr } := by
  have old : ∀ u x, Function.update q.timers t none u = some x → u ≠ t ∧ q.timers u = some x := fun _ _ => of_update_none
  refine ⟨fun u x hx => h.fresh u x (old u x hx).2, fun u v x y hx hy => h.apart u v x y (old u x hx).2 (old v y hy).2,
    fun u x hx => h.repeats u x (old u x hx).2, fun u x hx => h.uncanceled u x (old u x hx).2, fun e he => ?_,
    fun e he x hx => h.pending e (hrest.subset he) x (old _ x hx).2, fun e he => h.allocated e (hrest.subset he),
    fun e he x hx => h.once e (hrest.subset he) x ((hlist x).1 hx).1, h.distinct.sublist hrest, fun u x hx => ?_⟩
  · obtain ⟨he, het⟩ := (hlist e).1 he
    simpa [het] using h.queued e he
  · obtain ⟨hu, hx⟩ := old u x hx
    obtain ⟨e, he, rfl⟩ | ⟨e, he, rfl⟩ := h.listed u x hx
    · exact .inl ⟨e, (hlist e).2 ⟨he, hu⟩, rfl⟩
    · exact .inr ⟨e, hleft e he hu, rfl⟩

/-- **One call of user code keeps the invariant**, whatever is left of the batch. -/
theorem effect (h : Inv batch q) {cancels : Bool} {q' : TimerQueue} (he : Effect q cancels q') : Inv batch q' := by
  cases he with
  | @added t when interval _ _ serial free => exact { h.admitted serial free when interval with }
  | expired => exact { h with }
  | @canceled t timer live =>
    refine h.without _ _ (fun x => ?_) (.refl _) fun e he _ => he
    rw [OrdSet.mem_erase]
    exact and_congr_right fun hx => not_congr (h.key_iff live hx)

/-- `getExpired` moves the entries before the cut into the batch. -/
theorem split (h : Inv [] q) (cut : Int ×ₗ Nat) :
    Inv (q.timerList.below cut) { q with timerList := q.timerList.above cut } := by
  have hbelow : ∀ e, e ∈ q.timerList.below cut ↔ e ∈ q.timerList.elems ∧ e.key < cut := fun e => by
    rw [OrdSet.below_eq, List.mem_filter, decide_eq_true_iff]
  have habove : ∀ e, e ∈ (q.timerList.above cut).elems ↔ e ∈ q.timerList.elems ∧ cut ≤ e.key := fun e => by
    rw [OrdSet.above_eq, List.mem_filter, decide_eq_true_iff]
  refine { h with
    queued := fun e he => h.queued e ((habove e).1 he).1
    pending := fun e he timer ht => ?_
    allocated := fun e he => ?_
    once := fun e he x hx ht => ?_
    distinct := ?_
    listed := fun t timer ht => ?_ }
  · obtain ⟨x, hx, hxt⟩ := h.queued e ((hbelow e).1 he).1
    obtain rfl : x = timer := Option.some.inj (hx.symm.trans ht)
    exact hxt
  · obtain ⟨x, hx, _⟩ := h.queued e ((hbelow e).1 he).1
    exact h.fresh _ x hx
  · have := h.entry_unique ((habove x).1 hx).1 ((hbelow e).1 he).1 ht
    subst this
    exact absurd ((hbelow x).1 he).2 (not_lt.2 ((habove x).1 hx).2)
  · rw [OrdSet.below_eq]
    refine (q.timerList.ordered.filter _).imp_of_mem fun {a b} ha hb hab ht => ?_
    have := h.entry_unique (List.mem_filter.1 ha).1 (List.mem_filter.1 hb).1 ht
    subst this
    exact lt_irrefl _ hab
  · obtain ⟨e, he, het⟩ := (h.listed t timer ht).resolve_right (by simp)
    by_cases hk : e.key < cut
    · exact .inr ⟨e, (hbelow e).2 ⟨he, hk⟩, het⟩
    · exact .inl ⟨e, (habove e).2 ⟨he, not_lt.1 hk⟩, het⟩

/-- The one-shot timer that has run is deleted. -/
theorem finished {e : Entry} (h : Inv (e :: batch) q) (tr : List TimerEvent) :
    Inv batch { q with timers := Function.update q.timers e.timer none, trace := tr } :=
  h.without q.timerList tr
    (fun x => ⟨fun hx => ⟨hx, h.once e (List.mem_cons_self ..) x hx⟩, And.left⟩) (List.sublist_cons_self ..)
    fun x hx hne => (List.mem_cons.1 hx).resolve_left fun he => hne (by rw [he])

/-- The periodic timer that has run gets an entry at its next deadline. -/
theorem rearmed {e : Entry} (h : Inv (e :: batch) q) {timer : Timer} (ht : q.timers e.timer = some timer) (timing : Int) :
    Inv batch { q with timers := Function.update q.timers e.timer (some { timer with timing := timing })
                       timerList := q.timerList.insert ⟨timing, e.timer⟩ } := by
  have hout := h.once e (List.mem_cons_self ..)
  have hkey := h.key_own ht hout timing
  have behind : ∀ x ∈ batch, x.timer ≠ e.timer := fun x hx => ((List.pairwise_cons.1 h.distinct).1 x hx).symm
  have cases : ∀ u x, Function.update q.timers e.timer (some { timer with timing := timing }) u = some x →
      (u = e.timer ∧ x = { timer with timing := timing }) ∨ (u ≠ e.timer ∧ q.timers u = some x) := fun _ _ => of_update_some
  -- a timer is live iff it was before
  have live : ∀ u x, Function.update q.timers e.timer (some { timer with timing := timing }) u = some x →
      ∃ y, q.timers u = some y := by
    intro u x hx
    obtain ⟨rfl, _⟩ | ⟨_, hx⟩ := cases u x hx
    · exact ⟨timer, ht⟩
    · exact ⟨x, hx⟩
  refine ⟨fun u x hx => ?_, fun u v x y hx hy ha => ?_, fun u x hx => ?_, fun u x hx => ?_, fun y hy => ?_,
    fun y hy x hx => ?_, fun y hy => h.allocated y (List.mem_cons_of_mem _ hy), fun y hy x hx => ?_,
    (List.pairwise_cons.1 h.distinct).2, fun u x hx => ?_⟩
  · obtain ⟨y, hy⟩ := live u x hx
    exact h.fresh u y hy
  · obtain ⟨x', hx'⟩ := live u x hx
    obtain ⟨y', hy'⟩ := live v y hy
    exact h.apart u v x' y' hx' hy' ha
  · obtain ⟨rfl, rfl⟩ | ⟨_, hx⟩ := cases u x hx
    · exact h.repeats _ timer ht
    · exact h.repeats u x hx
  · obtain ⟨rfl, rfl⟩ | ⟨_, hx⟩ := cases u x hx
    · exact h.uncanceled _ timer ht
    · exact h.uncanceled u x hx
  · obtain rfl | hy := (OrdSet.mem_insert hkey).1 hy
    · exact ⟨{ timer with timing := timing }, Function.update_self .., rfl⟩
    · simpa [hout y hy] using h.queued y hy
  · obtain ⟨hu, _⟩ | ⟨_, hx⟩ := cases y.timer x hx
    · exact absurd hu (behind y hy)
    · exact h.pending y (List.mem_cons_of_mem _ hy) x hx
  · obtain rfl | hx := (OrdSet.mem_insert hkey).1 hx
    · exact (behind y hy).symm
    · exact h.once y (List.mem_cons_of_mem _ hy) x hx
  · obtain ⟨rfl, _⟩ | ⟨hu, hx⟩ := cases u x hx
    · exact .inl ⟨⟨timing, e.timer⟩, (OrdSet.mem_insert hkey).2 (.inl rfl), rfl⟩
    · obtain ⟨y, hy, hyt⟩ | ⟨y, hy, hyt⟩ := h.listed u x hx
      · exact .inl ⟨y, (OrdSet.mem_insert hkey).2 (.inr hy), hyt⟩
      · refine .inr ⟨y, (List.mem_cons.1 hy).resolve_left fun he => hu ?_, hyt⟩
        rw [← hyt, he]

end Inv

end NetServer.Timers
