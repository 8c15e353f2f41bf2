import NetServer.Timer.Batch
/-!
# What `getExpired` takes out of `timerList_` (v1.7/src/TimerQueue.cpp:164)

The cut is `(curr + 1ns, UINTPTR_MAX)`, and an entry at `curr + 1ns` comes before it whatever its pointer is: the
batch holds what is due *one nanosecond later* (`key_lt_cut_iff`). The asserts of the two functions disagree about
such an entry: that of `getExpired` lets it pass, `timer->expired(curr)` in `handleTimingRead` does not.
-/

namespace NetServer.Timers
open Exec

/-- An address in front of the sentinel: the deadline alone decides. -/
theorem key_lt_cut_iff {e : Entry} (haddr : e.timer.addr < UINTPTR_MAX) (curr : Int) :
    e.key < toLex (curr + 1, UINTPTR_MAX) ↔ e.time ≤ curr + 1 := by
  unfold Entry.key
  rw [Prod.Lex.toLex_lt_toLex]
  constructor
  · rintro (h | ⟨h, _⟩)
    · exact le_of_lt h
    · exact le_of_eq h
  · intro h
    rcases lt_or_eq_of_le h with h | h
    · exact .inl h
    · exact .inr ⟨h, haddr⟩

/-- The batch is what is due, in order, and the rest stays; every timer of the batch passes `expired(curr)`. -/
structure ExactBatch (curr : Int) (q : TimerQueue) (expired : List Entry) (q' : TimerQueue) : Prop where
  due : expired = q.timerList.elems.filter (·.time ≤ curr)
  ordered : expired.Pairwise (·.key < ·.key)
  left : q'.timerList.elems = q.timerList.elems.filter (curr < ·.time)
  passes : ∀ e ∈ expired, ∀ timer : Timer, timer.timing = e.time → timer.expired curr = true

/-- **The batch of `getExpired`**: the entries up to `curr + 1ns`. -/
theorem getExpired_batch {q : TimerQueue} {curr : Int} (haddr : ∀ e ∈ q.timerList.elems, e.timer.addr < UINTPTR_MAX)
    (hcurr : -2 ^ 63 ≤ curr) (hrep : curr < 2 ^ 63 - 1) :
    Ensures (getExpired curr) q (fun expired q' => expired = q.timerList.elems.filter (·.time ≤ curr + 1) ∧
      q'.timerList.elems = q.timerList.elems.filter (curr + 1 < ·.time)) fun _ _ => False := by
  simp only [getExpired, ensures_bind, ensures_int64, ensures_get, ensures_assert, ensures_set, ensures_pure]
  refine ⟨fun _ => ⟨fun _ => ⟨?_, ?_⟩, fun hn => hn first_above_later⟩, fun hn => ?_⟩
  · rw [OrdSet.below_eq]
    apply List.filter_congr
    intro e he
    exact decide_eq_decide.2 (key_lt_cut_iff (haddr e he) curr)
  · rw [OrdSet.above_eq]
    apply List.filter_congr
    intro e he
    apply decide_eq_decide.2
    rw [← not_lt, key_lt_cut_iff (haddr e he), not_le]
  · omega

/-- Without an entry at `curr + 1ns` the two cuts agree. -/
theorem exactBatch_of_none {q q' : TimerQueue} {curr : Int} (hnone : ∀ e ∈ q.timerList.elems, e.time ≠ curr + 1)
    (hleft : q'.timerList.elems = q.timerList.elems.filter (curr + 1 < ·.time)) :
    ExactBatch curr q (q.timerList.elems.filter (·.time ≤ curr + 1)) q' := by
  have due : ∀ e ∈ q.timerList.elems, e.time ≤ curr + 1 ↔ e.time ≤ curr := by
    intro e hmem
    have := hnone e hmem
    omega
  constructor
  · apply List.filter_congr
    intro e hmem
    exact decide_eq_decide.2 (due e hmem)
  · exact q.timerList.ordered.filter _
  · rw [hleft]
    apply List.filter_congr
    intro e hmem
    rw [decide_eq_decide, ← not_le, due e hmem, not_le]
  · intro e hmem timer ht
    rw [List.mem_filter, decide_eq_true_eq] at hmem
    unfold Timer.expired
    rw [decide_eq_true_eq, ht]
    exact (due e hmem.1).1 hmem.2

/-- An entry at `curr + 1ns` is in the batch, and it is not due. -/
theorem exactBatch_none {q q' : TimerQueue} {curr : Int}
    (h : ExactBatch curr q (q.timerList.elems.filter (·.time ≤ curr + 1)) q') : ∀ e ∈ q.timerList.elems, e.time ≠ curr + 1 := by
  intro e hmem htime
  have taken : e ∈ q.timerList.elems.filter (·.time ≤ curr + 1) := by simp [hmem, htime]
  rw [h.due, List.mem_filter, decide_eq_true_eq] at taken
  omega

/-- `curr + 1ns` is no clock value after the last one. -/
theorem getExpired_representable {q : TimerQueue} {curr : Int} {Q : List Entry → TimerQueue → Prop}
    (h : Ensures (getExpired curr) q Q fun _ _ => False) : curr + 1 < 2 ^ 63 := by
  by_contra hn
  have overflows : ¬ (-2 ^ 63 ≤ curr + 1 ∧ curr + 1 < 2 ^ 63) := fun hr => hn hr.2
  simp only [getExpired, ensures_bind, ensures_int64] at h
  exact h.2 overflows

/-- **`getExpired` is exact iff nothing is due at `curr + 1ns`**, for every set of timers and every clock value whose
successor is a clock value. -/
theorem getExpired_exact_iff (q : TimerQueue) (curr : Int) (haddr : ∀ e ∈ q.timerList.elems, e.timer.addr < UINTPTR_MAX)
    (hcurr : -2 ^ 63 ≤ curr ∧ curr < 2 ^ 63) :
    Ensures (getExpired curr) q (ExactBatch curr q) (fun _ _ => False) ↔
      curr < 2 ^ 63 - 1 ∧ ∀ e ∈ q.timerList.elems, e.time ≠ curr + 1 := by
  constructor
  · intro h
    have hrep : curr < 2 ^ 63 - 1 := by
      have := getExpired_representable h
      omega
    obtain ⟨expired, q', he, rfl, _⟩ := (getExpired_batch haddr hcurr.1 hrep).returns
    exact ⟨hrep, exactBatch_none ((ensures_ok he).1 h)⟩
  · rintro ⟨hrep, hnone⟩
    refine (getExpired_batch haddr hcurr.1 hrep).mono ?_ (fun _ _ h => h)
    rintro _ q' ⟨rfl, hleft⟩
    exact exactBatch_of_none hnone hleft

/-- Two timers at one deadline, and one that is due later and stays. -/
theorem getExpired_exact_iff_tie :
    ∃ q, Run step (fun _ _ => True) .init q ∧ q.timerList.elems.length = 3 ∧
      (Ensures (getExpired 6000000) q (ExactBatch 6000000 q) (fun _ _ => False) ↔
        (6000000 : Int) < 2 ^ 63 - 1 ∧ ∀ e ∈ q.timerList.elems, e.time ≠ 6000000 + 1) := by
  obtain ⟨q, run, hlen, haddr⟩ := Run.reaches step (fun _ _ => True) .init
    [.call (.addTimer 6000000 0 32 0), .call (.addTimer 6000000 0 16 0), .call (.addTimer 6000002 0 48 0)]
    (fun q => q.timerList.elems.length = 3 ∧ ∀ e ∈ q.timerList.elems, e.timer.addr < UINTPTR_MAX)
    (by decide +kernel) (by decide +kernel)
  exact ⟨q, run, hlen, getExpired_exact_iff q 6000000 haddr (by decide)⟩

/-- A timer for `5ms + 1ns`, and the clock shows `5ms`: `getExpired` returns it. -/
theorem not_getExpired_exact_next :
    ¬ ∀ q : TimerQueue, Run step (fun _ _ => True) .init q → (∀ e ∈ q.timerList.elems, e.timer.addr < UINTPTR_MAX) →
      ∀ curr : Int, -2 ^ 63 ≤ curr ∧ curr < 2 ^ 63 →
        Ensures (getExpired curr) q (ExactBatch curr q) (fun _ _ => False) := by
  intro exact
  obtain ⟨q, run, haddr, hnone, htaken⟩ := Run.reaches step (fun _ _ => True) .init [.call (.addTimer 5000001 0 16 0)]
    (fun q => (∀ e ∈ q.timerList.elems, e.timer.addr < UINTPTR_MAX) ∧
      q.timerList.elems.filter (·.time ≤ 5000000) = [] ∧
      Ensures (getExpired 5000000) q (fun expired _ => expired ≠ []) fun _ _ => False)
    (by decide +kernel) (by decide +kernel)
  obtain ⟨expired, q', he, hne⟩ := htaken.returns
  have hexact := (ensures_ok he).1 (exact q run haddr 5000000 (by decide))
  exact hne (hexact.due.trans hnone)

end NetServer.Timers
