import NetServer.Timer.Batch
/-!
# Cancelling timers

`cancelTimer` deletes the timer at once and takes its entry out of `timerList_`. That is all there is to it as
long as the entry is in `timerList_` (`TimerEvent.Queued`): then the unfinished batch holds live timers only, and
`handleTimingRead` reads no timer that is gone (`cancel_safe`). The entry of a timer that is being run, or that
expired in the same batch, is in the local vector, and the loop goes on with the deleted timer. What else
`handleTimingRead` can stop with is in `handleTimingRead_faults`.
-/

namespace NetServer.Timers
open Exec

/-- A timer was cancelled while its entry was in `timerList_`. -/
def TimerEvent.Queued : TimerEvent → Prop
  | .canceled _ queued => queued = true
  | _ => True

instance decidableQueued : ∀ ev : TimerEvent, Decidable ev.Queued
  | .canceled .. => inferInstanceAs (Decidable (_ = _))
  | .added .. | .run .. | .deleted _ => .isTrue trivial

def AllQueued (trace : List TimerEvent) : Prop := ∀ ev ∈ trace, ev.Queued

theorem AllQueued.before {l l' : List TimerEvent} (h : AllQueued (l ++ l')) : AllQueued l := fun ev hev =>
  h ev (List.mem_append_left _ hev)

/-- What may come later in a trace: no callback of a timer that was cancelled or deleted, and no second
deletion. -/
def MayFollow : TimerEvent → TimerEvent → Prop
  | .canceled t _, .run u _ | .deleted t, .run u _ | .deleted t, .deleted u => t ≠ u
  | _, _ => True

instance decidableMayFollow : ∀ a b : TimerEvent, Decidable (MayFollow a b)
  | .canceled .., .run .. | .deleted _, .run .. | .deleted _, .deleted _ => inferInstanceAs (Decidable (_ ≠ _))
  | .canceled .., .added .. | .canceled .., .canceled .. | .canceled .., .deleted _ | .deleted _, .added ..
  | .deleted _, .canceled .. | .added .., _ | .run .., _ => .isTrue trivial

/-- The timer that an event is the end of. -/
def TimerEvent.ends : TimerEvent → Option TimerPtr
  | .canceled t _ | .deleted t => some t
  | _ => none

/-- Whoever was cancelled or deleted is gone, and the trace is in order. -/
structure Settled (q : TimerQueue) : Prop where
  gone : ∀ ev ∈ q.trace, ∀ t, ev.ends = some t → t.serial < q.next ∧ q.timers t = none
  order : q.trace.Pairwise MayFollow

namespace Settled

variable {q q' : TimerQueue} {t : TimerPtr} {timer : Timer}

theorem init : Settled TimerQueue.init := ⟨nofun, .nil⟩

/-- An event of a live timer may follow. -/
theorem mayFollow (h : Settled q) (ht : q.timers t = some timer) {ev : TimerEvent}
    (hev : (∃ when, ev = .run t when) ∨ ev = .deleted t) : ∀ a ∈ q.trace, MayFollow a ev := by
  intro a ha
  have other : a.ends ≠ some t := fun he => by
    rw [(h.gone a ha t he).2] at ht
    cases ht
  cases a with
  | added => obtain ⟨_, rfl⟩ | rfl := hev <;> trivial
  | run => obtain ⟨_, rfl⟩ | rfl := hev <;> trivial
  | canceled u b =>
    obtain ⟨_, rfl⟩ | rfl := hev
    · exact fun he => other (by rw [he]; rfl)
    · trivial
  | deleted u => obtain ⟨_, rfl⟩ | rfl := hev <;> exact fun he => other (by rw [he]; rfl)

/-- One more event, which is not the end of a timer that stays. -/
theorem told (h : Settled q) (ev : TimerEvent) (hev : ∀ a ∈ q.trace, MayFollow a ev) (htr : q'.trace = q.trace ++ [ev])
    (hnext : q.next ≤ q'.next) (hold : ∀ u, u.serial < q.next → q.timers u = none → q'.timers u = none)
    (hend : ∀ u, ev.ends = some u → u.serial < q'.next ∧ q'.timers u = none) : Settled q' where
  gone a ha u hu := by
    rw [htr] at ha
    obtain ha | ha := List.mem_append.1 ha
    · obtain ⟨hs, hg⟩ := h.gone a ha u hu
      exact ⟨Nat.lt_of_lt_of_le hs hnext, hold u hs hg⟩
    · rw [List.mem_singleton.1 ha] at hu
      exact hend u hu
  order := by
    rw [htr, List.pairwise_append]
    exact ⟨h.order, List.pairwise_singleton .., fun a ha b hb => by rw [List.mem_singleton.1 hb]; exact hev a ha⟩

theorem effect (h : Settled q) {batch : List Entry} (hi : Inv batch q) {cancels : Bool} (he : Effect q cancels q') :
    Settled q' := by
  cases he with
  | @added t _ _ _ _ serial _ =>
    refine h.told (.added t _ _) (fun a _ => by cases a <;> trivial) rfl (Nat.le_succ _) (fun u hu hg => ?_) (by simp [TimerEvent.ends])
    have : u ≠ t := fun he => by rw [he, serial] at hu; exact Nat.lt_irrefl _ hu
    simpa [TimerQueue.admitted, this] using hg
  | expired => exact ⟨h.gone, h.order⟩
  | @canceled t timer live =>
    have hend : ∀ u, some t = some u → u.serial < q.next ∧ Function.update q.timers t none u = none := fun u hu => by
      cases hu
      exact ⟨hi.fresh t timer live, Function.update_self ..⟩
    have deleted : Settled { q.cancelled t timer with trace := q.trace ++ [.deleted t] } :=
      h.told (.deleted t) (h.mayFollow live (.inr rfl)) rfl (Nat.le_refl _) (fun _ _ => update_none) hend
    exact deleted.told (.canceled t (q.queued t)) (fun a _ => by cases a <;> trivial) rfl (Nat.le_refl _)
      (fun _ _ hg => hg) hend

end Settled

/-- As long as every cancelled timer was in `timerList_`, the unfinished batch holds live timers. -/
def Alive (batch : List Entry) (q : TimerQueue) : Prop := AllQueued q.trace → ∀ e ∈ batch, (q.timers e.timer).isSome

theorem carried_cancel (curr : Int) : Carried curr true fun batch _ q => Settled q ∧ Alive batch q where
  fd fd h := ⟨⟨h.1.gone, h.1.order⟩, h.2⟩
  effect {batch _ q c q'} hi h he _ := by
    refine ⟨h.1.effect hi he, fun hq e hin => ?_⟩
    cases he with
    | @added t _ _ _ _ _ _ =>
      by_cases het : e.timer = t
      · simp [TimerQueue.admitted, het]
      · simpa [TimerQueue.admitted, het] using h.2 hq.before e hin
    | expired => exact h.2 hq e hin
    | @canceled t timer live =>
      have inList : q.queued t = true :=
        hq (.canceled t (q.queued t)) (by simp [TimerQueue.cancelled])
      obtain ⟨x, hx, hxt⟩ := List.any_eq_true.1 inList
      have het : e.timer ≠ t := fun het => hi.once e hin x hx ((eq_of_beq hxt).trans het.symm)
      simpa [TimerQueue.cancelled, het] using h.2 hq.before.before e hin
  run {e batch q timer} hi h ht _ := by
    refine ⟨?_, fun hq => h.2 hq.before⟩
    exact h.1.told (.run e.timer timer.timing) (h.1.mayFollow ht (.inl ⟨_, rfl⟩)) rfl (Nat.le_refl _)
      (fun _ _ hg => hg) (by simp [TimerEvent.ends])
  rearm {e batch q timer} hi h ht _ := by
    refine ⟨⟨fun a ha u hu => ?_, h.1.order⟩, fun hq x hx => ?_⟩
    · obtain ⟨hs, hg⟩ := h.1.gone a ha u hu
      have hue : u ≠ e.timer := fun he => by rw [he, ht] at hg; cases hg
      exact ⟨hs, by simpa [hue] using hg⟩
    · by_cases hxe : x.timer = e.timer
      · simp [hxe]
      · simpa [hxe] using h.2 hq x (List.mem_cons_of_mem _ hx)
  finish {e batch q timer} hi h ht _ := by
    refine ⟨?_, fun hq x hx => ?_⟩
    · refine h.1.told (.deleted e.timer) (h.1.mayFollow ht (.inr rfl)) rfl (Nat.le_refl _) (fun _ _ => update_none) ?_
      rintro _ ⟨⟩
      exact ⟨hi.fresh e.timer timer ht, Function.update_self ..⟩
    · have hxe : x.timer ≠ e.timer := ((List.pairwise_cons.1 hi.distinct).1 x hx).symm
      simpa [hxe] using h.2 hq.before x (List.mem_cons_of_mem _ hx)

/-- Nothing is amiss when the entries that are due move into the batch. -/
theorem settled_due (curr : Int) {q : TimerQueue} (hi : Inv [] q) (h : Settled q) :
    Settled { q with timerList := q.timerList.above (toLex (curr + 1, UINTPTR_MAX)) } ∧
      Alive (q.timerList.below (toLex (curr + 1, UINTPTR_MAX)))
        { q with timerList := q.timerList.above (toLex (curr + 1, UINTPTR_MAX)) } := by
  refine ⟨⟨h.gone, h.order⟩, fun _ e he => ?_⟩
  rw [OrdSet.below_eq] at he
  obtain ⟨timer, ht, _⟩ := hi.queued e (List.mem_filter.1 he).1
  simp [ht]

/-- **One step**: every stop is in a settled state, and it is no access to a deleted timer if the cancelled timers
were all in `timerList_`. -/
theorem step_settled (op : Op) {q : TimerQueue} (hi : Inv [] q) (h : Settled q) :
    Ensures (step op) q (fun _ q' => Inv [] q' ∧ Settled q')
      fun e q' => Settled q' ∧ (AllQueued q'.trace → e ≠ .deletedTimer) := by
  cases op with
  | call x =>
    exact ((carried_cancel 0).call false hi ⟨h, fun _ => by simp⟩ x fun _ => rfl).mono
      (fun _ _ hq => ⟨hq.1, hq.2.1⟩) fun e _ hq => ⟨hq.2.2.1, fun _ he => by simp [he] at hq⟩
  | handleTimingRead curr callbacks now =>
    have read : Settled { q with timerfd := { q.timerfd with unread := false } } := ⟨h.gone, h.order⟩
    refine ((carried_cancel curr).handleTimingRead callbacks (fun _ _ _ _ => rfl) now Settled hi read
      fun p hp hs => settled_due curr hp hs).mono (fun _ _ hq => ⟨hq.1, hq.2.1.1⟩) fun e q' hq => ?_
    obtain ⟨hfault, rfl⟩ | ⟨batch, _, _, hj, hstop⟩ := hq
    · exact ⟨read, fun _ he => by simp [he] at hfault⟩
    · refine ⟨hj.1, fun hall he => ?_⟩
      obtain ⟨x, rest, rfl, hx⟩ := (he ▸ hstop).deleted
      have := hj.2 hall x (List.mem_cons_self ..)
      simp [hx] at this

/-- A batch in which nothing is due later, if it was made so. -/
theorem Carried.due {curr : Int} {cancels : Bool} {J : List Entry → Bool → TimerQueue → Prop} (hJ : Carried curr cancels J)
    (made : Prop) : Carried curr cancels fun batch running q => J batch running q ∧ (made → ∀ e ∈ batch, e.time ≤ curr) where
  fd fd h := ⟨hJ.fd fd h.1, h.2⟩
  effect hi h he hc := ⟨hJ.effect hi h.1 he hc, h.2⟩
  run hi h ht hdue := ⟨hJ.run hi h.1 ht hdue, h.2⟩
  rearm hi h ht hrep := ⟨hJ.rearm hi h.1 ht hrep, fun hm e he => h.2 hm e (List.mem_cons_of_mem _ he)⟩
  finish hi h ht hrep := ⟨hJ.finish hi h.1 ht hrep, fun hm e he => h.2 hm e (List.mem_cons_of_mem _ he)⟩

theorem run_settled {q : TimerQueue} (h : Run step (fun _ _ => True) .init q) : Inv [] q ∧ Settled q :=
  h.invariant ⟨inv_init, .init⟩ fun _ op hs _ => (step_settled op hs.1 hs.2).mono (fun _ _ ht => ht) fun _ _ _ => trivial

/-- **Cancellation**: in every run no callback of a timer starts after it was cancelled and no timer is deleted
twice, and as long as every timer was cancelled with its entry in `timerList_`, no step reads a deleted timer. -/
theorem cancel_safe (q : TimerQueue) (h : Run step (fun _ _ => True) .init q) :
    q.trace.Pairwise MayFollow ∧ ∀ op e q', step op q = .error e q' →
      q'.trace.Pairwise MayFollow ∧ ((∀ ev ∈ q'.trace, ev.Queued) → e ≠ .deletedTimer) := by
  have kept := run_settled h
  refine ⟨kept.2.order, fun op e q' he => ?_⟩
  obtain ⟨settled, hne⟩ := (ensures_error he).1 (step_settled op kept.1 kept.2)
  exact ⟨settled.order, hne⟩

/-- Two timers expire together; the callback of the first, a periodic one, cancels a third that is still queued.
A read of the timerfd before it has expired again fails. -/
theorem cancel_safe_queued :
    ∃ q op q', Run step (fun _ _ => True) .init q ∧ step op q = .error .assertFailed q' ∧ .canceled ⟨48, 2⟩ true ∈ q'.trace ∧
      (∀ ev ∈ q'.trace, ev.Queued) ∧ q.trace.Pairwise MayFollow ∧ q'.trace.Pairwise MayFollow ∧
      Fault.assertFailed ≠ .deletedTimer := by
  obtain ⟨q, run, hq⟩ := Run.reaches step (fun _ _ => True) .init
    [.call (.addTimer 5000000 2000 16 0), .call (.addTimer 5000000 0 32 0), .call (.addTimer 9000000 0 48 0), .call .expire,
      .handleTimingRead 6000000 (fun t => if t.addr = 16 then [.cancelTimer ⟨48, 2⟩] else []) 6000000]
    (fun q => Ensures (step (.handleTimingRead 6000001 (fun _ => []) 6000001)) q (fun _ _ => False) fun e q' =>
      e = .assertFailed ∧ .canceled ⟨48, 2⟩ true ∈ q'.trace ∧ ∀ ev ∈ q'.trace, ev.Queued)
    (by decide +kernel) (by decide +kernel)
  obtain ⟨e, q', he, rfl, hcanceled, hall⟩ := hq.stops
  obtain ⟨horder, hstop⟩ := cancel_safe q run
  exact ⟨q, _, q', run, he, hcanceled, hall, horder, (hstop _ _ q' he).1, (hstop _ _ q' he).2 hall⟩

/-- A timer's own callback cancels it: `handleTimingRead` goes on to read `canceled_` of the deleted timer. -/
theorem not_cancel_safe_own :
    ¬ ∀ q : TimerQueue, Run step (fun _ _ => True) .init q → ∀ op e q', step op q = .error e q' → e ≠ .deletedTimer := by
  intro safe
  obtain ⟨q, run, hq⟩ := Run.reaches step (fun _ _ => True) .init [.call (.addTimer 5000000 0 16 0), .call .expire]
    (fun q => Ensures (step (.handleTimingRead 6000000 (fun _ => [.cancelTimer ⟨16, 0⟩]) 6000000)) q (fun _ _ => False)
      fun e _ => e = .deletedTimer) (by decide +kernel) (by decide +kernel)
  obtain ⟨e, q', he, huaf⟩ := hq.stops
  exact safe q run _ e q' he huaf

end NetServer.Timers
