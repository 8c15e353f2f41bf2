import NetServer.Timer.Inv
/-!
# The loop over the expired batch

`handleTimingRead` runs user code in the middle of a loop over raw pointers. `Carried J` lists what a predicate
`J batch running q` must survive: one call of user code, the start of a callback and the two ends of the loop
body. The rules then carry `J`, together with `Inv`, through scripts, the loop and the whole call, and say in
which states these can stop (`LoopStop`).
-/

namespace NetServer.Timers
open Exec

/-! ## The body of the loop, cut at the callback -/

/-- Up to the callback: is it called? -/
def enterExpired (curr : Int) (e : Entry) : M Bool := do
  let timer ← deref e.timer
  assert (timer.expired curr = true)
  if !timer.canceled then
    emit (.run e.timer timer.timing)
  pure !timer.canceled

/-- From the callback on. -/
def leaveExpired (e : Entry) : M Unit := do
  let timer ← deref e.timer
  if !timer.canceled && timer.repeated then
    restart e.timer
    let timer ← deref e.timer
    insertEntry ⟨timer.timing, e.timer⟩
  else
    deleteTimer e.timer

theorem runExpired_eq (curr : Int) (e : Entry) (callback : Script) :
    runExpired curr e callback = (do
      if ← enterExpired curr e then
        callback.run
      leaveExpired e) := by
  simp only [runExpired, enterExpired, leaveExpired, bind_assoc]
  refine bind_congr fun timer => bind_congr fun _ => ?_
  cases timer.canceled
  · simp
  · simp

/-! ## What the loop carries -/

/-- `J batch running q`: the loop has `batch` left, and `running` says that the callback of its first timer has
been started. `curr` is the clock of the call, `cancels` whether callbacks may cancel. -/
structure Carried (curr : Int) (cancels : Bool) (J : List Entry → Bool → TimerQueue → Prop) : Prop where
  fd : ∀ {batch running q} fd, J batch running q → J batch running { q with timerfd := fd }
  effect : ∀ {batch running q c q'}, Inv batch q → J batch running q → Effect q c q' → (c = true → cancels = true) →
    J batch running q'
  run : ∀ {e batch q timer}, Inv (e :: batch) q → J (e :: batch) false q → q.timers e.timer = some timer →
    timer.timing ≤ curr → J (e :: batch) true { q with trace := q.trace ++ [.run e.timer timer.timing] }
  rearm : ∀ {e batch q timer}, Inv (e :: batch) q → J (e :: batch) true q → q.timers e.timer = some timer →
    timer.repeated = true → J batch false { q with
      timers := Function.update q.timers e.timer (some { timer with timing := timer.timing + timer.interval * 1000 })
      timerList := q.timerList.insert ⟨timer.timing + timer.interval * 1000, e.timer⟩ }
  finish : ∀ {e batch q timer}, Inv (e :: batch) q → J (e :: batch) true q → q.timers e.timer = some timer →
    timer.repeated = false → J batch false { q with
      timers := Function.update q.timers e.timer none
      trace := q.trace ++ [.deleted e.timer] }

/-- How the loop stops at the batch: user code or the clock gives up, or the first timer of the batch is gone, or it is not
due. -/
def StopsAt (curr : Int) (batch : List Entry) (e : Fault) (q : TimerQueue) : Prop :=
  e = .outside ∨ e = .overflow ∨ ∃ x rest, batch = x :: rest ∧ (e = .deletedTimer ∧ q.timers x.timer = none ∨
    e = .assertFailed ∧ ∃ timer, q.timers x.timer = some timer ∧ curr < timer.timing)

/-- Where the call can stop. -/
def LoopStop (curr : Int) (J : List Entry → Bool → TimerQueue → Prop) (e : Fault) (q : TimerQueue) : Prop :=
  ∃ batch running, Inv batch q ∧ J batch running q ∧ StopsAt curr batch e q

theorem StopsAt.deleted {curr : Int} {batch : List Entry} {q : TimerQueue} (h : StopsAt curr batch .deletedTimer q) :
    ∃ x rest, batch = x :: rest ∧ q.timers x.timer = none := by
  obtain he | he | ⟨x, rest, hbatch, ⟨-, hgone⟩ | ⟨he, -⟩⟩ := h
  · cases he
  · cases he
  · exact ⟨x, rest, hbatch, hgone⟩
  · cases he

theorem restart_spec {q : TimerQueue} {t : TimerPtr} {timer : Timer} (ht : q.timers t = some timer)
    (hrep : timer.repeated = true) :
    Ensures (restart t) q
      (fun _ q' => q' = { q with timers := Function.update q.timers t (some { timer with timing := timer.timing + timer.interval * 1000 }) })
      fun e q' => e = .overflow ∧ q' = q := by
  rw [restart, ensures_bind, ensures_deref]
  refine ⟨fun x hx => ?_, fun hn => by simp [hn] at ht⟩
  obtain rfl : timer = x := Option.some.inj (ht.symm.trans hx)
  rw [ensures_bind, ensures_assert]
  refine ⟨fun _ => ?_, fun hn => absurd hrep hn⟩
  rw [ensures_bind]
  refine ensures_plus ?_ ⟨rfl, rfl⟩
  rw [ensures_store]

/-- A periodic timer gets an entry at its next deadline. -/
theorem leaveExpired_repeats {q : TimerQueue} {e : Entry} {timer : Timer} (ht : q.timers e.timer = some timer)
    (hcan : timer.canceled = false) (hrep : timer.repeated = true) :
    Ensures (leaveExpired e) q
      (fun _ q' => q' = { q with
        timers := Function.update q.timers e.timer (some { timer with timing := timer.timing + timer.interval * 1000 })
        timerList := q.timerList.insert ⟨timer.timing + timer.interval * 1000, e.timer⟩ })
      fun err q' => err = .overflow ∧ q' = q := by
  rw [leaveExpired, ensures_bind, ensures_deref]
  refine ⟨fun x hx => ?_, fun hn => by simp [hn] at ht⟩
  obtain rfl : timer = x := Option.some.inj (ht.symm.trans hx)
  have again : (!timer.canceled && timer.repeated) = true := by simp [hcan, hrep]
  rw [if_pos again, ensures_bind]
  refine (restart_spec ht hrep).mono ?_ fun _ _ h => h
  rintro _ _ rfl
  rw [ensures_bind, ensures_deref]
  refine ⟨fun x hx => ?_, fun hn => by simp at hn⟩
  obtain rfl : { timer with timing := timer.timing + timer.interval * 1000 } = x := by simpa using hx
  rw [ensures_insertEntry]

/-- A one-shot timer is deleted. -/
theorem leaveExpired_ends {q : TimerQueue} {e : Entry} {timer : Timer} (ht : q.timers e.timer = some timer)
    (hrep : timer.repeated = false) :
    Ensures (leaveExpired e) q
      (fun _ q' => q' = { q with timers := Function.update q.timers e.timer none, trace := q.trace ++ [.deleted e.timer] })
      fun _ _ => False := by
  rw [leaveExpired, ensures_bind, ensures_deref]
  refine ⟨fun x hx => ?_, fun hn => by simp [hn] at ht⟩
  obtain rfl : timer = x := Option.some.inj (ht.symm.trans hx)
  have last : (!timer.canceled && timer.repeated) = false := by simp [hrep]
  rw [if_neg (by simp [last]), ensures_deleteTimer]
  exact ⟨fun _ => rfl, fun hn => by simp [ht] at hn⟩

namespace Carried

variable {curr : Int} {cancels : Bool} {J : List Entry → Bool → TimerQueue → Prop} (hJ : Carried curr cancels J)
include hJ

theorem call {batch : List Entry} (running : Bool) {q : TimerQueue} (hi : Inv batch q) (hj : J batch running q)
    (x : Call) (hx : x.cancels = true → cancels = true) :
    Ensures x.run q (fun _ q' => Inv batch q' ∧ J batch running q')
      fun e q' => (e = .outside ∨ e = .overflow) ∧ Inv batch q' ∧ J batch running q' := by
  refine (x.run_spec q).mono (fun _ q' he => ⟨hi.effect he, hJ.effect hi hj he hx⟩) ?_
  rintro e q' ⟨hcall, hq⟩
  have hfault : e = .outside ∨ e = .overflow := hcall.imp id fun h => h.resolve_right fun h => h.2 hi.uncanceled
  obtain rfl | ⟨fd, he⟩ := hq
  · exact ⟨hfault, hi, hj⟩
  · have added := hJ.effect hi hj he fun h => absurd h Bool.false_ne_true
    exact ⟨hfault, { hi.effect he with }, hJ.fd (q := { q' with timerfd := fd }) q'.timerfd added⟩

/-- User code of any length. -/
theorem script {batch : List Entry} {running : Bool} (script : Script) (hs : ∀ x ∈ script, x.cancels = true → cancels = true) :
    ∀ {q : TimerQueue}, Inv batch q → J batch running q → Ensures script.run q (fun _ q' => Inv batch q' ∧ J batch running q')
      fun e q' => (e = .outside ∨ e = .overflow) ∧ Inv batch q' ∧ J batch running q' := by
  induction script with
  | nil => exact fun hi hj => ⟨hi, hj⟩
  | cons x rest ih =>
    intro q hi hj
    rw [Script.run, steps, ensures_bind]
    exact (hJ.call running hi hj x (hs x (List.mem_cons_self ..))).mono
      (fun _ q' h => ih (fun y hy => hs y (List.mem_cons_of_mem _ hy)) h.1 h.2) fun _ _ h => h

/-- The callback is called: the timer is live and due, and nobody has cancelled it. -/
theorem enterExpired {e : Entry} {batch : List Entry} {q : TimerQueue} (hi : Inv (e :: batch) q) (hj : J (e :: batch) false q) :
    Ensures (enterExpired curr e) q (fun runs q' => runs = true ∧ Inv (e :: batch) q' ∧ J (e :: batch) true q')
      fun err q' => LoopStop curr J err q' := by
  rw [Timers.enterExpired, ensures_bind, ensures_deref]
  refine ⟨fun timer ht => ?_, fun hn => ⟨_, _, hi, hj, .inr (.inr ⟨e, batch, rfl, .inl ⟨rfl, hn⟩⟩)⟩⟩
  rw [ensures_bind, ensures_assert]
  refine ⟨fun hexp => ?_, fun hexp => ?_⟩
  swap
  · have late : curr < timer.timing := by simpa [Timer.expired] using hexp
    exact ⟨_, _, hi, hj, .inr (.inr ⟨e, batch, rfl, .inr ⟨rfl, timer, ht, late⟩⟩)⟩
  have due : timer.timing ≤ curr := by simpa [Timer.expired] using hexp
  simp only [hi.uncanceled e.timer timer ht, Bool.not_false, if_true]
  rw [ensures_bind, ensures_emit, ensures_pure]
  exact ⟨rfl, { hi with }, hJ.run hi hj ht due⟩

/-- The timer is queued again or deleted. -/
theorem leaveExpired {e : Entry} {batch : List Entry} {q : TimerQueue} (hi : Inv (e :: batch) q) (hj : J (e :: batch) true q) :
    Ensures (leaveExpired e) q (fun _ q' => Inv batch q' ∧ J batch false q') fun err q' => LoopStop curr J err q' := by
  cases ht : q.timers e.timer with
  | none =>
    rw [Timers.leaveExpired, ensures_bind, ensures_deref]
    exact ⟨fun timer htimer => by simp [ht] at htimer,
      fun hn => ⟨_, _, hi, hj, .inr (.inr ⟨e, batch, rfl, .inl ⟨rfl, hn⟩⟩)⟩⟩
  | some timer =>
    cases hrep : timer.repeated with
    | true =>
      refine (leaveExpired_repeats ht (hi.uncanceled e.timer timer ht) hrep).mono ?_ ?_
      · rintro _ _ rfl
        exact ⟨hi.rearmed ht _, hJ.rearm hi hj ht hrep⟩
      · rintro err _ ⟨rfl, rfl⟩
        exact ⟨_, _, hi, hj, .inr (.inl rfl)⟩
    | false =>
      refine (leaveExpired_ends ht hrep).mono ?_ fun _ _ h => h.elim
      rintro _ _ rfl
      exact ⟨hi.finished _, hJ.finish hi hj ht hrep⟩

/-- **The body of the loop.** -/
theorem runExpired {e : Entry} {batch : List Entry} {q : TimerQueue} (hi : Inv (e :: batch) q) (hj : J (e :: batch) false q)
    (callback : Script) (hs : ∀ x ∈ callback, x.cancels = true → cancels = true) :
    Ensures (runExpired curr e callback) q (fun _ q' => Inv batch q' ∧ J batch false q') fun err q' => LoopStop curr J err q' := by
  rw [runExpired_eq, ensures_bind]
  refine (hJ.enterExpired hi hj).mono ?_ fun _ _ h => h
  rintro _ q₁ ⟨rfl, hi₁, hj₁⟩
  rw [if_pos rfl, ensures_bind]
  exact (hJ.script callback hs hi₁ hj₁).mono (fun _ q₂ h => hJ.leaveExpired h.1 h.2)
    fun err q₂ h => ⟨_, _, h.2.1, h.2.2, h.1.imp id .inl⟩

/-- **The loop** over the first part of a batch, by induction on it. -/
theorem runAllExpired (callbacks : TimerPtr → Script) (hs : ∀ t, ∀ x ∈ callbacks t, x.cancels = true → cancels = true)
    (left : List Entry) {done : List Entry} : ∀ {q : TimerQueue}, Inv (done ++ left) q → J (done ++ left) false q →
      Ensures (runAllExpired curr callbacks done) q (fun _ q' => Inv left q' ∧ J left false q') fun err q' => LoopStop curr J err q' := by
  induction done with
  | nil => exact fun hi hj => ⟨hi, hj⟩
  | cons e rest ih =>
    intro q hi hj
    rw [Timers.runAllExpired, ensures_bind]
    exact (hJ.runExpired hi hj (callbacks e.timer) (hs e.timer)).mono (fun _ q' h => ih h.1 h.2) fun _ _ h => h

end Carried

/-! ## The whole call -/

/-- What `getExpired` leaves is due later, so its own `assert` holds. -/
theorem first_above_later {q : TimerQueue} {curr : Int} :
    (q.timerList.above (toLex (curr + 1, UINTPTR_MAX))).first.all (curr < ·.time) = true := by
  rw [Option.all_eq_true]
  intro e he
  have hmem := OrdSet.first_mem he
  rw [OrdSet.above_eq, List.mem_filter, decide_eq_true_eq] at hmem
  have hle := hmem.2
  unfold Entry.key at hle
  rw [Prod.Lex.toLex_le_toLex] at hle
  simp only at hle
  simp only [decide_eq_true_eq]
  omega

/-- `getExpired` and what it leaves behind. -/
theorem getExpired_spec (curr : Int) (q : TimerQueue) :
    Ensures (getExpired curr) q
      (fun expired q' => expired = q.timerList.below (toLex (curr + 1, UINTPTR_MAX)) ∧
        q' = { q with timerList := q.timerList.above (toLex (curr + 1, UINTPTR_MAX)) })
      fun e q' => e = .overflow ∧ q' = q := by
  rw [getExpired, ensures_bind, ensures_int64]
  refine ⟨fun _ => ?_, fun _ => ⟨rfl, rfl⟩⟩
  simp only [ensures_bind, ensures_get, ensures_assert, ensures_set, ensures_pure]
  exact ⟨fun _ => ⟨trivial, trivial⟩, fun hn => absurd first_above_later hn⟩

/-- The end of `handleTimingRead`. -/
def rearmTimerfd (now : Int) : M Unit := do
  match (← get).timerList.first with
  | some e => setTimerfd e.time now
  | none => pure ()

theorem rearmTimerfd_spec (now : Int) (q : TimerQueue) :
    Ensures (rearmTimerfd now) q
      (fun _ q' => ∃ fd, q' = { q with timerfd := fd } ∧ ∀ e, q.timerList.first = some e → SetFor e.time now fd)
      fun e q' => e = .overflow ∧ q' = q := by
  rw [rearmTimerfd, ensures_bind, ensures_get]
  cases hf : q.timerList.first with
  | none => exact ⟨q.timerfd, rfl, by simp⟩
  | some e =>
    refine (setTimerfd_spec e.time now q).mono ?_ fun _ _ he => he
    rintro _ q' ⟨fd, hset, hq⟩
    refine ⟨fd, hq, ?_⟩
    rintro _ ⟨⟩
    exact hset

theorem handleTimingRead_parts (curr : Int) (callbacks : TimerPtr → Script) (now : Int) :
    handleTimingRead curr callbacks now = (do
      let expired ← (do readTimerfd; getExpired curr)
      runAllExpired curr callbacks expired
      rearmTimerfd now) := by
  rw [bind_assoc]
  rfl

/-- `handleTimingRead` up to its loop: `J₀` is what `J` follows from when the entries that are due move into the batch. -/
theorem readExpired_spec {curr : Int} {J : List Entry → Bool → TimerQueue → Prop} (J₀ : TimerQueue → Prop) {q : TimerQueue}
    (hi : Inv [] q) (hj₀ : J₀ { q with timerfd := { q.timerfd with unread := false } })
    (hsplit : ∀ q : TimerQueue, Inv [] q → J₀ q → J (q.timerList.below (toLex (curr + 1, UINTPTR_MAX))) false
      { q with timerList := q.timerList.above (toLex (curr + 1, UINTPTR_MAX)) }) :
    Ensures (do readTimerfd; getExpired curr) q (fun expired q' => Inv expired q' ∧ J expired false q')
      fun err q' => (err = .overflow ∨ err = .assertFailed ∧ q.timerfd.unread = false) ∧
        q' = { q with timerfd := { q.timerfd with unread := false } } := by
  have hread : Inv [] { q with timerfd := { q.timerfd with unread := false } } := { hi with }
  simp only [readTimerfd, ensures_bind, ensures_get, ensures_set]
  rw [ensures_assert]
  refine ⟨fun _ => ?_, fun hn => ⟨.inr ⟨rfl, ?_⟩, rfl⟩⟩
  swap
  · cases hunread : q.timerfd.unread with
    | false => rfl
    | true => simp [hunread] at hn
  refine (getExpired_spec curr _).mono ?_ fun err q' h => ⟨.inl h.1, h.2⟩
  rintro expired q₁ ⟨rfl, rfl⟩
  exact ⟨hread.split _, hsplit _ hread hj₀⟩

/-- **`handleTimingRead`** carries `J` to its end, where the timerfd is set for the first entry. -/
theorem Carried.handleTimingRead {curr : Int} {cancels : Bool} {J : List Entry → Bool → TimerQueue → Prop}
    (hJ : Carried curr cancels J) (callbacks : TimerPtr → Script)
    (hs : ∀ t, ∀ x ∈ callbacks t, x.cancels = true → cancels = true) (now : Int) (J₀ : TimerQueue → Prop) {q : TimerQueue}
    (hi : Inv [] q) (hj₀ : J₀ { q with timerfd := { q.timerfd with unread := false } })
    (hsplit : ∀ q : TimerQueue, Inv [] q → J₀ q → J (q.timerList.below (toLex (curr + 1, UINTPTR_MAX))) false
      { q with timerList := q.timerList.above (toLex (curr + 1, UINTPTR_MAX)) }) :
    Ensures (handleTimingRead curr callbacks now) q
      (fun _ q' => Inv [] q' ∧ J [] false q' ∧ ∀ e, q'.timerList.first = some e → SetFor e.time now q'.timerfd)
      fun err q' => ((err = .overflow ∨ err = .assertFailed ∧ q.timerfd.unread = false) ∧
        q' = { q with timerfd := { q.timerfd with unread := false } }) ∨ LoopStop curr J err q' := by
  rw [handleTimingRead_parts, ensures_bind]
  refine (readExpired_spec J₀ hi hj₀ hsplit).mono ?_ fun _ _ h => .inl h
  rintro expired q₁ ⟨hi₁, hj₁⟩
  rw [ensures_bind]
  refine (hJ.runAllExpired callbacks hs [] (by simpa using hi₁) (by simpa using hj₁)).mono ?_ fun err q' h => .inr h
  rintro _ q₂ ⟨hi₂, hj₂⟩
  refine (rearmTimerfd_spec now q₂).mono ?_ ?_
  · rintro _ q' ⟨fd, rfl, hset⟩
    exact ⟨{ hi₂ with }, hJ.fd fd hj₂, hset⟩
  · rintro _ q' ⟨rfl, rfl⟩
    exact .inr ⟨_, _, hi₂, hj₂, .inr (.inl rfl)⟩

/-! ## What the timers keep among other code -/

/-- Code of the timers: nothing but timers is read, and no cancelled timer is left. -/
abbrev Contained {α : Type} (x : M α) : Prop :=
  Moves Anywhere (fun q q' => q.Uncanceled → q'.Uncanceled)
    (fun e q q' => e ≠ .useAfterFree ∧ (q.Uncanceled → q'.Uncanceled)) x

theorem contained_composes : Composes (fun q q' : TimerQueue => q.Uncanceled → q'.Uncanceled)
    (fun (e : Fault) q q' => e ≠ .useAfterFree ∧ (q.Uncanceled → q'.Uncanceled)) where
  refl _ h := h
  trans h h' hq := h' (h hq)
  later h h' := ⟨h'.1, fun hq => h'.2 (h hq)⟩

theorem contained_call (x : Call) : Contained x.run := by
  refine fun q _ => (x.run_spec q).mono (fun _ _ he => he.uncanceled) ?_
  rintro e q' ⟨hfault, hq⟩
  have hne : e ≠ .useAfterFree := by
    rintro rfl
    simp at hfault
  obtain rfl | ⟨fd, he⟩ := hq
  · exact ⟨hne, id⟩
  · exact ⟨hne, he.uncanceled⟩

theorem contained_readExpired (curr : Int) : Contained (do readTimerfd; getExpired curr) := by
  intro q _
  simp only [readTimerfd, ensures_bind, ensures_get, ensures_set, ensures_assert]
  refine ⟨fun _ => ?_, fun _ => ⟨by decide, id⟩⟩
  refine (getExpired_spec curr _).mono ?_ ?_
  · rintro _ _ ⟨-, rfl⟩
    exact id
  · rintro _ _ ⟨rfl, rfl⟩
    exact ⟨by decide, id⟩

theorem contained_deref (t : TimerPtr) : Contained (deref t) := fun _ _ =>
  ensures_deref.2 ⟨fun _ _ => id, fun _ => ⟨by decide, id⟩⟩

theorem contained_enterExpired (curr : Int) (e : Entry) : Contained (enterExpired curr e) := by
  refine .bind contained_composes (fun _ h => h) (contained_deref _) fun timer => ?_
  refine .bind contained_composes (fun _ h => h) (.ite (.pure contained_composes _) fun _ _ => ⟨by decide, id⟩) fun _ => ?_
  cases timer.canceled with
  | true => exact .pure contained_composes _
  | false => exact fun _ _ => id

theorem contained_leaveExpired (e : Entry) : Contained (leaveExpired e) := by
  intro q _
  cases ht : q.timers e.timer with
  | none =>
    rw [leaveExpired, ensures_bind, ensures_deref]
    exact ⟨fun timer htimer => by simp [ht] at htimer, fun _ => ⟨by decide, id⟩⟩
  | some timer =>
    by_cases hagain : timer.canceled = false ∧ timer.repeated = true
    · refine (leaveExpired_repeats ht hagain.1 hagain.2).mono ?_ ?_
      · rintro _ _ rfl h u x hx
        obtain ⟨-, rfl⟩ | ⟨-, hx⟩ := of_update_some hx
        · exact hagain.1
        · exact h u x hx
      · rintro _ _ ⟨rfl, rfl⟩
        exact ⟨by decide, id⟩
    · rw [leaveExpired, ensures_bind, ensures_deref]
      refine ⟨fun x hx => ?_, fun hn => by simp [hn] at ht⟩
      obtain rfl : timer = x := Option.some.inj (ht.symm.trans hx)
      rw [if_neg (by simpa using hagain), ensures_deleteTimer]
      exact ⟨fun _ h u x hx => h u x (of_update_none hx).2, fun _ => ⟨by decide, id⟩⟩

theorem contained_rearmTimerfd (now : Int) : Contained (rearmTimerfd now) := by
  refine fun q _ => (rearmTimerfd_spec now q).mono ?_ ?_
  · rintro _ _ ⟨fd, rfl, -⟩
    exact id
  · rintro _ _ ⟨rfl, rfl⟩
    exact ⟨by decide, id⟩

end NetServer.Timers
