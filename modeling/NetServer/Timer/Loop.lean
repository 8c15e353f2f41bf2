import NetServer.Timer.Inv
/-!
# The timerfd in the event loop (v1.7/src/EventLoop.cpp:34)

`epoll_wait` reports the timerfd while it has an unread expiration, next to any other channels and in any order.
Their handlers run first if they come first in `activeChannels_`, and one that adds a timer in front calls
`timerfd_settime`, which discards the expiration that was reported. `LoopAct.keepsFront` says that none does.
-/

namespace NetServer.Timers
open Exec

/-- A channel of `activeChannels_`. -/
inductive Ready where
  | timer | other
deriving DecidableEq, Repr

structure TimerLoop where
  queue : TimerQueue
  /-- What the range-for has not finished. -/
  activeChannels : List Ready

abbrev LoopM := EStateM Fault TimerLoop

def TimerLoop.init : TimerLoop := ⟨.init, []⟩

def onQueue (x : M Unit) : LoopM Unit := zoom TimerLoop.queue (fun q w => { w with queue := q }) x

inductive LoopAct where
  /-- User code before the loop starts or between two iterations. -/
  | user (script : Script)
  /-- The kernel: the timer that is set expires. -/
  | expire
  /-- `epoll_wait` returns. -/
  | poll (ready : List Ready)
  /-- The next turn of the range-for: `script` is what the handler of another channel does, the rest what
  `handleTimingRead` reads and runs. -/
  | dispatch (script : Script) (curr : Int) (callbacks : TimerPtr → Script) (now : Int)

def loopStep : LoopAct → LoopM Unit
  | .user script => do
    if (← get).activeChannels = [] then onQueue script.run else throw .outside
  | .expire => onQueue Timers.expire
  | .poll ready => do
    let w ← get
    if w.activeChannels = [] ∧ ready.count .timer ≤ 1 ∧ (.timer ∈ ready → w.queue.timerfd.unread = true) then
      set { w with activeChannels := ready }
    else
      throw .outside
  | .dispatch script curr callbacks now => do
    match (← get).activeChannels with
    | [] => throw .outside
    | .timer :: rest => do
      onQueue (handleTimingRead curr callbacks now)
      modify fun w => { w with activeChannels := rest }
    | .other :: rest => do
      onQueue script.run
      modify fun w => { w with activeChannels := rest }

/-! ## Behind the first entry -/

/-- An entry at this time and address comes behind the first one. -/
def TimerQueue.behind (q : TimerQueue) (when : Int) (addr : Nat) : Bool :=
  q.timerList.first.any fun e => e.key < toLex (when, addr)

/-- The call adds no timer in front of `timerList_`. -/
def Call.keepsFront (q : TimerQueue) : Call → Bool
  | .addTimer when _ addr _ | .runAt when addr _ => q.behind when addr
  | .runAfter delay addr now _ | .runEvery delay addr now _ => q.behind (now + delay * 1000) addr
  | .cancelTimer _ | .expire => true

/-- A handler that runs while the timerfd is reported and not yet dispatched makes no call that adds a timer in
front of `timerList_`, as it is when the call is made. -/
def LoopAct.keepsFront (w : TimerLoop) : LoopAct → Prop
  | .dispatch script .. =>
    match w.activeChannels with
    | .other :: rest => .timer ∈ rest → Meets Call.run (fun q x => x.keepsFront q = true) script w.queue
    | _ => True
  | _ => True

instance decidableKeepsFront (w : TimerLoop) : ∀ a : LoopAct, Decidable (a.keepsFront w)
  | .dispatch script _ _ _ =>
    match h : w.activeChannels with
    | .other :: rest =>
      decidable_of_iff (.timer ∈ rest → Meets Call.run (fun q x => x.keepsFront q = true) script w.queue)
        (by simp [LoopAct.keepsFront, h])
    | .timer :: _ => .isTrue (by simp [LoopAct.keepsFront, h])
    | [] => .isTrue (by simp [LoopAct.keepsFront, h])
  | .user _ | .expire | .poll _ => .isTrue trivial

/-- `addTimer` behind the first entry leaves the timerfd alone. -/
theorem addTimer_behind {q : TimerQueue} {when : Int} {addr : Nat} (h : q.behind when addr = true) (interval now : Int) :
    Ensures (addTimer when interval addr now) q (fun _ q' => q'.timerfd = q.timerfd) fun _ _ => True := by
  obtain ⟨e, he, hlt⟩ := (Option.any_eq_true ..).1 h
  have hlt : e.key < Entry.key ⟨when, ⟨addr, q.next⟩⟩ := of_decide_eq_true hlt
  have hfirst := OrdSet.first_insert_of_lt he hlt
  simp only [addTimer, newTimer, ensures_bind, ensures_get, ensures_ite, ensures_set, ensures_pure, ensures_throw,
    ensures_emit, ensures_insertEntry, hfirst, Option.map_some, Option.some.injEq]
  exact ⟨fun _ => ⟨fun hk => absurd hk (ne_of_lt hlt), fun _ => trivial⟩, fun _ => trivial⟩

/-- **A call behind the first entry** keeps the unread expiration. -/
theorem Call.run_unread (x : Call) {q : TimerQueue} (hx : x.keepsFront q = true) (h : q.timerfd.unread = true) :
    Ensures x.run q (fun _ q' => q'.timerfd.unread = true) fun _ _ => True := by
  have added : ∀ {when interval now : Int} {addr : Nat}, q.behind when addr = true →
      Ensures (Timers.addTimer when interval addr now) q (fun _ q' => q'.timerfd.unread = true) fun _ _ => True :=
    fun hb => (addTimer_behind hb _ _).mono (fun _ _ hfd => by rw [hfd]; exact h) fun _ _ _ => trivial
  cases x with
  | addTimer when interval addr now =>
    rw [Call.run, ensures_bind]
    exact added hx
  | runAt when addr now =>
    rw [Call.run, Timers.runAt, ensures_bind]
    exact added hx
  | runAfter delay addr now now' =>
    rw [Call.run, Timers.runAfter, ensures_bind]
    refine ensures_plus ?_ trivial
    rw [Timers.runAt, ensures_bind]
    exact added hx
  | runEvery interval addr now now' =>
    rw [Call.run, Timers.runEvery, ensures_bind]
    refine ensures_plus ?_ trivial
    rw [ensures_bind]
    exact added hx
  | cancelTimer t =>
    simp only [Call.run, userTimer, ensures_bind, ensures_get, ensures_ite, ensures_pure, ensures_throw]
    refine ⟨fun ht => ?_, fun _ => trivial⟩
    obtain ⟨timer, live⟩ := Option.isSome_iff_exists.1 ht
    refine (cancelTimer_spec live).mono ?_ fun _ _ _ => trivial
    rintro _ _ rfl
    exact h
  | expire =>
    simp only [Call.run, Timers.expire, ensures_bind, ensures_get, ensures_ite, ensures_set, ensures_throw]
    exact ⟨fun _ => trivial, fun _ => trivial⟩

/-- A handler of any length, by induction on its calls. -/
theorem script_unread (script : Script) : ∀ {q : TimerQueue}, Meets Call.run (fun q x => x.keepsFront q = true) script q →
    q.timerfd.unread = true → Ensures script.run q (fun _ q' => q'.timerfd.unread = true) fun _ _ => True := by
  induction script with
  | nil => exact fun _ h => h
  | cons x rest ih =>
    intro q hm h
    rw [Script.run, steps, ensures_bind]
    exact ((x.run_unread hm.1 h).and hm.2).mono (fun _ q' h' => ih h'.2 h'.1) fun _ _ _ => trivial

/-! ## The loop -/

/-- A report of the timerfd that has not been dispatched is true, and there is at most one. -/
structure Reported (w : TimerLoop) : Prop where
  unread : .timer ∈ w.activeChannels → w.queue.timerfd.unread = true
  once : w.activeChannels.count .timer ≤ 1

theorem reported_init : Reported .init := ⟨nofun, Nat.zero_le _⟩

theorem step_reported {w : TimerLoop} (h : Reported w) (a : LoopAct) (ha : a.keepsFront w) :
    Ensures (loopStep a) w (fun _ w' => Reported w') fun _ _ => True := by
  cases a with
  | user script =>
    rw [loopStep, ensures_bind, ensures_get, ensures_ite]
    refine ⟨fun hnil => ?_, fun _ => trivial⟩
    rw [onQueue, ensures_zoom]
    have done : ∀ q', Reported { w with queue := q' } := fun q' => ⟨fun hin => by simp [hnil] at hin, h.once⟩
    unfold Ensures
    split
    · exact done _
    · trivial
  | expire =>
    rw [loopStep, onQueue, ensures_zoom]
    simp only [Timers.expire, ensures_bind, ensures_get, ensures_ite, ensures_set, ensures_throw]
    exact ⟨fun _ => ⟨fun _ => rfl, h.once⟩, fun _ => trivial⟩
  | poll ready =>
    simp only [loopStep, ensures_bind, ensures_get, ensures_ite, ensures_set, ensures_throw]
    exact ⟨fun hr => ⟨hr.2.2, hr.2.1⟩, fun _ => trivial⟩
  | dispatch script curr callbacks now =>
    rw [loopStep, ensures_bind, ensures_get]
    cases hw : w.activeChannels with
    | nil => trivial
    | cons p rest =>
      have honce := h.once
      rw [hw] at honce
      cases p with
      | timer =>
        -- after its dispatch the timerfd is not in the batch any more
        have hout : .timer ∉ rest := fun hin => by
          have := List.count_pos_iff.2 hin
          rw [List.count_cons_self] at honce
          omega
        have done : ∀ q', Reported ⟨q', rest⟩ := fun q' => ⟨fun hin => absurd hin hout, by
          rw [List.count_eq_zero.2 hout]; omega⟩
        rw [ensures_bind, onQueue, ensures_zoom]
        unfold Ensures
        split
        · exact done _
        · trivial
      | other =>
        rw [ensures_bind, onQueue, ensures_zoom]
        have hcount : rest.count .timer ≤ 1 := by rwa [List.count_cons_of_ne (by decide)] at honce
        by_cases hin : .timer ∈ rest
        · have hm : Meets Call.run (fun q x => x.keepsFront q = true) script w.queue := by
            simp only [LoopAct.keepsFront, hw] at ha
            exact ha hin
          have hunread := h.unread (by rw [hw]; exact List.mem_cons_of_mem _ hin)
          exact (script_unread script hm hunread).mono (fun _ q' hq => ⟨fun _ => hq, hcount⟩) fun _ _ _ => trivial
        · have done : ∀ q', Reported ⟨q', rest⟩ := fun q' => ⟨fun hin' => absurd hin' hin, hcount⟩
          unfold Ensures
          split
          · exact done _
          · trivial

/-- **The read never comes up empty**: in every run in which no handler adds a timer in front while the timerfd is
reported, `handleTimingRead` is only dispatched on an unread expiration, and the read in it succeeds. -/
theorem timerfd_unread (w : TimerLoop) (h : Run loopStep (fun w a => a.keepsFront w) .init w)
    (hw : w.activeChannels.head? = some .timer) :
    w.queue.timerfd.unread = true ∧ Ensures readTimerfd w.queue (fun _ _ => True) fun _ _ => False := by
  have kept : Reported w := h.invariant reported_init fun s a hs ha => step_reported hs a ha
  have hunread := kept.unread (List.mem_of_mem_head? hw)
  refine ⟨hunread, ?_⟩
  simp only [readTimerfd, ensures_bind, ensures_get, ensures_set, ensures_assert, hunread]
  decide

/-- A handler before the timerfd's own adds a timer behind the first entry and cancels it again. -/
theorem timerfd_unread_behind :
    ∃ w : TimerLoop, Run loopStep (fun w a => a.keepsFront w) .init w ∧ w.activeChannels.head? = some .timer ∧
      w.queue.next = 2 ∧ w.queue.timerfd.unread = true := by
  obtain ⟨w, run, hw, hnext⟩ := Run.reaches loopStep (fun w a => a.keepsFront w) .init
    [.user [.addTimer 5000000 0 16 0], .expire, .poll [.other, .timer, .other],
      .dispatch [.runAfter 9000 32 5000000 5000000, .cancelTimer ⟨32, 1⟩] 0 (fun _ => []) 0]
    (fun w => w.activeChannels.head? = some .timer ∧ w.queue.next = 2) (by decide +kernel) (by decide +kernel)
  exact ⟨w, run, hw, hnext, (timerfd_unread w run hw).1⟩

/-- The first timer is due in 100 s and wakes the loop at a thousandth of that; a handler that comes before
`handleTimingRead` adds one for 50 s, and nothing is left to read. -/
theorem not_timerfd_unread_front :
    ¬ ∀ w : TimerLoop, Run loopStep (fun _ _ => True) .init w → w.activeChannels.head? = some .timer →
      w.queue.timerfd.unread = true := by
  intro unread
  obtain ⟨w, run, hw, hread⟩ := Run.reaches loopStep (fun _ _ => True) .init
    [.user [.runAt 100000000000 16 0], .expire, .poll [.other, .timer],
      .dispatch [.runAt 50000000000 32 100000000] 0 (fun _ => []) 0]
    (fun w => w.activeChannels.head? = some .timer ∧ w.queue.timerfd.unread = false) (by decide +kernel) (by decide +kernel)
  exact absurd ((unread w run hw).symm.trans hread) (by decide)

end NetServer.Timers
