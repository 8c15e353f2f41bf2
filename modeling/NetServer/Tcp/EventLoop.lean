import NetServer.Tcp.Loop
/-!
# `EventLoop::loop` as it is written

`step` takes the loop apart into a `poll` and single turns of the range-for, so that a run can be looked at between any two of
them. Here the loop is whole, with the flags it tests and the array that `epoll_wait` fills. `loop_until_quit` puts the two
together: a call of `loop()` makes exactly the steps of its iterations, batch by batch, up to the first batch in which
`quit()` was called, and to the end of that batch.

| here | there |
| --- | --- |
| `EventLoop`          | `isLooping_`, `quit_`, and `activeEvents_.size()` of `poller_` |
| `Iteration`          | what `epoll_wait` reports (nothing where it returns 0 or -1), and what happens in each `handleEvents`: does it call `quit()`? No other thread does. |
| `EventLoop.poll`     | `Epoller::poll` (`Epoller.cpp:21`) with the array, which doubles when it was filled |
| `EventLoop.handleAll`, `loopWhile`, `loop`, `callQuit` | `EventLoop.cpp:34-67` |
-/

namespace NetServer
open Exec

structure EventLoop where
  isLooping : Bool
  quit : Bool
  activeEvents : Nat
  world : World

structure Iteration where
  events : List (Fd × Mask)
  handlers : List (EventInput × Bool)
deriving DecidableEq, Repr

abbrev LoopM := EStateM Fault EventLoop

namespace EventLoop

def DeaultEventNums : Nat := 128

/-- A loop that has not been run. -/
def init (w : World) : EventLoop := ⟨false, false, DeaultEventNums, w⟩

def onWorld (x : M Unit) : LoopM Unit := zoom EventLoop.world (fun w s => { s with world := w }) x

def callQuit : LoopM Unit := modify fun s => { s with quit := true }

/-- `activeEvents_.size()` after a poll that wrote `n` events. -/
def resized (size n : Nat) : Nat := if 0 < n ∧ n = size then size * 2 else size

def poll (events : List (Fd × Mask)) : LoopM Unit := do
  let s ← get
  if s.activeEvents < events.length then
    throw .outside
  else
    onWorld (NetServer.poll events)
    modify fun s => { s with activeEvents := resized s.activeEvents events.length }

/-- The range-for over `activeChannels_`. -/
def handleAll : List (EventInput × Bool) → LoopM Unit
  | [] => do if (← get).world.activeChannels = [] then pure () else throw .outside
  | (inp, quits) :: rest => do
    onWorld (dispatch inp)
    if quits then
      callQuit
    handleAll rest

/-- `while (!quit_)`. -/
def loopWhile : List Iteration → LoopM Unit
  | [] => do if (← get).quit then pure () else throw .outside
  | it :: rest => do
    if (← get).quit then
      pure ()
    else
      poll it.events
      handleAll it.handlers
      loopWhile rest

def loop (its : List Iteration) : LoopM Unit := do
  assert ((← get).isLooping = false)
  modify fun s => { s with isLooping := true }
  loopWhile its
  modify fun s => { s with isLooping := false }

end EventLoop

namespace Iteration

def quits (it : Iteration) : Bool := it.handlers.any (·.2)

def acts (it : Iteration) : List Act := .poll it.events :: it.handlers.map fun h => .dispatch h.1

/-- The iterations that the loop makes. -/
def played : List Iteration → List Iteration
  | [] => []
  | it :: rest => if it.quits then [it] else it :: played rest

theorem played_subset (its : List Iteration) : ∀ it ∈ played its, it ∈ its := by
  induction its with
  | nil => exact fun _ h => h
  | cons it rest ih =>
    intro x hx
    rw [played] at hx
    split at hx
    · exact List.mem_cons.2 (.inl (List.mem_singleton.1 hx))
    · exact List.mem_cons.2 ((List.mem_cons.1 hx).imp id (ih x))

end Iteration

namespace EventLoop

variable {s : EventLoop}

/-! ## One iteration -/

/-- What a stop of the loop is to the steps `as`. -/
def StopsAt (as : List Act) (w : World) (e : Fault) (t : EventLoop) : Prop :=
  t.isLooping = true ∧ (e ≠ .outside → steps step as w = .error e t.world)

@[simp] theorem ensures_onWorld {x : M Unit} {Q : Unit → EventLoop → Prop} {E : Fault → EventLoop → Prop} :
    Ensures (onWorld x) s Q E ↔
      Ensures x s.world (fun a w => Q a { s with world := w }) (fun e w => E e { s with world := w }) := ensures_zoom

/-- Where a step stops, so do the steps that start with it. -/
theorem steps_stop {a : Act} {w w' : World} {e : Fault} (h : step a w = .error e w') (as : List Act) :
    steps step (a :: as) w = .error e w' := by
  simp [steps, bind, EStateM.bind, h]

theorem steps_next {a : Act} {w w' : World} (h : step a w = .ok () w') (as : List Act) :
    steps step (a :: as) w = steps step as w' := by
  simp [steps, bind, EStateM.bind, h]

theorem steps_then {as : List Act} {w w' : World} (h : steps step as w = .ok () w') (bs : List Act) :
    steps step (as ++ bs) w = steps step bs w' := by
  simp [steps_append, bind, EStateM.bind, h]

theorem steps_stop_append {as : List Act} {w w' : World} {e : Fault} (h : steps step as w = .error e w') (bs : List Act) :
    steps step (as ++ bs) w = .error e w' := by
  simp [steps_append, bind, EStateM.bind, h]

/-- The range-for makes one `dispatch` a channel. -/
theorem handleAll_spec (hs : List (EventInput × Bool)) (hl : s.isLooping = true) :
    Ensures (handleAll hs) s
      (fun _ t => steps step (hs.map fun h => .dispatch h.1) s.world = .ok () t.world ∧ t.world.activeChannels = [] ∧
        t = { s with quit := s.quit || hs.any (·.2), world := t.world })
      fun e t => StopsAt (hs.map fun h => .dispatch h.1) s.world e t := by
  induction hs generalizing s with
  | nil =>
    simp only [handleAll, ensures_bind, ensures_get, ensures_ite, ensures_pure, ensures_throw]
    exact ⟨fun hnil => ⟨rfl, hnil, by simp⟩, fun _ => ⟨hl, fun hne => absurd rfl hne⟩⟩
  | cons h rest ih =>
    obtain ⟨inp, quits⟩ := h
    rw [handleAll, ensures_bind, ensures_onWorld]
    cases hstep : dispatch inp s.world with
    | error e w =>
      rw [ensures_error hstep]
      exact ⟨hl, fun _ => steps_stop (a := .dispatch inp) hstep _⟩
    | ok u w =>
      rw [ensures_ok hstep]
      have turn : ∀ q, Ensures (handleAll rest) { s with world := w, quit := q }
          (fun _ t => steps step (.dispatch inp :: rest.map fun h => .dispatch h.1) s.world = .ok () t.world ∧
            t.world.activeChannels = [] ∧ t = { s with quit := q || rest.any (·.2), world := t.world })
          fun e t => StopsAt (.dispatch inp :: rest.map fun h => .dispatch h.1) s.world e t := by
        intro q
        have hnext := steps_next (a := .dispatch inp) hstep (rest.map fun h => .dispatch h.1)
        refine (ih (s := { s with world := w, quit := q }) hl).mono ?_ fun e t ht => ⟨ht.1, fun hne => hnext.trans (ht.2 hne)⟩
        rintro _ t ⟨hsteps, hnil, ht⟩
        exact ⟨hnext.trans hsteps, hnil, ht⟩
      simp only [ensures_bind, ensures_ite, callQuit, ensures_modify, List.map_cons, List.any_cons]
      refine ⟨fun hq => ?_, fun hq => ?_⟩
      · simpa only [hq, Bool.true_or, Bool.or_true] using turn true
      · simpa only [Bool.eq_false_iff.2 hq, Bool.false_or] using turn s.quit

theorem poll_spec (events : List (Fd × Mask)) (hl : s.isLooping = true) :
    Ensures (poll events) s
      (fun _ t => step (.poll events) s.world = .ok () t.world ∧
        t = { s with world := t.world, activeEvents := resized s.activeEvents events.length })
      fun e t => t.isLooping = true ∧ (e ≠ .outside → step (.poll events) s.world = .error e t.world) := by
  simp only [poll, ensures_bind, ensures_get, ensures_ite, ensures_throw, ensures_onWorld, ensures_modify]
  refine ⟨fun _ => ⟨hl, fun hne => absurd rfl hne⟩, fun _ => ?_⟩
  cases hpoll : NetServer.poll events s.world with
  | error e w =>
    rw [ensures_error hpoll]
    exact ⟨hl, fun _ => hpoll⟩
  | ok u w =>
    rw [ensures_ok hpoll]
    exact ⟨hpoll, trivial⟩

/-- **One iteration**: a poll and a whole batch. -/
theorem iteration_spec (it : Iteration) (hl : s.isLooping = true) :
    Ensures (do poll it.events; handleAll it.handlers) s
      (fun _ t => steps step it.acts s.world = .ok () t.world ∧ t.world.activeChannels = [] ∧
        t = { s with quit := s.quit || it.quits, world := t.world, activeEvents := resized s.activeEvents it.events.length })
      fun e t => StopsAt it.acts s.world e t := by
  rw [ensures_bind]
  refine (poll_spec it.events hl).mono ?_ fun e t ht => ⟨ht.1, fun hne => steps_stop (ht.2 hne) _⟩
  rintro _ t ⟨hpoll, ht⟩
  have hnext := steps_next hpoll (it.handlers.map fun h => .dispatch h.1)
  have looping : t.isLooping = true := by
    rw [ht]
    exact hl
  refine (handleAll_spec it.handlers looping).mono ?_ fun e u hu => ⟨hu.1, fun hne => hnext.trans (hu.2 hne)⟩
  rintro _ u ⟨hsteps, hnil, hu⟩
  refine ⟨hnext.trans hsteps, hnil, ?_⟩
  rw [hu, ht]
  rfl

/-! ## The loop -/

/-- `activeEvents_.size()` after the iterations. -/
def grown (size : Nat) (its : List Iteration) : Nat := its.foldl (fun size it => resized size it.events.length) size

theorem loopWhile_quitted (its : List Iteration) (hq : s.quit = true) :
    Ensures (loopWhile its) s (fun _ t => t = s) fun _ _ => False := by
  cases its with
  | nil =>
    simp only [loopWhile, ensures_bind, ensures_get, ensures_ite, ensures_pure, ensures_throw, hq]
    exact ⟨fun _ => trivial, fun hn => hn trivial⟩
  | cons it rest =>
    rw [loopWhile, ensures_bind, ensures_get, hq, if_pos rfl]
    rfl

/-- **The while loop** makes the iterations up to the first that quits, by induction on what the kernel reports. -/
theorem loopWhile_spec (its : List Iteration) (hl : s.isLooping = true) (hq : s.quit = false) :
    Ensures (loopWhile its) s
      (fun _ t => (∃ it ∈ its, it.quits = true) ∧
        steps step ((Iteration.played its).flatMap Iteration.acts) s.world = .ok () t.world ∧ t.world.activeChannels = [] ∧
        t = { s with quit := true, world := t.world, activeEvents := grown s.activeEvents (Iteration.played its) })
      fun e t => StopsAt ((Iteration.played its).flatMap Iteration.acts) s.world e t := by
  induction its generalizing s with
  | nil =>
    simp only [loopWhile, ensures_bind, ensures_get, ensures_ite, ensures_pure, ensures_throw, hq]
    exact ⟨fun hf => absurd hf Bool.false_ne_true, fun _ => ⟨hl, fun hne => absurd rfl hne⟩⟩
  | cons it rest ih =>
    rw [loopWhile, ensures_bind, ensures_get, hq, if_neg Bool.false_ne_true, ← bind_assoc, ensures_bind]
    have first := iteration_spec it hl
    by_cases hquits : it.quits = true
    · -- `quit_` is set, and the test of the next iteration fails
      rw [Iteration.played, if_pos hquits, List.flatMap_singleton]
      refine first.mono ?_ fun _ _ h => h
      rintro _ t ⟨hsteps, hnil, ht⟩
      have stop : t.quit = true := by
        rw [ht, hquits]
        exact Bool.or_true _
      refine (loopWhile_quitted rest stop).mono ?_ fun _ _ h => h.elim
      rintro _ _ rfl
      refine ⟨⟨it, List.mem_cons_self .., hquits⟩, hsteps, hnil, ?_⟩
      rw [ht, hquits, Bool.or_true]
      rfl
    · rw [Iteration.played, if_neg hquits, List.flatMap_cons]
      refine first.mono ?_ fun e t h => ⟨h.1, fun hne => steps_stop_append (h.2 hne) _⟩
      rintro _ t ⟨hsteps, -, ht⟩
      have hnext := steps_then hsteps ((Iteration.played rest).flatMap Iteration.acts)
      have looping : t.isLooping = true := by
        rw [ht]
        exact hl
      have going : t.quit = false := by
        rw [ht, hq, Bool.eq_false_iff.2 hquits]
        rfl
      refine (ih looping going).mono ?_ fun e u hu => ⟨hu.1, fun hne => hnext.trans (hu.2 hne)⟩
      rintro _ u ⟨⟨x, hx, hxq⟩, hsteps', hnil, hu⟩
      refine ⟨⟨x, List.mem_cons_of_mem _ hx, hxq⟩, hnext.trans hsteps', hnil, ?_⟩
      rw [hu, ht]
      rfl

theorem grown_pow (its : List Iteration) (size : Nat) : ∃ k, grown size its = size * 2 ^ k := by
  induction its generalizing size with
  | nil => exact ⟨0, (Nat.mul_one _).symm⟩
  | cons it rest ih =>
    obtain ⟨k, hk⟩ := ih (resized size it.events.length)
    have hgrown : grown size (it :: rest) = resized size it.events.length * 2 ^ k := hk
    by_cases hfull : 0 < it.events.length ∧ it.events.length = size
    · refine ⟨k + 1, ?_⟩
      rw [hgrown, resized, if_pos hfull, Nat.pow_succ, Nat.mul_assoc, Nat.mul_comm 2]
    · refine ⟨k, ?_⟩
      rw [hgrown, resized, if_neg hfull]

theorem grown_le {its : List Iteration} {n : Nat} (hn : ∀ it ∈ its, it.events.length ≤ n) (size : Nat) :
    grown size its ≤ max size (2 * n) := by
  induction its generalizing size with
  | nil => exact Nat.le_max_left ..
  | cons it rest ih =>
    have hlen := hn it (List.mem_cons_self ..)
    have once : resized size it.events.length ≤ max size (2 * n) := by
      unfold resized
      split <;> omega
    have hrest : grown size (it :: rest) ≤ max (resized size it.events.length) (2 * n) :=
      ih (fun x hx => hn x (List.mem_cons_of_mem _ hx)) _
    omega

/-- **`loop()` runs until `quit()`**, which only handlers call here: whatever the kernel reports and the handlers do, it returns
only if one of them calls `quit()`, and then it has made exactly the polls and the turns of the iterations up to that batch,
the rest of the batch with it, and nothing after it. It stops where these steps stop. The array that `epoll_wait` fills has a
power of two times its first size, and no more than that size or twice the longest batch, whichever is larger. As nothing
resets `quit_`, every later `loop()` returns at once. -/
theorem loop_until_quit (its : List Iteration) (s : EventLoop) (hl : s.isLooping = false) (hq : s.quit = false) :
    Ensures (loop its) s
      (fun _ t => (∃ it ∈ its, it.quits = true) ∧
        steps step ((Iteration.played its).flatMap Iteration.acts) s.world = .ok () t.world ∧ t.world.activeChannels = [] ∧
        (∃ k, t.activeEvents = s.activeEvents * 2 ^ k) ∧
        (∀ n, (∀ it ∈ its, it.events.length ≤ n) → t.activeEvents ≤ max s.activeEvents (2 * n)) ∧
        ∀ later, loop later t = .ok () t)
      fun e t => t.isLooping = true ∧
        (e ≠ .outside → steps step ((Iteration.played its).flatMap Iteration.acts) s.world = .error e t.world) := by
  simp only [loop, ensures_bind, ensures_get, ensures_assert, ensures_modify]
  refine ⟨fun _ => ?_, fun hn => absurd hl hn⟩
  refine (loopWhile_spec its (s := { s with isLooping := true }) rfl hq).mono ?_ fun _ _ h => h
  rintro _ t ⟨hquits, hsteps, hnil, ht⟩
  have size : t.activeEvents = grown s.activeEvents (Iteration.played its) := by rw [ht]
  have stop : t.quit = true := by rw [ht]
  refine ⟨hquits, hsteps, hnil, ?_, fun n hn => ?_, fun later => ?_⟩
  · rw [size]
    exact grown_pow _ _
  · rw [size]
    exact grown_le (fun it hit => hn it (Iteration.played_subset its it hit)) _
  · -- `isLooping_` is cleared and set again
    have again : Ensures (loop later) { t with isLooping := false } (fun _ u => u = { t with isLooping := false })
        fun _ _ => False := by
      simp only [loop, ensures_bind, ensures_get, ensures_assert, ensures_modify]
      refine ⟨fun _ => ?_, fun hn => hn trivial⟩
      refine (loopWhile_quitted later (s := { t with isLooping := true }) stop).mono ?_ fun _ _ h => h
      rintro _ _ rfl
      rfl
    obtain ⟨_, u, he, rfl⟩ := again.returns
    exact he

/-- A client is accepted; then a timer calls `quit()` in a batch of two, and the client's bytes are still read. -/
theorem loop_until_quit_timer :
    ∃ t : EventLoop, t.world.trace.count (.read 0 [1, 2]) = 1 ∧ t.world.activeChannels = [] ∧ ∀ later, loop later t = .ok () t := by
  obtain ⟨its, returns⟩ : ∃ its, Ensures (loop its) (.init (World.init [] 3 4))
      (fun _ t => t.world.trace.count (.read 0 [1, 2]) = 1) fun _ _ => False :=
    ⟨[⟨[(3, EPOLLIN)],
        [({ clientfd := some 5, sock := some 6, up := .timer (.runAt 5000000 16 0) (.timer .expire .done) }, false)]⟩,
      ⟨[(4, EPOLLIN), (5, EPOLLIN)], [({ curr := 6000000 }, true), ({ readv := some [1, 2] }, false)]⟩,
      ⟨[(5, EPOLLHUP)], [({}, false)]⟩],
      by decide +kernel⟩
  obtain ⟨_, t, -, ⟨-, -, hnil, -, -, hlater⟩, hread⟩ :=
    ((loop_until_quit its (.init (World.init [] 3 4)) rfl rfl).and returns).mono (fun _ _ h => h) (fun _ _ h => h.2) |>.returns
  exact ⟨t, hread, hnil, hlater⟩

end EventLoop

end NetServer
