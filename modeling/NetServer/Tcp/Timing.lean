import NetServer.Tcp.Batch
import NetServer.Tcp.Descriptors
import NetServer.Timer.Cancel
import NetServer.Timer.Loop
/-!
# The server's timers, and the loop of `Timer/Loop.lean`

`Timers.loopStep` is the event loop with its connections left out: a handler is the script of what it does to the timers.
Hiding the connections makes every run of the server one of that loop (`run_timerLoop`), since code of a connection does
nothing to the timers but by such calls (`Plays`), and the timers of a batch are different ones, so that what each callback
did can be told from a script of its own (`timingRead_projects`). What is shown of the timers alone holds of the server's.
-/

namespace NetServer
open Exec

/-- What is done to the timers is a script of calls on them. -/
structure Plays (s t : World) : Prop where
  script : ∃ calls : Timers.Script, calls.run s.timerQueue = .ok () t.timerQueue
  channel : t.timerChannel = s.timerChannel

namespace Plays

variable {s t u : World}

theorem same (hq : t.timerQueue = s.timerQueue) (hch : t.timerChannel = s.timerChannel) : Plays s t :=
  ⟨⟨[], by rw [hq]; rfl⟩, hch⟩

theorem refl (s : World) : Plays s s := .same rfl rfl

theorem trans (h : Plays s t) (h' : Plays t u) : Plays s u := by
  obtain ⟨calls, hcalls⟩ := h.script
  obtain ⟨calls', hcalls'⟩ := h'.script
  refine ⟨⟨calls ++ calls', ?_⟩, h'.channel.trans h.channel⟩
  rw [Timers.Script.run] at hcalls hcalls' ⊢
  rw [steps_append, run_bind, hcalls]
  exact hcalls'

end Plays

theorem plays_composes : Composes Plays (fun (_ : Fault) _ _ => True) where
  refl := .refl
  trans h h' := h.trans h'
  later _ _ := trivial

abbrev Playing {α : Type} (x : M α) : Prop := Moves Anywhere Plays (fun _ _ _ => True) x

theorem Playing.bind {α β : Type} {x : M α} {f : α → M β} (hx : Playing x) (hf : ∀ a, Playing (f a)) : Playing (x >>= f) :=
  Moves.bind plays_composes (fun _ h => h) hx hf

theorem Touches.playing {c : ConnId} {α : Type} {x : M α} (h : Touches c x) : Playing x := by
  refine h.widen (fun ht => ?_) fun _ => trivial
  cases ht with
  | told => exact .same rfl rfl
  | changed => exact .same rfl rfl

theorem playsReleases : Releases Plays (fun _ _ _ => True) where
  toComposes := plays_composes
  gone _ := trivial
  outside _ := trivial
  owners _ _ _ := .same rfl rfl
  destroyed _ := .same rfl rfl

theorem playsUnits : Units (fun _ => Anywhere) Plays (fun _ _ _ => True) :=
  units_of_touches plays_composes (fun _ _ => trivial) (fun _ _ hx => hx.playing)
    (fun c _ hx => playsReleases.withPtr (fun _ _ => .same rfl rfl) c hx) playsReleases.eraseOwn

theorem openFd_plays (fd : Fd) : Playing (openFd fd) := by
  intro s _
  simp only [openFd, ensures_bind, ensures_get, ensures_ite, ensures_throw, ensures_set]
  exact ⟨fun _ => trivial, fun _ => .same rfl rfl⟩

theorem newConnection_plays (clientfd sock : Fd) {up : M Unit} (hu : Playing up) :
    Playing (do openFd clientfd; TcpServer.newConnection clientfd (some sock) up) := by
  refine (openFd_plays _).bind fun _ => Playing.bind (.get plays_composes) fun w => Playing.bind ?_ fun c =>
    playsUnits.entered playsReleases (fun _ _ => .same rfl rfl) (fun _ _ => .same rfl rfl) (fun _ => trivial)
      (fun c => (emit_touches c _).playing) _ c hu
  simp only [TcpServer.construct, Sockets.new, bind_assoc, pure_bind]
  refine (openFd_plays sock).bind fun _ s _ => ?_
  simp only [ensures_bind, ensures_get, ensures_set, ensures_emit, ensures_pure]
  exact .same rfl rfl

/-- A call of user code is a script of one call. -/
theorem timer_plays (x : Timers.Call) : Playing (onTimers x.run) := by
  refine fun s _ => ensures_onTimers.2 ((ensures_run x.run s.timerQueue).mono (fun _ q hq => ⟨⟨[x], ?_⟩, rfl⟩) fun _ _ _ => trivial)
  rw [Timers.Script.run, steps, run_bind, hq]
  rfl

theorem playsParts : Parts Plays (fun _ _ _ => True) :=
  parts_of_touches playsUnits (fun _ => trivial) (fun _ _ hx => hx.playing) (fun _ => trivial) openFd_plays
    (fun c _ hx => withRef_moves plays_composes (fun _ h => h) (fun _ _ => .same rfl rfl) c hx)
    (fun c => (playsReleases.keepPtr c).weaken fun _ _ => trivial) playsReleases.dropPtr timer_plays
    fun clientfd sock _ hu => newConnection_plays clientfd sock hu

/-! ## `handleTimingRead` -/

/-- Only what the callbacks of the batch do counts. -/
theorem Timers.runAllExpired_congr {curr : Int} {callbacks callbacks' : Timers.TimerPtr → Timers.Script} {batch : List Timers.Entry}
    (h : ∀ e ∈ batch, callbacks e.timer = callbacks' e.timer) :
    Timers.runAllExpired curr callbacks batch = Timers.runAllExpired curr callbacks' batch := by
  induction batch with
  | nil => rfl
  | cons e rest ih =>
    rw [Timers.runAllExpired, Timers.runAllExpired, h e (List.mem_cons_self ..), ih fun x hx => h x (List.mem_cons_of_mem _ hx)]

section
variable {I : World → Prop} {E : Fault → World → Prop}
  (hqueue : ∀ {s q}, I s → (s.timerQueue.Uncanceled → q.Uncanceled) → I { s with timerQueue := q })
include hqueue

/-- The body of the loop, from what its callback does. -/
theorem runExpired_projects {curr : Int} {e : Timers.Entry} {callback : M Unit}
    (hcallback : ∀ s, I s → Ensures callback s (fun _ u => I u ∧ Plays s u) fun e u => E e u) {s : World} (hs : I s) :
    Ensures (TimerQueue.runExpired curr e callback) s
      (fun _ t => I t ∧ ∃ calls, Timers.runExpired curr e calls s.timerQueue = .ok () t.timerQueue)
      fun err t => E err t ∨ I t ∧ ∃ calls, Timers.runExpired curr e calls s.timerQueue = .error err t.timerQueue := by
  have enter := (ensures_run (Timers.enterExpired curr e) s.timerQueue).and
    (Timers.contained_enterExpired curr e s.timerQueue trivial)
  have leave : ∀ q, Ensures (Timers.leaveExpired e) q (fun _ q' => Timers.leaveExpired e q = .ok () q' ∧ (q.Uncanceled → q'.Uncanceled))
      fun err q' => Timers.leaveExpired e q = .error err q' ∧ (q.Uncanceled → q'.Uncanceled) := fun q =>
    ((ensures_run (Timers.leaveExpired e) q).and (Timers.contained_leaveExpired e q trivial)).mono (fun _ _ h => h)
      fun _ _ h => ⟨h.1, h.2.2⟩
  rw [TimerQueue.runExpired, ensures_bind, ensures_onTimers]
  refine enter.mono ?_ fun err q h => .inr ⟨hqueue hs h.2.2, [], by rw [Timers.runExpired_eq, run_bind, h.1]⟩
  rintro runs q ⟨henter, hq⟩
  cases runs with
  | false =>
    rw [if_neg Bool.false_ne_true, ensures_onTimers]
    refine (leave q).mono (fun _ q' h => ⟨hqueue (hqueue hs hq) h.2, [], ?_⟩)
      fun err q' h => .inr ⟨hqueue (hqueue hs hq) h.2, [], ?_⟩
    · rw [Timers.runExpired_eq, run_bind, henter]
      exact h.1
    · rw [Timers.runExpired_eq, run_bind, henter]
      exact h.1
  | true =>
    rw [if_pos rfl, ensures_bind]
    refine (hcallback _ (hqueue hs hq)).mono ?_ fun _ _ h => .inl h
    rintro _ u ⟨hu, ⟨calls, hcalls⟩, -⟩
    rw [ensures_onTimers]
    refine (leave u.timerQueue).mono (fun _ q' h => ⟨hqueue hu h.2, calls, ?_⟩) fun err q' h => .inr ⟨hqueue hu h.2, calls, ?_⟩
    · rw [Timers.runExpired_eq, run_bind, henter]
      simp only [if_true, run_bind, hcalls]
      exact h.1
    · rw [Timers.runExpired_eq, run_bind, henter]
      simp only [if_true, run_bind, hcalls]
      exact h.1

/-- The loop over a batch of different timers. Induction on the batch. -/
theorem runAllExpired_projects {curr : Int} {callbacks : Timers.TimerPtr → M Unit}
    (hcallbacks : ∀ t s, I s → Ensures (callbacks t) s (fun _ u => I u ∧ Plays s u) fun e u => E e u) (batch : List Timers.Entry)
    (distinct : batch.Pairwise (·.timer ≠ ·.timer)) {s : World} (hs : I s) :
    Ensures (TimerQueue.runAllExpired curr callbacks batch) s
      (fun _ t => I t ∧ ∃ scripts, Timers.runAllExpired curr scripts batch s.timerQueue = .ok () t.timerQueue)
      fun err t => E err t ∨ I t ∧ ∃ scripts, Timers.runAllExpired curr scripts batch s.timerQueue = .error err t.timerQueue := by
  induction batch generalizing s with
  | nil => exact ⟨hs, fun _ => [], rfl⟩
  | cons e rest ih =>
    obtain ⟨hfirst, hrest⟩ := List.pairwise_cons.1 distinct
    rw [TimerQueue.runAllExpired, ensures_bind]
    refine (runExpired_projects hqueue (hcallbacks e.timer) hs).mono ?_ ?_
    · rintro _ t ⟨ht, calls, hcalls⟩
      -- the script of the first timer next to those of the others
      have split : ∀ scripts : Timers.TimerPtr → Timers.Script,
          Timers.runAllExpired curr (Function.update scripts e.timer calls) (e :: rest) s.timerQueue =
            Timers.runAllExpired curr scripts rest t.timerQueue := by
        intro scripts
        have others : ∀ x ∈ rest, Function.update scripts e.timer calls x.timer = scripts x.timer := fun x hx =>
          Function.update_of_ne (hfirst x hx).symm ..
        rw [Timers.runAllExpired, Function.update_self, Timers.runAllExpired_congr others, run_bind, hcalls]
      refine (ih hrest ht).mono ?_ fun _ _ h => h.imp id ?_
      · rintro _ u ⟨hu, scripts, h⟩
        exact ⟨hu, _, (split scripts).trans h⟩
      · rintro ⟨hu, scripts, h⟩
        exact ⟨hu, _, (split scripts).trans h⟩
    · rintro err t (h | ⟨ht, calls, h⟩)
      · exact .inl h
      · exact .inr ⟨ht, fun _ => calls, by rw [Timers.runAllExpired, run_bind, h]⟩

/-- **`handleTimingRead`** with the connections hidden: it does what it would do if each callback were a script, or it stops
within a callback. -/
theorem timingRead_projects (curr now : Int) {callbacks : Timers.TimerPtr → M Unit}
    (hcallbacks : ∀ t s, I s → Ensures (callbacks t) s (fun _ u => I u ∧ Plays s u) fun e u => E e u) {s : World}
    (hi : Timers.Inv [] s.timerQueue) (hs : I { s with
      trace := s.trace ++ [.timingRead s.timerQueue.timerfd.unread (s.timerQueue.timerList.elems.all (·.time ≠ curr + 1))] }) :
    Ensures (TimerQueue.handleTimingRead curr callbacks now) s
      (fun _ t => I t ∧ ∃ scripts, Timers.handleTimingRead curr scripts now s.timerQueue = .ok () t.timerQueue)
      fun e t => E e t ∨ I t ∧ ∃ scripts, Timers.handleTimingRead curr scripts now s.timerQueue = .error e t.timerQueue := by
  rw [TimerQueue.handleTimingRead, ensures_bind, ensures_get, ensures_bind, ensures_emit, ensures_bind, ensures_onTimers]
  have expired := @Timers.readExpired_spec curr (fun _ _ _ => True) (fun _ => True) _ hi trivial fun _ _ _ => trivial
  refine (((ensures_run (do Timers.readTimerfd; Timers.getExpired curr) s.timerQueue).and expired).and
    (Timers.contained_readExpired curr s.timerQueue trivial)).mono ?_ ?_
  swap
  · rintro e q ⟨⟨h, -⟩, -, hq⟩
    exact .inr ⟨hqueue hs hq, fun _ => [], by rw [Timers.handleTimingRead_parts, run_bind, h]⟩
  rintro batch q ⟨⟨hbatch, hi', -⟩, hq⟩
  rw [ensures_bind]
  refine (runAllExpired_projects hqueue hcallbacks batch hi'.distinct (hqueue hs hq)).mono ?_ ?_
  · rintro _ t ⟨ht, scripts, hall⟩
    rw [ensures_onTimers]
    refine ((ensures_run (Timers.rearmTimerfd now) t.timerQueue).and (Timers.contained_rearmTimerfd now t.timerQueue trivial)).mono
      (fun _ q' h => ⟨hqueue ht h.2, scripts, ?_⟩) fun e q' h => .inr ⟨hqueue ht h.2.2, scripts, ?_⟩
    · rw [Timers.handleTimingRead_parts, run_bind, hbatch]
      simp only [run_bind, hall]
      exact h.1
    · rw [Timers.handleTimingRead_parts, run_bind, hbatch]
      simp only [run_bind, hall]
      exact h.1
  · rintro e t (h | ⟨ht, scripts, h⟩)
    · exact .inl h
    · refine .inr ⟨ht, scripts, ?_⟩
      rw [Timers.handleTimingRead_parts, run_bind, hbatch]
      simp only [run_bind, h]

end

/-! ## The loop -/

/-- The timer queue's channel calls back where it is reported readable; the handlers of the others are scripts. -/
def World.ready (w : World) : ChannelPtr → Timers.Ready
  | .timer => if w.timerChannel.revents.has EPOLLIN then .timer else .other
  | _ => .other

/-- The server with its connections hidden. -/
def World.timerLoop (w : World) : Timers.TimerLoop := ⟨w.timerQueue, w.activeChannels.map w.ready⟩

/-- **One turn** of the range-for. -/
theorem dispatch_timers {w : World} (hi : Timers.Inv [] w.timerQueue) (inp : EventInput) :
    Ensures (step (.dispatch inp)) w (fun _ t => t.timerChannel = w.timerChannel ∧ ∃ p, w.activeChannels = p :: t.activeChannels ∧
      ((w.ready p = .timer ∧ ∃ scripts, Timers.handleTimingRead inp.curr scripts inp.now w.timerQueue = .ok () t.timerQueue) ∨
        w.ready p = .other ∧ ∃ calls : Timers.Script, calls.run w.timerQueue = .ok () t.timerQueue))
      fun _ _ => True := by
  simp only [step, dispatch, ensures_bind, ensures_get]
  split
  · trivial
  · rename_i p rest hactive
    rw [ensures_bind]
    by_cases hp : p = .timer
    · subst hp
      rw [ensures_handleEvents_timer]
      refine ⟨fun hreads => ?_, fun hidle => ⟨rfl, .timer, hactive, .inr ⟨by simp [World.ready, hidle], [], rfl⟩⟩⟩
      have projects := timingRead_projects (I := (·.timerChannel = w.timerChannel)) (E := fun _ _ => True) (fun h _ => h)
        inp.curr inp.now (fun t s hs => (playsParts.script (inp.callback t) s trivial).mono
          (fun _ _ h => ⟨h.channel.trans hs, h⟩) fun _ _ _ => trivial) hi rfl
      exact projects.mono (fun _ t h => ⟨h.1, .timer, hactive, .inl ⟨by simp [World.ready, hreads], h.2⟩⟩) fun _ _ _ => trivial
    · have other : w.ready p = .other := by
        cases p with
        | acceptor => rfl
        | timer => exact absurd rfl hp
        | conn c => rfl
      refine (playsParts.handleEvents p inp (fun h => absurd h hp) w trivial).mono (fun _ t h => ?_) fun _ _ _ => trivial
      exact ⟨h.channel, p, hactive, .inr ⟨other, h.script⟩⟩

/-- What `Epoller::poll` reports of the timer queue's channel, whose descriptor alone it is registered for. -/
theorem pollEvents_timers (events : List (Fd × Mask)) {w : World}
    (hfd : ∀ f e, w.interest f = some e → e.ptr = .timer → f = w.timerChannel.fd) :
    Ensures (pollEvents events) w (fun _ t => t.timerQueue = w.timerQueue ∧
      t.activeChannels.count .timer ≤ w.activeChannels.count .timer + (events.map Prod.fst).count w.timerChannel.fd ∧
      (t.timerChannel.revents = w.timerChannel.revents ∧ (.timer ∈ t.activeChannels → .timer ∈ w.activeChannels) ∨
        ∃ ev ∈ events, (w.interest ev.1).any (·.ptr == .timer) = true ∧ t.timerChannel.revents = ev.2)) fun _ _ => True := by
  induction events generalizing w with
  | nil => exact ⟨rfl, Nat.le_refl _, .inl ⟨rfl, id⟩⟩
  | cons ev rest ih =>
    rw [pollEvents, ensures_bind, ensures_get]
    split
    · trivial
    · rename_i e he
      have report : (do
          setReturnEvents e.ptr ev.2
          emit (.reported e.ptr)
          modify fun w => { w with activeChannels := w.activeChannels ++ [e.ptr] }
          pollEvents rest) = (do
            setReturnEvents e.ptr ev.2
            emit (.reported e.ptr)
            modify fun w => { w with activeChannels := w.activeChannels ++ [e.ptr] }) >>= fun _ => pollEvents rest := by
        simp only [bind_assoc]
      rw [report, ensures_bind]
      refine (report_spec e.ptr ev.2 w).mono ?_ fun _ _ _ => trivial
      rintro _ t ⟨-, ht⟩
      have queue : t.timerQueue = w.timerQueue := by rw [ht]; cases e.ptr <;> rfl
      have interest : t.interest = w.interest := by rw [ht]; cases e.ptr <;> rfl
      have fd : t.timerChannel.fd = w.timerChannel.fd := by rw [ht]; cases e.ptr <;> rfl
      have active : t.activeChannels = w.activeChannels ++ [e.ptr] := by rw [ht]
      refine (ih fun f x hx hptr => fd ▸ hfd f x (interest ▸ hx) hptr).mono ?_ fun _ _ _ => trivial
      rintro _ u ⟨hqueue, hcount, hchannel⟩
      rw [fd, active, List.count_append] at hcount
      rw [active, interest] at hchannel
      refine ⟨hqueue.trans queue, ?_, ?_⟩
      · rw [List.map_cons, List.count_cons]
        by_cases hp : e.ptr = .timer
        · simp only [hp, hfd ev.1 e he hp, List.count_singleton_self, beq_self_eq_true, if_true] at hcount ⊢
          omega
        · simp only [List.count_singleton, hp, beq_iff_eq, if_false] at hcount
          omega
      · obtain ⟨hrevents, hmem⟩ | ⟨x, hx, hreg, hrevents⟩ := hchannel
        · by_cases hp : e.ptr = .timer
          · refine .inr ⟨ev, List.mem_cons_self .., by simp [he, hp], ?_⟩
            rw [hrevents, ht, hp]
            rfl
          · refine .inl ⟨?_, fun hm => (List.mem_append.1 (hmem hm)).resolve_right fun h => hp (List.mem_singleton.1 h).symm⟩
            rw [hrevents, ht]
            cases hptr : e.ptr with
            | timer => exact absurd hptr hp
            | _ => rfl
        · exact .inr ⟨x, List.mem_cons_of_mem _ hx, hreg, hrevents⟩

/-- **`Epoller::poll`** reports the timer queue's channel at most once, and readable only while there is something to read. -/
theorem poll_timers {w : World} (hl : Ledger w) (events : List (Fd × Mask)) :
    Ensures (step (.poll events)) w (fun _ t => t.timerQueue = w.timerQueue ∧ w.activeChannels = [] ∧
      (t.activeChannels.map t.ready).count .timer ≤ 1 ∧
        (.timer ∈ t.activeChannels.map t.ready → w.timerQueue.timerfd.unread = true)) fun _ _ => True := by
  simp only [step, poll, ensures_bind, ensures_get, ensures_ite, ensures_throw, not_or, not_not]
  refine ⟨fun _ => trivial, ?_⟩
  rintro ⟨hidle, hnodup, hreports⟩
  refine (pollEvents_timers events fun f e he hp => ?_).mono ?_ fun _ _ _ => trivial
  · obtain ⟨hptr, -⟩ | ⟨-, hf⟩ | ⟨c, hptr, -⟩ := hl.entries f e he
    · rw [hp] at hptr
      cases hptr
    · exact hf
    · rw [hp] at hptr
      cases hptr
  rintro _ t ⟨hqueue, hcount, hchannel⟩
  have timer : ∀ p, t.ready p = .timer → p = .timer ∧ t.timerChannel.revents.has EPOLLIN = true := by
    intro p hp
    cases p with
    | timer => simpa [World.ready] using hp
    | acceptor => cases hp
    | conn c => cases hp
  refine ⟨hqueue, hidle, ?_, fun hm => ?_⟩
  · have once : (events.map Prod.fst).count w.timerChannel.fd ≤ 1 := List.nodup_iff_count_le_one.1 hnodup _
    have fewer : (t.activeChannels.map t.ready).count .timer ≤ t.activeChannels.count .timer := by
      rw [List.count_eq_countP, List.countP_map, List.count_eq_countP]
      exact List.countP_mono_left fun p _ hp => by simp [(timer p (by simpa using hp)).1]
    rw [hidle, List.count_nil] at hcount
    omega
  · obtain ⟨p, hp, hready⟩ := List.mem_map.1 hm
    obtain ⟨rfl, hin⟩ := timer p hready
    obtain ⟨-, hmem⟩ | ⟨ev, hev, hreg, hrevents⟩ := hchannel
    · simp [hidle] at hmem
      exact absurd hp hmem
    · have := List.all_eq_true.1 hreports ev hev
      rw [hrevents] at hin
      simpa [World.reports, hreg, hin] using this

/-- A script is a step for each of its calls. -/
theorem Timers.run_script {q q' : Timers.TimerQueue} (h : Run Timers.step (fun _ _ => True) .init q) {calls : Timers.Script}
    (he : calls.run q = .ok () q') : Run Timers.step (fun _ _ => True) .init q' := by
  induction calls generalizing q with
  | nil =>
    cases he
    exact h
  | cons x rest ih =>
    rw [Timers.Script.run, steps, run_bind] at he
    split at he
    · rename_i hx
      have called : Run Timers.step (fun _ _ => True) .init _ := h.step (a := .call x) trivial hx
      exact ih called he
    · cases he

section
variable {ipPort : Name} {listenFd timerFd : Fd} {w : World}

/-- **The timers of the server** go through a run of the timer queue, whatever user code calls and wherever it does. -/
theorem run_timerQueue (h : Run step (fun _ a => a.ofLoop = true) (World.init ipPort listenFd timerFd) w) :
    Run Timers.step (fun _ _ => True) .init w.timerQueue := by
  induction h with
  | start => exact .start
  | @step s t a run ha he ih =>
    cases a with
    | poll events =>
      have visited : Visited ipPort listenFd timerFd s := .inl (run.weaken fun _ _ _ => trivial)
      rw [((ensures_ok he).1 (poll_timers visited.ledger.2 events)).1]
      exact ih
    | dispatch inp =>
      obtain ⟨-, -, -, ⟨-, scripts, hread⟩ | ⟨-, calls, hcalls⟩⟩ :=
        (ensures_ok he).1 (dispatch_timers (Timers.run_settled ih).1 inp)
      · exact ih.step (a := .handleTimingRead inp.curr scripts inp.now) trivial hread
      · exact Timers.run_script ih hcalls
    | user script =>
      obtain ⟨calls, hcalls⟩ := ((ensures_ok he).1 (playsParts.script script s trivial)).script
      exact Timers.run_script ih hcalls
    | _ => cases ha

/-- **Every run of the server is one of the loop of the timers** once the connections are hidden, if user code outside of
every handler runs between two iterations. -/
theorem run_timerLoop (h : Run step (fun s a => a.inLoop s = true) (World.init ipPort listenFd timerFd) w) :
    Run Timers.loopStep (fun _ _ => True) .init w.timerLoop := by
  induction h with
  | start => exact .start
  | @step s t a run ha he ih =>
    cases a with
    | poll events =>
      have visited : Visited ipPort listenFd timerFd s := .inl (run.weaken fun _ _ _ => trivial)
      obtain ⟨hqueue, hidle, honce, hunread⟩ := (ensures_ok he).1 (poll_timers visited.ledger.2 events)
      refine ih.step (a := .poll (t.activeChannels.map t.ready)) trivial ?_
      have idle : s.timerLoop.activeChannels = [] := by simp [World.timerLoop, hidle]
      simp only [Timers.loopStep, run_bind, run_get, run_ite, run_set]
      rw [if_pos ⟨idle, honce, hunread⟩]
      simp only [World.timerLoop, hqueue]
    | dispatch inp =>
      have loop : Run step (fun _ a => a.ofLoop = true) (World.init ipPort listenFd timerFd) s :=
        run.weaken fun _ _ => Act.ofLoop_of_inLoop
      obtain ⟨hch, p, hactive, hturn⟩ := (ensures_ok he).1 (dispatch_timers (Timers.run_settled (run_timerQueue loop)).1 inp)
      have ready : t.ready = s.ready := by
        funext q
        cases q <;> simp [World.ready, hch]
      have active : s.timerLoop.activeChannels = s.ready p :: t.timerLoop.activeChannels := by
        simp [World.timerLoop, hactive, ready]
      obtain ⟨hp, scripts, hread⟩ | ⟨hp, calls, hcalls⟩ := hturn
      · refine ih.step (a := .dispatch [] inp.curr scripts inp.now) trivial ?_
        have onQueue : Timers.onQueue (Timers.handleTimingRead inp.curr scripts inp.now) s.timerLoop =
            .ok () { s.timerLoop with queue := t.timerQueue } := by
          simp [Timers.onQueue, zoom, World.timerLoop, hread]
        simp only [Timers.loopStep, run_bind, run_get, active, hp, onQueue, run_modify]
        rfl
      · refine ih.step (a := .dispatch calls 0 (fun _ => []) 0) trivial ?_
        have onQueue : Timers.onQueue calls.run s.timerLoop = .ok () { s.timerLoop with queue := t.timerQueue } := by
          simp [Timers.onQueue, zoom, World.timerLoop, hcalls]
        simp only [Timers.loopStep, run_bind, run_get, active, hp, onQueue, run_modify]
        rfl
    | user script =>
      have hidle : s.activeChannels = [] := by simpa [Act.inLoop] using ha
      have plays := (ensures_ok he).1 ((playsParts.and withinParts).script script s trivial)
      obtain ⟨⟨⟨calls, hcalls⟩, -⟩, within⟩ := plays
      refine ih.step (a := .user calls) trivial ?_
      have idle : s.timerLoop.activeChannels = [] := by simp [World.timerLoop, hidle]
      have onQueue : Timers.onQueue calls.run s.timerLoop = .ok () t.timerLoop := by
        simp [Timers.onQueue, zoom, World.timerLoop, hcalls, within.active, hidle]
      simp only [Timers.loopStep, run_bind, run_get, run_ite]
      rw [if_pos idle]
      exact onQueue
    | _ => cases ha

end

end NetServer
