import NetServer.Reactor.Channel
import NetServer.Timer.Cancel
/-!
# A timer queue from its constructor to its destructor

`timerQueue_` is a member of `EventLoop`, declared after `poller_`: it is made after the epoller and goes before it, so that
its channel always finds one. In between the loop's other channels and descriptors come and go. The destructor takes what is
left of `timerList_` with it, and with that every `Timer` has been deleted, once (`timers_freed`).

| here | there |
| --- | --- |
| `EventLoop`             | the members `poller_` (`none` before it is made and after it is deleted) and `timerQueue_`, with `timerfdChannel_` |
| `createTimerfd`, `TimerQueue.construct` | `TimerQueue.cpp:9`, `:87`; `none` is a failed `timerfd_create` |
| `TimerQueue.destructor` | `TimerQueue.cpp:98` |
| `EventLoop.construct`, `EventLoop.destructor` | `EventLoop.cpp:11`, `:29` with the members, and `Epoller.cpp:8`, `:16` |
-/

namespace NetServer.Timers
open Exec

structure EventLoop (ι : Type) where
  poller : Option (Interest ι)
  epollfd : Fd
  timerfdChannel : Channel
  queue : TimerQueue
  openFds : Fd → Bool

variable {ι : Type}

/-- Before the constructor. -/
def EventLoop.raw (openFds : Fd → Bool) : EventLoop ι := ⟨none, 0, Channel.new 0, .init, openFds⟩

abbrev LifeM (ι : Type) := EStateM Fault (EventLoop ι)

def onTimerList (x : M Unit) : LifeM ι Unit := zoom EventLoop.queue (fun q s => { s with queue := q }) x

/-- A call on `timerfdChannel_`, which goes to `loop_->poller_`. -/
def onTimerfdChannel (x : ChanM ι Unit) : LifeM ι Unit := do
  match (← get).poller with
  | none => throw .useAfterFree
  | some k =>
    zoom (fun s => ⟨s.timerfdChannel, k⟩) (fun p s => { s with timerfdChannel := p.channel, poller := some p.interest }) x

/-- The kernel hands out a descriptor that is not in use; `none` is `-1`. -/
def newFd (fd : Option Fd) (failed : Fault) : LifeM ι Fd := do
  match fd with
  | none => throw failed
  | some fd => do
    let s ← get
    if s.openFds fd then
      throw .outside
    else
      set { s with openFds := Function.update s.openFds fd true }
      pure fd

/-- `::close(fd)`; the kernel drops the descriptor from the interest set. -/
def close (fd : Fd) : LifeM ι Unit :=
  modify fun s => { s with
    openFds := Function.update s.openFds fd false
    poller := s.poller.map fun k => Function.update k fd none }

namespace TimerQueue

def createTimerfd (fd : Option Fd) : LifeM ι Fd := newFd fd .abort

def construct (self : ι) (fd : Option Fd) : LifeM ι Unit := do
  let timerfd ← createTimerfd fd
  modify fun s => { s with timerfdChannel := Channel.new timerfd, queue := .init }
  assert (timerfd > 0)
  onTimerfdChannel (Channel.enabledReadable self)

/-- `delete timer.second`, entry by entry. -/
def deleteAll : List Entry → M Unit
  | [] => pure ()
  | e :: rest => do
    deleteTimer e.timer
    deleteAll rest

def destructor (self : ι) : LifeM ι Unit := do
  onTimerfdChannel (Channel.diabledAllEvents self)
  onTimerfdChannel (Channel.remove self)
  close (← get).timerfdChannel.fd
  onTimerList (deleteAll (← get).queue.timerList.elems)

end TimerQueue

namespace EventLoop

def construct (self : ι) (epollfd timerfd : Option Fd) : LifeM ι Unit := do
  let epollfd ← newFd epollfd .assertFailed
  modify fun s => { s with poller := some fun _ => none, epollfd := epollfd }
  TimerQueue.construct self timerfd

def destructor (self : ι) : LifeM ι Unit := do
  TimerQueue.destructor self
  close (← get).epollfd
  modify fun s => { s with poller := none }

end EventLoop

inductive LifeAct (ι : Type) where
  | timers (op : Op)
  /-- Other channels and descriptors of the process. -/
  | others (interest : Interest ι) (openFds : Fd → Bool)

def lifeStep : LifeAct ι → LifeM ι Unit
  | .timers op => onTimerList (step op)
  | .others interest openFds => modify fun s => { s with poller := some interest, openFds := openFds }

/-- The others leave the loop's own descriptors alone. -/
def LifeAct.keepsOff (s : EventLoop ι) : LifeAct ι → Prop
  | .timers _ => True
  | .others interest openFds =>
    (∀ k ∈ s.poller, interest s.timerfdChannel.fd = k s.timerfdChannel.fd) ∧
      openFds s.timerfdChannel.fd = s.openFds s.timerfdChannel.fd ∧ openFds s.epollfd = s.openFds s.epollfd

instance decidableKeepsOff [DecidableEq ι] (s : EventLoop ι) : ∀ a : LifeAct ι, Decidable (a.keepsOff s)
  | .timers _ => .isTrue trivial
  | .others _ _ => inferInstanceAs (Decidable ((∀ k ∈ s.poller, _) ∧ _ ∧ _))

/-! ## The timers -/

/-- A timer that was added is there, or was deleted. -/
def Accounted (q : TimerQueue) : Prop :=
  ∀ t when interval, .added t when interval ∈ q.trace → (q.timers t).isSome ∨ .deleted t ∈ q.trace

namespace Accounted

variable {q : TimerQueue}

/-- Events that add no timer, and every timer that goes is deleted. -/
theorem later (h : Accounted q) {q' : TimerQueue} (new : List TimerEvent) (htr : q'.trace = q.trace ++ new)
    (hnew : ∀ t when interval, .added t when interval ∉ new)
    (hold : ∀ t, (q.timers t).isSome → (q'.timers t).isSome ∨ .deleted t ∈ new) : Accounted q' := by
  intro t when interval ht
  rw [htr] at ht ⊢
  have ht := (List.mem_append.1 ht).resolve_right (hnew t when interval)
  obtain live | gone := h t when interval ht
  · exact (hold t live).imp id (List.mem_append_right _)
  · exact .inr (List.mem_append_left _ gone)

/-- One timer goes and is deleted. -/
theorem gone (h : Accounted q) {t : TimerPtr} {q' : TimerQueue} (new : List TimerEvent)
    (htr : q'.trace = q.trace ++ .deleted t :: new) (hnew : ∀ u when interval, .added u when interval ∉ new)
    (htimers : q'.timers = Function.update q.timers t none) : Accounted q' := by
  refine h.later _ htr (fun u when interval hu => hnew u when interval (by simpa using hu)) fun u hu => ?_
  by_cases hut : u = t
  · exact .inr (by simp [hut])
  · exact .inl (by simpa [htimers, hut] using hu)

theorem effect (h : Accounted q) {cancels : Bool} {q' : TimerQueue} (he : Effect q cancels q') : Accounted q' := by
  cases he with
  | @added t w i =>
    intro u when interval hu
    by_cases hut : u = t
    · exact .inl (by simp [TimerQueue.admitted, hut])
    · have hold : .added u when interval ∈ q.trace := by simpa [TimerQueue.admitted, hut] using hu
      obtain live | gone := h u when interval hold
      · exact .inl (by simpa [TimerQueue.admitted, hut] using live)
      · exact .inr (List.mem_append_left _ gone)
  | expired => exact h
  | @canceled t timer live => exact h.gone [.canceled t (q.queued t)] (List.append_assoc ..) (by simp) rfl

end Accounted

theorem carried_accounted (curr : Int) : Carried curr true fun _ _ q => Accounted q where
  fd _ h := h
  effect _ h he _ := h.effect he
  run {e _ _ timer} _ h _ _ := h.later [.run e.timer timer.timing] rfl (by simp) fun _ => .inl
  rearm {e _ q timer} _ h ht _ := by
    refine h.later [] (List.append_nil _).symm (by simp) fun u hu => .inl ?_
    by_cases hue : u = e.timer
    · simp [hue]
    · simpa [hue] using hu
  finish {e _ _ _} _ h _ _ := h.gone [] rfl (by simp) rfl

/-- **One step** of the queue. -/
theorem step_accounted (op : Op) {q : TimerQueue} (hi : Inv [] q) (hs : Settled q) (h : Accounted q) :
    Ensures (step op) q (fun _ q' => Inv [] q' ∧ Settled q' ∧ Accounted q') fun _ _ => True := by
  have settled : Ensures (step op) q (fun _ q' => Inv [] q' ∧ Settled q') fun _ _ => True :=
    (step_settled op hi hs).mono (fun _ _ hq => hq) fun _ _ _ => trivial
  cases op with
  | call x =>
    exact (settled.and (x.run_spec q)).mono (fun _ _ hq => ⟨hq.1.1, hq.1.2, h.effect hq.2⟩) fun _ _ _ => trivial
  | handleTimingRead curr callbacks now =>
    exact (settled.and ((carried_accounted curr).handleTimingRead callbacks (fun _ _ _ _ => rfl) now Accounted hi h
      fun _ _ hq => hq)).mono (fun _ _ hq => ⟨hq.1.1, hq.1.2, hq.2.2.1⟩) fun _ _ _ => trivial

/-- **The rest of the list goes**: induction on its entries, of different timers that are there. -/
theorem deleteAll_spec (l : List Entry) {q : TimerQueue} (hs : Settled q) (h : Accounted q)
    (fresh : ∀ t timer, q.timers t = some timer → t.serial < q.next) (live : ∀ e ∈ l, (q.timers e.timer).isSome)
    (distinct : l.Pairwise (·.timer ≠ ·.timer)) (listed : ∀ t, (q.timers t).isSome → ∃ e ∈ l, e.timer = t) :
    Ensures (TimerQueue.deleteAll l) q (fun _ q' => Settled q' ∧ Accounted q' ∧ ∀ t, q'.timers t = none) fun _ _ => False := by
  induction l generalizing q with
  | nil =>
    refine ⟨hs, h, fun t => Option.not_isSome_iff_eq_none.1 fun ht => ?_⟩
    obtain ⟨_, hin, -⟩ := listed t ht
    cases hin
  | cons e rest ih =>
    obtain ⟨timer, ht⟩ := Option.isSome_iff_exists.1 (live e (List.mem_cons_self ..))
    obtain ⟨hfirst, hrest⟩ := List.pairwise_cons.1 distinct
    have settled : Settled { q with timers := Function.update q.timers e.timer none, trace := q.trace ++ [.deleted e.timer] } := by
      refine hs.told (.deleted e.timer) (hs.mayFollow ht (.inr rfl)) rfl (Nat.le_refl _) (fun _ _ => update_none) ?_
      rintro _ ⟨⟩
      exact ⟨fresh e.timer timer ht, Function.update_self ..⟩
    rw [TimerQueue.deleteAll, ensures_bind, ensures_deleteTimer]
    refine ⟨fun _ => ih settled (h.gone [] rfl (by simp) rfl) (fun t x hx => fresh t x (of_update_none hx).2) (fun x hx => ?_)
      hrest fun t hlive => ?_, fun hn => by simp [ht] at hn⟩
    · simpa [(hfirst x hx).symm] using live x (List.mem_cons_of_mem _ hx)
    · obtain ⟨x, hx⟩ := Option.isSome_iff_exists.1 hlive
      obtain ⟨hte, hx⟩ := of_update_none hx
      obtain ⟨y, hy, rfl⟩ := listed t (Option.isSome_iff_exists.2 ⟨x, hx⟩)
      exact ⟨y, (List.mem_cons.1 hy).resolve_left fun he => hte (by rw [he]), rfl⟩

theorem count_deleted_le {trace : List TimerEvent} (h : trace.Pairwise MayFollow) (t : TimerPtr) :
    trace.count (.deleted t) ≤ 1 := by
  by_contra hn
  have twice := List.replicate_sublist_iff.2 (Nat.not_le.1 hn)
  have both := h.sublist twice
  simp [MayFollow] at both

/-! ## The life of the loop -/

/-- Between the constructor and the destructor: the timerfd is registered with its channel, and every timer accounted for. -/
structure Living (ptr : ι) (timerfd : Fd) (s : EventLoop ι) : Prop where
  poller : ∃ k, s.poller = some k ∧ k timerfd = some ⟨EPOLLIN, ptr⟩
  fd : s.timerfdChannel.fd = timerfd
  events : s.timerfdChannel.events = EPOLLIN
  status : s.timerfdChannel.status = .ADDED
  inv : Inv [] s.queue
  settled : Settled s.queue
  accounted : Accounted s.queue

theorem ensures_onTimerfdChannel {x : ChanM ι Unit} {s : EventLoop ι} {k : Interest ι} (hk : s.poller = some k)
    {Q : Unit → EventLoop ι → Prop} {E : Fault → EventLoop ι → Prop} :
    Ensures (onTimerfdChannel x) s Q E ↔ Ensures x ⟨s.timerfdChannel, k⟩
      (fun _ p => Q () { s with timerfdChannel := p.channel, poller := some p.interest })
      fun e p => E e { s with timerfdChannel := p.channel, poller := some p.interest } := by
  rw [onTimerfdChannel, ensures_bind, ensures_get]
  simp only [hk, ensures_zoom]

theorem construct_living (self : ι) (epollfd timerfd : Fd) (openFds : Fd → Bool) :
    Ensures (EventLoop.construct self (some epollfd) (some timerfd)) (.raw openFds)
      (fun _ s => s.epollfd = epollfd ∧ Living self timerfd s) fun _ _ => True := by
  simp only [EventLoop.construct, TimerQueue.construct, TimerQueue.createTimerfd, newFd, ensures_bind, ensures_get,
    ensures_ite, ensures_throw, ensures_set, ensures_pure, ensures_modify, ensures_assert, implies_true, true_and, and_true]
  intro _ _ _
  have known : (⟨Channel.new timerfd, fun _ => none⟩ : Polled ι).Known := by simp [Polled.Known, Channel.new]
  have added : (Channel.new timerfd).set (· ||| Channel.ReadableEvent) = ⟨timerfd, EPOLLIN, 0, .ADDED⟩ := by
    simp [Channel.set, Channel.new, Channel.nextStatus, Channel.ReadableEvent]
  rw [ensures_onTimerfdChannel rfl, Channel.enabledReadable, ensures_ok (setEvents_update_set self _ known), added]
  exact ⟨rfl, ⟨_, rfl, Function.update_self ..⟩, rfl, rfl, rfl, inv_init, .init, fun _ _ _ hx => absurd hx List.not_mem_nil⟩

theorem lifeStep_living {self : ι} {epollfd timerfd : Fd} {s : EventLoop ι} (he : s.epollfd = epollfd) (h : Living self timerfd s)
    (a : LifeAct ι) (ha : a.keepsOff s) :
    Ensures (lifeStep a) s (fun _ t => t.epollfd = epollfd ∧ Living self timerfd t) fun _ _ => True := by
  cases a with
  | timers op =>
    rw [lifeStep, onTimerList, ensures_zoom]
    exact (step_accounted op h.inv h.settled h.accounted).mono
      (fun _ _ hq => ⟨he, { h with inv := hq.1, settled := hq.2.1, accounted := hq.2.2 }⟩) fun _ _ _ => trivial
  | others interest openFds =>
    obtain ⟨k, hk, hreg⟩ := h.poller
    refine ⟨he, { h with poller := ⟨interest, rfl, ?_⟩ }⟩
    rw [← hreg, ← h.fd]
    exact ha.1 k hk

/-- **`~EventLoop`** finds its poller as long as it needs it, and leaves nothing. -/
theorem destructor_frees {self : ι} {timerfd : Fd} {s : EventLoop ι} (h : Living self timerfd s) :
    Ensures (EventLoop.destructor self) s
      (fun _ t => t.poller = none ∧ t.openFds timerfd = false ∧ t.openFds s.epollfd = false ∧
        Settled t.queue ∧ Accounted t.queue ∧ ∀ x, t.queue.timers x = none)
      fun _ _ => False := by
  obtain ⟨k, hk, hreg⟩ := h.poller
  have known : (⟨s.timerfdChannel, k⟩ : Polled ι).Known := by simp [Polled.Known, h.fd, h.status, hreg]
  have off : s.timerfdChannel.set (fun _ => Channel.NoEvent) = { s.timerfdChannel with events := Channel.NoEvent, status := .DEL } := by
    simp [Channel.set, Channel.nextStatus, h.status]
  simp only [EventLoop.destructor, TimerQueue.destructor, close, ensures_bind]
  rw [ensures_onTimerfdChannel hk, Channel.diabledAllEvents, ensures_ok (setEvents_update_set self _ known), off]
  rw [ensures_onTimerfdChannel rfl]
  have idle : (⟨{ s.timerfdChannel with events := Channel.NoEvent, status := .DEL },
      Function.update k s.timerfdChannel.fd
        (Channel.registration self { s.timerfdChannel with events := Channel.NoEvent, status := .DEL })⟩ : Polled ι).Known := by
    simp [Polled.Known, Channel.registration]
  rw [ensures_ok (Channel.remove_eq self idle rfl)]
  simp only [ensures_get, ensures_modify, onTimerList, ensures_zoom]
  have live : ∀ e ∈ s.queue.timerList.elems, (s.queue.timers e.timer).isSome := fun e he => by
    obtain ⟨timer, ht, -⟩ := h.inv.queued e he
    simp [ht]
  have distinct : s.queue.timerList.elems.Pairwise (·.timer ≠ ·.timer) :=
    s.queue.timerList.ordered.imp_of_mem fun {a b} ha hb hab ht => by
      rw [h.inv.entry_unique ha hb ht] at hab
      exact lt_irrefl _ hab
  have listed : ∀ t, (s.queue.timers t).isSome → ∃ e ∈ s.queue.timerList.elems, e.timer = t := fun t ht => by
    obtain ⟨timer, ht⟩ := Option.isSome_iff_exists.1 ht
    exact (h.inv.listed t timer ht).resolve_right (by simp)
  refine (deleteAll_spec _ h.settled h.accounted h.inv.fresh live distinct listed).mono ?_ fun _ _ hf => hf
  rintro _ q' ⟨hs, ha, hnone⟩
  refine ⟨trivial, ?_, Function.update_self .., hs, ha, hnone⟩
  by_cases hsame : timerfd = s.epollfd
  · simp [hsame]
  · simp [hsame, h.fd]

/-- **Every timer is deleted once**: from the constructor of `EventLoop` on, let timers be added, cancelled and run and other
channels come and go, as long as every step returns. Then `~EventLoop` returns: `timerfdChannel_` leaves the epoller, which is
still there, both descriptors are closed, no `Timer` is left, and each that was ever made has been deleted exactly once. -/
theorem timers_freed (self : ι) (epollfd timerfd : Fd) (openFds : Fd → Bool) (s₀ s : EventLoop ι)
    (made : EventLoop.construct self (some epollfd) (some timerfd) (.raw openFds) = .ok () s₀)
    (h : Run lifeStep (fun s a => a.keepsOff s) s₀ s) :
    Ensures (EventLoop.destructor self) s
      (fun _ t => t.poller = none ∧ t.openFds timerfd = false ∧ t.openFds epollfd = false ∧
        (∀ x, t.queue.timers x = none) ∧
        ∀ x when interval, .added x when interval ∈ t.queue.trace → t.queue.trace.count (.deleted x) = 1)
      fun _ _ => False := by
  have start := (ensures_ok made).1 (construct_living self epollfd timerfd openFds)
  obtain ⟨hepoll, living⟩ := h.invariant (I := fun s => s.epollfd = epollfd ∧ Living self timerfd s) start
    fun s a hs ha => lifeStep_living hs.1 hs.2 a ha
  refine (destructor_frees living).mono ?_ fun _ _ hf => hf
  rintro _ t ⟨hpoller, htimer, hpoll, settled, accounted, none⟩
  refine ⟨hpoller, htimer, hepoll ▸ hpoll, none, fun x when interval hx => ?_⟩
  have deleted := (accounted x when interval hx).resolve_left (by simp [none x])
  exact Nat.le_antisymm (count_deleted_le settled.order x) (List.count_pos_iff.2 deleted)

/-- One timer has fired, one was cancelled by its callback, and two are left, one of them periodic. -/
theorem timers_freed_left : ∃ s t : EventLoop Bool, s.queue.timerList.elems.length = 2 ∧ EventLoop.destructor true s = .ok () t ∧
    t.openFds 4 = false ∧ (∀ x, t.queue.timers x = none) ∧ t.queue.trace.count (.deleted ⟨32, 1⟩) = 1 := by
  let acts : List (LifeAct Bool) := [.timers (.call (.runAt 5000000 16 0)), .timers (.call (.runEvery 2000 32 0 0)),
    .timers (.call (.runAt 9000000 48 0)), .timers (.call .expire),
    .others (fun f => if f = 4 then some ⟨EPOLLIN, true⟩ else if f = 5 then some ⟨EPOLLIN, false⟩ else none)
      (fun f => f == 3 || f == 4 || f == 5),
    .timers (.handleTimingRead 5000000 (fun t => if t.addr = 16 then [.cancelTimer ⟨48, 2⟩] else []) 5000000),
    .timers (.call (.runAt 9000000 64 5000000))]
  have made : Ensures (EventLoop.construct true (some 3) (some 4)) (.raw fun _ => false)
      (fun _ s₀ => Meets lifeStep (fun s a => a.keepsOff s) acts s₀ ∧ Ensures (steps lifeStep acts) s₀
        (fun _ s => s.queue.timerList.elems.length = 2 ∧
          Ensures (EventLoop.destructor true) s (fun _ t => .added ⟨32, 1⟩ 2000000 2000 ∈ t.queue.trace) fun _ _ => False)
        fun _ _ => False)
      fun _ _ => False := by decide +kernel
  obtain ⟨_, s₀, hmade, hmeets, hsteps⟩ := made.returns
  obtain ⟨_, s, hrun, hlength, hadded⟩ := hsteps.returns
  have freed := timers_freed true 3 4 (fun _ => false) s₀ s hmade (Run.start.steps hmeets hrun)
  obtain ⟨_, t, ht, ⟨-, htimerfd, -, hnone, hcount⟩, hin⟩ := (freed.and hadded).mono (fun _ _ h => h) (fun _ _ h => h.1) |>.returns
  exact ⟨s, t, hlength, ht, htimerfd, hnone, hcount _ _ _ hin⟩

end NetServer.Timers
