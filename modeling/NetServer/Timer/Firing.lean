import NetServer.Timer.Batch
/-!
# Firing: no loss, no duplication, no drift

`Fired q curr evs q'` is what one `handleTimingRead` that completes makes of the queue `q`, with `evs` the events
it adds to the trace: `FiringAt` carries it through the loop. `Recorded` is the history of every timer over a run:
its callback was started for `when`, `when + interval`, `when + 2 * interval` and so on.
-/

namespace NetServer.Timers
open Exec

/-! ## Reading a trace -/

/-- The timer whose callback was started, and its deadline. -/
def TimerEvent.ran : TimerEvent → Option (TimerPtr × Int)
  | .run t when => some (t, when)
  | _ => none

/-- The entry of a timer that was added. -/
def TimerEvent.entry : TimerEvent → Option Entry
  | .added t when _ => some ⟨when, t⟩
  | _ => none

def runs (evs : List TimerEvent) : List (TimerPtr × Int) := evs.filterMap TimerEvent.ran

def addedEntries (evs : List TimerEvent) : List Entry := evs.filterMap TimerEvent.entry

/-- The deadlines that the callback of one timer was started for. -/
def runsOf (t : TimerPtr) (evs : List TimerEvent) : List Int :=
  (runs evs).filterMap fun p => if p.1 = t then some p.2 else none

@[simp] theorem runs_nil : runs [] = [] := rfl

@[simp] theorem runs_append (l l' : List TimerEvent) : runs (l ++ l') = runs l ++ runs l' := List.filterMap_append ..

@[simp] theorem runs_singleton (ev : TimerEvent) : runs [ev] = ev.ran.toList := by
  cases h : ev.ran <;> simp [runs, h]

@[simp] theorem addedEntries_nil : addedEntries [] = [] := rfl

@[simp] theorem addedEntries_append (l l' : List TimerEvent) :
    addedEntries (l ++ l') = addedEntries l ++ addedEntries l' := List.filterMap_append ..

@[simp] theorem addedEntries_singleton (ev : TimerEvent) : addedEntries [ev] = ev.entry.toList := by
  cases h : ev.entry <;> simp [addedEntries, h]

theorem runsOf_append (t : TimerPtr) (l l' : List TimerEvent) : runsOf t (l ++ l') = runsOf t l ++ runsOf t l' := by
  simp [runsOf]

theorem runsOf_run (t u : TimerPtr) (when : Int) : runsOf t [.run u when] = if u = t then [when] else [] := by
  by_cases h : u = t <;> simp [runsOf, TimerEvent.ran, h]

theorem runsOf_quiet (t : TimerPtr) {ev : TimerEvent} (h : ev.ran = none) : runsOf t [ev] = [] := by
  simp [runsOf, h]

/-! ## One call -/

/-- The entry a timer that was run gets next, if it is periodic. -/
def TimerQueue.nextEntry (q : TimerQueue) (p : TimerPtr × Int) : Option Entry :=
  match q.timers p.1 with
  | some timer => if timer.repeated then some ⟨p.2 + timer.interval * 1000, p.1⟩ else none
  | none => none

def Entry.pair (e : Entry) : TimerPtr × Int := (e.timer, e.time)

/-- What a call makes of the queue. -/
structure Fired (q : TimerQueue) (curr : Int) (evs : List TimerEvent) (q' : TimerQueue) : Prop where
  trace : q'.trace = q.trace ++ evs
  /-- The callbacks that were started are those of the timers whose deadline had come when the call started, -/
  due : ∀ t when, (t, when) ∈ runs evs ↔ ∃ timer, q.timers t = some timer ∧ timer.timing = when ∧ when ≤ curr
  /-- each of them once, -/
  once : ((runs evs).map Prod.fst).Nodup
  /-- in the order of the deadlines. -/
  ordered : (runs evs).Pairwise fun a b => a.2 ≤ b.2
  /-- `timerList_` holds what was not run, the next entries of the periodic timers, and what was added. -/
  list : q'.timerList.elems.Perm
    (q.timerList.elems.filter (curr < ·.time) ++ (runs evs).filterMap q.nextEntry ++ addedEntries evs)
  deadlines : ∀ e ∈ q'.timerList.elems, ∃ timer, q'.timers e.timer = some timer ∧ timer.timing = e.time
  gone : ∀ t when, (t, when) ∈ runs evs → ∀ timer, q.timers t = some timer → timer.repeated = false → q'.timers t = none
  new : ∀ e ∈ addedEntries evs, q.next ≤ e.timer.serial

section
variable (q₀ : TimerQueue) (curr : Int) (all kept : List Entry)

/-- In the loop: `done` is the finished part of the batch `all`, `kept` what stayed in `timerList_`. -/
structure FiringAt (done : List Entry) (evs : List TimerEvent) (batch : List Entry) (running : Bool) (q : TimerQueue) :
    Prop where
  whole : all = done ++ batch
  trace : q.trace = q₀.trace ++ evs
  ran : runs evs = (done ++ if running then batch.take 1 else []).map Entry.pair
  due : ∀ p ∈ runs evs, p.2 ≤ curr
  list : q.timerList.elems.Perm (kept ++ (done.map Entry.pair).filterMap q₀.nextEntry ++ addedEntries evs)
  same : ∀ e ∈ batch, q.timers e.timer = q₀.timers e.timer
  gone : ∀ e ∈ done, ∀ timer, q₀.timers e.timer = some timer → timer.repeated = false → q.timers e.timer = none
  next : q₀.next ≤ q.next
  new : ∀ e ∈ addedEntries evs, q₀.next ≤ e.timer.serial

variable {q₀ curr all kept}

namespace FiringAt

variable {done batch : List Entry} {evs : List TimerEvent} {running : Bool} {q : TimerQueue} {e : Entry} {timer : Timer}

/-- A timer is added: it is not one of the batch. -/
theorem added (h : FiringAt q₀ curr all kept done evs batch running q) (hi : Inv batch q)
    (hold : ∀ e ∈ all, e.timer.serial < q₀.next) {t : TimerPtr} (serial : t.serial = q.next)
    (free : ∀ n < q.next, q.timers ⟨t.addr, n⟩ = none) (when interval : Int) (fd : Timerfd) :
    FiringAt q₀ curr all kept done (evs ++ [.added t when interval]) batch running
      { q.admitted t when interval with timerfd := fd } := by
  have older : ∀ e ∈ all, e.timer ≠ t := by
    intro e he ht
    have := hold e he
    rw [ht, serial] at this
    exact absurd h.next (Nat.not_le.2 this)
  refine ⟨h.whole, ?_, ?_, ?_, ?_, fun e he => ?_, fun e he timer ht hr => ?_, Nat.le_succ_of_le h.next, fun e he => ?_⟩
  · simp [TimerQueue.admitted, h.trace]
  · simpa [TimerEvent.ran] using h.ran
  · simpa [TimerEvent.ran] using h.due
  · have grown := (OrdSet.elems_insert_perm (hi.key_free free when)).trans (h.list.cons _)
    refine grown.trans ?_
    rw [addedEntries_append, ← List.append_assoc]
    exact (List.perm_append_singleton ..).symm
  · have := older e (by rw [h.whole]; exact List.mem_append_right _ he)
    simpa [TimerQueue.admitted, this] using h.same e he
  · have := older e (by rw [h.whole]; exact List.mem_append_left _ he)
    simpa [TimerQueue.admitted, this] using h.gone e he timer ht hr
  · rw [addedEntries_append] at he
    obtain he | he := List.mem_append.1 he
    · exact h.new e he
    · obtain rfl : e = ⟨when, t⟩ := by simpa [TimerEvent.entry] using he
      rw [serial]; exact h.next

/-- The callback of the first timer of the batch starts. -/
theorem started (h : FiringAt q₀ curr all kept done evs (e :: batch) false q) (htime : timer.timing = e.time)
    (hdue : timer.timing ≤ curr) :
    FiringAt q₀ curr all kept done (evs ++ [.run e.timer timer.timing]) (e :: batch) true
      { q with trace := q.trace ++ [.run e.timer timer.timing] } := by
  refine ⟨h.whole, ?_, ?_, fun p hp => ?_, ?_, h.same, h.gone, h.next, ?_⟩
  · simp [h.trace]
  · simpa [TimerEvent.ran, Entry.pair, htime] using h.ran
  · rw [runs_append, List.mem_append] at hp
    obtain hp | hp := hp
    · exact h.due p hp
    · obtain rfl : p = (e.timer, timer.timing) := by simpa [TimerEvent.ran] using hp
      exact hdue
  · simpa [TimerEvent.entry] using h.list
  · simpa [TimerEvent.entry] using h.new

section
variable (hdistinct : all.Pairwise (·.timer ≠ ·.timer)) (htimer : q₀.timers e.timer = some timer)
include hdistinct htimer

/-- The periodic timer that has run leaves the batch for `timerList_`. -/
theorem rearmed (h : FiringAt q₀ curr all kept done evs (e :: batch) true q) (hi : Inv (e :: batch) q)
    (ht : q.timers e.timer = some timer) (htime : timer.timing = e.time) (hrep : timer.repeated = true) :
    FiringAt q₀ curr all kept (done ++ [e]) evs batch false { q with
      timers := Function.update q.timers e.timer (some { timer with timing := timer.timing + timer.interval * 1000 })
      timerList := q.timerList.insert ⟨timer.timing + timer.interval * 1000, e.timer⟩ } := by
  have hnext : q₀.nextEntry e.pair = some ⟨timer.timing + timer.interval * 1000, e.timer⟩ := by
    simp [TimerQueue.nextEntry, Entry.pair, htimer, hrep, htime]
  rw [h.whole, List.pairwise_append] at hdistinct
  refine ⟨by simp [h.whole], h.trace, by simpa using h.ran, h.due, ?_, fun y hy => ?_, fun y hy z hz hr => ?_, h.next, h.new⟩
  · have hkey := hi.key_own ht (hi.once e (List.mem_cons_self ..)) (timer.timing + timer.interval * 1000)
    have grown := (OrdSet.elems_insert_perm hkey).trans (h.list.cons _)
    have moved : kept ++ ((done ++ [e]).map Entry.pair).filterMap q₀.nextEntry ++ addedEntries evs =
        (kept ++ (done.map Entry.pair).filterMap q₀.nextEntry) ++
          ⟨timer.timing + timer.interval * 1000, e.timer⟩ :: addedEntries evs := by
      simp [hnext]
    rw [moved]
    exact grown.trans List.perm_middle.symm
  · have := ((List.pairwise_cons.1 hdistinct.2.1).1 y hy).symm
    simpa [this] using h.same y (List.mem_cons_of_mem _ hy)
  · obtain hy | hy := List.mem_append.1 hy
    · have := hdistinct.2.2 y hy e (List.mem_cons_self ..)
      simpa [this] using h.gone y hy z hz hr
    · obtain rfl := List.mem_singleton.1 hy
      obtain rfl : timer = z := Option.some.inj (htimer.symm.trans hz)
      rw [hrep] at hr; cases hr

/-- The one-shot timer that has run is deleted. -/
theorem finished (h : FiringAt q₀ curr all kept done evs (e :: batch) true q) (hrep : timer.repeated = false) :
    FiringAt q₀ curr all kept (done ++ [e]) (evs ++ [.deleted e.timer]) batch false { q with
      timers := Function.update q.timers e.timer none
      trace := q.trace ++ [.deleted e.timer] } := by
  have hnext : q₀.nextEntry e.pair = none := by simp [TimerQueue.nextEntry, Entry.pair, htimer, hrep]
  rw [h.whole, List.pairwise_append] at hdistinct
  refine ⟨by simp [h.whole], by simp [h.trace], ?_, ?_, ?_, fun y hy => ?_, fun y hy z hz hr => ?_, h.next, ?_⟩
  · simpa [TimerEvent.ran] using h.ran
  · simpa [TimerEvent.ran] using h.due
  · simpa [TimerEvent.entry, hnext] using h.list
  · have := ((List.pairwise_cons.1 hdistinct.2.1).1 y hy).symm
    simpa [this] using h.same y (List.mem_cons_of_mem _ hy)
  · by_cases hye : y.timer = e.timer
    · simp [hye]
    · obtain hy | hy := List.mem_append.1 hy
      · simpa [hye] using h.gone y hy z hz hr
      · exact absurd (by rw [List.mem_singleton.1 hy]) hye
  · simpa [TimerEvent.entry] using h.new

end

end FiringAt

/-- **The loop fires the batch**: no callback cancels. -/
theorem carried_firing
    (hlive : ∀ e ∈ all, e.timer.serial < q₀.next ∧ ∃ timer, q₀.timers e.timer = some timer ∧ timer.timing = e.time)
    (hdistinct : all.Pairwise (·.timer ≠ ·.timer)) :
    Carried curr false fun batch running q => ∃ done evs, FiringAt q₀ curr all kept done evs batch running q := by
  -- the first timer of the batch is what it was when the call started
  have current : ∀ {done evs e batch running q timer}, FiringAt q₀ curr all kept done evs (e :: batch) running q →
      q.timers e.timer = some timer → q₀.timers e.timer = some timer ∧ timer.timing = e.time := by
    intro done evs e batch running q timer h ht
    obtain ⟨_, x, hx, hxt⟩ := hlive e (by rw [h.whole]; simp)
    obtain rfl : timer = x := Option.some.inj (ht.symm.trans ((h.same e (List.mem_cons_self ..)).trans hx))
    exact ⟨hx, hxt⟩
  constructor
  case fd =>
    rintro batch running q fd ⟨done, evs, h⟩
    exact ⟨done, evs, { h with }⟩
  case effect =>
    rintro batch running q c q' hi ⟨done, evs, h⟩ he hc
    cases he with
    | @added t when interval _ fd serial free =>
      exact ⟨done, _, h.added hi (fun e he => (hlive e he).1) serial free when interval fd⟩
    | expired => exact ⟨done, evs, { h with }⟩
    | canceled => exact absurd (hc rfl) (by decide)
  case run =>
    rintro e batch q timer hi ⟨done, evs, h⟩ ht hdue
    exact ⟨done, _, h.started (current h ht).2 hdue⟩
  case rearm =>
    rintro e batch q timer hi ⟨done, evs, h⟩ ht hrep
    obtain ⟨htimer, htime⟩ := current h ht
    exact ⟨_, evs, h.rearmed hdistinct htimer hi ht htime hrep⟩
  case finish =>
    rintro e batch q timer hi ⟨done, evs, h⟩ ht hrep
    exact ⟨_, _, h.finished hdistinct (current h ht).1 hrep⟩

end

theorem Entry.key_lt_cut {e : Entry} {curr : Int} (h : e.time ≤ curr) : e.key < toLex (curr + 1, UINTPTR_MAX) := by
  rw [Entry.key, Prod.Lex.toLex_lt_toLex]
  exact .inl (Int.lt_add_one_of_le h)

/-- `getExpired` splits at `curr` when nothing it takes is beyond `curr`. -/
theorem split_due {l : OrdSet Entry.key} {curr : Int}
    (hdue : ∀ e ∈ l.below (toLex (curr + 1, UINTPTR_MAX)), e.time ≤ curr) :
    l.below (toLex (curr + 1, UINTPTR_MAX)) = l.elems.filter (·.time ≤ curr) ∧
      (l.above (toLex (curr + 1, UINTPTR_MAX))).elems = l.elems.filter (curr < ·.time) := by
  have due_iff : ∀ e ∈ l.elems, e.key < toLex (curr + 1, UINTPTR_MAX) ↔ e.time ≤ curr := by
    intro e he
    constructor
    · intro hk
      apply hdue
      rw [OrdSet.below_eq]
      exact List.mem_filter.2 ⟨he, by simpa using hk⟩
    · exact Entry.key_lt_cut
  constructor
  · rw [OrdSet.below_eq]
    exact List.filter_congr fun e he => decide_eq_decide.2 (due_iff e he)
  · rw [OrdSet.above_eq]
    refine List.filter_congr fun e he => decide_eq_decide.2 ?_
    rw [← not_lt, due_iff e he, not_le]

/-- **A call that completes** fires what was due: the assert on `expired(curr)` rules out what `getExpired` takes
along beyond `curr`. -/
theorem handleTimingRead_fires {q : TimerQueue} (hi : Inv [] q) (curr : Int) (callbacks : TimerPtr → Script)
    (hs : ∀ t, ∀ x ∈ callbacks t, x.cancels = false) (now : Int) :
    Ensures (handleTimingRead curr callbacks now) q (fun _ q' => ∃ evs, Fired q curr evs q') fun _ _ => True := by
  obtain ⟨cut, hcut⟩ : ∃ cut : Int ×ₗ Nat, cut = toLex (curr + 1, UINTPTR_MAX) := ⟨_, rfl⟩
  have batch := hi.split cut
  have inList : ∀ e ∈ q.timerList.below cut, e ∈ q.timerList.elems := fun e he => by
    rw [OrdSet.below_eq] at he
    exact (List.mem_filter.1 he).1
  have hlive : ∀ e ∈ q.timerList.below cut, e.timer.serial < q.next ∧
      ∃ timer, q.timers e.timer = some timer ∧ timer.timing = e.time := fun e he =>
    ⟨batch.allocated e he, hi.queued e (inList e he)⟩
  have hJ : Carried curr false fun rest running p => ∃ done evs,
      FiringAt q curr (q.timerList.below cut) (q.timerList.above cut).elems done evs rest running p :=
    carried_firing hlive batch.distinct
  refine (hJ.handleTimingRead callbacks (fun t x hx hc => by rw [hs t x hx] at hc; cases hc) now
    (fun p => p = { q with timerfd := { q.timerfd with unread := false } }) hi rfl (fun p _ hp => ?_)).mono ?_
    fun _ _ _ => trivial
  · subst hp hcut
    exact ⟨[], [], ⟨rfl, (List.append_nil _).symm, rfl, by simp, by simp, fun _ _ => rfl, by simp, Nat.le_refl _, by simp⟩⟩
  rintro _ q' ⟨hi', ⟨done, evs, h⟩, -⟩
  refine ⟨evs, ?_⟩
  have hdone : q.timerList.below cut = done := by simpa using h.whole
  have hran : runs evs = (q.timerList.below cut).map Entry.pair := by simpa [hdone] using h.ran
  obtain ⟨hbelow, habove⟩ : q.timerList.below cut = q.timerList.elems.filter (·.time ≤ curr) ∧
      (q.timerList.above cut).elems = q.timerList.elems.filter (curr < ·.time) := by
    subst hcut
    exact split_due fun e he => h.due e.pair (hran ▸ List.mem_map_of_mem he)
  refine ⟨h.trace, fun t when => ?_, ?_, ?_, ?_, hi'.queued, fun t when ht timer hlv hr => ?_, h.new⟩
  · rw [hran, hbelow]
    constructor
    · intro hmem
      obtain ⟨e, he, hpair⟩ := List.mem_map.1 hmem
      obtain ⟨he, hdue⟩ := List.mem_filter.1 he
      obtain ⟨timer, hx, hxt⟩ := hi.queued e he
      cases hpair
      exact ⟨timer, hx, hxt, by simpa using hdue⟩
    · rintro ⟨timer, hx, rfl, hdue⟩
      obtain ⟨e, he, rfl⟩ := (hi.listed t timer hx).resolve_right (by simp)
      obtain ⟨y, hy, hyt⟩ := hi.queued e he
      obtain rfl : y = timer := Option.some.inj (hy.symm.trans hx)
      exact List.mem_map.2 ⟨e, List.mem_filter.2 ⟨he, by simpa [← hyt] using hdue⟩, by rw [Entry.pair, hyt]⟩
  · rw [hran, List.map_map]
    exact List.pairwise_map.2 batch.distinct
  · rw [hran, List.pairwise_map, OrdSet.below_eq]
    refine (q.timerList.ordered.filter _).imp fun {a b} hab => ?_
    rw [Entry.key, Entry.key, Prod.Lex.toLex_lt_toLex] at hab
    exact hab.elim le_of_lt fun h => le_of_eq h.1
  · simpa [habove, hran, ← hdone] using h.list
  · rw [hran] at ht
    obtain ⟨e, he, hpair⟩ := List.mem_map.1 ht
    cases hpair
    exact h.gone e (hdone ▸ he) timer hlv hr

/-! ## Every run -/

/-- The first `n` deadlines of a timer. -/
def schedule (when interval : Int) (n : Nat) : List Int := (List.range n).map fun k : Nat => when + k * (interval * 1000)

theorem schedule_succ (when interval : Int) (n : Nat) :
    schedule when interval (n + 1) = schedule when interval n ++ [when + n * (interval * 1000)] := by
  simp [schedule, List.range_succ]

/-- The started callback of one timer, by its history: `started` is 1 while it runs and its timer has not been
restarted or deleted. -/
structure History (t : TimerPtr) (when interval : Int) (n started : Nat) (q : TimerQueue) : Prop where
  runs : runsOf t q.trace = schedule when interval (n + started)
  oneShot : interval ≤ 0 → n + started ≤ 1
  live : ∀ timer, q.timers t = some timer →
    timer.interval = interval ∧ timer.timing = when + n * (interval * 1000) ∧ (interval ≤ 0 → n = 0)

/-- Every timer that was added has run on schedule; `running` is the one whose callback is running. -/
structure Recorded (running : Option TimerPtr) (q : TimerQueue) : Prop where
  ran : ∀ p ∈ runs q.trace, p.1.serial < q.next
  history : ∀ t when interval, .added t when interval ∈ q.trace → t.serial < q.next ∧
    ∃ n, History t when interval n (if running = some t then 1 else 0) q

theorem recorded_init : Recorded none TimerQueue.init := ⟨nofun, nofun⟩

namespace Recorded

variable {q : TimerQueue} {running : Option TimerPtr}

/-- A timer that is still to be added has not run. -/
theorem unheard (h : Recorded running q) {t : TimerPtr} (ht : q.next ≤ t.serial) : runsOf t q.trace = [] := by
  refine List.filterMap_eq_nil_iff.2 fun p hp => ?_
  have := h.ran p hp
  rw [if_neg]
  rintro rfl
  exact Nat.not_le.2 this ht

/-- Events that start no callback and add no timer, and timers that go. -/
theorem quiet (h : Recorded running q) {q' : TimerQueue} (evs : List TimerEvent) (htr : q'.trace = q.trace ++ evs)
    (hevs : ∀ ev ∈ evs, ev.ran = none ∧ ev.entry = none) (hnext : q'.next = q.next)
    (htimers : ∀ t timer, q'.timers t = some timer → q.timers t = some timer) : Recorded running q' := by
  have hruns : runs evs = [] := List.filterMap_eq_nil_iff.2 fun ev hev => (hevs ev hev).1
  refine ⟨fun p hp => ?_, fun t when interval ha => ?_⟩
  · rw [htr, runs_append, hruns, List.append_nil] at hp
    rw [hnext]; exact h.ran p hp
  · rw [htr] at ha
    obtain ha | ha := List.mem_append.1 ha
    · obtain ⟨hs, n, hist⟩ := h.history t when interval ha
      refine ⟨hnext ▸ hs, n, ?_, hist.oneShot, fun timer ht => hist.live timer (htimers t timer ht)⟩
      rw [htr, runsOf_append, runsOf, runsOf, hruns, List.filterMap_nil, List.append_nil]
      exact hist.runs
    · cases (hevs _ ha).2

theorem frame (h : Recorded running q) {q' : TimerQueue} (htr : q'.trace = q.trace) (hnext : q'.next = q.next)
    (htimers : q'.timers = q.timers) : Recorded running q' :=
  h.quiet [] (by rw [htr, List.append_nil]) (by simp) hnext fun t timer ht => by rwa [htimers] at ht

theorem effect (h : Recorded running q) {q' : TimerQueue} (hr : ∀ t, running = some t → t.serial < q.next)
    {cancels : Bool} (he : Effect q cancels q') : Recorded running q' := by
  cases he with
  | @added t when interval _ _ serial _ =>
    have told : ∀ u, runsOf u (q.trace ++ [.added t when interval]) = runsOf u q.trace := fun u => by
      rw [runsOf_append, runsOf_quiet u rfl, List.append_nil]
    refine ⟨fun p hp => ?_, fun u w i ha => ?_⟩
    · have : p ∈ runs q.trace := by simpa [TimerQueue.admitted, TimerEvent.ran] using hp
      exact Nat.lt_succ_of_lt (h.ran p this)
    · obtain ha | ha := List.mem_append.1 ha
      · obtain ⟨hs, n, hist⟩ := h.history u w i ha
        have hut : u ≠ t := fun he => by rw [he, serial] at hs; exact Nat.lt_irrefl _ hs
        exact ⟨Nat.lt_succ_of_lt hs, n, (told u).trans hist.runs, hist.oneShot, fun timer ht =>
          hist.live timer (by simpa [TimerQueue.admitted, hut] using ht)⟩
      · obtain ⟨rfl, rfl, rfl⟩ : u = t ∧ w = when ∧ i = interval := by simpa using ha
        have hne : running ≠ some u := fun he => Nat.lt_irrefl _ (serial ▸ hr u he)
        rw [if_neg hne]
        refine ⟨serial ▸ Nat.lt_succ_self _, 0, (told u).trans (h.unheard (Nat.le_of_eq serial.symm)), fun _ => Nat.zero_le _,
          fun timer ht => ?_⟩
        obtain rfl : Timer.new w i = timer := by simpa [TimerQueue.admitted] using ht
        exact ⟨rfl, by simp [Timer.new], fun _ => rfl⟩
  | expired => exact h.frame rfl rfl rfl
  | @canceled t timer live =>
    refine h.quiet [.deleted t, .canceled t (q.queued t)] (by simp [TimerQueue.cancelled]) (fun ev hev => ?_) rfl
      fun u x hx => ?_
    · obtain rfl | rfl : ev = .deleted t ∨ ev = .canceled t (q.queued t) := by simpa using hev
      · exact ⟨rfl, rfl⟩
      · exact ⟨rfl, rfl⟩
    · by_cases hu : u = t
      · subst hu; simp [TimerQueue.cancelled] at hx
      · simpa [TimerQueue.cancelled, hu] using hx

section
variable {e : Entry} {batch : List Entry} {timer : Timer} (hi : Inv (e :: batch) q) (ht : q.timers e.timer = some timer)
include hi ht

/-- The callback starts for the next deadline of the schedule. -/
theorem start (h : Recorded none q) :
    Recorded (some e.timer) { q with trace := q.trace ++ [.run e.timer timer.timing] } := by
  refine ⟨fun p hp => ?_, fun t when interval ha => ?_⟩
  · simp only [runs_append, List.mem_append] at hp
    obtain hp | hp := hp
    · exact h.ran p hp
    · obtain rfl : p = (e.timer, timer.timing) := by simpa [TimerEvent.ran] using hp
      exact hi.fresh e.timer timer ht
  · obtain ⟨hs, n, hist⟩ := h.history t when interval (by simpa using ha)
    refine ⟨hs, n, ?_⟩
    by_cases het : e.timer = t
    · subst het
      obtain ⟨hint, htiming, hzero⟩ := hist.live timer ht
      rw [if_pos rfl]
      refine ⟨?_, fun hneg => by rw [hzero hneg], hist.live⟩
      have := hist.runs
      rw [if_neg (by simp), Nat.add_zero] at this
      rw [runsOf_append, runsOf_run, if_pos rfl, this, schedule_succ, htiming]
    · rw [if_neg fun he => het (Option.some.inj he)]
      refine ⟨?_, by simpa using hist.oneShot, hist.live⟩
      rw [runsOf_append, runsOf_run, if_neg het, List.append_nil]
      simpa using hist.runs

/-- The periodic timer moves to the deadline after it. -/
theorem restarted (h : Recorded (some e.timer) q) (hrep : timer.repeated = true) (list : OrdSet Entry.key) :
    Recorded none { q with
      timers := Function.update q.timers e.timer (some { timer with timing := timer.timing + timer.interval * 1000 })
      timerList := list } := by
  refine ⟨h.ran, fun t when interval ha => ?_⟩
  obtain ⟨hs, n, hist⟩ := h.history t when interval ha
  by_cases het : e.timer = t
  · subst het
    rw [if_pos rfl] at hist
    obtain ⟨hint, htiming, hzero⟩ := hist.live timer ht
    have periodic : 0 < interval := by
      have := hi.repeats e.timer timer ht
      rw [hrep, eq_comm, decide_eq_true_iff] at this
      rwa [← hint]
    refine ⟨hs, n + 1, ⟨hist.runs, fun hneg => absurd periodic (Int.not_lt.2 hneg), fun x hx => ?_⟩⟩
    obtain rfl : { timer with timing := timer.timing + timer.interval * 1000 } = x := by simpa using hx
    refine ⟨hint, ?_, fun hneg => absurd periodic (Int.not_lt.2 hneg)⟩
    simp only [htiming, hint, Int.natCast_add, Int.cast_ofNat_Int, Int.add_mul, Int.one_mul, Int.add_assoc]
  · rw [if_neg fun he => het (Option.some.inj he)] at hist
    exact ⟨hs, n, hist.runs, hist.oneShot, fun x hx => hist.live x (by simpa [Ne.symm het] using hx)⟩

omit hi ht in
/-- The one-shot timer goes after its one run. -/
theorem ended (h : Recorded (some e.timer) q) :
    Recorded none { q with
      timers := Function.update q.timers e.timer none
      trace := q.trace ++ [.deleted e.timer] } := by
  have told : ∀ t, runsOf t (q.trace ++ [.deleted e.timer]) = runsOf t q.trace := fun t => by
    rw [runsOf_append, runsOf_quiet t rfl, List.append_nil]
  refine ⟨fun p hp => h.ran p (by simpa [TimerEvent.ran] using hp), fun t when interval ha => ?_⟩
  obtain ⟨hs, n, hist⟩ := h.history t when interval (by simpa using ha)
  by_cases het : e.timer = t
  · subst het
    rw [if_pos rfl] at hist
    exact ⟨hs, n + 1, (told _).trans hist.runs, hist.oneShot, fun x hx => by simp at hx⟩
  · rw [if_neg fun he => het (Option.some.inj he)] at hist
    exact ⟨hs, n, (told _).trans hist.runs, hist.oneShot, fun x hx => hist.live x (by simpa [Ne.symm het] using hx)⟩

end

end Recorded

/-- The timer whose callback is running. -/
def runningTimer (batch : List Entry) (running : Bool) : Option TimerPtr :=
  if running then batch.head?.map Entry.timer else none

theorem carried_recorded (curr : Int) : Carried curr true fun batch running q => Recorded (runningTimer batch running) q where
  fd fd h := h.frame rfl rfl rfl
  effect {batch running q c q'} hi h he _ := by
    refine h.effect (fun t ht => ?_) he
    cases running with
    | false => cases ht
    | true =>
      obtain ⟨e, he, rfl⟩ := Option.map_eq_some_iff.1 ht
      exact hi.allocated e (List.mem_of_mem_head? he)
  run hi h ht _ := h.start hi ht
  rearm hi h ht hrep := h.restarted hi ht hrep _
  finish _ h _ _ := h.ended

theorem step_recorded (op : Op) {q : TimerQueue} (hi : Inv [] q) (h : Recorded none q) :
    Ensures (step op) q (fun _ q' => Inv [] q' ∧ Recorded none q') fun _ _ => True := by
  cases op with
  | call x =>
    exact ((carried_recorded 0).call false hi h x fun _ => rfl).mono (fun _ _ hq => hq) fun _ _ _ => trivial
  | handleTimingRead curr callbacks now =>
    exact ((carried_recorded curr).handleTimingRead callbacks (fun _ _ _ _ => rfl) now (Recorded none) hi
      (h.frame rfl rfl rfl) fun p _ hp => hp.frame rfl rfl rfl).mono
      (fun _ _ hq => ⟨hq.1, hq.2.1⟩) fun _ _ _ => trivial

/-- **No loss, no duplication, no drift**: in every state of every run, a call that completes and whose callbacks do
not cancel fires what was due, and every timer has run for the first deadlines of its schedule, a one-shot timer at
most once. -/
theorem timers_fire (q : TimerQueue) (h : Run step (fun _ _ => True) .init q) :
    (∀ curr callbacks now, (∀ t, ∀ x ∈ callbacks t, x.cancels = false) →
      Ensures (handleTimingRead curr callbacks now) q (fun _ q' => ∃ evs, Fired q curr evs q') fun _ _ => True) ∧
    ∀ t when interval, .added t when interval ∈ q.trace →
      ∃ n, runsOf t q.trace = schedule when interval n ∧ (interval ≤ 0 → n ≤ 1) := by
  have kept : Inv [] q ∧ Recorded none q := h.invariant ⟨inv_init, recorded_init⟩ fun s op hs _ => step_recorded op hs.1 hs.2
  refine ⟨fun curr callbacks now hs => handleTimingRead_fires kept.1 curr callbacks hs now, fun t when interval ha => ?_⟩
  obtain ⟨_, n, hist⟩ := kept.2.history t when interval ha
  exact ⟨n, hist.runs, hist.oneShot⟩

/-- Three timers, of which two are due, one of them periodic and late; a callback adds a timer whose deadline has
passed. -/
theorem timers_fire_late :
    ∃ q q', Run step (fun _ _ => True) .init q ∧
      handleTimingRead 7000000 (fun t => if t.addr = 32 then [.addTimer 1000000 0 64 7000000] else []) 7000000 q = .ok () q' ∧
      runsOf ⟨16, 0⟩ q.trace = schedule 5000000 1000 1 ∧
      (∃ evs, Fired q 7000000 evs q') ∧ ∃ n, runsOf ⟨16, 0⟩ q.trace = schedule 5000000 1000 n := by
  obtain ⟨q, run, hadded, hran, hstep⟩ := Run.reaches step (fun _ _ => True) .init
    [.call (.addTimer 5000000 1000 16 0), .call (.addTimer 5500000 0 32 0), .call (.addTimer 9000000 0 48 0), .call .expire,
      .handleTimingRead 5200000 (fun _ => []) 5200000, .call .expire]
    (fun q => .added ⟨16, 0⟩ 5000000 1000 ∈ q.trace ∧ runsOf ⟨16, 0⟩ q.trace = schedule 5000000 1000 1 ∧
      Ensures (handleTimingRead 7000000 (fun t => if t.addr = 32 then [.addTimer 1000000 0 64 7000000] else []) 7000000) q
        (fun _ q' => q'.queued ⟨64, 3⟩ = true) fun _ _ => False) (by decide +kernel) (by decide +kernel)
  obtain ⟨_, q', he, _⟩ := hstep.returns
  obtain ⟨hfires, hschedule⟩ := timers_fire q run
  have fired := (ensures_ok he).1 (hfires 7000000
    (fun t => if t.addr = 32 then [.addTimer 1000000 0 64 7000000] else []) 7000000 fun t x hx => by
      split at hx
      · rw [List.mem_singleton.1 hx]; rfl
      · cases hx)
  obtain ⟨n, hn, _⟩ := hschedule _ _ _ hadded
  exact ⟨q, q', run, he, hran, fired, n, hn⟩

end NetServer.Timers
