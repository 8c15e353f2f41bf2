import NetServer.Timer.Cancel
import NetServer.Timer.Liveness
/-!
# No timer is overtaken

Within one `handleTimingRead` the callbacks run in the order of the deadlines, as `std::set` has it. Between two calls
timers are added and cancelled, with deadlines that may have passed, and periodic timers come back with later ones.
`Unpassed` is what an entry keeps through all of it: while it waits, nothing that is ahead of it in the batch is due later,
so that a timer with a later deadline runs after it only (`no_overtaking`).
-/

namespace NetServer.Timers
open Exec

/-- What runs for a later deadline than the entry's does so after its wait has ended. -/
def InOrder (a : Entry) (evs : List TimerEvent) : Prop :=
  ∀ l t w r, evs = l ++ .run t w :: r → a.time < w → Ended a l

/-- Since the trace was `base`, nothing has passed the entry, and it is ahead of all in the batch that is due later. -/
def Unpassed (base : List TimerEvent) (a : Entry) (batch : List Entry) (running : Bool) (q : TimerQueue) : Prop :=
  ∃ evs, q.trace = base ++ evs ∧ InOrder a evs ∧
    (Ended a evs ∨ ∀ l x r, batch.drop (if running then 1 else 0) = l ++ x :: r → a.time < x.time → a ∈ l)

theorem Ended.before {a : Entry} {l : List TimerEvent} (h : Ended a l) (l' : List TimerEvent) : Ended a (l ++ l') :=
  h.imp (fun h => by rw [runs_append]; exact List.mem_append_left _ h) (List.mem_append_left _)

theorem InOrder.told {a : Entry} {evs : List TimerEvent} (h : InOrder a evs) (ev : TimerEvent)
    (hev : ∀ t w, ev = .run t w → a.time < w → Ended a evs) : InOrder a (evs ++ [ev]) := by
  intro l t w r heq hw
  obtain rfl | ⟨r', z, rfl⟩ := r.eq_nil_or_concat
  · -- the event is the last one
    obtain ⟨rfl, hlast⟩ := List.append_inj' heq rfl
    exact hev t w (List.singleton_inj.1 hlast) hw
  · rw [List.concat_eq_append, ← List.cons_append, ← List.append_assoc] at heq
    exact h l t w r' (List.append_inj' heq rfl).1 hw

namespace Unpassed

variable {base : List TimerEvent} {a : Entry} {batch : List Entry} {running : Bool} {q : TimerQueue}

/-- One more event, which starts no callback, while the batch stays. -/
theorem told (h : Unpassed base a batch running q) {q' : TimerQueue} {batch' : List Entry} {running' : Bool}
    (ev : TimerEvent) (htr : q'.trace = q.trace ++ [ev]) (hev : ev.ran = none)
    (hbatch : batch'.drop (if running' then 1 else 0) = batch.drop (if running then 1 else 0)) :
    Unpassed base a batch' running' q' := by
  obtain ⟨evs, hevs, horder, h⟩ := h
  refine ⟨evs ++ [ev], by rw [htr, hevs, List.append_assoc], horder.told ev fun t w he => ?_, ?_⟩
  · rw [he] at hev
    cases hev
  · rw [hbatch]
    exact h.imp (fun h => h.before _) id

theorem effect (h : Unpassed base a batch running q) {cancels : Bool} {q' : TimerQueue} (he : Effect q cancels q') :
    Unpassed base a batch running q' := by
  cases he with
  | @added t when interval => exact h.told (.added t when interval) rfl rfl rfl
  | expired => exact h
  | @canceled t =>
    have deleted : Unpassed base a batch running { q with trace := q.trace ++ [.deleted t] } := h.told (.deleted t) rfl rfl rfl
    exact deleted.told (.canceled t (q.queued t)) rfl rfl rfl

/-- The first timer of the batch runs. -/
theorem ran {e : Entry} (h : Unpassed base a (e :: batch) false q) :
    Unpassed base a (e :: batch) true { q with trace := q.trace ++ [.run e.timer e.time] } := by
  obtain ⟨evs, hevs, horder, h⟩ := h
  refine ⟨evs ++ [.run e.timer e.time], by rw [hevs, List.append_assoc], horder.told _ ?_, ?_⟩
  · rintro _ _ ⟨⟩ hw
    -- it is due later than `a`, and nothing is ahead of it
    exact h.resolve_right fun h => absurd (h [] e batch rfl hw) (by simp)
  · obtain h | h := h
    · exact .inl (h.before _)
    by_cases hae : a = e
    · subst hae
      exact .inl (.inl (by simp [runs, TimerEvent.ran]))
    · refine .inr fun l x r hl hx => ?_
      have hin := h (e :: l) x r (congrArg (e :: ·) hl) hx
      exact (List.mem_cons.1 hin).resolve_left hae

end Unpassed

theorem carried_unpassed (base : List TimerEvent) (a : Entry) (curr : Int) : Carried curr true (Unpassed base a) where
  fd _ h := h
  effect _ h he _ := h.effect he
  run {e batch q timer} hi h ht _ := by
    rw [hi.pending e (List.mem_cons_self ..) timer ht]
    exact h.ran
  rearm _ h _ _ := h
  finish {e batch q timer} _ h _ _ := h.told (.deleted e.timer) rfl rfl rfl

/-- The entries that are due move into the batch in the order of their keys. -/
theorem unpassed_due {base : List TimerEvent} {a : Entry} {q : TimerQueue} (h : Unpassed base a [] false q)
    (hw : Waiting base a True [] false q) (cut : Int ×ₗ Nat) :
    Unpassed base a (q.timerList.below cut) false { q with timerList := q.timerList.above cut } := by
  obtain ⟨evs, hevs, horder, -⟩ := h
  obtain ⟨evs', hevs', hw⟩ := hw
  obtain rfl : evs' = evs := List.append_cancel_left (hevs'.symm.trans hevs)
  refine ⟨evs', hevs, horder, ?_⟩
  obtain h | ⟨-, hin⟩ | h := hw
  · exact .inl h
  · refine .inr fun l x r hl hx => ?_
    rw [if_neg Bool.false_ne_true, List.drop_zero, OrdSet.below_eq] at hl
    have sorted := q.timerList.ordered.filter (decide <| ·.key < cut)
    have hmem : ∀ y, y ∈ l ++ x :: r ↔ y ∈ q.timerList.elems ∧ y.key < cut := fun y => by
      rw [← hl, List.mem_filter, decide_eq_true_iff]
    have hkey : a.key < x.key := by
      rw [Entry.key, Entry.key, Prod.Lex.toLex_lt_toLex]
      exact .inl hx
    have halso := (hmem a).2 ⟨hin, lt_trans hkey ((hmem x).1 (by simp)).2⟩
    rw [hl, List.pairwise_append] at sorted
    obtain hal | har := List.mem_append.1 halso
    · exact hal
    · obtain rfl | har := List.mem_cons.1 har
      · exact absurd hkey (lt_irrefl _)
      · exact absurd ((List.pairwise_cons.1 sorted.2.1).1 a har) (not_lt.2 (le_of_lt hkey))
  · exact absurd h (by simp)

/-- **One step.** -/
theorem step_unpassed (op : Op) {base : List TimerEvent} {a : Entry} {q : TimerQueue} (hi : Inv [] q)
    (hw : Waiting base a True [] false q) (h : Unpassed base a [] false q) :
    Ensures (step op) q (fun _ q' => Inv [] q' ∧ Waiting base a True [] false q' ∧ Unpassed base a [] false q')
      fun _ _ => True := by
  cases op with
  | call x =>
    exact (x.run_spec q).mono (fun _ _ he => ⟨hi.effect he, hw.effect hi he, h.effect he⟩) fun _ _ _ => trivial
  | handleTimingRead curr callbacks now =>
    refine (((carried_unpassed base a curr).handleTimingRead callbacks (fun _ _ _ _ => rfl) now
      (fun q => Waiting base a True [] false q ∧ Unpassed base a [] false q) hi ⟨hw, h⟩
      fun q hi hq => unpassed_due hq.2 hq.1 _).and (handleTimingRead_waiting hi hw curr callbacks now)).mono ?_ fun _ _ _ => trivial
    rintro _ q' ⟨⟨hi', h', -⟩, hw'⟩
    exact ⟨hi', hw'.keep fun _ _ => trivial, h'⟩

/-- **No timer is overtaken**: in every run, let an entry be queued between two calls on the timers, while no batch is being
processed. Whatever is added, cancelled and run from there on, also by callbacks, no callback starts for a later deadline before
the timer was run for its own, or cancelled while it was queued. -/
theorem no_overtaking (q₀ q : TimerQueue) (h₀ : Run step (fun _ _ => True) .init q₀) (a : Entry)
    (ha : a ∈ q₀.timerList.elems) (h : Run step (fun _ _ => True) q₀ q) :
    ∃ evs, q.trace = q₀.trace ++ evs ∧
      ∀ l t w r, evs = l ++ .run t w :: r → a.time < w → (a.timer, a.time) ∈ runs l ∨ .canceled a.timer true ∈ l := by
  have waits : Waiting q₀.trace a True [] false q₀ := ⟨[], (List.append_nil _).symm, .inr (.inl ⟨trivial, ha⟩)⟩
  have first : Unpassed q₀.trace a [] false q₀ := by
    refine ⟨[], (List.append_nil _).symm, fun l t w r hl => ?_, .inr fun l x r hl => ?_⟩
    · exact absurd hl.symm (by simp)
    · exact absurd hl.symm (by simp)
  obtain ⟨-, -, evs, hevs, horder, -⟩ := h.invariant
    (I := fun q => Inv [] q ∧ Waiting q₀.trace a True [] false q ∧ Unpassed q₀.trace a [] false q)
    ⟨(run_settled h₀).1, waits, first⟩ fun s op hs _ => step_unpassed op hs.1 hs.2.1 hs.2.2
  exact ⟨evs, hevs, horder⟩

/-- The loop wakes up early; then a timer is added behind the first one and another that is overdue. -/
theorem no_overtaking_overdue :
    ∃ (q₀ q : TimerQueue) (l r : List TimerEvent), Run step (fun _ _ => True) .init q₀ ∧ Run step (fun _ _ => True) q₀ q ∧
      q.trace = q₀.trace ++ (l ++ .run ⟨32, 1⟩ 7000000 :: r) ∧
      ((⟨16, 0⟩, 5000000) ∈ runs l ∨ .canceled ⟨16, 0⟩ true ∈ l) := by
  let ops : List Op := [.call (.runAt 7000000 32 4000000), .call (.runAt 2000000 48 4000000), .call .expire,
    .handleTimingRead 9000000 (fun _ => []) 9000000]
  obtain ⟨q₀, run, hin, hfresh, hmeets, hsteps⟩ := Run.reaches step (fun _ _ => True) .init
    [.call (.runAt 5000000 16 0), .call .expire, .handleTimingRead 4000000 (fun _ => []) 4000000]
    (fun q₀ => ⟨5000000, ⟨16, 0⟩⟩ ∈ q₀.timerList.elems ∧ .run ⟨32, 1⟩ 7000000 ∉ q₀.trace ∧ Meets step (fun _ _ => True) ops q₀ ∧
      Ensures (steps step ops) q₀ (fun _ q => .run ⟨32, 1⟩ 7000000 ∈ q.trace) fun _ _ => False)
    (by decide +kernel) (by decide +kernel)
  obtain ⟨_, q, he, hran⟩ := hsteps.returns
  have later := Run.start.steps hmeets he
  obtain ⟨evs, hevs, horder⟩ := no_overtaking q₀ q run _ hin later
  rw [hevs] at hran
  obtain ⟨l, r, rfl⟩ := List.append_of_mem ((List.mem_append.1 hran).resolve_left hfresh)
  exact ⟨q₀, q, l, r, run, later, hevs, horder l _ _ r rfl (by decide)⟩

end NetServer.Timers
