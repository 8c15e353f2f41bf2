import NetServer.Thread.Model
/-!
# The start handshake

`run` tests `started_` and goes to sleep under the lock, `start` sets `started_` and notifies under it: a worker that is
asleep and not notified has seen `started_` before `start` set it, so that `notify_one` is still to come.
-/

namespace NetServer
open Exec

/-- The owner has locked `mutex_`. -/
def Owner.holds : Owner → Bool
  | .set | .notify | .unlock => true
  | _ => false

/-- The owner is in `start`. -/
def Owner.starts : Owner → Bool
  | .lock | .set | .notify | .unlock => true
  | _ => false

def Worker.holds : Worker → Bool
  | .test | .wait | .unlock => true
  | _ => false

/-- The worker has left the loop. -/
def Worker.passed : Worker → Bool
  | .unlock | .check | .call | .calling | .done => true
  | _ => false

namespace Thread

variable {F : Type} {func : Option F} {a : Act} {s t : Thread F}

/-- After the constructor. -/
def constructed (func : Option F) : Thread F :=
  { unbuilt with threadFunc := func, joinable := true, live := fun _ => true, owner := .idle, worker := .begin }

@[simp] theorem ensures_use {m : Member} {Q : Unit → Thread F → Prop} {E : Fault → Thread F → Prop} :
    Ensures (use m) s Q E ↔ (s.live m = true → Q () s) ∧ (s.live m = false → E (.notAlive m) s) := by
  simp [use]

@[simp] theorem ensures_assert {c : Bool} {Q : Unit → Thread F → Prop} {E : Fault → Thread F → Prop} :
    Ensures (assert c) s Q E ↔ (c = true → Q () s) ∧ (c = false → E .assertFailed s) := by
  simp [assert]

/-! ## What a step can do -/

inductive Move : Act → Thread F → Thread F → Prop where
  | initialises {s t : Thread F} {m : Member} {ms : List Member} (pc : s.owner = .initialising (m :: ms)) : Move .owner s t
  | constructs {s : Thread F} (pc : s.owner = .initialising []) : Move .owner s { s with owner := .idle }
  | starts {s : Thread F} (pc : s.owner = .idle) (first : s.started = false) : Move .start s { s with owner := .lock }
  | ownerLocks {s : Thread F} (pc : s.owner = .lock) (free : s.holder = none) :
    Move .owner s { s with holder := some .owner, owner := .set }
  | sets {s : Thread F} (pc : s.owner = .set) : Move .owner s { s with started := true, owner := .notify }
  | notifies {s : Thread F} {signalled : Bool} (pc : s.owner = .notify) (asleep : s.worker = .blocked signalled) :
    Move .owner s { s with worker := .blocked true, owner := .unlock }
  | notifiesNoOne {s : Thread F} (pc : s.owner = .notify) (awake : ∀ signalled, s.worker ≠ .blocked signalled) :
    Move .owner s { s with owner := .unlock }
  | startReturns {s : Thread F} (pc : s.owner = .unlock) :
    Move .owner s { s with holder := none, startReturned := true, owner := .idle }
  | joins {s : Thread F} (pc : s.owner = .idle) (after : s.started = true) (once : s.joined = false) :
    Move .join s { s with joined := true, owner := .joining }
  | joinReturns {s : Thread F} (pc : s.owner = .joining) (ended : s.worker = .done) :
    Move .owner s { s with joinable := false, joinReturned := true, owner := .idle }
  | detaches {s : Thread F} (pc : s.owner = .idle) (after : s.started = true) (unjoined : s.joined = false) :
    Move .destroy s { s with joinable := false, owner := .destroying Member.declared.reverse }
  | keeps {s : Thread F} (pc : s.owner = .idle) (settled : s.started = true → s.joined = true) :
    Move .destroy s { s with owner := .destroying Member.declared.reverse }
  | destructs {s : Thread F} {m : Member} {ms : List Member} (pc : s.owner = .destroying (m :: ms)) :
    Move .owner s { s with live := Function.update s.live m false, owner := .destroying ms }
  | workerLocks {s : Thread F} (pc : s.worker = .begin ∨ s.worker = .woken) (free : s.holder = none) :
    Move .worker s { s with holder := some .worker, worker := .test }
  | passes {s : Thread F} (pc : s.worker = .test) (told : s.started = true) : Move .worker s { s with worker := .unlock }
  | waits {s : Thread F} (pc : s.worker = .test) (early : s.started = false) : Move .worker s { s with worker := .wait }
  | sleeps {s : Thread F} (pc : s.worker = .wait) : Move .worker s { s with holder := none, worker := .blocked false }
  | wakes {a : Act} {s : Thread F} {signalled : Bool} (turn : a = .worker ∨ a = .wake) (pc : s.worker = .blocked signalled) :
    Move a s { s with worker := .woken }
  | workerUnlocks {s : Thread F} (pc : s.worker = .unlock) : Move .worker s { s with holder := none, worker := .check }
  | finds {s : Thread F} (pc : s.worker = .check) (some : s.threadFunc.isSome = true) : Move .worker s { s with worker := .call }
  | skips {s : Thread F} (pc : s.worker = .check) (none : s.threadFunc = none) : Move .worker s { s with worker := .done }
  | calls {s : Thread F} {f : F} (pc : s.worker = .call) (func : s.threadFunc = some f) :
    Move .worker s { s with calls := s.calls ++ [f], worker := .calling }
  | returns {s : Thread F} (pc : s.worker = .calling) :
    Move .worker s { s with completed := s.completed ++ s.threadFunc.toList, worker := .done }

theorem run_moves (s : Thread F) : Ensures run s (fun _ t => Move .worker s t) fun _ _ => True := by
  simp only [run, ensures_bind, ensures_get]
  cases hw : s.worker with
  | absent | done => trivial
  | begin =>
    simp only [acquire, workerAt, ensures_bind, ensures_use, ensures_get, ensures_ite, ensures_modify, ensures_throw]
    exact ⟨fun _ => ⟨fun free => .workerLocks (.inl hw) free, fun _ => trivial⟩, fun _ => trivial⟩
  | woken =>
    simp only [acquire, workerAt, ensures_bind, ensures_use, ensures_get, ensures_ite, ensures_modify, ensures_throw]
    exact ⟨fun _ => ⟨fun free => .workerLocks (.inr hw) free, fun _ => trivial⟩, fun _ => trivial⟩
  | test =>
    simp only [workerAt, ensures_bind, ensures_use, ensures_get, ensures_ite, ensures_modify]
    exact ⟨fun _ => ⟨.passes hw, fun early => .waits hw (by simpa using early)⟩, fun _ => trivial⟩
  | wait =>
    simp only [release, workerAt, ensures_bind, ensures_use, ensures_modify]
    exact ⟨fun _ => ⟨fun _ => .sleeps hw, fun _ => trivial⟩, fun _ => trivial⟩
  | blocked signalled =>
    simp only [workerAt, ensures_bind, ensures_use, ensures_ite, ensures_modify, ensures_throw]
    exact ⟨fun _ => ⟨fun _ => .wakes (.inl rfl) hw, fun _ => trivial⟩, fun _ => trivial⟩
  | unlock =>
    simp only [release, workerAt, ensures_bind, ensures_use, ensures_modify]
    exact ⟨fun _ => .workerUnlocks hw, fun _ => trivial⟩
  | check =>
    simp only [workerAt, ensures_bind, ensures_use, ensures_get, ensures_ite, ensures_modify]
    exact ⟨fun _ => ⟨.finds hw, fun none => .skips hw (by simpa using none)⟩, fun _ => trivial⟩
  | call =>
    simp only [ensures_bind, ensures_use, ensures_get]
    refine ⟨fun _ => ?_, fun _ => trivial⟩
    cases hf : s.threadFunc with
    | none => trivial
    | some f => exact .calls hw hf
  | calling =>
    simp only [workerAt, ensures_bind, ensures_use, ensures_modify]
    exact ⟨fun _ => .returns hw, fun _ => trivial⟩

theorem proceed_moves (func : Option F) (s : Thread F) :
    Ensures (proceed func) s (fun _ t => Move .owner s t) fun _ _ => True := by
  simp only [proceed, ensures_bind, ensures_get]
  cases ho : s.owner with
  | idle => trivial
  | initialising ms =>
    cases ms with
    | nil => exact .constructs ho
    | cons m ms =>
      unfold Ensures
      split
      · exact .initialises ho
      · trivial
  | lock =>
    simp only [acquire, ownerAt, ensures_bind, ensures_use, ensures_get, ensures_ite, ensures_modify, ensures_throw]
    exact ⟨fun _ => ⟨.ownerLocks ho, fun _ => trivial⟩, fun _ => trivial⟩
  | set =>
    simp only [ownerAt, ensures_bind, ensures_use, ensures_modify]
    exact ⟨fun _ => .sets ho, fun _ => trivial⟩
  | notify =>
    simp only [notifyOne, ownerAt, ensures_bind, ensures_use, ensures_get, ensures_modify]
    refine ⟨fun _ => ?_, fun _ => trivial⟩
    cases hw : s.worker with
    | blocked signalled => exact .notifies ho hw
    | _ => exact .notifiesNoOne ho (by simp [hw])
  | unlock =>
    simp only [release, ownerAt, ensures_bind, ensures_use, ensures_modify]
    exact ⟨fun _ => .startReturns ho, fun _ => trivial⟩
  | joining =>
    simp only [ownerAt, ensures_bind, ensures_use, ensures_get, ensures_ite, ensures_modify, ensures_throw]
    exact ⟨fun _ => ⟨fun _ => trivial, fun _ => ⟨fun _ => trivial, fun ended => .joinReturns ho (of_not_not ended)⟩⟩,
      fun _ => trivial⟩
  | destroying ms =>
    cases ms with
    | nil => trivial
    | cons m ms =>
      simp only [destruct, ownerAt, ensures_bind, ensures_get, ensures_ite, ensures_modify, ensures_throw]
      exact ⟨fun _ => trivial, fun _ => ⟨fun _ => trivial, fun _ => .destructs ho⟩⟩

theorem step_moves (func : Option F) (a : Act) (s : Thread F) :
    Ensures (step func a) s (fun _ t => Move a s t) fun _ _ => True := by
  cases a with
  | owner => exact proceed_moves func s
  | worker => exact run_moves s
  | wake =>
    simp only [step, wake, ensures_bind, ensures_get]
    cases hw : s.worker with
    | blocked signalled =>
      simp only [workerAt, ensures_bind, ensures_use, ensures_modify]
      exact ⟨fun _ => .wakes (.inr rfl) hw, fun _ => trivial⟩
    | _ => trivial
  | start =>
    simp only [step, start, ownerAt, ensures_bind, ensures_get, ensures_ite, ensures_use, ensures_assert, ensures_modify,
      ensures_throw]
    refine ⟨fun _ => trivial, fun idle => ⟨fun _ => ⟨fun first => ?_, fun _ => trivial⟩, fun _ => trivial⟩⟩
    exact .starts (of_not_not idle) (by simpa using first)
  | join =>
    simp only [step, join, ownerAt, ensures_bind, ensures_get, ensures_ite, ensures_use, ensures_assert, ensures_modify,
      ensures_throw]
    refine ⟨fun _ => trivial, fun idle => ⟨fun _ => ⟨fun _ => ⟨fun allowed => ?_, fun _ => trivial⟩, fun _ => trivial⟩, fun _ => trivial⟩⟩
    obtain ⟨after, once⟩ : s.started = true ∧ s.joined = false := by simpa using allowed
    exact .joins (of_not_not idle) after once
  | destroy =>
    simp only [step, destroy, detach, ownerAt, ensures_bind, ensures_get, ensures_ite, ensures_use, ensures_modify,
      ensures_throw]
    refine ⟨fun _ => trivial, fun idle => ⟨fun _ => ⟨fun _ => ⟨?_, ?_⟩, fun _ => trivial⟩, fun _ => trivial⟩⟩
    · rintro ⟨after, unjoined⟩
      exact ⟨fun _ => ⟨fun _ => .detaches (of_not_not idle) after unjoined, fun _ => trivial⟩, fun _ => trivial⟩
    · intro settled
      exact .keeps (of_not_not idle) (by simpa using settled)

/-! ## What holds from then on -/

/-- Who holds the lock is where the lock is held. -/
structure Locked (s : Thread F) : Prop where
  owner : s.holder = some .owner ↔ s.owner.holds = true
  worker : s.holder = some .worker ↔ s.worker.holds = true

/-- The worker leaves the loop after `started_` is set, and does not sleep through it. -/
structure Told (s : Thread F) : Prop where
  built : ∀ m ms, s.owner ≠ .initialising (m :: ms)
  start : s.startReturned = true → s.started = true ∧ s.owner.starts = false
  set : s.owner = .notify ∨ s.owner = .unlock → s.started = true
  passed : s.worker.passed = true → s.started = true
  /-- No one sets `started_` between the worker's test and its sleep. -/
  wait : s.worker = .wait → s.started = false
  asleep : s.worker = .blocked false → s.started = false ∨ s.owner = .notify

/-- The worker calls what it was given, once. -/
structure Ran (func : Option F) (s : Thread F) : Prop where
  made : s.threadFunc = func
  callable : s.worker = .call ∨ s.worker = .calling → func.isSome = true
  calls : s.calls = if s.worker = .calling ∨ s.worker = .done then func.toList else []
  completed : s.completed = if s.worker = .done then func.toList else []
  join : s.joinReturned = true → s.worker = .done

structure Handshake (func : Option F) (s : Thread F) : Prop where
  locked : Locked s
  told : Told s
  ran : Ran func s

theorem Locked.free (h : Locked s) (ho : s.owner.holds = false) (hw : s.worker.holds = false) : s.holder = none := by
  cases hs : s.holder with
  | none => rfl
  | some p =>
    cases p with
    | owner => simp [h.owner.1 hs] at ho
    | worker => simp [h.worker.1 hs] at hw

theorem handshake_constructed (func : Option F) : Handshake func (constructed func) := by
  refine ⟨?_, ?_, ?_⟩
  · constructor <;> simp [constructed, unbuilt, Owner.holds, Worker.holds]
  · constructor <;> simp [constructed, unbuilt, Worker.passed]
  · constructor <;> simp [constructed, unbuilt]

theorem Move.locked (hm : Move a s t) (hb : ∀ m ms, s.owner ≠ .initialising (m :: ms)) (h : Locked s) : Locked t := by
  obtain ⟨ho, hw⟩ := h
  cases hm with
  | initialises pc => exact absurd pc (hb _ _)
  | _ => constructor <;> simp_all [Owner.holds, Worker.holds]

theorem Move.told (hm : Move a s t) (hl : Locked s) (h : Told s) : Told t := by
  obtain ⟨hb, hs, hset, hp, hw, ha⟩ := h
  cases hm with
  | initialises pc => exact absurd pc (hb _ _)
  | sets pc =>
    -- the owner has the lock, so that the worker is not between its test and its sleep
    have locked : s.holder = some .owner := hl.owner.2 (by rw [pc]; rfl)
    have nowait : s.worker ≠ .wait := by
      intro pcw
      have := hl.worker.2 (by rw [pcw]; rfl)
      simp [locked] at this
    constructor <;> simp_all [Owner.starts]
  | _ => constructor <;> simp_all [Owner.starts, Worker.passed]

theorem Move.ran (hm : Move a s t) (hb : ∀ m ms, s.owner ≠ .initialising (m :: ms)) (h : Ran func s) : Ran func t := by
  obtain ⟨hf, hc, hcalls, hdone, hj⟩ := h
  cases hm with
  | initialises pc => exact absurd pc (hb _ _)
  | workerLocks pc free =>
    rcases pc with pc | pc
    · constructor <;> simp_all
    · constructor <;> simp_all
  | calls pc found =>
    have given : func = some _ := hf.symm.trans found
    constructor <;> simp_all
  | _ => constructor <;> simp_all

theorem Move.handshake (hm : Move a s t) (h : Handshake func s) : Handshake func t :=
  ⟨hm.locked h.told.built h.locked, hm.told h.locked h.told, hm.ran h.told.built h.ran⟩

theorem step_handshake (h : Handshake func s) (a : Act) :
    Ensures (step func a) s (fun _ t => Handshake func t) fun _ _ => True :=
  (step_moves func a s).mono (fun _ _ hm => hm.handshake h) fun _ _ _ => trivial

/-- **The start handshake**: whatever the order of the steps, the worker calls `threadFunc_` at most once and only after
`start` has set `started_`, it does not sleep unnotified once `start` has returned, and what `join` waits for is one call
that has returned. -/
theorem start_handshake (func : Option F) (s : Thread F) (h : Run (step func) (fun _ _ => True) (constructed func) s) :
    (s.calls.length ≤ 1 ∧ (s.calls ≠ [] → s.started = true)) ∧
    ¬ (s.startReturned = true ∧ s.worker = .blocked false) ∧
    (s.joinReturned = true → s.calls = func.toList ∧ s.completed = func.toList) := by
  have inv := h.invariant (handshake_constructed func) fun _ a hs _ => step_handshake hs a
  refine ⟨⟨?_, ?_⟩, ?_, ?_⟩
  · rw [inv.ran.calls]
    split
    · cases func <;> simp
    · simp
  · intro called
    apply inv.told.passed
    rw [inv.ran.calls] at called
    split at called
    · rename_i past
      rcases past with past | past <;> rw [past] <;> rfl
    · exact absurd rfl called
  · rintro ⟨returned, asleep⟩
    obtain ⟨started, out⟩ := inv.told.start returned
    obtain early | notify := inv.told.asleep asleep
    · rw [started] at early
      cases early
    · rw [notify] at out
      cases out
  · intro joined
    have ended := inv.ran.join joined
    rw [inv.ran.calls, inv.ran.completed, ended]
    exact ⟨if_pos (.inr rfl), if_pos rfl⟩

/-- The worker sleeps, wakes up for nothing, sleeps again and is notified. -/
theorem start_handshake_spurious :
    ∃ s : Thread Nat, Run (step (some 7)) (fun _ _ => True) (constructed (some 7)) s ∧ s.joinReturned = true ∧ s.calls = [7] ∧
      s.completed = [7] := by
  obtain ⟨s, run, joined⟩ := Run.reaches (step (some 7)) (fun _ _ => True) (constructed (some 7))
    [.worker, .worker, .worker, .wake, .worker, .worker, .worker, .start, .owner, .owner, .owner, .owner, .worker, .worker,
      .join, .worker, .worker, .worker, .worker, .worker, .owner]
    (fun s => s.joinReturned = true) (by decide) (by decide)
  obtain ⟨-, -, once⟩ := start_handshake (some 7) s run
  exact ⟨s, run, joined, once joined⟩

end Thread

end NetServer
