import NetServer.Thread.Handshake
/-!
# The members of `Thread` and the thread that uses them

`thread_` is declared before `cv_` and `mutex_`, so the worker is in `run` before they are initialised; and a destructor
that finds the worker still in `run` detaches it, or, if `start` was never called, destroys a joinable `std::thread`.
Nothing goes wrong as long as the worker's steps come after the constructor and the destructor comes after `run`
(`members_outlive_use`).
-/

namespace NetServer
open Exec

/-- The constructor has members to initialise. -/
def Owner.builds : Owner → Bool
  | .initialising (_ :: _) => true
  | _ => false

def Owner.destroys : Owner → Bool
  | .destroying _ => true
  | _ => false

namespace Thread

variable {F : Type} {func : Option F} {a : Act} {s t : Thread F}

/-- A member is used outside its life or destroyed in use, or `std::terminate` is called. -/
def Fault.Breaks : Fault → Prop
  | .notAlive _ | .inUse _ | .terminate => True
  | _ => False

/-- The worker's steps come after the constructor, and the destructor after `run`. -/
def Careful (s : Thread F) : Act → Prop
  | .worker | .wake => s.owner.builds = false
  | .destroy => s.worker = .done
  | _ => True

instance decidableCareful (s : Thread F) : ∀ a, Decidable (Careful s a)
  | .worker | .wake => inferInstanceAs (Decidable (s.owner.builds = false))
  | .destroy => inferInstanceAs (Decidable (s.worker = .done))
  | .start | .join | .owner => .isTrue trivial

/-! ## The constructor -/

/-- The constructor before it initialises `ms`, if the worker makes no step. -/
def building (func : Option F) (ms : List Member) : Thread F :=
  { unbuilt with
    threadFunc := if .threadFunc ∈ ms then none else func
    joinable := decide (.thread ∉ ms)
    live := fun m => decide (m ∉ ms)
    owner := .initialising ms
    worker := if .thread ∈ ms then .absent else .begin }

theorem building_declared (func : Option F) : building func Member.declared = unbuilt := by
  simp [building, unbuilt, Member.declared]
  funext m
  cases m <;> rfl

/-- `pthreadId_` is initialised from `thread_`, which is declared before it. -/
theorem thread_before {ms : List Member} (h : .pthreadId :: ms <:+ Member.declared) : .thread ∉ ms := by
  have order : ∀ l ∈ Member.declared.tails, l.head? = some .pthreadId → .thread ∉ l := by decide
  have := order _ ((List.mem_tails _ _).2 h) rfl
  simpa using this

/-- The next member is initialised. -/
theorem building_next (func : Option F) {m : Member} {ms : List Member} (h : m :: ms <:+ Member.declared) :
    step func .owner (building func (m :: ms)) = .ok () (building func ms) := by
  have once : m ∉ ms := (List.nodup_cons.1 (h.sublist.nodup (by decide))).1
  have live : Function.update (building func (m :: ms)).live m true = (building func ms).live := by
    funext x
    by_cases hx : x = m
    · simp [hx, building, once]
    · simp [hx, building]
  have stepped : step func .owner (building func (m :: ms)) =
      (do initialise func m; ownerAt (.initialising ms)) (building func (m :: ms)) := rfl
  rw [stepped]
  cases m with
  | pthreadId => simpa [initialise, ownerAt, use, building, thread_before h, once] using live
  | _ => simpa [initialise, ownerAt, building, unbuilt, once] using live

/-- **The constructor**, where it is not disturbed, gets to where the start handshake begins. -/
theorem constructed_reached (func : Option F) : Run (step func) Careful unbuilt (constructed func) := by
  have rest : ∀ ms, ms <:+ Member.declared → Run (step func) Careful (building func ms) (constructed func) := by
    intro ms h
    induction ms with
    | nil =>
      have last : step func .owner (building func []) = .ok () (constructed func) := by
        simp [step, proceed, ownerAt, building, constructed, unbuilt]
      exact Run.start.step (a := .owner) trivial last
    | cons m ms ih =>
      have first : Run (step func) Careful (building func (m :: ms)) (building func ms) :=
        Run.start.step (a := .owner) trivial (building_next func h)
      exact first.trans (ih ((List.suffix_cons m ms).trans h))
  rw [← building_declared func]
  exact rest _ (List.suffix_refl _)

theorem run_absent (h : s.worker = .absent) : run s = .error .disabled s := by
  simp [run, h]

theorem run_begin (h : s.worker = .begin) (dead : s.live .mutex = false) : run s = .error (.notAlive .mutex) s := by
  simp [run, acquire, use, h, dead]

/-- A worker that steps before the constructor is over uses `mutex_` too early. -/
theorem building_worker (func : Option F) {m : Member} {ms : List Member} (h : m :: ms <:+ Member.declared) :
    run (building func (m :: ms)) = .error .disabled (building func (m :: ms)) ∨
    run (building func (m :: ms)) = .error (.notAlive .mutex) (building func (m :: ms)) := by
  have last : ∀ l ∈ Member.declared.tails, l ≠ [] → .mutex ∈ l := by decide
  have unmade := last _ ((List.mem_tails _ _).2 h) (by simp)
  by_cases spawned : .thread ∈ m :: ms
  · exact .inl (run_absent (if_pos spawned))
  · exact .inr (run_begin (if_neg spawned) (decide_eq_false (not_not.2 unmade)))

/-! ## After it -/

/-- What holds of the members and of `thread_` then. -/
structure Alive (s : Thread F) : Prop where
  spawned : s.worker ≠ .absent
  live : s.owner.destroys = false → ∀ m, s.live m = true
  joinable : s.owner.destroys = false → s.joinable = (!s.joined || decide (s.owner = .joining))
  joining : s.owner = .joining → s.joined = true
  waited : s.joined = true → s.owner = .joining ∨ s.worker = .done
  ended : s.owner.destroys = true → s.worker = .done ∧ s.joinable = false

theorem Move.alive (hm : Move a s t) (ha : Careful s a) (h : Handshake func s) (hl : Alive s) : Alive t := by
  obtain ⟨h1, h2, h3, h4, h5, h6⟩ := hl
  cases hm with
  | initialises pc => exact absurd pc (h.told.built _ _)
  | detaches pc after unjoined => constructor <;> simp_all [Owner.destroys, Careful]
  | keeps pc settled =>
    have ended : s.worker = .done := ha
    have joined : s.joined = true := settled (h.told.passed (by rw [ended]; rfl))
    constructor <;> simp_all [Owner.destroys]
  | workerLocks pc free =>
    rcases pc with pc | pc
    · constructor <;> simp_all [Owner.destroys]
    · constructor <;> simp_all [Owner.destroys]
  | _ => constructor <;> simp_all [Owner.destroys]

theorem run_safe (h : Handshake func s) (live : ∀ m, s.live m = true) :
    Ensures run s (fun _ _ => True) fun e _ => ¬ e.Breaks := by
  simp only [run, ensures_bind, ensures_get]
  cases hw : s.worker with
  | call =>
    have given := h.ran.callable (.inl hw)
    rw [← h.ran.made] at given
    obtain ⟨f, hf⟩ := Option.isSome_iff_exists.1 given
    simp [workerAt, live, hf]
  | _ => simp [workerAt, acquire, release, live, Fault.Breaks]

theorem proceed_safe (h : Handshake func s) (live : ∀ m, s.live m = true) (hd : s.owner.destroys = false) :
    Ensures (proceed func) s (fun _ _ => True) fun e _ => ¬ e.Breaks := by
  simp only [proceed, ensures_bind, ensures_get]
  cases ho : s.owner with
  | initialising ms =>
    cases ms with
    | nil => trivial
    | cons m ms => exact absurd ho (h.told.built _ _)
  | notify =>
    simp only [notifyOne, ownerAt, ensures_bind, ensures_use, ensures_get, ensures_modify, live]
    refine ⟨fun _ => ?_, fun hdead => by cases hdead⟩
    cases s.worker <;> trivial
  | destroying ms => simp [ho, Owner.destroys] at hd
  | _ => simp [ownerAt, acquire, release, live, Fault.Breaks]

/-- Once `run` has returned and `thread_` is not joinable, there is only the owner, who destroys the members. -/
theorem destroying_safe {ms : List Member} (ho : s.owner = .destroying ms) (ended : s.worker = .done)
    (detached : s.joinable = false) (free : s.holder = none) : Ensures (step func a) s (fun _ _ => True) fun e _ => ¬ e.Breaks := by
  cases a with
  | owner =>
    simp only [step, proceed, ensures_bind, ensures_get, ho]
    cases ms with
    | nil => simp [Fault.Breaks]
    | cons m ms => simp [destruct, ownerAt, detached, free, ended]
  | _ => simp [step, start, join, destroy, run, wake, ho, ended, Fault.Breaks]

/-- **One step** after the constructor uses no member outside its life. -/
theorem step_safe (h : Handshake func s) (hl : Alive s) (a : Act) :
    Ensures (step func a) s (fun _ _ => True) fun e _ => ¬ e.Breaks := by
  by_cases hd : s.owner.destroys = true
  · obtain ⟨ended, detached⟩ := hl.ended hd
    cases ho : s.owner with
    | destroying ms =>
      have free : s.holder = none := h.locked.free (by rw [ho]; rfl) (by rw [ended]; rfl)
      exact destroying_safe ho ended detached free
    | _ => simp [ho, Owner.destroys] at hd
  · have hd : s.owner.destroys = false := by simpa using hd
    have live := hl.live hd
    cases a with
    | start => simp [step, start, ownerAt, live, Fault.Breaks]
    | join => simp [step, join, ownerAt, live, Fault.Breaks]
    | destroy => simp [step, destroy, detach, ownerAt, live, Fault.Breaks]
    | owner => exact proceed_safe h live hd
    | worker => exact run_safe h live
    | wake =>
      simp only [step, wake, ensures_bind, ensures_get]
      cases s.worker <;> simp [workerAt, live, Fault.Breaks]

/-! ## Careful runs -/

/-- What a careful run reaches. -/
def Built (func : Option F) (s : Thread F) : Prop :=
  (∃ m ms, m :: ms <:+ Member.declared ∧ s = building func (m :: ms)) ∨ (Handshake func s ∧ Alive s)

theorem built_building (func : Option F) {ms : List Member} (h : ms <:+ Member.declared) : Built func (building func ms) := by
  cases ms with
  | cons m ms => exact .inl ⟨m, ms, h, rfl⟩
  | nil =>
    refine .inr ⟨⟨?_, ?_, ?_⟩, ?_⟩
    · constructor <;> simp [building, unbuilt, Owner.holds, Worker.holds]
    · constructor <;> simp [building, unbuilt, Worker.passed]
    · constructor <;> simp [building, unbuilt]
    · constructor <;> simp [building, unbuilt, Owner.destroys]

theorem step_built (h : Built func s) (ha : Careful s a) :
    Ensures (step func a) s (fun _ t => Built func t) fun e _ => ¬ e.Breaks := by
  rcases h with ⟨m, ms, hms, rfl⟩ | ⟨h, hl⟩
  · cases a with
    | owner =>
      rw [ensures_ok (building_next func hms)]
      exact built_building func ((List.suffix_cons m ms).trans hms)
    | worker => cases ha
    | wake => cases ha
    | _ => simp [step, start, join, destroy, building, Fault.Breaks]
  · exact ((step_moves func a s).and (step_safe h hl a)).mono
      (fun _ _ hm => .inr ⟨hm.1.handshake h, hm.1.alive ha h hl⟩) fun _ _ he => he.2

theorem run_built (h : Run (step func) Careful unbuilt s) : Built func s := by
  rw [← building_declared func] at h
  exact h.invariant (built_building func (List.suffix_refl _)) fun _ _ hs ha =>
    (step_built hs ha).mono (fun _ _ ht => ht) fun _ _ _ => trivial

/-! ## Careless steps -/

/-- A run goes on to a step that breaks. -/
def Leads (func : Option F) (s : Thread F) : Prop :=
  ∃ t a, Run (step func) (fun _ _ => True) s t ∧ Ensures (step func a) t (fun _ _ => False) fun e _ => e.Breaks

theorem Leads.step (h : Leads func t) (ht : step func a s = .ok () t) : Leads func s := by
  obtain ⟨u, b, run, breaks⟩ := h
  exact ⟨u, b, (Run.start.step trivial ht).trans run, breaks⟩

/-- A member that is not `thread_`, or no longer joinable, is destroyed, and the rest decides, if it is not in use. -/
theorem destruct_leads {m : Member} {ms : List Member} (ho : s.owner = .destroying (m :: ms))
    (safe : ¬ (m = .thread ∧ s.joinable = true))
    (rest : Leads func { s with live := Function.update s.live m false, owner := .destroying ms }) : Leads func s := by
  by_cases used : m = .mutex ∧ s.holder ≠ none ∨ m = .cv ∧ s.worker = .blocked false
  · have broken : step func .owner s = .error (.inUse m) s := by
      simp only [step, proceed, destruct, ho, safe, used, run_bind, run_get, run_throw, if_true, if_false]
    exact ⟨s, .owner, .start, by rw [ensures_error broken]; trivial⟩
  · refine rest.step (a := .owner) ?_
    simp only [step, proceed, destruct, ownerAt, ho, safe, used, run_bind, run_get, run_modify, if_false]

/-- The destructor of a joinable `thread_`. -/
theorem joinable_leads {ms : List Member} (ho : s.owner = .destroying ms) (joinable : s.joinable = true)
    (hms : .thread ∈ ms) : Leads func s := by
  induction ms generalizing s with
  | nil => cases hms
  | cons m ms ih =>
    by_cases hm : m = .thread
    · refine ⟨s, .owner, .start, ?_⟩
      simp [step, proceed, destruct, ho, hm, joinable, Fault.Breaks]
    · have rest : .thread ∈ ms := by simpa [Ne.symm hm] using hms
      exact destruct_leads ho (fun hc => hm hc.1) (ih (s := { s with live := _, owner := .destroying ms }) rfl joinable rest)

/-- The worker's next step when no member is left. -/
theorem dead_leads (dead : ∀ m, s.live m = false) (spawned : s.worker ≠ .absent) (running : s.worker ≠ .done) :
    Leads func s := by
  cases hw : s.worker with
  | absent => exact absurd hw spawned
  | done => exact absurd hw running
  | blocked signalled => exact ⟨s, .wake, .start, by simp [step, wake, hw, dead, Fault.Breaks]⟩
  | _ => exact ⟨s, .worker, .start, by simp [step, run, acquire, release, hw, dead, Fault.Breaks]⟩

/-- The destruction of a detached thread's members. -/
theorem detached_leads {ms : List Member} (ho : s.owner = .destroying ms) (detached : s.joinable = false)
    (rest : ∀ m, m ∉ ms → s.live m = false) (spawned : s.worker ≠ .absent) (running : s.worker ≠ .done) :
    Leads func s := by
  induction ms generalizing s with
  | nil => exact dead_leads (fun m => rest m (by simp)) spawned running
  | cons m ms ih =>
    refine destruct_leads ho (fun hc => by simp [detached] at hc)
      (ih (s := { s with live := Function.update s.live m false, owner := .destroying ms }) rfl detached ?_ spawned running)
    intro x hx
    by_cases he : x = m
    · simp [he]
    · simpa [he] using rest x (by simp [he, hx])

/-- A destructor that starts before `run` has returned. -/
theorem destroy_leads (hl : Alive s) (idle : s.owner = .idle) (running : s.worker ≠ .done) :
    Ensures (step func .destroy) s (fun _ t => Leads func t) fun e _ => e.Breaks := by
  have hd : s.owner.destroys = false := by rw [idle]; rfl
  have live := hl.live hd
  have unjoined : s.joined = false := by
    by_contra joined
    obtain hj | ended := hl.waited (by simpa using joined)
    · rw [idle] at hj
      cases hj
    · exact running ended
  have joinable : s.joinable = true := by
    rw [hl.joinable hd, unjoined]
    rfl
  have all : ∀ m, m ∈ Member.declared.reverse := by
    intro m
    cases m <;> decide
  by_cases started : s.started = true
  · have he : step func .destroy s = .ok () { s with joinable := false, owner := .destroying Member.declared.reverse } := by
      simp [step, destroy, detach, use, ownerAt, live, idle, started, unjoined, joinable]
    rw [ensures_ok he]
    exact detached_leads rfl rfl (fun m hm => absurd (all m) hm) hl.spawned running
  · have he : step func .destroy s = .ok () { s with owner := .destroying Member.declared.reverse } := by
      simp [step, destroy, use, ownerAt, live, idle, started]
    rw [ensures_ok he]
    exact joinable_leads rfl joinable (all _)

/-- A step that is not careful cannot be made, breaks, or leads to one that does. -/
theorem careless_leads (h : Built func s) (ha : ¬ Careful s a) :
    step func a s = .error .disabled s ∨ Ensures (step func a) s (fun _ t => Leads func t) fun e _ => e.Breaks := by
  rcases h with ⟨m, ms, hms, rfl⟩ | ⟨h, hl⟩
  · cases a with
    | worker =>
      obtain absent | early := building_worker func hms
      · exact .inl absent
      · right
        rw [step, ensures_error early]
        trivial
    | wake =>
      left
      simp only [step, wake, building, run_bind, run_get]
      split_ifs <;> rfl
    | destroy => exact .inl (by simp [step, destroy, building])
    | _ => exact absurd trivial ha
  · cases a with
    | worker | wake =>
      exfalso
      apply ha
      cases ho : s.owner with
      | initialising ms =>
        cases ms with
        | nil => simp [Careful, ho, Owner.builds]
        | cons m ms => exact absurd ho (h.told.built _ _)
      | _ => simp [Careful, ho, Owner.builds]
    | destroy =>
      by_cases idle : s.owner = .idle
      · exact .inr (destroy_leads hl idle ha)
      · exact .inl (by simp [step, destroy, idle])
    | _ => exact absurd trivial ha

/-- **The members outlive their use**: in every run whose steps are all careful no careful step uses a member outside its
life or destroys a joinable thread; and there every other step that can be made leads to one that does. -/
theorem members_outlive_use (func : Option F) (s : Thread F) (h : Run (step func) Careful unbuilt s) (a : Act) :
    (Careful s a → Ensures (step func a) s (fun _ _ => True) fun e _ => ¬ e.Breaks) ∧
    (¬ Careful s a → step func a s = .error .disabled s ∨
      Ensures (step func a) s (fun _ t => Leads func t) fun e _ => e.Breaks) :=
  ⟨fun ha => (step_built (run_built h) ha).mono (fun _ _ _ => trivial) fun _ _ he => he, careless_leads (run_built h)⟩

/-- A thread that is started and ends is destroyed safely; one that has not ended is not. -/
theorem members_outlive_use_started :
    (∃ s : Thread Nat, Run (step (some 7)) Careful (constructed (some 7)) s ∧ s.worker = .done ∧
      Ensures (step (some 7) .destroy) s (fun _ _ => True) fun e _ => ¬ e.Breaks) ∧
    ∃ s : Thread Nat, Run (step (some 7)) Careful (constructed (some 7)) s ∧ s.worker = .call ∧
      (step (some 7) .destroy s = .error .disabled s ∨
        Ensures (step (some 7) .destroy) s (fun _ t => Leads (some 7) t) fun e _ => e.Breaks) := by
  obtain ⟨s, run, ended⟩ := Run.reaches (step (some 7)) Careful (constructed (some 7))
    [.start, .owner, .owner, .owner, .owner, .worker, .worker, .worker, .worker, .worker, .worker]
    (fun s => s.worker = .done) (by decide +kernel) (by decide +kernel)
  obtain ⟨t, run', called⟩ := Run.reaches (step (some 7)) Careful (constructed (some 7))
    [.start, .owner, .owner, .owner, .owner, .worker, .worker, .worker, .worker]
    (fun t => t.worker = .call) (by decide +kernel) (by decide +kernel)
  have built := constructed_reached (some 7)
  refine ⟨⟨s, run, ended, (members_outlive_use (some 7) s (built.trans run) .destroy).1 ended⟩,
    t, run', called, (members_outlive_use (some 7) t (built.trans run') .destroy).2 ?_⟩
  simp [Careful, called]

/-- The worker locks `mutex_` as soon as `thread_` is initialised. -/
theorem not_members_outlive_use_early :
    ¬ ∀ (func : Option Nat) (s : Thread Nat), Run (step func) (fun _ _ => True) unbuilt s → ∀ a,
      Ensures (step func a) s (fun _ _ => True) fun e _ => ¬ e.Breaks := by
  intro safe
  obtain ⟨s, run, spawned, unmade⟩ := Run.reaches (step (some 7)) (fun _ _ => True) (unbuilt : Thread Nat)
    (List.replicate 5 .owner) (fun s => s.worker = .begin ∧ s.live .mutex = false) (by decide) (by decide)
  have broken := safe (some 7) s run .worker
  rw [step, ensures_error (run_begin spawned unmade)] at broken
  exact broken trivial

end Thread

end NetServer
