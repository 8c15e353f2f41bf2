import NetServer.Basic
/-!
# Timer ids (v1.7/src/TimerQueue.cpp:63)

`nextId` increments the counter and then loads it, each atomically: an increment of another thread in between makes both
load the same value. The ids are distinct as long as this does not happen (`ids_distinct`).

| here | there |
| --- | --- |
| `ι`          | the threads |
| `nextId`     | `Timer::nextId_`, a `size_t` |
| `inside i`   | thread `i` is in `Timer::nextId()`, between `++nextId_` and `return nextId_` |
| `ids`        | the `timerId_` of the timers that were constructed, in that order |
| `created`    | how many timers were given an id, or are about to be |
-/

namespace NetServer
open Exec

structure TimerIds (ι : Type) where
  nextId : Nat
  inside : ι → Bool
  ids : List Nat
  created : Nat

namespace TimerIds

/-- The steps of `Timer::nextId()`. -/
inductive Act where
  | increment
  | load
deriving DecidableEq, Repr

variable {ι : Type} {s : TimerIds ι} {i j : ι}

/-- Static storage is zeroed. -/
def init : TimerIds ι := ⟨0, fun _ => false, [], 0⟩

section
variable [DecidableEq ι]

def increment (i : ι) : EStateM Fault (TimerIds ι) Unit := do
  let s ← get
  if s.inside i then throw .outside
  set { s with nextId := addSize s.nextId 1, inside := Function.update s.inside i true, created := s.created + 1 }

def load (i : ι) : EStateM Fault (TimerIds ι) Unit := do
  let s ← get
  if !s.inside i then throw .outside
  set { s with inside := Function.update s.inside i false, ids := s.ids ++ [s.nextId] }

def step : ι × Act → EStateM Fault (TimerIds ι) Unit
  | (i, .increment) => increment i
  | (i, .load) => load i

/-- An increment is made while no other thread is between its increment and its load. -/
def Alone (s : TimerIds ι) (a : ι × Act) : Prop := a.2 = .increment → ∀ j, s.inside j = false

instance decidableAlone [Fintype ι] (s : TimerIds ι) (a : ι × Act) : Decidable (Alone s a) :=
  inferInstanceAs (Decidable (_ → _))

theorem increment_eq (h : s.inside i = false) : increment i s =
    .ok () ⟨addSize s.nextId 1, Function.update s.inside i true, s.ids, s.created + 1⟩ := by
  simp [increment, h]

theorem load_eq (h : s.inside i = true) : load i s =
    .ok () ⟨s.nextId, Function.update s.inside i false, s.ids ++ [s.nextId], s.created⟩ := by
  simp [load, h]

end

/-- The threads follow one another: the ids count up. -/
structure Counted (s : TimerIds ι) : Prop where
  nextId : s.nextId = s.created % 2 ^ 64
  ids : s.ids = (List.range s.ids.length).map fun n => (n + 1) % 2 ^ 64
  /-- No one is inside, or one thread is. -/
  inside : (∀ j, s.inside j = false) ∧ s.created = s.ids.length ∨
    ∃ i, (∀ j, s.inside j = true ↔ j = i) ∧ s.created = s.ids.length + 1

theorem counted_init : Counted (init : TimerIds ι) := ⟨rfl, rfl, .inl ⟨fun _ => rfl, rfl⟩⟩

/-- Distinct as long as the counter has not wrapped. -/
theorem Counted.nodup (h : Counted s) (few : s.created < 2 ^ 64) : s.ids.Nodup := by
  have bound : s.ids.length ≤ s.created := by
    obtain ⟨-, hc⟩ | ⟨_, -, hc⟩ := h.inside <;> omega
  rw [h.ids]
  refine List.Nodup.map_on ?_ List.nodup_range
  intro x hx y hy he
  rw [List.mem_range] at hx hy
  omega

section
variable [DecidableEq ι]

theorem increment_counted (h : Counted s) (alone : ∀ j, s.inside j = false) :
    Ensures (increment i) s (fun _ t => Counted t) fun _ _ => True := by
  rw [ensures_ok (increment_eq (alone i))]
  have created : s.created = s.ids.length := by
    obtain ⟨-, hc⟩ | ⟨k, hk, -⟩ := h.inside
    · exact hc
    · have := (hk k).2 rfl
      simp [alone] at this
  refine ⟨?_, h.ids, .inr ⟨i, ?_, ?_⟩⟩
  · show addSize s.nextId 1 = (s.created + 1) % 2 ^ 64
    rw [h.nextId, addSize, Nat.mod_add_mod]
  · intro j
    by_cases hj : j = i <;> simp [hj, alone]
  · show s.created + 1 = s.ids.length + 1
    rw [created]

theorem load_counted (h : Counted s) : Ensures (load i) s (fun _ t => Counted t) fun _ _ => True := by
  by_cases hin : s.inside i = true
  · rw [ensures_ok (load_eq hin)]
    obtain ⟨none, -⟩ | ⟨k, hk, created⟩ := h.inside
    · rw [none i] at hin
      cases hin
    · obtain rfl : i = k := (hk i).1 hin
      refine ⟨h.nextId, ?_, .inl ⟨?_, ?_⟩⟩
      · have last : s.nextId = (s.ids.length + 1) % 2 ^ 64 := by rw [h.nextId, created]
        simp only [List.length_append, List.length_singleton, List.range_succ, List.map_append, List.map_singleton]
        rw [← h.ids, last]
      · intro j
        by_cases hj : j = i
        · simp [hj]
        · simpa [hj] using fun hjn => hj ((hk j).1 hjn)
      · simpa using created
  · simp [load, hin]

/-- Two threads inside load the same id. -/
theorem load_twice (hi : s.inside i = true) (hj : s.inside j = true) (hij : i ≠ j) :
    ∃ t, Run step (fun _ _ => True) s t ∧ t.created = s.created ∧ ¬ t.ids.Nodup := by
  have first : step (i, .load) s = _ := load_eq hi
  have hj' : Function.update s.inside i false j = true := by simpa [Ne.symm hij] using hj
  have second : step (j, .load) (⟨s.nextId, Function.update s.inside i false, s.ids ++ [s.nextId], s.created⟩ : TimerIds ι) = _ :=
    load_eq hj'
  refine ⟨_, .step (.step .start trivial first) trivial second, rfl, fun distinct => ?_⟩
  simp [List.nodup_append] at distinct

/-- **Timer ids are distinct** in every run in which every increment is made alone, as long as there are fewer than `2^64`
timers; and every increment that is not leads to two timers with one id. -/
theorem ids_distinct (s : TimerIds ι) (h : Run step Alone init s) :
    (s.created < 2 ^ 64 → s.ids.Nodup) ∧
    ∀ i, ¬ Alone s (i, .increment) → step (i, .increment) s = .error .outside s ∨
      Ensures (step (i, .increment)) s
        (fun _ t => ∃ u, Run step (fun _ _ => True) t u ∧ u.created = t.created ∧ ¬ u.ids.Nodup) fun _ _ => False := by
  have counted : Counted s := by
    refine h.invariant counted_init ?_
    rintro s ⟨i, act⟩ hs alone
    cases act with
    | increment => exact increment_counted hs (alone rfl)
    | load => exact load_counted hs
  refine ⟨counted.nodup, fun i ha => ?_⟩
  by_cases hin : s.inside i = true
  · left
    simp [step, increment, hin]
  · right
    have hin : s.inside i = false := by simpa using hin
    have he : step (i, .increment) s = _ := increment_eq hin
    rw [ensures_ok he]
    obtain ⟨j, hj⟩ : ∃ j, s.inside j = true := by simpa [Alone] using ha
    have hji : j ≠ i := by
      rintro rfl
      rw [hin] at hj
      cases hj
    exact load_twice (by simpa [hji] using hj) (Function.update_self ..) hji

end

/-- Two threads, one after the other; before the second load, the first one must not increment. -/
theorem ids_distinct_two : ∃ s : TimerIds Bool, s.ids = [1, 2] ∧ s.ids.Nodup ∧
    ∃ t : TimerIds Bool, t.inside true = true ∧ (step (false, .increment) t = .error .outside t ∨
      Ensures (step (false, .increment)) t
        (fun _ t => ∃ u, Run step (fun _ _ => True) t u ∧ u.created = t.created ∧ ¬ u.ids.Nodup) fun _ _ => False) := by
  obtain ⟨s, run, hids, few⟩ := Run.reaches step Alone (init : TimerIds Bool)
    [(false, .increment), (false, .load), (true, .increment), (true, .load)]
    (fun s => s.ids = [1, 2] ∧ s.created < 2 ^ 64) (by decide) (by decide)
  obtain ⟨t, run', busy⟩ := Run.reaches step Alone (init : TimerIds Bool)
    [(false, .increment), (false, .load), (true, .increment)] (fun t => t.inside true = true) (by decide) (by decide)
  refine ⟨s, hids, (ids_distinct s run).1 few, t, busy, (ids_distinct t run').2 false fun alone => ?_⟩
  have := alone rfl true
  rw [busy] at this
  cases this

/-- Both threads increment, then both load: both get 2. -/
theorem not_ids_distinct_overlap :
    ¬ ∀ s : TimerIds Bool, Run step (fun _ _ => True) init s → s.created < 2 ^ 64 → s.ids.Nodup := by
  intro distinct
  obtain ⟨s, run, few, hids⟩ := Run.reaches step (fun _ _ => True) (init : TimerIds Bool)
    [(false, .increment), (true, .increment), (false, .load), (true, .load)]
    (fun s => s.created < 2 ^ 64 ∧ ¬ s.ids.Nodup) (by decide) (by decide)
  exact hids (distinct s run few)

end TimerIds

end NetServer
