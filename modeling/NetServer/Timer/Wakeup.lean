import NetServer.Timer.Batch
/-!
# No lost wake-up

The timerfd is set in two places only: when an entry is inserted in front, and at the end of `handleTimingRead`.
`Awake` says that this is enough for every entry of `timerList_`; a cancelled entry leaves a timer that expires too
early. Clock readings are those of the clock that the timerfd counts on. `durationFromNow` splits *microseconds*
by `std::nano::den`, so what it sets is shorter than the time that is left, never longer.
-/

namespace NetServer.Timers
open Exec

/-- The timerfd will wake the loop by the deadline of every entry, or a millisecond after it was set. -/
structure Awake (q : TimerQueue) : Prop where
  set : q.timerList.elems ≠ [] → q.timerfd.unread = true ∨ q.timerfd.armed.isSome
  early : ∀ a, q.timerfd.armed = some a → ∀ e ∈ q.timerList.elems, a.expiry ≤ max e.time (a.setAt + 1000000)

theorem Entry.time_le_of_key {a b : Entry} (h : a.key ≤ b.key) : a.time ≤ b.time := by
  rw [Entry.key, Entry.key, Prod.Lex.toLex_le_toLex] at h
  exact h.elim le_of_lt fun h => le_of_eq h.1

namespace Awake

variable {q : TimerQueue}

theorem init : Awake TimerQueue.init := ⟨fun h => absurd rfl h, nofun⟩

/-- Set for an entry that no other precedes. -/
theorem of_setFor (first : Entry) {now : Int} (hset : SetFor first.time now q.timerfd)
    (hfirst : ∀ e ∈ q.timerList.elems, first.key ≤ e.key) : Awake q := by
  obtain ⟨expiry, hfd, hle⟩ := hset
  refine ⟨fun _ => .inr (by rw [hfd]; rfl), fun a ha e he => ?_⟩
  rw [hfd] at ha
  cases ha
  have := Entry.time_le_of_key (hfirst e he)
  simp only
  omega

theorem effect (h : Awake q) {batch : List Entry} (hi : Inv batch q) {cancels : Bool} {q' : TimerQueue}
    (he : Effect q cancels q') : Awake q' := by
  cases he with
  | @added t when interval now fd serial free leads behind =>
    have hmem : ∀ y, y ∈ (q.timerList.insert ⟨when, t⟩).elems ↔ y = ⟨when, t⟩ ∨ y ∈ q.timerList.elems := fun y =>
      OrdSet.mem_insert (hi.key_free free when)
    by_cases hl : Leads (q.timerList.insert ⟨when, t⟩) ⟨when, t⟩
    · obtain ⟨f, hf, hk⟩ := Option.map_eq_some_iff.1 hl
      refine .of_setFor ⟨when, t⟩ (leads hl) fun e he => ?_
      rw [← hk]
      exact OrdSet.first_le hf he
    · -- the entry in front was there before, and the timerfd is set for it
      obtain ⟨f, hf⟩ : ∃ f, (q.timerList.insert ⟨when, t⟩).first = some f := by
        cases hf : (q.timerList.insert ⟨when, t⟩).first with
        | none =>
          have := (hmem ⟨when, t⟩).2 (.inl rfl)
          simp [OrdSet.first] at hf
          simp [hf] at this
        | some f => exact ⟨f, rfl⟩
      have hfk : f ≠ ⟨when, t⟩ := fun he => hl (by rw [Leads, hf, he]; rfl)
      have hold : f ∈ q.timerList.elems := ((hmem f).1 (OrdSet.first_mem hf)).resolve_left hfk
      have hle : f.time ≤ when := Entry.time_le_of_key (OrdSet.first_le hf ((hmem ⟨when, t⟩).2 (.inl rfl)))
      rw [behind hl]
      refine ⟨fun _ => h.set (List.ne_nil_of_mem hold), fun a ha e he => ?_⟩
      obtain rfl | he := (hmem e).1 he
      · have := h.early a ha f hold
        simp only
        omega
      · exact h.early a ha e he
  | expired => exact ⟨fun _ => .inl rfl, by simp⟩
  | @canceled t timer live =>
    have sub : ∀ e ∈ (q.cancelled t timer).timerList.elems, e ∈ q.timerList.elems := fun e he => (OrdSet.mem_erase.1 he).1
    refine ⟨fun hne => h.set fun hnil => hne ?_, fun a ha e he => h.early a ha e (sub e he)⟩
    exact List.eq_nil_iff_forall_not_mem.2 fun e he => by simpa [hnil] using sub e he

end Awake

theorem carried_true (curr : Int) : Carried curr true fun _ _ _ => True where
  fd _ _ := trivial
  effect _ _ _ _ := trivial
  run _ _ _ _ := trivial
  rearm _ _ _ _ := trivial
  finish _ _ _ _ := trivial

/-- **One step**; at the end of `handleTimingRead` it does not matter what the timerfd was before. -/
theorem step_awake (op : Op) {q : TimerQueue} (hi : Inv [] q) (h : Awake q) :
    Ensures (step op) q (fun _ q' => Inv [] q' ∧ Awake q') fun _ _ => True := by
  cases op with
  | call x => exact (x.run_spec q).mono (fun _ _ he => ⟨hi.effect he, h.effect hi he⟩) fun _ _ _ => trivial
  | handleTimingRead curr callbacks now =>
    refine ((carried_true curr).handleTimingRead callbacks (fun _ _ _ _ => rfl) now (fun _ => True) hi trivial
      fun _ _ _ => trivial).mono ?_ fun _ _ _ => trivial
    rintro _ q' ⟨hi', -, hset⟩
    refine ⟨hi', ?_⟩
    cases hf : q'.timerList.first with
    | none =>
      have hnil : q'.timerList.elems = [] := List.head?_eq_none_iff.1 hf
      exact ⟨fun hne => absurd hnil hne, fun _ _ e he => by simp [hnil] at he⟩
    | some f => exact .of_setFor f (hset f hf) fun e he => OrdSet.first_le hf he

/-- **No lost wake-up**: in every state of every run in which a timer is queued, the timerfd has an unread expiration
or is set, for no later than the first deadline or a millisecond after it was set. -/
theorem wakeup_set (q : TimerQueue) (h : Run step (fun _ _ => True) .init q) (e : Entry) (he : q.timerList.first = some e) :
    (q.timerfd.unread = true ∨ q.timerfd.armed.isSome) ∧
      ∀ a, q.timerfd.armed = some a → a.expiry ≤ max e.time (a.setAt + 1000000) := by
  have kept : Inv [] q ∧ Awake q := h.invariant ⟨inv_init, .init⟩ fun s op hs _ => step_awake op hs.1 hs.2
  have hmem := OrdSet.first_mem he
  exact ⟨kept.2.set (List.ne_nil_of_mem hmem), fun a ha => kept.2.early a ha e hmem⟩

/-- A periodic timer is added in front of another and fires, late; then the other is cancelled. -/
theorem wakeup_set_cancel :
    ∃ (q : TimerQueue) (a : Armed), Run step (fun _ _ => True) .init q ∧ q.timerList.first = some ⟨5002000, ⟨32, 1⟩⟩ ∧
      q.timerfd.armed = some a ∧ a.expiry ≤ max 5002000 (a.setAt + 1000000) := by
  obtain ⟨q, run, hfirst, harmed⟩ := Run.reaches step (fun _ _ => True) .init
    [.call (.addTimer 9000000 0 16 0), .call (.addTimer 5000000 2 32 1000), .call .expire,
      .handleTimingRead 7000000 (fun _ => []) 7000000, .call (.cancelTimer ⟨16, 0⟩)]
    (fun q => q.timerList.first = some ⟨5002000, ⟨32, 1⟩⟩ ∧ q.timerfd.armed.isSome = true) (by decide +kernel) (by decide +kernel)
  obtain ⟨a, ha⟩ := Option.isSome_iff_exists.1 harmed
  exact ⟨q, a, run, hfirst, ha, (wakeup_set q run _ hfirst).2 a ha⟩

end NetServer.Timers
