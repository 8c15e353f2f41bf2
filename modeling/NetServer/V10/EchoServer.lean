import NetServer.Reactor.Channel
/-!
# The loop of the first `EchoServer` (v1.0/EchoServer.cpp:84)

Everything is in `main`: `connect_sock` is declared before the loop and holds the last accepted descriptor, while
`active_sockfd` is the one an event is about. When `recv` fails, the loop closes the former. Every event is handled on its
own descriptor as long as only the last accepted client fails (`events_isolated`).

| here | there |
| --- | --- |
| `connectSock`   | `connect_sock`, uninitialised (any `int`) up to the first accept |
| `opened`        | the descriptors the process has open |
| `interest`      | the interest set of `epollfd`; closing a descriptor takes it out |
| `batch`         | what is left of `events[0 .. active_event)` |
| `calls`         | the calls made on sockets while the current event is handled |
| `handled`       | the client events handled so far |
-/

namespace NetServer.V10
open Exec

inductive Call where
  | send (fd : Int) (data : Bytes)
  | close (fd : Int)
deriving DecidableEq, Repr

def Call.fd : Call → Int
  | .send fd _ => fd
  | .close fd => fd

/-- What handling one event of a client did. -/
structure Handled where
  fd : Int
  /-- `recv` returned `-1`. -/
  failed : Bool
  calls : List Call
  /-- The client's descriptor is open afterwards. -/
  stillOpen : Bool
deriving DecidableEq, Repr

structure EchoServer where
  serverSock : Int
  connectSock : Int
  opened : Int → Bool
  interest : Int → Bool
  batch : List (Int × Mask)
  calls : List Call
  handled : List Handled

abbrev M := EStateM Fault EchoServer

namespace EchoServer

def BufferSize : Nat := 1024

/-- Before the loop. -/
def init (serverSock junk : Int) (opened : Int → Bool) : EchoServer :=
  ⟨serverSock, junk, opened, Function.update (fun _ => false) serverSock true, [], [], []⟩

/-! ## System calls -/

def addfd (fd : Int) : M Unit := modify fun s => { s with interest := Function.update s.interest fd true }

/-- `accept4`; `none` is `-1`, and a descriptor it returns was not open. -/
def accept4 (accepted : Option Int) : M Int := do
  match accepted with
  | none => pure (-1)
  | some fd =>
    if fd < 0 ∨ (← get).opened fd = true then throw .outside
    modify fun s => { s with opened := Function.update s.opened fd true }
    pure fd

/-- `::recv(fd, buffer, Buffer_Size - 1, 0)`; `none` is `-1`, which is what a closed descriptor gives. -/
def recv (fd : Int) (r : Option Bytes) : M (Option Bytes) := do
  if (← get).opened fd then pure (r.map (·.take (BufferSize - 1))) else pure none

def send (fd : Int) (data : Bytes) : M Unit := modify fun s => { s with calls := s.calls ++ [.send fd data] }

def close (fd : Int) : M Unit := modify fun s =>
  { s with
    opened := Function.update s.opened fd false
    interest := Function.update s.interest fd false
    calls := s.calls ++ [.close fd] }

/-! ## The loop -/

/-- An event of the listening socket. -/
def acceptClient (accepted : Option Int) : M Unit := do
  let connectSock ← accept4 accepted
  modify fun s => { s with connectSock := connectSock }
  assert (connectSock ≠ -1)
  addfd connectSock

/-- A readable client. -/
def readClient (activeSockfd : Int) (r : Option Bytes) : M Unit := do
  modify fun s => { s with calls := [] }
  let ret ← recv activeSockfd r
  match ret with
  | none => close (← get).connectSock
  | some [] => close activeSockfd
  | some data => send activeSockfd data
  modify fun s => { s with handled := s.handled ++ [⟨activeSockfd, ret.isNone, s.calls, s.opened activeSockfd⟩] }

inductive Act where
  /-- `epoll_wait` returns these events. -/
  | wait (events : List (Int × Mask))
  /-- The next event of the batch is handled; with what `accept4` or `recv` does. -/
  | event (accepted : Option Int) (received : Option Bytes)
deriving DecidableEq, Repr

def step : Act → M Unit
  | .wait events => do
    let s ← get
    if s.batch ≠ [] ∨ ∃ e ∈ events, s.interest e.1 = false then throw .outside
    set { s with batch := events }
  | .event accepted received => do
    match (← get).batch with
    | [] => throw .outside
    | (activeSockfd, events) :: rest =>
      modify fun s => { s with batch := rest }
      if activeSockfd = (← get).serverSock then
        acceptClient accepted
      else if events.has EPOLLIN then
        readClient activeSockfd received

end EchoServer

/-! ## Isolation -/

/-- The event was handled on its own descriptor, which is closed if `recv` failed. -/
def Handled.Isolated (h : Handled) : Prop := (∀ call ∈ h.calls, call.fd = h.fd) ∧ (h.failed = true → h.stillOpen = false)

namespace EchoServer

variable {s t : EchoServer} {a : Act}

/-- If the next event is of a client and `recv` is about to fail, the client is the last accepted one. -/
def FailsLast (s : EchoServer) : Act → Prop
  | .wait _ => True
  | .event _ received =>
    ∀ e ∈ s.batch.head?, e.1 ≠ s.serverSock → e.2.has EPOLLIN = true → s.opened e.1 = false ∨ received = none →
      s.connectSock = e.1

instance decidableFailsLast (s : EchoServer) : ∀ a, Decidable (FailsLast s a)
  | .wait _ => .isTrue trivial
  | .event _ _ => inferInstanceAs (Decidable (∀ e ∈ s.batch.head?, _))

/-- `recv` fails: the last accepted client is closed. -/
theorem readClient_failed {fd : Int} {r : Option Bytes} (hr : s.opened fd = false ∨ r = none) :
    Ensures (readClient fd r) s (fun _ t =>
      t.handled = s.handled ++ [⟨fd, true, [.close s.connectSock], Function.update s.opened s.connectSock false fd⟩] ∧
      t.opened = Function.update s.opened s.connectSock false) fun _ _ => False := by
  have hrecv : recv fd r { s with calls := [] } = .ok none { s with calls := [] } := by
    rcases hr with hr | hr <;> simp [recv, hr]
  simp only [readClient, ensures_bind, ensures_modify, ensures_ok hrecv, ensures_get, close]
  exact ⟨rfl, trivial⟩

/-- `recv` returns: one call, on the client. -/
theorem readClient_returned {fd : Int} {data : Bytes} (ho : s.opened fd = true) :
    Ensures (readClient fd (some data)) s (fun _ t => ∃ call left,
      t.handled = s.handled ++ [⟨fd, false, [call], left⟩] ∧ call.fd = fd ∧ ∀ y ≠ fd, t.opened y = s.opened y)
      fun _ _ => False := by
  have hrecv : recv fd (some data) { s with calls := [] } = .ok (some (data.take (BufferSize - 1))) { s with calls := [] } := by
    simp [recv, ho]
  simp only [readClient, ensures_bind, ensures_modify, ensures_ok hrecv]
  cases data.take (BufferSize - 1) with
  | nil => exact ⟨.close fd, _, rfl, rfl, fun y hy => Function.update_of_ne hy ..⟩
  | cons x xs => exact ⟨.send fd (x :: xs), _, rfl, rfl, fun _ _ => rfl⟩

/-- **One client event** is isolated iff `recv` does not fail or fails on the last accepted client. -/
theorem readClient_isolated (s : EchoServer) (fd : Int) (r : Option Bytes) :
    Ensures (readClient fd r) s (fun _ t => ∃ h, t.handled = s.handled ++ [h] ∧ h.fd = fd ∧
      (h.Isolated ↔ (s.opened fd = false ∨ r = none → s.connectSock = fd)) ∧
      (h.Isolated → ∀ y ≠ fd, t.opened y = s.opened y)) fun _ _ => False := by
  by_cases hr : s.opened fd = false ∨ r = none
  · refine (readClient_failed hr).mono ?_ fun _ _ he => he
    rintro _ t ⟨hh, ho⟩
    refine ⟨_, hh, rfl, ?_, ?_⟩
    · constructor
      · intro isolated _
        exact isolated.1 (.close s.connectSock) (List.mem_singleton_self _)
      · intro last
        rw [last hr]
        exact ⟨fun call hcall => by rw [List.mem_singleton.1 hcall]; rfl, fun _ => Function.update_self ..⟩
    · intro isolated y hy
      have last : s.connectSock = fd := isolated.1 (.close s.connectSock) (List.mem_singleton_self _)
      rw [ho, last, Function.update_of_ne hy]
  · have ho : s.opened fd = true := by
      by_contra hn
      exact hr (.inl (by simpa using hn))
    cases r with
    | none => exact absurd (.inr rfl) hr
    | some data =>
      refine (readClient_returned ho).mono ?_ fun _ _ he => he
      rintro _ t ⟨call, left, hh, hcall, hopen⟩
      refine ⟨_, hh, rfl, ?_, fun _ => hopen⟩
      exact ⟨fun _ hf => absurd hf hr,
        fun _ => ⟨fun c hc => by rw [List.mem_singleton.1 hc, hcall], fun hf => by cases hf⟩⟩

theorem acceptClient_handled (s : EchoServer) (accepted : Option Int) :
    Ensures (acceptClient accepted) s (fun _ t => t.handled = s.handled) fun _ _ => True := by
  cases accepted with
  | none => simp [acceptClient, accept4, addfd]
  | some fd =>
    simp only [acceptClient, accept4, addfd, ensures_bind, ensures_get, ensures_ite, ensures_throw, ensures_modify,
      ensures_pure, ensures_assert]
    exact ⟨fun _ => trivial, fun _ => ⟨fun _ => trivial, fun _ => trivial⟩⟩

/-- What a step adds to the history: nothing, or one client event, isolated iff the step meets `FailsLast`. -/
theorem step_handled (s : EchoServer) (a : Act) :
    Ensures (step a) s (fun _ t => (t.handled = s.handled ∧ FailsLast s a) ∨
      ∃ h, t.handled = s.handled ++ [h] ∧ (h.Isolated ↔ FailsLast s a) ∧
        (h.Isolated → ∀ y ≠ h.fd, t.opened y = s.opened y)) fun _ _ => True := by
  cases a with
  | wait events =>
    simp only [step, ensures_bind, ensures_get, ensures_ite, ensures_throw, ensures_set]
    exact ⟨fun _ => trivial, fun _ => .inl ⟨trivial, trivial⟩⟩
  | event accepted received =>
    simp only [step, ensures_bind, ensures_get]
    cases hb : s.batch with
    | nil => trivial
    | cons e rest =>
      obtain ⟨fd, events⟩ := e
      simp only [ensures_bind, ensures_modify, ensures_get, ensures_ite, ensures_pure]
      have cond : FailsLast s (.event accepted received) ↔ (fd ≠ s.serverSock → events.has EPOLLIN = true →
          s.opened fd = false ∨ received = none → s.connectSock = fd) := by
        simp [FailsLast, hb]
      refine ⟨fun hserver => ?_, fun hclient => ⟨fun hin => ?_, fun hout => ?_⟩⟩
      · refine (acceptClient_handled _ accepted).mono ?_ fun _ _ _ => trivial
        intro _ t ht
        exact .inl ⟨ht, cond.2 fun hclient => absurd hserver hclient⟩
      · refine (readClient_isolated { s with batch := rest } fd received).mono ?_ fun _ _ he => he.elim
        rintro _ t ⟨h, hh, rfl, hiff, hopen⟩
        refine .inr ⟨h, hh, ?_, hopen⟩
        rw [hiff, cond]
        exact ⟨fun last _ _ => last, fun last => last hclient hin⟩
      · exact .inl ⟨trivial, cond.2 fun _ hin => absurd hin hout⟩

/-- **The loop isolates its clients** as far as the failing ones are the last accepted: in every run whose steps meet
`FailsLast` every event of a client calls `send` and `close` on that client only, and closes it when its `recv` fails; and
in any state, the next event of a client is handled so iff it meets `FailsLast`. -/
theorem events_isolated (serverSock junk : Int) (opened : Int → Bool) :
    (∀ s, Run step FailsLast (init serverSock junk opened) s → ∀ h ∈ s.handled, h.Isolated) ∧
    ∀ s a t, step a s = .ok () t →
      (t.handled = s.handled ∧ FailsLast s a) ∨ ∃ h, t.handled = s.handled ++ [h] ∧ (h.Isolated ↔ FailsLast s a) ∧
        (h.Isolated → ∀ y ≠ h.fd, t.opened y = s.opened y) := by
  constructor
  · intro s run
    refine run.invariant (I := fun s => ∀ h ∈ s.handled, h.Isolated) (by simp [init]) ?_
    intro s a before last
    refine (step_handled s a).mono ?_ fun _ _ _ => trivial
    rintro _ t (⟨same, -⟩ | ⟨h, more, hiff, -⟩)
    · rw [same]
      exact before
    · intro x hx
      rw [more, List.mem_append, List.mem_singleton] at hx
      rcases hx with hx | rfl
      · exact before x hx
      · exact hiff.2 last
  · intro s a t ht
    exact (ensures_ok ht).1 (step_handled s a)

/-- Client 5 is echoed and client 6, accepted later, fails: it is closed. -/
theorem events_isolated_last : ∃ s : EchoServer, Run step FailsLast (init 3 0 fun fd => decide (fd ≤ 4)) s ∧
    s.handled.length = 2 ∧ s.opened 5 = true ∧ s.opened 6 = false ∧ ∀ h ∈ s.handled, h.Isolated := by
  obtain ⟨s, run, hlen, h5, h6⟩ := Run.reaches step FailsLast (init 3 0 fun fd => decide (fd ≤ 4))
    [.wait [(3, EPOLLIN)], .event (some 5) none, .wait [(5, EPOLLIN), (3, EPOLLIN)], .event none (some [1, 2]),
      .event (some 6) none, .wait [(6, EPOLLIN)], .event none none]
    (fun s => s.handled.length = 2 ∧ s.opened 5 = true ∧ s.opened 6 = false) (by decide) (by decide)
  exact ⟨s, run, hlen, h5, h6, (events_isolated 3 0 _).1 s run⟩

/-- Client 5 fails after client 6 was accepted: 6 is closed, and 5 is left open. -/
theorem not_events_isolated_first :
    ¬ ∀ (serverSock junk : Int) (opened : Int → Bool) (s : EchoServer),
      Run step (fun _ _ => True) (init serverSock junk opened) s → ∀ h ∈ s.handled, h.Isolated := by
  intro isolated
  obtain ⟨s, run, hs⟩ := Run.reaches step (fun _ _ => True) (init 3 0 fun fd => decide (fd ≤ 4))
    [.wait [(3, EPOLLIN)], .event (some 5) none, .wait [(3, EPOLLIN)], .event (some 6) none, .wait [(5, EPOLLIN)],
      .event none none]
    (fun s => s.handled = [⟨5, true, [.close 6], true⟩]) (by decide) (by decide)
  have h := isolated 3 0 _ s run ⟨5, true, [.close 6], true⟩ (by rw [hs]; exact List.mem_singleton_self _)
  exact absurd (h.2 rfl) (by decide)

end EchoServer

end NetServer.V10
