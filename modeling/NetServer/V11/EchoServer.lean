import NetServer.Reactor.Channel
/-!
# The `Epoller` that echoes (v1.1/src/Epoller.cpp, Sockets.cpp)

The first version with classes: `poll` handles what `epoll_wait` reports at once, one event after another, and closes the
descriptor that the event is about. A number can be closed and accepted again inside one batch; no event of the batch is
then handled on the wrong connection (`events_delivered`). `accept4` numbers the connections.

| here | there |
| --- | --- |
| `clients`      | the descriptors that `accept4` returned and that are open; `others` are all further open ones |
| `connection`   | the connection a descriptor was last accepted for, `accepted` the number of the next one |
| `interest`     | the interest set of `epollFd_`; closing a descriptor takes it out |
| `listenEvents` | what is left of `listenEvents_[0 .. activeEventsNumber)` |
| `sent`         | the data of all calls of `::send` |
| `calls`        | the calls of `::send` and `::close` |
| `handled`      | the client events that were handled, each with the calls that were made for it |
-/

namespace NetServer.V11
open Exec

/-- An `epoll_event`, with the connection that it is about. -/
structure Event where
  fd : Fd
  events : Mask
  connection : Nat
deriving DecidableEq, Repr

inductive Call where
  | send (fd : Fd) (data : Bytes)
  | close (fd : Fd)
deriving DecidableEq, Repr

/-- What handling the readable event of a client did. -/
structure Handled where
  event : Event
  /-- What `recv` returned; `none` is `-1`. -/
  received : Option Bytes
  calls : List Call
  /-- The connection that was open at the descriptor, if one was. -/
  connection : Option Nat
deriving DecidableEq, Repr

structure Epoller where
  serverSock : Fd
  others : Fd → Bool
  clients : Fd → Bool
  connection : Fd → Nat
  accepted : Nat
  interest : Fd → Bool
  listenEvents : List Event
  sent : List (Fd × Bytes)
  calls : List Call
  handled : List Handled

abbrev M := EStateM Fault Epoller

/-- What `epoll_wait` reports of a descriptor. -/
def Epoller.report (s : Epoller) (e : Fd × Mask) : Event := ⟨e.1, e.2, s.connection e.1⟩

def BufferSize : Nat := 4096

/-! ## Sockets -/

/-- `Sockets::accept`; `none` is `-1`, and a descriptor that `accept4` returns was not open. -/
def accept (accepted : Option Fd) : M Fd := do
  match accepted with
  | none => throw .assertFailed
  | some clientFd =>
    let s ← get
    if s.clients clientFd = true ∨ s.others clientFd = true then throw .outside
    set { s with
      clients := Function.update s.clients clientFd true
      connection := Function.update s.connection clientFd s.accepted
      accepted := s.accepted + 1 }
    assert (clientFd > 0)
    pure clientFd

def close (fd : Fd) : M Unit := modify fun s =>
  { s with
    clients := Function.update s.clients fd false
    interest := Function.update s.interest fd false
    calls := s.calls ++ [.close fd] }

def send (fd : Fd) (data : Bytes) : M Unit := modify fun s =>
  { s with sent := s.sent ++ [(fd, data)], calls := s.calls ++ [.send fd data] }

/-! ## `Epoller` -/

def registerFd (fd : Fd) : M Unit := modify fun s => { s with interest := Function.update s.interest fd true }

/-- Before the constructor, which is given a listening socket. -/
def unbuilt (serverSock : Fd) (others : Fd → Bool) : Epoller where
  serverSock := serverSock
  others := Function.update others serverSock true
  clients := fun _ => false
  connection := fun _ => 0
  accepted := 0
  interest := fun _ => false
  listenEvents := []
  sent := []
  calls := []
  handled := []

/-- `Epoller(socket)`. -/
def construct : M Unit := do registerFd (← get).serverSock

/-- The branch of the listening socket. -/
def acceptClient (accepted : Option Fd) : M Unit := do
  let clientSock ← accept accepted
  registerFd clientSock

/-- The branch of a readable client; `recv` fails with or without `EAGAIN`. -/
def readClient (event : Event) (received : Option Bytes) : M Unit := do
  let recvd := received.map (·.take (BufferSize - 1))
  let s ← get
  match recvd with
  | none | some [] => close event.fd
  | some data => send event.fd data
  let connection := if s.clients event.fd then some (s.connection event.fd) else none
  modify fun t => { t with handled := t.handled ++ [⟨event, recvd, t.calls.drop s.calls.length, connection⟩] }

/-- One iteration of the loop of `poll`. -/
def handleEvent (event : Event) (accepted : Option Fd) (received : Option Bytes) : M Unit := do
  if event.fd = (← get).serverSock then
    acceptClient accepted
  else if event.events.has EPOLLIN then
    readClient event received

inductive Act where
  /-- `epoll_wait` returns these events: of descriptors of the interest set, each at most once. -/
  | wait (events : List (Fd × Mask))
  /-- The next event of the batch is handled; with what `accept4` or `recv` does. -/
  | event (accepted : Option Fd) (received : Option Bytes)
deriving DecidableEq, Repr

/-- `EventLoop::loop` calls `poll` again and again: a `wait`, and as many events as it reports. -/
def step : Act → M Unit
  | .wait events => do
    let s ← get
    if s.listenEvents ≠ [] ∨ ¬ (events.map Prod.fst).Nodup ∨ ∃ e ∈ events, s.interest e.1 = false then throw .outside
    set { s with listenEvents := events.map s.report }
  | .event accepted received => do
    match (← get).listenEvents with
    | [] => throw .outside
    | event :: rest =>
      modify fun s => { s with listenEvents := rest }
      handleEvent event accepted received

/-! ## Every event reaches its connection -/

/-- `recv` returned `0` or failed. -/
def Handled.Ended (h : Handled) : Prop := h.received = none ∨ h.received = some []

/-- The event met the connection it was reported for, and made one call, on its own descriptor: `send` of what was received,
or `close` if the connection ended. -/
structure Handled.Delivered (h : Handled) : Prop where
  connection : h.connection = some h.event.connection
  ended : h.Ended → h.calls = [.close h.event.fd]
  echoed : ∀ data, h.received = some data → data ≠ [] → h.calls = [.send h.event.fd data]

/-- From `s` to `t` one record was added, of this event. -/
def Recorded (event : Event) (received : Option Bytes) (s t : Epoller) : Prop :=
  ∃ x : Handled, t.handled = s.handled ++ [x] ∧ x.event = event ∧ x.received = received.map (·.take (BufferSize - 1))

/-- What holds between two events. -/
structure Settled (s : Epoller) : Prop where
  server : s.others s.serverSock = true
  apart : ∀ fd, s.clients fd = true → s.others fd = false
  interest : ∀ fd, s.interest fd = true ↔ fd = s.serverSock ∨ s.clients fd = true
  once : (s.listenEvents.map Event.fd).Nodup
  waiting : ∀ e ∈ s.listenEvents, e.fd = s.serverSock ∨ s.clients e.fd = true ∧ s.connection e.fd = e.connection
  delivered : ∀ h ∈ s.handled, h.Delivered

variable {s : Epoller}

theorem Settled.ne_server (h : Settled s) {fd : Fd} (ho : s.others fd = false) : fd ≠ s.serverSock := by
  rintro rfl
  rw [h.server] at ho
  cases ho

/-- The listening socket has an event: a new client, whose number none of the waiting events is about. -/
theorem acceptClient_settled (h : Settled s) (accepted : Option Fd) :
    Ensures (acceptClient accepted) s (fun _ t => Settled t) fun _ _ => True := by
  cases accepted with
  | none => trivial
  | some fd =>
    simp only [acceptClient, accept, registerFd, ensures_bind, ensures_get, ensures_ite, ensures_throw, ensures_pure,
      ensures_set, ensures_assert, ensures_modify]
    refine ⟨fun _ => trivial, fun free => ⟨fun _ => ?_, fun _ => trivial⟩⟩
    obtain ⟨hc, ho⟩ : s.clients fd = false ∧ s.others fd = false := by simpa using free
    refine { h with apart := ?_, interest := ?_, waiting := ?_ }
    · intro fd' hc'
      by_cases he : fd' = fd
      · rw [he]
        exact ho
      · exact h.apart fd' (by simpa [he] using hc')
    · intro fd'
      by_cases he : fd' = fd
      · simp [he]
      · simpa [he] using h.interest fd'
    · intro e hin
      obtain hserver | ⟨hopen, hconn⟩ := h.waiting e hin
      · exact .inl hserver
      · have hne : e.fd ≠ fd := by
          rintro he
          rw [he, hc] at hopen
          cases hopen
        exact .inr ⟨by simpa [hne] using hopen, by simpa [hne] using hconn⟩

/-- A client is closed: none of the other waiting events is about its number. -/
theorem Settled.closed (h : Settled s) {fd : Fd} (hc : s.clients fd = true) (idle : ∀ e ∈ s.listenEvents, e.fd ≠ fd) :
    Settled { s with
      clients := Function.update s.clients fd false
      interest := Function.update s.interest fd false
      calls := s.calls ++ [.close fd] } := by
  have hserver := h.ne_server (h.apart fd hc)
  refine { h with apart := ?_, interest := ?_, waiting := ?_ }
  · intro fd' hc'
    by_cases he : fd' = fd
    · simp [he] at hc'
    · exact h.apart fd' (by simpa [he] using hc')
  · intro fd'
    by_cases he : fd' = fd
    · simp [he, hserver]
    · simpa [he] using h.interest fd'
  · intro e hin
    simpa [idle e hin] using h.waiting e hin

theorem Settled.record (h : Settled s) {x : Handled} (hx : x.Delivered) : Settled { s with handled := s.handled ++ [x] } := by
  refine { h with delivered := ?_ }
  intro y hy
  rcases List.mem_append.1 hy with hy | hy
  · exact h.delivered y hy
  · rw [List.mem_singleton.1 hy]
    exact hx

/-- The event is handled, and one record of it is added. -/
theorem readClient_settled (h : Settled s) {event : Event} (hc : s.clients event.fd = true)
    (hconn : s.connection event.fd = event.connection) (idle : ∀ e ∈ s.listenEvents, e.fd ≠ event.fd)
    (received : Option Bytes) : Ensures (readClient event received) s
      (fun _ t => Settled t ∧ Recorded event received s t) fun _ _ => False := by
  simp only [readClient, ensures_bind, ensures_get, close, send, hc, hconn, if_true, Recorded]
  obtain ⟨recvd, hrecvd⟩ : ∃ recvd, recvd = received.map (·.take (BufferSize - 1)) := ⟨_, rfl⟩
  rw [← hrecvd]
  cases recvd with
  | none =>
    have delivered : Handled.Delivered ⟨event, none, [.close event.fd], some event.connection⟩ :=
      ⟨rfl, fun _ => rfl, fun _ hd => by cases hd⟩
    exact ⟨(h.closed hc idle).record (by simpa using delivered), _, rfl, rfl, rfl⟩
  | some data =>
    cases data with
    | nil =>
      have delivered : Handled.Delivered ⟨event, some [], [.close event.fd], some event.connection⟩ :=
        ⟨rfl, fun _ => rfl, fun _ hd hne => absurd (Option.some.inj hd).symm hne⟩
      exact ⟨(h.closed hc idle).record (by simpa using delivered), _, rfl, rfl, rfl⟩
    | cons x xs =>
      have echoed : Settled { s with sent := s.sent ++ [(event.fd, x :: xs)], calls := s.calls ++ [.send event.fd (x :: xs)] } :=
        { h with }
      have delivered : Handled.Delivered ⟨event, some (x :: xs), [.send event.fd (x :: xs)], some event.connection⟩ := by
        refine ⟨rfl, ?_, ?_⟩
        · rintro (hn | hn) <;> cases hn
        · rintro _ hd -
          rw [Option.some.inj hd]
      exact ⟨echoed.record (by simpa using delivered), _, rfl, rfl, rfl⟩

theorem handleEvent_settled (h : Settled s) {event : Event}
    (waiting : event.fd = s.serverSock ∨ s.clients event.fd = true ∧ s.connection event.fd = event.connection)
    (idle : ∀ e ∈ s.listenEvents, e.fd ≠ event.fd) (accepted : Option Fd) (received : Option Bytes) :
    Ensures (handleEvent event accepted received) s (fun _ t => Settled t) fun _ _ => True := by
  simp only [handleEvent, ensures_bind, ensures_get, ensures_ite, ensures_pure]
  refine ⟨fun _ => acceptClient_settled h accepted, fun hclient => ⟨fun _ => ?_, fun _ => h⟩⟩
  obtain hserver | ⟨hc, hconn⟩ := waiting
  · exact absurd hserver hclient
  · exact (readClient_settled h hc hconn idle received).mono (fun _ _ ht => ht.1) fun _ _ _ => trivial

/-- The next event is taken from the batch, and no other one is about its number. -/
theorem Settled.popped (h : Settled s) {event : Event} {rest : List Event} (hb : s.listenEvents = event :: rest) :
    Settled { s with listenEvents := rest } ∧ ∀ e ∈ rest, e.fd ≠ event.fd := by
  have once := h.once
  rw [hb, List.map_cons, List.nodup_cons] at once
  refine ⟨{ h with once := once.2, waiting := fun e he => h.waiting e (by rw [hb]; exact List.mem_cons_of_mem _ he) }, ?_⟩
  intro e he hsame
  exact once.1 (hsame ▸ List.mem_map_of_mem he)

theorem step_settled (h : Settled s) (a : Act) : Ensures (step a) s (fun _ t => Settled t) fun _ _ => True := by
  cases a with
  | wait events =>
    simp only [step, ensures_bind, ensures_get, ensures_ite, ensures_throw, ensures_set]
    refine ⟨fun _ => trivial, fun kernel => ?_⟩
    obtain ⟨-, once, registered⟩ : s.listenEvents = [] ∧ (events.map Prod.fst).Nodup ∧
        ∀ e ∈ events, s.interest e.1 = true := by
      simpa [not_or] using kernel
    refine { h with once := ?_, waiting := ?_ }
    · simpa [List.map_map, Function.comp_def, Epoller.report] using once
    · intro e hin
      obtain ⟨x, hx, rfl⟩ := List.mem_map.1 hin
      exact ((h.interest x.1).1 (registered x hx)).imp id fun hc => ⟨hc, rfl⟩
  | event accepted received =>
    simp only [step, ensures_bind, ensures_get]
    cases hb : s.listenEvents with
    | nil => trivial
    | cons event rest =>
      simp only [ensures_bind, ensures_modify]
      obtain ⟨popped, idle⟩ := h.popped hb
      exact handleEvent_settled popped (h.waiting event (by rw [hb]; exact List.mem_cons_self)) idle accepted received

/-- The readable event of a client is handled, with one record of it. -/
theorem Settled.handles (h : Settled s) {event : Event} {rest : List Event} (hb : s.listenEvents = event :: rest)
    (hclient : event.fd ≠ s.serverSock) (readable : event.events.has EPOLLIN = true) (accepted : Option Fd)
    (received : Option Bytes) :
    Ensures (step (.event accepted received)) s (fun _ t => Recorded event received s t) fun _ _ => False := by
  obtain ⟨popped, idle⟩ := h.popped hb
  obtain hserver | ⟨hc, hconn⟩ := h.waiting event (by rw [hb]; exact List.mem_cons_self)
  · exact absurd hserver hclient
  · simp only [step, hb, handleEvent, hclient, readable, ensures_bind, ensures_get, ensures_modify, if_true, if_false]
    exact (readClient_settled popped hc hconn idle received).mono (fun _ _ ht => ht.2) fun _ _ => id

/-- After the constructor. -/
def constructed (serverSock : Fd) (others : Fd → Bool) : Epoller :=
  { unbuilt serverSock others with interest := Function.update (fun _ => false) serverSock true }

theorem construct_eq (serverSock : Fd) (others : Fd → Bool) :
    construct (unbuilt serverSock others) = .ok () (constructed serverSock others) := rfl

theorem constructed_settled (serverSock : Fd) (others : Fd → Bool) : Settled (constructed serverSock others) where
  server := by simp [constructed, unbuilt]
  apart := by simp [constructed, unbuilt]
  interest fd := by
    by_cases he : fd = serverSock <;> simp [constructed, unbuilt, he]
  once := List.nodup_nil
  waiting := by simp [constructed, unbuilt]
  delivered := by simp [constructed, unbuilt]

theorem Settled.run {serverSock : Fd} {others : Fd → Bool}
    (h : Run step (fun _ _ => True) (constructed serverSock others) s) : Settled s :=
  h.invariant (constructed_settled serverSock others) fun _ a hs _ => step_settled hs a

/-- **Every event reaches its connection**: in every run each readable event of a client is handled, once, on the connection
that it was reported for, with one call on its own descriptor, `close` if `recv` failed or returned `0` and else `send` of what
it returned; and the server listens to its listening socket and to all its open clients, and to nothing else. -/
theorem events_delivered (serverSock : Fd) (others : Fd → Bool) (s : Epoller)
    (h : Run step (fun _ _ => True) (constructed serverSock others) s) :
    (∀ x ∈ s.handled, x.Delivered) ∧
    (∀ event rest accepted received, s.listenEvents = event :: rest → event.fd ≠ s.serverSock →
      event.events.has EPOLLIN = true →
      Ensures (step (.event accepted received)) s (fun _ t => Recorded event received s t) fun _ _ => False) ∧
    ∀ fd, s.interest fd = true ↔ fd = s.serverSock ∨ s.clients fd = true := by
  have settled := Settled.run h
  refine ⟨settled.delivered, fun event rest accepted received hb hclient readable => ?_, settled.interest⟩
  exact settled.handles hb hclient readable accepted received

/-- Client 5 ends, its number is accepted again in the same batch, and the next event is of the new connection. -/
theorem events_delivered_reused : ∃ s : Epoller, Run step (fun _ _ => True) (constructed 3 fun fd => decide (fd ≤ 4)) s ∧
    s.connection 5 = 1 ∧ s.handled.length = 2 ∧ (∀ x ∈ s.handled, x.Delivered) ∧ s.interest 5 = true := by
  obtain ⟨s, run, hconn, hlen, hc⟩ := Run.reaches step (fun _ _ => True) (constructed 3 fun fd => decide (fd ≤ 4))
    [.wait [(3, EPOLLIN)], .event (some 5) none, .wait [(5, EPOLLIN), (3, EPOLLIN)], .event none none, .event (some 5) none,
      .wait [(5, EPOLLIN)], .event none (some [1, 2])]
    (fun s => s.connection 5 = 1 ∧ s.handled.length = 2 ∧ s.clients 5 = true) (by decide +kernel) (by decide +kernel)
  obtain ⟨delivered, -, interest⟩ := events_delivered 3 _ s run
  exact ⟨s, run, hconn, hlen, delivered, (interest 5).2 (.inr hc)⟩

end NetServer.V11
