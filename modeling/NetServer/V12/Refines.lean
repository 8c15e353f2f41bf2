import NetServer.Lib.Alike
import NetServer.V11.EchoServer
import NetServer.V12.Reuse
/-!
# The first reactor does what the loop before it did

v1.2 collects channels and calls them, where v1.1 handles the events in a loop of its own. Step by step the two do the same
(`step_refines`): a pointer that is still to be dispatched is to the channel of the descriptor of the event that is still to
be handled. They differ on one event only, one of the listening socket without `EPOLLIN`: v1.1 calls `accept4` whatever the
mask says, v1.2 calls nothing (`ServerReadable`, `handleEvents_hangup`).
-/

namespace NetServer.V12
open Exec

variable {s : Epoller} {t : V11.Epoller} {fd : Fd} {node : Nat}

/-- The step of v1.1 for a step of v1.2. -/
def Act.before : Act → V11.Act
  | .poll events => .wait events
  | .dispatch k => .event k.accepted k.received

/-- Events of the listening socket are readable ones. -/
def ServerReadable (s : Epoller) : Act → Prop
  | .poll events => ∀ e ∈ events, e.1 = s.serverSock → e.2.has EPOLLIN = true
  | .dispatch _ => True

instance decidableServerReadable (s : Epoller) : ∀ a, Decidable (ServerReadable s a)
  | .poll events => inferInstanceAs (Decidable (∀ e ∈ events, _))
  | .dispatch _ => .isTrue trivial

/-- The pointer leads to the channel of the event's descriptor, which has its mask. -/
def Points (s : Epoller) (node : Nat) (event : V11.Event) : Prop :=
  s.channelsMap event.fd = some node ∧
    s.nodes node = some ⟨some event.fd, some (callbackOf s.serverSock event.fd), none, event.events⟩ ∧
    (event.fd = s.serverSock → event.events.has EPOLLIN = true)

/-- What the two have in common. -/
structure Same (s : Epoller) (t : V11.Epoller) : Prop where
  consistent : Consistent s
  serverSock : t.serverSock = s.serverSock
  others : t.others = s.others
  clients : t.clients = s.clients
  interest : t.interest = s.interest
  sent : t.sent = s.sent
  waiting : List.Forall₂ (Points s) s.activeChannels t.listenEvents

/-! ## `poll` -/

/-- `setRevents` on a node of the map, exactly. -/
theorem setRevents_eq (h : Consistent s) (hm : s.channelsMap fd = some node) (events : Mask) :
    setRevents node events s = .ok () { s with
      nodes := Function.update s.nodes node (some ⟨some fd, some (callbackOf s.serverSock fd), none, events⟩) } := by
  obtain ⟨revents, hn⟩ := h.mapped fd node hm
  simp [setRevents, deref, hn]

/-- The waiting pointers, where a step leaves their nodes and their keys. -/
theorem Same.still (h : Same s t) (s' : Epoller) (hserver : s'.serverSock = s.serverSock)
    (hnodes : ∀ node ∈ s.activeChannels, s'.nodes node = s.nodes node)
    (hmap : ∀ fd node, node ∈ s.activeChannels → s.channelsMap fd = some node → s'.channelsMap fd = some node) :
    List.Forall₂ (Points s') s.activeChannels t.listenEvents := by
  refine ((List.forall₂_and_left _ _).2 ⟨fun _ hin => hin, h.waiting⟩).imp ?_
  rintro node event ⟨hin, hm, hn, hr⟩
  refine ⟨hmap _ _ hin hm, ?_, ?_⟩
  · rw [hnodes node hin, hserver]
    exact hn
  · rw [hserver]
    exact hr

/-- The loop of `poll` pushes one pointer for each event. -/
theorem collect_refines {events : List (Fd × Mask)} (h : Same s t) (once : (events.map Prod.fst).Nodup)
    (registered : ∀ e ∈ events, s.interest e.1 = true)
    (idle : ∀ e ∈ events, ∀ node, s.channelsMap e.1 = some node → node ∉ s.activeChannels)
    (readable : ∀ e ∈ events, e.1 = s.serverSock → e.2.has EPOLLIN = true) :
    Ensures (collect events) s (fun _ s' => Same s' { t with listenEvents := t.listenEvents ++ events.map t.report })
      fun _ _ => False := by
  induction events generalizing s t with
  | nil => simpa [collect] using h
  | cons e rest ih =>
    obtain ⟨fd, mask⟩ := e
    rw [List.map_cons, List.nodup_cons] at once
    obtain ⟨node, hm⟩ := Option.isSome_iff_exists.1 (h.consistent.interest fd (registered (fd, mask) List.mem_cons_self))
    have new : node ∉ s.activeChannels := idle (fd, mask) List.mem_cons_self node hm
    have hs : subscript fd s = .ok node s := by simp [subscript, hm]
    have settled := (ensures_ok (setRevents_eq h.consistent hm mask)).1 (setRevents_consistent h.consistent hm mask)
    simp only [collect, ensures_bind, ensures_ok hs, ensures_ok (setRevents_eq h.consistent hm mask), ensures_modify]
    -- the pointers pushed before lead to other nodes than the one that is written
    have before : ∀ node' ∈ s.activeChannels, node' ≠ node := by
      rintro node' hin rfl
      exact new hin
    have pushed : Same
        { s with
          nodes := Function.update s.nodes node (some ⟨some fd, some (callbackOf s.serverSock fd), none, mask⟩)
          activeChannels := s.activeChannels ++ [node] }
        { t with listenEvents := t.listenEvents ++ [t.report (fd, mask)] } := by
      refine { h with consistent := settled.1.push hm new, waiting := ?_ }
      have moved := h.still { s with
          nodes := Function.update s.nodes node (some ⟨some fd, some (callbackOf s.serverSock fd), none, mask⟩)
          activeChannels := s.activeChannels ++ [node] } rfl
        (fun node' hin => Function.update_of_ne (before node' hin) ..) fun _ _ _ hm' => hm'
      exact List.rel_append moved (.cons ⟨hm, Function.update_self .., readable (fd, mask) List.mem_cons_self⟩ .nil)
    have later := ih pushed once.2 (fun e he => registered e (List.mem_cons_of_mem _ he)) ?_
      fun e he => readable e (List.mem_cons_of_mem _ he)
    · have same : V11.Epoller.report { t with listenEvents := t.listenEvents ++ [t.report (fd, mask)] } = t.report := rfl
      rw [same, List.append_assoc] at later
      exact later
    · intro e he node' hm' hin
      rcases List.mem_append.1 hin with hin | hin
      · exact idle e (List.mem_cons_of_mem _ he) node' hm' hin
      · rw [List.mem_singleton.1 hin] at hm'
        exact once.1 (List.mem_map.2 ⟨e, he, h.consistent.key_unique hm' hm⟩)

theorem poll_refines (h : Same s t) (events : List (Fd × Mask)) (hr : ServerReadable s (.poll events)) :
    Alike (poll events) s (V11.step (.wait events)) t fun _ s' _ t' => Same s' t' := by
  have idle : s.activeChannels ≠ [] ↔ t.listenEvents ≠ [] := by
    rw [not_iff_not, ← List.length_eq_zero_iff, h.waiting.length_eq, List.length_eq_zero_iff]
  simp only [poll, V11.step, alike_left (run_get s), alike_right (run_get t), h.interest, ← idle]
  refine alike_ite Iff.rfl (fun _ => ?_) fun kernel => ?_
  · exact alike_throw _
  · obtain ⟨ended, once, registered⟩ : s.activeChannels = [] ∧ (events.map Prod.fst).Nodup ∧
        ∀ e ∈ events, s.interest e.1 = true := by
      simpa [not_or] using kernel
    have none : t.listenEvents = [] := by
      by_contra hn
      exact idle.2 hn ended
    have collected := collect_refines h once registered (by simp [ended]) hr
    rw [none, List.nil_append] at collected
    refine Alike.of_ensures (b := ()) collected ?_
    rw [run_set, ← h.interest]

/-! ## The handlers -/

/-- `acceptConnection` of a free descriptor that has no entry. -/
theorem acceptConnection_eq {k : Kernel} (hk : k.accepted = some fd) (free : ¬ (s.clients fd = true ∨ s.others fd = true))
    (positive : fd > 0) (hm : s.channelsMap fd = none) : acceptConnection k s = .ok () { s with
      clients := Function.update s.clients fd true
      interest := Function.update s.interest fd true
      nodes := Function.update s.nodes s.next (some ⟨some fd, some (.onMessage fd), none, 0⟩)
      next := s.next + 1
      channelsMap := Function.update s.channelsMap fd (some s.next) } := by
  simp only [acceptConnection, accept, hk, free, positive, run_bind, run_get, run_set, run_assert, run_pure, if_true, if_false]
  exact registerFd_eq _ hm

/-- A new client: its node is a new one, and no pointer that waits leads there. -/
theorem acceptConnection_refines (h : Same s t) (k : Kernel) :
    Alike (acceptConnection k) s (V11.acceptClient k.accepted) t fun _ s' _ t' => Same s' t' := by
  cases hk : k.accepted with
  | none =>
    simp only [acceptConnection, accept, V11.acceptClient, V11.accept, hk]
    exact (alike_error rfl rfl).2 rfl
  | some fd =>
    by_cases busy : s.clients fd = true ∨ s.others fd = true
    · have hs : acceptConnection k s = .error .outside s := by simp [acceptConnection, accept, hk, busy]
      have ht : V11.acceptClient (some fd) t = .error .outside t := by
        simp [V11.acceptClient, V11.accept, h.clients, h.others, busy]
      exact (alike_error hs ht).2 rfl
    · obtain ⟨hc, ho⟩ : s.clients fd = false ∧ s.others fd = false := by simpa using busy
      have hm : s.channelsMap fd = none := by
        have keys := h.consistent.keys fd
        simpa [hc, h.consistent.ne_server ho] using keys
      by_cases positive : fd > 0
      · have ht : V11.acceptClient (some fd) t = .ok () { t with
            clients := Function.update t.clients fd true
            connection := Function.update t.connection fd t.accepted
            accepted := t.accepted + 1
            interest := Function.update t.interest fd true } := by
          simp only [V11.acceptClient, V11.accept, V11.registerFd, h.clients, h.others, busy, positive, run_bind, run_get,
            run_set, run_assert, run_pure, run_modify, if_true, if_false]
        refine (alike_ok (acceptConnection_eq hk busy positive hm) ht).2 ?_
        have new : ∀ fd', s.channelsMap fd' ≠ none → fd' ≠ fd := by
          rintro fd' hs rfl
          exact hs hm
        refine { h with
          consistent := h.consistent.accepted ho hm, clients := by rw [h.clients], interest := by rw [h.interest]
          waiting := h.still _ rfl ?_ ?_ }
        · intro node hin
          obtain ⟨fd', hm'⟩ := h.consistent.active node hin
          exact Function.update_of_ne (h.consistent.lt_next hm').ne ..
        · intro fd' node _ hm'
          rw [← hm']
          exact Function.update_of_ne (new fd' (by simp [hm'])) ..
      · -- the number is `0`, and both asserts fail
        have hs : ∃ s', acceptConnection k s = .error .assertFailed s' := by
          simp only [acceptConnection, accept, hk, busy, positive, run_bind, run_get, run_set, run_assert, if_false]
          exact ⟨_, rfl⟩
        have ht : ∃ t', V11.acceptClient (some fd) t = .error .assertFailed t' := by
          simp only [V11.acceptClient, V11.accept, h.clients, h.others, busy, positive, run_bind, run_get, run_set,
            run_assert, if_false]
          exact ⟨_, rfl⟩
        obtain ⟨s', hs⟩ := hs
        obtain ⟨t', ht⟩ := ht
        exact (alike_error hs ht).2 rfl

/-- A readable client. -/
theorem onMessage_refines (h : Same s t) {event : V11.Event} (hc : s.clients event.fd = true)
    (hm : s.channelsMap event.fd = some node) (idle : node ∉ s.activeChannels) (k : Kernel) :
    Alike (onMessage event.fd k) s (V11.readClient event k.received) t fun _ s' _ t' => Same s' t' := by
  have gone : ∀ l x, Same
      { s with
        nodes := Function.update s.nodes node none
        channelsMap := Function.update s.channelsMap event.fd none
        clients := Function.update s.clients event.fd false
        interest := Function.update s.interest event.fd false }
      { t with
        clients := Function.update t.clients event.fd false
        interest := Function.update t.interest event.fd false
        calls := l
        handled := x } := by
    intro l x
    refine { h with
      consistent := h.consistent.closed hc hm idle, clients := by rw [h.clients], interest := by rw [h.interest]
      waiting := h.still _ rfl ?_ ?_ }
    · intro node' hin
      have hne : node' ≠ node := by
        rintro rfl
        exact idle hin
      exact Function.update_of_ne hne ..
    · intro fd' node' hin hm'
      have hne : fd' ≠ event.fd := by
        rintro rfl
        rw [hm] at hm'
        cases hm'
        exact idle hin
      rw [← hm']
      exact Function.update_of_ne hne ..
  -- the buffers of the two have one size, so that both receive the same
  have size : V11.BufferSize = BufferSize := rfl
  simp only [Alike, onMessage, V11.readClient, size]
  cases k.received.map (·.take (BufferSize - 1)) with
  | none =>
    simp only [ensures_bind, ensures_ok (erase_eq hm), close, V11.close, ensures_modify, ensures_get]
    exact gone _ _
  | some data =>
    cases data with
    | nil =>
      simp only [ensures_bind, ensures_ok (erase_eq hm), close, V11.close, ensures_modify, ensures_get]
      exact gone _ _
    | cons x xs =>
      simp only [V11.send, ensures_bind, ensures_modify, ensures_get]
      exact { h with consistent := { h.consistent with }, sent := by rw [h.sent], waiting := h.waiting }

/-- One dispatch is one iteration of the older loop. -/
theorem handleEvents_refines (h : Same s t) {event : V11.Event} (hp : Points s node event) (idle : node ∉ s.activeChannels)
    (k : Kernel) : Alike (handleEvents node k) s (V11.handleEvent event k.accepted k.received) t
      fun _ s' _ t' => Same s' t' := by
  obtain ⟨hm, hn, readable⟩ := hp
  have hd : deref node s = .ok ⟨some event.fd, some (callbackOf s.serverSock event.fd), none, event.events⟩ s := by
    simp [deref, hn]
  simp only [handleEvents, V11.handleEvent, alike_left hd, alike_right (run_get t), h.serverSock]
  cases hin : event.events.has EPOLLIN with
  | false =>
    -- no one sets `closeCallback_`
    have unset : invoke none k s = .ok () s := rfl
    have hclient : event.fd ≠ s.serverSock := by
      intro hserver
      rw [readable hserver] at hin
      cases hin
    simp only [Bool.not_false, if_true, if_neg hclient, alike_left unset, alike_left hd, hin, Bool.false_eq_true, if_false,
      alike_pure]
    exact h
  | true =>
    simp only [Bool.not_true, Bool.false_eq_true, if_false, if_true, alike_left hd, hin]
    by_cases hserver : event.fd = s.serverSock
    · simp only [hserver, callbackOf, if_true]
      exact acceptConnection_refines h k
    · simp only [hserver, callbackOf, if_false]
      obtain hs | hc := (h.consistent.keys event.fd).1 (by rw [hm]; rfl)
      · exact absurd hs hserver
      · exact onMessage_refines h hc hm idle k

/-- **Every step** of the reactor is the same step of the loop before it. -/
theorem step_refines : LockStep step ServerReadable V11.step Act.before Same := by
  intro s t a h hr
  cases a with
  | poll events => exact poll_refines h events hr
  | dispatch k =>
    simp only [step, Act.before, V11.step, alike_left (run_get s), alike_right (run_get t)]
    have waiting := h.waiting
    have once := h.consistent.once
    have active := h.consistent.active
    cases hs : s.activeChannels with
    | nil =>
      rw [hs, List.forall₂_nil_left_iff] at waiting
      rw [waiting]
      exact alike_throw _
    | cons node rest =>
      rw [hs, List.forall₂_cons_left_iff] at waiting
      obtain ⟨event, later, hp, waiting, ht⟩ := waiting
      rw [hs] at once active
      rw [List.nodup_cons] at once
      simp only [ht, alike_left (run_modify s _), alike_right (run_modify t _)]
      have popped : Same { s with activeChannels := rest } { t with listenEvents := later } := { h with
        consistent := { h.consistent with
          active := fun node' hin => active node' (List.mem_cons_of_mem _ hin)
          once := once.2 }
        waiting := waiting }
      exact handleEvents_refines popped hp once.1 k

theorem constructed_same (serverSock : Fd) (others : Fd → Bool) :
    Same (constructed serverSock others) (V11.constructed serverSock others) where
  consistent := constructed_consistent serverSock others
  serverSock := rfl
  others := rfl
  clients := rfl
  interest := rfl
  sent := rfl
  waiting := .nil

/-- What is still to be dispatched, as `epoll_wait` reported it. -/
def pending (s : Epoller) : List (Option Fd × Option Mask) :=
  s.activeChannels.map fun node => ((s.nodes node).bind Channel.fd, (s.nodes node).map Channel.revents)

/-- **The reactor does what the loop before it did**: on the same events and the same answers of the kernel, in which the
events of the listening socket are readable ones, both versions take all steps, or stop at the same one with the same fault;
and they end with the same clients, the same interest set, the same data sent, and the same events still to be handled. -/
theorem steps_refine (serverSock : Fd) (others : Fd → Bool) (as : List Act)
    (h : Meets step ServerReadable as (constructed serverSock others)) :
    Alike (steps step as) (constructed serverSock others)
      (steps V11.step (as.map Act.before)) (V11.constructed serverSock others) fun _ s _ t =>
        s.clients = t.clients ∧ s.interest = t.interest ∧ s.sent = t.sent ∧
        pending s = t.listenEvents.map fun e => (some e.fd, some e.events) := by
  refine (step_refines.steps (constructed_same serverSock others) h).mono ?_
  rintro _ s _ t same
  refine ⟨same.clients.symm, same.interest.symm, same.sent.symm, ?_⟩
  rw [pending, ← List.forall₂_eq_eq_eq, List.forall₂_map_left_iff, List.forall₂_map_right_iff]
  refine same.waiting.imp ?_
  rintro node event ⟨-, hn, -⟩
  rw [hn]
  rfl

/-- Client 5 is echoed, ends, and its number is accepted again. -/
theorem steps_refine_reused : ∃ (s : Epoller) (t : V11.Epoller), s.sent = [(5, [1, 2])] ∧ s.clients 5 = true ∧
    s.clients = t.clients ∧ s.sent = t.sent := by
  let as : List Act := [.poll [(3, EPOLLIN)], .dispatch { accepted := some 5 }, .poll [(5, EPOLLIN)],
    .dispatch { received := some [1, 2] }, .poll [(5, EPOLLIN), (3, EPOLLIN)], .dispatch {}, .dispatch { accepted := some 5 }]
  have meets : Meets step ServerReadable as (constructed 3 fun fd => decide (fd ≤ 4)) := by decide +kernel
  have run : Ensures (steps step as) (constructed 3 fun fd => decide (fd ≤ 4))
      (fun _ s => s.sent = [(5, [1, 2])] ∧ s.clients 5 = true) fun _ _ => False := by
    decide +kernel
  obtain ⟨_, s, he, hsent, hc⟩ := run.returns
  obtain ⟨_, t, -, hclients, -, same, -⟩ := (steps_refine 3 _ as meets).returns he
  exact ⟨s, t, hsent, hc, hclients, same⟩

/-- An event of the listening socket without `EPOLLIN` is where they differ: the reactor calls nothing, and the loop accepts. -/
theorem handleEvents_hangup {mask : Mask} (hout : mask.has EPOLLIN = false) {connection : Nat} (k : Kernel)
    (hn : s.nodes node = some ⟨some s.serverSock, some .acceptConnection, none, mask⟩) (hs : t.serverSock = s.serverSock) :
    handleEvents node k s = .ok () s ∧
      V11.handleEvent ⟨s.serverSock, mask, connection⟩ k.accepted k.received t = V11.acceptClient k.accepted t := by
  have hd : deref node s = .ok ⟨some s.serverSock, some .acceptConnection, none, mask⟩ s := by simp [deref, hn]
  have unset : invoke none k s = .ok () s := rfl
  constructor
  · simp [handleEvents, hd, hout, unset]
  · simp only [V11.handleEvent, run_bind, run_get, hs, if_true]

end NetServer.V12
