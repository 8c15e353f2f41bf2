import NetServer.V12.Model
/-!
# The map of the first reactor when descriptors are reused

A handler erases the node of its own descriptor only, and a batch names a descriptor once: no pointer that is still to be
dispatched dangles. `accept4` may return a number that was closed in the same batch; its node was erased before, so that
`insert`, which does not overwrite, makes a new one with a callback of its own (`map_consistent`).
-/

namespace NetServer.V12
open Exec

variable {s t : Epoller} {fd : Fd} {node : Nat} {channel : Channel}

/-- The callback that is registered for a descriptor. -/
def callbackOf (serverSock fd : Fd) : ReadCallback := if fd = serverSock then .acceptConnection else .onMessage fd

/-- What holds between the calls of handlers. -/
structure Consistent (s : Epoller) : Prop where
  server : s.others s.serverSock = true
  apart : ∀ fd, s.clients fd = true → s.others fd = false
  keys : ∀ fd, (s.channelsMap fd).isSome = true ↔ fd = s.serverSock ∨ s.clients fd = true
  mapped : ∀ fd node, s.channelsMap fd = some node →
    ∃ revents, s.nodes node = some ⟨some fd, some (callbackOf s.serverSock fd), none, revents⟩
  interest : ∀ fd, s.interest fd = true → (s.channelsMap fd).isSome = true
  fresh : ∀ node, s.next ≤ node → s.nodes node = none
  active : ∀ node ∈ s.activeChannels, ∃ fd, s.channelsMap fd = some node
  once : s.activeChannels.Nodup
  defaulted : s.defaulted = []

namespace Consistent

/-- A node has one key. -/
theorem key_unique (h : Consistent s) {fd' : Fd} (hm : s.channelsMap fd = some node) (hm' : s.channelsMap fd' = some node) :
    fd = fd' := by
  obtain ⟨_, hn⟩ := h.mapped fd node hm
  obtain ⟨_, hn'⟩ := h.mapped fd' node hm'
  rw [hn] at hn'
  cases hn'
  rfl

theorem lt_next (h : Consistent s) (hm : s.channelsMap fd = some node) : node < s.next := by
  obtain ⟨_, hn⟩ := h.mapped fd node hm
  by_contra hlt
  rw [h.fresh node (by omega)] at hn
  cases hn

/-- The listening descriptor stays open. -/
theorem ne_server (h : Consistent s) (ho : s.others fd = false) : fd ≠ s.serverSock := by
  rintro rfl
  rw [h.server] at ho
  cases ho

end Consistent

/-! ## `poll` -/

/-- `setRevents` on a node of the map. -/
theorem setRevents_consistent (h : Consistent s) (hm : s.channelsMap fd = some node) (events : Mask) :
    Ensures (setRevents node events) s (fun _ t => Consistent t ∧ t.channelsMap = s.channelsMap ∧ t.interest = s.interest ∧
      t.activeChannels = s.activeChannels) fun _ _ => False := by
  obtain ⟨revents, hn⟩ := h.mapped fd node hm
  have hd : deref node s = .ok ⟨some fd, some (callbackOf s.serverSock fd), none, revents⟩ s := by simp [deref, hn]
  simp only [setRevents, ensures_bind, ensures_ok hd, ensures_modify]
  refine ⟨{ h with mapped := ?_, fresh := ?_ }, trivial, trivial, trivial⟩
  · intro fd' node' hm'
    by_cases he : node' = node
    · subst he
      obtain rfl := h.key_unique hm hm'
      exact ⟨events, Function.update_self ..⟩
    · simpa [he] using h.mapped fd' node' hm'
  · intro node' hle
    have hne : node' ≠ node := by
      have := h.lt_next hm
      dsimp only at hle
      omega
    simpa [hne] using h.fresh node' hle

/-- A pointer to a node that waits in no other place. -/
theorem Consistent.push (h : Consistent s) (hm : s.channelsMap fd = some node) (new : node ∉ s.activeChannels) :
    Consistent { s with activeChannels := s.activeChannels ++ [node] } := by
  refine { h with active := ?_, once := ?_ }
  · intro node' hin
    rcases List.mem_append.1 hin with hin | hin
    · exact h.active node' hin
    · exact ⟨fd, by rw [List.mem_singleton.1 hin]; exact hm⟩
  · rw [List.nodup_append_comm]
    exact List.nodup_cons.2 ⟨new, h.once⟩

/-- The loop of `poll` finds a node for every descriptor, and a different one each time. -/
theorem collect_consistent {events : List (Fd × Mask)} (h : Consistent s) (once : (events.map Prod.fst).Nodup)
    (registered : ∀ e ∈ events, s.interest e.1 = true)
    (idle : ∀ e ∈ events, ∀ node, s.channelsMap e.1 = some node → node ∉ s.activeChannels) :
    Ensures (collect events) s (fun _ t => Consistent t) fun _ _ => False := by
  induction events generalizing s with
  | nil => exact h
  | cons e rest ih =>
    obtain ⟨fd, mask⟩ := e
    rw [List.map_cons, List.nodup_cons] at once
    obtain ⟨node, hm⟩ := Option.isSome_iff_exists.1 (h.interest fd (registered (fd, mask) List.mem_cons_self))
    have hs : subscript fd s = .ok node s := by simp [subscript, hm]
    simp only [collect, ensures_bind, ensures_ok hs, ensures_modify]
    refine (setRevents_consistent h hm mask).mono ?_ fun _ _ he => he
    rintro _ t ⟨ht, hmap, hint, hact⟩
    have new : node ∉ t.activeChannels := by
      rw [hact]
      exact idle (fd, mask) List.mem_cons_self node hm
    rw [← hmap] at hm
    refine ih (ht.push hm new) once.2 ?_ ?_
    · intro e he
      show t.interest e.1 = true
      rw [hint]
      exact registered e (List.mem_cons_of_mem _ he)
    · intro e he node' hm' hin
      have hm' : t.channelsMap e.1 = some node' := hm'
      rcases List.mem_append.1 hin with hin | hin
      · rw [hact] at hin
        exact idle e (List.mem_cons_of_mem _ he) node' (hmap ▸ hm') hin
      · -- a second pointer to this node would be a second event of this descriptor
        rw [List.mem_singleton.1 hin] at hm'
        exact once.1 (List.mem_map.2 ⟨e, he, ht.key_unique hm' hm⟩)

theorem poll_consistent (h : Consistent s) (events : List (Fd × Mask)) :
    Ensures (poll events) s (fun _ t => Consistent t) fun e _ => e = .outside := by
  simp only [poll, ensures_bind, ensures_get, ensures_ite, ensures_throw]
  refine ⟨fun _ => trivial, fun kernel => ?_⟩
  have ended : s.activeChannels = [] := by
    by_contra hn
    exact kernel (.inl hn)
  have once : (events.map Prod.fst).Nodup := by
    by_contra hn
    exact kernel (.inr (.inl hn))
  have registered : ∀ e ∈ events, s.interest e.1 = true := by
    intro e he
    by_contra hn
    exact kernel (.inr (.inr ⟨e, he, by simpa using hn⟩))
  refine (collect_consistent h once registered ?_).mono (fun _ _ ht => ht) fun _ _ he => he.elim
  intro e _ node _ hin
  rw [ended] at hin
  cases hin

/-! ## The handlers -/

/-- `registerFd` of a descriptor that has no entry. -/
theorem registerFd_eq (callback : ReadCallback) (hm : s.channelsMap fd = none) : registerFd fd callback s = .ok () { s with
    interest := Function.update s.interest fd true
    nodes := Function.update s.nodes s.next (some ⟨some fd, some callback, none, 0⟩)
    next := s.next + 1
    channelsMap := Function.update s.channelsMap fd (some s.next) } := by
  simp [registerFd, insert, emplace, hm, Channel.new]

theorem erase_eq (hm : s.channelsMap fd = some node) : erase fd s = .ok () { s with
    nodes := Function.update s.nodes node none, channelsMap := Function.update s.channelsMap fd none } := by
  simp [erase, hm]

/-- A new client with a node of its own. -/
theorem Consistent.accepted (h : Consistent s) (ho : s.others fd = false) (hm : s.channelsMap fd = none) :
    Consistent { s with
      clients := Function.update s.clients fd true
      interest := Function.update s.interest fd true
      nodes := Function.update s.nodes s.next (some ⟨some fd, some (.onMessage fd), none, 0⟩)
      next := s.next + 1
      channelsMap := Function.update s.channelsMap fd (some s.next) } := by
  have hserver := h.ne_server ho
  refine { h with apart := ?_, keys := ?_, mapped := ?_, interest := ?_, fresh := ?_, active := ?_ }
  · intro fd' hc
    by_cases he : fd' = fd
    · rw [he]
      exact ho
    · exact h.apart fd' (by simpa [he] using hc)
  · intro fd'
    by_cases he : fd' = fd
    · simp [he]
    · simpa [he] using h.keys fd'
  · intro fd' node hm'
    by_cases he : fd' = fd
    · subst he
      obtain rfl : s.next = node := by simpa using hm'
      exact ⟨0, by simp [callbackOf, hserver]⟩
    · have hm' : s.channelsMap fd' = some node := by simpa [he] using hm'
      have hne : node ≠ s.next := Nat.ne_of_lt (h.lt_next hm')
      simpa [hne] using h.mapped fd' node hm'
  · intro fd' hi
    by_cases he : fd' = fd
    · simp [he]
    · simpa [he] using h.interest fd' (by simpa [he] using hi)
  · intro node hle
    have hle : s.next + 1 ≤ node := hle
    have hne : node ≠ s.next := by omega
    simpa [hne] using h.fresh node (by omega)
  · intro node hin
    obtain ⟨fd', hm'⟩ := h.active node hin
    have hne : fd' ≠ fd := by
      rintro rfl
      rw [hm] at hm'
      cases hm'
    exact ⟨fd', by simpa [hne] using hm'⟩

/-- A client that is gone, with its node. -/
theorem Consistent.closed (h : Consistent s) (hc : s.clients fd = true) (hm : s.channelsMap fd = some node)
    (idle : node ∉ s.activeChannels) : Consistent { s with
      nodes := Function.update s.nodes node none
      channelsMap := Function.update s.channelsMap fd none
      clients := Function.update s.clients fd false
      interest := Function.update s.interest fd false } := by
  have hserver := h.ne_server (h.apart fd hc)
  refine { h with apart := ?_, keys := ?_, mapped := ?_, interest := ?_, fresh := ?_, active := ?_ }
  · intro fd' hc'
    by_cases he : fd' = fd
    · simp [he] at hc'
    · exact h.apart fd' (by simpa [he] using hc')
  · intro fd'
    by_cases he : fd' = fd
    · simp [he, hserver]
    · simpa [he] using h.keys fd'
  · intro fd' node' hm'
    by_cases he : fd' = fd
    · simp [he] at hm'
    · have hother : s.channelsMap fd' = some node' := by simpa [he] using hm'
      have hne : node' ≠ node := by
        rintro rfl
        exact he (h.key_unique hother hm)
      simpa [hne] using h.mapped fd' node' hother
  · intro fd' hi
    by_cases he : fd' = fd
    · simp [he] at hi
    · simpa [he] using h.interest fd' (by simpa [he] using hi)
  · intro node' hle
    exact update_none (h.fresh node' hle)
  · intro node' hin
    obtain ⟨fd', hm'⟩ := h.active node' hin
    have hne : fd' ≠ fd := by
      rintro rfl
      rw [hm] at hm'
      cases hm'
      exact idle hin
    exact ⟨fd', by simpa [hne] using hm'⟩

theorem acceptConnection_consistent (h : Consistent s) (k : Kernel) :
    Ensures (acceptConnection k) s (fun _ t => Consistent t) fun e _ => e ≠ .useAfterFree := by
  cases hk : k.accepted with
  | none => simp [acceptConnection, accept, hk]
  | some fd =>
    simp only [acceptConnection, accept, hk, ensures_bind, ensures_get, ensures_ite, ensures_throw, ensures_pure, ensures_set,
      ensures_assert]
    refine ⟨fun _ => by simp, fun closed => ⟨fun _ => ?_, fun _ => by simp⟩⟩
    obtain ⟨hc, ho⟩ : s.clients fd = false ∧ s.others fd = false := by simpa using closed
    -- the number is free, so that the map has no entry for it
    have hm : s.channelsMap fd = none := by
      have keys := h.keys fd
      simpa [hc, h.ne_server ho] using keys
    rw [ensures_ok (registerFd_eq (s := { s with clients := Function.update s.clients fd true }) _ hm)]
    exact h.accepted ho hm

/-- `onMessage` of a client whose node is not waiting. -/
theorem onMessage_consistent (h : Consistent s) (hc : s.clients fd = true) (hm : s.channelsMap fd = some node)
    (idle : node ∉ s.activeChannels) (k : Kernel) :
    Ensures (onMessage fd k) s (fun _ t => Consistent t) fun _ _ => False := by
  have gone := h.closed hc hm idle
  simp only [onMessage]
  cases k.received.map (·.take (BufferSize - 1)) with
  | none =>
    simp only [ensures_bind, ensures_ok (erase_eq hm), close, ensures_modify]
    exact gone
  | some data =>
    cases data with
    | nil =>
      simp only [ensures_bind, ensures_ok (erase_eq hm), close, ensures_modify]
      exact gone
    | cons x xs => exact { h with }

theorem invoke_consistent (h : Consistent s) (hm : s.channelsMap fd = some node) (idle : node ∉ s.activeChannels)
    (k : Kernel) : Ensures (invoke (some (callbackOf s.serverSock fd)) k) s (fun _ t => Consistent t)
      fun e _ => e ≠ .useAfterFree := by
  by_cases hfd : fd = s.serverSock
  · rw [callbackOf, if_pos hfd]
    exact acceptConnection_consistent h k
  · rw [callbackOf, if_neg hfd]
    obtain hserver | hc := (h.keys fd).1 (by rw [hm]; rfl)
    · exact absurd hserver hfd
    · exact (onMessage_consistent h hc hm idle k).mono (fun _ _ ht => ht) fun _ _ he => he.elim

/-- **One dispatch** of a channel that is in the map. -/
theorem handleEvents_consistent (h : Consistent s) (hm : s.channelsMap fd = some node) (idle : node ∉ s.activeChannels)
    (k : Kernel) : Ensures (handleEvents node k) s (fun _ t => Consistent t) fun e _ => e ≠ .useAfterFree := by
  obtain ⟨revents, hn⟩ := h.mapped fd node hm
  have hd : deref node s = .ok ⟨some fd, some (callbackOf s.serverSock fd), none, revents⟩ s := by simp [deref, hn]
  have unset : invoke none k s = .ok () s := rfl
  -- no one sets `closeCallback_`
  simp only [handleEvents, ensures_bind, ensures_ok hd, ensures_ite, ensures_ok unset, ensures_pure]
  have handled := invoke_consistent h hm idle k
  exact ⟨fun _ => ⟨fun _ => handled, fun _ => h⟩, fun _ => ⟨fun _ => handled, fun _ => h⟩⟩

theorem step_consistent (h : Consistent s) (a : Act) :
    Ensures (step a) s (fun _ t => Consistent t) fun e _ => e ≠ .useAfterFree := by
  cases a with
  | poll events => exact (poll_consistent h events).mono (fun _ _ ht => ht) fun _ _ he => by simp [he]
  | dispatch k =>
    simp only [step, ensures_bind, ensures_get]
    cases hact : s.activeChannels with
    | nil => simp
    | cons node rest =>
      simp only [ensures_bind, ensures_modify]
      obtain ⟨fd, hm⟩ := h.active node (by rw [hact]; exact List.mem_cons_self)
      have once := h.once
      rw [hact, List.nodup_cons] at once
      have popped : Consistent { s with activeChannels := rest } :=
        { h with
          active := fun node' hin => h.active node' (by rw [hact]; exact List.mem_cons_of_mem _ hin)
          once := once.2 }
      exact handleEvents_consistent popped hm once.1 k

/-- After the constructor. -/
def constructed (serverSock : Fd) (others : Fd → Bool) : Epoller :=
  { unbuilt serverSock others with
    interest := Function.update (fun _ => false) serverSock true
    nodes := Function.update (fun _ => none) 0 (some ⟨some serverSock, some .acceptConnection, none, 0⟩)
    next := 1
    channelsMap := Function.update (fun _ => none) serverSock (some 0) }

/-- **The constructor** registers the listening descriptor and nothing else. -/
theorem construct_eq (serverSock : Fd) (others : Fd → Bool) :
    construct (unbuilt serverSock others) = .ok () (constructed serverSock others) := by
  simp only [construct, run_bind, run_get]
  exact registerFd_eq .acceptConnection rfl

theorem constructed_consistent (serverSock : Fd) (others : Fd → Bool) : Consistent (constructed serverSock others) where
  server := by simp [constructed, unbuilt]
  apart := by simp [constructed, unbuilt]
  keys fd := by
    by_cases he : fd = serverSock <;> simp [constructed, unbuilt, he]
  mapped fd node hm := by
    by_cases he : fd = serverSock
    · obtain rfl : 0 = node := by simpa [constructed, he] using hm
      exact ⟨0, by simp [constructed, unbuilt, callbackOf, he]⟩
    · simp [constructed, he] at hm
  interest fd hi := by
    by_cases he : fd = serverSock
    · simp [constructed, he]
    · simp [constructed, he] at hi
  fresh node hle := by
    have hne : node ≠ 0 := Nat.ne_of_gt hle
    simp [constructed, hne]
  active := by simp [constructed, unbuilt]
  once := by simp [constructed, unbuilt]
  defaulted := rfl

/-- **The map of channels is consistent**: in every run its keys are the listening descriptor and the open clients, every
mapped channel is of its key and so is its read callback, `operator[]` never constructed a channel, every pointer still to
be dispatched is to a node of the map, and no step follows one to a node that was erased. -/
theorem map_consistent (serverSock : Fd) (others : Fd → Bool) (s : Epoller)
    (h : Run step (fun _ _ => True) (constructed serverSock others) s) :
    (∀ fd, (s.channelsMap fd).isSome = true ↔ fd = s.serverSock ∨ s.clients fd = true) ∧
    (∀ fd node, s.channelsMap fd = some node → ∃ channel, s.nodes node = some channel ∧ channel.fd = some fd ∧
      channel.readCallback = some (if fd = s.serverSock then .acceptConnection else .onMessage fd)) ∧
    s.defaulted = [] ∧
    (∀ node ∈ s.activeChannels, ∃ fd, s.channelsMap fd = some node ∧ (s.nodes node).isSome = true) ∧
    ∀ a, Ensures (step a) s (fun _ _ => True) fun e _ => e ≠ .useAfterFree := by
  have inv : Consistent s := h.invariant (constructed_consistent serverSock others) fun _ a hs _ =>
    (step_consistent hs a).mono (fun _ _ ht => ht) fun _ _ _ => trivial
  refine ⟨inv.keys, ?_, inv.defaulted, ?_, fun a => (step_consistent inv a).mono (fun _ _ _ => trivial) fun _ _ he => he⟩
  · intro fd node hm
    obtain ⟨revents, hn⟩ := inv.mapped fd node hm
    exact ⟨_, hn, rfl, rfl⟩
  · intro node hin
    obtain ⟨fd, hm⟩ := inv.active node hin
    obtain ⟨revents, hn⟩ := inv.mapped fd node hm
    exact ⟨fd, hm, by rw [hn]; rfl⟩

/-- A client fails and, later in the same batch, its number is given to a new one. -/
theorem map_consistent_reused : ∃ s : Epoller, Run step (fun _ _ => True) (constructed 3 fun fd => decide (fd ≤ 4)) s ∧
    s.channelsMap 5 = some 2 ∧ s.clients 5 = true ∧ ∃ channel, s.nodes 2 = some channel ∧ channel.fd = some 5 ∧
      channel.readCallback = some (.onMessage 5) := by
  obtain ⟨s, run, hserver, hmap, hc⟩ := Run.reaches step (fun _ _ => True) (constructed 3 fun fd => decide (fd ≤ 4))
    [.poll [(3, EPOLLIN)], .dispatch { accepted := some 5 }, .poll [(5, EPOLLIN), (3, EPOLLIN)], .dispatch {},
      .dispatch { accepted := some 5 }]
    (fun s => s.serverSock = 3 ∧ s.channelsMap 5 = some 2 ∧ s.clients 5 = true) (by decide +kernel) (by decide +kernel)
  obtain ⟨-, mapped, -⟩ := map_consistent 3 _ s run
  obtain ⟨channel, hn, hfd, hcb⟩ := mapped 5 2 hmap
  rw [hserver] at hcb
  exact ⟨s, run, hmap, hc, channel, hn, hfd, hcb⟩

end NetServer.V12
