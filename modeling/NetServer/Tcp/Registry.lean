import NetServer.Tcp.Effects
/-!
# The registry of connections

`newConnection` enters a connection in `tcpConnections_` after its UP callback, and `removeConnection` erases the entry
by name. As long as user code does not call `removeConnection` itself, the map holds exactly the connections that were
entered and not closed (`registry_exact`).
-/

namespace NetServer
open Exec

/-- `newConnection` has entered the connection, and no `handleClose` has closed it. -/
def Entered (c : ConnId) (trace : List Event) : Prop := .established c ∈ trace ∧ .closeCallback c ∉ trace

/-- User code called `removeConnection`. -/
def Event.removes : Event → Bool
  | .removeConnection _ => true
  | _ => false

structure Registry (w : World) : Prop where
  exact : ∀ c, w.inMap c = true ↔ Entered c w.trace
  nodup : (w.tcpConnections.map Prod.fst).Nodup

theorem nodup_erase {l : List (Name × ConnId)} (h : (l.map Prod.fst).Nodup) (p : Name × ConnId → Bool) :
    ((l.filter p).map Prod.fst).Nodup :=
  h.sublist (List.filter_sublist.map _)

/-! ## Every effect -/

/-- What is recorded of entering and closing, some events more. -/
theorem entered_append {l evs : List Event} {c : ConnId} (h : .established c ∉ evs ∧ .closeCallback c ∉ evs) :
    Entered c (l ++ evs) ↔ Entered c l := by
  simp [Entered, h.1, h.2]

theorem entered_aside {l evs : List Event} {c : ConnId} (h : ∀ ev ∈ evs, ev.touches c = false) :
    Entered c (l ++ evs) ↔ Entered c l := by
  refine entered_append ⟨fun hm => ?_, fun hm => ?_⟩
  · simpa [Event.touches] using h _ hm
  · simpa [Event.touches] using h _ hm

/-- One connection: in the map iff it was entered and not closed. -/
theorem Effect.entered_iff {loop : Bool} {s t : World} (e : Effect loop s t) (hs : WellFormed s) {c : ConnId}
    (h : s.inMap c = true ↔ Entered c s.trace) (hno : .removeConnection c ∉ t.trace) : t.inMap c = true ↔ Entered c t.trace := by
  cases e.view hs c with
  | aside evs _ _ htr hev hmap => rw [hmap, h, htr, entered_aside hev]
  | own _ hown _ _ htr hmap => rw [hmap, h, htr, entered_append (hown.quiet c)]
  | shut _ _ _ _ _ htr hmap => rw [hmap, h, htr, entered_append (by simp)]
  | made _ _ _ htr hmap => rw [hmap, h, htr, entered_append (by simp)]
  | removal _ hev _ _ htr hmap =>
    obtain rfl | rfl := hev
    · simp [hmap, htr, Entered]
    · exact absurd (by simp [htr]) hno
  | entered hnew _ _ htr hmap => simp [hmap, htr, Entered, hnew.2]

/-- An entry is put under a name that is not there, or is there no more. -/
theorem Effect.names {loop : Bool} {s t : World} (e : Effect loop s t) (h : (s.tcpConnections.map Prod.fst).Nodup) :
    (t.tcpConnections.map Prod.fst).Nodup := by
  cases e with
  | removal => exact nodup_erase h _
  | entered =>
    simp only [World.entered, World.assigned, List.map_cons, List.nodup_cons]
    refine ⟨fun hm => ?_, nodup_erase h _⟩
    obtain ⟨e, he, hn⟩ := List.mem_map.1 hm
    simp [hn] at he
  | @reported p => cases p <;> exact h
  | _ => exact h

/-- **Every effect** but a call of `removeConnection` by user code keeps the registry exact. -/
theorem Effect.registry {loop : Bool} {s t : World} (e : Effect loop s t) (hs : WellFormed s) (h : Registry s)
    (hno : ∀ c, .removeConnection c ∉ t.trace) : Registry t where
  exact c := e.entered_iff hs (h.exact c) (hno c)
  nodup := e.names h.nodup

theorem registry_init (ipPort : Name) (listenFd timerFd : Fd) : Registry (World.init ipPort listenFd timerFd) where
  exact c := by simp [World.init, World.inMap, Entered]
  nodup := List.nodup_nil

/-- **The registry is exact** in every state that is visited while user code does not call `removeConnection`: it
holds the connections that were entered and not closed, each once and under its own name; no two connections of the
run share a name; and erasing the name of a connection, at its first close or at a later one, takes that connection's
entry and no other. -/
theorem registry_exact (ipPort : Name) (listenFd timerFd : Fd) (w : World) (h : Visited ipPort listenFd timerFd w)
    (hno : ∀ c, .removeConnection c ∉ w.trace) :
    (∀ c, w.inMap c = true ↔ .established c ∈ w.trace ∧ .closeCallback c ∉ w.trace) ∧
    (w.tcpConnections.map Prod.fst).Nodup ∧
    (∀ n c, (n, c) ∈ w.tcpConnections → ∃ o, w.conns c = some o ∧ o.name = n) ∧
    (∃ name : ConnId → Name, Function.Injective name ∧ (∀ c, name c = ipPort ++ '-' :: Nat.toDigits 10 (c + 1)) ∧
      (∀ c o, w.conns c = some o → o.name = name c) ∧
      ∀ c d, .established c ∉ w.trace → (name c, d) ∉ w.tcpConnections) ∧
    ∀ c o, w.conns c = some o → w.tcpConnections.filter (·.1 != o.name) = w.tcpConnections.filter (·.2 != c) := by
  have run := h.effects (I := fun w => w.ipPort = ipPort ∧ ((∀ c, .removeConnection c ∉ w.trace) → Registry w))
    ⟨rfl, fun _ => registry_init ..⟩ fun s t hs e hI =>
      ⟨e.ipPort.trans hI.1, fun hno => e.registry hs (hI.2 fun c hm => hno c (e.trace.subset hm)) hno⟩
  obtain ⟨wf, hip, registry⟩ := run
  have registry := registry hno
  have ho := wf.objects
  refine ⟨registry.exact, registry.nodup, fun n c hm => ?_, ⟨fun c => TcpServer.connectionName ipPort (c + 1), ?_,
    fun _ => rfl, fun c o hc => hip ▸ ho.named c o hc, fun c d hn hm => ?_⟩, fun c o hc => ?_⟩
  · have hlive := ho.alive c (World.owned_iff.2 (.inl (World.inMap_iff.2 ⟨n, hm⟩)))
    obtain ⟨o, hc⟩ := Option.isSome_iff_exists.1 hlive
    exact ⟨o, hc, (ho.named c o hc).trans (ho.entries n c hm).symm⟩
  · intro c d he
    exact Nat.succ.inj (connectionName_inj he)
  · obtain rfl : d = c := ho.entry_own (hip ▸ hm)
    exact hn ((registry.exact d).1 (World.inMap_iff.2 ⟨_, hm⟩)).1
  · rw [ho.named c o hc, ho.erase_name c]

/-- Two clients connect; the first one hangs up with a read of nothing after it, so that `removeConnection` runs twice. -/
theorem registry_exact_twice :
    ∃ w : World, Run step (fun _ _ => True) (World.init [] 3 4) w ∧ w.trace.count (.closeCallback 0) = 2 ∧
      w.inMap 0 = false ∧ w.inMap 1 = true := by
  obtain ⟨w, run, hw⟩ := Run.reaches step (fun _ _ => True) (World.init [] 3 4)
    [.poll [(3, EPOLLIN)], .dispatch { clientfd := some 5, sock := some 6, up := .keep 0 .done },
      .poll [(3, EPOLLIN)], .dispatch { clientfd := some 7, sock := some 8 },
      .poll [(5, EPOLLHUP ||| EPOLLIN)], .dispatch { readv := some [] }]
    (fun w => w.trace.count (.closeCallback 0) = 2 ∧ (Event.closeCallback 0 ∈ w.trace ∧ Event.established 1 ∈ w.trace ∧
      Event.closeCallback 1 ∉ w.trace) ∧ ∀ ev ∈ w.trace, ev.removes = false)
    (by decide +kernel) (by decide +kernel)
  obtain ⟨htwo, ⟨hclosed, hestablished, hopen⟩, hno⟩ := hw
  have exact := (registry_exact [] 3 4 w (.inl run) fun c hm => absurd (hno _ hm) (by simp [Event.removes])).1
  refine ⟨w, run, htwo, ?_, (exact 1).2 ⟨hestablished, hopen⟩⟩
  rw [← Bool.not_eq_true, exact 0]
  exact fun hin => hin.2 hclosed

end NetServer
