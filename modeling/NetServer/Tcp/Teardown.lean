import NetServer.Tcp.Descriptors
/-!
# `~TcpServer` while the loop lives on

The body is empty: the members go, last declared first. `tcpConnections_` lets go of its connections, whose channels
say nothing to the epoller and whose sockets are not the client's; then the acceptor goes with its listening socket.
The interest set keeps whatever it held for a connection (`teardown_clean_iff`).

| here | there |
| --- | --- |
| `TcpServer.clear`      | the destructor of `tcpConnections_`, one `TcpConnectionPtr` after another |
| `TcpServer.destructor` | `TcpServer.cpp:20` and the destructors of the members that hold something: `tcpConnections_`, then `serverAcceptor_` |
-/

namespace NetServer
open Exec

namespace TcpServer

def clear : List (Name × ConnId) → M Unit
  | [] => pure ()
  | (_, c) :: rest => do
    modify fun w => { w with tcpConnections := rest }
    release c
    clear rest

def destructor : M Unit := do
  let w ← get
  clear w.tcpConnections
  closeFd w.acceptChannel.fd

end TcpServer

/-- An entry of the interest set that points to a channel of the server or of one of its connections. -/
def Dangling (w : World) : Prop := ∃ f e, w.interest f = some e ∧ (e.ptr = .acceptor ∨ ∃ c, e.ptr = .conn c)

/-- What the end of a connection leaves of the interest set: what is held for the server and for clients, and nothing
new. -/
structure Left (s t : World) : Prop where
  objects : Objects t
  ledger : Ledger t
  held : t.held = s.held
  kept : ∀ f ∈ s.held, t.interest f = s.interest f
  old : ∀ f e, t.interest f = some e → s.interest f = some e

theorem Left.refl {s : World} (ho : Objects s) (hl : Ledger s) : Left s s := ⟨ho, hl, rfl, fun _ _ => rfl, fun _ _ => id⟩

theorem Left.trans {s t u : World} (h : Left s t) (h' : Left t u) : Left s u where
  objects := h'.objects
  ledger := h'.ledger
  held := h'.held.trans h.held
  kept f hf := (h'.kept f (h.held ▸ hf)).trans (h.kept f hf)
  old f e he := h.old f e (h'.old f e he)

/-- `~TcpConnection` closes a socket that nobody else holds. -/
theorem left_destroyed {s : World} (ho : Objects s) (hl : Ledger s) {c : ConnId} {o : TcpConnection} (hc : s.conns c = some o)
    (hown : s.owned c = false) : Left s (s.destroyed c o) where
  objects := ho.destroyed hc hown _
  ledger := hl.destroy ho hc
  held := by
    have hbuilt : built (s.destroyed c o).trace = built s.trace := by simp [World.destroyed, built]
    rw [World.held, hbuilt]
    rfl
  kept f hf := by
    have hne : f ≠ o.socket := fun he => hl.sockets c o hc (he ▸ hf)
    simp [World.destroyed, hne]
  old f e he := by
    by_cases hf : f = o.socket
    · simp [World.destroyed, hf] at he
    · simpa [World.destroyed, hf] using he

/-- Letting go of a pointer to a connection that is there. -/
theorem release_left {s : World} (ho : Objects s) (hl : Ledger s) {c : ConnId} (hc : (s.conns c).isSome) :
    Ensures (release c) s (fun _ t => Left s t ∧ t.tcpConnections = s.tcpConnections) fun _ _ => False := by
  obtain ⟨o, hc⟩ := Option.isSome_iff_exists.1 hc
  refine ensures_release.2 ⟨fun _ => ⟨.refl ho hl, rfl⟩, fun hown => ⟨fun x hx => ?_, fun hn => by simp [hc] at hn⟩⟩
  obtain rfl : o = x := Option.some.inj (hc.symm.trans hx)
  exact ⟨left_destroyed ho hl hc hown, rfl⟩

/-- **The connections go**: induction on the entries of the map. -/
theorem clear_left (l : List (Name × ConnId)) {s : World} (ho : Objects s) (hl : Ledger s) (hmap : s.tcpConnections = l) :
    Ensures (TcpServer.clear l) s (fun _ t => Left s t) fun _ _ => False := by
  induction l generalizing s with
  | nil => exact .refl ho hl
  | cons e rest ih =>
    obtain ⟨n, c⟩ := e
    simp only [TcpServer.clear, ensures_bind, ensures_modify]
    have owned : ∀ {d}, ({ s with tcpConnections := rest } : World).owned d = true → s.owned d = true := by
      intro d hd
      rw [World.owned_iff] at hd ⊢
      refine hd.imp (fun hin => ?_) id
      obtain ⟨m, hm⟩ := World.inMap_iff.1 hin
      exact World.inMap_iff.2 ⟨m, hmap ▸ List.mem_cons_of_mem _ hm⟩
    have ho' : Objects { s with tcpConnections := rest } :=
      ho.owners s.frames s.userRefs rest s.trace (fun d hd => ho.alive d (owned hd)) fun m d hm =>
        ho.entries m d (hmap ▸ List.mem_cons_of_mem _ hm)
    have hl' : Ledger { s with tcpConnections := rest } := { hl with }
    have erased : Left s { s with tcpConnections := rest } := ⟨ho', hl', rfl, fun _ _ => rfl, fun _ _ => id⟩
    have alive : (s.conns c).isSome :=
      ho.alive c (World.owned_iff.2 (.inl (World.inMap_iff.2 ⟨n, hmap ▸ List.mem_cons_self ..⟩)))
    refine (release_left ho' hl' alive).mono ?_ fun _ _ hf => hf
    rintro _ t ⟨left, hrest⟩
    exact (ih left.objects left.ledger hrest).mono (fun _ _ h => (erased.trans left).trans h) fun _ _ hf => hf

/-- **`~TcpServer` returns**, and the entries it leaves are the old ones but for what the closed sockets held. -/
theorem destructor_left {w : World} (ho : Objects w) (hl : Ledger w) :
    ∃ t, TcpServer.destructor w = .ok () t ∧ t.interest w.acceptChannel.fd = none ∧
      (∀ f ∈ (built w.trace).map Prod.snd, t.interest f = w.interest f) ∧ ∀ f e, t.interest f = some e → w.interest f = some e := by
  obtain ⟨_, m, hclear, left⟩ := (clear_left w.tcpConnections ho hl rfl).returns
  have hrun : TcpServer.destructor w = .ok () { m with
      trace := m.trace ++ [.closed w.acceptChannel.fd]
      openFds := Function.update m.openFds w.acceptChannel.fd false
      interest := Function.update m.interest w.acceptChannel.fd none } := by
    simp [TcpServer.destructor, hclear, closeFd, emit]
  refine ⟨_, hrun, Function.update_self .., fun f hf => ?_, fun f e he => ?_⟩
  · have hne : f ≠ w.acceptChannel.fd := fun hacc => hl.server (hacc ▸ hf)
    have hheld : f ∈ w.held := by
      simp only [World.held, List.mem_cons]
      exact .inr (.inr hf)
    exact (Function.update_of_ne hne ..).trans (left.kept f hheld)
  · obtain ⟨-, he⟩ := of_update_none he
    exact left.old f e he

/-- **`~TcpServer` leaves nothing behind iff no connection is registered** when it runs, in every state that a run
reaches. -/
theorem teardown_clean_iff (ipPort : Name) (listenFd timerFd : Fd) (w : World) (h : Visited ipPort listenFd timerFd w) :
    ∃ t, TcpServer.destructor w = .ok () t ∧ (¬ Dangling t ↔ ∀ f e c, w.interest f = some e → e.ptr ≠ .conn c) := by
  obtain ⟨wf, ledger⟩ := h.ledger
  obtain ⟨t, hrun, closed, kept, old⟩ := destructor_left wf.objects ledger
  refine ⟨t, hrun, fun hclean f e c he hconn => ?_, fun hnone hdangling => ?_⟩
  · -- the client's descriptor stays open, and its entry with it
    have hclient : f ∈ (built w.trace).map Prod.snd := List.mem_map_of_mem (ledger.entry_conn he hconn)
    exact hclean ⟨f, e, (kept f hclient).trans he, .inr ⟨c, hconn⟩⟩
  · obtain ⟨f, e, he, hacc | ⟨c, hconn⟩⟩ := hdangling
    · obtain rfl := ledger.entry_acceptor (old f e he) hacc
      rw [closed] at he
      cases he
    · exact hnone f e c (old f e he) hconn

/-- The only client hangs up before the server goes. -/
theorem teardown_clean_iff_hup :
    ∃ w t : World, Run step (fun _ _ => True) (World.init [] 3 4) w ∧ w.trace.count (.established 0) = 1 ∧
      TcpServer.destructor w = .ok () t ∧ ¬ Dangling t := by
  obtain ⟨w, run, hw⟩ := Run.reaches step (fun _ _ => True) (World.init [] 3 4)
    [.poll [(3, EPOLLIN)], .dispatch { clientfd := some 5, sock := some 6, up := .keep 0 .done },
      .poll [(5, EPOLLHUP)], .dispatch {}, .user (.drop 0 .done)]
    (fun w => w.trace.count (.established 0) = 1 ∧ built w.trace = [(0, 5)] ∧ w.interest 5 = none)
    (by decide +kernel) (by decide +kernel)
  have visited : Visited [] 3 4 w := .inl run
  obtain ⟨t, ht, clean⟩ := teardown_clean_iff [] 3 4 w visited
  refine ⟨w, t, run, hw.1, ht, clean.2 fun f e c he hconn => ?_⟩
  obtain ⟨_, rfl⟩ : c = 0 ∧ f = 5 := by simpa [hw.2.1] using visited.ledger.2.entry_conn he hconn
  rw [hw.2.2] at he
  cases he

/-- One client is connected, and nobody but the server holds the connection. -/
theorem not_teardown_clean_connected :
    ¬ ∀ (ipPort : Name) (listenFd timerFd : Fd) (w : World),
      Run step (fun _ a => a.ofLoop = true) (World.init ipPort listenFd timerFd) w → (∀ c, w.userRefs c = 0) →
        ∀ t, TcpServer.destructor w = .ok () t → ¬ Dangling t := by
  intro clean
  obtain ⟨w, run, hw⟩ := Run.reaches step (fun _ a => a.ofLoop = true) (World.init [] 3 4)
    [.poll [(3, EPOLLIN)], .dispatch { clientfd := some 5, sock := some 6 }]
    (fun w => (w.nextConn = 1 ∧ w.userRefs 0 = 0) ∧
      Ensures TcpServer.destructor w (fun _ t => t.interest 5 = some ⟨EPOLLIN, .conn 0⟩) fun _ _ => False)
    (by decide +kernel) (by decide +kernel)
  obtain ⟨⟨hone, hzero⟩, hdangling⟩ := hw
  obtain ⟨_, t, ht, he⟩ := hdangling.returns
  have objects : Objects w := Visited.objects (.inl (run.weaken fun _ _ _ => trivial))
  have unreferenced : ∀ c, w.userRefs c = 0 := fun c => by
    by_contra hpos
    have alive := objects.alive c (World.owned_iff.2 (.inr (.inl (Nat.pos_of_ne_zero hpos))))
    obtain ⟨o, hc⟩ := Option.isSome_iff_exists.1 alive
    have hlt := objects.allocated c o hc
    rw [hone, Nat.lt_one_iff] at hlt
    exact hpos (hlt ▸ hzero)
  exact clean [] 3 4 w run unreferenced t ht ⟨5, _, he, .inr ⟨0, rfl⟩⟩

end NetServer
