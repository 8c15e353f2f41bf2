import NetServer.Tcp.Interest
/-!
# `removeConnection`, whenever it is called

User code may call `removeConnection(c)` from any callback, `c`'s own ones included. It works in every order (`c` out of
`tcpConnections_` and of the interest set, `DISCONNECTED`, one DOWN callback) but where a later call undoes it: above
all in the UP callback of `c`, after which `newConnection` enters `c` in the map all the same (`removeConnection_works`).
-/

namespace NetServer
open Exec

/-- A call that `c` does not expect once it is down: `shutdown()` that passes its test, `send` that keeps bytes back,
`handleClose`. -/
def Event.late (c : ConnId) : Event → Bool
  | .shutWr d was _ | .queued d was => d == c && was == .DISCONNECTED
  | .setConnectState d was st => d == c && was != .CONNECTED && st == .DISCONNECTED
  | _ => false

/-- No call on `c` comes when it is down, and `removeConnection(c)` is not called before `newConnection` has entered
`c`. -/
structure Undisturbed (c : ConnId) (trace : List Event) : Prop where
  late : ∀ ev ∈ trace, ev.late c = false
  entered : .removeConnection c ∉ trace.takeWhile (· != .established c)

instance decidableUndisturbed (c : ConnId) (trace : List Event) : Decidable (Undisturbed c trace) :=
  decidable_of_iff ((∀ ev ∈ trace, ev.late c = false) ∧ .removeConnection c ∉ trace.takeWhile (· != .established c))
    ⟨fun h => ⟨h.1, h.2⟩, fun h => ⟨h.late, h.entered⟩⟩

theorem Undisturbed.of_prefix {c : ConnId} {l l' : List Event} (h : Undisturbed c l') (hp : l <+: l') : Undisturbed c l where
  late ev hev := h.late ev (hp.subset hev)
  entered hm := by
    obtain ⟨r, rfl⟩ := hp
    refine h.entered ?_
    rw [List.takeWhile_append]
    split
    · rename_i hlen
      have hall : l.takeWhile (· != .established c) = l := List.IsPrefix.eq_of_length (List.takeWhile_prefix _) hlen
      exact List.mem_append_left _ (hall ▸ hm)
    · exact hm

/-- The DOWN callbacks of the connection. -/
def downs (c : ConnId) (trace : List Event) : Nat := trace.count (.connectionCallback c false)

@[simp] theorem downs_append (c : ConnId) (l l' : List Event) : downs c (l ++ l') = downs c l + downs c l' :=
  List.count_append

theorem downs_eq_zero {c : ConnId} {l : List Event} (h : ∀ ev ∈ l, ev.touches c = false) : downs c l = 0 := by
  refine List.count_eq_zero.2 fun hm => ?_
  have := h _ hm
  simp [Event.touches] at this

/-! ## The invariant of one connection -/

/-- Up: registered, and nobody has been told otherwise. -/
structure Up (c : ConnId) (trace : List Event) (o : TcpConnection) : Prop where
  state : o.connectState = .CONNECTED
  added : o.channel.status = .ADDED
  untold : downs c trace = 0
  unremoved : .removeConnection c ∉ trace

/-- Down: out of the interest set, and the user knows. -/
structure Down (c : ConnId) (trace : List Event) (o : TcpConnection) : Prop where
  state : o.connectState = .DISCONNECTED
  silent : o.channel.events = Channel.NoEvent
  notAdded : o.channel.status ≠ .ADDED
  told : downs c trace = 1

structure Parting (c : ConnId) (w : World) : Prop where
  fresh : w.nextConn ≤ c → downs c w.trace = 0 ∧ .removeConnection c ∉ w.trace
  either : ∀ o, w.conns c = some o → Up c w.trace o ∨ Down c w.trace o
  out : .removeConnection c ∈ w.trace → w.inMap c = false

theorem goneDown_status {o : TcpConnection} (h : o.channel.status = .ADDED) : o.goneDown.channel.status = .DEL := by
  simp [TcpConnection.goneDown, Channel.set, Channel.nextStatus, h]

section
variable {c : ConnId} {l evs : List Event} {o o' : TcpConnection}

/-- A connection that was up goes down, and its user is told once. -/
theorem Up.goDown (h : Up c l o) (hevs : downs c evs = 1) : Down c (l ++ evs) o.goneDown where
  state := rfl
  silent := rfl
  notAdded hst := by
    rw [goneDown_status h.added] at hst
    cases hst
  told := by rw [downs_append, h.untold, hevs]

/-- A connection's own change, as long as it is undisturbed. -/
theorem own_parting {waiting : Bool} (hown : Own c waiting o o' evs) (hp : Paced o) (hl : ∀ ev ∈ evs, ev.late c = false)
    (h : Up c l o ∨ Down c l o) : Up c (l ++ evs) o' ∨ Down c (l ++ evs) o' := by
  -- nothing but going down is recorded as such
  have up : ∀ {x : TcpConnection}, Up c l o → x.connectState = .CONNECTED → x.channel.status = .ADDED →
      downs c evs = 0 → .removeConnection c ∉ evs → Up c (l ++ evs) x := fun h hst hadd hd hr =>
    ⟨hst, hadd, by rw [downs_append, h.untold, hd], by simp [h.unremoved, hr]⟩
  have down : ∀ {x : TcpConnection}, Down c l o → x.connectState = .DISCONNECTED → x.channel.events = Channel.NoEvent →
      x.channel.status ≠ .ADDED → downs c evs = 0 → Down c (l ++ evs) x := fun h hst hev hadd hd =>
    ⟨hst, hev, hadd, by rw [downs_append, h.told, hd]⟩
  cases hown with
  | queued hb hr =>
    refine h.imp (fun h => up h h.state ?_ rfl (by simp)) fun h => ?_
    · dsimp only
      split
      · exact h.added
      · exact Channel.set_added (Mask.ne_noEvent (Mask.has_or_self o.channel.events EPOLLOUT (by decide)))
    · have := hl _ (List.mem_singleton_self _)
      simp [Event.late, h.state] at this
  | wrote hw =>
    refine h.imp (fun h => up h h.state h.added rfl (by simp)) fun h => ?_
    rw [isWriting_none h.silent] at hw
    cases hw
  | drained hw =>
    refine h.imp (fun h => up h h.state ?_ rfl (by simp)) fun h => ?_
    · have reads : (o.channel.events &&& ~~~EPOLLOUT).has EPOLLIN = true :=
        (Mask.has_and_not_other _ _ (by decide)).trans (hp.connected h.state).2
      exact Channel.set_added (Mask.ne_noEvent reads)
    · rw [isWriting_none h.silent] at hw
      cases hw
  | input => exact h.imp (fun h => up h h.state h.added rfl (by simp)) fun h => down h h.state h.silent h.notAdded rfl
  | removed hidle =>
    have hnone : o.channel.events = Channel.NoEvent := by simpa [Channel.isNoneEvent] using hidle
    refine h.imp (fun h => ?_) fun h => down h h.state h.silent (by simp) rfl
    exact absurd hnone (Mask.ne_noEvent (hp.connected h.state).2)
  | down =>
    obtain h | h := h
    · exact .inr (h.goDown (by simp [downs]))
    · have := hl _ (List.mem_cons_self ..)
      simp [Event.late, h.state] at this

/-- `removeConnection`: a connection that is up goes down. -/
theorem parting_down {ev : Event} (hev : ev = .closeCallback c ∨ ev = .removeConnection c) (h : Up c l o ∨ Down c l o) :
    Down c (l ++ ev :: o.parting c) o.parted := by
  have silent : ∀ l, downs c (ev :: l) = downs c l := by
    obtain rfl | rfl := hev
    · exact fun l => List.count_cons_of_ne (by simp)
    · exact fun l => List.count_cons_of_ne (by simp)
  obtain h | h := h
  · rw [TcpConnection.parted, TcpConnection.parting, if_pos h.state, if_pos h.state]
    exact h.goDown (by rw [silent]; simp [downs])
  · have hst : o.connectState ≠ .CONNECTED := by simp [h.state]
    rw [TcpConnection.parted, TcpConnection.parting, if_neg hst, if_neg hst]
    exact ⟨h.state, h.silent, h.notAdded, by rw [downs_append, silent, h.told]; rfl⟩

end

/-- **Every effect** keeps it, as long as the connection is undisturbed. -/
theorem Effect.parting {loop : Bool} {s t : World} (e : Effect loop s t) (hs : WellFormed s) {c : ConnId}
    (hp : ∀ o, s.conns c = some o → Paced o) (h : Parting c s) (ht : Undisturbed c t.trace) : Parting c t := by
  have made : ∀ {o : TcpConnection}, s.conns c = some o → t.nextConn = s.nextConn → ¬ t.nextConn ≤ c := fun hc hn =>
    Nat.not_le.2 (hn ▸ hs.objects.allocated c _ hc)
  have late := ht.late
  cases e.view hs c with
  | aside evs hn hobj htr hev hmap =>
    have quiet := downs_eq_zero hev
    have called : .removeConnection c ∈ t.trace ↔ .removeConnection c ∈ s.trace := by
      rw [htr, List.mem_append, or_iff_left]
      intro hm
      have := hev _ hm
      simp [Event.touches] at this
    have counted : downs c t.trace = downs c s.trace := by rw [htr, downs_append, quiet, Nat.add_zero]
    refine ⟨fun hle => ?_, fun o ho => ?_, fun hm => ?_⟩
    · rw [counted, called]
      exact h.fresh (hn.trans hle)
    · obtain ⟨x, mask, hx, rfl, _⟩ := hobj o ho
      refine (h.either x hx).imp (fun h => ?_) fun h => ?_
      · exact ⟨h.state, h.added, counted.trans h.untold, fun hm => h.unremoved (called.1 hm)⟩
      · exact ⟨h.state, h.silent, h.notAdded, counted.trans h.told⟩
    · rw [hmap]
      exact h.out (called.1 hm)
  | own hc hown hn ht htr hmap =>
    refine ⟨fun hle => absurd hle (made hc hn), fun o ho => ?_, fun hm => ?_⟩
    · obtain rfl := Option.some.inj (ht.symm.trans ho)
      rw [htr]
      exact own_parting hown (hp _ hc) (fun ev hev => late ev (htr ▸ List.mem_append_right _ hev)) (h.either _ hc)
    · rw [hmap]
      refine h.out ((List.mem_append.1 (htr ▸ hm)).resolve_right fun hm => ?_)
      cases hown <;> simp at hm
  | @shut o hc hst _ _ _ htr =>
    -- the connection is down, and `shutdown()` was called
    have hdown : o.connectState = .DISCONNECTED :=
      (h.either o hc).elim (fun h => absurd h.state hst) Down.state
    have := late (.shutWr c o.connectState true) (by simp [htr])
    simp [Event.late, hdown] at this
  | removal hc hev hn ht htr hmap =>
    refine ⟨fun hle => absurd hle (made hc hn), fun o ho => ?_, fun _ => hmap⟩
    obtain rfl := Option.some.inj (ht.symm.trans ho)
    rw [htr]
    exact .inr (parting_down hev (h.either _ hc))
  | made hc hn ht htr hmap =>
    obtain ⟨untold, uncalled⟩ := h.fresh hc.le
    have called : .removeConnection c ∉ t.trace := by simp [htr, uncalled]
    refine ⟨fun hle => ?_, fun o ho => .inl ?_, fun hm => absurd hm called⟩
    · rw [hn, hc] at hle
      exact absurd hle (Nat.not_succ_le_self c)
    · obtain rfl := Option.some.inj (ht.symm.trans ho)
      refine ⟨rfl, rfl, ?_, called⟩
      rw [htr, downs_append, untold]
      simp [downs]
  | entered hnew hn ht' htr hmap =>
    have before : ∀ ev ∈ s.trace, (ev != .established c) = true := fun ev hev => by
      rw [bne_iff_ne]
      rintro rfl
      exact hnew.1 hev
    have uncalled : .removeConnection c ∉ s.trace := by
      have := ht.entered
      rwa [htr, List.takeWhile_append_of_pos before, List.takeWhile_cons_of_neg (by simp), List.append_nil] at this
    have called : .removeConnection c ∉ t.trace := by simp [htr, uncalled]
    have counted : downs c t.trace = downs c s.trace := by simp [htr, downs]
    refine ⟨fun hle => ⟨counted.trans (h.fresh (hn ▸ hle)).1, called⟩, fun o ho => ?_, fun hm => absurd hm called⟩
    refine (h.either o (ht' ▸ ho)).imp (fun h => ?_) fun h => ?_
    · exact ⟨h.state, h.added, counted.trans h.untold, called⟩
    · exact ⟨h.state, h.silent, h.notAdded, counted.trans h.told⟩

/-- **`removeConnection` works whenever it is called** on a connection that is otherwise undisturbed: in every state that
is visited after the call the connection is out of the map and out of the interest set, `DISCONNECTED`, and its user has
been told once. -/
theorem removeConnection_works (ipPort : Name) (listenFd timerFd : Fd) (w : World) (h : Visited ipPort listenFd timerFd w)
    (c : ConnId) (o : TcpConnection) (hc : w.conns c = some o) (hcalled : .removeConnection c ∈ w.trace)
    (hok : Undisturbed c w.trace) :
    w.inMap c = false ∧ o.connectState = .DISCONNECTED ∧ w.interest o.channel.fd = none ∧
      w.trace.count (.connectionCallback c false) = 1 := by
  have init : Parting c (World.init ipPort listenFd timerFd) := ⟨fun _ => ⟨rfl, nofun⟩, nofun, nofun⟩
  have run := h.effects (I := fun w => (∀ c o, w.conns c = some o → Paced o) ∧ (Undisturbed c w.trace → Parting c w))
    ⟨nofun, fun _ => init⟩ fun s t hs e hI =>
      ⟨e.connections ownInvariant_paced hI.1, fun ht => e.parting hs (hI.1 c) (hI.2 (ht.of_prefix e.trace)) ht⟩
  obtain ⟨wf, _, parting⟩ := run
  have parting := parting hok
  obtain up | down := parting.either o hc
  · exact absurd hcalled up.unremoved
  · have mirrors := wf.objects.mirrors c o hc
    rw [Polled.Mirrors, if_neg down.notAdded] at mirrors
    exact ⟨parting.out hcalled, down.state, mirrors, down.told⟩

/-- Another connection's message callback removes the connection, whose DOWN callback removes it once more. -/
theorem removeConnection_works_twice :
    ∃ (w : World) (o : TcpConnection), Run step (fun _ _ => True) (World.init [] 3 4) w ∧ w.conns 0 = some o ∧
      w.trace.count (.removeConnection 0) = 2 ∧
      (w.inMap 0 = false ∧ o.connectState = .DISCONNECTED ∧ w.interest o.channel.fd = none ∧
        w.trace.count (.connectionCallback 0 false) = 1) := by
  obtain ⟨w, run, hw⟩ := Run.reaches step (fun _ _ => True) (World.init [] 3 4)
    [.poll [(3, EPOLLIN)], .dispatch { clientfd := some 5, sock := some 6, up := .keep 0 .done },
      .poll [(3, EPOLLIN)], .dispatch { clientfd := some 7, sock := some 8 },
      .poll [(7, EPOLLIN)], .dispatch { readv := some [1], message := .removeConnection 0 (.removeConnection 0 .done .done) .done }]
    (fun w => (w.conns 0).isSome ∧ w.trace.count (.removeConnection 0) = 2 ∧ Undisturbed 0 w.trace)
    (by decide +kernel) (by decide +kernel)
  obtain ⟨hlive, htwo, hok⟩ := hw
  obtain ⟨o, hc⟩ := Option.isSome_iff_exists.1 hlive
  have called : .removeConnection 0 ∈ w.trace := List.count_pos_iff.1 (htwo ▸ Nat.succ_pos 1)
  exact ⟨w, o, run, hc, htwo, removeConnection_works [] 3 4 w (.inl run) 0 o hc called hok⟩

/-- The UP callback of a connection calls `removeConnection` on it. -/
theorem not_removeConnection_works_up :
    ¬ ∀ (ipPort : Name) (listenFd timerFd : Fd) (w : World),
      Run step (fun _ a => a.ofLoop = true) (World.init ipPort listenFd timerFd) w → ∀ c o, w.conns c = some o →
        .established c ∈ w.trace → .removeConnection c ∈ w.trace → w.inMap c = false ∧ o.connectState = .DISCONNECTED ∧
          w.interest o.channel.fd = none ∧ w.trace.count (.connectionCallback c false) = 1 := by
  intro works
  obtain ⟨w, run, hw⟩ := Run.reaches step (fun _ a => a.ofLoop = true) (World.init [] 3 4)
    [.poll [(3, EPOLLIN)], .dispatch { clientfd := some 5, sock := some 6, up := .keep 0 (.removeConnection 0 .done .done) }]
    (fun w => (w.conns 0).isSome ∧ Event.established 0 ∈ w.trace ∧ Event.removeConnection 0 ∈ w.trace ∧ w.inMap 0 = true)
    (by decide +kernel) (by decide +kernel)
  obtain ⟨hlive, hestablished, hcalled, hin⟩ := hw
  obtain ⟨o, hc⟩ := Option.isSome_iff_exists.1 hlive
  rw [(works [] 3 4 w run 0 o hc hestablished hcalled).1] at hin
  cases hin

end NetServer
