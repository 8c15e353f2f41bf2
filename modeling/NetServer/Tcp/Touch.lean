import NetServer.Tcp.Pointers
/-!
# What a call on one connection changes

A call on a connection that is no change of its owners leaves the state as it was but for the object, its registration, the
`SHUT_WR`s on its socket and what is recorded: the object keeps its name and its descriptors, and the interest set goes on
saying what its channel says (`Touched`). What all these calls preserve is shown of `Touched`, once for each property.
-/

namespace NetServer
open Exec

/-- The connection keeps its name and its descriptors. -/
structure SameIdentity (o o' : TcpConnection) : Prop where
  name : o'.name = o.name
  socket : o'.socket = o.socket
  fd : o'.channel.fd = o.channel.fd

theorem SameIdentity.trans {o x y : TcpConnection} (h : SameIdentity o x) (h' : SameIdentity x y) : SameIdentity o y :=
  ⟨h'.name.trans h.name, h'.socket.trans h.socket, h'.fd.trans h.fd⟩

inductive Touched (c : ConnId) (s : World) : World → Prop where
  | told {tr : List Event} (htr : s.trace <+: tr) : Touched c s { s with trace := tr }
  | changed {o o' : TcpConnection} {k : Interest ChannelPtr} {sh : Fd → Nat} {tr : List Event} (hc : s.conns c = some o)
      (hid : SameIdentity o o')
      (hm : Polled.Mirrors (.conn c) ⟨o.channel, s.interest⟩ → Polled.Mirrors (.conn c) ⟨o'.channel, k⟩)
      (hk : ∀ f, f ≠ o.channel.fd → k f = s.interest f) (hs : ∀ f, f ≠ o.socket → sh f = s.shutWr f)
      (htr : s.trace <+: tr) : Touched c s { s.put c o' with interest := k, shutWr := sh, trace := tr }

/-- Where a call stops: on a connection that is gone, or with a fault that says so. -/
structure TouchStop (c : ConnId) (e : Fault) (s t : World) : Prop where
  trace : s.trace <+: t.trace
  outside : e = .outside → Touched c s t
  gone : e = .useAfterFree → s.conns c = none

namespace Touched

variable {c : ConnId} {s t u : World}

theorem refl (s : World) : Touched c s s := .told (List.prefix_refl _)

theorem trace (h : Touched c s t) : s.trace <+: t.trace := by
  cases h with
  | told htr => exact htr
  | changed _ _ _ _ _ htr => exact htr

theorem gone (h : Touched c s t) (hn : t.conns c = none) : s.conns c = none := by
  cases h with
  | told => exact hn
  | changed => simp [World.put] at hn

theorem trans (h : Touched c s t) (h' : Touched c t u) : Touched c s u := by
  cases h with
  | told htr =>
    cases h' with
    | told htr' => exact .told (htr.trans htr')
    | changed hc hid hm hk hs htr' => exact .changed hc hid hm hk hs (htr.trans htr')
  | @changed o x k sh tr hc hid hm hk hs htr =>
    cases h' with
    | told htr' => exact .changed hc hid hm hk hs (htr.trans htr')
    | @changed x' y k' sh' tr' hc' hid' hm' hk' hs' htr' =>
      obtain rfl : x = x' := by simpa [World.put] using hc'
      have put : ({ s.put c x with interest := k, shutWr := sh, trace := tr } : World).put c y =
          { s.put c y with interest := k, shutWr := sh, trace := tr } := by
        simp [World.put]
      rw [put]
      refine .changed hc (hid.trans hid') (fun h => hm' (hm h)) (fun f hf => ?_) (fun f hf => ?_) (htr.trans htr')
      · exact (hk' f (by rw [hid.fd]; exact hf)).trans (hk f hf)
      · exact (hs' f (by rw [hid.socket]; exact hf)).trans (hs f hf)

end Touched

theorem touch_composes (c : ConnId) : Composes (Touched c) (TouchStop c) where
  refl := .refl
  trans h h' := h.trans h'
  later h h' := ⟨h.trace.trans h'.trace, fun he => h.trans (h'.outside he), fun he => h.gone (h'.gone he)⟩

/-- A call on the connection. -/
abbrev Touches (c : ConnId) {α : Type} (x : M α) : Prop := Moves Anywhere (Touched c) (TouchStop c) x

section
variable {c : ConnId} {s : World}

theorem Touches.bind {α β : Type} {x : M α} {f : α → M β} (hx : Touches c x) (hf : ∀ a, Touches c (f a)) :
    Touches c (x >>= f) := Moves.bind (touch_composes c) (fun _ h => h) hx hf

theorem touch_stop {e : Fault} (h : e ≠ .useAfterFree) : TouchStop c e s s :=
  ⟨List.prefix_refl _, fun _ => .refl s, fun he => absurd he h⟩

theorem touch_gone (h : s.conns c = none) : TouchStop c .useAfterFree s s := ⟨List.prefix_refl _, nofun, fun _ => h⟩

variable (c)

theorem deref_touches : Touches c (deref c) := by
  intro s _
  rw [ensures_deref]
  exact ⟨fun _ _ => .refl s, touch_gone⟩

theorem emit_touches (ev : Event) : Touches c (emit ev) := fun _ _ => .told (List.prefix_append ..)

theorem setConnectState_touches (st : ConnectState) : Touches c (setConnectState c st) := by
  intro s _
  rw [ensures_setConnectState]
  exact ⟨fun o hc => .changed hc ⟨rfl, rfl, rfl⟩ id (fun _ _ => rfl) (fun _ _ => rfl) (List.prefix_append ..), touch_gone⟩

theorem onInput_touches {α : Type} {x : BufM α} (hx : Buffer.Contained x) : Touches c (onInput c x) := by
  intro s _
  rw [ensures_onInput]
  refine ⟨fun o hc => (hx o.inputBuffer).mono (fun _ _ _ => ?_) fun e _ he => ?_, touch_gone⟩
  · exact .changed hc ⟨rfl, rfl, rfl⟩ id (fun _ _ => rfl) (fun _ _ => rfl) (List.prefix_refl _)
  · exact ⟨List.prefix_refl _, fun h => absurd h he.ne_outside, fun h => absurd h he.ne_useAfterFree⟩

theorem onOutput_touches {α : Type} {x : BufM α} (hx : Buffer.Contained x) : Touches c (onOutput c x) := by
  intro s _
  rw [ensures_onOutput]
  refine ⟨fun o hc => (hx o.outputBuffer).mono (fun _ _ _ => ?_) fun e _ he => ?_, touch_gone⟩
  · exact .changed hc ⟨rfl, rfl, rfl⟩ id (fun _ _ => rfl) (fun _ _ => rfl) (List.prefix_refl _)
  · exact ⟨List.prefix_refl _, fun h => absurd h he.ne_outside, fun h => absurd h he.ne_useAfterFree⟩

theorem onChannel_touches (op : ChannelOp) : Touches c (onChannel c fun self => op.code self) := by
  intro s _
  rw [ensures_onChannel]
  refine ⟨fun o hc => ?_, touch_gone⟩
  have frame := op.code_frame (ChannelPtr.conn c) ⟨o.channel, s.interest⟩
  have mirrors := Ensures.assume fun h => op.code_mirrors (ChannelPtr.conn c) (p := ⟨o.channel, s.interest⟩) h
  refine (frame.and mirrors).mono ?_ ?_
  · rintro _ p ⟨hf, hm⟩
    exact .changed hc ⟨rfl, rfl, hf.fd⟩ (fun h => (hm h).2.1) hf.others (fun _ _ => rfl) (List.prefix_refl _)
  · rintro _ p ⟨rfl | rfl, -⟩
    · exact ⟨List.prefix_refl _, nofun, nofun⟩
    · exact ⟨List.prefix_refl _, nofun, nofun⟩

theorem shutdown_touches (ok : Bool) : Touches c (TcpConnection.shutdown c ok) := by
  intro s _
  simp only [TcpConnection.shutdown, shutdownWrite, ensures_bind, ensures_deref, ensures_emit, ensures_ite,
    ensures_setConnectState, ensures_modify, ensures_throw, ensures_pure]
  refine ⟨fun o hc => ⟨fun _ => ⟨fun x hx => ⟨fun _ => ?_, fun _ => ?_⟩, fun hn => by simp [hc] at hn⟩, fun _ => ?_⟩, touch_gone⟩
  · obtain rfl : o = x := Option.some.inj (hc.symm.trans hx)
    -- only the descriptor that `Sockets()` opened is shut down
    refine .changed hc ⟨rfl, rfl, rfl⟩ id (fun _ _ => rfl) (fun f hf => Function.update_of_ne hf ..) ?_
    simp
  · exact ⟨by simp, by simp, by simp⟩
  · exact .told (List.prefix_append ..)

theorem send_touches (message : Bytes) (r : Option Nat) : Touches c (TcpConnection.send c message r) :=
  send_moves (touch_composes c) (fun _ h => h) touch_stop (deref_touches c) (fun _ _ _ => emit_touches c _)
    (onOutput_touches c) (fun op _ => onChannel_touches c op) message (emit_touches c _) r

theorem handleWrite_touches (r : Option Nat) (shut : Bool) : Touches c (TcpConnection.handleWrite c r shut) :=
  handleWrite_moves (touch_composes c) (fun _ h => h) touch_stop (deref_touches c) (fun _ _ _ => emit_touches c _)
    (onOutput_touches c) (fun op _ => onChannel_touches c op) (shutdown_touches c) r shut

theorem removeChannel_touches : Touches c (TcpConnection.removeChannel c) :=
  (deref_touches c).bind fun _ => Touches.bind (.get (touch_composes c)) fun _ => (emit_touches c _).bind fun _ =>
    onChannel_touches c .remove

end

/-! ## The parts of the code, from its calls -/

section
variable {H : ConnId → World → Prop} {may : CallKind → ConnId → Bool} {R : World → World → Prop}
  {E : Fault → World → World → Prop}

theorem retrieve_touches (c : ConnId) (len : Nat) : Touches c (TcpConnection.retrieve c len) :=
  retrieve_moves (touch_composes c) (fun _ h => h) (onInput_touches c) (fun _ => emit_touches c _) (deref_touches c) len

theorem retrieveAsString_touches (c : ConnId) : Touches c (TcpConnection.retrieveAsString c) :=
  retrieveAsString_moves (touch_composes c) (fun _ h => h) (onInput_touches c) fun _ => emit_touches c _

/-- The units that are left are those where pointers come and go. -/
theorem units_of_touches (hc : Composes R E) (hH : ∀ {c s t}, R s t → H c s → H c t)
    (touch : ∀ {α : Type} c {x : M α}, Touches c x → Moves (H c) R E x)
    (hptr : ∀ c {x : M Unit}, Moves (H c) R E x → Moves (H c) R E (withPtr c x))
    (herase : ∀ c, Moves (H c) R E (do let o ← deref c; eraseEntry o.name)) : Units H R E where
  toComposes := hc
  atHand := hH
  deref c := touch c (deref_touches c)
  withPtr := hptr
  connectionCallback c _ := touch c (emit_touches c _)
  closeCallback c := touch c (emit_touches c _)
  called c := touch c (emit_touches c _)
  comesUp c := touch c ((deref_touches c).bind fun _ =>
    Touches.bind (.ite (.pure (touch_composes c) _) fun _ _ => touch_stop (by decide)) fun _ => setConnectState_touches c _)
  goesDown c := touch c (setConnectState_touches c _)
  onChannel c op _ := touch c (onChannel_touches c op)
  removeChannel c := touch c (removeChannel_touches c)
  handleWrite c r shut := touch c (handleWrite_touches c r shut)
  eraseOwn := herase

theorem readers_of_touches (u : Units H R E) (touch : ∀ {α : Type} c {x : M α}, Touches c x → Moves (H c) R E x) :
    Readers H R E :=
  u.readers (fun c => touch c (emit_touches c _)) (fun c _ hx => touch c (onInput_touches c hx)) fun c _ =>
    touch c (emit_touches c _)

theorem userCalls_of_touches (hc : Composes R E) (outside : ∀ s, E .outside s s)
    (touch : ∀ {α : Type} {k c} {x : M α}, may k c = true → Touches c x → Moves (Pointed c) R E x)
    (hremove : ∀ c {down : M Unit}, may .removeConnection c = true → Moves Anywhere R E down →
      Moves (Pointed c) R E (withRef c do
        emit (.removeConnection c)
        TcpServer.removeConnection c down))
    (hkeep : ∀ c, may .keep c = true → Moves (Pointed c) R E (keepPtr c))
    (hdrop : ∀ c, may .drop c = true → Moves Anywhere R E (dropPtr c))
    (htimers : ∀ x : Timers.Call, Moves Anywhere R E (onTimers x.run)) : UserCalls may R E where
  toComposes := hc
  outside := outside
  send c message r hmay := touch hmay (send_touches c message r)
  echo c r hmay := touch hmay ((retrieveAsString_touches c).bind fun s => send_touches c s r)
  retrieve c len hmay := touch hmay (retrieve_touches c len)
  shutdown c ok hmay := touch hmay (shutdown_touches c ok)
  removeConnection := hremove
  keepPtr := hkeep
  dropPtr := hdrop
  timer := htimers

/-- Where nothing is asked of a connection. -/
theorem parts_of_touches (u : Units (fun _ => Anywhere) R E) (outside : ∀ s, E .outside s s)
    (touch : ∀ {α : Type} c {x : M α}, Touches c x → Moves Anywhere R E x)
    (hstop : ∀ s, E .assertFailed s s) (hopen : ∀ fd, Moves Anywhere R E (openFd fd))
    (href : ∀ c {x : M Unit}, Moves Anywhere R E x → Moves Anywhere R E (withRef c x))
    (hkeep : ∀ c, Moves (Pointed c) R E (keepPtr c)) (hdrop : ∀ c, Moves Anywhere R E (dropPtr c))
    (htimers : ∀ x : Timers.Call, Moves Anywhere R E (onTimers x.run))
    (hnew : ∀ clientfd sock {up : Script}, Moves Anywhere R E up.run →
      Moves Anywhere R E (do openFd clientfd; TcpServer.newConnection clientfd (some sock) up.run)) : Parts R E where
  toReaders := readers_of_touches u touch
  outside := outside
  send c message r := touch c (send_touches c message r)
  retrieve c len := touch c (retrieve_touches c len)
  retrieveAll c := touch c (retrieveAsString_touches c)
  shutdown c ok := touch c (shutdown_touches c ok)
  removeConnection c _ hd := (u.callRemoveConnection c (href c) hd).weaken fun _ _ => trivial
  keepPtr := hkeep
  dropPtr := hdrop
  timer := htimers
  -- no connection in particular
  accept4 _ := touch 0 (emit_touches 0 _)
  refused := Calls.refused_of u.toComposes hstop (fun _ => touch 0 (emit_touches 0 _)) hopen
  noSocket := Calls.noSocket_of u.toComposes hstop (touch 0 (emit_touches 0 _)) hopen
  newConnection := hnew

end

end NetServer
