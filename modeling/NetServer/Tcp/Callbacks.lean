import NetServer.Tcp.Objects
/-!
# The order of the callbacks of a connection

UP, any number of messages, DOWN, close: what a user sees of a connection is a prefix of that (`Orderly`). No
handler looks at `connectState_` before it calls back, so the order rests on the reports: what user code calls
makes a connection go down at most once (`Evolves`), and `Act.InOrder` says which reports reach `handleClose`
or `handleRead` on a connection that is already down.
-/

namespace NetServer
open Exec

inductive Callback where
  /-- `connectionCallback_` with `connected()`. -/
  | up
  | message
  /-- `connectionCallback_` without. -/
  | down
  | close
deriving DecidableEq, Repr

/-- The callback of the connection that an event records. -/
def Event.callback (c : ConnId) : Event → Option Callback
  | .connectionCallback d connected => if d = c then some (if connected then .up else .down) else none
  | .messageCallback d => if d = c then some .message else none
  | .closeCallback d => if d = c then some .close else none
  | _ => none

def callbacks (c : ConnId) (trace : List Event) : List Callback := trace.filterMap (Event.callback c)

@[simp] theorem callbacks_append (c : ConnId) (l l' : List Event) :
    callbacks c (l ++ l') = callbacks c l ++ callbacks c l' := List.filterMap_append ..

@[simp] theorem callbacks_nil (c : ConnId) : callbacks c [] = [] := rfl

@[simp] theorem callbacks_cons (c : ConnId) (ev : Event) (l : List Event) :
    callbacks c (ev :: l) = (ev.callback c).toList ++ callbacks c l := by
  cases h : ev.callback c <;> simp [callbacks, h]

/-- UP, messages, at most one DOWN, and the close callback right after it. -/
def Orderly (l : List Callback) : Prop := ∃ n, l <+: .up :: (List.replicate n .message ++ [.down, .close])

/-- UP and messages so far. -/
def Open (l : List Callback) : Prop := ∃ n, l = .up :: List.replicate n .message

namespace Open

variable {l : List Callback}

theorem up : Open [.up] := ⟨0, rfl⟩

theorem message (h : Open l) : Open (l ++ [.message]) := by
  obtain ⟨n, rfl⟩ := h
  exact ⟨n + 1, by rw [List.cons_append, List.replicate_succ']⟩

theorem close (h : Open l) : Orderly (l ++ [.down, .close]) := by
  obtain ⟨n, rfl⟩ := h
  exact ⟨n, List.prefix_refl _⟩

theorem down (h : Open l) : Orderly (l ++ [.down]) := by
  obtain ⟨n, hn⟩ := h.close
  exact ⟨n, .trans (by simp) hn⟩

theorem orderly (h : Open l) : Orderly l := by
  obtain ⟨n, hn⟩ := h.close
  exact ⟨n, .trans (List.prefix_append ..) hn⟩

theorem ne_nil (h : Open l) : l ≠ [] := by
  obtain ⟨n, rfl⟩ := h
  exact List.cons_ne_nil _ _

end Open

theorem orderly_nil : Orderly [] := ⟨0, List.nil_prefix⟩

/-! ## What a call can make of a connection -/

def Connected (c : ConnId) (w : World) : Prop := ∃ o, w.conns c = some o ∧ o.connectState = .CONNECTED

/-- Every object of `t` is one of `s`, with the same `revents_`. -/
def SameReports (s t : World) : Prop :=
  ∀ c o, t.conns c = some o → ∃ x, s.conns c = some x ∧ o.channel.revents = x.channel.revents

theorem SameReports.trans {s t u : World} (h : SameReports s t) (h' : SameReports t u) : SameReports s u := by
  intro c o ho
  obtain ⟨x, hx, hr⟩ := h' c o ho
  obtain ⟨y, hy, hr'⟩ := h c x hx
  exact ⟨y, hy, hr.trans hr'⟩

/-- A connection that is not connected stays so, and is not called back; one that is may go down, once. -/
structure Evolves (s t : World) : Prop where
  nextConn : t.nextConn = s.nextConn
  reports : SameReports s t
  silent : ∀ c, ¬ Connected c s → ¬ Connected c t ∧ callbacks c t.trace = callbacks c s.trace
  told : ∀ c, Connected c s → callbacks c t.trace = callbacks c s.trace ∨
    (¬ Connected c t ∧ callbacks c t.trace = callbacks c s.trace ++ [.down])

/-- The same of the callbacks alone, where the code stops. -/
structure EvolvesStop (_ : Fault) (s t : World) : Prop where
  silent : ∀ c, ¬ Connected c s → callbacks c t.trace = callbacks c s.trace
  told : ∀ c, Connected c s → callbacks c t.trace = callbacks c s.trace ∨
    callbacks c t.trace = callbacks c s.trace ++ [.down]

theorem evolves_composes : Composes Evolves EvolvesStop where
  refl s := ⟨rfl, fun c o ho => ⟨o, ho, rfl⟩, fun c h => ⟨h, rfl⟩, fun c _ => .inl rfl⟩
  trans {s t u} h h' := by
    refine ⟨h'.nextConn.trans h.nextConn, h.reports.trans h'.reports, fun c hc => ?_, fun c hc => ?_⟩
    · obtain ⟨ht, htr⟩ := h.silent c hc
      exact ⟨(h'.silent c ht).1, (h'.silent c ht).2.trans htr⟩
    · obtain htr | ⟨ht, htr⟩ := h.told c hc
      · by_cases ht : Connected c t
        · rw [← htr]; exact h'.told c ht
        · exact .inl ((h'.silent c ht).2.trans htr)
      · exact .inr ⟨(h'.silent c ht).1, (h'.silent c ht).2.trans htr⟩
  later {e s t u} h h' := by
    refine ⟨fun c hc => ?_, fun c hc => ?_⟩
    · obtain ⟨ht, htr⟩ := h.silent c hc
      exact (h'.silent c ht).trans htr
    · obtain htr | ⟨ht, htr⟩ := h.told c hc
      · by_cases ht : Connected c t
        · rw [← htr]; exact h'.told c ht
        · exact .inl ((h'.silent c ht).trans htr)
      · exact .inr ((h'.silent c ht).trans htr)

/-- Nobody becomes connected and nothing is called back. -/
theorem Evolves.quiet {s t : World} (hn : t.nextConn = s.nextConn)
    (hobj : ∀ c o, t.conns c = some o → ∃ x, s.conns c = some x ∧ o.channel.revents = x.channel.revents ∧
      (o.connectState = .CONNECTED → x.connectState = .CONNECTED))
    (htr : ∀ c, callbacks c t.trace = callbacks c s.trace) : Evolves s t where
  nextConn := hn
  reports c o ho := by
    obtain ⟨x, hx, hr, _⟩ := hobj c o ho
    exact ⟨x, hx, hr⟩
  silent c hc := by
    refine ⟨?_, htr c⟩
    rintro ⟨o, ho, hst⟩
    obtain ⟨x, hx, _, hs⟩ := hobj c o ho
    exact hc ⟨x, hx, hs hst⟩
  told c _ := .inl (htr c)

theorem EvolvesStop.quiet {e : Fault} {s t : World} (htr : ∀ c, callbacks c t.trace = callbacks c s.trace) :
    EvolvesStop e s t := ⟨fun c _ => htr c, fun c _ => .inl (htr c)⟩

/-- A write to one object that leaves `revents_` alone and does not make it connected. -/
theorem Evolves.put {s t : World} {c : ConnId} {o : TcpConnection} (hc : s.conns c = some o) (o' : TcpConnection)
    (ht : t.conns = Function.update s.conns c (some o')) (hn : t.nextConn = s.nextConn)
    (hr : o'.channel.revents = o.channel.revents) (hst : o'.connectState = .CONNECTED → o.connectState = .CONNECTED)
    (htr : ∀ c, callbacks c t.trace = callbacks c s.trace) : Evolves s t := by
  refine .quiet hn (fun d x hx => ?_) htr
  rw [ht] at hx
  obtain ⟨rfl, rfl⟩ | ⟨_, hx⟩ := of_update_some hx
  · exact ⟨o, hc, hr, hst⟩
  · exact ⟨x, hx, rfl, id⟩

/-- Nothing but owners, descriptors and the interest set changes. -/
theorem Evolves.same {s t : World} (hn : t.nextConn = s.nextConn) (hc : t.conns = s.conns)
    (htr : ∀ c, callbacks c t.trace = callbacks c s.trace) : Evolves s t :=
  .quiet hn (fun c o ho => ⟨o, by rw [← hc, ho], rfl, id⟩) htr

abbrev Evolving {α : Type} (x : M α) : Prop := Moves Anywhere Evolves EvolvesStop x

namespace Evolving

theorem bind {α β : Type} {x : M α} {f : α → M β} (hx : Evolving x) (hf : ∀ a, Evolving (f a)) : Evolving (x >>= f) :=
  Moves.bind evolves_composes (fun _ h => h) hx hf

end Evolving

theorem stop_evolves {e : Fault} {s : World} : EvolvesStop e s s := .quiet fun _ => rfl

theorem deref_evolves (c : ConnId) : Evolving (deref c) := by
  intro s _
  rw [ensures_deref]
  exact ⟨fun _ _ => evolves_composes.refl s, fun _ => stop_evolves⟩

theorem emit_evolves (ev : Event) (hev : ∀ c, ev.callback c = none) : Evolving (emit ev) := fun s _ =>
  .same rfl rfl fun c => by simp [hev c]

theorem onChannel_evolves (c : ConnId) (op : ChannelOp) : Evolving (onChannel c fun self => op.code self) := by
  intro s _
  rw [ensures_onChannel]
  refine ⟨fun o hc => ?_, fun _ => stop_evolves⟩
  have frame := op.code_frame (ChannelPtr.conn c) ⟨o.channel, s.interest⟩
  refine frame.mono (fun _ p hp => ?_) fun _ _ _ => .quiet fun _ => rfl
  exact Evolves.put hc { o with channel := p.channel } rfl rfl hp.revents id fun _ => rfl

theorem onInput_evolves {α : Type} (c : ConnId) {x : BufM α} (hx : Buffer.Contained x) : Evolving (onInput c x) := by
  intro s _
  rw [ensures_onInput]
  refine ⟨fun o hc => ?_, fun _ => stop_evolves⟩
  exact (hx o.inputBuffer).mono (fun _ b _ => .put hc _ rfl rfl rfl id fun _ => rfl) fun _ _ _ => .quiet fun _ => rfl

theorem onOutput_evolves {α : Type} (c : ConnId) {x : BufM α} (hx : Buffer.Contained x) : Evolving (onOutput c x) := by
  intro s _
  rw [ensures_onOutput]
  refine ⟨fun o hc => ?_, fun _ => stop_evolves⟩
  exact (hx o.outputBuffer).mono (fun _ b _ => .put hc _ rfl rfl rfl id fun _ => rfl) fun _ _ _ => .quiet fun _ => rfl

theorem setConnectState_evolves (c : ConnId) {st : ConnectState} (hst : st ≠ .CONNECTED) :
    Evolving (setConnectState c st) := by
  intro s _
  rw [ensures_setConnectState]
  exact ⟨fun o hc => .put hc _ rfl rfl rfl (fun h => absurd h hst) fun _ => by simp [Event.callback], fun _ => stop_evolves⟩

theorem shutdown_evolves (c : ConnId) (ok : Bool) : Evolving (TcpConnection.shutdown c ok) := by
  refine Evolving.bind (deref_evolves c) fun o => Evolving.bind (emit_evolves _ fun _ => rfl) fun _ =>
    .ite (Evolving.bind (setConnectState_evolves c (by decide)) fun _ =>
      Evolving.bind (emit_evolves _ fun _ => rfl) fun _ s _ => ?_) (.pure evolves_composes _)
  simp only [shutdownWrite, ensures_ite, ensures_modify, ensures_throw]
  exact ⟨fun _ => .same rfl rfl fun _ => rfl, fun _ => stop_evolves⟩

theorem writer_evolves (c : ConnId) (ev : Event) (hev : ev.ofWriter c = true) (_ : ∀ message, ev ≠ .send c message) :
    Evolving (emit ev) := by
  refine emit_evolves ev fun d => ?_
  cases ev with
  | send => rfl
  | written => rfl
  | queued => rfl
  | handleWrite => rfl
  | _ => cases hev

theorem send_evolves (c : ConnId) (message : Bytes) (r : Option Nat) : Evolving (TcpConnection.send c message r) :=
  send_moves evolves_composes (fun _ h => h) (fun _ => stop_evolves) (deref_evolves c) (writer_evolves c)
    (onOutput_evolves c) (fun op _ => onChannel_evolves c op) message (emit_evolves _ fun _ => rfl) r

theorem handleWrite_evolves (c : ConnId) (r : Option Nat) (shut : Bool) : Evolving (TcpConnection.handleWrite c r shut) :=
  handleWrite_moves evolves_composes (fun _ h => h) (fun _ => stop_evolves) (deref_evolves c) (writer_evolves c)
    (onOutput_evolves c) (fun op _ => onChannel_evolves c op) (shutdown_evolves c) r shut

theorem removeChannel_evolves (c : ConnId) : Evolving (TcpConnection.removeChannel c) :=
  Evolving.bind (deref_evolves c) fun _ => Evolving.bind (.get evolves_composes) fun _ =>
    Evolving.bind (emit_evolves _ fun _ => rfl) fun _ => onChannel_evolves c .remove

theorem evolvesReleases : Releases Evolves EvolvesStop where
  toComposes := evolves_composes
  gone _ := stop_evolves
  outside _ := stop_evolves
  owners _ _ _ := .same rfl rfl fun _ => rfl
  destroyed _ := .quiet rfl (fun _ x hx => ⟨x, (of_update_none hx).2, rfl, id⟩) fun d => by simp [World.destroyed, Event.callback]

/-! ## Callbacks -/

def World.told (w : World) (ev : Event) : World := { w with trace := w.trace ++ [ev] }

@[simp] theorem told_nextConn (w : World) (ev : Event) : (w.told ev).nextConn = w.nextConn := rfl

@[simp] theorem callbacks_told (c : ConnId) (w : World) (ev : Event) :
    callbacks c (w.told ev).trace = callbacks c w.trace ++ (ev.callback c).toList := by
  rw [World.told, callbacks_append, callbacks_cons, callbacks_nil, List.append_nil]

/-- A callback under its frame's pointer: it is told first, and then what it does follows. -/
theorem withPtr_told {c : ConnId} {x : M Unit} {s : World} (hc : (s.conns c).isSome) (ev : Event) (hx : Evolving x) :
    Ensures (withPtr c (do emit ev; x)) s (fun _ t => Evolves (s.told ev) t) fun e t => EvolvesStop e (s.told ev) t := by
  have pushed : Evolves (s.told ev) { s.told ev with frames := c :: s.frames } := .same rfl rfl fun _ => rfl
  simp only [withPtr, ensures_bind, ensures_deref, ensures_modify, ensures_emit]
  refine ⟨fun o _ => (hx _ trivial).mono (fun _ t ht => ?_) fun _ _ h => evolves_composes.later pushed h,
    fun hn => by simp [hn] at hc⟩
  have popped : Evolves (s.told ev) { t with frames := t.frames.erase c } :=
    evolves_composes.trans (evolves_composes.trans pushed ht) (.same rfl rfl fun _ => rfl)
  exact evolvesReleases.after popped c

theorem connectionCallback_told {c : ConnId} {user : M Unit} {s : World} {o : TcpConnection} (hc : s.conns c = some o)
    (hu : Evolving user) :
    Ensures (TcpConnection.connectionCallback c user) s
      (fun _ t => Evolves (s.told (.connectionCallback c (o.connectState == .CONNECTED))) t)
      fun e t => EvolvesStop e (s.told (.connectionCallback c (o.connectState == .CONNECTED))) t := by
  rw [TcpConnection.connectionCallback, ensures_bind, ensures_deref]
  refine ⟨fun x hx => ?_, fun hn => by simp [hc] at hn⟩
  obtain rfl : o = x := Option.some.inj (hc.symm.trans hx)
  exact withPtr_told (by simp [hc]) _ hu

/-- The connection is no longer connected, and nobody has been told. -/
structure Silenced (c : ConnId) (s m : World) : Prop where
  evolves : Evolves s m
  down : ¬ Connected c m
  callbacks : ∀ d, callbacks d m.trace = callbacks d s.trace

/-- **Going down**, the same in `handleClose` and `connectionDestroy`: the DOWN callback is called on a
connection that is not connected any more. -/
theorem goDown_spec {c : ConnId} {down rest : M Unit} (hd : Evolving down) {s : World} {Q : Unit → World → Prop}
    {E : Fault → World → Prop}
    (hrest : ∀ m t, Silenced c s m → Evolves (m.told (.connectionCallback c false)) t → Ensures rest t Q E)
    (hquiet : ∀ e t, (∀ d, callbacks d t.trace = callbacks d s.trace) → E e t)
    (hstop : ∀ e m t, Silenced c s m → EvolvesStop e (m.told (.connectionCallback c false)) t → E e t) :
    Ensures (do
      setConnectState c .DISCONNECTED
      onChannel c Channel.diabledAllEvents
      TcpConnection.connectionCallback c down
      rest) s Q E := by
  rw [ensures_bind, ensures_setConnectState]
  refine ⟨fun o hc => ?_, fun _ => hquiet _ _ fun _ => rfl⟩
  rw [ensures_bind, ensures_onChannel]
  have quiet : ∀ d, callbacks d (s.trace ++ [.setConnectState c o.connectState .DISCONNECTED]) = callbacks d s.trace :=
    fun _ => by simp [Event.callback]
  refine ⟨fun x hx => ?_, fun _ => hquiet _ _ quiet⟩
  obtain rfl : { o with connectState := .DISCONNECTED } = x := by simpa [World.put] using hx
  have frame := ChannelOp.diabledAllEvents.code_frame (ChannelPtr.conn c) ⟨o.channel, s.interest⟩
  refine frame.mono (fun _ p hp => ?_) fun _ _ _ => hquiet _ _ quiet
  obtain ⟨x, hx⟩ : ∃ x : TcpConnection, x = { o with connectState := .DISCONNECTED, channel := p.channel } := ⟨_, rfl⟩
  obtain ⟨m, hm⟩ : ∃ m, m = { s.put c x with
      interest := p.interest, trace := s.trace ++ [Event.setConnectState c o.connectState .DISCONNECTED] } := ⟨_, rfl⟩
  have hmc : m.conns c = some x := by rw [hm]; exact Function.update_self ..
  have hst : x.connectState = .DISCONNECTED := by rw [hx]
  have silenced : Silenced c s m := by
    refine ⟨.put hc x (by rw [hm]; rfl) (by rw [hm]; rfl) (by rw [hx]; exact hp.revents) (by simp [hst])
      fun _ => by rw [hm]; exact quiet _, ?_, fun _ => by rw [hm]; exact quiet _⟩
    rintro ⟨y, hy, hys⟩
    obtain rfl : x = y := Option.some.inj (hmc.symm.trans hy)
    rw [hst] at hys; cases hys
  have told := connectionCallback_told hmc hd
  rw [hst] at told
  rw [ensures_bind]
  have same : { ({ s.put c { o with connectState := .DISCONNECTED } with
      trace := s.trace ++ [Event.setConnectState c o.connectState .DISCONNECTED] } : World).put c
      { o with connectState := .DISCONNECTED, channel := p.channel } with interest := p.interest } = m := by
    rw [hm, hx]; simp [World.put]
  rw [same]
  exact told.mono (fun _ t ht => hrest m t silenced ht) fun e t ht => hstop e m t silenced ht

/-! ## What user code can call -/

theorem evolves_goDown {c : ConnId} {s m : World} (hc : Connected c s) (hm : Silenced c s m) :
    Evolves s (m.told (.connectionCallback c false)) where
  nextConn := hm.evolves.nextConn
  reports := hm.evolves.reports
  silent d hd := by
    have hdc : c ≠ d := fun he => hd (he ▸ hc)
    exact ⟨(hm.evolves.silent d hd).1, by simp [Event.callback, hdc, hm.callbacks]⟩
  told d hd := by
    by_cases hdc : c = d
    · subst hdc
      exact .inr ⟨hm.down, by simp [Event.callback, hm.callbacks]⟩
    · exact .inl (by simp [Event.callback, hdc, hm.callbacks])

theorem removeConnection_evolves (c : ConnId) {down : M Unit} (hd : Evolving down) :
    Evolving (TcpServer.removeConnection c down) := by
  refine Evolving.bind (deref_evolves c) fun o => Evolving.bind (evolvesReleases.eraseEntry o.name) fun _ s _ => ?_
  rw [TcpConnection.connectionDestroy, ensures_bind, ensures_deref]
  refine ⟨fun o hc => ?_, fun _ => stop_evolves⟩
  split
  · rename_i hst
    have connected : Connected c s := ⟨o, hc, hst⟩
    refine goDown_spec hd (fun m t hm ht => ?_) (fun _ _ h => .quiet h) fun e m t hm ht =>
      evolves_composes.later (evolves_goDown connected hm) ht
    have evolved := evolves_composes.trans (evolves_goDown connected hm) ht
    exact (removeChannel_evolves c t trivial).mono (fun _ _ h => evolves_composes.trans evolved h)
      fun _ _ h => evolves_composes.later evolved h
  · exact removeChannel_evolves c s trivial

theorem onTimers_evolves {α : Type} {x : Timers.M α} (hx : Timers.Contained x) : Evolving (onTimers x) :=
  onTimers_moves (fun _ _ _ => .same rfl rfl fun _ => rfl) (fun _ _ => .quiet fun _ => rfl) hx

theorem retrieveAsString_evolves (c : ConnId) : Evolving (TcpConnection.retrieveAsString c) :=
  retrieveAsString_moves evolves_composes (fun _ h => h) (onInput_evolves c) fun _ => emit_evolves _ fun _ => rfl

theorem retrieve_evolves (c : ConnId) (len : Nat) : Evolving (TcpConnection.retrieve c len) :=
  retrieve_moves evolves_composes (fun _ h => h) (onInput_evolves c) (fun _ => emit_evolves _ fun _ => rfl) (deref_evolves c) len

theorem evolvesCalls : UserCalls anyCall Evolves EvolvesStop where
  toComposes := evolves_composes
  outside _ := stop_evolves
  send c message r _ := (send_evolves c message r).weaken fun _ _ => trivial
  echo c r _ := (Evolving.bind (retrieveAsString_evolves c) fun s => send_evolves c s r).weaken fun _ _ => trivial
  retrieve c len _ := (retrieve_evolves c len).weaken fun _ _ => trivial
  shutdown c ok _ := (shutdown_evolves c ok).weaken fun _ _ => trivial
  removeConnection c _ _ hd := (withRef_moves evolves_composes (fun _ h => h) (fun _ _ => .same rfl rfl fun _ => rfl) c
    (Evolving.bind (emit_evolves _ fun _ => rfl) fun _ => removeConnection_evolves c hd)).weaken fun _ _ => trivial
  keepPtr c _ := (evolvesReleases.keepPtr c).weaken fun _ _ => trivial
  dropPtr c _ := evolvesReleases.dropPtr c
  timer x := onTimers_evolves (Timers.contained_call x)

theorem script_evolves (s : Script) : Evolving s.run := evolvesCalls.script s s.only_anyCall

theorem timingRead_evolves (inp : EventInput) :
    Evolving (TimerQueue.handleTimingRead inp.curr (fun t => (inp.callback t).run) inp.now) :=
  timingRead_moves evolves_composes (fun _ h => h) onTimers_evolves (fun _ _ => emit_evolves _ fun _ => rfl)
    (evolvesCalls.callback inp.only_anyCall) inp.curr inp.now

/-! ## The invariant of the loop -/

structure CbOk (w : World) : Prop where
  orderly : ∀ c, Orderly (callbacks c w.trace)
  running : ∀ c, Connected c w → Open (callbacks c w.trace)
  /-- A connection that was made has been reported UP. -/
  started : ∀ c, callbacks c w.trace ≠ [] ↔ c < w.nextConn

def AllOrderly (w : World) : Prop := ∀ c, Orderly (callbacks c w.trace)

namespace CbOk

variable {s t w : World} {c : ConnId}

theorem init (ipPort : Name) (listenFd timerFd : Fd) : CbOk (World.init ipPort listenFd timerFd) where
  orderly _ := orderly_nil
  running c := by rintro ⟨_, ⟨⟩, _⟩
  started c := by simp [World.init]

theorem stop {e : Fault} (h : CbOk s) (he : EvolvesStop e s t) : AllOrderly t := by
  intro c
  by_cases hc : Connected c s
  · obtain htr | htr := he.told c hc
    · rw [htr]; exact h.orderly c
    · rw [htr]; exact (h.running c hc).down
  · rw [he.silent c hc]; exact h.orderly c

theorem evolves (h : CbOk s) (he : Evolves s t) : CbOk t where
  orderly := h.stop (e := .outside) ⟨fun c hc => (he.silent c hc).2, fun c hc => (he.told c hc).imp id And.right⟩
  running c ht := by
    have hs : Connected c s := not_not.1 fun hs => (he.silent c hs).1 ht
    obtain htr | ⟨hn, _⟩ := he.told c hs
    · rw [htr]; exact h.running c hs
    · exact absurd ht hn
  started c := by
    rw [he.nextConn, ← h.started c]
    by_cases hs : Connected c s
    · have := (h.running c hs).ne_nil
      obtain htr | ⟨_, htr⟩ := he.told c hs <;> simp [htr, this]
    · rw [(he.silent c hs).2]

/-- One more callback of a connection that has been reported UP. -/
theorem tell (h : CbOk w) {ev : Event} {b : Callback} (hev : ev.callback c = some b)
    (hother : ∀ d, d ≠ c → ev.callback d = none) (hne : callbacks c w.trace ≠ [])
    (ho : Orderly (callbacks c w.trace ++ [b])) (hrun : Connected c w → Open (callbacks c w.trace ++ [b])) :
    CbOk (w.told ev) where
  orderly d := by
    by_cases hd : d = c
    · subst hd; simpa [hev] using ho
    · simpa [hother d hd] using h.orderly d
  running d hc := by
    by_cases hd : d = c
    · subst hd; simpa [hev] using hrun hc
    · simpa [hother d hd] using h.running d hc
  started d := by
    by_cases hd : d = c
    · subst hd; simpa [hev] using (h.started d).1 hne
    · simpa [hother d hd] using h.started d

/-- A new connection, reported UP. -/
theorem reportedUp (h : CbOk s) (hn : t.nextConn = s.nextConn + 1) (hother : ∀ d, d ≠ s.nextConn → t.conns d = s.conns d)
    (htr : ∀ c, callbacks c t.trace = callbacks c s.trace) : CbOk (t.told (.connectionCallback s.nextConn true)) := by
  have fresh : callbacks s.nextConn s.trace = [] := not_not.1 fun hne => Nat.lt_irrefl _ ((h.started s.nextConn).1 hne)
  refine ⟨fun d => ?_, fun d hc => ?_, fun d => ?_⟩
  · by_cases hd : s.nextConn = d
    · subst hd; simpa [htr, fresh, Event.callback] using Open.up.orderly
    · simpa [htr, Event.callback, hd] using h.orderly d
  · by_cases hd : s.nextConn = d
    · subst hd; simpa [htr, fresh, Event.callback] using Open.up
    · obtain ⟨o, ho, hst⟩ := hc
      simpa [htr, Event.callback, hd] using h.running d ⟨o, by rw [← hother d (Ne.symm hd)]; exact ho, hst⟩
  · by_cases hd : s.nextConn = d
    · subst hd; simp [Event.callback, hn]
    · have hlt : d < t.nextConn ↔ d < s.nextConn := by
        rw [hn, Nat.lt_succ_iff_lt_or_eq, or_iff_left (Ne.symm hd)]
      simpa [htr, Event.callback, hd, hlt] using h.started d

/-- A report: only `revents_` changes. -/
theorem reported (h : CbOk w) {o : TcpConnection} (hc : w.conns c = some o) (mask : Mask) :
    CbOk (w.put c { o with channel := { o.channel with revents := mask } }) where
  orderly := h.orderly
  running d := by
    rintro ⟨x, hx, hst⟩
    obtain ⟨rfl, rfl⟩ | ⟨_, hx⟩ := of_update_some hx
    · exact h.running d ⟨o, hc, hst⟩
    · exact h.running d ⟨x, hx, hst⟩
  started := h.started

end CbOk

/-! ## The handlers -/

/-- What a handler called from a state in order ends with. -/
abbrev StaysOrderly (x : M Unit) (s : World) : Prop :=
  Ensures x s (fun _ t => CbOk t ∧ SameReports s t) fun _ t => AllOrderly t

theorem Evolving.orderly {x : M Unit} (hx : Evolving x) {s : World} (h : CbOk s) : StaysOrderly x s :=
  (hx s trivial).mono (fun _ _ ht => ⟨h.evolves ht, ht.reports⟩) fun _ _ ht => h.stop ht

/-- A callback that fits the order. -/
theorem withPtr_orderly {s : World} {c : ConnId} (hc : (s.conns c).isSome) {x : M Unit} (hx : Evolving x)
    {ev : Event} (htold : CbOk (s.told ev)) : StaysOrderly (withPtr c (do emit ev; x)) s :=
  (withPtr_told hc ev hx).mono (fun _ _ ht => ⟨htold.evolves ht, ht.reports⟩) fun _ _ ht => htold.stop ht

section
variable {c : ConnId} {message down user : M Unit} (hm : Evolving message) (hd : Evolving down) (hu : Evolving user)

include hm in
theorem messageCallback_orderly {s : World} (h : CbOk s) (ho : Open (callbacks c s.trace)) :
    StaysOrderly (TcpConnection.messageCallback c message) s := by
  rw [TcpConnection.messageCallback, StaysOrderly, ensures_bind, ensures_deref]
  refine ⟨fun o hc => withPtr_orderly (by simp [hc]) hm ?_, fun _ => h.orderly⟩
  exact h.tell (b := .message) (by simp [Event.callback]) (fun d hd => by simp [Event.callback, Ne.symm hd]) ho.ne_nil
    ho.message.orderly fun _ => ho.message

include hd hu

/-- **`handleClose`** on a connection that is up tells DOWN and close. -/
theorem handleClose_orderly {s : World} (h : CbOk s) (ho : Open (callbacks c s.trace)) :
    StaysOrderly (TcpConnection.handleClose c down user) s := by
  have told : ∀ m, Silenced c s m → CbOk (m.told (.connectionCallback c false)) := fun m hm =>
    (h.evolves hm.evolves).tell (b := .down) (by simp [Event.callback]) (fun d hd => by simp [Event.callback, Ne.symm hd])
      (by rw [hm.callbacks]; exact ho.ne_nil) (by rw [hm.callbacks]; exact ho.down) fun hc => absurd hc hm.down
  refine goDown_spec hd (fun m t hm ht => ?_) (fun _ t ht c => by rw [ht c]; exact h.orderly c)
    fun e m t hm ht => (told m hm).stop ht
  have htOk := (told m hm).evolves ht
  obtain ⟨hdown, hcb⟩ := ht.silent c hm.down
  have closing : callbacks c t.trace = callbacks c s.trace ++ [.down] := by
    rw [hcb]; simp [Event.callback, hm.callbacks]
  rw [TcpConnection.closeCallback, ensures_bind, ensures_deref]
  refine ⟨fun o hc => ?_, fun _ => htOk.orderly⟩
  have closed : CbOk (t.told (.closeCallback c)) :=
    htOk.tell (b := .close) (by simp [Event.callback]) (fun d hd => by simp [Event.callback, Ne.symm hd])
      (by simp [closing]) (by rw [closing]; simpa using ho.close) fun hc => absurd hc hdown
  exact (withPtr_orderly (by simp [hc]) (removeConnection_evolves c hu) closed).mono
    (fun _ _ hv => ⟨hv.1, (hm.evolves.reports.trans ht.reports).trans hv.2⟩) fun _ _ hv => hv

include hm

/-- **`handleRead`** calls back only where `::readv` did not fail. -/
theorem handleRead_orderly {s : World} (h : CbOk s) (r : Option Bytes)
    (ho : r.isSome = true → Open (callbacks c s.trace)) :
    StaysOrderly (TcpConnection.handleRead c r message down user) s := by
  rw [TcpConnection.handleRead, StaysOrderly, ensures_bind, ensures_onInput]
  refine ⟨fun o hc => ?_, fun _ => h.orderly⟩
  have fails : r = none → Ensures (Buffer.readFd r) o.inputBuffer (fun n _ => n = -1) fun _ _ => True := fun hr => by
    subst hr; rfl
  refine ((Buffer.contained_readFd r o.inputBuffer).and (Ensures.assume fails)).mono ?_ fun _ _ _ => h.orderly
  rintro n b ⟨-, hn⟩
  rw [ensures_bind, ensures_emit]
  obtain ⟨t, ht⟩ : ∃ t, t = (s.put c { o with inputBuffer := b }).told (.read c ((r.getD []).take n.toNat)) := ⟨_, rfl⟩
  have hcb : ∀ d, callbacks d t.trace = callbacks d s.trace := fun d => by
    rw [ht]; simp [Event.callback, World.put]
  have read : Evolves s t := by
    refine .put hc { o with inputBuffer := b } (by rw [ht]; rfl) (by rw [ht]; rfl) rfl id hcb
  have htOk := h.evolves read
  have up : r ≠ none → Open (callbacks c t.trace) := fun hr => by
    rw [hcb]; exact ho (Option.isSome_iff_ne_none.2 hr)
  have after : ∀ {x : M Unit}, StaysOrderly x t →
      Ensures x t (fun _ u => CbOk u ∧ SameReports s u) fun _ u => AllOrderly u := fun hx =>
    hx.mono (fun _ _ hu => ⟨hu.1, read.reports.trans hu.2⟩) fun _ _ hu => hu
  rw [World.told] at ht
  rw [← ht]
  split
  · exact after (messageCallback_orderly hm htOk (up fun hr => by have := hn hr; omega))
  · split
    · exact after (handleClose_orderly hd hu htOk (up fun hr => by have := hn hr; omega))
    · exact ⟨htOk, read.reports⟩

end

theorem newConnection_orderly {s : World} (hs : Objects s) (h : CbOk s) (clientfd sock : Fd) (up : Script) :
    Ensures (do openFd clientfd; TcpServer.newConnection clientfd (some sock) up.run) s (fun _ t => CbOk t)
      fun _ t => AllOrderly t := by
  have user := objectParts.script up
  have quiet : ∀ {w : World}, (∀ c, callbacks c w.trace = callbacks c s.trace) → AllOrderly w := fun htr c => by
    rw [htr]; exact h.orderly c
  have admitted : ∀ c, callbacks c (s.admitted clientfd sock).trace = callbacks c s.trace := fun _ => by
    simp [World.admitted, Event.callback]
  refine newConnection_spec hs clientfd sock user.left user.right h.orderly (fun _ => quiet fun _ => rfl)
    (fun _ htr => quiet fun c => by rw [htr, admitted]) fun _ _ _ => ?_
  simp only [TcpConnection.connectionEstablished, ensures_bind, ensures_deref, ensures_assert, ensures_setConnectState]
  refine ⟨fun o _ => ⟨fun _ => ⟨fun x _ => ?_, fun _ => quiet admitted⟩, fun _ => quiet admitted⟩, fun _ => quiet admitted⟩
  have connecting : ∀ c, callbacks c ((s.admitted clientfd sock).trace ++
      [.setConnectState s.nextConn x.connectState .CONNECTED]) = callbacks c s.trace := fun c => by
    simp [admitted, Event.callback]
  rw [ensures_onChannel]
  refine ⟨fun y hy => ?_, fun _ => quiet connecting⟩
  obtain rfl : { x with connectState := .CONNECTED } = y := by simpa [World.put] using hy
  have frame := ChannelOp.enabledReadable.code_frame (ChannelPtr.conn s.nextConn)
    ⟨x.channel, (s.admitted clientfd sock).interest⟩
  refine frame.mono (fun _ p _ => ?_) fun _ _ _ => quiet connecting
  obtain ⟨o', ho'⟩ : ∃ o' : TcpConnection, o' = { x with connectState := .CONNECTED, channel := p.channel } := ⟨_, rfl⟩
  obtain ⟨m, hm⟩ : ∃ m : World, m = { (s.admitted clientfd sock).put s.nextConn o' with
      interest := p.interest,
      trace := (s.admitted clientfd sock).trace ++ [Event.setConnectState s.nextConn x.connectState .CONNECTED] } := ⟨_, rfl⟩
  have told := connectionCallback_told (c := s.nextConn) (o := o') (s := m) (by rw [hm]; exact Function.update_self ..)
    (script_evolves up)
  have hup : (o'.connectState == .CONNECTED) = true := by rw [ho']; rfl
  rw [hup] at told
  have made : CbOk (m.told (.connectionCallback s.nextConn true)) :=
    h.reportedUp (by rw [hm]; rfl) (fun d hd => by simp [hm, World.put, World.admitted, hd])
      fun c => by rw [hm]; exact connecting c
  have same : { ({ (s.admitted clientfd sock).put s.nextConn { x with connectState := .CONNECTED } with
      trace := (s.admitted clientfd sock).trace ++ [Event.setConnectState s.nextConn x.connectState .CONNECTED] } : World).put
      s.nextConn { x with connectState := .CONNECTED, channel := p.channel } with interest := p.interest } = m := by
    rw [hm, ho']; simp [World.put]
  rw [same]
  refine told.mono (fun _ t ht _ _ => ?_) fun _ _ ht => made.stop ht
  exact (made.evolves ht).evolves (.same rfl rfl fun _ => by simp [World.entered, Event.callback])

theorem openFd_evolves (fd : Fd) : Evolving (openFd fd) := by
  intro s _
  simp only [openFd, ensures_bind, ensures_get, ensures_ite, ensures_throw, ensures_set]
  exact ⟨fun _ => stop_evolves, fun _ => .same rfl rfl fun _ => rfl⟩

theorem accept_orderly {s : World} (hs : Objects s) (h : CbOk s) (clientfd sock : Option Fd) (up : Script) :
    Ensures (Acceptor.accept clientfd sock up.run) s (fun _ t => CbOk t) fun _ t => AllOrderly t := by
  have tried : CbOk (s.told (.accept4 clientfd)) := h.evolves (.same rfl rfl fun _ => by simp [Event.callback])
  unfold Acceptor.accept
  rw [ensures_bind, ensures_emit]
  cases clientfd with
  | none => exact tried.orderly
  | some fd =>
    by_cases hfd : fd > 0
    · have serve : Ensures (do openFd fd; TcpServer.newConnection fd sock up.run) (s.told (.accept4 (some fd)))
          (fun _ t => CbOk t) fun _ t => AllOrderly t := by
        cases sock with
        | none =>
          have noSocket : Evolving (do openFd fd; TcpServer.newConnection fd none up.run) :=
            Calls.noSocket_of evolves_composes (fun _ => stop_evolves) (emit_evolves _ fun _ => rfl) openFd_evolves fd up.run
          exact (noSocket.orderly tried).mono (fun _ _ ht => ht.1) fun _ _ ht => ht
        | some sock =>
          have hs' : Objects (s.told (.accept4 (some fd))) := { hs with }
          exact newConnection_orderly hs' tried fd sock up
      simpa [assert, hfd, World.told] using serve
    · simp only [assert, hfd, if_false, openFd, ensures_bind, ensures_get, ensures_ite, ensures_throw, ensures_set]
      exact ⟨fun _ => tried.orderly, fun _ => tried.orderly⟩

/-! ## One dispatch -/

section
variable {w : World} {Q : Unit → World → Prop} {E : Fault → World → Prop}

theorem ensures_branch {b : Bool} {x y : M Unit} (hx : b = true → Ensures x w (fun _ t => Ensures y t Q E) E)
    (hy : b = false → Ensures y w Q E) :
    Ensures (do
      if b then
        x
      y) w Q E := by
  cases b with
  | false => exact hy rfl
  | true =>
    simp only [if_true, ensures_bind]
    exact hx rfl

/-- A channel that only reads, and that cannot go. -/
theorem handleEvents_plain {p : ChannelPtr} {inp : EventInput}
    (hch : ∀ {Q' : Channel → World → Prop} {s : World}, (∀ ch, Q' ch s) → Ensures (channelOf p) s Q' E)
    (hclose : closeEventCallback p inp = pure ()) (hwrite : writeEventCallback p inp = pure ())
    (hread : Ensures (readEventCallback p inp) w Q E) (hq : Q () w) : Ensures (handleEvents p inp) w Q E := by
  have last : ∀ t, Q () t → Ensures (do
      let ch ← channelOf p
      if ch.revents.has EPOLLOUT then
        writeEventCallback p inp) t Q E := fun t ht => by
    rw [ensures_bind]
    refine hch fun ch => ?_
    rw [hwrite, ite_self]
    exact ht
  rw [handleEvents, ensures_bind]
  refine hch fun ch => ensures_branch (fun _ => ?_) fun _ => ?_
  · rw [hclose, ensures_pure, ensures_bind]
    exact hch fun ch => ensures_branch (fun _ => hread.mono (fun _ t ht => last t ht) fun _ _ he => he) fun _ => last w hq
  · rw [ensures_bind]
    exact hch fun ch => ensures_branch (fun _ => hread.mono (fun _ t ht => last t ht) fun _ _ he => he) fun _ => last w hq

end

/-- What the report and the read ask of the connection: one that is told DOWN or a message is up, and a report
of `EPOLLHUP` does not come with something to read. -/
def EventInput.inOrder (inp : EventInput) (o : TcpConnection) : Bool :=
  let hup := o.channel.revents.has EPOLLHUP
  let reads := o.channel.revents.has EPOLLIN && inp.readv.isSome
  (!(hup || reads) || o.connectState == .CONNECTED) && !(hup && reads)

theorem EventInput.inOrder_iff {inp : EventInput} {o : TcpConnection} : inp.inOrder o = true ↔
    ((o.channel.revents.has EPOLLHUP = true → o.connectState = .CONNECTED) ∧
      (o.channel.revents.has EPOLLIN = true → inp.readv.isSome = true →
        o.connectState = .CONNECTED ∧ o.channel.revents.has EPOLLHUP = false)) := by
  unfold inOrder
  cases o.channel.revents.has EPOLLHUP <;> cases o.channel.revents.has EPOLLIN <;> cases inp.readv.isSome <;> simp

/-- **One `handleEvents` of a connection**: after `handleClose` there is nothing to read. -/
theorem handleEvents_orderly {w : World} (h : CbOk w) {c : ConnId} (inp : EventInput)
    (hin : ∀ o, w.conns c = some o → inp.inOrder o = true) :
    Ensures (handleEvents (.conn c) inp) w (fun _ t => CbOk t) fun _ t => AllOrderly t := by
  rw [handleEvents, channelOf, ensures_bind, ensures_bind, ensures_deref]
  refine ⟨fun o hc => ?_, fun _ => h.orderly⟩
  obtain ⟨hhup, hread⟩ := EventInput.inOrder_iff.1 (hin o hc)
  have last : ∀ t, CbOk t → Ensures (do
      let ch ← channelOf (.conn c)
      if ch.revents.has EPOLLOUT then
        writeEventCallback (.conn c) inp) t (fun _ u => CbOk u) fun _ u => AllOrderly u := fun t ht => by
    have writes : Evolving (do
        let ch ← channelOf (.conn c)
        if ch.revents.has EPOLLOUT then
          writeEventCallback (.conn c) inp) :=
      Evolving.bind (Evolving.bind (deref_evolves c) fun o => .pure evolves_composes _) fun _ =>
        .ite (handleWrite_evolves c inp.write inp.shut) (.pure evolves_composes _)
    exact (writes.orderly ht).mono (fun _ _ hu => hu.1) fun _ _ hu => hu
  have second : ∀ t, CbOk t → SameReports w t →
      (o.channel.revents.has EPOLLIN = true → inp.readv.isSome = true → Open (callbacks c t.trace)) → Ensures (do
        let ch ← channelOf (.conn c)
        if ch.revents.has EPOLLIN then
          readEventCallback (.conn c) inp
        let ch ← channelOf (.conn c)
        if ch.revents.has EPOLLOUT then
          writeEventCallback (.conn c) inp) t (fun _ u => CbOk u) fun _ u => AllOrderly u := fun t ht hreports hup => by
    rw [ensures_bind, channelOf, ensures_bind, ensures_deref]
    refine ⟨fun y hy => ensures_branch (fun hb => ?_) fun _ => last t ht, fun _ => ht.orderly⟩
    obtain ⟨x, hx, hr⟩ := hreports c y hy
    obtain rfl : o = x := Option.some.inj (hc.symm.trans hx)
    exact (handleRead_orderly (script_evolves _) (script_evolves _) (script_evolves _) ht inp.readv
      (hup (by rw [← hr]; exact hb))).mono (fun _ u hu => last u hu.1) fun _ _ hu => hu
  refine ensures_branch (fun hb => ?_) fun _ => second w h (evolves_composes.refl w).reports fun hi hr =>
    h.running c ⟨o, hc, (hread hi hr).1⟩
  refine (handleClose_orderly (script_evolves _) (script_evolves _) h (h.running c ⟨o, hc, hhup hb⟩)).mono
    (fun _ t ht => second t ht.1 ht.2 fun hi hr => ?_) fun _ _ ht => ht
  exact absurd ((hread hi hr).2.symm.trans hb) (by decide)

theorem pollEvents_orderly (events : List (Fd × Mask)) {w : World} (h : CbOk w) :
    Ensures (pollEvents events) w (fun _ t => CbOk t) fun _ t => AllOrderly t := by
  induction events generalizing w with
  | nil => exact h
  | cons ev rest ih =>
    simp only [pollEvents]
    rw [ensures_bind, ensures_get]
    split
    · exact h.orderly
    · rename_i e _
      rw [ensures_bind]
      cases e.ptr with
      | acceptor => exact ih (h.evolves (.same rfl rfl fun _ => by simp [Event.callback]))
      | timer => exact ih (h.evolves (.same rfl rfl fun _ => by simp [Event.callback]))
      | conn c =>
        simp only [setReturnEvents, ensures_bind, ensures_deref, ensures_store, ensures_modify, ensures_emit]
        refine ⟨fun o hc => ?_, fun _ => h.orderly⟩
        exact ih ((h.reported hc ev.2).evolves (.same rfl rfl fun _ => by simp [Event.callback]))

/-- The steps of the loop, with reports in order. -/
def Act.inOrder (w : World) : Act → Bool
  | .dispatch inp =>
    match w.activeChannels with
    | .conn c :: _ => (w.conns c).all inp.inOrder
    | _ => true
  | a => a.ofLoop

theorem step_orderly {w : World} (hs : Objects w) (h : CbOk w) (a : Act) (ha : a.inOrder w = true) :
    Ensures (step a) w (fun _ t => CbOk t) fun _ t => AllOrderly t := by
  cases a with
  | poll events =>
    simp only [step, poll]
    rw [ensures_bind, ensures_get, ensures_ite]
    exact ⟨fun _ => h.orderly, fun _ => pollEvents_orderly events h⟩
  | dispatch inp =>
    simp only [step, dispatch]
    rw [ensures_bind, ensures_get]
    split
    · exact h.orderly
    · rename_i p rest hactive
      have handled : Ensures (handleEvents p inp) w (fun _ t => CbOk t) fun _ t => AllOrderly t := by
        cases p with
        | acceptor => exact handleEvents_plain (fun hq => hq _) rfl rfl (accept_orderly hs h _ _ _) h
        | timer =>
          exact handleEvents_plain (fun hq => hq _) rfl rfl
            ((Evolving.orderly (timingRead_evolves inp) h).mono (fun _ _ ht => ht.1) fun _ _ ht => ht) h
        | conn c =>
          refine handleEvents_orderly h inp fun o hc => ?_
          simpa [Act.inOrder, hactive, hc] using ha
      rw [ensures_bind]
      exact handled.mono (fun _ _ ht => ⟨ht.orderly, ht.running, ht.started⟩) fun _ _ ht => ht
  | user s => exact (Evolving.orderly (script_evolves s) h).mono (fun _ _ ht => ht.1) fun _ _ ht => ht
  | newConnection => cases ha
  | send => cases ha
  | handleRead => cases ha
  | handleWrite => cases ha
  | handleClose => cases ha

/-- **The callbacks come in order**: in every run whose reports are in order, every connection is reported UP once
and then as `Orderly` says, also up to where a step stops. -/
theorem callbacks_orderly (ipPort : Name) (listenFd timerFd : Fd) (w : World)
    (h : Run step (fun w a => a.inOrder w = true) (World.init ipPort listenFd timerFd) w) :
    (∀ c, Orderly (callbacks c w.trace) ∧ (c < w.nextConn → callbacks c w.trace ≠ [])) ∧
      ∀ a, a.inOrder w = true → ∀ e t, step a w = .error e t → ∀ c, Orderly (callbacks c t.trace) := by
  have kept : Objects w ∧ CbOk w := h.invariant ⟨.init .., .init ..⟩ fun s a hs ha =>
    ((Keeps.from (step_objects a) hs.1).and (step_orderly hs.1 hs.2 a ha)).mono (fun _ _ ht => ht) fun _ _ _ => trivial
  refine ⟨fun c => ⟨kept.2.orderly c, (kept.2.started c).2⟩, fun a ha e t he => ?_⟩
  exact (ensures_error he).1 (step_orderly kept.1 kept.2 a ha)

/-- A client connects, sends, and hangs up while the user keeps a pointer; then `accept4` fails. -/
theorem callbacks_orderly_hup :
    ∃ w t, Run step (fun w a => a.inOrder w = true) (World.init [] 3 4) w ∧
      callbacks 0 w.trace = [.up, .message, .down, .close] ∧ (w.conns 0).isSome = true ∧
      step (.dispatch {}) w = .error .assertFailed t ∧ Orderly (callbacks 0 w.trace) ∧ Orderly (callbacks 0 t.trace) := by
  obtain ⟨w, run, hw, hlive, hin, hstop⟩ := Run.reaches step (fun w a => a.inOrder w = true) (World.init [] 3 4)
    [.poll [(3, EPOLLIN)], .dispatch { clientfd := some 5, sock := some 6, up := .keep 0 .done },
      .poll [(5, EPOLLIN)], .dispatch { readv := some [1] }, .poll [(5, EPOLLHUP)], .dispatch {}, .poll [(3, EPOLLIN)]]
    (fun w => callbacks 0 w.trace = [.up, .message, .down, .close] ∧ (w.conns 0).isSome = true ∧
      (Act.dispatch {}).inOrder w = true ∧ Ensures (step (.dispatch {})) w (fun _ _ => False) fun e _ => e = .assertFailed)
    (by decide +kernel) (by decide +kernel)
  obtain ⟨e, t, he, rfl⟩ := hstop.stops
  obtain ⟨hreached, hstopped⟩ := callbacks_orderly [] 3 4 w run
  exact ⟨w, t, run, hw, hlive, he, (hreached 0).1, hstopped _ hin _ t he 0⟩

/-- One report of `EPOLLHUP` and `EPOLLIN` with a byte to read, on a connection the user keeps: the message comes
after DOWN and close. -/
theorem not_callbacks_orderly_hup_in :
    ¬ ∀ (ipPort : Name) (listenFd timerFd : Fd) (w : World),
      Run step (fun _ a => a.ofLoop = true) (World.init ipPort listenFd timerFd) w →
      ∀ c, 0 < w.userRefs c → Orderly (callbacks c w.trace) := by
  intro orderly
  obtain ⟨w, run, hw, hkept⟩ := Run.reaches step (fun _ a => a.ofLoop = true) (World.init [] 3 4)
    [.poll [(3, EPOLLIN)], .dispatch { clientfd := some 5, sock := some 6, up := .keep 0 .done },
      .poll [(5, EPOLLHUP ||| EPOLLIN)], .dispatch { readv := some [1] }]
    (fun w => callbacks 0 w.trace = [.up, .down, .close, .message] ∧ 0 < w.userRefs 0)
    (by decide +kernel) (by decide +kernel)
  obtain ⟨n, hn⟩ := orderly [] 3 4 w run 0 hkept
  rw [hw] at hn
  cases n with
  | zero => exact absurd hn.length_le (by decide)
  | succ n => simp [List.replicate_succ] at hn

end NetServer
