import NetServer.Tcp.Objects
/-!
# The connection state moves forward

`connectState_` starts at `CONNECTING`; `connectionEstablished`, `shutdown`, `handleClose` and `connectionDestroy`
write it. All but one move it forward whatever it is: `shutdown()` tests `connectState_ != CONNECTED`
(`TcpConnection.cpp:127`), so on a connection that is down and does not ask for `EPOLLOUT` it goes back to `DISCONNECTING`
and calls `::shutdown` (`forward_iff`). On a socket that was never connected this call fails and the process aborts, so the
states in which a step stops count, too (`Reached`).
-/

namespace NetServer
open Exec

def ConnectState.rank : ConnectState → Nat
  | .CONNECTING => 0
  | .CONNECTED => 1
  | .DISCONNECTING => 2
  | .DISCONNECTED => 3

/-- What happens to the state of one connection. -/
inductive Mark where
  | state (st : ConnectState)
  /-- `SHUT_WR`, by a `shutdown()` that found this state. -/
  | shut (was : ConnectState)
deriving DecidableEq, Repr

def Event.mark (c : ConnId) : Event → Option Mark
  | .setConnectState d _ st => if d = c then some (.state st) else none
  | .shutWr d was _ => if d = c then some (.shut was) else none
  | _ => none

/-- The states of the connection and its `SHUT_WR`s, in order. -/
def marks (c : ConnId) (trace : List Event) : List Mark := trace.filterMap (Event.mark c)

@[simp] theorem marks_nil (c : ConnId) : marks c [] = [] := rfl

@[simp] theorem marks_append (c : ConnId) (l l' : List Event) : marks c (l ++ l') = marks c l ++ marks c l' :=
  List.filterMap_append ..

@[simp] theorem marks_cons (c : ConnId) (ev : Event) (l : List Event) :
    marks c (ev :: l) = (ev.mark c).toList ++ marks c l := by
  cases h : ev.mark c <;> simp [marks, h]

/-- May the second come after the first? -/
def Mark.before : Mark → Mark → Prop
  | .state a, .state b => a.rank ≤ b.rank
  | .state a, .shut _ => a ≠ .DISCONNECTED
  | .shut _, _ => True

/-- The state moves forward only, and no `SHUT_WR` comes after `DISCONNECTED`. -/
def Forward (l : List Mark) : Prop := (.state .CONNECTING :: l).Pairwise Mark.before

/-- The state at the end. -/
def lastState (l : List Mark) : ConnectState :=
  l.foldl (fun st m => match m with
    | .state b => b
    | .shut _ => st) .CONNECTING

@[simp] theorem lastState_state (l : List Mark) (st : ConnectState) : lastState (l ++ [.state st]) = st := by
  simp [lastState]

@[simp] theorem lastState_shut (l : List Mark) (was st : ConnectState) :
    lastState (l ++ [.state st, .shut was]) = st := by
  simp [lastState]

/-! ## One mark more -/

theorem Forward.append {l l' : List Mark} (h : Forward l) (hl : l'.Pairwise Mark.before)
    (hb : ∀ a ∈ Mark.state .CONNECTING :: l, ∀ b ∈ l', a.before b) : Forward (l ++ l') := by
  unfold Forward
  rw [← List.cons_append, List.pairwise_append]
  exact ⟨h, hl, hb⟩

theorem Forward.of_append {l l' : List Mark} (h : Forward (l ++ l')) : Forward l := by
  unfold Forward at h
  rw [← List.cons_append, List.pairwise_append] at h
  exact h.1

/-- What the code keeps of the marks of a connection. -/
structure Marked (l : List Mark) : Prop where
  reached : .state (lastState l) ∈ Mark.state .CONNECTING :: l
  forward : .shut .DISCONNECTED ∉ l →
    Forward l ∧ ∀ a, .state a ∈ Mark.state .CONNECTING :: l → a.rank ≤ (lastState l).rank
  exact : Forward l → .shut .DISCONNECTED ∉ l

namespace Marked

variable {l : List Mark}

theorem nil : Marked [] where
  reached := List.mem_cons_self ..
  forward _ := ⟨List.pairwise_singleton .., fun a ha => by cases List.mem_singleton.1 ha; exact Nat.le_refl _⟩
  exact _ := List.not_mem_nil

/-- A step forward. -/
theorem advance (h : Marked l) {st : ConnectState} (hst : (lastState l).rank ≤ st.rank) : Marked (l ++ [.state st]) where
  reached := by simp
  forward hn := by
    obtain ⟨hf, hle⟩ := h.forward fun hm => hn (List.mem_append_left _ hm)
    refine ⟨hf.append (List.pairwise_singleton ..) fun a ha b hb => ?_, fun a ha => ?_⟩
    · cases List.mem_singleton.1 hb
      cases a with
      | state a => exact (hle a ha).trans hst
      | shut was => trivial
    · rw [lastState_state]
      obtain ha | ha := List.mem_append.1 (List.cons_append ▸ ha : Mark.state a ∈ (Mark.state .CONNECTING :: l) ++ [.state st])
      · exact (hle a ha).trans hst
      · cases List.mem_singleton.1 ha
        exact Nat.le_refl _
  exact hf := by
    have := h.exact hf.of_append
    simp [this]

/-- `shutdown()` that passes its test: from `DISCONNECTED` it is a step back. -/
theorem shut (h : Marked l) :
    Marked (l ++ [.state .DISCONNECTING, .shut (lastState l)]) where
  reached := by simp
  forward hn := by
    obtain ⟨hf, hle⟩ := h.forward fun hm => hn (List.mem_append_left _ hm)
    have hlast : lastState l ≠ .DISCONNECTED := fun he => hn (by simp [he])
    have low : (lastState l).rank ≤ 2 := by
      cases hs : lastState l with
      | DISCONNECTED => exact absurd hs hlast
      | _ => decide
    refine ⟨hf.append ?_ fun a ha b hb => ?_, fun a ha => ?_⟩
    · simp [Mark.before]
    · cases a with
      | shut was => trivial
      | state a =>
        have ha := (hle a ha).trans low
        obtain rfl | rfl : b = .state .DISCONNECTING ∨ b = .shut (lastState l) := by simpa using hb
        · exact ha
        · rintro rfl
          exact absurd ha (by decide)
    · rw [lastState_shut]
      obtain ha | ha := List.mem_append.1
        (List.cons_append ▸ ha : Mark.state a ∈ (Mark.state .CONNECTING :: l) ++ [.state .DISCONNECTING, .shut (lastState l)])
      · exact (hle a ha).trans low
      · obtain rfl : a = .DISCONNECTING := by simpa using ha
        exact Nat.le_refl _
  exact hf := by
    have old := h.exact hf.of_append
    have hlast : lastState l ≠ .DISCONNECTED := by
      intro he
      unfold Forward at hf
      rw [← List.cons_append, List.pairwise_append] at hf
      have back := hf.2.2 _ h.reached (.state .DISCONNECTING) (by simp)
      rw [he] at back
      simp [Mark.before, ConnectState.rank] at back
    simp [old, Ne.symm hlast]

end Marked

/-! ## What is recorded says where the connection is -/

/-- A state that a run of the server comes to, at the end of a step or where a step stops with a fault. -/
def Reached (ipPort : Name) (listenFd timerFd : Fd) (w : World) : Prop :=
  Run step (fun _ _ => True) (World.init ipPort listenFd timerFd) w ∨
    ∃ s a e, Run step (fun _ _ => True) (World.init ipPort listenFd timerFd) s ∧ step a s = .error e w

/-- What moves the state of a connection, or might have. -/
def Event.stateful : Event → Bool
  | .setConnectState .. | .shutWr .. | .shutdown .. => true
  | _ => false

structure Progress (c : ConnId) (w : World) : Prop where
  allocated : ∀ o, w.conns c = some o → c < w.nextConn
  fresh : w.nextConn ≤ c → marks c w.trace = []
  current : ∀ o, w.conns c = some o → lastState (marks c w.trace) = o.connectState
  marked : Marked (marks c w.trace)
  asked : .shut .DISCONNECTED ∈ marks c w.trace ↔ .shutdown c .DISCONNECTED false ∈ w.trace

theorem marks_quiet {c : ConnId} {evs : List Event} (h : ∀ ev ∈ evs, ev.stateful = false) : marks c evs = [] := by
  refine List.filterMap_eq_nil_iff.2 fun ev hev => ?_
  have := h ev hev
  cases ev <;> simp_all [Event.stateful, Event.mark]

namespace Progress

variable {c d : ConnId} {s t : World} {o : TcpConnection}

theorem init (c : ConnId) (ipPort : Name) (listenFd timerFd : Fd) : Progress c (World.init ipPort listenFd timerFd) where
  allocated := nofun
  fresh _ := rfl
  current := nofun
  marked := .nil
  asked := iff_of_false List.not_mem_nil List.not_mem_nil

/-- Nothing happens to the state of a connection. -/
theorem quiet (h : Progress c s) (hn : t.nextConn = s.nextConn)
    (hobj : ∀ o, t.conns c = some o → ∃ x, s.conns c = some x ∧ o.connectState = x.connectState) (evs : List Event)
    (htr : t.trace = s.trace ++ evs) (hev : ∀ ev ∈ evs, ev.stateful = false) : Progress c t := by
  have hm : marks c t.trace = marks c s.trace := by rw [htr, marks_append, marks_quiet hev, List.append_nil]
  have old : .shutdown c .DISCONNECTED false ∈ t.trace ↔ .shutdown c .DISCONNECTED false ∈ s.trace := by
    rw [htr, List.mem_append, or_iff_left]
    intro hmem
    simpa [Event.stateful] using hev _ hmem
  refine ⟨fun o ho => ?_, fun hc => ?_, fun o ho => ?_, hm ▸ h.marked, by rw [hm, old]; exact h.asked⟩
  · obtain ⟨x, hx, -⟩ := hobj o ho
    exact hn ▸ h.allocated x hx
  · rw [hm]
    exact h.fresh (hn ▸ hc)
  · obtain ⟨x, hx, hst⟩ := hobj o ho
    rw [hm, hst]
    exact h.current x hx

theorem same (h : Progress c s) (hconns : t.conns = s.conns) (hn : t.nextConn = s.nextConn) (htr : t.trace = s.trace) :
    Progress c t :=
  h.quiet hn (fun o ho => ⟨o, hconns ▸ ho, rfl⟩) [] (by rw [htr, List.append_nil]) (by simp)

theorem told (h : Progress c s) {ev : Event} (hev : ev.stateful = false) :
    Progress c { s with trace := s.trace ++ [ev] } :=
  h.quiet rfl (fun o ho => ⟨o, ho, rfl⟩) [ev] rfl (by simpa using hev)

/-- A write to an object that leaves its state. -/
theorem put (h : Progress c s) (hd : s.conns d = some o) {o' : TcpConnection} (hconns : t.conns = Function.update s.conns d (some o'))
    (hst : o'.connectState = o.connectState) (hn : t.nextConn = s.nextConn) (htr : t.trace = s.trace) : Progress c t := by
  refine h.quiet hn (fun x hx => ?_) [] (by rw [htr, List.append_nil]) (by simp)
  rw [hconns] at hx
  obtain ⟨rfl, rfl⟩ | ⟨_, hx⟩ := of_update_some hx
  · exact ⟨o, hd, hst⟩
  · exact ⟨x, hx, rfl⟩

/-- The state of the connection `d` moves, and what is recorded of it says so. -/
theorem moves (h : Progress c s) (hd : s.conns d = some o) {p : TcpConnection} {evs : List Event} {l : List Mark}
    (hconns : t.conns = Function.update s.conns d (some p)) (hn : t.nextConn = s.nextConn) (htr : t.trace = s.trace ++ evs)
    (hown : marks d evs = l) (hothers : c ≠ d → marks c evs = [] ∧ .shutdown c .DISCONNECTED false ∉ evs)
    (hmarked : Marked (marks d s.trace) → lastState (marks d s.trace) = o.connectState →
      Marked (marks d s.trace ++ l) ∧ lastState (marks d s.trace ++ l) = p.connectState)
    (hasked : .shut .DISCONNECTED ∈ l ↔ .shutdown d .DISCONNECTED false ∈ evs) : Progress c t := by
  by_cases hcd : c = d
  · subst hcd
    have hm : marks c t.trace = marks c s.trace ++ l := by rw [htr, marks_append, hown]
    obtain ⟨marked, last⟩ := hmarked h.marked (h.current o hd)
    have self : t.conns c = some p := by rw [hconns, Function.update_self]
    refine ⟨fun _ _ => hn ▸ h.allocated o hd, fun hle => absurd (h.allocated o hd) (Nat.not_lt.2 (hn ▸ hle)), fun x hx => ?_,
      hm ▸ marked, ?_⟩
    · obtain rfl : p = x := Option.some.inj (self.symm.trans hx)
      rw [hm, last]
    · rw [hm, htr, List.mem_append, List.mem_append, h.asked, hasked]
  · obtain ⟨quiet, unasked⟩ := hothers hcd
    have hm : marks c t.trace = marks c s.trace := by rw [htr, marks_append, quiet, List.append_nil]
    have there : t.conns c = s.conns c := by rw [hconns, Function.update_of_ne hcd]
    refine ⟨fun x hx => hn ▸ h.allocated x (there ▸ hx), fun hle => hm ▸ h.fresh (hn ▸ hle),
      fun x hx => hm ▸ h.current x (there ▸ hx), hm ▸ h.marked, ?_⟩
    rw [hm, htr, List.mem_append, or_iff_left unasked]
    exact h.asked

/-- `setConnectState` to a later state. -/
theorem advance (h : Progress c s) (hd : s.conns d = some o) {st : ConnectState} (hst : o.connectState.rank ≤ st.rank) :
    Progress c { s.put d { o with connectState := st } with
      trace := s.trace ++ [.setConnectState d o.connectState st] } := by
  refine h.moves hd rfl rfl rfl (l := [.state st]) (by simp [Event.mark]) (fun hcd => ?_) (fun marked last => ?_) (by simp)
  · simp [Event.mark, Ne.symm hcd]
  · exact ⟨marked.advance (last ▸ hst), lastState_state ..⟩

/-- `shutdown()` that passes its test. -/
theorem shut (h : Progress c s) (hd : s.conns d = some o) (ok : Bool) :
    Progress c { s.put d { o with connectState := .DISCONNECTING } with
      trace := s.trace ++ [.shutdown d o.connectState false, .setConnectState d o.connectState .DISCONNECTING,
        .shutWr d o.connectState ok] } := by
  refine h.moves hd rfl rfl rfl (l := [.state .DISCONNECTING, .shut o.connectState]) (by simp [Event.mark]) (fun hcd => ?_)
    (fun marked last => ?_) ?_
  · simp [Event.mark, Ne.symm hcd, hcd]
  · exact ⟨last ▸ marked.shut, lastState_shut ..⟩
  · simp [eq_comm]

end Progress

/-- Keeping it, wherever the code stops. -/
abbrev Progresses (c : ConnId) {α : Type} (x : M α) : Prop := Keeps (Progress c) (fun _ => True) x

section
variable (c d : ConnId)

theorem progress_composes : Composes (fun s t => Progress c s → Progress c t)
    (fun (_ : Fault) s t => True → Progress c s → Progress c t) := composes_invariant (Progress c) fun _ => True

theorem deref_progress : Progresses c (deref d) := by
  refine .intro fun s h => ?_
  rw [ensures_deref]
  exact ⟨fun _ _ => h, fun _ _ => h⟩

theorem emit_progress {ev : Event} (hev : ev.stateful = false) : Progresses c (emit ev) := .intro fun _ h => h.told hev

theorem onChannel_progress (op : ChannelOp) : Progresses c (onChannel d fun self => op.code self) := by
  refine .intro fun s h => ?_
  rw [ensures_onChannel]
  refine ⟨fun o hd => ?_, fun _ _ => h⟩
  exact (op.code_frame (ChannelPtr.conn d) ⟨o.channel, s.interest⟩).mono (fun _ _ _ => h.put hd rfl rfl rfl rfl)
    fun _ _ _ _ => h.put hd rfl rfl rfl rfl

theorem onInput_progress {α : Type} {x : BufM α} (hx : Buffer.Contained x) : Progresses c (onInput d x) := by
  refine .intro fun s h => ?_
  rw [ensures_onInput]
  exact ⟨fun o hd => (hx o.inputBuffer).mono (fun _ _ _ => h.put hd rfl rfl rfl rfl) fun _ _ _ _ => h.put hd rfl rfl rfl rfl,
    fun _ _ => h⟩

theorem onOutput_progress {α : Type} {x : BufM α} (hx : Buffer.Contained x) : Progresses c (onOutput d x) := by
  refine .intro fun s h => ?_
  rw [ensures_onOutput]
  exact ⟨fun o hd => (hx o.outputBuffer).mono (fun _ _ _ => h.put hd rfl rfl rfl rfl) fun _ _ _ _ => h.put hd rfl rfl rfl rfl,
    fun _ _ => h⟩

theorem writer_progress {ev : Event} (hev : ev.ofWriter d = true) : Progresses c (emit ev) := by
  refine emit_progress c ?_
  cases ev <;> first | rfl | cases hev

theorem comesUp_progress : Progresses c (do
    let o ← deref d
    assert (o.connectState = .CONNECTING)
    setConnectState d .CONNECTED) := by
  refine .intro fun s h => ?_
  simp only [ensures_bind, ensures_deref, ensures_assert, ensures_setConnectState]
  refine ⟨fun o hd => ⟨fun hst => ⟨fun x hx => ?_, fun _ _ => h⟩, fun _ _ => h⟩, fun _ _ => h⟩
  obtain rfl : o = x := Option.some.inj (hd.symm.trans hx)
  exact h.advance hd (by rw [hst]; decide)

theorem goesDown_progress : Progresses c (setConnectState d .DISCONNECTED) := by
  refine .intro fun s h => ?_
  rw [ensures_setConnectState]
  refine ⟨fun o hd => h.advance hd ?_, fun _ _ => h⟩
  cases o.connectState <;> decide

/-- **`shutdown()`**, whatever `::shutdown` returns. -/
theorem shutdown_progress (ok : Bool) : Progresses c (TcpConnection.shutdown d ok) := by
  refine .intro fun s h => ?_
  simp only [TcpConnection.shutdown, shutdownWrite, ensures_bind, ensures_deref, ensures_emit, ensures_ite,
    ensures_setConnectState, ensures_modify, ensures_throw, ensures_pure, List.append_assoc]
  refine ⟨fun o hd => ⟨fun hpass => ⟨fun x hx => ?_, fun hn => by simp [hd] at hn⟩, fun hfail => ?_⟩, fun _ _ => h⟩
  · obtain rfl : o = x := Option.some.inj (hd.symm.trans hx)
    have idle : o.channel.isWriting = false := by simpa using hpass.2
    have shut := h.shut hd ok
    rw [idle]
    exact ⟨fun _ => shut.same rfl rfl rfl, fun _ _ => shut⟩
  · -- the test fails: no `shutdown()` of a connection that is down and does not write
    refine h.moves hd (p := o) (l := []) (by simp [← hd]) rfl rfl (by simp [Event.mark]) (fun hcd => ?_) (fun marked last => ?_) ?_
    · simp [Event.mark, hcd]
    · exact ⟨by rwa [List.append_nil], by rwa [List.append_nil]⟩
    · simp only [List.not_mem_nil, List.mem_singleton, false_iff, Event.shutdown.injEq, true_and]
      rintro ⟨hst, hidle⟩
      exact hfail ⟨by rw [← hst]; decide, by rw [← hidle]; rfl⟩

theorem progressReleases : Releases (fun s t => Progress c s → Progress c t)
    (fun _ s t => True → Progress c s → Progress c t) where
  toComposes := progress_composes c
  gone _ _ h := h
  outside _ _ h := h
  owners _ _ _ h := h.same rfl rfl rfl
  destroyed := fun {s d o} _ h => h.quiet rfl (fun x hx => ⟨x, (of_update_none hx).2, rfl⟩)
    [.destroyed d (s.inBatch d) (s.registered d) (s.borrowed.contains d), .closed o.socket] rfl (by simp [Event.stateful])

theorem send_progress (message : Bytes) (r : Option Nat) : Progresses c (TcpConnection.send d message r) :=
  send_moves (progress_composes c) (fun _ h => h) (fun _ _ h => h) (deref_progress c d) (fun _ hev _ => writer_progress c d hev)
    (onOutput_progress c d) (fun op _ => onChannel_progress c d op) message (emit_progress c rfl) r

theorem handleWrite_progress (r : Option Nat) (shut : Bool) : Progresses c (TcpConnection.handleWrite d r shut) :=
  handleWrite_moves (progress_composes c) (fun _ h => h) (fun _ _ h => h) (deref_progress c d)
    (fun _ hev _ => writer_progress c d hev) (onOutput_progress c d) (fun op _ => onChannel_progress c d op)
    (shutdown_progress c d) r shut

theorem withPtr_progress {x : M Unit} (hx : Progresses c x) : Progresses c (withPtr d x) :=
  (progressReleases c).withPtr (fun _ _ h => h.same rfl rfl rfl) d hx

theorem withRef_progress {x : M Unit} (hx : Progresses c x) : Progresses c (withRef d x) :=
  withRef_moves (progress_composes c) (fun _ h => h) (fun _ _ h => h.same rfl rfl rfl) d hx

theorem onTimers_progress {α : Type} {x : Timers.M α} (hx : Timers.Contained x) : Progresses c (onTimers x) :=
  onTimers_moves (fun _ _ _ h => h.same rfl rfl rfl) (fun _ _ _ h => h.same rfl rfl rfl) hx

theorem openFd_progress (fd : Fd) : Progresses c (openFd fd) := by
  refine .intro fun s h => ?_
  simp only [openFd, ensures_bind, ensures_get, ensures_ite, ensures_throw, ensures_set]
  exact ⟨fun _ _ => h, fun _ => h.same rfl rfl rfl⟩

theorem construct_progress (name : Name) (clientfd sock : Fd) : Progresses c (TcpServer.construct name clientfd (some sock)) := by
  simp only [TcpServer.construct, Sockets.new, bind_assoc, pure_bind]
  refine (openFd_progress c sock).bind fun _ => .intro fun s h => ?_
  simp only [ensures_bind, ensures_get, ensures_set, ensures_pure, ensures_emit]
  refine Progress.told (s := { s with nextConn := s.nextConn + 1, conns := _ })
    ⟨fun x hx => ?_, fun hle => h.fresh (Nat.le_of_succ_le hle), fun x hx => ?_, h.marked, h.asked⟩ rfl
  · obtain ⟨rfl, _⟩ | ⟨_, hx⟩ := of_update_some hx
    · exact Nat.lt_succ_self _
    · exact Nat.lt_succ_of_lt (h.allocated x hx)
  · obtain ⟨rfl, rfl⟩ | ⟨_, hx⟩ := of_update_some hx
    · rw [h.fresh (Nat.le_refl _)]
      rfl
    · exact h.current x hx

end

section
variable (c : ConnId)

theorem progressUnits : Units (fun _ => Anywhere) (fun s t => Progress c s → Progress c t)
    (fun _ s t => True → Progress c s → Progress c t) where
  toComposes := progress_composes c
  atHand _ _ := trivial
  deref := deref_progress c
  withPtr d _ hx := withPtr_progress c d hx
  connectionCallback _ _ := emit_progress c rfl
  closeCallback _ := emit_progress c rfl
  called _ := emit_progress c rfl
  comesUp := comesUp_progress c
  goesDown := goesDown_progress c
  onChannel d op _ := onChannel_progress c d op
  removeChannel d := (deref_progress c d).bind fun _ => Keeps.bind (Moves.get (progress_composes c)) fun _ =>
    (emit_progress c rfl).bind fun _ => onChannel_progress c d .remove
  handleWrite := handleWrite_progress c
  eraseOwn := (progressReleases c).eraseOwn

theorem newConnection_progress (clientfd sock : Fd) {up : M Unit} (hu : Progresses c up) :
    Progresses c (do openFd clientfd; TcpServer.newConnection clientfd (some sock) up) :=
  (openFd_progress c clientfd).bind fun _ => Keeps.bind (Moves.get (progress_composes c)) fun _ =>
    (construct_progress c _ clientfd sock).bind fun d => (progressUnits c).entered (progressReleases c)
      (fun _ _ h => h.same rfl rfl rfl) (fun _ _ h => h.same rfl rfl rfl) (fun _ _ h => h) (fun _ => emit_progress c rfl) _ d hu

theorem progressParts : Parts (fun s t => Progress c s → Progress c t) (fun _ s t => True → Progress c s → Progress c t) where
  toReaders := (progressUnits c).readers (fun _ => emit_progress c rfl) (fun d _ hx => onInput_progress c d hx)
    fun _ _ => emit_progress c rfl
  outside _ _ h := h
  send := send_progress c
  retrieve d := retrieve_moves (progress_composes c) (fun _ h => h) (onInput_progress c d) (fun _ => emit_progress c rfl)
    (deref_progress c d)
  retrieveAll d := retrieveAsString_moves (progress_composes c) (fun _ h => h) (onInput_progress c d) fun _ =>
    emit_progress c rfl
  shutdown := shutdown_progress c
  removeConnection d _ hd := ((progressUnits c).callRemoveConnection d (withRef_progress c d) hd).weaken fun _ _ => trivial
  keepPtr d := ((progressReleases c).keepPtr d).weaken fun _ _ => trivial
  dropPtr := (progressReleases c).dropPtr
  timer x := onTimers_progress c (Timers.contained_call x)
  accept4 _ := emit_progress c rfl
  refused := Calls.refused_of (progress_composes c) (fun _ _ h => h) (fun _ => emit_progress c rfl) (openFd_progress c)
  noSocket := Calls.noSocket_of (progress_composes c) (fun _ _ h => h) (emit_progress c rfl) (openFd_progress c)
  newConnection clientfd sock _ := newConnection_progress c clientfd sock

theorem report_progress (p : ChannelPtr) (mask : Mask) : Progresses c (do
    setReturnEvents p mask
    emit (.reported p)
    modify fun w => { w with activeChannels := w.activeChannels ++ [p] }) := by
  have set : Progresses c (setReturnEvents p mask) := .intro fun s h => by
    cases p with
    | acceptor => exact h.same rfl rfl rfl
    | timer => exact h.same rfl rfl rfl
    | conn d =>
      simp only [setReturnEvents, ensures_bind, ensures_deref, ensures_store]
      exact ⟨fun o hd => h.put hd rfl rfl rfl rfl, fun _ _ => h⟩
  exact set.bind fun _ => (emit_progress c rfl).bind fun _ => .intro fun _ h => h.same rfl rfl rfl

/-- **Every step**, also where it stops. -/
theorem step_progress (a : Act) : Progresses c (step a) :=
  (progressParts c).step_moves (progress_composes c) id id id (report_progress c) (fun _ _ h => h.same rfl rfl rfl)
    ((progressParts c).timingRead (onTimers_progress c) fun _ _ => emit_progress c rfl) a

end

theorem Reached.progress {ipPort : Name} {listenFd timerFd : Fd} {w : World} (h : Reached ipPort listenFd timerFd w)
    (c : ConnId) : Progress c w := by
  have run : ∀ s, Run step (fun _ _ => True) (World.init ipPort listenFd timerFd) s → Progress c s := fun s hr =>
    hr.invariant (.init c ..) fun s a hs _ => ((step_progress c a).from hs).mono (fun _ _ h => h) fun _ _ _ => trivial
  obtain hr | ⟨s, a, e, hr, he⟩ := h
  · exact run w hr
  · exact (ensures_error he).1 ((step_progress c a).from (run s hr)) trivial

/-- **The state moves forward, with no `SHUT_WR` after `DISCONNECTED`, iff no `shutdown()` finds the connection down with a
channel that does not ask for `EPOLLOUT`**: for every connection, in every state a run comes to, also where a step stops with
a fault; the history ends with `connectState_`. -/
theorem forward_iff (ipPort : Name) (listenFd timerFd : Fd) (w : World) (h : Reached ipPort listenFd timerFd w) (c : ConnId) :
    (∀ o, w.conns c = some o → lastState (marks c w.trace) = o.connectState) ∧
      (Forward (marks c w.trace) ↔ .shutdown c .DISCONNECTED false ∉ w.trace) := by
  have progress := h.progress c
  refine ⟨progress.current, ?_⟩
  rw [← progress.asked]
  exact ⟨progress.marked.exact, fun hn => (progress.marked.forward hn).1⟩

/-- A client connects and hangs up while the user keeps a pointer; `shutdown()` is called on the connected connection, and
again on the one that is down, while an answer waits. -/
theorem forward_iff_hup :
    ∃ w : World, Run step (fun _ _ => True) (World.init [] 3 4) w ∧
      (.shutdown 0 .CONNECTED false ∈ w.trace ∧ .shutdown 0 .DISCONNECTED true ∈ w.trace ∧
        marks 0 w.trace = [.state .CONNECTED, .state .DISCONNECTED]) ∧
      (Forward (marks 0 w.trace) ↔ Event.shutdown 0 .DISCONNECTED false ∉ w.trace) := by
  obtain ⟨w, run, hw⟩ := Run.reaches step (fun _ _ => True) (World.init [] 3 4)
    [.poll [(3, EPOLLIN)], .dispatch { clientfd := some 5, sock := some 6, up := .keep 0 (.shutdown 0 true .done) },
      .poll [(5, EPOLLHUP)], .dispatch {}, .user (.send 0 [1] none (.shutdown 0 true .done))]
    (fun w => .shutdown 0 .CONNECTED false ∈ w.trace ∧ .shutdown 0 .DISCONNECTED true ∈ w.trace ∧
      marks 0 w.trace = [.state .CONNECTED, .state .DISCONNECTED])
    (by decide +kernel) (by decide +kernel)
  exact ⟨w, run, hw, (forward_iff [] 3 4 w (.inl run) 0).2⟩

/-- The client hangs up, and the DOWN callback calls `shutdown()`: the socket was never connected, `::shutdown` fails and
`abort()` ends the process in `DISCONNECTING`. -/
theorem not_forward_down_shutdown :
    ¬ ∀ (ipPort : Name) (listenFd timerFd : Fd) (w : World), Reached ipPort listenFd timerFd w →
      ∀ c, Forward (marks c w.trace) := by
  intro forward
  obtain ⟨s, run, hs⟩ := Run.reaches step (fun _ _ => True) (World.init [] 3 4)
    [.poll [(3, EPOLLIN)], .dispatch { clientfd := some 5, sock := some 6 }, .poll [(5, EPOLLHUP)]]
    (fun s => Ensures (step (.dispatch { hupDown := .shutdown 0 false .done })) s (fun _ _ => False) fun e t =>
      e = .abort ∧ marks 0 t.trace = [.state .CONNECTED, .state .DISCONNECTED, .state .DISCONNECTING, .shut .DISCONNECTED])
    (by decide +kernel) (by decide +kernel)
  obtain ⟨e, w, hw, -, hmarks⟩ := hs.stops
  have back := forward [] 3 4 w (.inr ⟨s, _, e, run, hw⟩) 0
  rw [hmarks] at back
  simp [Forward, Mark.before, ConnectState.rank] at back

end NetServer
