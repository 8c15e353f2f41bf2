import NetServer.Tcp.Share
import NetServer.Reactor.Registration
/-!
# Code of one connection

The handlers of a connection, with callbacks that call on this connection only, are code of its share: one lemma for each
function of `TcpConnection`, from the single changes (`ShareMoves.*`) up to `handleEvents`.
-/

namespace NetServer
open Exec

/-! ## Code of one channel -/

/-- The same channel in two interest sets, that hold the same for it and were `k` and `k'`. -/
structure Alongside {ι : Type} (k k' : Interest ι) (fd : Fd) (p q : Polled ι) : Prop where
  on : p.channel.fd = fd
  channel : q.channel = p.channel
  same : q.interest fd = p.interest fd
  others : ∀ f, f ≠ fd → p.interest f = k f ∧ q.interest f = k' f

section
variable {ι : Type} {k k' : Interest ι} {fd : Fd} {p q : Polled ι}

/-- The two run alike. -/
abbrev RunsAlongside (x : ChanM ι Unit) : Prop :=
  ∀ (k k' : Interest ι) (fd : Fd) (p q : Polled ι), Alongside k k' fd p q → Alike x p x q fun _ p' _ q' => Alongside k k' fd p' q'

theorem setStatus_alongside (st : Status) : RunsAlongside (setStatus st : ChanM ι Unit) := by
  intro k k' fd p q h
  refine (alike_modify ..).2 ⟨h.on, ?_, h.same, h.others⟩
  simp only [h.channel]

theorem setEvents_alongside (f : Mask → Mask) : RunsAlongside (setEvents f : ChanM ι Unit) := by
  intro k k' fd p q h
  refine (alike_modify ..).2 ⟨h.on, ?_, h.same, h.others⟩
  simp only [h.channel]

/-- What the kernel makes of the entry of a descriptor. -/
def CtlOp.entry (op : CtlOp) (old : Option (EpollEvent ι)) (event : EpollEvent ι) : Option (Option (EpollEvent ι)) :=
  match op, old with
  | .ADD, none => some (some event)
  | .MOD, some _ => some (some event)
  | .DEL, some _ => some none
  | _, _ => none

theorem epollCtl_entry (op : CtlOp) (event : EpollEvent ι) :
    epollCtl k op fd event = (op.entry (k fd) event).map fun x => Function.update k fd x := by
  unfold epollCtl CtlOp.entry
  cases op <;> cases k fd <;> rfl

theorem updateChannelOp_alongside (self : ι) (op : CtlOp) : RunsAlongside (Epoller.updateChannelOp self op) := by
  intro k k' fd p q h
  obtain rfl := h.on
  unfold Epoller.updateChannelOp
  rw [alike_left (run_get p), alike_right (run_get q), epollCtl_entry, epollCtl_entry, h.channel, h.same]
  rcases op.entry (p.interest p.channel.fd) ⟨p.channel.events, self⟩ with _ | x
  · exact alike_throw _
  · refine (alike_ok (run_set ..) (run_set ..)).2 ⟨rfl, rfl, by simp, fun f hf => ?_⟩
    simp only [Function.update_of_ne hf]
    exact h.others f hf

theorem RunsAlongside.bind {x y : ChanM ι Unit} (hx : RunsAlongside x) (hy : RunsAlongside y) :
    RunsAlongside (do x; y) := by
  intro k k' fd p q h
  exact (hx k k' fd p q h).bind fun _ p' _ q' h' => hy k k' fd p' q' h'

/-- Code that looks at the channel. -/
theorem runsAlongside_asks {f : Channel → ChanM ι Unit} (hf : ∀ ch, RunsAlongside (f ch)) :
    RunsAlongside (do let p ← get; f p.channel) := by
  intro k k' fd p q h
  rw [alike_left (run_get p), alike_right (run_get q), h.channel]
  exact hf _ k k' fd p q h

theorem updateChannel_alongside (self : ι) : RunsAlongside (Epoller.updateChannel self) := by
  unfold Epoller.updateChannel
  refine runsAlongside_asks (f := fun ch => if ch.status = .NEW ∨ ch.status = .DEL then do
      setStatus .ADDED
      Epoller.updateChannelOp self .ADD
    else if !ch.isNoneEvent then
      Epoller.updateChannelOp self .MOD
    else do
      setStatus .DEL
      Epoller.updateChannelOp self .DEL) fun ch => ?_
  split
  · exact (setStatus_alongside .ADDED).bind (updateChannelOp_alongside self .ADD)
  · split
    · exact updateChannelOp_alongside self .MOD
    · exact (setStatus_alongside .DEL).bind (updateChannelOp_alongside self .DEL)

theorem runsAlongside_assert (c : Prop) [Decidable c] : RunsAlongside (assert c : ChanM ι Unit) := by
  intro k k' fd p q h
  unfold assert
  split
  · exact (alike_pure ..).2 h
  · exact alike_throw _

theorem removeChannel_alongside (self : ι) : RunsAlongside (Epoller.removeChannel self) := by
  unfold Epoller.removeChannel
  refine runsAlongside_asks (f := fun ch => do
    assert (ch.isNoneEvent)
    if ch.status = .ADDED then
      Epoller.updateChannelOp self .DEL
    setStatus .NEW) fun ch => ?_
  refine (runsAlongside_assert _).bind ?_
  split
  · exact (updateChannelOp_alongside self .DEL).bind (setStatus_alongside .NEW)
  · exact setStatus_alongside .NEW

/-- **Every call** of a channel does the same wherever the interest set holds the same for it. -/
theorem ChannelOp.code_alongside (self : ι) (op : ChannelOp) : RunsAlongside (op.code self) := by
  have update : ∀ f : Mask → Mask, RunsAlongside (do setEvents f; Epoller.updateChannel self : ChanM ι Unit) :=
    fun f => (setEvents_alongside f).bind (updateChannel_alongside self)
  cases op with
  | enabledReadable => exact update _
  | enabledWritable => exact update _
  | disabledReadable => exact update _
  | disabledWritable => exact update _
  | diabledAllEvents => exact update _
  | remove =>
    exact runsAlongside_asks (f := fun ch => do assert (ch.isNoneEvent); Epoller.removeChannel self) fun ch =>
      (runsAlongside_assert _).bind (removeChannel_alongside self)

end

/-! ## Single changes -/

section
variable {α : Type} {i : Identity} {s s' t t' : World} {o : TcpConnection}

namespace ShareMoves

/-- A change that is not recorded and leaves the entries. -/
theorem quiet (same : SameShare i s' t') (only : OnlyShare i s s') (only' : OnlyShare i t t') (hs : s'.trace = s.trace)
    (ht : t'.trace = t.trace) (ms : s'.tcpConnections = s.tcpConnections) (mt : t'.tcpConnections = t.tcpConnections) :
    ShareMoves i s s' t t' where
  same := same
  only := ⟨only, only'⟩
  told := ⟨[], by simpa using hs, by simpa using ht, by simp⟩
  erased := ⟨false, by simpa using ms, by simpa using mt⟩

theorem records (h : SameShare i s t) {ev : Event} (hev : ∀ d, d ≠ i.conn → ev.about d = false) :
    ShareMoves i s { s with trace := s.trace ++ [ev] } t { t with trace := t.trace ++ [ev] } where
  same := { h with record := by simp only [List.filter_append, h.record] }
  only := ⟨⟨fun _ _ => rfl, fun _ _ => rfl, rfl⟩, ⟨fun _ _ => rfl, fun _ _ => rfl, rfl⟩⟩
  told := ⟨[ev], rfl, rfl, by simpa using hev⟩
  erased := ⟨false, by simp, by simp⟩

/-- The object is written or freed, and the registration of its channel changes with it. -/
theorem writes (h : SameShare i s t) {x : Option TcpConnection} (hx : ∀ o, x = some o → i.Names o) {k k' : Interest ChannelPtr}
    (hk : k' i.fd = k i.fd) (hs : ∀ f, f ≠ i.fd → k f = s.interest f) (ht : ∀ f, f ≠ i.fd → k' f = t.interest f) :
    ShareMoves i s { s with conns := Function.update s.conns i.conn x, interest := k }
      t { t with conns := Function.update t.conns i.conn x, interest := k' } := by
  have interest : ∀ f, i.Has f → k' f = k f := by
    intro f hf
    by_cases hfd : f = i.fd
    · rw [hfd, hk]
    · rw [hs f hfd, ht f hfd]
      exact congrArg Prod.fst (h.kernel f hf)
  have same : SameShare i { s with conns := Function.update s.conns i.conn x, interest := k }
      { t with conns := Function.update t.conns i.conn x, interest := k' } :=
    { h with
      cell := by simp [World.cell, h.userRefs]
      kernel := fun f hf => by
        have rest := congrArg Prod.snd (h.kernel f hf)
        exact Prod.ext (interest f hf) rest
      names := fun o ho => hx o (by simpa using ho) }
  refine quiet same ⟨fun d hd => ?_, fun f hf => ?_, rfl⟩ ⟨fun d hd => ?_, fun f hf => ?_, rfl⟩ rfl rfl rfl rfl
  · simp [World.cell, hd]
  · simp [World.kernel, hs f fun he => hf (.inl he)]
  · simp [World.cell, hd]
  · simp [World.kernel, ht f fun he => hf (.inl he)]

/-- User code keeps `n` pointers. -/
theorem keeps (h : SameShare i s t) (n : Nat) : ShareMoves i s { s with userRefs := Function.update s.userRefs i.conn n }
    t { t with userRefs := Function.update t.userRefs i.conn n } := by
  refine quiet { h with cell := ?_ } ⟨fun d hd => ?_, fun _ _ => rfl, rfl⟩ ⟨fun d hd => ?_, fun _ _ => rfl, rfl⟩ rfl rfl rfl rfl
  · simp [World.cell, h.conn]
  · simp [World.cell, hd]
  · simp [World.cell, hd]

/-- `::close` of the connection's own descriptor. -/
theorem closes (h : SameShare i s t) : ShareMoves i
    s { s with openFds := Function.update s.openFds i.socket false, interest := Function.update s.interest i.socket none }
    t { t with openFds := Function.update t.openFds i.socket false, interest := Function.update t.interest i.socket none } := by
  refine quiet { h with kernel := fun f hf => ?_ } ⟨fun _ _ => rfl, fun f hf => ?_, rfl⟩ ⟨fun _ _ => rfl, fun f hf => ?_, rfl⟩
    rfl rfl rfl rfl
  · have old := h.kernel f hf
    simp only [World.kernel, Prod.mk.injEq] at old ⊢
    by_cases he : f = i.socket
    · simp [he, (Prod.mk.inj (Prod.mk.inj (h.kernel i.socket (.inr rfl))).2).2]
    · simp [he, old]
  · have he : f ≠ i.socket := fun he => hf (.inr he)
    simp [World.kernel, he]
  · have he : f ≠ i.socket := fun he => hf (.inr he)
    simp [World.kernel, he]

/-- `::shutdown(SHUT_WR)` on it. -/
theorem shuts (h : SameShare i s t) : ShareMoves i
    s { s with shutWr := Function.update s.shutWr i.socket (s.shutWr i.socket + 1) }
    t { t with shutWr := Function.update t.shutWr i.socket (t.shutWr i.socket + 1) } := by
  refine quiet { h with kernel := fun f hf => ?_ } ⟨fun _ _ => rfl, fun f hf => ?_, rfl⟩ ⟨fun _ _ => rfl, fun f hf => ?_, rfl⟩
    rfl rfl rfl rfl
  · have old := h.kernel f hf
    simp only [World.kernel, Prod.mk.injEq] at old ⊢
    by_cases he : f = i.socket
    · subst he
      simp [old]
    · simp [he, old]
  · have he : f ≠ i.socket := fun he => hf (.inr he)
    simp [World.kernel, he]
  · have he : f ≠ i.socket := fun he => hf (.inr he)
    simp [World.kernel, he]

/-- `tcpConnections_.erase` of the connection's own name. -/
theorem erases (h : SameShare i s t) : ShareMoves i
    s { s with tcpConnections := s.tcpConnections.filter (·.1 != i.name) }
    t { t with tcpConnections := t.tcpConnections.filter (·.1 != i.name) } := by
  have gone : ∀ w, EntriesOf i w → w.tcpConnections.any (fun e => e.1 != i.name && e.2 == i.conn) = false := by
    intro w hw
    rw [List.any_eq_false]
    rintro ⟨n, e⟩ he
    have := hw n e he
    simp only [Bool.and_eq_true, bne_iff_ne, beq_iff_eq, not_and]
    exact fun hn he => hn (this.2 he)
  refine ⟨{ h with inMap := ?_, entries := ⟨?_, ?_⟩ }, ⟨⟨fun _ _ => rfl, fun _ _ => rfl, rfl⟩, ⟨fun _ _ => rfl, fun _ _ => rfl, rfl⟩⟩,
    ⟨[], by simp, by simp, by simp⟩, ⟨true, rfl, rfl⟩⟩
  · simp only [World.inMap, List.any_filter]
    rw [gone s h.entries.1, gone t h.entries.2]
  · intro n e he
    exact h.entries.1 n e (List.mem_filter.1 he).1
  · intro n e he
    exact h.entries.2 n e (List.mem_filter.1 he).1

end ShareMoves

theorem local_modify {F : World → World} (h : ∀ s t, SameShare i s t → ShareMoves i s (F s) t (F t)) :
    connections.Local i (modify F : M Unit) := fun s t hst => (alike_modify F F).2 ⟨rfl, h s t hst⟩

theorem local_emit {ev : Event} (hev : ∀ d, d ≠ i.conn → ev.about d = false) : connections.Local i (emit ev) :=
  local_modify fun _ _ h => .records h hev

theorem local_assert (p : Prop) [Decidable p] : connections.Local i (assert p : M Unit) := by
  unfold assert
  exact (Shares.local_pure ()).ite (Shares.local_throw _)

/-- Code that reads the object, or stops because it is gone. -/
theorem local_deref {f : TcpConnection → M α} (hf : ∀ o, i.Names o → connections.Local i (f o)) :
    connections.Local i (do let o ← deref i.conn; f o) := by
  intro s t h
  rcases hc : s.conns i.conn with _ | o
  · have there : t.conns i.conn = none := h.conn.trans hc
    have stops : ∀ w : World, w.conns i.conn = none → (do let o ← deref i.conn; f o) w = .error .useAfterFree w := by
      intro w hw
      simp [deref, hw]
    exact (alike_error (stops s hc) (stops t there)).2 rfl
  · have here : deref i.conn s = .ok o s := by simp [deref, hc]
    have there : deref i.conn t = .ok o t := by simp [deref, h.conn.trans hc]
    rw [alike_left here, alike_right there]
    exact hf o (h.names o hc) s t h

theorem local_store (ho : i.Names o) : connections.Local i (store i.conn o) :=
  local_modify fun s t h => .writes (x := some o) h (by rintro _ ⟨⟩; exact ho) h.interest (fun _ _ => rfl) fun _ _ => rfl

theorem local_onChannel (op : ChannelOp) : connections.Local i (onChannel i.conn fun p => op.code p) := by
  refine local_deref fun o ho => ?_
  intro s t h
  rw [alike_zoom]
  have beside : Alongside s.interest t.interest i.fd (⟨o.channel, s.interest⟩ : Polled ChannelPtr) ⟨o.channel, t.interest⟩ :=
    ⟨ho.fd, rfl, h.interest, fun _ _ => ⟨rfl, rfl⟩⟩
  refine (op.code_alongside (.conn i.conn) _ _ _ _ _ beside).mono ?_
  rintro _ p _ q hpq
  refine ⟨rfl, ?_⟩
  have names : i.Names { o with channel := p.channel } := ⟨ho.name, ho.socket, hpq.on⟩
  rw [hpq.channel]
  exact .writes h (by rintro _ ⟨⟩; exact names) hpq.same (fun f hf => (hpq.others f hf).1) fun f hf => (hpq.others f hf).2

/-- Code of a buffer of the object. -/
theorem local_buffer {x : BufM α} {b : Buffer} {put : Buffer → TcpConnection} (hput : ∀ b, i.Names (put b)) :
    connections.Local i (zoom (fun _ => b) (fun b w => w.put i.conn (put b)) x) := by
  intro s t h
  rw [alike_zoom]
  refine (alike_same x b).mono ?_
  rintro a b _ _ ⟨rfl, rfl⟩
  exact ⟨rfl, .writes h (by rintro _ ⟨⟩; exact hput _) h.interest (fun _ _ => rfl) fun _ _ => rfl⟩

theorem local_onInput (x : BufM α) : connections.Local i (onInput i.conn x) :=
  local_deref fun _ ho => local_buffer fun _ => ⟨ho.name, ho.socket, ho.fd⟩

theorem local_onOutput (x : BufM α) : connections.Local i (onOutput i.conn x) :=
  local_deref fun _ ho => local_buffer fun _ => ⟨ho.name, ho.socket, ho.fd⟩

end

/-! ## Owners -/

section
variable {i : Identity} {s s' t t' : World} {o : TcpConnection} {x : M Unit}

namespace SameShare

theorem owned (h : SameShare i s t) : t.owned i.conn = s.owned i.conn := by
  simp only [World.owned, h.inMap, h.userRefs, h.frames]

theorem registered (h : SameShare i s t) : t.registered i.conn = s.registered i.conn := by
  unfold World.registered
  rw [h.conn]
  rcases hc : s.conns i.conn with _ | o
  · rfl
  · simp only [(h.names o hc).fd, h.interest]

theorem waiting (h : SameShare i s t) : t.waiting i.conn = s.waiting i.conn := by
  unfold World.waiting
  rw [h.conn, h.behind]

/-- The frames and the batch are those of other states. -/
theorem taking (h : SameShare i s t) (h' : SameShare i s' t') : SameShare i (s.taking s') (t.taking t') :=
  { h' with
    frames := h.frames
    borrowed := h.borrowed
    inBatch := h.inBatch
    behind := h.behind }

end SameShare

/-- What is looked up under the name of the connection. -/
theorem EntriesOf.lookup {w : World} (h : EntriesOf i w) :
    w.tcpConnections.lookup i.name = if w.inMap i.conn then some i.conn else none := by
  rcases hl : w.tcpConnections.lookup i.name with _ | e
  · have out : w.inMap i.conn = false := by
      rw [Bool.eq_false_iff]
      intro hin
      rcases World.inMap_iff.1 hin with ⟨n, hn⟩
      have none := List.lookup_eq_none_iff.1 hl _ hn
      simp [(h n _ hn).2 rfl] at none
    simp [out]
  · have mem := mem_of_lookup hl
    obtain rfl := (h _ e mem).1 rfl
    simp [World.inMap_iff.2 ⟨_, mem⟩]

/-- The code ran with other frames below, or in another batch. -/
theorem ShareMoves.back {s₀ t₀ : World} (h : SameShare i s₀ t₀) (hm : ShareMoves i s s' t t') (hs : s₀.taking s = s₀)
    (ht : t₀.taking t = t₀) : ShareMoves i s₀ (s₀.taking s') t₀ (t₀.taking t') where
  same := h.taking hm.same
  only := by
    refine ⟨⟨fun d hd => ?_, fun f hf => ?_, rfl⟩, ⟨fun d hd => ?_, fun f hf => ?_, rfl⟩⟩
    · rw [← hs]
      exact hm.only.1.cell d hd
    · rw [← hs]
      exact hm.only.1.kernel f hf
    · rw [← ht]
      exact hm.only.2.cell d hd
    · rw [← ht]
      exact hm.only.2.kernel f hf
  told := by
    rw [← hs, ← ht]
    exact hm.told
  erased := by
    rw [← hs, ← ht]
    exact hm.erased

theorem local_asks {α β : Type} (g : World → β) {f : β → M α} (hg : ∀ s t, SameShare i s t → g t = g s)
    (hf : ∀ b, connections.Local i (f b)) : connections.Local i (do let w ← get; f (g w)) := Shares.local_asks hg hf

theorem own_about : ∀ d, d ≠ i.conn → (i.conn == d) = false := fun _ hd => beq_eq_false_iff_ne.2 hd.symm

theorem local_closeFd : connections.Local i (closeFd i.socket) :=
  (local_emit fun _ _ => rfl).bind fun _ => local_modify fun _ _ h => .closes h

theorem local_destroy : connections.Local i (destroy i.conn) := by
  refine local_deref fun o ho => ?_
  rw [ho.socket]
  refine local_asks (fun w => (w.inBatch i.conn, w.registered i.conn, w.borrowed.contains i.conn)) (f := fun b => do
    emit (.destroyed i.conn b.1 b.2.1 b.2.2)
    modify fun w => { w with conns := Function.update w.conns i.conn none }
    closeFd i.socket) (fun s t h => by rw [h.inBatch, h.registered, h.borrowed]) fun b => ?_
  refine (local_emit own_about).bind fun _ => Shares.Local.bind ?_ fun _ => local_closeFd
  exact local_modify fun _ _ h => .writes (x := none) h nofun h.interest (fun _ _ => rfl) fun _ _ => rfl

theorem local_release : connections.Local i (release i.conn) :=
  local_asks (fun w => w.owned i.conn) (f := fun b => if b then pure () else destroy i.conn) (fun _ _ h => h.owned)
    fun _ => (Shares.local_pure ()).ite local_destroy

/-- Code under something that comes with it and goes after it, and is no part of the share. -/
theorem local_under (push pop : World → World) (hpush : ∀ s t, SameShare i s t → SameShare i (push s) (push t))
    (hpop : ∀ w w' : World, OnlyShare i (push w) w' → pop w' = w.taking w') (hunder : ∀ w : World, w.taking (push w) = w)
    (hx : connections.Local i x) : connections.Local i (do modify push; x; modify pop : M Unit) := by
  intro s t (h : SameShare i s t)
  rw [alike_left (run_modify ..), alike_right (run_modify ..)]
  refine (hx _ _ (hpush s t h)).bind ?_
  rintro _ s' _ t' ⟨-, (hm : ShareMoves i _ s' _ t')⟩
  refine (alike_modify ..).2 ⟨rfl, ?_⟩
  rw [hpop s s' hm.only.1, hpop t t' hm.only.2]
  exact hm.back h (hunder s) (hunder t)

theorem local_withPtr (hx : connections.Local i x) : connections.Local i (withPtr i.conn x) := by
  refine local_deref fun _ _ => ?_
  have framed := local_under (fun w => { w with frames := i.conn :: w.frames })
    (fun w => { w with frames := w.frames.erase i.conn })
    (fun _ _ h => { h with frames := congrArg (i.conn :: ·) h.frames })
    (fun _ _ hw => by rw [hw.rest]; simp [World.taking]) (fun _ => rfl) hx
  simpa only [bind_assoc] using framed.bind fun _ => local_release

theorem local_withRef (hx : connections.Local i x) : connections.Local i (withRef i.conn x) :=
  local_under (fun w => { w with borrowed := i.conn :: w.borrowed })
    (fun w => { w with borrowed := w.borrowed.erase i.conn })
    (fun _ _ h => { h with borrowed := congrArg (i.conn :: ·) h.borrowed })
    (fun _ _ hw => by rw [hw.rest]; simp [World.taking]) (fun _ => rfl) hx

theorem local_eraseEntry : connections.Local i (eraseEntry i.name) := by
  intro s t (h : SameShare i s t)
  unfold eraseEntry
  rw [alike_left (run_get s), alike_right (run_get t), h.entries.1.lookup, h.entries.2.lookup, h.inMap]
  rcases s.inMap i.conn with _ | _
  · exact (alike_pure ..).2 ⟨rfl, .stay h⟩
  · have erased := ShareMoves.erases h
    rw [if_pos rfl, alike_left (run_set ..), alike_right (run_set ..)]
    exact local_release.after erased

theorem local_keepPtr : connections.Local i (keepPtr i.conn) := by
  intro s t (h : SameShare i s t)
  refine (alike_modify ..).2 ⟨rfl, ?_⟩
  rw [h.userRefs]
  exact .keeps h _

theorem local_dropPtr : connections.Local i (dropPtr i.conn) := by
  intro s t (h : SameShare i s t)
  unfold dropPtr
  rw [alike_left (run_get s), alike_right (run_get t), h.userRefs]
  refine alike_ite Iff.rfl (fun _ => alike_throw _) fun _ => ?_
  rw [alike_left (run_set ..), alike_right (run_set ..)]
  exact local_release.after (ShareMoves.keeps h _)

theorem local_userPtr : connections.Local i (userPtr i.conn) :=
  local_asks (fun w => (w.userRefs i.conn, w.frames))
    (f := fun b => if 0 < b.1 ∨ i.conn ∈ b.2 then pure () else throw .outside)
    (fun s t h => by rw [h.userRefs, h.frames]) fun _ => (Shares.local_pure ()).ite (Shares.local_throw _)

end

/-! ## The functions of `TcpConnection` -/

section
variable {i : Identity}

theorem local_setConnectState (st : ConnectState) : connections.Local i (setConnectState i.conn st) :=
  local_deref fun _ ho => (local_emit own_about).bind fun _ => local_store ⟨ho.name, ho.socket, ho.fd⟩

theorem local_write (r : Option Nat) (bytes : Bytes) : connections.Local i (write i.conn r bytes) := by
  unfold write
  rcases r with _ | n
  · exact Shares.local_pure _
  · exact (local_emit own_about).bind fun _ => Shares.local_pure _

theorem local_shutdownWrite (ok : Bool) : connections.Local i (shutdownWrite i.socket ok) := by
  unfold shutdownWrite
  exact (local_modify fun _ _ h => .shuts h).ite (Shares.local_throw _)

theorem local_shutdown (ok : Bool) : connections.Local i (TcpConnection.shutdown i.conn ok) := by
  refine local_deref fun o ho => (local_emit own_about).bind fun _ => ?_
  refine .ite ((local_setConnectState _).bind fun _ => (local_emit own_about).bind fun _ => ?_) (Shares.local_pure ())
  rw [ho.socket]
  exact local_shutdownWrite ok

theorem local_queue (left : Bytes) : connections.Local i (do
    onOutput i.conn (Buffer.append left)
    let o ← deref i.conn
    emit (.queued i.conn o.connectState)
    if !o.channel.isWriting then
      onChannel i.conn Channel.enabledWritable) := by
  refine (local_onOutput _).bind fun _ => local_deref fun o _ => (local_emit own_about).bind fun _ => ?_
  exact .ite (local_onChannel .enabledWritable) (Shares.local_pure ())

theorem local_send (message : Bytes) (r : Option Nat) : connections.Local i (TcpConnection.send i.conn message r) := by
  refine local_deref fun o _ => (local_emit own_about).bind fun _ => ?_
  have rest : ∀ n : Int, connections.Local i (do
      assert (n ≥ 0)
      if n.toNat < message.length then
        onOutput i.conn (Buffer.append (message.drop n.toNat))
        let o ← deref i.conn
        emit (.queued i.conn o.connectState)
        if !o.channel.isWriting then
          onChannel i.conn Channel.enabledWritable) := fun n =>
    (local_assert _).bind fun _ => .ite (local_queue _) (Shares.local_pure ())
  exact .ite ((local_write r message).bind fun n => rest _) (rest 0)

theorem local_handleWrite (r : Option Nat) (shut : Bool) : connections.Local i (TcpConnection.handleWrite i.conn r shut) := by
  refine local_deref fun o _ => .ite ?_ (Shares.local_pure ())
  refine (local_onOutput _).bind fun bytes => (local_emit own_about).bind fun _ => (local_write r bytes).bind fun n => ?_
  refine .ite ?_ (Shares.local_throw _)
  refine (local_onOutput _).bind fun _ => local_deref fun o _ => .ite ?_ (Shares.local_pure ())
  refine (local_onChannel .disabledWritable).bind fun _ => local_deref fun o _ => ?_
  exact .ite (local_shutdown shut) (Shares.local_pure ())

theorem local_connectionCallback {user : M Unit} (hu : connections.Local i user) :
    connections.Local i (TcpConnection.connectionCallback i.conn user) :=
  local_deref fun _ _ => local_withPtr ((local_emit own_about).bind fun _ => hu)

theorem local_removeChannel : connections.Local i (TcpConnection.removeChannel i.conn) := by
  refine local_deref fun o _ => ?_
  exact local_asks (fun w => w.waiting i.conn) (f := fun b => do
    emit (.remove i.conn o.channel.isNoneEvent b)
    onChannel i.conn Channel.remove) (fun _ _ h => h.waiting)
    fun _ => (local_emit own_about).bind fun _ => local_onChannel .remove

theorem local_connectionDestroy {down : M Unit} (hd : connections.Local i down) :
    connections.Local i (TcpConnection.connectionDestroy i.conn down) := by
  refine local_deref fun o _ => .ite ?_ local_removeChannel
  refine (local_setConnectState _).bind fun _ => (local_onChannel .diabledAllEvents).bind fun _ => ?_
  exact (local_connectionCallback hd).bind fun _ => local_removeChannel

theorem local_removeConnection {down : M Unit} (hd : connections.Local i down) :
    connections.Local i (TcpServer.removeConnection i.conn down) := by
  refine local_deref fun o ho => ?_
  rw [ho.name]
  exact local_eraseEntry.bind fun _ => local_connectionDestroy hd

theorem local_handleClose {down user : M Unit} (hd : connections.Local i down) (hu : connections.Local i user) :
    connections.Local i (TcpConnection.handleClose i.conn down user) := by
  refine (local_setConnectState _).bind fun _ => (local_onChannel .diabledAllEvents).bind fun _ => ?_
  refine (local_connectionCallback hd).bind fun _ => local_deref fun _ _ => local_withPtr ?_
  exact (local_emit own_about).bind fun _ => local_removeConnection hu

theorem local_handleRead (r : Option Bytes) {message down user : M Unit} (hm : connections.Local i message)
    (hd : connections.Local i down) (hu : connections.Local i user) :
    connections.Local i (TcpConnection.handleRead i.conn r message down user) := by
  refine (local_onInput _).bind fun n => (local_emit own_about).bind fun _ => .ite ?_ (.ite ?_ (Shares.local_pure ()))
  · exact local_deref fun _ _ => local_withPtr ((local_emit own_about).bind fun _ => hm)
  · exact local_handleClose hd hu

theorem local_retrieveAsString : connections.Local i (TcpConnection.retrieveAsString i.conn) :=
  (local_onInput _).bind fun s => (local_emit own_about).bind fun _ => Shares.local_pure s

theorem local_retrieve (len : Nat) : connections.Local i (TcpConnection.retrieve i.conn len) :=
  local_deref fun _ _ => (local_onInput _).bind fun _ => local_emit own_about

/-- User code calls on this connection only. -/
def onlyOn (c : ConnId) : CallKind → ConnId → Bool := fun _ d => d == c

/-- So the script does, and it leaves the timers alone. -/
def Script.staysOn (c : ConnId) (script : Script) : Bool := script.only (onlyOn c) && script.timerless

def EventInput.staysOn (c : ConnId) (inp : EventInput) : Bool := inp.scripts.all (·.staysOn c)

theorem local_script (script : Script) (h : script.only (onlyOn i.conn) = true) (htimers : script.timerless = true) :
    connections.Local i script.run := by
  induction script with
  | done => exact Shares.local_pure ()
  | send c message r next ih =>
    obtain ⟨hc, hn⟩ := Bool.and_eq_true_iff.1 h
    obtain rfl := eq_of_beq hc
    exact local_userPtr.bind fun _ => (local_send message r).bind fun _ => ih hn htimers
  | echo c r next ih =>
    obtain ⟨hc, hn⟩ := Bool.and_eq_true_iff.1 h
    obtain rfl := eq_of_beq hc
    exact local_userPtr.bind fun _ => local_retrieveAsString.bind fun s => (local_send s r).bind fun _ => ih hn htimers
  | retrieve c len next ih =>
    obtain ⟨hc, hn⟩ := Bool.and_eq_true_iff.1 h
    obtain rfl := eq_of_beq hc
    exact local_userPtr.bind fun _ => (local_retrieve len).bind fun _ => ih hn htimers
  | shutdown c ok next ih =>
    obtain ⟨hc, hn⟩ := Bool.and_eq_true_iff.1 h
    obtain rfl := eq_of_beq hc
    exact local_userPtr.bind fun _ => (local_shutdown ok).bind fun _ => ih hn htimers
  | removeConnection c down next ihd ih =>
    obtain ⟨h, hn⟩ := Bool.and_eq_true_iff.1 h
    obtain ⟨hc, hd⟩ := Bool.and_eq_true_iff.1 h
    obtain rfl := eq_of_beq hc
    obtain ⟨htimersDown, htimers⟩ := Bool.and_eq_true_iff.1 htimers
    refine local_userPtr.bind fun _ => .bind (local_withRef ?_) fun _ => ih hn htimers
    exact (local_emit own_about).bind fun _ => local_removeConnection (ihd hd htimersDown)
  | keep c next ih =>
    obtain ⟨hc, hn⟩ := Bool.and_eq_true_iff.1 h
    obtain rfl := eq_of_beq hc
    exact local_userPtr.bind fun _ => local_keepPtr.bind fun _ => ih hn htimers
  | drop c next ih =>
    obtain ⟨hc, hn⟩ := Bool.and_eq_true_iff.1 h
    obtain rfl := eq_of_beq hc
    exact local_dropPtr.bind fun _ => ih hn htimers
  | timer => cases htimers

/-- **`handleEvents`** of a connection. -/
theorem local_handleEvents {inp : EventInput} (h : inp.staysOn i.conn = true) :
    connections.Local i (handleEvents (.conn i.conn) inp) := by
  have scripts : ∀ x ∈ inp.scripts, connections.Local i x.run := fun x hx =>
    have stays := Bool.and_eq_true_iff.1 (List.all_eq_true.1 h x hx)
    local_script x stays.1 stays.2
  have channel : ∀ {f : Channel → M Unit}, (∀ ch, connections.Local i (f ch)) →
      connections.Local i (do let ch ← channelOf (.conn i.conn); f ch) := fun hf => by
    unfold channelOf
    simp only [bind_assoc, pure_bind]
    exact local_deref fun o _ => hf o.channel
  have writable : connections.Local i (do
      let ch ← channelOf (.conn i.conn)
      if ch.revents.has EPOLLOUT then
        writeEventCallback (.conn i.conn) inp) :=
    channel fun ch => .ite (local_handleWrite _ _) (Shares.local_pure ())
  have readable : connections.Local i (readEventCallback (.conn i.conn) inp) :=
    local_handleRead _ (scripts _ (by simp [EventInput.scripts])) (scripts _ (by simp [EventInput.scripts]))
      (scripts _ (by simp [EventInput.scripts]))
  have closes : connections.Local i (closeEventCallback (.conn i.conn) inp) :=
    local_handleClose (scripts _ (by simp [EventInput.scripts])) (scripts _ (by simp [EventInput.scripts]))
  have next : connections.Local i (do
      let ch ← channelOf (.conn i.conn)
      if ch.revents.has EPOLLIN then
        readEventCallback (.conn i.conn) inp
      let ch ← channelOf (.conn i.conn)
      if ch.revents.has EPOLLOUT then
        writeEventCallback (.conn i.conn) inp) :=
    channel fun ch => .ite (readable.bind fun _ => writable) writable
  exact channel fun ch => .ite (closes.bind fun _ => next) next

end

end NetServer
