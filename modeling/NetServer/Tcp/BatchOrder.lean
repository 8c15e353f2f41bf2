import NetServer.Tcp.Local
import NetServer.Tcp.Stream
/-!
# The order of a batch

One `epoll_wait` reports several connections, in an order that the kernel chooses, and the range-for handles them in this
order. Where the callbacks of a connection call on that connection only, and leave the timers of the loop alone, all orders
come to the same (`batch_order`).

| here | there |
| --- | --- |
| `Report`       | one `epoll_event` of a connection, and what happens in its `handleEvents` |
| `Report.acts`  | one iteration of `EventLoop::loop` with these events |
| `Report.enter` | what `Epoller::poll` does to the connection |
| `Report.turn`  | its turn of the range-for, without the others of the batch |
-/

namespace NetServer
open Exec

structure Report where
  conn : ConnId
  fd : Fd
  mask : Mask
  inp : EventInput
deriving DecidableEq, Repr

namespace Report

def acts (batch : List Report) : List Act :=
  .poll (batch.map fun r => (r.fd, r.mask)) :: batch.map fun r => .dispatch r.inp

/-- The kernel can report the connection, and its callbacks call on no other. -/
def Fits (w : World) (r : Report) : Prop :=
  (∃ o ∈ w.conns r.conn, o.channel.fd = r.fd) ∧ (w.interest r.fd).isSome ∧ r.inp.staysOn r.conn = true

instance decidableFits (w : World) (r : Report) : Decidable (r.Fits w) := inferInstanceAs (Decidable (_ ∧ _ ∧ _))

def enter (r : Report) : M Unit := do
  setReturnEvents (.conn r.conn) r.mask
  emit (.reported (.conn r.conn))

def turn (r : Report) : M Unit := do
  let w ← get
  modify fun w => { w with activeChannels := [.conn r.conn] }
  handleEvents (.conn r.conn) r.inp
  modify fun v => { v with activeChannels := w.activeChannels }

end Report

/-! ## The pieces of an iteration are code of connections -/

section
variable {i : Identity} {w v : World} {c d : ConnId} {o x : TcpConnection}

theorem local_enter {r : Report} (hr : r.conn = i.conn) : connections.Local i r.enter := by
  unfold Report.enter setReturnEvents
  rw [hr]
  simp only [bind_assoc]
  refine local_deref fun o ho => .bind (local_store ?_) fun _ => local_emit own_about
  exact ⟨ho.name, ho.socket, ho.fd⟩

theorem local_turn {r : Report} (hr : r.conn = i.conn) (h : r.inp.staysOn r.conn = true) : connections.Local i r.turn := by
  intro s t (hst : SameShare i s t)
  rw [hr] at h
  unfold Report.turn
  rw [hr, alike_left (run_get s), alike_right (run_get t), alike_left (run_modify ..), alike_right (run_modify ..)]
  have alone : SameShare i { s with activeChannels := [.conn i.conn] } { t with activeChannels := [.conn i.conn] } :=
    { hst with
      inBatch := rfl
      behind := rfl }
  refine (local_handleEvents h _ _ alone).bind ?_
  rintro _ s' _ t' ⟨-, (hm : ShareMoves i _ s' _ t')⟩
  refine (alike_modify ..).2 ⟨rfl, ?_⟩
  have left : ∀ u u' : World, OnlyShare i { u with activeChannels := [.conn i.conn] } u' →
      { u' with activeChannels := u.activeChannels } = u.taking u' := by
    intro u u' hu
    rw [hu.rest]
    rfl
  rw [left s s' hm.only.1, left t t' hm.only.2]
  exact hm.back hst rfl rfl

/-- The identity of a connection that is there. -/
def World.identity (w : World) (c : ConnId) : Identity where
  conn := c
  name := (w.conns c).elim [] (·.name)
  socket := (w.conns c).elim 0 (·.socket)
  fd := (w.conns c).elim 0 (·.channel.fd)

theorem World.identity_names (hc : w.conns c = some o) : (w.identity c).Names o := by
  constructor <;> simp [World.identity, hc]

theorem Objects.sameShare (h : Objects w) (hc : w.conns c = some o) : SameShare (w.identity c) w w := by
  have names := World.identity_names hc
  have entries : EntriesOf (w.identity c) w := by
    intro n e he
    rw [← names.name, h.named c o hc, h.entries n e he]
    exact ⟨fun hn => Nat.succ.inj (connectionName_inj hn), fun he => by rw [he]; rfl⟩
  refine ⟨rfl, fun x hx => ?_, fun _ _ => rfl, rfl, ⟨entries, entries⟩, rfl, rfl, rfl, rfl, rfl⟩
  obtain rfl : o = x := Option.some.inj (hc.symm.trans hx)
  exact names

theorem Objects.identity_apart (h : Objects w) (hc : w.conns c = some o) (hd : w.conns d = some x) (hcd : c ≠ d) :
    (w.identity c).Apart (w.identity d) := by
  have names := World.identity_names hc
  have names' := World.identity_names hd
  refine ⟨hcd, fun hn => hcd ?_, ?_⟩
  · rw [← names.name, ← names'.name, h.named c o hc, h.named d x hd] at hn
    exact Nat.succ.inj (connectionName_inj hn)
  · unfold Identity.Has
    rw [← names.fd, ← names.socket, ← names'.fd, ← names'.socket]
    have unshared := h.unshared c d o x hc hd hcd
    rintro f (rfl | rfl) (hf | hf)
    · exact unshared.2 hf
    · exact h.apart d c x o hd hc hf.symm
    · exact h.apart c d o x hc hd hf
    · exact unshared.1 hf

end

/-! ## One iteration, piece by piece -/

/-- The others of the batch make no difference to a turn. -/
theorem ShareMoves.beside {i : Identity} {v s' t' : World} {l l' : List ChannelPtr}
    (h : ShareMoves i { v with activeChannels := l } s' { v with activeChannels := l' } t') :
    t' = { s' with activeChannels := l' } := by
  have cells := World.taking_cells (w := { v with activeChannels := l' }) (h.cells rfl)
  have trace : t'.trace = s'.trace := by
    obtain ⟨evs, hs, ht, -⟩ := h.told
    rw [hs, ht]
  rw [← h.only.2.rest, trace] at cells
  rw [cells, h.only.1.rest]
  rfl

namespace Report

variable {w v : World} {batch batch' : List Report} {f : Report → M Unit}

/-- Code of each connection of a batch. -/
def pieces (w : World) (f : Report → M Unit) (batch : List Report) : List (Identity × M Unit) :=
  batch.map fun r => (w.identity r.conn, f r)

theorem steps_pieces (w v : World) (f : Report → M Unit) (batch : List Report) :
    steps Prod.snd (pieces w f batch) v = steps f batch v := by
  induction batch generalizing v with
  | nil => rfl
  | cons r batch ih =>
    simp only [pieces, List.map_cons, steps, run_bind] at ih ⊢
    cases f r v with
    | ok _ u => exact ih u
    | error e u => rfl

theorem pieces_ready (ho : Objects w) (there : ∀ r ∈ batch, (w.conns r.conn).isSome) (distinct : (batch.map Report.conn).Nodup)
    (code : ∀ r ∈ batch, connections.Local (w.identity r.conn) (f r))
    (same : ∀ r ∈ batch, SameShare (w.identity r.conn) v v) : connections.Ready (pieces w f batch) v where
  code p hp := by
    obtain ⟨r, hr, rfl⟩ := List.mem_map.1 hp
    exact code r hr
  same p hp := by
    obtain ⟨r, hr, rfl⟩ := List.mem_map.1 hp
    exact same r hr
  apart := by
    refine List.pairwise_map.2 ((List.pairwise_map.1 distinct).imp_of_mem fun {r q} hr hq hne => ?_)
    obtain ⟨o, hc⟩ := Option.isSome_iff_exists.1 (there r hr)
    obtain ⟨x, hd⟩ := Option.isSome_iff_exists.1 (there q hq)
    exact ho.identity_apart hc hd hne

/-- Each piece is of the connection or of one that is apart from it. -/
theorem pieces_apart (ho : Objects w) (there : ∀ r ∈ batch, (w.conns r.conn).isSome) {d : ConnId} (hd : (w.conns d).isSome) :
    ∀ p ∈ pieces w f batch, p.1 = w.identity d ∨ p.1.Apart (w.identity d) := by
  intro p hp
  obtain ⟨r, hr, rfl⟩ := List.mem_map.1 hp
  obtain ⟨o, hc⟩ := Option.isSome_iff_exists.1 (there r hr)
  obtain ⟨x, hd⟩ := Option.isSome_iff_exists.1 hd
  by_cases he : r.conn = d
  · exact .inl (congrArg w.identity he)
  · exact .inr (ho.identity_apart hc hd he)

/-- The loop over the events writes to the channels and fills `activeChannels_`. -/
theorem pollEvents_alike (l : List ChannelPtr)
    (h : ∀ r ∈ batch, (v.conns r.conn).isSome ∧ (v.interest r.fd).map (·.ptr) = some (.conn r.conn)) :
    Alike (pollEvents (batch.map fun r => (r.fd, r.mask))) { v with activeChannels := l } (steps enter batch) v
      fun _ s _ t => t.activeChannels = v.activeChannels ∧
        s = { t with activeChannels := l ++ batch.map fun r => .conn r.conn } := by
  induction batch generalizing v l with
  | nil => exact (alike_pure ..).2 ⟨rfl, by simp⟩
  | cons r batch ih =>
    obtain ⟨hlive, hreg⟩ := h r List.mem_cons_self
    obtain ⟨o, hc⟩ := Option.isSome_iff_exists.1 hlive
    obtain ⟨e, he, hptr⟩ := Option.map_eq_some_iff.1 hreg
    rw [List.map_cons, pollEvents, steps, alike_left (run_get _)]
    simp only [he, hptr]
    obtain ⟨u, hu⟩ : ∃ u, u = v.put r.conn { o with channel := { o.channel with revents := r.mask } } := ⟨_, rfl⟩
    have written : ∀ l', setReturnEvents (.conn r.conn) r.mask { v with activeChannels := l' } =
        .ok () { u with activeChannels := l' } := by
      intro l'
      simp [setReturnEvents, deref, store, hc, hu, World.put]
    have entered : r.enter v = .ok () { u with trace := u.trace ++ [.reported (.conn r.conn)] } := by
      have there : setReturnEvents (.conn r.conn) r.mask v = .ok () u := by simp [setReturnEvents, deref, store, hc, hu]
      simp only [enter, run_bind, there]
      rfl
    have interest : u.interest = v.interest := by rw [hu]; rfl
    have active : u.activeChannels = v.activeChannels := by rw [hu]; rfl
    have told : ∀ u' : World, emit (.reported (.conn r.conn)) u' =
      .ok () { u' with trace := u'.trace ++ [.reported (.conn r.conn)] } := fun _ => rfl
    rw [alike_left (written l), alike_left (told _), alike_left (run_modify ..), alike_right entered]
    have rest : ∀ q ∈ batch, (u.conns q.conn).isSome ∧ (u.interest q.fd).map (·.ptr) = some (.conn q.conn) := by
      intro q hq
      rw [interest]
      obtain ⟨hlive, hq⟩ := h q (List.mem_cons_of_mem _ hq)
      refine ⟨?_, hq⟩
      by_cases he : q.conn = r.conn
      · simp [hu, World.put, he]
      · simpa [hu, World.put, he] using hlive
    refine (ih (v := { u with trace := u.trace ++ [.reported (.conn r.conn)] }) (l ++ [.conn r.conn]) rest).mono ?_
    rintro _ s _ t ⟨ht, hs⟩
    exact ⟨ht.trans active, by simpa using hs⟩

/-- A turn of the range-for, with the others still to come or alone. -/
theorem dispatch_alike (r : Report) {i : Identity} (hi : i.conn = r.conn) (hv : SameShare i v v)
    (only : r.inp.staysOn r.conn = true) {rest : List ChannelPtr} (hrest : .conn r.conn ∉ rest) :
    Alike (dispatch r.inp) { v with activeChannels := .conn r.conn :: rest } r.turn v
      fun _ s _ t => t.activeChannels = v.activeChannels ∧ s = { t with activeChannels := rest } := by
  rw [← hi] at only hrest
  unfold dispatch turn
  rw [← hi, alike_left (run_get _), alike_right (run_get v), alike_right (run_modify ..)]
  have same : SameShare i { v with activeChannels := .conn i.conn :: rest } { v with activeChannels := [.conn i.conn] } :=
    { hv with
      inBatch := by simp [World.inBatch]
      behind := by simpa using hrest }
  refine (local_handleEvents only _ _ same).bind ?_
  rintro _ s' _ t' ⟨-, (hm : ShareMoves i _ s' _ t')⟩
  refine (alike_modify ..).2 ⟨rfl, ?_⟩
  rw [hm.beside]

/-- The range-for, turn by turn. -/
theorem dispatches_alike (h : connections.Ready (pieces w turn batch) v) (only : ∀ r ∈ batch, r.inp.staysOn r.conn = true)
    (idle : v.activeChannels = []) :
    Alike (steps step (batch.map fun r => .dispatch r.inp)) { v with activeChannels := batch.map fun r => .conn r.conn }
      (steps turn batch) v fun _ s _ t => s = t := by
  induction batch generalizing v with
  | nil =>
    refine (alike_pure ..).2 ?_
    rw [List.map_nil, ← idle]
  | cons r batch ih =>
    have mem : (w.identity r.conn, r.turn) ∈ pieces w turn (r :: batch) := List.mem_cons_self
    have others : .conn r.conn ∉ batch.map fun q => ChannelPtr.conn q.conn := by
      intro hm
      obtain ⟨q, hq, he⟩ := List.mem_map.1 hm
      have apart := (List.pairwise_cons.1 h.apart).1 _ (List.mem_map_of_mem hq)
      exact Identity.Apart.conn apart (ChannelPtr.conn.inj he).symm
    have first := dispatch_alike r (i := w.identity r.conn) rfl (h.same _ mem) (only r List.mem_cons_self) others
    rw [List.map_cons, List.map_cons, steps, steps]
    refine (first.right h.ensures).bind ?_
    rintro _ s _ t ⟨⟨ht, rfl⟩, next⟩
    exact ih next (fun q hq => only q (List.mem_cons_of_mem _ hq)) (ht.trans idle)

theorem poll_ok {events : List (Fd × Mask)} {p : World} :
    poll events w = .ok () p ↔
      w.activeChannels = [] ∧ (events.map Prod.fst).Nodup ∧ events.all w.reports = true ∧ pollEvents events w = .ok () p := by
  unfold poll
  simp only [run_bind, run_get, run_ite, run_throw]
  split
  · rename_i hbad
    refine ⟨nofun, ?_⟩
    rintro ⟨hnil, hnodup, hreports, -⟩
    exact absurd hbad (by simp [hnil, hnodup, hreports])
  · rename_i hgood
    rw [not_or, not_or, not_not, not_not, not_not] at hgood
    exact ⟨fun he => ⟨hgood.1, hgood.2.1, hgood.2.2, he⟩, fun he => he.2.2.2⟩

/-- Distinct descriptors are of distinct connections. -/
theorem conns_distinct (fits : ∀ r ∈ batch, r.Fits w) (distinct : (batch.map Report.fd).Nodup) :
    (batch.map Report.conn).Nodup := by
  refine List.pairwise_map.2 ((List.pairwise_map.1 distinct).imp_of_mem fun {r q} hr hq hne he => hne ?_)
  obtain ⟨⟨o, hc, hfd⟩, -⟩ := fits r hr
  obtain ⟨⟨x, hd, hfd'⟩, -⟩ := fits q hq
  rw [he, hd] at hc
  rw [← hfd, ← hfd', Option.some.inj hc]

theorem Fits.there {r : Report} (h : r.Fits w) : (w.conns r.conn).isSome := by
  obtain ⟨⟨o, hc, -⟩, -⟩ := h
  exact Option.isSome_iff_exists.2 ⟨o, hc⟩

/-- An iteration starts between two others, and each descriptor is reported once. -/
theorem acts_polls {t : World} (h : steps step (acts batch) w = .ok () t) :
    w.activeChannels = [] ∧ (batch.map Report.fd).Nodup := by
  obtain ⟨p, hp, -⟩ := Shares.steps_cons_ok.1 h
  obtain ⟨idle, distinct, -⟩ := poll_ok.1 hp
  rw [List.map_map] at distinct
  exact ⟨idle, distinct⟩

section
variable (ho : Objects w) (fits : ∀ r ∈ batch, r.Fits w) (distinct : (batch.map Report.fd).Nodup)
include ho fits distinct

theorem enters_ready : connections.Ready (pieces w enter batch) w := by
  refine pieces_ready ho (fun r hr => (fits r hr).there) (conns_distinct fits distinct) (fun r _ => local_enter rfl) fun r hr => ?_
  obtain ⟨⟨o, hc, -⟩, -⟩ := fits r hr
  exact ho.sameShare hc

theorem turns_ready (hv : steps enter batch w = .ok () v) : connections.Ready (pieces w turn batch) v := by
  refine pieces_ready ho (fun r hr => (fits r hr).there) (conns_distinct fits distinct) (fun r hr => ?_) fun r hr => ?_
  · exact local_turn rfl (fits r hr).2.2
  · obtain ⟨⟨o, hc, -⟩, -⟩ := fits r hr
    rw [← steps_pieces w] at hv
    have apart := pieces_apart (f := enter) ho (fun q hq => (fits q hq).there) (fits r hr).there
    exact (enters_ready ho fits distinct).keeps hv apart (ho.sameShare hc)

/-- **An iteration** enters the connections and gives each its turn. -/
theorem acts_pieces {t : World} (idle : w.activeChannels = []) : steps step (acts batch) w = .ok () t ↔
    ∃ v, steps enter batch w = .ok () v ∧ steps turn batch v = .ok () t := by
  have registered : ∀ r ∈ batch, (w.conns r.conn).isSome ∧ (w.interest r.fd).map (·.ptr) = some (.conn r.conn) := by
    intro r hr
    obtain ⟨⟨o, hc, hfd⟩, hsome, -⟩ := fits r hr
    refine ⟨(fits r hr).there, ?_⟩
    have mirrors : w.interest o.channel.fd = _ := ho.mirrors r.conn o hc
    rw [hfd] at mirrors
    by_cases added : o.channel.status = .ADDED
    · simp [mirrors, added]
    · simp [mirrors, added] at hsome
  have reports : (batch.map fun r => (r.fd, r.mask)).all w.reports = true := by
    rw [List.all_map, List.all_eq_true]
    intro r hr
    obtain ⟨e, he, hptr⟩ := Option.map_eq_some_iff.1 (registered r hr).2
    simp [World.reports, he, hptr]
  have only : ∀ r ∈ batch, r.inp.staysOn r.conn = true := fun r hr => (fits r hr).2.2
  have fds : (batch.map fun r => (r.fd, r.mask)).map Prod.fst = batch.map Report.fd := List.map_map ..
  have polls := pollEvents_alike (v := w) [] registered
  have start : ({ w with activeChannels := [] } : World) = w := by rw [← idle]
  rw [start, List.nil_append] at polls
  have ranges : ∀ {v}, steps enter batch w = .ok () v → v.activeChannels = w.activeChannels →
      Alike (steps step (batch.map fun r => .dispatch r.inp)) { v with activeChannels := batch.map fun r => .conn r.conn }
        (steps turn batch) v fun _ s _ t => s = t := fun hv active =>
    dispatches_alike (turns_ready ho fits distinct hv) only (active.trans idle)
  rw [acts, Shares.steps_cons_ok]
  constructor
  · rintro ⟨p, hp, ht⟩
    obtain ⟨_, v, hv, active, rfl⟩ := polls.returns (poll_ok.1 hp).2.2.2
    obtain ⟨_, _, ht', rfl⟩ := (ranges hv active).returns ht
    exact ⟨v, hv, ht'⟩
  · rintro ⟨v, hv, ht⟩
    obtain ⟨_, _, hp, active, rfl⟩ := polls.returned hv
    obtain ⟨_, _, ht', rfl⟩ := (ranges hv active).returned ht
    exact ⟨_, poll_ok.2 ⟨idle, fds ▸ distinct, reports, hp⟩, ht'⟩

end

end Report

/-- **The order of a batch makes no difference**: in every state a run visits, let the kernel report connections that are
there, and let the callbacks of each call on that connection only, nor on the timers. If the iteration returns, it returns for
every order of the same reports, and leaves the same state: all connections, the map, the interest set, the descriptors, the
timers. Of each connection the same is recorded, in the same order. -/
theorem batch_order (ipPort : Name) (listenFd timerFd : Fd) (w t : World) (h : Visited ipPort listenFd timerFd w)
    (batch batch' : List Report) (fits : ∀ r ∈ batch, r.Fits w) (perm : batch.Perm batch')
    (ht : steps step (Report.acts batch) w = .ok () t) :
    ∃ t', steps step (Report.acts batch') w = .ok () t' ∧ t' = { t with trace := t'.trace } ∧ t.trace.Perm t'.trace ∧
      ∀ c, t'.trace.filter (Event.about c) = t.trace.filter (Event.about c) := by
  have ho := h.objects
  obtain ⟨idle, distinct⟩ := Report.acts_polls ht
  have fits' : ∀ r ∈ batch', r.Fits w := fun r hr => fits r (perm.mem_iff.2 hr)
  have distinct' : (batch'.map Report.fd).Nodup := (perm.map Report.fd).nodup_iff.1 distinct
  obtain ⟨v, hv, ht⟩ := (Report.acts_pieces ho fits distinct idle).1 ht
  have enters := Report.enters_ready ho fits distinct
  have turns := Report.turns_ready ho fits distinct hv
  rw [← Report.steps_pieces w] at hv ht
  -- the connections are entered in the other order, then have their turns in it, from either state
  have reorder : ∀ f, (Report.pieces w f batch).Perm (Report.pieces w f batch') := fun f => perm.map _
  obtain ⟨v', hv', hvv⟩ := Shares.perm (reorder Report.enter) enters hv
  obtain ⟨m, hm, htm⟩ := Shares.perm (reorder Report.turn) turns ht
  obtain ⟨t', ht', hmt⟩ := (turns.reorder (reorder Report.turn)).alike hvv hm
  have same : Reordered t t' := htm.trans hmt
  refine ⟨t', (Report.acts_pieces ho fits' distinct' idle).2 ⟨v', ?_, ?_⟩, same.state, same.perm, same.about⟩
  · rw [← Report.steps_pieces w]
    exact hv'
  · rw [← Report.steps_pieces w]
    exact ht'

/-- Connection 0 echoes, of which half goes out, and connection 1 hangs up. -/
theorem batch_order_two : ∃ (w t t' : World) (echo hup : Report), Run step (fun _ _ => True) (World.init [] 3 4) w ∧
    steps step (Report.acts [echo, hup]) w = .ok () t ∧
    steps step (Report.acts [hup, echo]) w = .ok () t' ∧ t'.conns = t.conns ∧ writtenBytes 0 t.trace = [1] ∧
    t.inMap 1 = false := by
  let echo : Report := ⟨0, 5, EPOLLIN, { readv := some [1, 2], message := .echo 0 (some 1) .done }⟩
  let hup : Report := ⟨1, 7, EPOLLHUP, {}⟩
  obtain ⟨w, run, fits, hbatch⟩ := Run.reaches step (fun _ _ => True) (World.init [] 3 4)
    [.newConnection 5 (some 6) .done, .newConnection 7 (some 8) (.keep 1 .done)]
    (fun w => (∀ r ∈ [echo, hup], r.Fits w) ∧ Ensures (steps step (Report.acts [echo, hup])) w
      (fun _ t => writtenBytes 0 t.trace = [1] ∧ t.inMap 1 = false) fun _ _ => False)
    (by decide +kernel) (by decide +kernel)
  obtain ⟨_, t, ht, hwritten, hmap⟩ := hbatch.returns
  obtain ⟨t', ht', state, -, -⟩ := batch_order [] 3 4 w t (.inl run) [echo, hup] [hup, echo] fits (.swap ..) ht
  refine ⟨w, t, t', echo, hup, run, ht, ht', ?_, hwritten, hmap⟩
  rw [state]

end NetServer
