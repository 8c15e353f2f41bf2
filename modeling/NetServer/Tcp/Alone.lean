import NetServer.Tcp.BatchOrder
/-!
# A connection cannot tell what the others do

Let the loop handle connections, batch after batch, with callbacks that each call on their own connection only. Then the
reports of one connection alone, with what its system calls returned, decide what becomes of it: without the reports of all
the others its object, its registration and all that is recorded of it come out the same (`connection_alone`).
-/

namespace NetServer
open Exec

/-- One iteration of the loop. -/
def iterate (batch : List Report) : M Unit := steps step (Report.acts batch)

/-- The reports of one connection. -/
def Report.onlyOf (c : ConnId) (batch : List Report) : List Report := batch.filter fun r => r.conn = c

section
variable {w s s' t v v' : World} {batch : List Report} {f : Report → M Unit} {c : ConnId}

/-- Between two iterations, `w` having been the state when the last connection came. -/
structure Quiet (w s : World) : Prop where
  objects : Objects s
  idle : s.activeChannels = []
  same : ∀ d, (w.conns d).isSome → SameShare (w.identity d) s s
  old : ∀ d, (s.conns d).isSome → (w.conns d).isSome

theorem Quiet.start (ho : Objects w) (idle : w.activeChannels = []) : Quiet w w where
  objects := ho
  idle := idle
  same d hd := by
    obtain ⟨o, hd⟩ := Option.isSome_iff_exists.1 hd
    exact ho.sameShare hd
  old _ hd := hd

/-- The pieces leave `activeChannels_` and all other connections. -/
theorem pieces_leave (h : connections.Ready (Report.pieces w f batch) v) (hr : steps f batch v = .ok () v') :
    v'.activeChannels = v.activeChannels ∧ ∀ d, (∀ r ∈ batch, r.conn ≠ d) → v'.conns d = v.conns d := by
  induction batch generalizing v with
  | nil =>
    cases hr
    exact ⟨rfl, fun _ _ => rfl⟩
  | cons r batch ih =>
    obtain ⟨m, hs, hr⟩ := Shares.steps_cons_ok.1 hr
    have mem : (w.identity r.conn, f r) ∈ Report.pieces w f (r :: batch) := List.mem_cons_self
    have moves : ShareMoves (w.identity r.conn) v m v m := (h.code _ mem).next (h.same _ mem) hs
    obtain ⟨active, others⟩ := ih (h.next hs) hr
    refine ⟨active.trans moves.only.1.activeChannels, fun d hd => ?_⟩
    rw [others d fun q hq => hd q (List.mem_cons_of_mem _ hq)]
    exact congrArg Prod.fst (moves.only.1.cell d (hd r List.mem_cons_self).symm)

theorem own_pieces (w : World) (f : Report → M Unit) (batch : List Report) (c : ConnId) :
    Shares.own (w.identity c) (Report.pieces w f batch) = Report.pieces w f (Report.onlyOf c batch) := by
  unfold Shares.own Report.pieces Report.onlyOf
  rw [List.filter_map]
  congr 1
  refine List.filter_congr fun r _ => ?_
  have same : w.identity r.conn = w.identity c ↔ r.conn = c :=
    ⟨fun h => congrArg Identity.conn h, fun h => congrArg w.identity h⟩
  simp [same]

theorem steps_objects {as : List Act} (h : Objects s) (hr : steps step as s = .ok () s') : Objects s' := by
  induction as generalizing s with
  | nil =>
    cases hr
    exact h
  | cons a as ih =>
    obtain ⟨m, hs, hr⟩ := Shares.steps_cons_ok.1 hr
    exact ih ((ensures_ok hs).1 (step_objects a s trivial) h) hr

/-- **One iteration**, with the others and without them. -/
theorem iterate_alone (ho : Objects w) (hs : Quiet w s) (ht : Objects t) (idle : t.activeChannels = [])
    (hc : (w.conns c).isSome) (hst : SameShare (w.identity c) s t) (fits : ∀ r ∈ batch, r.Fits s)
    (hr : iterate batch s = .ok () s') :
    Quiet w s' ∧ ∃ t', iterate (Report.onlyOf c batch) t = .ok () t' ∧ SameShare (w.identity c) s' t' ∧ Objects t' ∧
      t'.activeChannels = [] := by
  have distinct := (Report.acts_polls hr).2
  have conns := Report.conns_distinct fits distinct
  have there : ∀ r ∈ batch, (w.conns r.conn).isSome := fun r hr => hs.old _ (fits r hr).there
  obtain ⟨v, hv, hturns⟩ := (Report.acts_pieces hs.objects fits distinct hs.idle).1 hr
  have enters : connections.Ready (Report.pieces w Report.enter batch) s :=
    Report.pieces_ready ho there conns (fun r _ => local_enter rfl) fun r hr => hs.same _ (there r hr)
  rw [← Report.steps_pieces w] at hv hturns
  have entered : ∀ d, (w.conns d).isSome → SameShare (w.identity d) v v := fun d hd =>
    enters.keeps hv (Report.pieces_apart ho there hd) (hs.same d hd)
  have turns : connections.Ready (Report.pieces w Report.turn batch) v :=
    Report.pieces_ready ho there conns (fun r hr => local_turn rfl (fits r hr).2.2) fun r hr => entered _ (there r hr)
  have before := pieces_leave enters (Report.steps_pieces w .. ▸ hv)
  have after := pieces_leave turns (Report.steps_pieces w .. ▸ hturns)
  refine ⟨⟨steps_objects hs.objects hr, after.1.trans (before.1.trans hs.idle), fun d hd => ?_, fun d hd => ?_⟩, ?_⟩
  · exact turns.keeps hturns (Report.pieces_apart ho there hd) (entered d hd)
  · by_cases hd' : ∀ r ∈ batch, r.conn ≠ d
    · rw [after.2 d hd', before.2 d hd'] at hd
      exact hs.old d hd
    · push Not at hd'
      obtain ⟨r, hr, rfl⟩ := hd'
      exact there r hr
  · -- the pieces of the connection, from `t`
    obtain ⟨u, hu, huv⟩ := enters.alone hv (Report.pieces_apart ho there hc) hst
    obtain ⟨t', ht', same⟩ := turns.alone hturns (Report.pieces_apart ho there hc) huv
    have enters' := enters.own hst
    have turns' := turns.own huv
    rw [own_pieces] at hu ht' enters' turns'
    rw [Report.steps_pieces] at hu ht'
    have active := (pieces_leave turns' ht').1.trans (pieces_leave enters' hu).1
    have own : ∀ r ∈ Report.onlyOf c batch, r.Fits t := by
      intro r hown
      obtain ⟨hmem, hrc⟩ := List.mem_filter.1 hown
      obtain rfl := of_decide_eq_true hrc
      obtain ⟨⟨o, hconn, hfd⟩, hreg, only⟩ := fits r hmem
      have fd : r.fd = (w.identity r.conn).fd := by rw [← hfd, (hst.names o hconn).fd]
      refine ⟨⟨o, hst.conn.trans hconn, hfd⟩, ?_, only⟩
      rw [fd] at hreg ⊢
      rw [hst.interest]
      exact hreg
    have run : iterate (Report.onlyOf c batch) t = .ok () t' :=
      (Report.acts_pieces ht own (distinct.sublist (List.filter_sublist.map _)) idle).2 ⟨u, hu, ht'⟩
    exact ⟨t', run, same, steps_objects ht run, active.trans idle⟩

/-- Batch after batch, by induction from the first one. -/
theorem batches_alone {batches : List (List Report)} (ho : Objects w) (hs : Quiet w s) (ht : Objects t)
    (idle : t.activeChannels = []) (hc : (w.conns c).isSome) (hst : SameShare (w.identity c) s t)
    (fits : Meets iterate (fun s batch => ∀ r ∈ batch, r.Fits s) batches s) (hr : steps iterate batches s = .ok () s') :
    ∃ t', steps iterate (batches.map (Report.onlyOf c)) t = .ok () t' ∧ SameShare (w.identity c) s' t' := by
  induction batches generalizing s t with
  | nil =>
    cases hr
    exact ⟨t, rfl, hst⟩
  | cons batch batches ih =>
    obtain ⟨m, hm, hr⟩ := Shares.steps_cons_ok.1 hr
    obtain ⟨first, rest⟩ := fits
    obtain ⟨quiet, n, hn, same, hobjects, hidle⟩ := iterate_alone ho hs ht idle hc hst first hm
    obtain ⟨t', ht', same'⟩ := ih quiet hobjects hidle same ((ensures_ok hm).1 rest) hr
    exact ⟨t', Shares.steps_cons_ok.2 ⟨n, hn, ht'⟩, same'⟩

end

/-- **A connection cannot tell what the others do**: from a state between two iterations that a run visits, let the loop
make any number of iterations in which the kernel reports connections that are there, and the callbacks of each call on that
connection only, nor on the timers. Without the reports of all connections but one the same iterations return too, and of that
one everything is the same: the object or that it is destroyed, its entry, its registration, and all that is recorded of it, in
order. -/
theorem connection_alone (ipPort : Name) (listenFd timerFd : Fd) (w t : World) (h : Visited ipPort listenFd timerFd w)
    (idle : w.activeChannels = []) (batches : List (List Report))
    (fits : Meets iterate (fun s batch => ∀ r ∈ batch, r.Fits s) batches w) (ht : steps iterate batches w = .ok () t)
    (c : ConnId) (o : TcpConnection) (hc : w.conns c = some o) :
    ∃ u, steps iterate (batches.map (Report.onlyOf c)) w = .ok () u ∧ u.conns c = t.conns c ∧ u.inMap c = t.inMap c ∧
      u.interest o.channel.fd = t.interest o.channel.fd ∧
      u.trace.filter (Event.about c) = t.trace.filter (Event.about c) := by
  have there : (w.conns c).isSome := Option.isSome_iff_exists.2 ⟨o, hc⟩
  have quiet := Quiet.start h.objects idle
  obtain ⟨u, hu, same⟩ := batches_alone h.objects quiet h.objects idle there (quiet.same c there) fits ht
  have fd : o.channel.fd = (w.identity c).fd := (World.identity_names hc).fd
  refine ⟨u, hu, same.conn, same.inMap, ?_, same.record⟩
  rw [fd]
  exact same.interest

/-- Connection 0 echoes in two portions while connection 1 hangs up. -/
theorem connection_alone_echo : ∃ (w t u : World) (echo hup rest : Report), Run step (fun _ _ => True) (World.init [] 3 4) w ∧
    steps iterate [[hup, echo], [rest]] w = .ok () t ∧ steps iterate [[echo], [rest]] w = .ok () u ∧
    u.conns 0 = t.conns 0 ∧ writtenBytes 0 t.trace = [1, 2] ∧ t.inMap 1 = false ∧ u.inMap 0 = t.inMap 0 := by
  let echo : Report := ⟨0, 5, EPOLLIN, { readv := some [1, 2], message := .echo 0 (some 1) .done }⟩
  let hup : Report := ⟨1, 7, EPOLLHUP, {}⟩
  let rest : Report := ⟨0, 5, EPOLLOUT, { write := some 1 }⟩
  obtain ⟨w, run, ⟨hlive, idle⟩, fits, hbatches⟩ := Run.reaches step (fun _ _ => True) (World.init [] 3 4)
    [.newConnection 5 (some 6) .done, .newConnection 7 (some 8) (.keep 1 .done)]
    (fun w => ((w.conns 0).isSome = true ∧ w.activeChannels = []) ∧
      Meets iterate (fun s batch => ∀ r ∈ batch, r.Fits s) [[hup, echo], [rest]] w ∧
      Ensures (steps iterate [[hup, echo], [rest]]) w
        (fun _ t => writtenBytes 0 t.trace = [1, 2] ∧ t.inMap 1 = false) fun _ _ => False)
    (by decide +kernel) (by decide +kernel)
  obtain ⟨o, hc⟩ := Option.isSome_iff_exists.1 hlive
  obtain ⟨_, t, ht, hwritten, hmap⟩ := hbatches.returns
  obtain ⟨u, hu, hconn, hin, -, -⟩ := connection_alone [] 3 4 w t (.inl run) idle _ fits ht 0 o hc
  exact ⟨w, t, u, echo, hup, rest, run, ht, hu, hconn, hwritten, hmap, hin⟩

end NetServer
