import NetServer.Tcp.Effects
/-!
# Channels removed while they wait in a batch

`activeChannels_` is a list of raw pointers with the masks of one `epoll_wait`, and `Epoller::removeChannel` does not
look at it: a channel that the handler of another one removes is dispatched all the same. Where no channel is removed
while it waits to call back, a channel that was removed since it was reported calls nothing back
(`removed_not_dispatched`).
-/

namespace NetServer
open Exec

/-- The channel of `c` was removed after the last poll that reported it. -/
def removedSince (c : ConnId) (trace : List Event) : Bool :=
  trace.foldl (fun removed ev => match ev with
    | .reported p => removed && p != .conn c
    | .remove d _ _ => removed || d == c
    | _ => removed) false

theorem removedSince_append (c : ConnId) (l : List Event) (ev : Event) :
    removedSince c (l ++ [ev]) = match ev with
      | .reported p => removedSince c l && p != .conn c
      | .remove d _ _ => removedSince c l || d == c
      | _ => removedSince c l := by
  rw [removedSince, List.foldl_append]
  rfl

/-- Nothing that does not touch the connection removes it. -/
theorem removedSince_aside {c : ConnId} {l evs : List Event} (h : ∀ ev ∈ evs, ev.touches c = false)
    (hrem : removedSince c (l ++ evs) = true) : removedSince c l = true ∧ .reported (.conn c) ∉ evs := by
  induction evs using List.reverseRecOn with
  | nil => exact ⟨by simpa using hrem, List.not_mem_nil⟩
  | append_singleton evs ev ih =>
    rw [← List.append_assoc, removedSince_append] at hrem
    have quiet := h ev (by simp)
    have before := ih fun ev hev => h ev (List.mem_append_left _ hev)
    cases ev with
    | reported p =>
      obtain ⟨hrem, hp⟩ := Bool.and_eq_true_iff.1 hrem
      refine ⟨(before hrem).1, fun hm => ?_⟩
      obtain hm | hm := List.mem_append.1 hm
      · exact (before hrem).2 hm
      · simp [Event.reported.inj (List.mem_singleton.1 hm)] at hp
    | remove d idle waiting =>
      have hd : (d == c) = false := by simpa [Event.touches] using quiet
      simp only [hd, Bool.or_false] at hrem
      exact ⟨(before hrem).1, by simpa using (before hrem).2⟩
    | _ => exact ⟨(before hrem).1, by simpa using (before hrem).2⟩

/-- No channel that has been removed since it was reported calls back out of this part of the batch. -/
def Spared (l : List ChannelPtr) (w : World) : Prop :=
  ∀ c o, removedSince c w.trace = true → .conn c ∈ l → w.conns c = some o → o.channel.callsBack = false

/-- A channel was removed while it waited to call back. -/
def Event.hurried : Event → Bool
  | .remove _ _ waiting => waiting
  | _ => false

/-- No channel is removed while it waits to call back. -/
abbrev Unhurried (trace : List Event) : Prop := ∀ ev ∈ trace, ev.hurried = false

theorem Unhurried.of_prefix {l l' : List Event} (h : Unhurried l') (hp : l <+: l') : Unhurried l := fun ev hev =>
  h ev (hp.subset hev)

/-! ## Every effect -/

theorem Own.revents {c : ConnId} {waiting : Bool} {o o' : TcpConnection} {evs : List Event} (h : Own c waiting o o' evs) :
    o'.channel.revents = o.channel.revents := by
  cases h with
  | queued => dsimp only; split <;> rfl
  | _ => rfl

theorem TcpConnection.parted_revents (o : TcpConnection) : o.parted.channel.revents = o.channel.revents := by
  unfold TcpConnection.parted
  split <;> rfl

theorem callsBack_congr {ch ch' : Channel} (h : ch'.revents = ch.revents) : ch'.callsBack = ch.callsBack := by
  simp [Channel.callsBack, h]

/-- A channel that waits after the effect and was removed since its report waited before it. -/
theorem Effect.waited {loop : Bool} {s t : World} (e : Effect loop s t) {c : ConnId} (hrem : removedSince c t.trace = true)
    (hm : .conn c ∈ t.activeChannels.tail) : .conn c ∈ s.activeChannels.tail := by
  obtain heq | ⟨p, heq, htr⟩ | ⟨p, heq⟩ := e.active
  · exact heq ▸ hm
  · rw [htr, removedSince_append] at hrem
    have hp := (Bool.and_eq_true_iff.1 hrem).2
    rw [heq] at hm
    cases hs : s.activeChannels with
    | nil => simp [hs] at hm
    | cons q l =>
      rw [hs, List.cons_append, List.tail_cons] at hm
      refine (List.mem_append.1 hm).resolve_right fun he => ?_
      simp [List.mem_singleton.1 he] at hp
  · rw [heq]
    exact List.mem_of_mem_tail hm

/-- **Every effect** spares the channels behind the one being handled, where none of them is removed. -/
theorem Effect.spared {loop : Bool} {s t : World} (e : Effect loop s t) (hs : WellFormed s)
    (h : Spared s.activeChannels.tail s) (ht : Unhurried t.trace) : Spared t.activeChannels.tail t := by
  intro c o' hrem hm hc'
  have hm := e.waited hrem hm
  -- what is left to show is about the connection's own change
  have kept : ∀ {o : TcpConnection}, s.conns c = some o → o'.channel.revents = o.channel.revents →
      removedSince c s.trace = true → o'.channel.callsBack = false := fun hc hre hrem =>
    (callsBack_congr hre).trans (h c _ hrem hm hc)
  cases e.view hs c with
  | aside evs hn hobj htr hev hmap =>
    obtain ⟨hrem, hquiet⟩ := removedSince_aside hev (htr ▸ hrem)
    obtain ⟨x, mask, hx, rfl, hmask⟩ := hobj o' hc'
    exact kept hx (hmask.resolve_right hquiet) hrem
  | @own o _ evs hc hown hn hto htr hmap =>
    obtain rfl := Option.some.inj (hto.symm.trans hc')
    have hre := hown.revents
    cases hown with
    | removed hidle =>
      have idle : s.waiting c = false := by
        cases hwait : s.waiting c with
        | false => rfl
        | true =>
          have := ht (.remove c true true) (by simp [htr, hwait])
          cases this
      rw [World.waiting, hc, Option.any_some, Bool.and_eq_false_iff] at idle
      exact (callsBack_congr hre).trans (idle.resolve_left (by simpa using hm))
    | down =>
      rw [htr, List.append_cons, removedSince_append, removedSince_append] at hrem
      exact kept hc hre hrem
    | queued =>
      rw [htr, removedSince_append] at hrem
      exact kept hc hre hrem
    | _ => exact kept hc hre (by rwa [htr, List.append_nil] at hrem)
  | shut hc hst hw hn hto htr hmap =>
    obtain rfl := Option.some.inj (hto.symm.trans hc')
    rw [htr, List.append_cons, removedSince_append, removedSince_append] at hrem
    exact kept hc rfl hrem
  | @removal o ev hc hev hn hto htr hmap =>
    obtain rfl := Option.some.inj (hto.symm.trans hc')
    refine kept hc o.parted_revents ?_
    have quiet : removedSince c (s.trace ++ [ev]) = removedSince c s.trace := by
      obtain rfl | rfl := hev <;> exact removedSince_append ..
    rw [htr, List.append_cons, TcpConnection.parting] at hrem
    split at hrem
    · rw [List.append_cons, removedSince_append, removedSince_append] at hrem
      exact quiet ▸ hrem
    · rw [List.append_nil] at hrem
      exact quiet ▸ hrem
  | @made clientfd sock hn hnn hto htr hmap =>
    obtain rfl := Option.some.inj (hto.symm.trans hc')
    simp [Channel.callsBack, Mask.has, World.madeConn, Channel.new, Channel.set]
  | entered hnew hn hto htr hmap =>
    rw [htr, removedSince_append] at hrem
    exact kept (hto ▸ hc') rfl hrem

/-! ## The loop -/

/-- The loop makes the step; user code that no handler called runs between two batches. -/
def Act.inLoop (w : World) : Act → Bool
  | .poll _ | .dispatch _ => true
  | .user _ => w.activeChannels.isEmpty
  | _ => false

theorem Act.ofLoop_of_inLoop {w : World} {a : Act} (ha : a.inLoop w = true) : a.ofLoop = true := by
  cases a with
  | poll => rfl
  | dispatch => rfl
  | user => rfl
  | _ => cases ha

/-- At the end of a turn of the loop. -/
structure BatchOk (w : World) : Prop where
  wellFormed : WellFormed w
  spared : Unhurried w.trace → Spared w.activeChannels w

/-- Code of a handler, or of user code, spares the channels behind the one being handled. -/
theorem handled_spares {s t : World} (hs : BatchOk s) (hin : Within s t) (hc : Chain true s t) :
    WellFormed t ∧ (Unhurried t.trace → Spared s.activeChannels.tail t) := by
  have tail : Unhurried s.trace → Spared s.activeChannels.tail s := fun hu c o hrem hm =>
    hs.spared hu c o hrem (List.mem_of_mem_tail hm)
  have run := effects_invariant (I := fun w => Unhurried w.trace → Spared w.activeChannels.tail w)
    (fun _ _ hs e hI ht => e.spared hs (hI (ht.of_prefix e.trace)) ht) (hc hs.wellFormed)
    hs.wellFormed tail
  exact ⟨run.1, hin.active ▸ run.2⟩

/-- A report: the channel has been reported after it was removed. -/
theorem report_spares (p : ChannelPtr) (mask : Mask) : Keeps BatchOk (fun _ => False) (do
    setReturnEvents p mask
    emit (.reported p)
    modify fun w => { w with activeChannels := w.activeChannels ++ [p] }) := by
  refine .intro fun s hs => (report_spec p mask s).mono ?_ fun _ _ _ he => he.elim
  rintro _ t ⟨hlive, rfl⟩
  have reported : Effect true s { s.withReturnEvents p mask with
    trace := s.trace ++ [.reported p], activeChannels := s.activeChannels ++ [p] } := .reported rfl hlive
  refine ⟨reported.wellFormed hs.wellFormed, fun hu c o hrem hm hc => ?_⟩
  rw [removedSince_append] at hrem
  obtain ⟨hrem, hp⟩ := Bool.and_eq_true_iff.1 hrem
  have hp : p ≠ .conn c := bne_iff_ne.1 hp
  refine hs.spared (hu.of_prefix (List.prefix_append ..)) c o hrem ?_ ?_
  · exact (List.mem_append.1 hm).resolve_right fun he => hp (List.mem_singleton.1 he).symm
  · cases p with
    | acceptor => exact hc
    | timer => exact hc
    | conn d =>
      have hcd : c ≠ d := fun he => hp (he ▸ rfl)
      simpa [World.withReturnEvents, hcd] using hc

/-- **Every step of the loop.** -/
theorem step_spares {s : World} (hs : BatchOk s) (a : Act) (ha : a.inLoop s = true) :
    Ensures (step a) s (fun _ t => BatchOk t) fun _ _ => True := by
  cases a with
  | poll events =>
    have polls : Keeps BatchOk (fun _ => False) (pollEvents events) :=
      pollEvents_moves (composes_invariant _ _) (fun _ he => he.elim) report_spares events
    simp only [step, poll, ensures_bind, ensures_get, ensures_ite, ensures_throw]
    exact ⟨fun _ => trivial, fun _ => (polls.from hs).mono (fun _ _ h => h) fun _ _ _ => trivial⟩
  | dispatch inp =>
    simp only [step, dispatch, ensures_bind, ensures_get]
    split
    · trivial
    · rename_i p rest hactive
      have handled := (withinParts.and chainParts).handleEvents p inp fun _ => (timingRead_within inp).and (timingRead_chained inp)
      rw [ensures_bind]
      refine (handled s trivial).mono ?_ fun _ _ _ => trivial
      rintro _ t ⟨hin, hc⟩
      obtain ⟨wf, spared⟩ := handled_spares hs hin hc
      have handled : Effect true t _ := .handled rfl (hin.active.trans hactive)
      rw [hactive] at spared
      exact ⟨handled.wellFormed wf, spared⟩
  | user script =>
    have hempty : s.activeChannels = [] := by simpa [Act.inLoop] using ha
    refine ((withinParts.and chainParts).script script s trivial).mono ?_ fun _ _ _ => trivial
    rintro _ t ⟨hin, hc⟩
    obtain ⟨wf, _⟩ := handled_spares hs hin hc
    refine ⟨wf, fun _ c o _ hm => ?_⟩
    rw [hin.active, hempty] at hm
    cases hm
  | _ => cases ha

/-- A channel whose mask asks for no callback. -/
theorem handleEvents_silent {w : World} {c : ConnId} {o : TcpConnection} (hc : w.conns c = some o)
    (hs : o.channel.callsBack = false) (inp : EventInput) : handleEvents (.conn c) inp w = .ok () w := by
  simp only [Channel.callsBack, Bool.or_eq_false_iff] at hs
  simp [handleEvents, channelOf, deref, hc, hs]

/-- **A removed channel is not dispatched later in the batch**, in every run of the loop in which no channel is removed
while it waits to call back: when the turn of a channel comes that was removed since it was reported, `handleEvents`
does nothing. -/
theorem removed_not_dispatched (ipPort : Name) (listenFd timerFd : Fd) (w : World)
    (h : Run step (fun s a => a.inLoop s = true) (World.init ipPort listenFd timerFd) w)
    (hok : Unhurried w.trace) (c : ConnId) (o : TcpConnection) (rest : List ChannelPtr)
    (hturn : w.activeChannels = .conn c :: rest) (hc : w.conns c = some o) (hrem : removedSince c w.trace = true)
    (inp : EventInput) : handleEvents (.conn c) inp w = .ok () w := by
  have batch : BatchOk w := h.invariant ⟨wellFormed_init .., fun _ c o hrem => by cases hrem⟩ fun s a hs ha => step_spares hs a ha
  exact handleEvents_silent hc (batch.spared hok c o hrem (hturn ▸ List.mem_cons_self ..) hc) inp

/-- Two channels are reported, one of them with `EPOLLERR`, which is 8, alone; the handler of the other one removes it. -/
theorem removed_not_dispatched_idle :
    ∃ w : World, Run step (fun s a => a.inLoop s = true) (World.init [] 3 4) w ∧ w.activeChannels = [.conn 1] ∧
      removedSince 1 w.trace = true ∧ handleEvents (.conn 1) { readv := some [9] } w = .ok () w := by
  obtain ⟨w, run, hw⟩ := Run.reaches step (fun s a => a.inLoop s = true) (World.init [] 3 4)
    [.poll [(3, EPOLLIN)], .dispatch { clientfd := some 5, sock := some 6 },
      .poll [(3, EPOLLIN)], .dispatch { clientfd := some 7, sock := some 8, up := .keep 1 .done },
      .poll [(5, EPOLLIN), (7, 8)], .dispatch { readv := some [1], message := .removeConnection 1 .done .done }]
    (fun w => w.activeChannels = [.conn 1] ∧ removedSince 1 w.trace = true ∧ (w.conns 1).isSome ∧
      Unhurried w.trace)
    (by decide +kernel) (by decide +kernel)
  obtain ⟨hturn, hrem, hlive, hok⟩ := hw
  obtain ⟨o, hc⟩ := Option.isSome_iff_exists.1 hlive
  exact ⟨w, run, hturn, hrem, removed_not_dispatched [] 3 4 w run hok 1 o [] hturn hc hrem _⟩

/-- Two clients send at once, and the message callback of the first connection removes the second one, which its user
keeps: the second one's message callback runs all the same. -/
theorem not_removed_not_dispatched :
    ¬ ∀ (ipPort : Name) (listenFd timerFd : Fd) (w : World),
      Run step (fun s a => a.inLoop s = true) (World.init ipPort listenFd timerFd) w → ∀ c o rest,
        w.activeChannels = .conn c :: rest → w.conns c = some o → removedSince c w.trace = true →
          ∀ inp, handleEvents (.conn c) inp w = .ok () w := by
  intro spared
  obtain ⟨w, run, hw⟩ := Run.reaches step (fun s a => a.inLoop s = true) (World.init [] 3 4)
    [.poll [(3, EPOLLIN)], .dispatch { clientfd := some 5, sock := some 6 },
      .poll [(3, EPOLLIN)], .dispatch { clientfd := some 7, sock := some 8, up := .keep 1 .done },
      .poll [(5, EPOLLIN), (7, EPOLLIN)], .dispatch { readv := some [1], message := .removeConnection 1 .done .done }]
    (fun w => w.activeChannels = [.conn 1] ∧ (w.conns 1).isSome ∧ removedSince 1 w.trace = true ∧
      Ensures (handleEvents (.conn 1) { readv := some [9] }) w
        (fun _ t => w.trace.count (.messageCallback 1) < t.trace.count (.messageCallback 1)) fun _ _ => False)
    (by decide +kernel) (by decide +kernel)
  obtain ⟨hturn, hlive, hrem, hcalls⟩ := hw
  obtain ⟨o, hc⟩ := Option.isSome_iff_exists.1 hlive
  have same := (ensures_ok (spared [] 3 4 w run 1 o [] hturn hc hrem { readv := some [9] })).1 hcalls
  exact absurd same (Nat.lt_irrefl _)

end NetServer
