import NetServer.Lib.Shares
import NetServer.Tcp.Objects
/-!
# The share of a connection

What code of one connection may look at and change: the object and the pointers to it, what the kernel has on its two
descriptors, and its entry in `tcpConnections_`. The shares of two connections have nothing in common, and changes of the two
commute but for the order in which they are recorded (`Reordered.diamond`), so that connections are shares in the sense of
`Shares` (`connections`).

| here | there |
| --- | --- |
| `Identity`   | what stays the same from the constructor of a `TcpConnection` on |
| `SameShare`  | the connection is the same in both states, and its channel is in `activeChannels_` in both, or in neither |
| `ShareMoves` | only this connection has changed, alike in two runs, and what was recorded names no other one |
| `Reordered`  | the states differ in the order in which things of different connections were recorded |
-/

namespace NetServer
open Exec

structure Identity where
  conn : ConnId
  name : Name
  socket : Fd
  fd : Fd
deriving DecidableEq, Repr

namespace Identity

/-- The descriptors of the connection. -/
def Has (i : Identity) (f : Fd) : Prop := f = i.fd ∨ f = i.socket

structure Names (i : Identity) (o : TcpConnection) : Prop where
  name : o.name = i.name
  socket : o.socket = i.socket
  fd : o.channel.fd = i.fd

structure Apart (i j : Identity) : Prop where
  conn : i.conn ≠ j.conn
  name : i.name ≠ j.name
  descriptors : ∀ f, i.Has f → ¬ j.Has f

end Identity

/-- The event names the connection. -/
def Event.about (c : ConnId) : Event → Bool
  | .send d _ | .written d _ | .read d _ | .taken d _ | .connectionCallback d _ | .messageCallback d | .closeCallback d
  | .shutdown d _ _ | .destroyed d _ _ _ | .setConnectState d _ _ | .shutWr d _ _ | .queued d _ | .handleWrite d _
  | .remove d _ _ | .removeConnection d | .constructed d _ _ | .established d | .reported (.conn d) => d == c
  | .accept4 _ | .socketFailed | .closed _ | .reported _ | .timingRead .. => false

/-- What the kernel has on a descriptor. -/
def World.kernel (w : World) (f : Fd) : Option (EpollEvent ChannelPtr) × Bool × Nat := (w.interest f, w.openFds f, w.shutWr f)

/-- The object of a connection, and the pointers to it that user code keeps. -/
def World.cell (w : World) (c : ConnId) : Option TcpConnection × Nat := (w.conns c, w.userRefs c)

/-- All that the shares are made of. -/
def World.cells (w : World) :
    (ConnId → Option TcpConnection × Nat) × (Fd → Option (EpollEvent ChannelPtr) × Bool × Nat) × List (Name × ConnId) :=
  (w.cell, w.kernel, w.tcpConnections)

/-- The connections and the kernel from `v`, the rest from `w`. -/
def World.taking (w v : World) : World :=
  { w with
    conns := v.conns
    userRefs := v.userRefs
    tcpConnections := v.tcpConnections
    interest := v.interest
    openFds := v.openFds
    shutWr := v.shutWr
    trace := v.trace }

/-- The entries under the connection's name are its own. -/
def EntriesOf (i : Identity) (w : World) : Prop := ∀ n e, (n, e) ∈ w.tcpConnections → (n = i.name ↔ e = i.conn)

structure SameShare (i : Identity) (s t : World) : Prop where
  cell : t.cell i.conn = s.cell i.conn
  names : ∀ o, s.conns i.conn = some o → i.Names o
  kernel : ∀ f, i.Has f → t.kernel f = s.kernel f
  inMap : t.inMap i.conn = s.inMap i.conn
  entries : EntriesOf i s ∧ EntriesOf i t
  frames : t.frames = s.frames
  borrowed : t.borrowed = s.borrowed
  inBatch : t.inBatch i.conn = s.inBatch i.conn
  behind : t.activeChannels.tail.contains (.conn i.conn) = s.activeChannels.tail.contains (.conn i.conn)
  /-- The same has been recorded of it. -/
  record : t.trace.filter (Event.about i.conn) = s.trace.filter (Event.about i.conn)

/-- Only the share has changed. -/
structure OnlyShare (i : Identity) (s s' : World) : Prop where
  cell : ∀ d, d ≠ i.conn → s'.cell d = s.cell d
  kernel : ∀ f, ¬ i.Has f → s'.kernel f = s.kernel f
  rest : s' = s.taking s'

/-- The share has changed from `s` to `s'` as from `t` to `t'`. -/
structure ShareMoves (i : Identity) (s s' t t' : World) : Prop where
  same : SameShare i s' t'
  only : OnlyShare i s s' ∧ OnlyShare i t t'
  told : ∃ evs : List Event, s'.trace = s.trace ++ evs ∧ t'.trace = t.trace ++ evs ∧
    ∀ ev ∈ evs, ∀ d, d ≠ i.conn → ev.about d = false
  erased : ∃ gone : Bool, s'.tcpConnections = (if gone then s.tcpConnections.filter (·.1 != i.name) else s.tcpConnections) ∧
    t'.tcpConnections = if gone then t.tcpConnections.filter (·.1 != i.name) else t.tcpConnections

/-- Of each connection the same was recorded, in the same order. -/
structure Reordered (s t : World) : Prop where
  state : t = { s with trace := t.trace }
  about : ∀ c, t.trace.filter (Event.about c) = s.trace.filter (Event.about c)
  perm : s.trace.Perm t.trace

/-! ## The laws -/

section
variable {i j : Identity} {s s' s'' s₁ s₂ t t' t'' t₁ t₂ u : World}

theorem World.taking_trans (h : s' = s.taking s') (h' : s'' = s'.taking s'') : s'' = s.taking s'' := by
  have first : s'.taking s'' = s.taking s'' := by
    rw [h]
    rfl
  rw [← first]
  exact h'

theorem Identity.Apart.symm (h : i.Apart j) : j.Apart i := ⟨h.conn.symm, h.name.symm, fun f hj hi => h.descriptors f hi hj⟩

namespace SameShare

theorem conn (h : SameShare i s t) : t.conns i.conn = s.conns i.conn := congrArg Prod.fst h.cell

theorem userRefs (h : SameShare i s t) : t.userRefs i.conn = s.userRefs i.conn := congrArg Prod.snd h.cell

theorem interest (h : SameShare i s t) : t.interest i.fd = s.interest i.fd := congrArg Prod.fst (h.kernel i.fd (.inl rfl))

theorem symm (h : SameShare i s t) : SameShare i t s where
  cell := h.cell.symm
  names o ho := h.names o (h.conn ▸ ho)
  kernel f hf := (h.kernel f hf).symm
  inMap := h.inMap.symm
  entries := h.entries.symm
  frames := h.frames.symm
  borrowed := h.borrowed.symm
  inBatch := h.inBatch.symm
  behind := h.behind.symm
  record := h.record.symm

theorem trans (h : SameShare i s t) (h' : SameShare i t u) : SameShare i s u where
  cell := h'.cell.trans h.cell
  names := h.names
  kernel f hf := (h'.kernel f hf).trans (h.kernel f hf)
  inMap := h'.inMap.trans h.inMap
  entries := ⟨h.entries.1, h'.entries.2⟩
  frames := h'.frames.trans h.frames
  borrowed := h'.borrowed.trans h.borrowed
  inBatch := h'.inBatch.trans h.inBatch
  behind := h'.behind.trans h.behind
  record := h'.record.trans h.record

end SameShare

namespace OnlyShare

theorem refl (i : Identity) (s : World) : OnlyShare i s s := ⟨fun _ _ => rfl, fun _ _ => rfl, rfl⟩

theorem trans (h : OnlyShare i s s') (h' : OnlyShare i s' s'') : OnlyShare i s s'' where
  cell d hd := (h'.cell d hd).trans (h.cell d hd)
  kernel f hf := (h'.kernel f hf).trans (h.kernel f hf)
  rest := World.taking_trans h.rest h'.rest

theorem frames (h : OnlyShare i s s') : s'.frames = s.frames := by
  rw [h.rest]
  rfl

theorem borrowed (h : OnlyShare i s s') : s'.borrowed = s.borrowed := by
  rw [h.rest]
  rfl

theorem activeChannels (h : OnlyShare i s s') : s'.activeChannels = s.activeChannels := by
  rw [h.rest]
  rfl

end OnlyShare

/-! ### Moves -/

/-- The entries under the name go, or nothing does. -/
theorem filter_if (gone gone' : Bool) (l : List (Name × ConnId)) (n : Name) :
    (if gone' then (if gone then l.filter (·.1 != n) else l).filter (·.1 != n) else if gone then l.filter (·.1 != n) else l) =
      if gone || gone' then l.filter (·.1 != n) else l := by
  cases gone <;> cases gone' <;> simp

namespace ShareMoves

theorem stay (h : SameShare i s t) : ShareMoves i s s t t where
  same := h
  only := ⟨.refl i s, .refl i t⟩
  told := ⟨[], by simp, by simp, by simp⟩
  erased := ⟨false, by simp, by simp⟩

theorem symm (h : ShareMoves i s s' t t') : ShareMoves i t t' s s' where
  same := h.same.symm
  only := h.only.symm
  told := by
    rcases h.told with ⟨evs, hs, ht, hevs⟩
    exact ⟨evs, ht, hs, hevs⟩
  erased := by
    rcases h.erased with ⟨gone, hs, ht⟩
    exact ⟨gone, ht, hs⟩

theorem comp (h : ShareMoves i s s' t t') (h' : ShareMoves i s' s'' t' t'') : ShareMoves i s s'' t t'' where
  same := h'.same
  only := ⟨h.only.1.trans h'.only.1, h.only.2.trans h'.only.2⟩
  told := by
    rcases h.told with ⟨evs, hs, ht, hevs⟩
    rcases h'.told with ⟨evs', hs', ht', hevs'⟩
    refine ⟨evs ++ evs', by simp [hs', hs], by simp [ht', ht], fun ev hev => ?_⟩
    rcases List.mem_append.1 hev with hev | hev
    · exact hevs ev hev
    · exact hevs' ev hev
  erased := by
    rcases h.erased with ⟨gone, hs, ht⟩
    rcases h'.erased with ⟨gone', hs', ht'⟩
    exact ⟨gone || gone', by rw [hs', hs, filter_if], by rw [ht', ht, filter_if]⟩

/-- The share of a connection that is apart stays. -/
theorem spared (hij : i.Apart j) (h : ShareMoves i s s' t t') (hj : SameShare j s s) : SameShare j s s' := by
  rcases h.erased with ⟨gone, hgone, -⟩
  rcases h.told with ⟨evs, hevs, -, others⟩
  have none : evs.filter (Event.about j.conn) = [] :=
    List.filter_eq_nil_iff.2 fun ev hev => by simp [others ev hev j.conn hij.conn.symm]
  have mem : ∀ n, (n, j.conn) ∈ s'.tcpConnections ↔ (n, j.conn) ∈ s.tcpConnections := by
    intro n
    rw [hgone]
    split
    · rw [List.mem_filter]
      refine ⟨fun hm => hm.1, fun hm => ⟨hm, ?_⟩⟩
      have own : n = j.name := (hj.entries.1 n _ hm).2 rfl
      simpa [own] using hij.name.symm
    · exact Iff.rfl
  have sub : ∀ e ∈ s'.tcpConnections, e ∈ s.tcpConnections := by
    intro e he
    rw [hgone] at he
    split at he
    · exact (List.mem_filter.1 he).1
    · exact he
  exact {
    cell := h.only.1.cell j.conn hij.conn.symm
    kernel := fun f hf => h.only.1.kernel f fun hi => hij.descriptors f hi hf
    names := hj.names
    inMap := by rw [Bool.eq_iff_iff, World.inMap_iff, World.inMap_iff, exists_congr mem]
    entries := ⟨hj.entries.1, fun n e he => hj.entries.1 n e (sub _ he)⟩
    frames := h.only.1.frames
    borrowed := h.only.1.borrowed
    inBatch := by rw [World.inBatch, World.inBatch, h.only.1.activeChannels]
    behind := by rw [h.only.1.activeChannels]
    record := by rw [hevs, List.filter_append, none, List.append_nil] }

/-- The move makes the same of states that agree. -/
theorem cells (h : ShareMoves i s s' t t') (hst : t.cells = s.cells) : t'.cells = s'.cells := by
  simp only [World.cells, Prod.mk.injEq] at hst ⊢
  rcases hst with ⟨hcell, hkernel, hmap⟩
  refine ⟨funext fun d => ?_, funext fun f => ?_, ?_⟩
  · by_cases hd : d = i.conn
    · rw [hd]
      exact h.same.cell
    · rw [h.only.2.cell d hd, h.only.1.cell d hd, hcell]
  · by_cases hf : i.Has f
    · exact h.same.kernel f hf
    · rw [h.only.2.kernel f hf, h.only.1.kernel f hf, hkernel]
  · rcases h.erased with ⟨gone, hs, ht⟩
    rw [hs, ht, hmap]

/-- The moves of two connections, in either order. -/
theorem cross (hij : i.Apart j) (h : ShareMoves i s s₁ t₁ t₂) (h' : ShareMoves j s t₁ s₁ s₂) : t₂.cells = s₂.cells := by
  simp only [World.cells, Prod.mk.injEq]
  refine ⟨funext fun d => ?_, funext fun f => ?_, ?_⟩
  · by_cases hi : d = i.conn
    · have hj : d ≠ j.conn := fun hj => hij.conn (hi.symm.trans hj)
      rw [h'.only.2.cell d hj, hi]
      exact h.same.cell
    · rw [h.only.2.cell d hi]
      by_cases hj : d = j.conn
      · rw [hj]
        exact h'.same.cell.symm
      · rw [h'.only.1.cell d hj, h'.only.2.cell d hj, h.only.1.cell d hi]
  · by_cases hi : i.Has f
    · rw [h'.only.2.kernel f (hij.descriptors f hi)]
      exact h.same.kernel f hi
    · rw [h.only.2.kernel f hi]
      by_cases hj : j.Has f
      · exact (h'.same.kernel f hj).symm
      · rw [h'.only.1.kernel f hj, h'.only.2.kernel f hj, h.only.1.kernel f hi]
  · rcases h.erased with ⟨gone, hs, ht⟩
    rcases h'.erased with ⟨gone', hs', ht'⟩
    rw [ht, hs', ht', hs]
    cases gone <;> cases gone' <;> simp [List.filter_filter, Bool.and_comm]

end ShareMoves

/-! ### States that differ in the trace -/

/-- The events of the two connections do not meet in what is recorded of any one. -/
theorem about_comm (hij : i.conn ≠ j.conn) {evs evs' : List Event} (h : ∀ ev ∈ evs, ∀ d, d ≠ i.conn → ev.about d = false)
    (h' : ∀ ev ∈ evs', ∀ d, d ≠ j.conn → ev.about d = false) (c : ConnId) :
    (evs ++ evs').filter (Event.about c) = (evs' ++ evs).filter (Event.about c) := by
  by_cases hc : c = i.conn
  · have none : evs'.filter (Event.about c) = [] :=
      List.filter_eq_nil_iff.2 fun ev hev => by simp [h' ev hev c (hc ▸ hij)]
    simp [none]
  · have none : evs.filter (Event.about c) = [] := List.filter_eq_nil_iff.2 fun ev hev => by simp [h ev hev c hc]
    simp [none]

theorem World.taking_cells {w v v' : World} (h : v'.cells = v.cells) : w.taking v' = { w.taking v with trace := v'.trace } := by
  simp only [World.cells, Prod.mk.injEq] at h
  rcases h with ⟨hcell, hkernel, hmap⟩
  have conns : v'.conns = v.conns := funext fun d => congrArg Prod.fst (congrFun hcell d)
  have userRefs : v'.userRefs = v.userRefs := funext fun d => congrArg Prod.snd (congrFun hcell d)
  have interest : v'.interest = v.interest := funext fun f => congrArg Prod.fst (congrFun hkernel f)
  have openFds : v'.openFds = v.openFds := funext fun f => congrArg (·.2.1) (congrFun hkernel f)
  have shutWr : v'.shutWr = v.shutWr := funext fun f => congrArg (·.2.2) (congrFun hkernel f)
  simp [World.taking, conns, userRefs, interest, openFds, shutWr, hmap]

namespace Reordered

theorem refl (s : World) : Reordered s s := ⟨rfl, fun _ => rfl, .refl _⟩

theorem trans (h : Reordered s t) (h' : Reordered t u) : Reordered s u where
  state := by
    rw [h'.state, h.state]
  about c := (h'.about c).trans (h.about c)
  perm := h.perm.trans h'.perm

theorem cells (h : Reordered s t) : t.cells = s.cells := by
  rw [h.state]
  rfl

theorem same (h : Reordered s t) (hs : SameShare i s s) : SameShare i s t := by
  have record := h.about i.conn
  rw [h.state] at record ⊢
  exact { hs with record := record }

theorem moves (h : Reordered s t) (hm : ShareMoves i s s' t t') : Reordered s' t' := by
  rcases hm.told with ⟨evs, hs, ht, -⟩
  refine ⟨?_, fun c => ?_, ?_⟩
  · have there : t' = s.taking t' := by
      refine hm.only.2.rest.trans ?_
      rw [h.state]
      rfl
    rw [World.taking_cells (hm.cells h.cells), ← hm.only.1.rest] at there
    exact there
  · rw [hs, ht, List.filter_append, List.filter_append, h.about c]
  · rw [hs, ht]
    exact h.perm.append_right evs

/-- The moves of two connections that are apart. -/
theorem diamond (hij : i.Apart j) (h : ShareMoves i s s₁ t₁ t₂) (h' : ShareMoves j s t₁ s₁ s₂) : Reordered s₂ t₂ := by
  rcases h.told with ⟨evs, hs, ht, hevs⟩
  rcases h'.told with ⟨evs', hs', ht', hevs'⟩
  refine ⟨?_, fun c => ?_, ?_⟩
  · have there := World.taking_trans h'.only.1.rest h.only.2.rest
    rw [World.taking_cells (h.cross hij h'), ← World.taking_trans h.only.1.rest h'.only.2.rest] at there
    exact there
  · rw [ht, hs', ht', hs, List.append_assoc, List.append_assoc, List.filter_append, ← about_comm hij.conn hevs hevs' c,
      ← List.filter_append]
  · rw [ht, hs', ht', hs, List.append_assoc, List.append_assoc]
    exact List.perm_append_comm.append_left s.trace

end Reordered

end

/-- The connections, as shares of the state. -/
def connections : Shares Identity World where
  apart := Identity.Apart
  same := SameShare
  moves := ShareMoves
  alike := Reordered
  apart_symm := .symm
  same_symm := .symm
  same_trans := .trans
  stay := .stay
  comp := .comp
  moves_symm := .symm
  moved h := h.same
  spared := ShareMoves.spared
  alike_refl := .refl
  alike_trans := .trans
  alike_same := Reordered.same
  alike_moves := Reordered.moves
  diamond := .diamond

end NetServer
