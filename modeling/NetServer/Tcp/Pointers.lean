import NetServer.Tcp.Units
/-!
# Pointers that come and go

A `TcpConnectionPtr` goes when a frame returns, when an entry of the map is erased or overwritten and when user code lets go
of it; the last one takes the object with it (`ensures_release`). A relation between states that a change of the owners and
the end of an object respect (`Releases`) therefore holds before and after each of these.
-/

namespace NetServer
open Exec

/-- `~TcpConnection`. -/
def World.destroyed (w : World) (c : ConnId) (o : TcpConnection) : World :=
  { w with
    conns := Function.update w.conns c none
    openFds := Function.update w.openFds o.socket false
    interest := Function.update w.interest o.socket none
    trace := w.trace ++ [.destroyed c (w.inBatch c) (w.registered c) (w.borrowed.contains c), .closed o.socket] }

/-- **The end of a pointer**: another owner keeps the object, or it is destroyed. -/
theorem ensures_release {c : ConnId} {s : World} {Q : Unit → World → Prop} {E : Fault → World → Prop} :
    Ensures (release c) s Q E ↔ (s.owned c = true → Q () s) ∧
      (s.owned c = false → (∀ o, s.conns c = some o → Q () (s.destroyed c o)) ∧ (s.conns c = none → E .useAfterFree s)) := by
  simp only [release, destroy, closeFd, ensures_bind, ensures_get, ensures_ite, ensures_pure, ensures_deref, ensures_modify,
    ensures_emit, List.append_assoc, List.cons_append, List.nil_append, Bool.not_eq_true]
  rfl

/-- Another owner keeps it. -/
theorem release_owned {c : ConnId} {s : World} (h : s.owned c = true) {Q : Unit → World → Prop} {E : Fault → World → Prop}
    (hq : Q () s) : Ensures (release c) s Q E :=
  ensures_release.2 ⟨fun _ => hq, fun hn => by simp [h] at hn⟩

/-- A relation that a change of the owners but for the frames respects, and the end of an object. -/
structure Releases (R : World → World → Prop) (E : Fault → World → World → Prop) : Prop extends Composes R E where
  gone : ∀ s, E .useAfterFree s s
  outside : ∀ s, E .outside s s
  owners : ∀ s refs entries, R s { s with userRefs := refs, tcpConnections := entries }
  destroyed : ∀ {s c o}, s.conns c = some o → R s (s.destroyed c o)

namespace Releases

variable {R : World → World → Prop} {E : Fault → World → World → Prop} (h : Releases R E)
include h

theorem release (c : ConnId) : Moves Anywhere R E (release c) := fun s _ =>
  ensures_release.2 ⟨fun _ => h.refl s, fun _ => ⟨fun _ hc => h.destroyed hc, fun _ => h.gone s⟩⟩

/-- Letting go after a change that is respected. -/
theorem after {s m : World} (hs : R s m) (c : ConnId) : Ensures (NetServer.release c) m (fun _ t => R s t) fun e t => E e s t :=
  (h.release c m trivial).mono (fun _ _ ht => h.trans hs ht) fun _ _ ht => h.later hs ht

theorem eraseEntry (name : Name) : Moves Anywhere R E (eraseEntry name) := by
  intro s _
  simp only [NetServer.eraseEntry, ensures_bind, ensures_get]
  split
  · exact h.refl s
  · rw [ensures_bind, ensures_set]
    exact h.after (h.owners s s.userRefs _) _

theorem eraseOwn (c : ConnId) : Moves Anywhere R E (do let o ← deref c; NetServer.eraseEntry o.name) := by
  intro s _
  rw [ensures_bind, ensures_deref]
  exact ⟨fun o _ => h.eraseEntry o.name s trivial, fun _ => h.gone s⟩

theorem assignEntry (name : Name) (c : ConnId) : Moves Anywhere R E (assignEntry name c) := by
  intro s _
  simp only [NetServer.assignEntry, ensures_bind, ensures_get, ensures_set]
  split
  · exact h.owners s s.userRefs _
  · exact h.after (h.owners s s.userRefs _) _

theorem keepPtr (c : ConnId) : Moves Anywhere R E (keepPtr c) := fun s _ => h.owners s _ s.tcpConnections

theorem dropPtr (c : ConnId) : Moves Anywhere R E (dropPtr c) := by
  intro s _
  simp only [NetServer.dropPtr, ensures_bind, ensures_get, ensures_ite, ensures_throw, ensures_set]
  exact ⟨fun _ => h.outside s, fun _ => h.after (h.owners s _ s.tcpConnections) c⟩

/-- A frame, for a relation that does not look at the frames either. -/
theorem withPtr (hframes : ∀ s fs, R s { s with frames := fs }) (c : ConnId) {x : M Unit} (hx : Moves Anywhere R E x) :
    Moves Anywhere R E (withPtr c x) := by
  intro s _
  simp only [NetServer.withPtr, ensures_bind, ensures_deref, ensures_modify]
  refine ⟨fun _ _ => ?_, fun _ => h.gone s⟩
  have pushed := hframes s (c :: s.frames)
  refine (hx _ trivial).mono (fun _ t ht => ?_) fun _ _ ht => h.later pushed ht
  exact h.after (h.trans (h.trans pushed ht) (hframes t (t.frames.erase c))) c

end Releases

/-- `newConnection` after `new TcpConnection`, for a relation that does not look at the frames either. -/
theorem Units.entered {R : World → World → Prop} {E : Fault → World → World → Prop} (u : Units (fun _ => Anywhere) R E)
    (h : Releases R E) (hframes : ∀ s fs, R s { s with frames := fs }) (hindex : ∀ s i, R s { s with nextConnIdx := i })
    (hover : ∀ s, E .overflow s s) (hestablished : ∀ c, Moves Anywhere R E (emit (.established c))) (name : Name) (c : ConnId)
    {up : M Unit} (hu : Moves Anywhere R E up) : Moves Anywhere R E (NetServer.withPtr c do
      TcpServer.bumpConnIdx
      TcpConnection.connectionEstablished c up
      emit (.established c)
      assignEntry name c) := by
  have bump : Moves Anywhere R E TcpServer.bumpConnIdx := by
    intro s _
    simp only [TcpServer.bumpConnIdx, ensures_bind, ensures_get, ensures_ite, ensures_throw, ensures_set]
    exact ⟨fun _ => hover s, fun _ => hindex s _⟩
  exact h.withPtr hframes c (u.bind (c := c) bump fun _ => u.bind (c := c) (u.connectionEstablished c hu) fun _ =>
    u.bind (c := c) (hestablished c) fun _ => h.assignEntry name c)

end NetServer
