import NetServer.Tcp.Ownership
/-!
# No connection without an owner

The converse of `Objects.alive`: a connection is there only while someone owns it (`NoLeak`), in every state that is
visited. Most calls change no owner (`Touched.owners`); where a pointer goes, `NoLeak` may fail for its connection alone,
and `release` settles it.
-/

namespace NetServer
open Exec

/-- A connection that is there is owned, if `P` says so. -/
def OwnedFor (P : ConnId → Prop) (w : World) : Prop := ∀ c, P c → (w.conns c).isSome → w.owned c = true

/-- Every connection that is there is owned. -/
abbrev NoLeak (w : World) : Prop := OwnedFor (fun _ => True) w

/-- Every other connection that is there is owned. -/
abbrev NoLeakBut (c : ConnId) (w : World) : Prop := OwnedFor (· ≠ c) w

/-! ## Calls that change no owner -/

/-- The same connections with the same owners. -/
structure SameOwners (s t : World) : Prop where
  present : ∀ c, (t.conns c).isSome = (s.conns c).isSome
  frames : t.frames = s.frames
  userRefs : t.userRefs = s.userRefs
  entries : t.tcpConnections = s.tcpConnections

namespace SameOwners

variable {s t u : World}

theorem refl (s : World) : SameOwners s s := ⟨fun _ => rfl, rfl, rfl, rfl⟩

theorem trans (h : SameOwners s t) (h' : SameOwners t u) : SameOwners s u :=
  ⟨fun c => (h'.present c).trans (h.present c), h'.frames.trans h.frames, h'.userRefs.trans h.userRefs,
    h'.entries.trans h.entries⟩

theorem owned (h : SameOwners s t) (c : ConnId) : t.owned c = s.owned c := by
  simp only [World.owned, World.inMap, h.frames, h.userRefs, h.entries]

theorem noLeak (h : SameOwners s t) (hs : NoLeak s) : NoLeak t := fun c _ hc =>
  (h.owned c).trans (hs c trivial (h.present c ▸ hc))

end SameOwners

theorem Touched.owners {c : ConnId} {s t : World} (h : Touched c s t) : SameOwners s t := by
  cases h with
  | told => exact ⟨fun _ => rfl, rfl, rfl, rfl⟩
  | changed hc =>
    refine ⟨fun d => ?_, rfl, rfl, rfl⟩
    by_cases hd : d = c
    · simp [World.put, hd, hc]
    · simp [World.put, hd]

/-! ## Pointers that come and go -/

/-- Owners find their connections, and connections have owners. -/
def Matched (w : World) : Prop := Objects w ∧ NoLeak w

abbrev KeepsMatched {α : Type} (x : M α) : Prop := Keeps Matched (· = .outside) x

theorem Touches.matched {c : ConnId} {α : Type} {x : M α} (h : Touches c x) : KeepsMatched x :=
  h.widen (fun ht hs => ⟨ht.objects hs.1, ht.owners.noLeak hs.2⟩) fun hstop he hs =>
    ⟨(hstop.outside he).objects hs.1, (hstop.outside he).owners.noLeak hs.2⟩

/-- What is left to show of a call that keeps the objects in order. -/
theorem keepsMatched_of {α : Type} {x : M α} (ho : KeepsObjects x)
    (h : ∀ s, Matched s → Ensures x s (fun _ t => NoLeak t) fun e t => e = .outside → NoLeak t) : KeepsMatched x :=
  .intro fun s hs => ((ho.from hs.1).and (h s hs)).mono (fun _ _ ht => ht) fun _ _ ht he => ⟨ht.1 he, ht.2 he⟩

/-- **The end of a pointer**: the connection is owned by someone else, or it goes. -/
theorem release_noLeak {s : World} {c : ConnId} (hs : NoLeakBut c s) :
    Ensures (release c) s (fun _ t => NoLeak t) fun e t => e = .outside → NoLeak t := by
  refine ensures_release.2 ⟨fun hown d _ hd => ?_, fun _ => ⟨fun o _ d _ hd => ?_, fun _ he => by cases he⟩⟩
  · by_cases hdc : d = c
    · rw [hdc]
      exact hown
    · exact hs d hdc hd
  · by_cases hdc : d = c
    · simp [World.destroyed, hdc] at hd
    · exact hs d hdc (by simpa [World.destroyed, hdc] using hd)

theorem withPtr_matched (c : ConnId) {x : M Unit} (hx : KeepsMatched x) : KeepsMatched (withPtr c x) := by
  refine .intro fun s hs => ?_
  simp only [withPtr, ensures_bind, ensures_deref, ensures_modify]
  refine ⟨fun o hc => ?_, fun _ he => by cases he⟩
  have pushed : Matched { s with frames := c :: s.frames } :=
    ⟨owned_pushFrame hs.1 (by simp [hc]), fun d _ hd => World.owned_pushFrame c (hs.2 d trivial hd)⟩
  refine (hx.from pushed).mono (fun _ t ht => ?_) fun _ _ ht => ht
  have popped : NoLeakBut c { t with frames := t.frames.erase c } := fun d hdc hd =>
    World.owned_popFrame hdc (ht.2 d trivial hd)
  exact (((release_objects c).from (owned_popFrame ht.1 c)).and (release_noLeak popped)).mono (fun _ _ hu => hu)
    fun _ _ hu he => ⟨hu.1 he, hu.2 he⟩

theorem eraseOwn_matched (c : ConnId) : KeepsMatched (do let o ← deref c; eraseEntry o.name) := by
  refine keepsMatched_of (objectUnits.eraseOwn c) fun s hs => ?_
  simp only [ensures_bind, ensures_deref, eraseEntry, ensures_get]
  refine ⟨fun o hc => ?_, fun _ he => by cases he⟩
  split
  · exact hs.2
  · rename_i d hd
    obtain rfl : d = c := hs.1.entry_own (hs.1.named c o hc ▸ mem_of_lookup hd)
    rw [ensures_bind, ensures_set]
    exact release_noLeak fun e hec he => World.owned_eraseEntry hs.1 hc hec (hs.2 e trivial he)

theorem dropPtr_matched (c : ConnId) : KeepsMatched (dropPtr c) := by
  refine keepsMatched_of (dropPtr_objects c) fun s hs => ?_
  simp only [dropPtr, ensures_bind, ensures_get, ensures_ite, ensures_throw, ensures_set]
  exact ⟨fun _ _ => hs.2, fun _ => release_noLeak fun d hdc hd => World.owned_dropPtr hdc (hs.2 d trivial hd)⟩

theorem matchedUnits : Units (fun _ => Anywhere) (fun s t => Matched s → Matched t)
    (fun e s t => e = Fault.outside → Matched s → Matched t) :=
  units_of_touches (composes_invariant Matched (· = Fault.outside)) (fun _ _ => trivial) (fun _ _ hx => hx.matched)
    (fun c _ hx => withPtr_matched c hx) eraseOwn_matched

/-- A new connection is owned by the frame of `newConnection`, then by the map. -/
theorem newConnection_matched (clientfd sock : Fd) {up : Script} (hu : KeepsMatched up.run) :
    KeepsMatched (do openFd clientfd; TcpServer.newConnection clientfd (some sock) up.run) := by
  have user := objectParts.script up
  refine keepsMatched_of (newConnection_objects clientfd sock user.right user.left) fun s hs => ?_
  refine newConnection_spec hs.1 clientfd sock user.left user.right (fun _ => hs.2) (fun _ _ => hs.2)
    (fun _ _ he => by cases he) fun _ _ hadm => ?_
  have admitted : Matched (s.admitted clientfd sock) := by
    refine ⟨hadm, fun d _ hd => ?_⟩
    by_cases hdn : d = s.nextConn
    · subst hdn
      exact World.owned_iff.2 (.inr (.inr (List.mem_cons_self ..)))
    · exact World.owned_admitted clientfd sock (hs.2 d trivial (by simpa [World.admitted, hdn] using hd))
  have run : KeepsMatched (TcpConnection.connectionEstablished s.nextConn up.run) :=
    matchedUnits.connectionEstablished s.nextConn hu
  exact (run.from admitted).mono (fun _ t ht hto _ d _ hd => World.owned_entered hto s.nextConn (ht.2 d trivial hd))
    fun _ _ ht he => (ht he).2

theorem openFd_matched (fd : Fd) : KeepsMatched (openFd fd) := by
  refine keepsMatched_of (openFd_objects fd) fun s hs => ?_
  simp only [openFd, ensures_bind, ensures_get, ensures_ite, ensures_throw, ensures_set]
  exact ⟨fun _ _ => hs.2, fun _ => hs.2⟩

theorem keepPtr_matched (c : ConnId) : Moves (Pointed c) (fun s t => Matched s → Matched t)
    (fun e s t => e = Fault.outside → Matched s → Matched t) (keepPtr c) := fun s hp hs =>
  ⟨keepPtr_objects c s hp hs.1, fun d _ hd => World.owned_keepPtr c (hs.2 d trivial hd)⟩

theorem withRef_matched (c : ConnId) {x : M Unit} (hx : KeepsMatched x) : KeepsMatched (withRef c x) :=
  withRef_moves (composes_invariant _ _) (fun _ h => h) (fun _ _ h => ⟨{ h.1 with }, h.2⟩) c hx

theorem onTimers_matched {α : Type} {x : Timers.M α} (hx : Timers.Contained x) : KeepsMatched (onTimers x) :=
  onTimers_moves (fun _ _ _ h => ⟨{ h.1 with }, h.2⟩) (fun _ _ _ h => ⟨{ h.1 with }, h.2⟩) hx

theorem matchedParts : Parts (fun s t => Matched s → Matched t) (fun e s t => e = Fault.outside → Matched s → Matched t) :=
  parts_of_touches matchedUnits (fun _ _ h => h) (fun _ _ hx => hx.matched) (fun _ he => by cases he) openFd_matched
    (fun c _ hx => withRef_matched c hx) keepPtr_matched dropPtr_matched
    (fun x => onTimers_matched (Timers.contained_call x)) fun clientfd sock _ hu => newConnection_matched clientfd sock hu

/-! ## Every step -/

theorem report_matched (p : ChannelPtr) (mask : Mask) : KeepsMatched (do
    setReturnEvents p mask
    emit (.reported p)
    modify fun w => { w with activeChannels := w.activeChannels ++ [p] }) := by
  refine keepsMatched_of (report_objects p mask) fun s hs => ?_
  cases p with
  | acceptor => exact hs.2
  | timer => exact hs.2
  | conn c =>
    simp only [setReturnEvents, ensures_bind, ensures_deref, ensures_store, ensures_emit, ensures_modify]
    refine ⟨fun o hc d _ hd => hs.2 d trivial ?_, fun _ he => by cases he⟩
    by_cases hdc : d = c
    · simp [hdc, hc]
    · simpa [World.put, hdc] using hd

theorem step_matched (a : Act) : KeepsMatched (step a) :=
  matchedParts.step_moves (composes_invariant _ _) id id id report_matched
    (fun _ _ ht => ⟨{ ht.1 with }, ht.2⟩)
    (matchedParts.timingRead onTimers_matched fun _ _ => (emit_touches 0 _).matched) a

/-- **Every connection that is there is owned**, in every state that is visited. -/
theorem Visited.noLeak {ipPort : Name} {listenFd timerFd : Fd} {w : World} (h : Visited ipPort listenFd timerFd w) :
    NoLeak w :=
  (h.invariant (I := Matched) ⟨.init .., fun c _ hc => by simp [World.init] at hc⟩ step_matched).2

end NetServer
