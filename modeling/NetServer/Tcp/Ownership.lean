import NetServer.Tcp.Objects
/-!
# Dispatch only on owned channels

The epoll instance and `activeChannels_` hold raw `Channel` pointers, and nothing in the code ties them to
the owners of the connection; nor does a call of `removeConnection` own what it is passed. What keeps them alive is
what user code keeps (`Event.Kept`): with it, every registered channel, every channel of the unfinished batch and every
connection that `removeConnection` works on is owned (`Safe`), so no step reads an object that is gone
(`dispatch_owned`). The frames of a call on a connection carry it through that call; where a pointer goes, `Safe` may fail
for its connection alone (`SafeBut`), and `release` settles it.
-/

namespace NetServer
open Exec

/-- User code keeps a pointer where one is needed: the last `TcpConnectionPtr` of a connection does not go while
its channel is in the unfinished part of the batch or in the interest set, or a call of `removeConnection` that user code
made is still running on it. -/
def Event.Kept : Event → Prop
  | .destroyed _ inBatch registered inUse => inBatch = false ∧ registered = false ∧ inUse = false
  | _ => True

instance decidableKept : ∀ ev : Event, Decidable ev.Kept
  | .destroyed .. => inferInstanceAs (Decidable (_ ∧ _))
  | .send .. | .written .. | .read .. | .connectionCallback .. | .messageCallback _ | .closeCallback _ | .taken ..
  | .shutdown .. | .setConnectState .. | .shutWr .. | .queued .. | .handleWrite .. | .remove .. | .removeConnection _
  | .accept4 _ | .socketFailed | .constructed .. | .established _ | .closed _ | .reported _ | .timingRead .. => .isTrue trivial

def AllKept (trace : List Event) : Prop := ∀ ev ∈ trace, ev.Kept

theorem AllKept.of_prefix {l l' : List Event} (h : AllKept l') (hp : l <+: l') : AllKept l := fun ev hev =>
  h ev (hp.subset hev)

/-! ## Who owns a connection while pointers come and go -/

namespace World

variable {w : World} {c d : ConnId}

theorem owned_pushFrame (c : ConnId) (h : w.owned d = true) : ({ w with frames := c :: w.frames } : World).owned d = true := by
  rw [owned_iff] at h ⊢
  exact h.imp id (Or.imp id (List.mem_cons_of_mem _))

theorem owned_popFrame (hd : d ≠ c) (h : w.owned d = true) :
    ({ w with frames := w.frames.erase c } : World).owned d = true := by
  rw [owned_iff] at h ⊢
  exact h.imp id (Or.imp id fun hm => (List.mem_erase_of_ne hd).2 hm)

theorem owned_keepPtr (c : ConnId) (h : w.owned d = true) :
    ({ w with userRefs := Function.update w.userRefs c (w.userRefs c + 1) } : World).owned d = true := by
  rw [owned_iff] at h ⊢
  refine h.imp id (Or.imp (fun hr => ?_) id)
  by_cases hd : d = c
  · simp [hd]
  · simpa [hd] using hr

theorem owned_dropPtr (hd : d ≠ c) (h : w.owned d = true) :
    ({ w with userRefs := Function.update w.userRefs c (w.userRefs c - 1) } : World).owned d = true := by
  rw [owned_iff] at h ⊢
  exact h.imp id (Or.imp (fun hr => by simpa [hd] using hr) id)

/-- The entry under the connection's name is its own. -/
theorem owned_eraseEntry (ho : Objects w) {o : TcpConnection} (hc : w.conns c = some o) (hd : d ≠ c) (h : w.owned d = true) :
    ({ w with tcpConnections := w.tcpConnections.filter (·.1 != o.name) } : World).owned d = true := by
  rw [owned_iff] at h ⊢
  refine h.imp (fun hm => ?_) id
  obtain ⟨n, hm⟩ := inMap_iff.1 hm
  refine inMap_iff.2 ⟨n, List.mem_filter.2 ⟨hm, ?_⟩⟩
  have hn : n ≠ o.name := fun he => hd (ho.entry_own (ho.named c o hc ▸ he ▸ hm))
  simpa using hn

theorem owned_admitted (clientfd sock : Fd) (h : w.owned d = true) : (w.admitted clientfd sock).owned d = true := by
  rw [owned_iff] at h ⊢
  exact h.imp id (Or.imp id (List.mem_cons_of_mem _))

/-- With its entry the connection no longer needs the frame. -/
theorem owned_entered (ho : Objects w) (c : ConnId) (h : w.owned d = true) : (w.entered c).owned d = true := by
  rw [owned_iff, inMap_iff] at h ⊢
  by_cases hd : d = c
  · subst hd
    exact .inl ⟨_, List.mem_cons_self ..⟩
  · refine h.imp ?_ (Or.imp id fun hm => (List.mem_erase_of_ne hd).2 hm)
    rintro ⟨n, hm⟩
    refine ⟨n, List.mem_cons_of_mem _ (List.mem_filter.2 ⟨hm, ?_⟩)⟩
    have hn : n ≠ TcpServer.connectionName w.ipPort (c + 1) := fun he => hd (ho.entry_own (he ▸ hm))
    simpa using hn

end World

/-- Every raw pointer and every reference leads to a connection that is owned, if `P` says so. -/
structure SafeFor (P : ConnId → Prop) (w : World) : Prop where
  batch : ∀ c, P c → .conn c ∈ w.activeChannels → w.owned c = true
  borrowed : ∀ c, P c → c ∈ w.borrowed → w.owned c = true
  watched : ∀ f e c, w.interest f = some e → e.ptr = .conn c →
    (P c → w.owned c = true) ∧ ∃ o, w.conns c = some o ∧ o.channel.fd = f

/-- Every raw pointer leads to an owned connection. -/
abbrev Safe (w : World) : Prop := SafeFor (fun _ => True) w

/-- Every raw pointer to another connection leads to an owned one. -/
abbrev SafeBut (c : ConnId) (w : World) : Prop := SafeFor (· ≠ c) w

/-- A call on the connection may be made: user code or a frame has a pointer, or `removeConnection` a reference to one, or
its channel is being handled. -/
def Callable (c : ConnId) (w : World) : Prop :=
  0 < w.userRefs c ∨ c ∈ w.frames ∨ c ∈ w.borrowed ∨ .conn c ∈ w.activeChannels

/-- The same without user code, whose pointers may go. -/
def Handled (c : ConnId) (w : World) : Prop := c ∈ w.frames ∨ c ∈ w.borrowed ∨ .conn c ∈ w.activeChannels

theorem Handled.callable {c : ConnId} {w : World} (h : Handled c w) : Callable c w := .inr h

namespace SafeFor

variable {P : ConnId → Prop} {w : World} {c : ConnId} {o : TcpConnection}

theorem owned (h : Safe w) (hc : Callable c w) : w.owned c = true := by
  obtain hr | hf | hb | ha := hc
  · exact World.owned_iff.2 (.inr (.inl hr))
  · exact World.owned_iff.2 (.inr (.inr hf))
  · exact h.borrowed c trivial hb
  · exact h.batch c trivial ha

theorem alive (h : Safe w) (ho : Objects w) (hc : Callable c w) : ∃ o, w.conns c = some o :=
  Option.isSome_iff_exists.1 (ho.alive c (h.owned hc))

theorem init (ipPort : Name) (listenFd timerFd : Fd) : Safe (World.init ipPort listenFd timerFd) where
  batch := nofun
  borrowed := nofun
  watched f e c he hp := by
    simp only [World.init] at he
    split at he
    · cases he; cases hp
    · split at he
      · cases he; cases hp
      · cases he

/-- Owners come and go. -/
theorem owners (h : Safe w) (fs : List ConnId) (refs : ConnId → Nat) (map : List (Name × ConnId))
    (howned : ∀ d, P d → w.owned d = true →
      ({ w with frames := fs, userRefs := refs, tcpConnections := map } : World).owned d = true) :
    SafeFor P { w with frames := fs, userRefs := refs, tcpConnections := map } where
  batch d hP hd := howned d hP (h.batch d trivial hd)
  borrowed d hP hd := howned d hP (h.borrowed d trivial hd)
  watched f e d he hp := by
    obtain ⟨hown, hx⟩ := h.watched f e d he hp
    exact ⟨fun hP => howned d hP (hown trivial), hx⟩

/-- A write to the object that keeps its descriptor. -/
theorem put (h : Safe w) (hc : w.conns c = some o) (o' : TcpConnection) (hfd : o'.channel.fd = o.channel.fd) :
    Safe (w.put c o') where
  batch := h.batch
  borrowed := h.borrowed
  watched f e d he hp := by
    obtain ⟨hown, x, hx, hxf⟩ := h.watched f e d he hp
    refine ⟨hown, ?_⟩
    by_cases hd : d = c
    · subst hd
      obtain rfl : o = x := Option.some.inj (hc.symm.trans hx)
      exact ⟨o', by simp [World.put], hfd.trans hxf⟩
    · exact ⟨x, by simpa [World.put, hd] using hx, hxf⟩

/-- `~TcpConnection` of a connection that no raw pointer leads to. -/
theorem destroyed (h : SafeBut c w) (hc : w.conns c = some o) (hbatch : w.inBatch c = false)
    (hregistered : w.registered c = false) (hborrowed : w.borrowed.contains c = false) (fd : Fd) (fds : Fd → Bool) (tr : List Event) :
    Safe { w with conns := Function.update w.conns c none, openFds := fds,
                  interest := Function.update w.interest fd none, trace := tr } where
  batch d _ hd := by
    have hdc : d ≠ c := fun he => by
      have hin : .conn c ∉ w.activeChannels := by simpa [World.inBatch] using hbatch
      exact hin (he ▸ hd)
    exact h.batch d hdc hd
  borrowed d _ hd := by
    have hdc : d ≠ c := fun he => by
      have hout : c ∉ w.borrowed := by simpa using hborrowed
      exact hout (he ▸ hd)
    exact h.borrowed d hdc hd
  watched f e d he hp := by
    have hf : f ≠ fd := fun hf => by subst hf; simp at he
    have hold : w.interest f = some e := by simpa [hf] using he
    obtain ⟨hown, x, hx, hxf⟩ := h.watched f e d hold hp
    have hdc : d ≠ c := fun hd => by
      subst hd
      simp [World.registered, hx, hxf, hold, hp] at hregistered
    exact ⟨fun _ => hown hdc, x, by simpa [hdc] using hx, hxf⟩

end SafeFor

/-- A call on a connection that is owned: its descriptor gets the channel's own pointer or none. -/
theorem Touched.safe {c : ConnId} {s t : World} (h : Touched c s t) (ho : Objects s) (hs : Safe s) (hown : s.owned c = true) :
    Safe t := by
  cases h with
  | told => exact { hs with }
  | @changed o o' k sh tr hc hid hm hk =>
    refine ⟨hs.batch, hs.borrowed, fun f e d he hp => ?_⟩
    by_cases hf : f = o.channel.fd
    · have mirrors := hm (ho.mirrors c o hc)
      have hd : d = c := by
        rw [Polled.Mirrors, hid.fd, ← hf] at mirrors
        simp only [show k f = some e from he] at mirrors
        split at mirrors
        · cases mirrors; cases hp; rfl
        · cases mirrors
      subst hd
      exact ⟨fun _ => hown, o', by simp [World.put], hid.fd.trans hf.symm⟩
    · obtain ⟨hown, x, hx, hxf⟩ := hs.watched f e d ((hk f hf).symm.trans he) hp
      refine ⟨hown, x, ?_, hxf⟩
      have hd : d ≠ c := fun he => by
        subst he
        obtain rfl : o = x := Option.some.inj (hc.symm.trans hx)
        exact hf hxf.symm
      simpa [World.put, hd] using hx

/-! ## Calls that change no owner -/

/-- The objects stay in order, and the channels safe as long as user code keeps what it must. -/
abbrev Owning (s t : World) : Prop :=
  (Within s t ∧ (Objects s → Objects t)) ∧ (Objects s → Safe s → AllKept t.trace → Safe t)

abbrev OwningStop (e : Fault) (s t : World) : Prop :=
  (s.trace <+: t.trace ∧ (e = .outside → Objects s → Objects t)) ∧
    (Objects s → Safe s → AllKept t.trace → e ≠ .useAfterFree)

theorem owning_composes : Composes Owning OwningStop where
  refl s := ⟨⟨within_composes.refl s, id⟩, fun _ h _ => h⟩
  trans h h' := ⟨⟨h'.1.1.after h.1.1, fun ho => h'.1.2 (h.1.2 ho)⟩, fun ho hs hk =>
    h'.2 (h.1.2 ho) (h.2 ho hs (hk.of_prefix h'.1.1.trace)) hk⟩
  later h h' := ⟨⟨h.1.1.trace.trans h'.1.1, fun he ho => h'.1.2 he (h.1.2 ho)⟩, fun ho hs hk =>
    h'.2 (h.1.2 ho) (h.2 ho hs (hk.of_prefix h'.1.1)) hk⟩

/-- From what is known of the objects, and what is left to show of the channels. -/
theorem owning_of {α : Type} {x : M α} {s : World}
    (hbase : Ensures x s (fun _ t => Within s t ∧ (Objects s → Objects t))
      (fun e t => s.trace <+: t.trace ∧ (e = .outside → Objects s → Objects t)))
    (hsafe : Objects s → Safe s → Ensures x s (fun _ t => AllKept t.trace → Safe t)
      (fun e t => AllKept t.trace → e ≠ .useAfterFree)) :
    Ensures x s (fun _ t => Owning s t) (fun e t => OwningStop e s t) :=
  (hbase.and (Ensures.assume fun h : Objects s ∧ Safe s => hsafe h.1 h.2)).mono
    (fun _ _ h => ⟨h.1, fun ho hs => h.2 ⟨ho, hs⟩⟩) fun _ _ h => ⟨h.1, fun ho hs => h.2 ⟨ho, hs⟩⟩

theorem owning_stop {e : Fault} {s : World} (h : e ≠ .useAfterFree) : OwningStop e s s :=
  ⟨⟨List.prefix_refl _, fun _ ho => ho⟩, fun _ _ _ => h⟩

theorem handled_stays {c : ConnId} {s t : World} (h : Owning s t) (hc : Handled c s) : Handled c t := by
  rwa [Handled, h.1.1.frames, h.1.1.borrowed, h.1.1.active]

/-- A call through a pointer reads an object that is there. -/
theorem Touches.owning {c : ConnId} {α : Type} {x : M α} (h : Touches c x) : Moves (Callable c) Owning OwningStop x := by
  intro s hc
  refine (h s trivial).mono (fun _ t ht => ?_) fun e t hstop => ?_
  · exact ⟨⟨ht.within, ht.objects⟩, fun ho hs _ => ht.safe ho hs (hs.owned hc)⟩
  · refine ⟨⟨hstop.trace, fun he => (hstop.outside he).objects⟩, fun ho hs _ he => ?_⟩
    obtain ⟨o, halive⟩ := hs.alive ho hc
    simp [hstop.gone he] at halive

/-! ## Pointers that come and go -/

/-- **The end of a pointer**: the connection is owned by someone else, or no raw pointer leads to it. -/
theorem release_kept {s : World} {c : ConnId} (hs : AllKept s.trace → SafeBut c s) (hc : (s.conns c).isSome) :
    Ensures (release c) s (fun _ t => AllKept t.trace → Safe t) fun e t => AllKept t.trace → e ≠ .useAfterFree := by
  refine ensures_release.2 ⟨fun hown hk => ⟨fun d _ hd => ?_, fun d _ hd => ?_, fun f e d he hp => ?_⟩,
    fun _ => ⟨fun o ho hk => ?_, fun hn => by simp [hn] at hc⟩⟩
  · by_cases hdc : d = c
    · rw [hdc]; exact hown
    · exact (hs hk).batch d hdc hd
  · by_cases hdc : d = c
    · rw [hdc]; exact hown
    · exact (hs hk).borrowed d hdc hd
  · obtain ⟨hother, hx⟩ := (hs hk).watched f e d he hp
    refine ⟨fun _ => ?_, hx⟩
    by_cases hdc : d = c
    · rw [hdc]; exact hown
    · exact hother hdc
  · obtain ⟨hbatch, hregistered, hborrowed⟩ := hk (.destroyed c (s.inBatch c) (s.registered c) (s.borrowed.contains c))
      (List.mem_append_right _ (List.mem_cons_self ..))
    exact (hs (hk.of_prefix (List.prefix_append ..))).destroyed ho hbatch hregistered hborrowed _ _ _

/-- **A frame's pointer** keeps the connection until the frame returns. -/
theorem withPtr_owning (c : ConnId) {x : M Unit} (hx : Moves (Handled c) Owning OwningStop x) :
    Moves (Callable c) Owning OwningStop (withPtr c x) := by
  intro s hc
  have push : ∀ s : World, Callable c s → Handled c { s with frames := c :: s.frames } := fun s _ =>
    .inl (List.mem_cons_self ..)
  refine owning_of ((withPtr_within c push hx.left.left s hc).and (withPtr_objects c push hx.left.right s hc))
    fun ho hs => ?_
  obtain ⟨o, hlive⟩ := hs.alive ho hc
  have ho' : Objects { s with frames := c :: s.frames } := owned_pushFrame ho (by simp [hlive])
  have hs' : Safe { s with frames := c :: s.frames } := hs.owners (c :: s.frames) s.userRefs s.tcpConnections fun _ _ =>
    World.owned_pushFrame c
  simp only [withPtr, ensures_bind, ensures_deref, ensures_modify]
  refine ⟨fun _ _ => ?_, fun hn => by simp [hlive] at hn⟩
  refine (hx _ (push s hc)).mono (fun _ t ht => ?_) fun e t ht => ht.2 ho' hs'
  have halive : (t.conns c).isSome := (ht.1.2 ho').alive c (World.owned_iff.2 (.inr (.inr (by simp [ht.1.1.frames]))))
  refine release_kept (s := { t with frames := t.frames.erase c }) (fun hk => ?_) halive
  exact (ht.2 ho' hs' hk).owners (t.frames.erase c) t.userRefs t.tcpConnections fun _ => World.owned_popFrame

/-- **A reference** is good for as long as user code keeps what it refers to. -/
theorem withRef_owning (c : ConnId) {x : M Unit} (hx : Moves (Handled c) Owning OwningStop x) :
    Moves (Callable c) Owning OwningStop (withRef c x) := by
  intro s hc
  have push : ∀ s : World, Callable c s → Handled c { s with borrowed := c :: s.borrowed } := fun s _ =>
    .inr (.inl (List.mem_cons_self ..))
  refine owning_of ((withRef_within c push hx.left.left s hc).and (withRef_objects c push hx.left.right s hc))
    fun ho hs => ?_
  have hs' : Safe { s with borrowed := c :: s.borrowed } := { hs with
    borrowed := fun d _ hd => (List.mem_cons.1 hd).elim (fun he => by rw [he]; exact hs.owned hc) (hs.borrowed d trivial) }
  simp only [withRef, ensures_bind, ensures_modify]
  refine (hx _ (push s hc)).mono (fun _ t ht hk => ?_) fun e t ht => ht.2 { ho with } hs'
  have hsafe := ht.2 { ho with } hs' hk
  exact { hsafe with borrowed := fun d _ hd => hsafe.borrowed d trivial (List.mem_of_mem_erase hd) }

/-- The entry that `removeConnection` erases is the connection's own. -/
theorem eraseOwn_owning (c : ConnId) :
    Moves (Handled c) Owning OwningStop (do let o ← deref c; eraseEntry o.name) := by
  intro s hc
  refine owning_of ((withinUnits.and objectUnits).eraseOwn c s trivial) fun ho hs => ?_
  obtain ⟨o, hlive⟩ := hs.alive ho hc.callable
  simp only [ensures_bind, ensures_deref, eraseEntry, ensures_get]
  refine ⟨fun x hx => ?_, fun hn => by simp [hlive] at hn⟩
  split
  · exact fun _ => hs
  · rename_i d hd
    obtain rfl : d = c := ho.entry_own (ho.named c x hx ▸ mem_of_lookup hd)
    simp only [ensures_bind, ensures_set]
    refine release_kept (fun _ => ?_) (by simp [hx])
    exact hs.owners s.frames s.userRefs (s.tcpConnections.filter (·.1 != x.name)) fun _ => World.owned_eraseEntry ho hx

theorem owningUnits : Units Handled Owning OwningStop :=
  units_of_touches owning_composes handled_stays (fun _ _ hx => hx.owning.weaken fun _ => Handled.callable)
    (fun c _ hx => (withPtr_owning c hx).weaken fun _ => Handled.callable) eraseOwn_owning

theorem owningReaders : Readers Handled Owning OwningStop :=
  readers_of_touches owningUnits fun _ _ hx => hx.owning.weaken fun _ => Handled.callable

theorem dropPtr_owning (c : ConnId) : Moves Anywhere Owning OwningStop (dropPtr c) := by
  intro s _
  refine owning_of (((withinParts.dropPtr c).and (dropPtr_objects c)) s trivial) fun ho hs => ?_
  simp only [dropPtr, ensures_bind, ensures_get, ensures_ite, ensures_throw, ensures_set]
  refine ⟨fun _ _ => by decide, fun hpos => ?_⟩
  obtain ⟨o, hlive⟩ := hs.alive ho (.inl (Nat.pos_of_ne_zero hpos))
  refine release_kept (fun _ => ?_) (by simp [hlive])
  exact hs.owners s.frames (Function.update s.userRefs c (s.userRefs c - 1)) s.tcpConnections fun _ => World.owned_dropPtr

/-- A connection that is there for the first time has no raw pointer yet. -/
theorem Safe.admitted {s : World} (ho : Objects s) (hs : Safe s) (clientfd sock : Fd) : Safe (s.admitted clientfd sock) := by
  refine ⟨fun d _ hd => World.owned_admitted clientfd sock (hs.batch d trivial hd),
    fun d _ hd => World.owned_admitted clientfd sock (hs.borrowed d trivial hd), fun f e d he hp => ?_⟩
  obtain ⟨hown, x, hx, hxf⟩ := hs.watched f e d he hp
  have hd : d ≠ s.nextConn := Nat.ne_of_lt (ho.allocated d x hx)
  exact ⟨fun _ => World.owned_admitted clientfd sock (hown trivial), x, by simpa [World.admitted, hd] using hx, hxf⟩

theorem Safe.entered {w : World} (ho : Objects w) (hs : Safe w) (c : ConnId) : Safe (w.entered c) :=
  { hs.owners (w.frames.erase c) w.userRefs (w.assigned c).tcpConnections fun _ _ => World.owned_entered ho c with }

theorem newConnection_owning (clientfd sock : Fd) {up : M Unit} (hu : Moves Anywhere Owning OwningStop up) :
    Moves Anywhere Owning OwningStop (do openFd clientfd; TcpServer.newConnection clientfd (some sock) up) := by
  intro s _
  refine owning_of (((newConnection_within clientfd sock hu.left.left).and
    (newConnection_objects clientfd sock hu.left.right hu.left.left)) s trivial) fun ho hs => ?_
  refine newConnection_spec ho clientfd sock hu.left.left hu.left.right (fun _ => by decide) (fun _ _ => by decide)
    (fun _ _ _ => by decide) fun _ _ hadm => ?_
  have run := owningUnits.connectionEstablished s.nextConn hu (s.admitted clientfd sock)
    (.inl (List.mem_cons_self ..))
  refine run.mono (fun _ t ht hto _ hk => ?_) fun e t ht => ht.2 hadm (hs.admitted ho clientfd sock)
  exact Safe.entered hto (ht.2 hadm (hs.admitted ho clientfd sock) (hk.of_prefix (List.prefix_append ..))) s.nextConn

theorem Pointed.callable {c : ConnId} {w : World} (h : Pointed c w) : Callable c w := h.elim .inl fun h => .inr (.inl h)

theorem emitAnywhere_owning (ev : Event) : Moves Anywhere Owning OwningStop (emit ev) := by
  intro s _
  refine owning_of (((emit_within ev).and (emit_objects ev)) s trivial) fun _ hs => ?_
  rw [ensures_emit]
  exact fun _ => { hs with }

theorem openFd_owning (fd : Fd) : Moves Anywhere Owning OwningStop (openFd fd) := by
  intro s _
  refine owning_of (((openFd_within fd).and (openFd_objects fd)) s trivial) fun _ hs => ?_
  simp only [openFd, ensures_bind, ensures_get, ensures_ite, ensures_throw, ensures_set]
  exact ⟨fun _ _ => by decide, fun _ _ => { hs with }⟩

theorem keepPtr_owning (c : ConnId) : Moves (Pointed c) Owning OwningStop (keepPtr c) := by
  intro s hp
  refine owning_of (((withinParts.keepPtr c).and (keepPtr_objects c)) s hp) fun _ hs _ => ?_
  exact hs.owners s.frames (Function.update s.userRefs c (s.userRefs c + 1)) s.tcpConnections fun _ _ => World.owned_keepPtr c

theorem onTimers_owning {α : Type} {x : Timers.M α} (hx : Timers.Contained x) : Moves Anywhere Owning OwningStop (onTimers x) := by
  refine fun s _ => owning_of ((onTimers_within hx s trivial).and (onTimers_objects hx s trivial)) fun _ hs => ?_
  rw [ensures_onTimers]
  exact (hx s.timerQueue trivial).mono (fun _ _ _ _ => { hs with }) fun _ _ he _ => he.1

theorem owningUserCalls : UserCalls anyCall Owning OwningStop :=
  userCalls_of_touches owning_composes (fun _ => owning_stop (by decide)) (fun _ hx => hx.owning.weaken fun _ => Pointed.callable)
    (fun c _ _ hd => (owningUnits.callRemoveConnection c (withRef_owning c) hd).weaken fun _ => Pointed.callable)
    (fun c _ => keepPtr_owning c) (fun c _ => dropPtr_owning c) fun x => onTimers_owning (Timers.contained_call x)

theorem owningCalls : Calls anyCall Owning OwningStop where
  toUserCalls := owningUserCalls
  accept4 _ := emitAnywhere_owning _
  refused := Calls.refused_of owning_composes (fun _ => owning_stop (by decide)) (fun _ => emitAnywhere_owning _) openFd_owning
  noSocket := Calls.noSocket_of owning_composes (fun _ => owning_stop (by decide)) (emitAnywhere_owning _) openFd_owning
  newConnection clientfd sock _ _ := newConnection_owning clientfd sock

theorem owning_script (s : Script) : Moves Anywhere Owning OwningStop s.run := owningCalls.script s s.only_anyCall

theorem timingRead_owning (inp : EventInput) : Moves Anywhere Owning OwningStop
    (TimerQueue.handleTimingRead inp.curr (fun t => (inp.callback t).run) inp.now) :=
  timingRead_moves owning_composes (fun _ h => h) onTimers_owning (fun _ _ => emitAnywhere_owning _)
    (owningUserCalls.callback inp.only_anyCall) inp.curr inp.now

/-! ## The loop -/

structure LoopSafe (w : World) : Prop where
  objects : Objects w
  safe : AllKept w.trace → Safe w

theorem loopSafe_init (ipPort : Name) (listenFd timerFd : Fd) : LoopSafe (World.init ipPort listenFd timerFd) :=
  ⟨.init .., fun _ => .init ..⟩

/-- A handler called from the loop. -/
theorem LoopSafe.moves {w : World} (h : LoopSafe w) {P : World → Prop} {x : M Unit} (hx : Moves P Owning OwningStop x)
    (hp : P w) : Ensures x w (fun _ t => LoopSafe t ∧ t.activeChannels = w.activeChannels)
      (fun e t => AllKept t.trace → e ≠ .useAfterFree) :=
  (hx w hp).mono
    (fun _ _ ht => ⟨⟨ht.1.2 h.objects, fun hk => ht.2 h.objects (h.safe (hk.of_prefix ht.1.1.trace)) hk⟩, ht.1.1.active⟩)
    fun _ _ ht hk => ht.2 h.objects (h.safe (hk.of_prefix ht.1.1)) hk

/-- **`Epoller::poll`** writes to channels of owned connections and reports them. -/
theorem pollEvents_safe (events : List (Fd × Mask)) {w : World} (h : LoopSafe w) :
    Ensures (pollEvents events) w (fun _ t => LoopSafe t) (fun e t => AllKept t.trace → e ≠ .useAfterFree) := by
  induction events generalizing w with
  | nil => exact h
  | cons ev rest ih =>
    have report : ∀ {v : World} {p : ChannelPtr}, LoopSafe v →
        (AllKept v.trace → ∀ c, p = .conn c → v.owned c = true) →
        Ensures (do
          emit (.reported p)
          modify fun w => { w with activeChannels := w.activeChannels ++ [p] }
          pollEvents rest) v
          (fun _ t => LoopSafe t) (fun e t => AllKept t.trace → e ≠ .useAfterFree) := by
      intro v p hv hheld
      rw [ensures_bind, ensures_emit, ensures_bind, ensures_modify]
      have before : AllKept (v.trace ++ [.reported p]) → AllKept v.trace := fun hk => hk.of_prefix (List.prefix_append ..)
      refine ih ⟨{ hv.objects with }, fun hk => ⟨fun c _ hc => ?_, (hv.safe (before hk)).borrowed, (hv.safe (before hk)).watched⟩⟩
      obtain hc | hc := List.mem_append.1 hc
      · exact (hv.safe (before hk)).batch c trivial hc
      · exact hheld (before hk) c (List.mem_singleton.1 hc).symm
    simp only [pollEvents]
    rw [ensures_bind, ensures_get]
    split
    · exact fun _ => by decide
    · rename_i e he
      rw [ensures_bind]
      have held : AllKept w.trace → ∀ c, e.ptr = .conn c → w.owned c = true ∧ ∃ o, w.conns c = some o := fun hk c hp => by
        obtain ⟨hown, x, hx, _⟩ := (h.safe hk).watched ev.1 e c he hp
        exact ⟨hown trivial, x, hx⟩
      cases hp : e.ptr with
      | acceptor =>
        rw [setReturnEvents, ensures_modify]
        exact report ⟨{ h.objects with }, fun hk => { h.safe hk with }⟩ fun _ _ hn => by cases hn
      | timer =>
        rw [setReturnEvents, ensures_modify]
        exact report ⟨{ h.objects with }, fun hk => { h.safe hk with }⟩ fun _ _ hn => by cases hn
      | conn c =>
        simp only [setReturnEvents, ensures_bind (deref c), ensures_deref, ensures_store]
        refine ⟨fun o hc => ?_, fun hn hk => ?_⟩
        · refine report ⟨h.objects.put hc _ rfl rfl rfl rfl rfl, fun hk => (h.safe hk).put hc _ rfl⟩ fun hk d hd => ?_
          cases hd
          exact (held hk c hp).1
        · obtain ⟨_, o, ho⟩ := held hk c hp
          simp [hn] at ho

theorem step_safe {w : World} (h : LoopSafe w) (a : Act) (ha : a.ofLoop = true) :
    Ensures (step a) w (fun _ t => LoopSafe t) (fun e t => AllKept t.trace → e ≠ .useAfterFree) := by
  cases a with
  | poll events =>
    simp only [step, poll]
    rw [ensures_bind, ensures_get, ensures_ite]
    exact ⟨fun _ _ => by decide, fun _ => pollEvents_safe events h⟩
  | dispatch inp =>
    simp only [step, dispatch]
    rw [ensures_bind, ensures_get]
    split
    · exact fun _ => by decide
    · rename_i p rest hactive
      rw [ensures_bind]
      have handled : AtHandPtr Handled p w := by
        cases p with
        | acceptor => trivial
        | timer => trivial
        | conn c => exact .inr (.inr (by simp [hactive]))
      have events := owningReaders.handleEvents p inp owningCalls inp.only_anyCall fun _ => timingRead_owning inp
      refine (h.moves events handled).mono ?_ fun _ _ he => he
      rintro _ t ⟨ht, hsame⟩
      refine ⟨{ ht.objects with }, fun hk => ⟨fun c _ hc => (ht.safe hk).batch c trivial ?_, (ht.safe hk).borrowed,
        (ht.safe hk).watched⟩⟩
      rw [hsame, hactive]
      exact List.mem_cons_of_mem _ hc
  | user s => exact (h.moves (owning_script s) trivial).mono (fun _ _ ht => ht.1) fun _ _ he => he
  | newConnection => cases ha
  | send => cases ha
  | handleRead => cases ha
  | handleWrite => cases ha
  | handleClose => cases ha

/-- **Every dispatch is on an owned channel**: as long as user code keeps what it must, no step of the loop
reads an object that is gone, be it in `poll`, in `handleEvents` or in a handler. -/
theorem dispatch_owned (ipPort : Name) (listenFd timerFd : Fd) (w : World)
    (h : Run step (fun _ a => a.ofLoop = true) (World.init ipPort listenFd timerFd) w) (a : Act) (ha : a.ofLoop = true)
    (e : Fault) (t : World) (he : step a w = .error e t) (hk : ∀ ev ∈ t.trace, ev.Kept) : e ≠ .useAfterFree := by
  have safe := h.invariant (loopSafe_init ..) fun s a hs ha => (step_safe hs a ha).mono (fun _ _ ht => ht) fun _ _ _ => trivial
  exact (ensures_error he).1 (step_safe safe a ha) hk

/-- Two clients connect and the UP callback of the first keeps a pointer, which goes after the first has hung up;
`::write` on the second fails. -/
theorem dispatch_owned_abort :
    ∃ w t, Run step (fun _ a => a.ofLoop = true) (World.init [] 3 4) w ∧ step (.dispatch {}) w = .error .abort t ∧
      .destroyed 0 false false false ∈ t.trace ∧ (∀ ev ∈ t.trace, ev.Kept) ∧ Fault.abort ≠ .useAfterFree := by
  obtain ⟨w, run, hw⟩ := Run.reaches step (fun _ a => a.ofLoop = true) (World.init [] 3 4)
    [.poll [(3, EPOLLIN)], .dispatch { clientfd := some 5, sock := some 6, up := .keep 0 .done },
      .poll [(3, EPOLLIN)], .dispatch { clientfd := some 7, sock := some 8, up := .send 1 [1, 2] (some 1) .done },
      .poll [(5, EPOLLHUP), (7, EPOLLOUT)], .dispatch {}, .user (.drop 0 .done)]
    (fun w => Ensures (step (.dispatch {})) w (fun _ _ => False)
      fun e t => e = .abort ∧ .destroyed 0 false false false ∈ t.trace ∧ ∀ ev ∈ t.trace, ev.Kept)
    (by decide +kernel) (by decide +kernel)
  obtain ⟨e, t, he, rfl, hgone, hk⟩ := hw.stops
  exact ⟨w, t, run, he, hgone, hk, dispatch_owned [] 3 4 w run _ rfl _ t he hk⟩

/-- A client connects and hangs up, and nobody keeps a pointer: `handleClose` erases the entry, and
`handleEvents` reads `revents_` of the channel that went with the connection. -/
theorem not_dispatch_owned_hup :
    ¬ ∀ (ipPort : Name) (listenFd timerFd : Fd) (w : World),
      Run step (fun _ a => a.ofLoop = true) (World.init ipPort listenFd timerFd) w → ∀ (a : Act), a.ofLoop = true →
      ∀ (e : Fault) (t : World), step a w = .error e t → e ≠ .useAfterFree := by
  intro owned
  obtain ⟨w, run, hw⟩ := Run.reaches step (fun _ a => a.ofLoop = true) (World.init [] 3 4)
    [.poll [(3, EPOLLIN)], .dispatch { clientfd := some 5, sock := some 6 }, .poll [(5, EPOLLHUP)]]
    (fun w => Ensures (step (.dispatch {})) w (fun _ _ => False) fun e _ => e = .useAfterFree)
    (by decide +kernel) (by decide +kernel)
  obtain ⟨e, t, he, huaf⟩ := hw.stops
  exact owned [] 3 4 w run _ rfl e t he huaf

end NetServer
