import NetServer.Tcp.Touch
/-!
# Connections, their owners and their descriptors

`Objects` holds in every state of every run: whoever owns a connection finds it alive, names and
descriptors are not shared, and the interest set holds for the descriptor of a live connection what its
channel says. `object_units` gives it for every handler, together with what a handler leaves in place
(`Within`): the pointers of the frames below it and the batch it is called from.
-/

namespace NetServer
open Exec

structure Objects (w : World) : Prop where
  allocated : ∀ c o, w.conns c = some o → c < w.nextConn
  indexed : w.nextConnIdx = w.nextConn + 1
  alive : ∀ c, w.owned c = true → (w.conns c).isSome
  named : ∀ c o, w.conns c = some o → o.name = TcpServer.connectionName w.ipPort (c + 1)
  entries : ∀ n c, (n, c) ∈ w.tcpConnections → n = TcpServer.connectionName w.ipPort (c + 1)
  opened : ∀ c o, w.conns c = some o → w.openFds o.socket = true ∧ w.openFds o.channel.fd = true
  apart : ∀ c d o x, w.conns c = some o → w.conns d = some x → o.socket ≠ x.channel.fd
  unshared : ∀ c d o x, w.conns c = some o → w.conns d = some x → c ≠ d →
    o.socket ≠ x.socket ∧ o.channel.fd ≠ x.channel.fd
  mirrors : ∀ c o, w.conns c = some o → Polled.Mirrors (.conn c) ⟨o.channel, w.interest⟩
  watched : ∀ f, (w.interest f).isSome → w.openFds f = true
  notShut : ∀ c o, w.conns c = some o → w.shutWr o.channel.fd = 0

theorem World.inMap_iff {w : World} {c : ConnId} : w.inMap c = true ↔ ∃ n, (n, c) ∈ w.tcpConnections := by
  simp [World.inMap]

theorem World.owned_iff {w : World} {c : ConnId} :
    w.owned c = true ↔ w.inMap c = true ∨ 0 < w.userRefs c ∨ c ∈ w.frames := by
  simp [World.owned, or_assoc]

/-- The kernel has handed out `fd`. -/
def World.opened (w : World) (fd : Fd) : World :=
  { w with openFds := Function.update w.openFds fd true, shutWr := Function.update w.shutWr fd 0 }

/-- The object `newConnection` makes. -/
def World.admittedConn (w : World) (clientfd sock : Fd) : TcpConnection :=
  { name := TcpServer.connectionName w.ipPort w.nextConnIdx, socket := sock, channel := Channel.new clientfd,
    connectState := .CONNECTING, inputBuffer := Buffer.new Buffer.InitSize, outputBuffer := Buffer.new Buffer.InitSize }

/-- The state in which `newConnection` calls `connectionEstablished`. -/
def World.admitted (w : World) (clientfd sock : Fd) : World :=
  { w with
    openFds := Function.update (Function.update w.openFds clientfd true) sock true
    shutWr := Function.update (Function.update w.shutWr clientfd 0) sock 0
    conns := Function.update w.conns w.nextConn (some (w.admittedConn clientfd sock))
    nextConn := w.nextConn + 1
    frames := w.nextConn :: w.frames
    nextConnIdx := w.nextConnIdx + 1
    trace := w.trace ++ [.constructed w.nextConn clientfd sock] }

/-! ## One change at a time -/

namespace Objects

variable {w : World} {c : ConnId} {o : TcpConnection}

theorem init (ipPort : Name) (listenFd timerFd : Fd) : Objects (World.init ipPort listenFd timerFd) where
  allocated := nofun
  indexed := rfl
  alive c h := by simp [World.owned, World.inMap, World.init] at h
  named := nofun
  entries := nofun
  opened := nofun
  apart := nofun
  unshared := nofun
  mirrors := nofun
  watched f h := by
    simp only [World.init] at h ⊢
    by_cases h1 : f = listenFd
    · simp [h1]
    · by_cases h2 : f = timerFd
      · simp [h2]
      · simp [h1, h2] at h
  notShut := nofun

/-- A change of one connection that keeps its name and descriptors. -/
theorem own (h : Objects w) (hc : w.conns c = some o) (o' : TcpConnection) (k : Interest ChannelPtr) (sh : Fd → Nat)
    (tr : List Event) (hname : o'.name = o.name) (hsocket : o'.socket = o.socket) (hfd : o'.channel.fd = o.channel.fd)
    (hm : Polled.Mirrors (.conn c) ⟨o'.channel, k⟩) (hk : ∀ f, f ≠ o.channel.fd → k f = w.interest f)
    (hs : ∀ f, f ≠ o.socket → sh f = w.shutWr f) :
    Objects { w.put c o' with interest := k, shutWr := sh, trace := tr } := by
  -- a connection of the new state has the name and the descriptors of one of the old state
  have old : ∀ d x, (w.put c o').conns d = some x → ∃ y, w.conns d = some y ∧ x.name = y.name ∧
      x.socket = y.socket ∧ x.channel.fd = y.channel.fd := by
    intro d x hx
    obtain ⟨rfl, rfl⟩ | ⟨_, hx⟩ := of_update_some hx
    · exact ⟨o, hc, hname, hsocket, hfd⟩
    · exact ⟨x, hx, rfl, rfl, rfl⟩
  refine ⟨fun d x hx => ?_, h.indexed, fun d hd => ?_, fun d x hx => ?_, h.entries, fun d x hx => ?_,
    fun d e x y hx hy => ?_, fun d e x y hx hy hde => ?_, fun d x hx => ?_, fun f hf => ?_, fun d x hx => ?_⟩
  · obtain ⟨y, hy, _⟩ := old d x hx
    exact h.allocated d y hy
  · have := h.alive d hd
    by_cases hdc : d = c
    · simp [World.put, hdc]
    · simpa [World.put, hdc] using this
  · obtain ⟨y, hy, hn, _⟩ := old d x hx
    rw [hn]; exact h.named d y hy
  · obtain ⟨y, hy, _, hs, hf⟩ := old d x hx
    rw [hs, hf]; exact h.opened d y hy
  · obtain ⟨x', hx', _, hs, _⟩ := old d x hx
    obtain ⟨y', hy', _, _, hf⟩ := old e y hy
    rw [hs, hf]; exact h.apart d e x' y' hx' hy'
  · obtain ⟨x', hx', _, hs, hf⟩ := old d x hx
    obtain ⟨y', hy', _, hs', hf'⟩ := old e y hy
    rw [hs, hf, hs', hf']; exact h.unshared d e x' y' hx' hy' hde
  · obtain ⟨rfl, rfl⟩ | ⟨hd, hx'⟩ := of_update_some hx
    · exact hm
    · have := h.mirrors d x hx'
      simp only [Polled.Mirrors] at this ⊢
      rw [hk _ (h.unshared d c x o hx' hc hd).2]; exact this
  · by_cases hfc : f = o.channel.fd
    · rw [hfc]; exact (h.opened c o hc).2
    · exact h.watched f (by rw [← hk f hfc]; exact hf)
  · obtain ⟨y, hy, _, _, hf⟩ := old d x hx
    simp only [hf]
    rw [hs _ (h.apart c d o y hc hy).symm]; exact h.notShut d y hy

/-- Owners change; every owned connection is still alive. -/
theorem owners (h : Objects w) (fs : List ConnId) (refs : ConnId → Nat) (map : List (Name × ConnId)) (tr : List Event)
    (halive : ∀ d, ({ w with frames := fs, userRefs := refs, tcpConnections := map } : World).owned d = true →
      (w.conns d).isSome)
    (hentries : ∀ n d, (n, d) ∈ map → n = TcpServer.connectionName w.ipPort (d + 1)) :
    Objects { w with frames := fs, userRefs := refs, tcpConnections := map, trace := tr } :=
  { h with alive := halive, entries := hentries }

/-- `~TcpConnection` of a connection without owners. -/
theorem destroyed (h : Objects w) (hc : w.conns c = some o) (hown : w.owned c = false) (tr : List Event) :
    Objects { w with
      conns := Function.update w.conns c none
      openFds := Function.update w.openFds o.socket false
      interest := Function.update w.interest o.socket none
      trace := tr } := by
  have old : ∀ d x, Function.update w.conns c none d = some x → d ≠ c ∧ w.conns d = some x := fun _ _ => of_update_none
  refine ⟨fun d x hx => h.allocated d x (old d x hx).2, h.indexed, fun d hd => ?_,
    fun d x hx => h.named d x (old d x hx).2, h.entries, fun d x hx => ?_,
    fun d e x y hx hy => h.apart d e x y (old d x hx).2 (old e y hy).2,
    fun d e x y hx hy => h.unshared d e x y (old d x hx).2 (old e y hy).2, fun d x hx => ?_, fun f hf => ?_,
    fun d x hx => h.notShut d x (old d x hx).2⟩
  · have hdc : d ≠ c := fun he => by
      subst he
      exact Bool.false_ne_true (hown.symm.trans hd)
    simpa [hdc] using h.alive d hd
  · obtain ⟨hdc, hx⟩ := old d x hx
    have h1 := (h.unshared d c x o hx hc hdc).1
    have h2 := (h.apart c d o x hc hx).symm
    simpa [h1, h2] using h.opened d x hx
  · obtain ⟨hdc, hx⟩ := old d x hx
    have := h.mirrors d x hx
    simp only [Polled.Mirrors] at this ⊢
    rw [Function.update_of_ne (h.apart c d o x hc hx).symm]; exact this
  · by_cases hfs : f = o.socket
    · subst hfs; simp at hf
    · simpa [hfs] using h.watched f (by simpa [hfs] using hf)

/-- The kernel hands out a number that is not open. -/
theorem opens (h : Objects w) {fd : Fd} (hfd : w.openFds fd = false) : Objects (w.opened fd) := by
  unfold World.opened
  have other : ∀ f, w.openFds f = true → f ≠ fd := fun f hf he => by simp [he, hfd] at hf
  refine { h with opened := fun d x hx => ?_, watched := fun f hf => ?_, notShut := fun d x hx => ?_ }
  · obtain ⟨h1, h2⟩ := h.opened d x hx
    simp [other _ h1, other _ h2, h1, h2]
  · simpa [other f (h.watched f hf)] using h.watched f hf
  · simpa [other _ (h.opened d x hx).2] using h.notShut d x hx

/-- `new TcpConnection` on a fresh descriptor, with the pointer `newConnection` keeps and the next index. -/
theorem admitted (h : Objects w) {clientfd sock : Fd} (hfd : w.openFds clientfd = false)
    (hsock : Function.update w.openFds clientfd true sock = false) : Objects (w.admitted clientfd sock) := by
  obtain ⟨o, ho⟩ : ∃ o, o = w.admittedConn clientfd sock := ⟨_, rfl⟩
  have hname : o.name = TcpServer.connectionName w.ipPort w.nextConnIdx := by rw [ho]; rfl
  have hsocket : o.socket = sock := by rw [ho]; rfl
  have hch : o.channel = Channel.new clientfd := by rw [ho]; rfl
  unfold World.admitted
  rw [← ho]
  have hne : sock ≠ clientfd := fun he => by simp [he] at hsock
  have hsock' : w.openFds sock = false := by simpa [hne] using hsock
  have hofd : o.channel.fd = clientfd := by rw [hch]; rfl
  have other : ∀ f, w.openFds f = true → f ≠ clientfd ∧ f ≠ sock := fun f hf =>
    ⟨fun he => by simp [he, hfd] at hf, fun he => by simp [he, hsock'] at hf⟩
  have hk : w.interest clientfd = none := by
    cases hi : w.interest clientfd with
    | none => rfl
    | some e => simpa [hfd] using h.watched clientfd (by simp [hi])
  have cases : ∀ d x, Function.update w.conns w.nextConn (some o) d = some x →
      (d = w.nextConn ∧ x = o) ∨ (d ≠ w.nextConn ∧ w.conns d = some x) := fun _ _ => of_update_some
  refine ⟨fun d x hx => ?_, congrArg (· + 1) h.indexed, fun d hd => ?_, fun d x hx => ?_, h.entries, fun d x hx => ?_,
    fun d e x y hx hy => ?_, fun d e x y hx hy hde => ?_, fun d x hx => ?_, fun f hf => ?_, fun d x hx => ?_⟩
  · rcases cases d x hx with ⟨rfl, _⟩ | ⟨_, hx'⟩
    · exact Nat.lt_succ_self _
    · exact Nat.lt_succ_of_lt (h.allocated d x hx')
  · by_cases hdn : d = w.nextConn
    · simp [hdn]
    · have : w.owned d = true := by
        rw [World.owned_iff] at hd ⊢
        exact hd.imp id (Or.imp id fun hm => (List.mem_cons.1 hm).resolve_left hdn)
      simpa [hdn] using h.alive d this
  · rcases cases d x hx with ⟨rfl, rfl⟩ | ⟨_, hx'⟩
    · simpa [h.indexed] using hname
    · exact h.named d x hx'
  · rcases cases d x hx with ⟨rfl, rfl⟩ | ⟨_, hx'⟩
    · simp [hsocket, hofd, hne.symm]
    · obtain ⟨h1, h2⟩ := h.opened d x hx'
      simp [h1, h2, other _ h1, other _ h2]
  · rcases cases d x hx with ⟨rfl, rfl⟩ | ⟨_, hx'⟩
    · rcases cases e y hy with ⟨rfl, rfl⟩ | ⟨_, hy'⟩
      · rw [hsocket, hofd]; exact hne
      · rw [hsocket]; exact (other _ (h.opened e y hy').2).2.symm
    · rcases cases e y hy with ⟨rfl, rfl⟩ | ⟨_, hy'⟩
      · rw [hofd]; exact (other _ (h.opened d x hx').1).1
      · exact h.apart d e x y hx' hy'
  · rcases cases d x hx with ⟨rfl, rfl⟩ | ⟨_, hx'⟩
    · rcases cases e y hy with ⟨rfl, rfl⟩ | ⟨_, hy'⟩
      · exact absurd rfl hde
      · rw [hsocket, hofd]
        exact ⟨(other _ (h.opened e y hy').1).2.symm, (other _ (h.opened e y hy').2).1.symm⟩
    · rcases cases e y hy with ⟨rfl, rfl⟩ | ⟨_, hy'⟩
      · rw [hsocket, hofd]
        exact ⟨(other _ (h.opened d x hx').1).2, (other _ (h.opened d x hx').2).1⟩
      · exact h.unshared d e x y hx' hy' hde
  · rcases cases d x hx with ⟨rfl, rfl⟩ | ⟨_, hx'⟩
    · simp [Polled.Mirrors, hch, Channel.new, hk]
    · exact h.mirrors d x hx'
  · obtain ⟨h1, h2⟩ := other f (h.watched f hf)
    simpa [h1, h2] using h.watched f hf
  · rcases cases d x hx with ⟨rfl, rfl⟩ | ⟨_, hx'⟩
    · simp [hofd, hne.symm]
    · obtain ⟨h1, h2⟩ := other _ (h.opened d x hx').2
      simpa [h1, h2] using h.notShut d x hx'

end Objects

/-! ## What a handler leaves in place -/

/-- The frames below with what their calls refer to, the batch and the name prefix are as before, and the trace only grew. -/
structure Within (s t : World) : Prop where
  ipPort : t.ipPort = s.ipPort
  frames : t.frames = s.frames
  borrowed : t.borrowed = s.borrowed
  active : t.activeChannels = s.activeChannels
  trace : s.trace <+: t.trace

theorem Within.after {s m t : World} (h : Within m t) (hm : Within s m) : Within s t :=
  ⟨h.ipPort.trans hm.ipPort, h.frames.trans hm.frames, h.borrowed.trans hm.borrowed, h.active.trans hm.active, hm.trace.trans h.trace⟩

theorem within_composes : Composes Within (fun (_ : Fault) s t => s.trace <+: t.trace) where
  refl _ := ⟨rfl, rfl, rfl, rfl, List.prefix_refl _⟩
  trans h h' := h'.after h
  later h h' := h.trace.trans h'

abbrev StaysWithin {α : Type} (x : M α) : Prop := Moves Anywhere Within (fun _ s t => s.trace <+: t.trace) x

theorem StaysWithin.bind {α β : Type} {x : M α} {f : α → M β} (hx : StaysWithin x) (hf : ∀ a, StaysWithin (f a)) :
    StaysWithin (x >>= f) := Moves.bind within_composes (fun _ h => h) hx hf

theorem Touched.within {c : ConnId} {s t : World} (h : Touched c s t) : Within s t := by
  cases h with
  | told htr => exact ⟨rfl, rfl, rfl, rfl, htr⟩
  | changed _ _ _ _ _ htr => exact ⟨rfl, rfl, rfl, rfl, htr⟩

theorem Touches.within {c : ConnId} {α : Type} {x : M α} (h : Touches c x) : StaysWithin x :=
  h.widen Touched.within TouchStop.trace

theorem emit_within (ev : Event) : StaysWithin (emit ev) := fun _ _ => ⟨rfl, rfl, rfl, rfl, List.prefix_append ..⟩

theorem withinReleases : Releases Within (fun _ s t => s.trace <+: t.trace) where
  toComposes := within_composes
  gone _ := List.prefix_refl _
  outside _ := List.prefix_refl _
  owners _ _ _ := ⟨rfl, rfl, rfl, rfl, List.prefix_refl _⟩
  destroyed _ := ⟨rfl, rfl, rfl, rfl, List.prefix_append ..⟩

theorem withPtr_within {P Q : World → Prop} (c : ConnId) (hpush : ∀ s, P s → Q { s with frames := c :: s.frames })
    {x : M Unit} (hx : Moves Q Within (fun _ s t => s.trace <+: t.trace) x) :
    Moves P Within (fun _ s t => s.trace <+: t.trace) (withPtr c x) := by
  intro s hs
  simp only [withPtr, ensures_bind, ensures_deref, ensures_modify]
  refine ⟨fun _ _ => ?_, fun _ => List.prefix_refl _⟩
  refine (hx _ (hpush s hs)).mono (fun _ t ht => ?_) fun _ t ht => ht
  refine (withinReleases.release c _ trivial).mono (fun _ u hu => ?_) fun _ u hu => ht.trace.trans hu
  exact ⟨hu.ipPort.trans ht.ipPort, hu.frames.trans (by simp [ht.frames]), hu.borrowed.trans ht.borrowed, hu.active.trans ht.active,
    ht.trace.trans hu.trace⟩

theorem withRef_within {P Q : World → Prop} (c : ConnId) (hpush : ∀ s, P s → Q { s with borrowed := c :: s.borrowed })
    {x : M Unit} (hx : Moves Q Within (fun _ s t => s.trace <+: t.trace) x) :
    Moves P Within (fun _ s t => s.trace <+: t.trace) (withRef c x) := by
  intro s hs
  simp only [withRef, ensures_bind, ensures_modify]
  refine (hx _ (hpush s hs)).mono (fun _ t ht => ?_) fun _ t ht => ht
  exact ⟨ht.ipPort, ht.frames, by simp [ht.borrowed], ht.active, ht.trace⟩

theorem onTimers_within {α : Type} {x : Timers.M α} (hx : Timers.Contained x) : StaysWithin (onTimers x) :=
  onTimers_moves (fun _ _ _ => ⟨rfl, rfl, rfl, rfl, List.prefix_refl _⟩) (fun _ _ => List.prefix_refl _) hx

theorem openFd_within (fd : Fd) : StaysWithin (openFd fd) := by
  intro s _
  simp only [openFd, ensures_bind, ensures_get, ensures_ite, ensures_throw, ensures_set]
  exact ⟨fun _ => List.prefix_refl _, fun _ => ⟨rfl, rfl, rfl, rfl, List.prefix_refl _⟩⟩

theorem withinUnits : Units (fun _ => Anywhere) Within (fun _ s t => s.trace <+: t.trace) :=
  units_of_touches within_composes (fun _ _ => trivial) (fun _ _ hx => hx.within) (fun c _ hx => withPtr_within c (fun _ h => h) hx)
    withinReleases.eraseOwn

theorem newConnection_within (clientfd sock : Fd) {up : M Unit} (hu : StaysWithin up) :
    StaysWithin (do openFd clientfd; TcpServer.newConnection clientfd (some sock) up) := by
  refine (openFd_within _).bind fun _ => StaysWithin.bind (.get within_composes) fun w => StaysWithin.bind ?_ fun c =>
    withPtr_within c (fun _ h => h) (StaysWithin.bind ?_ fun _ =>
      StaysWithin.bind (withinUnits.connectionEstablished c hu) fun _ =>
        (emit_within _).bind fun _ => withinReleases.assignEntry _ c)
  · simp only [TcpServer.construct, Sockets.new, bind_assoc, pure_bind]
    refine (openFd_within sock).bind fun _ s _ => ?_
    simp only [ensures_bind, ensures_get, ensures_set, ensures_emit, ensures_pure]
    exact ⟨rfl, rfl, rfl, rfl, List.prefix_append ..⟩
  · intro s _
    simp only [TcpServer.bumpConnIdx, ensures_bind, ensures_get, ensures_ite, ensures_throw, ensures_set]
    exact ⟨fun _ => List.prefix_refl _, fun _ => ⟨rfl, rfl, rfl, rfl, List.prefix_refl _⟩⟩

theorem withinParts : Parts Within (fun _ s t => s.trace <+: t.trace) :=
  parts_of_touches withinUnits (fun _ => List.prefix_refl _) (fun _ _ hx => hx.within) (fun _ => List.prefix_refl _) openFd_within
    (fun c _ hx => withRef_within c (fun _ h => h) hx) (fun c => (withinReleases.keepPtr c).weaken fun _ _ => trivial)
    withinReleases.dropPtr (fun x => onTimers_within (Timers.contained_call x)) fun clientfd sock _ hu =>
      newConnection_within clientfd sock hu

theorem timingRead_within (inp : EventInput) :
    StaysWithin (TimerQueue.handleTimingRead inp.curr (fun t => (inp.callback t).run) inp.now) :=
  withinParts.timingRead onTimers_within (fun _ _ => emit_within _) inp

/-! ## Every handler keeps the objects in order -/

abbrev KeepsObjects {α : Type} (x : M α) : Prop := Keeps Objects (· = .outside) x

/-- A write to the object that leaves its registration alone. -/
theorem Objects.put {w : World} {c : ConnId} {o : TcpConnection} (h : Objects w) (hc : w.conns c = some o)
    (o' : TcpConnection) (hname : o'.name = o.name) (hsocket : o'.socket = o.socket)
    (hfd : o'.channel.fd = o.channel.fd) (hevents : o'.channel.events = o.channel.events)
    (hstatus : o'.channel.status = o.channel.status) : Objects (w.put c o') := by
  refine h.own hc o' w.interest w.shutWr w.trace hname hsocket hfd ?_ (fun _ _ => rfl) fun _ _ => rfl
  simpa [Polled.Mirrors, hfd, hevents, hstatus] using h.mirrors c o hc

theorem Touched.objects {c : ConnId} {s t : World} (h : Touched c s t) (hs : Objects s) : Objects t := by
  cases h with
  | told => exact { hs with }
  | changed hc hid hm hk hsh => exact hs.own hc _ _ _ _ hid.name hid.socket hid.fd (hm (hs.mirrors _ _ hc)) hk hsh

theorem Touches.objects {c : ConnId} {α : Type} {x : M α} (h : Touches c x) : KeepsObjects x :=
  h.widen Touched.objects fun hstop he => (hstop.outside he).objects

theorem emit_objects (ev : Event) : KeepsObjects (emit ev) := .intro fun _ h => { h with }

theorem release_objects (c : ConnId) : KeepsObjects (release c) := by
  refine .intro fun s h => ensures_release.2 ⟨fun _ => h, fun hown => ⟨fun o hc => ?_, fun _ he => by cases he⟩⟩
  exact h.destroyed hc hown _

theorem owned_pushFrame {w : World} (h : Objects w) {c : ConnId} (hc : (w.conns c).isSome) :
    Objects { w with frames := c :: w.frames } := by
  refine h.owners (c :: w.frames) w.userRefs w.tcpConnections w.trace (fun d hd => ?_) h.entries
  by_cases hdc : d = c
  · rw [hdc]; exact hc
  · refine h.alive d ?_
    rw [World.owned_iff] at hd ⊢
    exact hd.imp id (Or.imp id fun hm => (List.mem_cons.1 hm).resolve_left hdc)

theorem owned_popFrame {w : World} (h : Objects w) (c : ConnId) : Objects { w with frames := w.frames.erase c } := by
  refine h.owners (w.frames.erase c) w.userRefs w.tcpConnections w.trace (fun d hd => h.alive d ?_) h.entries
  rw [World.owned_iff] at hd ⊢
  exact hd.imp id (Or.imp id List.mem_of_mem_erase)

theorem withPtr_objects {P Q : World → Prop} (c : ConnId) (hpush : ∀ s, P s → Q { s with frames := c :: s.frames })
    {x : M Unit} (hx : Moves Q (fun s t => Objects s → Objects t) (fun e s t => e = Fault.outside → Objects s → Objects t) x) :
    Moves P (fun s t => Objects s → Objects t) (fun e s t => e = Fault.outside → Objects s → Objects t) (withPtr c x) := by
  intro s hs
  simp only [withPtr, ensures_bind, ensures_deref, ensures_modify]
  refine ⟨fun o hc => ?_, fun _ he => by cases he⟩
  have push : Objects s → Objects { s with frames := c :: s.frames } := fun h => owned_pushFrame h (by simp [hc])
  refine (hx _ (hpush s hs)).mono (fun _ t ht => ?_) fun _ _ ht he h => ht he (push h)
  exact (release_objects c _ trivial).mono (fun _ _ hu h => hu (owned_popFrame (ht (push h)) c))
    fun _ _ hu he h => hu he (owned_popFrame (ht (push h)) c)

/-- What is borrowed owns nothing. -/
theorem withRef_objects {P Q : World → Prop} (c : ConnId) (hpush : ∀ s, P s → Q { s with borrowed := c :: s.borrowed })
    {x : M Unit} (hx : Moves Q (fun s t => Objects s → Objects t) (fun e s t => e = Fault.outside → Objects s → Objects t) x) :
    Moves P (fun s t => Objects s → Objects t) (fun e s t => e = Fault.outside → Objects s → Objects t) (withRef c x) := by
  intro s hs
  simp only [withRef, ensures_bind, ensures_modify]
  exact (hx _ (hpush s hs)).mono (fun _ _ ht h => { ht { h with } with }) fun _ _ ht he h => ht he { h with }

theorem onTimers_objects {α : Type} {x : Timers.M α} (hx : Timers.Contained x) : KeepsObjects (onTimers x) :=
  onTimers_moves (fun _ _ _ h => { h with }) (fun _ _ _ h => { h with }) hx

theorem eraseEntry_objects (name : Name) : KeepsObjects (eraseEntry name) := by
  refine .intro fun s h => ?_
  simp only [eraseEntry, ensures_bind, ensures_get]
  split
  · exact h
  · simp only [ensures_bind, ensures_set]
    refine (release_objects _).from (h.owners s.frames s.userRefs _ s.trace (fun d hd => h.alive d ?_)
      fun n d hm => h.entries n d (List.mem_filter.1 hm).1)
    rw [World.owned_iff] at hd ⊢
    refine hd.imp (fun hm => ?_) id
    rw [World.inMap_iff] at hm ⊢
    obtain ⟨n, hm⟩ := hm
    exact ⟨n, (List.mem_filter.1 hm).1⟩

theorem connectionName_inj {ipPort : Name} {i j : Nat}
    (h : TcpServer.connectionName ipPort i = TcpServer.connectionName ipPort j) : i = j := by
  have digits := (List.cons.inj (List.append_cancel_left h)).2
  rw [← Nat.ofDigitChars_ten_toDigits (n := i), digits, Nat.ofDigitChars_ten_toDigits]

theorem mem_of_lookup {l : List (Name × ConnId)} {n : Name} {c : ConnId} (h : l.lookup n = some c) : (n, c) ∈ l := by
  obtain ⟨l₁, l₂, rfl, _⟩ := List.lookup_eq_some_iff.1 h
  simp

/-- An entry under the name that belongs to a connection is the connection's own. -/
theorem Objects.entry_own {w : World} (h : Objects w) {c d : ConnId}
    (hd : (TcpServer.connectionName w.ipPort (c + 1), d) ∈ w.tcpConnections) : d = c :=
  Nat.succ.inj (connectionName_inj (h.entries _ _ hd)).symm

/-- `tcpConnections_[name] = connection` for a connection under its own name. -/
def World.assigned (w : World) (c : ConnId) : World :=
  { w with tcpConnections := (TcpServer.connectionName w.ipPort (c + 1), c) ::
      w.tcpConnections.filter (·.1 != TcpServer.connectionName w.ipPort (c + 1)) }

/-- The state in which `newConnection` returns, from the one in which `connectionEstablished` did. -/
def World.entered (w : World) (c : ConnId) : World :=
  { w.assigned c with frames := w.frames.erase c, trace := w.trace ++ [.established c] }

theorem Objects.entered {w : World} (h : Objects w) {c : ConnId} (hc : (w.conns c).isSome) : Objects (w.entered c) := by
  refine h.owners (w.frames.erase c) w.userRefs _ (w.trace ++ [.established c]) (fun d hd => ?_) fun n d hm => ?_
  · rw [World.owned_iff, World.inMap_iff] at hd
    obtain ⟨n, hm⟩ | hd := hd
    · obtain he | hm := List.mem_cons.1 hm
      · cases he; exact hc
      · exact h.alive d (World.owned_iff.2 (.inl (World.inMap_iff.2 ⟨n, (List.mem_filter.1 hm).1⟩)))
    · exact h.alive d (World.owned_iff.2 (.inr (hd.imp id List.mem_of_mem_erase)))
  · obtain he | hm := List.mem_cons.1 hm
    · cases he; rfl
    · exact h.entries n d (List.mem_filter.1 hm).1

/-- `tcpConnections_[name] = connection` and the end of the frame: an entry it replaces is the connection's
own, and the map owns it, so that nothing is destroyed. -/
theorem assignEntry_run {w : World} (h : Objects w) (c : ConnId) {Q : Unit → World → Prop} {E : Fault → World → Prop}
    (hq : Q () (w.entered c)) :
    Ensures (assignEntry (TcpServer.connectionName w.ipPort (c + 1)) c) { w with trace := w.trace ++ [.established c] }
      (fun _ t => Ensures (release c) { t with frames := t.frames.erase c } Q E) E := by
  have owned : ∀ fs tr, ({ w.assigned c with frames := fs, trace := tr } : World).owned c = true := fun _ _ =>
    World.owned_iff.2 (.inl (World.inMap_iff.2 ⟨_, List.mem_cons_self ..⟩))
  simp only [assignEntry, ensures_bind, ensures_get, ensures_set]
  split
  · exact release_owned (owned _ _) hq
  · rename_i old hold
    obtain rfl := h.entry_own (mem_of_lookup hold)
    exact release_owned (owned _ _) (release_owned (owned _ _) hq)

theorem openFd_objects (fd : Fd) : KeepsObjects (openFd fd) := by
  refine .intro fun s h => ?_
  simp only [openFd, ensures_bind, ensures_get, ensures_ite, ensures_throw, ensures_set]
  exact ⟨fun _ _ => h, fun hfd => h.opens (by simpa using hfd)⟩

theorem setReturnEvents_objects (p : ChannelPtr) (mask : Mask) : KeepsObjects (setReturnEvents p mask) := by
  refine .intro fun s h => ?_
  cases p with
  | acceptor => exact { h with }
  | timer => exact { h with }
  | conn c =>
    simp only [setReturnEvents, ensures_bind, ensures_deref, ensures_store]
    exact ⟨fun o hc => h.put hc _ rfl rfl rfl rfl rfl, fun _ he => by cases he⟩

theorem keepPtr_objects (c : ConnId) :
    Moves (Pointed c) (fun s t => Objects s → Objects t) (fun e s t => e = Fault.outside → Objects s → Objects t)
      (keepPtr c) := by
  intro s hp h
  refine h.owners s.frames (Function.update s.userRefs c (s.userRefs c + 1)) s.tcpConnections s.trace (fun d hd => h.alive d ?_) h.entries
  rw [World.owned_iff] at hd ⊢
  by_cases hdc : d = c
  · rw [hdc]; exact .inr hp
  · exact hd.imp id (Or.imp (fun hr => by simpa [hdc] using hr) id)

theorem dropPtr_objects (c : ConnId) : KeepsObjects (dropPtr c) := by
  refine .intro fun s h => ?_
  simp only [dropPtr, ensures_bind, ensures_get, ensures_ite, ensures_throw, ensures_set]
  refine ⟨fun _ _ => h, fun hpos => (release_objects c).from (h.owners s.frames _ s.tcpConnections s.trace
    (fun d hd => h.alive d ?_) h.entries)⟩
  rw [World.owned_iff] at hd ⊢
  by_cases hdc : d = c
  · subst hdc; exact .inr (.inl (Nat.pos_of_ne_zero hpos))
  · exact hd.imp id (Or.imp (fun hr => by simpa [hdc] using hr) id)

theorem objectUnits : Units (fun _ => Anywhere) (fun s t => Objects s → Objects t)
    (fun e s t => e = Fault.outside → Objects s → Objects t) :=
  units_of_touches (composes_invariant Objects (· = Fault.outside)) (fun _ _ => trivial) (fun _ _ hx => hx.objects)
    (fun c _ hx => withPtr_objects c (fun _ h => h) hx) fun c => (deref_touches c).objects.bind fun o => eraseEntry_objects o.name

/-- **`newConnection`** where the kernel can serve it and the index does not overflow: `connectionEstablished` on
the new object, owned by its frame, and then its entry in the map. -/
theorem newConnection_spec {s : World} (h : Objects s) (clientfd sock : Fd) {up : M Unit} (hw : StaysWithin up)
    (ho : KeepsObjects up) {Q : Unit → World → Prop} {E : Fault → World → Prop} (hbusy : E .outside s)
    (hbusy' : s.openFds clientfd = false → E .outside (s.opened clientfd))
    (hover : ∀ w, w.trace = (s.admitted clientfd sock).trace → E .overflow w)
    (hrun : s.openFds clientfd = false → Function.update s.openFds clientfd true sock = false →
      Objects (s.admitted clientfd sock) → Ensures (TcpConnection.connectionEstablished s.nextConn up)
      (s.admitted clientfd sock) (fun _ t => Objects t → Within (s.admitted clientfd sock) t →
        Q () (t.entered s.nextConn)) E) :
    Ensures (do openFd clientfd; TcpServer.newConnection clientfd (some sock) up) s Q E := by
  simp only [TcpServer.newConnection, TcpServer.construct, Sockets.new, TcpServer.bumpConnIdx, openFd, withPtr, ensures_bind,
    ensures_get, ensures_ite, ensures_throw, ensures_set, ensures_pure, ensures_deref, ensures_modify, ensures_emit]
  refine ⟨fun _ => hbusy, fun hfd => ?_⟩
  have hfd : s.openFds clientfd = false := by simpa using hfd
  refine ⟨fun _ => hbusy' hfd, fun hsock => ?_⟩
  have hsock : Function.update s.openFds clientfd true sock = false := by simpa using hsock
  refine ⟨fun o hc => ⟨fun _ => hover _ rfl, fun _ => ?_⟩, fun hc => by simp at hc⟩
  have hadm := h.admitted hfd hsock
  have run := ((hrun hfd hsock hadm).and (Keeps.from (objectUnits.connectionEstablished s.nextConn ho)
    hadm)).and (withinUnits.connectionEstablished s.nextConn hw _ trivial)
  refine run.mono ?_ fun _ _ ht => ht.1.1
  rintro _ t ⟨⟨hq, ht⟩, hin⟩
  have hip : t.ipPort = s.ipPort := hin.ipPort
  rw [h.indexed, ← hip]
  exact assignEntry_run ht s.nextConn (hq ht hin)

theorem newConnection_objects (clientfd sock : Fd) {up : M Unit} (ho : KeepsObjects up) (hw : StaysWithin up) :
    KeepsObjects (do openFd clientfd; TcpServer.newConnection clientfd (some sock) up) := by
  refine .intro fun s h => newConnection_spec h clientfd sock hw ho (fun _ => h) (fun hfd _ => h.opens hfd)
    (fun _ _ he => by cases he) fun _ _ hadm => ?_
  have run := Keeps.from (objectUnits.connectionEstablished s.nextConn ho) hadm
  refine run.mono (fun _ t _ ht hin => ?_) fun _ _ ht => ht
  exact ht.entered (ht.alive s.nextConn (World.owned_iff.2 (.inr (.inr (by simp [hin.frames, World.admitted])))))

/-- What a handler leaves in place, and the objects in order. -/
theorem objectParts : Parts (fun s t => Within s t ∧ (Objects s → Objects t))
    (fun e s t => s.trace <+: t.trace ∧ (e = Fault.outside → Objects s → Objects t)) :=
  withinParts.and (parts_of_touches objectUnits (fun _ _ h => h) (fun _ _ hx => hx.objects) (fun _ he => by cases he) openFd_objects
    (fun c _ hx => withRef_objects c (fun _ h => h) hx) keepPtr_objects dropPtr_objects
    (fun x => onTimers_objects (Timers.contained_call x)) fun clientfd sock up hu =>
      newConnection_objects clientfd sock hu (withinParts.script up))

theorem report_objects (p : ChannelPtr) (mask : Mask) : KeepsObjects (do
    setReturnEvents p mask
    emit (.reported p)
    modify fun w => { w with activeChannels := w.activeChannels ++ [p] }) :=
  (setReturnEvents_objects p mask).bind fun _ => (emit_objects _).bind fun _ => .intro fun _ h => { h with }

theorem step_objects (a : Act) : KeepsObjects (step a) :=
  objectParts.step_moves (composes_invariant _ _) And.right id And.right report_objects (fun _ _ h => { h with })
    (fun inp => (objectParts.timingRead (fun hx => (onTimers_within hx).and (onTimers_objects hx))
      (fun _ _ => (emit_within _).and (emit_objects _)) inp).right) a

theorem Visited.objects {ipPort : Name} {listenFd timerFd : Fd} {w : World} (h : Visited ipPort listenFd timerFd w) :
    Objects w := h.invariant (.init ..) step_objects

end NetServer
