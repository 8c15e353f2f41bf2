import NetServer.Tcp.Objects
/-!
# What the code does to the state, one effect at a time

Every step of the loop, of a handler or of user code is a chain of atomic effects (`step_chains`), and between two
effects the state is as a callback can see it. A property of all states that are visited is then one case analysis
on `Effect` (`Visited.effects`).

| effect | there |
| --- | --- |
| `own`                             | a call that changes one connection (`Own`) |
| `shut`                            | the end of `shutdown()`, `::shutdown(SHUT_WR)` included |
| `removal`                         | `removeConnection` up to the DOWN callback: the entry goes, and a connected connection goes down |
| `owners`, `destroyed`             | a `TcpConnectionPtr`, or a reference to one, comes or goes, the last one goes |
| `timers`                          | a call on the timers, or one part of `handleTimingRead` |
| `opened`, `made`, `entered`       | `newConnection` up to its UP callback, and what it does after `connectionEstablished` |
| `reported`, `handled`             | the loop's own bookkeeping |
-/

namespace NetServer
open Exec

/-- An event that goes with no change of the state. -/
def Event.plain : Event → Bool
  | .send .. | .written .. | .read .. | .messageCallback _ | .taken .. | .shutdown .. | .handleWrite .. | .accept4 _
  | .socketFailed | .timingRead .. => true
  | _ => false

namespace TcpConnection

/-- After `setConnectState(DISCONNECTED)` and `diabledAllEvents()`. -/
def goneDown (o : TcpConnection) : TcpConnection :=
  { o with connectState := .DISCONNECTED, channel := o.channel.set fun _ => Channel.NoEvent }

/-- After `removeConnection`, up to its DOWN callback. -/
def parted (o : TcpConnection) : TcpConnection := if o.connectState = .CONNECTED then o.goneDown else o

/-- What is recorded of it. -/
def parting (c : ConnId) (o : TcpConnection) : List Event :=
  if o.connectState = .CONNECTED then [.setConnectState c .CONNECTED .DISCONNECTED, .connectionCallback c false] else []

end TcpConnection

/-- What a call can make of one connection, and what is recorded of it. -/
inductive Own (c : ConnId) (waiting : Bool) (o : TcpConnection) : TcpConnection → List Event → Prop where
  /-- `send` keeps bytes back. -/
  | queued {b : Buffer} (hb : b.Inv) (hr : b.readable ≠ []) : Own c waiting o
      { o with outputBuffer := b, channel := if o.channel.isWriting then o.channel else o.channel.set (· ||| EPOLLOUT) }
      [.queued c o.connectState]
  /-- `handleWrite` gets some bytes out … -/
  | wrote {b : Buffer} (hw : o.channel.isWriting = true) (hb : b.Inv) (hr : b.readable ≠ []) :
      Own c waiting o { o with outputBuffer := b } []
  /-- … or all of them. -/
  | drained {b : Buffer} (hw : o.channel.isWriting = true) (hb : b.Inv) (hr : b.readable = []) :
      Own c waiting o { o with outputBuffer := b, channel := o.channel.set (· &&& ~~~EPOLLOUT) } []
  | input {b : Buffer} (hb : b.Inv) : Own c waiting o { o with inputBuffer := b } []
  | removed (hidle : o.channel.isNoneEvent = true) :
      Own c waiting o { o with channel := { o.channel with status := .NEW } } [.remove c true waiting]
  /-- `handleClose`, up to its DOWN callback. -/
  | down : Own c waiting o o.goneDown [.setConnectState c o.connectState .DISCONNECTED, .connectionCallback c false]

namespace World

/-- One connection changes, and its registration with it. -/
def own (w : World) (c : ConnId) (o : TcpConnection) (tr : List Event) : World :=
  { w.put c o with
    interest := Function.update w.interest o.channel.fd (o.channel.registration (.conn c))
    trace := tr }

/-- `newConnection` up to its UP callback. -/
def made (w : World) (clientfd sock : Fd) : World :=
  (w.admitted clientfd sock).own w.nextConn
    { w.admittedConn clientfd sock with connectState := .CONNECTED, channel := (Channel.new clientfd).set (· ||| EPOLLIN) }
    (w.trace ++ [.constructed w.nextConn clientfd sock, .setConnectState w.nextConn .CONNECTING .CONNECTED,
      .connectionCallback w.nextConn true])

/-- `setReturnEvents(mask)`. -/
def withReturnEvents (w : World) (p : ChannelPtr) (mask : Mask) : World :=
  match p with
  | .acceptor => { w with acceptChannel := { w.acceptChannel with revents := mask } }
  | .timer => { w with timerChannel := { w.timerChannel with revents := mask } }
  | .conn c =>
    { w with
      conns := Function.update w.conns c
        ((w.conns c).map fun o => { o with channel := { o.channel with revents := mask } }) }

end World

/-- One effect; what only the loop does, and no user code, asks for `loop`. -/
inductive Effect (loop : Bool) : World → World → Prop where
  | told {s : World} {ev : Event} (hev : ev.plain = true) : Effect loop s { s with trace := s.trace ++ [ev] }
  | own {s : World} {c : ConnId} {o o' : TcpConnection} {evs tr : List Event} (hc : s.conns c = some o)
      (h : Own c (s.waiting c) o o' evs) (htr : tr = s.trace ++ evs) : Effect loop s (s.own c o' tr)
  | shut {s : World} {c : ConnId} {o : TcpConnection} {tr : List Event} (hc : s.conns c = some o)
      (hst : o.connectState ≠ .CONNECTED) (hw : o.channel.isWriting = false)
      (htr : tr = s.trace ++ [.setConnectState c o.connectState .DISCONNECTING, .shutWr c o.connectState true]) :
      Effect loop s { s.own c { o with connectState := .DISCONNECTING } tr with
        shutWr := Function.update s.shutWr o.socket (s.shutWr o.socket + 1) }
  | removal {s : World} {c : ConnId} {o : TcpConnection} {ev : Event} {tr : List Event} (hc : s.conns c = some o)
      (hev : ev = .closeCallback c ∧ loop = true ∨ ev = .removeConnection c)
      (htr : tr = s.trace ++ ev :: o.parting c) (hpointed : Pointed c s) :
      Effect loop s { s.own c o.parted tr with tcpConnections := s.tcpConnections.filter (·.1 != o.name) }
  | owners {s : World} {fs : List ConnId} {refs : ConnId → Nat} {bs : List ConnId}
      (halive : ∀ d, ({ s with frames := fs, userRefs := refs } : World).owned d = true → (s.conns d).isSome) :
      Effect loop s { s with frames := fs, userRefs := refs, borrowed := bs }
  | timers {s : World} {q : Timers.TimerQueue} (hq : s.timerQueue.Uncanceled → q.Uncanceled) :
      Effect loop s { s with timerQueue := q }
  | destroyed {s : World} {c : ConnId} {o : TcpConnection} (hc : s.conns c = some o) (hown : s.owned c = false) :
      Effect loop s (s.destroyed c o)
  | opened {s : World} {fd : Fd} (hl : loop = true) (hfd : s.openFds fd = false) : Effect loop s (s.opened fd)
  | made {s : World} {clientfd sock : Fd} (hl : loop = true) (hfd : s.openFds clientfd = false)
      (hsock : Function.update s.openFds clientfd true sock = false) : Effect loop s (s.made clientfd sock)
  | entered {s : World} {c : ConnId} (hl : loop = true) (hc : (s.conns c).isSome)
      (hnew : .established c ∉ s.trace ∧ .closeCallback c ∉ s.trace) : Effect loop s (s.entered c)
  | reported {s : World} {p : ChannelPtr} {mask : Mask} (hl : loop = true)
      (hlive : ∀ c, p = .conn c → (s.conns c).isSome) : Effect loop s { s.withReturnEvents p mask with
        trace := s.trace ++ [.reported p], activeChannels := s.activeChannels ++ [p] }
  | handled {s : World} {p : ChannelPtr} {l : List ChannelPtr} (hl : loop = true) (hactive : s.activeChannels = p :: l) :
      Effect loop s { s with activeChannels := l }

/-! ## Every effect keeps the state well formed -/

/-- Objects in order, sound buffers, and no close or end of `newConnection` of a connection to come. -/
structure WellFormed (w : World) : Prop where
  objects : Objects w
  buffers : ∀ c o, w.conns c = some o → o.inputBuffer.Inv ∧ o.outputBuffer.Inv
  known : ∀ c, .established c ∈ w.trace ∨ .closeCallback c ∈ w.trace → c < w.nextConn

section
variable {c : ConnId} {waiting : Bool} {o o' : TcpConnection} {evs : List Event}

theorem Own.identity (h : Own c waiting o o' evs) : SameIdentity o o' := by
  cases h with
  | queued => exact ⟨rfl, rfl, by dsimp only; split <;> rfl⟩
  | _ => exact ⟨rfl, rfl, rfl⟩

/-- What is recorded of a connection's own change is neither its close nor its start. -/
theorem Own.quiet (h : Own c waiting o o' evs) (d : ConnId) : .established d ∉ evs ∧ .closeCallback d ∉ evs := by
  cases h <;> simp

theorem TcpConnection.parted_identity (o : TcpConnection) : SameIdentity o o.parted := by
  unfold TcpConnection.parted
  split
  · exact ⟨rfl, rfl, rfl⟩
  · exact ⟨rfl, rfl, rfl⟩

theorem TcpConnection.parting_quiet (o : TcpConnection) (c d : ConnId) :
    .established d ∉ o.parting c ∧ .closeCallback d ∉ o.parting c := by
  unfold TcpConnection.parting
  split <;> simp

end

namespace Objects

variable {s : World} {c : ConnId} {o o' : TcpConnection}

theorem own_effect (h : Objects s) (hc : s.conns c = some o) (hid : SameIdentity o o') (tr : List Event) (sh : Fd → Nat)
    (hs : ∀ f, f ≠ o.socket → sh f = s.shutWr f) : Objects { s.own c o' tr with shutWr := sh } := by
  refine h.own hc o' _ sh tr hid.name hid.socket hid.fd ?_ (fun f hf => ?_) hs
  · exact Function.update_self ..
  · exact Function.update_of_ne (by rw [hid.fd]; exact hf) ..

theorem made (h : Objects s) {clientfd sock : Fd} (hfd : s.openFds clientfd = false)
    (hsock : Function.update s.openFds clientfd true sock = false) : Objects (s.made clientfd sock) := by
  have hadm := h.admitted hfd hsock
  have hself : (s.admitted clientfd sock).conns s.nextConn = some (s.admittedConn clientfd sock) := Function.update_self ..
  have same : SameIdentity (s.admittedConn clientfd sock) { s.admittedConn clientfd sock with
      connectState := .CONNECTED, channel := (Channel.new clientfd).set (· ||| EPOLLIN) } := ⟨rfl, rfl, rfl⟩
  exact hadm.own_effect hself same _ _ fun _ _ => rfl

end Objects

section
variable {loop : Bool} {s t : World}

theorem Effect.objects (e : Effect loop s t) (h : Objects s) : Objects t := by
  cases e with
  | told => exact { h with }
  | own hc hown => exact h.own_effect hc hown.identity _ _ fun _ _ => rfl
  | @shut c o tr hc =>
    have same : SameIdentity o { o with connectState := .DISCONNECTING } := ⟨rfl, rfl, rfl⟩
    exact h.own_effect hc same tr (Function.update s.shutWr o.socket (s.shutWr o.socket + 1)) fun f hf => Function.update_of_ne hf ..
  | @removal c o ev tr hc hev htr =>
    have own := h.own_effect hc o.parted_identity tr s.shutWr fun _ _ => rfl
    refine own.owners s.frames s.userRefs (s.tcpConnections.filter (·.1 != o.name)) tr (fun d hd => own.alive d ?_)
      fun n d hm => h.entries n d (List.mem_filter.1 hm).1
    rw [World.owned_iff] at hd ⊢
    refine hd.imp (fun hm => ?_) id
    obtain ⟨n, hm⟩ := World.inMap_iff.1 hm
    exact World.inMap_iff.2 ⟨n, (List.mem_filter.1 hm).1⟩
  | owners halive => exact { h.owners _ _ _ s.trace halive h.entries with }
  | timers => exact { h with }
  | destroyed hc hown => exact h.destroyed hc hown _
  | opened _ hfd => exact h.opens hfd
  | made _ hfd hsock => exact h.made hfd hsock
  | entered _ hc => exact h.entered hc
  | @reported p mask _ hlive =>
    cases p with
    | acceptor => exact { h with }
    | timer => exact { h with }
    | conn c =>
      obtain ⟨o, hc⟩ := Option.isSome_iff_exists.1 (hlive c rfl)
      have := h.put hc { o with channel := { o.channel with revents := mask } } rfl rfl rfl rfl rfl
      simp only [World.withReturnEvents, hc, Option.map_some]
      exact { this with }
  | handled => exact { h with }

/-- What is recorded stays recorded. -/
theorem Effect.trace (e : Effect loop s t) : s.trace <+: t.trace := by
  cases e with
  | own _ _ htr => exact ⟨_, htr.symm⟩
  | shut _ _ _ htr => exact ⟨_, htr.symm⟩
  | removal _ _ htr => exact ⟨_, htr.symm⟩
  | @reported p => cases p <;> exact List.prefix_append ..
  | told => exact List.prefix_append ..
  | destroyed => exact List.prefix_append ..
  | made => exact List.prefix_append ..
  | entered => exact List.prefix_append ..
  | owners => exact List.prefix_refl _
  | timers => exact List.prefix_refl _
  | opened => exact List.prefix_refl _
  | handled => exact List.prefix_refl _

theorem Effect.ipPort (e : Effect loop s t) : t.ipPort = s.ipPort := by
  cases e with
  | @reported p => cases p <;> rfl
  | _ => rfl

/-- A property of single connections, from the changes of one connection. -/
structure OwnInvariant (K : TcpConnection → Prop) : Prop where
  own : ∀ {c waiting o o' evs}, Own c waiting o o' evs → K o → K o'
  shut : ∀ {o}, o.connectState ≠ .CONNECTED → o.channel.isWriting = false → K o → K { o with connectState := .DISCONNECTING }
  reported : ∀ {o} mask, K o → K { o with channel := { o.channel with revents := mask } }
  made : ∀ name socket fd, K ⟨name, socket, (Channel.new fd).set (· ||| EPOLLIN), .CONNECTED, Buffer.new Buffer.InitSize,
    Buffer.new Buffer.InitSize⟩

theorem OwnInvariant.parted {K : TcpConnection → Prop} (h : OwnInvariant K) {o : TcpConnection} (ho : K o) : K o.parted := by
  unfold TcpConnection.parted
  split
  · have gone : Own 0 false o o.goneDown _ := .down
    exact h.own gone ho
  · exact ho

/-- **The rule for such a property**: it holds of every connection after the effect. -/
theorem Effect.connections {K : TcpConnection → Prop} (hK : OwnInvariant K) (e : Effect loop s t)
    (h : ∀ c o, s.conns c = some o → K o) (d : ConnId) (x : TcpConnection) (hx : t.conns d = some x) : K x := by
  cases e with
  | own hc hown =>
    obtain ⟨rfl, rfl⟩ | ⟨_, hx⟩ := of_update_some hx
    · exact hK.own hown (h _ _ hc)
    · exact h d x hx
  | shut hc hst hw =>
    obtain ⟨rfl, rfl⟩ | ⟨_, hx⟩ := of_update_some hx
    · exact hK.shut hst hw (h _ _ hc)
    · exact h d x hx
  | removal hc =>
    obtain ⟨rfl, rfl⟩ | ⟨_, hx⟩ := of_update_some hx
    · exact hK.parted (h _ _ hc)
    · exact h d x hx
  | destroyed => exact h d x (of_update_none hx).2
  | made =>
    obtain ⟨rfl, rfl⟩ | ⟨hd, hx⟩ := of_update_some hx
    · exact hK.made _ _ _
    · exact h d x ((of_update_some hx).resolve_left fun he => hd he.1).2
  | @reported p mask =>
    cases p with
    | acceptor => exact h d x hx
    | timer => exact h d x hx
    | conn c =>
      by_cases hd : d = c
      · subst hd
        obtain ⟨o, ho, rfl⟩ : ∃ o, s.conns d = some o ∧ { o with channel := { o.channel with revents := mask } } = x := by
          simpa [World.withReturnEvents] using hx
        exact hK.reported mask (h d o ho)
      · exact h d x (by simpa [World.withReturnEvents, hd] using hx)
  | told => exact h d x hx
  | owners => exact h d x hx
  | timers => exact h d x hx
  | opened => exact h d x hx
  | entered => exact h d x hx
  | handled => exact h d x hx

theorem ownInvariant_buffers : OwnInvariant fun o => o.inputBuffer.Inv ∧ o.outputBuffer.Inv where
  own hown h := by
    cases hown with
    | queued hb => exact ⟨h.1, hb⟩
    | wrote _ hb => exact ⟨h.1, hb⟩
    | drained _ hb => exact ⟨h.1, hb⟩
    | input hb => exact ⟨hb, h.2⟩
    | removed => exact h
    | down => exact h
  shut _ _ h := h
  reported _ h := h
  made _ _ _ := ⟨Buffer.inv_new (by decide) (by decide), Buffer.inv_new (by decide) (by decide)⟩

/-- Who has been closed or entered was made. -/
theorem Effect.known (e : Effect loop s t) (ho : Objects s)
    (h : ∀ c, .established c ∈ s.trace ∨ .closeCallback c ∈ s.trace → c < s.nextConn) (d : ConnId)
    (hd : .established d ∈ t.trace ∨ .closeCallback d ∈ t.trace) : d < t.nextConn := by
  cases e with
  | @told ev hev =>
    refine h d (hd.imp (fun hm => ?_) fun hm => ?_)
    · refine (List.mem_append.1 hm).resolve_right fun he => ?_
      simp [← List.mem_singleton.1 he, Event.plain] at hev
    · refine (List.mem_append.1 hm).resolve_right fun he => ?_
      simp [← List.mem_singleton.1 he, Event.plain] at hev
  | own hc hown htr =>
    subst htr
    refine h d (hd.imp (fun hm => ?_) fun hm => ?_)
    · exact (List.mem_append.1 hm).resolve_right (hown.quiet d).1
    · exact (List.mem_append.1 hm).resolve_right (hown.quiet d).2
  | shut _ _ _ htr => exact h d (by simpa [htr, World.own] using hd)
  | @removal c o ev tr hc hev htr =>
    have quiet := o.parting_quiet c d
    have hmade := ho.allocated c o hc
    obtain hm | hm := hd
    · obtain ⟨rfl, _⟩ | rfl := hev
      · exact h d (.inl (by simpa [htr, World.own, quiet.1] using hm))
      · exact h d (.inl (by simpa [htr, World.own, quiet.1] using hm))
    · obtain ⟨rfl, _⟩ | rfl := hev
      · obtain hm | rfl : .closeCallback d ∈ s.trace ∨ d = c := by simpa [htr, World.own, quiet.2] using hm
        · exact h d (.inr hm)
        · exact hmade
      · exact h d (.inr (by simpa [htr, World.own, quiet.2] using hm))
  | destroyed => exact h d (by simpa [World.destroyed] using hd)
  | made => exact Nat.lt_succ_of_lt (h d (by simpa [World.made, World.own] using hd))
  | @entered c _ hc =>
    obtain ⟨o, hc⟩ := Option.isSome_iff_exists.1 hc
    obtain hm | hm := hd
    · obtain hm | rfl : .established d ∈ s.trace ∨ d = c := by simpa [World.entered] using hm
      · exact h d (.inl hm)
      · exact ho.allocated d o hc
    · exact h d (.inr (by simpa [World.entered] using hm))
  | @reported p =>
    have := h d (by simpa using hd)
    cases p <;> exact this
  | owners => exact h d hd
  | timers => exact h d hd
  | opened => exact h d hd
  | handled => exact h d hd

theorem Effect.wellFormed (e : Effect loop s t) (h : WellFormed s) : WellFormed t :=
  ⟨e.objects h.objects, e.connections ownInvariant_buffers h.buffers, e.known h.objects h.known⟩

end

/-! ## One effect, seen from one connection -/

/-- What is recorded changes, starts or ends the connection. -/
def Event.touches (c : ConnId) : Event → Bool
  | .setConnectState d _ _ | .shutWr d _ _ | .queued d _ | .remove d _ _ | .connectionCallback d _ | .closeCallback d
  | .removeConnection d | .constructed d _ _ | .established d => d == c
  | _ => false

theorem Event.plain_touches {ev : Event} (h : ev.plain = true) (c : ConnId) : ev.touches c = false := by
  cases ev <;> simp_all [Event.plain, Event.touches]

/-- The connection `newConnection` has told its user about. -/
def World.madeConn (w : World) (clientfd sock : Fd) : TcpConnection :=
  { w.admittedConn clientfd sock with connectState := .CONNECTED, channel := (Channel.new clientfd).set (· ||| EPOLLIN) }

/-- What an effect is for the connection `c`: nothing but a new `revents_` mask perhaps, or one of five changes. -/
inductive View (c : ConnId) (s t : World) : Prop where
  | aside (evs : List Event) (hn : s.nextConn ≤ t.nextConn)
      (hobj : ∀ o, t.conns c = some o → ∃ x mask, s.conns c = some x ∧
        o = { x with channel := { x.channel with revents := mask } } ∧
        (mask = x.channel.revents ∨ .reported (.conn c) ∈ evs))
      (htr : t.trace = s.trace ++ evs) (hev : ∀ ev ∈ evs, ev.touches c = false) (hmap : t.inMap c = s.inMap c)
  | own {o o' : TcpConnection} {evs : List Event} (hc : s.conns c = some o) (h : Own c (s.waiting c) o o' evs)
      (hn : t.nextConn = s.nextConn) (ht : t.conns c = some o') (htr : t.trace = s.trace ++ evs)
      (hmap : t.inMap c = s.inMap c)
  | shut {o : TcpConnection} (hc : s.conns c = some o) (hst : o.connectState ≠ .CONNECTED)
      (hw : o.channel.isWriting = false) (hn : t.nextConn = s.nextConn)
      (ht : t.conns c = some { o with connectState := .DISCONNECTING })
      (htr : t.trace = s.trace ++ [.setConnectState c o.connectState .DISCONNECTING, .shutWr c o.connectState true])
      (hmap : t.inMap c = s.inMap c)
  | removal {o : TcpConnection} {ev : Event} (hc : s.conns c = some o)
      (hev : ev = .closeCallback c ∨ ev = .removeConnection c) (hn : t.nextConn = s.nextConn)
      (ht : t.conns c = some o.parted) (htr : t.trace = s.trace ++ ev :: o.parting c) (hmap : t.inMap c = false)
  | made {clientfd sock : Fd} (hc : s.nextConn = c) (hn : t.nextConn = s.nextConn + 1)
      (ht : t.conns c = some (s.madeConn clientfd sock))
      (htr : t.trace = s.trace ++ [.constructed c clientfd sock, .setConnectState c .CONNECTING .CONNECTED,
        .connectionCallback c true]) (hmap : t.inMap c = s.inMap c)
  | entered (hnew : .established c ∉ s.trace ∧ .closeCallback c ∉ s.trace) (hn : t.nextConn = s.nextConn)
      (ht : t.conns c = s.conns c) (htr : t.trace = s.trace ++ [.established c]) (hmap : t.inMap c = true)

section
variable {c d : ConnId} {o o' : TcpConnection} {evs : List Event}

theorem Own.touches {waiting : Bool} (h : Own d waiting o o' evs) (hd : d ≠ c) : ∀ ev ∈ evs, ev.touches c = false := by
  cases h <;> simp [Event.touches, hd]

theorem TcpConnection.parting_touches (o : TcpConnection) (hd : d ≠ c) : ∀ ev ∈ o.parting d, ev.touches c = false := by
  unfold TcpConnection.parting
  split <;> simp [Event.touches, hd]

end

/-- The entry under the name of a connection is the connection's entry. -/
theorem Objects.erase_name {w : World} (h : Objects w) (c : ConnId) :
    w.tcpConnections.filter (·.1 != TcpServer.connectionName w.ipPort (c + 1)) = w.tcpConnections.filter (·.2 != c) := by
  refine List.filter_congr fun e he => ?_
  obtain ⟨n, d⟩ := e
  have hn : n = TcpServer.connectionName w.ipPort (d + 1) := h.entries n d he
  rw [Bool.eq_iff_iff, bne_iff_ne, bne_iff_ne, hn]
  constructor
  · rintro hne rfl
    exact hne rfl
  · intro hne he
    exact hne (Nat.succ.inj (connectionName_inj he))

theorem inMap_erase {w : World} {c d : ConnId} :
    ({ w with tcpConnections := w.tcpConnections.filter (·.2 != c) } : World).inMap d = true ↔ d ≠ c ∧ w.inMap d = true := by
  simp only [World.inMap_iff, List.mem_filter, bne_iff_ne]
  constructor
  · rintro ⟨n, hm, hne⟩
    exact ⟨hne, n, hm⟩
  · rintro ⟨hne, n, hm⟩
    exact ⟨n, hm, hne⟩

theorem inMap_entered {w : World} (h : Objects w) (c d : ConnId) :
    (w.entered c).inMap d = true ↔ d = c ∨ d ≠ c ∧ w.inMap d = true := by
  rw [← inMap_erase]
  simp only [World.inMap, World.entered, World.assigned, h.erase_name c, List.any_cons, Bool.or_eq_true, beq_iff_eq,
    eq_comm (a := d)]

/-- **Every effect, seen from one connection.** -/
theorem Effect.view {loop : Bool} {s t : World} (e : Effect loop s t) (hs : WellFormed s) (c : ConnId) : View c s t := by
  have same : ∀ {w : World} (evs : List Event), w.conns c = s.conns c → s.nextConn ≤ w.nextConn → w.trace = s.trace ++ evs →
      (∀ ev ∈ evs, ev.touches c = false) → w.inMap c = s.inMap c → View c s w := fun evs hc hn htr hev hmap =>
    .aside evs hn (fun o ho => ⟨o, o.channel.revents, hc ▸ ho, rfl, .inl rfl⟩) htr hev hmap
  cases e with
  | @told ev hev => exact same [ev] rfl (Nat.le_refl _) rfl (by simpa using Event.plain_touches hev c) rfl
  | @own d o o' evs tr hc h htr =>
    by_cases hd : d = c
    · subst hd
      exact .own hc h rfl (Function.update_self ..) htr rfl
    · exact same evs (Function.update_of_ne (Ne.symm hd) ..) (Nat.le_refl _) htr (h.touches hd) rfl
  | @shut d o tr hc hst hw htr =>
    by_cases hd : d = c
    · subst hd
      exact .shut hc hst hw rfl (Function.update_self ..) htr rfl
    · exact same _ (Function.update_of_ne (Ne.symm hd) ..) (Nat.le_refl _) htr (by simp [Event.touches, hd]) rfl
  | @removal d o ev tr hc hev htr =>
    have erased := hs.objects.erase_name d
    rw [← hs.objects.named d o hc] at erased
    by_cases hd : d = c
    · subst hd
      refine .removal hc (hev.imp And.left id) rfl (Function.update_self ..) htr ?_
      rw [← Bool.not_eq_true]
      intro hin
      rw [erased] at hin
      exact (inMap_erase.1 hin).1 rfl
    · refine same _ (Function.update_of_ne (Ne.symm hd) ..) (Nat.le_refl _) htr (fun x hx => ?_) ?_
      · obtain rfl | hx := List.mem_cons.1 hx
        · obtain ⟨rfl, _⟩ | rfl := hev
          · simp [Event.touches, hd]
          · simp [Event.touches, hd]
        · exact o.parting_touches hd x hx
      · rw [erased, Bool.eq_iff_iff]
        exact inMap_erase.trans (and_iff_right (Ne.symm hd))
  | @destroyed d o hc =>
    refine .aside _ (Nat.le_refl _) (fun x hx => ⟨x, x.channel.revents, (of_update_none hx).2, rfl, .inl rfl⟩) rfl ?_ rfl
    simp [Event.touches]
  | @made clientfd sock =>
    by_cases hd : s.nextConn = c
    · subst hd
      exact .made rfl rfl (Function.update_self ..) rfl rfl
    · refine same _ ?_ (Nat.le_succ _) rfl (by simp [Event.touches, hd]) rfl
      simp [World.made, World.own, World.put, World.admitted, Ne.symm hd]
  | @entered d _ _ hnew =>
    by_cases hd : d = c
    · subst hd
      exact .entered hnew rfl rfl rfl ((inMap_entered hs.objects d d).2 (.inl rfl))
    · refine same [.established d] rfl (Nat.le_refl _) rfl (by simp [Event.touches, hd]) ?_
      rw [Bool.eq_iff_iff, inMap_entered hs.objects]
      simp [Ne.symm hd]
  | @reported p mask =>
    have quiet : ∀ ev ∈ [Event.reported p], ev.touches c = false := by simp [Event.touches]
    cases p with
    | acceptor => exact same _ rfl (Nat.le_refl _) rfl quiet rfl
    | timer => exact same _ rfl (Nat.le_refl _) rfl quiet rfl
    | conn d =>
      refine .aside _ (Nat.le_refl _) (fun x hx => ?_) rfl quiet rfl
      by_cases hd : c = d
      · subst hd
        obtain ⟨o, ho, rfl⟩ : ∃ o, s.conns c = some o ∧ { o with channel := { o.channel with revents := mask } } = x := by
          simpa [World.withReturnEvents] using hx
        exact ⟨o, mask, ho, rfl, .inr (List.mem_singleton_self _)⟩
      · exact ⟨x, x.channel.revents, by simpa [World.withReturnEvents, hd] using hx, rfl, .inl rfl⟩
  | owners => exact same [] rfl (Nat.le_refl _) (List.append_nil _).symm (by simp) rfl
  | timers => exact same [] rfl (Nat.le_refl _) (List.append_nil _).symm (by simp) rfl
  | opened => exact same [] rfl (Nat.le_refl _) (List.append_nil _).symm (by simp) rfl
  | handled => exact same [] rfl (Nat.le_refl _) (List.append_nil _).symm (by simp) rfl

/-- What an effect makes of the batch. -/
theorem Effect.active {loop : Bool} {s t : World} (e : Effect loop s t) : t.activeChannels = s.activeChannels ∨
    (∃ p, t.activeChannels = s.activeChannels ++ [p] ∧ t.trace = s.trace ++ [.reported p]) ∨
      ∃ p, s.activeChannels = p :: t.activeChannels := by
  cases e with
  | @reported p => exact .inr (.inl ⟨p, rfl, rfl⟩)
  | handled _ hactive => exact .inr (.inr ⟨_, hactive⟩)
  | _ => exact .inl rfl

/-! ## Chains of effects -/

/-- From a well-formed state the code gets where it gets by effects. -/
def Chain (loop : Bool) (s t : World) : Prop := WellFormed s → Relation.ReflTransGen (Effect loop) s t

/-- So it does up to where a callback pauses. -/
abbrev ChainStop (loop : Bool) (e : Fault) (s t : World) : Prop := e = .outside → Chain loop s t

abbrev Chained (loop : Bool) {α : Type} (x : M α) : Prop := Moves Anywhere (Chain loop) (ChainStop loop) x

section
variable {loop : Bool} {s t u : World}

/-- **The invariant rule for effects**: what every effect keeps, a chain keeps. -/
theorem effects_invariant {I : World → Prop} (hI : ∀ s t, WellFormed s → Effect loop s t → I s → I t)
    (h : Relation.ReflTransGen (Effect loop) s t) (hs : WellFormed s) (h0 : I s) : WellFormed t ∧ I t := by
  induction h with
  | refl => exact ⟨hs, h0⟩
  | tail _ e ih => exact ⟨e.wellFormed ih.1, hI _ _ ih.1 e ih.2⟩

theorem effects_wellFormed (h : Relation.ReflTransGen (Effect loop) s t) (hs : WellFormed s) : WellFormed t :=
  (effects_invariant (I := fun _ => True) (fun _ _ _ _ h => h) h hs trivial).1

namespace Chain

theorem refl (s : World) : Chain loop s s := fun _ => .refl

theorem single (h : WellFormed s → Effect loop s t) : Chain loop s t := fun hs => .single (h hs)

theorem trans (h : Chain loop s t) (h' : Chain loop t u) : Chain loop s u := fun hs =>
  (h hs).trans (h' (effects_wellFormed (h hs) hs))

end Chain

theorem chain_composes : Composes (Chain loop) (ChainStop loop) where
  refl := Chain.refl
  trans h h' := h.trans h'
  later h h' he := h.trans (h' he)

end

namespace Chained

variable {loop : Bool}

theorem bind {α β : Type} {x : M α} {f : α → M β} (hx : Chained loop x) (hf : ∀ a, Chained loop (f a)) :
    Chained loop (x >>= f) := Moves.bind chain_composes (fun _ h => h) hx hf

theorem pure {α : Type} (a : α) : Chained loop (pure a : M α) := Moves.pure chain_composes a

/-- From what is shown of a well-formed state. -/
theorem intro {α : Type} {x : M α} (h : ∀ s, WellFormed s → Ensures x s (fun _ t => Relation.ReflTransGen (Effect loop) s t)
    fun e t => e = .outside → Relation.ReflTransGen (Effect loop) s t) : Chained loop x := fun s _ =>
  (Ensures.assume (h s)).mono (fun _ _ h => h) fun _ _ h he hs => h hs he

theorem from' {α : Type} {x : M α} (h : Chained loop x) {s : World} (hs : WellFormed s) :
    Ensures x s (fun _ t => Relation.ReflTransGen (Effect loop) s t)
      fun e t => e = .outside → Relation.ReflTransGen (Effect loop) s t :=
  (h s trivial).mono (fun _ _ ht => ht hs) fun _ _ ht he => ht he hs

end Chained

/-! ## Pointers -/

/-- Where the code from `s` returns and stops. -/
abbrev Reaches (loop : Bool) {α : Type} (x : M α) (m s : World) : Prop :=
  Ensures x m (fun _ t => Relation.ReflTransGen (Effect loop) s t)
    fun e t => e = .outside → Relation.ReflTransGen (Effect loop) s t

section
variable {loop : Bool} {s m : World} {c : ConnId}

theorem Chained.after {α : Type} {x : M α} (hx : Chained loop x) (h : Relation.ReflTransGen (Effect loop) s m)
    (hs : WellFormed s) : Reaches loop x m s :=
  (hx.from' (effects_wellFormed h hs)).mono (fun _ _ ht => h.trans ht) fun _ _ ht he => h.trans (ht he)

theorem deref_chained (c : ConnId) : Chained loop (deref c) := by
  refine .intro fun s _ => ?_
  rw [ensures_deref]
  exact ⟨fun _ _ => .refl, fun _ he => by cases he⟩

theorem emit_chained {ev : Event} (hev : ev.plain = true) : Chained loop (emit ev) :=
  .intro fun _ _ => .single (.told hev)

theorem release_chained (c : ConnId) : Chained loop (release c) := by
  refine .intro fun s _ => ensures_release.2 ⟨fun _ => .refl, fun hown => ⟨fun o hc => ?_, fun _ he => by cases he⟩⟩
  exact .single (.destroyed hc hown)

/-- A frame takes a pointer to a connection that is there. -/
theorem push_effect (hs : WellFormed s) {o : TcpConnection} (hc : s.conns c = some o) :
    Effect loop s { s with frames := c :: s.frames } :=
  .owners fun d hd => (owned_pushFrame hs.objects (by simp [hc])).alive d hd

/-- The rest of `withPtr`, from where `x` is called. -/
theorem framed_reaches {x : M Unit} (hx : Reaches loop x m s) (hs : WellFormed s) : Reaches loop (do
    x
    modify fun w => { w with frames := w.frames.erase c }
    release c) m s := by
  rw [Reaches, ensures_bind]
  refine hx.mono (fun _ t ht => ?_) fun _ _ ht => ht
  rw [ensures_bind, ensures_modify]
  have wf := effects_wellFormed ht hs
  have popped : Effect loop t { t with frames := t.frames.erase c } :=
    .owners fun d hd => (owned_popFrame wf.objects c).alive d hd
  exact (release_chained c).after (ht.tail popped) hs

/-- A call under a frame's pointer. -/
theorem withPtr_reaches {x : M Unit} (hs : WellFormed s)
    (hx : (s.conns c).isSome → Reaches loop x { s with frames := c :: s.frames } s) : Reaches loop (withPtr c x) s s := by
  simp only [withPtr, Reaches, ensures_bind (deref c), ensures_bind (modify _), ensures_deref, ensures_modify]
  refine ⟨fun o hc => ?_, fun _ he => by cases he⟩
  exact framed_reaches (hx (by simp [hc])) hs

theorem withPtr_chained (c : ConnId) {x : M Unit} (hx : Chained loop x) : Chained loop (withPtr c x) := by
  refine .intro fun s hs => withPtr_reaches hs fun hc => ?_
  obtain ⟨o, hc⟩ := Option.isSome_iff_exists.1 hc
  exact hx.after (.single (push_effect hs hc)) hs

/-- `connectionCallback_(shared_from_this())` up to the call of user code. -/
theorem connectionCallback_enters {user : M Unit} {o : TcpConnection} {Q : Unit → World → Prop} {E : Fault → World → Prop}
    (hc : m.conns c = some o) (h : Ensures (do
      user
      modify fun w => { w with frames := w.frames.erase c }
      release c) { m with frames := c :: m.frames, trace := m.trace ++ [.connectionCallback c (o.connectState == .CONNECTED)] } Q E) :
    Ensures (TcpConnection.connectionCallback c user) m Q E := by
  simp only [TcpConnection.connectionCallback, withPtr, bind_assoc, ensures_bind (deref c), ensures_bind (modify _),
    ensures_bind (emit _), ensures_deref, ensures_modify, ensures_emit]
  refine ⟨fun x hx => ⟨fun _ _ => ?_, fun hn => ?_⟩, fun hn => ?_⟩
  · obtain rfl : o = x := Option.some.inj (hc.symm.trans hx)
    exact h
  · rw [hc] at hn; cases hn
  · rw [hc] at hn; cases hn

end

/-! ## Calls on one connection -/

/-- A change that leaves the registration alone. -/
theorem World.own_same {s : World} {c : ConnId} {o : TcpConnection} (hs : Objects s) (hc : s.conns c = some o)
    (x : TcpConnection) (hfd : x.channel.fd = o.channel.fd) (hevents : x.channel.events = o.channel.events)
    (hstatus : x.channel.status = o.channel.status) (tr : List Event) :
    s.own c x tr = { s.put c x with trace := tr } := by
  have registration : x.channel.registration (ChannelPtr.conn c) = s.interest x.channel.fd := by
    have := hs.mirrors c o hc
    simp only [Polled.Mirrors] at this
    rw [Channel.registration, hfd, hevents, hstatus, this]
  rw [World.own, registration, Function.update_eq_self]
  rfl

/-- The enable and disable calls on the channel of a connection. -/
theorem onChannel_set {s : World} {c : ConnId} {o : TcpConnection} (f : Mask → Mask) {Q : Unit → World → Prop}
    {E : Fault → World → Prop} (hc : s.conns c = some o) (hm : Polled.Mirrors (.conn c) ⟨o.channel, s.interest⟩)
    (hq : Q () { s.put c { o with channel := o.channel.set f } with
      interest := Function.update s.interest o.channel.fd ((o.channel.set f).registration (.conn c)) }) :
    Ensures (onChannel c fun self => do setEvents f; Epoller.updateChannel self) s Q E := by
  rw [ensures_onChannel]
  refine ⟨fun x hx => ?_, fun hn => by simp [hc] at hn⟩
  obtain rfl : o = x := Option.some.inj (hc.symm.trans hx)
  exact (ensures_ok (setEvents_update_set (ChannelPtr.conn c) f hm.known)).2 hq

section
variable {loop : Bool} {c : ConnId}

theorem shut_effect {s : World} (hs : WellFormed s) {o : TcpConnection} (hc : s.conns c = some o)
    (hst : o.connectState ≠ .CONNECTED) (hw : o.channel.isWriting = false) :
    Effect loop s { s.put c { o with connectState := .DISCONNECTING } with
      trace := s.trace ++ [.setConnectState c o.connectState .DISCONNECTING, .shutWr c o.connectState true]
      shutWr := Function.update s.shutWr o.socket (s.shutWr o.socket + 1) } := by
  have shut : Effect loop s _ := .shut hc hst hw rfl
  rwa [World.own_same hs.objects hc { o with connectState := .DISCONNECTING } rfl rfl rfl] at shut

theorem shutdown_chained (c : ConnId) (ok : Bool) : Chained loop (TcpConnection.shutdown c ok) := by
  refine .intro fun s hs => ?_
  simp only [TcpConnection.shutdown, shutdownWrite, ensures_bind, ensures_deref, ensures_emit, ensures_ite,
    ensures_setConnectState, ensures_modify, ensures_throw, ensures_pure]
  refine ⟨fun o hc => ?_, fun _ he => by cases he⟩
  have told : Effect loop s { s with trace := s.trace ++ [.shutdown c o.connectState o.channel.isWriting] } := .told rfl
  refine ⟨fun hcond => ⟨fun x hx => ⟨fun hok => ?_, fun _ he => by cases he⟩, fun _ he => by cases he⟩, fun _ => .single told⟩
  obtain rfl : o = x := Option.some.inj (hc.symm.trans hx)
  have shut : Effect loop _ _ := shut_effect (c := c) (told.wellFormed hs) hc hcond.1 (by simpa using hcond.2)
  have chain := Relation.ReflTransGen.tail (.single told) shut
  simpa [World.put, hok] using chain

/-- A change of `inputBuffer_`. -/
theorem onInput_chained {α : Type} (c : ConnId) {x : BufM α} (hx : Buffer.Contained x)
    (hinv : ∀ b, b.Inv → Ensures x b (fun _ b' => b'.Inv) fun _ _ => True) : Chained loop (onInput c x) := by
  refine .intro fun s hs => ?_
  rw [ensures_onInput]
  refine ⟨fun o hc => ?_, fun _ he => by cases he⟩
  refine ((hx o.inputBuffer).and (hinv _ (hs.buffers c o hc).1)).mono ?_ fun _ _ hf he => absurd he hf.1.ne_outside
  rintro _ b ⟨-, hb⟩
  have input : Effect loop s _ := .own hc (.input hb) (List.append_nil _).symm
  rw [World.own_same hs.objects hc { o with inputBuffer := b } rfl rfl rfl] at input
  exact .single input

/-- `handleWrite` after the `::write`: the interest in writing goes with the last byte. -/
theorem drained_enters {m : World} {o : TcpConnection} (hc : m.conns c = some o)
    (hm : Polled.Mirrors (.conn c) ⟨o.channel, m.interest⟩) (shut : Bool) {Q : Unit → World → Prop} {E : Fault → World → Prop}
    (left : o.outputBuffer.readableSize ≠ 0 → Q () m)
    (drained : o.outputBuffer.readableSize = 0 → Ensures (do
        let o ← deref c
        if o.connectState = .DISCONNECTING then
          TcpConnection.shutdown c shut)
      { m.put c { o with channel := o.channel.set (· &&& ~~~EPOLLOUT) } with
        interest := Function.update m.interest o.channel.fd ((o.channel.set (· &&& ~~~EPOLLOUT)).registration (.conn c)) } Q E) :
    Ensures (do
      let o ← deref c
      if o.outputBuffer.readableSize = 0 then
        onChannel c Channel.disabledWritable
        let o ← deref c
        if o.connectState = .DISCONNECTING then
          TcpConnection.shutdown c shut) m Q E := by
  rw [ensures_bind, ensures_deref]
  refine ⟨fun x hx => ?_, fun hn => by simp [hc] at hn⟩
  obtain rfl : o = x := Option.some.inj (hc.symm.trans hx)
  rw [ensures_ite]
  refine ⟨fun hempty => ?_, left⟩
  rw [ensures_bind]
  exact onChannel_set (· &&& ~~~EPOLLOUT) hc hm (drained hempty)

/-- `send` once bytes are kept back: the interest in writing comes with the first one. -/
theorem queued_enters {m : World} {o : TcpConnection} (hc : m.conns c = some o)
    (hm : Polled.Mirrors (.conn c) ⟨o.channel, m.interest⟩) {Q : Unit → World → Prop} {E : Fault → World → Prop}
    (busy : o.channel.isWriting = true → Q () { m with trace := m.trace ++ [.queued c o.connectState] })
    (idle : o.channel.isWriting = false → Q () { m.put c { o with channel := o.channel.set (· ||| EPOLLOUT) } with
      interest := Function.update m.interest o.channel.fd ((o.channel.set (· ||| EPOLLOUT)).registration (.conn c))
      trace := m.trace ++ [.queued c o.connectState] }) :
    Ensures (do
      let o ← deref c
      emit (.queued c o.connectState)
      if !o.channel.isWriting then
        onChannel c Channel.enabledWritable) m Q E := by
  rw [ensures_bind, ensures_deref]
  refine ⟨fun x hx => ?_, fun hn => by simp [hc] at hn⟩
  obtain rfl : o = x := Option.some.inj (hc.symm.trans hx)
  rw [ensures_bind, ensures_emit, ensures_ite]
  refine ⟨fun hidle => ?_, fun hbusy => busy (by simpa using hbusy)⟩
  exact onChannel_set (· ||| EPOLLOUT) (s := { m with trace := m.trace ++ [.queued c o.connectState] }) hc hm
    (idle (by simpa using hidle))

theorem told_effects {s : World} {evs : List Event} (h : ∀ ev ∈ evs, ev.plain = true) :
    Relation.ReflTransGen (Effect loop) s { s with trace := s.trace ++ evs } := by
  induction evs generalizing s with
  | nil => simpa using Relation.ReflTransGen.refl
  | cons ev evs ih =>
    have first : Effect loop s { s with trace := s.trace ++ [ev] } := .told (h ev (List.mem_cons_self ..))
    have rest := ih (s := { s with trace := s.trace ++ [ev] }) fun x hx => h x (List.mem_cons_of_mem _ hx)
    simpa using Relation.ReflTransGen.head first rest

/-- `handleWrite` gets some bytes out, or all. -/
theorem retrieved_reaches {s : World} (hs : WellFormed s) {o : TcpConnection} (hc : s.conns c = some o)
    (hw : o.channel.isWriting = true) {b : Buffer} (hb : b.Inv) (shut : Bool) : Reaches loop (do
      let o ← deref c
      if o.outputBuffer.readableSize = 0 then
        onChannel c Channel.disabledWritable
        let o ← deref c
        if o.connectState = .DISCONNECTING then
          TcpConnection.shutdown c shut) (s.put c { o with outputBuffer := b }) s := by
  have self : (s.put c { o with outputBuffer := b }).conns c = some { o with outputBuffer := b } := Function.update_self ..
  refine drained_enters self (hs.objects.mirrors c o hc) shut ?_ ?_
  · intro hleft
    have hr : b.readable ≠ [] := fun hn => hleft ((hb.readableSize_eq_zero).2 hn)
    have wrote : Effect loop s _ := .own hc (.wrote hw hb hr) (List.append_nil _).symm
    rw [World.own_same hs.objects hc { o with outputBuffer := b } rfl rfl rfl] at wrote
    exact .single wrote
  · intro hempty
    have drained : Effect loop s _ := .own hc (.drained hw hb ((hb.readableSize_eq_zero).1 hempty)) (List.append_nil _).symm
    have rest : Chained loop (do
        let o ← deref c
        if o.connectState = .DISCONNECTING then
          TcpConnection.shutdown c shut) :=
      Chained.bind (deref_chained c) fun o => .ite (shutdown_chained c shut) (Chained.pure _)
    refine rest.after ?_ hs
    simpa [World.own, World.put] using Relation.ReflTransGen.single drained

theorem handleWrite_chained (c : ConnId) (r : Option Nat) (shut : Bool) :
    Chained loop (TcpConnection.handleWrite c r shut) := by
  refine .intro fun s hs => ?_
  refine handleWrite_enters (fun o hc => (hs.buffers c o hc).2) r shut (fun he => by cases he) .refl
    (fun _ _ _ _ _ _ he => by cases he) ?_
  intro n o b _ hc hw hb _
  have told : Relation.ReflTransGen (Effect loop) s
      { s with trace := s.trace ++ [.handleWrite c r, .written c (o.outputBuffer.readable.take n)] } :=
    told_effects (by simp [Event.plain])
  exact (retrieved_reaches (effects_wellFormed told hs) hc hw hb shut).mono (fun _ _ ht => told.trans ht)
    fun _ _ ht he => told.trans (ht he)

theorem send_chained (c : ConnId) (message : Bytes) (r : Option Nat) : Chained loop (TcpConnection.send c message r) := by
  refine .intro fun s hs => ?_
  refine send_enters (fun o hc => (hs.buffers c o hc).2) message r (fun _ he => by cases he)
    (fun _ _ _ _ _ _ hf _ he => absurd he hf.ne_outside) ?_
  intro o evs accepted left hc _ _ hevs
  have told : Relation.ReflTransGen (Effect loop) s { s with trace := s.trace ++ .send c message :: evs } := by
    obtain ⟨rfl, -⟩ | ⟨rfl, -⟩ := hevs
    · exact told_effects (by simp [Event.plain])
    · exact told_effects (by simp [Event.plain])
  refine ⟨fun _ => told, fun b hleft hb hr => ?_⟩
  have hr : b.readable ≠ [] := fun hn => hleft (List.append_eq_nil_iff.1 (hr ▸ hn)).2
  have wf := effects_wellFormed told hs
  have queued : Effect loop { s with trace := s.trace ++ .send c message :: evs } _ := .own hc (.queued hb hr) rfl
  have self : (({ s with trace := s.trace ++ .send c message :: evs } : World).put c { o with outputBuffer := b }).conns c =
      some { o with outputBuffer := b } := Function.update_self ..
  refine queued_enters self (hs.objects.mirrors c o hc) ?_ ?_
  · intro hbusy
    have hbusy : o.channel.isWriting = true := hbusy
    rw [hbusy, if_pos rfl, World.own_same wf.objects hc { o with outputBuffer := b } rfl rfl rfl] at queued
    exact told.tail queued
  · intro hidle
    have hidle : o.channel.isWriting = false := hidle
    refine told.trans ?_
    simpa [World.own, World.put, hidle] using Relation.ReflTransGen.single queued

/-- The start of `handleClose`, up to the call of the DOWN callback. -/
theorem goDown_enters {s : World} (hs : Objects s) {down : M Unit} {Q : Unit → World → Prop} {E : Fault → World → Prop}
    (gone : s.conns c = none → E .useAfterFree s) (h : ∀ o, s.conns c = some o → Ensures (do
      down
      modify fun w => { w with frames := w.frames.erase c }
      release c) { s.own c o.goneDown (s.trace ++ [.setConnectState c o.connectState .DISCONNECTED,
        .connectionCallback c false]) with frames := c :: s.frames } Q E) : Ensures (do
    setConnectState c .DISCONNECTED
    onChannel c Channel.diabledAllEvents
    TcpConnection.connectionCallback c down) s Q E := by
  rw [ensures_bind, ensures_setConnectState]
  refine ⟨fun o hc => ?_, gone⟩
  rw [ensures_bind]
  refine onChannel_set (o := { o with connectState := .DISCONNECTED }) (fun _ => Channel.NoEvent)
    (Function.update_self ..) (hs.mirrors c o hc) ?_
  refine connectionCallback_enters (Function.update_self ..) ?_
  have told : (ConnectState.DISCONNECTED == .CONNECTED) = false := rfl
  convert h o hc using 1
  simp [World.own, World.put, TcpConnection.goneDown, told]

/-- The DOWN callback of `handleClose` is called after one effect and with one more pointer. -/
theorem goDown_effects {s : World} (hs : WellFormed s) {o : TcpConnection} (hc : s.conns c = some o) :
    Relation.ReflTransGen (Effect loop) s { s.own c o.goneDown (s.trace ++ [.setConnectState c o.connectState .DISCONNECTED,
      .connectionCallback c false]) with frames := c :: s.frames } := by
  have down : Effect loop s (s.own c o.goneDown (s.trace ++ [.setConnectState c o.connectState .DISCONNECTED,
    .connectionCallback c false])) := .own hc .down rfl
  have pushed : Effect loop _ _ := push_effect (c := c) (o := o.goneDown) (down.wellFormed hs) (Function.update_self ..)
  exact .tail (.single down) pushed

theorem goDown_chained (c : ConnId) {down : M Unit} (hd : Chained loop down) : Chained loop (do
    setConnectState c .DISCONNECTED
    onChannel c Channel.diabledAllEvents
    TcpConnection.connectionCallback c down) :=
  .intro fun _ hs => goDown_enters hs.objects (fun _ he => by cases he) fun _ hc =>
    framed_reaches (hd.after (goDown_effects hs hc) hs) hs

/-- **`channel_->remove()`** fails its `assert` where interest is left, and takes the channel out otherwise. -/
theorem removeChannel_enters {s : World} (hs : Objects s) {Q : Unit → World → Prop} {E : Fault → World → Prop}
    (gone : s.conns c = none → E .useAfterFree s)
    (busy : ∀ o, s.conns c = some o → o.channel.isNoneEvent = false → ∀ t, t.trace = s.trace ++ [.remove c false (s.waiting c)] →
      E .assertFailed t)
    (idle : ∀ o, s.conns c = some o → o.channel.isNoneEvent = true →
      Q () (s.own c { o with channel := { o.channel with status := .NEW } } (s.trace ++ [.remove c true (s.waiting c)]))) :
    Ensures (TcpConnection.removeChannel c) s Q E := by
  simp only [TcpConnection.removeChannel, ensures_bind, ensures_deref, ensures_get, ensures_emit, ensures_onChannel]
  refine ⟨fun o hc => ⟨fun x hx => ?_, fun hn => by simp [hc] at hn⟩, gone⟩
  obtain rfl : o = x := Option.some.inj (hc.symm.trans hx)
  cases hidle : o.channel.isNoneEvent with
  | false =>
    refine (ensures_error (Channel.remove_busy (ChannelPtr.conn c) (p := ⟨o.channel, s.interest⟩) hidle)).2 ?_
    exact busy o hc hidle _ rfl
  | true =>
    refine (ensures_ok (Channel.remove_eq (ChannelPtr.conn c) (p := ⟨o.channel, s.interest⟩)
      (hs.mirrors c o hc).known hidle)).2 ?_
    simpa [World.own, World.put, Channel.registration] using idle o hc hidle

theorem removeChannel_chained (c : ConnId) : Chained loop (TcpConnection.removeChannel c) := by
  refine .intro fun s hs => ?_
  refine removeChannel_enters hs.objects (fun _ he => by cases he) (fun _ _ _ _ _ he => by cases he) fun o hc hidle => ?_
  have removed : Effect loop s _ := .own hc (.removed hidle) rfl
  exact .single removed

/-- User code or a frame holds the connection: its entry goes and nothing else. -/
theorem eraseEntry_own {s : World} (hs : Objects s) {o : TcpConnection} (hc : s.conns c = some o) (hpointed : Pointed c s)
    {Q : Unit → World → Prop} {E : Fault → World → Prop}
    (hq : Q () { s with tcpConnections := s.tcpConnections.filter (·.1 != o.name) }) :
    Ensures (eraseEntry o.name) s Q E := by
  simp only [eraseEntry, ensures_bind, ensures_get]
  split
  · rename_i hnone
    have same : s.tcpConnections.filter (·.1 != o.name) = s.tcpConnections := by
      rw [List.filter_eq_self]
      intro e he
      rw [bne_comm]
      exact List.lookup_eq_none_iff.1 hnone e he
    rw [same] at hq
    exact hq
  · rename_i d hd
    obtain rfl : d = c := hs.entry_own (hs.named c o hc ▸ mem_of_lookup hd)
    rw [ensures_bind, ensures_set]
    have held : ({ s with tcpConnections := s.tcpConnections.filter (·.1 != o.name) } : World).owned d = true :=
      World.owned_iff.2 (.inr hpointed)
    exact release_owned held hq

/-- After `removeConnection`, up to its DOWN callback; `ev` is who called it. -/
def World.removed (w : World) (c : ConnId) (o : TcpConnection) (ev : Event) : World :=
  { w.own c o.parted (w.trace ++ ev :: o.parting c) with tcpConnections := w.tcpConnections.filter (·.1 != o.name) }

/-- **`removeConnection`** of a connection that its caller holds, up to the DOWN callback where it makes one. -/
theorem removeConnection_enters {s : World} (hs : Objects s) {o : TcpConnection} (hc : s.conns c = some o) (hpointed : Pointed c s)
    (ev : Event) {down : M Unit} {Q : Unit → World → Prop} {E : Fault → World → Prop}
    (hconn : o.connectState = .CONNECTED → Ensures (do
      down
      modify fun w => { w with frames := w.frames.erase c }
      release c) { s.removed c o ev with frames := c :: s.frames }
        (fun _ t => Ensures (TcpConnection.removeChannel c) t Q E) E)
    (hgone : o.connectState ≠ .CONNECTED → Ensures (TcpConnection.removeChannel c) (s.removed c o ev) Q E) :
    Ensures (do
      emit ev
      TcpServer.removeConnection c down) s Q E := by
  have absent : ∀ {p : Prop}, s.conns c = none → p := fun hn => (Option.some_ne_none o (hc.symm.trans hn)).elim
  simp only [TcpServer.removeConnection, TcpConnection.connectionDestroy, ensures_bind (emit _), ensures_bind (deref c),
    ensures_bind (eraseEntry _), ensures_emit, ensures_deref]
  refine ⟨fun x hx => ?_, absent⟩
  obtain rfl : o = x := Option.some.inj (hc.symm.trans hx)
  refine eraseEntry_own (s := { s with trace := s.trace ++ [ev] }) { hs with } hc hpointed ?_
  refine ⟨fun x hx => ?_, absent⟩
  obtain rfl : o = x := Option.some.inj (hc.symm.trans hx)
  by_cases hst : o.connectState = .CONNECTED
  · rw [if_pos hst, ensures_bind, ensures_setConnectState]
    refine ⟨fun x hx => ?_, absent⟩
    obtain rfl : o = x := Option.some.inj (hc.symm.trans hx)
    rw [ensures_bind]
    refine onChannel_set (o := { o with connectState := .DISCONNECTED }) (fun _ => Channel.NoEvent)
      (Function.update_self ..) (hs.mirrors c o hc) ?_
    rw [ensures_bind]
    refine connectionCallback_enters (Function.update_self ..) ?_
    have told : (ConnectState.DISCONNECTED == .CONNECTED) = false := rfl
    convert hconn hst using 1
    simp [World.removed, World.own, World.put, TcpConnection.parted, TcpConnection.parting, TcpConnection.goneDown, hst, told]
  · rw [if_neg hst]
    convert hgone hst using 1
    rw [World.removed, TcpConnection.parted, if_neg hst, TcpConnection.parting, if_neg hst, World.own_same hs hc o rfl rfl rfl,
      World.put, ← hc, Function.update_eq_self]

/-- The DOWN callback is called with one more pointer. -/
theorem removal_pushed {s m : World} (hs : WellFormed s) {o : TcpConnection} {ev : Event}
    (h : Relation.ReflTransGen (Effect loop) s (m.removed c o ev)) : Relation.ReflTransGen (Effect loop) s
      { m.removed c o ev with frames := c :: m.frames } := by
  have pushed : Effect loop (m.removed c o ev) { m.removed c o ev with frames := c :: m.frames } :=
    push_effect (effects_wellFormed h hs) (Function.update_self ..)
  exact h.tail pushed

/-- **`removeConnection`** of a connection that its caller holds. -/
theorem removeConnection_reaches {s m : World} (hs : WellFormed s) (hm : Relation.ReflTransGen (Effect loop) s m)
    (hpointed : Pointed c m) {ev : Event} (hev : ev = .closeCallback c ∧ loop = true ∨ ev = .removeConnection c) {down : M Unit}
    (hd : Chained loop down) : Reaches loop (do
      emit ev
      TcpServer.removeConnection c down) m s := by
  have wf := effects_wellFormed hm hs
  obtain ⟨o, hc⟩ := Option.isSome_iff_exists.1 (wf.objects.alive c (World.owned_iff.2 (.inr hpointed)))
  have chain : Relation.ReflTransGen (Effect loop) s (m.removed c o ev) := hm.tail (.removal hc hev rfl hpointed)
  refine removeConnection_enters wf.objects hc hpointed ev (fun _ => ?_) fun _ => (removeChannel_chained c).after chain hs
  exact (framed_reaches (hd.after (removal_pushed hs chain) hs) hs).mono (fun _ t ht => (removeChannel_chained c).after ht hs)
    fun _ _ ht => ht

/-- `closeCallback_` passes a pointer of its own. -/
theorem closing_chained (c : ConnId) (hl : loop = true) {down : M Unit} (hd : Chained loop down) : Chained loop (withPtr c do
    emit (.closeCallback c)
    TcpServer.removeConnection c down) :=
  .intro fun _ hs => withPtr_reaches hs fun hlive => by
    obtain ⟨o, hc⟩ := Option.isSome_iff_exists.1 hlive
    exact removeConnection_reaches hs (.single (push_effect hs hc)) (.inr (List.mem_cons_self ..)) (.inl ⟨rfl, hl⟩) hd

/-- What is borrowed comes or goes. -/
theorem borrow_effect (s : World) (bs : List ConnId) (hs : WellFormed s) : Effect loop s { s with borrowed := bs } :=
  .owners fun d hd => hs.objects.alive d hd

/-- A call under a reference to the pointer of its caller. -/
theorem withRef_reaches {s : World} {x : M Unit} (hs : WellFormed s)
    (hx : Reaches loop x { s with borrowed := c :: s.borrowed } s) :
    Reaches loop (withRef c x) s s := by
  simp only [withRef, Reaches, ensures_bind, ensures_modify]
  exact hx.mono (fun _ t ht => ht.tail (borrow_effect t _ (effects_wellFormed ht hs))) fun _ _ ht => ht

/-- User code passes a reference to a pointer that it or a frame holds. -/
theorem callRemoveConnection_chained (c : ConnId) {down : M Unit} (hd : Chained loop down) :
    Moves (Pointed c) (Chain loop) (ChainStop loop) (withRef c do
      emit (.removeConnection c)
      TcpServer.removeConnection c down) := by
  intro s hp
  have reaches : WellFormed s → Reaches loop (withRef c do
      emit (.removeConnection c)
      TcpServer.removeConnection c down) s s := fun hs =>
    withRef_reaches hs (removeConnection_reaches hs (.single (borrow_effect s (c :: s.borrowed) hs)) hp (.inr rfl) hd)
  exact (Ensures.assume reaches).mono (fun _ _ h => h) fun _ _ h he hs => h hs he

theorem onTimers_chained {α : Type} {x : Timers.M α} (hx : Timers.Contained x) : Chained loop (onTimers x) :=
  onTimers_moves (fun _ _ hq => .single fun _ => .timers hq) (fun _ hq _ => .single fun _ => .timers hq) hx

theorem keepPtr_chained (c : ConnId) : Moves (Pointed c) (Chain loop) (ChainStop loop) (keepPtr c) := by
  intro s hp
  refine Chain.single fun hs => .owners fun d hd => hs.objects.alive d ?_
  rw [World.owned_iff] at hd ⊢
  by_cases hdc : d = c
  · rw [hdc]; exact .inr hp
  · exact hd.imp id (Or.imp (fun hr => by simpa [hdc] using hr) id)

theorem dropPtr_chained (c : ConnId) : Chained loop (dropPtr c) := by
  refine .intro fun s hs => ?_
  simp only [dropPtr, ensures_bind, ensures_get, ensures_ite, ensures_throw, ensures_set]
  refine ⟨fun _ _ => .refl, fun hpos => ?_⟩
  refine (release_chained c).after (.single (.owners fun d hd => hs.objects.alive d ?_)) hs
  rw [World.owned_iff] at hd ⊢
  by_cases hdc : d = c
  · subst hdc; exact .inr (.inl (Nat.pos_of_ne_zero hpos))
  · exact hd.imp id (Or.imp (fun hr => by simpa [hdc] using hr) id)

end

theorem retrieve_chained {loop : Bool} (c : ConnId) (len : Nat) : Chained loop (TcpConnection.retrieve c len) := by
  have taken : Chained loop (onInput c (Buffer.retrieve len)) := onInput_chained c (Buffer.contained_retrieve len) fun _ hb =>
    (Buffer.retrieve_spec hb len).mono (fun _ _ h => h.1) fun _ _ _ => trivial
  exact Chained.bind (deref_chained c) fun _ => Chained.bind taken fun _ => emit_chained rfl

theorem retrieveAsString_chained {loop : Bool} (c : ConnId) : Chained loop (TcpConnection.retrieveAsString c) := by
  have taken : Chained loop (onInput c Buffer.retrieveAllAsString) :=
    onInput_chained c Buffer.contained_retrieveAllAsString fun _ hb =>
      (Buffer.retrieveAllAsString_spec hb).mono (fun _ _ h => h.2.1) fun _ _ _ => trivial
  exact Chained.bind taken fun _ => Chained.bind (emit_chained rfl) fun _ => Chained.pure _

/-- **User code**: no effect of it is the loop's. -/
theorem userChains (loop : Bool) : UserCalls anyCall (Chain loop) (ChainStop loop) where
  toComposes := chain_composes
  outside s _ := Chain.refl s
  send c message r _ := (send_chained c message r).weaken fun _ _ => trivial
  echo c r _ := (Chained.bind (retrieveAsString_chained c) fun s => send_chained c s r).weaken fun _ _ => trivial
  retrieve c len _ := (retrieve_chained c len).weaken fun _ _ => trivial
  shutdown c ok _ := (shutdown_chained c ok).weaken fun _ _ => trivial
  removeConnection c _ _ hd := callRemoveConnection_chained c hd
  keepPtr c _ := keepPtr_chained c
  dropPtr c _ := dropPtr_chained c
  timer x := onTimers_chained (Timers.contained_call x)

theorem script_chained (loop : Bool) (s : Script) : Chained loop s.run := (userChains loop).script s s.only_anyCall

/-- Nothing of user code is the close or the start of a connection. -/
theorem Effect.user_quiet {s t : World} (e : Effect false s t) (c : ConnId)
    (h : .established c ∉ s.trace ∧ .closeCallback c ∉ s.trace) : .established c ∉ t.trace ∧ .closeCallback c ∉ t.trace := by
  cases e with
  | @told ev hev => cases ev <;> simp_all [Event.plain]
  | own _ hown htr => simpa [htr, World.own, (hown.quiet c).1, (hown.quiet c).2] using h
  | shut _ _ _ htr => simpa [htr, World.own] using h
  | @removal d o ev tr _ hev htr =>
    obtain ⟨_, hl⟩ | rfl := hev
    · cases hl
    · simpa [htr, World.own, (o.parting_quiet d c).1, (o.parting_quiet d c).2] using h
  | owners => exact h
  | timers => exact h
  | destroyed => simpa [World.destroyed] using h
  | opened hl => cases hl
  | made hl => cases hl
  | entered hl => cases hl
  | reported hl => cases hl
  | handled hl => cases hl

/-! ## The loop -/

theorem openFd_chained (fd : Fd) : Chained true (openFd fd) := by
  refine .intro fun s _ => ?_
  simp only [openFd, ensures_bind, ensures_get, ensures_ite, ensures_throw, ensures_set]
  exact ⟨fun _ _ => .refl, fun hfd => .single (.opened rfl (by simpa using hfd))⟩

/-- `connectionEstablished` on a new connection, up to the UP callback. -/
theorem connectionEstablished_enters {s : World} {clientfd sock : Fd} (hadm : Objects (s.admitted clientfd sock)) {up : M Unit}
    {Q : Unit → World → Prop} {E : Fault → World → Prop} (h : Ensures (do
      up
      modify fun w => { w with frames := w.frames.erase s.nextConn }
      release s.nextConn) { s.made clientfd sock with frames := s.nextConn :: (s.made clientfd sock).frames } Q E) :
    Ensures (TcpConnection.connectionEstablished s.nextConn up) (s.admitted clientfd sock) Q E := by
  have hself : (s.admitted clientfd sock).conns s.nextConn = some (s.admittedConn clientfd sock) := Function.update_self ..
  have mirrors := hadm.mirrors _ _ hself
  have absent : ∀ {p : Prop}, (s.admitted clientfd sock).conns s.nextConn = none → p := fun hn =>
    (Option.some_ne_none _ (hself.symm.trans hn)).elim
  simp only [TcpConnection.connectionEstablished, ensures_bind, ensures_deref, ensures_assert, ensures_setConnectState]
  refine ⟨fun x hx => ⟨fun _ => ⟨fun y hy => ?_, absent⟩, fun hst => ?_⟩, absent⟩
  · obtain rfl : s.admittedConn clientfd sock = y := Option.some.inj (hself.symm.trans hy)
    refine onChannel_set (o := { s.admittedConn clientfd sock with connectState := .CONNECTED }) (· ||| EPOLLIN)
      (Function.update_self ..) mirrors ?_
    refine connectionCallback_enters (Function.update_self ..) ?_
    convert h using 1
    simp [World.made, World.own, World.put, World.admitted, World.admittedConn, Channel.new]
  · obtain rfl : s.admittedConn clientfd sock = x := Option.some.inj (hself.symm.trans hx)
    exact absurd rfl hst

/-- The UP callback is called after one effect and with one more pointer. -/
theorem made_pushed {loop : Bool} {s : World} {clientfd sock : Fd} (wf : WellFormed (s.made clientfd sock)) :
    Relation.ReflTransGen (Effect loop) (s.made clientfd sock)
      { s.made clientfd sock with frames := s.nextConn :: (s.made clientfd sock).frames } :=
  .single (push_effect wf (Function.update_self ..))

/-- **`newConnection`**: the connection is `made`, the UP callback runs, and the connection is `entered`. -/
theorem newConnection_chained (clientfd sock : Fd) (up : Script) :
    Chained true (do openFd clientfd; TcpServer.newConnection clientfd (some sock) up.run) := by
  refine .intro fun s hs => ?_
  have user := objectParts.script up
  refine newConnection_spec hs.objects clientfd sock user.left user.right (fun _ => .refl) (fun hfd _ => .single (.opened rfl hfd))
    (fun _ _ he => by cases he) fun hfd hsock hadm => ?_
  have made : Effect true s (s.made clientfd sock) := .made rfl hfd hsock
  have wf := made.wellFormed hs
  refine connectionEstablished_enters hadm ?_
  -- the UP callback, once for what it reaches and once for what it leaves alone
  refine Ensures.mono (Ensures.and (framed_reaches ((script_chained true up).after (made_pushed wf) wf) wf)
    (framed_reaches ((script_chained false up).after (made_pushed wf) wf) wf)) ?_ ?_
  · rintro _ t ⟨ht, hquiet⟩ hto hin
    have hlive : (t.conns s.nextConn).isSome :=
      hto.alive s.nextConn (World.owned_iff.2 (.inr (.inr (by simp [hin.frames, World.admitted]))))
    have fresh : .established s.nextConn ∉ s.trace ∧ .closeCallback s.nextConn ∉ s.trace :=
      ⟨fun hm => absurd (hs.known _ (.inl hm)) (Nat.lt_irrefl _), fun hm => absurd (hs.known _ (.inr hm)) (Nat.lt_irrefl _)⟩
    have quiet := effects_invariant (I := fun w => .established s.nextConn ∉ w.trace ∧ .closeCallback s.nextConn ∉ w.trace)
      (fun _ _ _ e => e.user_quiet s.nextConn) hquiet wf (by simpa [World.made, World.own] using fresh)
    exact (ht.head made).tail (.entered rfl hlive quiet.2)
  · rintro _ t ⟨ht, _⟩ he
    exact (ht he).head made

/-- **All the parts of the code** move along chains of effects. -/
theorem chainParts : Parts (Chain true) (ChainStop true) where
  toComposes := chain_composes
  atHand _ _ := trivial
  deref := deref_chained
  goDown c _ hd := goDown_chained c hd
  closeCallback c _ hu := Chained.bind (deref_chained c) fun _ => closing_chained c rfl hu
  handleWrite := handleWrite_chained
  messageCallback c _ hm := Chained.bind (deref_chained c) fun _ =>
    withPtr_chained c (Chained.bind (emit_chained rfl) fun _ => hm)
  read c r := Chained.bind (onInput_chained c (Buffer.contained_readFd r) fun _ hb =>
      (Buffer.readFd_spec hb r).mono (fun _ _ h => h.1) fun _ _ _ => trivial) fun _ =>
    Chained.bind (emit_chained rfl) fun _ => Chained.pure _
  outside s _ := Chain.refl s
  send := send_chained
  retrieve := retrieve_chained
  retrieveAll := retrieveAsString_chained
  shutdown := shutdown_chained
  removeConnection c _ hd := callRemoveConnection_chained c hd
  keepPtr := keepPtr_chained
  dropPtr := dropPtr_chained
  timer x := onTimers_chained (Timers.contained_call x)
  accept4 _ := emit_chained rfl
  refused := Calls.refused_of chain_composes (fun _ he => by cases he) (fun _ => emit_chained rfl) openFd_chained
  noSocket := Calls.noSocket_of chain_composes (fun _ he => by cases he) (emit_chained rfl) openFd_chained
  newConnection clientfd sock up _ := newConnection_chained clientfd sock up

/-- `Epoller::poll` on one reported channel. -/
theorem report_spec (p : ChannelPtr) (mask : Mask) (s : World) : Ensures (do
    setReturnEvents p mask
    emit (.reported p)
    modify fun w => { w with activeChannels := w.activeChannels ++ [p] }) s
      (fun _ t => (∀ c, p = .conn c → (s.conns c).isSome) ∧ t = { s.withReturnEvents p mask with
        trace := s.trace ++ [.reported p], activeChannels := s.activeChannels ++ [p] })
      (fun e _ => e = .useAfterFree) := by
  cases p with
  | acceptor => exact ⟨fun _ he => (by cases he), rfl⟩
  | timer => exact ⟨fun _ he => (by cases he), rfl⟩
  | conn c =>
    simp only [setReturnEvents, ensures_bind, ensures_deref, ensures_store, ensures_emit, ensures_modify]
    refine ⟨fun o hc => ⟨fun d hd => ?_, ?_⟩, fun _ => trivial⟩
    · cases hd
      simp [hc]
    · simp [World.withReturnEvents, World.put, hc]

theorem report_chained (p : ChannelPtr) (mask : Mask) : Chained true (do
    setReturnEvents p mask
    emit (.reported p)
    modify fun w => { w with activeChannels := w.activeChannels ++ [p] }) := by
  refine .intro fun s _ => (report_spec p mask s).mono ?_ fun e _ he hout => ?_
  · rintro _ t ⟨hlive, rfl⟩
    exact .single (.reported rfl hlive)
  · rw [he] at hout
    cases hout

theorem timingRead_chained (inp : EventInput) :
    Chained true (TimerQueue.handleTimingRead inp.curr (fun t => (inp.callback t).run) inp.now) :=
  chainParts.timingRead onTimers_chained (fun _ _ => emit_chained rfl) inp

/-- **Every step is a chain of effects**, also up to where a callback pauses. -/
theorem step_chained (a : Act) : Chained true (step a) := by
  refine (withinParts.and chainParts).step_moves chain_composes id And.right And.right report_chained ?_
    (fun inp => ((timingRead_within inp).and (timingRead_chained inp)).widen id And.right) a
  intro s t p l h hs
  exact Chain.single fun _ => .handled rfl (h.1.active.trans hs)

theorem wellFormed_init (ipPort : Name) (listenFd timerFd : Fd) : WellFormed (World.init ipPort listenFd timerFd) where
  objects := .init ..
  buffers := nofun
  known := by simp [World.init]

/-- **The invariant rule for visited states.** -/
theorem Visited.effects {I : World → Prop} {ipPort : Name} {listenFd timerFd : Fd} {w : World}
    (h : Visited ipPort listenFd timerFd w) (h0 : I (.init ipPort listenFd timerFd))
    (hI : ∀ s t, WellFormed s → Effect true s t → I s → I t) : WellFormed w ∧ I w := by
  refine h.invariant (I := fun w => WellFormed w ∧ I w) ⟨wellFormed_init .., h0⟩ fun a => .intro fun s hs => ?_
  exact ((step_chained a).from' hs.1).mono (fun _ _ ht => effects_invariant hI ht hs.1 hs.2)
    fun _ _ ht he => effects_invariant hI (ht he) hs.1 hs.2

theorem Visited.wellFormed {ipPort : Name} {listenFd timerFd : Fd} {w : World} (h : Visited ipPort listenFd timerFd w) :
    WellFormed w := (h.effects (I := fun _ => True) trivial fun _ _ _ _ h => h).1

end NetServer
