import NetServer.Tcp.Effects
import NetServer.Tcp.Recording
/-!
# Who opens and who closes descriptors

`accept4` opens the client's descriptor, `TcpConnection` wraps it in `channel_` and makes a socket of its own in
`socket_`, and `~Sockets` closes that one: no client descriptor is ever closed (`Ledger`). So the descriptors that are
open are those of the live connections only as long as no connection has been destroyed (`accounted_iff`).
-/

namespace NetServer
open Exec

/-! ## The books -/

/-- The connections made, with their client descriptors. -/
def built (trace : List Event) : List (ConnId × Fd) :=
  trace.filterMap fun ev => match ev with
    | .constructed c clientfd _ => some (c, clientfd)
    | _ => none

/-- The client descriptors that `accept4` returned and nobody has closed, last first. -/
def openClients (trace : List Event) : List Fd :=
  trace.foldl (fun l ev => match ev with
    | .accept4 (some fd) => fd :: l
    | .closed fd => l.erase fd
    | _ => l) []

/-- The same, of the descriptors that connections were made on. -/
def servedClients (trace : List Event) : List Fd :=
  trace.foldl (fun l ev => match ev with
    | .constructed _ fd _ => fd :: l
    | .closed fd => l.erase fd
    | _ => l) []

/-- The descriptors closed, in order. -/
def closings (trace : List Event) : List Fd :=
  trace.filterMap fun ev => match ev with
    | .closed fd => some fd
    | _ => none

/-- The client descriptors of the connections destroyed, in order. -/
def departures (trace : List Event) : List Fd :=
  trace.filterMap fun ev => match ev with
    | .destroyed c _ _ _ => (built trace).lookup c
    | _ => none

/-- The open client descriptors are those of the live connections, and what has been closed are those of the destroyed
ones, each when its connection went. -/
structure Accounted (w : World) : Prop where
  exact : ∀ f, f ∈ openClients w.trace ↔ ∃ c o, w.conns c = some o ∧ o.channel.fd = f
  closed : closings w.trace = departures w.trace

/-- What the books are about. -/
def Event.booked : Event → Bool
  | .constructed .. | .destroyed .. | .closed _ => true
  | _ => false

theorem built_append (l l' : List Event) : built (l ++ l') = built l ++ built l' := List.filterMap_append ..

theorem servedClients_append (l : List Event) (ev : Event) : servedClients (l ++ [ev]) = match ev with
    | .constructed _ fd _ => fd :: servedClients l
    | .closed fd => (servedClients l).erase fd
    | _ => servedClients l := by
  rw [servedClients, List.foldl_append]
  rfl

theorem openClients_append (l : List Event) (ev : Event) : openClients (l ++ [ev]) = match ev with
    | .accept4 (some fd) => fd :: openClients l
    | .closed fd => (openClients l).erase fd
    | _ => openClients l := by
  rw [openClients, List.foldl_append]
  rfl

section
variable {evs : List Event} (h : ∀ ev ∈ evs, ev.booked = false)
include h

theorem built_quiet : built evs = [] := by
  refine List.filterMap_eq_nil_iff.2 fun ev hev => ?_
  have := h ev hev
  cases ev <;> simp_all [Event.booked]

theorem servedClients_quiet (l : List Event) : servedClients (l ++ evs) = servedClients l := by
  induction evs using List.reverseRecOn with
  | nil => rw [List.append_nil]
  | append_singleton evs ev ih =>
    rw [← List.append_assoc, servedClients_append]
    have before := ih fun ev hev => h ev (List.mem_append_left _ hev)
    have quiet := h ev (by simp)
    cases ev <;> simp_all [Event.booked]

end

/-! ## The invariant -/

/-- The descriptors of the server itself and of its clients; none of them is ever closed. -/
def World.held (w : World) : List Fd := w.acceptChannel.fd :: w.timerChannel.fd :: (built w.trace).map Prod.snd

structure Ledger (w : World) : Prop where
  ids : (built w.trace).map Prod.fst = List.range w.nextConn
  distinct : ((built w.trace).map Prod.snd).Nodup
  server : w.acceptChannel.fd ∉ (built w.trace).map Prod.snd
  opened : ∀ f ∈ w.held, w.openFds f = true
  live : ∀ c o, w.conns c = some o → (c, o.channel.fd) ∈ built w.trace
  /-- What `~Sockets` will close is a descriptor of its own. -/
  sockets : ∀ c o, w.conns c = some o → o.socket ∉ w.held
  gone : ∀ c, c < w.nextConn → w.conns c = none → ∃ b r u, .destroyed c b r u ∈ w.trace
  destroyed : ∀ c b r u, .destroyed c b r u ∈ w.trace → c < w.nextConn ∧ w.conns c = none
  closed : ∀ f, .closed f ∈ w.trace → ∃ c b r u, .destroyed c b r u ∈ w.trace
  balance : servedClients w.trace = ((built w.trace).map Prod.snd).reverse
  /-- The acceptor stays registered for reading, and a descriptor in the interest set belongs to the channel it names. -/
  listening : w.interest w.acceptChannel.fd = some ⟨EPOLLIN, .acceptor⟩
  entries : ∀ f e, w.interest f = some e → (e.ptr = .acceptor ∧ f = w.acceptChannel.fd) ∨
    (e.ptr = .timer ∧ f = w.timerChannel.fd) ∨ ∃ c, e.ptr = .conn c ∧ (c, f) ∈ built w.trace

namespace Ledger

variable {s t : World} {evs : List Event}

theorem init (ipPort : Name) (listenFd timerFd : Fd) : Ledger (World.init ipPort listenFd timerFd) where
  ids := rfl
  distinct := List.nodup_nil
  server := List.not_mem_nil
  opened f hf := by
    obtain rfl | rfl : f = listenFd ∨ f = timerFd := by simpa [World.held, World.init, built] using hf
    · simp [World.init]
    · simp [World.init]
  live := nofun
  sockets := nofun
  gone c hc := absurd hc (Nat.not_lt_zero c)
  destroyed := nofun
  closed := nofun
  balance := rfl
  listening := if_pos rfl
  entries f e he := by
    simp only [World.init] at he
    split at he
    · rename_i hf
      cases he
      exact .inl ⟨rfl, hf⟩
    · split at he
      · rename_i hf
        cases he
        exact .inr (.inl ⟨rfl, hf⟩)
      · cases he

/-- Nothing that the books are about happens. -/
theorem quiet (h : Ledger s) (hn : t.nextConn = s.nextConn) (hacc : t.acceptChannel.fd = s.acceptChannel.fd)
    (htimer : t.timerChannel.fd = s.timerChannel.fd) (htr : t.trace = s.trace ++ evs) (hev : ∀ ev ∈ evs, ev.booked = false)
    (hobj : ∀ c o, t.conns c = some o → ∃ x, s.conns c = some x ∧ o.channel.fd = x.channel.fd ∧ o.socket = x.socket)
    (hlive : ∀ c, t.conns c = none → s.conns c = none) (hopen : ∀ f, s.openFds f = true → t.openFds f = true)
    (hinterest : ∀ f e, t.interest f = some e → s.interest f = some e ∨ ∃ c, e.ptr = .conn c ∧ (c, f) ∈ built s.trace)
    (hlisten : t.interest s.acceptChannel.fd = s.interest s.acceptChannel.fd) : Ledger t := by
  have hbuilt : built t.trace = built s.trace := by rw [htr, built_append, built_quiet hev, List.append_nil]
  have hheld : t.held = s.held := by rw [World.held, hacc, htimer, hbuilt]; rfl
  have old : ∀ ev ∈ t.trace, ev.booked = true → ev ∈ s.trace := fun ev hm hb => by
    rw [htr] at hm
    refine (List.mem_append.1 hm).resolve_right fun hm => ?_
    rw [hev ev hm] at hb
    cases hb
  have new : ∀ ev ∈ s.trace, ev ∈ t.trace := fun ev hm => htr ▸ List.mem_append_left _ hm
  refine ⟨?_, hbuilt ▸ h.distinct, ?_, fun f hf => hopen f (h.opened f (hheld ▸ hf)), fun c o hc => ?_, fun c o hc => ?_,
    fun c hc hnone => ?_, fun c b r u hd => ?_, fun f hf => ?_, ?_, ?_, fun f e he => ?_⟩
  · rw [hbuilt, hn, h.ids]
  · rw [hacc, hbuilt]; exact h.server
  · obtain ⟨x, hx, hfd, _⟩ := hobj c o hc
    rw [hfd, hbuilt]; exact h.live c x hx
  · obtain ⟨x, hx, _, hsock⟩ := hobj c o hc
    rw [hsock, hheld]; exact h.sockets c x hx
  · obtain ⟨b, r, u, hd⟩ := h.gone c (hn ▸ hc) (hlive c hnone)
    exact ⟨b, r, u, new _ hd⟩
  · obtain ⟨hlt, hnone⟩ := h.destroyed c b r u (old _ hd rfl)
    refine ⟨hn ▸ hlt, ?_⟩
    cases hc : t.conns c with
    | none => rfl
    | some o =>
      obtain ⟨x, hx, _⟩ := hobj c o hc
      rw [hnone] at hx; cases hx
  · obtain ⟨c, b, r, u, hd⟩ := h.closed f (old _ hf rfl)
    exact ⟨c, b, r, u, new _ hd⟩
  · rw [htr, servedClients_quiet hev, ← htr, hbuilt, h.balance]
  · rw [hacc, hlisten, h.listening]
  · rw [hacc, htimer, hbuilt]
    exact (hinterest f e he).elim (h.entries f e) fun hconn => .inr (.inr hconn)

/-- A change of one connection, and of its registration. -/
theorem own (h : Ledger s) {c : ConnId} {o o' : TcpConnection} {tr : List Event} (hc : s.conns c = some o)
    (hid : SameIdentity o o') (htr : tr = s.trace ++ evs) (hev : ∀ ev ∈ evs, ev.booked = false) : Ledger (s.own c o' tr) := by
  have hlive := h.live c o hc
  have hne : s.acceptChannel.fd ≠ o.channel.fd := fun he => h.server (he ▸ List.mem_map_of_mem hlive)
  refine h.quiet rfl rfl rfl htr hev (fun d x hx => ?_) (fun d hd => ?_) (fun _ hf => hf) (fun f e he => ?_) ?_
  · obtain ⟨rfl, rfl⟩ | ⟨_, hx⟩ := of_update_some hx
    · exact ⟨o, hc, hid.fd, hid.socket⟩
    · exact ⟨x, hx, rfl, rfl⟩
  · by_cases hdc : d = c
    · simp [World.own, World.put, hdc] at hd
    · simpa [World.own, World.put, hdc] using hd
  · by_cases hf : f = o'.channel.fd
    · refine .inr ⟨c, ?_, by rw [hf, hid.fd]; exact hlive⟩
      have hreg : o'.channel.registration (.conn c) = some e := by simpa [World.own, hf] using he
      unfold Channel.registration at hreg
      split at hreg
      · cases hreg; rfl
      · cases hreg
    · exact .inl (by simpa [World.own, hf] using he)
  · exact Function.update_of_ne (hid.fd ▸ hne) ..

/-- `~TcpConnection` closes the connection's own socket: no client's, and not the server's. -/
theorem destroy (h : Ledger s) (ho : Objects s) {c : ConnId} {o : TcpConnection} (hc : s.conns c = some o) :
    Ledger (s.destroyed c o) := by
  have hbuilt : built (s.destroyed c o).trace = built s.trace := by simp [World.destroyed, built]
  have hheld : (s.destroyed c o).held = s.held := by rw [World.held, hbuilt]; rfl
  have hsock := h.sockets c o hc
  have hclient : o.socket ∉ (built s.trace).map Prod.snd := fun hm => hsock (by simp [World.held, hm])
  have hfd : s.acceptChannel.fd ≠ o.socket := fun he => hsock (he ▸ List.mem_cons_self ..)
  have hgone : .destroyed c (s.inBatch c) (s.registered c) (s.borrowed.contains c) ∈ (s.destroyed c o).trace := by
    simp [World.destroyed]
  have old : ∀ ev ∈ s.trace, ev ∈ (s.destroyed c o).trace := fun ev hm => List.mem_append_left _ hm
  refine ⟨hbuilt ▸ h.ids, hbuilt ▸ h.distinct, hbuilt ▸ h.server, fun f hf => ?_, fun d x hx => ?_, fun d x hx => ?_,
    fun d hd hnone => ?_, fun d b r u hd => ?_, fun f _ => ⟨c, _, _, _, hgone⟩, ?_, ?_, fun f e he => ?_⟩
  · have hne : f ≠ o.socket := fun he => hsock (he ▸ hheld ▸ hf)
    simpa [World.destroyed, hne] using h.opened f (hheld ▸ hf)
  · rw [hbuilt]; exact h.live d x (of_update_none hx).2
  · rw [hheld]; exact h.sockets d x (of_update_none hx).2
  · by_cases hdc : d = c
    · subst hdc
      exact ⟨_, _, _, hgone⟩
    · obtain ⟨b, r, u, hm⟩ := h.gone d hd (by simpa [World.destroyed, hdc] using hnone)
      exact ⟨b, r, u, old _ hm⟩
  · by_cases hdc : d = c
    · subst hdc
      exact ⟨ho.allocated d o hc, Function.update_self ..⟩
    · obtain ⟨hlt, hnone⟩ := h.destroyed d b r u (by simpa [World.destroyed, hdc] using hd)
      exact ⟨hlt, by simpa [World.destroyed, hdc] using hnone⟩
  · have served : servedClients (s.destroyed c o).trace = (servedClients s.trace).erase o.socket := by
      rw [World.destroyed, List.append_cons, servedClients_append, servedClients_append]
    rw [served, hbuilt, h.balance, List.erase_of_not_mem]
    simpa using hclient
  · exact (Function.update_of_ne hfd ..).trans h.listening
  · rw [hbuilt]
    by_cases hf : f = o.socket
    · simp [World.destroyed, hf] at he
    · exact h.entries f e (by simpa [World.destroyed, hf] using he)

/-- A connection is made on a descriptor that was not open. -/
theorem make (h : Ledger s) {clientfd sock : Fd} (hfd : s.openFds clientfd = false)
    (hsock : Function.update s.openFds clientfd true sock = false) (ho : Objects s) : Ledger (s.made clientfd sock) := by
  have hne : sock ≠ clientfd := fun he => by simp [he] at hsock
  have hsock : s.openFds sock = false := by simpa [hne] using hsock
  have fresh : ∀ {f}, s.openFds f = false → f ∉ s.held := fun hf hm => by
    rw [h.opened _ hm] at hf
    cases hf
  have hclient : clientfd ∉ (built s.trace).map Prod.snd := fun hm => fresh hfd (by simp [World.held, hm])
  have hbuilt : built (s.made clientfd sock).trace = built s.trace ++ [(s.nextConn, clientfd)] := by
    simp [World.made, World.own, built]
  have hheld : ∀ {f}, f ∈ (s.made clientfd sock).held ↔ f ∈ s.held ∨ f = clientfd := by
    intro f
    rw [World.held, hbuilt]
    simp [World.held, World.made, World.own, World.put, World.admitted, or_assoc]
  have old : ∀ ev ∈ s.trace, ev ∈ (s.made clientfd sock).trace := fun ev hm => List.mem_append_left _ hm
  have booked : ∀ {ev : Event}, ev ∈ (s.made clientfd sock).trace → (∀ c f k, ev ≠ .constructed c f k) → ev.booked = true →
      ev ∈ s.trace := by
    intro ev hm hc hb
    refine (List.mem_append.1 hm).resolve_right fun hm => ?_
    obtain rfl | rfl | rfl : ev = .constructed s.nextConn clientfd sock ∨
        ev = .setConnectState s.nextConn .CONNECTING .CONNECTED ∨ ev = .connectionCallback s.nextConn true := by simpa using hm
    · exact hc _ _ _ rfl
    · cases hb
    · cases hb
  have conns : ∀ {d}, d ≠ s.nextConn → (s.made clientfd sock).conns d = s.conns d := fun hd => by
    simp [World.made, World.own, World.put, World.admitted, hd]
  have openFds : ∀ {f}, (s.made clientfd sock).openFds f = true ↔ s.openFds f = true ∨ f = clientfd ∨ f = sock := by
    intro f
    simp only [World.made, World.own, World.put, World.admitted]
    by_cases h1 : f = sock
    · simp [h1]
    · by_cases h2 : f = clientfd
      · simp [h2, Ne.symm hne]
      · simp [h1, h2]
  refine ⟨?_, ?_, ?_, fun f hf => ?_, fun d x hx => ?_, fun d x hx => ?_, fun d hd hnone => ?_, fun d b r u hd => ?_,
    fun f hf => ?_, ?_, ?_, fun f e he => ?_⟩
  · rw [hbuilt, List.map_append, h.ids]
    exact List.range_succ.symm
  · rw [hbuilt, List.map_append]
    exact List.nodup_append'.2 ⟨h.distinct, List.nodup_singleton _, by simpa using hclient⟩
  · rw [hbuilt]
    have hserver : s.acceptChannel.fd ≠ clientfd := fun he => fresh hfd (he ▸ List.mem_cons_self ..)
    have same : (s.made clientfd sock).acceptChannel = s.acceptChannel := rfl
    simpa [same, hserver] using h.server
  · obtain hf | rfl := hheld.1 hf
    · exact openFds.2 (.inl (h.opened f hf))
    · exact openFds.2 (.inr (.inl rfl))
  · rw [hbuilt]
    obtain ⟨rfl, rfl⟩ | ⟨hd, _⟩ := of_update_some hx
    · exact List.mem_append_right _ (List.mem_singleton_self _)
    · exact List.mem_append_left _ (h.live d x (conns hd ▸ hx))
  · rw [hheld, not_or]
    obtain ⟨rfl, rfl⟩ | ⟨hd, _⟩ := of_update_some hx
    · exact ⟨fresh hsock, hne⟩
    · have hold : s.conns d = some x := (conns hd).symm.trans hx
      refine ⟨h.sockets d x hold, fun he => ?_⟩
      rw [← he, (ho.opened d x hold).1] at hfd
      cases hfd
  · have hdn : d ≠ s.nextConn := by
      rintro rfl
      simp [World.made, World.own, World.put] at hnone
    obtain ⟨b, r, u, hm⟩ := h.gone d (Nat.lt_of_le_of_ne (Nat.le_of_lt_succ hd) hdn) (conns hdn ▸ hnone)
    exact ⟨b, r, u, old _ hm⟩
  · obtain ⟨hlt, hnone⟩ := h.destroyed d b r u (booked hd (by simp) rfl)
    exact ⟨Nat.lt_succ_of_lt hlt, (conns hlt.ne).trans hnone⟩
  · obtain ⟨c, b, r, u, hm⟩ := h.closed f (booked hf (by simp) rfl)
    exact ⟨c, b, r, u, old _ hm⟩
  · have served : servedClients (s.made clientfd sock).trace = clientfd :: servedClients s.trace := by
      rw [World.made, World.own, List.append_cons, servedClients_quiet (by simp [Event.booked]), servedClients_append]
    rw [served, hbuilt, h.balance]
    simp
  · have hlisten : s.acceptChannel.fd ≠ clientfd := fun he => fresh hfd (he ▸ List.mem_cons_self ..)
    exact (Function.update_of_ne hlisten ..).trans h.listening
  · rw [hbuilt]
    by_cases hf : f = clientfd
    · subst hf
      have hreg : e.ptr = .conn s.nextConn := by
        have hself : (s.made f sock).interest f = (s.madeConn f sock).channel.registration (.conn s.nextConn) :=
          Function.update_self ..
        rw [hself, Channel.registration] at he
        split at he
        · cases he; rfl
        · cases he
      exact .inr (.inr ⟨s.nextConn, hreg, List.mem_append_right _ (List.mem_singleton_self _)⟩)
    · have he : s.interest f = some e := by
        simpa [World.made, World.own, World.put, World.admitted, Channel.new, hf] using he
      obtain he | he | ⟨c, he, hm⟩ := h.entries f e he
      · exact .inl he
      · exact .inr (.inl he)
      · exact .inr (.inr ⟨c, he, List.mem_append_left _ hm⟩)

/-- The entry of a connection is on its client's descriptor. -/
theorem entry_conn {s : World} (h : Ledger s) {f : Fd} {e : EpollEvent ChannelPtr} (he : s.interest f = some e)
    {c : ConnId} (hconn : e.ptr = .conn c) : (c, f) ∈ built s.trace := by
  obtain ⟨hptr, -⟩ | ⟨hptr, -⟩ | ⟨d, hptr, hm⟩ := h.entries f e he
  · rw [hconn] at hptr; cases hptr
  · rw [hconn] at hptr; cases hptr
  · rw [hconn] at hptr; cases hptr; exact hm

/-- The entry of the acceptor is on the listening socket. -/
theorem entry_acceptor {s : World} (h : Ledger s) {f : Fd} {e : EpollEvent ChannelPtr} (he : s.interest f = some e)
    (hacc : e.ptr = .acceptor) : f = s.acceptChannel.fd := by
  obtain ⟨-, hf⟩ | ⟨hptr, -⟩ | ⟨_, hptr, -⟩ := h.entries f e he
  · exact hf
  · rw [hacc] at hptr; cases hptr
  · rw [hacc] at hptr; cases hptr

end Ledger

theorem Event.plain_unbooked (ev : Event) (h : ev.plain = true) : ev.booked = false := by
  cases ev <;> first | rfl | cases h

theorem Own.unbooked {c : ConnId} {waiting : Bool} {o o' : TcpConnection} {evs : List Event} (h : Own c waiting o o' evs) :
    ∀ ev ∈ evs, ev.booked = false := by
  cases h <;> simp [Event.booked]

theorem TcpConnection.parting_unbooked (c : ConnId) (o : TcpConnection) : ∀ ev ∈ o.parting c, ev.booked = false := by
  unfold TcpConnection.parting
  split <;> simp [Event.booked]

/-- **Every effect** keeps the books. -/
theorem Effect.ledger {loop : Bool} {s t : World} (e : Effect loop s t) (hs : WellFormed s) (h : Ledger s) : Ledger t := by
  -- an effect on owners, reports or the batch
  have idle : ∀ {w : World} (evs : List Event), w.nextConn = s.nextConn → w.acceptChannel.fd = s.acceptChannel.fd →
      w.timerChannel.fd = s.timerChannel.fd → w.trace = s.trace ++ evs → (∀ ev ∈ evs, ev.booked = false) →
      w.conns = s.conns → (∀ f, s.openFds f = true → w.openFds f = true) → w.interest = s.interest → Ledger w :=
    fun evs hn ha ht htr hev hc ho hi => h.quiet hn ha ht htr hev (fun c o hx => ⟨o, hc ▸ hx, rfl, rfl⟩) (fun c hx => hc ▸ hx) ho
      (fun f e he => .inl (hi ▸ he)) (hi ▸ rfl)
  cases e with
  | @told ev hev =>
    exact idle [ev] rfl rfl rfl rfl (fun x hx => List.mem_singleton.1 hx ▸ ev.plain_unbooked hev) rfl (fun _ hf => hf) rfl
  | own hc hown htr => exact h.own hc hown.identity htr hown.unbooked
  | @shut c o tr hc hst hw htr =>
    have same : SameIdentity o { o with connectState := .DISCONNECTING } := ⟨rfl, rfl, rfl⟩
    exact { h.own hc same htr (by simp [Event.booked]) with }
  | @removal c o ev tr hc hev htr =>
    refine { h.own hc o.parted_identity htr fun x hx => ?_ with }
    obtain rfl | hx := List.mem_cons.1 hx
    · obtain ⟨rfl, _⟩ | rfl := hev <;> rfl
    · exact o.parting_unbooked c x hx
  | destroyed hc => exact h.destroy hs.objects hc
  | made _ hfd hsock => exact h.make hfd hsock hs.objects
  | @opened fd =>
    refine idle [] rfl rfl rfl (List.append_nil _).symm (by simp) rfl (fun f hf => ?_) rfl
    by_cases hfd : f = fd
    · simp [World.opened, hfd]
    · simpa [World.opened, hfd] using hf
  | @entered c => exact idle [.established c] rfl rfl rfl rfl (by simp [Event.booked]) rfl (fun _ hf => hf) rfl
  | @reported p mask =>
    have quiet : ∀ ev ∈ [Event.reported p], ev.booked = false := by simp [Event.booked]
    cases p with
    | acceptor => exact idle _ rfl rfl rfl rfl quiet rfl (fun _ hf => hf) rfl
    | timer => exact idle _ rfl rfl rfl rfl quiet rfl (fun _ hf => hf) rfl
    | conn c =>
      refine h.quiet rfl rfl rfl rfl quiet (fun d x hx => ?_) (fun d hd => ?_) (fun _ hf => hf) (fun f e he => .inl he) rfl
      · by_cases hdc : d = c
        · subst hdc
          obtain ⟨o, ho, rfl⟩ : ∃ o, s.conns d = some o ∧ { o with channel := { o.channel with revents := mask } } = x := by
            simpa [World.withReturnEvents] using hx
          exact ⟨o, ho, rfl, rfl⟩
        · exact ⟨x, by simpa [World.withReturnEvents, hdc] using hx, rfl, rfl⟩
      · by_cases hdc : d = c
        · subst hdc
          simpa [World.withReturnEvents] using hd
        · simpa [World.withReturnEvents, hdc] using hd
  | owners => exact idle [] rfl rfl rfl (List.append_nil _).symm (by simp) rfl (fun _ hf => hf) rfl
  | timers => exact idle [] rfl rfl rfl (List.append_nil _).symm (by simp) rfl (fun _ hf => hf) rfl
  | handled => exact idle [] rfl rfl rfl (List.append_nil _).symm (by simp) rfl (fun _ hf => hf) rfl

theorem Visited.ledger {ipPort : Name} {listenFd timerFd : Fd} {w : World} (h : Visited ipPort listenFd timerFd w) :
    WellFormed w ∧ Ledger w := h.effects (.init ..) fun _ _ hs e => e.ledger hs

/-! ## What `accept4` returns becomes a connection -/

/-- A connection has been made on every descriptor that `accept4` returned, as far as it is open. -/
def Paired (l : List Event) : Prop := openClients l = servedClients l

/-- So it stays. -/
abbrev StaysPaired (l l' : List Event) : Prop := Paired l → Paired l'

theorem recordingPaired : RecordingAll fun s t => StaysPaired s.trace t.trace where
  refl _ := id
  trans h h' := h' ∘ h
  silent hs h := by
    rw [hs.trace]
    exact h
  event s ev hev h := by
    unfold Paired at h ⊢
    rw [openClients_append, servedClients_append]
    cases ev with
    | accept4 => cases hev
    | constructed => cases hev
    | closed fd => exact congrArg (·.erase fd) h
    | _ => exact h
  send s c message h := by
    unfold Paired at h ⊢
    rwa [openClients_append, servedClients_append]
  read s c bytes h := by
    unfold Paired at h ⊢
    rwa [openClients_append, servedClients_append]
  taken s c bytes h := by
    unfold Paired at h ⊢
    rwa [openClients_append, servedClients_append]
  input _ _ _ _ _ := id

/-- A connection is made on what `accept4` returned. -/
theorem admitsPaired : Admits fun s t => StaysPaired s.trace t.trace := by
  intro s t fd sock _ _ htr hp
  unfold Paired at hp ⊢
  rw [htr, openClients_append, openClients_append, servedClients_append, servedClients_append]
  exact congrArg (fd :: ·) hp

/-! ## Accounts -/

section
variable {w : World} (h : Ledger w)
include h

/-- The open client descriptors are those that connections were ever made on. -/
theorem Ledger.mem_openClients (hp : Paired w.trace) {f : Fd} : f ∈ openClients w.trace ↔ ∃ c, (c, f) ∈ built w.trace := by
  rw [hp, h.balance, List.mem_reverse, List.mem_map]
  constructor
  · rintro ⟨⟨c, _⟩, hm, rfl⟩
    exact ⟨c, hm⟩
  · rintro ⟨c, hm⟩
    exact ⟨(c, f), hm, rfl⟩

theorem Ledger.id_lt {c : ConnId} {f : Fd} (hm : (c, f) ∈ built w.trace) : c < w.nextConn := by
  have := List.mem_map_of_mem (f := Prod.fst) hm
  rwa [h.ids, List.mem_range] at this

/-- A connection has one client descriptor, and a client descriptor one connection. -/
theorem Ledger.one {c d : ConnId} {f g : Fd} (hc : (c, f) ∈ built w.trace) (hd : (d, g) ∈ built w.trace) :
    c = d ↔ f = g := by
  have ids : ((built w.trace).map Prod.fst).Nodup := h.ids ▸ List.nodup_range
  constructor
  · rintro rfl
    exact congrArg Prod.snd (List.inj_on_of_nodup_map ids hc hd rfl)
  · rintro rfl
    exact congrArg Prod.fst (List.inj_on_of_nodup_map h.distinct hc hd rfl)

theorem Ledger.has_fd {c : ConnId} (hc : c < w.nextConn) : ∃ f, (c, f) ∈ built w.trace := by
  have hm : c ∈ (built w.trace).map Prod.fst := h.ids ▸ List.mem_range.2 hc
  obtain ⟨⟨_, f⟩, hbuilt, rfl⟩ := List.mem_map.1 hm
  exact ⟨f, hbuilt⟩

/-- No connection has been destroyed: nothing has been closed, and every connection made is alive. -/
theorem Ledger.accounted (hp : Paired w.trace) (hnone : ∀ c b r u, .destroyed c b r u ∉ w.trace) : Accounted w where
  exact f := by
    rw [h.mem_openClients hp]
    constructor
    · rintro ⟨c, hm⟩
      cases hc : w.conns c with
      | none =>
        obtain ⟨b, r, u, hd⟩ := h.gone c (h.id_lt hm) hc
        exact absurd hd (hnone c b r u)
      | some o => exact ⟨c, o, hc, (h.one (h.live c o hc) hm).1 rfl⟩
    · rintro ⟨c, o, hc, rfl⟩
      exact ⟨c, h.live c o hc⟩
  closed := by
    have none_closed : closings w.trace = [] := by
      refine List.filterMap_eq_nil_iff.2 fun ev hev => ?_
      cases ev with
      | closed f =>
        obtain ⟨c, b, r, u, hd⟩ := h.closed f hev
        exact absurd hd (hnone c b r u)
      | _ => rfl
    have none_gone : departures w.trace = [] := by
      refine List.filterMap_eq_nil_iff.2 fun ev hev => ?_
      cases ev with
      | destroyed c b r u => exact absurd hev (hnone c b r u)
      | _ => rfl
    rw [none_closed, none_gone]

/-- The client descriptor of a destroyed connection stays open. -/
theorem Ledger.not_accounted (hp : Paired w.trace) {c : ConnId} {b r u : Bool} (hd : .destroyed c b r u ∈ w.trace) :
    ¬ Accounted w := by
  intro hacc
  obtain ⟨hlt, hgone⟩ := h.destroyed c b r u hd
  obtain ⟨f, hm⟩ := h.has_fd hlt
  obtain ⟨d, o, hlive, hfd⟩ := (hacc.exact f).1 ((h.mem_openClients hp).2 ⟨c, hm⟩)
  have hcd : c = d := (h.one hm (h.live d o hlive)).2 hfd.symm
  rw [← hcd, hgone] at hlive
  cases hlive

end

/-- **The descriptors are accounted for iff no connection has been destroyed**, at every turn of the loop. -/
theorem accounted_iff (ipPort : Name) (listenFd timerFd : Fd) (w : World)
    (h : Run step (fun _ a => a.ofLoop = true) (World.init ipPort listenFd timerFd) w) :
    Accounted w ↔ ∀ c inBatch registered inUse, .destroyed c inBatch registered inUse ∉ w.trace := by
  have visited : Visited ipPort listenFd timerFd w := .inl (h.weaken fun _ _ _ => trivial)
  have ledger := visited.ledger.2
  have paired : Paired w.trace := h.invariant (I := fun w : World => Paired w.trace) rfl fun s a hs ha =>
    (step_records recordingPaired admitsPaired a ha s trivial).mono (fun _ _ ht => ht hs) fun _ _ _ => trivial
  constructor
  · exact fun hacc c b r u hd => ledger.not_accounted paired hd hacc
  · exact ledger.accounted paired

/-- One client is connected. -/
theorem accounted_iff_one :
    ∃ w : World, Run step (fun _ a => a.ofLoop = true) (World.init [] 3 4) w ∧ openClients w.trace = [5] ∧
      (Accounted w ↔ ∀ c inBatch registered inUse, Event.destroyed c inBatch registered inUse ∉ w.trace) := by
  obtain ⟨w, run, hw⟩ := Run.reaches step (fun _ a => a.ofLoop = true) (World.init [] 3 4)
    [.poll [(3, EPOLLIN)], .dispatch { clientfd := some 5, sock := some 6 }] (fun w => openClients w.trace = [5])
    (by decide +kernel) (by decide +kernel)
  exact ⟨w, run, hw, accounted_iff [] 3 4 w run⟩

/-- A client connects and hangs up, and the user lets go of the connection afterwards. -/
theorem not_accounted_hup :
    ¬ ∀ (ipPort : Name) (listenFd timerFd : Fd) (w : World),
      Run step (fun _ a => a.ofLoop = true) (World.init ipPort listenFd timerFd) w → Accounted w := by
  intro accounted
  obtain ⟨w, run, hw⟩ := Run.reaches step (fun _ a => a.ofLoop = true) (World.init [] 3 4)
    [.poll [(3, EPOLLIN)], .dispatch { clientfd := some 5, sock := some 6, up := .keep 0 .done },
      .poll [(5, EPOLLHUP)], .dispatch {}, .user (.drop 0 .done)]
    (fun w => closings w.trace = [6] ∧ departures w.trace = [5])
    (by decide +kernel) (by decide +kernel)
  have closed := (accounted [] 3 4 w run).closed
  rw [hw.1, hw.2] at closed
  exact absurd closed (by decide)

end NetServer
