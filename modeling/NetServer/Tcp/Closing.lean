import NetServer.Tcp.Apart
import NetServer.Tcp.Interest
import NetServer.Tcp.Leaks
/-!
# `handleClose` and a DOWN callback that sends

`handleClose` disables the channel, calls the DOWN callback and has the channel removed, which asserts that it asks for
nothing. `send` does not look at `connectState_`: one that keeps bytes back asks for `EPOLLOUT` again, and the `assert`
fails. The close goes through exactly when every `send` on the connection goes out whole (`close_unregisters_iff`).
-/

namespace NetServer
open Exec

/-- User code only sends … -/
def onlySends : CallKind → ConnId → Bool := fun k _ => k == .send

/-- … on this connection. -/
def onlySendsOn (c : ConnId) : CallKind → ConnId → Bool := fun k d => k == .send && d == c

/-- The messages that a callback sends on the connection, each with what `::write` returns. -/
def Script.sends (c : ConnId) : Script → List (Bytes × Option Nat)
  | .done => []
  | .send d message r next => if d = c then (message, r) :: next.sends c else next.sends c
  | .echo _ _ next | .retrieve _ _ next | .shutdown _ _ next | .removeConnection _ _ next | .keep _ next
  | .drop _ next | .timer _ next => next.sends c

/-- Nothing waits when the DOWN callback of `o` sends the message and `::write` accepts all of it, or the message is empty. -/
def TcpConnection.ClosesWith (o : TcpConnection) (message : Bytes) (r : Option Nat) : Prop :=
  message = [] ∨ o.outputBuffer.readable = [] ∧ message.length ≤ r.getD 0

/-- So it is with every message that the callback sends on the connection. -/
def Script.Whole (c : ConnId) (o : TcpConnection) (s : Script) : Prop := ∀ p ∈ s.sends c, o.ClosesWith p.1 p.2

/-- The channel asks for nothing and is not in the interest set. -/
structure Unregistered (c : ConnId) (fd : Fd) (w : World) : Prop where
  interest : w.interest fd = none
  silent : ∀ x, w.conns c = some x → x.channel.fd = fd ∧ x.channel.events = Channel.NoEvent

/-! ## While the DOWN callback runs -/

/-- The connection that was `o` is down: it asks for nothing as long as every `send` was `whole`, for `EPOLLOUT` afterwards. -/
structure Closing (o : TcpConnection) (whole : Prop) (x : TcpConnection) : Prop where
  state : x.connectState = .DISCONNECTED
  fd : x.channel.fd = o.channel.fd
  silent : whole → x.channel.events = Channel.NoEvent ∧ x.outputBuffer.readable = o.outputBuffer.readable
  writing : ¬ whole → x.channel.isWriting = true

/-- So it is in `w`. -/
structure ClosingIn (c : ConnId) (o : TcpConnection) (whole : Prop) (w : World) : Prop where
  wellFormed : WellFormed w
  conn : ∃ x, w.conns c = some x ∧ Closing o whole x

namespace Closing

variable {o x : TcpConnection} {whole : Prop}

theorem whole_of_idle (h : Closing o whole x) (hidle : x.channel.isWriting = false) : whole := by
  by_contra hw
  exact absurd (hidle.symm.trans (h.writing hw)) (by decide)

theorem idle_iff (h : Closing o whole x) : x.channel.isWriting = false ↔ whole :=
  ⟨h.whole_of_idle, fun hw => isWriting_none (h.silent hw).1⟩

/-- The next `send` goes out whole. -/
theorem sendsWhole_iff (h : Closing o whole x) (hw : whole) (message : Bytes) (r : Option Nat) :
    x.SendsWhole message r ↔ o.ClosesWith message r := by
  simp only [TcpConnection.SendsWhole, TcpConnection.ClosesWith, h.idle_iff, hw, true_and, (h.silent hw).2]

/-- A `send` that keeps nothing back. -/
theorem passed (h : Closing o whole x) {p : Prop} (hp : whole → p) : Closing o (whole ∧ p) x where
  state := h.state
  fd := h.fd
  silent hw := h.silent hw.1
  writing hn := h.writing fun hw => hn ⟨hw, hp hw⟩

end Closing

theorem ClosingIn.congr {c : ConnId} {o : TcpConnection} {p q : Prop} {w : World} (h : ClosingIn c o p w) (hpq : p ↔ q) :
    ClosingIn c o q w := propext hpq ▸ h

section
variable {c : ConnId} {o : TcpConnection} {whole : Prop} {s : World}

/-- **One `send`** on the connection that closes. -/
theorem send_closing (h : ClosingIn c o whole s) (message : Bytes) (r : Option Nat) :
    Ensures (TcpConnection.send c message r) s (fun _ t => ClosingIn c o (whole ∧ o.ClosesWith message r) t)
      fun _ _ => ¬ (whole ∧ o.ClosesWith message r) := by
  obtain ⟨x, hx, hclosing⟩ := h.conn
  have conn : Ensures (TcpConnection.send c message r) s
      (fun _ t => ∃ y, t.conns c = some y ∧ Closing o (whole ∧ o.ClosesWith message r) y)
      fun _ _ => ¬ (whole ∧ o.ClosesWith message r) := by
    refine send_enters (fun o hc => (h.wellFormed.buffers c o hc).2) message r (fun hn => by simp [hx] at hn) ?_ ?_
    · rintro y e t hy hpart - - - ⟨hw, hmessage⟩
      obtain rfl : x = y := Option.some.inj (hx.symm.trans hy)
      exact hpart ((hclosing.sendsWhole_iff hw message r).2 hmessage)
    · intro y evs accepted left hy hleft _ _
      obtain rfl : x = y := Option.some.inj (hx.symm.trans hy)
      refine ⟨fun hnil => ?_, fun b hkept _ _ => ?_⟩
      · exact ⟨x, hx, hclosing.passed fun hw => (hclosing.sendsWhole_iff hw message r).1 (hleft.1 hnil)⟩
      · have hpart : ¬ (whole ∧ o.ClosesWith message r) := fun ⟨hw, hmessage⟩ =>
          hkept (hleft.2 ((hclosing.sendsWhole_iff hw message r).2 hmessage))
        have self : (({ s with trace := s.trace ++ .send c message :: evs } : World).put c { x with outputBuffer := b }).conns c =
            some { x with outputBuffer := b } := Function.update_self ..
        refine queued_enters self (h.wellFormed.objects.mirrors c x hx) (fun hbusy => ?_) fun _ => ?_
        · exact ⟨_, self, hclosing.state, hclosing.fd, fun hw => absurd hw hpart, fun _ => hbusy⟩
        · have writes : (x.channel.set (· ||| EPOLLOUT)).isWriting = true := Mask.has_or_self _ _ (by decide)
          exact ⟨_, Function.update_self .., hclosing.state, hclosing.fd, fun hw => absurd hw hpart, fun _ => writes⟩
  have sends : Chained true (TcpConnection.send c message r) := send_chained c message r
  have wellFormed := sends.from' h.wellFormed
  exact (wellFormed.and conn).mono (fun _ t ht => ⟨effects_wellFormed ht.1 h.wellFormed, ht.2⟩) fun _ _ ht => ht.2

/-- A `send` on another connection. -/
theorem send_elsewhere (h : ClosingIn c o whole s) {d : ConnId} (hd : d ≠ c) (message : Bytes) (r : Option Nat) :
    Ensures (TcpConnection.send d message r) s (fun _ t => ClosingIn c o whole t) fun _ _ => True := by
  obtain ⟨x, hx, hclosing⟩ := h.conn
  have sends : Chained true (TcpConnection.send d message r) := send_chained d message r
  have wellFormed := sends.from' h.wellFormed
  refine (wellFormed.and ((send_touches d message r).spares (d := c) s hd)).mono (fun _ t ht => ?_) fun _ _ _ => trivial
  obtain ⟨-, untouched⟩ := ht.2 h.wellFormed.objects (by simp [hx])
  exact ⟨effects_wellFormed ht.1 h.wellFormed, x, untouched.object.trans hx, hclosing⟩

/-- **The DOWN callback**, induction on what it sends: it returns if every `send` on the connection is whole and it sends on
no other one and leaves the timers alone. -/
theorem script_closing (down : Script) (hd : down.only onlySends = true) (h : ClosingIn c o whole s) (hframe : c ∈ s.frames) :
    Ensures down.run s (fun _ t => ClosingIn c o (whole ∧ down.Whole c o) t ∧ SameOwners s t)
      fun _ _ => whole ∧ down.Whole c o → down.only (onlySendsOn c) = false ∨ down.timerless = false := by
  induction down generalizing whole s with
  | done =>
    have none : Script.done.Whole c o := nofun
    exact ⟨h.congr (and_iff_left none).symm, .refl s⟩
  | send d message r next ih =>
    obtain ⟨-, hnext⟩ := Bool.and_eq_true_iff.1 hd
    simp only [Script.run, userPtr, ensures_bind, ensures_get, ensures_ite, ensures_pure, ensures_throw]
    by_cases hdc : d = c
    · subst hdc
      have first : (Script.send d message r next).Whole d o ↔ o.ClosesWith message r ∧ next.Whole d o := by
        simp [Script.Whole, Script.sends]
      refine ⟨fun _ => ?_, fun hn => absurd (.inr hframe) hn⟩
      refine ((send_closing h message r).and (send_touches d message r s trivial)).mono ?_ ?_
      · rintro _ t ⟨ht, touched⟩
        have same := touched.owners
        refine (ih hnext ht (same.frames ▸ hframe)).mono ?_ ?_
        · exact fun _ u hu => ⟨hu.1.congr (by rw [first, and_assoc]), same.trans hu.2⟩
        · intro _ _ hstop hw
          rw [first, ← and_assoc] at hw
          exact (hstop hw).imp (fun hother => by simp [Script.only, hother]) id
      · rintro _ _ ⟨hpart, -⟩ ⟨hw, hall⟩
        exact absurd ⟨hw, (first.1 hall).1⟩ hpart
    · have elsewhere : (Script.send d message r next).Whole c o ↔ next.Whole c o := by
        simp [Script.Whole, Script.sends, hdc]
      have stops : (Script.send d message r next).only (onlySendsOn c) = false := by simp [Script.only, onlySendsOn, hdc]
      refine ⟨fun _ => ?_, fun _ _ => .inl stops⟩
      refine ((send_elsewhere h hdc message r).and (send_touches d message r s trivial)).mono ?_ fun _ _ _ _ => .inl stops
      rintro _ t ⟨ht, touched⟩
      have same := touched.owners
      refine (ih hnext ht (same.frames ▸ hframe)).mono ?_ fun _ _ _ _ => .inl stops
      exact fun _ u hu => ⟨hu.1.congr (by rw [elsewhere]), same.trans hu.2⟩
  | echo => cases hd
  | retrieve => cases hd
  | shutdown => cases hd
  | removeConnection => cases hd
  | keep => cases hd
  | drop => cases hd
  | timer x next ih =>
    simp only [Script.run, ensures_bind]
    refine ensures_onTimers.2 ((Timers.contained_call x s.timerQueue trivial).mono (fun _ q hq => ?_) fun _ _ _ _ => .inr rfl)
    have armed : Effect true s { s with timerQueue := q } := .timers hq
    refine (ih hd ⟨armed.wellFormed h.wellFormed, h.conn⟩ hframe).mono (fun _ t ht => ?_) fun _ _ _ _ => .inr rfl
    have same : SameOwners s { s with timerQueue := q } := ⟨fun _ => rfl, rfl, rfl, rfl⟩
    exact ⟨ht.1, same.trans ht.2⟩

/-! ## After the DOWN callback -/

/-- The last pointer may go: an unregistered channel stays so. -/
theorem release_unregistered {fd : Fd} (h : Unregistered c fd s) (hc : (s.conns c).isSome) :
    Ensures (release c) s (fun _ t => Unregistered c fd t) fun _ _ => False := by
  refine ensures_release.2 ⟨fun _ => h, fun _ => ⟨fun x _ => ⟨?_, fun y hy => ?_⟩, fun hn => by simp [hn] at hc⟩⟩
  · by_cases hfd : fd = x.socket
    · simp [World.destroyed, hfd]
    · simpa [World.destroyed, hfd] using h.interest
  · simp [World.destroyed] at hy

/-- **`closeCallback_`** has the channel removed if it still asks for nothing. -/
theorem closeCallback_unregisters (h : ClosingIn c o whole s) (user : M Unit) :
    Ensures (TcpConnection.closeCallback c user) s (fun _ t => whole ∧ Unregistered c o.channel.fd t) fun _ _ => ¬ whole := by
  obtain ⟨x, hx, hclosing⟩ := h.conn
  have down : x.connectState ≠ .CONNECTED := by rw [hclosing.state]; decide
  have chain : Relation.ReflTransGen (Effect true) s _ := (Relation.ReflTransGen.single (push_effect h.wellFormed hx)).tail
    (.removal hx (.inl ⟨rfl, rfl⟩) rfl (.inr (List.mem_cons_self ..)))
  have removed : WellFormed (({ s with frames := c :: s.frames } : World).removed c x (.closeCallback c)) :=
    effects_wellFormed chain h.wellFormed
  have self : (({ s with frames := c :: s.frames } : World).removed c x (.closeCallback c)).conns c = some x := by
    simp [World.removed, World.own, World.put, TcpConnection.parted, down]
  have framed : Objects { s with frames := c :: s.frames } := owned_pushFrame h.wellFormed.objects (by simp [hx])
  have absent : ∀ {p : Prop}, s.conns c = none → p := fun hn => (Option.some_ne_none x (hx.symm.trans hn)).elim
  simp only [TcpConnection.closeCallback, withPtr, ensures_bind (deref c), ensures_bind (modify _), ensures_deref, ensures_modify]
  refine ⟨fun _ _ => ⟨fun _ _ => ?_, absent⟩, absent⟩
  rw [ensures_bind]
  refine removeConnection_enters framed hx (.inr (List.mem_cons_self ..)) (.closeCallback c) (fun hst => absurd hst down)
    fun _ => ?_
  refine removeChannel_enters removed.objects (fun hn => by simp [self] at hn) ?_ ?_
  · intro y hy hbusy _ _ hw
    obtain rfl : x = y := Option.some.inj (self.symm.trans hy)
    simp [Channel.isNoneEvent, (hclosing.silent hw).1] at hbusy
  · intro y hy hidle
    obtain rfl : x = y := Option.some.inj (self.symm.trans hy)
    have hnone : x.channel.events = Channel.NoEvent := by simpa [Channel.isNoneEvent] using hidle
    have hw := hclosing.whole_of_idle (isWriting_none hnone)
    rw [ensures_bind, ensures_modify]
    refine (release_unregistered ⟨?_, fun y hy => ?_⟩ ?_).mono (fun _ _ ht => ⟨hw, ht⟩) fun _ _ hf => hf.elim
    · rw [← hclosing.fd]
      simp [World.own, Channel.registration]
    · obtain ⟨-, rfl⟩ | ⟨hne, -⟩ := of_update_some hy
      · exact ⟨hclosing.fd, hnone⟩
      · exact absurd rfl hne
    · simp [World.own, World.put]

/-- **`handleClose`** of an owned connection, with a DOWN callback that only sends. -/
theorem handleClose_unregisters (hs : WellFormed s) (hc : s.conns c = some o) (hown : s.owned c = true) (down : Script)
    (hd : down.only onlySends = true) (user : M Unit) :
    Ensures (TcpConnection.handleClose c down.run user) s (fun _ t => down.Whole c o ∧ Unregistered c o.channel.fd t)
      fun _ _ => down.Whole c o → down.only (onlySendsOn c) = false ∨ down.timerless = false := by
  have called : Ensures (do
      setConnectState c .DISCONNECTED
      onChannel c Channel.diabledAllEvents
      TcpConnection.connectionCallback c down.run) s (fun _ t => ClosingIn c o (down.Whole c o) t)
      fun _ _ => down.Whole c o → down.only (onlySendsOn c) = false ∨ down.timerless = false := by
    refine goDown_enters hs.objects (fun hn => by simp [hc] at hn) fun x hx => ?_
    obtain rfl : o = x := Option.some.inj (hc.symm.trans hx)
    have effects : Relation.ReflTransGen (Effect true) s _ := goDown_effects hs hc
    have entered := effects_wellFormed effects hs
    have closing : Closing o True o.goneDown := ⟨rfl, rfl, fun _ => ⟨rfl, rfl⟩, fun hn => absurd trivial hn⟩
    have sent := script_closing down hd ⟨entered, o.goneDown, Function.update_self .., closing⟩ (List.mem_cons_self ..)
    simp only [true_and] at sent
    rw [ensures_bind]
    refine sent.mono ?_ fun _ _ he => he
    rintro _ t ⟨ht, same⟩
    have popped : Effect true t { t with frames := t.frames.erase c } :=
      .owners fun d hd => (owned_popFrame ht.wellFormed.objects c).alive d hd
    -- the pointers are those from before the close
    have owners : ({ t with frames := t.frames.erase c } : World).owned c = s.owned c := by
      simp only [World.owned, World.inMap, same.frames, same.userRefs, same.entries, List.erase_cons_head]
      rfl
    rw [ensures_bind, ensures_modify]
    exact release_owned (owners.trans hown) ⟨popped.wellFormed ht.wellFormed, ht.conn⟩
  have closed : Ensures _ s (fun _ t => down.Whole c o ∧ Unregistered c o.channel.fd t)
      fun _ _ => down.Whole c o → down.only (onlySendsOn c) = false ∨ down.timerless = false :=
    (ensures_bind _ fun _ => TcpConnection.closeCallback c user).2 (called.mono (fun _ t ht =>
      (closeCallback_unregisters ht user).mono (fun _ _ hu => hu) fun _ _ hpart hw => absurd hw hpart) fun _ _ he => he)
  simpa only [TcpConnection.handleClose, bind_assoc] using closed

end

/-! ## Every close -/

/-- **Closing ends unregistered exactly when every `send` on the connection goes out whole**, in every state that is visited.
A callback that sends on other connections too or uses timers may stop there; where the close goes through, the same
holds. -/
theorem close_unregisters_iff (ipPort : Name) (listenFd timerFd : Fd) (w : World) (h : Visited ipPort listenFd timerFd w)
    (c : ConnId) (o : TcpConnection) (hc : w.conns c = some o) (down user : Script) (hd : down.only onlySends = true) :
    (down.only (onlySendsOn c) = true → down.timerless = true →
      ((∃ t, TcpConnection.handleClose c down.run user.run w = .ok () t ∧ Unregistered c o.channel.fd t) ↔ down.Whole c o)) ∧
    ∀ t, TcpConnection.handleClose c down.run user.run w = .ok () t → down.Whole c o ∧ Unregistered c o.channel.fd t := by
  have hown := h.noLeak c trivial (by simp [hc])
  have closes := handleClose_unregisters h.wellFormed hc hown down hd user.run
  have returned : ∀ t, TcpConnection.handleClose c down.run user.run w = .ok () t →
      down.Whole c o ∧ Unregistered c o.channel.fd t := fun t ht => (ensures_ok ht).1 closes
  refine ⟨fun hall htimerless => ⟨fun ⟨t, ht, _⟩ => (returned t ht).1, fun hw => ?_⟩, returned⟩
  have goes : Ensures (TcpConnection.handleClose c down.run user.run) w (fun _ t => Unregistered c o.channel.fd t)
      fun _ _ => False := closes.mono (fun _ _ ht => ht.2) fun _ _ hstop => by
    obtain other | other := hstop hw
    · exact absurd (hall.symm.trans other) (by decide)
    · exact absurd (htimerless.symm.trans other) (by decide)
  obtain ⟨_, t, ht, hu⟩ := goes.returns
  exact ⟨t, ht, hu⟩

/-- A client hangs up, and the DOWN callback sends two bytes that `::write` accepts, and none. -/
theorem close_unregisters_iff_whole :
    ∃ w t, Visited [] 3 4 w ∧ w.interest 5 = some ⟨EPOLLIN, .conn 0⟩ ∧
      TcpConnection.handleClose 0 (Script.send 0 [1, 2] (some 2) (.send 0 [] none .done)).run Script.done.run w = .ok () t ∧
      Unregistered 0 5 t := by
  obtain ⟨w, run, registered, hconn⟩ := Run.reaches step (fun _ _ => True) (World.init [] 3 4)
    [.poll [(3, EPOLLIN)], .dispatch { clientfd := some 5, sock := some 6 }]
    (fun w => w.interest 5 = some ⟨EPOLLIN, .conn 0⟩ ∧
      (w.conns 0).map (fun o => (o.channel.fd, o.outputBuffer.readable)) = some (5, []))
    (by decide +kernel) (by decide +kernel)
  obtain ⟨o, hc, ho⟩ := Option.map_eq_some_iff.1 hconn
  obtain ⟨hfd, hempty⟩ := Prod.mk.inj ho
  have whole : (Script.send 0 [1, 2] (some 2) (.send 0 [] none .done)).Whole 0 o := by
    simp [Script.Whole, Script.sends, TcpConnection.ClosesWith, hempty]
  obtain ⟨t, ht, hu⟩ := ((close_unregisters_iff [] 3 4 w (.inl run) 0 o hc _ .done (by decide)).1 (by decide) (by decide)).2 whole
  exact ⟨w, t, .inl run, registered, ht, hfd ▸ hu⟩

/-- `::write` accepts one of two bytes that the DOWN callback sends: `EPOLLOUT` comes back, and the `assert` of
`Channel::remove` fails. -/
theorem not_close_unregisters_partial :
    ¬ ∀ (ipPort : Name) (listenFd timerFd : Fd) (w : World), Visited ipPort listenFd timerFd w →
      ∀ (c : ConnId) (o : TcpConnection), w.conns c = some o → ∀ down user : Script, down.only (onlySendsOn c) = true →
      down.timerless = true → ∃ t, TcpConnection.handleClose c down.run user.run w = .ok () t ∧ Unregistered c o.channel.fd t := by
  intro closes
  obtain ⟨w, run, halive, hstops⟩ := Run.reaches step (fun _ _ => True) (World.init [] 3 4)
    [.poll [(3, EPOLLIN)], .dispatch { clientfd := some 5, sock := some 6 }]
    (fun w => (w.conns 0).isSome ∧
      Ensures (TcpConnection.handleClose 0 (Script.send 0 [1, 2] (some 1) .done).run Script.done.run) w (fun _ _ => False)
        fun e t => e = .assertFailed ∧ t.interest 5 = some ⟨EPOLLOUT, .conn 0⟩)
    (by decide +kernel) (by decide +kernel)
  obtain ⟨o, hc⟩ := Option.isSome_iff_exists.1 halive
  obtain ⟨t, ht, -⟩ := closes [] 3 4 w (.inl run) 0 o hc (.send 0 [1, 2] (some 1) .done) .done (by decide) (by decide)
  exact (ensures_ok ht).1 hstops

end NetServer
