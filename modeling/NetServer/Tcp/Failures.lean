import NetServer.Tcp.Apart
import NetServer.Tcp.Interest
import NetServer.Tcp.Ownership
import NetServer.Tcp.Timing
/-!
# What a failing system call can do

`send` keeps back what `::write` refuses and a failing `readv` is ignored, but a failing `accept4` or `::socket` runs into an
`assert`, a failing `::write` of `handleWrite` into `abort()`, and so do a failing `::shutdown`, a `channel_->remove()` that
finds interest left, and the `assert`s of `handleTimingRead`: each takes the whole process with it. Where none of them happens
(`Served`), a step ends neither in an `assert` nor in `abort()` (`step_excused`), and a batch is processed to its end
(`failures_contained`).
-/

namespace NetServer
open Exec

/-- `accept4` and `::socket` returned a descriptor, the `::write` of `handleWrite` took something, `::shutdown` returned 0;
`send` kept bytes back on a connection that is up; the timerfd had something to read and no timer was due the nanosecond
after the clock reading; and a message is a `std::string`. -/
def Event.served : Event → Bool
  | .accept4 r => r.any (0 < ·)
  | .socketFailed => false
  | .handleWrite _ r => r.any (1 ≤ ·)
  | .shutWr _ _ ok => ok
  | .queued _ st => st == .CONNECTED
  | .timingRead unread exact => unread && exact
  | .send _ message => message.length < 2 ^ 63
  | _ => true

abbrev AllServed (trace : List Event) : Prop := ∀ ev ∈ trace, ev.served = true

/-- And every timer was cancelled while its entry was queued. -/
structure Served (w : World) : Prop where
  events : AllServed w.trace
  timers : Timers.AllQueued w.timerQueue.trace

/-- Neither an `assert` nor `abort()` has ended the step, unless a call was not served. -/
def Excused (e : Fault) (t : World) : Prop :=
  Served t → e = .outside ∨ e = .overflow ∨ e = .lengthError ∨ e = .useAfterFree

theorem Excused.outside {t : World} : Excused .outside t := fun _ => .inl rfl
theorem Excused.overflow {t : World} : Excused .overflow t := fun _ => .inr (.inl rfl)
theorem Excused.lengthError {t : World} : Excused .lengthError t := fun _ => .inr (.inr (.inl rfl))
theorem Excused.useAfterFree {t : World} : Excused .useAfterFree t := fun _ => .inr (.inr (.inr rfl))

/-- What every effect keeps, and what the code relies on. -/
structure Sound (w : World) : Prop where
  wellFormed : WellFormed w
  paced : ∀ c o, w.conns c = some o → Paced o
  uncanceled : w.timerQueue.Uncanceled
  /-- A connection that is not up asks for nothing. -/
  idle : AllServed w.trace → ∀ c o, w.conns c = some o → o.connectState ≠ .CONNECTED → o.channel.events = Channel.NoEvent

section
variable {loop : Bool} {s t : World}

theorem Effect.uncanceled (e : Effect loop s t) (h : s.timerQueue.Uncanceled) : t.timerQueue.Uncanceled := by
  cases e with
  | timers hq => exact hq h
  | @reported p => cases p <;> exact h
  | _ => exact h

theorem Own.idle {c : ConnId} {waiting : Bool} {o o' : TcpConnection} {evs : List Event} (h : Own c waiting o o' evs)
    (hserved : AllServed evs) (hidle : o.connectState ≠ .CONNECTED → o.channel.events = Channel.NoEvent)
    (hst : o'.connectState ≠ .CONNECTED) : o'.channel.events = Channel.NoEvent := by
  cases h with
  | queued => exact absurd (eq_of_beq (hserved _ (List.mem_singleton_self _))) hst
  | wrote => exact hidle hst
  | drained hw =>
    rw [isWriting_none (hidle hst)] at hw
    cases hw
  | input => exact hidle hst
  | removed => exact hidle hst
  | down => rfl

/-- A connection stays down, and one that is down asks for nothing. -/
theorem Effect.idle (e : Effect loop s t) (hs : Sound s) (hserved : AllServed t.trace) (c : ConnId) (o : TcpConnection)
    (hc : t.conns c = some o) (hst : o.connectState ≠ .CONNECTED) : o.channel.events = Channel.NoEvent := by
  have before := hs.idle fun ev hev => hserved ev (e.trace.subset hev)
  cases e.view hs.wellFormed c with
  | aside evs hn hobj htr hev hmap =>
    obtain ⟨x, mask, hx, rfl, -⟩ := hobj o hc
    exact before c x hx hst
  | own hx hown hn ht htr hmap =>
    obtain rfl := Option.some.inj (ht.symm.trans hc)
    exact hown.idle (fun ev hev => hserved ev (htr ▸ List.mem_append_right _ hev)) (before c _ hx) hst
  | @shut x hx hnot _ _ ht =>
    obtain rfl := Option.some.inj (ht.symm.trans hc)
    exact before c x hx hnot
  | @removal x _ hx _ _ ht =>
    obtain rfl := Option.some.inj (ht.symm.trans hc)
    unfold TcpConnection.parted at hst ⊢
    split
    · rfl
    · rename_i hnot
      exact before c x hx hnot
  | made _ _ ht =>
    obtain rfl := Option.some.inj (ht.symm.trans hc)
    exact absurd rfl hst
  | entered _ _ ht => exact before c o (ht ▸ hc) hst

theorem Effect.sound (e : Effect loop s t) (h : Sound s) : Sound t :=
  ⟨e.wellFormed h.wellFormed, e.connections ownInvariant_paced h.paced, e.uncanceled h.uncanceled, e.idle h⟩

theorem Sound.after (hs : Sound s) (h : Relation.ReflTransGen (Effect loop) s t) : Sound t :=
  (effects_invariant (I := Sound) (fun _ _ _ e => e.sound) h hs.wellFormed hs).2

end

theorem sound_init (ipPort : Name) (listenFd timerFd : Fd) : Sound (World.init ipPort listenFd timerFd) :=
  ⟨wellFormed_init .., nofun, nofun, fun _ => nofun⟩

theorem Visited.sound {ipPort : Name} {listenFd timerFd : Fd} {w : World} (h : Visited ipPort listenFd timerFd w) : Sound w :=
  (h.effects (I := Sound) (sound_init ..) fun _ _ _ e => e.sound).2

/-- Stopped in `t`, from `s`. -/
abbrev ExcusedStop (e : Fault) (s t : World) : Prop := ChainStop true e s t ∧ (Sound s → Excused e t)

/-- `x` goes by effects, and where it stops from a sound state, it is excused. -/
abbrev Excusing {α : Type} (x : M α) : Prop := Moves Anywhere (Chain true) ExcusedStop x

theorem excusing_composes : Composes (Chain true) ExcusedStop where
  refl := Chain.refl
  trans h h' := h.trans h'
  later h h' := ⟨chain_composes.later h h'.1, fun hs => h'.2 (hs.after (h hs.wellFormed))⟩

theorem Excusing.bind {α β : Type} {x : M α} {f : α → M β} (hx : Excusing x) (hf : ∀ a, Excusing (f a)) :
    Excusing (x >>= f) := Moves.bind excusing_composes (fun _ h => h) hx hf

/-- Code that runs after some effects. -/
theorem Excusing.after {α : Type} {x : M α} (hx : Excusing x) {s m : World} (h : Relation.ReflTransGen (Effect true) s m)
    (hs : Sound s) : Ensures x m (fun _ t => Relation.ReflTransGen (Effect true) s t) fun e t => Excused e t :=
  (hx m trivial).mono (fun _ _ ht => h.trans (ht (hs.after h).wellFormed)) fun _ _ ht => ht.2 (hs.after h)

/-! ## Calls on one connection -/

section
variable (c : ConnId)

end

/-! ## Every step -/

/-- The acceptor is registered for reading. -/
def World.listening (w : World) : Prop := w.interest w.acceptChannel.fd = some ⟨EPOLLIN, .acceptor⟩

/-- How a step may end while every call is served and user code keeps the pointers it has to. -/
def Contained (e : Fault) (t : World) : Prop :=
  Served t → AllKept t.trace → e = .outside ∨ e = .overflow ∨ e = .lengthError

section
variable {ipPort : Name} {listenFd timerFd : Fd} {w : World}
  (h : Run step (fun _ a => a.ofLoop = true) (World.init ipPort listenFd timerFd) w)
include h

end

end NetServer
