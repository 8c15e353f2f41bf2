import NetServer.Buffer.Inv
import NetServer.Reactor.Registration
import NetServer.Tcp.Loop
/-!
# From the units of the code to every step

The handlers are sequences of a few units: one access to a connection, one callback, one change of the
ownership bookkeeping. For relations `R` (to where the code returns) and `E` (to where it stops) that
compose, it is enough to look at each unit once:

| rule | from | to |
| --- | --- | --- |
| `Units`              | the units that work on a connection *at hand* (`H c`)  | `Handlers`, what closes a connection or writes to it |
| `Handlers`, `Readers` | what `handleEvents` calls, whole, and the read        | every dispatch (`Readers.handleEvents`) |
| `UserCalls`, `Calls` | the calls user code `may` make, and `newConnection`    | every `Script` that makes only these, and `accept` |
| `timingRead_moves`   | the callbacks of timers, and code of the timers alone  | `handleTimingRead` |
| `Parts`              | all of it, where nothing is asked of the connection    | every step (`Parts.step_moves`) |
-/

namespace NetServer
open Exec

/-- User code or a frame holds a pointer to the connection. -/
def Pointed (c : ConnId) (w : World) : Prop := 0 < w.userRefs c ∨ c ∈ w.frames

/-- The units of the code that closes a connection or writes to it. -/
structure Units (H : ConnId → World → Prop) (R : World → World → Prop) (E : Fault → World → World → Prop) : Prop
    extends Composes R E where
  /-- What is at hand stays at hand. -/
  atHand : ∀ {c s t}, R s t → H c s → H c t
  deref : ∀ c, Moves (H c) R E (deref c)
  withPtr : ∀ c {x : M Unit}, Moves (H c) R E x → Moves (H c) R E (withPtr c x)
  connectionCallback : ∀ c b, Moves (H c) R E (emit (.connectionCallback c b))
  closeCallback : ∀ c, Moves (H c) R E (emit (.closeCallback c))
  called : ∀ c, Moves (H c) R E (emit (.removeConnection c))
  comesUp : ∀ c, Moves (H c) R E (do
    let o ← NetServer.deref c
    assert (o.connectState = .CONNECTING)
    setConnectState c .CONNECTED)
  goesDown : ∀ c, Moves (H c) R E (setConnectState c .DISCONNECTED)
  onChannel : ∀ c (op : ChannelOp), op ≠ .remove → Moves (H c) R E (onChannel c fun self => op.code self)
  removeChannel : ∀ c, Moves (H c) R E (TcpConnection.removeChannel c)
  handleWrite : ∀ c r shut, Moves (H c) R E (TcpConnection.handleWrite c r shut)
  eraseOwn : ∀ c, Moves (H c) R E (do let o ← NetServer.deref c; eraseEntry o.name)

/-- What `Channel::handleEvents` calls of a connection, without reading. -/
structure Handlers (H : ConnId → World → Prop) (R : World → World → Prop) (E : Fault → World → World → Prop) : Prop
    extends Composes R E where
  atHand : ∀ {c s t}, R s t → H c s → H c t
  deref : ∀ c, Moves (H c) R E (deref c)
  goDown : ∀ c {down : M Unit}, Moves Anywhere R E down → Moves (H c) R E (do
    setConnectState c .DISCONNECTED
    onChannel c Channel.diabledAllEvents
    TcpConnection.connectionCallback c down)
  closeCallback : ∀ c {user : M Unit}, Moves Anywhere R E user → Moves (H c) R E (TcpConnection.closeCallback c user)
  handleWrite : ∀ c r shut, Moves (H c) R E (TcpConnection.handleWrite c r shut)

/-- With reading. -/
structure Readers (H : ConnId → World → Prop) (R : World → World → Prop) (E : Fault → World → World → Prop) : Prop
    extends Handlers H R E where
  messageCallback : ∀ c {user : M Unit}, Moves Anywhere R E user → Moves (H c) R E (TcpConnection.messageCallback c user)
  read : ∀ c r, Moves (H c) R E (do
    let n ← onInput c (Buffer.readFd r)
    emit (.read c ((r.getD []).take n.toNat))
    pure n)

/-- The calls user code makes, as far as it `may`. -/
structure UserCalls (may : CallKind → ConnId → Bool) (R : World → World → Prop) (E : Fault → World → World → Prop) : Prop
    extends Composes R E where
  outside : ∀ s, E .outside s s
  send : ∀ c message r, may .send c = true → Moves (Pointed c) R E (TcpConnection.send c message r)
  echo : ∀ c r, may .echo c = true → Moves (Pointed c) R E (do
    let s ← TcpConnection.retrieveAsString c
    TcpConnection.send c s r)
  retrieve : ∀ c len, may .retrieve c = true → Moves (Pointed c) R E (TcpConnection.retrieve c len)
  shutdown : ∀ c ok, may .shutdown c = true → Moves (Pointed c) R E (TcpConnection.shutdown c ok)
  removeConnection : ∀ c {down : M Unit}, may .removeConnection c = true → Moves Anywhere R E down →
    Moves (Pointed c) R E (withRef c do
      emit (.removeConnection c)
      TcpServer.removeConnection c down)
  keepPtr : ∀ c, may .keep c = true → Moves (Pointed c) R E (keepPtr c)
  dropPtr : ∀ c, may .drop c = true → Moves Anywhere R E (dropPtr c)
  timer : ∀ x : Timers.Call, Moves Anywhere R E (onTimers x.run)

/-- With the accepts. -/
structure Calls (may : CallKind → ConnId → Bool) (R : World → World → Prop) (E : Fault → World → World → Prop) : Prop
    extends UserCalls may R E where
  accept4 : ∀ r, Moves Anywhere R E (emit (.accept4 r))
  /-- `accept4` returned no descriptor to serve. -/
  refused : ∀ {r : Option Fd} (sock : Option Fd) (up : M Unit), (∀ fd, r = some fd → fd = 0) →
    Moves Anywhere R E (Acceptor.accept r sock up)
  /-- `::socket` returned none. -/
  noSocket : ∀ clientfd (up : M Unit), Moves Anywhere R E (do openFd clientfd; TcpServer.newConnection clientfd none up)
  newConnection : ∀ clientfd sock {up : Script}, up.only may = true → Moves Anywhere R E up.run →
    Moves Anywhere R E (do openFd clientfd; TcpServer.newConnection clientfd (some sock) up.run)

/-! ## The two writers, from smaller units -/

/-- An event that `send` or `handleWrite` records on the connection. -/
def Event.ofWriter (c : ConnId) : Event → Bool
  | .send d _ | .written d _ | .queued d _ | .handleWrite d _ => d == c
  | _ => false

section
variable {P : World → Prop} {R : World → World → Prop} {E : Fault → World → World → Prop} (hc : Composes R E)
  (hP : ∀ {s t}, R s t → P s → P t) (hstop : ∀ {e s}, e ≠ .useAfterFree → E e s s) {c : ConnId}
  (hderef : Moves P R E (deref c))
  (hemit : ∀ ev : Event, ev.ofWriter c = true → (∀ message, ev ≠ .send c message) → Moves P R E (emit ev))
  (hout : ∀ {α : Type} {x : BufM α}, Buffer.Contained x → Moves P R E (onOutput c x))
  (hchannel : ∀ op : ChannelOp, op ≠ .remove → Moves P R E (onChannel c fun self => op.code self))
include hc hP hstop hderef hemit hout hchannel

omit hstop hderef hout hchannel in
theorem write_moves (r : Option Nat) (bytes : Bytes) : Moves P R E (write c r bytes) := by
  cases r with
  | none => exact .pure hc _
  | some n => exact .bind hc hP (hemit _ (beq_self_eq_true c) nofun) fun _ => .pure hc _

/-- `send(message)` once the message is recorded. -/
theorem sendRest_moves (o : TcpConnection) (message : Bytes) (r : Option Nat) : Moves P R E (do
    let nwrote ←
      if !o.channel.isWriting ∧ o.outputBuffer.readableSize = 0 then do
        let n ← write c r message
        pure (if n ≥ 0 then n else 0)
      else
        pure 0
    assert (nwrote ≥ 0)
    if nwrote.toNat < message.length then
      onOutput c (Buffer.append (message.drop nwrote.toNat))
      let o ← deref c
      emit (.queued c o.connectState)
      if !o.channel.isWriting then
        onChannel c Channel.enabledWritable) := by
  have rest : ∀ n : Int, Moves P R E (do
      assert (n ≥ 0)
      if n.toNat < message.length then
        onOutput c (Buffer.append (message.drop n.toNat))
        let o ← deref c
        emit (.queued c o.connectState)
        if !o.channel.isWriting then
          onChannel c Channel.enabledWritable) := fun n =>
    .bind hc hP (.ite (.pure hc _) fun _ _ => hstop (by decide)) fun _ =>
      .ite (.bind hc hP (hout (Buffer.contained_append _)) fun _ => .bind hc hP hderef fun _ =>
        .bind hc hP (hemit _ (beq_self_eq_true c) nofun) fun _ =>
          .ite (hchannel .enabledWritable (by decide)) (.pure hc _)) (.pure hc _)
  exact .ite (.bind hc hP (write_moves hc hP hemit r _) fun n => rest _) (rest 0)

theorem send_moves (message : Bytes) (htold : Moves P R E (emit (.send c message))) (r : Option Nat) :
    Moves P R E (TcpConnection.send c message r) :=
  .bind hc hP hderef fun o => .bind hc hP htold fun _ => sendRest_moves hc hP hstop hderef hemit hout hchannel o message r

theorem handleWrite_moves (hshutdown : ∀ ok, Moves P R E (TcpConnection.shutdown c ok)) (r : Option Nat) (shut : Bool) :
    Moves P R E (TcpConnection.handleWrite c r shut) :=
  .bind hc hP hderef fun _ => .ite
    (.bind hc hP (hout Buffer.contained_peek) fun _ => .bind hc hP (hemit _ (beq_self_eq_true c) nofun) fun _ =>
      .bind hc hP (write_moves hc hP hemit r _) fun _ => .ite
        (.bind hc hP (hout (Buffer.contained_retrieve _)) fun _ => .bind hc hP hderef fun _ => .ite
          (.bind hc hP (hchannel .disabledWritable (by decide)) fun _ => .bind hc hP hderef fun _ =>
            .ite (hshutdown shut) (.pure hc _)) (.pure hc _))
        fun _ _ => hstop (by decide)) (.pure hc _)

end

/-! ## What user code takes, and the loop over expired timers -/

section
variable {P : World → Prop} {R : World → World → Prop} {E : Fault → World → World → Prop} (hc : Composes R E)
  (hP : ∀ {s t}, R s t → P s → P t)
include hc hP

section
variable {c : ConnId} (hinput : ∀ {α : Type} {x : BufM α}, Buffer.Contained x → Moves P R E (onInput c x))
  (htaken : ∀ bytes, Moves P R E (emit (.taken c bytes)))
include hinput htaken

theorem retrieve_moves (hderef : Moves P R E (deref c)) (len : Nat) : Moves P R E (TcpConnection.retrieve c len) :=
  .bind hc hP hderef fun _ => .bind hc hP (hinput (Buffer.contained_retrieve len)) fun _ => htaken _

theorem retrieveAsString_moves : Moves P R E (TcpConnection.retrieveAsString c) :=
  .bind hc hP (hinput Buffer.contained_retrieveAllAsString) fun _ => .bind hc hP (htaken _) fun _ => .pure hc _

end

/-- The reference that a call of `removeConnection` got comes and goes. -/
theorem withRef_moves (hrefs : ∀ s refs, R s { s with borrowed := refs }) (c : ConnId) {x : M Unit} (hx : Moves P R E x) :
    Moves P R E (withRef c x) :=
  have modified : ∀ f : World → List ConnId, Moves P R E (modify fun w => { w with borrowed := f w }) := fun _ s _ => hrefs s _
  .bind hc hP (modified _) fun _ => .bind hc hP hx fun _ => modified _

omit hc hP in
theorem onTimers_moves (htimers : ∀ s q, (s.timerQueue.Uncanceled → q.Uncanceled) → R s { s with timerQueue := q })
    (hstops : ∀ {e s q}, e ≠ .useAfterFree → (s.timerQueue.Uncanceled → q.Uncanceled) → E e s { s with timerQueue := q })
    {α : Type} {x : Timers.M α} (hx : Timers.Contained x) : Moves P R E (onTimers x) := fun s _ =>
  ensures_onTimers.2 ((hx s.timerQueue trivial).mono (fun _ q hq => htimers s q hq) fun _ _ hq => hstops hq.1 hq.2)

/-- **`handleTimingRead`**, from its callbacks and code of the timers. -/
theorem timingRead_moves (htimers : ∀ {α : Type} {x : Timers.M α}, Timers.Contained x → Moves P R E (onTimers x))
    (hread : ∀ unread exact, Moves P R E (emit (.timingRead unread exact))) {callbacks : Timers.TimerPtr → M Unit}
    (hcallbacks : ∀ t, Moves P R E (callbacks t)) (curr now : Int) :
    Moves P R E (TimerQueue.handleTimingRead curr callbacks now) := by
  have body : ∀ e, Moves P R E (TimerQueue.runExpired curr e (callbacks e.timer)) := fun e =>
    .bind hc hP (htimers (Timers.contained_enterExpired curr e)) fun runs => by
      cases runs with
      | true => exact .bind hc hP (hcallbacks _) fun _ => htimers (Timers.contained_leaveExpired e)
      | false => exact htimers (Timers.contained_leaveExpired e)
  have all : ∀ expired, Moves P R E (TimerQueue.runAllExpired curr callbacks expired) := by
    intro expired
    induction expired with
    | nil => exact .pure hc _
    | cons e rest ih => exact .bind hc hP (body e) fun _ => ih
  exact .bind hc hP (.get hc) fun _ => .bind hc hP (hread _ _) fun _ =>
    .bind hc hP (htimers (Timers.contained_readExpired curr)) fun expired =>
      .bind hc hP (all expired) fun _ => htimers (Timers.contained_rearmTimerfd now)

end

/-! ## The two writers, from where the bytes go -/

/-- What is left after the accepted part of `l`. -/
theorem take_append_drop_accepted (n : Nat) (l : Bytes) : l.take n ++ l.drop (l.take n).length = l := by
  have h : l.take n = l.take (l.take n).length := by simp [List.take_eq_take_iff]
  conv_lhs => rw [h]
  simp

/-- `send(message)` keeps nothing back: nothing waits and `::write`, with the result `r`, accepts all of the message, or there
is nothing to send. -/
def TcpConnection.SendsWhole (o : TcpConnection) (message : Bytes) (r : Option Nat) : Prop :=
  message = [] ∨ o.channel.isWriting = false ∧ o.outputBuffer.readable = [] ∧ message.length ≤ r.getD 0

section
variable {s : World} {c : ConnId} (hb : ∀ o, s.conns c = some o → o.outputBuffer.Inv) {Q : Unit → World → Prop}
  {E : Fault → World → Prop}
include hb

/-- **`handleWrite`** up to where the bytes that `::write` took have left the buffer. -/
theorem handleWrite_enters (r : Option Nat) (shut : Bool) (gone : E .useAfterFree s) (idle : Q () s)
    (refused : ∀ o evs, s.conns c = some o → o.channel.isWriting = true → r.getD 0 = 0 ∨ o.outputBuffer.readable = [] →
      .handleWrite c r ∈ evs → E .abort { s with trace := s.trace ++ evs })
    (took : ∀ n o b, r = some n → s.conns c = some o → o.channel.isWriting = true → b.Inv →
      o.outputBuffer.readable.take n ++ b.readable = o.outputBuffer.readable →
      Ensures (do
        let o ← deref c
        if o.outputBuffer.readableSize = 0 then
          onChannel c Channel.disabledWritable
          let o ← deref c
          if o.connectState = .DISCONNECTING then
            TcpConnection.shutdown c shut)
        (({ s with trace := s.trace ++ [.handleWrite c r, .written c (o.outputBuffer.readable.take n)] } : World).put c
          { o with outputBuffer := b }) Q E) :
    Ensures (TcpConnection.handleWrite c r shut) s Q E := by
  rw [TcpConnection.handleWrite, ensures_bind, ensures_deref]
  refine ⟨fun o hc => ?_, fun _ => gone⟩
  rw [ensures_ite]
  refine ⟨fun hw => ?_, fun _ => idle⟩
  rw [ensures_bind, ensures_onOutput]
  refine ⟨fun x hx => ?_, fun _ => gone⟩
  obtain rfl : o = x := Option.some.inj (hc.symm.trans hx)
  refine (Buffer.peek_spec (hb o hc)).mono ?_ fun _ _ hf => hf.elim
  rintro _ _ ⟨rfl, rfl⟩
  have same : s.put c o = s := by rw [World.put, ← hc, Function.update_eq_self]
  rw [same, ensures_bind, ensures_emit]
  cases r with
  | none =>
    simp only [write, pure_bind, Int.reduceNeg, gt_iff_lt, Int.reduceLT, if_false, ensures_throw]
    exact refused o _ hc hw (.inl rfl) (List.mem_singleton_self _)
  | some n =>
    simp only [write, bind_assoc, pure_bind, ensures_bind (emit _), ensures_emit, List.append_assoc, List.cons_append,
      List.nil_append]
    rw [ensures_ite]
    refine ⟨fun _ => ?_, fun hzero => ?_⟩
    · rw [ensures_bind, ensures_onOutput]
      refine ⟨fun x hx => ?_, fun hn => by simp [hc] at hn⟩
      obtain rfl : o = x := Option.some.inj (hc.symm.trans hx)
      refine (Buffer.retrieve_spec (hb o hc) _).mono ?_ fun _ _ hf => hf.elim
      rintro _ b ⟨hbi, hbr, -⟩
      refine took n o b rfl hc hw hbi ?_
      rw [hbr]
      exact take_append_drop_accepted n _
    · refine refused o _ hc hw ?_ (List.mem_cons_self ..)
      rw [Option.getD_some]
      have none : o.outputBuffer.readable.take n = [] := List.length_eq_zero_iff.1 (by omega)
      simpa using none

/-- **`send`** up to where what `::write` left of the message is in the buffer: `accepted` went out directly, which is
tried only while nothing waits. -/
theorem send_enters (message : Bytes) (r : Option Nat) (gone : s.conns c = none → E .useAfterFree s)
    (full : ∀ o e t, s.conns c = some o → ¬ o.SendsWhole message r → .send c message ∈ t.trace → e.OfBuffer →
      (message.length < 2 ^ 63 → e = .lengthError) → E e t)
    (direct : ∀ o evs accepted left, s.conns c = some o → (left = [] ↔ o.SendsWhole message r) → accepted ++ left = message →
      evs = [] ∧ accepted = [] ∨ evs = [.written c accepted] ∧ o.outputBuffer.readable = [] →
      (left = [] → Q () { s with trace := s.trace ++ .send c message :: evs }) ∧
      ∀ b, left ≠ [] → b.Inv → b.readable = o.outputBuffer.readable ++ left → Ensures (do
          let o ← deref c
          emit (.queued c o.connectState)
          if !o.channel.isWriting then
            onChannel c Channel.enabledWritable)
        (({ s with trace := s.trace ++ .send c message :: evs } : World).put c { o with outputBuffer := b }) Q E) :
    Ensures (TcpConnection.send c message r) s Q E := by
  rw [TcpConnection.send, ensures_bind, ensures_deref]
  refine ⟨fun o hc => ?_, gone⟩
  rw [ensures_bind, ensures_emit]
  -- the same end, whatever went out
  have rest : ∀ (n : Int) (evs : List Event) (accepted : Bytes), 0 ≤ n →
      (message.length ≤ n.toNat ↔ o.SendsWhole message r) → accepted ++ message.drop n.toNat = message →
      evs = [] ∧ accepted = [] ∨ evs = [.written c accepted] ∧ o.outputBuffer.readable = [] → Ensures (do
        assert (n ≥ 0)
        if n.toNat < message.length then
          onOutput c (Buffer.append (message.drop n.toNat))
          let o ← deref c
          emit (.queued c o.connectState)
          if !o.channel.isWriting then
            onChannel c Channel.enabledWritable) { s with trace := s.trace ++ .send c message :: evs } Q E := by
    intro n evs accepted hn hwhole hmessage hevs
    obtain ⟨all, some⟩ := direct o evs accepted (message.drop n.toNat) hc (List.drop_eq_nil_iff.trans hwhole) hmessage hevs
    rw [ensures_bind, ensures_assert]
    refine ⟨fun _ => ?_, fun hneg => absurd hn hneg⟩
    rw [ensures_ite]
    refine ⟨fun hlt => ?_, fun hge => all (List.drop_eq_nil_of_le (Nat.le_of_not_lt hge))⟩
    rw [ensures_bind, ensures_onOutput]
    refine ⟨fun x hx => ?_, fun hnone => by simp [hc] at hnone⟩
    obtain rfl : o = x := Option.some.inj (hc.symm.trans hx)
    have append := (Buffer.append_spec (hb o hc) (message.drop n.toNat)).and
      (Buffer.contained_append (message.drop n.toNat) o.outputBuffer)
    refine append.mono ?_ fun e b he => ?_
    · rintro _ b ⟨⟨hbi, hbr⟩, -⟩
      exact some b (List.ne_nil_of_length_pos (by rw [List.length_drop]; omega)) hbi hbr
    · refine full o e _ hc (fun h => absurd (hwhole.2 h) (Nat.not_le_of_lt hlt)) (by simp [World.put]) he.2 fun hlen => he.1.2 ?_
      rw [List.length_drop]
      omega
  have nothing : message.length ≤ (0 : Int).toNat → o.SendsWhole message r := fun h =>
    .inl (List.length_eq_zero_iff.1 (Nat.le_zero.1 h))
  rw [ensures_ite]
  refine ⟨fun hfree => ?_, fun hbusy => rest 0 [] [] (Int.le_refl _) ⟨nothing, ?_⟩ rfl (.inl ⟨rfl, rfl⟩)⟩
  · cases r with
    | none =>
      refine rest 0 [] [] (Int.le_refl _) ⟨nothing, ?_⟩ rfl (.inl ⟨rfl, rfl⟩)
      rintro (rfl | ⟨-, -, hle⟩)
      · exact Nat.le_refl 0
      · exact hle
    | some n =>
      have hr := ((hb o hc).readableSize_eq_zero).1 hfree.2
      have hidle : o.channel.isWriting = false := by simpa using hfree.1
      simp only [write, bind_assoc, pure_bind, ensures_bind (emit _), ensures_emit, List.append_assoc, List.cons_append,
        List.nil_append]
      rw [if_pos (Int.natCast_nonneg _)]
      refine rest _ [.written c (message.take n)] (message.take n) (Int.natCast_nonneg _) ⟨fun h => ?_, ?_⟩
        (take_append_drop_accepted n message) (.inr ⟨rfl, hr⟩)
      · refine .inr ⟨hidle, hr, ?_⟩
        rw [Int.toNat_natCast, List.length_take] at h
        exact Nat.le_trans h (Nat.min_le_left ..)
      · rintro (rfl | ⟨-, -, hle⟩)
        · exact Nat.zero_le _
        · rw [Int.toNat_natCast, List.length_take]
          exact Nat.le_min.2 ⟨hle, Nat.le_refl _⟩
  · rintro (rfl | ⟨hidle, hr, -⟩)
    · exact Nat.le_refl 0
    · exact absurd ⟨by simpa using hidle, ((hb o hc).readableSize_eq_zero).2 hr⟩ hbusy

end

/-! ## Handlers of one connection -/
namespace Units

variable {H : ConnId → World → Prop} {R : World → World → Prop} {E : Fault → World → World → Prop} (u : Units H R E)
  (c : ConnId)
include u

theorem bind {α β : Type} {c : ConnId} {x : M α} {f : α → M β} (hx : Moves (H c) R E x)
    (hf : ∀ a, Moves (H c) R E (f a)) : Moves (H c) R E (x >>= f) :=
  .bind u.toComposes u.atHand hx hf

theorem callConnectionCallback {user : M Unit} (hu : Moves Anywhere R E user) :
    Moves (H c) R E (TcpConnection.connectionCallback c user) :=
  u.bind (u.deref c) fun _ => u.withPtr c (u.bind (u.connectionCallback c _) fun _ => hu.weaken fun _ _ => trivial)

theorem connectionEstablished {up : M Unit} (hu : Moves Anywhere R E up) :
    Moves (H c) R E (TcpConnection.connectionEstablished c up) := by
  have enable : Moves (H c) R E (NetServer.onChannel c Channel.enabledReadable) := u.onChannel c .enabledReadable (by decide)
  have := u.bind (u.comesUp c) fun _ => u.bind enable fun _ => u.callConnectionCallback c hu
  simpa only [TcpConnection.connectionEstablished, bind_assoc] using this

theorem connectionDestroy {down : M Unit} (hd : Moves Anywhere R E down) :
    Moves (H c) R E (TcpConnection.connectionDestroy c down) := by
  refine u.bind (u.deref c) fun o => ?_
  split
  · exact u.bind (u.goesDown c) fun _ => u.bind (u.onChannel c .diabledAllEvents (by decide)) fun _ =>
      u.bind (u.callConnectionCallback c hd) fun _ => u.removeChannel c
  · exact u.removeChannel c

theorem removeConnection {down : M Unit} (hd : Moves Anywhere R E down) :
    Moves (H c) R E (TcpServer.removeConnection c down) := by
  unfold TcpServer.removeConnection
  rw [← bind_assoc]
  exact u.bind (u.eraseOwn c) fun _ => u.connectionDestroy c hd

/-- The call of `removeConnection` that user code makes. -/
theorem callRemoveConnection {P : World → Prop} (href : ∀ {x : M Unit}, Moves (H c) R E x → Moves P R E (withRef c x))
    {down : M Unit} (hd : Moves Anywhere R E down) : Moves P R E (withRef c do
      emit (.removeConnection c)
      TcpServer.removeConnection c down) :=
  href (u.bind (u.called c) fun _ => u.removeConnection c hd)

omit c in
theorem handlers : Handlers H R E where
  toComposes := u.toComposes
  atHand := u.atHand
  deref := u.deref
  goDown c _ hd := u.bind (u.goesDown c) fun _ => u.bind (u.onChannel c .diabledAllEvents (by decide)) fun _ =>
    u.callConnectionCallback c hd
  closeCallback c _ hu := u.bind (u.deref c) fun _ => u.withPtr c (u.bind (u.closeCallback c) fun _ => u.removeConnection c hu)
  handleWrite := u.handleWrite

omit c in
/-- With the two units of a read. -/
theorem readers (message : ∀ c, Moves (H c) R E (emit (.messageCallback c)))
    (input : ∀ {α : Type} c {x : BufM α}, Buffer.Contained x → Moves (H c) R E (onInput c x))
    (read : ∀ c bytes, Moves (H c) R E (emit (.read c bytes))) : Readers H R E where
  toHandlers := u.handlers
  messageCallback c _ hu := u.bind (u.deref c) fun _ =>
    u.withPtr c (u.bind (message c) fun _ => hu.weaken fun _ _ => trivial)
  read c r := u.bind (input c (Buffer.contained_readFd r)) fun _ => u.bind (read c _) fun _ => .pure u.toComposes _

omit u c in
/-- Units that move along two relations move along both. -/
theorem and {R' : World → World → Prop} {E' : Fault → World → World → Prop} (u : Units H R E) (v : Units H R' E') :
    Units H (fun s t => R s t ∧ R' s t) (fun e s t => E e s t ∧ E' e s t) where
  toComposes := u.toComposes.and v.toComposes
  atHand h := u.atHand h.1
  deref c := (u.deref c).and (v.deref c)
  withPtr c _ hx := (u.withPtr c hx.left).and (v.withPtr c hx.right)
  connectionCallback c b := (u.connectionCallback c b).and (v.connectionCallback c b)
  closeCallback c := (u.closeCallback c).and (v.closeCallback c)
  called c := (u.called c).and (v.called c)
  comesUp c := (u.comesUp c).and (v.comesUp c)
  goesDown c := (u.goesDown c).and (v.goesDown c)
  onChannel c op hop := (u.onChannel c op hop).and (v.onChannel c op hop)
  removeChannel c := (u.removeChannel c).and (v.removeChannel c)
  handleWrite c r shut := (u.handleWrite c r shut).and (v.handleWrite c r shut)
  eraseOwn c := (u.eraseOwn c).and (v.eraseOwn c)

end Units

namespace Handlers

variable {H : ConnId → World → Prop} {R : World → World → Prop} {E : Fault → World → World → Prop} (u : Handlers H R E)
  (c : ConnId)
include u

theorem bind {α β : Type} {c : ConnId} {x : M α} {f : α → M β} (hx : Moves (H c) R E x)
    (hf : ∀ a, Moves (H c) R E (f a)) : Moves (H c) R E (x >>= f) :=
  .bind u.toComposes u.atHand hx hf

theorem handleClose {down user : M Unit} (hd : Moves Anywhere R E down) (hu : Moves Anywhere R E user) :
    Moves (H c) R E (TcpConnection.handleClose c down user) := by
  have := u.bind (u.goDown c hd) fun _ => u.closeCallback c hu
  simpa only [TcpConnection.handleClose, bind_assoc] using this

end Handlers

theorem Readers.handleRead {H : ConnId → World → Prop} {R : World → World → Prop} {E : Fault → World → World → Prop}
    (u : Readers H R E) (c : ConnId) (r : Option Bytes) {message down user : M Unit} (hm : Moves Anywhere R E message)
    (hd : Moves Anywhere R E down) (hu : Moves Anywhere R E user) :
    Moves (H c) R E (TcpConnection.handleRead c r message down user) := by
  have := u.bind (u.read c r) fun n =>
    (.ite (u.messageCallback c hm) (.ite (u.handleClose c hd hu) (.pure u.toComposes _)) : Moves (H c) R E
      (if n > 0 then TcpConnection.messageCallback c message
        else if n = 0 then TcpConnection.handleClose c down user else pure ()))
  simpa only [TcpConnection.handleRead, bind_assoc, pure_bind] using this

/-! ## User code and accepts -/

theorem EventInput.callback_cases (inp : EventInput) (t : Timers.TimerPtr) :
    inp.callback t = .done ∨ inp.callback t ∈ inp.callbacks.map Prod.snd := by
  unfold EventInput.callback
  cases hfind : inp.callbacks.lookup t with
  | none => exact .inl rfl
  | some s =>
    obtain ⟨before, after, hsplit, -⟩ := List.lookup_eq_some_iff.1 hfind
    exact .inr (by simp [hsplit])

namespace UserCalls

variable {may : CallKind → ConnId → Bool} {R : World → World → Prop} {E : Fault → World → World → Prop}
  (k : UserCalls may R E)
include k

theorem bind {α β : Type} {x : M α} {f : α → M β} (hx : Moves Anywhere R E x)
    (hf : ∀ a, Moves Anywhere R E (f a)) : Moves Anywhere R E (x >>= f) :=
  .bind k.toComposes (fun _ h => h) hx hf

/-- A call through a pointer that user code has. -/
theorem call {c : ConnId} {x : M Unit} (hx : Moves (Pointed c) R E x) :
    Moves Anywhere R E (do userPtr c; x) := by
  intro s _
  simp only [userPtr, ensures_bind, ensures_get, ensures_ite, ensures_pure, ensures_throw]
  exact ⟨fun hp => hx s hp, fun _ => k.outside s⟩

/-- User code of any length and nesting: induction on the script. -/
theorem script (s : Script) (hs : s.only may = true) : Moves Anywhere R E s.run := by
  have next : ∀ {c : ConnId} {x : M Unit} {rest : Script}, Moves (Pointed c) R E x →
      Moves Anywhere R E rest.run → Moves Anywhere R E (do userPtr c; x; rest.run) := by
    intro c x rest hx ih
    rw [← bind_assoc]
    exact k.bind (k.call hx) fun _ => ih
  induction s with
  | done => exact .pure k.toComposes _
  | send c message r rest ih =>
    obtain ⟨hmay, hrest⟩ := Bool.and_eq_true_iff.1 hs
    exact next (k.send c message r hmay) (ih hrest)
  | echo c r rest ih =>
    obtain ⟨hmay, hrest⟩ := Bool.and_eq_true_iff.1 hs
    have := next (k.echo c r hmay) (ih hrest)
    rwa [bind_assoc] at this
  | retrieve c len rest ih =>
    obtain ⟨hmay, hrest⟩ := Bool.and_eq_true_iff.1 hs
    exact next (k.retrieve c len hmay) (ih hrest)
  | shutdown c ok rest ih =>
    obtain ⟨hmay, hrest⟩ := Bool.and_eq_true_iff.1 hs
    exact next (k.shutdown c ok hmay) (ih hrest)
  | removeConnection c down rest ihd ih =>
    obtain ⟨hmay, hrest⟩ := Bool.and_eq_true_iff.1 hs
    obtain ⟨hmay, hdown⟩ := Bool.and_eq_true_iff.1 hmay
    exact next (k.removeConnection c hmay (ihd hdown)) (ih hrest)
  | keep c rest ih =>
    obtain ⟨hmay, hrest⟩ := Bool.and_eq_true_iff.1 hs
    exact next (k.keepPtr c hmay) (ih hrest)
  | drop c rest ih =>
    obtain ⟨hmay, hrest⟩ := Bool.and_eq_true_iff.1 hs
    exact k.bind (k.dropPtr c hmay) fun _ => ih hrest
  | timer x rest ih => exact k.bind (k.timer x) fun _ => ih hs

/-- The callback of any timer. -/
theorem callback {inp : EventInput} (hi : inp.only may = true) (t : Timers.TimerPtr) : Moves Anywhere R E (inp.callback t).run := by
  obtain hdone | hmem := inp.callback_cases t
  · rw [hdone]
    exact k.script .done rfl
  · exact k.script _ (List.all_eq_true.1 hi _ (List.mem_append_right _ hmem))

end UserCalls

/-- User code may make every call. -/
abbrev anyCall : CallKind → ConnId → Bool := fun _ _ => true

theorem Script.only_anyCall (s : Script) : s.only anyCall = true := by
  induction s <;> simp_all [Script.only]

theorem EventInput.only_anyCall (inp : EventInput) : inp.only anyCall = true := by
  simp [EventInput.only, Script.only_anyCall]

namespace Calls

variable {R : World → World → Prop} {E : Fault → World → World → Prop}

theorem accept {may : CallKind → ConnId → Bool} (k : Calls may R E) (clientfd sock : Option Fd) (up : Script)
    (hup : up.only may = true) : Moves Anywhere R E (Acceptor.accept clientfd sock up.run) := by
  cases clientfd with
  | none => exact k.refused sock up.run nofun
  | some fd =>
    by_cases h : fd > 0
    · have serve : Moves Anywhere R E (do openFd fd; TcpServer.newConnection fd sock up.run) := by
        cases sock with
        | none => exact k.noSocket fd up.run
        | some sock => exact k.newConnection fd sock hup (k.script up hup)
      have := k.bind (k.accept4 (some fd)) fun _ => serve
      simpa [Acceptor.accept, assert, h] using this
    · exact k.refused sock up.run fun _ he => by cases he; exact Nat.eq_zero_of_not_pos h

/-- An `accept` that ends in the `assert`. -/
theorem refused_of (hc : Composes R E) (hstop : ∀ s, E .assertFailed s s) (haccept : ∀ r, Moves Anywhere R E (emit (.accept4 r)))
    (hopen : ∀ fd, Moves Anywhere R E (openFd fd)) {r : Option Fd} (sock : Option Fd) (up : M Unit)
    (hr : ∀ fd, r = some fd → fd = 0) : Moves Anywhere R E (Acceptor.accept r sock up) := by
  refine .bind hc (fun _ h => h) (haccept r) fun _ => ?_
  cases r with
  | none => exact fun s _ => hstop s
  | some fd =>
    cases hr fd rfl
    exact .bind hc (fun _ h => h) (hopen 0) fun _ s _ => hstop s

/-- A `newConnection` that ends in the `assert` of `Sockets()`. -/
theorem noSocket_of (hc : Composes R E) (hstop : ∀ s, E .assertFailed s s) (hfailed : Moves Anywhere R E (emit .socketFailed))
    (hopen : ∀ fd, Moves Anywhere R E (openFd fd)) (clientfd : Fd) (up : M Unit) :
    Moves Anywhere R E (do openFd clientfd; TcpServer.newConnection clientfd none up) := by
  refine .bind hc (fun _ h => h) (hopen clientfd) fun _ => .bind hc (fun _ h => h) (.get hc) fun _ => ?_
  have stops : Moves Anywhere R E (Sockets.new none) := .bind hc (fun _ h => h) hfailed fun _ s _ => hstop s
  simp only [TcpServer.construct, Sockets.new, bind_assoc] at stops ⊢
  exact .bind hc (fun _ h => h) hfailed fun _ s _ => hstop s

end Calls

/-! ## One dispatch -/

section
variable {H : ConnId → World → Prop} {may : CallKind → ConnId → Bool} {R : World → World → Prop}
  {E : Fault → World → World → Prop}

/-- The connection behind the channel, if there is one, is at hand. -/
def AtHandPtr (H : ConnId → World → Prop) : ChannelPtr → World → Prop
  | .conn c => H c
  | _ => fun _ => True

theorem atHandPtr_stays (hH : ∀ {c s t}, R s t → H c s → H c t) {p : ChannelPtr} {s t : World} (hR : R s t)
    (h : AtHandPtr H p s) : AtHandPtr H p t := by
  cases p with
  | acceptor => trivial
  | timer => trivial
  | conn c => exact hH hR h

variable (u : Handlers H R E) (p : ChannelPtr) (inp : EventInput)
include u

theorem Handlers.channelOf : Moves (AtHandPtr H p) R E (channelOf p) := by
  cases p with
  | acceptor => exact .bind u.toComposes (fun _ h => h) (.get u.toComposes) fun _ => .pure u.toComposes _
  | timer => exact .bind u.toComposes (fun _ h => h) (.get u.toComposes) fun _ => .pure u.toComposes _
  | conn c => exact u.bind (u.deref c) fun _ => .pure u.toComposes _

theorem Handlers.closeEventCallback (hd : Moves Anywhere R E inp.hupDown.run) (hu : Moves Anywhere R E inp.hupUser.run) :
    Moves (AtHandPtr H p) R E (closeEventCallback p inp) := by
  cases p with
  | acceptor => exact .pure u.toComposes _
  | timer => exact .pure u.toComposes _
  | conn c => exact u.handleClose c hd hu

theorem Handlers.writeEventCallback : Moves (AtHandPtr H p) R E (writeEventCallback p inp) := by
  cases p with
  | acceptor => exact .pure u.toComposes _
  | timer => exact .pure u.toComposes _
  | conn c => exact u.handleWrite c _ _

/-- One branch of `handleEvents`, and what follows it. -/
theorem Handlers.branch {b : Bool} {x y : M Unit} (hx : Moves (AtHandPtr H p) R E x) (hy : Moves (AtHandPtr H p) R E y) :
    Moves (AtHandPtr H p) R E (do
      if b then
        x
      y) := by
  cases b with
  | false => exact hy
  | true => exact .bind u.toComposes (fun hR h => atHandPtr_stays (H := H) u.atHand hR h) hx fun _ => hy

/-- One `handleEvents`, from what its read branch does. -/
theorem Handlers.handleEvents (hd : Moves Anywhere R E inp.hupDown.run) (hu : Moves Anywhere R E inp.hupUser.run)
    (hread : Moves (AtHandPtr H p) R E (readEventCallback p inp)) : Moves (AtHandPtr H p) R E (handleEvents p inp) := by
  have bind : ∀ {α β : Type} {x : M α} {f : α → M β}, Moves (AtHandPtr H p) R E x →
      (∀ a, Moves (AtHandPtr H p) R E (f a)) → Moves (AtHandPtr H p) R E (x >>= f) := fun hx hf =>
    .bind u.toComposes (fun hR h => atHandPtr_stays (H := H) u.atHand hR h) hx hf
  exact bind (u.channelOf p) fun _ => u.branch p (u.closeEventCallback p inp hd hu)
    (bind (u.channelOf p) fun _ => u.branch p hread
      (bind (u.channelOf p) fun _ => .ite (u.writeEventCallback p inp) (.pure u.toComposes _)))

omit u in
theorem Readers.handleEvents (u : Readers H R E) (k : Calls may R E) (hi : inp.only may = true)
    (htiming : p = .timer →
      Moves Anywhere R E (TimerQueue.handleTimingRead inp.curr (fun t => (inp.callback t).run) inp.now)) :
    Moves (AtHandPtr H p) R E (NetServer.handleEvents p inp) := by
  have listed : ∀ s ∈ inp.scripts, Moves Anywhere R E s.run := fun s hs => k.script s (List.all_eq_true.1 hi s hs)
  refine u.toHandlers.handleEvents p inp (listed _ (by simp [EventInput.scripts])) (listed _ (by simp [EventInput.scripts])) ?_
  cases p with
  | acceptor => exact k.accept _ _ _ (List.all_eq_true.1 hi _ (by simp [EventInput.scripts]))
  | timer => exact htiming rfl
  | conn c =>
    exact u.handleRead c _ (listed _ (by simp [EventInput.scripts])) (listed _ (by simp [EventInput.scripts]))
      (listed _ (by simp [EventInput.scripts]))

omit u in
/-- One `handleEvents` of the timer queue's channel. -/
theorem ensures_handleEvents_timer {s : World} {Q : Unit → World → Prop} {E : Fault → World → Prop} :
    Ensures (NetServer.handleEvents .timer inp) s Q E ↔
      (s.timerChannel.revents.has EPOLLIN →
        Ensures (TimerQueue.handleTimingRead inp.curr (fun t => (inp.callback t).run) inp.now) s Q E) ∧
      (¬ s.timerChannel.revents.has EPOLLIN → Q () s) := by
  simp [NetServer.handleEvents, NetServer.channelOf, NetServer.closeEventCallback, readEventCallback,
    NetServer.writeEventCallback]

end

/-! ## Every step, where nothing is asked of a connection -/

/-- **The loop over the reported events**, from one report. -/
theorem pollEvents_moves {R : World → World → Prop} {E : Fault → World → World → Prop} (hc : Composes R E)
    (hstop : ∀ s, E .outside s s) (hreport : ∀ p mask, Moves Anywhere R E (do
      setReturnEvents p mask
      emit (.reported p)
      modify fun w => { w with activeChannels := w.activeChannels ++ [p] })) (events : List (Fd × Mask)) :
    Moves Anywhere R E (pollEvents events) := by
  induction events with
  | nil => exact .pure hc _
  | cons ev rest ih =>
    refine .bind hc (fun _ h => h) (.get hc) fun w => ?_
    split
    · exact fun s _ => hstop s
    · rename_i e _
      have := Moves.bind hc (fun _ h => h) (hreport e.ptr ev.2) fun _ => ih
      simpa only [bind_assoc] using this

structure Parts (R : World → World → Prop) (E : Fault → World → World → Prop) : Prop
    extends Readers (fun _ => Anywhere) R E where
  outside : ∀ s, E .outside s s
  send : ∀ c message r, Moves Anywhere R E (TcpConnection.send c message r)
  retrieve : ∀ c len, Moves Anywhere R E (TcpConnection.retrieve c len)
  retrieveAll : ∀ c, Moves Anywhere R E (TcpConnection.retrieveAsString c)
  shutdown : ∀ c ok, Moves Anywhere R E (TcpConnection.shutdown c ok)
  removeConnection : ∀ c {down : M Unit}, Moves Anywhere R E down → Moves (Pointed c) R E (withRef c do
    emit (.removeConnection c)
    TcpServer.removeConnection c down)
  keepPtr : ∀ c, Moves (Pointed c) R E (keepPtr c)
  dropPtr : ∀ c, Moves Anywhere R E (dropPtr c)
  timer : ∀ x : Timers.Call, Moves Anywhere R E (onTimers x.run)
  accept4 : ∀ r, Moves Anywhere R E (emit (.accept4 r))
  refused : ∀ {r : Option Fd} (sock : Option Fd) (up : M Unit), (∀ fd, r = some fd → fd = 0) →
    Moves Anywhere R E (Acceptor.accept r sock up)
  noSocket : ∀ clientfd (up : M Unit), Moves Anywhere R E (do openFd clientfd; TcpServer.newConnection clientfd none up)
  newConnection : ∀ clientfd sock {up : Script}, Moves Anywhere R E up.run →
    Moves Anywhere R E (do openFd clientfd; TcpServer.newConnection clientfd (some sock) up.run)

namespace Parts

variable {R : World → World → Prop} {E : Fault → World → World → Prop} (p : Parts R E)
include p

theorem calls : Calls anyCall R E where
  toComposes := p.toComposes
  outside := p.outside
  send c message r _ := (p.send c message r).weaken fun _ _ => trivial
  echo c r _ := (p.bind (c := c) (p.retrieveAll c) fun s => p.send c s r).weaken fun _ _ => trivial
  retrieve c len _ := (p.retrieve c len).weaken fun _ _ => trivial
  shutdown c ok _ := (p.shutdown c ok).weaken fun _ _ => trivial
  removeConnection c _ _ hd := p.removeConnection c hd
  keepPtr c _ := p.keepPtr c
  dropPtr c _ := p.dropPtr c
  timer := p.timer
  accept4 := p.accept4
  refused := p.refused
  noSocket := p.noSocket
  newConnection clientfd sock _ _ hu := p.newConnection clientfd sock hu

theorem script (s : Script) : Moves Anywhere R E s.run := p.calls.script s s.only_anyCall

theorem timingRead (htimers : ∀ {α : Type} {x : Timers.M α}, Timers.Contained x → Moves Anywhere R E (onTimers x))
    (hread : ∀ unread exact, Moves Anywhere R E (emit (.timingRead unread exact))) (inp : EventInput) :
    Moves Anywhere R E (TimerQueue.handleTimingRead inp.curr (fun t => (inp.callback t).run) inp.now) :=
  timingRead_moves p.toComposes (fun _ h => h) htimers hread (p.calls.callback inp.only_anyCall) inp.curr inp.now

variable {R' : World → World → Prop} {E' : Fault → World → World → Prop}

/-- Parts that move along two relations move along both. -/
theorem and (q : Parts R' E') : Parts (fun s t => R s t ∧ R' s t) (fun e s t => E e s t ∧ E' e s t) where
  toComposes := p.toComposes.and q.toComposes
  atHand _ _ := trivial
  deref c := (p.deref c).and (q.deref c)
  goDown c _ hd := (p.goDown c hd.left).and (q.goDown c hd.right)
  closeCallback c _ hu := (p.closeCallback c hu.left).and (q.closeCallback c hu.right)
  handleWrite c r shut := (p.handleWrite c r shut).and (q.handleWrite c r shut)
  messageCallback c _ hm := (p.messageCallback c hm.left).and (q.messageCallback c hm.right)
  read c r := (p.read c r).and (q.read c r)
  outside s := ⟨p.outside s, q.outside s⟩
  send c message r := (p.send c message r).and (q.send c message r)
  retrieve c len := (p.retrieve c len).and (q.retrieve c len)
  retrieveAll c := (p.retrieveAll c).and (q.retrieveAll c)
  shutdown c ok := (p.shutdown c ok).and (q.shutdown c ok)
  removeConnection c _ hd := (p.removeConnection c hd.left).and (q.removeConnection c hd.right)
  keepPtr c := (p.keepPtr c).and (q.keepPtr c)
  dropPtr c := (p.dropPtr c).and (q.dropPtr c)
  timer x := (p.timer x).and (q.timer x)
  accept4 r := (p.accept4 r).and (q.accept4 r)
  refused sock up hr := (p.refused sock up hr).and (q.refused sock up hr)
  noSocket clientfd up := (p.noSocket clientfd up).and (q.noSocket clientfd up)
  newConnection clientfd sock _ hu := (p.newConnection clientfd sock hu.left).and (q.newConnection clientfd sock hu.right)

theorem handleEvents (ptr : ChannelPtr) (inp : EventInput) (htiming : ptr = .timer →
    Moves Anywhere R E (TimerQueue.handleTimingRead inp.curr (fun t => (inp.callback t).run) inp.now)) :
    Moves Anywhere R E (NetServer.handleEvents ptr inp) :=
  (p.toReaders.handleEvents ptr inp p.calls inp.only_anyCall htiming).weaken fun _ _ => by cases ptr <;> trivial

/-- A step that opens a connection, whether or not there is a socket for it. -/
theorem newConnectionStep (clientfd : Fd) (sock : Option Fd) (up : Script) :
    Moves Anywhere R E (do openFd clientfd; TcpServer.newConnection clientfd sock up.run) := by
  cases sock with
  | none => exact p.noSocket clientfd up.run
  | some sock => exact p.newConnection clientfd sock (p.script up)

variable {T : World → World → Prop} (hc : Composes R' E') (hT : ∀ {s t}, R s t → T s t) (hR : ∀ {s t}, T s t → R' s t)
  (hE : ∀ {e s t}, E e s t → E' e s t)
include hT hR hE hc

/-- **Every step moves along what its parts move along**; `handleTimingRead` and the loop's own bookkeeping may need wider
relations. -/
theorem step_moves (hreport : ∀ p mask, Moves Anywhere R' E' (do
      setReturnEvents p mask
      emit (.reported p)
      modify fun w => { w with activeChannels := w.activeChannels ++ [p] }))
    (hhandled : ∀ {s t p l}, T s t → s.activeChannels = p :: l → R' t { t with activeChannels := l })
    (htiming : ∀ inp : EventInput,
      Moves Anywhere T E' (TimerQueue.handleTimingRead inp.curr (fun t => (inp.callback t).run) inp.now)) (a : Act) :
    Moves Anywhere R' E' (step a) := by
  have stop : ∀ s, E' .outside s s := fun s => hE (p.outside s)
  cases a with
  | poll events =>
    exact .bind hc (fun _ h => h) (.get hc) fun _ => .ite (fun s _ => stop s) (pollEvents_moves hc stop hreport events)
  | dispatch inp =>
    intro s _
    simp only [step, dispatch, ensures_bind, ensures_get]
    split
    · exact stop s
    · rename_i ptr rest hs
      have handled : Moves Anywhere T E' (NetServer.handleEvents ptr inp) := by
        by_cases hptr : ptr = .timer
        · rw [hptr]
          exact fun s _ => (ensures_handleEvents_timer inp).2 ⟨fun _ => htiming inp s trivial, fun _ => hT (p.refl s)⟩
        · exact (p.handleEvents ptr inp fun h => absurd h hptr).widen hT hE
      rw [ensures_bind]
      exact (handled s trivial).mono (fun _ t h => hc.trans (hR h) (hhandled h hs)) fun _ _ h => h
  | user s => exact (p.script s).widen (fun h => hR (hT h)) hE
  | newConnection sockfd sock up => exact (p.newConnectionStep sockfd sock up).widen (fun h => hR (hT h)) hE
  | send c message r => exact (p.send c message r).widen (fun h => hR (hT h)) hE
  | handleRead c r message down user =>
    exact (p.handleRead c r (p.script _) (p.script _) (p.script _)).widen (fun h => hR (hT h)) hE
  | handleWrite c r shut => exact (p.handleWrite c r shut).widen (fun h => hR (hT h)) hE
  | handleClose c down user => exact (p.handleClose c (p.script _) (p.script _)).widen (fun h => hR (hT h)) hE

end Parts

/-- What holds at the start and is kept by every step, up to where a callback pauses, holds in every
state that is visited. -/
theorem Visited.invariant {I : World → Prop} {ipPort : Name} {listenFd timerFd : Fd} {w : World}
    (h : Visited ipPort listenFd timerFd w) (h0 : I (.init ipPort listenFd timerFd))
    (hs : ∀ a, Keeps I (· = .outside) (step a)) : I w := by
  have run : ∀ s, Run step (fun _ _ => True) (World.init ipPort listenFd timerFd) s → I s := fun s hr =>
    hr.invariant h0 fun s a hI _ => ((hs a).from hI).mono (fun _ _ h => h) fun _ _ _ => trivial
  obtain hr | ⟨s, a, hr, he⟩ := h
  · exact run w hr
  · exact (ensures_error he).1 ((hs a).from (run s hr)) rfl

end NetServer
