import NetServer.Lib.Backlog
import NetServer.Tcp.Delivery
/-!
# The output of a connection is a stream with a backlog

`send` writes directly where it can, keeps the rest in `outputBuffer_` and asks for `EPOLLOUT`; `handleWrite` gets the rest
out. On a connection that stays connected each of the two does to the bytes what a call on a `Backlog` does, and to everything
else nothing, but that `EPOLLOUT` is asked for while bytes wait (`call_outputs`). So the direct `::write` is only a shortcut:
any calls leave what one `send` that writes nothing and one `handleWrite` leave (`calls_coalesce`).

| here | there |
| --- | --- |
| `OutputCall.send`     | `send(message)`, with what its `::write` would return |
| `OutputCall.writable` | `handleWrite()`, whose `::write` would accept up to `n` bytes |
-/

namespace NetServer
open Exec

namespace Mask

variable {mask flag : Mask}

theorem or_and_not (mask flag : Mask) : (mask ||| flag) &&& ~~~flag = mask &&& ~~~flag := by
  ext i hi
  simp only [BitVec.getElem_or, BitVec.getElem_and, BitVec.getElem_not]
  cases mask[i] <;> cases flag[i] <;> rfl

theorem and_not_or (mask flag : Mask) : mask &&& ~~~flag ||| flag = mask ||| flag := by
  ext i hi
  simp only [BitVec.getElem_or, BitVec.getElem_and, BitVec.getElem_not]
  cases mask[i] <;> cases flag[i] <;> rfl

theorem and_not_of_hasNot (h : mask.has flag = false) : mask &&& ~~~flag = mask := by
  have none : mask &&& flag = 0#32 := by simpa [Mask.has] using h
  ext i hi
  have bit : (mask &&& flag)[i] = false := by simp [none]
  simp only [BitVec.getElem_and, BitVec.getElem_not] at bit ⊢
  cases hm : mask[i] <;> cases hf : flag[i] <;> simp_all

/-- `EPOLLOUT` is one bit. -/
theorem or_of_has (h : mask.has EPOLLOUT = true) : mask ||| EPOLLOUT = mask := by
  have single : ∀ (i : Nat) (hi : i < 32), EPOLLOUT[i] = decide (i = 2) := by decide
  have bit : mask[2] = true := by
    by_contra hn
    have none : mask &&& EPOLLOUT = 0#32 := by
      ext i hi
      rw [BitVec.getElem_and, single i hi, BitVec.getElem_zero]
      by_cases h2 : i = 2
      · subst h2
        simpa using hn
      · simp [h2]
    simp [Mask.has, none] at h
  ext i hi
  rw [BitVec.getElem_or, single i hi]
  by_cases h2 : i = 2
  · subst h2
    simp [bit]
  · simp [h2]

end Mask

inductive OutputCall where
  | send (message : Bytes) (r : Option Nat)
  | writable (n : Nat)
deriving DecidableEq, Repr

namespace OutputCall

def code (c : ConnId) : OutputCall → M Unit
  | .send message r => TcpConnection.send c message r
  | .writable n => TcpConnection.handleWrite c (some n) true

/-- What the call is to the stream. -/
def onStream : OutputCall → Backlog.Call UInt8
  | .send message r => .put message (r.getD 0)
  | .writable n => .drain n

/-- An `EPOLLOUT` is reported when some byte can be written. -/
def Fair (k : OutputCall) : Prop := ∀ n, k = .writable n → 0 < n

end OutputCall

/-- What the calls send, all of it. -/
def messages (calls : List OutputCall) : Bytes := Backlog.given (calls.map OutputCall.onStream)

/-- The connection with `buf` for its output buffer: it asks for `EPOLLOUT` iff bytes wait. -/
def TcpConnection.pacing (o : TcpConnection) (buf : Buffer) : TcpConnection :=
  { o with
    outputBuffer := buf
    channel := { o.channel with
      events := if buf.readable = [] then o.channel.events &&& ~~~EPOLLOUT else o.channel.events ||| EPOLLOUT } }

/-- The connection is read from, and asks for `EPOLLOUT` iff bytes wait. -/
structure Steady (o : TcpConnection) : Prop where
  connected : o.connectState = .CONNECTED
  added : o.channel.status = .ADDED
  reads : o.channel.events.has EPOLLIN = true
  writing : o.channel.isWriting = true ↔ o.outputBuffer.readable ≠ []

namespace Steady

variable {o : TcpConnection} {buf : Buffer}

theorem of_paced (h : Paced o) (hst : o.connectState = .CONNECTED) : Steady o where
  connected := hst
  added := (h.connected hst).1
  reads := (h.connected hst).2
  writing := ⟨fun hn => (h.writing hn).2, h.stranded hst⟩

theorem self (h : Steady o) : o.pacing o.outputBuffer = o := by
  have events : (if o.outputBuffer.readable = [] then o.channel.events &&& ~~~EPOLLOUT else o.channel.events ||| EPOLLOUT) =
      o.channel.events := by
    split
    · rename_i hnil
      refine Mask.and_not_of_hasNot (Bool.eq_false_iff.2 fun hn => h.writing.1 hn hnil)
    · rename_i hne
      exact Mask.or_of_has (h.writing.2 hne)
  rw [TcpConnection.pacing, events]

theorem pacing (h : Steady o) (buf : Buffer) : Steady (o.pacing buf) := by
  refine ⟨h.connected, h.added, ?_, ?_⟩
  · simp only [TcpConnection.pacing]
    split
    · exact (Mask.has_and_not_other _ _ (by decide)).trans h.reads
    · exact (Mask.has_or_other _ _ (by decide)).trans h.reads
  · simp only [TcpConnection.pacing, Channel.isWriting, Channel.WritableEvent]
    split
    · rename_i hnil
      simp [hnil, Mask.has_and_not_self]
    · rename_i hne
      simp [hne, Mask.has_or_self _ _ (show EPOLLOUT ≠ 0#32 by decide)]

/-- `enabledWritable()` and `disabledWritable()`, on a channel that is in the interest set. -/
theorem set_added (h : Steady o) (f : Mask → Mask) (hf : (f o.channel.events).has EPOLLIN = true) :
    o.channel.set f = { o.channel with events := f o.channel.events } := by
  have status : (o.channel.set f).status = .ADDED := Channel.set_added (Mask.ne_noEvent hf)
  rw [Channel.set] at status ⊢
  simp only at status
  rw [status, ← h.added]

end Steady

/-! ## The states that calls lead to -/

/-- What `b` says of the stream holds with `buf` for the output buffer and `tr` for the trace, `message` being what was sent
since the state was `w`. -/
structure Outputs (w : World) (c : ConnId) (o : TcpConnection) (b : Backlog UInt8) (message : Bytes) (buf : Buffer)
    (tr : List Event) : Prop where
  inv : buf.Inv
  waiting : buf.readable = b.waiting
  room : buf.writeIndex ≤ o.outputBuffer.writeIndex + message.length
  written : writtenBytes c tr = b.out
  sent : sentBytes c tr = sentBytes c w.trace ++ message
  others : ∀ d ≠ c, writtenBytes d tr = writtenBytes d w.trace ∧ sentBytes d tr = sentBytes d w.trace

/-- The state is `w` with other output on `c`. -/
def OutputAt (w : World) (c : ConnId) (o : TcpConnection) (b : Backlog UInt8) (message : Bytes) (t : World) : Prop :=
  ∃ buf tr, Outputs w c o b message buf tr ∧ t = w.own c (o.pacing buf) tr

section
variable {w t : World} {c : ConnId} {o x : TcpConnection} {b : Backlog UInt8} {message : Bytes} {buf buf' : Buffer}
  {tr tr' : List Event}

theorem Outputs.start (hb : o.outputBuffer.Inv) :
    Outputs w c o ⟨writtenBytes c w.trace, o.outputBuffer.readable⟩ [] o.outputBuffer w.trace where
  inv := hb
  waiting := rfl
  room := Nat.le_refl _
  written := rfl
  sent := (List.append_nil _).symm
  others _ _ := ⟨rfl, rfl⟩

/-- Events of `c`. -/
theorem Outputs.told (h : Outputs w c o b message buf tr) (evs : List Event)
    (hevs : ∀ d ≠ c, ∀ ev ∈ evs, ev.accepted d = [] ∧ ev.sent d = []) :
    Outputs w c o ⟨b.out ++ writtenBytes c evs, b.waiting⟩ (message ++ sentBytes c evs) buf (tr ++ evs) where
  inv := h.inv
  waiting := h.waiting
  room := by
    have := h.room
    rw [List.length_append]
    omega
  written := by rw [writtenBytes_append, h.written]
  sent := by rw [sentBytes_append, h.sent, List.append_assoc]
  others d hd := by
    have written : writtenBytes d evs = [] := List.flatMap_eq_nil_iff.2 fun ev hev => (hevs d hd ev hev).1
    have sent : sentBytes d evs = [] := List.flatMap_eq_nil_iff.2 fun ev hev => (hevs d hd ev hev).2
    rw [writtenBytes_append, sentBytes_append, written, sent, List.append_nil, List.append_nil]
    exact h.others d hd

theorem World.own_conns (w : World) (c : ConnId) (x : TcpConnection) (tr : List Event) : (w.own c x tr).conns c = some x :=
  Function.update_self ..

theorem World.own_mirrors (w : World) (c : ConnId) (x : TcpConnection) (tr : List Event) :
    Polled.Mirrors (.conn c) ⟨x.channel, (w.own c x tr).interest⟩ := Function.update_self ..

theorem World.put_output (x : TcpConnection) (buf : Buffer) :
    (w.own c x tr).put c { x with outputBuffer := buf } = w.own c { x with outputBuffer := buf } tr := by
  simp [World.own, World.put]

/-- A change of the channel, and of its registration with it. -/
theorem World.own_own (y : TcpConnection) (h : y.channel.fd = x.channel.fd) : (w.own c x tr).own c y tr' = w.own c y tr' := by
  simp [World.own, World.put, h]

/-! ## The pieces of the two calls -/

theorem pacing_keep (h : buf'.readable = [] ↔ buf.readable = []) : { o.pacing buf with outputBuffer := buf' } = o.pacing buf' := by
  simp [TcpConnection.pacing, h]

/-- `enabledWritable()` when the first bytes wait. -/
theorem pacing_enabled (hs : Steady o) (h : buf.readable = []) (h' : buf'.readable ≠ []) :
    { o.pacing buf with outputBuffer := buf', channel := (o.pacing buf).channel.set (· ||| EPOLLOUT) } = o.pacing buf' := by
  have steady := hs.pacing buf
  rw [steady.set_added (· ||| EPOLLOUT) ((Mask.has_or_other _ _ (by decide)).trans steady.reads)]
  simp [TcpConnection.pacing, h, h', Mask.and_not_or]

/-- `disabledWritable()` when the last bytes have gone. -/
theorem pacing_disabled (hs : Steady o) (h : buf.readable ≠ []) (h' : buf'.readable = []) :
    { o.pacing buf with outputBuffer := buf', channel := (o.pacing buf).channel.set (· &&& ~~~EPOLLOUT) } = o.pacing buf' := by
  have steady := hs.pacing buf
  rw [steady.set_added (· &&& ~~~EPOLLOUT) ((Mask.has_and_not_other _ _ (by decide)).trans steady.reads)]
  simp [TcpConnection.pacing, h, h', Mask.or_and_not]

/-- What `send` keeps back. -/
theorem queue_outputs (hs : Steady o) (h : Outputs w c o b message buf tr) {left : Bytes} (hleft : left ≠ [])
    (room : buf.writeIndex + left.length ≤ o.outputBuffer.writeIndex + message.length)
    (small : o.outputBuffer.writeIndex + message.length < 2 ^ 63) :
    Ensures (do
      onOutput c (Buffer.append left)
      let o ← deref c
      emit (.queued c o.connectState)
      if !o.channel.isWriting then
        onChannel c Channel.enabledWritable) (w.own c (o.pacing buf) tr)
      (fun _ t => OutputAt w c o (b.push left) message t) fun _ _ => False := by
  rw [ensures_bind, ensures_onOutput]
  refine ⟨fun x hx => ?_, fun hn => by simp [World.own_conns] at hn⟩
  obtain rfl : o.pacing buf = x := Option.some.inj ((World.own_conns ..).symm.trans hx)
  refine (Buffer.append_within h.inv (by omega)).mono ?_ fun _ _ => id
  rintro _ buf' ⟨hi, hr, hwi⟩
  have hne : buf'.readable ≠ [] := by simp [hr, hleft]
  have queued : Outputs w c o (b.push left) message buf' (tr ++ [.queued c o.connectState]) := by
    have told := h.told [.queued c o.connectState] (by simp [Event.accepted, Event.sent])
    simp only [writtenBytes, sentBytes, Event.accepted, Event.sent, List.flatMap_singleton, List.append_nil] at told
    exact { told with inv := hi, waiting := by rw [hr, h.waiting]; rfl, room := Nat.le_trans hwi room }
  rw [World.put_output]
  refine queued_enters (World.own_conns ..) (World.own_mirrors ..) (fun busy => ?_) fun idle => ?_
  · refine ⟨buf', _, queued, ?_⟩
    have waits : buf.readable ≠ [] := (hs.pacing buf).writing.1 busy
    rw [← pacing_keep (iff_of_false hne waits)]
    rfl
  · refine ⟨buf', _, queued, ?_⟩
    have nothing : buf.readable = [] := by
      by_contra hn
      exact absurd ((hs.pacing buf).writing.2 hn) (by rw [idle]; decide)
    rw [← pacing_enabled hs nothing hne]
    exact World.own_own { o.pacing buf with outputBuffer := buf', channel := (o.pacing buf).channel.set (· ||| EPOLLOUT) } rfl

/-- `send` once `n` bytes of the message have been written. -/
theorem sendRest_outputs (hs : Steady o) {m : Bytes} (h : Outputs w c o b (message ++ m) buf tr) {n : Int} (hn : 0 ≤ n)
    (room : buf.writeIndex ≤ o.outputBuffer.writeIndex + message.length)
    (small : o.outputBuffer.writeIndex + (message ++ m).length < 2 ^ 63) :
    Ensures (do
      assert (n ≥ 0)
      if n.toNat < m.length then
        onOutput c (Buffer.append (m.drop n.toNat))
        let o ← deref c
        emit (.queued c o.connectState)
        if !o.channel.isWriting then
          onChannel c Channel.enabledWritable) (w.own c (o.pacing buf) tr)
      (fun _ t => OutputAt w c o (b.push (m.drop n.toNat)) (message ++ m) t) fun _ _ => False := by
  rw [ensures_bind, ensures_assert]
  refine ⟨fun _ => ?_, fun hneg => absurd hn hneg⟩
  rw [ensures_ite]
  refine ⟨fun hlt => ?_, fun hge => ?_⟩
  · refine queue_outputs hs h (List.ne_nil_of_length_pos (by rw [List.length_drop]; omega)) ?_ small
    rw [List.length_append, List.length_drop]
    omega
  · refine ⟨buf, tr, { h with waiting := ?_ }, rfl⟩
    rw [List.drop_eq_nil_of_le (Nat.le_of_not_lt hge), Backlog.push, List.append_nil]
    exact h.waiting

/-- **`send`** is a `put`. -/
theorem send_outputs (hs : Steady o) (h : Outputs w c o b message buf tr) (m : Bytes) (r : Option Nat)
    (small : o.outputBuffer.writeIndex + (message ++ m).length < 2 ^ 63) :
    Ensures (TcpConnection.send c m r) (w.own c (o.pacing buf) tr)
      (fun _ t => OutputAt w c o (b.call (.put m (r.getD 0))) (message ++ m) t) fun _ _ => False := by
  have told : Outputs w c o b (message ++ m) buf (tr ++ [.send c m]) := by
    have told := h.told [.send c m] fun d hd ev hev => by
      rw [List.mem_singleton.1 hev]
      exact ⟨rfl, if_neg hd.symm⟩
    simpa [writtenBytes, sentBytes, Event.accepted, Event.sent] using told
  rw [TcpConnection.send, ensures_bind, ensures_deref]
  refine ⟨fun x hx => ?_, fun hn => by simp [World.own_conns] at hn⟩
  obtain rfl : o.pacing buf = x := Option.some.inj ((World.own_conns ..).symm.trans hx)
  rw [ensures_bind, ensures_emit, ensures_ite]
  refine ⟨fun hfree => ?_, fun hbusy => ?_⟩
  · have nothing : b.waiting = [] := h.waiting ▸ h.inv.readableSize_eq_zero.1 hfree.2
    cases r with
    | none =>
      simp only [write, pure_bind]
      rw [if_neg (by decide), Backlog.call, nothing, List.isEmpty_nil, if_pos rfl, Option.getD_none, Backlog.drain_zero]
      exact sendRest_outputs hs told (Int.le_refl 0) h.room small
    | some n =>
      simp only [write, bind_assoc, pure_bind, ensures_bind (emit _), ensures_emit]
      rw [if_pos (Int.natCast_nonneg _), Backlog.call, nothing, List.isEmpty_nil, if_pos rfl, Option.getD_some]
      have wrote : Outputs w c o ⟨b.out ++ m.take n, b.waiting⟩ (message ++ m) buf
          (tr ++ [.send c m] ++ [.written c (m.take n)]) := by
        have wrote := told.told [.written c (m.take n)] fun d hd ev hev => by
          rw [List.mem_singleton.1 hev]
          exact ⟨if_neg hd.symm, rfl⟩
        simpa [writtenBytes, sentBytes, Event.accepted, Event.sent] using wrote
      have rest : (⟨b.out ++ m.take n, b.waiting⟩ : Backlog UInt8).push (m.drop (m.take n).length) = (b.push m).drain n := by
        have left : m.drop (m.take n).length = m.drop n := by
          rw [List.length_take, List.drop_eq_drop_iff]
          omega
        simp only [Backlog.push, Backlog.drain, nothing, List.nil_append, left]
      rw [← rest]
      exact sendRest_outputs hs wrote (Int.natCast_nonneg _) h.room small
  · have busy : b.waiting ≠ [] := by
      intro hnil
      have hr : buf.readable = [] := h.waiting.trans hnil
      refine hbusy ⟨?_, h.inv.readableSize_eq_zero.2 hr⟩
      rw [Bool.not_eq_true', Bool.eq_false_iff]
      exact fun hn => (hs.pacing buf).writing.1 hn hr
    rw [Backlog.call, if_neg (by simpa using busy)]
    exact sendRest_outputs hs told (Int.le_refl 0) h.room small

/-- **`handleWrite`** is a `drain`. -/
theorem handleWrite_outputs (hs : Steady o) (h : Outputs w c o b message buf tr) {n : Nat} (hn : 0 < n) :
    Ensures (TcpConnection.handleWrite c (some n) true) (w.own c (o.pacing buf) tr)
      (fun _ t => OutputAt w c o (b.drain n) message t) fun _ _ => False := by
  have steady := hs.pacing buf
  by_cases hr : buf.readable = []
  · -- `EPOLLOUT` is not asked for, and nothing is done
    rw [TcpConnection.handleWrite, ensures_bind, ensures_deref]
    refine ⟨fun x hx => ?_, fun hn => by simp [World.own_conns] at hn⟩
    obtain rfl : o.pacing buf = x := Option.some.inj ((World.own_conns ..).symm.trans hx)
    rw [if_neg fun hw => steady.writing.1 hw hr, Backlog.drain_nothing (h.waiting ▸ hr)]
    exact ⟨buf, tr, h, rfl⟩
  · refine handleWrite_takes h.inv (World.own_conns ..) (steady.writing.2 hr) hr hn true
      fun buf' hi (hleft : buf'.readable = buf.readable.drop n) (hwi : buf'.writeIndex ≤ buf.writeIndex) => ?_
    obtain ⟨tr', htr⟩ : ∃ tr', tr' = tr ++ [.handleWrite c (some n), .written c (buf.readable.take n)] := ⟨_, rfl⟩
    have wrote : Outputs w c o (b.drain n) message buf' tr' := by
      have told := h.told [.handleWrite c (some n), .written c (buf.readable.take n)] fun d hd ev hev => by
        obtain rfl | hev := List.mem_cons.1 hev
        · exact ⟨rfl, rfl⟩
        · rw [List.mem_singleton.1 hev]
          exact ⟨if_neg hd.symm, rfl⟩
      have stream : writtenBytes c [.handleWrite c (some n), .written c (buf.readable.take n)] = b.waiting.take n ∧
          sentBytes c [.handleWrite c (some n), .written c (buf.readable.take n)] = [] := by
        simp [writtenBytes, sentBytes, Event.accepted, Event.sent, h.waiting]
      rw [stream.1, stream.2, List.append_nil, ← htr] at told
      exact { told with inv := hi, waiting := hleft.trans (congrArg (List.drop n) h.waiting), room := Nat.le_trans hwi h.room }
    change Ensures _ ((w.own c (o.pacing buf) (tr ++ [.handleWrite c (some n), .written c (buf.readable.take n)])).put c
      { o.pacing buf with outputBuffer := buf' }) _ _
    rw [World.put_output, ← htr]
    refine drained_enters (World.own_conns ..) (World.own_mirrors ..) true (fun hne => ?_) fun hzero => ?_
    · have more : buf'.readable ≠ [] := fun hnil => hne (hi.readableSize_eq_zero.2 hnil)
      refine ⟨buf', tr', wrote, ?_⟩
      rw [pacing_keep (iff_of_false more hr)]
    · have all : buf'.readable = [] := hi.readableSize_eq_zero.1 hzero
      change Ensures _ ((w.own c _ tr').own c { o.pacing buf with
        outputBuffer := buf', channel := (o.pacing buf).channel.set (· &&& ~~~EPOLLOUT) } tr') _ _
      have own : (w.own c { o.pacing buf with outputBuffer := buf' } tr').own c (o.pacing buf') tr' = w.own c (o.pacing buf') tr' :=
        World.own_own _ rfl
      rw [pacing_disabled hs hr all, own, ensures_bind, ensures_deref]
      refine ⟨fun x hx => ?_, fun hn => by simp [World.own_conns] at hn⟩
      obtain rfl : o.pacing buf' = x := Option.some.inj ((World.own_conns ..).symm.trans hx)
      have stays : (o.pacing buf').connectState ≠ .DISCONNECTING := by
        rw [(hs.pacing buf').connected]
        decide
      rw [if_neg stays]
      exact ⟨buf', tr', wrote, rfl⟩

/-! ## Any calls -/

/-- **One call** does to the bytes what it is to the stream. -/
theorem call_outputs (hs : Steady o) (h : OutputAt w c o b message t) {k : OutputCall} (fair : k.Fair)
    (small : o.outputBuffer.writeIndex + (message ++ k.onStream.given).length < 2 ^ 63) :
    Ensures (k.code c) t (fun _ u => OutputAt w c o (b.call k.onStream) (message ++ k.onStream.given) u) fun _ _ => False := by
  obtain ⟨buf, tr, h, rfl⟩ := h
  cases k with
  | send m r => exact send_outputs hs h m r small
  | writable n =>
    rw [OutputCall.onStream, Backlog.Call.given, List.append_nil]
    exact handleWrite_outputs hs h (fair n rfl)

theorem calls_output (hs : Steady o) {calls : List OutputCall} (h : OutputAt w c o b message t) (fair : ∀ k ∈ calls, k.Fair)
    (small : o.outputBuffer.writeIndex + (message ++ messages calls).length < 2 ^ 63) :
    Ensures (steps (OutputCall.code c) calls) t
      (fun _ u => OutputAt w c o (b.run (calls.map OutputCall.onStream)) (message ++ messages calls) u) fun _ _ => False := by
  induction calls generalizing b message t with
  | nil => simpa [steps, messages, Backlog.given, Backlog.run] using h
  | cons k calls ih =>
    have split : message ++ messages (k :: calls) = message ++ k.onStream.given ++ messages calls := by
      simp [messages, Backlog.given]
    rw [split] at small ⊢
    rw [steps, ensures_bind]
    refine (call_outputs hs h (fair k List.mem_cons_self) ?_).mono ?_ fun _ _ => id
    · rw [List.length_append] at small
      omega
    · rintro _ u hu
      exact ih hu (fun x hx => fair x (List.mem_cons_of_mem _ hx)) small

/-- The two states differ in how the output of `c` lies in its buffer, and in how it came there. -/
structure SameOutput (c : ConnId) (s t : World) : Prop where
  world : ∃ y buf, t.conns c = some y ∧ buf.readable = y.outputBuffer.readable ∧
    s = { t.put c { y with outputBuffer := buf } with trace := s.trace }
  written : ∀ d, writtenBytes d s.trace = writtenBytes d t.trace
  sent : ∀ d, sentBytes d s.trace = sentBytes d t.trace

theorem OutputAt.same {s : World} (h : OutputAt w c o b message s) (h' : OutputAt w c o b message t) : SameOutput c s t := by
  obtain ⟨buf, tr, h, rfl⟩ := h
  obtain ⟨buf', tr', h', rfl⟩ := h'
  have readable : buf.readable = buf'.readable := h.waiting.trans h'.waiting.symm
  refine ⟨⟨o.pacing buf', buf, World.own_conns .., readable, ?_⟩, fun d => ?_, fun d => ?_⟩
  · rw [World.put_output, pacing_keep (by rw [readable])]
    rfl
  · by_cases hd : d = c
    · subst hd
      exact h.written.trans h'.written.symm
    · exact (h.others d hd).1.trans (h'.others d hd).1.symm
  · by_cases hd : d = c
    · subst hd
      exact h.sent.trans h'.sent.symm
    · exact (h.others d hd).2.trans (h'.others d hd).2.symm

end

/-- `send` of all the bytes at a time when none can be written, and one `handleWrite`. -/
def atOnce (message : Bytes) (n : Nat) : List OutputCall := .send message none :: if n = 0 then [] else [.writable n]

theorem atOnce_fair (message : Bytes) (n : Nat) : ∀ k ∈ atOnce message n, k.Fair := by
  intro k hk
  obtain rfl | hk := List.mem_cons.1 hk
  · exact nofun
  · split at hk
    · cases hk
    · obtain rfl := List.mem_singleton.1 hk
      rintro _ ⟨⟩
      omega

theorem messages_atOnce (message : Bytes) (n : Nat) : messages (atOnce message n) = message := by
  unfold atOnce
  split <;> simp [messages, Backlog.given, OutputCall.onStream, Backlog.Call.given]

theorem run_atOnce (b : Backlog UInt8) (message : Bytes) (n : Nat) :
    b.run ((atOnce message n).map OutputCall.onStream) = (b.push message).drain n := by
  have first : b.call (.put message 0) = b.push message := by
    rw [Backlog.call, Backlog.drain_zero, ite_self]
  unfold atOnce
  split
  · rename_i hn
    rw [hn, Backlog.drain_zero]
    exact first
  · exact congrArg (Backlog.drain · n) first

/-- **The direct write is only a shortcut**: on a connected connection, in every state a run visits, let `send` and
`handleWrite` be called any number of times in any order, and let each `::write` accept what it may, those of `handleWrite` at
least one byte (it aborts otherwise); the messages have to fit into `outputBuffer_`. All calls return, and so do one `send` of
all the messages, of which nothing can be written, and one `handleWrite` that writes as much. Both leave the same: the same
bytes have been written, the same ones wait, and the rest of the state is the same, the interest set with it. -/
theorem calls_coalesce (ipPort : Name) (listenFd timerFd : Fd) (w : World) (h : Visited ipPort listenFd timerFd w) (c : ConnId)
    (o : TcpConnection) (hc : w.conns c = some o) (hst : o.connectState = .CONNECTED) (calls : List OutputCall)
    (fair : ∀ k ∈ calls, k.Fair) (small : o.outputBuffer.writeIndex + (messages calls).length < 2 ^ 63) :
    ∃ n ≤ (o.outputBuffer.readable ++ messages calls).length, ∃ s t : World, steps (OutputCall.code c) calls w = .ok () s ∧
      steps (OutputCall.code c) (atOnce (messages calls) n) w = .ok () t ∧ SameOutput c s t := by
  have steady := Steady.of_paced (h.paced c o hc) hst
  have start : OutputAt w c o ⟨writtenBytes c w.trace, o.outputBuffer.readable⟩ [] w := by
    refine ⟨o.outputBuffer, w.trace, .start (h.wellFormed.buffers c o hc).2, ?_⟩
    rw [steady.self, World.own_same h.wellFormed.objects hc o rfl rfl rfl, World.put, ← hc, Function.update_eq_self]
  obtain ⟨b, hb⟩ : ∃ b : Backlog UInt8, b = ⟨writtenBytes c w.trace, o.outputBuffer.readable⟩ := ⟨_, rfl⟩
  obtain ⟨n, hn, normal⟩ : ∃ n ≤ (b.waiting ++ messages calls).length,
      b.run (calls.map OutputCall.onStream) = (b.push (messages calls)).drain n := Backlog.run_normal b _
  rw [← hb] at start
  rw [hb] at hn
  have each := calls_output steady start fair small
  have once := calls_output steady start (atOnce_fair (messages calls) n) (by rw [messages_atOnce]; exact small)
  rw [messages_atOnce, run_atOnce, List.nil_append, ← normal] at once
  obtain ⟨_, s, hs, hos⟩ := each.returns
  obtain ⟨_, t, ht, hot⟩ := once.returns
  exact ⟨n, hn, s, t, hs, ht, hos.same hot⟩

/-- Two messages go out directly, the second one in part, the third one waits; `handleWrite` leaves the last byte. -/
theorem calls_coalesce_three : ∃ (w t : World) (n : Nat), Run step (fun _ _ => True) (World.init [] 3 4) w ∧
    steps (OutputCall.code 0) (atOnce [1, 2, 3, 4, 5, 6] n) w = .ok () t ∧ writtenBytes 0 t.trace = [1, 2, 3, 4, 5] := by
  let calls : List OutputCall := [.send [1, 2] (some 2), .send [3, 4, 5] (some 1), .send [6] (some 9), .writable 2]
  obtain ⟨w, run, hw, hcalls⟩ := Run.reaches step (fun _ _ => True) (World.init [] 3 4) [.newConnection 5 (some 6) .done]
    (fun w => (w.conns 0).any (fun o => o.connectState == .CONNECTED && o.outputBuffer.writeIndex == 8) = true ∧
      Ensures (steps (OutputCall.code 0) calls) w (fun _ s => writtenBytes 0 s.trace = [1, 2, 3, 4, 5]) fun _ _ => False)
    (by decide +kernel) (by decide +kernel)
  obtain ⟨o, hc, ho⟩ := (Option.any_eq_true ..).1 hw
  obtain ⟨hst, hindex⟩ := Bool.and_eq_true_iff.1 ho
  have small : o.outputBuffer.writeIndex + (messages calls).length < 2 ^ 63 := by
    rw [eq_of_beq hindex]
    decide
  have fair : ∀ k ∈ calls, k.Fair := by simp [calls, OutputCall.Fair]
  obtain ⟨n, -, s, t, hs, ht, same⟩ := calls_coalesce [] 3 4 w (.inl run) 0 o hc (eq_of_beq hst) calls fair small
  exact ⟨w, t, n, run, ht, (same.written 0).symm.trans ((ensures_ok hs).1 hcalls)⟩

end NetServer
