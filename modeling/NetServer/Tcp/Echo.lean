import NetServer.Tcp.Recording
import NetServer.Tcp.Stream
/-!
# The echo server (v1.7/Test/EchoServerTest.cpp)

`onMessage` sends back what `inputBuffer_` holds. Between a read and the end of `onMessage` the server owes the client
what it has read (`Owing`); at every turn of the loop it owes nothing (`Echoed`), and with the integrity of the output
stream what went out and what waits is what came in (`echo_end_to_end`).

| here | there |
| --- | --- |
| `Script.echo c r .done` | `onMessage` (`EchoServerTest.cpp:28`): `conn->send(buf->retrieveAsString())` |
| `Act.echoes`            | a step of a server with this `onMessage`; its other callbacks neither send nor take from the input, and may close or keep connections (`onConnection` only prints) |
-/

namespace NetServer
open Exec

def Event.got (c : ConnId) : Event → Bytes
  | .read d bytes => if d = c then bytes else []
  | _ => []

/-- The bytes `readv` returned on the connection, in order. -/
def readBytes (c : ConnId) (trace : List Event) : Bytes := trace.flatMap (Event.got c)

@[simp] theorem readBytes_append (c : ConnId) (tr evs : List Event) :
    readBytes c (tr ++ evs) = readBytes c tr ++ readBytes c evs := List.flatMap_append

/-- The message callback, if the channel is a connection's, is `onMessage`. -/
def EventInput.answers (p : Option ChannelPtr) (inp : EventInput) : Bool :=
  match p, inp.message with
  | some (.conn c), .echo d _ .done => d == c
  | some (.conn _), _ => false
  | _, _ => true

/-- A step of the echo server. -/
def Act.echoes (w : World) : Act → Bool
  | .poll _ => true
  | .dispatch inp =>
    ([inp.hupDown, inp.hupUser, inp.readDown, inp.readUser, inp.up] ++ inp.callbacks.map Prod.snd).all
      (·.only CallKind.routine) && inp.answers w.activeChannels.head?
  | .user script => script.only CallKind.routine
  | _ => false

/-- `waits c` is in the input buffer of `c`, and `owes c` has been read on it and not been sent. -/
structure Owing (waits owes : ConnId → Bytes) (w : World) : Prop where
  allocated : ∀ c o, w.conns c = some o → c < w.nextConn
  fresh : ∀ c, w.nextConn ≤ c → sentBytes c w.trace = [] ∧ readBytes c w.trace = []
  input : ∀ c o, w.conns c = some o → o.inputBuffer.Inv ∧ o.inputBuffer.readable = waits c
  sent : ∀ c o, w.conns c = some o → sentBytes c w.trace ++ owes c = readBytes c w.trace

/-- All that has been read has been taken and sent. -/
abbrev Echoed (w : World) : Prop := Owing (fun _ => []) (fun _ => []) w

namespace Owing

variable {waits owes : ConnId → Bytes} {s t : World} {c : ConnId} {o : TcpConnection}

theorem init (ipPort : Name) (listenFd timerFd : Fd) : Echoed (World.init ipPort listenFd timerFd) where
  allocated := nofun
  fresh _ _ := ⟨rfl, rfl⟩
  input := nofun
  sent := nofun

theorem silent (h : Owing waits owes s) (hs : Silent s t) : Owing waits owes t where
  allocated d x hx := by
    obtain ⟨o, ho, _⟩ := hs.input d x hx
    exact hs.next ▸ h.allocated d o ho
  fresh d hd := by
    rw [hs.trace]
    exact h.fresh d (hs.next ▸ hd)
  input d x hx := by
    obtain ⟨o, ho, hb⟩ := hs.input d x hx
    exact hb ▸ h.input d o ho
  sent d x hx := by
    obtain ⟨o, ho, _⟩ := hs.input d x hx
    rw [hs.trace]
    exact h.sent d o ho

theorem routine (h : Owing waits owes s) {ev : Event} (hev : ev.routine = true) :
    Owing waits owes { s with trace := s.trace ++ [ev] } := by
  have quiet : ∀ d, sentBytes d [ev] = [] ∧ readBytes d [ev] = [] := fun d => by
    cases ev <;> first | exact ⟨rfl, rfl⟩ | cases hev
  refine ⟨h.allocated, fun d hd => ?_, h.input, fun d o hd => ?_⟩
  · simp [h.fresh d hd, quiet d]
  · simpa [quiet d] using h.sent d o hd

/-- A change of the input of one connection, and of what is owed to it. -/
theorem own (h : Owing waits owes s) (hc : s.conns c = some o) (o' : TcpConnection) {evs : List Event} {owed : Bytes}
    (ht : t.conns = Function.update s.conns c (some o')) (hn : t.nextConn = s.nextConn) (htr : t.trace = s.trace ++ evs)
    (hevs : ∀ d, d ≠ c → sentBytes d evs = [] ∧ readBytes d evs = []) (hb : o'.inputBuffer.Inv)
    (hs : sentBytes c evs ++ owed = owes c ++ readBytes c evs) :
    Owing (Function.update waits c o'.inputBuffer.readable) (Function.update owes c owed) t where
  allocated d x hx := by
    rw [ht] at hx
    rw [hn]
    obtain ⟨rfl, _⟩ | ⟨_, hx⟩ := of_update_some hx
    · exact h.allocated d o hc
    · exact h.allocated d x hx
  fresh d hd := by
    rw [hn] at hd
    have hdc : d ≠ c := fun he => absurd (he ▸ h.allocated c o hc) (Nat.not_lt.2 hd)
    simp [htr, h.fresh d hd, hevs d hdc]
  input d x hx := by
    rw [ht] at hx
    obtain ⟨rfl, rfl⟩ | ⟨hd, hx⟩ := of_update_some hx
    · exact ⟨hb, by rw [Function.update_self]⟩
    · rw [Function.update_of_ne hd]
      exact h.input d x hx
  sent d x hx := by
    rw [ht] at hx
    obtain ⟨rfl, rfl⟩ | ⟨hd, hx⟩ := of_update_some hx
    · rw [Function.update_self, htr, sentBytes_append, readBytes_append, List.append_assoc, hs, ← List.append_assoc, h.sent d o hc]
    · rw [Function.update_of_ne hd, htr, sentBytes_append, readBytes_append, (hevs d hd).1, (hevs d hd).2, List.append_nil,
        List.append_nil]
      exact h.sent d x hx

end Owing

theorem recordingOwing (waits owes : ConnId → Bytes) : Recording fun s t => Owing waits owes s → Owing waits owes t where
  refl _ := id
  trans h h' := h' ∘ h
  silent hs h := h.silent hs
  event _ _ hev h := h.routine hev

/-- Nothing has been read on a new connection. -/
theorem admitsEchoed : Admits fun s t => Echoed s → Echoed t := by
  intro s t fd sock hc hn htr h
  have told : ∀ d, sentBytes d t.trace = sentBytes d s.trace ∧ readBytes d t.trace = readBytes d s.trace := fun d => by
    rw [htr]
    simp [sentBytes, readBytes, Event.sent, Event.got]
  refine ⟨fun d x hx => ?_, fun d hd => ?_, fun d x hx => ?_, fun d x hx => ?_⟩
  · rw [hc] at hx
    rw [hn]
    obtain ⟨rfl, _⟩ | ⟨_, hx⟩ := of_update_some hx
    · exact Nat.lt_succ_self _
    · exact Nat.lt_succ_of_lt (h.allocated d x hx)
  · rw [(told d).1, (told d).2]
    exact h.fresh d (Nat.le_of_succ_le (hn.symm.trans_le hd))
  · rw [hc] at hx
    obtain ⟨_, rfl⟩ | ⟨_, hx⟩ := of_update_some hx
    · exact ⟨Buffer.inv_new (by decide) (by decide), Buffer.readable_new _⟩
    · exact h.input d x hx
  · rw [hc] at hx
    rw [(told d).1, (told d).2]
    obtain ⟨rfl, _⟩ | ⟨_, hx⟩ := of_update_some hx
    · obtain ⟨hsent, hread⟩ := h.fresh s.nextConn (Nat.le_refl _)
      rw [hsent, hread, List.append_nil]
    · exact h.sent d x hx

/-! ## One read -/

/-- `send` of what is owed. -/
theorem send_echoes {c : ConnId} {k : Bytes} {r : Option Nat} {s : World}
    (h : Owing (fun _ => []) (Function.update (fun _ => []) c k) s) :
    Ensures (TcpConnection.send c k r) s (fun _ t => Echoed t) fun _ _ => True := by
  have goes := recordingOwing (fun _ => []) (fun _ => [])
  rw [TcpConnection.send, ensures_bind, ensures_deref]
  refine ⟨fun o hc => ?_, fun _ => trivial⟩
  rw [ensures_bind, ensures_emit]
  obtain ⟨hinv, hempty⟩ := h.input c o hc
  have other : ∀ d, d ≠ c → sentBytes d [.send c k] = [] ∧ readBytes d [.send c k] = [] := fun d hd => by
    simp [sentBytes, readBytes, Event.sent, Event.got, Ne.symm hd]
  have own : sentBytes c [.send c k] ++ [] = Function.update (fun _ => []) c k c ++ readBytes c [.send c k] := by
    simp [sentBytes, readBytes, Event.sent, Event.got]
  have told := h.own (t := { s with trace := s.trace ++ [.send c k] }) hc o (by simp [← hc]) rfl rfl other hinv own
  rw [hempty, Function.update_eq_self, Function.update_idem, Function.update_eq_self] at told
  have rest := sendRest_moves (records_composes goes) (fun _ h => h) (fun _ => trivial) (deref_records goes c)
    (writer_records goes c) (onOutput_records goes c) (fun op _ => onChannel_records goes c op) o k r
  exact (rest _ trivial).mono (fun _ _ ht => ht told) fun _ _ _ => trivial

/-- **`onMessage`** takes what has been read and sends it. -/
theorem onMessage_echoes {c : ConnId} {k : Bytes} (reply : Option Nat) {s : World}
    (h : Owing (Function.update (fun _ => []) c k) (Function.update (fun _ => []) c k) s) :
    Ensures (TcpConnection.messageCallback c (Script.echo c reply .done).run) s (fun _ t => Echoed t) fun _ _ => True := by
  have goes := recordingOwing (fun _ => []) (fun _ => [])
  simp only [TcpConnection.messageCallback, TcpConnection.retrieveAsString, withPtr, Script.run, userPtr, ensures_bind,
    ensures_deref, ensures_modify, ensures_emit, ensures_get, ensures_ite, ensures_pure, ensures_throw, ensures_onInput]
  refine ⟨fun _ _ => ⟨fun _ _ => ⟨fun _ => ⟨fun o hc => ?_, fun _ => trivial⟩, fun _ => trivial⟩, fun _ => trivial⟩, fun _ => trivial⟩
  have framed : Owing (Function.update (fun _ => []) c k) (Function.update (fun _ => []) c k)
      { s with frames := c :: s.frames } := h.silent (.same rfl rfl rfl)
  have told := framed.routine (rfl : (Event.messageCallback c).routine = true)
  obtain ⟨m, hm⟩ : ∃ m : World, m = { s with frames := c :: s.frames, trace := s.trace ++ [.messageCallback c] } := ⟨_, rfl⟩
  rw [← hm] at told ⊢
  replace hc : m.conns c = some o := hm ▸ hc
  obtain ⟨hinv, hwaits⟩ := told.input c o hc
  refine (Buffer.retrieveAllAsString_spec hinv).mono ?_ fun _ _ _ => trivial
  rintro xs b ⟨rfl, hb, hempty⟩
  rw [hwaits, Function.update_self]
  have taken : Owing _ (Function.update _ c k) { m.put c { o with inputBuffer := b } with trace := m.trace ++ [.taken c k] } :=
    told.own hc { o with inputBuffer := b } rfl rfl rfl (fun _ _ => ⟨rfl, rfl⟩) hb (by simp [sentBytes, readBytes, Event.sent, Event.got])
  rw [Function.update_idem, Function.update_idem, hempty, Function.update_eq_self] at taken
  refine (send_echoes taken).mono (fun _ t ht => ?_) fun _ _ _ => trivial
  have popped : Echoed { t with frames := t.frames.erase c } := ht.silent (.same rfl rfl rfl)
  exact ((recordsReleases goes).release c _ trivial).mono (fun _ _ hu => hu popped) fun _ _ _ => trivial

/-- What `readFd` returns and leaves in an input buffer that was empty. -/
theorem readFd_echoes {b b' : Buffer} {r : Option Bytes} {n : Int} (hempty : b.readable = [])
    (h : match r with
      | none => n = -1 ∧ b' = b
      | some sent => n = (sent.take (b.writableSize + Buffer.extrabufSize)).length ∧
        b'.readable = b.readable ++ sent.take (b.writableSize + Buffer.extrabufSize)) :
    b'.readable = (r.getD []).take n.toNat ∧ (n ≤ 0 → b'.readable = []) := by
  cases r with
  | none =>
    obtain ⟨rfl, rfl⟩ := h
    simp [hempty]
  | some sent =>
    obtain ⟨rfl, hr⟩ := h
    rw [hr, hempty, List.nil_append]
    refine ⟨?_, fun hn => List.length_eq_zero_iff.1 (by omega)⟩
    rw [Int.toNat_natCast]
    simp [List.take_eq_take_iff]

/-- **A read**: what it returns is sent, and nothing stays in the input buffer. -/
theorem handleRead_echoes {c : ConnId} (r : Option Bytes) (reply : Option Nat) {down user : M Unit}
    (hd : Records (fun s t => Echoed s → Echoed t) down) (hu : Records (fun s t => Echoed s → Echoed t) user) :
    Records (fun s t => Echoed s → Echoed t) (TcpConnection.handleRead c r (Script.echo c reply .done).run down user) := by
  have goes := recordingOwing (fun _ => []) (fun _ => [])
  refine fun s _ => (Ensures.assume fun h : Echoed s => ?_ : Ensures _ s (fun _ t => Echoed s → Echoed t) fun _ _ => Echoed s → True).mono
    (fun _ _ ht => ht) fun _ _ _ => trivial
  rw [TcpConnection.handleRead, ensures_bind, ensures_onInput]
  refine ⟨fun o hc => ?_, fun _ => trivial⟩
  obtain ⟨hinv, hempty⟩ := h.input c o hc
  refine (Buffer.readFd_spec hinv r).mono ?_ fun _ _ _ => trivial
  rintro n b ⟨hb, hr⟩
  obtain ⟨hk, hnone⟩ := readFd_echoes hempty hr
  rw [ensures_bind, ensures_emit]
  obtain ⟨k, hkdef⟩ : ∃ k, k = (r.getD []).take n.toNat := ⟨_, rfl⟩
  rw [← hkdef] at hk ⊢
  obtain ⟨m, hm⟩ : ∃ m : World, m = { s.put c { o with inputBuffer := b } with
    trace := (s.put c { o with inputBuffer := b }).trace ++ [.read c k] } := ⟨_, rfl⟩
  rw [← hm]
  have other : ∀ d, d ≠ c → sentBytes d [.read c k] = [] ∧ readBytes d [.read c k] = [] := fun d hd => by
    simp [sentBytes, readBytes, Event.sent, Event.got, Ne.symm hd]
  have own : sentBytes c [.read c k] ++ k = [] ++ readBytes c [.read c k] := by
    simp [sentBytes, readBytes, Event.sent, Event.got]
  have got : Owing (Function.update (fun _ => []) c b.readable) (Function.update (fun _ => []) c k) m := by
    rw [hm]
    exact h.own hc { o with inputBuffer := b } rfl rfl rfl other hb own
  rw [hk] at got
  rw [ensures_ite]
  refine ⟨fun _ => onMessage_echoes reply got, fun hn => ?_⟩
  have nothing : k = [] := hk ▸ hnone (by omega)
  rw [nothing, Function.update_eq_self] at got
  rw [ensures_ite]
  refine ⟨fun _ => ?_, fun _ => got⟩
  exact ((recordsUnits goes).handlers.handleClose c hd hu m trivial).mono (fun _ _ ht => ht got) fun _ _ _ => trivial

/-! ## The loop -/

theorem EventInput.answers_conn {inp : EventInput} {c : ConnId} (h : inp.answers (some (.conn c)) = true) :
    ∃ reply, inp.message = .echo c reply .done := by
  unfold EventInput.answers at h
  split at h
  · rename_i d e reply hp hmessage
    cases hp
    exact ⟨reply, by rw [hmessage, eq_of_beq h]⟩
  · cases h
  · rename_i hne _
    exact absurd rfl (hne c)

theorem step_echoes {s : World} {a : Act} (ha : a.echoes s = true) (h : Echoed s) :
    Ensures (step a) s (fun _ t => Echoed t) fun _ _ => True := by
  have goes := recordingOwing (fun _ => []) (fun _ => [])
  have script : ∀ {x : Script}, x.only CallKind.routine = true → Records (fun s t => Echoed s → Echoed t) x.run :=
    fun hx => (recordsCalls goes).script _ hx
  cases a with
  | poll events => exact (poll_records goes events s trivial).mono (fun _ _ ht => ht h) fun _ _ _ => trivial
  | dispatch inp =>
    simp only [Act.echoes, List.all_append, List.all_cons, List.all_nil, Bool.and_true, Bool.and_eq_true] at ha
    obtain ⟨⟨⟨hhupDown, hhupUser, hreadDown, hreadUser, hup⟩, hcallbacks⟩, hanswers⟩ := ha
    have callback : ∀ t, (inp.callback t).only CallKind.routine = true := fun t =>
      (inp.callback_cases t).elim (fun hdone => hdone ▸ rfl) (List.all_eq_true.1 hcallbacks _)
    refine (dispatch_records goes admitsEchoed inp (script hhupDown) (script hhupUser) (script hup) (fun t => script (callback t)) s
      fun c hc => ?_).mono (fun _ _ ht => ht h) fun _ _ _ => trivial
    rw [hc] at hanswers
    obtain ⟨reply, hmessage⟩ := EventInput.answers_conn hanswers
    rw [hmessage]
    exact handleRead_echoes inp.readv reply (script hreadDown) (script hreadUser)
  | user x => exact (script ha s trivial).mono (fun _ _ ht => ht h) fun _ _ _ => trivial
  | _ => cases ha

/-- **Echo end to end**: at every turn of the loop of the echo server, for every connection, the input buffer is empty,
and the bytes `::write` accepted and then the bytes that wait are the bytes `readv` returned on the same connection. -/
theorem echo_end_to_end (ipPort : Name) (listenFd timerFd : Fd) (w : World)
    (h : Run step (fun s a => a.echoes s = true) (World.init ipPort listenFd timerFd) w) (c : ConnId) (o : TcpConnection)
    (hc : w.conns c = some o) :
    o.inputBuffer.readableSize = 0 ∧ writtenBytes c w.trace ++ o.outputBuffer.readable = readBytes c w.trace := by
  have echoed : Echoed w := h.invariant (.init ..) fun s a hs ha => step_echoes ha hs
  have visited : Visited ipPort listenFd timerFd w := .inl (h.weaken fun _ _ _ => trivial)
  obtain ⟨hinv, hempty⟩ := echoed.input c o hc
  refine ⟨hinv.readableSize_eq_zero.2 hempty, ?_⟩
  calc writtenBytes c w.trace ++ o.outputBuffer.readable
      = sentBytes c w.trace := visited.streamOk.stream c o hc
    _ = readBytes c w.trace := by simpa using echoed.sent c o hc

/-- Two clients write in turn; of the first answer one byte goes out at once and one later, of the second nothing. -/
theorem echo_end_to_end_two :
    ∃ (w : World) (o x : TcpConnection), Run step (fun s a => a.echoes s = true) (World.init [] 3 4) w ∧
      w.conns 0 = some o ∧ w.conns 1 = some x ∧ o.outputBuffer.readable = [3] ∧ readBytes 1 w.trace = [7, 8] ∧
      (o.inputBuffer.readableSize = 0 ∧ writtenBytes 0 w.trace ++ o.outputBuffer.readable = readBytes 0 w.trace) ∧
      (x.inputBuffer.readableSize = 0 ∧ writtenBytes 1 w.trace ++ x.outputBuffer.readable = readBytes 1 w.trace) := by
  obtain ⟨w, run, hw⟩ := Run.reaches step (fun s a => a.echoes s = true) (World.init [] 3 4)
    [.poll [(3, EPOLLIN)], .dispatch { clientfd := some 5, sock := some 6 },
      .poll [(3, EPOLLIN)], .dispatch { clientfd := some 9, sock := some 10 },
      .poll [(9, EPOLLIN), (5, EPOLLIN)], .dispatch { readv := some [7, 8], message := .echo 1 none .done },
      .dispatch { readv := some [1, 2, 3], message := .echo 0 (some 1) .done },
      .poll [(5, EPOLLOUT)], .dispatch { message := .echo 0 none .done, write := some 1 }]
    (fun w => (w.conns 0).any (·.outputBuffer.readable == [3]) = true ∧ (w.conns 1).isSome ∧ readBytes 1 w.trace = [7, 8])
    (by decide +kernel) (by decide +kernel)
  obtain ⟨ho, hx, hread⟩ := hw
  obtain ⟨o, hc, ho⟩ := (Option.any_eq_true ..).1 ho
  obtain ⟨x, hd⟩ := Option.isSome_iff_exists.1 hx
  exact ⟨w, o, x, run, hc, hd, eq_of_beq ho, hread, echo_end_to_end [] 3 4 w run 0 o hc, echo_end_to_end [] 3 4 w run 1 x hd⟩

end NetServer
