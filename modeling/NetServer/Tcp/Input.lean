import NetServer.Tcp.Echo
/-!
# Input stream integrity

What user code has taken from `inputBuffer_`, followed by what waits there, is what `readv` returned on the connection.
Reads append, and `retrieve` and `retrieveAsString` take from the head, so that what has been taken is at any time a prefix
of what came in, and only grows (`input_stream_intact`). A connection on which user code makes neither call keeps all of it.

| here | there |
| --- | --- |
| `takenBytes` | what `buf->retrieveAsString()` returned, and what a `buf->retrieve(len)` let go of |
-/

namespace NetServer
open Exec

/-- Nothing is taken from the input of the connection. -/
def Untaken (may : CallKind → ConnId → Bool) (c : ConnId) : Prop := may .echo c = false ∧ may .retrieve c = false

/-- A step of the loop whose callbacks make only calls that `may` allows. -/
def Act.only (may : CallKind → ConnId → Bool) : Act → Bool
  | .poll _ => true
  | .dispatch inp => inp.only may
  | .user script => script.only may
  | _ => false

def Event.takes (c : ConnId) : Event → Bytes
  | .taken d bytes => if d = c then bytes else []
  | _ => []

/-- The bytes that user code has taken from the input of the connection, in order. -/
def takenBytes (c : ConnId) (trace : List Event) : Bytes := trace.flatMap (Event.takes c)

@[simp] theorem takenBytes_append (c : ConnId) (tr evs : List Event) :
    takenBytes c (tr ++ evs) = takenBytes c tr ++ takenBytes c evs := List.flatMap_append

/-- Of what has been read on a connection, the bytes that have not been taken wait. -/
structure Took (may : CallKind → ConnId → Bool) (w : World) : Prop where
  allocated : ∀ c o, w.conns c = some o → c < w.nextConn
  fresh : ∀ c, w.nextConn ≤ c → takenBytes c w.trace = [] ∧ readBytes c w.trace = []
  input : ∀ c o, w.conns c = some o → o.inputBuffer.Inv
  taken : ∀ c o, w.conns c = some o → takenBytes c w.trace ++ o.inputBuffer.readable = readBytes c w.trace
  untaken : ∀ c, Untaken may c → takenBytes c w.trace = []

namespace Took

variable {may : CallKind → ConnId → Bool} {s t : World} {c : ConnId} {o : TcpConnection}

theorem init (ipPort : Name) (listenFd timerFd : Fd) : Took may (World.init ipPort listenFd timerFd) where
  allocated := nofun
  fresh _ _ := ⟨rfl, rfl⟩
  input := nofun
  taken := nofun
  untaken _ _ := rfl

theorem silent (h : Took may s) (hs : Silent s t) : Took may t where
  allocated d x hx := by
    obtain ⟨o, ho, _⟩ := hs.input d x hx
    exact hs.next ▸ h.allocated d o ho
  fresh d hd := by
    rw [hs.trace]
    exact h.fresh d (hs.next ▸ hd)
  input d x hx := by
    obtain ⟨o, ho, hb⟩ := hs.input d x hx
    exact hb ▸ h.input d o ho
  taken d x hx := by
    obtain ⟨o, ho, hb⟩ := hs.input d x hx
    rw [hs.trace, hb]
    exact h.taken d o ho
  untaken d hd := hs.trace ▸ h.untaken d hd

/-- An event that is no read, and takes nothing. -/
theorem told (h : Took may s) {ev : Event} (hev : ∀ d, ev.takes d = [] ∧ ev.got d = []) :
    Took may { s with trace := s.trace ++ [ev] } := by
  have quiet : ∀ d, takenBytes d (s.trace ++ [ev]) = takenBytes d s.trace ∧ readBytes d (s.trace ++ [ev]) = readBytes d s.trace :=
    fun d => by simp [takenBytes, readBytes, hev d]
  refine { h with fresh := fun d hd => ?_, taken := fun d o hd => ?_, untaken := fun d hd => ?_ }
  · rw [(quiet d).1, (quiet d).2]
    exact h.fresh d hd
  · rw [(quiet d).1, (quiet d).2]
    exact h.taken d o hd
  · rw [(quiet d).1]
    exact h.untaken d hd

/-- A change of the input of one connection, with what is read on it and taken from it. -/
theorem own (h : Took may s) (hc : s.conns c = some o) (b : Buffer) (evs : List Event)
    (hevs : ∀ d, d ≠ c → takenBytes d evs = [] ∧ readBytes d evs = []) (hb : b.Inv)
    (hs : takenBytes c evs ++ b.readable = o.inputBuffer.readable ++ readBytes c evs)
    (hout : Untaken may c → takenBytes c evs = []) :
    Took may { s.put c { o with inputBuffer := b } with trace := s.trace ++ evs } where
  allocated d x hx := by
    obtain ⟨rfl, _⟩ | ⟨_, hx⟩ := of_update_some hx
    · exact h.allocated d o hc
    · exact h.allocated d x hx
  fresh d hd := by
    have hdc : d ≠ c := fun he => absurd (he ▸ h.allocated c o hc) (Nat.not_lt.2 hd)
    simpa [hevs d hdc] using h.fresh d hd
  input d x hx := by
    obtain ⟨rfl, rfl⟩ | ⟨_, hx⟩ := of_update_some hx
    · exact hb
    · exact h.input d x hx
  taken d x hx := by
    obtain ⟨rfl, rfl⟩ | ⟨hd, hx⟩ := of_update_some hx
    · calc takenBytes d (s.trace ++ evs) ++ b.readable
          = takenBytes d s.trace ++ (takenBytes d evs ++ b.readable) := by rw [takenBytes_append, List.append_assoc]
        _ = takenBytes d s.trace ++ o.inputBuffer.readable ++ readBytes d evs := by rw [hs, ← List.append_assoc]
        _ = readBytes d (s.trace ++ evs) := by rw [h.taken d o hc, readBytes_append]
    · rw [takenBytes_append, readBytes_append, (hevs d hd).1, (hevs d hd).2, List.append_nil, List.append_nil]
      exact h.taken d x hx
  untaken d hd := by
    rw [takenBytes_append, h.untaken d hd]
    by_cases hdc : d = c
    · subst hdc
      rw [hout hd, List.append_nil]
    · rw [(hevs d hdc).1, List.append_nil]

/-- Taking from the head. -/
theorem take (h : Took may s) (hc : s.conns c = some o) {b : Buffer} {out : Bytes} (hb : b.Inv)
    (hs : out ++ b.readable = o.inputBuffer.readable) (hmay : ¬ Untaken may c) :
    Took may { s.put c { o with inputBuffer := b } with trace := s.trace ++ [.taken c out] } := by
  refine h.own hc b _ (fun d hd => ?_) hb ?_ fun hu => absurd hu hmay
  · simp [takenBytes, readBytes, Event.takes, Event.got, Ne.symm hd]
  · simpa [takenBytes, readBytes, Event.takes, Event.got] using hs

end Took

section
variable (may : CallKind → ConnId → Bool)

/-- Keeping `Took`, where the code returns. -/
abbrev KeepsTook {α : Type} (x : M α) : Prop := Records (fun s t => Took may s → Took may t) x

theorem KeepsTook.intro {may : CallKind → ConnId → Bool} {α : Type} {x : M α}
    (h : ∀ s, Took may s → Ensures x s (fun _ t => Took may t) fun _ _ => True) : KeepsTook may x :=
  fun s _ => (Ensures.assume (h s)).mono (fun _ _ ht => ht) fun _ _ _ => trivial

theorem recordingTook : Recording fun s t => Took may s → Took may t where
  refl _ := id
  trans h h' := h' ∘ h
  silent hs h := h.silent hs
  event _ ev hev h := h.told fun _ => by
    cases ev <;> first | exact ⟨rfl, rfl⟩ | cases hev

theorem admitsTook : Admits fun s t => Took may s → Took may t := by
  intro s t fd sock hc hn htr h
  have told : ∀ d, takenBytes d t.trace = takenBytes d s.trace ∧ readBytes d t.trace = readBytes d s.trace := fun d => by
    rw [htr]
    simp [takenBytes, readBytes, Event.takes, Event.got]
  refine ⟨fun d x hx => ?_, fun d hd => ?_, fun d x hx => ?_, fun d x hx => ?_, fun d hd => (told d).1.trans (h.untaken d hd)⟩
  · rw [hc] at hx
    rw [hn]
    obtain ⟨rfl, _⟩ | ⟨_, hx⟩ := of_update_some hx
    · exact Nat.lt_succ_self _
    · exact Nat.lt_succ_of_lt (h.allocated d x hx)
  · rw [(told d).1, (told d).2]
    exact h.fresh d (Nat.le_of_succ_le (hn.symm.trans_le hd))
  · rw [hc] at hx
    obtain ⟨_, rfl⟩ | ⟨_, hx⟩ := of_update_some hx
    · exact Buffer.inv_new (by decide) (by decide)
    · exact h.input d x hx
  · rw [hc] at hx
    rw [(told d).1, (told d).2]
    obtain ⟨rfl, rfl⟩ | ⟨_, hx⟩ := of_update_some hx
    · obtain ⟨htaken, hread⟩ := h.fresh s.nextConn (Nat.le_refl _)
      simp [htaken, hread, World.admittedConn]
    · exact h.taken d x hx

/-! ## The calls that touch the input -/

/-- What `readFd` leaves in the buffer. -/
theorem readFd_reads {b b' : Buffer} {r : Option Bytes} {n : Int}
    (h : match r with
      | none => n = -1 ∧ b' = b
      | some sent => n = (sent.take (b.writableSize + Buffer.extrabufSize)).length ∧
        b'.readable = b.readable ++ sent.take (b.writableSize + Buffer.extrabufSize)) :
    b'.readable = b.readable ++ (r.getD []).take n.toNat := by
  cases r with
  | none =>
    obtain ⟨rfl, rfl⟩ := h
    simp
  | some sent =>
    obtain ⟨rfl, hr⟩ := h
    rw [hr, Int.toNat_natCast]
    simp [List.take_eq_take_iff]

/-- **A read** appends what it returns. -/
theorem read_took (c : ConnId) (r : Option Bytes) : KeepsTook may (do
    let n ← onInput c (Buffer.readFd r)
    emit (.read c ((r.getD []).take n.toNat))
    pure n) := by
  refine .intro fun s h => ?_
  rw [ensures_bind, ensures_onInput]
  refine ⟨fun o hc => ?_, fun _ => trivial⟩
  refine (Buffer.readFd_spec (h.input c o hc) r).mono ?_ fun _ _ _ => trivial
  rintro n b ⟨hb, hr⟩
  have reads := readFd_reads hr
  simp only [ensures_bind, ensures_emit, ensures_pure]
  refine h.own hc b _ (fun d hd => ?_) hb ?_ fun _ => rfl
  · simp [takenBytes, readBytes, Event.takes, Event.got, Ne.symm hd]
  · simp [takenBytes, readBytes, Event.takes, Event.got, reads]

/-- **`retrieve`** takes from the head. -/
theorem retrieve_took {c : ConnId} (hmay : ¬ Untaken may c) (len : Nat) : KeepsTook may (TcpConnection.retrieve c len) := by
  refine .intro fun s h => ?_
  simp only [TcpConnection.retrieve, ensures_bind, ensures_deref, ensures_onInput, ensures_emit]
  refine ⟨fun x hx => ⟨fun o hc => ?_, fun _ => trivial⟩, fun _ => trivial⟩
  obtain rfl : x = o := Option.some.inj (hx.symm.trans hc)
  refine (Buffer.retrieve_spec (h.input c x hx) len).mono ?_ fun _ _ _ => trivial
  rintro _ b ⟨hb, hr, -⟩
  exact h.take hx hb (by rw [hr, List.take_append_drop]) hmay

/-- **`retrieveAsString()`** takes all. -/
theorem retrieveAll_took {c : ConnId} (hmay : ¬ Untaken may c) : KeepsTook may (TcpConnection.retrieveAsString c) := by
  refine .intro fun s h => ?_
  simp only [TcpConnection.retrieveAsString, ensures_bind, ensures_onInput, ensures_emit, ensures_pure]
  refine ⟨fun o hc => ?_, fun _ => trivial⟩
  refine (Buffer.retrieveAllAsString_spec (h.input c o hc)).mono ?_ fun _ _ _ => trivial
  rintro xs b ⟨rfl, hb, hr⟩
  exact h.take hc hb (by rw [hr, List.append_nil]) hmay

theorem send_took (c : ConnId) (message : Bytes) (r : Option Nat) : KeepsTook may (TcpConnection.send c message r) :=
  send_records (recordingTook may) c message (fun _ _ h => h.told fun _ => ⟨rfl, rfl⟩) r

/-! ## The loop -/

theorem tookReaders : Readers (fun _ => Anywhere) (fun s t => Took may s → Took may t) fun _ _ _ => True where
  toHandlers := (recordsUnits (recordingTook may)).handlers
  messageCallback c _ hu := by
    have goes := recordingTook may
    exact Records.bind goes (deref_records goes c) fun _ => withPtr_records goes c
      (Records.bind goes (emit_records goes rfl) fun _ => hu)
  read := read_took may

/-- **User code** that makes only calls that it may. -/
theorem tookCalls : UserCalls may (fun s t => Took may s → Took may t) fun _ _ _ => True where
  toComposes := records_composes (recordingTook may)
  outside _ := trivial
  send c message r _ := (send_took may c message r).weaken fun _ _ => trivial
  echo c r hmay := (Records.bind (recordingTook may) (retrieveAll_took may fun hu => by simp [hu.1] at hmay) fun x =>
    send_took may c x r).weaken fun _ _ => trivial
  retrieve c len hmay := (retrieve_took may (fun hu => by simp [hu.2] at hmay) len).weaken fun _ _ => trivial
  shutdown c ok _ := (recordsCalls (recordingTook may)).shutdown c ok rfl
  removeConnection c _ _ hd := (recordsCalls (recordingTook may)).removeConnection c rfl hd
  keepPtr c _ := (recordsCalls (recordingTook may)).keepPtr c rfl
  dropPtr c _ := (recordsCalls (recordingTook may)).dropPtr c rfl
  timer := (recordsCalls (recordingTook may)).timer

theorem step_took {a : Act} (ha : a.only may = true) : KeepsTook may (step a) := by
  have goes := recordingTook may
  have script : ∀ {x : Script}, x.only may = true → KeepsTook may x.run := fun hx => (tookCalls may).script _ hx
  cases a with
  | poll events => exact poll_records goes events
  | dispatch inp =>
    have listed : ∀ x ∈ inp.scripts, KeepsTook may x.run := fun x hx => script (List.all_eq_true.1 ha x hx)
    refine fun s _ => dispatch_records goes (admitsTook may) inp (listed _ ?_) (listed _ ?_) (listed _ ?_)
      ((tookCalls may).callback ha) s fun c _ => (tookReaders may).handleRead c _ (listed _ ?_) (listed _ ?_) (listed _ ?_)
    all_goals simp [EventInput.scripts]
  | user x => exact script ha
  | _ => cases ha

end

theorem Took.run {may : CallKind → ConnId → Bool} {w t : World} (h : Took may w)
    (hr : Run step (fun _ a => a.only may = true) w t) : Took may t :=
  hr.invariant h fun s _ hs ha => (step_took may ha s trivial).mono (fun _ _ ht => ht hs) fun _ _ _ => trivial

/-- The loop only adds to what has been recorded. -/
theorem recordingPrefix : RecordingAll fun s t => s.trace <+: t.trace where
  refl s := List.prefix_refl s.trace
  trans h h' := h.trans h'
  silent h := h.trace ▸ List.prefix_refl _
  event _ _ _ := List.prefix_append ..
  send _ _ _ := List.prefix_append ..
  read _ _ _ := List.prefix_append ..
  taken _ _ _ := List.prefix_append ..
  input s _ _ _ _ := List.prefix_refl s.trace

theorem admitsPrefix : Admits fun s t => s.trace <+: t.trace := by
  intro s t clientfd sock _ _ htr
  show s.trace <+: t.trace
  rw [htr, List.append_assoc]
  exact List.prefix_append ..

theorem Act.only_ofLoop {may : CallKind → ConnId → Bool} {a : Act} (h : a.only may = true) : a.ofLoop = true := by
  cases a <;> first | rfl | cases h

/-- **Input stream integrity**: on every connection the bytes `readv` returned are, in order, the bytes user code has taken
and the bytes that wait; what had been taken at one turn of the loop is at every later turn still the beginning of what has
been taken; and nothing is taken where user code makes no call that takes. -/
theorem input_stream_intact (may : CallKind → ConnId → Bool) (ipPort : Name) (listenFd timerFd : Fd) (w : World)
    (h : Run step (fun _ a => a.only may = true) (World.init ipPort listenFd timerFd) w) (c : ConnId) :
    (∀ o, w.conns c = some o → takenBytes c w.trace ++ o.inputBuffer.readable = readBytes c w.trace) ∧
      (Untaken may c → takenBytes c w.trace = []) ∧
      ∀ t, Run step (fun _ a => a.only may = true) w t → takenBytes c w.trace <+: takenBytes c t.trace := by
  have took : Took may w := (Took.init ipPort listenFd timerFd).run h
  refine ⟨took.taken c, took.untaken c, fun t hr => ?_⟩
  have grows : w.trace <+: t.trace := hr.invariant (I := fun t : World => w.trace <+: t.trace) (List.prefix_refl _)
    fun s a hs ha => (step_records recordingPrefix admitsPrefix a (Act.only_ofLoop ha) s trivial).mono
      (fun _ _ ht => hs.trans ht) fun _ _ _ => trivial
  obtain ⟨evs, hevs⟩ := grows
  exact ⟨takenBytes c evs, by rw [← hevs, takenBytes_append]⟩

/-- Of four bytes, read in two parts, two are taken. -/
theorem input_stream_intact_two : ∃ (w : World) (o : TcpConnection),
    Run step (fun _ a => a.only anyCall = true) (World.init [] 3 4) w ∧ w.conns 0 = some o ∧ takenBytes 0 w.trace = [1, 2] ∧
      o.inputBuffer.readable = [3, 4] ∧ takenBytes 0 w.trace ++ o.inputBuffer.readable = readBytes 0 w.trace := by
  obtain ⟨w, run, taken, ho⟩ := Run.reaches step (fun _ a => a.only anyCall = true) (World.init [] 3 4)
    [.poll [(3, EPOLLIN)], .dispatch { clientfd := some 5, sock := some 6 },
      .poll [(5, EPOLLIN)], .dispatch { readv := some [1, 2, 3], message := .retrieve 0 2 .done },
      .poll [(5, EPOLLIN)], .dispatch { readv := some [4] }]
    (fun w => takenBytes 0 w.trace = [1, 2] ∧ (w.conns 0).any (·.inputBuffer.readable == [3, 4]) = true)
    (by decide +kernel) (by decide +kernel)
  obtain ⟨o, hc, ho⟩ := (Option.any_eq_true ..).1 ho
  exact ⟨w, o, run, hc, taken, eq_of_beq ho, (input_stream_intact anyCall [] 3 4 w run 0).1 o hc⟩

end NetServer
