import NetServer.Buffer.Inv
/-!
# `Buffer` is a FIFO byte queue

The purpose of a `Buffer`, said without indices: a list of bytes that grows at the tail and is
consumed at the head (`queueStep`). `step_refines` shows that every call of the public interface does
to the readable bytes what `queueStep` does to the list, and `runOps_refines` carries it over whole
histories from the constructor on. `Legal` is what a caller promises: `readv` returns at most what the
two blocks hold, `hasWritten` is told of no more bytes than room was made for, no more is taken out
than is there, and all sizes stay below `2^63`.
-/

namespace NetServer
open Exec

/-- One call on a buffer. `write` is `ensureWritableSize(len)`, then bytes written at
`writeIndexPtr()`, then `hasWritten`. -/
inductive BufferOp where
  | append (data : Bytes)
  | readFd (r : Option Bytes)
  | ensureWritableSize (len : Nat)
  | write (len : Nat) (data : Bytes)
  | retrieve (len : Nat)
  | retrieveAll
  | retrieveAsString (len : Nat)
deriving DecidableEq, Repr

namespace Buffer

/-- The call, with the string it returns (empty for the others). -/
def exec : BufferOp → BufM Bytes
  | .append data => do append data; pure []
  | .readFd r => do let _ ← readFd r; pure []
  | .ensureWritableSize len => do ensureWritableSize len; pure []
  | .write len data => do
    ensureWritableSize len
    let b ← get
    onData (storeAll .outOfRange b.writeIndex data)
    hasWritten data.length
    pure []
  | .retrieve len => do retrieve len; pure []
  | .retrieveAll => do retrieveAll; pure []
  | .retrieveAsString len => retrieveAsString len

def Legal (b : Buffer) : BufferOp → Prop
  | .append data => b.writeIndex + data.length < 2 ^ 63
  | .readFd none => True
  | .readFd (some bytes) => bytes.length ≤ b.writableSize + extrabufSize ∧ b.size + extrabufSize < 2 ^ 63
  | .ensureWritableSize len => b.writeIndex + len < 2 ^ 63
  | .write len data => data.length ≤ len ∧ b.writeIndex + len < 2 ^ 63
  | .retrieve _ => True
  | .retrieveAll => True
  | .retrieveAsString len => len ≤ b.readableSize

instance decidableLegal (b : Buffer) : ∀ op, Decidable (Legal b op)
  | .append _ => inferInstanceAs (Decidable (_ < _))
  | .readFd none => .isTrue trivial
  | .readFd (some _) => inferInstanceAs (Decidable (_ ∧ _))
  | .ensureWritableSize _ => inferInstanceAs (Decidable (_ < _))
  | .write _ _ => inferInstanceAs (Decidable (_ ∧ _))
  | .retrieve _ => .isTrue trivial
  | .retrieveAll => .isTrue trivial
  | .retrieveAsString _ => inferInstanceAs (Decidable (_ ≤ _))

/-- The abstract queue: what a call makes of the list, and the bytes it returns. -/
def queueStep (q : Bytes) : BufferOp → Bytes × Bytes
  | .append data => (q ++ data, [])
  | .readFd none => (q, [])
  | .readFd (some bytes) => (q ++ bytes, [])
  | .ensureWritableSize _ => (q, [])
  | .write _ data => (q ++ data, [])
  | .retrieve len => (q.drop (min len q.length), [])
  | .retrieveAll => ([], [])
  | .retrieveAsString len => (q.drop len, q.take len)

/-- **One call refines one queue step**, and does not stop. -/
theorem step_refines {b : Buffer} (h : Inv b) (op : BufferOp) (hop : Legal b op) :
    Ensures (exec op) b
      (fun out b' => Inv b' ∧ b'.readable = (queueStep b.readable op).1 ∧ out = (queueStep b.readable op).2)
      (fun _ _ => False) := by
  cases op with
  | append data =>
    simp only [exec, ensures_bind, ensures_pure]
    refine (append_spec h data).mono ?_ ?_
    · rintro _ b' ⟨hi, hr⟩
      exact ⟨hi, hr, rfl⟩
    · rintro _ _ ⟨hs, -⟩
      simp only [Legal] at hop; omega
  | readFd r =>
    simp only [exec, ensures_bind, ensures_pure]
    cases r with
    | none => simpa [readFd, queueStep] using h
    | some bytes =>
      obtain ⟨hlen, hsz⟩ := hop
      refine (readFd_spec h (some bytes)).mono ?_ ?_
      · rintro _ b' ⟨hi, -, hr⟩
        refine ⟨hi, ?_, rfl⟩
        rw [hr, List.take_of_length_le hlen]; rfl
      · rintro _ _ ⟨-, hs⟩
        simp only [size] at hsz; omega
  | ensureWritableSize len =>
    simp only [exec, ensures_bind, ensures_pure]
    simp only [Legal] at hop
    refine (ensureWritableSize_spec h len (by omega)).mono ?_ ?_
    · rintro _ b' ⟨hi, hr, -⟩
      exact ⟨hi, hr, rfl⟩
    · rintro _ _ ⟨-, hs⟩
      omega
  | write len data =>
    obtain ⟨hd, hsz⟩ := hop
    simp only [exec, ensures_bind, ensures_get, ensures_pure]
    refine (ensureWritableSize_spec h len (by omega)).mono ?_ ?_
    · rintro _ b' ⟨hi, hr, hw⟩
      exact writeTail_spec hi data (by omega) fun b'' hi' hr' => ⟨hi', by rw [hr', hr]; rfl, rfl⟩
    · rintro _ _ ⟨-, hs⟩
      omega
  | retrieve len =>
    simp only [exec, ensures_bind, ensures_pure]
    refine (retrieve_spec h len).mono ?_ fun _ _ hf => hf
    rintro _ b' ⟨hi, hr, -⟩
    refine ⟨hi, ?_, rfl⟩
    rw [hr]
    simp only [queueStep]
    by_cases hl : len ≤ b.readable.length
    · rw [Nat.min_eq_left hl]
    · rw [Nat.min_eq_right (by omega), List.drop_eq_nil_of_le (by omega), List.drop_length]
  | retrieveAll =>
    simp only [exec, retrieveAll, ensures_bind, ensures_pure, ensures_modify]
    refine ⟨⟨Nat.le_refl _, Nat.le_refl _, ?_, h.small⟩, by simp [readable, queueStep], rfl⟩
    have := h.prepend; have := h.ordered; have := h.bounded; simp only; omega
  | retrieveAsString len =>
    refine (retrieveAsString_spec h len hop).mono ?_ fun _ _ hf => hf
    rintro _ b' ⟨hx, hi, hr, -⟩
    exact ⟨hi, hr, hx⟩

/-! ## Histories -/

/-- The calls of a history, with the strings they return. -/
def runOps : List BufferOp → BufM (List Bytes)
  | [] => pure []
  | op :: ops => do
    let out ← exec op
    let outs ← runOps ops
    pure (out :: outs)

/-- Every call of the history is legal where it is made. -/
def LegalRun : Buffer → List BufferOp → Prop
  | _, [] => True
  | b, op :: ops => Legal b op ∧ Ensures (exec op) b (fun _ b' => LegalRun b' ops) (fun _ _ => True)

instance decidableLegalRun : ∀ (b : Buffer) (ops : List BufferOp), Decidable (LegalRun b ops)
  | _, [] => .isTrue trivial
  | b, op :: ops =>
    have := fun b' => decidableLegalRun b' ops
    inferInstanceAs (Decidable (Legal b op ∧ Ensures (exec op) b (fun _ b' => LegalRun b' ops) (fun _ _ => True)))

def queueRun (q : Bytes) : List BufferOp → Bytes × List Bytes
  | [] => (q, [])
  | op :: ops => ((queueRun (queueStep q op).1 ops).1, (queueStep q op).2 :: (queueRun (queueStep q op).1 ops).2)

theorem runOps_refines (ops : List BufferOp) {b : Buffer} (h : Inv b) (hl : LegalRun b ops) :
    Ensures (runOps ops) b
      (fun outs b' => Inv b' ∧ b'.readable = (queueRun b.readable ops).1 ∧ outs = (queueRun b.readable ops).2)
      (fun _ _ => False) := by
  induction ops generalizing b with
  | nil => exact ⟨h, rfl, rfl⟩
  | cons op ops ih =>
    obtain ⟨hop, hrest⟩ := hl
    obtain ⟨out, b', he, hi, hr, ho⟩ := (step_refines h op hop).returns
    rw [ensures_ok he] at hrest
    rw [runOps, ensures_bind, ensures_ok he, ensures_bind]
    refine (ih hi hrest).mono ?_ fun _ _ hf => hf
    rintro outs b'' ⟨hi', hr', ho'⟩
    rw [ensures_pure, queueRun, hr', ho', ho, hr]
    exact ⟨hi', rfl, rfl⟩

/-- **A buffer refines a FIFO byte queue**: every legal history of calls on a new buffer runs to its
end (no failing assert, no access outside `data_`, no exception) with the indices in order, and its
readable bytes and returned strings are those of the abstract queue. -/
theorem buffer_refines_queue (initSize : Nat) (hp : Prepend ≤ initSize) (hs : initSize < 2 ^ 63)
    (ops : List BufferOp) (hl : LegalRun (new initSize) ops) :
    ∃ outs b, runOps ops (new initSize) = .ok outs b ∧
      Prepend ≤ b.readIndex ∧ b.readIndex ≤ b.writeIndex ∧ b.writeIndex ≤ b.size ∧
      b.readable = (queueRun [] ops).1 ∧ b.readableSize = (queueRun [] ops).1.length ∧
      outs = (queueRun [] ops).2 := by
  obtain ⟨outs, b, he, hi, hr, ho⟩ := (runOps_refines ops (inv_new hp hs) hl).returns
  rw [readable_new] at hr ho
  exact ⟨outs, b, he, hi.prepend, hi.ordered, hi.bounded, hr, by rw [← hi.length_readable, hr], ho⟩

/-- A history that fills the storage, slides, grows and overflows into `extrabuf`. -/
theorem buffer_refines_queue_slide_grow :
    ∃ outs b, runOps [.append [1, 2, 3], .retrieve 2, .readFd (some [4, 5, 6]), .write 2 [7], .retrieveAsString 5,
        .retrieveAll] (new 12) = .ok outs b ∧
      Prepend ≤ b.readIndex ∧ b.readIndex ≤ b.writeIndex ∧ b.writeIndex ≤ b.size ∧
      b.readable = [] ∧ b.readableSize = 0 ∧ outs = [[], [], [], [], [3, 4, 5, 6, 7], []] :=
  buffer_refines_queue 12 (by decide) (by decide) _ (by decide +kernel)

end Buffer

end NetServer
