import NetServer.Buffer.Queue
/-!
# The storage stays proportional to the content

`makeSpace` resizes to `writeIndex_ + len` only while the room in front of the readable bytes and behind them is less
than `len + Prepend`: then `readIndex_` is below `len + Prepend`, and the new size is at most twice the new
`readableSize()` plus `Prepend` (`makeSpace_length`). Nothing else changes the size, so whatever is streamed through a
buffer, its storage is bounded by the largest content so far (`storage_bounded`).
-/

namespace NetServer
open Exec

/-- The calls of a connection: what is read or appended, and what is taken out. -/
def BufferOp.streams : BufferOp → Bool
  | .ensureWritableSize _ | .write _ _ => false
  | _ => true

namespace Buffer

variable {b : Buffer}

/-! ## The size after a call -/

/-- **`makeSpace(len)`** makes the storage no longer than twice what is readable once `len` bytes are written. -/
theorem makeSpace_length (h : Inv b) (len : Nat) (hl : len < 2 ^ 63) :
    Ensures (makeSpace len) b
      (fun _ b' => b'.data.length ≤ max b.data.length (2 * (b.readableSize + len) + Prepend)) fun _ _ => True := by
  have hws := h.writableSize
  have hrs := h.readableSize
  have h3 := h.bounded
  have h4 := h.small
  by_cases hgrow : b.Grows len
  · refine (makeSpace_grows h hgrow (by omega)).mono ?_ fun _ _ _ => trivial
    rintro _ b' ⟨-, -, -, hlen⟩
    -- the new size is the new content and what lies in front of it, which is less than `len + Prepend`
    rw [h.grows_iff (by simp only [Prepend]; omega)] at hgrow
    omega
  · refine (makeSpace_slides h hgrow).mono ?_ fun _ _ _ => trivial
    rintro _ b' ⟨-, -, hlen, -⟩
    omega

theorem ensureWritableSize_length (h : Inv b) (len : Nat) (hl : len < 2 ^ 63) :
    Ensures (ensureWritableSize len) b
      (fun _ b' => b'.data.length ≤ max b.data.length (2 * (b.readableSize + len) + Prepend)) fun _ _ => True := by
  simp only [ensureWritableSize, ensures_bind, ensures_get, ensures_ite, ensures_pure]
  exact ⟨fun _ => makeSpace_length h len hl, fun _ => Nat.le_max_left ..⟩

theorem append_length (h : Inv b) (data : Bytes) :
    Ensures (append data) b
      (fun _ b' => b'.data.length ≤ max b.data.length (2 * (b.readableSize + data.length) + Prepend)) fun _ _ => True := by
  by_cases hl : data.length < 2 ^ 63
  · simp only [append, hasWritten, ensures_bind, ensures_get, ensures_onData, ensures_assert, ensures_set]
    refine (ensureWritableSize_length h data.length hl).mono ?_ fun _ _ _ => trivial
    intro _ b' hb'
    refine (storeAll_length Fault.outOfRange data b'.writeIndex b'.data).mono ?_ fun _ _ _ => trivial
    intro _ d hd
    rw [hd]
    exact ⟨fun _ => hb', fun _ => trivial⟩
  · -- such a `data` does not fit in any vector
    refine (append_spec h data).mono ?_ fun _ _ _ => trivial
    intro _ b' hb'
    have hlen := hb'.1.length_readable
    have hrs := hb'.1.readableSize
    have hb := hb'.1.bounded
    have hs := hb'.1.small
    rw [hb'.2, List.length_append] at hlen
    omega

/-- **`readFd`**: what overflows into `extrabuf` is appended when the storage is full. -/
theorem readFd_length (h : Inv b) (r : Option Bytes) :
    Ensures (readFd r) b (fun _ b' => b'.data.length ≤ max b.data.length (2 * b'.readableSize + Prepend)) fun _ _ => True := by
  cases r with
  | none =>
    simp only [readFd, ensures_bind, ensures_get, ensures_pure]
    exact Nat.le_max_left ..
  | some sent =>
    have hws := h.writableSize
    have h3 := h.bounded
    simp only [readFd, ensures_bind, ensures_get, ensures_onData]
    generalize sent.take (b.writableSize + extrabufSize) = bytes
    refine (storeAll_spec Fault.outOfRange (bytes.take b.writableSize) b.writeIndex b.data).mono ?_ fun _ _ _ => trivial
    rintro _ d ⟨rfl, -⟩
    have hx : b.writeIndex + (bytes.take b.writableSize).length ≤ b.data.length := by
      rw [List.length_take]
      omega
    have hlo := length_overwrite hx
    simp only [ensures_ite, ensures_bind, ensures_modify, ensures_pure]
    constructor
    · intro _
      rw [hlo]
      exact Nat.le_max_left ..
    · intro _
      have hfull : Inv ⟨b.readIndex, (overwrite b.data b.writeIndex (bytes.take b.writableSize)).length,
          overwrite b.data b.writeIndex (bytes.take b.writableSize)⟩ :=
        ⟨h.prepend, by have := h.ordered; simp only [hlo]; omega, Nat.le_refl _, by simp only [hlo]; exact h.small⟩
      refine ((append_length hfull (bytes.drop b.writableSize)).and (append_spec hfull (bytes.drop b.writableSize))).mono ?_
        fun _ _ _ => trivial
      rintro _ b' ⟨hlen, hi, hr⟩
      have content : b'.readableSize =
          (⟨b.readIndex, (overwrite b.data b.writeIndex (bytes.take b.writableSize)).length,
            overwrite b.data b.writeIndex (bytes.take b.writableSize)⟩ : Buffer).readableSize +
            (bytes.drop b.writableSize).length := by
        rw [← hi.length_readable, hr, List.length_append, hfull.length_readable]
      rw [content, ← hlo]
      exact hlen

/-- **One call** keeps the bound, for what is readable after it. -/
theorem exec_length (h : Inv b) {op : BufferOp} (hop : op.streams = true) :
    Ensures (exec op) b (fun _ b' => Inv b' ∧ b'.data.length ≤ max b.data.length (2 * b'.readableSize + Prepend))
      fun _ _ => True := by
  cases op with
  | append data =>
    simp only [exec, ensures_bind, ensures_pure]
    refine ((append_spec h data).and (append_length h data)).mono ?_ fun _ _ _ => trivial
    rintro _ b' ⟨⟨hi, hr⟩, hlen⟩
    rw [← h.length_readable, ← List.length_append, ← hr, hi.length_readable] at hlen
    exact ⟨hi, hlen⟩
  | readFd r =>
    simp only [exec, ensures_bind, ensures_pure]
    exact ((readFd_spec h r).and (readFd_length h r)).mono (fun _ _ hb => ⟨hb.1.1, hb.2⟩) fun _ _ _ => trivial
  | ensureWritableSize len => cases hop
  | write len data => cases hop
  | retrieve len =>
    simp only [exec, ensures_bind, ensures_pure]
    refine (retrieve_spec h len).mono ?_ fun _ _ _ => trivial
    rintro _ b' ⟨hi, -, hd⟩
    rw [hd]
    exact ⟨hi, Nat.le_max_left ..⟩
  | retrieveAll =>
    simp only [exec, retrieveAll, ensures_bind, ensures_pure, ensures_modify]
    have h1 := h.prepend
    have h2 := h.ordered
    have h3 := h.bounded
    exact ⟨⟨Nat.le_refl _, Nat.le_refl _, by simp only; omega, h.small⟩, Nat.le_max_left ..⟩
  | retrieveAsString len =>
    by_cases hl : len ≤ b.readableSize
    · refine (retrieveAsString_spec h len hl).mono ?_ fun _ _ _ => trivial
      rintro _ b' ⟨-, hi, -, hd⟩
      rw [hd]
      exact ⟨hi, Nat.le_max_left ..⟩
    · -- the `assert` fails
      simp only [exec, retrieveAsString, ensures_bind, ensures_get, ensures_assert]
      exact ⟨fun hle => absurd hle hl, fun _ => trivial⟩

/-! ## Runs -/

/-- A call, and the largest `readableSize()` so far. -/
def peakStep (op : BufferOp) : EStateM Fault (Buffer × Nat) Unit := do
  let _ ← zoom Prod.fst (fun b s => (b, s.2)) (exec op)
  modify fun s => (s.1, max s.2 s.1.readableSize)

/-- **The storage is bounded by the content**: in every run of calls on a new buffer, with `s.2` the largest
`readableSize()` so far. -/
theorem storage_bounded (initSize : Nat) (hp : Prepend ≤ initSize) (hs : initSize < 2 ^ 63) (s : Buffer × Nat)
    (h : Run peakStep (fun _ op => op.streams = true) (new initSize, 0) s) :
    s.1.readableSize ≤ s.2 ∧ s.1.size ≤ max initSize (2 * s.2 + Prepend) := by
  have start : Inv (new initSize) ∧ (new initSize).readableSize ≤ 0 ∧ (new initSize).size ≤ max initSize (2 * 0 + Prepend) := by
    refine ⟨inv_new hp hs, ?_, ?_⟩
    · rw [← (inv_new hp hs).length_readable, readable_new]
      exact Nat.le_refl _
    · simp [new, size]
  refine (h.invariant (I := fun s => Inv s.1 ∧ s.1.readableSize ≤ s.2 ∧ s.1.size ≤ max initSize (2 * s.2 + Prepend)) start ?_).2
  rintro ⟨b, peak⟩ op ⟨hi, -, hsize⟩ hop
  simp only [peakStep, ensures_bind, ensures_zoom, ensures_modify]
  refine (exec_length hi hop).mono ?_ fun _ _ _ => trivial
  rintro _ b' ⟨hi', hlen⟩
  have before : b.data.length ≤ max initSize (2 * peak + Prepend) := hsize
  have after : b'.data.length ≤ max b.data.length (2 * b'.readableSize + Prepend) := hlen
  refine ⟨hi', Nat.le_max_right .., ?_⟩
  show b'.data.length ≤ max initSize (2 * max peak b'.readableSize + Prepend)
  omega

/-- Ten bytes go through a buffer that holds at most five at a time: it has grown once. -/
theorem storage_bounded_stream :
    ∃ s : Buffer × Nat, Run peakStep (fun _ op => op.streams = true) (new 12, 0) s ∧ s.2 = 5 ∧ s.1.size = 13 ∧
      s.1.size ≤ max 12 (2 * 5 + Prepend) := by
  obtain ⟨s, run, hpeak, hsize⟩ := Run.reaches peakStep (fun _ op => op.streams = true) (new 12, 0)
    [.append [1, 2, 3], .readFd (some [4, 5]), .retrieve 4, .append [6, 7, 8, 9], .retrieveAsString 5, .append [10]]
    (fun s => s.2 = 5 ∧ s.1.size = 13) (by decide +kernel) (by decide +kernel)
  have bound := (storage_bounded 12 (by decide) (by decide) s run).2
  rw [hpeak] at bound
  exact ⟨s, run, hpeak, hsize, bound⟩

end Buffer

end NetServer
