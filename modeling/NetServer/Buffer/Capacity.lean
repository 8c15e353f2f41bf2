import NetServer.Buffer.Queue
/-!
# The initial capacity is not observable

Two buffers that are built with room for the prepended bytes refine the same queue, whatever their sizes are, so that the
same calls give the same answers (`capacity_unobservable`). `size_t` arithmetic breaks this twice: the indices of a smaller
buffer start behind its storage, where `writableSize()` wraps; and `writeIndex_ + len` may wrap in `makeSpace`, which then
shrinks the storage below `writeIndex_`.
-/

namespace NetServer
open Exec

/-- The calls that are made on both buffers: sizes are `size_t`, and `data` is an array. -/
def BufferOp.callable : BufferOp → Bool
  | .append data => data.length ≤ maxSize
  | .ensureWritableSize len | .retrieve len | .retrieveAsString len => len < 2 ^ 64
  | .retrieveAll => true
  | .readFd _ | .write _ _ => false

namespace Buffer

variable {b : Buffer}

/-- If `ensureWritableSize(len)` resizes, `writeIndex_ + len` does not wrap. -/
def Unwrapped (b : Buffer) : BufferOp → Prop
  | .ensureWritableSize len => b.writableSize < len → b.Grows len → b.writeIndex + len < 2 ^ 64
  | _ => True

instance decidableUnwrapped (b : Buffer) : ∀ op, Decidable (Unwrapped b op)
  | .ensureWritableSize _ => inferInstanceAs (Decidable (_ → _ → _))
  | .append _ | .readFd _ | .write _ _ | .retrieve _ | .retrieveAll | .retrieveAsString _ => .isTrue trivial

/-! ## One buffer -/

theorem ensureWritableSize_unwrapped (h : Inv b) {len : Nat} (hu : Unwrapped b (.ensureWritableSize len)) :
    Ensures (ensureWritableSize len) b (fun _ b' => Inv b' ∧ b'.readable = b.readable) fun e _ => e = .lengthError := by
  simp only [ensureWritableSize, ensures_bind, ensures_get, ensures_ite, ensures_pure]
  refine ⟨fun hw => ?_, fun _ => ⟨h, trivial⟩⟩
  by_cases hgrow : b.Grows len
  · exact (makeSpace_grows h hgrow (hu hw hgrow)).mono (fun _ _ hb => ⟨hb.1, hb.2.1⟩) fun _ _ he => he.1
  · exact (makeSpace_slides h hgrow).mono (fun _ _ hb => ⟨hb.1, hb.2.1⟩) fun _ _ he => he.elim

/-- **One call refines one queue step**, or stops for the reason the caller or the vector gives. -/
theorem exec_refines (h : Inv b) {op : BufferOp} (hc : op.callable = true) (hu : Unwrapped b op) :
    Ensures (exec op) b
      (fun out b' => Inv b' ∧ b'.readable = (queueStep b.readable op).1 ∧ out = (queueStep b.readable op).2)
      fun e _ => e ≠ .outOfRange := by
  cases op with
  | append data =>
    have hl : data.length ≤ maxSize := by simpa [BufferOp.callable] using hc
    simp only [exec, ensures_bind, ensures_pure]
    refine (append_spec h data).mono (fun _ _ hb => ⟨hb.1, hb.2, rfl⟩) ?_
    rintro e _ ⟨-, he⟩
    rw [he (by simp only [maxSize] at hl; omega)]
    simp
  | ensureWritableSize len =>
    simp only [exec, ensures_bind, ensures_pure]
    exact (ensureWritableSize_unwrapped h hu).mono (fun _ _ hb => ⟨hb.1, hb.2, rfl⟩) fun _ _ he => by simp [he]
  | retrieveAsString len =>
    by_cases hl : len ≤ b.readableSize
    · exact (step_refines h (.retrieveAsString len) hl).mono (fun _ _ hb => hb) fun _ _ he => he.elim
    · simp only [exec, retrieveAsString, ensures_bind, ensures_get, ensures_assert]
      exact ⟨fun hle => absurd hle hl, fun _ => by simp⟩
  | retrieve len => exact (step_refines h (.retrieve len) trivial).mono (fun _ _ hb => hb) fun _ _ he => he.elim
  | retrieveAll => exact (step_refines h .retrieveAll trivial).mono (fun _ _ hb => hb) fun _ _ he => he.elim
  | readFd r => cases hc
  | write len data => cases hc

/-- Where `writeIndex_` is behind the storage, `writableSize()` wraps and the next byte is written outside. -/
theorem append_outside (hw : b.data.length < b.writeIndex) (hs : b.writeIndex < 2 ^ 63) (x : UInt8) :
    Ensures (append [x]) b (fun _ _ => False) fun e _ => e = .outOfRange := by
  have huge : ¬ b.writableSize < [x].length := by
    simp only [writableSize, subSize, size, List.length_singleton]
    omega
  simp only [append, ensureWritableSize, ensures_bind, ensures_get, ensures_ite, ensures_pure]
  refine ⟨fun hlt => absurd hlt huge, fun _ => ?_⟩
  rw [ensures_onData, storeAll, ensures_bind, ensures_error (store_of_ge _ x (by omega))]

/-- A sum that wraps shrinks the storage below `writeIndex_`. -/
theorem ensureWritableSize_wrapped (h : Inv b) {len : Nat} (hl : len < 2 ^ 64)
    (hu : ¬ Unwrapped b (.ensureWritableSize len)) (x : UInt8) :
    Ensures (ensureWritableSize len) b
      (fun _ b' => Ensures (append [x]) b' (fun _ _ => False) fun e _ => e = .outOfRange) fun _ _ => False := by
  obtain ⟨hw, hgrow, hwrap⟩ : b.writableSize < len ∧ b.Grows len ∧ ¬ b.writeIndex + len < 2 ^ 64 := by
    simpa [Unwrapped] using hu
  have h3 := h.bounded
  have h4 := h.small
  have wraps : addSize b.writeIndex len = b.writeIndex + len - 2 ^ 64 := by
    unfold addSize
    omega
  have shrunk : b.writeIndex + len - 2 ^ 64 < b.writeIndex := by omega
  simp only [ensureWritableSize, makeSpace, resize, ensures_bind, ensures_get]
  rw [ensures_ite]
  refine ⟨fun _ => ?_, fun hn => absurd hw hn⟩
  rw [ensures_bind, ensures_get, ensures_ite]
  refine ⟨fun _ => ?_, fun hn => absurd hgrow hn⟩
  rw [wraps, ensures_ite, ensures_throw, ensures_modify]
  refine ⟨fun hbig => ?_, fun _ => append_outside ?_ (by dsimp only; omega) x⟩
  · simp only [maxSize] at hbig
    omega
  · simp only [List.length_append, List.length_take, List.length_replicate]
    omega

end Buffer

/-! ## Two buffers -/

/-- Two buffers on which the same calls are made, with what the calls returned. -/
structure Twins where
  left : Buffer
  right : Buffer
  outs : List (Bytes × Bytes)

namespace Twins
open Buffer

def new (s₁ s₂ : Nat) : Twins := ⟨.new s₁, .new s₂, []⟩

def step (op : BufferOp) : EStateM Fault Twins Unit := do
  let x ← zoom Twins.left (fun b s => { s with left := b }) (exec op)
  let y ← zoom Twins.right (fun b s => { s with right := b }) (exec op)
  modify fun s => { s with outs := s.outs ++ [(x, y)] }

/-- A call, with no sum that wraps in either buffer. -/
def Fits (s : Twins) (op : BufferOp) : Prop := op.callable = true ∧ Unwrapped s.left op ∧ Unwrapped s.right op

instance decidableFits (s : Twins) (op : BufferOp) : Decidable (Fits s op) := inferInstanceAs (Decidable (_ ∧ _))

/-- So far no one can tell the two buffers apart, and the next call stays inside their storages. -/
def Alike (s : Twins) : Prop :=
  s.left.readableSize = s.right.readableSize ∧ (∀ o ∈ s.outs, o.1 = o.2) ∧
  ∀ op, Fits s op → Ensures (exec op) s.left (fun _ _ => True) (fun e _ => e ≠ .outOfRange) ∧
    Ensures (exec op) s.right (fun _ _ => True) fun e _ => e ≠ .outOfRange

/-- Both buffers hold the same queue. -/
structure Refine (s : Twins) : Prop where
  left : Inv s.left
  right : Inv s.right
  same : s.left.readable = s.right.readable
  outs : ∀ o ∈ s.outs, o.1 = o.2

theorem Refine.alike {s : Twins} (h : Refine s) : Alike s := by
  refine ⟨?_, h.outs, fun op hop => ⟨?_, ?_⟩⟩
  · rw [← h.left.length_readable, h.same, h.right.length_readable]
  · exact (exec_refines h.left hop.1 hop.2.1).mono (fun _ _ _ => trivial) fun _ _ he => he
  · exact (exec_refines h.right hop.1 hop.2.2).mono (fun _ _ _ => trivial) fun _ _ he => he

theorem step_refine {s : Twins} (h : Refine s) {op : BufferOp} (hop : Fits s op) :
    Ensures (step op) s (fun _ t => Refine t) fun _ _ => True := by
  simp only [step, ensures_bind, ensures_zoom, ensures_modify]
  refine (exec_refines h.left hop.1 hop.2.1).mono ?_ fun _ _ _ => trivial
  rintro x l ⟨hl, hlr, hx⟩
  refine (exec_refines h.right hop.1 hop.2.2).mono ?_ fun _ _ _ => trivial
  rintro y r ⟨hr, hrr, hy⟩
  refine ⟨hl, hr, ?_, ?_⟩
  · show l.readable = r.readable
    rw [hlr, hrr, h.same]
  · intro o ho
    rcases List.mem_append.1 ho with ho | ho
    · exact h.outs o ho
    · rw [List.mem_singleton.1 ho]
      show x = y
      rw [hx, hy, h.same]

/-- A storage without room for the prepended bytes: the first byte is written behind it. -/
theorem room_of_inside {s : Nat} {b : Buffer} (hb : b = .new s)
    (inside : Ensures (exec (.append [0])) b (fun _ _ => True) fun e _ => e ≠ .outOfRange) : Prepend ≤ s := by
  by_contra small
  have behind : b.data.length < b.writeIndex := by
    rw [hb]
    simpa [Buffer.new] using small
  have inRange : b.writeIndex < 2 ^ 63 := by
    rw [hb]
    simp [Buffer.new, Prepend]
  simp only [exec, ensures_bind] at inside
  obtain ⟨e, t, he, rfl⟩ := (append_outside behind inRange 0).stops
  rw [ensures_error he] at inside
  exact inside rfl

theorem Alike.room {s : Twins} {s₁ s₂ : Nat} (h : Alike s) (h₁ : s.left = .new s₁) (h₂ : s.right = .new s₂) :
    Prepend ≤ s₁ ∧ Prepend ≤ s₂ := by
  have first := h.2.2 (.append [0]) ⟨by decide, trivial, trivial⟩
  exact ⟨room_of_inside h₁ first.1, room_of_inside h₂ first.2⟩

end Twins

/-- **The initial capacity is not observable** in any run in which no sum wraps, iff both capacities have room for the
prepended bytes; and a sum that wraps leaves a buffer whose next byte is written outside its storage. -/
theorem capacity_unobservable (s₁ s₂ : Nat) (h₁ : s₁ ≤ maxSize) (h₂ : s₂ ≤ maxSize) :
    ((∀ s, Run Twins.step Twins.Fits (.new s₁ s₂) s → s.Alike) ↔ Buffer.Prepend ≤ s₁ ∧ Buffer.Prepend ≤ s₂) ∧
    ∀ b : Buffer, b.Inv → ∀ len < 2 ^ 64, ¬ b.Unwrapped (.ensureWritableSize len) → ∀ x,
      Ensures (Buffer.ensureWritableSize len) b
        (fun _ b' => Ensures (Buffer.append [x]) b' (fun _ _ => False) fun e _ => e = .outOfRange) fun _ _ => False := by
  refine ⟨⟨fun alike => ?_, ?_⟩, fun b hb len hl hu x => Buffer.ensureWritableSize_wrapped hb hl hu x⟩
  · exact (alike _ .start).room rfl rfl
  · rintro ⟨hp₁, hp₂⟩ s run
    have start : Twins.Refine (.new s₁ s₂) :=
      ⟨Buffer.inv_new hp₁ (by simp only [maxSize] at h₁; omega), Buffer.inv_new hp₂ (by simp only [maxSize] at h₂; omega),
        by simp [Twins.new], by simp [Twins.new]⟩
    exact (run.invariant start fun s op hs hop => Twins.step_refine hs hop).alike

/-- A buffer of 8 bytes and one of 1024; and a sum that wraps, which leaves 11 of 20 bytes. -/
theorem capacity_unobservable_slide :
    (∃ s : Twins, Run Twins.step Twins.Fits (.new 8 1024) s ∧
      s.outs = [([], []), ([1, 2], [1, 2]), ([], []), ([3, 4, 5], [3, 4, 5])] ∧ s.Alike) ∧
    Ensures (Buffer.ensureWritableSize (2 ^ 64 - 9)) ⟨8, 20, List.replicate 20 7⟩
      (fun _ b' => Ensures (Buffer.append [7]) b' (fun _ _ => False) fun e _ => e = .outOfRange) fun _ _ => False := by
  obtain ⟨alike, wraps⟩ := capacity_unobservable 8 1024 (by decide) (by decide)
  obtain ⟨s, run, houts⟩ := Run.reaches Twins.step Twins.Fits (.new 8 1024)
    [.append [1, 2, 3], .retrieveAsString 2, .append [4, 5], .retrieveAsString 3]
    (fun s => s.outs = [([], []), ([1, 2], [1, 2]), ([], []), ([3, 4, 5], [3, 4, 5])]) (by decide +kernel) (by decide +kernel)
  refine ⟨⟨s, run, houts, alike.2 (by decide) s run⟩, wraps _ ⟨by decide, by decide, by decide, by decide⟩ _ (by decide) ?_ 7⟩
  decide

/-- A buffer of no bytes, and a byte that is appended to it. -/
theorem not_capacity_unobservable_zero :
    ¬ ∀ s₁ s₂ : Nat, s₁ ≤ maxSize → s₂ ≤ maxSize → ∀ s, Run Twins.step (fun _ op => op.callable = true) (.new s₁ s₂) s → s.Alike := by
  intro alike
  exact absurd ((alike 0 1024 (by decide) (by decide) _ .start).room rfl rfl).1 (by decide)

end NetServer
