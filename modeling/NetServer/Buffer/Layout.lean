import NetServer.Lib.Alike
import NetServer.Buffer.Growth
/-!
# The layout of a `Buffer`, and the read through two blocks

Where the bytes of a buffer lie depends on how many there are, not on what they are: `Layout.step` says what a call makes
of the two indices and the size (`exec_layout`). `readFd` reads into the writable area and into `extrabuf` and appends the
second block; that leaves the layout of one plain `append` of all the bytes (`Layout.append_append`), so that no sequence of
calls can tell the two apart (`readFd_as_append`).
-/

namespace NetServer
open Exec

structure Layout where
  readIndex : Nat
  writeIndex : Nat
  size : Nat
deriving DecidableEq, Repr

namespace Layout

variable (l : Layout) (m n : Nat)

/-- `ensureWritableSize(n)`. -/
def ensure : Layout :=
  if l.size - l.writeIndex < n then
    if l.size - l.writeIndex + l.readIndex < n + Buffer.Prepend then
      { l with size := l.writeIndex + n }
    else
      { l with readIndex := Buffer.Prepend, writeIndex := Buffer.Prepend + (l.writeIndex - l.readIndex) }
  else
    l

/-- `append` of `n` bytes. -/
def append : Layout := { l.ensure n with writeIndex := (l.ensure n).writeIndex + n }

/-- `retrieve(n)`. -/
def retrieve : Layout :=
  if n < l.writeIndex - l.readIndex then
    { l with readIndex := l.readIndex + n }
  else
    { l with readIndex := Buffer.Prepend, writeIndex := Buffer.Prepend }

def step : BufferOp → Layout
  | .append data => l.append data.length
  | .readFd r => l.append (r.getD []).length
  | .ensureWritableSize len => l.ensure len
  | .write len data => { l.ensure len with writeIndex := (l.ensure len).writeIndex + data.length }
  | .retrieve len | .retrieveAsString len => l.retrieve len
  | .retrieveAll => { l with readIndex := Buffer.Prepend, writeIndex := Buffer.Prepend }

variable {l m n}

theorem ensure_enough (h : ¬ l.size - l.writeIndex < n) : l.ensure n = l := if_neg h

theorem ensure_grows (h : l.size - l.writeIndex < n) (h' : l.size - l.writeIndex + l.readIndex < n + Buffer.Prepend) :
    l.ensure n = { l with size := l.writeIndex + n } := by
  rw [ensure, if_pos h, if_pos h']

theorem ensure_slides (h : l.size - l.writeIndex < n) (h' : ¬ l.size - l.writeIndex + l.readIndex < n + Buffer.Prepend) :
    l.ensure n = { l with readIndex := Buffer.Prepend, writeIndex := Buffer.Prepend + (l.writeIndex - l.readIndex) } := by
  rw [ensure, if_pos h, if_neg h']

/-- **The two blocks**: to fill the writable area and to append the rest leaves the layout of one `append`. -/
theorem append_append (h : l.writeIndex ≤ l.size) (hr : l.readIndex ≤ l.writeIndex) (hn : 0 < n)
    (hm : m = l.size - l.writeIndex) : ({ l with writeIndex := l.size } : Layout).append n = l.append (m + n) := by
  subst hm
  have small : l.size - l.size < n := by omega
  have large : l.size - l.writeIndex < l.size - l.writeIndex + n := by omega
  by_cases hgrow : l.size - l.size + l.readIndex < n + Buffer.Prepend
  · rw [append, append, ensure_grows small hgrow, ensure_grows large (by omega)]
    simp only [mk.injEq, true_and]
    omega
  · rw [append, append, ensure_slides small hgrow, ensure_slides large (by omega)]
    simp only [mk.injEq, true_and, and_true]
    omega

theorem append_writeIndex_le (hp : Buffer.Prepend ≤ l.readIndex) (hr : l.readIndex ≤ l.writeIndex) :
    (l.append n).writeIndex ≤ l.writeIndex + n := by
  simp only [append, ensure]
  split
  · split
    · exact Nat.le_refl _
    · simp only
      omega
  · exact Nat.le_refl _

theorem retrieve_writeIndex_le (hw : Buffer.Prepend ≤ l.writeIndex) : (l.retrieve n).writeIndex ≤ l.writeIndex := by
  rw [retrieve]
  split
  · exact Nat.le_refl _
  · exact hw

end Layout

namespace Buffer

variable {b : Buffer}

def layout (b : Buffer) : Layout := ⟨b.readIndex, b.writeIndex, b.size⟩

/-! ## One call -/

/-- Which of the two ways `makeSpace(len)` goes, read off the indices. -/
theorem makeSpace_indices (b : Buffer) (len : Nat) :
    Ensures (makeSpace len) b
      (fun _ b' => (b.Grows len → b'.readIndex = b.readIndex ∧ b'.writeIndex = b.writeIndex) ∧
        (¬ b.Grows len → b'.readIndex = Prepend)) fun _ _ => True := by
  simp only [makeSpace, resize, ensures_bind, ensures_get, ensures_ite, ensures_throw, ensures_modify, ensures_onData,
    ensures_assert, implies_true, and_true, true_and]
  refine ⟨fun hgrow _ hslide => absurd hgrow hslide, fun hslide => ?_⟩
  exact (copyFwd_fault Fault.outOfRange _ _ _ _).mono (fun _ _ _ _ hgrow => absurd hgrow hslide) fun _ _ _ => trivial

theorem makeSpace_layout (h : Inv b) {len : Nat} (hw : b.writableSize < len) (hl : b.writeIndex + len < 2 ^ 63) :
    Ensures (makeSpace len) b (fun _ b' => b'.layout = b.layout.ensure len) fun _ _ => False := by
  have hws := h.writableSize
  have h1 := h.prepend
  have h2 := h.ordered
  have room : b.Grows len ↔ b.data.length - b.writeIndex + b.readIndex < len + Prepend :=
    h.grows_iff (by simp only [Prepend] at h1 ⊢; omega)
  have small : b.data.length - b.writeIndex < len := by omega
  by_cases hgrow : b.Grows len
  · refine ((makeSpace_grows h hgrow (by omega)).and (makeSpace_indices b len)).mono ?_ fun _ _ he => by omega
    rintro _ b' ⟨⟨-, -, -, hlen⟩, hidx, -⟩
    obtain ⟨hri, hwi⟩ := hidx hgrow
    rw [Layout.ensure_grows (l := b.layout) small (room.1 hgrow)]
    simp only [layout, size, hri, hwi, hlen]
  · refine ((makeSpace_slides h hgrow).and (makeSpace_indices b len)).mono ?_ fun _ _ he => he.1
    rintro _ b' ⟨⟨-, -, hlen, hwi⟩, -, hri⟩
    rw [Layout.ensure_slides (l := b.layout) small (mt room.2 hgrow)]
    simp only [layout, size, hri hgrow, hwi, hlen]

theorem ensureWritableSize_layout (h : Inv b) {len : Nat} (hl : b.writeIndex + len < 2 ^ 63) :
    Ensures (ensureWritableSize len) b (fun _ b' => Inv b' ∧ len ≤ b'.writableSize ∧ b'.layout = b.layout.ensure len)
      fun _ _ => False := by
  have hlay : Ensures (ensureWritableSize len) b (fun _ b' => b'.layout = b.layout.ensure len) fun _ _ => False := by
    simp only [ensureWritableSize, ensures_bind, ensures_get, ensures_ite, ensures_pure]
    refine ⟨fun hw => makeSpace_layout h hw hl, fun hw => ?_⟩
    have enough : ¬ b.data.length - b.writeIndex < len := by
      rw [← h.writableSize]
      exact hw
    rw [Layout.ensure_enough (l := b.layout) enough]
  refine ((ensureWritableSize_spec h len (by omega)).and hlay).mono ?_ fun _ _ he => he.2
  rintro _ b' ⟨⟨hi, -, hw⟩, hl'⟩
  exact ⟨hi, hw, hl'⟩

/-- What a writer does once there is room. -/
theorem writeTail_layout (h : Inv b) {data : Bytes} (hw : data.length ≤ b.writableSize) :
    Ensures (do onData (storeAll .outOfRange b.writeIndex data); hasWritten data.length) b
      (fun _ b' => b'.layout = { b.layout with writeIndex := b.writeIndex + data.length }) fun _ _ => False := by
  have hws := h.writableSize
  have h3 := h.bounded
  have h4 := h.small
  simp only [hasWritten, ensures_bind, ensures_get, ensures_onData, ensures_assert, ensures_set]
  refine (storeAll_spec Fault.outOfRange data b.writeIndex b.data).mono ?_ fun _ _ hf => absurd hf.2 (by omega)
  rintro _ d ⟨rfl, -⟩
  have hlo : (overwrite b.data b.writeIndex data).length = b.data.length := length_overwrite (by omega)
  refine ⟨fun _ => ?_, fun hn => hn ?_⟩
  · simp only [layout, size, hlo, addSize_of_lt (show b.writeIndex + data.length < 2 ^ 64 by omega)]
  · simpa only [writableSize, size, hlo] using hw

theorem append_layout (h : Inv b) {data : Bytes} (hl : b.writeIndex + data.length < 2 ^ 63) :
    Ensures (append data) b (fun _ b' => b'.layout = b.layout.append data.length) fun _ _ => False := by
  rw [append, ensures_bind]
  refine (ensureWritableSize_layout h hl).mono ?_ fun _ _ he => he
  rintro _ b' ⟨hi, hw, hlay⟩
  rw [ensures_bind, ensures_get]
  refine (writeTail_layout hi hw).mono (fun _ b'' hlay' => ?_) fun _ _ he => he
  rw [hlay', Layout.append, ← hlay]
  rfl

/-- **`readFd`** leaves the layout of one `append` of all that was read. -/
theorem readFd_layout (h : Inv b) {bytes : Bytes} (hop : Legal b (.readFd (some bytes))) :
    Ensures (readFd (some bytes)) b (fun _ b' => b'.layout = b.layout.append bytes.length) fun _ _ => False := by
  obtain ⟨hlen, hsz⟩ := hop
  have hws := h.writableSize
  have h2 := h.ordered
  have h3 := h.bounded
  have h4 := h.small
  simp only [size] at hsz
  have hx : b.writeIndex + (bytes.take b.writableSize).length ≤ b.data.length := by
    rw [List.length_take]
    omega
  have hlo := length_overwrite hx
  simp only [readFd, ensures_bind, ensures_get, ensures_onData, List.take_of_length_le hlen]
  refine (storeAll_spec Fault.outOfRange (bytes.take b.writableSize) b.writeIndex b.data).mono ?_
    fun _ _ hf => absurd hf.2 (by omega)
  rintro _ d ⟨rfl, -⟩
  simp only [ensures_ite, ensures_bind, ensures_modify, ensures_pure]
  refine ⟨fun hfit => ?_, fun hbig => ?_⟩
  · have enough : ¬ b.data.length - b.writeIndex < bytes.length := by omega
    rw [Layout.append, Layout.ensure_enough (l := b.layout) enough]
    simp only [layout, size, hlo, addSize_of_lt (show b.writeIndex + bytes.length < 2 ^ 64 by omega)]
  · -- the writable area is full, and the rest goes through `append`
    have full : Inv ⟨b.readIndex, (overwrite b.data b.writeIndex (bytes.take b.writableSize)).length,
        overwrite b.data b.writeIndex (bytes.take b.writableSize)⟩ :=
      ⟨h.prepend, by simp only [hlo]; omega, Nat.le_refl _, by simp only [hlo]; exact h4⟩
    refine (append_layout full (by simp only [hlo, List.length_drop]; omega)).mono (fun _ b' hlay => ?_) fun _ _ he => he
    have blocks := Layout.append_append (l := b.layout) (m := b.writableSize) (n := bytes.length - b.writableSize) h3 h2
      (by omega) hws
    rw [hlay, List.length_drop]
    simp only [layout, size, hlo] at blocks ⊢
    rw [blocks]
    congr 1
    omega

theorem retrieve_layout (h : Inv b) (len : Nat) :
    Ensures (retrieve len) b (fun _ b' => b'.layout = b.layout.retrieve len) fun _ _ => False := by
  have hrs := h.readableSize
  have h3 := h.bounded
  have h4 := h.small
  simp only [retrieve, retrieveAll, ensures_bind, ensures_get, ensures_ite, ensures_set, ensures_modify, hrs]
  refine ⟨fun hlt => ?_, fun hge => ?_⟩
  · rw [Layout.retrieve, if_pos (show len < b.layout.writeIndex - b.layout.readIndex from hlt),
      addSize_of_lt (by omega)]
    rfl
  · rw [Layout.retrieve, if_neg (show ¬ len < b.layout.writeIndex - b.layout.readIndex from hge)]
    rfl

/-- `append` and `retrieve`, with what they do to `writeIndex_`. -/
theorem append_within (h : Inv b) {data : Bytes} (hl : b.writeIndex + data.length < 2 ^ 63) :
    Ensures (append data) b
      (fun _ b' => b'.Inv ∧ b'.readable = b.readable ++ data ∧ b'.writeIndex ≤ b.writeIndex + data.length) fun _ _ => False := by
  refine ((append_spec h data).and (append_layout h hl)).mono ?_ fun _ _ he => he.2
  rintro _ b' ⟨⟨hi, hr⟩, hlay⟩
  have index : b'.layout.writeIndex ≤ b.layout.writeIndex + data.length := by
    rw [hlay]
    exact Layout.append_writeIndex_le h.prepend h.ordered
  exact ⟨hi, hr, index⟩

theorem retrieve_within (h : Inv b) (len : Nat) :
    Ensures (retrieve len) b (fun _ b' => b'.Inv ∧ b'.readable = b.readable.drop len ∧ b'.writeIndex ≤ b.writeIndex)
      fun _ _ => False := by
  refine ((retrieve_spec h len).and (retrieve_layout h len)).mono ?_ fun _ _ he => he.2
  rintro _ b' ⟨⟨hi, hr, -⟩, hlay⟩
  have index : b'.layout.writeIndex ≤ b.layout.writeIndex := by
    rw [hlay]
    exact Layout.retrieve_writeIndex_le (Nat.le_trans h.prepend h.ordered)
  exact ⟨hi, hr, index⟩

/-- **One call** makes of the layout what `Layout.step` says. -/
theorem exec_layout (h : Inv b) {op : BufferOp} (hop : Legal b op) :
    Ensures (exec op) b (fun _ b' => b'.layout = b.layout.step op) fun _ _ => False := by
  cases op with
  | append data =>
    simp only [exec, ensures_bind, ensures_pure]
    exact append_layout h hop
  | readFd r =>
    simp only [exec, ensures_bind, ensures_pure]
    cases r with
    | none => rfl
    | some bytes => exact readFd_layout h hop
  | ensureWritableSize len =>
    simp only [exec, ensures_bind, ensures_pure]
    exact (ensureWritableSize_layout h hop).mono (fun _ _ hb => hb.2.2) fun _ _ he => he
  | write len data =>
    obtain ⟨hd, hsz⟩ := hop
    rw [exec, ensures_bind]
    refine (ensureWritableSize_layout h hsz).mono ?_ fun _ _ he => he
    rintro _ b' ⟨hi, hw, hlay⟩
    have tail := writeTail_layout hi (show data.length ≤ b'.writableSize by omega)
    simp only [ensures_bind, ensures_get, ensures_pure] at tail ⊢
    refine tail.mono (fun _ _ hb => hb.mono (fun _ b'' hlay' => ?_) fun _ _ he => he) fun _ _ he => he
    rw [hlay', Layout.step, ← hlay]
    rfl
  | retrieve len =>
    simp only [exec, ensures_bind, ensures_pure]
    exact retrieve_layout h len
  | retrieveAll => rfl
  | retrieveAsString len =>
    have hrs := h.readableSize
    have h2 := h.ordered
    have h3 := h.bounded
    simp only [exec, retrieveAsString, ensures_bind, ensures_get, ensures_assert, ensures_onData, ensures_pure]
    refine ⟨fun _ => ?_, fun hn => hn hop⟩
    simp only [Legal] at hop
    refine (loadAll_spec Fault.outOfRange len b.readIndex b.data).mono ?_ fun _ _ hf => by have := hf.2.2; omega
    rintro _ d ⟨-, rfl, -⟩
    exact retrieve_layout h len

end Buffer

/-! ## Histories -/

/-- The call with one `append` in the place of a `readFd`. -/
def BufferOp.plain : BufferOp → BufferOp
  | .readFd (some bytes) => .append bytes
  | .readFd none => .ensureWritableSize 0
  | op => op

namespace Buffer

variable {b c : Buffer}

/-- Two buffers of one layout that hold the same bytes. -/
structure Same (b c : Buffer) : Prop where
  left : Inv b
  right : Inv c
  layout : c.layout = b.layout
  readable : c.readable = b.readable

theorem legal_plain (h : Same b c) {op : BufferOp} (hop : Legal b op) : Legal c op.plain := by
  have hlay := h.layout
  have h3 := h.left.bounded
  have hws := h.left.writableSize
  have hrs : c.readableSize = b.readableSize := by
    rw [← h.right.length_readable, h.readable, h.left.length_readable]
  simp only [Buffer.layout, Layout.mk.injEq, size] at hlay
  cases op with
  | readFd r =>
    cases r with
    | none =>
      have h4 := h.left.small
      simp only [BufferOp.plain, Legal]
      omega
    | some bytes =>
      simp only [BufferOp.plain, Legal, size] at hop ⊢
      omega
  | retrieve len => trivial
  | retrieveAll => trivial
  | append data | ensureWritableSize len | write len data | retrieveAsString len =>
    simp only [BufferOp.plain, Legal] at hop ⊢
    omega

theorem step_plain (l : Layout) (op : BufferOp) : l.step op.plain = l.step op := by
  cases op with
  | readFd r => cases r <;> rfl
  | append | ensureWritableSize | write | retrieve | retrieveAll | retrieveAsString => rfl

theorem queueStep_plain (q : Bytes) (op : BufferOp) : queueStep q op.plain = queueStep q op := by
  cases op with
  | readFd r => cases r <;> rfl
  | append | ensureWritableSize | write | retrieve | retrieveAll | retrieveAsString => rfl

/-- **One call** on either buffer. -/
theorem exec_plain (h : Same b c) {op : BufferOp} (hop : Legal b op) :
    Alike (exec op) b (exec op.plain) c fun out b' out' c' => out' = out ∧ Same b' c' ∧ b'.layout = b.layout.step op := by
  obtain ⟨out, b', he, ⟨hi, hr, hout⟩, hlay⟩ := ((step_refines h.left op hop).and (exec_layout h.left hop)).mono
    (fun _ _ hb => hb) (fun _ _ he => he.1) |>.returns
  have hop' := legal_plain h hop
  obtain ⟨out', c', he', ⟨hi', hr', hout'⟩, hlay'⟩ := ((step_refines h.right op.plain hop').and (exec_layout h.right hop')).mono
    (fun _ _ hb => hb) (fun _ _ he => he.1) |>.returns
  rw [queueStep_plain, h.readable] at hr' hout'
  rw [step_plain, h.layout] at hlay'
  exact (alike_ok he he').2 ⟨hout'.trans hout.symm, ⟨hi, hi', hlay'.trans hlay.symm, hr'.trans hr.symm⟩, hlay⟩

theorem runOps_plain (ops : List BufferOp) (h : Same b c) (hl : LegalRun b ops) :
    Alike (runOps ops) b (runOps (ops.map BufferOp.plain)) c fun outs b' outs' c' =>
      outs' = outs ∧ Same b' c' ∧ b'.layout = ops.foldl Layout.step b.layout := by
  induction ops generalizing b c with
  | nil => exact (alike_pure ..).2 ⟨rfl, h, rfl⟩
  | cons op ops ih =>
    obtain ⟨hop, hrest⟩ := hl
    refine ((exec_plain h hop).left hrest).bind ?_
    rintro out b' out' c' ⟨⟨rfl, h', hlay⟩, hl'⟩
    refine (ih h' hl').bind ?_
    rintro outs b'' outs' c'' ⟨rfl, h'', hlay'⟩
    exact (alike_pure ..).2 ⟨rfl, h'', by rw [hlay', hlay, List.foldl_cons]⟩

/-- **`readFd` is one `append`**: in every legal history of calls on a new buffer each `readFd`, with its two blocks, can be
replaced by one `append` of all the bytes read: the same strings are returned, the same bytes are readable, and the indices
and the size of the storage are the same. These depend on the numbers of bytes alone. -/
theorem readFd_as_append (initSize : Nat) (hp : Prepend ≤ initSize) (hs : initSize < 2 ^ 63) (ops : List BufferOp)
    (hl : LegalRun (new initSize) ops) :
    ∃ outs b c, runOps ops (new initSize) = .ok outs b ∧
      runOps (ops.map BufferOp.plain) (new initSize) = .ok outs c ∧
      c.readable = b.readable ∧ c.layout = b.layout ∧ b.layout = ops.foldl Layout.step ⟨Prepend, Prepend, initSize⟩ := by
  have start : Same (new initSize) (new initSize) := ⟨inv_new hp hs, inv_new hp hs, rfl, rfl⟩
  obtain ⟨outs, b, he, -⟩ := (runOps_refines ops (inv_new hp hs) hl).returns
  obtain ⟨_, c, he', rfl, h, hlay⟩ := (runOps_plain ops start hl).returns he
  refine ⟨_, b, c, he, he', h.readable, h.layout, ?_⟩
  rw [hlay]
  simp [layout, new, size]

/-- Five bytes are read into the four cells that are left, which slides, and three into two, which grows. -/
theorem readFd_as_append_slide_grow :
    ∃ outs b c, runOps [.append [1, 2, 3, 4], .retrieve 3, .readFd (some [5, 6, 7, 8, 9]), .readFd (some [10, 11, 12]),
        .retrieveAsString 7] (new 16) = .ok outs b ∧
      runOps [.append [1, 2, 3, 4], .retrieve 3, .append [5, 6, 7, 8, 9], .append [10, 11, 12],
        .retrieveAsString 7] (new 16) = .ok outs c ∧
      c.readable = b.readable ∧ c.layout = b.layout ∧ b.layout = ⟨15, 17, 17⟩ :=
  readFd_as_append 16 (by decide) (by decide)
    [.append [1, 2, 3, 4], .retrieve 3, .readFd (some [5, 6, 7, 8, 9]), .readFd (some [10, 11, 12]), .retrieveAsString 7]
    (by decide +kernel)

end Buffer

end NetServer
