import NetServer.Buffer.Model
/-!
# `Buffer`: the index invariant, and what each operation does to the readable bytes

`Inv` is `Prepend <= readIndex_ <= writeIndex_ <= data_.size() <= max_size()`. Under it the size
accessors are plain differences, and one spec lemma per operation says what it adds at the tail or
drops from the head. The fault side of each spec is the only way the operation can stop: a vector
that would have to hold `2^63` bytes.
-/

namespace NetServer
open Exec

namespace Buffer

structure Inv (b : Buffer) : Prop where
  prepend : Prepend ≤ b.readIndex
  ordered : b.readIndex ≤ b.writeIndex
  bounded : b.writeIndex ≤ b.data.length
  small : b.data.length < 2 ^ 63

/-- The readable bytes, oldest first. -/
def readable (b : Buffer) : Bytes := window b.data b.readIndex (b.writeIndex - b.readIndex)

variable {b : Buffer}

theorem inv_new {n : Nat} (h : Prepend ≤ n) (hn : n < 2 ^ 63) : Inv (new n) :=
  ⟨Nat.le_refl _, Nat.le_refl _, by simpa [new] using h, by simpa [new] using hn⟩

@[simp] theorem readable_new (n : Nat) : (new n).readable = [] := by simp [readable, new]

theorem Inv.writableSize (h : Inv b) : b.writableSize = b.data.length - b.writeIndex := by
  obtain ⟨_, _, h3, h4⟩ := h
  exact subSize_of_le h3 (by simp only [size]; omega)

theorem Inv.readableSize (h : Inv b) : b.readableSize = b.writeIndex - b.readIndex := by
  obtain ⟨_, h2, h3, h4⟩ := h
  exact subSize_of_le h2 (by omega)

theorem Inv.length_readable (h : Inv b) : b.readable.length = b.readableSize := by
  rw [h.readableSize]
  exact length_window (by have := h.ordered; have := h.bounded; omega)

theorem Inv.readableSize_eq_zero (h : Inv b) : b.readableSize = 0 ↔ b.readable = [] := by
  rw [← h.length_readable, List.length_eq_zero_iff]

@[simp] theorem ensures_onData {α : Type} {x : EStateM Fault Bytes α} {Q : α → Buffer → Prop}
    {E : Fault → Buffer → Prop} :
    Ensures (onData x) b Q E ↔
      Ensures x b.data (fun a d => Q a { b with data := d }) (fun e d => E e { b with data := d }) :=
  ensures_zoom

/-! ## Making room -/

/-- The branch of `makeSpace(len)` that resizes. -/
def Grows (b : Buffer) (len : Nat) : Prop := addSize b.writableSize b.preSize < addSize len Prepend

instance decidableGrows (b : Buffer) (len : Nat) : Decidable (b.Grows len) := inferInstanceAs (Decidable (_ < _))

/-- The room is what lies before and behind the readable bytes; the sums of the test do not wrap. -/
theorem Inv.grows_iff (h : Inv b) {len : Nat} (hl : len + Prepend < 2 ^ 64) :
    b.Grows len ↔ b.data.length - b.writeIndex + b.readIndex < len + Prepend := by
  have h2 := h.ordered
  have h3 := h.bounded
  have h4 := h.small
  have room : addSize b.writableSize b.preSize = b.data.length - b.writeIndex + b.readIndex := by
    rw [h.writableSize, preSize]
    exact addSize_of_lt (by omega)
  rw [Grows, room, addSize_of_lt hl]

/-- The vector grows to `writeIndex_ + len`, or throws: the old cells are a prefix of the new ones. -/
theorem makeSpace_grows (h : Inv b) {len : Nat} (hgrow : b.Grows len) (hl : b.writeIndex + len < 2 ^ 64) :
    Ensures (makeSpace len) b
      (fun _ b' => Inv b' ∧ b'.readable = b.readable ∧ len ≤ b'.writableSize ∧ b'.data.length = b.writeIndex + len)
      (fun e b' => e = .lengthError ∧ 2 ^ 63 ≤ b.writeIndex + len ∧ b' = b) := by
  have hws := h.writableSize
  obtain ⟨h1, h2, h3, h4⟩ := h
  have hcond := hgrow
  unfold Grows at hgrow
  have e1 : addSize b.writableSize b.preSize = b.writableSize + b.preSize :=
    addSize_of_lt (by simp only [preSize]; omega)
  have hle : addSize len Prepend ≤ len + Prepend := Nat.mod_le _ _
  rw [e1, preSize] at hgrow
  have hlong : b.data.length ≤ b.writeIndex + len := by omega
  simp only [makeSpace, resize, ensures_bind, ensures_get]
  rw [ensures_ite, addSize_of_lt hl]
  refine ⟨fun _ => ?_, fun hn => absurd hcond hn⟩
  simp only [ensures_ite, ensures_throw, ensures_modify, true_and]
  simp only [maxSize]
  refine ⟨fun hbig => ⟨by omega, trivial⟩, fun hfit => ?_⟩
  rw [List.take_of_length_le hlong]
  have hb' : Inv { b with data := b.data ++ List.replicate (b.writeIndex + len - b.data.length) 0 } :=
    ⟨h1, h2, by simp; omega, by simp; omega⟩
  refine ⟨hb', ?_, ?_, ?_⟩
  · simp only [readable]; exact window_append_left (by omega)
  · rw [hb'.writableSize]; simp; omega
  · simp; omega

/-- The readable bytes slide down to `Prepend`. -/
theorem makeSpace_slides (h : Inv b) {len : Nat} (hslide : ¬ b.Grows len) :
    Ensures (makeSpace len) b (fun _ b' => Inv b' ∧ b'.readable = b.readable ∧ b'.data.length = b.data.length ∧
      b'.writeIndex = Prepend + (b.writeIndex - b.readIndex)) fun _ _ => False := by
  have hrs := h.readableSize
  obtain ⟨h1, h2, h3, h4⟩ := h
  have hlw := length_window (l := b.data) (i := b.readIndex) (n := b.writeIndex - b.readIndex) (by omega)
  have hlo : (overwrite b.data Prepend (window b.data b.readIndex (b.writeIndex - b.readIndex))).length =
      b.data.length := length_overwrite (by omega)
  have e4 : addSize Prepend (b.writeIndex - b.readIndex) = Prepend + (b.writeIndex - b.readIndex) :=
    addSize_of_lt (by simp only [Prepend]; omega)
  simp only [makeSpace, ensures_bind, ensures_get]
  rw [ensures_ite]
  refine ⟨fun hgrow => absurd hgrow hslide, fun _ => ?_⟩
  simp only [hrs, ensures_bind]
  rw [ensures_onData, ensures_ok (copyFwd_ok Fault.outOfRange _ _ _ b.data (by omega) (by omega))]
  simp only [ensures_modify, ensures_get, ensures_assert, e4]
  have hb' : Inv ⟨Prepend, Prepend + (b.writeIndex - b.readIndex),
      overwrite b.data Prepend (window b.data b.readIndex (b.writeIndex - b.readIndex))⟩ :=
    ⟨Nat.le_refl _, Nat.le_add_right _ _, by simp only [hlo]; omega, by simp only [hlo]; exact h4⟩
  have hrs' := hb'.readableSize
  simp only [Nat.add_sub_cancel_left] at hrs'
  refine ⟨fun _ => ⟨hb', ?_, hlo, trivial⟩, fun hne => hne (hrs.trans hrs'.symm)⟩
  have := window_overwrite b.data (window b.data b.readIndex (b.writeIndex - b.readIndex)) Prepend (by omega)
  rw [hlw] at this
  simpa [readable] using this

/-- The slide is entered only where the readable bytes can move strictly down, and makes room for `len`. -/
theorem Inv.slides_down (h : Inv b) {len : Nat} (hw : b.writableSize < len) (hl : len + Prepend < 2 ^ 64)
    (hslide : ¬ b.Grows len) : Prepend < b.readIndex ∧ Prepend + (b.writeIndex - b.readIndex) + len ≤ b.data.length := by
  have h2 := h.ordered
  have h3 := h.bounded
  rw [h.grows_iff hl] at hslide
  rw [h.writableSize] at hw
  omega

/-- **`makeSpace(len)`** where the writable area is too small: afterwards it is not, and the readable
bytes are the same. -/
theorem makeSpace_spec (h : Inv b) (len : Nat) (hw : b.writableSize < len) (hl : b.writeIndex + len < 2 ^ 64) :
    Ensures (makeSpace len) b
      (fun _ b' => Inv b' ∧ b'.readable = b.readable ∧ len ≤ b'.writableSize)
      (fun e _ => e = .lengthError ∧ 2 ^ 63 ≤ b.writeIndex + len) := by
  by_cases hgrow : b.Grows len
  · exact (makeSpace_grows h hgrow hl).mono (fun _ _ hb => ⟨hb.1, hb.2.1, hb.2.2.1⟩) fun _ _ he => ⟨he.1, he.2.1⟩
  · refine (makeSpace_slides h hgrow).mono ?_ fun _ _ he => he.elim
    rintro _ b' ⟨hb', hr, hlen, hwi⟩
    have room := (h.slides_down hw (by have := h.prepend; have := h.ordered; omega) hgrow).2
    refine ⟨hb', hr, ?_⟩
    rw [hb'.writableSize]
    omega

theorem ensureWritableSize_spec (h : Inv b) (len : Nat) (hl : len < 2 ^ 63) :
    Ensures (ensureWritableSize len) b
      (fun _ b' => Inv b' ∧ b'.readable = b.readable ∧ len ≤ b'.writableSize)
      (fun e _ => e = .lengthError ∧ 2 ^ 63 ≤ b.writeIndex + len) := by
  simp only [ensureWritableSize, ensures_bind, ensures_get, ensures_ite, ensures_pure]
  have h3 := h.bounded
  have h4 := h.small
  exact ⟨fun hw => makeSpace_spec h len hw (by omega), fun hw => ⟨h, trivial, by omega⟩⟩

/-- No call makes the vector longer than `max_size()`, whatever `len` is. -/
theorem ensureWritableSize_small (h : Inv b) (len : Nat) :
    Ensures (ensureWritableSize len) b (fun _ b' => b'.data.length < 2 ^ 63) (fun _ _ => True) := by
  have h3 := h.bounded
  have h4 := h.small
  have hlw := length_window (l := b.data) (i := b.readIndex) (n := b.writeIndex - b.readIndex)
    (by have := h.ordered; omega)
  simp only [ensureWritableSize, makeSpace, resize, ensures_bind, ensures_get, ensures_ite, ensures_pure,
    ensures_throw, ensures_modify, implies_true, true_and]
  simp only [maxSize]
  refine ⟨fun _ => ⟨fun hs => ?_, fun _ => ?_⟩, fun _ => h4⟩
  · simp; omega
  · by_cases hp : Prepend ≤ b.readIndex
    · rw [ensures_onData, ensures_ok (copyFwd_ok Fault.outOfRange _ _ _ b.data hp (by have := h.ordered; omega))]
      simp only [ensures_assert, implies_true, and_true]
      intro _
      rw [length_overwrite (by have := h.ordered; omega)]; exact h4
    · exact absurd h.prepend hp

/-! ## Adding at the tail -/

theorem hasWritten_spec (h : Inv b) (data : Bytes) (hw : data.length ≤ b.writableSize)
    (hd : window b.data b.writeIndex data.length = data) :
    Ensures (hasWritten data.length) b (fun _ b' => Inv b' ∧ b'.readable = b.readable ++ data ∧ b'.data = b.data)
      (fun _ _ => False) := by
  have hws := h.writableSize
  obtain ⟨h1, h2, h3, h4⟩ := h
  have e : addSize b.writeIndex data.length = b.writeIndex + data.length := addSize_of_lt (by omega)
  simp only [hasWritten, ensures_bind, ensures_get, ensures_assert, ensures_set, e]
  refine ⟨fun _ => ⟨⟨h1, by simp; omega, by simp; omega, h4⟩, ?_, trivial⟩, fun hn => hn hw⟩
  have : b.writeIndex + data.length - b.readIndex = (b.writeIndex - b.readIndex) + data.length := by omega
  rw [readable, readable, this, window_split, Nat.add_sub_cancel' h2, hd]

/-- Cells written above `writeIndex_` leave the readable bytes alone. -/
theorem overwrite_spec (h : Inv b) (xs : Bytes) (hx : b.writeIndex + xs.length ≤ b.data.length) :
    Inv { b with data := overwrite b.data b.writeIndex xs } ∧
      ({ b with data := overwrite b.data b.writeIndex xs } : Buffer).readable = b.readable ∧
      window (overwrite b.data b.writeIndex xs) b.writeIndex xs.length = xs := by
  obtain ⟨h1, h2, h3, h4⟩ := h
  have hl := length_overwrite hx
  refine ⟨⟨h1, h2, by simp only [hl]; exact h3, by simp only [hl]; exact h4⟩, ?_, window_overwrite _ _ _ h3⟩
  simp only [readable]; exact window_overwrite_before (by omega) h3

/-- What a writer does once there is room: copy above `writeIndex_`, then `hasWritten`. -/
theorem writeTail_spec {Q : Unit → Buffer → Prop} {E : Fault → Buffer → Prop} (h : Inv b) (data : Bytes)
    (hw : data.length ≤ b.writableSize) (hq : ∀ b', Inv b' → b'.readable = b.readable ++ data → Q () b') :
    Ensures (onData (storeAll Fault.outOfRange b.writeIndex data)) b
      (fun _ b' => Ensures (hasWritten data.length) b' Q E) E := by
  have hws := h.writableSize
  have hx : b.writeIndex + data.length ≤ b.data.length := by have := h.bounded; omega
  obtain ⟨hi, hro, hwin⟩ := overwrite_spec h data hx
  rw [ensures_onData]
  refine (storeAll_spec Fault.outOfRange data b.writeIndex b.data).mono ?_ ?_
  · rintro _ d ⟨rfl, -⟩
    refine (hasWritten_spec hi data ?_ hwin).mono ?_ fun _ _ hf => hf.elim
    · rw [hi.writableSize]
      simp only [length_overwrite hx]; omega
    · rintro _ b' ⟨hi', hr', -⟩
      exact hq b' hi' (by rw [hr', hro])
  · rintro e d ⟨-, hlt⟩
    omega

/-- **`append`** adds `data` at the tail. A `data` no `size_t` vector can hold never gets that far:
the copy would leave the storage. -/
theorem append_spec (h : Inv b) (data : Bytes) :
    Ensures (append data) b (fun _ b' => Inv b' ∧ b'.readable = b.readable ++ data)
      (fun e _ => 2 ^ 63 ≤ b.writeIndex + data.length ∧ (data.length < 2 ^ 63 → e = .lengthError)) := by
  by_cases hl : data.length < 2 ^ 63
  · simp only [append, ensures_bind, ensures_get]
    refine (ensureWritableSize_spec h data.length hl).mono ?_ ?_
    · rintro _ b' ⟨h', hr, hw⟩
      exact writeTail_spec h' data hw fun b'' hi hr' => ⟨hi, by rw [hr', hr]⟩
    · rintro e _ ⟨he, hs⟩
      exact ⟨hs, fun _ => he⟩
  · -- `writeIndex_ + len` wraps; whatever `ensureWritableSize` made of it, the copy does not fit
    simp only [append, ensures_bind, ensures_get]
    refine (ensureWritableSize_small h data.length).mono (fun _ b' hsm => ?_)
      fun e _ _ => ⟨by omega, fun hlt => absurd hlt hl⟩
    rw [ensures_onData]
    refine (storeAll_spec Fault.outOfRange data b'.writeIndex b'.data).mono ?_
      fun e d _ => ⟨by omega, fun hlt => absurd hlt hl⟩
    rintro _ d ⟨-, hf⟩
    have := hf (by intro h0; simp [h0] at hl)
    omega

/-- **`readFd`** adds the bytes `::readv` scattered over the writable area and `extrabuf`. -/
theorem readFd_spec (h : Inv b) (r : Option Bytes) :
    Ensures (readFd r) b
      (fun n b' => Inv b' ∧ match r with
        | none => n = -1 ∧ b' = b
        | some sent => n = (sent.take (b.writableSize + extrabufSize)).length ∧
          b'.readable = b.readable ++ sent.take (b.writableSize + extrabufSize))
      (fun e _ => e = .lengthError ∧ 2 ^ 63 ≤ b.data.length + extrabufSize) := by
  cases r with
  | none => simpa [readFd] using h
  | some sent =>
    have hws := h.writableSize
    have h3 := h.bounded
    have h4 := h.small
    simp only [readFd, ensures_bind, ensures_get, ensures_onData]
    generalize hb : sent.take (b.writableSize + extrabufSize) = bytes
    have hlen : bytes.length ≤ b.writableSize + extrabufSize := by rw [← hb]; exact List.length_take_le ..
    have hx : b.writeIndex + (bytes.take b.writableSize).length ≤ b.data.length := by
      rw [List.length_take]
      omega
    refine (storeAll_spec Fault.outOfRange (bytes.take b.writableSize) b.writeIndex b.data).mono ?_
      fun e d hf => absurd hx (by have := hf.2; omega)
    rintro _ d ⟨rfl, -⟩
    obtain ⟨hi, hro, hwin⟩ := overwrite_spec h (bytes.take b.writableSize) hx
    have hlo := length_overwrite hx
    simp only [ensures_ite, ensures_bind, ensures_modify, ensures_pure]
    refine ⟨fun hfit => ?_, fun hbig => ?_⟩
    · have ht : bytes.take b.writableSize = bytes := List.take_of_length_le hfit
      have e : addSize b.writeIndex bytes.length = b.writeIndex + bytes.length := addSize_of_lt (by omega)
      simp only [ht] at hi hro hwin hlo ⊢
      rw [e]
      refine ⟨⟨h.prepend, ?_, ?_, hi.small⟩, trivial, ?_⟩
      · have := h.ordered; simp only; omega
      · simp only [hlo]; omega
      · have hs : b.writeIndex + bytes.length - b.readIndex = (b.writeIndex - b.readIndex) + bytes.length := by
          have := h.ordered; omega
        rw [← hro]
        simp only [readable, hs]
        rw [window_split, Nat.add_sub_cancel' h.ordered, hwin]
    · -- the writable area is full: `writeIndex_ = size()`, and the rest re-enters through `append`
      have hlt : (bytes.take b.writableSize).length = b.writableSize := by simp; omega
      let bf : Buffer := ⟨b.readIndex, (overwrite b.data b.writeIndex (bytes.take b.writableSize)).length,
        overwrite b.data b.writeIndex (bytes.take b.writableSize)⟩
      have hbf : Inv bf := ⟨h.prepend, by have := h.ordered; simp only [bf, hlo]; omega, Nat.le_refl _, hi.small⟩
      have hrf : bf.readable = b.readable ++ bytes.take b.writableSize := by
        have hs : b.data.length - b.readIndex = (b.writeIndex - b.readIndex) + (bytes.take b.writableSize).length := by
          have := h.ordered; omega
        rw [← hro]
        simp only [readable, bf, hlo, hs]
        rw [window_split, Nat.add_sub_cancel' h.ordered, hwin]
      refine (append_spec hbf (bytes.drop b.writableSize)).mono ?_ ?_
      · rintro _ b' ⟨hi', hr'⟩
        refine ⟨hi', trivial, ?_⟩
        rw [hr', hrf, List.append_assoc, List.take_append_drop]
      · rintro e _ ⟨hs, he⟩
        have hwf : bf.writeIndex = b.data.length := hlo
        rw [hwf] at hs
        simp only [List.length_drop, extrabufSize] at hs he hlen
        exact ⟨he (by omega), by simp only [extrabufSize]; omega⟩

/-! ## Dropping from the head -/

theorem retrieve_spec (h : Inv b) (len : Nat) :
    Ensures (retrieve len) b (fun _ b' => Inv b' ∧ b'.readable = b.readable.drop len ∧ b'.data = b.data)
      (fun _ _ => False) := by
  have hrs := h.readableSize
  have hlr := h.length_readable
  simp only [retrieve, retrieveAll, ensures_bind, ensures_get, ensures_ite, ensures_set, ensures_modify]
  refine ⟨fun hlt => ?_, fun hge => ?_⟩
  · obtain ⟨h1, h2, h3, h4⟩ := h
    have e : addSize b.readIndex len = b.readIndex + len := addSize_of_lt (by omega)
    rw [e]
    refine ⟨⟨by simp; omega, by simp; omega, h3, h4⟩, ?_, trivial⟩
    simp only [readable, window, List.drop_take, List.drop_drop]
    congr 1; omega
  · refine ⟨⟨Nat.le_refl _, Nat.le_refl _, ?_, h.small⟩, ?_, trivial⟩
    · have := h.prepend; have := h.ordered; have := h.bounded; simp only; omega
    · rw [List.drop_eq_nil_of_le (by omega)]
      simp [readable]

theorem peek_spec (h : Inv b) :
    Ensures peek b (fun xs b' => xs = b.readable ∧ b' = b) (fun _ _ => False) := by
  simp only [peek, ensures_bind, ensures_get, ensures_onData, h.readableSize]
  have h2 := h.ordered
  have h3 := h.bounded
  refine (loadAll_spec Fault.outOfRange (b.writeIndex - b.readIndex) b.readIndex b.data).mono ?_ ?_
  · rintro xs d ⟨hx, rfl, -⟩
    exact ⟨hx, rfl⟩
  · rintro _ _ ⟨-, -, hlt⟩
    omega

theorem retrieveAsString_spec (h : Inv b) (len : Nat) (hl : len ≤ b.readableSize) :
    Ensures (retrieveAsString len) b
      (fun xs b' => xs = b.readable.take len ∧ Inv b' ∧ b'.readable = b.readable.drop len ∧ b'.data = b.data)
      (fun _ _ => False) := by
  have hrs := h.readableSize
  have h2 := h.ordered
  have h3 := h.bounded
  simp only [retrieveAsString, ensures_bind, ensures_get, ensures_assert, ensures_onData]
  refine ⟨fun _ => ?_, fun hn => hn hl⟩
  refine (loadAll_spec Fault.outOfRange len b.readIndex b.data).mono ?_ fun _ _ hf => by have := hf.2.2; omega
  rintro xs d ⟨hx, rfl, -⟩
  refine (retrieve_spec h len).mono (fun _ b' hb' => ?_) fun _ _ hf => hf
  rw [ensures_pure]
  refine ⟨?_, hb'⟩
  rw [hx, readable, window, window, List.take_take]
  congr 1; omega

theorem retrieveAllAsString_spec (h : Inv b) :
    Ensures retrieveAllAsString b (fun xs b' => xs = b.readable ∧ Inv b' ∧ b'.readable = []) (fun _ _ => False) := by
  simp only [retrieveAllAsString, ensures_bind, ensures_get]
  refine (retrieveAsString_spec h b.readableSize (Nat.le_refl _)).mono ?_ fun _ _ hf => hf
  rintro xs b' ⟨hx, hi, hr, -⟩
  refine ⟨?_, hi, ?_⟩
  · rw [hx, ← h.length_readable, List.take_length]
  · rw [hr, ← h.length_readable, List.drop_length]

/-! ## What a call can stop with -/

/-- The code stops only with faults of a buffer. -/
def Contained {α : Type} (x : BufM α) : Prop := ∀ b, Ensures x b (fun _ _ => True) (fun e _ => e.OfBuffer)

theorem contained_append (data : Bytes) : Contained (append data) := by
  intro b
  simp only [append, ensureWritableSize, makeSpace, resize, hasWritten, ensures_bind, ensures_get, ensures_ite,
    ensures_throw, ensures_modify, ensures_assert, ensures_pure, ensures_onData, ensures_set]
  have written : ∀ ri wi d, Ensures (storeAll Fault.outOfRange wi data) d
      (fun _ d' => (data.length ≤ (⟨ri, wi, d'⟩ : Buffer).writableSize → True) ∧
        (¬ data.length ≤ (⟨ri, wi, d'⟩ : Buffer).writableSize → Fault.OfBuffer .assertFailed))
      (fun e _ => e.OfBuffer) := fun _ _ _ =>
    (storeAll_spec Fault.outOfRange data _ _).mono (fun _ _ _ => ⟨fun _ => trivial, fun _ => .inl rfl⟩)
      fun _ _ h => .inr (.inl h.1)
  refine ⟨fun _ => ⟨fun _ => ⟨fun _ => .inr (.inr rfl), fun _ => written _ _ _⟩, fun _ => ?_⟩, fun _ => written _ _ _⟩
  exact (copyFwd_fault Fault.outOfRange _ _ _ _).mono (fun _ _ _ => ⟨fun _ => written _ _ _, fun _ => .inl rfl⟩)
    fun _ _ h => .inr (.inl h)

theorem contained_readFd (r : Option Bytes) : Contained (readFd r) := by
  intro b
  simp only [readFd, ensures_bind, ensures_get]
  cases r with
  | none => trivial
  | some sent =>
    simp only [ensures_bind, ensures_onData]
    refine (storeAll_spec Fault.outOfRange _ _ _).mono (fun _ d _ => ?_) fun _ _ h => .inr (.inl h.1)
    simp only [ensures_ite, ensures_bind, ensures_modify, ensures_pure, implies_true, true_and]
    exact fun _ => contained_append _ _

theorem contained_retrieve (len : Nat) : Contained (retrieve len) := by
  intro b
  simp [retrieve, retrieveAll]

theorem contained_retrieveAllAsString : Contained retrieveAllAsString := by
  intro b
  simp only [retrieveAllAsString, retrieveAsString, ensures_bind, ensures_get, ensures_assert, ensures_onData]
  refine ⟨fun _ => ?_, fun _ => .inl rfl⟩
  refine (loadAll_spec Fault.outOfRange _ _ _).mono (fun _ d _ => ?_) fun _ _ h => .inr (.inl h.1)
  exact (contained_retrieve _ _).mono (fun _ _ _ => trivial) fun _ _ h => h

theorem contained_peek : Contained peek := by
  intro b
  simp only [peek, ensures_bind, ensures_get, ensures_onData]
  exact (loadAll_spec Fault.outOfRange _ _ _).mono (fun _ _ _ => trivial) fun _ _ h => .inr (.inl h.1)

end Buffer

end NetServer
