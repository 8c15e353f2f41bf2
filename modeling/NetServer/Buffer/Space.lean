import NetServer.Buffer.Inv
/-!
# What `makeSpace` promises

`makeSpace(len)` is called when the writable area is too small for `len`. It resizes `data_` to `writeIndex_ + len` where
the room before and behind the readable bytes is less than `len + Prepend`; elsewhere it slides the readable bytes down to
`Prepend`. Test and guard together give the slide its room (`slides_down`): there is some before the readable bytes, so
that they move strictly down and `std::copy` may be used.
-/

namespace NetServer
open Exec

namespace Buffer

variable {b : Buffer}

/-- What `makeSpace(len)` promises its caller. -/
structure MakesRoom (len : Nat) (b b' : Buffer) : Prop where
  inv : Inv b'
  room : len ≤ b'.writableSize
  readable : b'.readable = b.readable
  /-- The resizing branch never shrinks `data_`. -/
  grown : b.Grows len → b'.size = b.writeIndex + len ∧ b.size ≤ b'.size

theorem Inv.grows_up (h : Inv b) {len : Nat} (hl : len + Prepend < 2 ^ 64) (hgrow : b.Grows len) :
    b.size ≤ b.writeIndex + len := by
  have h1 := h.prepend
  have h3 := h.bounded
  rw [h.grows_iff hl] at hgrow
  simp only [size]
  omega

theorem makeSpace_makesRoom (h : Inv b) {len : Nat} (hw : b.writableSize < len) (hl : b.writeIndex + len < 2 ^ 64) :
    Ensures (makeSpace len) b (fun _ b' => MakesRoom len b b') fun e b' =>
      e = .lengthError ∧ b' = b ∧ b.Grows len ∧ maxSize < b.writeIndex + len := by
  have sum : len + Prepend < 2 ^ 64 := by
    have := h.prepend
    have := h.ordered
    omega
  by_cases hgrow : b.Grows len
  · have larger := h.grows_up sum hgrow
    refine (makeSpace_grows h hgrow hl).mono ?_ ?_
    · rintro _ b' ⟨hi, hr, hroom, hlen⟩
      exact ⟨hi, hroom, hr, fun _ => ⟨hlen, by simp only [size] at larger ⊢; omega⟩⟩
    · rintro e b' ⟨rfl, hbig, rfl⟩
      exact ⟨rfl, rfl, hgrow, by simp only [maxSize]; omega⟩
  · refine ((makeSpace_spec h len hw hl).and (makeSpace_slides h hgrow)).mono ?_ fun _ _ he => he.2.elim
    rintro _ b' ⟨⟨hi, hr, hroom⟩, -⟩
    exact ⟨hi, hroom, hr, fun hg => absurd hg hgrow⟩

/-- **`makeSpace` meets its contract** as long as `writeIndex_ + len` does not wrap: it makes room for `len` behind the
same readable bytes and never shrinks `data_`, or it throws `length_error`, with the buffer as it was, because the vector
would have to be longer than `max_size()`. The slide copies strictly down, which is legal and the same as a copy that does
not overlap. -/
theorem makeSpace_contract (b : Buffer) (h : Inv b) (len : Nat) (hw : b.writableSize < len)
    (hl : b.writeIndex + len < 2 ^ 64) :
    Ensures (makeSpace len) b (fun _ b' => MakesRoom len b b')
      (fun e b' => e = .lengthError ∧ b' = b ∧ b.Grows len ∧ maxSize < b.writeIndex + len) ∧
    (¬ b.Grows len → Prepend < b.readIndex ∧ ¬ (b.readIndex ≤ Prepend ∧ Prepend < b.writeIndex) ∧
      copyFwd .outOfRange (b.writeIndex - b.readIndex) b.readIndex Prepend b.data =
        (do let bytes ← loadAll .outOfRange b.readIndex (b.writeIndex - b.readIndex)
            storeAll .outOfRange Prepend bytes : EStateM Fault Bytes Unit) b.data) := by
  refine ⟨makeSpace_makesRoom h hw hl, fun hslide => ?_⟩
  have h1 := h.prepend
  have h2 := h.ordered
  have h3 := h.bounded
  have down := (h.slides_down hw (by omega) hslide).1
  exact ⟨down, fun hin => by omega, copyFwd_buffered Fault.outOfRange _ _ _ b.data h1 (by omega)⟩

/-- Four bytes slide down by two. -/
theorem makeSpace_contract_slide :
    ∃ b', makeSpace 3 ⟨10, 14, [0, 0, 0, 0, 0, 0, 0, 0, 1, 2, 3, 4, 5, 6, 7]⟩ = .ok () b' ∧
      MakesRoom 3 ⟨10, 14, [0, 0, 0, 0, 0, 0, 0, 0, 1, 2, 3, 4, 5, 6, 7]⟩ b' ∧ b'.readable = [3, 4, 5, 6] ∧ Prepend < 10 := by
  have contract := makeSpace_contract ⟨10, 14, [0, 0, 0, 0, 0, 0, 0, 0, 1, 2, 3, 4, 5, 6, 7]⟩
    ⟨by decide, by decide, by decide, by decide⟩ 3 (by decide) (by decide)
  have run : Ensures (makeSpace 3) ⟨10, 14, [0, 0, 0, 0, 0, 0, 0, 0, 1, 2, 3, 4, 5, 6, 7]⟩
      (fun _ b' => b'.readable = [3, 4, 5, 6]) fun _ _ => False := by decide +kernel
  obtain ⟨_, b', he, hr⟩ := run.returns
  exact ⟨b', he, (ensures_ok he).1 contract.1, hr, (contract.2 (by decide)).1⟩

/-- A vector cannot hold `2 ^ 63` bytes; and where `writeIndex_ + len` wraps, `data_` shrinks. -/
theorem not_makeSpace_contract :
    (¬ ∀ (b : Buffer) (len : Nat), Inv b → b.writableSize < len → len + Prepend < 2 ^ 64 →
      Ensures (makeSpace len) b (fun _ b' => MakesRoom len b b') fun _ _ => False) ∧
    ¬ ∀ (b : Buffer) (len : Nat), Inv b → b.writableSize < len → len + Prepend < 2 ^ 64 →
      Ensures (makeSpace len) b (fun _ b' => b.Grows len → b.size ≤ b'.size) fun _ _ => True := by
  constructor
  · intro contract
    have returns := (contract (new 8) (2 ^ 63) (inv_new (by decide) (by decide)) (by decide) (by decide)).mono
      (fun _ _ _ => trivial) fun _ _ he => he
    have throws : ¬ Ensures (makeSpace (2 ^ 63)) (new 8) (fun _ _ => True) fun _ _ => False := by decide +kernel
    exact throws returns
  · intro contract
    have grown := contract ⟨8, 20, List.replicate 20 0⟩ (2 ^ 64 - 9) ⟨by decide, by decide, by decide, by decide⟩
      (by decide) (by decide)
    have shrinks : ¬ Ensures (makeSpace (2 ^ 64 - 9)) ⟨8, 20, List.replicate 20 0⟩
        (fun _ b' => Grows ⟨8, 20, List.replicate 20 0⟩ (2 ^ 64 - 9) → (⟨8, 20, List.replicate 20 0⟩ : Buffer).size ≤ b'.size)
        fun _ _ => True := by decide +kernel
    exact shrinks grown

end Buffer

end NetServer
