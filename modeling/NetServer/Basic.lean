import NetServer.Lib.Memory
/-!
# Faults, bytes and `size_t`

| here | there |
| --- | --- |
| `Fault`              | how a call can end other than by returning; the build sets no `NDEBUG`, so a failing `assert` ends the process |
| `addSize`, `subSize` | `+` and `-` on `size_t` (64 bits, modulo `2^64`) |
| `maxSize`            | `max_size()` of `std::vector<char>` (`PTRDIFF_MAX`) |
-/

namespace NetServer

inductive Fault where
  /-- A failing `assert`. -/
  | assertFailed
  /-- A call of `abort()`. -/
  | abort
  /-- An access outside the storage of `data_`. -/
  | outOfRange
  /-- `std::length_error` out of a vector. -/
  | lengthError
  /-- An access to an object that has been destroyed, other than a timer. -/
  | useAfterFree
  /-- An access to a timer that has been deleted. -/
  | deletedTimer
  /-- Signed integer overflow. -/
  | overflow
  /-- No behaviour of the code: the caller or the kernel was asked for a step it cannot take. -/
  | outside
deriving DecidableEq, Repr

/-- A fault of a buffer: an assert, an access outside `data_`, or `length_error`. -/
def Fault.OfBuffer (e : Fault) : Prop := e = .assertFailed ∨ e = .outOfRange ∨ e = .lengthError

theorem Fault.OfBuffer.ne_outside {e : Fault} (h : e.OfBuffer) : e ≠ .outside := by
  rcases h with rfl | rfl | rfl <;> simp

theorem Fault.OfBuffer.ne_useAfterFree {e : Fault} (h : e.OfBuffer) : e ≠ .useAfterFree := by
  rcases h with rfl | rfl | rfl <;> simp

abbrev Bytes := List UInt8

def addSize (a b : Nat) : Nat := (a + b) % 2 ^ 64

def subSize (a b : Nat) : Nat := (a + (2 ^ 64 - b % 2 ^ 64)) % 2 ^ 64

def maxSize : Nat := 2 ^ 63 - 1

theorem addSize_of_lt {a b : Nat} (h : a + b < 2 ^ 64) : addSize a b = a + b := Nat.mod_eq_of_lt h

theorem subSize_of_le {a b : Nat} (h : b ≤ a) (ha : a < 2 ^ 64) : subSize a b = a - b := by
  unfold subSize; omega

/-- `assert(c)`. -/
def assert {σ : Type} (c : Prop) [Decidable c] : EStateM Fault σ Unit :=
  if c then pure () else throw .assertFailed

@[simp] theorem run_assert {σ : Type} {c : Prop} [Decidable c] {s : σ} :
    assert c s = if c then .ok () s else .error .assertFailed s := by
  simp [assert]

@[simp] theorem ensures_assert {σ : Type} {c : Prop} [Decidable c] {s : σ} {Q : Unit → σ → Prop}
    {E : Fault → σ → Prop} :
    Exec.Ensures (assert c) s Q E ↔ (c → Q () s) ∧ (¬ c → E .assertFailed s) := by
  by_cases h : c <;> simp [assert, h]

end NetServer
