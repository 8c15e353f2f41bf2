import Mathlib
/-!
# Streams with a backlog

Some of the elements of a stream are out, in order, and the others wait. `put` is the write of a non-blocking descriptor with
a buffer behind it: it tries the elements directly where nothing waits, and what is not taken waits too. Any calls come to one
`push` of all the elements and one `drain` (`Backlog.run_normal`): when the pieces came and in what portions they went
makes no difference.
-/

namespace Exec

variable {α : Type}

structure Backlog (α : Type) where
  out : List α
  waiting : List α

namespace Backlog

/-- More elements wait. -/
def push (b : Backlog α) (l : List α) : Backlog α := { b with waiting := b.waiting ++ l }

/-- Up to `n` of them go. -/
def drain (b : Backlog α) (n : Nat) : Backlog α := ⟨b.out ++ b.waiting.take n, b.waiting.drop n⟩

inductive Call (α : Type) where
  /-- A write of `l`; up to `n` elements would be taken of it now. -/
  | put (l : List α) (n : Nat)
  | drain (n : Nat)

def Call.given : Call α → List α
  | .put l _ => l
  | .drain _ => []

/-- A write behind others that wait is not tried. -/
def call (b : Backlog α) : Call α → Backlog α
  | .put l n => if b.waiting.isEmpty then (b.push l).drain n else b.push l
  | .drain n => b.drain n

def run (b : Backlog α) (calls : List (Call α)) : Backlog α := calls.foldl call b

/-- What the calls give, all of it. -/
def given (calls : List (Call α)) : List α := calls.flatMap Call.given

variable {b : Backlog α} {l l' : List α} {m n : Nat}

theorem drain_zero (b : Backlog α) : b.drain 0 = b := by simp [drain]

theorem drain_nothing (h : b.waiting = []) : b.drain n = b := by
  obtain ⟨out, waiting⟩ := b
  obtain rfl : waiting = [] := h
  simp [drain]

theorem push_push : (b.push l).push l' = b.push (l ++ l') := by simp [push]

theorem drain_drain : (b.drain m).drain n = b.drain (m + n) := by
  simp only [drain, List.drop_drop, List.append_assoc, mk.injEq, and_true]
  rw [List.take_add]

/-- What is drained already waited. -/
theorem push_drain (h : n ≤ b.waiting.length) : (b.push l).drain n = (b.drain n).push l := by
  simp only [push, drain, List.take_append_of_le_length h, List.drop_append_of_le_length h]

/-- No more goes than waits. -/
theorem drain_min : b.drain (min n b.waiting.length) = b.drain n := by
  obtain h | h := Nat.le_total n b.waiting.length
  · rw [Nat.min_eq_left h]
  · rw [Nat.min_eq_right h, drain, drain, List.take_of_length_le h, List.drop_of_length_le h, List.take_length, List.drop_length]

/-- One more call after a push and a drain. -/
theorem call_normal (h : m ≤ (b.push l).waiting.length) (c : Call α) :
    ∃ n ≤ (b.push (l ++ c.given)).waiting.length, ((b.push l).drain m).call c = (b.push (l ++ c.given)).drain n := by
  have drains : ∀ l' k, m ≤ (b.push l').waiting.length →
      ∃ n ≤ (b.push l').waiting.length, ((b.push l').drain m).drain k = (b.push l').drain n := by
    intro l' k _
    refine ⟨min (m + k) (b.push l').waiting.length, Nat.min_le_right .., ?_⟩
    rw [drain_drain, drain_min]
  cases c with
  | put l' k =>
    have longer : m ≤ (b.push (l ++ l')).waiting.length := by
      simp only [push, List.length_append] at h ⊢
      omega
    have pushed : ((b.push l).drain m).push l' = (b.push (l ++ l')).drain m := by rw [← push_drain h, push_push]
    simp only [call, Call.given, pushed]
    split
    · exact drains _ k longer
    · exact ⟨m, longer, rfl⟩
  | drain k =>
    simp only [call, Call.given, List.append_nil]
    exact drains l k h

/-- **Any calls** come to one push and one drain, by induction from the last one. -/
theorem run_normal (b : Backlog α) (calls : List (Call α)) :
    ∃ n ≤ (b.push (given calls)).waiting.length, b.run calls = (b.push (given calls)).drain n := by
  induction calls using List.reverseRecOn with
  | nil => exact ⟨0, Nat.zero_le _, by simp [run, given, push, drain]⟩
  | append_singleton calls c ih =>
    obtain ⟨m, hm, hrun⟩ := ih
    obtain ⟨n, hn, hcall⟩ := call_normal hm c
    refine ⟨n, by simpa [given] using hn, ?_⟩
    rw [run, List.foldl_append, List.foldl_cons, List.foldl_nil, ← run, hrun, hcall]
    simp [given]

end Backlog

end Exec
