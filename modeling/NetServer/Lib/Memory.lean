import NetServer.Lib.Exec
/-!
# Memory: a heap of objects, and a checked block of cells

A heap is a function to `Option`; its lemmas say who is live after a write and after a deletion. Of a
block, `load` and `store` stop with the given fault outside. On top of them: the element by element
loops `storeAll` (copy in), `loadAll` (copy out) and `copyFwd` (copy inside the block, lowest element
first). Each has one exact lemma: it returns iff the range fits, and then the block is an `overwrite`. `copyFwd` needs `dst ≤ src`: there the cells still to be read are never yet overwritten.
-/

namespace Exec

variable {ε α : Type}

/-! ## A heap -/

section
variable {κ : Type} [DecidableEq κ] {heap : κ → Option α} {k i : κ} {a x : α}

theorem of_update_some (h : Function.update heap k (some a) i = some x) : (i = k ∧ x = a) ∨ (i ≠ k ∧ heap i = some x) := by
  by_cases hi : i = k
  · subst hi; exact .inl ⟨rfl, by simpa using h.symm⟩
  · exact .inr ⟨hi, by simpa [hi] using h⟩

theorem of_update_none (h : Function.update heap k none i = some x) : i ≠ k ∧ heap i = some x := by
  by_cases hi : i = k
  · subst hi; simp at h
  · exact ⟨hi, by simpa [hi] using h⟩

/-- Who is gone stays gone. -/
theorem update_none (h : heap i = none) : Function.update heap k none i = none := by
  by_cases hi : i = k
  · simp [hi]
  · simpa [hi] using h

end

/-! ## Windows of a list -/

/-- The `n` cells from `i` on. -/
def window (l : List α) (i n : Nat) : List α := (l.drop i).take n

/-- `l` with `xs` written from cell `i` on. -/
def overwrite (l : List α) (i : Nat) (xs : List α) : List α := l.take i ++ xs ++ l.drop (i + xs.length)

theorem length_window {l : List α} {i n : Nat} (h : i + n ≤ l.length) : (window l i n).length = n := by
  simp [window]; omega

@[simp] theorem window_zero (l : List α) (i : Nat) : window l i 0 = [] := by simp [window]

theorem window_split (l : List α) (i m n : Nat) : window l i (m + n) = window l i m ++ window l (i + m) n := by
  simp [window, List.take_add]

theorem window_append_left {l r : List α} {i n : Nat} (h : i + n ≤ l.length) :
    window (l ++ r) i n = window l i n := by
  rw [window, window, List.drop_append_of_le_length (by omega), List.take_append_of_le_length (by simp; omega)]

@[simp] theorem overwrite_nil (l : List α) (i : Nat) : overwrite l i [] = l := by simp [overwrite]

theorem length_overwrite {l xs : List α} {i : Nat} (h : i + xs.length ≤ l.length) :
    (overwrite l i xs).length = l.length := by
  simp [overwrite]; omega

theorem overwrite_cons (l : List α) (i : Nat) (x : α) (xs : List α) (h : i < l.length) :
    overwrite (l.set i x) (i + 1) xs = overwrite l i (x :: xs) := by
  have hlen : (l.take i).length = i := by simp; omega
  have ht : (l.set i x).take (i + 1) = l.take i ++ [x] := by
    rw [List.set_eq_take_append_cons_drop, if_pos h, List.take_append, hlen, List.take_of_length_le (by omega)]
    simp
  rw [overwrite, overwrite, ht, List.drop_set_of_lt (by omega), List.length_cons]
  simp [Nat.add_comm, Nat.add_left_comm]

/-- What was just written is read back. -/
theorem window_overwrite (l xs : List α) (i : Nat) (h : i ≤ l.length) :
    window (overwrite l i xs) i xs.length = xs := by
  have hlen : (l.take i).length = i := by simp; omega
  rw [window, overwrite, List.append_assoc, List.drop_append, hlen]
  simp

/-- Cells below the written ones keep their value. -/
theorem window_overwrite_before {l xs : List α} {i j n : Nat} (h : j + n ≤ i) (hi : i ≤ l.length) :
    window (overwrite l i xs) j n = window l j n := by
  have hlen : (l.take i).length = i := by simp; omega
  rw [overwrite, List.append_assoc, window_append_left (by omega), window, window, List.drop_take, List.take_take]
  congr 1; omega

theorem window_set_after {l : List α} {i j n : Nat} (x : α) (h : i < j) : window (l.set i x) j n = window l j n := by
  rw [window, window, List.drop_set_of_lt h]

theorem window_cons {l : List α} {i n : Nat} (h : i < l.length) : window l i (n + 1) = l[i] :: window l (i + 1) n := by
  rw [window, List.drop_eq_getElem_cons h]; rfl

/-! ## Checked access -/

/-- Read one cell. -/
def load (fault : ε) (i : Nat) : EStateM ε (List α) α := do
  match (← get)[i]? with
  | some x => pure x
  | none => throw fault

/-- Write one cell. -/
def store (fault : ε) (i : Nat) (x : α) : EStateM ε (List α) Unit := do
  let l ← get
  if i < l.length then set (l.set i x) else throw fault

theorem load_of_lt (fault : ε) {l : List α} {i : Nat} (h : i < l.length) : load fault i l = .ok l[i] l := by
  simp [load, h]

theorem load_of_ge (fault : ε) {l : List α} {i : Nat} (h : l.length ≤ i) : load fault i l = .error fault l := by
  simp [load, h]

theorem store_of_lt (fault : ε) {l : List α} {i : Nat} (x : α) (h : i < l.length) :
    store fault i x l = .ok () (l.set i x) := by
  simp [store, h]

theorem store_of_ge (fault : ε) {l : List α} {i : Nat} (x : α) (h : l.length ≤ i) :
    store fault i x l = .error fault l := by
  have h' : ¬ i < l.length := by omega
  simp [store, h']

/-! ## The loops -/

/-- Copy `xs` into the block from cell `i` on. -/
def storeAll (fault : ε) : Nat → List α → EStateM ε (List α) Unit
  | _, [] => pure ()
  | i, x :: xs => do
    store fault i x
    storeAll fault (i + 1) xs

/-- Copy the `n` cells from `i` on out of the block. -/
def loadAll (fault : ε) : Nat → Nat → EStateM ε (List α) (List α)
  | _, 0 => pure []
  | i, n + 1 => do
    let x ← load fault i
    let xs ← loadAll fault (i + 1) n
    pure (x :: xs)

/-- Copy `n` cells from `src` on to `dst` on, lowest first. -/
def copyFwd (fault : ε) : Nat → Nat → Nat → EStateM ε (List α) Unit
  | 0, _, _ => pure ()
  | n + 1, src, dst => do
    let x ← load fault src
    store fault dst x
    copyFwd fault n (src + 1) (dst + 1)

/-- `storeAll` returns iff the range fits. -/
theorem storeAll_spec (fault : ε) (xs : List α) (i : Nat) (l : List α) :
    Ensures (storeAll fault i xs) l (fun _ l' => l' = overwrite l i xs ∧ (xs ≠ [] → i + xs.length ≤ l.length))
      (fun e _ => e = fault ∧ l.length < i + xs.length) := by
  induction xs generalizing i l with
  | nil => simp [storeAll]
  | cons x xs ih =>
    rw [storeAll, ensures_bind]
    by_cases h : i < l.length
    · rw [ensures_ok (store_of_lt fault x h)]
      refine (ih (i + 1) (l.set i x)).mono ?_ ?_
      · rintro _ l' ⟨he, hf⟩
        rw [overwrite_cons l i x xs h] at he
        refine ⟨he, fun _ => ?_⟩
        cases xs with
        | nil => simp; omega
        | cons y ys => have := hf (by simp); simp at this ⊢; omega
      · rintro e l' ⟨he, hf⟩
        simp at hf ⊢; exact ⟨he, by omega⟩
    · rw [ensures_error (store_of_ge fault x (by omega))]
      simp; omega

theorem storeAll_length (fault : ε) (xs : List α) (i : Nat) (l : List α) :
    Ensures (storeAll fault i xs) l (fun _ l' => l'.length = l.length) fun _ _ => True := by
  refine (storeAll_spec fault xs i l).mono ?_ fun _ _ _ => trivial
  rintro _ _ ⟨rfl, hf⟩
  by_cases hxs : xs = []
  · simp [hxs]
  · exact length_overwrite (hf hxs)

/-- `loadAll` returns the window it is asked for, iff the range fits. -/
theorem loadAll_spec (fault : ε) (n i : Nat) (l : List α) :
    Ensures (loadAll fault i n) l (fun xs l' => xs = window l i n ∧ l' = l ∧ (n ≠ 0 → i + n ≤ l.length))
      (fun e l' => e = fault ∧ l' = l ∧ l.length < i + n) := by
  induction n generalizing i with
  | zero => simp [loadAll]
  | succ n ih =>
    rw [loadAll, ensures_bind]
    by_cases h : i < l.length
    · rw [ensures_ok (load_of_lt fault h), ensures_bind]
      refine (ih (i + 1)).mono ?_ ?_
      · rintro xs l' ⟨hx, hl, hf⟩
        rw [ensures_pure, window_cons h, hx]
        refine ⟨rfl, hl, fun _ => ?_⟩
        by_cases hn : n = 0
        · omega
        · have := hf hn; omega
      · rintro e l' ⟨he, hl, hf⟩
        exact ⟨he, hl, by omega⟩
    · rw [ensures_error (load_of_ge fault (by omega))]
      exact ⟨rfl, rfl, by omega⟩

/-- A forward copy towards lower cells moves the window as it was before the copy. -/
theorem copyFwd_ok (fault : ε) (n src dst : Nat) (l : List α) (hd : dst ≤ src) (hf : src + n ≤ l.length) :
    copyFwd fault n src dst l = .ok () (overwrite l dst (window l src n)) := by
  induction n generalizing src dst l with
  | zero => simp [copyFwd]
  | succ n ih =>
    have hs : src < l.length := by omega
    have hdl : dst < l.length := by omega
    simp only [copyFwd, run_bind, load_of_lt fault hs, store_of_lt fault l[src] hdl]
    rw [ih (src + 1) (dst + 1) _ (by omega) (by simp; omega), window_set_after _ (by omega),
      overwrite_cons l dst l[src] _ hdl, window_cons hs]

/-- It leaves what a copy leaves that reads all of the source before it writes, although the ranges may overlap. -/
theorem copyFwd_buffered (fault : ε) (n src dst : Nat) (l : List α) (hd : dst ≤ src) (hf : src + n ≤ l.length) :
    copyFwd fault n src dst l = (do let xs ← loadAll fault src n; storeAll fault dst xs) l := by
  have buffered : Ensures (do let xs ← loadAll fault src n; storeAll fault dst xs) l
      (fun _ l' => l' = overwrite l dst (window l src n)) fun _ _ => False := by
    rw [ensures_bind]
    refine (loadAll_spec fault n src l).mono ?_ fun _ _ h => by have := h.2.2; omega
    rintro xs _ ⟨rfl, rfl, -⟩
    refine (storeAll_spec fault (window _ src n) dst _).mono (fun _ _ h => h.1) fun _ _ h => ?_
    rw [length_window hf] at h
    omega
  obtain ⟨_, l', he, rfl⟩ := buffered.returns
  rw [copyFwd_ok fault n src dst l hd hf, he]

/-- A copy stops only with the fault of an access outside the block. -/
theorem copyFwd_fault (fault : ε) (n src dst : Nat) (l : List α) :
    Ensures (copyFwd fault n src dst) l (fun _ _ => True) (fun e _ => e = fault) := by
  induction n generalizing src dst l with
  | zero => simp [copyFwd]
  | succ n ih =>
    rw [copyFwd, ensures_bind]
    by_cases hs : src < l.length
    · rw [ensures_ok (load_of_lt fault hs), ensures_bind]
      by_cases hd : dst < l.length
      · rw [ensures_ok (store_of_lt fault _ hd)]
        exact ih _ _ _
      · rw [ensures_error (store_of_ge fault _ (by omega))]
    · rw [ensures_error (load_of_ge fault (by omega))]

end Exec
