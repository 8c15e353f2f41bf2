import Mathlib
/-!
# Code that changes a state and may stop with a fault

`EStateM ε σ α` is the shape of every function modelled on top of this file: it reads and writes a
state `σ`, returns an `α`, or stops with a fault `ε` *in the state it stopped in*. `Ensures` is its
pre/postcondition logic (one rule per way of building code, all simp lemmas), `zoom` runs code of a
part of the state in the whole, and `Run` is what a machine with labelled steps can reach.
-/

namespace Exec

variable {ε σ τ α β A : Type}

/-! ## Running code on a state -/

section
variable (s : σ)

@[simp] theorem run_bind (x : EStateM ε σ α) (f : α → EStateM ε σ β) :
    (x >>= f) s = match x s with
      | .ok a t => f a t
      | .error e t => .error e t := by
  simp only [bind, EStateM.bind]
  cases x s <;> rfl

@[simp] theorem run_pure (a : α) : (pure a : EStateM ε σ α) s = .ok a s := rfl

@[simp] theorem run_throw (e : ε) : (throw e : EStateM ε σ α) s = .error e s := rfl

@[simp] theorem run_get : (get : EStateM ε σ σ) s = .ok s s := rfl

@[simp] theorem run_set (t : σ) : (set t : EStateM ε σ PUnit) s = .ok () t := rfl

@[simp] theorem run_modify (f : σ → σ) : (modify f : EStateM ε σ PUnit) s = .ok () (f s) := rfl

@[simp] theorem run_ite (c : Prop) [Decidable c] (x y : EStateM ε σ α) :
    (if c then x else y) s = if c then x s else y s := by
  split <;> rfl

end

/-- Started in `s`, `x` returns in `Q` or stops in `E`. -/
def Ensures (x : EStateM ε σ α) (s : σ) (Q : α → σ → Prop) (E : ε → σ → Prop) : Prop :=
  match x s with
  | .ok a t => Q a t
  | .error e t => E e t

/-! ## The rules -/

section
variable {Q : α → σ → Prop} {E : ε → σ → Prop} {s : σ}

theorem ensures_ok {x : EStateM ε σ α} {a : α} {t : σ} (h : x s = .ok a t) : Ensures x s Q E ↔ Q a t := by
  simp [Ensures, h]

theorem ensures_error {x : EStateM ε σ α} {e : ε} {t : σ} (h : x s = .error e t) :
    Ensures x s Q E ↔ E e t := by
  simp [Ensures, h]

instance decidableEnsures (x : EStateM ε σ α) [∀ a t, Decidable (Q a t)] [∀ e t, Decidable (E e t)] :
    Decidable (Ensures x s Q E) :=
  match h : x s with
  | .ok a t => decidable_of_iff (Q a t) (ensures_ok h).symm
  | .error e t => decidable_of_iff (E e t) (ensures_error h).symm

@[simp] theorem ensures_pure (a : α) : Ensures (pure a : EStateM ε σ α) s Q E ↔ Q a s := Iff.rfl

@[simp] theorem ensures_throw (e : ε) : Ensures (throw e : EStateM ε σ α) s Q E ↔ E e s := Iff.rfl

@[simp] theorem ensures_bind (x : EStateM ε σ β) (f : β → EStateM ε σ α) :
    Ensures (x >>= f) s Q E ↔ Ensures x s (fun b t => Ensures (f b) t Q E) E := by
  simp only [Ensures, bind, EStateM.bind]
  cases x s <;> rfl

@[simp] theorem ensures_ite (c : Prop) [Decidable c] (x y : EStateM ε σ α) :
    Ensures (if c then x else y) s Q E ↔ (c → Ensures x s Q E) ∧ (¬ c → Ensures y s Q E) := by
  by_cases h : c <;> simp [h]

end

@[simp] theorem ensures_get {s : σ} {Q : σ → σ → Prop} {E : ε → σ → Prop} :
    Ensures (get : EStateM ε σ σ) s Q E ↔ Q s s := Iff.rfl

@[simp] theorem ensures_set {s t : σ} {Q : PUnit → σ → Prop} {E : ε → σ → Prop} :
    Ensures (set t : EStateM ε σ PUnit) s Q E ↔ Q () t := Iff.rfl

@[simp] theorem ensures_modify {s : σ} {f : σ → σ} {Q : PUnit → σ → Prop} {E : ε → σ → Prop} :
    Ensures (modify f : EStateM ε σ PUnit) s Q E ↔ Q () (f s) := Iff.rfl

theorem Ensures.mono {x : EStateM ε σ α} {s : σ} {Q Q' : α → σ → Prop} {E E' : ε → σ → Prop}
    (h : Ensures x s Q E) (hq : ∀ a t, Q a t → Q' a t) (he : ∀ e t, E e t → E' e t) : Ensures x s Q' E' := by
  revert h
  unfold Ensures
  split
  · exact hq _ _
  · exact he _ _

theorem Ensures.and {x : EStateM ε σ α} {s : σ} {Q Q' : α → σ → Prop} {E E' : ε → σ → Prop}
    (h : Ensures x s Q E) (h' : Ensures x s Q' E') :
    Ensures x s (fun a t => Q a t ∧ Q' a t) (fun e t => E e t ∧ E' e t) := by
  revert h h'
  unfold Ensures
  split
  · exact fun h h' => ⟨h, h'⟩
  · exact fun h h' => ⟨h, h'⟩

/-- Code that cannot stop returns. -/
theorem Ensures.of_forall {x : EStateM ε σ α} {s : σ} {Q : α → σ → Prop} (h : ∀ a t, Q a t) :
    Ensures x s Q fun _ _ => True := by
  unfold Ensures
  split
  · exact h _ _
  · trivial

/-- What the code does. -/
theorem ensures_run (x : EStateM ε σ α) (s : σ) : Ensures x s (fun a t => x s = .ok a t) fun e t => x s = .error e t := by
  unfold Ensures
  split
  · assumption
  · assumption

theorem Ensures.returns {x : EStateM ε σ α} {s : σ} {Q : α → σ → Prop} (h : Ensures x s Q fun _ _ => False) :
    ∃ a t, x s = .ok a t ∧ Q a t := by
  revert h
  unfold Ensures
  split
  · exact fun h => ⟨_, _, by assumption, h⟩
  · exact False.elim

/-- Code that cannot return stops. -/
theorem Ensures.stops {x : EStateM ε σ α} {s : σ} {E : ε → σ → Prop} (h : Ensures x s (fun _ _ => False) E) :
    ∃ e t, x s = .error e t ∧ E e t := by
  revert h
  unfold Ensures
  split
  · exact False.elim
  · exact fun h => ⟨_, _, by assumption, h⟩

/-- A premise of both postconditions may be assumed. -/
theorem Ensures.assume {x : EStateM ε σ α} {s : σ} {p : Prop} {Q : α → σ → Prop} {E : ε → σ → Prop}
    (h : p → Ensures x s Q E) : Ensures x s (fun a t => p → Q a t) fun e t => p → E e t := by
  revert h
  unfold Ensures
  split
  · exact id
  · exact id

/-- What holds of each index holds of all at once. -/
theorem Ensures.all {ι : Type} {x : EStateM ε σ α} {s : σ} {Q : ι → α → σ → Prop}
    (h : ∀ i, Ensures x s (Q i) fun _ _ => True) : Ensures x s (fun a t => ∀ i, Q i a t) fun _ _ => True := by
  revert h
  unfold Ensures
  split
  · exact id
  · exact fun _ => trivial

/-! ## Code of a part of the state -/

/-- Run `x` on the part of the state that `view` reads and `put` writes back, also when `x` stops. -/
def zoom (view : σ → τ) (put : τ → σ → σ) (x : EStateM ε τ α) : EStateM ε σ α := fun s =>
  match x (view s) with
  | .ok a t => .ok a (put t s)
  | .error e t => .error e (put t s)

@[simp] theorem ensures_zoom {view : σ → τ} {put : τ → σ → σ} {x : EStateM ε τ α} {s : σ}
    {Q : α → σ → Prop} {E : ε → σ → Prop} :
    Ensures (zoom view put x) s Q E ↔
      Ensures x (view s) (fun a t => Q a (put t s)) (fun e t => E e (put t s)) := by
  unfold Ensures zoom
  cases x (view s) <;> rfl

/-! ## Relations between the state before and after -/

/-- From every state with `P`, `x` returns in a state related by `R` or stops in one related by `E`. -/
def Moves (P : σ → Prop) (R : σ → σ → Prop) (E : ε → σ → σ → Prop) (x : EStateM ε σ α) : Prop :=
  ∀ s, P s → Ensures x s (fun _ t => R s t) (fun e t => E e s t)

/-- The precondition of code that may run in any state. -/
abbrev Anywhere : σ → Prop := fun _ => True

/-- Relations that compose along a sequence of calls. -/
structure Composes (R : σ → σ → Prop) (E : ε → σ → σ → Prop) : Prop where
  refl : ∀ s, R s s
  trans : ∀ {s t u}, R s t → R t u → R s u
  later : ∀ {e s t u}, R s t → E e t u → E e s u

/-- Keeping an invariant, also where the code stops with a fault in `C`. -/
theorem composes_invariant (I : σ → Prop) (C : ε → Prop) :
    Composes (fun s t => I s → I t) (fun e s t => C e → I s → I t) :=
  ⟨fun _ h => h, fun h h' hs => h' (h hs), fun h h' he hs => h' he (h hs)⟩

section
variable {P Q : σ → Prop} {R : σ → σ → Prop} {E : ε → σ → σ → Prop}

theorem Moves.bind (hc : Composes R E) (hP : ∀ {s t}, R s t → P s → P t) {x : EStateM ε σ α}
    {f : α → EStateM ε σ β} (hx : Moves P R E x) (hf : ∀ a, Moves P R E (f a)) : Moves P R E (x >>= f) := by
  intro s hs
  rw [ensures_bind]
  refine (hx s hs).mono (fun a t h => ?_) fun _ _ h => h
  exact (hf a t (hP h hs)).mono (fun _ _ h' => hc.trans h h') fun _ _ h' => hc.later h h'

theorem Moves.pure (hc : Composes R E) (a : α) : Moves P R E (pure a : EStateM ε σ α) := fun s _ => hc.refl s

theorem Moves.get (hc : Composes R E) : Moves P R E (get : EStateM ε σ σ) := fun s _ => hc.refl s

theorem Moves.ite {c : Prop} [Decidable c] {x y : EStateM ε σ α} (hx : Moves P R E x) (hy : Moves P R E y) :
    Moves P R E (if c then x else y) := by
  split
  · exact hx
  · exact hy

/-! Two relations at once. -/

section
variable {R' : σ → σ → Prop} {E' : ε → σ → σ → Prop} {x : EStateM ε σ α}

theorem Composes.and (hc : Composes R E) (hc' : Composes R' E') :
    Composes (fun s t => R s t ∧ R' s t) (fun e s t => E e s t ∧ E' e s t) where
  refl s := ⟨hc.refl s, hc'.refl s⟩
  trans h h' := ⟨hc.trans h.1 h'.1, hc'.trans h.2 h'.2⟩
  later h h' := ⟨hc.later h.1 h'.1, hc'.later h.2 h'.2⟩

theorem Moves.and (h : Moves P R E x) (h' : Moves P R' E' x) :
    Moves P (fun s t => R s t ∧ R' s t) (fun e s t => E e s t ∧ E' e s t) x := fun s hs => (h s hs).and (h' s hs)

theorem Moves.widen (h : Moves P R E x) (hR : ∀ {s t}, R s t → R' s t) (hE : ∀ {e s t}, E e s t → E' e s t) :
    Moves P R' E' x := fun s hs => (h s hs).mono (fun _ _ => hR) fun _ _ => hE

theorem Moves.left (h : Moves P (fun s t => R s t ∧ R' s t) (fun e s t => E e s t ∧ E' e s t) x) : Moves P R E x :=
  h.widen And.left And.left

theorem Moves.right (h : Moves P (fun s t => R s t ∧ R' s t) (fun e s t => E e s t ∧ E' e s t) x) : Moves P R' E' x :=
  h.widen And.right And.right

end

theorem Moves.weaken {x : EStateM ε σ α} (h : Moves P R E x) (hQ : ∀ s, Q s → P s) : Moves Q R E x :=
  fun s hs => h s (hQ s hs)

end

/-- `x` keeps the invariant, also where it stops with a fault in `C`. -/
abbrev Keeps (I : σ → Prop) (C : ε → Prop) (x : EStateM ε σ α) : Prop :=
  Moves Anywhere (fun s t => I s → I t) (fun e s t => C e → I s → I t) x

section
variable {I : σ → Prop} {C : ε → Prop} {x : EStateM ε σ α}

theorem Keeps.intro (h : ∀ s, I s → Ensures x s (fun _ t => I t) fun e t => C e → I t) : Keeps I C x := fun s _ =>
  (Ensures.assume (h s)).mono (fun _ _ h => h) fun _ _ h he hs => h hs he

theorem Keeps.from (h : Keeps I C x) {s : σ} (hs : I s) : Ensures x s (fun _ t => I t) fun e t => C e → I t :=
  (h s trivial).mono (fun _ _ hk => hk hs) fun _ _ hk he => hk he hs

theorem Keeps.pure (a : α) : Keeps I C (pure a : EStateM ε σ α) := .intro fun _ h => h

theorem Keeps.bind {f : α → EStateM ε σ β} (hx : Keeps I C x) (hf : ∀ a, Keeps I C (f a)) : Keeps I C (x >>= f) :=
  Moves.bind (composes_invariant I C) (fun _ h => h) hx hf

end

/-! ## Runs of a machine -/

/-- The steps of `as`, one after another, up to the first fault. -/
def steps (step : A → EStateM ε σ Unit) : List A → EStateM ε σ Unit
  | [] => pure ()
  | a :: as => do step a; steps step as

theorem steps_append (step : A → EStateM ε σ Unit) (as bs : List A) :
    steps step (as ++ bs) = (do steps step as; steps step bs) := by
  induction as with
  | nil => simp [steps]
  | cons a as ih => simp only [List.cons_append, steps, ih, bind_assoc]

/-- What the machine reaches from `s₀` by steps that return and that all meet `cond` (a condition on
the state before the step and on its label). -/
inductive Run (step : A → EStateM ε σ Unit) (cond : σ → A → Prop) (s₀ : σ) : σ → Prop where
  | start : Run step cond s₀ s₀
  | step {s t : σ} {a : A} : Run step cond s₀ s → cond s a → step a s = .ok () t → Run step cond s₀ t

/-- **The invariant rule**: what holds at the start and is kept by every step holds in every run. -/
theorem Run.invariant {step : A → EStateM ε σ Unit} {cond : σ → A → Prop} {s₀ s : σ} {I : σ → Prop}
    (h : Run step cond s₀ s) (h0 : I s₀)
    (hs : ∀ s a, I s → cond s a → Ensures (step a) s (fun _ t => I t) fun _ _ => True) : I s := by
  induction h with
  | start => exact h0
  | step _ hc he ih => exact (ensures_ok he).1 (hs _ _ ih hc)

/-- A run under a condition is one under every weaker condition. -/
theorem Run.weaken {step : A → EStateM ε σ Unit} {cond cond' : σ → A → Prop} {s₀ s : σ} (h : Run step cond s₀ s)
    (hc : ∀ s a, cond s a → cond' s a) : Run step cond' s₀ s := by
  induction h with
  | start => exact .start
  | step _ ha he ih => exact .step ih (hc _ _ ha) he

/-- A run goes on where another one ended. -/
theorem Run.trans {step : A → EStateM ε σ Unit} {cond : σ → A → Prop} {s₀ s t : σ} (h : Run step cond s₀ s)
    (h' : Run step cond s t) : Run step cond s₀ t := by
  induction h' with
  | start => exact h
  | step _ ha he ih => exact .step ih ha he

/-- A step from a run that returns is one more step of it. -/
theorem Run.next {step : A → EStateM ε σ Unit} {cond : σ → A → Prop} {s₀ s : σ} {a : A} (h : Run step cond s₀ s)
    (ha : cond s a) : Ensures (step a) s (fun _ t => Run step cond s₀ t) fun _ _ => True := by
  unfold Ensures
  split
  · rename_i he
    exact h.step ha he
  · trivial

/-- Every step of `as` meets `cond` where it is made. -/
def Meets (step : A → EStateM ε σ Unit) (cond : σ → A → Prop) : List A → σ → Prop
  | [], _ => True
  | a :: as, s => cond s a ∧ Ensures (step a) s (fun _ t => Meets step cond as t) fun _ _ => True

instance decidableMeets (step : A → EStateM ε σ Unit) (cond : σ → A → Prop) [∀ s a, Decidable (cond s a)] :
    ∀ as s, Decidable (Meets step cond as s)
  | [], _ => .isTrue trivial
  | a :: as, s =>
    have := fun t => decidableMeets step cond as t
    inferInstanceAs (Decidable (cond s a ∧ Ensures (step a) s (fun _ t => Meets step cond as t) fun _ _ => True))

theorem Run.steps {step : A → EStateM ε σ Unit} {cond : σ → A → Prop} {s₀ s t : σ} {as : List A}
    (h : Run step cond s₀ s) (hm : Meets step cond as s) (he : Exec.steps step as s = .ok () t) : Run step cond s₀ t := by
  induction as generalizing s with
  | nil => cases he; exact h
  | cons a as ih =>
    simp only [Exec.steps, bind, EStateM.bind] at he
    split at he
    · rename_i hstep
      exact ih (.step h hm.1 hstep) ((ensures_ok hstep).1 hm.2) he
    · cases he

/-- A run that ends in `Q`, from the steps it makes. -/
theorem Run.reaches (step : A → EStateM ε σ Unit) (cond : σ → A → Prop) (s₀ : σ) (as : List A) (Q : σ → Prop)
    (hm : Meets step cond as s₀) (h : Ensures (Exec.steps step as) s₀ (fun _ s => Q s) fun _ _ => False) :
    ∃ s, Run step cond s₀ s ∧ Q s := by
  obtain ⟨_, s, he, hq⟩ := h.returns
  exact ⟨s, Run.start.steps hm he, hq⟩

end Exec
