import NetServer.Lib.Exec
/-!
# Two programs side by side

`Alike x s y t Q` runs `x` from `s` and `y` from `t`: both return, and `Q` relates how, or both stop with the same fault.
It is `Ensures` inside `Ensures`, so that the rules of one side carry over. `LockStep` is the same for the steps of two
machines, and so for sequences of steps.
-/

namespace Exec

variable {ε σ τ α β γ δ A B : Type}

/-- `x` from `s` and `y` from `t` both return, related by `Q`, or both stop with one fault. -/
def Alike (x : EStateM ε σ α) (s : σ) (y : EStateM ε τ β) (t : τ) (Q : α → σ → β → τ → Prop) : Prop :=
  Ensures x s (fun a s' => Ensures y t (fun b t' => Q a s' b t') fun _ _ => False)
    fun e _ => Ensures y t (fun _ _ => False) fun e' _ => e' = e

/-! ## The rules -/

section
variable {x : EStateM ε σ α} {y : EStateM ε τ β} {s s' : σ} {t t' : τ} {Q Q' : α → σ → β → τ → Prop}

theorem alike_ok {a : α} {b : β} (hx : x s = .ok a s') (hy : y t = .ok b t') : Alike x s y t Q ↔ Q a s' b t' := by
  rw [Alike, ensures_ok hx, ensures_ok hy]

theorem alike_error {e e' : ε} (hx : x s = .error e s') (hy : y t = .error e' t') : Alike x s y t Q ↔ e' = e := by
  rw [Alike, ensures_error hx, ensures_error hy]

/-- The second program returns, and the first one in a related state. -/
theorem Alike.of_ensures {b : β} (hx : Ensures x s (fun a s' => Q a s' b t') fun _ _ => False) (hy : y t = .ok b t') :
    Alike x s y t Q := by
  obtain ⟨a, s', he, hq⟩ := hx.returns
  exact (alike_ok he hy).2 hq

theorem alike_pure (a : α) (b : β) : Alike (pure a : EStateM ε σ α) s (pure b : EStateM ε τ β) t Q ↔ Q a s b t := Iff.rfl

theorem alike_modify (f : σ → σ) (g : τ → τ) {R : PUnit → σ → PUnit → τ → Prop} :
    Alike (modify f : EStateM ε σ PUnit) s (modify g : EStateM ε τ PUnit) t R ↔ R () (f s) () (g t) := Iff.rfl

theorem alike_throw (e : ε) : Alike (throw e : EStateM ε σ α) s (throw e : EStateM ε τ β) t Q := rfl

/-- A program beside itself. -/
theorem alike_same (x : EStateM ε σ α) (s : σ) : Alike x s x s fun a s' b t' => b = a ∧ t' = s' := by
  rcases hx : x s with ⟨a, s'⟩ | ⟨e, s'⟩
  · exact (alike_ok hx hx).2 ⟨rfl, rfl⟩
  · exact (alike_error hx hx).2 rfl

/-- Where the first program returns, so does the second. -/
theorem Alike.returns (h : Alike x s y t Q) {a : α} (hx : x s = .ok a s') : ∃ b t', y t = .ok b t' ∧ Q a s' b t' := by
  rw [Alike, ensures_ok hx] at h
  exact Ensures.returns h

/-- Where the second program returns, so does the first. -/
theorem Alike.returned (h : Alike x s y t Q) {b : β} (hy : y t = .ok b t') : ∃ a s', x s = .ok a s' ∧ Q a s' b t' := by
  simp only [Alike, ensures_ok hy] at h
  exact Ensures.returns h

theorem Alike.mono (h : Alike x s y t Q) (hq : ∀ a s' b t', Q a s' b t' → Q' a s' b t') : Alike x s y t Q' :=
  Ensures.mono h (fun a s' h => h.mono (fun b t' => hq a s' b t') fun _ _ => id) fun _ _ => id

/-- With what the first program ensures by itself. -/
theorem Alike.left (h : Alike x s y t Q) {P : α → σ → Prop} {E : ε → σ → Prop} (hx : Ensures x s P E) :
    Alike x s y t fun a s' b t' => Q a s' b t' ∧ P a s' :=
  (Ensures.and h hx).mono (fun _ _ hs => hs.1.mono (fun _ _ hq => ⟨hq, hs.2⟩) fun _ _ => id) fun _ _ hs => hs.1

/-- With what the second program ensures by itself. -/
theorem Alike.right (h : Alike x s y t Q) {P : β → τ → Prop} {E : ε → τ → Prop} (hy : Ensures y t P E) :
    Alike x s y t fun a s' b t' => Q a s' b t' ∧ P b t' :=
  Ensures.mono h (fun _ _ h => (Ensures.and h hy).mono (fun _ _ hq => hq) fun _ _ he => he.1) fun _ _ h =>
    (Ensures.and h hy).mono (fun _ _ hf => hf.1) fun _ _ he => he.1

theorem Alike.bind {f : α → EStateM ε σ γ} {g : β → EStateM ε τ δ} {R : γ → σ → δ → τ → Prop} (h : Alike x s y t Q)
    (hf : ∀ a s' b t', Q a s' b t' → Alike (f a) s' (g b) t' R) : Alike (x >>= f) s (y >>= g) t R := by
  unfold Alike
  rw [ensures_bind]
  refine Ensures.mono h ?_ ?_
  · intro a s' h
    obtain ⟨b, t', he, hq⟩ := h.returns
    have hg : ∀ {P : δ → τ → Prop} {E : ε → τ → Prop}, Ensures (y >>= g) t P E ↔ Ensures (g b) t' P E := by
      intro P E
      rw [ensures_bind, ensures_ok he]
    simp only [hg]
    exact hf a s' b t' hq
  · intro e _ h
    rw [ensures_bind]
    exact h.mono (fun _ _ => False.elim) fun _ _ => id

theorem alike_ite {c d : Prop} [Decidable c] [Decidable d] (hcd : c ↔ d) {x' : EStateM ε σ α} {y' : EStateM ε τ β}
    (h : c → Alike x s y t Q) (h' : ¬ c → Alike x' s y' t Q) :
    Alike (if c then x else x') s (if d then y else y') t Q := by
  by_cases hc : c
  · rw [if_pos hc, if_pos (hcd.1 hc)]
    exact h hc
  · rw [if_neg hc, if_neg (mt hcd.2 hc)]
    exact h' hc

/-- A call that only the first program makes. -/
theorem alike_left {f : α → EStateM ε σ γ} {a : α} {R : γ → σ → β → τ → Prop} (hx : x s = .ok a s') :
    Alike (x >>= f) s y t R ↔ Alike (f a) s' y t R := by
  unfold Alike
  rw [ensures_bind, ensures_ok hx]

/-- A call that only the second program makes. -/
theorem alike_right {g : β → EStateM ε τ δ} {b : β} {R : α → σ → δ → τ → Prop} (hy : y t = .ok b t') :
    Alike x s (y >>= g) t R ↔ Alike x s (g b) t' R := by
  unfold Alike
  simp only [ensures_bind, ensures_ok hy]

/-- Code of a part of each state. -/
theorem alike_zoom {σ₁ τ₁ : Type} {view : σ₁ → σ} {put : σ → σ₁ → σ₁} {view' : τ₁ → τ} {put' : τ → τ₁ → τ₁} {s : σ₁} {t : τ₁}
    {Q : α → σ₁ → β → τ₁ → Prop} : Alike (zoom view put x) s (zoom view' put' y) t Q ↔
      Alike x (view s) y (view' t) fun a p b q => Q a (put p s) b (put' q t) := by
  simp only [Alike, ensures_zoom]

end

-- unification would run both programs to compare two statements about them; the rules above are enough
attribute [irreducible] Alike

/-! ## Machines -/

/-- Related states stay related while both machines step, the second one with the `label` of the first one's step. -/
def LockStep (step : A → EStateM ε σ Unit) (cond : σ → A → Prop) (step' : B → EStateM ε τ Unit) (label : A → B)
    (R : σ → τ → Prop) : Prop :=
  ∀ s t a, R s t → cond s a → Alike (step a) s (step' (label a)) t fun _ s' _ t' => R s' t'

section
variable {step : A → EStateM ε σ Unit} {cond : σ → A → Prop} {step' : B → EStateM ε τ Unit} {label : A → B}
  {R : σ → τ → Prop} {s : σ} {t : τ}

/-- Without a condition, any steps may be made. -/
theorem meets_true (step : A → EStateM ε σ Unit) (as : List A) (s : σ) : Meets step (fun _ _ => True) as s := by
  induction as generalizing s with
  | nil => trivial
  | cons a as ih =>
    refine ⟨trivial, ?_⟩
    unfold Ensures
    split
    · exact ih _
    · trivial

/-- **Sequences of steps**: both machines make all of them, or stop at the same one with the same fault. -/
theorem LockStep.steps (h : LockStep step cond step' label R) {as : List A} (hR : R s t) (hm : Meets step cond as s) :
    Alike (Exec.steps step as) s (Exec.steps step' (as.map label)) t fun _ s' _ t' => R s' t' := by
  induction as generalizing s t with
  | nil => exact (alike_pure ..).2 hR
  | cons a as ih =>
    obtain ⟨ha, hrest⟩ := hm
    have first := h s t a hR ha
    -- the condition on the later steps is one on the state that the first one returns in
    exact (first.left hrest).bind fun _ s' _ t' h' => ih h'.1 h'.2

end

end Exec
