import NetServer.Lib.Alike
/-!
# Code of separate shares of a state

A state that falls into shares, and code that works on one of them (`Local`): it does the same in every two states where its
share is the same, and leaves the others as they are. Code of two shares that are apart may change places (`Shares.swap`), and
any number of such pieces may run in any order (`Shares.perm`), up to what no share sees.
-/

namespace Exec

variable {ε σ ι α β : Type}

structure Shares (ι σ : Type) where
  /-- The two shares have nothing in common. -/
  apart : ι → ι → Prop
  /-- The share is in order in both states, and the same. -/
  same : ι → σ → σ → Prop
  /-- `moves i s s' t t'`: the share went from `s` to `s'` as from `t` to `t'`, and nothing else has changed. -/
  moves : ι → σ → σ → σ → σ → Prop
  /-- No share tells the two states apart. -/
  alike : σ → σ → Prop
  apart_symm : ∀ {i j}, apart i j → apart j i
  same_symm : ∀ {i s t}, same i s t → same i t s
  same_trans : ∀ {i s t u}, same i s t → same i t u → same i s u
  stay : ∀ {i s t}, same i s t → moves i s s t t
  comp : ∀ {i s s' s'' t t' t''}, moves i s s' t t' → moves i s' s'' t' t'' → moves i s s'' t t''
  moves_symm : ∀ {i s s' t t'}, moves i s s' t t' → moves i t t' s s'
  moved : ∀ {i s s' t t'}, moves i s s' t t' → same i s' t'
  spared : ∀ {i j s s' t t'}, apart i j → moves i s s' t t' → same j s s → same j s s'
  alike_refl : ∀ s, alike s s
  alike_trans : ∀ {s t u}, alike s t → alike t u → alike s u
  alike_same : ∀ {i s t}, alike s t → same i s s → same i s t
  alike_moves : ∀ {i s s' t t'}, alike s t → moves i s s' t t' → alike s' t'
  /-- The two moves, in either order. -/
  diamond : ∀ {i j s s₁ s₂ t₁ t₂}, apart i j → moves i s s₁ t₁ t₂ → moves j s t₁ s₁ s₂ → alike s₂ t₂

namespace Shares

/-- Code of one share. -/
def Local (S : Shares ι σ) (i : ι) (x : EStateM ε σ α) : Prop :=
  ∀ s t, S.same i s t → Alike x s x t fun a s' b t' => b = a ∧ S.moves i s s' t t'

section
variable {S : Shares ι σ} {i : ι}

theorem local_pure (a : α) : S.Local i (pure a : EStateM ε σ α) := fun _ _ h => (alike_pure ..).2 ⟨rfl, S.stay h⟩

theorem local_throw (e : ε) : S.Local i (throw e : EStateM ε σ α) := fun _ _ _ => alike_throw e

/-- Code after other code. -/
theorem Local.after {x : EStateM ε σ α} (hx : S.Local i x) {s s' t t' : σ} (h : S.moves i s s' t t') :
    Alike x s' x t' fun a s'' b t'' => b = a ∧ S.moves i s s'' t t'' :=
  (hx s' t' (S.moved h)).mono fun _ _ _ _ hb => ⟨hb.1, S.comp h hb.2⟩

theorem Local.bind {x : EStateM ε σ α} {f : α → EStateM ε σ β} (hx : S.Local i x) (hf : ∀ a, S.Local i (f a)) :
    S.Local i (x >>= f) := by
  intro s t h
  refine (hx s t h).bind ?_
  rintro a s' b t' ⟨rfl, hm⟩
  exact (hf b).after hm

theorem Local.ite {c : Prop} [Decidable c] {x y : EStateM ε σ α} (hx : S.Local i x) (hy : S.Local i y) :
    S.Local i (if c then x else y) := by
  split
  · exact hx
  · exact hy

/-- Code that looks at the state, at its share only. -/
theorem local_asks {g : σ → β} {f : β → EStateM ε σ α} (hg : ∀ s t, S.same i s t → g t = g s) (hf : ∀ b, S.Local i (f b)) :
    S.Local i (do let s ← get; f (g s)) := by
  intro s t h
  have run : ∀ u : σ, (get : EStateM ε σ σ) u = .ok u u := fun _ => rfl
  rw [alike_left (run s), alike_right (run t), hg s t h]
  exact hf (g s) s t h

end

/-! ## Several pieces -/

variable {S : Shares ι σ} {i j : ι} {x y : EStateM ε σ Unit} {l l' : List (ι × EStateM ε σ Unit)} {s s' t : σ}

/-- Every piece is of its share, which it finds in order, and the shares are apart. -/
structure Ready (S : Shares ι σ) (l : List (ι × EStateM ε σ Unit)) (s : σ) : Prop where
  code : ∀ p ∈ l, S.Local p.1 p.2
  same : ∀ p ∈ l, S.same p.1 s s
  apart : l.Pairwise fun p q => S.apart p.1 q.1

theorem Local.next (hx : S.Local i x) (h : S.same i s s) (hr : x s = .ok () s') : S.moves i s s' s s' := by
  obtain ⟨_, t, ht, -, hm⟩ := (hx s s h).returns hr
  rw [hr] at ht
  cases ht
  exact hm

/-- The code leaves shares in order, its own and those that are apart. -/
theorem Local.keeps (hx : S.Local i x) (h : S.same i s s) (hr : x s = .ok () s') (hij : i = j ∨ S.apart i j) (hj : S.same j s s) :
    S.same j s' s' := by
  have moves := hx.next h hr
  rcases hij with rfl | apart
  · exact S.moved moves
  · have spared := S.spared apart moves hj
    exact S.same_trans (S.same_symm spared) spared

/-- The pieces that are left are ready after the first one. -/
theorem Ready.next {p : ι × EStateM ε σ Unit} (h : Ready S (p :: l) s) (hr : p.2 s = .ok () s') : Ready S l s' where
  code q hq := h.code q (List.mem_cons_of_mem _ hq)
  same q hq := (h.code p List.mem_cons_self).keeps (h.same p List.mem_cons_self) hr
    (.inr ((List.pairwise_cons.1 h.apart).1 q hq)) (h.same q (List.mem_cons_of_mem _ hq))
  apart := (List.pairwise_cons.1 h.apart).2

theorem Ready.ensures {p : ι × EStateM ε σ Unit} (h : Ready S (p :: l) s) :
    Ensures p.2 s (fun _ s' => Ready S l s') fun _ _ => True := by
  rcases hr : p.2 s with ⟨_, s'⟩ | ⟨e, s'⟩
  · exact (ensures_ok hr).2 (h.next hr)
  · exact (ensures_error hr).2 trivial

/-- In another order. -/
theorem Ready.reorder (h : Ready S l s) (hl : l.Perm l') : Ready S l' s where
  code p hp := h.code p (hl.mem_iff.2 hp)
  same p hp := h.same p (hl.mem_iff.2 hp)
  apart := (hl.pairwise_iff fun hpq => S.apart_symm hpq).1 h.apart

theorem steps_cons_ok {A : Type} {step : A → EStateM ε σ Unit} {a : A} {as : List A} :
    steps step (a :: as) s = .ok () s' ↔ ∃ m, step a s = .ok () m ∧ steps step as m = .ok () s' := by
  rw [steps, run_bind]
  cases step a s with
  | ok _ m => simp
  | error e m => simp

/-- The pieces do the same in states that no share tells apart. -/
theorem Ready.alike (h : Ready S l s) (hst : S.alike s t) (hr : steps Prod.snd l s = .ok () s') :
    ∃ t', steps Prod.snd l t = .ok () t' ∧ S.alike s' t' := by
  induction l generalizing s t with
  | nil =>
    cases hr
    exact ⟨t, rfl, hst⟩
  | cons p l ih =>
    obtain ⟨m, hs, hr⟩ := steps_cons_ok.1 hr
    obtain ⟨_, n, ht, -, hm⟩ := (h.code p List.mem_cons_self s t (S.alike_same hst (h.same p List.mem_cons_self))).returns hs
    obtain ⟨t', ht', hst'⟩ := ih (h.next hs) (S.alike_moves hst hm) hr
    exact ⟨t', steps_cons_ok.2 ⟨n, ht, ht'⟩, hst'⟩

/-- The pieces leave a share in order that is that of one of them or apart from all. -/
theorem Ready.keeps (h : Ready S l s) (hr : steps Prod.snd l s = .ok () s') (hl : ∀ p ∈ l, p.1 = j ∨ S.apart p.1 j)
    (hj : S.same j s s) : S.same j s' s' := by
  induction l generalizing s with
  | nil =>
    cases hr
    exact hj
  | cons p l ih =>
    obtain ⟨m, hs, hr⟩ := steps_cons_ok.1 hr
    have first := (h.code p List.mem_cons_self).keeps (h.same p List.mem_cons_self) hs (hl p List.mem_cons_self) hj
    exact ih (h.next hs) hr (fun q hq => hl q (List.mem_cons_of_mem _ hq)) first

section
variable [DecidableEq ι]

/-- The pieces of one share. -/
def own (j : ι) (l : List (ι × EStateM ε σ Unit)) : List (ι × EStateM ε σ Unit) := l.filter fun p => p.1 = j

theorem Ready.own (h : Ready S l s) (hst : S.same j s t) : Ready S (own j l) t where
  code p hp := h.code p (List.mem_filter.1 hp).1
  same p hp := by
    obtain rfl := of_decide_eq_true (List.mem_filter.1 hp).2
    exact S.same_trans (S.same_symm hst) hst
  apart := h.apart.filter _

/-- **One share alone**: without the pieces of the others, the share comes to the same. -/
theorem Ready.alone (h : Ready S l s) (hr : steps Prod.snd l s = .ok () s') (hl : ∀ p ∈ l, p.1 = j ∨ S.apart p.1 j)
    (hst : S.same j s t) : ∃ t', steps Prod.snd (Shares.own j l) t = .ok () t' ∧ S.same j s' t' := by
  induction l generalizing s t with
  | nil =>
    cases hr
    exact ⟨t, rfl, hst⟩
  | cons p l ih =>
    obtain ⟨m, hs, hr⟩ := steps_cons_ok.1 hr
    have rest : ∀ q ∈ l, q.1 = j ∨ S.apart q.1 j := fun q hq => hl q (List.mem_cons_of_mem _ hq)
    by_cases hp : p.1 = j
    · obtain rfl := hp
      obtain ⟨_, n, ht, -, hm⟩ := (h.code p List.mem_cons_self s t hst).returns hs
      obtain ⟨t', ht', same⟩ := ih (h.next hs) hr rest (S.moved hm)
      refine ⟨t', ?_, same⟩
      simp only [Shares.own, List.filter_cons, decide_true, if_true]
      exact steps_cons_ok.2 ⟨n, ht, ht'⟩
    · have apart := (hl p List.mem_cons_self).resolve_left hp
      have moves := (h.code p List.mem_cons_self).next (h.same p List.mem_cons_self) hs
      have spared := S.spared apart moves (S.same_trans hst (S.same_symm hst))
      obtain ⟨t', ht', same⟩ := ih (h.next hs) hr rest (S.same_trans (S.same_symm spared) hst)
      refine ⟨t', ?_, same⟩
      simpa [Shares.own, List.filter_cons, hp] using ht'

end

/-- **Two pieces** may change places. -/
theorem swap {p q : ι × EStateM ε σ Unit} (h : Ready S (p :: q :: l) s) {m : σ} (hp : p.2 s = .ok () m) (hq : q.2 m = .ok () s') :
    ∃ n t', q.2 s = .ok () n ∧ p.2 n = .ok () t' ∧ S.alike s' t' := by
  have mem : p ∈ p :: q :: l ∧ q ∈ p :: q :: l := by simp
  have apart := (List.pairwise_cons.1 h.apart).1 q List.mem_cons_self
  have first := (h.code p mem.1).next (h.same p mem.1) hp
  -- `q` from the state before `p`, and then `p`
  obtain ⟨_, n, hn, -, hmq⟩ := (h.code q mem.2 m s (S.same_symm (S.spared apart first (h.same q mem.2)))).returns hq
  have second := (h.code q mem.2).next (h.same q mem.2) hn
  obtain ⟨_, t', ht', -, hmp⟩ := (h.code p mem.1 s n (S.spared (S.apart_symm apart) second (h.same p mem.1))).returns hp
  exact ⟨n, t', hn, ht', S.diamond apart hmp (S.moves_symm hmq)⟩

/-- **Any order**: if the pieces return one after another, they do in every order, in a state that no share tells apart. -/
theorem perm (hl : l.Perm l') (h : Ready S l s) (hr : steps Prod.snd l s = .ok () s') :
    ∃ t', steps Prod.snd l' s = .ok () t' ∧ S.alike s' t' := by
  induction hl generalizing s s' with
  | nil => exact ⟨s', hr, S.alike_refl s'⟩
  | cons p _ ih =>
    obtain ⟨m, hp, hr⟩ := steps_cons_ok.1 hr
    obtain ⟨t', ht', hst⟩ := ih (h.next hp) hr
    exact ⟨t', steps_cons_ok.2 ⟨m, hp, ht'⟩, hst⟩
  | swap q p l =>
    obtain ⟨m, hp, hr⟩ := steps_cons_ok.1 hr
    obtain ⟨u, hq, hr⟩ := steps_cons_ok.1 hr
    obtain ⟨n, v, hn, hv, huv⟩ := swap h hp hq
    obtain ⟨t', ht', hst⟩ := ((h.next hp).next hq).alike huv hr
    exact ⟨t', steps_cons_ok.2 ⟨n, hn, steps_cons_ok.2 ⟨v, hv, ht'⟩⟩, hst⟩
  | @trans l₁ l₂ l₃ hl hl' ih ih' =>
    obtain ⟨t', ht', hst⟩ := ih h hr
    obtain ⟨u', hu', htu⟩ := ih' (h.reorder hl) ht'
    exact ⟨u', hu', S.alike_trans hst htu⟩

end Shares

end Exec
