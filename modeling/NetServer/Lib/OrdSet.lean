import Mathlib
/-!
# Ordered sets as lists

`std::set` of elements that are told apart by a key: a list in strictly increasing order of the keys, carried
as a field. `insert` leaves an element with an equal key alone, `below` and `above` are the two sides of
`lower_bound`.
-/

namespace Exec

variable {α κ : Type} [LinearOrder κ] {key : α → κ}

structure OrdSet (key : α → κ) where
  elems : List α
  ordered : elems.Pairwise (key · < key ·)

namespace OrdSet

def empty : OrdSet key := ⟨[], .nil⟩

def insertList (key : α → κ) (x : α) : List α → List α
  | [] => [x]
  | y :: l =>
    if key x < key y then
      x :: y :: l
    else if key y < key x then
      y :: insertList key x l
    else
      y :: l

theorem mem_of_mem_insertList {x y : α} {l : List α} (h : y ∈ insertList key x l) : y = x ∨ y ∈ l := by
  induction l with
  | nil => simpa [insertList] using h
  | cons z l ih =>
    simp only [insertList] at h
    split at h
    · exact List.mem_cons.1 h
    · split at h
      · obtain rfl | h := List.mem_cons.1 h
        · exact .inr (List.mem_cons_self ..)
        · exact (ih h).imp id (List.mem_cons_of_mem _)
      · exact .inr h

theorem insertList_ordered (x : α) {l : List α} (h : l.Pairwise (key · < key ·)) :
    (insertList key x l).Pairwise (key · < key ·) := by
  induction l with
  | nil => simp [insertList]
  | cons y l ih =>
    obtain ⟨hy, hl⟩ := List.pairwise_cons.1 h
    simp only [insertList]
    split
    · rename_i hxy
      refine List.pairwise_cons.2 ⟨fun z hz => ?_, h⟩
      obtain rfl | hz := List.mem_cons.1 hz
      · exact hxy
      · exact hxy.trans (hy z hz)
    · split
      · rename_i hyx
        refine List.pairwise_cons.2 ⟨fun z hz => ?_, ih hl⟩
        obtain rfl | hz := mem_of_mem_insertList hz
        · exact hyx
        · exact hy z hz
      · exact h

/-- A new key is inserted. -/
theorem insertList_perm {x : α} {l : List α} (h : ∀ y ∈ l, key y ≠ key x) : (insertList key x l).Perm (x :: l) := by
  induction l with
  | nil => exact .refl _
  | cons y l ih =>
    simp only [insertList]
    split
    · exact .refl _
    · rename_i hxy
      rw [if_pos (lt_of_le_of_ne (not_lt.1 hxy) (h y (List.mem_cons_self ..)))]
      exact ((ih fun z hz => h z (List.mem_cons_of_mem _ hz)).cons y).trans (.swap ..)

variable (s : OrdSet key)

/-- `insert(x).first`, up to the position. -/
def insert (x : α) : OrdSet key := ⟨insertList key x s.elems, insertList_ordered x s.ordered⟩

/-- `erase(k)`. -/
def erase (k : κ) : OrdSet key := ⟨s.elems.filter (key · ≠ k), s.ordered.filter _⟩

/-- `begin()`. -/
def first : Option α := s.elems.head?

/-- `[begin(), lower_bound(cut))`. -/
def below (cut : κ) : List α := s.elems.takeWhile (key · < cut)

/-- `[lower_bound(cut), end())`. -/
def above (cut : κ) : OrdSet key := ⟨s.elems.dropWhile (key · < cut), s.ordered.sublist (List.dropWhile_sublist _)⟩

variable {s}

theorem elems_insert_perm {x : α} (h : ∀ y ∈ s.elems, key y ≠ key x) : (s.insert x).elems.Perm (x :: s.elems) :=
  insertList_perm h

theorem mem_insert {x y : α} (h : ∀ y ∈ s.elems, key y ≠ key x) : y ∈ (s.insert x).elems ↔ y = x ∨ y ∈ s.elems := by
  rw [(elems_insert_perm h).mem_iff, List.mem_cons]

@[simp] theorem mem_erase {k : κ} {y : α} : y ∈ (s.erase k).elems ↔ y ∈ s.elems ∧ key y ≠ k := by
  simp [erase]

theorem nodup : s.elems.Nodup := s.ordered.imp fun h he => by
  rw [he] at h
  exact lt_irrefl _ h

/-- Elements with equal keys are equal. -/
theorem key_inj {x y : α} (hx : x ∈ s.elems) (hy : y ∈ s.elems) (h : key x = key y) : x = y := by
  by_contra hne
  have : Std.Symm fun a b : α => key a ≠ key b := ⟨fun _ _ h => Ne.symm h⟩
  have apart : s.elems.Pairwise fun a b => key a ≠ key b := s.ordered.imp fun h => ne_of_lt h
  exact apart.forall hx hy hne h

/-- An erased element goes alone. -/
theorem elems_erase_perm {x : α} (hx : x ∈ s.elems) : s.elems.Perm (x :: (s.erase (key x)).elems) := by
  have cons : (x :: (s.erase (key x)).elems).Nodup :=
    List.nodup_cons.2 ⟨fun h => (mem_erase.1 h).2 rfl, (s.erase (key x)).nodup⟩
  refine (List.perm_ext_iff_of_nodup s.nodup cons).2 fun y => ?_
  rw [List.mem_cons, mem_erase]
  constructor
  · intro hy
    by_cases hk : key y = key x
    · exact .inl (key_inj hy hx hk)
    · exact .inr ⟨hy, hk⟩
  · rintro (rfl | hy)
    · exact hx
    · exact hy.1

/-- `begin()` is least. -/
theorem first_le {x y : α} (hx : s.first = some x) (hy : y ∈ s.elems) : key x ≤ key y := by
  obtain ⟨l, hl⟩ := List.head?_eq_some_iff.1 hx
  have ordered := s.ordered
  rw [hl] at ordered hy
  obtain rfl | hy := List.mem_cons.1 hy
  · exact le_refl _
  · exact le_of_lt ((List.pairwise_cons.1 ordered).1 y hy)

/-- An insertion behind `begin()` leaves it in place. -/
theorem first_insert_of_lt {x y : α} (hy : s.first = some y) (h : key y < key x) : (s.insert x).first = some y := by
  obtain ⟨l, hl⟩ := List.head?_eq_some_iff.1 hy
  simp [first, insert, hl, insertList, h, not_lt_of_gt h]

theorem first_mem {x : α} (hx : s.first = some x) : x ∈ s.elems := List.mem_of_mem_head? hx

/-- The first element of an ordered list that is not below the cut ends the elements that are. -/
theorem takeWhile_eq_filter {cut : κ} {l : List α} (h : l.Pairwise (key · < key ·)) :
    l.takeWhile (key · < cut) = l.filter (key · < cut) ∧ l.dropWhile (key · < cut) = l.filter (cut ≤ key ·) := by
  induction l with
  | nil => exact ⟨rfl, rfl⟩
  | cons x l ih =>
    obtain ⟨hx, hl⟩ := List.pairwise_cons.1 h
    by_cases hc : key x < cut
    · simp [hc, ih hl]
    · have above : ∀ y ∈ l, cut ≤ key y := fun y hy => (not_lt.1 hc).trans (le_of_lt (hx y hy))
      have none_below : l.filter (key · < cut) = [] := List.filter_eq_nil_iff.2 fun y hy => by simpa using above y hy
      have all_above : l.filter (cut ≤ key ·) = l := List.filter_eq_self.2 fun y hy => by simpa using above y hy
      simp [hc, none_below, all_above, not_lt.1 hc]

theorem below_eq (cut : κ) : s.below cut = s.elems.filter (key · < cut) := (takeWhile_eq_filter s.ordered).1

theorem above_eq (cut : κ) : (s.above cut).elems = s.elems.filter (cut ≤ key ·) := (takeWhile_eq_filter s.ordered).2

end OrdSet

end Exec
