import Mathlib

/-!
How many threads stand at a kind of place, for any number of threads. One
thread's move changes a count by at most one, and the laws below say by how much.
Counts are extended naturals, so no finiteness has to be carried along.
Nothing here names a program.
-/
namespace JvmTrace.Headcounts

variable {T P : Type*}

/-- The number of threads whose place satisfies the predicate. -/
noncomputable def headcount (here : P → Prop) (pc : T → P) : ℕ∞ :=
  {t | here (pc t)}.encard

theorem headcount_pos (here : P → Prop) (pc : T → P) :
    0 < headcount here pc ↔ ∃ t, here (pc t) :=
  Set.encard_pos

theorem headcount_eq_zero (here : P → Prop) (pc : T → P) (h : ∀ t, ¬ here (pc t)) :
    headcount here pc = 0 := by
  unfold headcount
  rw [Set.encard_eq_zero]
  ext t
  simpa using h t

variable [DecidableEq T]

theorem headcount_update_same (here : P → Prop) (pc : T → P) (t : T) (p : P)
    (h : here p ↔ here (pc t)) :
    headcount here (Function.update pc t p) = headcount here pc := by
  unfold headcount
  congr 1
  ext u
  by_cases hut : u = t
  · subst u
    simpa using h
  · simp [hut]

theorem headcount_update_enter (here : P → Prop) (pc : T → P) (t : T) (p : P)
    (hp : here p) (ht : ¬ here (pc t)) :
    headcount here (Function.update pc t p) = headcount here pc + 1 := by
  unfold headcount
  have hmem : t ∉ {u | here (pc u)} := ht
  rw [← Set.encard_insert_of_notMem hmem]
  congr 1
  ext u
  by_cases hut : u = t
  · subst u
    simpa using hp
  · simp [hut]

theorem headcount_update_leave (here : P → Prop) (pc : T → P) (t : T) (p : P)
    (hp : ¬ here p) (ht : here (pc t)) :
    headcount here (Function.update pc t p) + 1 = headcount here pc := by
  have hback := headcount_update_enter here (Function.update pc t p) t (pc t) ht (by simpa using hp)
  simpa using hback.symm

/-- One for a place that is counted. -/
def counts (here : P → Prop) [DecidablePred here] (p : P) : ℕ := if here p then 1 else 0

/-- One move, with what it takes away and what it brings. -/
theorem headcount_update (here : P → Prop) [DecidablePred here] (pc : T → P) (t : T) (p : P) :
    headcount here (Function.update pc t p) + counts here (pc t) =
      headcount here pc + counts here p := by
  unfold counts
  by_cases hp : here p
  · by_cases ht : here (pc t)
    · rw [if_pos hp, if_pos ht, headcount_update_same here pc t p (by simp [hp, ht])]
    · rw [if_pos hp, if_neg ht, headcount_update_enter here pc t p hp ht]
      simp
  · by_cases ht : here (pc t)
    · rw [if_neg hp, if_pos ht, Nat.cast_one, headcount_update_leave here pc t p hp ht]
      simp
    · rw [if_neg hp, if_neg ht, headcount_update_same here pc t p (by simp [hp, ht])]

/-- The summands of a number are numbers. -/
theorem exists_nat_of_add_eq (x y : ℕ∞) (n : ℕ) (h : x + y = n) : ∃ i j : ℕ, x = i ∧ y = j := by
  have hfinite : x + y ≠ ⊤ := by
    rw [h]
    exact ENat.natCast_ne_top n
  obtain ⟨hx, hy⟩ := WithTop.add_ne_top.1 hfinite
  obtain ⟨i, hi⟩ := ENat.ne_top_iff_exists.1 hx
  obtain ⟨j, hj⟩ := ENat.ne_top_iff_exists.1 hy
  exact ⟨i, j, hi.symm, hj.symm⟩

/-- A move that does not leave the places counted. -/
theorem headcount_le_update (here : P → Prop) (pc : T → P) (t : T) (p : P)
    (h : here (pc t) → here p) :
    headcount here pc ≤ headcount here (Function.update pc t p) := by
  by_cases hp : here p
  · by_cases ht : here (pc t)
    · rw [headcount_update_same here pc t p (by simp [hp, ht])]
    · rw [headcount_update_enter here pc t p hp ht]
      exact le_self_add
  · have ht : ¬ here (pc t) := fun ht => hp (h ht)
    rw [headcount_update_same here pc t p (by simp [hp, ht])]

/-- A move that does not enter the places counted. -/
theorem headcount_update_le (here : P → Prop) (pc : T → P) (t : T) (p : P)
    (h : here p → here (pc t)) :
    headcount here (Function.update pc t p) ≤ headcount here pc := by
  have hback := headcount_le_update here (Function.update pc t p) t (pc t) (by simpa using h)
  simpa using hback

end JvmTrace.Headcounts
