import Mathlib

/-!
# A shared maximum

Finitely many participants hold a value each, and one of the values is on record, or none is. A participant
may *push* a value above the record onto it, and may *pull* the record over a value that is not above it.
Neither changes the largest value around (`peak`). A push takes its participant out of those that are
`ahead` of the record, and nothing brings anybody back.
-/

namespace Peak

variable {ι α : Type*} [Fintype ι] [LinearOrder α] {r : WithBot α} {v : ι → α} {i : ι} {a : α}

/-- The participants with a value above the record. -/
def ahead (r : WithBot α) (v : ι → α) : Finset ι := Finset.univ.filter fun i => r < v i

/-- The largest of the record and all values. -/
def peak (r : WithBot α) (v : ι → α) : WithBot α := r ⊔ Finset.univ.sup fun i => (v i : WithBot α)

theorem mem_ahead : i ∈ ahead r v ↔ r < v i := by simp [ahead]

theorem le_peak (r : WithBot α) (v : ι → α) (i : ι) : (v i : WithBot α) ≤ peak r v :=
  le_sup_of_le_right (Finset.le_sup (f := fun i => (v i : WithBot α)) (Finset.mem_univ i))

theorem peak_le_iff {b : WithBot α} : peak r v ≤ b ↔ r ≤ b ∧ ∀ i, (v i : WithBot α) ≤ b := by
  simp [peak]

/-- A record that nobody is ahead of is the largest value. -/
theorem peak_eq_of_forall (h : ∀ i, i ∉ ahead r v) : peak r v = r :=
  le_antisymm (peak_le_iff.mpr ⟨le_rfl, fun i => not_lt.mp (mt mem_ahead.mpr (h i))⟩) le_sup_left

theorem peak_push (h : r < v i) : peak (v i) v = peak r v := by
  apply le_antisymm
  · exact peak_le_iff.mpr ⟨le_peak r v i, le_peak r v⟩
  · exact peak_le_iff.mpr ⟨h.le.trans le_sup_left, le_peak _ v⟩

theorem ahead_push (h : r < v i) : ahead (v i) v ⊂ ahead r v := by
  refine Finset.ssubset_iff_subset_ne.mpr ⟨fun j hj => mem_ahead.mpr (h.trans (mem_ahead.mp hj)), fun heq => ?_⟩
  have hi : i ∈ ahead (v i : WithBot α) v := heq ▸ mem_ahead.mpr h
  exact lt_irrefl _ (mem_ahead.mp hi)

section Pull

variable [DecidableEq ι]

theorem peak_pull (h : v i ≤ a) : peak (a : WithBot α) (Function.update v i a) = peak a v := by
  apply le_antisymm
  · refine peak_le_iff.mpr ⟨le_sup_left, fun j => ?_⟩
    by_cases hj : j = i
    · rw [hj, Function.update_self]
      exact le_sup_left
    · rw [Function.update_of_ne hj]
      exact le_peak _ v j
  · refine peak_le_iff.mpr ⟨le_sup_left, fun j => ?_⟩
    by_cases hj : j = i
    · rw [hj]
      exact (WithBot.coe_le_coe.mpr h).trans le_sup_left
    · have hle := le_peak (a : WithBot α) (Function.update v i a) j
      rwa [Function.update_of_ne hj] at hle

theorem ahead_pull : ahead (a : WithBot α) (Function.update v i a) ⊆ ahead a v := by
  intro j hj
  rw [mem_ahead] at hj ⊢
  by_cases hji : j = i
  · rw [hji, Function.update_self] at hj
    exact absurd hj (lt_irrefl _)
  · rwa [Function.update_of_ne hji] at hj

end Pull

end Peak
