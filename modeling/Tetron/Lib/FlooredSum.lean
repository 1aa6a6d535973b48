import Mathlib

/-!
# Sums that do not fall below zero

A running sum that is put back to zero whenever it falls below it is the largest sum of the last terms, over all
the numbers of last terms one may take.
-/

namespace FlooredSum

variable {G : Type*} [AddCommGroup G] [LinearOrder G]

def floored (l : List G) : G := l.foldl (fun s d => max 0 (s + d)) 0

@[simp]
theorem floored_nil : floored ([] : List G) = 0 := rfl

theorem floored_concat (l : List G) (d : G) : floored (l ++ [d]) = max 0 (floored l + d) := by
  rw [floored, floored, List.foldl_append]
  rfl

/-- A bound is reached by the floored sum exactly if some last terms sum up to it. -/
theorem le_floored_iff [IsOrderedAddMonoid G] {l : List G} {c : G} :
    c ≤ floored l ↔ ∃ last, last <:+ l ∧ c ≤ last.sum := by
  induction l using List.reverseRecOn generalizing c with
  | nil => simp
  | append_singleton l d ih =>
    rw [floored_concat, le_max_iff, ← sub_le_iff_le_add, ih]
    constructor
    · rintro (hzero | ⟨last, hlast, hsum⟩)
      · exact ⟨[], List.nil_suffix, by simpa using hzero⟩
      · refine ⟨last ++ [d], List.suffix_concat_iff.mpr (.inr ⟨last, rfl, hlast⟩), ?_⟩
        rwa [List.sum_append, List.sum_singleton, ← sub_le_iff_le_add]
    · rintro ⟨last, hlast, hsum⟩
      rcases List.suffix_concat_iff.mp hlast with rfl | ⟨before, rfl, hbefore⟩
      · exact .inl (by simpa using hsum)
      · rw [List.sum_append, List.sum_singleton, ← sub_le_iff_le_add] at hsum
        exact .inr ⟨before, hbefore, hsum⟩

end FlooredSum
