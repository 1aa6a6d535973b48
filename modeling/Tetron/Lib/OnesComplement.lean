import Mathlib.Data.Nat.ModEq
import Mathlib.Algebra.BigOperators.Group.List.Basic

/-!
# One's complement sums

Addition of words with end-around carry: the carry out of the top is added at the bottom. Words are numbers up to
`top`, so the sum counts modulo `top`, with `top` itself for a sum that is not zero but vanishes modulo `top`.
-/

namespace OnesComplement

variable {top : ℕ}

/-- Addition with end-around carry of words up to `top`. -/
def add (top a b : ℕ) : ℕ := (a + b) % (top + 1) + (a + b) / (top + 1)

def sum (top : ℕ) (words : List ℕ) : ℕ := words.foldl (add top) 0

theorem carry_modEq (n : ℕ) : n % (top + 1) + n / (top + 1) ≡ n [MOD top] := by
  have hsplit : n % (top + 1) + n / (top + 1) + top * (n / (top + 1)) = n := by
    have hdiv := Nat.mod_add_div n (top + 1)
    rw [Nat.add_mul, Nat.one_mul] at hdiv
    omega
  have hmod : n % (top + 1) + n / (top + 1) ≡ n % (top + 1) + n / (top + 1) + top * (n / (top + 1)) [MOD top] := by
    rw [Nat.ModEq, Nat.add_mul_mod_self_left]
  rwa [hsplit] at hmod

theorem carry_eq_zero_iff (n : ℕ) : n % (top + 1) + n / (top + 1) = 0 ↔ n = 0 := by
  constructor
  · intro h
    obtain ⟨hmod, hquot⟩ := Nat.add_eq_zero_iff.mp h
    rw [← Nat.mod_add_div n (top + 1), hmod, hquot, Nat.mul_zero]
  · rintro rfl
    simp

theorem add_le {a b : ℕ} (ha : a ≤ top) (hb : b ≤ top) : add top a b ≤ top := by
  rw [add]
  by_cases h : a + b ≤ top
  · rw [Nat.mod_eq_of_lt (by omega), Nat.div_eq_of_lt (by omega)]
    omega
  · have hquot : (a + b) / (top + 1) = 1 := by
      rw [Nat.div_eq_iff (by omega)]
      omega
    have hdiv := Nat.mod_add_div (a + b) (top + 1)
    rw [hquot] at hdiv ⊢
    omega

/-- The sum is taken modulo `top`, and is zero only for words that all are. -/
theorem foldl_add_spec (top : ℕ) (words : List ℕ) (acc : ℕ) :
    words.foldl (add top) acc ≡ acc + words.sum [MOD top] ∧
      (words.foldl (add top) acc = 0 ↔ acc + words.sum = 0) := by
  induction words generalizing acc with
  | nil => exact ⟨Nat.ModEq.refl _, Iff.rfl⟩
  | cons word words ih =>
    obtain ⟨hmod, hzero⟩ := ih (add top acc word)
    have hadd : add top acc word ≡ acc + word [MOD top] := carry_modEq _
    have haddZero : add top acc word = 0 ↔ acc + word = 0 := carry_eq_zero_iff _
    rw [List.foldl_cons, List.sum_cons, ← Nat.add_assoc]
    refine ⟨hmod.trans (hadd.add_right _), hzero.trans ?_⟩
    omega

theorem foldl_add_le {words : List ℕ} (hwords : ∀ word ∈ words, word ≤ top) {acc : ℕ} (hacc : acc ≤ top) :
    words.foldl (add top) acc ≤ top := by
  induction words generalizing acc with
  | nil => exact hacc
  | cons word words ih =>
    rw [List.forall_mem_cons] at hwords
    exact ih hwords.2 (add_le hacc hwords.1)

/-- Words sum up to all ones exactly if their plain sum is a multiple of `top` other than zero. -/
theorem sum_eq_top_iff (htop : 0 < top) {words : List ℕ} (hwords : ∀ word ∈ words, word ≤ top) :
    sum top words = top ↔ words.sum ≠ 0 ∧ top ∣ words.sum := by
  have hle : sum top words ≤ top := foldl_add_le hwords (Nat.zero_le _)
  obtain ⟨hmod, hzero⟩ := foldl_add_spec top words 0
  rw [Nat.zero_add] at hmod hzero
  change sum top words ≡ _ [MOD top] at hmod
  change sum top words = 0 ↔ _ at hzero
  constructor
  · intro h
    rw [h] at hmod hzero
    refine ⟨fun hsum => htop.ne' (hzero.mpr hsum), ?_⟩
    exact (Nat.modEq_zero_iff_dvd).mp (hmod.symm.trans ((Nat.modEq_zero_iff_dvd).mpr dvd_rfl))
  · rintro ⟨hne, hdvd⟩
    have hdvd' : top ∣ sum top words :=
      (Nat.modEq_zero_iff_dvd).mp (hmod.trans ((Nat.modEq_zero_iff_dvd).mpr hdvd))
    have hpos : 0 < sum top words := Nat.pos_of_ne_zero fun h => hne (hzero.mp h)
    exact le_antisymm hle (Nat.le_of_dvd hpos hdvd')

end OnesComplement
