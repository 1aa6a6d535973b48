import Mathlib

/-!
# Digit strings in another base

A string of digits, most significant first, is rewritten in another base. Leading zeros do not count for the
number it stands for, so they are carried over one by one (`Radix.convert`); rewriting back then gives the
string one started from (`convert_convert`). Towards a smaller base the result is longer, and no longer than
the powers of the two bases allow (`length_convert_le`).
-/

namespace Radix

variable {b c : ℕ} {ds : List ℕ}

def leadingZeros (ds : List ℕ) : ℕ := (ds.takeWhile (· == 0)).length

def value (b : ℕ) (ds : List ℕ) : ℕ := Nat.ofDigits b ds.reverse

/-- The digits of the same number in base `c`, behind as many zeros as there were. -/
def convert (b c : ℕ) (ds : List ℕ) : List ℕ :=
  List.replicate (leadingZeros ds) 0 ++ (Nat.digits c (value b ds)).reverse

/-- Zeros and then digits that do not start with one. -/
theorem eq_zeros_append (ds : List ℕ) :
    ∃ rest, ds = List.replicate (leadingZeros ds) 0 ++ rest ∧ rest.head? ≠ some 0 := by
  refine ⟨ds.dropWhile (· == 0), ?_, fun hhead => ?_⟩
  · have hzeros : ds.takeWhile (· == 0) = List.replicate (leadingZeros ds) 0 :=
      List.eq_replicate_iff.mpr ⟨rfl, fun d hd => by simpa using List.mem_takeWhile_imp hd⟩
    rw [← hzeros, List.takeWhile_append_dropWhile]
  · have hnot := List.head?_dropWhile_not (· == 0) ds
    rw [hhead] at hnot
    exact absurd hnot (by decide)

theorem leadingZeros_append {n : ℕ} {rest : List ℕ} (h : rest.head? ≠ some 0) :
    leadingZeros (List.replicate n 0 ++ rest) = n := by
  have hrest : rest.takeWhile (· == 0) = [] := by
    cases rest with
    | nil => rfl
    | cons d rest => exact List.takeWhile_cons_of_neg (by simpa using h)
  rw [leadingZeros, List.takeWhile_append_of_pos (by simp), hrest]
  simp

theorem value_append_zeros (b n : ℕ) (rest : List ℕ) : value b (List.replicate n 0 ++ rest) = value b rest := by
  rw [value, List.reverse_append, List.reverse_replicate, Nat.ofDigits_append_replicate_zero, value]

theorem head?_reverse_digits (c n : ℕ) : (Nat.digits c n).reverse.head? ≠ some 0 := by
  rw [List.head?_reverse]
  intro hlast
  have hne : Nat.digits c n ≠ [] := by
    intro hnil
    rw [hnil] at hlast
    cases hlast
  rw [List.getLast?_eq_some_getLast hne] at hlast
  exact Nat.getLast_digit_ne_zero c (Nat.digits_ne_nil_iff_ne_zero.mp hne) (Option.some.inj hlast)

/-- The digits of a number are those it was made of, if they do not start with a zero. -/
theorem digits_value (hb : 1 < b) (hds : ∀ d ∈ ds, d < b) (hhead : ds.head? ≠ some 0) :
    (Nat.digits b (value b ds)).reverse = ds := by
  rw [value, Nat.digits_ofDigits b hb, List.reverse_reverse]
  · exact fun d hd => hds d (List.mem_reverse.mp hd)
  · intro hne hzero
    have hlast : ds.reverse.getLast? = some 0 := by rw [List.getLast?_eq_some_getLast hne, hzero]
    rw [List.getLast?_reverse] at hlast
    exact hhead hlast

theorem value_lt (hb : 1 < b) (hds : ∀ d ∈ ds, d < b) : value b ds < b ^ ds.length := by
  have hlt := Nat.ofDigits_lt_base_pow_length (l := ds.reverse) hb fun d hd => hds d (List.mem_reverse.mp hd)
  rwa [List.length_reverse] at hlt

/-- **Rewriting back** gives the digits one started from. -/
theorem convert_convert (hb : 1 < b) (hds : ∀ d ∈ ds, d < b) : convert c b (convert b c ds) = ds := by
  have hzeros : leadingZeros (convert b c ds) = leadingZeros ds := leadingZeros_append (head?_reverse_digits _ _)
  have hvalue : value c (convert b c ds) = value b ds := by
    rw [convert, value_append_zeros, value, List.reverse_reverse, Nat.ofDigits_digits]
  obtain ⟨rest, heq, hhead⟩ := eq_zeros_append ds
  have hrest : value b ds = value b rest := by
    conv_lhs => rw [heq]
    exact value_append_zeros ..
  rw [convert, hzeros, hvalue, hrest, digits_value hb (fun d hd => hds d ?_) hhead]
  · exact heq.symm
  · rw [heq]
    exact List.mem_append_right _ hd

theorem convert_lt (hc : 1 < c) {d : ℕ} (hd : d ∈ convert b c ds) : d < c := by
  rcases List.mem_append.mp hd with hzero | hdigit
  · rw [List.eq_of_mem_replicate hzero]
    omega
  · exact Nat.digits_lt_base hc (List.mem_reverse.mp hdigit)

/-- Fewer digits need fewer digits: what `n` digits in base `b` need in base `c` leaves room for zeros. -/
theorem pow_sub_le_pow_sub {n m z : ℕ} (hc : 0 < c) (hcb : c ≤ b) (hzn : z ≤ n) (hzm : z ≤ m) (h : b ^ n ≤ c ^ m) :
    b ^ (n - z) ≤ c ^ (m - z) := by
  refine Nat.le_of_mul_le_mul_right ?_ (pow_pos hc z)
  calc b ^ (n - z) * c ^ z ≤ b ^ (n - z) * b ^ z := Nat.mul_le_mul_left _ (Nat.pow_le_pow_left hcb z)
    _ = b ^ n := by rw [← pow_add, Nat.sub_add_cancel hzn]
    _ ≤ c ^ m := h
    _ = c ^ (m - z) * c ^ z := by rw [← pow_add, Nat.sub_add_cancel hzm]

/-- **How long** a string becomes in a smaller base. -/
theorem length_convert_le {m : ℕ} (hc : 1 < c) (hcb : c ≤ b) (hds : ∀ d ∈ ds, d < b) (h : b ^ ds.length ≤ c ^ m) :
    (convert b c ds).length ≤ m := by
  have hb : 1 < b := hc.trans_le hcb
  obtain ⟨rest, heq, -⟩ := eq_zeros_append ds
  have hlen : ds.length = leadingZeros ds + rest.length := by
    conv_lhs => rw [heq]
    rw [List.length_append, List.length_replicate]
  have hnm : ds.length ≤ m := by
    have hle : b ^ ds.length ≤ b ^ m := h.trans (Nat.pow_le_pow_left hcb m)
    exact (Nat.pow_le_pow_iff_right hb).mp hle
  have hvalue : value b ds < c ^ (m - leadingZeros ds) := by
    calc value b ds = value b rest := by conv_lhs => rw [heq, value_append_zeros]
      _ < b ^ rest.length := value_lt hb fun d hd => hds d (heq ▸ List.mem_append_right _ hd)
      _ = b ^ (ds.length - leadingZeros ds) := by rw [hlen, Nat.add_sub_cancel_left]
      _ ≤ c ^ (m - leadingZeros ds) := pow_sub_le_pow_sub (by omega) hcb (by omega) (by omega) h
  have hdigits : (Nat.digits c (value b ds)).length ≤ m - leadingZeros ds :=
    (Nat.digits_length_le_iff hc _).mpr hvalue
  rw [convert, List.length_append, List.length_replicate, List.length_reverse]
  omega

end Radix
