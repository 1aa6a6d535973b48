import Mathlib.Data.List.Basic
import Mathlib.Algebra.Order.Group.Nat
import Mathlib.Order.Lattice

/-!
# Tumbling windows

Events are admitted up to a limit per window. A window opens with the first event that comes a window length or
more after the last one opened, so an interval may straddle windows. Within any half-open interval of `n` window
lengths at most `n` windows open, and one may be open already (`admittedIn_interval_le`).
-/

namespace TumblingWindow

/-- When the current window opened, and how many events it has seen. -/
structure Window where
  start : ℕ
  count : ℕ

variable (limit length : ℕ)

/-- Whether the event is admitted, and the window after it. -/
def step (w : Window) (now : ℕ) : Bool × Window :=
  if length ≤ now - w.start then (true, ⟨now, 1⟩) else (decide (w.count + 1 ≤ limit), ⟨w.start, w.count + 1⟩)

/-- The times of the events that are admitted. -/
def admitted : Window → List ℕ → List ℕ
  | _, [] => []
  | w, now :: times =>
    if (step limit length w now).1 then now :: admitted (step limit length w now).2 times
    else admitted (step limit length w now).2 times

/-- How many events are admitted from time `a` on and before `b`. -/
def admittedIn (a b : ℕ) (w : Window) (times : List ℕ) : ℕ :=
  (admitted limit length w times).countP fun t => decide (a ≤ t ∧ t < b)

variable {limit length}

theorem admittedIn_cons (a b : ℕ) (w : Window) (now : ℕ) (times : List ℕ) :
    admittedIn limit length a b w (now :: times) =
      admittedIn limit length a b (step limit length w now).2 times +
        if (step limit length w now).1 = true ∧ a ≤ now ∧ now < b then 1 else 0 := by
  rw [admittedIn, admitted]
  by_cases hstep : (step limit length w now).1 = true
  · rw [if_pos hstep, List.countP_cons]
    simp only [hstep, true_and, decide_eq_true_eq]
    rfl
  · rw [if_neg hstep, if_neg fun h => hstep h.1]
    rfl

theorem mem_of_mem_admitted {w : Window} {times : List ℕ} {t : ℕ} (h : t ∈ admitted limit length w times) :
    t ∈ times := by
  induction times generalizing w with
  | nil => exact h
  | cons now times ih =>
    rw [admitted] at h
    split at h
    · rcases List.mem_cons.mp h with rfl | h
      · exact List.mem_cons_self
      · exact List.mem_cons_of_mem _ (ih h)
    · exact List.mem_cons_of_mem _ (ih h)

/-- Nothing is admitted before `b` once the time is past it. -/
theorem admittedIn_eq_zero {a b : ℕ} {times : List ℕ} (h : ∀ t ∈ times, b ≤ t) (w : Window) :
    admittedIn limit length a b w times = 0 := by
  rw [admittedIn, List.countP_eq_zero]
  intro t ht hin
  have hle := h t (mem_of_mem_admitted ht)
  simp only [decide_eq_true_eq] at hin
  omega

/-- How many windows can open from time `a` on and before `b`. -/
def openings (length a b : ℕ) : ℕ := (b - a + length - 1) / length

theorem openings_anti {c d b : ℕ} (h : c ≤ d) : openings length d b ≤ openings length c b :=
  Nat.div_le_div_right (by omega)

theorem openings_succ (hlength : 0 < length) {t b : ℕ} (h : t < b) :
    openings length (t + length) b + 1 = openings length t b := by
  rw [openings, openings]
  by_cases hlast : b ≤ t + length
  · have hnone : (b - (t + length) + length - 1) / length = 0 := Nat.div_eq_of_lt (by omega)
    have hone : (b - t + length - 1) / length = 1 := Nat.div_eq_of_lt_le (by omega) (by omega)
    rw [hnone, hone]
  · rw [← Nat.add_div_right _ hlength]
    congr 1
    omega

theorem openings_interval (hlength : 0 < length) (a n : ℕ) : openings length a (a + n * length) = n := by
  rw [openings]
  refine Nat.div_eq_of_lt_le ?_ ?_
  · omega
  · rw [Nat.succ_mul]
    omega

/-- The events admitted before `b` once time `a` is reached: what is left of the current window, and a full limit
for every window that can still open. -/
theorem admittedIn_le_of_ge (hlimit : 1 ≤ limit) (hlength : 0 < length) {a b : ℕ} {times : List ℕ}
    (hsorted : times.Pairwise (· ≤ ·)) (hge : ∀ t ∈ times, a ≤ t) (w : Window) :
    admittedIn limit length a b w times ≤
      (limit - w.count) + limit * openings length (max a (w.start + length)) b := by
  induction times generalizing w with
  | nil => exact Nat.zero_le _
  | cons now times ih =>
    obtain ⟨hfirst, hsorted⟩ := List.pairwise_cons.mp hsorted
    obtain ⟨hnow, hge⟩ := List.forall_mem_cons.mp hge
    have ih := ih hsorted hge
    rw [admittedIn_cons, step]
    by_cases hopen : length ≤ now - w.start
    · rw [if_pos hopen]
      have hrest := ih ⟨now, 1⟩
      by_cases hbefore : now < b
      · -- the window that opens is one of those counted
        have hmax : max a (now + length) = now + length := max_eq_right (by omega)
        have hone := openings_succ hlength hbefore
        have hanti : openings length now b ≤ openings length (max a (w.start + length)) b :=
          openings_anti (max_le hnow (by omega))
        rw [hmax] at hrest
        simp only [true_and, if_pos (⟨hnow, hbefore⟩ : a ≤ now ∧ now < b)]
        calc _ ≤ limit - 1 + limit * openings length (now + length) b + 1 := Nat.add_le_add_right hrest 1
          _ = limit * openings length now b := by
              rw [← hone, Nat.mul_add, Nat.mul_one]
              omega
          _ ≤ limit * openings length (max a (w.start + length)) b := Nat.mul_le_mul_left _ hanti
          _ ≤ _ := Nat.le_add_left _ _
      · have hpast : ∀ t ∈ times, b ≤ t := fun t ht => (not_lt.mp hbefore).trans (hfirst t ht)
        rw [admittedIn_eq_zero hpast, if_neg fun h => hbefore h.2.2]
        exact Nat.zero_le _
    · rw [if_neg hopen]
      have hrest := ih ⟨w.start, w.count + 1⟩
      dsimp only at hrest ⊢
      split
      · rename_i hadmitted
        have hroom := of_decide_eq_true hadmitted.1
        omega
      · omega

/-- **Sliding bound**: however the windows lie, at most `(n + 1) * limit` events are admitted within a half-open
interval of `n` window lengths. -/
theorem admittedIn_interval_le (hlimit : 1 ≤ limit) (hlength : 0 < length) {times : List ℕ}
    (hsorted : times.Pairwise (· ≤ ·)) (w : Window) (a n : ℕ) :
    admittedIn limit length a (a + n * length) w times ≤ (n + 1) * limit := by
  induction times generalizing w with
  | nil => exact Nat.zero_le _
  | cons now times ih =>
    by_cases hnow : a ≤ now
    · have hge : ∀ t ∈ now :: times, a ≤ t :=
        List.forall_mem_cons.mpr ⟨hnow, fun t ht => hnow.trans ((List.pairwise_cons.mp hsorted).1 t ht)⟩
      have hanti : openings length (max a (w.start + length)) (a + n * length) ≤ n := by
        calc _ ≤ openings length a (a + n * length) := openings_anti (le_max_left _ _)
          _ = n := openings_interval hlength a n
      calc _ ≤ _ := admittedIn_le_of_ge hlimit hlength hsorted hge w
        _ ≤ limit + limit * n := Nat.add_le_add (Nat.sub_le _ _) (Nat.mul_le_mul_left _ hanti)
        _ = (n + 1) * limit := by rw [Nat.add_mul, Nat.one_mul, Nat.mul_comm, Nat.add_comm]
    · -- before the interval nothing counts, whatever the windows do
      rw [admittedIn_cons, if_neg fun h => hnow h.2.1]
      exact ih (List.pairwise_cons.mp hsorted).2 _

end TumblingWindow
