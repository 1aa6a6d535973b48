import Tetron.Lib.TumblingWindow

/-!
# Quieting repeated log lines

A loop that reports path changes, or reconnect attempts, keeps the start of a window and a count, and asks a
decision function whether the next event is logged at `info`. The windows tumble: the next one starts with the
first event after the last one is over. So within any interval of `n` window lengths, which may straddle windows,
up to `(n + 1) * threshold` events are logged (`info_logs_le`).

Instants and durations are in nanoseconds.
-/

namespace Tetron.Daemon.LogDecision

/-- The decision: whether to log at `info`, the window's start and its count after the event. -/
def logDecision (now windowStart count threshold window : ℕ) : Bool × ℕ × ℕ :=
  -- `duration_since` saturates at zero
  if now - windowStart ≥ window then (true, now, 1)
  else
    let newCount := (count + 1) % 2 ^ 32
    (decide (newCount ≤ threshold), windowStart, newCount)

/-- `path_flap_decision` of `forward.rs`. -/
def pathFlapDecision (now windowStart count threshold window : ℕ) : Bool × ℕ × ℕ :=
  logDecision now windowStart count threshold window

/-- `reconnect_log_decision` of `join.rs`. -/
def reconnectLogDecision (now windowStart count threshold window : ℕ) : Bool × ℕ × ℕ :=
  logDecision now windowStart count threshold window

section Loop

variable (decision : ℕ → ℕ → ℕ → ℕ → ℕ → Bool × ℕ × ℕ) (threshold window : ℕ)

/-- The times of the events that a loop logs at `info`, from its window start and count on. -/
def infoTimes : ℕ → ℕ → List ℕ → List ℕ
  | _, _, [] => []
  | windowStart, count, now :: times =>
    let next := decision now windowStart count threshold window
    if next.1 then now :: infoTimes next.2.1 next.2.2 times else infoTimes next.2.1 next.2.2 times

/-- How many events are logged at `info` from time `a` on and before `b`. -/
def infoIn (a b windowStart count : ℕ) (times : List ℕ) : ℕ :=
  (infoTimes decision threshold window windowStart count times).countP fun t => decide (a ≤ t ∧ t < b)

/-- The count stays below `2 ^ 32`. -/
def CountsFit : ℕ → ℕ → List ℕ → Prop
  | _, _, [] => True
  | windowStart, count, now :: times =>
    let next := decision now windowStart count threshold window
    (now - windowStart < window → count + 1 < 2 ^ 32) ∧ CountsFit next.2.1 next.2.2 times

end Loop

section Refines

variable {threshold window : ℕ}

/-- A count that fits makes the decision a step of a tumbling window. -/
theorem logDecision_eq_step {now windowStart count : ℕ} (h : now - windowStart < window → count + 1 < 2 ^ 32) :
    logDecision now windowStart count threshold window =
      let next := TumblingWindow.step threshold window ⟨windowStart, count⟩ now
      (next.1, next.2.start, next.2.count) := by
  rw [logDecision, TumblingWindow.step]
  by_cases hopen : now - windowStart ≥ window
  · rw [if_pos hopen, if_pos hopen]
  · rw [if_neg hopen, if_neg hopen]
    simp only [Nat.mod_eq_of_lt (h (not_le.mp hopen))]

/-- **Refinement**: what is logged at `info` is what tumbling windows admit. -/
theorem infoTimes_eq_admitted {times : List ℕ} {windowStart count : ℕ}
    (h : CountsFit logDecision threshold window windowStart count times) :
    infoTimes logDecision threshold window windowStart count times =
      TumblingWindow.admitted threshold window ⟨windowStart, count⟩ times := by
  induction times generalizing windowStart count with
  | nil => rfl
  | cons now times ih =>
    obtain ⟨hcount, hrest⟩ := h
    rw [logDecision_eq_step hcount] at hrest
    rw [infoTimes, TumblingWindow.admitted, logDecision_eq_step hcount]
    dsimp only at hrest ⊢
    rw [ih hrest]

theorem infoIn_le (hthreshold : 1 ≤ threshold) (hwindow : 0 < window) {times : List ℕ}
    (hsorted : times.Pairwise (· ≤ ·)) {windowStart count : ℕ}
    (hcounts : CountsFit logDecision threshold window windowStart count times) (a n : ℕ) :
    infoIn logDecision threshold window a (a + n * window) windowStart count times ≤ (n + 1) * threshold := by
  rw [infoIn, infoTimes_eq_admitted hcounts]
  exact TumblingWindow.admittedIn_interval_le hthreshold hwindow hsorted _ a n

end Refines

/-- **Bounded logs**: for events in order of time, from the first event's time and count zero on, each of the
two decisions lets at most `(n + 1) * threshold` events be logged at `info` within a half-open interval of `n`
window lengths. -/
theorem info_logs_le {threshold window : ℕ} (hthreshold : 1 ≤ threshold) (hwindow : 0 < window) {first : ℕ}
    {times : List ℕ} (hsorted : (first :: times).Pairwise (· ≤ ·)) (a n : ℕ) :
    (CountsFit pathFlapDecision threshold window first 0 (first :: times) →
      infoIn pathFlapDecision threshold window a (a + n * window) first 0 (first :: times) ≤ (n + 1) * threshold) ∧
    (CountsFit reconnectLogDecision threshold window first 0 (first :: times) →
      infoIn reconnectLogDecision threshold window a (a + n * window) first 0 (first :: times) ≤
        (n + 1) * threshold) :=
  ⟨fun hcounts => infoIn_le hthreshold hwindow hsorted hcounts a n,
    fun hcounts => infoIn_le hthreshold hwindow hsorted hcounts a n⟩

/-- An interval of one window length that straddles two windows, with all of its events logged. -/
theorem info_logs_le_straddling :
    infoIn pathFlapDecision 2 60 50 (50 + 1 * 60) 0 0 [0, 55, 60, 61, 62] = 3 ∧
      infoIn pathFlapDecision 2 60 50 (50 + 1 * 60) 0 0 [0, 55, 60, 61, 62] ≤ (1 + 1) * 2 :=
  ⟨by decide,
    (info_logs_le (by decide) (by decide) (by decide) 50 1).1 (by simp [CountsFit, pathFlapDecision, logDecision])⟩

end Tetron.Daemon.LogDecision
