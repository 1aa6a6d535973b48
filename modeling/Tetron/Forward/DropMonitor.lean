import Mathlib.Data.List.Chain
import Tetron.Forward.RunMesh
import Tetron.Lib.Run

/-!
# The drop-rate monitor

`record_drop` counts a dropped packet twice, in the metrics and then in the monitor's bucket of its reason, from any
number of tasks at once. The monitor's own task wakes up once a window, reads the system clock, and empties one bucket
after the other while packets go on being dropped. It warns if the bucket held at least `threshold` drops and its last
warning for the reason is `cooldown` seconds old by that clock, which may jump.

`monitor_accounts` holds for every interleaving: each drop falls into exactly one window of its reason, a window is
warned about exactly if it is over the threshold and the cooldown has passed, and two warnings for one reason are
never closer than the cooldown.
-/

namespace Tetron.Forward.Mesh

/-- The reasons in the order of `reason_index`. -/
def DropReason.all : List DropReason :=
  [.sendFailure, .noPeer, .malformed, .backpressure, .spoof, .fragmentationFailed]

namespace DropMonitor

/-- What one look at a bucket found, and whether it led to a warning. -/
structure Visit where
  reason : DropReason
  count : ℕ
  now : ℕ
  warned : Bool
deriving DecidableEq

structure Monitor where
  buckets : DropReason → ℕ
  lastWarned : DropReason → ℕ
  /-- A check at work: its reading of the clock and the reasons still to visit. -/
  check : Option (ℕ × List DropReason)
  /-- `ForwardMetrics::drops`. -/
  drops : DropReason → ℕ
  /-- Calls of `record_drop` between the two counters. -/
  between : DropReason → ℕ
  /-- For the record, the last visit first. -/
  visits : List Visit

def Monitor.new : Monitor := ⟨fun _ => 0, fun _ => 0, none, fun _ => 0, fun _ => 0, []⟩

inductive Event where
  /-- `record_drop` counts the drop in the metrics, and then in the bucket. -/
  | count (reason : DropReason)
  | bucket (reason : DropReason)
  /-- `check_and_warn` starts with this reading of the clock. -/
  | wake (now : ℕ)
  | visit
  | sleep
deriving DecidableEq

namespace Monitor

/-- Whether a bucket that held `count` is warned about. -/
def warns (threshold cooldownSecs : ℕ) (m : Monitor) (reason : DropReason) (now : ℕ) : Bool :=
  !(m.buckets reason < threshold) && !(now - m.lastWarned reason < cooldownSecs)

/-- One turn of the loop in `check_and_warn`. -/
def visit (threshold cooldownSecs : ℕ) (m : Monitor) (now : ℕ) (reason : DropReason) (rest : List DropReason) :
    Monitor :=
  let warned := m.warns threshold cooldownSecs reason now
  { m with
    buckets := Function.update m.buckets reason 0
    lastWarned := if warned then Function.update m.lastWarned reason now else m.lastWarned
    check := some (now, rest)
    visits := ⟨reason, m.buckets reason, now, warned⟩ :: m.visits }

def next (threshold cooldownSecs : ℕ) (m : Monitor) : Event → Option Monitor
  | .count reason =>
    some { m with
      drops := Function.update m.drops reason (m.drops reason + 1)
      between := Function.update m.between reason (m.between reason + 1) }
  | .bucket reason =>
    if m.between reason = 0 then none
    else some { m with
      between := Function.update m.between reason (m.between reason - 1)
      buckets := Function.update m.buckets reason (m.buckets reason + 1) }
  | .wake now =>
    match m.check with
    | none => if threshold = 0 then some m else some { m with check := some (now, DropReason.all) }
    | some _ => none
  | .visit =>
    match m.check with
    | some (now, reason :: rest) => some (m.visit threshold cooldownSecs now reason rest)
    | _ => none
  | .sleep =>
    match m.check with
    | some (_, []) => some { m with check := none }
    | _ => none

end Monitor

/-! ### What the visits say -/

/-- The drops of a reason that the visits have taken out of its bucket. -/
def taken (visits : List Visit) (reason : DropReason) : ℕ :=
  ((visits.filter fun v => v.reason = reason).map (·.count)).sum

/-- The clock at each warning for a reason, the last first. -/
def warnings (visits : List Visit) (reason : DropReason) : List ℕ :=
  (visits.filter fun v => v.warned && v.reason = reason).map (·.now)

/-- Each visit warned exactly if it found the threshold reached and the last warning before it old enough. -/
def Judged (threshold cooldownSecs : ℕ) : List Visit → Prop
  | [] => True
  | v :: before =>
    (v.warned = true ↔ threshold ≤ v.count ∧ cooldownSecs ≤ v.now - ((warnings before v.reason).head?.getD 0)) ∧
      Judged threshold cooldownSecs before

theorem taken_cons (v : Visit) (visits : List Visit) (reason : DropReason) :
    taken (v :: visits) reason = (if v.reason = reason then v.count else 0) + taken visits reason := by
  unfold taken
  rw [List.filter_cons]
  by_cases h : v.reason = reason
  · simp [h]
  · simp [h]

theorem warnings_cons (v : Visit) (visits : List Visit) (reason : DropReason) :
    warnings (v :: visits) reason =
      if v.warned = true ∧ v.reason = reason then v.now :: warnings visits reason else warnings visits reason := by
  unfold warnings
  rw [List.filter_cons]
  by_cases h : v.warned = true ∧ v.reason = reason
  · simp [h.1, h.2]
  · rw [if_neg h, if_neg (by simpa using h)]

variable {threshold cooldownSecs : ℕ}

/-- Warnings that were judged so are never closer than the cooldown. -/
theorem Judged.isChain_warnings {visits : List Visit} (h : Judged threshold cooldownSecs visits)
    (reason : DropReason) : (warnings visits reason).IsChain fun later earlier => cooldownSecs ≤ later - earlier := by
  induction visits with
  | nil => exact .nil
  | cons v before ih =>
    obtain ⟨hv, hbefore⟩ := h
    rw [warnings_cons]
    split
    · rename_i hwarned
      obtain ⟨hwarned, rfl⟩ := hwarned
      refine List.isChain_cons.mpr ⟨fun earlier hearlier => ?_, ih hbefore⟩
      have hlate := (hv.mp hwarned).2
      rwa [show (warnings before v.reason).head? = some earlier from hearlier, Option.getD_some] at hlate
    · exact ih hbefore

/-! ### The invariant -/

variable {m m' : Monitor} {e : Event}

structure Accounted (threshold cooldownSecs : ℕ) (m : Monitor) : Prop where
  conserved : ∀ reason, m.drops reason = m.between reason + m.buckets reason + taken m.visits reason
  remembered : ∀ reason, m.lastWarned reason = (warnings m.visits reason).head?.getD 0
  judged : Judged threshold cooldownSecs m.visits

theorem Accounted.count (h : Accounted threshold cooldownSecs m) (reason : DropReason) :
    Accounted threshold cooldownSecs
      { m with
        drops := Function.update m.drops reason (m.drops reason + 1)
        between := Function.update m.between reason (m.between reason + 1) } where
  conserved r := by
    have hr := h.conserved r
    by_cases heq : r = reason
    · subst heq
      simp only [Function.update_self]
      omega
    · simp only [Function.update_of_ne heq]
      exact hr
  remembered := h.remembered
  judged := h.judged

theorem Accounted.bucket (h : Accounted threshold cooldownSecs m) {reason : DropReason}
    (hbetween : m.between reason ≠ 0) :
    Accounted threshold cooldownSecs
      { m with
        between := Function.update m.between reason (m.between reason - 1)
        buckets := Function.update m.buckets reason (m.buckets reason + 1) } where
  conserved r := by
    have hr := h.conserved r
    by_cases heq : r = reason
    · subst heq
      simp only [Function.update_self]
      omega
    · simp only [Function.update_of_ne heq]
      exact hr
  remembered := h.remembered
  judged := h.judged

theorem warns_iff (h : Accounted threshold cooldownSecs m) {reason : DropReason} {now : ℕ} :
    m.warns threshold cooldownSecs reason now = true ↔ threshold ≤ m.buckets reason ∧
      cooldownSecs ≤ now - ((warnings m.visits reason).head?.getD 0) := by
  rw [← h.remembered reason, Monitor.warns]
  simp

/-- The bucket a visit empties goes into the record, and so does its warning. -/
theorem Accounted.visit (h : Accounted threshold cooldownSecs m) (now : ℕ) (reason : DropReason)
    (rest : List DropReason) : Accounted threshold cooldownSecs (m.visit threshold cooldownSecs now reason rest) where
  conserved r := by
    have hr := h.conserved r
    simp only [Monitor.visit, taken_cons]
    by_cases heq : r = reason
    · subst heq
      simp only [Function.update_self, if_true]
      omega
    · rw [Function.update_of_ne heq, if_neg (Ne.symm heq)]
      omega
  remembered r := by
    simp only [Monitor.visit, warnings_cons]
    by_cases hwarned : m.warns threshold cooldownSecs reason now = true
    · by_cases heq : r = reason
      · subst heq
        simp [hwarned]
      · rw [if_pos hwarned, if_neg fun hand => heq hand.2.symm, Function.update_of_ne heq]
        exact h.remembered r
    · rw [if_neg hwarned, if_neg fun hand => hwarned hand.1]
      exact h.remembered r
  judged := ⟨warns_iff h, h.judged⟩

theorem Accounted.step (h : Accounted threshold cooldownSecs m) (hstep : m.next threshold cooldownSecs e = some m') :
    Accounted threshold cooldownSecs m' := by
  cases e with
  | count reason =>
    cases hstep
    exact h.count reason
  | bucket reason =>
    simp only [Monitor.next] at hstep
    split at hstep
    · cases hstep
    · cases hstep
      exact h.bucket ‹_›
  | wake now =>
    simp only [Monitor.next] at hstep
    split at hstep
    · split at hstep
      · cases hstep
        exact h
      · cases hstep
        exact ⟨h.conserved, h.remembered, h.judged⟩
    · cases hstep
  | visit =>
    simp only [Monitor.next] at hstep
    split at hstep
    · rename_i now reason rest _
      cases hstep
      exact h.visit now reason rest
    · cases hstep
  | sleep =>
    simp only [Monitor.next] at hstep
    split at hstep
    · cases hstep
      exact ⟨h.conserved, h.remembered, h.judged⟩
    · cases hstep

/-- **Every drop is in one window**: however the drops of all tasks and the checks interleave, and however the clock
jumps, a drop in the metrics is on its way to a bucket, in a bucket, or in the count of exactly one visit; a visit warns
exactly if it is over the threshold and the cooldown has passed since the last warning for its reason; and warnings for
one reason are at least the cooldown apart. -/
theorem monitor_accounts (threshold cooldownSecs : ℕ) {events : List Event} {m : Monitor}
    (hrun : Run (fun m e m' => m.next threshold cooldownSecs e = some m') (fun _ _ => True) Monitor.new events m) :
    (∀ reason, m.drops reason = m.between reason + m.buckets reason + taken m.visits reason) ∧
      Judged threshold cooldownSecs m.visits ∧
      ∀ reason, (warnings m.visits reason).IsChain fun later earlier => cooldownSecs ≤ later - earlier := by
  have h : Accounted threshold cooldownSecs m :=
    hrun.invariant (I := fun _ m => Accounted threshold cooldownSecs m) ⟨fun _ => rfl, fun _ => rfl, trivial⟩
      fun _ _ _ _ h _ hstep => h.step hstep
  exact ⟨h.conserved, h.judged, h.judged.isChain_warnings⟩

/-- Two drops in the first window and one that is counted during the visit: a threshold of two is reached once. -/
theorem monitor_accounts_late :
    ∃ m, Run (fun m e m' => m.next 2 300 e = some m') (fun _ _ => True) Monitor.new
        [.count .sendFailure, .bucket .sendFailure, .count .sendFailure, .bucket .sendFailure, .count .sendFailure,
          .wake 1000, .visit, .bucket .sendFailure] m ∧
      m.visits = [⟨.sendFailure, 2, 1000, true⟩] ∧ m.buckets .sendFailure = 1 ∧
      (∀ reason, m.drops reason = m.between reason + m.buckets reason + taken m.visits reason) := by
  refine Run.exists_of_exec_imp
    (fun m => m.visits = [⟨.sendFailure, 2, 1000, true⟩] ∧ m.buckets .sendFailure = 1) (by decide +kernel)
    fun m hrun ⟨hvisits, hbucket⟩ => ?_
  exact ⟨hvisits, hbucket, (monitor_accounts 2 300 hrun).1⟩

end DropMonitor

end Tetron.Forward.Mesh
