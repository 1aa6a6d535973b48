import Mathlib
import Tetron.Lib.Run

/-!
# The backoff of redials

Every drop of a peer's connection starts a task that redials it, and sleeps between its attempts. The sleep
doubles up to a cap, which rises with the attempts that failed. A connection that was lost soon after it came up
counts as a failure too: the streak of such flaps is kept across tasks in `reconnect_health`, and a new task
starts from it.

`PeerRedials` is what concerns one peer of one network: its entry in `reconnect_health` and its tasks. Durations
are nanoseconds. The counters are `u32`; the streak saturates, the attempts of a task wrap, and that is what
limits `backoff_run`.
-/

namespace Tetron.Daemon

/-! ### The pure decisions -/

/-- `Duration::MAX`. -/
def durationMax : ℕ := 2 ^ 64 * 1000000000 - 1

def u32Max : ℕ := 2 ^ 32 - 1

/-- `Duration::checked_mul`. -/
def checkedMul (d n : ℕ) : Option ℕ := if d * n ≤ durationMax then some (d * n) else none

structure BackoffTiers where
  initial : ℕ
  warmMax : ℕ
  coldMax : ℕ
  frozenMax : ℕ
  coldThreshold : ℕ
  frozenThreshold : ℕ
  minUptime : ℕ

/-- `(current * 2).min(max)`; the product panics when it overflows. -/
def nextBackoff (current max : ℕ) : Option ℕ := (checkedMul current 2).map fun doubled => min doubled max

namespace BackoffTiers

variable (t : BackoffTiers)

def backoffCap (failedAttempts : ℕ) : ℕ :=
  if failedAttempts ≥ t.frozenThreshold then t.frozenMax
  else if failedAttempts ≥ t.coldThreshold then t.coldMax
  else t.warmMax

/-- Whether the drop was a flap, the new streak, and the backoff to start with. -/
def reconnectStormDecision (uptime : Option ℕ) (priorStreak : ℕ) : Bool × ℕ × ℕ :=
  match uptime with
  | none => (false, priorStreak, t.initial)
  | some lived =>
    if lived ≥ t.minUptime then (false, 0, t.initial)
    else
      let newStreak := min (priorStreak + 1) u32Max
      let cap := t.backoffCap newStreak
      let climbed := (checkedMul t.initial (2 ^ min newStreak 20)).getD cap
      (true, newStreak, min climbed cap)

/-- Caps and thresholds in order, as in the compiled defaults, and far from the end of `Duration`. -/
structure Ordered : Prop where
  initial_le : t.initial ≤ t.warmMax
  warm_le : t.warmMax ≤ t.coldMax
  cold_le : t.coldMax ≤ t.frozenMax
  doubles : t.frozenMax * 2 ≤ durationMax
  threshold_le : t.coldThreshold ≤ t.frozenThreshold
  threshold_lt : t.frozenThreshold < 2 ^ 32

/-- The backoff a streak of `k` flaps starts from. -/
def startBackoff (k : ℕ) : ℕ := min (t.initial * 2 ^ min k 20) (t.backoffCap k)

variable {t}

theorem backoffCap_mono (ht : t.Ordered) : Monotone t.backoffCap := by
  intro a b hab
  have hwarm := ht.warm_le
  have hcold := ht.cold_le
  have hthreshold := ht.threshold_le
  unfold backoffCap
  split_ifs <;> omega

theorem initial_le_backoffCap (ht : t.Ordered) (k : ℕ) : t.initial ≤ t.backoffCap k := by
  have hinitial := ht.initial_le
  have hwarm := ht.warm_le
  have hcold := ht.cold_le
  unfold backoffCap
  split_ifs <;> omega

theorem backoffCap_le (ht : t.Ordered) (k : ℕ) : t.backoffCap k ≤ t.frozenMax := by
  have hwarm := ht.warm_le
  have hcold := ht.cold_le
  unfold backoffCap
  split_ifs <;> omega

/-- A streak is as good as one that saturates: the thresholds are `u32`. -/
theorem startBackoff_min (ht : t.Ordered) (k : ℕ) : t.startBackoff (min k u32Max) = t.startBackoff k := by
  have hthreshold := ht.threshold_le
  have hlt := ht.threshold_lt
  have hcap : t.backoffCap (min k u32Max) = t.backoffCap k := by
    unfold backoffCap u32Max
    split_ifs <;> omega
  rw [startBackoff, startBackoff, hcap, min_assoc, min_eq_right (by decide : 20 ≤ u32Max)]

theorem startBackoff_mono (ht : t.Ordered) : Monotone t.startBackoff := by
  intro a b hab
  refine min_le_min (Nat.mul_le_mul_left _ (Nat.pow_le_pow_right (by decide) ?_)) (backoffCap_mono ht hab)
  exact min_le_min_right _ hab

theorem startBackoff_le (k : ℕ) : t.startBackoff k ≤ t.backoffCap k := min_le_right _ _

theorem initial_le_startBackoff (ht : t.Ordered) (k : ℕ) : t.initial ≤ t.startBackoff k :=
  le_min (Nat.le_mul_of_pos_right _ (Nat.two_pow_pos _)) (initial_le_backoffCap ht k)

theorem reconnectStormDecision_healthy {lived priorStreak : ℕ} (hhealthy : t.minUptime ≤ lived) :
    t.reconnectStormDecision (some lived) priorStreak = (false, 0, t.initial) := by
  rw [reconnectStormDecision, if_pos hhealthy]

/-- The climb that overflows is above the cap anyway. -/
theorem reconnectStormDecision_flap (ht : t.Ordered) {lived priorStreak : ℕ} (hflap : lived < t.minUptime) :
    t.reconnectStormDecision (some lived) priorStreak =
      (true, min (priorStreak + 1) u32Max, t.startBackoff (min (priorStreak + 1) u32Max)) := by
  have hdoubles := ht.doubles
  rw [reconnectStormDecision, if_neg (Nat.not_le.mpr hflap)]
  generalize min (priorStreak + 1) u32Max = streak
  have hcap := backoffCap_le ht streak
  simp only [startBackoff, checkedMul]
  split
  · rw [Option.getD_some]
  · rw [Option.getD_none, min_self, min_eq_right (by omega)]

end BackoffTiers

/-! ### The tasks of a peer -/

structure RedialTask where
  backoff : ℕ
  failedAttempts : ℕ
deriving DecidableEq, Repr

/-- How one round of a task's loop goes on after its sleep. -/
inductive RoundOutcome
  /-- The token was cancelled before the sleep was over. -/
  | cancelled
  /-- The roster no longer lists the peer. -/
  | abandoned
  | reconnectedInbound
  /-- Another dial to the peer is in flight. -/
  | skipped
  | failed
  | connected
deriving DecidableEq, Repr

structure PeerRedials where
  /-- The entry in `reconnect_health`. -/
  health : Option ℕ
  /-- The tasks in the order they were started, without those that ended. -/
  tasks : List (Option RedialTask)
deriving DecidableEq, Repr

inductive BackoffEvent
  /-- A connection of this uptime was lost, or there was none (a seed). -/
  | dropped (uptime : Option ℕ)
  | round (i : ℕ) (outcome : RoundOutcome)
  /-- The sweep after the network was left. -/
  | swept
deriving DecidableEq, Repr

/-- What is left of a task after a round. -/
def RedialTask.round (task : RedialTask) (backoff : ℕ) : RoundOutcome → Option RedialTask
  | .cancelled | .abandoned | .reconnectedInbound | .connected => none
  | .skipped => some ⟨backoff, task.failedAttempts⟩
  | .failed => some ⟨backoff, (task.failedAttempts + 1) % 2 ^ 32⟩

namespace PeerRedials

def initial : PeerRedials := ⟨none, []⟩

variable (t : BackoffTiers) (w : PeerRedials)

def next : BackoffEvent → Option PeerRedials
  | .dropped uptime =>
    let (_, newStreak, startBackoff) := t.reconnectStormDecision uptime (w.health.getD 0)
    some ⟨if newStreak = 0 then none else some newStreak, w.tasks ++ [some ⟨startBackoff, newStreak⟩]⟩
  | .round i outcome =>
    match w.tasks[i]? with
    | some (some task) =>
      match nextBackoff task.backoff (t.backoffCap task.failedAttempts) with
      -- the product panics, and takes the task with it
      | none => some { w with tasks := w.tasks.set i none }
      | some backoff =>
        some ⟨if outcome = .abandoned then none else w.health, w.tasks.set i (task.round backoff outcome)⟩
    | _ => none
  | .swept => some { w with health := none }

variable {t w} in
theorem next_dropped {uptime : Option ℕ} {newStreak startBackoff : ℕ} {flap : Bool}
    (h : t.reconnectStormDecision uptime (w.health.getD 0) = (flap, newStreak, startBackoff)) :
    w.next t (.dropped uptime) =
      some ⟨if newStreak = 0 then none else some newStreak, w.tasks ++ [some ⟨startBackoff, newStreak⟩]⟩ := by
  rw [next, h]

/-- One round of a task that is there. -/
theorem next_round {t : BackoffTiers} {w : PeerRedials} {i backoff : ℕ} {task : RedialTask} {outcome : RoundOutcome}
    (htask : w.tasks[i]? = some (some task))
    (hnext : nextBackoff task.backoff (t.backoffCap task.failedAttempts) = some backoff) :
    w.next t (.round i outcome) =
      some ⟨if outcome = .abandoned then none else w.health, w.tasks.set i (task.round backoff outcome)⟩ := by
  simp only [next, htask, hnext]

end PeerRedials

/-! ### One round -/

/-- The bounds of a task: its backoff is between the initial one and the cap of its failures. -/
structure RedialTask.Within (t : BackoffTiers) (task : RedialTask) : Prop where
  initial_le : t.initial ≤ task.backoff
  le_cap : task.backoff ≤ t.backoffCap task.failedAttempts

namespace RedialTask.Within

variable {t : BackoffTiers} {task task' : RedialTask} {outcome : RoundOutcome}

/-- Within the bounds the product does not overflow. -/
theorem nextBackoff_eq (hwithin : task.Within t) (ht : t.Ordered) :
    nextBackoff task.backoff (t.backoffCap task.failedAttempts) =
      some (min (task.backoff * 2) (t.backoffCap task.failedAttempts)) := by
  have hcap := BackoffTiers.backoffCap_le ht task.failedAttempts
  have hle := hwithin.le_cap
  have hdoubles := ht.doubles
  rw [nextBackoff, checkedMul, if_pos (by omega), Option.map_some]

/-- A round leaves the task within its bounds and does not lower its backoff, unless the count wraps. -/
theorem round (hwithin : task.Within t) (ht : t.Ordered)
    (hcount : outcome = .failed → task.failedAttempts < u32Max)
    (hround : task.round (min (task.backoff * 2) (t.backoffCap task.failedAttempts)) outcome = some task') :
    task'.Within t ∧ task.backoff ≤ task'.backoff := by
  have hinitial := hwithin.initial_le
  have hcap := hwithin.le_cap
  have hgrows : task.backoff ≤ min (task.backoff * 2) (t.backoffCap task.failedAttempts) := le_min (by omega) hcap
  cases outcome with
  | cancelled | abandoned | reconnectedInbound | connected => cases hround
  | skipped =>
    cases hround
    exact ⟨⟨hinitial.trans hgrows, min_le_right _ _⟩, hgrows⟩
  | failed =>
    cases hround
    have hlt := hcount rfl
    have hmod : (task.failedAttempts + 1) % 2 ^ 32 = task.failedAttempts + 1 :=
      Nat.mod_eq_of_lt (by rw [u32Max] at hlt; omega)
    refine ⟨⟨hinitial.trans hgrows, ?_⟩, hgrows⟩
    rw [hmod]
    exact (min_le_right _ _).trans (BackoffTiers.backoffCap_mono ht (Nat.le_succ _))

end RedialTask.Within

/-! ### Whole runs -/

def countFlap (t : BackoffTiers) (k : ℕ) : BackoffEvent → ℕ
  | .dropped none => k
  | .dropped (some lived) => if lived ≥ t.minUptime then 0 else k + 1
  | .round _ outcome => if outcome = .abandoned then 0 else k
  | .swept => 0

/-- The flaps since a connection lived long enough, or since the entry was dropped. -/
def flapsInARow (t : BackoffTiers) (events : List BackoffEvent) : ℕ := events.foldl (countFlap t) 0

/-- What a drop starts: the streak follows the count of flaps, and the task is within its bounds. -/
theorem reconnectStormDecision_spec {t : BackoffTiers} (ht : t.Ordered) (uptime : Option ℕ) (k : ℕ) :
    ∃ flap startBackoff, t.reconnectStormDecision uptime (min k u32Max) =
        (flap, min (countFlap t k (.dropped uptime)) u32Max, startBackoff) ∧
      RedialTask.Within t ⟨startBackoff, min (countFlap t k (.dropped uptime)) u32Max⟩ := by
  have hwarm : ∀ k, RedialTask.Within t ⟨t.initial, k⟩ := fun k =>
    ⟨le_refl _, BackoffTiers.initial_le_backoffCap ht k⟩
  rcases uptime with _ | lived
  · exact ⟨false, t.initial, rfl, hwarm _⟩
  · rcases Nat.lt_or_ge lived t.minUptime with hflap | hhealthy
    · have hstreak : min (min k u32Max + 1) u32Max = min (k + 1) u32Max := by omega
      rw [BackoffTiers.reconnectStormDecision_flap ht hflap, countFlap, if_neg (Nat.not_le.mpr hflap), hstreak]
      exact ⟨true, _, rfl, BackoffTiers.initial_le_startBackoff ht _, BackoffTiers.startBackoff_le _⟩
    · rw [BackoffTiers.reconnectStormDecision_healthy hhealthy, countFlap, if_pos hhealthy, Nat.zero_min]
      exact ⟨false, _, rfl, hwarm _⟩

namespace PeerRedials

/-- The failure about to be counted still fits a `u32`. -/
def Counts (w : PeerRedials) : BackoffEvent → Prop
  | .round i .failed => ∀ task, w.tasks[i]? = some (some task) → task.failedAttempts < u32Max
  | .round _ _ | .dropped _ | .swept => True

/-- With `k` flaps in a row: every task is within its bounds, and the entry is the count, up to the end of
`u32`. -/
structure Inv (t : BackoffTiers) (k : ℕ) (w : PeerRedials) : Prop where
  within : ∀ (i : ℕ) (task : RedialTask), w.tasks[i]? = some (some task) → task.Within t
  health : w.health.getD 0 = min k u32Max

variable {t : BackoffTiers} {w w' : PeerRedials} {event : BackoffEvent} {events : List BackoffEvent} {i k : ℕ}

/-- A drop adds a task within its bounds. -/
theorem next_dropped_eq_some (ht : t.Ordered) (hinv : Inv t k w) {uptime : Option ℕ}
    (h : w.next t (.dropped uptime) = some w') :
    w'.health.getD 0 = min (countFlap t k (.dropped uptime)) u32Max ∧
      ∃ task, task.Within t ∧ w'.tasks = w.tasks ++ [some task] := by
  obtain ⟨flap, startBackoff, hdecision, hwithin⟩ := reconnectStormDecision_spec ht uptime k
  rw [← hinv.health] at hdecision
  rw [next_dropped hdecision] at h
  obtain rfl := Option.some.inj h
  refine ⟨?_, _, hwithin, rfl⟩
  split
  · rename_i hzero
    rw [hzero, Option.getD_none]
  · rw [Option.getD_some]

/-- A round is one of a task that is there. -/
theorem next_round_eq_some (ht : t.Ordered) (hinv : Inv t k w) {outcome : RoundOutcome}
    (h : w.next t (.round i outcome) = some w') :
    ∃ task, w.tasks[i]? = some (some task) ∧ task.Within t ∧
      w' = ⟨if outcome = .abandoned then none else w.health,
        w.tasks.set i (task.round (min (task.backoff * 2) (t.backoffCap task.failedAttempts)) outcome)⟩ := by
  rcases htask : w.tasks[i]? with _ | _ | task
  · simp [next, htask] at h
  · simp [next, htask] at h
  · have hwithin := hinv.within i task htask
    rw [next_round htask (hwithin.nextBackoff_eq ht)] at h
    exact ⟨task, rfl, hwithin, (Option.some.inj h).symm⟩

theorem length_le_of_next (ht : t.Ordered) (hinv : Inv t k w) (h : w.next t event = some w') :
    w.tasks.length ≤ w'.tasks.length := by
  cases event with
  | dropped uptime =>
    obtain ⟨-, task, -, htasks⟩ := next_dropped_eq_some ht hinv h
    rw [htasks, List.length_append]
    exact Nat.le_add_right _ _
  | round j outcome =>
    obtain ⟨task, -, -, rfl⟩ := next_round_eq_some ht hinv h
    rw [List.length_set]
  | swept =>
    obtain rfl := Option.some.inj h
    exact le_refl _

/-- A task after a step is within its bounds, and its backoff is no lower than before the step, if it was
there. -/
theorem task_of_next (ht : t.Ordered) (hinv : Inv t k w) (hcounts : w.Counts event)
    (h : w.next t event = some w') {task' : RedialTask} (htask' : w'.tasks[i]? = some (some task')) :
    task'.Within t ∧ ∀ old, w.tasks[i]? = some old → ∃ task, old = some task ∧ task.backoff ≤ task'.backoff := by
  -- a task that the step does not move
  have hsame : w.tasks[i]? = some (some task') →
      task'.Within t ∧ ∀ old, w.tasks[i]? = some old → ∃ task, old = some task ∧ task.backoff ≤ task'.backoff :=
    fun hold => ⟨hinv.within i task' hold, fun old h => ⟨task', Option.some.inj (h.symm.trans hold), le_refl _⟩⟩
  cases event with
  | dropped uptime =>
    obtain ⟨-, started, hstarted, htasks⟩ := next_dropped_eq_some ht hinv h
    rw [htasks] at htask'
    rcases Nat.lt_or_ge i w.tasks.length with hlt | hge
    · rw [List.getElem?_append_left hlt] at htask'
      exact hsame htask'
    · rw [List.getElem?_append_right hge] at htask'
      obtain rfl : task' = started := Option.some.inj (List.mem_singleton.mp (List.mem_of_getElem? htask'))
      refine ⟨hstarted, fun old hold => ?_⟩
      rw [List.getElem?_eq_none hge] at hold
      cases hold
  | round j outcome =>
    obtain ⟨task, htask, hwithin, rfl⟩ := next_round_eq_some ht hinv h
    rcases List.getElem?_set_eq_some htask' with ⟨rfl, hround⟩ | ⟨-, hold⟩
    · have hcount : outcome = .failed → task.failedAttempts < u32Max := by
        rintro rfl
        exact hcounts task htask
      obtain ⟨hwithin', hle⟩ := hwithin.round ht hcount hround
      exact ⟨hwithin', fun old hold => ⟨task, Option.some.inj (hold.symm.trans htask), hle⟩⟩
    · exact hsame hold
  | swept =>
    obtain rfl := Option.some.inj h
    exact hsame htask'

theorem Inv.next (ht : t.Ordered) (hinv : Inv t k w) (hcounts : w.Counts event) (h : w.next t event = some w') :
    Inv t (countFlap t k event) w' := by
  refine ⟨fun i task' htask' => (task_of_next ht hinv hcounts h htask').1, ?_⟩
  cases event with
  | dropped uptime => exact (next_dropped_eq_some ht hinv h).1
  | round j outcome =>
    obtain ⟨task, -, -, rfl⟩ := next_round_eq_some ht hinv h
    rw [countFlap]
    split
    · rw [Option.getD_none, Nat.zero_min]
    · exact hinv.health
  | swept =>
    obtain rfl := Option.some.inj h
    rw [countFlap, Nat.zero_min]
    rfl

theorem inv_of_run (ht : t.Ordered) (hrun : Run (fun w e w' => w.next t e = some w') Counts initial events w) :
    Inv t (flapsInARow t events) w := by
  refine hrun.invariant (I := fun events w => Inv t (flapsInARow t events) w) ⟨fun i task h => ?_, rfl⟩ ?_
  · cases h
  · intro events w event w' hinv hcounts h
    rw [flapsInARow, List.foldl_append]
    exact hinv.next ht hcounts h

/-- Through any further run a task keeps its backoff or raises it. -/
theorem Inv.backoff_le_of_run (ht : t.Ordered) (hinv : Inv t k w)
    (hrun : Run (fun w e w' => w.next t e = some w') Counts w events w') {task task' : RedialTask}
    (htask : w.tasks[i]? = some (some task)) (htask' : w'.tasks[i]? = some (some task')) :
    task.backoff ≤ task'.backoff := by
  have hall := hrun.invariant
    (I := fun _ w' => (∃ k, Inv t k w') ∧ i < w'.tasks.length ∧
      ∀ task', w'.tasks[i]? = some (some task') → task.backoff ≤ task'.backoff)
    ⟨⟨k, hinv⟩, (List.getElem?_eq_some_iff.mp htask).1, fun task' h => by
      rw [Option.some.inj (Option.some.inj (htask.symm.trans h))]⟩
    fun _ v event v' ⟨⟨k, hv⟩, hlt, hle⟩ hcounts h => ?_
  · exact hall.2.2 task' htask'
  · refine ⟨⟨_, hv.next ht hcounts h⟩, hlt.trans_le (length_le_of_next ht hv h), fun task'' htask'' => ?_⟩
    have hslot := List.getElem?_eq_getElem hlt
    obtain ⟨mid, hmid, hstep⟩ := (task_of_next ht hv hcounts h htask'').2 _ hslot
    exact (hle mid (hslot.trans (congrArg some hmid))).trans hstep

/-- In every run in which no task counts past the end of `u32`: the backoff of a task is between the initial
one and the cap of its failures and never falls; a task after `k` flaps in a row starts from
`startBackoff k`, which grows with `k` up to the cap; and one after a connection that lived starts warm. -/
theorem backoff_run (ht : t.Ordered) (hrun : Run (fun w e w' => w.next t e = some w') Counts initial events w) :
    (∀ (i : ℕ) (task : RedialTask), w.tasks[i]? = some (some task) →
        t.initial ≤ task.backoff ∧ task.backoff ≤ t.backoffCap task.failedAttempts) ∧
      (∀ further w', Run (fun w e w' => w.next t e = some w') Counts w further w' →
        ∀ (i : ℕ) (task task' : RedialTask), w.tasks[i]? = some (some task) → w'.tasks[i]? = some (some task') →
          task.backoff ≤ task'.backoff) ∧
      (∀ lived, lived < t.minUptime → ∃ w' task, w.next t (.dropped (some lived)) = some w' ∧
        w'.tasks = w.tasks ++ [some task] ∧ task.backoff = t.startBackoff (flapsInARow t events + 1)) ∧
      (Monotone t.startBackoff ∧ ∀ k, t.startBackoff k ≤ t.backoffCap k) ∧
      ∀ lived, t.minUptime ≤ lived → ∃ w' task, w.next t (.dropped (some lived)) = some w' ∧
        w'.tasks = w.tasks ++ [some task] ∧ task.backoff = t.initial := by
  have hinv := inv_of_run ht hrun
  refine ⟨fun i task htask => ?_, fun further w' hfurther i task task' => ?_, fun lived hflap => ?_,
    ⟨BackoffTiers.startBackoff_mono ht, BackoffTiers.startBackoff_le⟩, fun lived hhealthy => ?_⟩
  · have hwithin := hinv.within i task htask
    exact ⟨hwithin.initial_le, hwithin.le_cap⟩
  · exact hinv.backoff_le_of_run ht hfurther
  · have hstreak : min (w.health.getD 0 + 1) u32Max = min (flapsInARow t events + 1) u32Max := by
      have hhealth := hinv.health
      omega
    refine ⟨_, _, next_dropped (BackoffTiers.reconnectStormDecision_flap ht hflap), rfl, ?_⟩
    rw [hstreak, BackoffTiers.startBackoff_min ht]
  · exact ⟨_, _, next_dropped (BackoffTiers.reconnectStormDecision_healthy hhealthy), rfl, rfl⟩

end PeerRedials

/-! ### The compiled defaults -/

def secs (n : ℕ) : ℕ := n * 1000000000

/-- `BACKOFF_INITIAL`, `BACKOFF_MAX`, `BACKOFF_COLD_MAX` and so on. -/
def BackoffTiers.compiled : BackoffTiers where
  initial := secs 1
  warmMax := secs 30
  coldMax := secs 600
  frozenMax := secs 86400
  coldThreshold := 10
  frozenThreshold := 154
  minUptime := secs 5

theorem BackoffTiers.compiled_ordered : BackoffTiers.compiled.Ordered := by
  constructor <;> decide

namespace PeerRedials

instance (w : PeerRedials) (event : BackoffEvent) : Decidable (w.Counts event) := by
  unfold Counts
  split
  · rename_i i
    refine decidable_of_iff (∀ task ∈ w.tasks[i]?.join, task.failedAttempts < u32Max) ?_
    simp [Option.mem_def, Option.join_eq_some_iff]
  all_goals infer_instance

/-- A flap, a dial that fails, and one that is skipped. -/
theorem backoff_run_flap :
    ∃ w, Run (fun w e w' => w.next .compiled e = some w') Counts initial
        [.dropped (some 0), .round 0 .failed, .round 0 .skipped] w ∧
      w.tasks = [some ⟨secs 8, 2⟩] ∧ secs 8 ≤ BackoffTiers.compiled.backoffCap 2 := by
  refine Run.exists_of_exec_imp (fun w => w.tasks = [some ⟨secs 8, 2⟩]) (by decide) fun w hrun htasks => ?_
  refine ⟨htasks, ((backoff_run BackoffTiers.compiled_ordered hrun).1 0 ⟨secs 8, 2⟩ ?_).2⟩
  rw [htasks]
  rfl

theorem nextBackoff_frozen {n : ℕ} (hn : 154 ≤ n) :
    nextBackoff (secs 86400) (BackoffTiers.compiled.backoffCap n) = some (secs 86400) := by
  have hcap : BackoffTiers.compiled.backoffCap n = secs 86400 := if_pos hn
  rw [hcap]
  decide

/-- A task that goes on failing settles at the frozen cap. -/
theorem run_failing (k : ℕ) (hk : 200 + k < 2 ^ 32) :
    Run (fun w e w' => w.next .compiled e = some w') (fun _ _ => True) initial
      (.dropped none :: List.replicate (200 + k) (.round 0 .failed)) ⟨none, [some ⟨secs 86400, 200 + k⟩]⟩ := by
  induction k with
  | zero => exact Run.of_exec (by decide +kernel)
  | succ k ih =>
    rw [← Nat.add_assoc, List.replicate_succ', ← List.cons_append]
    refine (ih (by omega)).snoc trivial ?_
    have hmod : (200 + k + 1) % 2 ^ 32 = 200 + k + 1 := Nat.mod_eq_of_lt hk
    rw [next_round (i := 0) rfl (nextBackoff_frozen (by omega : 154 ≤ 200 + k)), RedialTask.round, hmod]
    rfl

/-- The last failure that a `u32` can count is followed by failure 0, and the cap falls from a day to half a
minute. -/
theorem backoff_falls :
    ∃ events w w', ∃ task task' : RedialTask,
      Run (fun w e w' => w.next .compiled e = some w') (fun _ _ => True) initial events w ∧
      w.next .compiled (.round 0 .skipped) = some w' ∧ w.tasks[0]? = some (some task) ∧
      w'.tasks[0]? = some (some task') ∧ task'.backoff < task.backoff := by
  obtain ⟨k, hk⟩ : ∃ k, 200 + k = u32Max := ⟨u32Max - 200, by decide⟩
  have hrun := run_failing k (by rw [hk]; decide)
  have hwrap : next .compiled ⟨none, [some ⟨secs 86400, 200 + k⟩]⟩ (.round 0 .failed) =
      some ⟨none, [some ⟨secs 86400, 0⟩]⟩ := by
    rw [next_round (i := 0) rfl (nextBackoff_frozen (by omega : 154 ≤ 200 + k)), RedialTask.round, hk]
    rfl
  exact ⟨_, _, _, _, _, hrun.snoc trivial hwrap, rfl, rfl, rfl, by decide⟩

end PeerRedials

end Tetron.Daemon
