import Mathlib.Algebra.Order.Group.Nat
import Mathlib.Data.List.Chain
import Tetron.Lib.Run

/-!
# How often the group poller reads the record

`spawn_group_poller` waits for its interval (`poller_interval`, or a minute) or for a trigger, polls, and waits again.
`tetron sync` stores a trigger, at most one at a time. A trigger that finds the last poll less than two seconds old is
dropped, and the wait starts over with a full interval.

* `polls_spaced`: however often `sync` is called, two polls are two seconds apart, or the interval if that is shorter.
* `sync_answered`: where the poller runs within `latency` of being due and a poll takes no longer than `longest`, the
  record is never older than the interval, the latency and the longer of a poll and two seconds, although every
  dropped trigger starts the wait over; and a trigger is answered within a poll and the latency by a poll that is at
  most two seconds old by then.

Times are in milliseconds.
-/

namespace Tetron.Daemon.GroupPoller

/-- `MIN_MANUAL_SYNC_INTERVAL`. -/
def minManualSyncInterval : ℕ := 2000

inductive Phase where
  /-- In the `select`, whose timer was made at the time given. -/
  | waiting (since : ℕ)
  | polling
  /-- Cancelled, or told by the record that the node was removed. -/
  | stopped
deriving DecidableEq

/-- A trigger, when it was handled, and the start of the poll it was answered with. -/
structure Answer where
  asked : ℕ
  handled : ℕ
  poll : ℕ
deriving DecidableEq

structure Poller where
  now : ℕ
  lastPoll : ℕ
  phase : Phase
  /-- The permit of the `Notify`. -/
  permit : Bool
  /-- For the record: the starts of the polls, the last first. -/
  polls : List ℕ
  /-- For the record: the oldest trigger no poll has started after. -/
  unanswered : Option ℕ
  answers : List Answer
deriving DecidableEq

/-- The task starts, its `last_poll` set back by the floor. -/
def Poller.spawn (start : ℕ) : Poller :=
  ⟨start + minManualSyncInterval, start, .waiting (start + minManualSyncInterval), false, [], none, []⟩

inductive Event where
  | tick
  /-- `sync_now`. -/
  | sync
  /-- The timer branch of the `select`. -/
  | timer
  /-- The trigger branch. -/
  | notified
  | finish
  | stop
deriving DecidableEq

namespace Poller

/-- The trigger that waits, if any, is answered with the poll that started at `poll`. -/
def answer (p : Poller) (poll : ℕ) : Poller :=
  { p with
    unanswered := none
    answers := (p.unanswered.map fun asked => ⟨asked, p.now, poll⟩).toList ++ p.answers }

/-- A poll starts. -/
def poll (p : Poller) : Poller :=
  { p.answer p.now with lastPoll := p.now, phase := .polling, polls := p.now :: p.polls }

def next (interval : ℕ) (p : Poller) : Event → Option Poller
  | .tick => some { p with now := p.now + 1 }
  | .sync => some { p with permit := true, unanswered := p.unanswered.or (some p.now) }
  | .timer =>
    match p.phase with
    | .waiting since => if since + interval ≤ p.now then some p.poll else none
    | _ => none
  | .notified =>
    match p.phase with
    | .waiting _ =>
      if p.permit then
        if p.now - p.lastPoll < minManualSyncInterval then
          some { p.answer p.lastPoll with permit := false, phase := .waiting p.now }
        else some { p.poll with permit := false }
      else none
    | _ => none
  | .finish => if p.phase = .polling then some { p with phase := .waiting p.now } else none
  | .stop => if p.phase = .stopped then none else some { p with phase := .stopped }

end Poller

variable {interval : ℕ} {p p' : Poller} {e : Event}

/-- What a step does. -/
inductive Moves (interval : ℕ) (p : Poller) : Event → Poller → Prop
  | tick : Moves interval p .tick { p with now := p.now + 1 }
  | sync : Moves interval p .sync { p with permit := true, unanswered := p.unanswered.or (some p.now) }
  | timer (since : ℕ) (hphase : p.phase = .waiting since) (due : since + interval ≤ p.now) :
      Moves interval p .timer p.poll
  | dropped (since : ℕ) (hphase : p.phase = .waiting since) (recent : p.now - p.lastPoll < minManualSyncInterval) :
      Moves interval p .notified { p.answer p.lastPoll with permit := false, phase := .waiting p.now }
  | triggered (since : ℕ) (hphase : p.phase = .waiting since) (old : minManualSyncInterval ≤ p.now - p.lastPoll) :
      Moves interval p .notified { p.poll with permit := false }
  | finish (hphase : p.phase = .polling) : Moves interval p .finish { p with phase := .waiting p.now }
  | stop : Moves interval p .stop { p with phase := .stopped }

theorem moves_of_next (h : p.next interval e = some p') : Moves interval p e p' := by
  cases e with
  | tick =>
    cases h
    exact .tick
  | sync =>
    cases h
    exact .sync
  | timer =>
    simp only [Poller.next] at h
    split at h
    · rename_i since hphase
      split at h
      · cases h
        exact .timer since hphase ‹_›
      · cases h
    · cases h
  | notified =>
    simp only [Poller.next] at h
    split at h
    · rename_i since hphase
      split at h
      · split at h
        · cases h
          exact .dropped since hphase ‹_›
        · cases h
          exact .triggered since hphase (by omega)
      · cases h
    · cases h
  | finish =>
    simp only [Poller.next] at h
    split at h
    · cases h
      exact .finish ‹_›
    · cases h
  | stop =>
    simp only [Poller.next] at h
    split at h
    · cases h
    · cases h
      exact .stop

/-! ### Not too often -/

/-- Between two polls. -/
def Apart (interval b a : ℕ) : Prop := a + min minManualSyncInterval interval ≤ b

structure Spaced (interval : ℕ) (p : Poller) : Prop where
  /-- The last poll, if there has been one, is the one remembered. -/
  last : ∀ a ∈ p.polls.head?, a = p.lastPoll
  waiting : ∀ since, p.phase = .waiting since → p.lastPoll ≤ since
  chain : p.polls.IsChain (Apart interval)

/-- A poll that starts late enough after the last one. -/
theorem Spaced.poll (h : Spaced interval p) (hlate : Apart interval p.now p.lastPoll) (permit : Bool) :
    Spaced interval { p.poll with permit := permit } where
  last a ha := (Option.some.inj ha).symm
  waiting since hphase := by cases hphase
  chain := by
    refine List.isChain_cons.mpr ⟨fun a ha => ?_, h.chain⟩
    rw [h.last a ha]
    exact hlate

theorem Spaced.step (h : Spaced interval p) (hnow : p.lastPoll ≤ p.now) (hstep : p.next interval e = some p') :
    Spaced interval p' := by
  cases moves_of_next hstep with
  | tick | sync => exact ⟨h.last, h.waiting, h.chain⟩
  | timer since hphase due =>
    have hsince := h.waiting since hphase
    refine h.poll ?_ p.permit
    rw [Apart]
    omega
  | dropped since hphase recent =>
    refine ⟨h.last, fun since' hphase' => ?_, h.chain⟩
    cases hphase'
    exact hnow
  | triggered since hphase old =>
    refine h.poll ?_ false
    rw [Apart]
    omega
  | finish hphase =>
    refine ⟨h.last, fun since hphase' => ?_, h.chain⟩
    cases hphase'
    exact hnow
  | stop => exact ⟨h.last, fun since hphase => (by cases hphase), h.chain⟩

/-- The clock of a poller. -/
theorem lastPoll_le_step (hnow : p.lastPoll ≤ p.now) (hstep : p.next interval e = some p') :
    p'.lastPoll ≤ p'.now := by
  cases moves_of_next hstep with
  | tick => exact Nat.le_succ_of_le hnow
  | timer | triggered => exact le_rfl
  | sync | dropped | finish | stop => exact hnow

/-- **Polls are spaced**: in every run, two polls in a row start at least two seconds apart, or the interval if it is
shorter, however many triggers there are. -/
theorem polls_spaced (interval start : ℕ) {events : List Event} {p : Poller}
    (hrun : Run (fun p e p' => p.next interval e = some p') (fun _ _ => True) (Poller.spawn start) events p) :
    p.polls.IsChain (Apart interval) := by
  obtain ⟨-, hspaced⟩ : p.lastPoll ≤ p.now ∧ Spaced interval p :=
    hrun.invariant (I := fun _ p => p.lastPoll ≤ p.now ∧ Spaced interval p)
      ⟨Nat.le_add_right _ _, fun a ha => (by cases ha), fun since hphase => by
        cases hphase
        exact Nat.le_add_right _ _, .nil⟩
      fun _ _ _ _ ⟨hnow, h⟩ _ hstep => ⟨lastPoll_le_step hnow hstep, h.step hnow hstep⟩
  exact hspaced.chain

/-- A trigger, one that is dropped, and a poll when the interval of one millisecond is over. -/
theorem polls_spaced_dropped :
    ∃ p, Run (fun p e p' => p.next 1 e = some p') (fun _ _ => True) (Poller.spawn 0)
        [.sync, .notified, .sync, .finish, .notified, .tick, .timer] p ∧
      p.polls = [2001, 2000] ∧ p.polls.IsChain (Apart 1) := by
  refine Run.exists_of_exec_imp (fun p => p.polls = [2001, 2000]) (by decide +kernel) fun p hrun hpolls => ?_
  exact ⟨hpolls, polls_spaced 1 0 hrun⟩

/-! ### Not too seldom -/

/-- Time passes only while a poll has not taken longer than `longest`, and while the poller is not kept waiting for
more than `latency` once its timer or a trigger is due. -/
def prompt (interval latency longest : ℕ) (p : Poller) : Event → Bool
  | .tick =>
    match p.phase with
    | .waiting since =>
      p.now < since + interval + latency && p.unanswered.all fun asked => p.now < max asked since + latency
    | .polling => p.now < p.lastPoll + longest
    | .stopped => true
  | _ => true

/-- What is true of a trigger that was answered. -/
structure Answer.InTime (latency longest : ℕ) (p : Poller) (a : Answer) : Prop where
  soon : a.handled ≤ a.asked + longest + latency
  recent : a.handled < a.poll + minManualSyncInterval
  started : a.poll ∈ p.polls

structure Attentive (interval latency longest : ℕ) (p : Poller) : Prop where
  passed : p.lastPoll ≤ p.now
  /-- Before the first poll no trigger is dropped. -/
  real : p.lastPoll ∈ p.polls ∨ p.lastPoll + minManualSyncInterval ≤ p.now
  polling : p.phase = .polling → p.now ≤ p.lastPoll + longest
  waiting : ∀ since, p.phase = .waiting since → since ≤ p.now ∧
    since ≤ p.lastPoll + max longest minManualSyncInterval ∧ p.now ≤ since + interval + latency
  asked : ∀ asked, p.unanswered = some asked → asked ≤ p.now ∧ (p.phase = .polling → p.lastPoll ≤ asked) ∧
    ∀ since, p.phase = .waiting since → since ≤ asked + longest ∧ p.now ≤ max asked since + latency
  answers : ∀ a ∈ p.answers, a.InTime latency longest p

variable {latency longest : ℕ}

theorem attentive_spawn (start : ℕ) : Attentive interval latency longest (Poller.spawn start) where
  passed := Nat.le_add_right _ _
  real := .inr le_rfl
  polling h := by cases h
  waiting since h := by
    cases h
    simp only [Poller.spawn]
    omega
  asked _ h := by cases h
  answers _ h := by cases h

theorem Answer.InTime.mono {a : Answer} (h : a.InTime latency longest p) (hpolls : ∀ t ∈ p.polls, t ∈ p'.polls) :
    a.InTime latency longest p' :=
  ⟨h.soon, h.recent, hpolls _ h.started⟩

/-- A trigger that is answered while the poller waits. -/
theorem Attentive.answered (h : Attentive interval latency longest p) {since poll : ℕ}
    (hphase : p.phase = .waiting since) {q : Poller} (hpolls : ∀ t ∈ p.polls, t ∈ q.polls) (hpoll : poll ∈ q.polls)
    (hrecent : p.now < poll + minManualSyncInterval) : ∀ a ∈ (p.answer poll).answers, a.InTime latency longest q := by
  intro a ha
  rcases List.mem_append.mp ha with hnew | hold
  · obtain ⟨asked, hasked, rfl⟩ := Option.map_eq_some_iff.mp (Option.mem_toList.mp hnew)
    obtain ⟨-, -, hwait⟩ := h.asked asked hasked
    obtain ⟨hsince, hnow⟩ := hwait since hphase
    refine ⟨?_, hrecent, hpoll⟩
    dsimp only
    omega
  · exact (h.answers a hold).mono hpolls

/-- A poll starts, and answers the trigger that waits. -/
theorem Attentive.poll (h : Attentive interval latency longest p) {since : ℕ} (hphase : p.phase = .waiting since)
    (permit : Bool) : Attentive interval latency longest { p.poll with permit := permit } where
  passed := le_rfl
  real := .inl List.mem_cons_self
  polling _ := Nat.le_add_right _ _
  waiting _ hphase' := by cases hphase'
  asked _ hasked := by cases hasked
  answers := h.answered hphase (fun _ ht => List.mem_cons_of_mem _ ht) List.mem_cons_self
    (by rw [minManualSyncInterval]; omega)

/-- Time passes. -/
theorem Attentive.tick (h : Attentive interval latency longest p)
    (hprompt : prompt interval latency longest p .tick = true) :
    Attentive interval latency longest { p with now := p.now + 1 } where
  passed := Nat.le_succ_of_le h.passed
  real := h.real.imp_right Nat.le_succ_of_le
  polling hphase := by
    have hphase : p.phase = .polling := hphase
    simp only [prompt, hphase, decide_eq_true_eq] at hprompt
    exact hprompt
  waiting since hphase := by
    have hphase : p.phase = .waiting since := hphase
    simp only [prompt, hphase, Bool.and_eq_true, decide_eq_true_eq] at hprompt
    obtain ⟨hsince, hlast, -⟩ := h.waiting since hphase
    exact ⟨Nat.le_succ_of_le hsince, hlast, hprompt.1⟩
  asked asked hasked := by
    obtain ⟨hle, hpolling, hwait⟩ := h.asked asked hasked
    refine ⟨Nat.le_succ_of_le hle, hpolling, fun since hphase => ⟨(hwait since hphase).1, ?_⟩⟩
    have hasked : p.unanswered = some asked := hasked
    have hphase : p.phase = .waiting since := hphase
    simp only [prompt, hphase, hasked, Bool.and_eq_true, Option.all_some, decide_eq_true_eq] at hprompt
    exact hprompt.2
  answers a ha := (h.answers a ha).mono fun _ ht => ht

/-- A trigger is stored. -/
theorem Attentive.sync (h : Attentive interval latency longest p) :
    Attentive interval latency longest { p with permit := true, unanswered := p.unanswered.or (some p.now) } where
  passed := h.passed
  real := h.real
  polling := h.polling
  waiting := h.waiting
  asked asked hasked := by
    cases hold : p.unanswered with
    | some before =>
      have heq : before = asked := by simpa [hold] using hasked
      rw [← heq]
      exact h.asked before hold
    | none =>
      have heq : p.now = asked := by simpa [hold] using hasked
      rw [← heq]
      refine ⟨le_rfl, fun _ => h.passed, fun since hphase => ?_⟩
      have hsince := (h.waiting since hphase).1
      dsimp only
      omega
  answers a ha := (h.answers a ha).mono fun _ ht => ht

theorem Attentive.step (h : Attentive interval latency longest p)
    (hprompt : prompt interval latency longest p e = true) (hstep : p.next interval e = some p') :
    Attentive interval latency longest p' := by
  cases moves_of_next hstep with
  | tick => exact h.tick hprompt
  | sync => exact h.sync
  | timer since hphase due => exact h.poll hphase p.permit
  | triggered since hphase old => exact h.poll hphase false
  | dropped since hphase recent =>
    have hpassed := h.passed
    have hreal : p.lastPoll ∈ p.polls := h.real.resolve_right fun hold => by omega
    refine ⟨h.passed, h.real, fun hphase' => (by cases hphase'), fun since' hphase' => ?_,
      fun _ hasked => (by cases hasked), h.answered hphase (fun _ ht => ht) hreal (by omega)⟩
    cases hphase'
    dsimp only [Poller.answer]
    omega
  | finish hphase =>
    have hlong := h.polling hphase
    refine ⟨h.passed, h.real, fun hphase' => (by cases hphase'), fun since hphase' => ?_, fun asked hasked => ?_,
      fun a ha => (h.answers a ha).mono fun _ ht => ht⟩
    · cases hphase'
      dsimp only
      omega
    · obtain ⟨hle, hpolling, -⟩ := h.asked asked hasked
      have hstarted := hpolling hphase
      refine ⟨hle, fun hphase' => (by cases hphase'), fun since hphase' => ?_⟩
      cases hphase'
      dsimp only
      omega
  | stop =>
    refine ⟨h.passed, h.real, fun hphase' => (by cases hphase'), fun _ hphase' => (by cases hphase'),
      fun asked hasked => ?_, fun a ha => (h.answers a ha).mono fun _ ht => ht⟩
    exact ⟨(h.asked asked hasked).1, fun hphase' => (by cases hphase'), fun _ hphase' => (by cases hphase')⟩

/-- **Triggers are answered, and cannot put the next poll off**: in every run in which the poller runs within `latency`
of being due and a poll takes no longer than `longest`, the last poll is never longer ago than the interval, the
latency and the longer of a poll and two seconds; and each trigger is answered within a poll and the latency by a poll
that started at most two seconds before. -/
theorem sync_answered (interval latency longest start : ℕ) {events : List Event} {p : Poller}
    (hrun : Run (fun p e p' => p.next interval e = some p') (fun p e => prompt interval latency longest p e = true)
      (Poller.spawn start) events p) (hgoes : p.phase ≠ .stopped) :
    p.now ≤ p.lastPoll + max longest minManualSyncInterval + interval + latency ∧
      (∀ asked, p.unanswered = some asked → p.now ≤ asked + longest + latency) ∧
      ∀ a ∈ p.answers, a.InTime latency longest p := by
  have h : Attentive interval latency longest p :=
    hrun.invariant (I := fun _ p => Attentive interval latency longest p) (attentive_spawn start)
      fun _ _ _ _ h hprompt hstep => h.step hprompt hstep
  cases hphase : p.phase with
  | stopped => exact absurd hphase hgoes
  | polling =>
    have hlong := h.polling hphase
    refine ⟨by omega, fun asked hasked => ?_, h.answers⟩
    have hstarted := (h.asked asked hasked).2.1 hphase
    omega
  | waiting since =>
    obtain ⟨-, hsince, hnow⟩ := h.waiting since hphase
    refine ⟨by omega, fun asked hasked => ?_, h.answers⟩
    obtain ⟨hle, hwait⟩ := (h.asked asked hasked).2.2 since hphase
    omega

/-- A poll of two milliseconds and a trigger during it, with an interval of five. -/
theorem sync_answered_during_poll :
    ∃ p, Run (fun p e p' => p.next 5 e = some p') (fun p e => prompt 5 1 2 p e = true) (Poller.spawn 0)
        [.sync, .notified, .tick, .sync, .tick, .finish, .notified] p ∧
      p.answers = [⟨2001, 2002, 2000⟩, ⟨2000, 2000, 2000⟩] ∧
      p.now ≤ p.lastPoll + max 2 minManualSyncInterval + 5 + 1 ∧ ∀ a ∈ p.answers, a.InTime 1 2 p := by
  refine Run.exists_of_exec_imp (fun p => p.answers = [⟨2001, 2002, 2000⟩, ⟨2000, 2000, 2000⟩] ∧ p.phase ≠ .stopped)
    (by decide +kernel) fun p hrun ⟨hanswers, hgoes⟩ => ?_
  obtain ⟨hnow, -, hin⟩ := sync_answered 5 1 2 0 hrun hgoes
  exact ⟨hanswers, hnow, hin⟩

end Tetron.Daemon.GroupPoller
