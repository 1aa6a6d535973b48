import Tetron.Lib.Run
import Mathlib.Algebra.Order.Group.Nat
import Mathlib.Data.List.Count
import Mathlib.Data.List.Perm.Basic

/-!
# The accept loop of the IPC server

`serve_ipc` accepts connections on a socket that every local user may open. A connection is answered by a handler
task of its own, which holds a slot as long as it runs. There is a general pool of slots, and a reserve that only
root and the operator may use once the general pool is empty; a connection without a slot is told that the daemon is
busy and closed. When `accept` itself fails, the loop stops accepting for a while that doubles with every further
failure.

Two things must hold whatever the clients do. They cannot take the reserve, so the administrator gets in
(`slots_run`). And a listener that keeps failing can neither spin nor flood the journal: the failed calls are bounded
by the time that passes and the connections accepted in between, the warnings by the connections alone
(`accept_errors_le`).
-/

namespace Tetron.Ipc

/-- The limits of `IpcConfig`, unset or zero for the default. -/
structure IpcConfig where
  maxClients : Option ℕ
  reservedClients : Option ℕ

namespace IpcConfig

/-- `IPC_MAX_CLIENTS`. -/
def ipcMaxClients : ℕ := 256

/-- `IPC_RESERVED_CLIENTS`. -/
def ipcReservedClients : ℕ := 16

def maxClientsOrDefault (c : IpcConfig) : ℕ := (c.maxClients.filter fun n => 0 < n).getD ipcMaxClients

def reservedClientsOrDefault (c : IpcConfig) : ℕ :=
  (c.reservedClients.filter fun n => 0 < n).getD ipcReservedClients

end IpcConfig

/-- `is_privileged_uid`: root, or the configured operator. -/
def isPrivilegedUid (uid operator : Option UInt32) : Bool := uid == some 0 || (uid.isSome && uid == operator)

inductive Pool where
  | general
  | reserve
deriving DecidableEq

/-- The free permits of the two semaphores. -/
structure IpcSlots where
  general : ℕ
  reserve : ℕ

namespace IpcSlots

/-- `try_admit`: the pool a permit was taken from, and what is left. -/
def tryAdmit (s : IpcSlots) (privileged : Bool) : Option (Pool × IpcSlots) :=
  if 0 < s.general then some (.general, { s with general := s.general - 1 })
  else if privileged && 0 < s.reserve then some (.reserve, { s with reserve := s.reserve - 1 })
  else none

/-- A permit is dropped. -/
def release (s : IpcSlots) : Pool → IpcSlots
  | .general => { s with general := s.general + 1 }
  | .reserve => { s with reserve := s.reserve + 1 }

end IpcSlots

/-- `accept_backoff`, in milliseconds. -/
def acceptBackoff (consecutiveErrors : ℕ) : ℕ :=
  if consecutiveErrors = 0 then 0 else min (50 * 2 ^ min (consecutiveErrors - 1) 10) 1000

/-- A running handler. Whether its client was privileged when it was admitted is noted here for every client; the
source asks only when the general pool is empty. -/
structure Handler where
  permit : Pool
  privileged : Bool

/-- The loop and its handlers. `operator` is the operator in the configuration. The last three fields count the
connections accepted, the calls of `accept` that failed, and the warnings logged about them. -/
structure Server where
  now : ℕ
  operator : Option UInt32
  slots : IpcSlots
  handlers : List Handler
  acceptErrors : ℕ
  acceptRepeats : ℕ
  acceptPausedUntil : Option ℕ
  accepted : ℕ
  failed : ℕ
  warnings : ℕ

def Server.new (c : IpcConfig) (now : ℕ) (operator : Option UInt32) : Server :=
  ⟨now, operator, ⟨c.maxClientsOrDefault, c.reservedClientsOrDefault⟩, [], 0, 0, none, 0, 0, 0⟩

inductive Event where
  | tick (elapsed : ℕ)
  /-- The pause is over. -/
  | resume
  | accept (uid : Option UInt32)
  | acceptError
  /-- A handler ends, for whatever reason. -/
  | finish (i : ℕ)
  | setOperator (uid : Option UInt32)

namespace Server

/-- An accepted connection ends a run of errors. -/
def recovered (s : Server) : Server :=
  if 0 < s.acceptErrors then
    { s with
      warnings := if 0 < s.acceptRepeats then s.warnings + 1 else s.warnings
      acceptErrors := 0
      acceptRepeats := 0 }
  else s

/-- The connection gets a handler, or is turned away. -/
def admitClient (s : Server) (uid : Option UInt32) : Server :=
  match s.slots.tryAdmit (isPrivilegedUid uid s.operator) with
  | some (permit, slots) =>
    { s with slots := slots, handlers := s.handlers ++ [⟨permit, isPrivilegedUid uid s.operator⟩] }
  | none => s

/-- The first error of a run is logged, repeats are counted. -/
def acceptFailed (s : Server) : Server :=
  let errors := min (s.acceptErrors + 1) (2 ^ 32 - 1)
  { s with
    warnings := if s.acceptErrors = 0 then s.warnings + 1 else s.warnings
    -- a `u32` with `+=`, which wraps in a release build
    acceptRepeats := if s.acceptErrors = 0 then s.acceptRepeats else (s.acceptRepeats + 1) % 2 ^ 32
    acceptErrors := errors
    acceptPausedUntil := some (s.now + acceptBackoff errors)
    failed := s.failed + 1 }

def next (s : Server) : Event → Option Server
  | .tick elapsed => some { s with now := s.now + elapsed }
  | .resume =>
    match s.acceptPausedUntil with
    | some until_ => if until_ ≤ s.now then some { s with acceptPausedUntil := none } else none
    | none => none
  | .accept uid =>
    if s.acceptPausedUntil.isNone then some { s.recovered.admitClient uid with accepted := s.accepted + 1 } else none
  | .acceptError => if s.acceptPausedUntil.isNone then some s.acceptFailed else none
  | .finish i =>
    match s.handlers[i]? with
    | some h => some { s with slots := s.slots.release h.permit, handlers := s.handlers.eraseIdx i }
    | none => none
  | .setOperator uid => some { s with operator := uid }

end Server

/-! ### Who holds the slots -/

/-- Every permit is free or held by a handler, and those of the reserve are held by privileged clients. -/
structure Conserved (general reserve : ℕ) (s : Server) : Prop where
  general : s.slots.general + s.handlers.countP (fun h => h.permit = .general) = general
  reserve : s.slots.reserve + s.handlers.countP (fun h => h.permit = .reserve) = reserve
  privileged : ∀ h ∈ s.handlers, h.permit = .reserve → h.privileged = true

section Slots

variable {general reserve : ℕ} {s s' : Server} {e : Event} {uid : Option UInt32}

@[simp] theorem slots_recovered (s : Server) : s.recovered.slots = s.slots := by
  unfold Server.recovered
  split <;> rfl

@[simp] theorem handlers_recovered (s : Server) : s.recovered.handlers = s.handlers := by
  unfold Server.recovered
  split <;> rfl

@[simp] theorem operator_recovered (s : Server) : s.recovered.operator = s.operator := by
  unfold Server.recovered
  split <;> rfl

/-- Slots and handlers change only when a connection is admitted or a handler ends. -/
theorem slots_of_next (h : s.next e = some s') :
    (s'.slots = s.slots ∧ s'.handlers = s.handlers) ∨
      (∃ uid, e = .accept uid ∧ s'.slots = (s.admitClient uid).slots ∧ s'.handlers = (s.admitClient uid).handlers) ∨
      ∃ i h, s.handlers[i]? = some h ∧ s'.slots = s.slots.release h.permit ∧
        s'.handlers = s.handlers.eraseIdx i := by
  cases e with
  | tick elapsed =>
    cases h
    exact .inl ⟨rfl, rfl⟩
  | resume =>
    simp only [Server.next] at h
    split at h
    · split at h
      · cases h
        exact .inl ⟨rfl, rfl⟩
      · cases h
    · cases h
  | accept uid =>
    simp only [Server.next] at h
    split at h
    · cases h
      refine .inr (.inl ⟨uid, rfl, ?_, ?_⟩)
      · simp only [Server.admitClient, slots_recovered, operator_recovered, handlers_recovered]
        split <;> simp
      · simp only [Server.admitClient, slots_recovered, operator_recovered, handlers_recovered]
        split <;> simp
    · cases h
  | acceptError =>
    simp only [Server.next] at h
    split at h
    · cases h
      exact .inl ⟨rfl, rfl⟩
    · cases h
  | finish i =>
    simp only [Server.next] at h
    split at h
    · rename_i handler hi
      cases h
      exact .inr (.inr ⟨i, handler, hi, rfl, rfl⟩)
    · cases h
  | setOperator uid =>
    cases h
    exact .inl ⟨rfl, rfl⟩

/-- What `try_admit` takes, it takes from a pool that is not empty, from the reserve only for a privileged client
and with no general permit left; it takes nothing when neither is to be had. -/
theorem tryAdmit_cases (slots : IpcSlots) (privileged : Bool) :
    (0 < slots.general ∧ slots.tryAdmit privileged = some (.general, { slots with general := slots.general - 1 })) ∨
      (slots.general = 0 ∧ privileged = true ∧ 0 < slots.reserve ∧
        slots.tryAdmit privileged = some (.reserve, { slots with reserve := slots.reserve - 1 })) ∨
      (slots.general = 0 ∧ (privileged = true → slots.reserve = 0) ∧ slots.tryAdmit privileged = none) := by
  unfold IpcSlots.tryAdmit
  by_cases hgeneral : 0 < slots.general
  · exact .inl ⟨hgeneral, if_pos hgeneral⟩
  · rw [if_neg hgeneral]
    by_cases hreserve : (privileged && decide (0 < slots.reserve)) = true
    · obtain ⟨hprivileged, hroom⟩ : privileged = true ∧ 0 < slots.reserve := by simpa using hreserve
      exact .inr (.inl ⟨by omega, hprivileged, hroom, if_pos hreserve⟩)
    · refine .inr (.inr ⟨by omega, fun hprivileged => ?_, if_neg hreserve⟩)
      simp only [hprivileged, Bool.true_and, decide_eq_true_eq] at hreserve
      omega

theorem Conserved.congr (h : Conserved general reserve s) (hslots : s'.slots = s.slots)
    (hhandlers : s'.handlers = s.handlers) : Conserved general reserve s' := by
  refine ⟨?_, ?_, ?_⟩
  · rw [hslots, hhandlers]
    exact h.general
  · rw [hslots, hhandlers]
    exact h.reserve
  · rw [hhandlers]
    exact h.privileged

theorem Conserved.admitClient (h : Conserved general reserve s) (uid : Option UInt32) :
    Conserved general reserve (s.admitClient uid) := by
  have hgeneral := h.general
  have hreserve := h.reserve
  unfold Server.admitClient
  rcases tryAdmit_cases s.slots (isPrivilegedUid uid s.operator) with
    ⟨hroom, heq⟩ | ⟨-, hprivileged, hroom, heq⟩ | ⟨-, -, heq⟩
  · rw [heq]
    refine ⟨?_, ?_, fun handler hmem hpermit => ?_⟩
    · simp only [List.countP_append, List.countP_singleton]
      simp
      omega
    · simpa [List.countP_append] using hreserve
    · rcases List.mem_append.mp hmem with hmem | hmem
      · exact h.privileged handler hmem hpermit
      · rw [List.mem_singleton.mp hmem] at hpermit
        cases hpermit
  · rw [heq]
    refine ⟨?_, ?_, fun handler hmem hpermit => ?_⟩
    · simpa [List.countP_append] using hgeneral
    · simp only [List.countP_append, List.countP_singleton]
      simp
      omega
    · rcases List.mem_append.mp hmem with hmem | hmem
      · exact h.privileged handler hmem hpermit
      · rw [List.mem_singleton.mp hmem]
        exact hprivileged
  · rw [heq]
    exact h

theorem Conserved.finish (h : Conserved general reserve s) {i : ℕ} {handler : Handler}
    (hi : s.handlers[i]? = some handler) (hslots : s'.slots = s.slots.release handler.permit)
    (hhandlers : s'.handlers = s.handlers.eraseIdx i) : Conserved general reserve s' := by
  have hgeneral := h.general
  have hreserve := h.reserve
  have hperm : s.handlers.Perm (handler :: s.handlers.eraseIdx i) := by
    obtain ⟨hlt, rfl⟩ := List.getElem?_eq_some_iff.mp hi
    exact (List.getElem_cons_eraseIdx_perm hlt).symm
  rw [hperm.countP_eq, List.countP_cons] at hgeneral hreserve
  refine ⟨?_, ?_, fun g hg => ?_⟩
  · rw [hslots, hhandlers]
    cases hpermit : handler.permit <;> simp [hpermit, IpcSlots.release] at hgeneral ⊢ <;> omega
  · rw [hslots, hhandlers]
    cases hpermit : handler.permit <;> simp [hpermit, IpcSlots.release] at hreserve ⊢ <;> omega
  · rw [hhandlers] at hg
    exact h.privileged g (List.mem_of_mem_eraseIdx hg)

theorem Conserved.step (h : Conserved general reserve s) (hstep : s.next e = some s') :
    Conserved general reserve s' := by
  rcases slots_of_next hstep with
    ⟨hslots, hhandlers⟩ | ⟨uid, -, hslots, hhandlers⟩ | ⟨i, handler, hi, hslots, hhandlers⟩
  · exact h.congr hslots hhandlers
  · exact (h.admitClient uid).congr hslots hhandlers
  · exact h.finish hi hslots hhandlers

end Slots

/-- What can be said of the slots of a server whose pools had `general` and `reserve` permits: how many handlers run,
how many of them for clients that were not privileged, that the administrator gets in as long as fewer privileged
clients than the reserve has permits are being served, and when a client is turned away. -/
structure Admission (general reserve : ℕ) (s : Server) : Prop where
  handlers_le : s.handlers.length ≤ general + reserve
  unprivileged_le : s.handlers.countP (fun h => !h.privileged) ≤ general
  administrator : ∀ uid, isPrivilegedUid uid s.operator = true →
    s.handlers.countP (fun h => h.privileged) < reserve →
    (s.admitClient uid).handlers.length = s.handlers.length + 1
  turnedAway : ∀ uid, (s.admitClient uid).handlers = s.handlers →
    s.handlers.countP (fun h => h.permit = .general) = general ∧
      (isPrivilegedUid uid s.operator = true → s.handlers.countP (fun h => h.permit = .reserve) = reserve)

theorem Conserved.admission {general reserve : ℕ} {s : Server} (h : Conserved general reserve s) :
    Admission general reserve s := by
  have hgeneral := h.general
  have hreserve := h.reserve
  have hpools : ∀ hs : List Handler, hs.countP (fun h => h.permit = .general) +
      hs.countP (fun h => h.permit = .reserve) = hs.length := by
    intro hs
    rw [List.length_eq_countP_add_countP (fun h : Handler => decide (h.permit = .general))]
    congr 1
    refine List.countP_congr fun handler _ => ?_
    cases handler.permit <;> simp
  have hlength := hpools s.handlers
  -- a client without privileges holds no permit of the reserve
  have hunprivileged : s.handlers.countP (fun h => !h.privileged) ≤
      s.handlers.countP (fun h => h.permit = .general) := by
    refine List.countP_mono_left fun handler hmem hnot => ?_
    cases hpermit : handler.permit with
    | general => simp
    | reserve =>
      rw [h.privileged handler hmem hpermit] at hnot
      cases hnot
  have hheld : s.handlers.countP (fun h => h.permit = .reserve) ≤ s.handlers.countP (fun h => h.privileged) := by
    refine List.countP_mono_left fun handler hmem hpermit => ?_
    exact h.privileged handler hmem (by simpa using hpermit)
  refine ⟨by omega, by omega, fun uid hprivileged hroom => ?_, fun uid hsame => ?_⟩
  · unfold Server.admitClient
    rcases tryAdmit_cases s.slots (isPrivilegedUid uid s.operator) with ⟨-, heq⟩ | ⟨-, -, -, heq⟩ | ⟨-, hfull, -⟩
    · rw [heq]
      simp
    · rw [heq]
      simp
    · have hempty := hfull hprivileged
      omega
  · unfold Server.admitClient at hsame
    rcases tryAdmit_cases s.slots (isPrivilegedUid uid s.operator) with ⟨-, heq⟩ | ⟨-, -, -, heq⟩ | ⟨hempty, hfull, -⟩
    · rw [heq] at hsame
      simp at hsame
    · rw [heq] at hsame
      simp at hsame
    · refine ⟨by omega, fun hprivileged => ?_⟩
      have := hfull hprivileged
      omega

/-- **Slots of the IPC server**, over every run of the accept loop and its handlers: no permit is lost or made up, the
reserve is held by privileged clients only, and nobody is turned away over a slot that was theirs to take. -/
theorem slots_run (c : IpcConfig) (start : ℕ) (operator : Option UInt32) {events : List Event} {s : Server}
    (hrun : Run (fun s e s' => s.next e = some s') (fun _ _ => True) (Server.new c start operator) events s) :
    Conserved c.maxClientsOrDefault c.reservedClientsOrDefault s ∧
      Admission c.maxClientsOrDefault c.reservedClientsOrDefault s := by
  have hconserved : Conserved c.maxClientsOrDefault c.reservedClientsOrDefault s :=
    hrun.invariant (I := fun _ s => Conserved c.maxClientsOrDefault c.reservedClientsOrDefault s)
      ⟨by simp [Server.new], by simp [Server.new], fun _ h => (by cases h)⟩ fun _ _ _ _ h _ hstep => h.step hstep
  exact ⟨hconserved, hconserved.admission⟩

/-- Two strangers fill the general pool of two; a third one is turned away, the operator is not. -/
theorem slots_run_operator :
    ∃ s, Run (fun s e s' => s.next e = some s') (fun _ _ => True) (Server.new ⟨some 2, some 1⟩ 0 (some 1000))
        [.accept (some 1001), .accept none, .accept (some 1002), .accept (some 1000)] s ∧
      s.handlers.length = 3 ∧ Conserved 2 1 s ∧ Admission 2 1 s := by
  refine Run.exists_of_exec_imp (fun s => s.handlers.length = 3) (by decide +kernel) fun s hrun hlength => ?_
  exact ⟨hlength, slots_run _ 0 _ hrun⟩

/-! ### When `accept` fails -/

/-- By how much `n` errors in a row are ahead of one per second once the pause after the last is over. -/
def lead : ℕ → ℕ
  | 0 => 0
  | n + 1 => lead n + 1000 - acceptBackoff (n + 1)

theorem acceptBackoff_le (n : ℕ) : acceptBackoff n ≤ 1000 := by
  unfold acceptBackoff
  split
  · exact Nat.zero_le _
  · exact Nat.min_le_right _ _

/-- From the sixth error on, the pause is a full second. -/
theorem acceptBackoff_of_ge {n : ℕ} (h : 6 ≤ n) : acceptBackoff n = 1000 := by
  have hpow : 2 ^ 5 ≤ 2 ^ min (n - 1) 10 := Nat.pow_le_pow_right (by decide) (by omega)
  unfold acceptBackoff
  rw [if_neg (by omega)]
  omega

theorem lead_succ (n : ℕ) : lead (n + 1) + acceptBackoff (n + 1) = lead n + 1000 := by
  have hle := acceptBackoff_le (n + 1)
  rw [lead]
  omega

theorem lead_of_ge {n : ℕ} (h : 5 ≤ n) : lead n = 3450 := by
  induction n, h using Nat.le_induction with
  | base => decide
  | succ n hn ih =>
    have hsucc := lead_succ n
    rw [acceptBackoff_of_ge (show 6 ≤ n + 1 by omega)] at hsucc
    omega

theorem lead_le (n : ℕ) : lead n ≤ 3450 := by
  by_cases h : 5 ≤ n
  · exact (lead_of_ge h).le
  · have hall : ∀ k < 5, lead k ≤ 3450 := by decide
    exact hall n (by omega)

/-- One more error, counted without overflow. -/
theorem lead_acceptFailed (n : ℕ) :
    lead (min (n + 1) (2 ^ 32 - 1)) + acceptBackoff (min (n + 1) (2 ^ 32 - 1)) = lead n + 1000 := by
  by_cases h : n + 1 ≤ 2 ^ 32 - 1
  · rw [Nat.min_eq_left h, lead_succ]
  · rw [Nat.min_eq_right (by omega), lead_of_ge (by decide), lead_of_ge (by omega),
      acceptBackoff_of_ge (by decide)]

/-- The time up to which the loop does not accept. -/
def Server.pausedTo (s : Server) : ℕ := max (s.acceptPausedUntil.getD 0) s.now

/-- Every failed call is paid for: a second each by the time up to the end of the pause, what a run of errors is
ahead of that by the connection that ended it. -/
structure Charged (start : ℕ) (s : Server) : Prop where
  started : start ≤ s.now
  pause : s.pausedTo ≤ s.now + 1000
  failed : 1000 * s.failed ≤ 3450 * s.accepted + lead s.acceptErrors + (s.pausedTo - start)
  warnings : s.warnings ≤ 2 * s.accepted + min s.acceptErrors 1

section Errors

variable {start : ℕ} {s s' : Server} {e : Event}

theorem pausedTo_of_isNone (h : s.acceptPausedUntil.isNone = true) : s.pausedTo = s.now := by
  rw [Option.isNone_iff_eq_none] at h
  simp [Server.pausedTo, h]

/-- Slots, handlers and the operator do not matter. -/
theorem Charged.congr (h : Charged start s) (hnow : s'.now = s.now)
    (hpause : s'.acceptPausedUntil = s.acceptPausedUntil) (haccepted : s'.accepted = s.accepted)
    (hfailed : s'.failed = s.failed) (herrors : s'.acceptErrors = s.acceptErrors)
    (hwarnings : s'.warnings = s.warnings) : Charged start s' := by
  have hto : s'.pausedTo = s.pausedTo := by rw [Server.pausedTo, Server.pausedTo, hnow, hpause]
  refine ⟨?_, ?_, ?_, ?_⟩
  · rw [hnow]
    exact h.started
  · rw [hto, hnow]
    exact h.pause
  · rw [hfailed, haccepted, herrors, hto]
    exact h.failed
  · rw [hwarnings, haccepted, herrors]
    exact h.warnings

theorem Charged.tick (h : Charged start s) (elapsed : ℕ) : Charged start { s with now := s.now + elapsed } := by
  obtain ⟨hstarted, hpause, hfailed, hwarnings⟩ := h
  simp only [Server.pausedTo] at hpause hfailed
  refine ⟨?_, ?_, ?_, hwarnings⟩
  · dsimp only
    omega
  · simp only [Server.pausedTo]
    omega
  · simp only [Server.pausedTo]
    omega

theorem Charged.resume (h : Charged start s) {t : ℕ} (ht : s.acceptPausedUntil = some t) (hover : t ≤ s.now) :
    Charged start { s with acceptPausedUntil := none } := by
  obtain ⟨hstarted, hpause, hfailed, hwarnings⟩ := h
  simp only [Server.pausedTo, ht, Option.getD_some] at hpause hfailed
  refine ⟨hstarted, ?_, ?_, hwarnings⟩
  · simp only [Server.pausedTo, Option.getD_none]
    omega
  · simp only [Server.pausedTo, Option.getD_none]
    omega

theorem admitClient_eq (s : Server) (uid : Option UInt32) : ∃ slots handlers,
    s.admitClient uid = { s with slots := slots, handlers := handlers } := by
  unfold Server.admitClient
  split
  · exact ⟨_, _, rfl⟩
  · exact ⟨s.slots, s.handlers, rfl⟩

theorem Charged.accept (h : Charged start s) (hopen : s.acceptPausedUntil.isNone = true) (uid : Option UInt32) :
    Charged start { s.recovered.admitClient uid with accepted := s.accepted + 1 } := by
  obtain ⟨slots, handlers, heq⟩ := admitClient_eq s.recovered uid
  obtain ⟨hstarted, -, hfailed, hwarnings⟩ := h
  rw [pausedTo_of_isNone hopen] at hfailed
  rw [Option.isNone_iff_eq_none] at hopen
  have hlead := lead_le s.acceptErrors
  rw [heq]
  unfold Server.recovered
  split
  · -- the run of errors is over, and what it was ahead is paid for
    refine ⟨hstarted, ?_, ?_, ?_⟩
    · simp [Server.pausedTo, hopen]
    · simp only [Server.pausedTo, hopen, lead, Option.getD_none]
      omega
    · dsimp only
      split <;> omega
  · rename_i hnone
    have hzero : s.acceptErrors = 0 := by omega
    refine ⟨hstarted, ?_, ?_, ?_⟩
    · simp [Server.pausedTo, hopen]
    · simp only [Server.pausedTo, hopen, Option.getD_none]
      omega
    · dsimp only
      omega

theorem Charged.acceptError (h : Charged start s) (hopen : s.acceptPausedUntil.isNone = true) :
    Charged start s.acceptFailed := by
  obtain ⟨hstarted, -, hfailed, hwarnings⟩ := h
  rw [pausedTo_of_isNone hopen] at hfailed
  have hlead := lead_acceptFailed s.acceptErrors
  have hpos : 1 ≤ min (s.acceptErrors + 1) (2 ^ 32 - 1) := Nat.le_min.mpr ⟨Nat.le_add_left 1 _, by decide⟩
  unfold Server.acceptFailed
  generalize min (s.acceptErrors + 1) (2 ^ 32 - 1) = errors at hlead hpos ⊢
  have hbackoff := acceptBackoff_le errors
  refine ⟨hstarted, ?_, ?_, ?_⟩
  · simp only [Server.pausedTo, Option.getD_some]
    omega
  · simp only [Server.pausedTo, Option.getD_some]
    omega
  · dsimp only
    split <;> omega

theorem Charged.step (h : Charged start s) (hstep : s.next e = some s') : Charged start s' := by
  cases e with
  | tick elapsed =>
    cases hstep
    exact h.tick elapsed
  | resume =>
    simp only [Server.next] at hstep
    split at hstep
    · rename_i t ht
      split at hstep
      · rename_i hover
        cases hstep
        exact h.resume ht hover
      · cases hstep
    · cases hstep
  | accept uid =>
    simp only [Server.next] at hstep
    split at hstep
    · rename_i hopen
      cases hstep
      exact h.accept hopen uid
    · cases hstep
  | acceptError =>
    simp only [Server.next] at hstep
    split at hstep
    · rename_i hopen
      rw [← Option.some.inj hstep]
      exact h.acceptError hopen
    · cases hstep
  | finish i =>
    simp only [Server.next] at hstep
    split at hstep
    · cases hstep
      exact h.congr rfl rfl rfl rfl rfl rfl
    · cases hstep
  | setOperator uid =>
    cases hstep
    exact h.congr rfl rfl rfl rfl rfl rfl

end Errors

/-- **A failing listener neither spins nor floods the journal**: however the failures fall, there is at most one a
second beyond the time passed, apart from a few that every accepted connection and the start account for, and the
warnings about them are at most two for each connection and one. -/
theorem accept_errors_le (c : IpcConfig) (start : ℕ) (operator : Option UInt32) {events : List Event} {s : Server}
    (hrun : Run (fun s e s' => s.next e = some s') (fun _ _ => True) (Server.new c start operator) events s) :
    1000 * s.failed ≤ (s.now - start) + 3450 * s.accepted + 4450 ∧ s.warnings ≤ 2 * s.accepted + 1 := by
  have hinv : Charged start s :=
    hrun.invariant (I := fun _ s => Charged start s)
      ⟨le_rfl, by simp [Server.new, Server.pausedTo], by simp [Server.new], by simp [Server.new]⟩
      fun _ _ _ _ h _ hstep => h.step hstep
  obtain ⟨hstarted, hpause, hfailed, hwarnings⟩ := hinv
  have hlead := lead_le s.acceptErrors
  refine ⟨by omega, by omega⟩

/-- Six failures as fast as the pauses allow: the bound is reached. -/
theorem accept_errors_le_tight :
    ∃ s, Run (fun s e s' => s.next e = some s') (fun _ _ => True) (Server.new ⟨none, none⟩ 0 none)
        [.acceptError, .tick 50, .resume, .acceptError, .tick 100, .resume, .acceptError, .tick 200, .resume,
          .acceptError, .tick 400, .resume, .acceptError, .tick 800, .resume, .acceptError] s ∧
      1000 * s.failed = (s.now - 0) + 3450 * s.accepted + 4450 ∧
      1000 * s.failed ≤ (s.now - 0) + 3450 * s.accepted + 4450 ∧ s.warnings ≤ 2 * s.accepted + 1 := by
  refine Run.exists_of_exec_imp (fun s => 1000 * s.failed = (s.now - 0) + 3450 * s.accepted + 4450)
    (by decide +kernel) fun s hrun htight => ?_
  exact ⟨htight, accept_errors_le _ 0 _ hrun⟩

end Tetron.Ipc
