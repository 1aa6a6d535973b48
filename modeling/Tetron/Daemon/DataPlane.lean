import Tetron.Lib.Run
import Tetron.Lib.Table

/-!
# The data planes of the networks

Each network the daemon has joined has its own packet interface. `attach_tun` starts two tasks for it, the writer and
the mesh loop, installs them in `tun_tasks` of the network's handle and points `tun_tx`, the cell every reader of the
network sends to, at the new writer. `detach_tun` and `teardown_network_runtime` take them out again, and `resume` and
`standby` set the flag the writer looks at.

All of this runs at once, on any number of networks and on the same one. The handles live in a concurrent map: whoever
holds a reference to an entry keeps it from being removed or replaced, and an iteration over the keys reads one shard
after the other. A dropped join handle does not stop its task, so that a data plane nobody has the handles of runs on
for as long as the daemon.

`planes_accounted` says that none is lost: while no call is at work, every data plane that runs is installed in the
handle of a network the daemon is in, as long as no insertion replaces a handle.
-/

namespace Tetron.Daemon.DataPlane

/-- A call at work. Handles and data planes are numbered in the order they are made. -/
inductive Call (N : Type) where
  /-- `attach_tun` with its reference to the handle. `network` is the network `create_and_attach_network_tun` is at
  work on, if that is the caller. -/
  | attaching (handle : ℕ) (network : Option N)
  /-- The new sender is stored and the new tasks run, but `tun_tasks` does not have them yet. -/
  | stored (handle plane : ℕ) (network : Option N)
  /-- `create_and_attach_network_tun` before it loads the daemon's `active`. -/
  | checking (network : N)
  /-- It was set, and the network's own flag is set next. -/
  | raising (network : N)
  /-- `activate` or `deactivate`, with the next shard to read and the networks still to visit. -/
  | sweeping (active : Bool) (shard : ℕ) (targets : List N)
  /-- `teardown_network_runtime`, which owns the handle and awaits the network's tasks. -/
  | teardown (handle : ℕ)
  | done
deriving DecidableEq

/-- The call has a reference to the handle's entry. -/
def Call.holds {N : Type} (handle : ℕ) : Call N → Bool
  | .attaching h _ => h = handle
  | .stored h _ _ => h = handle
  | _ => false

/-- The daemon's memory, as far as the data planes go. -/
structure Manager (N : Type) where
  /-- The default for a network that is new. -/
  active : Bool
  networks : HashTable N ℕ
  handles : ℕ
  /-- `NetworkHandle::active`. -/
  flag : ℕ → Bool
  /-- The data plane whose writer the sender in `tun_tx` leads to; `none` for the placeholder. -/
  tunTx : ℕ → Option ℕ
  tunTasks : ℕ → Option ℕ
  planes : ℕ
  /-- The handle a data plane was started for; its writer reads that handle's flag. -/
  owner : ℕ → ℕ
  aborted : ℕ → Bool
  calls : List (Call N)

inductive Event (N : Type) where
  /-- `networks.insert`, with a new handle. -/
  | insert (network : N)
  /-- The start of `teardown_network_runtime`. -/
  | remove (network : N)
  | finishTeardown (i : ℕ)
  /-- `attach_tun` by an embedder. -/
  | attachTun (network : N)
  /-- `attach_tun` by `create_and_attach_network_tun`, which has made the device. -/
  | createAndAttach (network : N)
  | store (i : ℕ)
  | replace (i : ℕ)
  | check (i : ℕ)
  | raise (i : ℕ)
  | detachTun (network : N)
  /-- The start of `activate` (`true`) or `deactivate`. -/
  | toggle (active : Bool) (network : Option N)
  | collect (i : ℕ)
  | visit (i : ℕ)

namespace Manager

section Operations

variable {N : Type}

def boot : Manager N :=
  { active := false, networks := ∅, handles := 0, flag := fun _ => false, tunTx := fun _ => none,
    tunTasks := fun _ => none, planes := 0, owner := fun _ => 0, aborted := fun _ => false, calls := [] }

/-- Somebody has a reference to the handle's entry in the map. -/
def referenced (m : Manager N) (handle : ℕ) : Bool := m.calls.any (·.holds handle)

def begin (m : Manager N) (call : Call N) : Manager N := { m with calls := m.calls ++ [call] }

def setCall (m : Manager N) (i : ℕ) (call : Call N) : Manager N := { m with calls := m.calls.set i call }

/-- Take what is in `tun_tasks`, cancel and abort it, and leave `tasks` there. -/
def replaceTasks (m : Manager N) (handle : ℕ) (tasks : Option ℕ) : Manager N :=
  { m with
    tunTasks := Function.update m.tunTasks handle tasks
    aborted := fun plane => m.aborted plane || decide (m.tunTasks handle = some plane) }

def setFlag (m : Manager N) (handle : ℕ) (active : Bool) : Manager N :=
  { m with flag := Function.update m.flag handle active }

/-- A fresh channel, its sender stored in `tun_tx`, and the tasks of a new data plane. -/
def startPlane (m : Manager N) (handle : ℕ) : Manager N :=
  { m with
    planes := m.planes + 1
    owner := Function.update m.owner m.planes handle
    aborted := Function.update m.aborted m.planes false
    tunTx := Function.update m.tunTx handle (some m.planes) }

variable [DecidableEq N]

def insertHandle (m : Manager N) (network : N) : Manager N :=
  { m with
    networks := m.networks.insert network m.handles
    handles := m.handles + 1
    flag := Function.update m.flag m.handles false
    tunTx := Function.update m.tunTx m.handles none
    tunTasks := Function.update m.tunTasks m.handles none }

def next {shards : ℕ} (shardOf : N → Fin shards) (m : Manager N) : Event N → Option (Manager N)
  | .insert network =>
    if (m.networks.get? network).any m.referenced then none else some (m.insertHandle network)
  | .remove network =>
    match m.networks.get? network with
    | some h =>
      if m.referenced h then none
      else some (begin { m with networks := m.networks.erase network } (.teardown h))
    | none => some m
  | .finishTeardown i =>
    match m.calls[i]? with
    | some (.teardown h) => some ((m.replaceTasks h none).setCall i .done)
    | _ => none
  | .attachTun network =>
    match m.networks.get? network with
    | some h => some (m.begin (.attaching h none))
    | none => some m
  | .createAndAttach network =>
    match m.networks.get? network with
    | some h => some (m.begin (.attaching h (some network)))
    | none => some (m.begin (.checking network))
  | .store i =>
    match m.calls[i]? with
    | some (.attaching h network) => some ((m.startPlane h).setCall i (.stored h m.planes network))
    | _ => none
  | .replace i =>
    match m.calls[i]? with
    | some (.stored h p network) => some ((m.replaceTasks h (some p)).setCall i (network.elim .done .checking))
    | _ => none
  | .check i =>
    match m.calls[i]? with
    | some (.checking network) => some (m.setCall i (if m.active then .raising network else .done))
    | _ => none
  | .raise i =>
    match m.calls[i]? with
    | some (.raising network) =>
      match m.networks.get? network with
      | some h => some ((m.setFlag h true).setCall i .done)
      | none => some (m.setCall i .done)
    | _ => none
  | .detachTun network =>
    match m.networks.get? network with
    | some h => some (m.replaceTasks h none)
    | none => some m
  | .toggle active (some network) =>
    if (m.networks.get? network).isSome then some (m.begin (.sweeping active shards [network])) else some m
  | .toggle active none => some (begin { m with active := active } (.sweeping active 0 []))
  | .collect i =>
    match m.calls[i]? with
    | some (.sweeping active k targets) =>
      if k < shards then
        some (m.setCall i
          (.sweeping active (k + 1) (targets ++ m.networks.keys.filter fun n => (shardOf n).val = k)))
      else none
    | _ => none
  | .visit i =>
    match m.calls[i]? with
    | some (.sweeping active k (network :: targets)) =>
      if k < shards then none
      else
        match m.networks.get? network with
        | some h => some ((m.setFlag h active).setCall i (.sweeping active k targets))
        | none => some (m.setCall i (.sweeping active k targets))
    | some (.sweeping _ k []) => if k < shards then none else some (m.setCall i .done)
    | _ => none

/-- `spawn_tun_writer`: whether the writer of the data plane writes a packet it is handed now. -/
def writes (m : Manager N) (plane : ℕ) : Bool := plane < m.planes && !m.aborted plane && m.flag (m.owner plane)

end Operations

end Manager

/-! ### What a step does

Every step does one of these to the memory, and moves one call. -/

section Moves

variable {N : Type} [DecidableEq N] {shards : ℕ} {shardOf : N → Fin shards} {m m' : Manager N} {e : Event N}

/-- One of the calls that neither hold a reference nor account for a data plane moves on to another. -/
inductive Idle (m : Manager N) : Call N → Call N → Prop
  | check (network : N) : Idle m (.checking network) (if m.active then .raising network else .done)
  | raised (network : N) (gone : m.networks.get? network = none) : Idle m (.raising network) .done
  | skip (active : Bool) (k : ℕ) (network : N) (targets : List N) (gone : m.networks.get? network = none) :
      Idle m (.sweeping active k (network :: targets)) (.sweeping active k targets)
  | swept (active : Bool) (k : ℕ) : Idle m (.sweeping active k []) .done

inductive Moves (shardOf : N → Fin shards) (m : Manager N) : Event N → Manager N → Prop
  | insert (network : N) (free : ∀ h, m.networks.get? network = some h → m.referenced h = false) :
      Moves shardOf m (.insert network) (m.insertHandle network)
  | remove (network : N) (h : ℕ) (hget : m.networks.get? network = some h) (free : m.referenced h = false) :
      Moves shardOf m (.remove network)
        (Manager.begin { m with networks := m.networks.erase network } (.teardown h))
  | finishTeardown (i h : ℕ) (hi : m.calls[i]? = some (.teardown h)) :
      Moves shardOf m (.finishTeardown i) ((m.replaceTasks h none).setCall i .done)
  | attach (e : Event N) (network : N) (caller : Option N) (h : ℕ)
      (he : e = .attachTun network ∨ e = .createAndAttach network) (hget : m.networks.get? network = some h) :
      Moves shardOf m e (m.begin (.attaching h caller))
  | missing (network : N) : Moves shardOf m (.createAndAttach network) (m.begin (.checking network))
  | store (i h : ℕ) (network : Option N) (hi : m.calls[i]? = some (.attaching h network)) :
      Moves shardOf m (.store i) ((m.startPlane h).setCall i (.stored h m.planes network))
  | replace (i h p : ℕ) (network : Option N) (hi : m.calls[i]? = some (.stored h p network)) :
      Moves shardOf m (.replace i) ((m.replaceTasks h (some p)).setCall i (network.elim .done .checking))
  | raise (i h : ℕ) (network : N) (hi : m.calls[i]? = some (.raising network))
      (hget : m.networks.get? network = some h) :
      Moves shardOf m (.raise i) ((m.setFlag h true).setCall i .done)
  | detach (network : N) (h : ℕ) (hget : m.networks.get? network = some h) :
      Moves shardOf m (.detachTun network) (m.replaceTasks h none)
  | toggleOne (active : Bool) (network : N) :
      Moves shardOf m (.toggle active (some network)) (m.begin (.sweeping active shards [network]))
  | toggleAll (active : Bool) :
      Moves shardOf m (.toggle active none) (Manager.begin { m with active := active } (.sweeping active 0 []))
  | collect (i k : ℕ) (active : Bool) (targets : List N) (hi : m.calls[i]? = some (.sweeping active k targets)) :
      Moves shardOf m (.collect i) (m.setCall i
        (.sweeping active (k + 1) (targets ++ m.networks.keys.filter fun n => (shardOf n).val = k)))
  | visit (i k h : ℕ) (active : Bool) (network : N) (targets : List N) (last : shards ≤ k)
      (hi : m.calls[i]? = some (.sweeping active k (network :: targets)))
      (hget : m.networks.get? network = some h) :
      Moves shardOf m (.visit i) ((m.setFlag h active).setCall i (.sweeping active k targets))
  | idle (e : Event N) (i : ℕ) (old new : Call N) (hi : m.calls[i]? = some old) (hidle : Idle m old new)
      (last : ∀ active k targets, old = .sweeping active k targets → shards ≤ k) :
      Moves shardOf m e (m.setCall i new)
  | stay (e : Event N) : Moves shardOf m e m

theorem moves_of_next (h : m.next shardOf e = some m') : Moves shardOf m e m' := by
  cases e with
  | insert network =>
    simp only [Manager.next] at h
    split at h
    · cases h
    · rename_i hfree
      cases h
      refine .insert network fun h hget => ?_
      rw [hget] at hfree
      simpa using hfree
  | remove network =>
    simp only [Manager.next] at h
    split at h
    · rename_i handle hget
      split at h
      · cases h
      · rename_i hfree
        cases h
        exact .remove network handle hget (by simpa using hfree)
    · cases h
      exact .stay _
  | finishTeardown i =>
    simp only [Manager.next] at h
    split at h
    · rename_i handle hi
      cases h
      exact .finishTeardown i handle hi
    · cases h
  | attachTun network =>
    simp only [Manager.next] at h
    split at h
    · rename_i handle hget
      cases h
      exact .attach _ network none handle (.inl rfl) hget
    · cases h
      exact .stay _
  | createAndAttach network =>
    simp only [Manager.next] at h
    split at h
    · rename_i handle hget
      cases h
      exact .attach _ network (some network) handle (.inr rfl) hget
    · cases h
      exact .missing network
  | store i =>
    simp only [Manager.next] at h
    split at h
    · rename_i handle network hi
      cases h
      exact .store i handle network hi
    · cases h
  | replace i =>
    simp only [Manager.next] at h
    split at h
    · rename_i handle p network hi
      cases h
      exact .replace i handle p network hi
    · cases h
  | check i =>
    simp only [Manager.next] at h
    split at h
    · rename_i network hi
      cases h
      exact .idle _ i _ _ hi (.check network) fun _ _ _ heq => (by cases heq)
    · cases h
  | raise i =>
    simp only [Manager.next] at h
    split at h
    · rename_i network hi
      split at h
      · rename_i handle hget
        cases h
        exact .raise i handle network hi hget
      · rename_i hgone
        cases h
        exact .idle _ i _ _ hi (.raised network hgone) fun _ _ _ heq => (by cases heq)
    · cases h
  | detachTun network =>
    simp only [Manager.next] at h
    split at h
    · rename_i handle hget
      cases h
      exact .detach network handle hget
    · cases h
      exact .stay _
  | toggle active network =>
    cases network with
    | none =>
      simp only [Manager.next, Option.some.injEq] at h
      rw [← h]
      exact .toggleAll active
    | some network =>
      simp only [Manager.next] at h
      split at h
      · cases h
        exact .toggleOne active network
      · cases h
        exact .stay _
  | collect i =>
    simp only [Manager.next] at h
    split at h
    · rename_i active k targets hi
      split at h
      · cases h
        exact .collect i k active targets hi
      · cases h
    · cases h
  | visit i =>
    simp only [Manager.next] at h
    split at h
    · rename_i active k network targets hi
      split at h
      · cases h
      · rename_i hlast
        split at h
        · rename_i handle hget
          cases h
          exact .visit i k handle active network targets (by omega) hi hget
        · rename_i hgone
          cases h
          refine .idle _ i _ _ hi (.skip active k network targets hgone) fun _ _ _ heq => ?_
          cases heq
          omega
    · rename_i active k hi
      split at h
      · cases h
      · rename_i hlast
        cases h
        refine .idle _ i _ _ hi (.swept active k) fun _ _ _ heq => ?_
        cases heq
        omega
    · cases h

end Moves

/-! ### Calls and data planes -/

section Calls

variable {N : Type} {m : Manager N} {calls : List (Call N)} {i : ℕ} {c old new : Call N}

/-- A call other than the one that moves is still there. -/
theorem mem_set_of_ne (hi : calls[i]? = some old) (hc : c ∈ calls) (hne : c ≠ old) : c ∈ calls.set i new := by
  obtain ⟨j, hj⟩ := List.mem_iff_getElem?.mp hc
  have hij : i ≠ j := by
    rintro rfl
    rw [hi] at hj
    exact hne (Option.some.inj hj).symm
  exact List.mem_iff_getElem?.mpr ⟨j, by rw [List.getElem?_set_ne hij]; exact hj⟩

theorem mem_set_self (hi : calls[i]? = some old) : new ∈ calls.set i new := by
  obtain ⟨hlt, -⟩ := List.getElem?_eq_some_iff.mp hi
  exact List.mem_iff_getElem?.mpr ⟨i, by rw [List.getElem?_set_self hlt]⟩

/-- No call has a reference to a handle that is free. -/
theorem not_holds_of_free {h : ℕ} (hfree : m.referenced h = false) (hc : c ∈ m.calls) :
    c.holds h = false := by
  rw [Manager.referenced, List.any_eq_false] at hfree
  simpa using hfree c hc

theorem elim_not_holds (network : Option N) (h : ℕ) :
    (network.elim Call.done Call.checking).holds h = false := by
  cases network with
  | none => rfl
  | some _ => rfl

/-- The new data plane is none of those there are. -/
theorem startPlane_owner (h : ℕ) {p : ℕ} (hp : p < m.planes) : (m.startPlane h).owner p = m.owner p :=
  Function.update_of_ne (Nat.ne_of_lt hp) _ _

/-- What runs after the tasks of a handle have been replaced ran before, and was not among them. -/
theorem running_of_replaceTasks {h p : ℕ} {tasks : Option ℕ} (hrun : (m.replaceTasks h tasks).aborted p = false) :
    m.aborted p = false ∧ m.tunTasks h ≠ some p := by
  simpa [Manager.replaceTasks, Bool.or_eq_false_iff] using hrun

end Calls

/-! ### Whose data plane is whose -/

section Owned

variable {N : Type} [DecidableEq N] {shards : ℕ} {shardOf : N → Fin shards} {m m' : Manager N} {e : Event N}

/-- The daemon is in the network the handle stands for. -/
def Live (m : Manager N) (h : ℕ) : Prop := ∃ network, m.networks.get? network = some h

/-- What holds in every run: handles and data planes are what they were made as, and a handle that is referred to is in
the map. -/
structure Owned (m : Manager N) : Prop where
  made : ∀ network h, m.networks.get? network = some h → h < m.handles
  one : ∀ network network' h, m.networks.get? network = some h → m.networks.get? network' = some h →
    network = network'
  sent : ∀ h p, m.tunTx h = some p → p < m.planes
  tasks : ∀ h p, m.tunTasks h = some p → m.owner p = h ∧ p < m.planes ∧ h < m.handles
  stored : ∀ h p network, .stored h p network ∈ m.calls → m.owner p = h ∧ p < m.planes
  held : ∀ c ∈ m.calls, ∀ h, c.holds h = true → Live m h

theorem owned_boot : Owned (Manager.boot : Manager N) where
  made _ _ h := by cases h
  one _ _ _ h := by cases h
  sent _ _ h := by cases h
  tasks _ _ h := by cases h
  stored _ _ _ h := by cases h
  held _ h := by cases h

theorem Live.lt {h : ℕ} (hm : Owned m) (hlive : Live m h) : h < m.handles :=
  hlive.elim fun network hget => hm.made network h hget

/-- New calls refer to handles in the map and to data planes of theirs. -/
theorem Owned.calls (hm : Owned m) {calls : List (Call N)}
    (hnew : ∀ c ∈ calls, c ∈ m.calls ∨ (∀ h, c.holds h = true → Live m h) ∧
      ∀ h p network, c = .stored h p network → m.owner p = h ∧ p < m.planes) :
    Owned { m with calls := calls } where
  made := hm.made
  one := hm.one
  sent := hm.sent
  tasks := hm.tasks
  stored h p network hc := by
    rcases hnew _ hc with hold | ⟨-, hstored⟩
    · exact hm.stored h p network hold
    · exact hstored h p network rfl
  held c hc h hholds := by
    rcases hnew c hc with hold | ⟨hlive, -⟩
    · exact hm.held c hold h hholds
    · exact hlive h hholds

/-- A call that starts or moves on refers to no handle. -/
theorem Owned.begin_of_not_holds (hm : Owned m) {new : Call N} (hnew : ∀ h, new.holds h = false) :
    Owned (m.begin new) := by
  refine hm.calls fun c hc => ?_
  rcases List.mem_append.mp hc with hc | hc
  · exact .inl hc
  · rw [List.mem_singleton.mp hc]
    refine .inr ⟨fun h hholds => ?_, fun h p network heq => ?_⟩
    · rw [hnew h] at hholds
      cases hholds
    · have hholds := hnew h
      simp [heq, Call.holds] at hholds

theorem Owned.setCall_of_not_holds (hm : Owned m) {i : ℕ} {new : Call N} (hnew : ∀ h, new.holds h = false) :
    Owned (m.setCall i new) := by
  refine hm.calls fun c hc => ?_
  rcases List.mem_or_eq_of_mem_set hc with hc | rfl
  · exact .inl hc
  · refine .inr ⟨fun h hholds => ?_, fun h p network heq => ?_⟩
    · rw [hnew h] at hholds
      cases hholds
    · have hholds := hnew h
      simp [heq, Call.holds] at hholds

theorem Owned.setFlag (hm : Owned m) (h : ℕ) (active : Bool) : Owned (m.setFlag h active) :=
  ⟨hm.made, hm.one, hm.sent, hm.tasks, hm.stored, hm.held⟩

theorem Owned.replaceTasks (hm : Owned m) {h : ℕ} {tasks : Option ℕ}
    (hnew : ∀ p, tasks = some p → m.owner p = h ∧ p < m.planes ∧ h < m.handles) :
    Owned (m.replaceTasks h tasks) where
  made := hm.made
  one := hm.one
  sent := hm.sent
  tasks h' p hp := by
    by_cases heq : h' = h
    · subst heq
      exact hnew p (by simpa [Manager.replaceTasks] using hp)
    · exact hm.tasks h' p (by simpa [Manager.replaceTasks, heq] using hp)
  stored := hm.stored
  held := hm.held

theorem Owned.startPlane (hm : Owned m) (h : ℕ) : Owned (m.startPlane h) where
  made := hm.made
  one := hm.one
  sent h' p hp := by
    by_cases heq : h' = h
    · subst heq
      have hp : some m.planes = some p := by simpa [Manager.startPlane] using hp
      cases hp
      exact Nat.lt_succ_self _
    · exact Nat.lt_succ_of_lt (hm.sent h' p (by simpa [Manager.startPlane, heq] using hp))
  tasks h' p hp := by
    obtain ⟨howner, hlt, hmade⟩ := hm.tasks h' p hp
    exact ⟨(startPlane_owner h hlt).trans howner, Nat.lt_succ_of_lt hlt, hmade⟩
  stored h' p network hc := by
    obtain ⟨howner, hlt⟩ := hm.stored h' p network hc
    exact ⟨(startPlane_owner h hlt).trans howner, Nat.lt_succ_of_lt hlt⟩
  held := hm.held

/-- A handle that is in the map stays there when another network's entry is set. -/
theorem Live.insertHandle {h : ℕ} {network : N} (hlive : Live m h) (hne : m.networks.get? network ≠ some h) :
    Live (m.insertHandle network) h := by
  obtain ⟨other, hget⟩ := hlive
  have hother : other ≠ network := by
    rintro rfl
    exact hne hget
  exact ⟨other, (HashTable.get?_insert.trans (if_neg hother)).trans hget⟩

theorem Live.erase {h : ℕ} {network : N} (hlive : Live m h) (hne : m.networks.get? network ≠ some h) :
    Live { m with networks := m.networks.erase network } h := by
  obtain ⟨other, hget⟩ := hlive
  have hother : other ≠ network := by
    rintro rfl
    exact hne hget
  exact ⟨other, (HashTable.get?_erase.trans (if_neg hother)).trans hget⟩

theorem Owned.insertHandle (hm : Owned m) {network : N}
    (hfree : ∀ h, m.networks.get? network = some h → m.referenced h = false) : Owned (m.insertHandle network) where
  made other h hget := by
    rcases HashTable.get?_of_insert hget with ⟨-, heq⟩ | hget
    · exact Nat.lt_succ_of_le heq.ge
    · exact Nat.lt_succ_of_lt (hm.made other h hget)
  one other other' h hget hget' := by
    rcases HashTable.get?_of_insert hget with ⟨hname, heq⟩ | hold
    · rcases HashTable.get?_of_insert hget' with ⟨hname', -⟩ | hold'
      · exact hname.trans hname'.symm
      · exact absurd (hm.made other' h hold') (by omega)
    · rcases HashTable.get?_of_insert hget' with ⟨-, heq'⟩ | hold'
      · exact absurd (hm.made other h hold) (by omega)
      · exact hm.one other other' h hold hold'
  sent h p hp := by
    by_cases heq : h = m.handles
    · subst heq
      simp [Manager.insertHandle] at hp
    · exact hm.sent h p (by simpa [Manager.insertHandle, heq] using hp)
  tasks h p hp := by
    by_cases heq : h = m.handles
    · subst heq
      simp [Manager.insertHandle] at hp
    · obtain ⟨howner, hlt, hmade⟩ := hm.tasks h p (by simpa [Manager.insertHandle, heq] using hp)
      exact ⟨howner, hlt, Nat.lt_succ_of_lt hmade⟩
  stored := hm.stored
  held c hc h hholds := by
    refine (hm.held c hc h hholds).insertHandle fun hget => ?_
    rw [not_holds_of_free (hfree h hget) hc] at hholds
    cases hholds

theorem Owned.erase (hm : Owned m) {network : N} {h : ℕ} (hget : m.networks.get? network = some h)
    (hfree : m.referenced h = false) : Owned { m with networks := m.networks.erase network } where
  made other h hget := hm.made other h (HashTable.get?_of_erase hget)
  one other other' h hget hget' :=
    hm.one other other' h (HashTable.get?_of_erase hget) (HashTable.get?_of_erase hget')
  sent := hm.sent
  tasks := hm.tasks
  stored := hm.stored
  held c hc h' hholds := by
    refine (hm.held c hc h' hholds).erase fun hget' => ?_
    rw [hget] at hget'
    cases hget'
    rw [not_holds_of_free hfree hc] at hholds
    cases hholds

theorem Idle.not_holds {old new : Call N} (h : Idle m old new) (handle : ℕ) : new.holds handle = false := by
  cases h with
  | check network =>
    split
    · rfl
    · rfl
  | raised | skip | swept => rfl

theorem Owned.step (hm : Owned m) (hstep : m.next shardOf e = some m') : Owned m' := by
  cases moves_of_next hstep with
  | insert network free => exact hm.insertHandle free
  | remove network h hget free => exact (hm.erase hget free).begin_of_not_holds fun _ => rfl
  | finishTeardown i h hi =>
    exact (hm.replaceTasks fun _ hp => (by cases hp)).setCall_of_not_holds fun _ => rfl
  | attach _ network caller h _ hget =>
    refine hm.calls fun c hc => ?_
    rcases List.mem_append.mp hc with hc | hc
    · exact .inl hc
    · rw [List.mem_singleton.mp hc]
      refine .inr ⟨fun h' hholds => ⟨network, ?_⟩, fun _ _ _ heq => (by cases heq)⟩
      rw [hget, of_decide_eq_true hholds]
  | missing network => exact hm.begin_of_not_holds fun _ => rfl
  | store i h network hi =>
    have hlive := hm.held _ (List.mem_of_getElem? hi) h (decide_eq_true rfl)
    refine (hm.startPlane h).calls fun c hc => ?_
    rcases List.mem_or_eq_of_mem_set hc with hc | rfl
    · exact .inl hc
    · refine .inr ⟨fun h' hholds => ?_, fun _ _ _ heq => ?_⟩
      · rw [← of_decide_eq_true hholds]
        exact hlive
      · cases heq
        exact ⟨Function.update_self _ _ _, Nat.lt_succ_self _⟩
  | replace i h p network hi =>
    have hmem := List.mem_of_getElem? hi
    obtain ⟨howner, hlt⟩ := hm.stored h p network hmem
    have hlive := hm.held _ hmem h (decide_eq_true rfl)
    refine (hm.replaceTasks fun q hq => ?_).setCall_of_not_holds (elim_not_holds network)
    cases hq
    exact ⟨howner, hlt, hlive.lt hm⟩
  | raise i h network hi hget => exact (hm.setFlag h true).setCall_of_not_holds fun _ => rfl
  | detach network h hget => exact hm.replaceTasks fun _ hp => (by cases hp)
  | toggleOne active network => exact hm.begin_of_not_holds fun _ => rfl
  | toggleAll active =>
    exact Owned.begin_of_not_holds (m := { m with active := active })
      ⟨hm.made, hm.one, hm.sent, hm.tasks, hm.stored, hm.held⟩ fun _ => rfl
  | collect i k active targets hi => exact hm.setCall_of_not_holds fun _ => rfl
  | visit i k h active network targets last hi hget =>
    exact (hm.setFlag h active).setCall_of_not_holds fun _ => rfl
  | idle _ i old new hi hidle _ => exact hm.setCall_of_not_holds hidle.not_holds
  | stay => exact hm

end Owned

/-! ### No data plane is lost -/

section Accounted

variable {N : Type} [DecidableEq N] {shards : ℕ} {shardOf : N → Fin shards} {m m' : Manager N} {e : Event N}

/-- The calls that keep account of a data plane. -/
def Call.accounts : Call N → Bool
  | .stored _ _ _ => true
  | .teardown _ => true
  | _ => false

/-- Somebody is going to stop the data plane: it is installed in a handle that is in the map or about to be torn down,
or an attachment is about to install it. -/
def Accounts (m : Manager N) (p : ℕ) : Prop :=
  (m.tunTasks (m.owner p) = some p ∧ (Live m (m.owner p) ∨ .teardown (m.owner p) ∈ m.calls)) ∨
    ∃ network, .stored (m.owner p) p network ∈ m.calls

def Accounted (m : Manager N) : Prop := ∀ p < m.planes, m.aborted p = false → Accounts m p

/-- The insertion of a handle replaces no other one. -/
def insertsFresh (m : Manager N) : Event N → Bool
  | .insert network => (m.networks.get? network).isNone
  | _ => true

theorem Accounts.calls {p : ℕ} (h : Accounts m p) {calls : List (Call N)}
    (hkeep : ∀ c ∈ m.calls, c.accounts = true → c ∈ calls) : Accounts { m with calls := calls } p := by
  rcases h with ⟨htasks, hlive | hteardown⟩ | ⟨network, hstored⟩
  · exact .inl ⟨htasks, .inl hlive⟩
  · exact .inl ⟨htasks, .inr (hkeep _ hteardown rfl)⟩
  · exact .inr ⟨network, hkeep _ hstored rfl⟩

theorem Accounted.begin (h : Accounted m) (new : Call N) : Accounted (m.begin new) :=
  fun p hp hrun => (h p hp hrun).calls fun _ hc _ => List.mem_append_left _ hc

theorem Accounted.setCall (h : Accounted m) {i : ℕ} {old : Call N} (hi : m.calls[i]? = some old)
    (hold : old.accounts = false) (new : Call N) : Accounted (m.setCall i new) := by
  refine fun p hp hrun => (h p hp hrun).calls fun c hc hacc => mem_set_of_ne hi hc ?_
  rintro rfl
  rw [hold] at hacc
  cases hacc

theorem Accounted.insertHandle (h : Accounted m) (hm : Owned m) {network : N}
    (hfresh : m.networks.get? network = none) : Accounted (m.insertHandle network) := by
  intro p hp hrun
  rcases h p hp hrun with ⟨htasks, hacc⟩ | hstored
  · have hne : m.owner p ≠ m.handles := Nat.ne_of_lt (hm.tasks _ p htasks).2.2
    refine .inl ⟨(Function.update_of_ne hne _ _).trans htasks, ?_⟩
    rcases hacc with hlive | hteardown
    · exact .inl (hlive.insertHandle (by rw [hfresh]; simp))
    · exact .inr hteardown
  · exact .inr hstored

/-- A handle that leaves the map is accounted for by its teardown. -/
theorem Accounted.remove (h : Accounted m) {network : N} {handle : ℕ}
    (hget : m.networks.get? network = some handle) :
    Accounted (Manager.begin { m with networks := m.networks.erase network } (.teardown handle)) := by
  intro p hp hrun
  rcases h p hp hrun with ⟨htasks, hlive | hteardown⟩ | ⟨caller, hstored⟩
  · refine .inl ⟨htasks, ?_⟩
    by_cases heq : handle = m.owner p
    · exact .inr (List.mem_append_right _ (List.mem_singleton.mpr (congrArg Call.teardown heq.symm)))
    · refine .inl (hlive.erase fun hget' => heq ?_)
      rw [hget] at hget'
      exact Option.some.inj hget'
  · exact .inl ⟨htasks, .inr (List.mem_append_left _ hteardown)⟩
  · exact .inr ⟨caller, List.mem_append_left _ hstored⟩

/-- After the tasks of a handle have been replaced, every data plane that runs is accounted for as before, without the
help of that handle. -/
theorem Accounted.replaceTasks (h : Accounted m) {handle p : ℕ} {tasks : Option ℕ} (hp : p < m.planes)
    (hrun : (m.replaceTasks handle tasks).aborted p = false) :
    (m.owner p ≠ handle ∧ Accounts (m.replaceTasks handle tasks) p) ∨
      ∃ network, .stored (m.owner p) p network ∈ m.calls := by
  obtain ⟨hrun, hother⟩ := running_of_replaceTasks hrun
  rcases h p hp hrun with ⟨htasks, hacc⟩ | hstored
  · have hne : m.owner p ≠ handle := by
      rintro rfl
      exact hother htasks
    exact .inl ⟨hne, .inl ⟨(Function.update_of_ne hne _ _).trans htasks, hacc⟩⟩
  · exact .inr hstored

theorem Accounted.detach (h : Accounted m) (handle : ℕ) : Accounted (m.replaceTasks handle none) := by
  intro p hp hrun
  rcases h.replaceTasks hp hrun with ⟨-, hacc⟩ | hstored
  · exact hacc
  · exact .inr hstored

theorem Accounted.finishTeardown (h : Accounted m) {i handle : ℕ} (hi : m.calls[i]? = some (.teardown handle)) :
    Accounted ((m.replaceTasks handle none).setCall i .done) := by
  intro p hp hrun
  have hrest : ∀ c ∈ m.calls, c ≠ .teardown handle → c ∈ m.calls.set i .done :=
    fun c hc hne => mem_set_of_ne hi hc hne
  rcases h.replaceTasks hp hrun with ⟨hne, ⟨htasks, hlive | hteardown⟩ | ⟨network, hstored⟩⟩ | ⟨network, hstored⟩
  · exact .inl ⟨htasks, .inl hlive⟩
  · refine .inl ⟨htasks, .inr (hrest _ hteardown fun heq => hne ?_)⟩
    exact Call.teardown.inj heq
  · exact .inr ⟨network, hrest _ hstored (by simp)⟩
  · exact .inr ⟨network, hrest _ hstored (by simp)⟩

theorem Accounted.store (h : Accounted m) {i handle : ℕ} {network : Option N}
    (hi : m.calls[i]? = some (.attaching handle network)) :
    Accounted ((m.startPlane handle).setCall i (.stored handle m.planes network)) := by
  intro p hp hrun
  rcases Nat.lt_succ_iff_lt_or_eq.mp hp with hlt | rfl
  · have howner : (m.startPlane handle).owner p = m.owner p := startPlane_owner handle hlt
    have hrun : m.aborted p = false := (Function.update_of_ne (Nat.ne_of_lt hlt) _ _).symm.trans hrun
    have hkeep : ∀ c ∈ m.calls, c.accounts = true → c ∈ m.calls.set i (.stored handle m.planes network) := by
      refine fun c hc hacc => mem_set_of_ne hi hc ?_
      rintro rfl
      cases hacc
    have hacc := (h p hlt hrun).calls hkeep
    rw [Accounts] at hacc ⊢
    dsimp only [Manager.setCall] at hacc ⊢
    rw [howner]
    exact hacc
  · refine .inr ⟨network, ?_⟩
    have howner : (m.startPlane handle).owner m.planes = handle := Function.update_self _ _ _
    dsimp only [Manager.setCall]
    rw [howner]
    exact mem_set_self hi

theorem Accounted.replace (h : Accounted m) (hm : Owned m) {i handle plane : ℕ} {network : Option N}
    (hi : m.calls[i]? = some (.stored handle plane network)) (new : Call N) :
    Accounted ((m.replaceTasks handle (some plane)).setCall i new) := by
  intro p hp hrun
  have hrest : ∀ c ∈ m.calls, c ≠ .stored handle plane network → c ∈ m.calls.set i new :=
    fun c hc hne => mem_set_of_ne hi hc hne
  have hstay : (∃ network, .stored (m.owner p) p network ∈ m.calls) →
      Accounts ((m.replaceTasks handle (some plane)).setCall i new) p := by
    rintro ⟨network', hstored⟩
    by_cases heq : Call.stored (m.owner p) p network' = .stored handle plane network
    · -- the attachment that installs it now
      injection heq with howner hplane
      have hlive := hm.held _ (List.mem_of_getElem? hi) handle (decide_eq_true rfl)
      refine .inl ⟨?_, .inl ?_⟩
      · rw [hplane]
        exact (congrArg _ (hplane ▸ howner)).trans (Function.update_self _ _ _)
      · exact howner ▸ hlive
    · exact .inr ⟨network', hrest _ hstored heq⟩
  rcases h.replaceTasks hp hrun with ⟨-, ⟨htasks, hlive | hteardown⟩ | hstored⟩ | hstored
  · exact .inl ⟨htasks, .inl hlive⟩
  · exact .inl ⟨htasks, .inr (hrest _ hteardown (by simp))⟩
  · exact hstay hstored
  · exact hstay hstored

theorem Idle.not_accounts {old new : Call N} (h : Idle m old new) : old.accounts = false := by
  cases h <;> rfl

theorem Accounted.step (h : Accounted m) (hm : Owned m) (hfresh : insertsFresh m e = true)
    (hstep : m.next shardOf e = some m') : Accounted m' := by
  cases moves_of_next hstep with
  | insert network free => exact h.insertHandle hm (Option.isNone_iff_eq_none.mp hfresh)
  | remove network handle hget free => exact h.remove hget
  | finishTeardown i handle hi => exact h.finishTeardown hi
  | attach _ network caller handle _ hget => exact h.begin _
  | missing network => exact h.begin _
  | store i handle network hi => exact h.store hi
  | replace i handle p network hi => exact h.replace hm hi _
  | raise i handle network hi hget => exact Accounted.setCall (m := m.setFlag handle true) h hi rfl _
  | detach network handle hget => exact h.detach handle
  | toggleOne active network => exact h.begin _
  | toggleAll active => exact Accounted.begin (m := { m with active := active }) h _
  | collect i k active targets hi => exact h.setCall hi rfl _
  | visit i k handle active network targets last hi hget =>
    exact Accounted.setCall (m := m.setFlag handle active) h hi rfl _
  | idle _ i old new hi hidle _ => exact h.setCall hi hidle.not_accounts _
  | stay => exact h

end Accounted

/-- **No data plane is lost**: in a run in which no insertion replaces a handle, and while no attachment and no teardown
is at work, every data plane that runs is the one installed in the handle of a network the daemon is in. There is
thus at most one for each of them, and none for a network that has been left. -/
theorem planes_accounted {N : Type} [DecidableEq N] {shards : ℕ} {shardOf : N → Fin shards} {events : List (Event N)}
    {m : Manager N}
    (hrun : Run (fun m e m' => m.next shardOf e = some m') (fun m e => insertsFresh m e = true) Manager.boot events m)
    (hquiet : ∀ c ∈ m.calls, c.accounts = false) {p : ℕ} (hp : p < m.planes) (hrunning : m.aborted p = false) :
    ∃ network h, m.networks.get? network = some h ∧ m.tunTasks h = some p := by
  obtain ⟨-, hacc⟩ : Owned m ∧ Accounted m :=
    hrun.invariant (I := fun _ m => Owned m ∧ Accounted m) ⟨owned_boot, fun _ hp => absurd hp (Nat.not_lt_zero _)⟩
      fun _ _ _ _ ⟨hm, hacc⟩ hfresh hstep => ⟨hm.step hstep, hacc.step hm hfresh hstep⟩
  rcases hacc p hp hrunning with ⟨htasks, ⟨network, hget⟩ | hteardown⟩ | ⟨network, hstored⟩
  · exact ⟨network, _, hget, htasks⟩
  · cases hquiet _ hteardown
  · cases hquiet _ hstored

/-- A second attachment takes the place of the first: the run ends with two data planes of which one is aborted. -/
theorem planes_accounted_twice :
    ∃ m, Run (fun m e m' => Manager.next (Fin.ofNat 2) m e = some m') (fun m e => insertsFresh m e = true)
        (Manager.boot : Manager ℕ)
        [.insert 5, .createAndAttach 5, .store 0, .replace 0, .check 0, .attachTun 5, .store 1, .replace 1] m ∧
      (∀ c ∈ m.calls, c.accounts = false) ∧ 1 < m.planes ∧ m.aborted 1 = false ∧
      ∃ network h, m.networks.get? network = some h ∧ m.tunTasks h = some 1 := by
  refine Run.exists_of_exec_imp (fun m => (∀ c ∈ m.calls, c.accounts = false) ∧ 1 < m.planes ∧ m.aborted 1 = false)
    (by decide +kernel) fun m hrun ⟨hquiet, hp, hrunning⟩ => ?_
  exact ⟨hquiet, hp, hrunning, planes_accounted hrun hquiet hp hrunning⟩

end Tetron.Daemon.DataPlane
