import Tetron.Daemon.DataPlane

/-!
# Where the readers send to, and what standby stops

Two properties of the data planes of `Tetron.Daemon.DataPlane`, each with its own invariant.

* `sender_reaches_writer`: if no two attachments of one network overlap, then, while none is at work, what its readers
  send to is the writer that is installed, and if none is, a writer that has been aborted. `attach_tun` stores the new
  sender before it installs the new tasks, so that two that do overlap can leave the readers with the sender of the
  one and abort its writer.
* `standby_silences`: after a `standby` of all networks has gone through, with no `resume` at work or to come, nothing
  is written to any interface except to that of a network that is being left. The sweep reads the map one shard after
  the other and looks each network up again, while networks come and go. It misses a network whose attachment has read
  the daemon's flag and not yet raised its own, and a handle that another one has replaced in the map.
-/

namespace Tetron.Daemon.DataPlane

section Wired

variable {N : Type} {m m' : Manager N}

/-- At most one call refers to a handle. -/
def Alone (calls : List (Call N)) : Prop :=
  ∀ (i j : ℕ) (c c' : Call N) (h : ℕ), calls[i]? = some c → calls[j]? = some c' → c.holds h = true →
    c'.holds h = true → i = j

/-- One call moves on to one that refers to no handle. -/
theorem Alone.set {calls : List (Call N)} (halone : Alone calls) {i : ℕ} {new : Call N}
    (hnew : ∀ h, new.holds h = false) : Alone (calls.set i new) := by
  intro j k c c' h hj hk hc hc'
  rcases List.getElem?_set_eq_some hj with ⟨-, rfl⟩ | ⟨-, hj⟩
  · rw [hnew h] at hc
    cases hc
  · rcases List.getElem?_set_eq_some hk with ⟨-, rfl⟩ | ⟨-, hk⟩
    · rw [hnew h] at hc'
      cases hc'
    · exact halone j k c c' h hj hk hc hc'

/-- A call starts that shares no handle with another. -/
theorem Alone.concat {calls : List (Call N)} (halone : Alone calls) {new : Call N}
    (hnew : ∀ c ∈ calls, ∀ h, c.holds h = true → new.holds h = false) : Alone (calls ++ [new]) := by
  have hsplit : ∀ i c, (calls ++ [new])[i]? = some c → calls[i]? = some c ∨ (i = calls.length ∧ c = new) := by
    intro i c hi
    rcases Nat.lt_trichotomy i calls.length with hlt | heq | hgt
    · rw [List.getElem?_append_left hlt] at hi
      exact .inl hi
    · rw [heq, List.getElem?_concat_length] at hi
      exact .inr ⟨heq, (Option.some.inj hi).symm⟩
    · rw [List.getElem?_append_right hgt.le, List.getElem?_singleton, if_neg (by omega)] at hi
      cases hi
  intro i j c c' h hi hj hc hc'
  rcases hsplit i c hi with hold | ⟨hlast, heq⟩
  · rcases hsplit j c' hj with hold' | ⟨-, heq'⟩
    · exact halone i j c c' h hold hold' hc hc'
    · rw [heq', hnew c (List.mem_of_getElem? hold) h hc] at hc'
      cases hc'
  · rcases hsplit j c' hj with hold' | ⟨hlast', -⟩
    · rw [heq, hnew c' (List.mem_of_getElem? hold') h hc'] at hc
      cases hc
    · rw [hlast, hlast']

theorem tunTasks_replaceTasks_of_ne {h h' : ℕ} (hne : h' ≠ h) (tasks : Option ℕ) :
    (m.replaceTasks h tasks).tunTasks h' = m.tunTasks h' := Function.update_of_ne hne _ _

/-- An attachment of the handle is between its store and its replacement. -/
def Storing (m : Manager N) (h : ℕ) : Prop := ∃ p network, .stored h p network ∈ m.calls

/-- The sender of the handle leads to the installed writer, or none is installed and it leads to an aborted one. -/
def Connected (m : Manager N) (h : ℕ) : Prop :=
  m.tunTasks h = m.tunTx h ∨ (m.tunTasks h = none ∧ ∀ p, m.tunTx h = some p → m.aborted p = true)

structure Wired (m : Manager N) : Prop where
  alone : Alone m.calls
  tasks : ∀ h p, m.tunTasks h = some p → m.aborted p = false
  stored : ∀ h p network, .stored h p network ∈ m.calls →
    m.tunTx h = some p ∧ m.aborted p = false ∧ m.tunTasks h ≠ some p
  connected : ∀ h, ¬Storing m h → Connected m h

theorem wired_boot : Wired (Manager.boot : Manager N) where
  alone _ _ _ _ _ h := by cases h
  tasks _ _ h := by cases h
  stored _ _ _ h := by cases h
  connected _ _ := .inl rfl

/-- A call starts that has stored nothing, and that shares no handle with another. -/
theorem Wired.begin (hw : Wired m) {new : Call N} (hstored : ∀ h p network, new ≠ .stored h p network)
    (hnew : ∀ c ∈ m.calls, ∀ h, c.holds h = true → new.holds h = false) : Wired (m.begin new) := by
  have hmem : ∀ h p network, .stored h p network ∈ (m.begin new).calls → .stored h p network ∈ m.calls := by
    intro h p network hc
    rcases List.mem_append.mp hc with hc | hc
    · exact hc
    · exact absurd (List.mem_singleton.mp hc).symm (hstored h p network)
  exact ⟨hw.alone.concat hnew, hw.tasks, fun h p network hc => hw.stored h p network (hmem h p network hc),
    fun h hnone => hw.connected h fun ⟨p, network, hc⟩ => hnone ⟨p, network, List.mem_append_left _ hc⟩⟩

/-- A call that has stored nothing moves on to one without a reference. -/
theorem Wired.setCall (hw : Wired m) {i : ℕ} {old new : Call N} (hi : m.calls[i]? = some old)
    (hold : ∀ h p network, old ≠ .stored h p network) (hnew : ∀ h, new.holds h = false) : Wired (m.setCall i new) := by
  refine ⟨hw.alone.set hnew, hw.tasks, fun h p network hc => ?_, fun h hnone => hw.connected h ?_⟩
  · rcases List.mem_or_eq_of_mem_set hc with hc | hc
    · exact hw.stored h p network hc
    · have hholds := hnew h
      simp [← hc, Call.holds] at hholds
  · rintro ⟨p, network, hc⟩
    exact hnone ⟨p, network, mem_set_of_ne hi hc fun heq => hold h p network heq.symm⟩

/-- The other handles are as connected as they were. -/
theorem Connected.replaceTasks {h h' : ℕ} (hne : h' ≠ h) (tasks : Option ℕ) (hconn : Connected m h') :
    Connected (m.replaceTasks h tasks) h' := by
  rcases hconn with heq | ⟨hnone, haborted⟩
  · exact .inl ((tunTasks_replaceTasks_of_ne hne tasks).trans heq)
  · refine .inr ⟨(tunTasks_replaceTasks_of_ne hne tasks).trans hnone, fun p hp => ?_⟩
    simp [Manager.replaceTasks, haborted p hp]

variable [DecidableEq N] {shards : ℕ} {shardOf : N → Fin shards} {e : Event N}

/-- No attachment of the network is at work when another starts. -/
def attachesApart (m : Manager N) : Event N → Bool
  | .attachTun network => !(m.networks.get? network).any m.referenced
  | .createAndAttach network => !(m.networks.get? network).any m.referenced
  | _ => true

/-- No other handle's data planes are aborted. -/
theorem Owned.aborted_replaceTasks (hm : Owned m) {h p : ℕ} (tasks : Option ℕ) (hrun : m.aborted p = false)
    (howner : m.owner p ≠ h) : (m.replaceTasks h tasks).aborted p = false := by
  have hne : m.tunTasks h ≠ some p := fun htasks => howner (hm.tasks h p htasks).1
  simp [Manager.replaceTasks, hrun, hne]

theorem Wired.detach (hw : Wired m) (hm : Owned m) (handle : ℕ) : Wired (m.replaceTasks handle none) where
  alone := hw.alone
  tasks h p hp := by
    by_cases heq : h = handle
    · subst heq
      simp [Manager.replaceTasks] at hp
    · rw [tunTasks_replaceTasks_of_ne heq] at hp
      exact hm.aborted_replaceTasks none (hw.tasks h p hp) (by rw [(hm.tasks h p hp).1]; exact heq)
  stored h p network hc := by
    obtain ⟨hsent, hrun, hnot⟩ := hw.stored h p network hc
    by_cases heq : h = handle
    · subst heq
      refine ⟨hsent, ?_, ?_⟩
      · simp [Manager.replaceTasks, hrun, hnot]
      · simp [Manager.replaceTasks]
    · refine ⟨hsent, hm.aborted_replaceTasks none hrun ?_, ?_⟩
      · rw [(hm.stored h p network hc).1]
        exact heq
      · rw [tunTasks_replaceTasks_of_ne heq]
        exact hnot
  connected h hnone := by
    by_cases heq : h = handle
    · subst heq
      refine .inr ⟨Function.update_self _ _ _, fun p hp => ?_⟩
      rcases hw.connected h hnone with hsame | ⟨-, haborted⟩
      · have htasks : m.tunTasks h = some p := hsame.trans hp
        simp [Manager.replaceTasks, htasks]
      · simp [Manager.replaceTasks, haborted p hp]
    · exact (hw.connected h hnone).replaceTasks heq none

theorem Wired.insertHandle (hw : Wired m) (hm : Owned m) (network : N) : Wired (m.insertHandle network) where
  alone := hw.alone
  tasks h p hp := by
    by_cases heq : h = m.handles
    · subst heq
      simp [Manager.insertHandle] at hp
    · exact hw.tasks h p (by simpa [Manager.insertHandle, heq] using hp)
  stored h p caller hc := by
    have hne : h ≠ m.handles := Nat.ne_of_lt ((hm.held _ hc h (decide_eq_true rfl)).lt hm)
    simpa [Manager.insertHandle, hne] using hw.stored h p caller hc
  connected h hnone := by
    by_cases heq : h = m.handles
    · subst heq
      exact .inl (by simp [Manager.insertHandle])
    · simpa [Connected, Manager.insertHandle, heq] using hw.connected h hnone

/-- An attachment stores its sender: the data plane it starts is none of those there are. -/
theorem Wired.store (hw : Wired m) (hm : Owned m) {i handle : ℕ} {network : Option N}
    (hi : m.calls[i]? = some (.attaching handle network)) :
    Wired ((m.startPlane handle).setCall i (.stored handle m.planes network)) := by
  have hholds : (Call.attaching handle network : Call N).holds handle = true := decide_eq_true rfl
  -- the moved call refers to the same handle as before
  have hback : ∀ (j : ℕ) (c : Call N) (h : ℕ), (m.calls.set i (.stored handle m.planes network))[j]? = some c →
      c.holds h = true → ∃ c' : Call N, m.calls[j]? = some c' ∧ c'.holds h = true := by
    intro j c h hj hc
    rcases List.getElem?_set_eq_some hj with ⟨rfl, rfl⟩ | ⟨-, hj⟩
    · exact ⟨_, hi, hc⟩
    · exact ⟨c, hj, hc⟩
  have haborted : ∀ p < m.planes, (m.startPlane handle).aborted p = m.aborted p :=
    fun p hp => Function.update_of_ne (Nat.ne_of_lt hp) _ _
  have hother : ∀ h ≠ handle, (m.startPlane handle).tunTx h = m.tunTx h :=
    fun h hne => Function.update_of_ne hne _ _
  refine ⟨fun j k c c' h hj hk hc hc' => ?_, fun h p hp => ?_, fun h p caller hc => ?_, fun h hnone => ?_⟩
  · obtain ⟨b, hj, hb⟩ := hback j c h hj hc
    obtain ⟨b', hk, hb'⟩ := hback k c' h hk hc'
    exact hw.alone j k b b' h hj hk hb hb'
  · exact (haborted p (hm.tasks h p hp).2.1).trans (hw.tasks h p hp)
  · obtain ⟨j, hj⟩ := List.mem_iff_getElem?.mp hc
    rcases List.getElem?_set_eq_some hj with ⟨-, heq⟩ | ⟨hne, hj⟩
    · cases heq
      refine ⟨Function.update_self _ _ _, Function.update_self _ _ _, fun htasks => ?_⟩
      exact absurd (hm.tasks handle _ htasks).2.1 (Nat.lt_irrefl _)
    · have hc := List.mem_of_getElem? hj
      have hh : h ≠ handle := by
        rintro rfl
        exact hne (hw.alone i j _ _ h hi hj hholds (decide_eq_true rfl))
      obtain ⟨hsent, hrun, hnot⟩ := hw.stored h p caller hc
      exact ⟨(hother h hh).trans hsent, (haborted p (hm.stored h p caller hc).2).trans hrun, hnot⟩
  · have hh : h ≠ handle := by
      rintro rfl
      exact hnone ⟨m.planes, network, mem_set_self hi⟩
    have hconn := hw.connected h fun ⟨p, caller, hc⟩ => hnone ⟨p, caller, mem_set_of_ne hi hc (by simp)⟩
    rcases hconn with heq | ⟨htasks, hall⟩
    · exact .inl (heq.trans (hother h hh).symm)
    · refine .inr ⟨htasks, fun p hp => ?_⟩
      have hp : m.tunTx h = some p := (hother h hh).symm.trans hp
      exact (haborted p (hm.sent h p hp)).trans (hall p hp)

/-- An attachment installs the data plane its sender leads to. -/
theorem Wired.replace (hw : Wired m) (hm : Owned m) {i handle plane : ℕ} {network : Option N} {new : Call N}
    (hi : m.calls[i]? = some (.stored handle plane network)) (hnew : ∀ h, new.holds h = false) :
    Wired ((m.replaceTasks handle (some plane)).setCall i new) := by
  have hholds : (Call.stored handle plane network : Call N).holds handle = true := decide_eq_true rfl
  obtain ⟨hsent, hrun, hnot⟩ := hw.stored handle plane network (List.mem_of_getElem? hi)
  refine ⟨hw.alone.set hnew, fun h p hp => ?_, fun h p caller hc => ?_, fun h hnone => ?_⟩
  · by_cases heq : h = handle
    · subst heq
      have hp : plane = p := by simpa [Manager.replaceTasks, Manager.setCall] using hp
      subst hp
      simp [Manager.replaceTasks, Manager.setCall, hrun, hnot]
    · have hp : m.tunTasks h = some p := (tunTasks_replaceTasks_of_ne heq (some plane)).symm.trans hp
      exact hm.aborted_replaceTasks (some plane) (hw.tasks h p hp) (by rw [(hm.tasks h p hp).1]; exact heq)
  · obtain ⟨j, hj⟩ := List.mem_iff_getElem?.mp hc
    rcases List.getElem?_set_eq_some hj with ⟨-, heq⟩ | ⟨hne, hj⟩
    · have hnone := hnew h
      simp [heq, Call.holds] at hnone
    · have hc := List.mem_of_getElem? hj
      have hh : h ≠ handle := by
        rintro rfl
        exact hne (hw.alone i j _ _ h hi hj hholds (decide_eq_true rfl))
      obtain ⟨hsent', hrun', hnot'⟩ := hw.stored h p caller hc
      refine ⟨hsent', hm.aborted_replaceTasks (some plane) hrun' ?_, ?_⟩
      · rw [(hm.stored h p caller hc).1]
        exact hh
      · intro htasks
        exact hnot' ((tunTasks_replaceTasks_of_ne hh (some plane)).symm.trans htasks)
  · by_cases heq : h = handle
    · subst heq
      exact .inl ((Function.update_self _ _ _).trans hsent.symm)
    · refine (hw.connected h ?_).replaceTasks heq _
      rintro ⟨p, caller, hc⟩
      refine hnone ⟨p, caller, mem_set_of_ne hi hc fun hsame => heq ?_⟩
      injection hsame

theorem Wired.step (hw : Wired m) (hm : Owned m) (hapart : attachesApart m e = true)
    (hstep : m.next shardOf e = some m') : Wired m' := by
  cases moves_of_next hstep with
  | insert network free => exact hw.insertHandle hm network
  | remove network handle hget free =>
    exact Wired.begin (m := { m with networks := m.networks.erase network })
      ⟨hw.alone, hw.tasks, hw.stored, hw.connected⟩ (by simp) fun _ _ _ _ => rfl
  | finishTeardown i handle hi =>
    exact Wired.setCall (m := m.replaceTasks handle none) (hw.detach hm handle) hi (by simp) fun _ => rfl
  | attach _ network caller handle he hget =>
    have hfree : m.referenced handle = false := by
      rcases he with rfl | rfl
      · simpa [attachesApart, hget] using hapart
      · simpa [attachesApart, hget] using hapart
    refine hw.begin (by simp) fun c hc h hholds => ?_
    refine decide_eq_false ?_
    rintro rfl
    rw [not_holds_of_free hfree hc] at hholds
    cases hholds
  | missing network => exact hw.begin (by simp) fun _ _ _ _ => rfl
  | store i handle network hi => exact hw.store hm hi
  | replace i handle p network hi => exact hw.replace hm hi (elim_not_holds network)
  | raise i handle network hi hget =>
    exact Wired.setCall (m := m.setFlag handle true) ⟨hw.alone, hw.tasks, hw.stored, hw.connected⟩ hi (by simp)
      fun _ => rfl
  | detach network handle hget => exact hw.detach hm handle
  | toggleOne active network => exact hw.begin (by simp) fun _ _ _ _ => rfl
  | toggleAll active =>
    exact Wired.begin (m := { m with active := active }) ⟨hw.alone, hw.tasks, hw.stored, hw.connected⟩ (by simp)
      fun _ _ _ _ => rfl
  | collect i k active targets hi => exact hw.setCall hi (by simp) fun _ => rfl
  | visit i k handle active network targets last hi hget =>
    exact Wired.setCall (m := m.setFlag handle active) ⟨hw.alone, hw.tasks, hw.stored, hw.connected⟩ hi (by simp)
      fun _ => rfl
  | idle _ i old new hi hidle _ =>
    refine hw.setCall hi (fun h p network heq => ?_) hidle.not_holds
    have hnot := hidle.not_accounts
    simp [heq, Call.accounts] at hnot
  | stay => exact hw

end Wired

/-- **The readers reach the writer**: in a run in which no two attachments of one network overlap, and while none of
this handle is at work, its sender leads to the writer that is installed and runs, and if none is installed to no
writer that still runs. -/
theorem sender_reaches_writer {N : Type} [DecidableEq N] {shards : ℕ} {shardOf : N → Fin shards}
    {events : List (Event N)} {m : Manager N}
    (hrun : Run (fun m e m' => m.next shardOf e = some m') (fun m e => attachesApart m e = true) Manager.boot events m)
    {h : ℕ} (hquiet : m.referenced h = false) :
    (∀ p, m.tunTasks h = some p → m.tunTx h = some p ∧ m.aborted p = false ∧ m.owner p = h) ∧
      (m.tunTasks h = none → ∀ p, m.tunTx h = some p → m.aborted p = true) := by
  obtain ⟨hm, hw⟩ : Owned m ∧ Wired m :=
    hrun.invariant (I := fun _ m => Owned m ∧ Wired m) ⟨owned_boot, wired_boot⟩
      fun _ _ _ _ ⟨hm, hw⟩ hapart hstep => ⟨hm.step hstep, hw.step hm hapart hstep⟩
  have hnone : ¬Storing m h := by
    rintro ⟨p, network, hc⟩
    have hfree := not_holds_of_free hquiet hc
    simp [Call.holds] at hfree
  refine ⟨fun p hp => ?_, fun htasks p hp => ?_⟩
  · refine ⟨?_, hw.tasks h p hp, (hm.tasks h p hp).1⟩
    rcases hw.connected h hnone with heq | ⟨htasks, -⟩
    · exact heq.symm.trans hp
    · rw [htasks] at hp
      cases hp
  · rcases hw.connected h hnone with heq | ⟨-, haborted⟩
    · rw [← heq, htasks] at hp
      cases hp
    · exact haborted p hp

/-- After a detachment and a new attachment the readers reach the new writer. -/
theorem sender_reaches_writer_again :
    ∃ m, Run (fun m e m' => Manager.next (Fin.ofNat 2) m e = some m') (fun m e => attachesApart m e = true)
        (Manager.boot : Manager ℕ)
        [.insert 5, .attachTun 5, .store 0, .replace 0, .detachTun 5, .attachTun 5, .store 1, .replace 1] m ∧
      m.referenced 0 = false ∧ m.tunTasks 0 = some 1 ∧
      (∀ p, m.tunTasks 0 = some p → m.tunTx 0 = some p ∧ m.aborted p = false ∧ m.owner p = 0) := by
  refine Run.exists_of_exec_imp (fun m => m.referenced 0 = false ∧ m.tunTasks 0 = some 1) (by decide +kernel)
    fun m hrun ⟨hquiet, htasks⟩ => ?_
  exact ⟨hquiet, htasks, (sender_reaches_writer hrun hquiet).1⟩

/-- Two attachments that overlap: the second stores its sender last and installs its tasks first, so that the first
one aborts the writer every reader sends to. -/
example :
    (Run.exec (Manager.next (Fin.ofNat 2)) (fun _ _ => True) (Manager.boot : Manager ℕ)
      [.insert 5, .attachTun 5, .attachTun 5, .store 0, .store 1, .replace 1, .replace 0]).any
      (fun m => m.tunTasks 0 = some 0 ∧ m.tunTx 0 = some 1 ∧ m.aborted 1 = true) = true := by
  decide +kernel

/-! ### Standby -/

section Silenced

variable {N : Type} {m m' : Manager N}

/-- A call that may yet set a network's flag. -/
def Call.activates : Call N → Bool
  | .raising _ => true
  | .sweeping active _ _ => active
  | _ => false

/-- The start of a `resume`. -/
def isActivate : Event N → Bool
  | .toggle active _ => active
  | _ => false

variable {shards : ℕ} {shardOf : N → Fin shards} {e : Event N}

/-- A sweep has the network still before it: its shard has not been read, or it has and the network is to be visited. -/
def Ahead (shardOf : N → Fin shards) (c : Call N) (network : N) : Prop :=
  ∃ k targets, c = .sweeping false k targets ∧ (k ≤ (shardOf network).val ∨ network ∈ targets)

/-- Nothing before a call that is no sweep. -/
theorem not_ahead {c : Call N} {network : N} (hc : ∀ k targets, c ≠ .sweeping false k targets) :
    ¬Ahead shardOf c network := by
  rintro ⟨k, targets, heq, -⟩
  exact hc k targets heq

theorem flag_of_setFlag_false {h h' : ℕ} (hflag : (m.setFlag h false).flag h' = true) : h' ≠ h ∧ m.flag h' = true := by
  by_cases heq : h' = h
  · subst heq
    simp [Manager.setFlag] at hflag
  · exact ⟨heq, (Function.update_of_ne heq _ _).symm.trans hflag⟩

variable [DecidableEq N]

/-- While the sweep that is call `i` is at work, every network in the map whose flag is set is still before it. -/
structure Silenced (shardOf : N → Fin shards) (i : ℕ) (m : Manager N) : Prop where
  off : m.active = false
  quiet : ∀ c ∈ m.calls, c.activates = false
  left : ∀ network h, m.networks.get? network = some h → m.flag h = true →
    ∃ c, m.calls[i]? = some c ∧ Ahead shardOf c network

/-- A sweep starts with everything before it. -/
theorem silenced_of_standby (hquiet : ∀ c ∈ m.calls, c.activates = false) :
    Silenced shardOf m.calls.length (Manager.begin { m with active := false } (.sweeping false 0 [])) where
  off := rfl
  quiet c hc := by
    rcases List.mem_append.mp hc with hc | hc
    · exact hquiet c hc
    · rw [List.mem_singleton.mp hc]
      rfl
  left network h _ _ := ⟨_, List.getElem?_concat_length, 0, [], rfl, .inl (Nat.zero_le _)⟩

theorem Silenced.begin {i : ℕ} (hs : Silenced shardOf i m) {new : Call N} (hnew : new.activates = false) :
    Silenced shardOf i (m.begin new) where
  off := hs.off
  quiet c hc := by
    rcases List.mem_append.mp hc with hc | hc
    · exact hs.quiet c hc
    · rw [List.mem_singleton.mp hc]
      exact hnew
  left network h hget hflag := by
    obtain ⟨c, hc, hahead⟩ := hs.left network h hget hflag
    obtain ⟨hlt, -⟩ := List.getElem?_eq_some_iff.mp hc
    exact ⟨c, (List.getElem?_append_left hlt).trans hc, hahead⟩

/-- A call moves on. If it is the sweep, it still has before it every network whose flag is set. -/
theorem Silenced.setCall {i j : ℕ} (hs : Silenced shardOf i m) {old new : Call N} (hj : m.calls[j]? = some old)
    (hnew : new.activates = false)
    (hmove : ∀ network h, m.networks.get? network = some h → m.flag h = true → Ahead shardOf old network →
      Ahead shardOf new network) : Silenced shardOf i (m.setCall j new) where
  off := hs.off
  quiet c hc := by
    rcases List.mem_or_eq_of_mem_set hc with hc | rfl
    · exact hs.quiet c hc
    · exact hnew
  left network h hget hflag := by
    obtain ⟨c, hc, hahead⟩ := hs.left network h hget hflag
    by_cases hij : j = i
    · subst hij
      rw [hj] at hc
      cases hc
      obtain ⟨hlt, -⟩ := List.getElem?_eq_some_iff.mp hj
      exact ⟨new, List.getElem?_set_self hlt, hmove network h hget hflag hahead⟩
    · exact ⟨c, (List.getElem?_set_ne hij).trans hc, hahead⟩

/-- Fewer networks in the map or fewer flags. -/
theorem Silenced.mono {i : ℕ} (hs : Silenced shardOf i m) (hactive : m'.active = m.active) (hcalls : m'.calls = m.calls)
    (hless : ∀ network h, m'.networks.get? network = some h → m'.flag h = true →
      m.networks.get? network = some h ∧ m.flag h = true) : Silenced shardOf i m' where
  off := hactive.trans hs.off
  quiet := by
    rw [hcalls]
    exact hs.quiet
  left network h hget hflag := by
    obtain ⟨hget, hflag⟩ := hless network h hget hflag
    rw [hcalls]
    exact hs.left network h hget hflag

theorem Silenced.insertHandle {i : ℕ} (hs : Silenced shardOf i m) (hm : Owned m) (network : N) :
    Silenced shardOf i (m.insertHandle network) := by
  refine hs.mono rfl rfl fun other h hget hflag => ?_
  rcases HashTable.get?_of_insert hget with ⟨-, heq⟩ | hget
  · -- a new handle is not active
    rw [← heq] at hflag
    simp [Manager.insertHandle] at hflag
  · have hne : h ≠ m.handles := Nat.ne_of_lt (hm.made other h hget)
    exact ⟨hget, (Function.update_of_ne hne _ _).symm.trans hflag⟩

/-- The sweep reads one more shard. -/
theorem Silenced.collect {i j k : ℕ} (hs : Silenced shardOf i m) {active : Bool} {targets : List N}
    (hj : m.calls[j]? = some (.sweeping active k targets)) :
    Silenced shardOf i (m.setCall j
      (.sweeping active (k + 1) (targets ++ m.networks.keys.filter fun n => (shardOf n).val = k))) := by
  have hactive : active = false := hs.quiet _ (List.mem_of_getElem? hj)
  subst hactive
  refine hs.setCall hj rfl fun network h hget _ hahead => ?_
  obtain ⟨k', targets', heq, hcase⟩ := hahead
  cases heq
  refine ⟨_, _, rfl, ?_⟩
  rcases hcase with hshard | hmem
  · rcases Nat.lt_or_eq_of_le hshard with hlt | heq
    · exact .inl hlt
    · have hkey : network ∈ m.networks.keys := AList.mem_keys.mp (HashTable.mem_of_get?_eq_some hget)
      exact .inr (List.mem_append_right _ (List.mem_filter.mpr ⟨hkey, decide_eq_true heq.symm⟩))
  · exact .inr (List.mem_append_left _ hmem)

/-- The sweep visits one more network and takes its flag down. -/
theorem Silenced.visit {i j k h : ℕ} (hs : Silenced shardOf i m) {active : Bool} {network : N} {targets : List N}
    (hj : m.calls[j]? = some (.sweeping active k (network :: targets))) (hget : m.networks.get? network = some h)
    (hlast : shards ≤ k) : Silenced shardOf i ((m.setFlag h active).setCall j (.sweeping active k targets)) := by
  have hactive : active = false := hs.quiet _ (List.mem_of_getElem? hj)
  subst hactive
  have hs' : Silenced shardOf i (m.setFlag h false) :=
    hs.mono rfl rfl fun _ _ hget hflag => ⟨hget, (flag_of_setFlag_false hflag).2⟩
  refine hs'.setCall hj rfl fun other h' hget' hflag hahead => ?_
  obtain ⟨k', targets', heq, hcase⟩ := hahead
  cases heq
  refine ⟨k, targets, rfl, .inr ?_⟩
  rcases hcase with hshard | hmem
  · exact absurd (shardOf other).isLt (by omega)
  · rcases List.mem_cons.mp hmem with rfl | hmem
    · have hsame : h = h' := Option.some.inj (hget.symm.trans hget')
      exact absurd hsame.symm (flag_of_setFlag_false hflag).1
    · exact hmem

theorem Silenced.idle {i j : ℕ} (hs : Silenced shardOf i m) {old new : Call N} (hj : m.calls[j]? = some old)
    (hidle : Idle m old new) (hlast : ∀ active k targets, old = .sweeping active k targets → shards ≤ k) :
    Silenced shardOf i (m.setCall j new) := by
  cases hidle with
  | check network =>
    rw [hs.off]
    exact hs.setCall hj rfl fun _ _ _ _ hahead => absurd hahead (not_ahead (by simp))
  | raised network gone => exact hs.setCall hj rfl fun _ _ _ _ hahead => absurd hahead (not_ahead (by simp))
  | skip active k network targets gone =>
    have hactive : active = false := hs.quiet _ (List.mem_of_getElem? hj)
    subst hactive
    refine hs.setCall hj rfl fun other h hget _ hahead => ?_
    obtain ⟨k', targets', heq, hcase⟩ := hahead
    cases heq
    refine ⟨k, targets, rfl, hcase.imp_right fun hmem => ?_⟩
    rcases List.mem_cons.mp hmem with rfl | hmem
    · rw [gone] at hget
      cases hget
    · exact hmem
  | swept active k =>
    have hk : shards ≤ k := hlast active k [] rfl
    refine hs.setCall hj rfl fun other h hget _ hahead => ?_
    obtain ⟨k', targets', heq, hcase⟩ := hahead
    cases heq
    rcases hcase with hshard | hmem
    · exact absurd (shardOf other).isLt (by omega)
    · cases hmem

theorem Silenced.step {i : ℕ} (hs : Silenced shardOf i m) (hm : Owned m) (hno : isActivate e = false)
    (hstep : m.next shardOf e = some m') : Silenced shardOf i m' := by
  cases moves_of_next hstep with
  | insert network free => exact hs.insertHandle hm network
  | remove network handle hget free =>
    exact Silenced.begin (m := { m with networks := m.networks.erase network })
      (hs.mono rfl rfl fun _ _ hget hflag => ⟨HashTable.get?_of_erase hget, hflag⟩) rfl
  | finishTeardown i handle hi =>
    exact Silenced.setCall (m := m.replaceTasks handle none) (hs.mono rfl rfl fun _ _ hget hflag => ⟨hget, hflag⟩) hi
      rfl fun _ _ _ _ hahead => absurd hahead (not_ahead (by simp))
  | attach _ network caller handle _ hget => exact hs.begin rfl
  | missing network => exact hs.begin rfl
  | store i handle network hi =>
    exact Silenced.setCall (m := m.startPlane handle) (hs.mono rfl rfl fun _ _ hget hflag => ⟨hget, hflag⟩) hi
      rfl fun _ _ _ _ hahead => absurd hahead (not_ahead (by simp))
  | replace i handle p network hi =>
    have hnew : (network.elim Call.done Call.checking).activates = false := by
      cases network with
      | none => rfl
      | some _ => rfl
    exact Silenced.setCall (m := m.replaceTasks handle (some p))
      (hs.mono rfl rfl fun _ _ hget hflag => ⟨hget, hflag⟩) hi hnew
      fun _ _ _ _ hahead => absurd hahead (not_ahead (by simp))
  | raise i handle network hi hget => cases hs.quiet _ (List.mem_of_getElem? hi)
  | detach network handle hget => exact hs.mono rfl rfl fun _ _ hget hflag => ⟨hget, hflag⟩
  | toggleOne active network => exact hs.begin hno
  | toggleAll active =>
    have hactive : active = false := hno
    subst hactive
    exact Silenced.begin (m := { m with active := false }) ⟨rfl, hs.quiet, hs.left⟩ rfl
  | collect i k active targets hi => exact hs.collect hi
  | visit i k handle active network targets last hi hget => exact hs.visit hi hget last
  | idle _ i old new hi hidle hlast => exact hs.idle hi hidle hlast
  | stay => exact hs

end Silenced

/-- **Standby silences every network**: a `standby` of all networks starts while no `resume` is at work and no network
is just being brought up, and no `resume` follows. Once it has gone through, a data plane that would still write a
packet belongs to a network that is being torn down. -/
theorem standby_silences {N : Type} [DecidableEq N] {shards : ℕ} {shardOf : N → Fin shards}
    {before after : List (Event N)} {m₀ m : Manager N}
    (hbefore : Run (fun m e m' => m.next shardOf e = some m') (fun m e => insertsFresh m e = true) Manager.boot before
      m₀)
    (hquiet : ∀ c ∈ m₀.calls, c.activates = false)
    (hafter : Run (fun m e m' => m.next shardOf e = some m')
      (fun m e => insertsFresh m e = true ∧ isActivate e = false) m₀ (.toggle false none :: after) m)
    (hdone : m.calls[m₀.calls.length]? = some .done) {p : ℕ} (hwrites : m.writes p = true) :
    .teardown (m.owner p) ∈ m.calls := by
  obtain ⟨hm₀, hacc₀⟩ : Owned m₀ ∧ Accounted m₀ :=
    hbefore.invariant (I := fun _ m => Owned m ∧ Accounted m) ⟨owned_boot, fun _ hp => absurd hp (Nat.not_lt_zero _)⟩
      fun _ _ _ _ ⟨hm, hacc⟩ hfresh hstep => ⟨hm.step hstep, hacc.step hm hfresh hstep⟩
  obtain ⟨m₁, -, hstart, hrun⟩ := hafter.uncons
  have hs₁ : Silenced shardOf m₀.calls.length m₁ := Option.some.inj hstart ▸ silenced_of_standby hquiet
  obtain ⟨hm, hacc, hs⟩ : Owned m ∧ Accounted m ∧ Silenced shardOf m₀.calls.length m :=
    hrun.invariant (I := fun _ m => Owned m ∧ Accounted m ∧ Silenced shardOf m₀.calls.length m)
      ⟨hm₀.step hstart, hacc₀.step hm₀ rfl hstart, hs₁⟩
      fun _ _ _ _ ⟨hm, hacc, hs⟩ ⟨hfresh, hno⟩ hstep =>
        ⟨hm.step hstep, hacc.step hm hfresh hstep, hs.step hm hno hstep⟩
  simp only [Manager.writes, Bool.and_eq_true, decide_eq_true_eq, Bool.not_eq_true'] at hwrites
  obtain ⟨⟨hp, hrunning⟩, hflag⟩ := hwrites
  -- with the sweep gone no network in the map has its flag set
  have hnot : ¬Live m (m.owner p) := by
    rintro ⟨network, hget⟩
    obtain ⟨c, hc, hahead⟩ := hs.left network _ hget hflag
    rw [hdone] at hc
    cases hc
    exact not_ahead (by simp) hahead
  rcases hacc p hp hrunning with ⟨-, hlive | hteardown⟩ | ⟨network, hstored⟩
  · exact absurd hlive hnot
  · exact hteardown
  · exact absurd (hm.held _ hstored _ (decide_eq_true rfl)) hnot

/-- Network 5 is up and network 6 joins while the sweep is between the two shards. Network 5 is left, and its data plane
still writes while its tasks are awaited. -/
theorem standby_silences_leaving :
    ∃ m₀ m : Manager ℕ,
      Run (fun m e m' => Manager.next (Fin.ofNat 2) m e = some m') (fun m e => insertsFresh m e = true) Manager.boot
        [.toggle true none, .collect 0, .collect 0, .visit 0, .insert 5, .createAndAttach 5, .store 1, .replace 1,
          .check 1, .raise 1] m₀ ∧
      Run (fun m e m' => Manager.next (Fin.ofNat 2) m e = some m')
        (fun m e => insertsFresh m e = true ∧ isActivate e = false) m₀
        [.toggle false none, .collect 2, .remove 5, .insert 6, .collect 2, .visit 2] m ∧
      m.writes 0 = true ∧ .teardown (m.owner 0) ∈ m.calls := by
  obtain ⟨m₀, hbefore, hquiet, hlength, hexec⟩ : ∃ m₀ : Manager ℕ,
      Run (fun m e m' => Manager.next (Fin.ofNat 2) m e = some m') (fun m e => insertsFresh m e = true) Manager.boot
        [.toggle true none, .collect 0, .collect 0, .visit 0, .insert 5, .createAndAttach 5, .store 1, .replace 1,
          .check 1, .raise 1] m₀ ∧
      (∀ c ∈ m₀.calls, c.activates = false) ∧ m₀.calls.length = 2 ∧
      (Run.exec (Manager.next (Fin.ofNat 2)) (fun m e => insertsFresh m e = true ∧ isActivate e = false) m₀
        [.toggle false none, .collect 2, .remove 5, .insert 6, .collect 2, .visit 2]).any
        (fun m => decide (m.calls[2]? = some Call.done ∧ m.writes 0 = true)) = true :=
    Run.exists_of_exec (by decide +kernel)
  obtain ⟨m, hafter, hdone, hwrites⟩ := Run.exists_of_exec hexec
  exact ⟨m₀, m, hbefore, hafter, hwrites,
    standby_silences hbefore hquiet hafter (by rw [hlength]; exact hdone) hwrites⟩

-- the attachment of network 5 has found the daemon active and raises its flag after the standby has gone through
example : (Run.exec (Manager.next (Fin.ofNat 2)) (fun m e => insertsFresh m e = true) (Manager.boot : Manager ℕ)
    [.toggle true none, .collect 0, .collect 0, .visit 0, .insert 5, .createAndAttach 5, .store 1, .replace 1, .check 1,
      .toggle false none, .collect 2, .collect 2, .visit 2, .visit 2, .raise 1]).map
    (fun m => (decide (m.calls[2]? = some Call.done), m.writes 0, decide (.teardown (m.owner 0) ∈ m.calls))) =
    some (true, true, false) := by
  decide +kernel

-- network 5 is started a second time, and the standby finds only its second handle
example : (Run.exec (Manager.next (Fin.ofNat 2)) (fun _ _ => True) (Manager.boot : Manager ℕ)
    [.toggle true none, .collect 0, .collect 0, .visit 0, .insert 5, .createAndAttach 5, .store 1, .replace 1, .check 1,
      .raise 1, .insert 5, .toggle false none, .collect 2, .collect 2, .visit 2, .visit 2]).map
    (fun m => (decide (m.calls[2]? = some Call.done), m.writes 0, decide (.teardown (m.owner 0) ∈ m.calls))) =
    some (true, true, false) := by
  decide +kernel

end Tetron.Daemon.DataPlane
