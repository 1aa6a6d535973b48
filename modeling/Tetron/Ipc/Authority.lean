import Tetron.Ipc.Slots

/-!
# Who may control the daemon

The IPC socket is open to every local user, and `check_authorized` decides each request by the caller's uid: a few
requests are open to all, root may send anything, only root may name an operator, and the operator in the settings may
send the rest.

The operator is a field of one settings file that several requests load, change and save as a whole, without a lock
and through a cache, as does `tetron config` in a process of its own. A save can therefore put back an old operator,
and a check can read one. What none of this can do is to make an operator of somebody root has not named:
`executed_by_authority` holds for every order of requests, whatever old content each load returns.
-/

namespace Tetron.Ipc.Authority

/-- The messages of the protocol as far as the check tells them apart. A client may also send a message that is meant
as a response. -/
inductive IpcMessage where
  | create
  | join
  | leave
  | nuke
  | kick
  | status
  | shutdown
  | resume
  | standby
  | sync
  | setOperator (uid : UInt32)
  | setLogLevel
  | setPathPreference
  | adminAdd
  | adminList
  | inviteCreate
  | inviteList
  | inviteRevoke
  | response
deriving DecidableEq

/-- The requests every local user may send. -/
def IpcMessage.isOpen : IpcMessage → Bool
  | .status | .sync | .adminList | .inviteList => true
  | _ => false

def IpcMessage.isSetOperator : IpcMessage → Bool
  | .setOperator _ => true
  | _ => false

/-- `check_authorized`, with the operator that was loaded: `none`, or the message of the refusal. -/
def checkAuthorized (req : IpcMessage) (peerCred : Option (UInt32 × UInt32)) (operator : Option UInt32) :
    Option String :=
  let uid := peerCred.map (·.1)
  if req.isOpen then none
  else if uid = some 0 then none
  else if req.isSetOperator then
    some "permission denied: granting operator access requires root (re-run with sudo)"
  else if uid.isSome ∧ uid = operator then none
  else
    some ("permission denied: this user is not authorized to control tetron.\n" ++
      "Grant access with: sudo tetron set-operator <user>")

/-- The settings file: the operator, and everything else. -/
structure AppConfig (R : Type) where
  operatorUid : Option UInt32
  rest : R

inductive Phase where
  | arrived
  | denied (message : String)
  | running
deriving DecidableEq

/-- A request in the hands of `handle_request`. -/
structure Request where
  peerCred : Option (UInt32 × UInt32)
  req : IpcMessage
  phase : Phase
deriving DecidableEq

def Request.uid (r : Request) : Option UInt32 := r.peerCred.map (·.1)

/-- All contents the settings file has had, from the first to the current one, and all requests. -/
structure Daemon (R : Type) where
  contents : List (AppConfig R)
  requests : List Request

def Daemon.boot {R : Type} (config : AppConfig R) : Daemon R := ⟨[config], []⟩

inductive Event (R : Type) where
  | arrive (peerCred : Option (UInt32 × UInt32)) (req : IpcMessage)
  /-- The check. The load it makes fails, or returns one of the contents so far. -/
  | authorize (i : ℕ) (loaded : Option ℕ)
  /-- A running request saves the content `loaded` with its own change: `set_operator` the operator, any other one
  nothing but the rest (`activate` the default hostname, `set_node_subnet` the subnet). -/
  | save (i loaded : ℕ) (rest : R)
  /-- `tetron config set` in another process, which has no key for the operator. -/
  | configSet (loaded : ℕ) (rest : R)

namespace Daemon

variable {R : Type}

/-- The operator a load returns. -/
def loadedOperator (d : Daemon R) (loaded : Option ℕ) : Option UInt32 :=
  (loaded.bind fun k => d.contents[k]?).bind (·.operatorUid)

/-- What a request makes of the content it loaded. -/
def change (req : IpcMessage) (config : AppConfig R) (rest : R) : AppConfig R :=
  match req with
  | .setOperator uid => { config with operatorUid := some uid }
  | _ => { config with rest := rest }

def next (d : Daemon R) : Event R → Option (Daemon R)
  | .arrive peerCred req => some { d with requests := d.requests ++ [⟨peerCred, req, .arrived⟩] }
  | .authorize i loaded =>
    match d.requests[i]? with
    | some ⟨peerCred, req, .arrived⟩ =>
      match checkAuthorized req peerCred (d.loadedOperator loaded) with
      | some message => some { d with requests := d.requests.set i ⟨peerCred, req, .denied message⟩ }
      | none => some { d with requests := d.requests.set i ⟨peerCred, req, .running⟩ }
    | _ => none
  | .save i loaded rest =>
    match d.requests[i]?, d.contents[loaded]? with
    | some ⟨_, req, .running⟩, some config => some { d with contents := d.contents ++ [change req config rest] }
    | _, _ => none
  | .configSet loaded rest =>
    match d.contents[loaded]? with
    | some config => some { d with contents := d.contents ++ [{ config with rest := rest }] }
    | none => none

end Daemon

/-! ### The check -/

section Check

variable {req : IpcMessage} {peerCred : Option (UInt32 × UInt32)} {operator : Option UInt32}

theorem checkAuthorized_eq_none : checkAuthorized req peerCred operator = none ↔
    req.isOpen = true ∨ peerCred.map (·.1) = some 0 ∨
      (req.isSetOperator = false ∧ (peerCred.map (·.1)).isSome ∧ peerCred.map (·.1) = operator) := by
  unfold checkAuthorized
  dsimp only
  split
  · rename_i hopen
    simp [hopen]
  · rename_i hclosed
    split
    · rename_i hroot
      simp [hroot]
    · rename_i hroot
      split
      · rename_i hset
        simp [hclosed, hroot, hset]
      · rename_i hset
        split
        · rename_i hop
          simp only [true_iff]
          exact .inr (.inr ⟨by simpa using hset, hop⟩)
        · rename_i hop
          simp only [reduceCtorEq, false_iff]
          rintro (h | h | ⟨-, h⟩)
          · exact hclosed h
          · exact hroot h
          · exact hop h

end Check

/-! ### Who becomes operator -/

section Run

variable {R : Type} {boot : AppConfig R} {d d' : Daemon R} {e : Event R} {uid : UInt32}

/-- Root has named `uid` as operator in a request that was carried out, or it was the operator at the start. -/
def Named (boot : AppConfig R) (d : Daemon R) (uid : UInt32) : Prop :=
  boot.operatorUid = some uid ∨
    ∃ r ∈ d.requests, r.uid = some 0 ∧ r.req = .setOperator uid ∧ r.phase = .running

/-- What entitles a request to be carried out. -/
def Entitled (boot : AppConfig R) (d : Daemon R) (r : Request) : Prop :=
  r.req.isOpen = true ∨ r.uid = some 0 ∨ (r.req.isSetOperator = false ∧ ∃ uid, r.uid = some uid ∧ Named boot d uid)

structure Vouched (boot : AppConfig R) (d : Daemon R) : Prop where
  contents : ∀ config ∈ d.contents, ∀ uid, config.operatorUid = some uid → Named boot d uid
  running : ∀ r ∈ d.requests, r.phase = .running → Entitled boot d r

/-- What is carried out stays so. -/
def Extends (d d' : Daemon R) : Prop := ∀ r ∈ d.requests, r.phase = .running → r ∈ d'.requests

theorem Named.mono (h : Named boot d uid) (hext : Extends d d') : Named boot d' uid := by
  rcases h with h | ⟨r, hr, hroot, hreq, hrunning⟩
  · exact .inl h
  · exact .inr ⟨r, hext r hr hrunning, hroot, hreq, hrunning⟩

theorem Entitled.mono {r : Request} (h : Entitled boot d r) (hext : Extends d d') : Entitled boot d' r := by
  rcases h with h | h | ⟨hset, uid, huid, hnamed⟩
  · exact .inl h
  · exact .inr (.inl h)
  · exact .inr (.inr ⟨hset, uid, huid, hnamed.mono hext⟩)

/-- What is not carried out yet may move on. -/
theorem extends_set {i : ℕ} {old new : Request} (hi : d.requests[i]? = some old) (hold : old.phase = .arrived) :
    Extends d { d with requests := d.requests.set i new } := by
  intro r hr hrunning
  obtain ⟨j, hj⟩ := List.mem_iff_getElem?.mp hr
  have hne : i ≠ j := by
    rintro rfl
    rw [hi] at hj
    cases hj
    rw [hold] at hrunning
    cases hrunning
  exact List.mem_iff_getElem?.mpr ⟨j, by rw [List.getElem?_set_ne hne]; exact hj⟩

/-- A load that returns an operator returns one root has named. -/
theorem Vouched.loaded (h : Vouched boot d) {loaded : Option ℕ} (hload : d.loadedOperator loaded = some uid) :
    Named boot d uid := by
  obtain ⟨config, hconfig, hop⟩ := Option.bind_eq_some_iff.mp hload
  obtain ⟨k, -, hk⟩ := Option.bind_eq_some_iff.mp hconfig
  exact h.contents config (List.mem_of_getElem? hk) uid hop

/-- A request that passes the check is entitled to be carried out. -/
theorem Vouched.entitled (h : Vouched boot d) {peerCred : Option (UInt32 × UInt32)} {req : IpcMessage}
    {loaded : Option ℕ} (hcheck : checkAuthorized req peerCred (d.loadedOperator loaded) = none) :
    Entitled boot d ⟨peerCred, req, .running⟩ := by
  rcases checkAuthorized_eq_none.mp hcheck with hopen | hroot | ⟨hset, hsome, hop⟩
  · exact .inl hopen
  · exact .inr (.inl hroot)
  · obtain ⟨uid, huid⟩ := Option.isSome_iff_exists.mp hsome
    exact .inr (.inr ⟨hset, uid, huid, h.loaded (hop.symm.trans huid)⟩)

/-- A step on the requests keeps the invariant if the request it changes is not carried out, or entitled. -/
theorem Vouched.requests (h : Vouched boot d) {requests : List Request}
    (hext : Extends d { d with requests := requests })
    (hnew : ∀ r ∈ requests, r ∈ d.requests ∨ r.phase ≠ .running ∨ Entitled boot d r) :
    Vouched boot { d with requests := requests } where
  contents config hconfig uid hop := (h.contents config hconfig uid hop).mono hext
  running r hr hrunning := by
    rcases hnew r hr with hold | hnot | hentitled
    · exact (h.running r hold hrunning).mono hext
    · exact absurd hrunning hnot
    · exact hentitled.mono hext

/-- A content that is saved names no new operator, unless root does. -/
theorem Vouched.save (h : Vouched boot d) {new : AppConfig R}
    (hnew : ∀ uid, new.operatorUid = some uid → Named boot d uid) :
    Vouched boot { d with contents := d.contents ++ [new] } where
  contents config hconfig uid hop := by
    rcases List.mem_append.mp hconfig with hconfig | hconfig
    · exact h.contents config hconfig uid hop
    · rw [List.mem_singleton.mp hconfig] at hop
      exact hnew uid hop
  running := h.running

theorem Vouched.step (h : Vouched boot d) (hstep : d.next e = some d') : Vouched boot d' := by
  cases e with
  | arrive peerCred req =>
    cases hstep
    refine h.requests (fun r hr _ => List.mem_append_left _ hr) fun r hr => ?_
    rcases List.mem_append.mp hr with hr | hr
    · exact .inl hr
    · rw [List.mem_singleton.mp hr]
      exact .inr (.inl (by simp))
  | authorize i loaded =>
    simp only [Daemon.next] at hstep
    split at hstep
    · rename_i peerCred req hi
      split at hstep
      · cases hstep
        refine h.requests (extends_set hi rfl) fun r hr => ?_
        rcases List.mem_or_eq_of_mem_set hr with hr | rfl
        · exact .inl hr
        · exact .inr (.inl (by simp))
      · rename_i hcheck
        cases hstep
        refine h.requests (extends_set hi rfl) fun r hr => ?_
        rcases List.mem_or_eq_of_mem_set hr with hr | rfl
        · exact .inl hr
        · exact .inr (.inr (h.entitled hcheck))
    · cases hstep
  | save i loaded rest =>
    simp only [Daemon.next] at hstep
    split at hstep
    · rename_i peerCred req config hi hloaded
      cases hstep
      refine h.save fun uid hop => ?_
      have hmem := List.mem_of_getElem? hi
      by_cases hset : ∃ named, req = .setOperator named
      · -- only root gets this far with such a request
        obtain ⟨named, rfl⟩ := hset
        cases hop
        rcases h.running _ hmem rfl with hopen | hroot | ⟨hset, -⟩
        · cases hopen
        · exact .inr ⟨_, hmem, hroot, rfl, rfl⟩
        · cases hset
      · have hsame : (Daemon.change req config rest).operatorUid = config.operatorUid := by
          cases req <;> first | rfl | exact absurd ⟨_, rfl⟩ hset
        rw [hsame] at hop
        exact h.contents config (List.mem_of_getElem? hloaded) uid hop
    · cases hstep
  | configSet loaded rest =>
    simp only [Daemon.next] at hstep
    split at hstep
    · rename_i config hloaded
      cases hstep
      exact h.save fun uid hop => h.contents config (List.mem_of_getElem? hloaded) uid hop
    · cases hstep

end Run

/-- **Only root's choice counts**: in every run, a request is carried out only if it is open to all, comes from root,
or, where it does not name an operator, from somebody who was the operator at the start or whom root has named. -/
theorem executed_by_authority {R : Type} (boot : AppConfig R) {events : List (Event R)} {d : Daemon R}
    (hrun : Run (fun d e d' => d.next e = some d') (fun _ _ => True) (Daemon.boot boot) events d) {r : Request}
    (hr : r ∈ d.requests) (hrunning : r.phase = .running) : Entitled boot d r := by
  have hinv : Vouched boot d :=
    hrun.invariant (I := fun _ d => Vouched boot d)
      ⟨fun config hconfig uid hop => .inl (by rw [← List.mem_singleton.mp hconfig]; exact hop),
        fun _ h => (by cases h)⟩ fun _ _ _ _ h _ hstep => h.step hstep
  exact hinv.running r hr hrunning

/-- Root replaces operator 1000 by 1001, but a save of 1000's own request puts the old content back, so that 1000 is
still obeyed: it was the operator at the start. -/
theorem executed_by_authority_stale :
    ∃ d, Run (fun d e d' => d.next e = some d') (fun _ _ => True) (Daemon.boot (⟨some 1000, 0⟩ : AppConfig ℕ))
        [.arrive (some (1000, 1000)) .resume, .authorize 0 (some 0), .arrive (some (0, 0)) (.setOperator 1001),
          .authorize 1 none, .save 1 0 0, .save 0 0 7, .arrive (some (1000, 1000)) .leave, .authorize 2 (some 2)] d ∧
      (⟨some (1000, 1000), .leave, .running⟩ : Request) ∈ d.requests ∧
      Entitled (⟨some 1000, 0⟩ : AppConfig ℕ) d ⟨some (1000, 1000), .leave, .running⟩ := by
  refine Run.exists_of_exec_imp (fun d => (⟨some (1000, 1000), .leave, .running⟩ : Request) ∈ d.requests)
    (by decide +kernel) fun d hrun hmem => ?_
  exact ⟨hmem, executed_by_authority _ hrun hmem rfl⟩

end Tetron.Ipc.Authority
