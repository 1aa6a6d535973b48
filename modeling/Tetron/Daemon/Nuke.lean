import Tetron.Daemon.Publish

/-!
# Destroying a network

`tetron nuke` replaces the network's record by a tombstone. A lone coordinator does so at once; where the
roster flags two or more, a call records a proposal and publishes the tombstone only when enough proposals
are active. A call takes the state's lock up to three times and reads a new state each time; `NukeCall`
holds the states it meets. The generation of the tombstone is the local one plus one.
-/

namespace Tetron.Daemon

open Tetron.Membership Tetron.Dht

/-! ### Proposals -/

def coordinatorCount {Id : Type} (members : List (Member Id)) : ℕ := members.countP Member.isCoordinator

def activeNukeProposers (proposals : Std.ExtTreeMap Bytes ℕ) (now ttlSecs : ℕ) : List Bytes :=
  (proposals.toList.filter fun p => now - p.2 < ttlSecs).map Prod.fst

/-- The active proposer whose name starts with `short`. -/
def resolveNukeProposer (proposals : Std.ExtTreeMap Bytes ℕ) (now ttlSecs : ℕ) (short : String) :
    Except String Bytes :=
  match (activeNukeProposers proposals now ttlSecs).filter fun id => short.toUTF8.data.toList.isPrefixOf id with
  | [] => .error s!"no active nuke proposal from a coordinator matching '{short}'"
  | [id] => .ok id
  | _ => .error s!"ambiguous proposer id '{short}'"

inductive SoloNukeOutcome
  | nothingToCancelOrSecond
  | wouldStrandMembers
  | proceed
deriving DecidableEq

def soloCoordinatorNukeOutcome (cancel secondPresent hasOtherMembers force : Bool) : SoloNukeOutcome :=
  if cancel || secondPresent then .nothingToCancelOrSecond
  else if hasOtherMembers && !force then .wouldStrandMembers
  else .proceed

/-! ### The call -/

structure NukeArgs where
  force : Bool
  cancel : Bool
  second : Option String

/-- What a call goes on to do after its first look at the state. -/
inductive NukePath
  | solo
  | cancel
  | propose
deriving DecidableEq

section Call

variable {Id : Type} [DecidableEq Id] [Msgpack Id] [Blake3]

/-- The roster flags the identity as a coordinator. -/
def NetworkState.flagged (s : NetworkState Id) (id : Id) : Bool := (s.members.get id).any Member.isCoordinator

def strandsMembers : String :=
  "network has other members — use --force to destroy, or transfer ownership first"

/-- The checks of `nuke_network` on the state it reads first. -/
def nukeCheck (s : NetworkState Id) (myId : Id) (args : NukeArgs) : Except String NukePath :=
  let hasOtherMembers := decide (s.members.all.length > 1)
  if s.flagged myId = false then .error "only the coordinator can nuke a network"
  else if coordinatorCount s.members.all ≤ 1 then
    match soloCoordinatorNukeOutcome args.cancel args.second.isSome hasOtherMembers args.force with
    | .nothingToCancelOrSecond =>
      .error "no consensus needed with a single coordinator; nuke runs immediately, nothing to cancel or second"
    | .wouldStrandMembers => .error strandsMembers
    | .proceed => .ok .solo
  else if args.cancel then .ok .cancel
  else if hasOtherMembers && !args.force then .error strandsMembers
  else .ok .propose

/-- What a call did: the state it left, and the key and generation of the tombstone. -/
inductive NukeResult (Id : Type) [DecidableEq Id] [Msgpack Id] [Blake3]
  | cancelled (s : NetworkState Id)
  | proposed (s : NetworkState Id)
  | destroyed (s : NetworkState Id) (key : Option Bytes) (generation : ℕ)

variable [Endpoint Id]

/-- The write-locked section of a proposal, and what it decides. -/
def nukePropose (s : NetworkState Id) (myId : Id) (now nukeTtl : ℕ) : NukeResult Id :=
  let s' := proposeNuke s myId now
  if (activeNukeProposers s'.nukeProposals now nukeTtl).length < s'.nukeConsensusThreshold then .proposed s'
  else .destroyed s' s'.networkSecretKey (succGeneration s'.generation)

/-- A call of `nuke_network` and what it meets. -/
structure NukeCall (Id : Type) [DecidableEq Id] [Msgpack Id] [Blake3] where
  myId : Id
  args : NukeArgs
  now : ℕ
  nukeTtl : ℕ
  /-- The state at the first check, when the seconded proposal is looked up, and under the last lock. -/
  atCheck : NetworkState Id
  atSecond : NetworkState Id
  atCommit : NetworkState Id
  hasClient : Bool
  delivery : Delivery

namespace NukeCall

def run (call : NukeCall Id) : Except String (NukeResult Id) := do
  match ← nukeCheck call.atCheck call.myId call.args with
  | .solo =>
    .ok (.destroyed call.atCommit call.atCommit.networkSecretKey (succGeneration call.atCommit.generation))
  | .cancel => (cancelNuke call.atCommit call.myId).map .cancelled
  | .propose =>
    if let some short := call.args.second then
      let _ ← resolveNukeProposer call.atSecond.nukeProposals call.now call.nukeTtl short
    .ok (nukePropose call.atCommit call.myId call.now call.nukeTtl)

variable [Pkarr Id]

/-- `publish_nuke_tombstone`: the packet that reaches the relay. -/
def publishNukeTombstone (call : NukeCall Id) (key : Option Bytes) (generation : ℕ) : Option SignedPacket :=
  if key.isNone || !call.hasClient || call.delivery = .lost then none
  else
    let emptyBytes := Msgpack.toVecNamed (tombstone generation : GroupBlob Id)
    encodeNetworkRecord (Blake3.hash emptyBytes) generation ([] : List Id)

/-- The tombstone a call publishes, if any. -/
def published (call : NukeCall Id) : Option SignedPacket :=
  match call.run with
  | .ok (.destroyed _ key generation) => call.publishNukeTombstone key generation
  | _ => none

/-- The local generation when the call takes the generation of its tombstone. -/
def heldGeneration (call : NukeCall Id) : ℕ :=
  match nukeCheck call.atCheck call.myId call.args with
  | .ok .solo => call.atCommit.generation
  -- a proposal is a mutation of its own
  | _ => succGeneration call.atCommit.generation

variable {call : NukeCall Id}

omit [Pkarr Id] in
/-- A proposal that destroys is a mutation, and the tombstone one more. -/
theorem generation_of_nukePropose {s s' : NetworkState Id} {myId : Id} {now nukeTtl generation : ℕ}
    {key : Option Bytes} (h : nukePropose s myId now nukeTtl = .destroyed s' key generation) :
    generation = succGeneration (succGeneration s.generation) := by
  simp only [nukePropose] at h
  split at h
  · cases h
  · cases h
    rfl

omit [Pkarr Id] in
/-- Past the check, a call destroys at once or through its proposal. -/
theorem cases_of_run {s : NetworkState Id} {key : Option Bytes} {generation : ℕ}
    (h : call.run = .ok (.destroyed s key generation)) :
    (nukeCheck call.atCheck call.myId call.args = .ok .solo ∧ generation = succGeneration call.atCommit.generation) ∨
      (nukeCheck call.atCheck call.myId call.args = .ok .propose ∧
        nukePropose call.atCommit call.myId call.now call.nukeTtl = .destroyed s key generation) := by
  rw [run] at h
  cases hcheck : nukeCheck call.atCheck call.myId call.args with
  | error e =>
    rw [hcheck] at h
    cases h
  | ok path =>
    rw [hcheck] at h
    cases path with
    | solo =>
      cases h
      exact Or.inl ⟨rfl, rfl⟩
    | cancel =>
      cases hresult : cancelNuke call.atCommit call.myId with
      | error e =>
        simp only [hresult] at h
        cases h
      | ok s' =>
        simp only [hresult] at h
        cases h
    | propose =>
      refine Or.inr ⟨rfl, ?_⟩
      cases hsecond : call.args.second with
      | none =>
        rw [hsecond] at h
        exact Except.ok.inj h
      | some short =>
        rw [hsecond] at h
        cases hresolve : resolveNukeProposer call.atSecond.nukeProposals call.now call.nukeTtl short with
        | error e =>
          simp only [hresolve] at h
          cases h
        | ok id =>
          simp only [hresolve] at h
          exact Except.ok.inj h

omit [Pkarr Id] in
theorem generation_of_run {s : NetworkState Id} {key : Option Bytes} {generation : ℕ}
    (h : call.run = .ok (.destroyed s key generation)) : generation = succGeneration call.heldGeneration := by
  rw [heldGeneration]
  rcases cases_of_run h with ⟨hcheck, hgen⟩ | ⟨hcheck, hpropose⟩ <;> rw [hcheck]
  · exact hgen
  · exact generation_of_nukePropose hpropose

/-- A published tombstone is the record of the next generation. -/
theorem published_eq_some {packet : SignedPacket} (h : call.published = some packet) :
    ∃ hash, packet = ⟨recordValues hash (succGeneration call.heldGeneration) ([] : List Id)⟩ := by
  rw [published] at h
  split at h
  · rename_i s key generation hrun
    rw [publishNukeTombstone] at h
    split at h
    · cases h
    · rw [generation_of_run hrun] at h
      obtain ⟨-, hpacket⟩ := Option.ite_none_right_eq_some.mp h
      exact ⟨_, (Option.some.inj hpacket).symm⟩
  · cases h

variable (Id) in
/-- Readers see a higher generation in `packet` than in the live record. -/
def Outranks (packet : SignedPacket) (live : Option SignedPacket) : Prop :=
  ∀ h g, recordSeen Id live = some (h, g) → ∃ h' g', recordSeen Id (some packet) = some (h', g') ∧ g < g'

/-- **A tombstone outranks the live record** exactly when the local generation is not behind it. -/
theorem tombstone_outranks_iff (hparse : Pkarr.ParsesBack Id) (hgeneration : call.atCommit.generation < 2 ^ 64)
    {packet : SignedPacket} (hpublished : call.published = some packet) (live : Option SignedPacket) :
    Outranks Id packet live ↔ ∀ h g, recordSeen Id live = some (h, g) →
      g ≤ call.heldGeneration ∧ call.heldGeneration + 1 < 2 ^ 64 := by
  obtain ⟨hash, rfl⟩ := published_eq_some hpublished
  have hheld : call.heldGeneration < 2 ^ 64 := by
    rw [heldGeneration]
    split
    · exact hgeneration
    · exact succGeneration_lt _
  have hseen := recordSeen_recordValues hparse hash (succGeneration_lt call.heldGeneration) ([] : List Id)
  constructor
  · intro houtranks h g hlive
    obtain ⟨h', g', heq, hlt⟩ := houtranks h g hlive
    cases hseen.symm.trans heq
    exact (lt_succGeneration_iff hheld).mp hlt
  · intro hbound h g hlive
    exact ⟨_, _, hseen, (lt_succGeneration_iff hheld).mpr (hbound h g hlive)⟩

end NukeCall

end Call

end Tetron.Daemon

namespace Tetron.Daemon.Sample

open Tetron.Membership Tetron.Dht

/-- Alice's forced nuke from a state of this generation, where bob has proposed too. -/
def nukeCall (generation : ℕ) (coordinators : List Peer) : NukeCall Peer :=
  let s := { state generation (coordinators.map fun peer => member peer true) with
    nukeProposals := (∅ : Std.ExtTreeMap Bytes ℕ).insert (name .bob) 90 }
  ⟨.alice, ⟨true, false, none⟩, 100, 1000, s, s, s, true, .delivered⟩

/-- What alice's call publishes, on either path. -/
noncomputable def nukeRecord (generation : ℕ) : SignedPacket :=
  ⟨recordValues (Blake3.hash (Msgpack.toVecNamed (tombstone generation : GroupBlob Peer))) generation
    ([] : List Peer)⟩

theorem published_solo (generation : ℕ) :
    (nukeCall generation [.alice]).published = some (nukeRecord (succGeneration generation)) := by
  have hrun : ∃ s, (nukeCall generation [.alice]).run =
      .ok (.destroyed s (some [1]) (succGeneration generation)) := ⟨_, rfl⟩
  obtain ⟨s, hs⟩ := hrun
  rw [NukeCall.published, hs]
  rfl

theorem published_consensus (generation : ℕ) : (nukeCall generation [.alice, .bob]).published =
    some (nukeRecord (succGeneration (succGeneration generation))) := by
  have hrun : ∃ s, (nukeCall generation [.alice, .bob]).run =
      .ok (.destroyed s (some [1]) (succGeneration (succGeneration generation))) := ⟨_, rfl⟩
  obtain ⟨s, hs⟩ := hrun
  rw [NukeCall.published, hs]
  rfl

theorem not_outranks_liveRecord {generation : ℕ} (h : generation ≤ 7) :
    ¬ NukeCall.Outranks Peer (nukeRecord generation) (some liveRecord) := by
  intro houtranks
  obtain ⟨h', g', heq, hlt⟩ := houtranks _ _ recordSeen_liveRecord
  cases (recordSeen_recordValues parsesBack _ (by omega) _).symm.trans heq
  omega

theorem tombstone_outranks_alice :
    NukeCall.Outranks Peer (nukeRecord 9) (some liveRecord) := by
  refine (NukeCall.tombstone_outranks_iff parsesBack (by decide) (published_consensus 7) (some liveRecord)).mpr ?_
  intro h g hlive
  cases recordSeen_liveRecord.symm.trans hlive
  exact (by decide : 7 ≤ succGeneration 7 ∧ succGeneration 7 + 1 < 2 ^ 64)

/-- Two generations behind the live record, alice's tombstone is below it on the solo path and level with
it on the consensus path. -/
theorem lagging_tombstone :
    ((nukeCall 5 [.alice]).published = some (nukeRecord 6) ∧
        ¬ NukeCall.Outranks Peer (nukeRecord 6) (some liveRecord)) ∧
      (nukeCall 5 [.alice, .bob]).published = some (nukeRecord 7) ∧
        ¬ NukeCall.Outranks Peer (nukeRecord 7) (some liveRecord) :=
  ⟨⟨published_solo 5, not_outranks_liveRecord (by decide)⟩, published_consensus 5,
    not_outranks_liveRecord (by decide)⟩

end Tetron.Daemon.Sample
