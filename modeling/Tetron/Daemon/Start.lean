import Tetron.Daemon.NetworkState

/-!
# The states a node starts from

A node gets the state of a network by creating it, by joining it on a coordinator's `Welcome`, or by
restoring it, from a verified blob or else from what its configuration saved. A saved entry has no
collision index; every restore from the configuration puts in index zero.
-/

namespace Tetron.Daemon

open Tetron.Membership

variable {Id : Type} [DecidableEq Id] [Endpoint Id] [Msgpack Id] [Blake3]

/-! ### Saved rosters -/

structure MemberEntry (Id : Type) where
  identity : Id
  ip : Ipv4Addr
  isCoordinator : Bool
  hostname : Option String
deriving DecidableEq

structure ApprovedConfigEntry (Id : Type) where
  identity : Id
  ip : Ipv4Addr
  hostname : Option String
deriving DecidableEq

structure NetworkConfig (Id : Type) where
  name : String
  myHostname : Option String
  members : List (MemberEntry Id)
  approved : List (ApprovedConfigEntry Id)
  networkSecretKey : Option Bytes
  subnet : Option Subnet
  nukeConsensusThreshold : ℕ

def toMemberEntry (m : Member Id) : MemberEntry Id := ⟨m.identity, m.ip, m.isCoordinator, m.hostname⟩

def toApprovedEntry (e : ApprovedEntry Id) : ApprovedConfigEntry Id := ⟨e.identity, e.ip, e.hostname⟩

/-- A saved member as `restore_member_roster`, `fallback_blob_from_config` and `persisted_roster` read
it back. -/
def MemberEntry.toMember (entry : MemberEntry Id) : Member Id where
  identity := entry.identity
  ip := entry.ip
  isCoordinator := entry.isCoordinator
  hostname := entry.hostname
  collisionIndex := 0
  lastSeen := none
  veilidNodeId := none

def ApprovedConfigEntry.toApproved (entry : ApprovedConfigEntry Id) : ApprovedEntry Id where
  identity := entry.identity
  ip := entry.ip
  hostname := entry.hostname
  collisionIndex := 0

/-! ### The node's own address -/

/-- `IrohIdentityProvider`: the identity, and the collision index and subnet its address is derived
with. -/
structure IdentityProvider (Id : Type) where
  endpointId : Id
  collisionIndex : ℕ
  subnet : Subnet

/-- The address a node takes in a network of its own. -/
def IdentityProvider.myIp (p : IdentityProvider Id) (subnet : Subnet) : Ipv4Addr :=
  if subnet = p.subnet then deriveIpWithIndex p.endpointId p.collisionIndex p.subnet
  else deriveIp p.endpointId subnet

/-- The entry a node makes for itself as a coordinator. -/
def IdentityProvider.selfMember (p : IdentityProvider Id) (subnet : Subnet)
    (hostname veilidNodeId : Option String) : Member Id where
  identity := p.endpointId
  ip := p.myIp subnet
  isCoordinator := true
  hostname := hostname
  collisionIndex := 0
  lastSeen := none
  veilidNodeId := veilidNodeId

/-! ### Creating -/

/-- The approved list of a new network: the peer to pre-approve, if any. -/
def initialApproved (members : MemberList Id) (subnet : Subnet) :
    Option (Id × Option String) → Option (ApprovedList Id)
  | none => some .new
  | some (peer, hostname) =>
    (ApprovedList.new.approve ⟨peer, deriveIp peer subnet, hostname, 0⟩ members).toOption

/-- `build_initial_roster`, sealed; `none` if a peer to pre-approve collides. -/
def buildInitialRoster (p : IdentityProvider Id) (name hostname : String) (key : Bytes) (subnet : Subnet)
    (threshold : ℕ) (preApprove : Option (Id × Option String)) (veilidNodeId : Option String) :
    Option (NetworkState Id) := do
  let members ← (MemberList.new.add (p.selfMember subnet (some hostname) veilidNodeId)).toOption
  let approved ← initialApproved members subnet preApprove
  return NetworkState.refreshSnapshot {
    generation := 0
    members := members
    approved := approved
    snapshot := none
    networkSecretKey := some key
    networkPublicKey := Endpoint.publicKey key
    networkName := some name
    reusableKeys := ∅
    invites := ∅
    nukeProposals := ∅
    nukeConsensusThreshold := threshold
    subnet := subnet }

/-! ### Joining -/

/-- `build_member_state`: the rosters are the `Welcome`'s, the rest is from the blob that was fetched
before the handshake. -/
def buildMemberState (data : GroupBlob Id) (members : List (Member Id)) (approved : List (ApprovedEntry Id))
    (netPubkey : Id) (name : String) : NetworkState Id :=
  NetworkState.refreshSnapshot {
    generation := data.generation
    members := .fromMembers members
    approved := .fromEntries approved
    snapshot := none
    networkSecretKey := none
    networkPublicKey := netPubkey
    networkName := some name
    reusableKeys := data.reusableKeys
    invites := data.invites
    nukeProposals := data.nukeProposals
    nukeConsensusThreshold := data.nukeConsensusThreshold
    subnet := resolveSubnet data.subnet }

/-! ### Restoring a coordinator's network -/

/-- Members added one by one, then entries approved against them; collisions are skipped. -/
def restoreRosters (members : List (Member Id)) (approved : List (ApprovedEntry Id)) :
    MemberList Id × ApprovedList Id :=
  let list : MemberList Id := members.foldl MemberList.addOrKeep .new
  (list, approved.foldl (fun l e => l.approveOrKeep e list) .new)

omit [Endpoint Id] [Msgpack Id] [Blake3] in
theorem mem_of_get_restoreRosters {members : List (Member Id)} {approved : List (ApprovedEntry Id)} {id : Id} :
    (∀ {m}, (restoreRosters members approved).1.get id = some m → m ∈ members) ∧
      ∀ {e}, (restoreRosters members approved).2.get id = some e → e ∈ approved := by
  refine ⟨MemberList.mem_of_get_fromMembers, fun {e} h => ?_⟩
  refine List.foldlRecOn (motive := fun l : ApprovedList Id => l.get id = some e → e ∈ approved) approved
    (fun (l : ApprovedList Id) e => l.approveOrKeep e (members.foldl MemberList.addOrKeep .new)) ?_ ?_ h
  · simp [ApprovedList.new, ApprovedList.get]
  · intro l ih a ha hget
    rcases ApprovedList.get_of_approveOrKeep hget with hold | rfl
    · exact ih hold
    · exact ha

/-- The fetched blob's rosters, or else the saved ones. -/
def knownRosters (nc : NetworkConfig Id) : Option (GroupBlob Id) → MemberList Id × ApprovedList Id
  | some data => restoreRosters data.members data.approved
  | none => restoreRosters (nc.members.map MemberEntry.toMember)
      (nc.approved.map ApprovedConfigEntry.toApproved)

/-- `restore_member_roster`: the known rosters with the node itself; `none` where its own address is
taken. -/
def restoreMemberRoster (p : IdentityProvider Id) (fetched : Option (GroupBlob Id)) (nc : NetworkConfig Id)
    (subnet : Subnet) : Option (MemberList Id × ApprovedList Id) :=
  let (members, approved) := knownRosters nc fetched
  if members.isMember p.endpointId then some (members, approved)
  else ((members.add (p.selfMember subnet nc.myHostname none)).toOption).map fun l => (l, approved)

/-- `validate_subnet_matches_roster`, by whether it succeeds. -/
def validateSubnetMatchesRoster (subnet : Subnet) (members : MemberList Id) (self : Id) : Bool :=
  (members.get self).all fun m => ipInSubnet m.ip subnet

/-- A restored coordinator's own node id, where the network uses one, goes into its entry. -/
def refreshOwnVeilid (s : NetworkState Id) (me : Id) (veilidNodeId : Option String) : NetworkState Id :=
  match veilidNodeId, s.members.get me with
  | some node, some m =>
    if m.veilidNodeId = some node then s
    else NetworkState.bumpGenerationAndRefresh (applyVeilidNodeId s me node)
  | _, _ => s

/-- `restore_coordinator_network`, sealed. `veilidNodeId` is the node's own, if the network uses it. -/
def restoreCoordinatorNetwork (p : IdentityProvider Id) (fetched : Option (GroupBlob Id))
    (nc : NetworkConfig Id) (veilidNodeId : Option String) : Option (NetworkState Id) := do
  let key ← nc.networkSecretKey
  let subnet := nc.subnet.getD defaultSubnet
  let (members, approved) ← restoreMemberRoster p fetched nc subnet
  if validateSubnetMatchesRoster subnet members p.endpointId then
    let state : NetworkState Id := {
      generation := (fetched.map GroupBlob.generation).getD 0
      members := members
      approved := approved
      snapshot := none
      networkSecretKey := some key
      networkPublicKey := Endpoint.publicKey key
      networkName := some nc.name
      reusableKeys := (fetched.map GroupBlob.reusableKeys).getD ∅
      invites := (fetched.map GroupBlob.invites).getD ∅
      nukeProposals := (fetched.map GroupBlob.nukeProposals).getD ∅
      nukeConsensusThreshold := (fetched.map GroupBlob.nukeConsensusThreshold).getD nc.nukeConsensusThreshold
      subnet := subnet }
    some (refreshOwnVeilid state p.endpointId veilidNodeId).refreshSnapshot
  else none

/-- A restored state is a sealed one over the restored rosters. -/
theorem restoreCoordinatorNetwork_eq_some {p : IdentityProvider Id} {fetched : Option (GroupBlob Id)}
    {nc : NetworkConfig Id} {veilidNodeId : Option String} {s : NetworkState Id}
    (h : restoreCoordinatorNetwork p fetched nc veilidNodeId = some s) :
    ∃ t : NetworkState Id, s = (refreshOwnVeilid t p.endpointId veilidNodeId).refreshSnapshot ∧
      t.subnet = nc.subnet.getD defaultSubnet ∧
      restoreMemberRoster p fetched nc t.subnet = some (t.members, t.approved) ∧
      t.invites = (fetched.map GroupBlob.invites).getD ∅ := by
  simp only [restoreCoordinatorNetwork, Option.bind_eq_bind, Option.bind_eq_some_iff] at h
  obtain ⟨key, -, ⟨members, approved⟩, hroster, h⟩ := h
  split at h
  · exact ⟨_, (Option.some.inj h).symm, rfl, hroster, rfl⟩
  · cases h

/-- A restored state is sealed and has the fetched blob's invites. -/
theorem restoreCoordinatorNetwork_spec {p : IdentityProvider Id} {fetched : Option (GroupBlob Id)}
    {nc : NetworkConfig Id} {veilidNodeId : Option String} {s : NetworkState Id}
    (h : restoreCoordinatorNetwork p fetched nc veilidNodeId = some s) :
    s.Sealed ∧ s.invites = (fetched.map GroupBlob.invites).getD ∅ := by
  obtain ⟨t, rfl, -, -, hinvites⟩ := restoreCoordinatorNetwork_eq_some h
  refine ⟨NetworkState.sealed_refreshSnapshot _, ?_⟩
  rw [← hinvites]
  change (refreshOwnVeilid _ _ _).invites = _
  unfold refreshOwnVeilid
  split
  · split <;> rfl
  · rfl

/-- An initial state is a sealed one with the creator on its roster. -/
theorem buildInitialRoster_eq_some {p : IdentityProvider Id} {name hostname : String} {key : Bytes} {subnet : Subnet}
    {threshold : ℕ} {preApprove : Option (Id × Option String)} {veilidNodeId : Option String}
    {s : NetworkState Id}
    (h : buildInitialRoster p name hostname key subnet threshold preApprove veilidNodeId = some s) :
    ∃ t : NetworkState Id, s = t.refreshSnapshot ∧ t.subnet = subnet ∧
      (MemberList.new.add (p.selfMember subnet (some hostname) veilidNodeId)).toOption = some t.members ∧
      initialApproved t.members subnet preApprove = some t.approved := by
  simp only [buildInitialRoster, Option.bind_eq_bind, Option.bind_eq_some_iff, Option.pure_def,
    Option.some.injEq] at h
  obtain ⟨members, hmembers, approved, happroved, rfl⟩ := h
  exact ⟨_, rfl, rfl, hmembers, happroved⟩

theorem sealed_buildInitialRoster {p : IdentityProvider Id} {name hostname : String} {key : Bytes} {subnet : Subnet}
    {threshold : ℕ} {preApprove : Option (Id × Option String)} {veilidNodeId : Option String}
    {s : NetworkState Id}
    (h : buildInitialRoster p name hostname key subnet threshold preApprove veilidNodeId = some s) : s.Sealed := by
  obtain ⟨t, rfl, -⟩ := buildInitialRoster_eq_some h
  exact NetworkState.sealed_refreshSnapshot t

end Tetron.Daemon
