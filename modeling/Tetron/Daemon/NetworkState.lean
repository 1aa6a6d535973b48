import Tetron.Membership.GroupBlob

/-!
# The state of a network and its write-locked sections

A node keeps one `NetworkState` per network behind a lock. Tasks touch it in sections: the code
between taking the write lock and releasing it, with no await inside. `Section` lists every such
section that edits the state locally; those that adopt a verified blob are in `Tetron.Daemon.Adopt`.
What runs between two sections of one task is up to the scheduler, so the systems built on this module
interleave sections.
-/

namespace Tetron.Daemon

open Tetron.Membership

/-- The bytes of a blob and their hash. The source keeps no more; the blob says what the bytes are of. -/
structure GroupSnapshot (Id : Type) [Msgpack Id] [Blake3] where
  hash : Hash
  msgpackBytes : Bytes
  blob : GroupBlob Id
  bytes_eq : msgpackBytes = Msgpack.toVecNamed blob
  hash_eq : hash = Blake3.hash msgpackBytes

def GroupSnapshot.of {Id : Type} [Msgpack Id] [Blake3] (blob : GroupBlob Id) : GroupSnapshot Id where
  hash := Blake3.hash (Msgpack.toVecNamed blob)
  msgpackBytes := Msgpack.toVecNamed blob
  blob := blob
  bytes_eq := rfl
  hash_eq := rfl

structure NetworkState (Id : Type) [DecidableEq Id] [Msgpack Id] [Blake3] where
  generation : ℕ
  members : MemberList Id
  approved : ApprovedList Id
  snapshot : Option (GroupSnapshot Id)
  networkSecretKey : Option Bytes
  networkPublicKey : Id
  networkName : Option String
  reusableKeys : ReusableKeys
  invites : Invites
  nukeProposals : Std.ExtTreeMap Bytes ℕ
  nukeConsensusThreshold : ℕ
  subnet : Subnet

/-- `generation += 1` on a `u64`, in a release build. -/
def succGeneration (generation : ℕ) : ℕ := (generation + 1) % 2 ^ 64

theorem succGeneration_of_lt {g : ℕ} (h : g + 1 < 2 ^ 64) : succGeneration g = g + 1 :=
  Nat.mod_eq_of_lt h

theorem succGeneration_lt (g : ℕ) : succGeneration g < 2 ^ 64 := Nat.mod_lt _ (by decide)

/-- A successor is above what the generation was not below, unless it wraps. -/
theorem lt_succGeneration_iff {r g : ℕ} (h : r < 2 ^ 64) :
    g < succGeneration r ↔ g ≤ r ∧ r + 1 < 2 ^ 64 := by
  unfold succGeneration
  omega

variable {Id : Type} [DecidableEq Id] [Endpoint Id] [Msgpack Id] [Blake3]

namespace NetworkState

/-- The blob a state publishes. -/
def blob (s : NetworkState Id) : GroupBlob Id :=
  canonicalGroupBlob s.generation s.members s.approved s.networkName s.reusableKeys (some s.subnet)
    s.invites s.nukeProposals s.nukeConsensusThreshold

/-- The identity is on one of the rosters. -/
def Knows (s : NetworkState Id) (id : Id) : Prop :=
  s.members.isMember id = true ∨ s.approved.isApproved id = true

def bytes (s : NetworkState Id) : Bytes :=
  canonicalGroupBytes s.generation s.members s.approved s.networkName s.reusableKeys (some s.subnet)
    s.invites s.nukeProposals s.nukeConsensusThreshold

def refreshSnapshot (s : NetworkState Id) : NetworkState Id :=
  { s with snapshot := some ⟨Blake3.hash s.bytes, s.bytes, s.blob, rfl, rfl⟩ }

def bumpGenerationAndRefresh (s : NetworkState Id) : NetworkState Id :=
  refreshSnapshot { s with generation := succGeneration s.generation }

end NetworkState

/-- Edits of a member in place. -/
def stampLastSeen (now : ℕ) : MemberList.Edit Id where
  apply m := { m with lastSeen := some now }
  identity_eq _ := rfl
  ip_eq _ := rfl
  index_eq _ := rfl

/-- `m.veilid_node_id = Some(node)`; the source skips the write when it is that already. -/
def setVeilidNodeId (node : String) : MemberList.Edit Id where
  apply m := { m with veilidNodeId := some node }
  identity_eq _ := rfl
  ip_eq _ := rfl
  index_eq _ := rfl

/-- What a known member's `MeshHello` changes of its entry. -/
def helloEdit (hostname veilidNodeId : Option String) : MemberList.Edit Id where
  apply m := { m with
    hostname := hostname.or m.hostname
    veilidNodeId := veilidNodeId.or m.veilidNodeId }
  identity_eq _ := rfl
  ip_eq _ := rfl
  index_eq _ := rfl

/-! ### The sections -/

/-- `spawn_peer_cleanup`: a peer that left is pruned, one that dropped is stamped. -/
def peerCleanup (s : NetworkState Id) (id : Id) (prunesMember : Bool) (now : ℕ) : NetworkState Id :=
  if prunesMember then { s with members := s.members.remove id }
  else { s with members := s.members.modify id (stampLastSeen now) }

/-- `apply_reconnect_veilid_node_id` and `republish_own_veilid_identity`. -/
def applyVeilidNodeId (s : NetworkState Id) (id : Id) (node : String) : NetworkState Id :=
  { s with members := s.members.modify id (setVeilidNodeId node) }

def removeMemberRosterOnly (s : NetworkState Id) (id : Id) : NetworkState Id :=
  { s with members := s.members.remove id, approved := s.approved.remove id }

/-- The cancelling half of `nuke_network`. -/
def cancelNuke (s : NetworkState Id) (myId : Id) : Except String (NetworkState Id) :=
  if (s.nukeProposals[Endpoint.display myId]?).isNone then
    .error "you have no active nuke proposal on this network"
  else .ok (NetworkState.bumpGenerationAndRefresh
    { s with nukeProposals := s.nukeProposals.erase (Endpoint.display myId) })

/-- The proposing half of `nuke_network`. -/
def proposeNuke (s : NetworkState Id) (myId : Id) (now : ℕ) : NetworkState Id :=
  NetworkState.bumpGenerationAndRefresh
    { s with nukeProposals := s.nukeProposals.insert (Endpoint.display myId) now }

def inviteCreate (s : NetworkState Id) (secret : Bytes) (now ttlSecs : ℕ) : NetworkState Id :=
  NetworkState.bumpGenerationAndRefresh
    { s with invites := s.invites.insert (inviteKey secret) (.fromSecret secret now ttlSecs) }

def inviteRevoke (s : NetworkState Id) (inviteId : String) : Except String (NetworkState Id) :=
  match revokeInvite s.invites inviteId with
  | .error e => .error e
  | .ok invites => .ok (NetworkState.bumpGenerationAndRefresh { s with invites := invites })

/-- The first section of `redeem_invite_and_admit`. -/
def redeemInvite (s : NetworkState Id) (secret : Bytes) (now : ℕ) : Option InviteEntry × NetworkState Id :=
  match consumeInvite s.invites secret now with
  | (none, invites) => (none, { s with invites := invites })
  | (some entry, invites) =>
    (some entry, NetworkState.bumpGenerationAndRefresh { s with invites := invites })

/-- The section of `redeem_invite_and_admit` after a denied join. -/
def restoreDenied (s : NetworkState Id) (secret : Bytes) (entry : InviteEntry) (now : ℕ) : NetworkState Id :=
  match restoreInvite s.invites secret entry now with
  | (false, invites) => { s with invites := invites }
  | (true, invites) => NetworkState.bumpGenerationAndRefresh { s with invites := invites }

/-- The member `admit_peer` seats. -/
def admittedMember (id : Id) (ip : Ipv4Addr) (collisionIndex : ℕ) (hostname veilidNodeId : Option String)
    (now : ℕ) : Member Id where
  identity := id
  ip := ip
  isCoordinator := false
  hostname := hostname
  collisionIndex := collisionIndex
  lastSeen := some now
  veilidNodeId := veilidNodeId

def admitPeer (s : NetworkState Id) (m : Member Id) : NetworkState Id :=
  NetworkState.bumpGenerationAndRefresh { s with members := s.members.addOrKeep m }

/-- The `MemberApproved` arm of `spawn_member_control_listener`. -/
def memberApproved (s : NetworkState Id) (id : Id) (ip : Ipv4Addr) (hostname : Option String) :
    NetworkState Id :=
  { s with approved := s.approved.approveOrKeep ⟨id, ip, hostname, 0⟩ s.members }

/-- The `AdminGrant` arm, after its checks. -/
def adminGrant (s : NetworkState Id) (key : Bytes) (myIdentity : Id) : NetworkState Id :=
  NetworkState.refreshSnapshot
    { s with networkSecretKey := some key, members := markCoordinator s.members myIdentity }

/-- `MemberAcceptState::handle_connection` for a known member that sent a name or a node id. -/
def knownMemberHello (s : NetworkState Id) (id : Id) (hostname veilidNodeId : Option String) :
    NetworkState Id :=
  { s with members := s.members.modify id (helloEdit hostname veilidNodeId) }

/-- The section of `admit_approved_member`, with the address to register if there is one. -/
def admitApprovedMember (s : NetworkState Id) (id : Id) (hostname veilidNodeId : Option String) (now : ℕ) :
    Option Ipv4Addr × NetworkState Id :=
  let s' := { s with approved := s.approved.remove id }
  match s.members.get id, s.approved.get id with
  | none, none => (none, s')
  | some m, _ => (some m.ip, s')
  | none, some e =>
    (some e.ip, admitPeer s' (admittedMember id e.ip e.collisionIndex hostname veilidNodeId now))

/-- `finalize_join`. -/
def finalizeJoin (s : NetworkState Id) (netPubkey : Id) : NetworkState Id :=
  NetworkState.refreshSnapshot { s with networkPublicKey := netPubkey }

def publishGrant (s : NetworkState Id) (grantee : Id) : NetworkState Id :=
  NetworkState.bumpGenerationAndRefresh { s with members := markCoordinator s.members grantee }

inductive Section (Id : Type)
  | peerCleanup (id : Id) (prunesMember : Bool) (now : ℕ)
  | applyVeilidNodeId (id : Id) (node : String)
  | removeMemberRosterOnly (id : Id)
  | updateSnapshot
  | cancelNuke (myId : Id)
  | proposeNuke (myId : Id) (now : ℕ)
  | inviteCreate (secret : Bytes) (now ttlSecs : ℕ)
  | inviteRevoke (inviteId : String)
  | redeemInvite (secret : Bytes) (now : ℕ)
  | restoreDenied (secret : Bytes) (entry : InviteEntry) (now : ℕ)
  | admitPeer (m : Member Id)
  | memberApproved (id : Id) (ip : Ipv4Addr) (hostname : Option String)
  | adminGrant (key : Bytes) (myIdentity : Id)
  | knownMemberHello (id : Id) (hostname veilidNodeId : Option String)
  | admitApprovedMember (id : Id) (hostname veilidNodeId : Option String) (now : ℕ)
  | finalizeJoin (netPubkey : Id)
  | publishGrant (grantee : Id)
deriving DecidableEq

/-- The state after a section. -/
def Section.run (s : NetworkState Id) : Section Id → NetworkState Id
  | .peerCleanup id prunesMember now => Daemon.peerCleanup s id prunesMember now
  | .applyVeilidNodeId id node => Daemon.applyVeilidNodeId s id node
  | .removeMemberRosterOnly id => Daemon.removeMemberRosterOnly s id
  | .updateSnapshot => s.bumpGenerationAndRefresh
  | .cancelNuke myId => (Daemon.cancelNuke s myId).toOption.getD s
  | .proposeNuke myId now => Daemon.proposeNuke s myId now
  | .inviteCreate secret now ttlSecs => Daemon.inviteCreate s secret now ttlSecs
  | .inviteRevoke inviteId => (Daemon.inviteRevoke s inviteId).toOption.getD s
  | .redeemInvite secret now => (Daemon.redeemInvite s secret now).2
  | .restoreDenied secret entry now => Daemon.restoreDenied s secret entry now
  | .admitPeer m => Daemon.admitPeer s m
  | .memberApproved id ip hostname => Daemon.memberApproved s id ip hostname
  | .adminGrant key myIdentity => Daemon.adminGrant s key myIdentity
  | .knownMemberHello id hostname veilidNodeId => Daemon.knownMemberHello s id hostname veilidNodeId
  | .admitApprovedMember id hostname veilidNodeId now =>
    (Daemon.admitApprovedMember s id hostname veilidNodeId now).2
  | .finalizeJoin netPubkey => Daemon.finalizeJoin s netPubkey
  | .publishGrant grantee => Daemon.publishGrant s grantee

/-! ### What a section can do -/

/-- The sections on the invite table. -/
def Section.onInvites : Section Id → Bool
  | .inviteCreate .. | .inviteRevoke _ | .redeemInvite .. | .restoreDenied .. => true
  | _ => false

/-- The sections on the invite table or the nuke proposals. -/
def Section.onTables : Section Id → Bool
  | .cancelNuke _ | .proposeNuke .. => true
  | sec => sec.onInvites

/-- The section of `admit_peer`. -/
def Section.isAdmission : Section Id → Bool
  | .admitPeer _ => true
  | _ => false

/-- A member that a section puts on the roster. -/
inductive Section.Seats (s : NetworkState Id) : Section Id → Member Id → Prop
  | admitPeer (m : Member Id) : Seats s (.admitPeer m) m
  | admitApprovedMember {id : Id} {e : ApprovedEntry Id} (hostname veilidNodeId : Option String) (now : ℕ)
      (absent : s.members.get id = none) (approved : s.approved.get id = some e) :
      Seats s (.admitApprovedMember id hostname veilidNodeId now)
        (admittedMember id e.ip e.collisionIndex hostname veilidNodeId now)

section Effects

variable {s : NetworkState Id} {sec : Section Id} {id : Id} {m : Member Id} {e : ApprovedEntry Id}

/-- A section on the tables does nothing, or changes one of them and bumps the generation. -/
theorem Section.run_of_onTables (s : NetworkState Id) (h : sec.onTables = true) :
    sec.run s = s ∨ ∃ invites nukeProposals,
      sec.run s = NetworkState.bumpGenerationAndRefresh
          { s with invites := invites, nukeProposals := nukeProposals } ∧
        (sec.onInvites = false → invites = s.invites) ∧ (sec.onInvites = true → nukeProposals = s.nukeProposals) := by
  cases sec with
  | proposeNuke myId now => exact Or.inr ⟨_, _, rfl, fun _ => rfl, nofun⟩
  | inviteCreate secret now ttlSecs => exact Or.inr ⟨_, _, rfl, nofun, fun _ => rfl⟩
  | cancelNuke myId =>
    simp only [Section.run, Daemon.cancelNuke]
    split
    · exact Or.inl rfl
    · exact Or.inr ⟨_, _, rfl, fun _ => rfl, nofun⟩
  | inviteRevoke inviteId =>
    simp only [Section.run, Daemon.inviteRevoke]
    split
    · exact Or.inl rfl
    · exact Or.inr ⟨_, _, rfl, nofun, fun _ => rfl⟩
  | redeemInvite secret now =>
    simp only [Section.run, Daemon.redeemInvite]
    cases hvalid : validateInvite s.invites secret now with
    | none =>
      rw [consumeInvite_of_none hvalid]
      exact Or.inl rfl
    | some entry =>
      rw [consumeInvite_of_some hvalid]
      exact Or.inr ⟨_, _, rfl, nofun, fun _ => rfl⟩
  | restoreDenied secret entry now =>
    simp only [Section.run, Daemon.restoreDenied]
    rcases restoreInvite_cases s.invites secret entry now with hkeep | hback
    · rw [hkeep]
      exact Or.inl rfl
    · rw [hback]
      exact Or.inr ⟨_, _, rfl, nofun, fun _ => rfl⟩
  | peerCleanup | applyVeilidNodeId | removeMemberRosterOnly | updateSnapshot | admitPeer | memberApproved | adminGrant
  | knownMemberHello | admitApprovedMember | finalizeJoin | publishGrant => cases h

/-- A member after a section was there with the same address and index, or was seated by it. -/
theorem Section.get_members_run (h : (sec.run s).members.get id = some m) :
    (∃ m₀, s.members.get id = some m₀ ∧ m.ip = m₀.ip ∧ m.collisionIndex = m₀.collisionIndex) ∨
      sec.Seats s m := by
  by_cases htables : sec.onTables = true
  · rcases Section.run_of_onTables s htables with heq | ⟨_, _, heq, -⟩ <;> rw [heq] at h <;>
      exact Or.inl ⟨m, h, rfl, rfl⟩
  cases sec with
  | peerCleanup id' prunesMember now =>
    cases prunesMember with
    | true => exact Or.inl ⟨m, MemberList.get_of_remove h, rfl, rfl⟩
    | false => exact Or.inl (MemberList.get_of_modify h)
  | applyVeilidNodeId id' node => exact Or.inl (MemberList.get_of_modify h)
  | knownMemberHello id' hostname veilidNodeId => exact Or.inl (MemberList.get_of_modify h)
  | adminGrant key myIdentity => exact Or.inl (MemberList.get_of_modify h)
  | publishGrant grantee => exact Or.inl (MemberList.get_of_modify h)
  | removeMemberRosterOnly id' => exact Or.inl ⟨m, MemberList.get_of_remove h, rfl, rfl⟩
  | admitPeer new =>
    rcases MemberList.get_of_addOrKeep h with hold | rfl
    · exact Or.inl ⟨m, hold, rfl, rfl⟩
    · exact Or.inr (.admitPeer m)
  | admitApprovedMember id' hostname veilidNodeId now =>
    simp only [Section.run, Daemon.admitApprovedMember] at h
    split at h
    · exact Or.inl ⟨m, h, rfl, rfl⟩
    · exact Or.inl ⟨m, h, rfl, rfl⟩
    · rename_i e habsent happroved
      rcases MemberList.get_of_addOrKeep h with hold | rfl
      · exact Or.inl ⟨m, hold, rfl, rfl⟩
      · exact Or.inr (.admitApprovedMember hostname veilidNodeId now habsent happroved)
  | cancelNuke | proposeNuke | inviteCreate | inviteRevoke | redeemInvite | restoreDenied => exact absurd rfl htables
  | updateSnapshot | memberApproved | finalizeJoin => exact Or.inl ⟨m, h, rfl, rfl⟩

/-- An approved entry after a section was there before, or is the one a `MemberApproved` brought. -/
theorem Section.get_approved_run (h : (sec.run s).approved.get id = some e) :
    s.approved.get id = some e ∨
      sec = .memberApproved e.identity e.ip e.hostname ∧ e.collisionIndex = 0 := by
  by_cases htables : sec.onTables = true
  · rcases Section.run_of_onTables s htables with heq | ⟨_, _, heq, -⟩ <;> rw [heq] at h <;> exact Or.inl h
  cases sec with
  | peerCleanup id' prunesMember now => cases prunesMember <;> exact Or.inl h
  | removeMemberRosterOnly id' => exact Or.inl (ApprovedList.get_of_remove h)
  | memberApproved id' ip hostname =>
    rcases ApprovedList.get_of_approveOrKeep h with hold | rfl
    · exact Or.inl hold
    · exact Or.inr ⟨rfl, rfl⟩
  | admitApprovedMember id' hostname veilidNodeId now =>
    simp only [Section.run, Daemon.admitApprovedMember] at h
    split at h <;> exact Or.inl (ApprovedList.get_of_remove h)
  | cancelNuke | proposeNuke | inviteCreate | inviteRevoke | redeemInvite | restoreDenied => exact absurd rfl htables
  | applyVeilidNodeId | updateSnapshot | admitPeer | adminGrant | knownMemberHello | finalizeJoin | publishGrant =>
    exact Or.inl h

/-- Apart from admissions, only a `MemberApproved` makes an identity known. -/
theorem Section.knows_of_run (sec : Section Id) (hsec : ∀ m, sec ≠ .admitPeer m) (h : (sec.run s).Knows id) :
    s.Knows id ∨ ∃ ip hostname, sec = .memberApproved id ip hostname := by
  rcases h with hmember | happroved
  · obtain ⟨m, hm⟩ := Option.isSome_iff_exists.mp hmember
    rcases Section.get_members_run hm with ⟨m₀, hm₀, -⟩ | hseats
    · exact Or.inl (Or.inl (Option.isSome_iff_exists.mpr ⟨m₀, hm₀⟩))
    · cases hseats with
      | admitPeer => exact absurd rfl (hsec m)
      | admitApprovedMember _ _ _ _ happroved =>
        cases MemberList.identity_of_get hm
        exact Or.inl (Or.inr (Option.isSome_iff_exists.mpr ⟨_, happroved⟩))
  · obtain ⟨e, he⟩ := Option.isSome_iff_exists.mp happroved
    rcases Section.get_approved_run he with hold | ⟨rfl, -⟩
    · exact Or.inl (Or.inr (Option.isSome_iff_exists.mpr ⟨e, hold⟩))
    · cases ApprovedList.identity_of_get he
      exact Or.inr ⟨e.ip, e.hostname, rfl⟩

/-- What a section leaves alone: the subnet and the reusable keys, the generation but for one bump, and
the invite table unless it is a section on invites. -/
structure Section.Frame (s : NetworkState Id) (sec : Section Id) (s' : NetworkState Id) : Prop where
  subnet_eq : s'.subnet = s.subnet
  reusableKeys_eq : s'.reusableKeys = s.reusableKeys
  generation_eq : s'.generation = s.generation ∨ s'.generation = succGeneration s.generation
  invites_eq : sec.onInvites = false → s'.invites = s.invites

theorem Section.frame_run (s : NetworkState Id) (sec : Section Id) : sec.Frame s (sec.run s) := by
  by_cases htables : sec.onTables = true
  · rcases Section.run_of_onTables s htables with heq | ⟨_, _, heq, hinvites, -⟩ <;> rw [heq]
    · exact ⟨rfl, rfl, Or.inl rfl, fun _ => rfl⟩
    · exact ⟨rfl, rfl, Or.inr rfl, hinvites⟩
  cases sec with
  | peerCleanup id' prunesMember now => cases prunesMember <;> exact ⟨rfl, rfl, Or.inl rfl, fun _ => rfl⟩
  | admitApprovedMember id' hostname veilidNodeId now =>
    simp only [Section.run, Daemon.admitApprovedMember]
    split
    · exact ⟨rfl, rfl, Or.inl rfl, fun _ => rfl⟩
    · exact ⟨rfl, rfl, Or.inl rfl, fun _ => rfl⟩
    · exact ⟨rfl, rfl, Or.inr rfl, fun _ => rfl⟩
  | cancelNuke | proposeNuke | inviteCreate | inviteRevoke | redeemInvite | restoreDenied => exact absurd rfl htables
  | applyVeilidNodeId | removeMemberRosterOnly | memberApproved | adminGrant | knownMemberHello
  | finalizeJoin => exact ⟨rfl, rfl, Or.inl rfl, fun _ => rfl⟩
  | updateSnapshot | admitPeer | publishGrant => exact ⟨rfl, rfl, Or.inr rfl, fun _ => rfl⟩

/-- The section that receives the network key. -/
def Section.isGrant : Section Id → Bool
  | .adminGrant .. => true
  | _ => false

/-- Apart from that one, the sections leave the key alone. -/
theorem Section.networkSecretKey_eq (s : NetworkState Id) (sec : Section Id) (h : sec.isGrant = false) :
    (sec.run s).networkSecretKey = s.networkSecretKey := by
  by_cases htables : sec.onTables = true
  · rcases Section.run_of_onTables s htables with heq | ⟨_, _, heq, -⟩ <;> rw [heq]
    rfl
  cases sec with
  | peerCleanup id' prunesMember now => cases prunesMember <;> rfl
  | admitApprovedMember id' hostname veilidNodeId now =>
    simp only [Section.run, Daemon.admitApprovedMember]
    split <;> rfl
  | cancelNuke | proposeNuke | inviteCreate | inviteRevoke | redeemInvite | restoreDenied => exact absurd rfl htables
  | adminGrant => cases h
  | applyVeilidNodeId | removeMemberRosterOnly | updateSnapshot | admitPeer | memberApproved | knownMemberHello
  | finalizeJoin | publishGrant => rfl

/-- No section forgets the key. -/
theorem Section.networkSecretKey_run (h : (sec.run s).networkSecretKey = none) : s.networkSecretKey = none := by
  cases hgrant : sec.isGrant with
  | false => rwa [Section.networkSecretKey_eq s sec hgrant] at h
  | true =>
    cases sec with
    | adminGrant => cases h
    | _ => cases hgrant

theorem invites_restoreDenied (s : NetworkState Id) (secret : Bytes) (entry : InviteEntry) (now : ℕ) :
    (restoreDenied s secret entry now).invites = s.invites ∨
      (restoreDenied s secret entry now).invites = s.invites.insert (inviteKey secret) entry := by
  unfold restoreDenied
  rcases restoreInvite_cases s.invites secret entry now with hkeep | hback
  · rw [hkeep]
    exact Or.inl rfl
  · rw [hback]
    exact Or.inr rfl

/-- The snapshot is of a blob with the state's generation and invites; its rosters may be older, as not
every edit of them refreshes the snapshot. -/
def NetworkState.Sealed (s : NetworkState Id) : Prop :=
  ∃ b : GroupBlob Id, s.snapshot = some (.of b) ∧ b.generation = s.generation ∧ b.invites = s.invites

theorem NetworkState.sealed_refreshSnapshot (s : NetworkState Id) : s.refreshSnapshot.Sealed :=
  ⟨s.blob, rfl, rfl, rfl⟩

/-- A section ends by refreshing the snapshot, or touches neither it nor the generation nor the invites. -/
theorem Section.refreshes_or_keeps (s : NetworkState Id) (sec : Section Id) :
    (∃ t : NetworkState Id, sec.run s = t.refreshSnapshot) ∨
      (sec.run s).snapshot = s.snapshot ∧ (sec.run s).generation = s.generation ∧ (sec.run s).invites = s.invites := by
  by_cases htables : sec.onTables = true
  · rcases Section.run_of_onTables s htables with heq | ⟨_, _, heq, -⟩ <;> rw [heq]
    · exact Or.inr ⟨rfl, rfl, rfl⟩
    · exact Or.inl ⟨_, rfl⟩
  cases sec with
  | peerCleanup id' prunesMember now => cases prunesMember <;> exact Or.inr ⟨rfl, rfl, rfl⟩
  | applyVeilidNodeId | removeMemberRosterOnly | memberApproved | knownMemberHello => exact Or.inr ⟨rfl, rfl, rfl⟩
  | admitApprovedMember id' hostname veilidNodeId now =>
    simp only [Section.run, Daemon.admitApprovedMember]
    split
    · exact Or.inr ⟨rfl, rfl, rfl⟩
    · exact Or.inr ⟨rfl, rfl, rfl⟩
    · exact Or.inl ⟨_, rfl⟩
  | cancelNuke | proposeNuke | inviteCreate | inviteRevoke | redeemInvite | restoreDenied => exact absurd rfl htables
  | updateSnapshot | admitPeer | adminGrant | finalizeJoin | publishGrant => exact Or.inl ⟨_, rfl⟩

/-- No section leaves the generation or the invites ahead of the snapshot. -/
theorem NetworkState.Sealed.run (h : s.Sealed) (sec : Section Id) : (sec.run s).Sealed := by
  rcases sec.refreshes_or_keeps s with ⟨t, heq⟩ | ⟨hsnapshot, hgeneration, hinvites⟩
  · rw [heq]
    exact sealed_refreshSnapshot t
  · obtain ⟨b, hb, hbgeneration, hbinvites⟩ := h
    exact ⟨b, hsnapshot.trans hb, hbgeneration.trans hgeneration.symm, hbinvites.trans hinvites.symm⟩

end Effects

end Tetron.Daemon

/-! ### A network to run the systems on -/

namespace Tetron.Daemon

open Tetron.Membership

/-- A coordinator, two members, a stranger, and victor, whose index-zero address is alice's. -/
inductive Peer
  | alice
  | bob
  | mallory
  | carol
  | victor
deriving DecidableEq, Countable

namespace Sample

def name : Peer → Bytes
  | .alice => [97]
  | .bob => [98]
  | .mallory => [109]
  | .carol => [99]
  | .victor => [118, 109]

scoped instance : Endpoint Peer where
  display := name
  asBytes := name
  publicKey _ := .alice

scoped instance : Blake3 := ⟨id⟩

noncomputable scoped instance : Msgpack Peer := Classical.choose Msgpack.exists_roundTrips

theorem roundTrips : Msgpack.RoundTrips Peer := Classical.choose_spec Msgpack.exists_roundTrips

/-- A peer at its index-zero address. -/
def member (peer : Peer) (isCoordinator : Bool) : Member Peer :=
  ⟨peer, deriveIp peer defaultSubnet, isCoordinator, none, 0, none, none⟩

def blob (generation : ℕ) (members : List (Member Peer)) : GroupBlob Peer where
  generation := generation
  members := members
  approved := []
  name := none
  subnet := none
  reusableKeys := ∅
  invites := ∅
  nukeProposals := ∅
  nukeConsensusThreshold := defaultNukeConsensusThreshold

/-- A coordinator's state with these members. -/
def state (generation : ℕ) (members : List (Member Peer)) : NetworkState Peer where
  generation := generation
  members := .fromMembers members
  approved := .new
  snapshot := none
  networkSecretKey := some [1]
  networkPublicKey := .alice
  networkName := none
  reusableKeys := ∅
  invites := ∅
  nukeProposals := ∅
  nukeConsensusThreshold := defaultNukeConsensusThreshold
  subnet := defaultSubnet

end Sample

end Tetron.Daemon
