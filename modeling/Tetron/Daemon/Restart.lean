import Tetron.Daemon.Start

/-!
# The address of a restarted node

A restarted daemon takes its address in a network from its identity: at the provider's own collision index
in the provider's subnet, at index zero in every other one. The roster may record another index, resolved
by the coordinator that admitted the node, and only a fresh join asks the roster. The one check on the way,
`validate_subnet_matches_roster`, compares subnets.

A coordinator that its roster no longer lists adds itself to it at that address, and does not get past this
if somebody else has the address by then (`restore_adds_self_iff`).
-/

namespace Tetron.Daemon

open Tetron.Membership

variable {Id : Type} [DecidableEq Id] [Endpoint Id]

/-- The address a restored network gets on its TUN, and the one the node announces in `MeshHello`. -/
structure Restarted where
  tunIp : Ipv4Addr
  helloIp : Ipv4Addr
deriving DecidableEq

/-- How the walk over the flagged coordinators ends. -/
inductive RestoreWalk
  | joined
  | pending
  | exhausted

/-- `dial_reconnect`: whatever roster the handshake brought, the address is the one computed before. -/
def dialReconnect (myIp : Ipv4Addr) : RestoreWalk → Option Restarted
  | .joined | .exhausted => some ⟨myIp, myIp⟩
  | .pending => none

/-- `validate_subnet_matches_roster` on a blob's member list. -/
def subnetMatchesMembers (subnet : Subnet) (members : List (Member Id)) (self : Id) : Bool :=
  (members.find? fun m => m.identity = self).all fun m => ipInSubnet m.ip subnet

/-- `join_network_inner` with `initial = false`, from the blob it fetched. -/
def rejoinNetwork (p : IdentityProvider Id) (data : GroupBlob Id) (walk : RestoreWalk) : Option Restarted :=
  let networkSubnet := resolveSubnet data.subnet
  if subnetMatchesMembers networkSubnet data.members p.endpointId then
    dialReconnect (p.myIp networkSubnet) walk
  else none

/-- `restore_coordinator_network`, by the address it ends with. -/
def restartCoordinator [Msgpack Id] [Blake3] (p : IdentityProvider Id) (fetched : Option (GroupBlob Id))
    (nc : NetworkConfig Id) (veilidNodeId : Option String) : Option Restarted :=
  (restoreCoordinatorNetwork p fetched nc veilidNodeId).map fun _ =>
    let myIp := p.myIp (nc.subnet.getD defaultSubnet)
    ⟨myIp, myIp⟩

/-- The collision index a restart derives the node's address with. -/
def IdentityProvider.restartIndex (p : IdentityProvider Id) (subnet : Subnet) : ℕ :=
  if subnet = p.subnet then p.collisionIndex else 0

section Address

variable {p : IdentityProvider Id} {data : GroupBlob Id} {m : Member Id}

omit [DecidableEq Id] in
theorem IdentityProvider.myIp_eq (p : IdentityProvider Id) (subnet : Subnet) :
    p.myIp subnet = deriveIpWithIndex p.endpointId (p.restartIndex subnet) subnet := by
  unfold myIp restartIndex
  split
  · rename_i heq
    rw [heq]
  · rfl

/-- The check never stops a restart from a verified blob. -/
theorem rejoinNetwork_of_valid (hvalid : data.valid = true) (walk : RestoreWalk) :
    rejoinNetwork p data walk = dialReconnect (p.myIp (resolveSubnet data.subnet)) walk := by
  have hmatch : subnetMatchesMembers (resolveSubnet data.subnet) data.members p.endpointId = true := by
    unfold subnetMatchesMembers
    cases hfind : data.members.find? fun m => m.identity = p.endpointId with
    | none => rfl
    | some m => exact (address_of_valid hvalid (List.mem_of_find?_eq_some hfind)).2
  simp only [rejoinNetwork, hmatch, if_true]

omit [DecidableEq Id] in
theorem restarted_at_iff (hvalid : data.valid = true) (hm : m ∈ data.members) (hself : m.identity = p.endpointId)
    (subnet : Subnet) :
    ((⟨p.myIp subnet, p.myIp subnet⟩ : Restarted) = ⟨m.ip, m.ip⟩) ↔
      deriveIpWithIndex p.endpointId (p.restartIndex subnet) subnet =
        deriveIpWithIndex p.endpointId m.collisionIndex (resolveSubnet data.subnet) := by
  have hip := (address_of_valid hvalid hm).1
  rw [hself] at hip
  rw [← p.myIp_eq subnet, ← hip, Restarted.mk.injEq, and_self]

/-- **A restarted node is back at its roster address** exactly when the index the roster records for it
derives the same address as the index the restart uses, on the member's and on the coordinator's path. -/
theorem restart_address_iff [Msgpack Id] [Blake3] (hvalid : data.valid = true) (hm : m ∈ data.members)
    (hself : m.identity = p.endpointId) :
    (∀ walk, walk ≠ .pending → ∃ r, rejoinNetwork p data walk = some r ∧
        (r = ⟨m.ip, m.ip⟩ ↔
          deriveIpWithIndex p.endpointId (p.restartIndex (resolveSubnet data.subnet)) (resolveSubnet data.subnet) =
            deriveIpWithIndex p.endpointId m.collisionIndex (resolveSubnet data.subnet))) ∧
      ∀ nc veilidNodeId r, restartCoordinator p (some data) nc veilidNodeId = some r →
        (r = ⟨m.ip, m.ip⟩ ↔
          deriveIpWithIndex p.endpointId (p.restartIndex (nc.subnet.getD defaultSubnet))
              (nc.subnet.getD defaultSubnet) =
            deriveIpWithIndex p.endpointId m.collisionIndex (resolveSubnet data.subnet)) := by
  constructor
  · intro walk hwalk
    rw [rejoinNetwork_of_valid hvalid]
    cases walk with
    | pending => exact absurd rfl hwalk
    | joined | exhausted => exact ⟨_, rfl, restarted_at_iff hvalid hm hself _⟩
  · intro nc veilidNodeId r hrestore
    obtain ⟨s, -, rfl⟩ := Option.map_eq_some_iff.mp hrestore
    exact restarted_at_iff hvalid hm hself _

end Address

/-! ### A coordinator its roster no longer lists -/

section SelfAdd

/-- The entries a restore begins with. -/
def restoredMembers (nc : NetworkConfig Id) : Option (GroupBlob Id) → List (Member Id)
  | some data => data.members
  | none => nc.members.map MemberEntry.toMember

omit [Endpoint Id] in
theorem knownRosters_fst (nc : NetworkConfig Id) (fetched : Option (GroupBlob Id)) :
    (knownRosters nc fetched).1 = .fromMembers (restoredMembers nc fetched) := by
  cases fetched <;> rfl

/-- **A restore gets past its own entry** exactly when the roster it begins with lists the node or gives nobody
the address the node takes for itself. -/
theorem restore_adds_self_iff (p : IdentityProvider Id) (fetched : Option (GroupBlob Id)) (nc : NetworkConfig Id)
    (subnet : Subnet) :
    (restoreMemberRoster p fetched nc subnet).isSome = true ↔
      (MemberList.fromMembers (restoredMembers nc fetched)).isMember p.endpointId = true ∨
        ∀ m ∈ (MemberList.fromMembers (restoredMembers nc fetched)).all, m.ip ≠ p.myIp subnet := by
  rw [← knownRosters_fst]
  simp only [restoreMemberRoster]
  cases hlisted : (knownRosters nc fetched).1.isMember p.endpointId with
  | true => simp
  | false =>
    have hfree := MemberList.free_iff_of_not_isMember (m := p.selfMember subnet nc.myHostname none) hlisted
    simp only [Bool.false_eq_true, if_false, false_or, Option.isSome_map]
    exact (MemberList.isSome_add_iff _ _).trans hfree

end SelfAdd

end Tetron.Daemon

namespace Tetron.Daemon.Sample

open Tetron.Membership

/-- Victor was admitted at index one, because alice has the address of its index zero. -/
def victorAtOne : Member Peer := { member .victor false with
  ip := deriveIpWithIndex Peer.victor 1 defaultSubnet
  collisionIndex := 1 }

def victorsBlob : GroupBlob Peer := blob 7 [member .alice true, victorAtOne]

def victorsConfig : NetworkConfig Peer := ⟨"mesh", none, [], [], some [1], some defaultSubnet, 2⟩

def provider (peer : Peer) : IdentityProvider Peer := ⟨peer, 0, defaultSubnet⟩

/-- Alice, at index zero, is back at her address. -/
theorem restart_address_alice : ∃ r, rejoinNetwork (provider .alice) victorsBlob .exhausted = some r ∧
    r = ⟨(member .alice true).ip, (member .alice true).ip⟩ := by
  have hvalid : victorsBlob.valid = true := by decide +kernel
  have hmem : member .alice true ∈ victorsBlob.members := List.mem_cons_self
  have hself : (member .alice true).identity = (provider .alice).endpointId := rfl
  obtain ⟨r, hr, hiff⟩ := (restart_address_iff hvalid hmem hself).1 .exhausted nofun
  exact ⟨r, hr, hiff.mpr rfl⟩

/-- Victor comes back at alice's address, as a member and as a coordinator. -/
theorem restart_loses_index :
    victorsBlob.valid = true ∧
      rejoinNetwork (provider .victor) victorsBlob .exhausted =
        some ⟨(member .alice true).ip, (member .alice true).ip⟩ ∧
      restartCoordinator (provider .victor) (some victorsBlob) victorsConfig none =
        some ⟨(member .alice true).ip, (member .alice true).ip⟩ ∧
      victorAtOne.ip ≠ (member .alice true).ip := by
  refine ⟨by decide +kernel, by decide +kernel, ?_, by decide +kernel⟩
  decide +kernel

/-- What alice publishes once she has kicked victor, a coordinator at index one. -/
noncomputable def withoutVictor : GroupBlob Peer :=
  (removeMemberRosterOnly (state 7 [member .alice true, { victorAtOne with isCoordinator := true }])
    .victor).bumpGenerationAndRefresh.blob

/-- Bob, whom it does not list either, adds himself. -/
theorem restore_adds_self_bob :
    (restoreMemberRoster (provider .bob) (some withoutVictor) victorsConfig defaultSubnet).isSome = true :=
  (restore_adds_self_iff (provider .bob) (some withoutVictor) victorsConfig defaultSubnet).mpr
    (Or.inr (by decide +kernel))

/-- Victor takes alice's address for his own and does not come back, neither from the verified blob nor from a
saved roster. -/
theorem kicked_coordinator_not_restored :
    verifyGroupBlob (Msgpack.toVecNamed withoutVictor) (Blake3.hash (Msgpack.toVecNamed withoutVictor)) =
        some withoutVictor ∧
      restoreMemberRoster (provider .victor) (some withoutVictor) victorsConfig defaultSubnet = none ∧
      restoreMemberRoster (provider .victor) none
        { victorsConfig with members := [toMemberEntry (member .alice true)] } defaultSubnet = none := by
  have hvalid : withoutVictor.valid = true := by decide +kernel
  refine ⟨?_, ?_, ?_⟩
  · rw [verifyGroupBlob, if_neg (not_not_intro rfl), decodeGroupBlob_toVecNamed roundTrips, if_pos hvalid]
  · have hnone : (restoreMemberRoster (provider .victor) (some withoutVictor) victorsConfig defaultSubnet).isNone =
        true := by decide +kernel
    exact Option.isNone_iff_eq_none.mp hnone
  · have hnone : (restoreMemberRoster (provider .victor) none
        { victorsConfig with members := [toMemberEntry (member .alice true)] } defaultSubnet).isNone = true := by
      decide +kernel
    exact Option.isNone_iff_eq_none.mp hnone

end Tetron.Daemon.Sample
