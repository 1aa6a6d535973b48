import Tetron.Daemon.Published
import Tetron.Membership.RosterMap

/-!
# The rosters of reachable states

Every section makes at most one operation on the map behind the member list (`Section.rosterOp`); adopting a
blob replaces the map, and a start builds one from nothing. The roster of every reachable state is therefore
what the operations of the run (`rosterOps`) make of an empty map, whatever the lists it was rebuilt from.
-/

namespace Tetron.Daemon

open Tetron.Membership

variable {Id : Type} [DecidableEq Id] [Endpoint Id] [Msgpack Id] [Blake3]

/-- The operation a section makes on the member map, if any. -/
def Section.rosterOp (s : NetworkState Id) : Section Id → Option (RosterMap.Op Id)
  | .peerCleanup id prunesMember now => some (if prunesMember then .remove id else .edit id (.lastSeen now))
  | .applyVeilidNodeId id node => some (.edit id (.veilidNodeId node))
  | .removeMemberRosterOnly id => some (.remove id)
  | .admitPeer m => some (.add m)
  | .adminGrant _ myIdentity => some (.edit myIdentity .coordinator)
  | .knownMemberHello id hostname veilidNodeId => some (.edit id (.hello hostname veilidNodeId))
  | .admitApprovedMember id hostname veilidNodeId now =>
    match s.members.get id, s.approved.get id with
    | none, some e => some (.add (admittedMember id e.ip e.collisionIndex hostname veilidNodeId now))
    | _, _ => none
  | .publishGrant grantee => some (.edit grantee .coordinator)
  | .updateSnapshot | .cancelNuke _ | .proposeNuke .. | .inviteCreate .. | .inviteRevoke _ | .redeemInvite ..
  | .restoreDenied .. | .memberApproved .. | .finalizeJoin _ => none

theorem Section.run_members (s : NetworkState Id) (sec : Section Id) :
    (sec.run s).members.members = RosterMap.replay s.members.members (sec.rosterOp s).toList := by
  by_cases htables : sec.onTables = true
  · -- the tables are apart from the rosters
    have hop : sec.rosterOp s = none := by cases sec <;> first | rfl | cases htables
    rw [hop]
    rcases Section.run_of_onTables s htables with heq | ⟨_, _, heq, -⟩ <;> rw [heq] <;> rfl
  cases sec with
  | peerCleanup id prunesMember now =>
    cases prunesMember with
    | true => rfl
    | false => exact MemberList.modify_members _ id (e := .lastSeen now) fun _ => rfl
  | applyVeilidNodeId id node => exact MemberList.modify_members _ id (e := .veilidNodeId node) fun _ => rfl
  | knownMemberHello id hostname node =>
    exact MemberList.modify_members _ id (e := .hello hostname node) fun _ => rfl
  | adminGrant key myIdentity => exact MemberList.modify_members _ myIdentity (e := .coordinator) fun _ => rfl
  | publishGrant grantee => exact MemberList.modify_members _ grantee (e := .coordinator) fun _ => rfl
  | admitPeer m => exact MemberList.addOrKeep_members _ m
  | admitApprovedMember id hostname veilidNodeId now =>
    simp only [Section.run, Daemon.admitApprovedMember, Section.rosterOp]
    split
    · rename_i hmember happroved
      rw [hmember, happroved]
      rfl
    · rename_i hmember
      rw [hmember]
      rfl
    · rename_i e hmember happroved
      rw [hmember, happroved]
      exact MemberList.addOrKeep_members _ _
  | cancelNuke | proposeNuke | inviteCreate | inviteRevoke | redeemInvite | restoreDenied => exact absurd rfl htables
  | removeMemberRosterOnly | updateSnapshot | memberApproved | finalizeJoin => rfl

/-! ### The operations of a run -/

section Start

variable {s : NetworkState Id}

omit [Endpoint Id] [Msgpack Id] [Blake3] in
theorem members_of_add {l l' : MemberList Id} {m : Member Id} (h : (l.add m).toOption = some l') :
    l'.members = RosterMap.replay l.members [.add m] := by
  change _ = (RosterMap.add l.members m).2
  rw [MemberList.add_members]
  cases hadd : l.add m with
  | error c => simp [hadd, Except.toOption] at h
  | ok l'' =>
    simp only [hadd, Except.toOption, Option.some.injEq] at h
    rw [h]

/-- The members a restored coordinator knows of. -/
def knownMembers (nc : NetworkConfig Id) : Option (GroupBlob Id) → List (Member Id)
  | some data => data.members
  | none => nc.members.map MemberEntry.toMember

/-- A coordinator that is not among them adds itself. -/
def selfOps (p : IdentityProvider Id) (nc : NetworkConfig Id) (known : RosterMap Id) : List (RosterMap.Op Id) :=
  if (known.get? p.endpointId).isSome then []
  else [.add (p.selfMember (nc.subnet.getD defaultSubnet) nc.myHostname none)]

/-- Its node id goes into its entry, if it is not there. -/
def ownVeilidOps (me : Id) (veilidNodeId : Option String) (t : RosterMap Id) : List (RosterMap.Op Id) :=
  match veilidNodeId, t.get? me with
  | some node, some m => if m.veilidNodeId = some node then [] else [.edit me (.veilidNodeId node)]
  | _, _ => []

def restoreOps (p : IdentityProvider Id) (fetched : Option (GroupBlob Id)) (nc : NetworkConfig Id)
    (veilidNodeId : Option String) : List (RosterMap.Op Id) :=
  let known := RosterMap.fromMembers (knownMembers nc fetched)
  .fromMembers (knownMembers nc fetched) :: (selfOps p nc known ++
    ownVeilidOps p.endpointId veilidNodeId (RosterMap.replay known (selfOps p nc known)))

theorem members_refreshOwnVeilid (s : NetworkState Id) (me : Id) (veilidNodeId : Option String) :
    (refreshOwnVeilid s me veilidNodeId).members.members =
      RosterMap.replay s.members.members (ownVeilidOps me veilidNodeId s.members.members) := by
  unfold refreshOwnVeilid ownVeilidOps MemberList.get
  cases veilidNodeId with
  | none => rfl
  | some node =>
    cases s.members.members.get? me with
    | none => rfl
    | some m =>
      dsimp only
      split
      · rfl
      · exact MemberList.modify_members _ me (e := .veilidNodeId node) fun _ => rfl

omit [Msgpack Id] [Blake3] in
theorem members_restoreMemberRoster {p : IdentityProvider Id} {fetched : Option (GroupBlob Id)}
    {nc : NetworkConfig Id} {members : MemberList Id} {approved : ApprovedList Id}
    (h : restoreMemberRoster p fetched nc (nc.subnet.getD defaultSubnet) = some (members, approved)) :
    members.members = RosterMap.replay (knownRosters nc fetched).1.members
      (selfOps p nc (knownRosters nc fetched).1.members) := by
  simp only [restoreMemberRoster] at h
  by_cases hlisted : (knownRosters nc fetched).1.isMember p.endpointId = true
  · rw [if_pos hlisted] at h
    cases h
    rw [MemberList.isMember, MemberList.get] at hlisted
    rw [selfOps, if_pos hlisted]
    rfl
  · rw [if_neg hlisted] at h
    obtain ⟨l, hl, heq⟩ := Option.map_eq_some_iff.mp h
    cases heq
    rw [MemberList.isMember, MemberList.get] at hlisted
    rw [selfOps, if_neg hlisted]
    exact members_of_add hl

theorem members_restored {p : IdentityProvider Id} {fetched : Option (GroupBlob Id)} {nc : NetworkConfig Id}
    {veilidNodeId : Option String} (h : restoreCoordinatorNetwork p fetched nc veilidNodeId = some s)
    (t : RosterMap Id) : s.members.members = RosterMap.replay t (restoreOps p fetched nc veilidNodeId) := by
  obtain ⟨s₀, rfl, hsubnet, hroster, -⟩ := restoreCoordinatorNetwork_eq_some h
  have hknown : (knownRosters nc fetched).1.members = RosterMap.fromMembers (knownMembers nc fetched) := by
    cases fetched <;> exact MemberList.fromMembers_members _
  have hself := members_restoreMemberRoster (hsubnet ▸ hroster)
  rw [hknown] at hself
  change (refreshOwnVeilid s₀ p.endpointId veilidNodeId).members.members = _
  rw [members_refreshOwnVeilid, hself]
  exact List.foldl_append.symm

end Start

/-- What a start does. The first operation makes the map anew. -/
def Origin.rosterOps : Origin Id → List (RosterMap.Op Id)
  | .create p _ hostname _ subnet _ _ veilidNodeId =>
    [.fromMembers [], .add (p.selfMember subnet (some hostname) veilidNodeId)]
  | .restore p record nc veilidNodeId => restoreOps p (restoreRosterFromBlob record) nc veilidNodeId
  | .join _ members _ _ _ => [.fromMembers members]

/-- What an event does. -/
def HolderEvent.rosterOps (s : NetworkState Id) : HolderEvent Id → List (RosterMap.Op Id)
  | .start origin => origin.rosterOps
  | .assign _ => []
  | .admitJoiner plan hostname veilidNodeId now =>
    [.add (admittedMember plan.identity plan.ip plan.collisionIndex hostname veilidNodeId now)]
  | .write sec => (sec.rosterOp s).toList
  | .apply path signed generation served =>
    (((fetchedBlob signed generation served).bind fun data => path.roster data).map .fromMembers).toList

/-- One more event of a run: the operations so far, and the node it has come to. -/
def Holder.log (sofar : List (RosterMap.Op Id) × Option (Holder Id)) (ev : HolderEvent Id) :
    List (RosterMap.Op Id) × Option (Holder Id) :=
  match sofar.2 with
  | some n => (sofar.1 ++ ev.rosterOps n.state, n.next ev)
  | none => sofar

/-- The operations on the member map from the start of a node on, in their order. -/
def rosterOps (origin : Origin Id) (events : List (HolderEvent Id)) : List (RosterMap.Op Id) :=
  (events.foldl Holder.log (origin.rosterOps, origin.state.map fun s => ⟨s, []⟩)).1

theorem members_origin {origin : Origin Id} {s : NetworkState Id} (h : origin.state = some s) (t : RosterMap Id) :
    s.members.members = RosterMap.replay t origin.rosterOps := by
  cases origin with
  | create p name hostname key subnet threshold preApprove veilidNodeId =>
    obtain ⟨s₀, rfl, -, hmembers, -⟩ := buildInitialRoster_eq_some h
    exact members_of_add hmembers
  | restore p record nc veilidNodeId => exact members_restored h t
  | join data members approved netPubkey name =>
    cases h
    exact MemberList.fromMembers_members members

/-- **Step**: an event does to the map what its operations do. -/
theorem Holder.members_next {n n' : Holder Id} {ev : HolderEvent Id} (hnext : n.next ev = some n') :
    n'.state.members.members = RosterMap.replay n.state.members.members (ev.rosterOps n.state) := by
  have hafter := Holder.after_next hnext
  cases ev with
  | start origin => exact members_origin hafter _
  | assign id =>
    have hsame : n'.state = n.state := hafter
    rw [hsame]
    rfl
  | admitJoiner plan hostname veilidNodeId now =>
    have hadmits : n'.state = admitPeer n.state _ := hafter
    rw [hadmits]
    exact MemberList.addOrKeep_members _ _
  | write sec =>
    have hwrites : n'.state = sec.run n.state := hafter
    rw [hwrites]
    exact Section.run_members n.state sec
  | apply path signed generation served =>
    obtain ⟨data, hdata, hstate⟩ := hafter
    obtain ⟨roster, hroster, heq⟩ := Option.map_eq_some_iff.mp hstate
    simp only [HolderEvent.rosterOps, hdata, Option.bind_some, hroster, Option.map_some, Option.toList_some, ← heq]
    exact MemberList.fromMembers_members roster

/-! ### Every reachable state -/

variable {n : Holder Id}

/-- **Rosters are consistent in every reachable state**: the map is what the operations of the run make of an
empty one, everybody in it sits under their own identity, no two have the same address, and an add that is
refused there leaves it as it is. -/
theorem reachable_roster_consistent {origin : Origin Id} {s₀ : NetworkState Id} (hstart : origin.state = some s₀)
    {events : List (HolderEvent Id)}
    (hrun : Run (fun n ev n' => Holder.next n ev = some n') (fun _ _ => True) ⟨s₀, []⟩ events n) :
    RosterMap.replay ∅ (rosterOps origin events) = n.state.members.members ∧
      (RosterMap.replay ∅ (rosterOps origin events)).Consistent ∧
      ∀ m c, ((RosterMap.replay ∅ (rosterOps origin events)).add m).1 = .error c →
        ((RosterMap.replay ∅ (rosterOps origin events)).add m).2 = RosterMap.replay ∅ (rosterOps origin events) := by
  have hlog := hrun.invariant (I := fun events n => ∃ ops, n.state.members.members = RosterMap.replay ∅ ops ∧
      events.foldl Holder.log (origin.rosterOps, some ⟨s₀, []⟩) = (ops, some n))
    ⟨_, members_origin hstart ∅, rfl⟩ fun events n ev n' h _ hnext => by
      obtain ⟨ops, hops, hlog⟩ := h
      refine ⟨ops ++ ev.rosterOps n.state, ?_, ?_⟩
      · rw [Holder.members_next hnext, hops]
        exact List.foldl_append.symm
      · rw [List.foldl_append, hlog, List.foldl_cons, List.foldl_nil, ← hnext]
        rfl
  obtain ⟨ops, hops, hlog⟩ := hlog
  have heq : rosterOps origin events = ops := by
    rw [rosterOps, hstart, Option.map_some, hlog]
  exact ⟨heq ▸ hops.symm, RosterMap.consistent_replay _, fun _ _ h => RosterMap.add_of_error h⟩

end Tetron.Daemon

namespace Tetron.Daemon

open Tetron.Membership Sample

theorem reachable_roster_consistent_victor :
    ∃ n, Run (fun n ev n' => Holder.next n ev = some n') (fun _ _ => True) ⟨aliceState, []⟩
        [.assign .victor, .admitJoiner ⟨.victor, victorIp, 1⟩ none none 100,
          .write (.peerCleanup .victor false 200)] n ∧
      n.state.members.isMember .victor = true ∧
      ∃ ops, RosterMap.replay ∅ ops = n.state.members.members ∧ (RosterMap.replay ∅ ops).Consistent := by
  refine Run.exists_of_exec_imp (fun n => n.state.members.isMember .victor = true) (by decide +kernel)
    fun n hrun hlisted => ?_
  have hstart : aliceOrigin.state = some aliceState := (Option.some_get _).symm
  obtain ⟨hreplay, hconsistent, -⟩ := reachable_roster_consistent hstart hrun
  exact ⟨hlisted, _, hreplay, hconsistent⟩

end Tetron.Daemon
