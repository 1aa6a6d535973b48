import Tetron.Daemon.Adopt
import Tetron.Daemon.Start
import Tetron.Lib.Run

/-!
# Snapshots that readers accept

A reader decodes a blob only if every entry's address is the one its identity and its recorded
collision index give. `Holder` is a node with its admissions under way: it starts (or restarts) by
creating, joining or restoring, admits peers, runs every other write-locked section, and adopts verified
blobs, in any order.

Sections that rebuild an entry from partial data record index zero for an address that may have been
assigned at another: the `MemberApproved` handler, restores from the configuration, and the node's entry
for itself. Where all of these happen to be index-zero addresses, and blobs carry the subnet of the state
they are adopted into, every snapshot decodes.
-/

namespace Tetron.Daemon

open Tetron.Membership

variable {Id : Type} [DecidableEq Id] [Endpoint Id] [Msgpack Id] [Blake3]

/-- Every entry is derived, in a subnet with room. -/
structure NetworkState.Derived (s : NetworkState Id) : Prop where
  usable : s.subnet.Usable
  members : ∀ id m, s.members.get id = some m → m.Derived s.subnet
  approved : ∀ id e, s.approved.get id = some e → e.Derived s.subnet

theorem NetworkState.Derived.valid_blob {s : NetworkState Id} (h : s.Derived) : s.blob.valid = true := by
  have husable : (resolveSubnet s.blob.subnet).Usable := h.usable
  refine (GroupBlob.valid_iff husable).mpr ⟨fun m hm => ?_, fun e he => ?_⟩
  · exact h.members _ m (MemberList.mem_all_iff.mp (List.mem_insertionSort _ |>.mp hm))
  · exact h.approved _ e (ApprovedList.mem_all_iff.mp (List.mem_insertionSort _ |>.mp he))

theorem NetworkState.Derived.decode {s : NetworkState Id} (h : s.Derived) (hrt : Msgpack.RoundTrips Id) :
    decodeGroupBlob s.bytes = some s.blob := by
  change decodeGroupBlob (Msgpack.toVecNamed s.blob) = _
  rw [decodeGroupBlob_toVecNamed hrt, h.valid_blob, if_pos rfl]

/-! ### Every section keeps derived entries derived -/

/-- An announced address is an index-zero address. -/
def Section.Indexed (subnet : Subnet) : Section Id → Prop
  | .memberApproved id ip _ => ip = deriveIp id subnet
  | _ => True

instance (subnet : Subnet) (sec : Section Id) : Decidable (sec.Indexed subnet) := by
  unfold Section.Indexed
  split <;> infer_instance

section Steps

variable {s s' : NetworkState Id}

theorem NetworkState.Derived.run (h : s.Derived) (sec : Section Id)
    (hadmission : ∀ m, sec = .admitPeer m → m.Derived s.subnet)
    (hindexed : sec.Indexed s.subnet) : (sec.run s).Derived := by
  have hsubnet := (Section.frame_run s sec).subnet_eq
  refine ⟨hsubnet ▸ h.usable, fun id m hm => ?_, fun id e he => ?_⟩ <;> rw [hsubnet]
  · rcases Section.get_members_run hm with ⟨m₀, hm₀, hip, hindex⟩ | hseats
    · have hold := h.members id m₀ hm₀
      rw [Member.Derived, MemberList.identity_of_get hm₀] at hold
      rw [Member.Derived, MemberList.identity_of_get hm, hip, hindex, hold]
    · cases hseats with
      | admitPeer => exact hadmission m rfl
      | admitApprovedMember _ _ _ _ happroved =>
        have hold := h.approved _ _ happroved
        rwa [ApprovedEntry.Derived, ApprovedList.identity_of_get happroved] at hold
  · rcases Section.get_approved_run he with hold | ⟨hsec, hindex⟩
    · exact h.approved id e hold
    · rw [hsec] at hindexed
      rw [ApprovedEntry.Derived, hindex]
      exact hindexed

theorem NetworkState.Derived.refreshSnapshot (h : s.Derived) : s.refreshSnapshot.Derived :=
  ⟨h.usable, h.members, h.approved⟩

theorem NetworkState.Derived.apply (h : s.Derived) {path : ApplyPath} {data : GroupBlob Id}
    (hvalid : data.valid = true) (hsubnet : resolveSubnet data.subnet = s.subnet)
    (happly : applyBlob path s data = some s') : s'.Derived := by
  obtain ⟨-, hkeep, -⟩ := applyBlob_frame happly
  obtain ⟨hmembers, happroved⟩ := derived_of_applyBlob happly hvalid (hsubnet ▸ h.usable)
  rw [hsubnet, ← hkeep] at hmembers happroved
  exact ⟨hkeep ▸ h.usable, hmembers, happroved⟩

end Steps

/-! ### The states a node starts from -/

section Starts

variable {p : IdentityProvider Id} {subnet : Subnet}

omit [DecidableEq Id] [Msgpack Id] [Blake3] in
theorem IdentityProvider.derived_selfMember (h : p.myIp subnet = deriveIp p.endpointId subnet)
    (hostname veilidNodeId : Option String) : (p.selfMember subnet hostname veilidNodeId).Derived subnet := h

theorem derived_buildInitialRoster {name hostname : String} {key : Bytes} {threshold : ℕ}
    {preApprove : Option (Id × Option String)} {veilidNodeId : Option String} {s : NetworkState Id}
    (husable : subnet.Usable) (hown : p.myIp subnet = deriveIp p.endpointId subnet)
    (h : buildInitialRoster p name hostname key subnet threshold preApprove veilidNodeId = some s) :
    s.Derived := by
  obtain ⟨t, rfl, rfl, hmembers, happroved⟩ := buildInitialRoster_eq_some h
  refine ⟨husable, fun id m hm => ?_, fun id e he => ?_⟩
  · rcases MemberList.get_of_add hmembers hm with hnew | rfl
    · simp [MemberList.new, MemberList.get] at hnew
    · exact IdentityProvider.derived_selfMember hown _ _
  · cases preApprove with
    | none =>
      have hnew : ApprovedList.new = t.approved := Option.some.inj happroved
      rw [NetworkState.refreshSnapshot, ← hnew] at he
      simp [ApprovedList.new, ApprovedList.get] at he
    | some peer =>
      rcases ApprovedList.get_of_approve happroved he with hnew | rfl
      · simp [ApprovedList.new, ApprovedList.get] at hnew
      · rfl

omit [Msgpack Id] [Blake3] in
/-- The rosters of a restore hold derived entries. -/
theorem derived_restoreMemberRoster {fetched : Option (GroupBlob Id)} {nc : NetworkConfig Id}
    {members : MemberList Id} {approved : ApprovedList Id}
    (hown : p.myIp subnet = deriveIp p.endpointId subnet)
    (hfetched : ∀ data, fetched = some data → (∀ m ∈ data.members, m.Derived subnet) ∧
      ∀ e ∈ data.approved, e.Derived subnet)
    (hsaved : fetched = none → (∀ m ∈ nc.members, m.ip = deriveIp m.identity subnet) ∧
      ∀ e ∈ nc.approved, e.ip = deriveIp e.identity subnet)
    (h : restoreMemberRoster p fetched nc subnet = some (members, approved)) :
    (∀ id m, members.get id = some m → m.Derived subnet) ∧
      ∀ id e, approved.get id = some e → e.Derived subnet := by
  -- both sources are lists of derived entries
  obtain ⟨ms, es, hms, hes, hrosters⟩ : ∃ ms es, (∀ m ∈ ms, m.Derived subnet) ∧ (∀ e ∈ es, e.Derived subnet) ∧
      knownRosters nc fetched = restoreRosters ms es := by
    cases fetched with
    | some data => exact ⟨_, _, (hfetched data rfl).1, (hfetched data rfl).2, rfl⟩
    | none =>
      refine ⟨_, _, ?_, ?_, rfl⟩
      · intro m hm
        obtain ⟨entry, hentry, rfl⟩ := List.mem_map.mp hm
        exact (hsaved rfl).1 entry hentry
      · intro e he
        obtain ⟨entry, hentry, rfl⟩ := List.mem_map.mp he
        exact (hsaved rfl).2 entry hentry
  simp only [restoreMemberRoster, hrosters] at h
  split at h
  · cases h
    exact ⟨fun id m hm => hms m (mem_of_get_restoreRosters.1 hm), fun id e he =>
      hes e (mem_of_get_restoreRosters.2 he)⟩
  · obtain ⟨l, hl, heq⟩ := Option.map_eq_some_iff.mp h
    cases heq
    refine ⟨fun id m hm => ?_, fun id e he => hes e (mem_of_get_restoreRosters.2 he)⟩
    rcases MemberList.get_of_add hl hm with hold | rfl
    · exact hms m (mem_of_get_restoreRosters.1 hold)
    · exact IdentityProvider.derived_selfMember hown _ _

theorem NetworkState.Derived.refreshOwnVeilid {s : NetworkState Id} (h : s.Derived) (me : Id)
    (veilidNodeId : Option String) : (refreshOwnVeilid s me veilidNodeId).Derived := by
  unfold Daemon.refreshOwnVeilid
  split
  · split
    · exact h
    · rename_i node _ _ _
      exact (h.run (.applyVeilidNodeId me node) nofun trivial).run (.updateSnapshot) nofun trivial
  · exact h

theorem derived_restoreCoordinatorNetwork {fetched : Option (GroupBlob Id)} {nc : NetworkConfig Id}
    {veilidNodeId : Option String} {s : NetworkState Id} (husable : (nc.subnet.getD defaultSubnet).Usable)
    (hown : p.myIp (nc.subnet.getD defaultSubnet) = deriveIp p.endpointId (nc.subnet.getD defaultSubnet))
    (hfetched : ∀ data, fetched = some data → data.valid = true ∧
      resolveSubnet data.subnet = nc.subnet.getD defaultSubnet)
    (hsaved : fetched = none →
      (∀ m ∈ nc.members, m.ip = deriveIp m.identity (nc.subnet.getD defaultSubnet)) ∧
        ∀ e ∈ nc.approved, e.ip = deriveIp e.identity (nc.subnet.getD defaultSubnet))
    (h : restoreCoordinatorNetwork p fetched nc veilidNodeId = some s) : s.Derived := by
  obtain ⟨t, rfl, hsubnet, hroster, -⟩ := restoreCoordinatorNetwork_eq_some h
  rw [← hsubnet] at husable hown hfetched hsaved
  have hvalid : ∀ data, fetched = some data →
      (∀ m ∈ data.members, m.Derived t.subnet) ∧ ∀ e ∈ data.approved, e.Derived t.subnet := by
    intro data hdata
    obtain ⟨hv, hresolved⟩ := hfetched data hdata
    exact hresolved ▸ (GroupBlob.valid_iff (hresolved ▸ husable)).mp hv
  obtain ⟨hmembers, happroved⟩ := derived_restoreMemberRoster hown hvalid hsaved hroster
  apply NetworkState.Derived.refreshSnapshot
  apply NetworkState.Derived.refreshOwnVeilid
  exact ⟨husable, hmembers, happroved⟩

end Starts

/-! ### The system -/

/-- How a node gets the state of a network. A blob fetched for a restore is verified against the hash
of the signed record; the rosters of a join are those of the peer's `Welcome`. -/
inductive Origin (Id : Type)
  | create (p : IdentityProvider Id) (name hostname : String) (key : Bytes) (subnet : Subnet) (threshold : ℕ)
      (preApprove : Option (Id × Option String)) (veilidNodeId : Option String)
  | restore (p : IdentityProvider Id) (record : Option (Hash × Bytes)) (nc : NetworkConfig Id)
      (veilidNodeId : Option String)
  | join (data : GroupBlob Id) (members : List (Member Id)) (approved : List (ApprovedEntry Id))
      (netPubkey : Id) (name : String)

def restoreRosterFromBlob (record : Option (Hash × Bytes)) : Option (GroupBlob Id) :=
  record.bind fun (signed, served) => verifyGroupBlob served signed

def Origin.state : Origin Id → Option (NetworkState Id)
  | .create p name hostname key subnet threshold preApprove veilidNodeId =>
    buildInitialRoster p name hostname key subnet threshold preApprove veilidNodeId
  | .restore p record nc veilidNodeId =>
    restoreCoordinatorNetwork p (restoreRosterFromBlob record) nc veilidNodeId
  | .join data members approved netPubkey name =>
    some (buildMemberState data members approved netPubkey name)

/-- What `validate_admission` hands to `admit_peer`. -/
structure AdmissionPlan (Id : Type) where
  identity : Id
  ip : Ipv4Addr
  collisionIndex : ℕ
deriving DecidableEq

structure Holder (Id : Type) [DecidableEq Id] [Msgpack Id] [Blake3] where
  state : NetworkState Id
  plans : List (AdmissionPlan Id)

inductive HolderEvent (Id : Type)
  | start (origin : Origin Id)
  | assign (id : Id)
  | admitJoiner (plan : AdmissionPlan Id) (hostname veilidNodeId : Option String) (now : ℕ)
  | write (sec : Section Id)
  | apply (path : ApplyPath) (signed : Hash) (generation : ℕ) (served : Bytes)

/-- One step. The other checks of `validate_admission` can only refuse a plan that stays unused here. -/
def Holder.next (n : Holder Id) : HolderEvent Id → Option (Holder Id)
  | .start origin => origin.state.map fun state => ⟨state, []⟩
  | .assign id =>
    (assignIp n.state.members id n.state.subnet).map fun (ip, index) =>
      { n with plans := ⟨id, ip, index⟩ :: n.plans }
  | .admitJoiner plan hostname veilidNodeId now =>
    if plan ∈ n.plans then
      some ⟨admitPeer n.state
        (admittedMember plan.identity plan.ip plan.collisionIndex hostname veilidNodeId now),
        n.plans.erase plan⟩
    else none
  | .write sec => if sec.isAdmission then none else some { n with state := sec.run n.state }
  | .apply path signed generation served =>
    (fetchedBlob signed generation served).bind fun data =>
      (applyBlob path n.state data).map fun state => { n with state := state }

/-- What a step makes of the state. -/
def HolderEvent.After (s s' : NetworkState Id) : HolderEvent Id → Prop
  | .start origin => origin.state = some s'
  | .assign _ => s' = s
  | .admitJoiner plan hostname veilidNodeId now =>
    s' = admitPeer s (admittedMember plan.identity plan.ip plan.collisionIndex hostname veilidNodeId now)
  | .write sec => s' = sec.run s
  | .apply path signed generation served =>
    ∃ data, fetchedBlob signed generation served = some data ∧ applyBlob path s data = some s'

theorem Holder.after_next {n n' : Holder Id} {ev : HolderEvent Id} (hnext : n.next ev = some n') :
    ev.After n.state n'.state := by
  cases ev with
  | start origin =>
    obtain ⟨state, hstate, rfl⟩ := Option.map_eq_some_iff.mp hnext
    exact hstate
  | assign id =>
    obtain ⟨plan, -, rfl⟩ := Option.map_eq_some_iff.mp hnext
    exact rfl
  | admitJoiner plan hostname veilidNodeId now =>
    simp only [Holder.next] at hnext
    split at hnext
    · cases hnext
      exact rfl
    · cases hnext
  | write sec =>
    simp only [Holder.next] at hnext
    split at hnext
    · cases hnext
    · cases hnext
      exact rfl
  | apply path signed generation served =>
    obtain ⟨data, hdata, hnext⟩ := Option.bind_eq_some_iff.mp hnext
    obtain ⟨state, hstate, rfl⟩ := Option.map_eq_some_iff.mp hnext
    exact ⟨data, hdata, hstate⟩

/-- **Invariant rule**: what every start establishes, every section keeps and every adopted blob establishes
holds of the state after any step. -/
theorem Holder.next_invariant {I : NetworkState Id → Prop}
    (hstart : ∀ (origin : Origin Id) s, origin.state = some s → I s)
    (hrun : ∀ s (sec : Section Id), I s → I (sec.run s))
    (happly : ∀ path s data s', applyBlob path s data = some s' → I s') {n n' : Holder Id} {ev : HolderEvent Id}
    (h : I n.state) (hnext : n.next ev = some n') : I n'.state := by
  have hafter := Holder.after_next hnext
  cases ev with
  | start origin => exact hstart origin n'.state hafter
  | assign id =>
    have hsame : n'.state = n.state := hafter
    rwa [hsame]
  | admitJoiner plan hostname veilidNodeId now =>
    have hadmits : n'.state = (Section.admitPeer _).run n.state := hafter
    rw [hadmits]
    exact hrun n.state _ h
  | write sec =>
    have hwrites : n'.state = sec.run n.state := hafter
    rw [hwrites]
    exact hrun n.state sec h
  | apply path signed generation served =>
    obtain ⟨data, -, hstate⟩ := hafter
    exact happly path n.state data n'.state hstate

/-! ### The condition -/

/-- The entries a node starts with are at the addresses of the index they get. -/
def Origin.Indexed : Origin Id → Prop
  | .create p _ _ _ subnet _ _ _ => subnet.Usable ∧ p.myIp subnet = deriveIp p.endpointId subnet
  | .restore p record nc _ =>
    let subnet := nc.subnet.getD defaultSubnet
    subnet.Usable ∧ p.myIp subnet = deriveIp p.endpointId subnet ∧
      match (restoreRosterFromBlob record : Option (GroupBlob Id)) with
      | some data => resolveSubnet data.subnet = subnet
      | none => (∀ m ∈ nc.members, m.ip = deriveIp m.identity subnet) ∧
          ∀ e ∈ nc.approved, e.ip = deriveIp e.identity subnet
  | .join data members approved _ _ =>
    (resolveSubnet data.subnet).Usable ∧ (∀ m ∈ members, m.Derived (resolveSubnet data.subnet)) ∧
      ∀ e ∈ approved, e.Derived (resolveSubnet data.subnet)

/-- The addresses that are recorded at index zero are index-zero addresses, and an adopted blob has the
subnet of the state. -/
def Holder.Indexed (n : Holder Id) : HolderEvent Id → Prop
  | .start origin => origin.Indexed
  | .write sec => sec.Indexed n.state.subnet
  | .apply _ signed generation served =>
    ∀ data ∈ (fetchedBlob signed generation served : Option (GroupBlob Id)),
      resolveSubnet data.subnet = n.state.subnet
  | _ => True

instance (origin : Origin Id) : Decidable origin.Indexed := by
  unfold Origin.Indexed
  split
  · infer_instance
  · dsimp only
    split <;> infer_instance
  · infer_instance

instance (n : Holder Id) (ev : HolderEvent Id) : Decidable (n.Indexed ev) := by
  unfold Holder.Indexed
  split <;> infer_instance

theorem Origin.Indexed.derived {origin : Origin Id} {s : NetworkState Id} (hindexed : origin.Indexed)
    (h : origin.state = some s) : s.Derived := by
  cases origin with
  | create p name hostname key subnet threshold preApprove veilidNodeId =>
    exact derived_buildInitialRoster hindexed.1 hindexed.2 h
  | restore p record nc veilidNodeId =>
    obtain ⟨husable, hown, hsource⟩ := hindexed
    refine derived_restoreCoordinatorNetwork husable hown (fun data hdata => ?_) (fun hnone => ?_) h
    · rw [hdata] at hsource
      obtain ⟨⟨signed, served⟩, -, hverify⟩ := Option.bind_eq_some_iff.mp hdata
      exact ⟨valid_of_verifyGroupBlob hverify, hsource⟩
    · rw [hnone] at hsource
      exact hsource
  | join data members approved netPubkey name =>
    obtain ⟨husable, hmembers, happroved⟩ := hindexed
    cases h
    exact ⟨husable, fun id m hm => hmembers m (MemberList.mem_of_get_fromMembers hm), fun id e he =>
      happroved e (ApprovedList.mem_of_get_fromEntries he)⟩

/-! ### Every reachable snapshot decodes -/

section Runs

variable {n n' : Holder Id}

/-- Derived entries, and admission plans that will be derived entries. -/
structure Holder.Inv (n : Holder Id) : Prop where
  state : n.state.Derived
  plans : ∀ plan ∈ n.plans, plan.ip = deriveIpWithIndex plan.identity plan.collisionIndex n.state.subnet

theorem Holder.Inv.write (hinv : n.Inv) (sec : Section Id)
    (hadmission : ∀ m, sec = .admitPeer m → m.Derived n.state.subnet)
    (hindexed : sec.Indexed n.state.subnet)
    {plans : List (AdmissionPlan Id)} (hplans : plans ⊆ n.plans) : Holder.Inv ⟨sec.run n.state, plans⟩ := by
  refine ⟨hinv.state.run sec hadmission hindexed, fun plan hplan => ?_⟩
  rw [(Section.frame_run n.state sec).subnet_eq]
  exact hinv.plans plan (hplans hplan)

theorem Holder.Inv.step (hrt : Msgpack.RoundTrips Id) (hinv : n.Inv) {ev : HolderEvent Id}
    (hindexed : n.Indexed ev) (h : n.next ev = some n') : n'.Inv := by
  cases ev with
  | start origin =>
    obtain ⟨state, hstate, rfl⟩ := Option.map_eq_some_iff.mp h
    exact ⟨hindexed.derived hstate, nofun⟩
  | assign id =>
    obtain ⟨⟨ip, index⟩, hassign, rfl⟩ := Option.map_eq_some_iff.mp h
    refine ⟨hinv.state, fun plan hplan => ?_⟩
    rcases List.mem_cons.mp hplan with rfl | hold
    · exact (assignIp_eq_some_iff.mp hassign).2.1
    · exact hinv.plans plan hold
  | admitJoiner plan hostname veilidNodeId now =>
    simp only [Holder.next] at h
    split at h
    · rename_i hplan
      cases h
      refine hinv.write (.admitPeer _) (fun m hm => ?_) trivial List.erase_subset
      cases hm
      exact hinv.plans plan hplan
    · cases h
  | write sec =>
    simp only [Holder.next] at h
    split at h
    · cases h
    · rename_i hsec
      cases h
      refine hinv.write _ (fun m hm => ?_) hindexed (List.Subset.refl _)
      rw [hm] at hsec
      exact absurd rfl hsec
  | apply path signed generation served =>
    obtain ⟨data, hdata, h⟩ := Option.bind_eq_some_iff.mp h
    obtain ⟨state, happly, rfl⟩ := Option.map_eq_some_iff.mp h
    obtain ⟨-, hsubnet, -⟩ := applyBlob_frame happly
    exact ⟨hinv.state.apply (valid_of_fetchedBlob hrt hdata) (hindexed data hdata) happly,
      hsubnet ▸ hinv.plans⟩

/-- A node that starts with index-zero addresses where it records index zero, hears only of such
addresses, and adopts only blobs of its own subnet publishes only snapshots that readers accept. -/
theorem published_decodes (hrt : Msgpack.RoundTrips Id) {origin : Origin Id} {s₀ : NetworkState Id}
    (hstart : origin.state = some s₀) (hindexed : origin.Indexed) {events : List (HolderEvent Id)}
    (hrun : Run (fun n ev n' => n.next ev = some n') Holder.Indexed ⟨s₀, []⟩ events n) :
    decodeGroupBlob n.state.bytes = some n.state.blob ∧
      (∀ id m, n.state.members.get id = some m →
        m.ip = deriveIpWithIndex m.identity m.collisionIndex n.state.subnet) ∧
      ∀ id e, n.state.approved.get id = some e →
        e.ip = deriveIpWithIndex e.identity e.collisionIndex n.state.subnet := by
  have hinv : n.Inv := hrun.invariant (I := fun _ n => n.Inv) ⟨hindexed.derived hstart, nofun⟩
    fun _ _ _ _ hinv hev hstep => hinv.step hrt hev hstep
  exact ⟨hinv.state.decode hrt, hinv.state.members, hinv.state.approved⟩

end Runs

end Tetron.Daemon

/-! ### victor, at index one -/

namespace Tetron.Daemon

open Tetron.Membership Sample

def aliceProvider : IdentityProvider Peer := ⟨.alice, 0, defaultSubnet⟩

/-- alice creates the network. -/
def aliceOrigin : Origin Peer := .create aliceProvider "mesh" "alice" [1] defaultSubnet 2 none none

/-- bob joins it, with alice's and his own entries in the `Welcome`. -/
def bobOrigin : Origin Peer :=
  .join (blob 5 [member .alice true]) [member .alice true, member .bob false] [] .alice "mesh"

/-- The address that is free for victor once alice has hers. -/
def victorIp : Ipv4Addr := deriveIpWithIndex Peer.victor 1 defaultSubnet

noncomputable def aliceState : NetworkState Peer := aliceOrigin.state.get (by decide +kernel)

theorem published_decodes_victor : ∃ n, Run (fun n ev n' => Holder.next n ev = some n') Holder.Indexed
      ⟨aliceState, []⟩ [.assign .victor, .admitJoiner ⟨.victor, victorIp, 1⟩ none none 100] n ∧
    n.state.members.isMember .victor = true ∧ decodeGroupBlob n.state.bytes = some n.state.blob := by
  refine Run.exists_of_exec_imp (fun n => n.state.members.isMember .victor = true) (by decide +kernel)
    fun n hrun hlisted => ?_
  exact ⟨hlisted, (published_decodes roundTrips (Option.some_get _).symm (by decide) hrun).1⟩

noncomputable def bobState : NetworkState Peer := bobOrigin.state.get rfl

/-- alice assigns victor its address at index one and announces it; bob records it at index zero, seats
victor from it, and is made a coordinator. No reader decodes what he publishes. -/
theorem announced_index_lost :
    assignIp bobState.members .victor defaultSubnet = some (victorIp, 1) ∧
    ∃ n, Run (fun n ev n' => Holder.next n ev = some n') (fun _ _ => True) ⟨bobState, []⟩
      [.write (.memberApproved .victor victorIp none), .write (.admitApprovedMember .victor none none 100),
        .write (.adminGrant [1] .bob)] n ∧
    n.state.networkSecretKey = some [1] ∧ decodeGroupBlob n.state.bytes = (none : Option (GroupBlob Peer)) := by
  refine ⟨by decide +kernel, Run.exists_of_exec_imp
    (fun n => n.state.networkSecretKey = some [1] ∧ n.state.blob.valid = false) (by decide +kernel)
    fun n _ ⟨hkey, hvalid⟩ => ⟨hkey, ?_⟩⟩
  change decodeGroupBlob (Msgpack.toVecNamed n.state.blob) = (none : Option (GroupBlob Peer))
  rw [decodeGroupBlob_toVecNamed roundTrips, hvalid]
  rfl

end Tetron.Daemon
