import Tetron.Daemon.NetworkState

/-!
# Adopting a verified blob

Two tasks replace a node's rosters by those of a verified blob: the group poller, with the blob's
member list as it stands, and the reconverge worker, with the list the tie-break makes of it. Neither
touches the invite table, the reusable keys, the name or the subnet.
-/

namespace Tetron.Membership

variable {Id : Type} [DecidableEq Id]

namespace GroupBlob

def ListsMember (data : GroupBlob Id) (id : Id) : Prop := ∃ m ∈ data.members, m.identity = id

def ListsApproved (data : GroupBlob Id) (id : Id) : Prop := ∃ a ∈ data.approved, a.identity = id

def Lists (data : GroupBlob Id) (id : Id) : Prop := data.ListsMember id ∨ data.ListsApproved id

instance (data : GroupBlob Id) (id : Id) : Decidable (data.ListsMember id) :=
  inferInstanceAs (Decidable (∃ m ∈ data.members, m.identity = id))

instance (data : GroupBlob Id) (id : Id) : Decidable (data.ListsApproved id) :=
  inferInstanceAs (Decidable (∃ a ∈ data.approved, a.identity = id))

instance (data : GroupBlob Id) (id : Id) : Decidable (data.Lists id) :=
  inferInstanceAs (Decidable (_ ∨ _))

end GroupBlob

end Tetron.Membership

namespace Tetron.Daemon

open Tetron.Membership

section Removed

variable {Id : Type} [DecidableEq Id]

def memberRemoved (members : List (Member Id)) (approved : List (ApprovedEntry Id)) (myId : Id) : Bool :=
  !(members.any fun m => m.identity = myId) && !(approved.any fun a => a.identity = myId)

theorem memberRemoved_eq_true {data : GroupBlob Id} {myId : Id} :
    memberRemoved data.members data.approved myId = true ↔ ¬ data.Lists myId := by
  simp only [memberRemoved, GroupBlob.Lists, GroupBlob.ListsMember, GroupBlob.ListsApproved,
    Bool.and_eq_true, Bool.not_eq_true', List.any_eq_false, decide_eq_true_eq, not_or, not_exists,
    not_and]

end Removed

variable {Id : Type} [DecidableEq Id] [Endpoint Id] [Msgpack Id] [Blake3]

section Fetch

/-- The blob both tasks take for a signed record: the tombstone of its generation if the hash is that
one's, else what a peer serves, verified. -/
def fetchedBlob (signed : Hash) (generation : ℕ) (served : Bytes) : Option (GroupBlob Id) :=
  (tryDecodeTombstone signed generation).or (verifyGroupBlob served signed)

theorem valid_of_fetchedBlob (hrt : Msgpack.RoundTrips Id) {signed : Hash} {generation : ℕ} {served : Bytes}
    {data : GroupBlob Id} (h : fetchedBlob signed generation served = some data) : data.valid = true := by
  rcases Option.or_eq_some_iff.mp h with htomb | ⟨-, hserved⟩
  · rw [tryDecodeTombstone_eq_some hrt htomb]
    rfl
  · exact valid_of_verifyGroupBlob hserved

/-- The bytes of a valid blob, served for the record with their hash and the blob's generation, are
accepted. -/
theorem fetchedBlob_toVecNamed (hrt : Msgpack.RoundTrips Id) (hinj : Function.Injective Blake3.hash)
    {data : GroupBlob Id} (hvalid : data.valid = true) :
    fetchedBlob (Blake3.hash (Msgpack.toVecNamed data)) data.generation (Msgpack.toVecNamed data) = some data := by
  have hverify : verifyGroupBlob (Msgpack.toVecNamed data) (Blake3.hash (Msgpack.toVecNamed data)) = some data := by
    rw [verifyGroupBlob, if_neg (not_not_intro rfl), decodeGroupBlob_toVecNamed hrt, if_pos hvalid]
  rw [fetchedBlob]
  cases htomb : (tryDecodeTombstone (Blake3.hash (Msgpack.toVecNamed data)) data.generation :
      Option (GroupBlob Id)) with
  | none => rwa [Option.none_or]
  | some blob =>
    -- the hash is that of the tombstone's bytes, so the blob is the tombstone
    simp only [tryDecodeTombstone] at htomb
    split at htomb
    · cases htomb
    · rename_i hhash
      rw [hinj (not_not.mp hhash), hrt] at htomb
      rw [Option.some_or, htomb]

end Fetch

/-- A higher generation, or the same with another hash. -/
def pollerShouldFetch (remoteGeneration : ℕ) (remoteHash : Hash) (currentGeneration : ℕ)
    (currentHash : Option Hash) : Bool :=
  !(decide (remoteGeneration < currentGeneration) ||
    (decide (remoteGeneration = currentGeneration) && decide (some remoteHash = currentHash)))

omit [Blake3] in
theorem le_of_pollerShouldFetch {remoteGeneration currentGeneration : ℕ} {remoteHash : Hash}
    {currentHash : Option Hash}
    (h : pollerShouldFetch remoteGeneration remoteHash currentGeneration currentHash = true) :
    currentGeneration ≤ remoteGeneration := by
  by_contra hlt
  simp [pollerShouldFetch, not_le.mp hlt] at h

inductive ApplyPath
  | poller
  | reconverge
deriving DecidableEq

/-- The member list a task writes: `none` if the tie-break finds no free address. -/
def ApplyPath.roster (data : GroupBlob Id) : ApplyPath → Option (List (Member Id))
  | .poller => some data.members
  | .reconverge => resolveIpTiebreak data.members (resolveSubnet data.subnet)

/-- The write-locked section of `spawn_group_poller` and of `reconverge_and_apply`. -/
def adopt (s : NetworkState Id) (data : GroupBlob Id) (members : List (Member Id)) : NetworkState Id :=
  NetworkState.refreshSnapshot { s with
    generation := data.generation
    members := .fromMembers members
    approved := .fromEntries data.approved
    nukeProposals := data.nukeProposals }

def applyBlob (path : ApplyPath) (s : NetworkState Id) (data : GroupBlob Id) : Option (NetworkState Id) :=
  (path.roster data).map (adopt s data)

section Apply

variable {path : ApplyPath} {s s' : NetworkState Id} {data : GroupBlob Id} {id : Id}

/-- What adopting a blob leaves alone, and what it copies. -/
theorem applyBlob_frame (h : applyBlob path s data = some s') :
    s'.generation = data.generation ∧ s'.subnet = s.subnet ∧ s'.invites = s.invites ∧
      s'.reusableKeys = s.reusableKeys ∧ s'.networkSecretKey = s.networkSecretKey := by
  obtain ⟨members, -, rfl⟩ := Option.map_eq_some_iff.mp h
  exact ⟨rfl, rfl, rfl, rfl, rfl⟩

theorem sealed_applyBlob (h : applyBlob path s data = some s') : s'.Sealed := by
  obtain ⟨members, -, rfl⟩ := Option.map_eq_some_iff.mp h
  exact NetworkState.sealed_refreshSnapshot _

/-- A member after adopting a blob is one of the roster written. -/
theorem get_members_applyBlob {m : Member Id} (h : applyBlob path s data = some s')
    (hm : s'.members.get id = some m) : ∃ roster, path.roster data = some roster ∧ m ∈ roster := by
  obtain ⟨roster, hroster, rfl⟩ := Option.map_eq_some_iff.mp h
  exact ⟨roster, hroster, MemberList.mem_of_get_fromMembers hm⟩

theorem get_approved_applyBlob {e : ApprovedEntry Id} (h : applyBlob path s data = some s')
    (he : s'.approved.get id = some e) : e ∈ data.approved := by
  obtain ⟨roster, -, rfl⟩ := Option.map_eq_some_iff.mp h
  exact ApprovedList.mem_of_get_fromEntries he

omit [Msgpack Id] [Blake3] in
/-- The identities of the roster written are those the blob lists as members. -/
theorem listsMember_of_mem_roster {roster : List (Member Id)} {m : Member Id}
    (hroster : path.roster data = some roster) (hm : m ∈ roster) : data.ListsMember m.identity := by
  cases path with
  | poller =>
    cases hroster
    exact ⟨m, hm, rfl⟩
  | reconverge =>
    obtain ⟨list, rfl, hids, -⟩ := resolveIpTiebreak_spec hroster
    exact (hids m.identity).mp (by rw [MemberList.mem_all_iff.mp hm]; rfl)

/-- Whoever is on either roster after adopting a blob is listed by it. -/
theorem lists_of_applyBlob (h : applyBlob path s data = some s')
    (hid : s'.Knows id) : data.Lists id := by
  rcases hid with hmember | happroved
  · obtain ⟨m, hm⟩ := Option.isSome_iff_exists.mp hmember
    obtain ⟨roster, hroster, hin⟩ := get_members_applyBlob h hm
    exact Or.inl (MemberList.identity_of_get hm ▸ listsMember_of_mem_roster hroster hin)
  · obtain ⟨e, he⟩ := Option.isSome_iff_exists.mp happroved
    exact Or.inr ⟨e, get_approved_applyBlob h he, ApprovedList.identity_of_get he⟩

/-- After adopting a blob that was found valid, every entry is derived in the blob's subnet. -/
theorem derived_of_applyBlob (h : applyBlob path s data = some s') (hvalid : data.valid = true)
    (husable : (resolveSubnet data.subnet).Usable) :
    (∀ id m, s'.members.get id = some m → m.Derived (resolveSubnet data.subnet)) ∧
      ∀ id e, s'.approved.get id = some e → e.Derived (resolveSubnet data.subnet) := by
  obtain ⟨hmembers, happroved⟩ := (GroupBlob.valid_iff husable).mp hvalid
  refine ⟨fun id m hm => ?_, fun id e he => happroved e (get_approved_applyBlob h he)⟩
  obtain ⟨roster, hroster, hin⟩ := get_members_applyBlob h hm
  cases path with
  | poller =>
    cases hroster
    exact hmembers m hin
  | reconverge =>
    obtain ⟨list, -, -, hderived⟩ := resolveIpTiebreak_spec hroster
    exact hderived m hin

/-- After reconverging, the members are exactly those the blob lists. -/
theorem isMember_applyBlob_reconverge (h : applyBlob .reconverge s data = some s') :
    s'.members.isMember id = true ↔ data.ListsMember id := by
  obtain ⟨roster, hroster, rfl⟩ := Option.map_eq_some_iff.mp h
  obtain ⟨list, rfl, hids, -⟩ := resolveIpTiebreak_spec hroster
  change ((MemberList.fromMembers list.all).get id).isSome = true ↔ _
  rw [MemberList.get_fromMembers fun _ => Iff.rfl, hids id]
  rfl

end Apply

end Tetron.Daemon
