import Tetron.Daemon.Start

/-!
# The canonical encoding of a state

Nodes compare their states by the hash of the blob each would publish. Rosters are hash maps; their
listing is sorted by identity string, so the bytes are a function of what the maps hold. A coordinator
that restores its rosters from its own blob publishes the same bytes again.
-/

namespace Tetron.Daemon

open Tetron.Membership

variable {Id : Type} [DecidableEq Id] [Endpoint Id]

/-! ### Sorting by identity string -/

section Order

omit [DecidableEq Id] in
theorem displayLe_total (a b : Id) : displayLe a b = true ∨ displayLe b a = true := by
  have hswap : compare (Endpoint.display b) (Endpoint.display a) =
      (compare (Endpoint.display a) (Endpoint.display b)).swap := Std.OrientedCmp.eq_swap
  unfold displayLe
  rw [hswap]
  cases compare (Endpoint.display a) (Endpoint.display b) <;> simp [Ordering.isLE, Ordering.swap]

omit [DecidableEq Id] in
theorem displayLe_antisymm (hdisplay : Function.Injective (Endpoint.display : Id → Bytes)) {a b : Id}
    (hab : displayLe a b = true) (hba : displayLe b a = true) : a = b :=
  hdisplay (Std.LawfulEqCmp.eq_of_compare (Std.OrientedCmp.isLE_antisymm hab hba))

/-- Of identities sorted by name, dropping repeated neighbours leaves each once. -/
theorem destutter_sorted (hdisplay : Function.Injective (Endpoint.display : Id → Bytes)) (ids : List Id) :
    (ids.insertionSort fun a b => displayLe a b).destutter (· ≠ ·) =
      (ids.insertionSort fun a b => displayLe a b).dedup := by
  have hanti : Std.Antisymm fun a b : Id => displayLe a b = true :=
    ⟨fun _ _ hab hba => displayLe_antisymm hdisplay hab hba⟩
  have htotal : Std.Total fun a b : Id => displayLe a b = true := ⟨displayLe_total⟩
  have htrans : IsTrans Id fun a b => displayLe a b = true := ⟨fun _ _ _ hab hbc => Std.TransCmp.isLE_trans hab hbc⟩
  exact (List.pairwise_insertionSort (fun a b : Id => displayLe a b = true) ids).destutter_eq_dedup

variable {ν : Type} (identity : ν → Id)

instance : Std.Total fun a b : ν => displayLe (identity a) (identity b) = true :=
  ⟨fun a b => displayLe_total (identity a) (identity b)⟩

instance : IsTrans ν fun a b => displayLe (identity a) (identity b) = true :=
  ⟨fun _ _ _ hab hbc => Std.TransCmp.isLE_trans hab hbc⟩

variable {identity} {t u : HashTable Id ν}

/-- Tables with the same look-ups are listed alike. -/
theorem sortedValues_eq (hdisplay : Function.Injective (Endpoint.display : Id → Bytes))
    (hkeyed : ∀ {id v}, t.get? id = some v → identity v = id) (h : ∀ id, t.get? id = u.get? id) :
    t.values.insertionSort (fun a b => displayLe (identity a) (identity b)) =
      u.values.insertionSort fun a b => displayLe (identity a) (identity b) := by
  refine List.insertionSort_eq_of_perm (HashTable.values_perm h) fun a ha b hb hab hba => ?_
  obtain ⟨id, ha⟩ := HashTable.mem_values_iff.mp ha
  obtain ⟨id', hb⟩ := HashTable.mem_values_iff.mp hb
  have hid : id = id' := by
    rw [← hkeyed ha, ← hkeyed hb]
    exact displayLe_antisymm hdisplay hab hba
  rw [hid, hb] at ha
  exact (Option.some.inj ha).symm

/-- Tables listed alike have the same look-ups. -/
theorem get?_eq_of_sortedValues_eq (hkeyed : ∀ {id v}, t.get? id = some v → identity v = id)
    (hkeyed' : ∀ {id v}, u.get? id = some v → identity v = id)
    (h : t.values.insertionSort (fun a b => displayLe (identity a) (identity b)) =
      u.values.insertionSort fun a b => displayLe (identity a) (identity b)) (id : Id) :
    t.get? id = u.get? id := by
  have hmem : ∀ v, v ∈ t.values ↔ v ∈ u.values := by
    intro v
    rw [← List.mem_insertionSort fun a b => displayLe (identity a) (identity b) = true, h, List.mem_insertionSort]
  ext v
  constructor
  · intro hv
    obtain ⟨id', hv'⟩ := HashTable.mem_values_iff.mp ((hmem v).mp (HashTable.mem_values_iff.mpr ⟨id, hv⟩))
    rwa [← hkeyed' hv', hkeyed hv] at hv'
  · intro hv
    obtain ⟨id', hv'⟩ := HashTable.mem_values_iff.mp ((hmem v).mpr (HashTable.mem_values_iff.mpr ⟨id, hv⟩))
    rwa [← hkeyed hv', hkeyed' hv] at hv'

end Order

variable [Msgpack Id] [Blake3]

/-! ### Bytes and content -/

/-- What two states agree on when they publish the same network: the maps as maps, whatever their history. -/
structure NetworkState.SameContent (s t : NetworkState Id) : Prop where
  generation : s.generation = t.generation
  networkName : s.networkName = t.networkName
  subnet : s.subnet = t.subnet
  nukeConsensusThreshold : s.nukeConsensusThreshold = t.nukeConsensusThreshold
  members : ∀ id, s.members.get id = t.members.get id
  approved : ∀ id, s.approved.get id = t.approved.get id
  reusableKeys : s.reusableKeys = t.reusableKeys
  invites : s.invites = t.invites
  nukeProposals : s.nukeProposals = t.nukeProposals

variable {s t : NetworkState Id}

theorem blob_eq_iff (hdisplay : Function.Injective (Endpoint.display : Id → Bytes)) :
    s.blob = t.blob ↔ s.SameContent t := by
  constructor
  · intro h
    refine ⟨congrArg GroupBlob.generation h, congrArg GroupBlob.name h,
      Option.some.inj (congrArg GroupBlob.subnet h), congrArg GroupBlob.nukeConsensusThreshold h, ?_, ?_,
      congrArg GroupBlob.reusableKeys h, congrArg GroupBlob.invites h, congrArg GroupBlob.nukeProposals h⟩
    · exact get?_eq_of_sortedValues_eq s.members.keyed t.members.keyed (congrArg GroupBlob.members h)
    · exact get?_eq_of_sortedValues_eq s.approved.keyed t.approved.keyed (congrArg GroupBlob.approved h)
  · intro h
    have hmembers : s.blob.members = t.blob.members := sortedValues_eq hdisplay s.members.keyed h.members
    have happroved : s.blob.approved = t.blob.approved := sortedValues_eq hdisplay s.approved.keyed h.approved
    have hrest : s.blob = { t.blob with members := s.blob.members, approved := s.blob.approved } := by
      simp only [NetworkState.blob, canonicalGroupBlob, h.generation, h.networkName, h.subnet,
        h.nukeConsensusThreshold, h.reusableKeys, h.invites, h.nukeProposals]
    rw [hrest, hmembers, happroved]

theorem bytes_eq_iff (hrt : Msgpack.RoundTrips Id)
    (hdisplay : Function.Injective (Endpoint.display : Id → Bytes)) :
    s.bytes = t.bytes ↔ s.SameContent t := by
  rw [← blob_eq_iff hdisplay]
  constructor
  · intro h
    have hboth : some s.blob = some t.blob := by
      rw [← hrt s.blob, ← hrt t.blob]
      exact congrArg Msgpack.fromSlice h
    exact Option.some.inj hboth
  · exact fun h => congrArg Msgpack.toVecNamed h

/-! ### Rebuilding a state from its bytes -/

/-- A state with the content of a decoded blob, its rosters rebuilt as `restore_member_roster` does. -/
def NetworkState.rebuilt (s : NetworkState Id) (data : GroupBlob Id) : NetworkState Id :=
  let (members, approved) := restoreRosters data.members data.approved
  { s with
    generation := data.generation
    members := members
    approved := approved
    snapshot := none
    networkName := data.name
    reusableKeys := data.reusableKeys
    invites := data.invites
    nukeProposals := data.nukeProposals
    nukeConsensusThreshold := data.nukeConsensusThreshold
    subnet := resolveSubnet data.subnet }

/-- Every entry passes the check of a reader. -/
def NetworkState.Validates (s : NetworkState Id) : Prop :=
  (∀ id m, s.members.get id = some m → validateMember m s.subnet = true) ∧
    ∀ id e, s.approved.get id = some e → validateApproved e s.subnet = true

/-- No two identities share an address across the rosters or on the approved one; a member list has distinct
addresses anyway. -/
structure NetworkState.DistinctAddresses (s : NetworkState Id) : Prop where
  across : ∀ id m id' e, s.members.get id = some m → s.approved.get id' = some e → m.ip = e.ip → id = id'
  approved : ∀ id e id' e', s.approved.get id = some e → s.approved.get id' = some e' → e.ip = e'.ip → id = id'

theorem NetworkState.Validates.valid_blob (h : s.Validates) : s.blob.valid = true := by
  refine Bool.and_eq_true_iff.mpr ⟨List.all_eq_true.mpr fun m hm => ?_, List.all_eq_true.mpr fun e he => ?_⟩
  · exact h.1 _ m (MemberList.mem_all_iff.mp ((List.mem_insertionSort _).mp hm))
  · exact h.2 _ e (ApprovedList.mem_all_iff.mp ((List.mem_insertionSort _).mp he))

theorem sameContent_rebuilt (h : s.DistinctAddresses) : (s.rebuilt s.blob).SameContent s := by
  have hmembers : ∀ id, (s.rebuilt s.blob).members.get id = s.members.get id := fun id =>
    MemberList.get_fromMembers (fun _ => List.mem_insertionSort _) id
  refine ⟨rfl, rfl, rfl, rfl, hmembers, fun id => ?_, rfl, rfl, rfl⟩
  refine ApprovedList.get_foldl_approveOrKeep (fun _ => List.mem_insertionSort _) ?_ h.approved id
  intro id m id' e hm he hip
  exact h.across id m id' e ((hmembers id).symm.trans hm) he hip

/-- **The bytes of a state are its content**: they are equal for two states exactly when their content is,
and decoding them and rebuilding the rosters gives a state with the same bytes and hash. -/
theorem canonical_bytes_of_content (hrt : Msgpack.RoundTrips Id)
    (hdisplay : Function.Injective (Endpoint.display : Id → Bytes)) :
    (∀ s t : NetworkState Id, s.bytes = t.bytes ↔ s.SameContent t) ∧
      ∀ s : NetworkState Id, s.Validates → s.DistinctAddresses →
        ∃ data, decodeGroupBlob s.bytes = some data ∧ (s.rebuilt data).bytes = s.bytes ∧
          Blake3.hash (s.rebuilt data).bytes = Blake3.hash s.bytes := by
  refine ⟨fun s t => bytes_eq_iff hrt hdisplay, fun s hvalidates hdistinct => ⟨s.blob, ?_, ?_⟩⟩
  · change decodeGroupBlob (Msgpack.toVecNamed s.blob) = _
    rw [decodeGroupBlob_toVecNamed hrt, hvalidates.valid_blob, if_pos rfl]
  · have hbytes := (bytes_eq_iff hrt hdisplay).mpr (sameContent_rebuilt hdistinct)
    exact ⟨hbytes, congrArg Blake3.hash hbytes⟩

end Tetron.Daemon

namespace Tetron.Daemon.Sample

open Tetron.Membership

theorem name_injective : Function.Injective name := by
  intro a b h
  cases a <;> cases b <;> first | rfl | cases h

def twoMembers : NetworkState Peer := state 5 [member .alice true, member .bob false]

theorem not_approved {id : Peer} {e : ApprovedEntry Peer} : twoMembers.approved.get id ≠ some e := by
  have hnone : twoMembers.approved.get id = none := rfl
  rw [hnone]
  nofun

theorem validates_twoMembers : twoMembers.Validates := by
  refine ⟨fun id m hm => ?_, fun id e he => absurd he not_approved⟩
  have hall : ∀ m ∈ twoMembers.members.all, validateMember m twoMembers.subnet = true := by decide +kernel
  have hid := MemberList.identity_of_get hm
  exact hall m (MemberList.mem_all_iff.mpr (hid.symm ▸ hm))

/-- Two rosters of the same members, filled in different orders, have the same bytes, and the bytes come back
from a rebuilt state. -/
theorem canonical_bytes_of_content_alice :
    twoMembers.bytes = (state 5 [member .bob false, member .alice true]).bytes ∧
      ∃ data, decodeGroupBlob twoMembers.bytes = some data ∧ (twoMembers.rebuilt data).bytes = twoMembers.bytes ∧
        Blake3.hash (twoMembers.rebuilt data).bytes = Blake3.hash twoMembers.bytes := by
  obtain ⟨hcontent, hrebuilt⟩ := canonical_bytes_of_content roundTrips name_injective
  refine ⟨(hcontent _ _).mpr ⟨rfl, rfl, rfl, rfl, fun id => ?_, fun _ => rfl, rfl, rfl, rfl⟩,
    hrebuilt twoMembers validates_twoMembers ⟨?_, ?_⟩⟩
  · cases id <;> decide +kernel
  · exact fun _ _ _ _ _ he => absurd he not_approved
  · exact fun _ _ _ _ he => absurd he not_approved

end Tetron.Daemon.Sample
