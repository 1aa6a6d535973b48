import Tetron.Membership.Assign
import Tetron.Membership.Invites

/-!
# The group blob

The one signed document of a network: its canonical encoding, and the checks a reader makes before
it believes one. The wire codec is MessagePack; that it reads back what it wrote is assumed where it
matters (`Msgpack.RoundTrips`).
-/

namespace Tetron.Membership

structure GroupBlob (Id : Type) where
  generation : ℕ
  members : List (Member Id)
  approved : List (ApprovedEntry Id)
  name : Option String
  subnet : Option Subnet
  reusableKeys : ReusableKeys
  invites : Invites
  nukeProposals : Std.ExtTreeMap Bytes ℕ
  nukeConsensusThreshold : ℕ

/-- `rmp_serde`, on group blobs. -/
class Msgpack (Id : Type) where
  toVecNamed : GroupBlob Id → Bytes
  fromSlice : Bytes → Option (GroupBlob Id)

def Msgpack.RoundTrips (Id : Type) [Msgpack Id] : Prop :=
  ∀ blob : GroupBlob Id, Msgpack.fromSlice (Msgpack.toVecNamed blob) = some blob

def defaultNukeConsensusThreshold : ℕ := 2

section Codec

variable {Id : Type} [DecidableEq Id] [Endpoint Id]

/-- The order of `sort_by_key(|m| m.identity.to_string())`. -/
def displayLe (a b : Id) : Bool := (compare (Endpoint.display a) (Endpoint.display b)).isLE

/-- The blob `canonical_group_bytes` encodes: the rosters in the order of their identity strings. -/
def canonicalGroupBlob (generation : ℕ) (members : MemberList Id) (approved : ApprovedList Id)
    (name : Option String) (reusableKeys : ReusableKeys) (subnet : Option Subnet) (invites : Invites)
    (nukeProposals : Std.ExtTreeMap Bytes ℕ) (nukeConsensusThreshold : ℕ) : GroupBlob Id where
  generation := generation
  members := members.all.insertionSort fun a b => displayLe a.identity b.identity
  approved := approved.all.insertionSort fun a b => displayLe a.identity b.identity
  name := name
  subnet := subnet
  reusableKeys := reusableKeys
  invites := invites
  nukeProposals := nukeProposals
  nukeConsensusThreshold := nukeConsensusThreshold

/-- The blob of a nuked network. -/
def tombstone (generation : ℕ) : GroupBlob Id :=
  canonicalGroupBlob generation .new .new none ∅ none ∅ ∅ defaultNukeConsensusThreshold

variable [Msgpack Id]

def canonicalGroupBytes (generation : ℕ) (members : MemberList Id) (approved : ApprovedList Id)
    (name : Option String) (reusableKeys : ReusableKeys) (subnet : Option Subnet) (invites : Invites)
    (nukeProposals : Std.ExtTreeMap Bytes ℕ) (nukeConsensusThreshold : ℕ) : Bytes :=
  Msgpack.toVecNamed (canonicalGroupBlob generation members approved name reusableKeys subnet invites
    nukeProposals nukeConsensusThreshold)

/-- What `decode_group_blob` checks of the blob it has parsed. -/
def GroupBlob.valid (blob : GroupBlob Id) : Bool :=
  let subnet := resolveSubnet blob.subnet
  (blob.members.all fun m => validateMember m subnet) &&
    blob.approved.all fun a => validateApproved a subnet

def decodeGroupBlob (bytes : Bytes) : Option (GroupBlob Id) :=
  (Msgpack.fromSlice bytes).filter GroupBlob.valid

variable [Blake3]

def verifyGroupBlob (bytes : Bytes) (expectedHash : Hash) : Option (GroupBlob Id) :=
  if Blake3.hash bytes ≠ expectedHash then none else decodeGroupBlob bytes

def tryDecodeTombstone (signed : Hash) (generation : ℕ) : Option (GroupBlob Id) :=
  let bytes := Msgpack.toVecNamed (tombstone generation : GroupBlob Id)
  if Blake3.hash bytes ≠ signed then none else Msgpack.fromSlice bytes

end Codec

def trustedReconvergeHash (current : Option Hash) (signed : Hash) : Option Hash :=
  if current = some signed then none else some signed

section Valid

variable {Id : Type} [Endpoint Id]

theorem GroupBlob.valid_iff {blob : GroupBlob Id} (h : (resolveSubnet blob.subnet).Usable) :
    blob.valid = true ↔ (∀ m ∈ blob.members, m.Derived (resolveSubnet blob.subnet)) ∧
      ∀ a ∈ blob.approved, a.Derived (resolveSubnet blob.subnet) := by
  simp only [GroupBlob.valid, Bool.and_eq_true, List.all_eq_true, validateMember_iff h,
    validateApproved_iff h]

/-- A verified blob's members are at their derived addresses, in its subnet. -/
theorem address_of_valid {data : GroupBlob Id} {m : Member Id} (hvalid : data.valid = true) (hm : m ∈ data.members) :
    m.ip = deriveIpWithIndex m.identity m.collisionIndex (resolveSubnet data.subnet) ∧
      ipInSubnet m.ip (resolveSubnet data.subnet) = true := by
  have hmember : validateMember m (resolveSubnet data.subnet) = true := by
    have hboth : _ ∧ _ := Bool.and_eq_true_iff.mp hvalid
    exact List.all_eq_true.mp hboth.1 m hm
  obtain ⟨hip, hrange⟩ := Bool.and_eq_true_iff.mp hmember
  have hin : ipInSubnet m.ip (resolveSubnet data.subnet) = true := by
    simp only [ensureInCgnatRange, Bool.and_eq_true] at hrange
    exact hrange.1.1
  exact ⟨beq_iff_eq.mp hip, hin⟩

variable [Msgpack Id]

theorem decodeGroupBlob_toVecNamed (hrt : Msgpack.RoundTrips Id) (blob : GroupBlob Id) :
    decodeGroupBlob (Msgpack.toVecNamed blob) = if blob.valid then some blob else none := by
  rw [decodeGroupBlob, hrt blob, Option.filter_some]

variable [Blake3]

omit [Endpoint Id] in
/-- Blobs with one hash are one blob. -/
theorem GroupBlob.eq_of_hash_eq (hrt : Msgpack.RoundTrips Id) (hinj : Function.Injective Blake3.hash)
    {a b : GroupBlob Id} (h : Blake3.hash (Msgpack.toVecNamed a) = Blake3.hash (Msgpack.toVecNamed b)) : a = b := by
  apply Option.some.inj
  rw [← hrt a, ← hrt b, hinj h]

/-- A blob is believed if its bytes hash to the signed hash and it passes its own checks. -/
theorem verifyGroupBlob_eq_some_iff {bytes : Bytes} {signed : Hash} {blob : GroupBlob Id} :
    verifyGroupBlob bytes signed = some blob ↔
      Blake3.hash bytes = signed ∧ Msgpack.fromSlice bytes = some blob ∧ blob.valid = true := by
  unfold verifyGroupBlob
  split
  · rename_i hne
    exact ⟨fun h => (by cases h), fun h => absurd h.1 hne⟩
  · rename_i heq
    rw [decodeGroupBlob, Option.filter_eq_some_iff]
    exact ⟨fun h => ⟨not_not.mp heq, h⟩, And.right⟩

theorem valid_of_verifyGroupBlob {bytes : Bytes} {signed : Hash} {blob : GroupBlob Id}
    (h : verifyGroupBlob bytes signed = some blob) : blob.valid = true :=
  (verifyGroupBlob_eq_some_iff.mp h).2.2

theorem tryDecodeTombstone_eq_some [DecidableEq Id] (hrt : Msgpack.RoundTrips Id) {signed : Hash} {generation : ℕ}
    {blob : GroupBlob Id} (h : tryDecodeTombstone signed generation = some blob) :
    blob = tombstone generation := by
  simp only [tryDecodeTombstone] at h
  split at h
  · cases h
  · rw [hrt] at h
    exact (Option.some.inj h).symm

end Valid

/-! ### The assumption on the codec can be met -/

instance countableChar : Countable Char := Function.Injective.countable fun _ _ => Char.toNat_inj.mp

instance countableString : Countable String := Function.Injective.countable fun _ _ => String.toList_inj.mp

instance countableExtTreeMap {κ ν : Type} [Ord κ] [Std.TransOrd κ] [Countable κ] [Countable ν] :
    Countable (Std.ExtTreeMap κ ν) :=
  Function.Injective.countable fun _ _ => Std.ExtTreeMap.toList_inj.mp

deriving instance Countable for Subnet, Member, ApprovedEntry, InviteEntry, ReusableKey, GroupBlob

theorem Msgpack.exists_roundTrips {Id : Type} [Countable Id] : ∃ _ : Msgpack Id, Msgpack.RoundTrips Id := by
  obtain ⟨number, hnumber⟩ := exists_injective_nat (GroupBlob Id)
  have hinj : Function.Injective fun blob : GroupBlob Id => List.replicate (number blob) (0 : UInt8) :=
    fun a b h => hnumber (List.replicate_left_injective _ h)
  exact ⟨⟨_, Function.partialInv _⟩, Function.partialInv_left hinj⟩

end Tetron.Membership
