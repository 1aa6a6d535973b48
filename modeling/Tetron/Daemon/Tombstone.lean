import Tetron.Daemon.Converge
import Tetron.Daemon.Records

/-!
# Tombstones

A nuke publishes the record of an empty blob, and a reader rebuilds that blob from the record's generation
alone. Here the bytes that are published are compared with those that are rebuilt, whatever the network, and
followed to the decision of a pass to leave. No blob of a state is taken for a tombstone, since it has entries,
or names its subnet.
-/

namespace Tetron.Daemon

open Tetron.Membership Tetron.Dht

variable {Id : Type} [DecidableEq Id] [Endpoint Id] [Msgpack Id] [Blake3]

/-- The states of a node: those a start and the steps after it lead to. -/
def NetworkState.Reachable (s : NetworkState Id) : Prop :=
  ∃ (origin : Origin Id) (s₀ : NetworkState Id) (events : List (HolderEvent Id)) (n : Holder Id),
    origin.state = some s₀ ∧
      Run (fun n ev n' => Holder.next n ev = some n') (fun _ _ => True) ⟨s₀, []⟩ events n ∧ n.state = s

theorem NetworkState.Reachable.snapped {s : NetworkState Id} (h : s.Reachable) : s.Snapped := by
  obtain ⟨origin, s₀, events, n, hstart, hrun, rfl⟩ := h
  exact hrun.invariant (I := fun _ n => n.state.Snapped) (snapped_origin hstart)
    fun _ _ _ _ hsnapped _ hnext => Holder.snapped_next hsnapped hnext

/-! ### The two constructions -/

/-- The bytes `publish_nuke_tombstone` stores and names. -/
def emptyBytes (Id : Type) [DecidableEq Id] [Endpoint Id] [Msgpack Id] (generation : ℕ) : Bytes :=
  canonicalGroupBytes generation (.new : MemberList Id) .new none ∅ none ∅ ∅ defaultNukeConsensusThreshold

section Published

variable [Pkarr Id] {call : NukeCall Id} {packet : SignedPacket}

theorem NukeCall.packet_of_published (h : call.published = some packet) :
    ∃ generation < 2 ^ 64,
      packet = ⟨recordValues (Blake3.hash (emptyBytes Id generation)) generation ([] : List Id)⟩ := by
  rw [NukeCall.published] at h
  split at h
  · rename_i s key generation hrun
    have hlt : generation < 2 ^ 64 := by
      rw [NukeCall.generation_of_run hrun]
      exact succGeneration_lt _
    rw [NukeCall.publishNukeTombstone] at h
    split at h
    · cases h
    · obtain ⟨-, hpacket⟩ := Option.ite_none_right_eq_some.mp h
      exact ⟨generation, hlt, (Option.some.inj hpacket).symm⟩
  · cases h

end Published

/-- The bytes rebuilt from the generation are the ones published. -/
theorem tryDecodeTombstone_emptyBytes (hrt : Msgpack.RoundTrips Id) (generation : ℕ) :
    tryDecodeTombstone (Blake3.hash (emptyBytes Id generation)) generation =
      some (tombstone generation : GroupBlob Id) := by
  rw [tryDecodeTombstone]
  exact (if_neg (not_not_intro rfl)).trans (hrt _)

theorem tryDecodeTombstone_of_ne (hrt : Msgpack.RoundTrips Id) (hinj : Function.Injective Blake3.hash)
    {b : GroupBlob Id} {generation : ℕ} (hne : b ≠ tombstone generation) :
    (tryDecodeTombstone (Blake3.hash (Msgpack.toVecNamed b)) generation : Option (GroupBlob Id)) = none := by
  rw [tryDecodeTombstone]
  exact if_pos fun hhash => hne (GroupBlob.eq_of_hash_eq hrt hinj hhash).symm

omit [Msgpack Id] [Blake3] in
/-- A blob with an entry is not the empty one. -/
theorem canonicalGroupBlob_ne_tombstone {generation generation' : ℕ} {members : MemberList Id}
    {approved : ApprovedList Id} (hentry : members.all ≠ [] ∨ approved.all ≠ []) (name : Option String)
    (reusableKeys : ReusableKeys) (subnet : Option Subnet) (invites : Invites)
    (nukeProposals : Std.ExtTreeMap Bytes ℕ) (nukeConsensusThreshold : ℕ) :
    canonicalGroupBlob generation members approved name reusableKeys subnet invites nukeProposals
      nukeConsensusThreshold ≠ tombstone generation' := by
  intro heq
  rcases hentry with hmembers | happroved
  · apply hmembers
    have hsorted : members.all.insertionSort (fun a b => displayLe a.identity b.identity) = [] :=
      congrArg GroupBlob.members heq
    exact List.Perm.eq_nil (hsorted ▸ (List.perm_insertionSort _ _).symm)
  · apply happroved
    have hsorted : approved.all.insertionSort (fun a b => displayLe a.identity b.identity) = [] :=
      congrArg GroupBlob.approved heq
    exact List.Perm.eq_nil (hsorted ▸ (List.perm_insertionSort _ _).symm)

/-! ### A pass over a tombstone -/

section Pass

variable {n : Node Id} {generation : ℕ}

/-- Whatever peers serve, and on either path, a pass that goes for the record finds the tombstone and leaves. -/
theorem Node.advance_tombstone (hrt : Msgpack.RoundTrips Id) (n : Node Id) (path : ApplyPath)
    (record : Option (Hash × ℕ)) (served : Bytes) :
    n.advance path record served (.fetching (Blake3.hash (emptyBytes Id generation)) generation) =
        some (n, .fetched (tombstone generation)) ∧
      ∃ n', n.advance path record served (.fetched (tombstone generation)) =
        some (n', .left (tombstone generation)) := by
  constructor
  · rw [Node.advance, fetchedBlob, tryDecodeTombstone_emptyBytes hrt, Option.some_or]
    rfl
  · cases path with
    | poller => exact ⟨_, rfl⟩
    | reconverge => exact ⟨_, rfl⟩

/-- The snapshot of a state names its subnet, a tombstone none. -/
theorem snapshot_ne_tombstone (hrt : Msgpack.RoundTrips Id) (hinj : Function.Injective Blake3.hash)
    {s : NetworkState Id} (h : s.Snapped) :
    s.snapshot.map GroupSnapshot.hash ≠ some (Blake3.hash (emptyBytes Id generation)) := by
  obtain ⟨t, ht, -⟩ := h
  rw [ht, Option.map_some]
  intro hhash
  have hblob : t.blob = tombstone generation := GroupBlob.eq_of_hash_eq hrt hinj (Option.some.inj hhash)
  exact Option.some_ne_none _ (congrArg GroupBlob.subnet hblob)

/-- The reconverge worker goes for a tombstone from every state. -/
theorem Node.reconverge_readStage (hrt : Msgpack.RoundTrips Id) (hinj : Function.Injective Blake3.hash)
    (h : n.state.Snapped) (served : Bytes) :
    n.advance .reconverge (some (Blake3.hash (emptyBytes Id generation), generation)) served n.readStage =
      some (n, .fetching (Blake3.hash (emptyBytes Id generation)) generation) := by
  have hne : n.state.snapshot.map GroupSnapshot.hash ≠ some (Blake3.hash (emptyBytes Id generation)) :=
    snapshot_ne_tombstone hrt hinj h
  have hfetch : recordToFetch .reconverge n.state.generation (n.state.snapshot.map GroupSnapshot.hash)
      (some (Blake3.hash (emptyBytes Id generation), generation)) =
        some (Blake3.hash (emptyBytes Id generation), generation) := by
    rw [recordToFetch, Option.filter_eq_some_iff]
    refine ⟨rfl, ?_⟩
    simp only [trustedReconvergeHash, if_neg hne, Option.isSome_some]
  simp only [Node.readStage, Node.advance, hfetch, Option.elim_some]

/-- The poller goes for it from the states that are not ahead of it. -/
theorem Node.poller_readStage_iff (hrt : Msgpack.RoundTrips Id) (hinj : Function.Injective Blake3.hash)
    (h : n.state.Snapped) (served : Bytes) :
    n.advance .poller (some (Blake3.hash (emptyBytes Id generation), generation)) served n.readStage =
        some (n, .fetching (Blake3.hash (emptyBytes Id generation)) generation) ↔
      n.state.generation ≤ generation := by
  have hne : n.state.snapshot.map GroupSnapshot.hash ≠ some (Blake3.hash (emptyBytes Id generation)) :=
    snapshot_ne_tombstone hrt hinj h
  have hguard : pollerShouldFetch generation (Blake3.hash (emptyBytes Id generation)) n.state.generation
      (n.state.snapshot.map GroupSnapshot.hash) = decide (n.state.generation ≤ generation) := by
    rw [Bool.eq_iff_iff, decide_eq_true_iff]
    simp [pollerShouldFetch, hne.symm]
  simp only [Node.readStage, Node.advance, recordToFetch, Option.filter_some, hguard]
  by_cases hle : n.state.generation ≤ generation
  · simp [hle]
  · simp [hle]

end Pass

/-- **Tombstones reach everybody**: what a nuke publishes is recognised from the record alone, and a node in
any state, running either task, then leaves, the poller as long as its generation is not above the record's.
The hash of a blob that has an entry is never taken for a tombstone. -/
theorem tombstone_recognised [Pkarr Id] (hrt : Msgpack.RoundTrips Id) (hinj : Function.Injective Blake3.hash)
    (hparse : Pkarr.ParsesBack Id) :
    (∀ (call : NukeCall Id) packet, call.published = some packet →
      ∃ h g, decodeNetworkRecord packet = some (h, g, ([] : List Id)) ∧
        tryDecodeTombstone h g = some (tombstone g : GroupBlob Id) ∧
        (∀ (n : Node Id) path record served,
          n.advance path record served (.fetching h g) = some (n, .fetched (tombstone g)) ∧
            ∃ n', n.advance path record served (.fetched (tombstone g)) = some (n', .left (tombstone g))) ∧
        ∀ (n : Node Id) served, n.state.Reachable →
          n.advance .reconverge (some (h, g)) served n.readStage = some (n, .fetching h g) ∧
            (n.advance .poller (some (h, g)) served n.readStage = some (n, .fetching h g) ↔
              n.state.generation ≤ g)) ∧
      ∀ generation (members : MemberList Id) (approved : ApprovedList Id) name reusableKeys subnet invites
        nukeProposals nukeConsensusThreshold, members.all ≠ [] ∨ approved.all ≠ [] →
          ∀ g, (tryDecodeTombstone (Blake3.hash (canonicalGroupBytes generation members approved name reusableKeys
            subnet invites nukeProposals nukeConsensusThreshold)) g : Option (GroupBlob Id)) = none := by
  constructor
  · intro call packet hpublished
    obtain ⟨generation, hlt, rfl⟩ := NukeCall.packet_of_published hpublished
    refine ⟨_, generation, decodeNetworkRecord_recordValues hparse _ hlt [], tryDecodeTombstone_emptyBytes hrt _,
      Node.advance_tombstone hrt, fun n served hreach => ?_⟩
    exact ⟨Node.reconverge_readStage hrt hinj hreach.snapped served,
      Node.poller_readStage_iff hrt hinj hreach.snapped served⟩
  · intro generation members approved name reusableKeys subnet invites nukeProposals threshold hentry g
    exact tryDecodeTombstone_of_ne hrt hinj
      (canonicalGroupBlob_ne_tombstone hentry name reusableKeys subnet invites nukeProposals threshold)

end Tetron.Daemon

namespace Tetron.Daemon

open Tetron.Membership Tetron.Dht Sample

/-- Alice nukes a network at generation 4, and a node that has just created its network goes for the record. -/
theorem tombstone_recognised_solo : ∃ h, decodeNetworkRecord (nukeRecord 5) = some (h, 5, ([] : List Peer)) ∧
    tryDecodeTombstone h 5 = some (tombstone 5 : GroupBlob Peer) ∧
    ∀ (n : Node Peer) served, n.state = aliceState →
      n.advance .reconverge (some (h, 5)) served n.readStage = some (n, .fetching h 5) := by
  obtain ⟨h, g, hdecode, hrecognised, -, hreached⟩ :=
    (tombstone_recognised roundTrips (fun _ _ h => h) parsesBack).1 _ _ (published_solo 4)
  have hrecord : decodeNetworkRecord (nukeRecord 5) = some (_, 5, ([] : List Peer)) :=
    decodeNetworkRecord_recordValues parsesBack _ (by decide) []
  cases hdecode.symm.trans hrecord
  have hstart : aliceOrigin.state = some aliceState := (Option.some_get _).symm
  have halice : aliceState.Reachable := ⟨aliceOrigin, aliceState, [], ⟨aliceState, []⟩, hstart, .nil, rfl⟩
  exact ⟨_, hrecord, hrecognised, fun n served hstate => (hreached n served (hstate ▸ halice)).1⟩

end Tetron.Daemon
