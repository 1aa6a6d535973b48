import Tetron.Daemon.Nuke
import Tetron.Daemon.Published

/-!
# Records name blobs of their own generation

A record is a hash and a generation, and several tasks publish records: the publishers, a grant, the sealing
of a created or restored network, the first invite of a new one, and a nuke. Each reads both halves under one
lock and publishes them later, when the state may have moved on. `Emitter` is a node together with what its
tasks have read and what they have published. Every snapshot carries the generation of its state, so the
record of every task names a blob of the record's generation, and whoever adopts that blob is at it.
-/

namespace Tetron.Daemon

open Tetron.Membership

variable {Id : Type} [DecidableEq Id] [Endpoint Id] [Msgpack Id] [Blake3]

/-- The snapshot is the canonical encoding of a state of this generation. -/
def NetworkState.Snapped (s : NetworkState Id) : Prop :=
  ∃ t : NetworkState Id, s.snapshot = some (.of t.blob) ∧ t.generation = s.generation

section Snapped

variable {s s' : NetworkState Id}

theorem NetworkState.snapped_refreshSnapshot (s : NetworkState Id) : s.refreshSnapshot.Snapped := ⟨s, rfl, rfl⟩

theorem NetworkState.Snapped.run (h : s.Snapped) (sec : Section Id) : (sec.run s).Snapped := by
  rcases sec.refreshes_or_keeps s with ⟨t, heq⟩ | ⟨hsnapshot, hgeneration, -⟩
  · rw [heq]
    exact snapped_refreshSnapshot t
  · obtain ⟨t, ht, htgeneration⟩ := h
    exact ⟨t, hsnapshot.trans ht, htgeneration.trans hgeneration.symm⟩

theorem snapped_applyBlob {path : ApplyPath} {data : GroupBlob Id} (h : applyBlob path s data = some s') :
    s'.Snapped := by
  obtain ⟨members, -, rfl⟩ := Option.map_eq_some_iff.mp h
  exact NetworkState.snapped_refreshSnapshot _

/-- Every start ends by sealing the state. -/
theorem snapped_origin {origin : Origin Id} (h : origin.state = some s) : s.Snapped := by
  cases origin with
  | create p name hostname key subnet threshold preApprove veilidNodeId =>
    obtain ⟨t, rfl, -⟩ := buildInitialRoster_eq_some h
    exact NetworkState.snapped_refreshSnapshot t
  | restore p record nc veilidNodeId =>
    obtain ⟨t, rfl, -⟩ := restoreCoordinatorNetwork_eq_some h
    exact NetworkState.snapped_refreshSnapshot _
  | join data members approved netPubkey name =>
    cases h
    exact NetworkState.snapped_refreshSnapshot _

end Snapped

theorem Holder.snapped_next {n n' : Holder Id} {ev : HolderEvent Id} (h : n.state.Snapped)
    (hnext : n.next ev = some n') : n'.state.Snapped :=
  Holder.next_invariant (I := NetworkState.Snapped) (fun _ _ => snapped_origin) (fun _ sec h => h.run sec)
    (fun _ _ _ _ => snapped_applyBlob) h hnext

/-! ### The tasks that publish -/

inductive RecordSource
  | networkPublisher
  | lazyPublisher
  | storeAndPublishGroup
  | sealAndPublish
  | initialInvite
  | nukeTombstone
deriving DecidableEq

/-- The record a task reads off the state under one lock. -/
def RecordSource.reads (s : NetworkState Id) : RecordSource → Option (Hash × ℕ)
  | .networkPublisher | .lazyPublisher => some (s.published.2, s.published.1)
  | .storeAndPublishGroup | .sealAndPublish | .initialInvite =>
    s.snapshot.map fun snapshot => (snapshot.hash, s.generation)
  | .nukeTombstone =>
    let generation := succGeneration s.generation
    some (Blake3.hash (Msgpack.toVecNamed (tombstone generation : GroupBlob Id)), generation)

/-- The record's hash is that of a blob with the record's generation. -/
def Names (Id : Type) [Msgpack Id] (record : Hash × ℕ) : Prop :=
  ∃ b : GroupBlob Id, record.1 = Blake3.hash (Msgpack.toVecNamed b) ∧ b.generation = record.2

theorem RecordSource.names_reads {s : NetworkState Id} (h : s.Snapped) {source : RecordSource} {record : Hash × ℕ}
    (hreads : source.reads s = some record) : Names Id record := by
  obtain ⟨t, ht, hgeneration⟩ := h
  have hsnapshot : Names Id ((GroupSnapshot.of t.blob).hash, s.generation) := ⟨t.blob, rfl, hgeneration⟩
  cases source with
  | networkPublisher | lazyPublisher =>
    simp only [RecordSource.reads, NetworkState.published, ht, Option.map_some, Option.getD_some,
      Option.some.injEq] at hreads
    exact hreads ▸ hsnapshot
  | storeAndPublishGroup | sealAndPublish | initialInvite =>
    simp only [RecordSource.reads, ht, Option.map_some, Option.some.injEq] at hreads
    exact hreads ▸ hsnapshot
  | nukeTombstone =>
    cases hreads
    exact ⟨tombstone _, rfl, rfl⟩

/-- Adopting what a record names leaves a node at the record's generation. -/
theorem Names.generation_of_adopted (hrt : Msgpack.RoundTrips Id) (hinj : Function.Injective Blake3.hash)
    {h : Hash} {g : ℕ} (hnames : Names Id (h, g)) {path : ApplyPath} {t t' : NetworkState Id} {served : Bytes}
    {data : GroupBlob Id} (hfetched : fetchedBlob h g served = some data) (happly : applyBlob path t data = some t') :
    t'.generation = g := by
  rw [(applyBlob_frame happly).1]
  rcases Option.or_eq_some_iff.mp hfetched with htombstone | ⟨-, hserved⟩
  · rw [tryDecodeTombstone_eq_some hrt htombstone]
    rfl
  · obtain ⟨b, hhash, hgeneration⟩ := hnames
    unfold verifyGroupBlob at hserved
    split at hserved
    · cases hserved
    · rename_i hsame
      -- what was served are the bytes of the blob that is named
      rw [hinj ((not_not.mp hsame).trans hhash), decodeGroupBlob_toVecNamed hrt] at hserved
      split at hserved
      · cases hserved
        exact hgeneration
      · cases hserved

/-! ### Runs -/

/-- A node, the records its tasks have read, and those they have published. -/
structure Emitter (Id : Type) [DecidableEq Id] [Msgpack Id] [Blake3] where
  holder : Holder Id
  pending : List (Hash × ℕ)
  records : List (Hash × ℕ)

inductive EmitterEvent (Id : Type)
  | hold (ev : HolderEvent Id)
  | read (source : RecordSource)
  | publish (record : Hash × ℕ)

def Emitter.next (e : Emitter Id) : EmitterEvent Id → Option (Emitter Id)
  | .hold ev => (e.holder.next ev).map fun holder => { e with holder := holder }
  | .read source => (source.reads e.holder.state).map fun record => { e with pending := record :: e.pending }
  | .publish record =>
    if record ∈ e.pending then
      some { e with pending := e.pending.erase record, records := record :: e.records }
    else none

structure Emitter.Inv (e : Emitter Id) : Prop where
  snapped : e.holder.state.Snapped
  pending : ∀ record ∈ e.pending, Names Id record
  records : ∀ record ∈ e.records, Names Id record

theorem Emitter.Inv.step {e e' : Emitter Id} {ev : EmitterEvent Id} (hinv : e.Inv) (h : e.next ev = some e') :
    e'.Inv := by
  cases ev with
  | hold ev =>
    obtain ⟨holder, hnext, rfl⟩ := Option.map_eq_some_iff.mp h
    exact ⟨Holder.snapped_next hinv.snapped hnext, hinv.pending, hinv.records⟩
  | read source =>
    obtain ⟨record, hreads, rfl⟩ := Option.map_eq_some_iff.mp h
    exact ⟨hinv.snapped, List.forall_mem_cons.mpr ⟨RecordSource.names_reads hinv.snapped hreads, hinv.pending⟩,
      hinv.records⟩
  | publish record =>
    simp only [Emitter.next] at h
    split at h
    · rename_i hmem
      cases h
      exact ⟨hinv.snapped, fun r hr => hinv.pending r (List.mem_of_mem_erase hr),
        List.forall_mem_cons.mpr ⟨hinv.pending record hmem, hinv.records⟩⟩
    · cases h

/-- **Records name blobs of their own generation**: in every state a node reaches, a snapshot is canonical
bytes that decode to a blob of the state's generation, and every record that any of its tasks has published
names a blob of the record's generation, at which everybody is who adopts it. -/
theorem records_name_own_generation (hrt : Msgpack.RoundTrips Id) (hinj : Function.Injective Blake3.hash)
    {origin : Origin Id} {s₀ : NetworkState Id} (hstart : origin.state = some s₀) {events : List (EmitterEvent Id)}
    {e : Emitter Id}
    (hrun : Run (fun e ev e' => Emitter.next e ev = some e') (fun _ _ => True) ⟨⟨s₀, []⟩, [], []⟩ events e) :
    (∀ snapshot, e.holder.state.snapshot = some snapshot →
        (∃ t : NetworkState Id, snapshot.msgpackBytes = t.bytes) ∧
          (Msgpack.fromSlice snapshot.msgpackBytes : Option (GroupBlob Id)).map GroupBlob.generation =
            some e.holder.state.generation ∧
          snapshot.hash = Blake3.hash snapshot.msgpackBytes) ∧
      ∀ h g, (h, g) ∈ e.records →
        (∃ b : GroupBlob Id, h = Blake3.hash (Msgpack.toVecNamed b) ∧ b.generation = g) ∧
          ∀ path (t t' : NetworkState Id) served data, fetchedBlob h g served = some data →
            applyBlob path t data = some t' → t'.generation = g := by
  have hinv : e.Inv := hrun.invariant (I := fun _ e => e.Inv) ⟨snapped_origin hstart, nofun, nofun⟩
    fun _ _ _ _ hinv _ hnext => hinv.step hnext
  refine ⟨fun snapshot hsnapshot => ?_, fun h g hmem => ?_⟩
  · obtain ⟨t, ht, hgeneration⟩ := hinv.snapped
    cases hsnapshot.symm.trans ht
    refine ⟨⟨t, rfl⟩, ?_, rfl⟩
    rw [GroupSnapshot.of, hrt, Option.map_some]
    exact congrArg some hgeneration
  · have hnames := hinv.records (h, g) hmem
    exact ⟨hnames, fun _ _ _ _ _ hfetched happly => hnames.generation_of_adopted hrt hinj hfetched happly⟩

end Tetron.Daemon

namespace Tetron.Daemon

open Tetron.Membership Sample

/-- The record alice's publisher reads when she has just created the network. -/
noncomputable def firstRecord : Hash × ℕ := (aliceState.published.2, aliceState.published.1)

/-- She publishes it after another mutation. -/
theorem records_name_own_generation_alice :
    ∃ e, Run (fun e ev e' => Emitter.next e ev = some e') (fun _ _ => True) ⟨⟨aliceState, []⟩, [], []⟩
        [.read .networkPublisher, .hold (.write .updateSnapshot), .publish firstRecord] e ∧
      firstRecord ∈ e.records ∧ ∃ b : GroupBlob Peer, firstRecord.1 = Blake3.hash (Msgpack.toVecNamed b) ∧
        b.generation = firstRecord.2 := by
  have hstart : aliceOrigin.state = some aliceState := (Option.some_get _).symm
  have hrun : Run (fun e ev e' => Emitter.next e ev = some e') (fun _ _ => True) ⟨⟨aliceState, []⟩, [], []⟩
      [.read .networkPublisher, .hold (.write .updateSnapshot), .publish firstRecord]
      ⟨⟨aliceState.bumpGenerationAndRefresh, []⟩, [], [firstRecord]⟩ := by
    have hread : Run (fun e ev e' => Emitter.next e ev = some e') (fun _ _ => True) ⟨⟨aliceState, []⟩, [], []⟩
        [.read .networkPublisher] ⟨⟨aliceState, []⟩, [firstRecord], []⟩ := Run.nil.snoc trivial rfl
    have hmutate : Run (fun e ev e' => Emitter.next e ev = some e') (fun _ _ => True) ⟨⟨aliceState, []⟩, [], []⟩
        [.read .networkPublisher, .hold (.write .updateSnapshot)]
        ⟨⟨aliceState.bumpGenerationAndRefresh, []⟩, [firstRecord], []⟩ := hread.snoc trivial rfl
    refine hmutate.snoc trivial ?_
    have hpending : firstRecord ∈ [firstRecord] := List.mem_cons_self
    simp only [Emitter.next, if_pos hpending, List.erase_cons_head]
  exact ⟨_, hrun, List.mem_cons_self,
    ((records_name_own_generation roundTrips (fun _ _ h => h) hstart hrun).2 _ _ List.mem_cons_self).1⟩

end Tetron.Daemon
