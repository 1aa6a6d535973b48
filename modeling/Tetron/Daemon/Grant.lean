import Tetron.Daemon.Consensus
import Tetron.Daemon.Publish
import Tetron.Daemon.Published

/-!
# Publishing a grant

`publish_grant` flags the grantee under one lock, asks the DHT for the live record, and publishes what it reads
of the state under a later lock. `Granter` is a node with such a call under way, while all other tasks take
their steps, among them those that replace or edit its rosters. The flag reaches the record if the grantee is a
member when it is flagged, and no step between the two locks takes it from the roster.
-/

namespace Tetron.Daemon

open Tetron.Membership Tetron.Dht

inductive GrantPublish
  | publish
  | alreadyPublished
  | reconverge
deriving DecidableEq, Repr

def grantPublishAction (localGeneration : ℕ) (localHash : Hash) (dht : Option (ℕ × Hash)) : GrantPublish :=
  match dht with
  | none => .publish
  | some (dhtGeneration, dhtHash) =>
    match compare localGeneration dhtGeneration with
    | .gt => .publish
    | .eq => if dhtHash = localHash then .alreadyPublished else .reconverge
    | .lt => .reconverge

def grantPublishAttempts : ℕ := 3

/-- The arguments of a call, and the grantee's `fmt_short`. -/
structure GrantCall (Id : Type) where
  network : String
  grantee : Id
  granteeShort : String

namespace GrantCall

variable {Id : Type}

def notActive (call : GrantCall Id) : String := "network '" ++ call.network ++ "' not active"

def noSnapshot (call : GrantCall Id) : String := "network '" ++ call.network ++ "' has no snapshot to publish"

def overtaken (call : GrantCall Id) : String :=
  "the key was delivered to " ++ call.granteeShort ++ ", but its coordinator flag could not be published: " ++
    "the network record kept moving ahead of this node. Run the same `tetron admin " ++
    "add` again; it is safe to repeat (it resends the key and re-asserts the flag)"

end GrantCall

/-- Where a call is. -/
inductive GrantStage
  /-- Before the lock of a round. -/
  | asserting (attempt : ℕ)
  /-- It has flagged the grantee, and waits for the DHT with what it read of the state. -/
  | resolving (attempt generation : ℕ) (hash : Hash)
  /-- In `store_and_publish_group`, before its lock and after it. -/
  | storing
  | publishing (hash : Hash) (generation : ℕ)
  /-- In `reconverge_now`, a pass that may or may not end in adopting a blob. -/
  | reconverging (attempt : ℕ)
  /-- `Ok` comes with the record that was handed to `publish_network` or found, if there is one. -/
  | returned (result : Except String (Option (Hash × ℕ)))

/-- A node with a call under way; `handle` is its entry for the network, `none` once it has left. -/
structure Granter (Id : Type) [DecidableEq Id] [Msgpack Id] [Blake3] where
  handle : Option (Holder Id)
  live : Option SignedPacket
  stage : GrantStage

inductive GrantEvent (Id : Type)
  /-- A step of any other task of the node. -/
  | node (ev : HolderEvent Id)
  | leave
  /-- Somebody else publishes, or the record expires. -/
  | others (live : Option SignedPacket)
  | assertFlag
  | resolve (resolves : Bool)
  | read
  | publish (seedPeers : List Id) (delivery : Delivery)
  | reconverged

variable {Id : Type} [DecidableEq Id] [Endpoint Id] [Msgpack Id] [Blake3]

namespace Granter

/-- A network that was left can only be entered again. -/
def onNode (handle : Option (Holder Id)) (ev : HolderEvent Id) : Option (Holder Id) :=
  match handle, ev with
  | some h, ev => h.next ev
  | none, .start origin => origin.state.map fun state => ⟨state, []⟩
  | none, _ => none

/-- The locked section of a round. -/
def onAssert (call : GrantCall Id) (n : Granter Id) (attempt : ℕ) : Granter Id :=
  match n.handle with
  | none => { n with stage := .returned (.error call.notActive) }
  | some h =>
    let s := publishGrant h.state call.grantee
    { n with
      handle := some { h with state := s }
      stage := match s.snapshot with
        | none => .returned (.error call.noSnapshot)
        | some snapshot => .resolving attempt s.generation snapshot.hash }

/-- What follows the DHT's answer. -/
def onResolve (attempt generation : ℕ) (hash : Hash) (dht : Option (ℕ × Hash)) : GrantStage :=
  match grantPublishAction generation hash dht with
  | .publish => .storing
  | .alreadyPublished => .returned (.ok (some (hash, generation)))
  | .reconverge => .reconverging attempt

/-- The lock of `store_and_publish_group`; without a handle, a snapshot or a key there is nothing to publish. -/
def onRead (n : Granter Id) : GrantStage :=
  match n.handle with
  | none => .returned (.ok none)
  | some h =>
    match h.state.snapshot, h.state.networkSecretKey with
    | some snapshot, some _ => .publishing snapshot.hash h.state.generation
    | _, _ => .returned (.ok none)

/-- The end of a round that has to be repeated. -/
def onReconverged (call : GrantCall Id) (attempt : ℕ) : GrantStage :=
  if attempt < grantPublishAttempts then .asserting (attempt + 1) else .returned (.error call.overtaken)

variable [Pkarr Id]

/-- One step. A publish call that fails is logged and changes nothing else. -/
def next (call : GrantCall Id) (n : Granter Id) : GrantEvent Id → Option (Granter Id)
  | .node ev => (onNode n.handle ev).map fun h => { n with handle := some h }
  | .leave => some { n with handle := none }
  | .others live => some { n with live := live }
  | .assertFlag =>
    match n.stage with
    | .asserting attempt => some (n.onAssert call attempt)
    | _ => none
  | .resolve resolves =>
    match n.stage with
    | .resolving attempt generation hash =>
      let dht := (resolveNetwork n.live resolves : Option (Hash × ℕ × List Id)).map fun r => (r.2.1, r.1)
      some { n with stage := onResolve attempt generation hash dht }
    | _ => none
  | .read =>
    match n.stage with
    | .storing => some { n with stage := n.onRead }
    | _ => none
  | .publish seedPeers delivery =>
    match n.stage with
    | .publishing hash generation =>
      some { n with
        live := (publishNetwork hash generation seedPeers delivery n.live).2
        stage := .returned (.ok (some (hash, generation))) }
    | _ => none
  | .reconverged =>
    match n.stage with
    | .reconverging attempt => some { n with stage := onReconverged call attempt }
    | _ => none

end Granter

/-! ### States and records that flag the grantee -/

section Carries

variable {s s' : NetworkState Id} {grantee : Id}

/-- The record names a blob that lists the identity as a coordinator. -/
def FlagsCoordinator (record : Hash × ℕ) (id : Id) : Prop :=
  ∃ b : GroupBlob Id, record.1 = Blake3.hash (Msgpack.toVecNamed b) ∧ b.generation = record.2 ∧
    ∃ m ∈ b.members, m.identity = id ∧ m.isCoordinator = true

/-- The roster and the snapshot flag the grantee, and there is a key to publish with. -/
structure NetworkState.Carries (s : NetworkState Id) (grantee : Id) : Prop where
  flagged : s.flagged grantee = true
  snapshot : ∃ t : NetworkState Id, s.snapshot = some (.of t.blob) ∧ t.generation = s.generation ∧
    t.flagged grantee = true
  key : s.networkSecretKey ≠ none

/-- The record of a state whose roster flags the grantee. -/
theorem flagsCoordinator_of_flagged (h : s.flagged grantee = true) :
    FlagsCoordinator ((GroupSnapshot.of s.blob).hash, s.generation) grantee := by
  obtain ⟨m, hm, hflag⟩ := (Option.any_eq_true _ _).mp h
  have hid := MemberList.identity_of_get hm
  refine ⟨s.blob, rfl, rfl, m, ?_, hid, hflag⟩
  exact (List.mem_insertionSort _).mpr (MemberList.mem_all_iff.mpr (hid.symm ▸ hm))

theorem NetworkState.carries_refreshSnapshot (hflagged : s.flagged grantee = true) (hkey : s.networkSecretKey ≠ none) :
    s.refreshSnapshot.Carries grantee :=
  ⟨hflagged, ⟨s, rfl, rfl, hflagged⟩, hkey⟩

theorem NetworkState.Carries.run (h : s.Carries grantee) (sec : Section Id) (hseat : sec.unseats ≠ some grantee) :
    (sec.run s).Carries grantee := by
  have hflagged := Section.flagged_run sec h.flagged hseat
  have hkey : (sec.run s).networkSecretKey ≠ none := fun hnone => h.key (Section.networkSecretKey_run hnone)
  rcases sec.refreshes_or_keeps s with ⟨t, heq⟩ | ⟨hsnapshot, hgeneration, -⟩
  · rw [heq] at hflagged hkey ⊢
    exact carries_refreshSnapshot hflagged hkey
  · obtain ⟨t, ht, htgeneration, htflagged⟩ := h.snapshot
    exact ⟨hflagged, ⟨t, hsnapshot.trans ht, htgeneration.trans hgeneration.symm, htflagged⟩, hkey⟩

theorem NetworkState.Carries.apply (h : s.Carries grantee) {path : ApplyPath} {data : GroupBlob Id}
    (hroster : ∀ roster, path.roster data = some roster →
      ((MemberList.fromMembers roster).get grantee).any Member.isCoordinator = true)
    (happly : applyBlob path s data = some s') : s'.Carries grantee := by
  obtain ⟨roster, heq, rfl⟩ := Option.map_eq_some_iff.mp happly
  exact carries_refreshSnapshot (hroster roster heq) h.key

/-- Flagging a member that is on the roster. -/
theorem carries_publishGrant (hmember : s.members.isMember grantee = true) (hkey : s.networkSecretKey ≠ none) :
    (publishGrant s grantee).Carries grantee := by
  refine NetworkState.carries_refreshSnapshot ?_ hkey
  obtain ⟨m, hm⟩ := Option.isSome_iff_exists.mp hmember
  have hget : (markCoordinator s.members grantee).get grantee = some { m with isCoordinator := true } := by
    rw [markCoordinator, MemberList.get_modify, if_pos rfl, hm]
    rfl
  rw [NetworkState.flagged, hget]
  rfl

end Carries

/-! ### The condition -/

/-- The step leaves the grantee on the roster as a coordinator. -/
def HolderEvent.Retains (grantee : Id) : HolderEvent Id → Prop
  | .start _ => False
  | .assign _ => True
  | .admitJoiner plan _ _ _ => plan.identity ≠ grantee
  | .write sec => sec.unseats ≠ some grantee
  | .apply path signed generation served =>
    ∀ data, fetchedBlob signed generation served = some data → ∀ roster, path.roster data = some roster →
      ((MemberList.fromMembers roster).get grantee).any Member.isCoordinator = true

/-- The call is between the lock under which it flags the grantee and the one under which it reads the record. -/
def GrantStage.between : GrantStage → Bool
  | .resolving .. | .storing => true
  | _ => false

/-- A grantee is flagged as a member, by a node with the key, and stays flagged until the record is read. -/
def Granter.Retains (call : GrantCall Id) (n : Granter Id) : GrantEvent Id → Prop
  | .assertFlag => ∀ h, n.handle = some h →
      h.state.members.isMember call.grantee = true ∧ h.state.networkSecretKey ≠ none
  | .node ev => n.stage.between = true → ev.Retains call.grantee
  | .leave => n.stage.between = false
  | _ => True

/-! ### Runs -/

/-- A step that retains the grantee keeps a state that carries its flag. -/
theorem Holder.carries_next {h h' : Holder Id} {ev : HolderEvent Id} {grantee : Id} (hcarries : h.state.Carries grantee)
    (hretains : ev.Retains grantee) (hnext : h.next ev = some h') : h'.state.Carries grantee := by
  have hafter := Holder.after_next hnext
  cases ev with
  | start origin => exact hretains.elim
  | assign id =>
    have hsame : h'.state = h.state := hafter
    rwa [hsame]
  | admitJoiner plan hostname veilidNodeId now =>
    have hadmits : h'.state = (Section.admitPeer _).run h.state := hafter
    rw [hadmits]
    exact hcarries.run _ fun hseat => hretains (Option.some.inj hseat)
  | write sec =>
    have hwrites : h'.state = sec.run h.state := hafter
    rw [hwrites]
    exact hcarries.run sec hretains
  | apply path signed generation served =>
    obtain ⟨data, hdata, hstate⟩ := hafter
    exact hcarries.apply (hretains data hdata) hstate

namespace Granter

variable {call : GrantCall Id} {n n' : Granter Id}

/-- The node's state carries the flag. -/
def Carries (call : GrantCall Id) (n : Granter Id) : Prop :=
  ∃ h, n.handle = some h ∧ h.state.Carries call.grantee

/-- What a call has in hand at each stage. -/
def Inv (call : GrantCall Id) (n : Granter Id) : Prop :=
  match n.stage with
  | .resolving _ generation hash => FlagsCoordinator (hash, generation) call.grantee ∧ n.Carries call
  | .storing => n.Carries call
  | .publishing hash generation => FlagsCoordinator (hash, generation) call.grantee
  | .returned (.ok published) => ∃ record, published = some record ∧ FlagsCoordinator record call.grantee
  | _ => True

/-- Other tasks matter to a call only between its two locks. -/
theorem Inv.of_handle (hinv : n.Inv call) (hstage : n'.stage = n.stage)
    (hcarries : n.stage.between = true → n.Carries call → n'.Carries call) : n'.Inv call := by
  unfold Inv at hinv ⊢
  rw [hstage]
  split
  · rename_i heq
    rw [heq] at hinv hcarries
    exact ⟨hinv.1, hcarries rfl hinv.2⟩
  · rename_i heq
    rw [heq] at hinv hcarries
    exact hcarries rfl hinv
  · rename_i heq
    rwa [heq] at hinv
  · rename_i heq
    rwa [heq] at hinv
  · trivial

theorem Inv.onAssert (call : GrantCall Id) {attempt : ℕ}
    (hmember : ∀ h, n.handle = some h →
      h.state.members.isMember call.grantee = true ∧ h.state.networkSecretKey ≠ none) :
    (n.onAssert call attempt).Inv call := by
  unfold Granter.onAssert
  split
  · trivial
  · rename_i h hhandle
    obtain ⟨hgrantee, hkey⟩ := hmember h hhandle
    have hcarries := carries_publishGrant hgrantee hkey
    exact ⟨flagsCoordinator_of_flagged hcarries.flagged, _, rfl, hcarries⟩

/-- The record that is read is the snapshot's, and it flags the grantee. -/
theorem Inv.onRead (h : n.Carries call) : ({ n with stage := n.onRead } : Granter Id).Inv call := by
  obtain ⟨holder, hhandle, hcarries⟩ := h
  obtain ⟨t, ht, hgeneration, hflagged⟩ := hcarries.snapshot
  obtain ⟨key, hkey⟩ := Option.ne_none_iff_exists'.mp hcarries.key
  have hread : n.onRead = .publishing (GroupSnapshot.of t.blob).hash holder.state.generation := by
    simp only [Granter.onRead, hhandle, ht, hkey]
  rw [hread, ← hgeneration]
  exact flagsCoordinator_of_flagged hflagged

theorem Inv.onResolve {attempt generation : ℕ} {hash : Hash} (hflags : FlagsCoordinator (hash, generation) call.grantee)
    (hcarries : n.Carries call) (dht : Option (ℕ × Hash)) :
    ({ n with stage := Granter.onResolve attempt generation hash dht } : Granter Id).Inv call := by
  unfold Granter.onResolve
  split
  · exact hcarries
  · exact ⟨_, rfl, hflags⟩
  · trivial

theorem Inv.onReconverged (attempt : ℕ) :
    ({ n with stage := Granter.onReconverged call attempt } : Granter Id).Inv call := by
  unfold Granter.onReconverged
  split <;> trivial

variable [Pkarr Id]

theorem Inv.step {ev : GrantEvent Id} (hinv : n.Inv call) (hretains : n.Retains call ev)
    (hnext : n.next call ev = some n') : n'.Inv call := by
  cases ev with
  | node ev =>
    obtain ⟨h', hnode, rfl⟩ := Option.map_eq_some_iff.mp hnext
    refine hinv.of_handle rfl fun hbetween hcarries => ?_
    obtain ⟨h, hhandle, hstate⟩ := hcarries
    rw [hhandle] at hnode
    exact ⟨h', rfl, Holder.carries_next hstate (hretains hbetween) hnode⟩
  | leave =>
    cases hnext
    refine hinv.of_handle rfl fun hbetween => ?_
    rw [hretains] at hbetween
    cases hbetween
  | others live =>
    cases hnext
    exact hinv.of_handle rfl fun _ hcarries => hcarries
  | assertFlag =>
    simp only [Granter.next] at hnext
    split at hnext
    · cases hnext
      exact Inv.onAssert call hretains
    · cases hnext
  | resolve resolves =>
    simp only [Granter.next] at hnext
    split at hnext
    · rename_i hstage
      cases hnext
      rw [Inv, hstage] at hinv
      exact Inv.onResolve hinv.1 hinv.2 _
    · cases hnext
  | read =>
    simp only [Granter.next] at hnext
    split at hnext
    · rename_i hstage
      cases hnext
      rw [Inv, hstage] at hinv
      exact Inv.onRead hinv
    · cases hnext
  | publish seedPeers delivery =>
    simp only [Granter.next] at hnext
    split at hnext
    · rename_i hstage
      cases hnext
      rw [Inv, hstage] at hinv
      exact ⟨_, rfl, hinv⟩
    · cases hnext
  | reconverged =>
    simp only [Granter.next] at hnext
    split at hnext
    · cases hnext
      exact Inv.onReconverged _
    · cases hnext

/-- **Grants reach the record**: whatever other tasks do in between, as long as the grantee is a member when it
is flagged and stays on the roster as a coordinator until the record is read, a call that returns `Ok` has
published, or found, a record that flags it. -/
theorem grant_reaches_record {handle : Option (Holder Id)} {live : Option SignedPacket}
    {events : List (GrantEvent Id)}
    (hrun : Run (fun n ev n' => next call n ev = some n') (Retains call) ⟨handle, live, .asserting 1⟩ events n)
    {published : Option (Hash × ℕ)} (hok : n.stage = .returned (.ok published)) :
    ∃ record, published = some record ∧ FlagsCoordinator record call.grantee := by
  have hinv : n.Inv call := hrun.invariant (I := fun _ n => n.Inv call) trivial
    fun _ _ _ _ hinv hretains hnext => hinv.step hretains hnext
  rwa [Inv, hok] at hinv

end Granter

end Tetron.Daemon

namespace Tetron.Daemon.Granter

open Tetron.Membership Tetron.Dht Sample

/-- Alice grants the key to bob; carol is a coordinator already. -/
def bobsGrant : GrantCall Peer := ⟨"mesh", .bob, "62"⟩

noncomputable def beforeGrant : NetworkState Peer :=
  (Sample.state 5 [member .alice true, member .carol true, member .bob false]).refreshSnapshot

noncomputable def recordBefore : SignedPacket :=
  ⟨recordValues (GroupSnapshot.of beforeGrant.blob).hash 5 [Peer.alice]⟩

/-- The call before its first round. -/
noncomputable def granting : Granter Peer := ⟨some ⟨beforeGrant, []⟩, some recordBefore, .asserting 1⟩

/-- It has flagged bob, and found that the record on the DHT is older. -/
noncomputable def afterCheck : Granter Peer := ⟨some ⟨publishGrant beforeGrant .bob, []⟩, some recordBefore, .storing⟩

theorem runs_check {C : Granter Peer → GrantEvent Peer → Prop} (hassert : C granting .assertFlag)
    (hresolve : ∀ n, C n (.resolve true)) :
    Run (fun n ev n' => next bobsGrant n ev = some n') C granting [.assertFlag, .resolve true] afterCheck := by
  have hfirst : Run (fun n ev n' => next bobsGrant n ev = some n') C granting [.assertFlag] _ :=
    Run.nil.snoc hassert rfl
  refine hfirst.snoc (hresolve _) ?_
  have hfound : (resolveNetwork (some recordBefore) true : Option (Hash × ℕ × List Peer)) =
      some (_, 5, [Peer.alice]) := decodeNetworkRecord_recordValues parsesBack _ (by decide) _
  simp only [next, onAssert, granting, hfound, Option.map_some]
  rfl

/-- Bob is a member and nothing unseats him, so the record flags him. -/
theorem grant_reaches_record_bob :
    ∃ n record, Run (fun n ev n' => next bobsGrant n ev = some n') (Retains bobsGrant) granting
        [.assertFlag, .resolve true, .node (.write .updateSnapshot), .read, .publish [.alice] .delivered] n ∧
      n.stage = .returned (.ok (some record)) ∧ FlagsCoordinator record Peer.bob := by
  have hmember : Retains bobsGrant granting .assertFlag := by
    rintro h ⟨⟩
    exact ⟨by decide +kernel, nofun⟩
  have hcheck := runs_check hmember fun _ => trivial
  have hmutate := hcheck.snoc (l := .node (.write .updateSnapshot)) (fun _ => nofun) rfl
  have hread := hmutate.snoc (show Retains bobsGrant _ .read from trivial) rfl
  have hrun := hread.snoc (show Retains bobsGrant _ (.publish [.alice] .delivered) from trivial) rfl
  obtain ⟨record, hpublished, hflags⟩ := grant_reaches_record hrun rfl
  exact ⟨_, record, hrun, congrArg (fun r => GrantStage.returned (.ok r)) hpublished, hflags⟩

/-- The blob of a record that carol publishes while alice's call is between its two locks. -/
def carolsBlob : GroupBlob Peer := Sample.blob 7 [member .alice true, member .carol true, member .bob false]

theorem valid_carolsBlob : carolsBlob.valid = true := by decide +kernel

noncomputable def carolsBytes : Bytes := Msgpack.toVecNamed carolsBlob

/-- Alice's state once her poller has adopted carol's blob. -/
noncomputable def afterCarol : NetworkState Peer :=
  adopt (publishGrant beforeGrant .bob) carolsBlob carolsBlob.members

/-- Carol publishes after alice's check and alice's poller adopts the record. The call then publishes what it
reads, a record in which bob is a plain member, and returns `Ok`. -/
theorem grant_lost_to_adoption :
    ∃ n record, Run (fun n ev n' => next bobsGrant n ev = some n') (fun _ _ => True) granting
        [.assertFlag, .resolve true, .others (some ⟨recordValues (Blake3.hash carolsBytes) 7 [Peer.carol]⟩),
          .node (.apply .poller (Blake3.hash carolsBytes) 7 carolsBytes), .read, .publish [.alice] .delivered] n ∧
      n.stage = .returned (.ok (some record)) ∧ recordSeen Peer n.live = some record ∧
      ¬ FlagsCoordinator record Peer.bob := by
  have hfetched : (fetchedBlob (Blake3.hash carolsBytes) 7 carolsBytes : Option (GroupBlob Peer)) = some carolsBlob :=
    fetchedBlob_toVecNamed roundTrips (fun _ _ h => h) valid_carolsBlob
  have hcheck := runs_check (C := fun _ _ => True) trivial fun _ => trivial
  have hothers := hcheck.snoc (l := .others (some ⟨recordValues (Blake3.hash carolsBytes) 7 [Peer.carol]⟩))
    trivial rfl
  have hnode : next bobsGrant { afterCheck with live := some ⟨recordValues (Blake3.hash carolsBytes) 7 [Peer.carol]⟩ }
      (.node (.apply .poller (Blake3.hash carolsBytes) 7 carolsBytes)) = some
        ⟨some ⟨afterCarol, []⟩, some ⟨recordValues (Blake3.hash carolsBytes) 7 [Peer.carol]⟩, .storing⟩ := by
    simp only [next, onNode, afterCheck, Holder.next, hfetched, Option.bind_some]
    rfl
  have hadopted := hothers.snoc trivial hnode
  have hread := hadopted.snoc (l := .read) trivial rfl
  have hrun := hread.snoc (l := .publish [.alice] .delivered) trivial rfl
  refine ⟨_, (Blake3.hash (Msgpack.toVecNamed afterCarol.blob), 7), hrun, rfl, ?_, ?_⟩
  · exact recordSeen_recordValues parsesBack _ (by decide) [Peer.alice]
  · rintro ⟨b, hhash, -, hlisted⟩
    have hblob : afterCarol.blob = b := GroupBlob.eq_of_hash_eq roundTrips (fun _ _ h => h) hhash
    rw [← hblob] at hlisted
    revert hlisted
    decide +kernel

end Tetron.Daemon.Granter
