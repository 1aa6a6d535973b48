import Tetron.Daemon.Converge

/-!
# Readers of kicked peers

A kicked peer sends packets in through the reader of its connection. The group poller drops the routes
of members the new blob no longer lists and leaves their connections open; the reconverge worker closes
the connections it finds in the IPv4 table. So a reader for an unlisted peer outlives the application of
a blob unless the worker applied it and finds the reader's connection there, under an identity the roster
does not list (`severed_iff`). This holds however the pass was interleaved.
-/

namespace Tetron.Daemon

open Tetron.Membership

variable {Id : Type} [DecidableEq Id] [Msgpack Id] [Blake3]

namespace Node

/-- A running reader of this network for a peer that the blob does not list as a member, other than the
node itself. -/
def Intruder (n : Node Id) (data : GroupBlob Id) (r : ReaderTask Id) : Prop :=
  r ∈ n.readers ∧ r.network = n.networkName ∧ r.peerId ≠ n.myIdentity ∧ ¬ data.ListsMember r.peerId

/-- The connection is registered for this network under an identity that is not on the roster, nor the
node's own. -/
def Prunable (n : Node Id) (conn : Connection) : Prop :=
  ∃ ip e, n.peers.v4.get? ip = some e ∧ e.conns.get? n.networkName = some conn ∧ n.Departed e.endpointId

variable [Endpoint Id] {n : Node Id}

/-- Pruning ends the readers of prunable connections, and no others. -/
theorem pruneDepartedPeers_spec (n : Node Id) :
    ∃ peers readers disconnects pruned, n.pruneDepartedPeers = { n with
        peers := peers, readers := readers, disconnects := disconnects, prunedPeers := pruned } ∧
      ∀ r, r ∈ readers ↔ r ∈ n.readers ∧ ¬ n.Prunable r.conn := by
  obtain ⟨peers, readers, disconnects, pruned, heq, hreaders⟩ :=
    foldl_prunePeer_spec (n.peers.peersForNetworkWithConn n.networkName) n
  refine ⟨peers, readers, disconnects, pruned, heq, fun r => ?_⟩
  rw [hreaders]
  refine and_congr_right fun _ => ⟨?_, ?_⟩
  · rintro hopen ⟨ip, e, hget, hconn, hdeparted⟩
    exact hopen _ (PeerTable.mem_peersForNetworkWithConn.mpr ⟨e, hget, rfl, hconn⟩) hdeparted rfl
  · rintro hkeep ⟨id, ip, conn⟩ hmem hdeparted rfl
    obtain ⟨e, hget, rfl, hconn⟩ := PeerTable.mem_peersForNetworkWithConn.mp hmem
    exact hkeep ⟨ip, e, hget, hconn, hdeparted⟩

theorem intruder_prune (data : GroupBlob Id) (r : ReaderTask Id) :
    n.pruneDepartedPeers.Intruder data r ↔ n.Intruder data r ∧ ¬ n.Prunable r.conn := by
  obtain ⟨peers, readers, disconnects, pruned, heq, hreaders⟩ := pruneDepartedPeers_spec n
  rw [heq, Intruder, Intruder, hreaders, and_assoc, and_assoc, and_comm (a := ¬ n.Prunable r.conn), and_assoc,
    and_assoc]

end Node

namespace Converger

variable [Endpoint Id] {c c' : Converger Id} {n₀ : Node Id} {events : List (ConvergeEvent Id)}
  {i : ℕ} {record : Option (Hash × ℕ)} {served : Bytes} {path : ApplyPath} {data : GroupBlob Id}

/-- Only the reconverge worker prunes. -/
theorem Runs.prunes {C : Converger Id → ConvergeEvent Id → Prop} (hrun : Runs C n₀ events c) :
    ∀ pass ∈ c.passes, pass.stage = .pruning data → pass.path = .reconverge := by
  refine hrun.invariant (I := fun _ c => ∀ pass ∈ c.passes, pass.stage = .pruning data → pass.path = .reconverge)
    (fun _ hpass => nomatch hpass) fun _ c _ _ hprunes _ h => ?_
  refine forall_pass_next (P := fun _ pass => pass.stage = .pruning data → pass.path = .reconverge) hprunes
    (fun _ h => nomatch h) (fun _ _ => hprunes) (fun _ _ _ _ _ _ _ => hprunes) ?_ h
  intro i record served path before node stage _ _ hadvance hstage
  cases hadvance with
  | write _ hwritten =>
    rcases hwritten with ⟨-, rfl⟩ | ⟨hpath, -⟩
    · cases hstage
    · exact hpath
  | _ => cases hstage

/-- **Severing kicked peers.** Whenever, in any run, a pass completes the application of a blob, the blob
has been verified, and no reader runs for an unlisted peer if and only if the pass is the reconverge
worker's and the connections of all such readers are prunable. -/
theorem severed_iff (hrun : Runs (fun _ _ => True) n₀ events c) (h : c.next (.advance i record served) = some c')
    (happlied : c'.passes[i]? = some ⟨path, .applied data⟩) :
    (∃ signed generation served, fetchedBlob signed generation served = some data) ∧
      ((∀ r, ¬ c'.node.Intruder data r) ↔
        ∀ r, c.node.Intruder data r → path = .reconverge ∧ c.node.Prunable r.conn) := by
  have hverified := hrun.verified.next h _ (List.mem_of_getElem? happlied) data rfl
  obtain ⟨path', before, node, stage, hpass, hadvance, rfl⟩ := next_advance h
  rw [List.getElem?_set_self (List.getElem?_eq_some_iff.mp hpass).1] at happlied
  cases happlied
  refine ⟨hverified, ?_⟩
  cases hadvance with
  | write _ hstage =>
    obtain ⟨rfl, -⟩ := hstage.resolve_right fun h => nomatch h.2
    exact ⟨fun hnone r hr => absurd hr (hnone r), fun hall r hr => nomatch (hall r hr).1⟩
  | prune =>
    obtain rfl := hrun.prunes _ (List.mem_of_getElem? hpass) rfl
    simp only [Node.intruder_prune, not_and, not_not, true_and]

end Converger

end Tetron.Daemon

/-! ### mallory is kicked -/

namespace Tetron.Daemon.Converger

open Tetron.Membership Sample

/-- bob's connection to mallory. -/
def mallorysReader : ReaderTask Peer where
  conn := ⟨7⟩
  peerId := .mallory
  peerIp := deriveIp Peer.mallory defaultSubnet
  peerIpv6 := deriveIpv6 Peer.mallory .alice
  network := "mesh"

noncomputable def bobAlone : Node Peer where
  myIdentity := .bob
  networkName := "mesh"
  state := { Sample.state 1 [member .alice true, member .bob false, member .mallory false] with
    networkSecretKey := none }.refreshSnapshot
  peers := .new
  readers := []
  disconnects := []
  prunedPeers := []

noncomputable def bobConnected : Node Peer := bobAlone.registerPeer ⟨7⟩ .mallory mallorysReader.peerIp

def kickBlob : GroupBlob Peer := blob 2 [member .alice true, member .bob false]

/-- mallory connects, and a pass of either task fetches the blob that kicks it. -/
theorem runs_kick (path : ApplyPath) :
    ∃ events, Runs (fun _ _ => True) bobAlone events ⟨bobConnected, [⟨path, .fetched kickBlob⟩]⟩ := by
  have hregistered : Runs (fun _ _ => True) bobAlone _ _ :=
    Runs.step .nil (.register ⟨7⟩ .mallory mallorysReader.peerIp) trivial rfl
  have hfetch : recordToFetch path 1 (bobConnected.state.snapshot.map GroupSnapshot.hash) (some (recordOf kickBlob)) =
      some (recordOf kickBlob) := by
    cases path with
    | poller => exact recordToFetch_poller (by decide)
    | reconverge =>
      exact recordToFetch_reconverge roundTrips Function.injective_id
        (NetworkState.sealed_refreshSnapshot _) kickBlob (by decide)
  have hresolved := (hregistered.step (.start path) trivial rfl).step (.advance 0 (some (recordOf kickBlob)) [])
    trivial (next_resolve rfl hfetch)
  exact ⟨_, hresolved.step (.advance 0 none (Msgpack.toVecNamed kickBlob)) trivial
    (next_fetch roundTrips Function.injective_id (by decide +kernel) rfl)⟩

theorem severed_iff_mallory : ∃ events, ∃ c c' : Converger Peer, Runs (fun _ _ => True) bobAlone events c ∧
    c.next (.advance 0 none []) = some c' ∧ c'.passes[0]? = some ⟨.reconverge, .applied kickBlob⟩ ∧
    c.node.Intruder kickBlob mallorysReader ∧ ∀ r, ¬ c'.node.Intruder kickBlob r := by
  obtain ⟨_, hfetched⟩ := runs_kick .reconverge
  obtain ⟨state, hstate⟩ : ∃ state, applyBlob .reconverge bobConnected.state kickBlob = some state :=
    Option.isSome_iff_exists.mp (by decide +kernel)
  have hchecked := hfetched.step (.advance 0 none []) trivial rfl
  have hwrite : Converger.next ⟨bobConnected, [⟨.reconverge, .checked kickBlob⟩]⟩ (.advance 0 none []) =
      some ⟨{ bobConnected with state := state }, [⟨.reconverge, .pruning kickBlob⟩]⟩ := by
    simp [next, Node.advance, Node.onWrite, hstate]
  have hprune : Converger.next ⟨{ bobConnected with state := state }, [⟨.reconverge, .pruning kickBlob⟩]⟩
      (.advance 0 none []) = some ⟨Node.pruneDepartedPeers { bobConnected with state := state },
        [⟨.reconverge, .applied kickBlob⟩]⟩ := rfl
  have hwritten := hchecked.step (.advance 0 none []) trivial hwrite
  have hother : Peer.mallory ≠ .bob := by decide
  refine ⟨_, _, _, hwritten, hprune, rfl, ⟨List.mem_singleton_self _, rfl, hother, by decide⟩,
    (severed_iff hwritten hprune rfl).2.mpr ?_⟩
  rintro r ⟨hr, -, -, -⟩
  obtain rfl := List.mem_singleton.mp hr
  have hgone : state.members.isMember .mallory = false :=
    Bool.eq_false_iff.mpr (mt (isMember_applyBlob_reconverge hstate).mp (by decide))
  exact ⟨rfl, mallorysReader.peerIp, ⟨.mallory, HashTable.insert ∅ "mesh" ⟨7⟩⟩, rfl, rfl, hgone, hother⟩

/-- The poller drops mallory's route. What mallory sends is still handed in. -/
theorem kicked_reader_survives : ∃ events, ∃ c c' : Converger Peer, Runs (fun _ _ => True) bobAlone events c ∧
    c.next (.advance 0 none []) = some c' ∧ c'.passes[0]? = some ⟨.poller, .applied kickBlob⟩ ∧
    c'.node.Intruder kickBlob mallorysReader := by
  obtain ⟨_, hfetched⟩ := runs_kick .poller
  have hchecked := hfetched.step (.advance 0 none []) trivial rfl
  have hkept : (bobConnected.reconcileRemoved kickBlob).Intruder kickBlob mallorysReader := by
    obtain ⟨peers, hpeers⟩ := Node.reconcileRemoved_eq bobConnected kickBlob
    rw [hpeers]
    exact ⟨List.mem_singleton_self _, rfl, nofun, by decide⟩
  exact ⟨_, _, _, hchecked, rfl, rfl, hkept⟩

end Tetron.Daemon.Converger
