import Tetron.Daemon.Adopt
import Tetron.Daemon.PeerTable
import Tetron.Lib.Run

/-!
# Passes of the group poller and of the reconverge worker

Both tasks read the state, resolve the signed record, fetch and verify its blob, look whether the blob
still lists the node, and replace the node's rosters; the reconverge worker then prunes the peers the
roster no longer lists. `Stage` is what a pass holds between two of these steps.

`Converger` is a node on which any number of passes are under way. Between any two steps of one, other
passes, local mutations, and the comings and goings of connections may step.
-/

namespace Tetron.Daemon

open Tetron.Membership

/-- A `spawn_peer_reader` task. It hands in what the peer sends until its connection ends, and then
reports the disconnect with these fields. -/
structure ReaderTask (Id : Type) where
  conn : Connection
  peerId : Id
  peerIp : Ipv4Addr
  peerIpv6 : Ipv6Addr
  network : String

/-- A node in one of its networks, with the data plane its networks share. -/
structure Node (Id : Type) [DecidableEq Id] [Msgpack Id] [Blake3] where
  myIdentity : Id
  networkName : String
  state : NetworkState Id
  peers : PeerTable Id
  /-- The running readers. -/
  readers : List (ReaderTask Id)
  /-- Disconnects that have been reported and not yet handled. -/
  disconnects : List (ReaderTask Id)
  prunedPeers : List (String × Id)

/-- Where a pass is. -/
inductive Stage (Id : Type)
  /-- It has read the state's generation and snapshot hash; the reconverge worker uses only the hash. -/
  | resolving (currentGeneration : ℕ) (currentHash : Option Hash)
  | fetching (signed : Hash) (remoteGeneration : ℕ)
  | fetched (data : GroupBlob Id)
  | checked (data : GroupBlob Id)
  /-- The reconverge worker has written the state and is about to prune. -/
  | pruning (data : GroupBlob Id)
  | applied (data : GroupBlob Id)
  /-- It has signalled `left_tx`. -/
  | left (data : GroupBlob Id)
  | skipped

/-- The blob a pass has fetched. -/
def Stage.blob {Id : Type} : Stage Id → Option (GroupBlob Id)
  | .fetched data | .checked data | .pruning data | .applied data | .left data => some data
  | .resolving .. | .fetching .. | .skipped => none

/-- The record a pass goes on with, judged by what it read of the state. -/
def recordToFetch (path : ApplyPath) (currentGeneration : ℕ) (currentHash : Option Hash)
    (record : Option (Hash × ℕ)) : Option (Hash × ℕ) :=
  record.filter fun (signed, remoteGeneration) =>
    match path with
    | .poller => pollerShouldFetch remoteGeneration signed currentGeneration currentHash
    | .reconverge => (trustedReconvergeHash currentHash signed).isSome

variable {Id : Type} [DecidableEq Id] [Msgpack Id] [Blake3]

namespace Node

/-- The end of a connection ends its reader. -/
def close (n : Node Id) (conn : Connection) : Node Id :=
  { n with
    readers := n.readers.filter fun r => r.conn ≠ conn
    disconnects := n.disconnects ++ n.readers.filter fun r => r.conn = conn }

variable [Endpoint Id]

/-- `register_peer` and `register_mesh_peer`. -/
def registerPeer (n : Node Id) (conn : Connection) (peerId : Id) (ip : Ipv4Addr) : Node Id :=
  let ipv6 := deriveIpv6 peerId n.state.networkPublicKey
  { n with
    peers := n.peers.add ip ipv6 conn peerId n.networkName
    readers := ⟨conn, peerId, ip, ipv6, n.networkName⟩ :: n.readers }

/-- The table's part in handling a disconnect. -/
def onDisconnect (n : Node Id) (event : ReaderTask Id) : Node Id :=
  { n with
    peers := (n.peers.removePeerFromNetworkIf event.peerIp event.peerIpv6 event.network event.conn.stableId).1 }

/-- The body of the loop in `prune_departed_peers`. -/
def prunePeer (n : Node Id) (peer : Id × Ipv4Addr × Connection) : Node Id :=
  if (n.state.members.all.any fun m => m.identity = peer.1) || peer.1 = n.myIdentity then n
  else { n.close peer.2.2 with
    prunedPeers := n.prunedPeers.insert (n.networkName, peer.1)
    peers := n.peers.removePeerFromNetwork peer.2.1 (deriveIpv6 peer.1 n.state.networkPublicKey)
      n.networkName }

def pruneDepartedPeers (n : Node Id) : Node Id :=
  (n.peers.peersForNetworkWithConn n.networkName).foldl prunePeer n

/-- The body of the poller's loop over the members it knew. -/
def dropKicked (data : GroupBlob Id) (n : Node Id) (oldId : Id) : Node Id :=
  if data.ListsMember oldId then n
  else
    match n.state.members.get oldId with
    | some member =>
      { n with peers := n.peers.remove member.ip (deriveIpv6 oldId n.state.networkPublicKey) }
    | none => n

def reconcileRemoved (n : Node Id) (data : GroupBlob Id) : Node Id :=
  (n.state.members.all.map Member.identity).foldl (dropKicked data) n

/-! ### The steps of a pass -/

/-- The tests on a fetched blob. The poller compares no generations here, the reconverge worker does so
after the test for its own removal. -/
def onCheck (n : Node Id) (data : GroupBlob Id) : ApplyPath → Node Id × Stage Id
  | .poller =>
    (n.reconcileRemoved data,
      if memberRemoved data.members data.approved n.myIdentity then .left data else .checked data)
  | .reconverge =>
    (n,
      if memberRemoved data.members data.approved n.myIdentity then .left data
      else if data.generation < n.state.generation then .skipped
      else .checked data)

/-- The write-locked section; `none` if the tie-break finds no free address. -/
def onWrite (n : Node Id) (data : GroupBlob Id) (path : ApplyPath) : Option (Node Id × Stage Id) :=
  (applyBlob path n.state data).map fun state =>
    ({ n with state := state },
      match path with
      | .poller => .applied data
      | .reconverge => .pruning data)

/-- What a pass reads first. -/
def readStage (n : Node Id) : Stage Id :=
  .resolving n.state.generation (n.state.snapshot.map GroupSnapshot.hash)

/-- One step of a pass; resolving takes the record, fetching the served bytes. -/
def advance (n : Node Id) (path : ApplyPath) (record : Option (Hash × ℕ)) (served : Bytes) :
    Stage Id → Option (Node Id × Stage Id)
  | .resolving currentGeneration currentHash =>
    some (n, (recordToFetch path currentGeneration currentHash record).elim .skipped fun r => .fetching r.1 r.2)
  | .fetching signed remoteGeneration =>
    some (n, (fetchedBlob signed remoteGeneration served).elim .skipped .fetched)
  | .fetched data => some (n.onCheck data path)
  | .checked data => n.onWrite data path
  | .pruning data => some (n.pruneDepartedPeers, .applied data)
  | .applied _ | .left _ | .skipped => none

end Node

structure Pass (Id : Type) where
  path : ApplyPath
  stage : Stage Id

structure Converger (Id : Type) [DecidableEq Id] [Msgpack Id] [Blake3] where
  node : Node Id
  passes : List (Pass Id)

inductive ConvergeEvent (Id : Type)
  | mutate (sec : Section Id)
  | register (conn : Connection) (peerId : Id) (ip : Ipv4Addr)
  | lose (conn : Connection)
  | disconnect (i : ℕ)
  | start (path : ApplyPath)
  | advance (i : ℕ) (record : Option (Hash × ℕ)) (served : Bytes)

namespace Converger

variable [Endpoint Id]

def next (c : Converger Id) : ConvergeEvent Id → Option (Converger Id)
  | .mutate sec => some { c with node := { c.node with state := sec.run c.node.state } }
  | .register conn peerId ip => some { c with node := c.node.registerPeer conn peerId ip }
  | .lose conn => some { c with node := c.node.close conn }
  | .disconnect i =>
    c.node.disconnects[i]?.map fun event =>
      { c with node := { c.node.onDisconnect event with disconnects := c.node.disconnects.eraseIdx i } }
  | .start path => some { c with passes := c.passes ++ [⟨path, c.node.readStage⟩] }
  | .advance i record served =>
    c.passes[i]?.bind fun pass =>
      (c.node.advance pass.path record served pass.stage).map fun (node, stage) =>
        ⟨node, c.passes.set i ⟨pass.path, stage⟩⟩

/-- Runs of a node from a state in which no pass is under way. -/
abbrev Runs (C : Converger Id → ConvergeEvent Id → Prop) (n₀ : Node Id) (events : List (ConvergeEvent Id))
    (c : Converger Id) : Prop :=
  Run (fun c ev c' => c.next ev = some c') C ⟨n₀, []⟩ events c

end Converger

/-! ### What the steps of a pass do -/

omit [Blake3] in
theorem le_of_recordToFetch_poller {currentGeneration : ℕ} {currentHash : Option Hash}
    {record : Option (Hash × ℕ)} {r : Hash × ℕ}
    (h : recordToFetch .poller currentGeneration currentHash record = some r) :
    record = some r ∧ currentGeneration ≤ r.2 := by
  obtain ⟨hrecord, hnewer⟩ := Option.filter_eq_some_iff.mp h
  exact ⟨hrecord, le_of_pollerShouldFetch hnewer⟩

namespace Node

variable [Endpoint Id]

/-- The roster does not list the peer, which is not the node itself. -/
def Departed (n : Node Id) (id : Id) : Prop := n.state.members.isMember id = false ∧ id ≠ n.myIdentity

/-- Pruning one peer closes its connection if it has departed. -/
theorem prunePeer_spec (n : Node Id) (peer : Id × Ipv4Addr × Connection) :
    ∃ peers readers disconnects pruned, n.prunePeer peer = { n with
        peers := peers, readers := readers, disconnects := disconnects, prunedPeers := pruned } ∧
      ∀ r, r ∈ readers ↔ r ∈ n.readers ∧ (n.Departed peer.1 → peer.2.2 ≠ r.conn) := by
  have hdeparted : ((n.state.members.all.any fun m => m.identity = peer.1) || peer.1 = n.myIdentity) = true ↔
      ¬ n.Departed peer.1 := by
    rw [Bool.or_eq_true, MemberList.any_all_identity, decide_eq_true_eq, Departed, not_and_or,
      Bool.not_eq_false, not_not]
  unfold prunePeer
  split
  · rename_i h
    exact ⟨n.peers, n.readers, n.disconnects, n.prunedPeers, rfl, fun r => by simp [hdeparted.mp h]⟩
  · rename_i h
    have h := not_not.mp (mt hdeparted.mpr h)
    refine ⟨_, n.readers.filter fun r => r.conn ≠ peer.2.2, _, _, rfl, fun r => ?_⟩
    rw [List.mem_filter, decide_eq_true_eq, ne_comm, forall_prop_of_true h]

theorem foldl_prunePeer_spec (departing : List (Id × Ipv4Addr × Connection)) :
    ∀ n : Node Id, ∃ peers readers disconnects pruned, departing.foldl prunePeer n = { n with
        peers := peers, readers := readers, disconnects := disconnects, prunedPeers := pruned } ∧
      ∀ r, r ∈ readers ↔ r ∈ n.readers ∧ ∀ peer ∈ departing, n.Departed peer.1 → peer.2.2 ≠ r.conn := by
  induction departing with
  | nil => exact fun n => ⟨n.peers, n.readers, n.disconnects, n.prunedPeers, rfl, by simp⟩
  | cons peer departing ih =>
    intro n
    obtain ⟨_, readers₁, _, _, hone, hreaders₁⟩ := prunePeer_spec n peer
    obtain ⟨peers, readers, disconnects, pruned, hrest, hreaders⟩ := ih (n.prunePeer peer)
    refine ⟨peers, readers, disconnects, pruned, ?_, fun r => ?_⟩
    · rw [List.foldl_cons, hrest, hone]
    · rw [hreaders, hone, hreaders₁, and_assoc, List.forall_mem_cons]
      rfl

/-- The poller's reconciliation changes only the peer table. -/
theorem reconcileRemoved_eq (n : Node Id) (data : GroupBlob Id) :
    ∃ peers, n.reconcileRemoved data = { n with peers := peers } := by
  refine List.foldlRecOn (motive := fun m : Node Id => ∃ peers, m = { n with peers := peers }) _ _ ⟨n.peers, rfl⟩ ?_
  rintro _ ⟨peers, rfl⟩ oldId -
  unfold dropKicked
  split
  · exact ⟨peers, rfl⟩
  · split <;> exact ⟨_, rfl⟩

/-- What a step of a pass does. -/
inductive Advances (n : Node Id) (path : ApplyPath) (record : Option (Hash × ℕ)) (served : Bytes) :
    Stage Id → Node Id → Stage Id → Prop
  | skip {stage : Stage Id} : Advances n path record served stage n .skipped
  | resolve {currentGeneration : ℕ} {currentHash : Option Hash} {r : Hash × ℕ}
      (hfetch : recordToFetch path currentGeneration currentHash record = some r) :
      Advances n path record served (.resolving currentGeneration currentHash) n (.fetching r.1 r.2)
  | fetch {signed : Hash} {remoteGeneration : ℕ} {data : GroupBlob Id}
      (hdata : fetchedBlob signed remoteGeneration served = some data) :
      Advances n path record served (.fetching signed remoteGeneration) n (.fetched data)
  | leave {data : GroupBlob Id} {peers : PeerTable Id} (hunlisted : ¬ data.Lists n.myIdentity) :
      Advances n path record served (.fetched data) { n with peers := peers } (.left data)
  | pass {data : GroupBlob Id} {peers : PeerTable Id}
      (hcompared : path = .reconverge → n.state.generation ≤ data.generation) :
      Advances n path record served (.fetched data) { n with peers := peers } (.checked data)
  | write {data : GroupBlob Id} {state : NetworkState Id} {stage : Stage Id}
      (hstate : applyBlob path n.state data = some state)
      (hstage : (path = .poller ∧ stage = .applied data) ∨ (path = .reconverge ∧ stage = .pruning data)) :
      Advances n path record served (.checked data) { n with state := state } stage
  | prune {data : GroupBlob Id} :
      Advances n path record served (.pruning data) n.pruneDepartedPeers (.applied data)

variable {n n' : Node Id} {path : ApplyPath} {record : Option (Hash × ℕ)} {served : Bytes}
  {stage stage' : Stage Id}

theorem advances_onCheck (n : Node Id) (data : GroupBlob Id) (path : ApplyPath) :
    Advances n path record served (.fetched data) (n.onCheck data path).1 (n.onCheck data path).2 := by
  by_cases hremoved : memberRemoved data.members data.approved n.myIdentity
  · have hunlisted := memberRemoved_eq_true.mp hremoved
    cases path with
    | poller =>
      obtain ⟨peers, hpeers⟩ := reconcileRemoved_eq n data
      simp only [onCheck, hremoved, if_true, hpeers]
      exact .leave hunlisted
    | reconverge =>
      simp only [onCheck, hremoved, if_true]
      exact .leave hunlisted
  · cases path with
    | poller =>
      obtain ⟨peers, hpeers⟩ := reconcileRemoved_eq n data
      simp only [onCheck, hremoved, hpeers]
      exact .pass nofun
    | reconverge =>
      by_cases hstale : data.generation < n.state.generation
      · simp only [onCheck, hremoved, hstale, if_true]
        exact .skip
      · simp only [onCheck, hremoved, hstale, if_false]
        exact .pass fun _ => not_lt.mp hstale

theorem advances_of_advance (h : n.advance path record served stage = some (n', stage')) :
    Advances n path record served stage n' stage' := by
  cases stage with
  | resolving currentGeneration currentHash =>
    cases h
    cases hfetch : recordToFetch path currentGeneration currentHash record with
    | none => exact .skip
    | some r => exact .resolve hfetch
  | fetching signed remoteGeneration =>
    cases h
    cases hdata : (fetchedBlob signed remoteGeneration served : Option (GroupBlob Id)) with
    | none => exact .skip
    | some data => exact .fetch hdata
  | fetched data =>
    have hcheck : n.onCheck data path = (n', stage') := Option.some.inj h
    simpa only [hcheck] using advances_onCheck n data path
  | checked data =>
    obtain ⟨state, hstate, heq⟩ := Option.map_eq_some_iff.mp h
    cases heq
    refine .write hstate ?_
    cases path with
    | poller => exact Or.inl ⟨rfl, rfl⟩
    | reconverge => exact Or.inr ⟨rfl, rfl⟩
  | pruning data =>
    cases h
    exact .prune
  | applied | left | skipped => cases h

/-- Only the write of a pass changes the generation: to that of its blob. -/
theorem Advances.generation_eq (h : Advances n path record served stage n' stage') :
    n'.myIdentity = n.myIdentity ∧ (n'.state.generation = n.state.generation ∨
      ∃ data, stage = .checked data ∧ n'.state.generation = data.generation) := by
  cases h with
  | skip | resolve | fetch | leave | pass => exact ⟨rfl, Or.inl rfl⟩
  | write hstate => exact ⟨rfl, Or.inr ⟨_, rfl, (applyBlob_frame hstate).1⟩⟩
  | prune =>
    obtain ⟨_, _, _, _, heq, -⟩ := foldl_prunePeer_spec (n.peers.peersForNetworkWithConn n.networkName) n
    rw [pruneDepartedPeers, heq]
    exact ⟨rfl, Or.inl rfl⟩

/-- A pass keeps the blob it has, and gets one only by fetching. -/
theorem Advances.blob_eq {data : GroupBlob Id} (h : Advances n path record served stage n' stage')
    (hdata : stage'.blob = some data) :
    stage.blob = some data ∨ ∃ signed generation, fetchedBlob signed generation served = some data := by
  cases h with
  | skip | resolve => cases hdata
  | fetch hfetched => exact Or.inr ⟨_, _, hfetched.trans hdata⟩
  | leave | pass | prune => exact Or.inl hdata
  | write _ hstage =>
    rcases hstage with ⟨-, rfl⟩ | ⟨-, rfl⟩
    · exact Or.inl hdata
    · exact Or.inl hdata

end Node

namespace Converger

variable [Endpoint Id] {c c' : Converger Id} {ev : ConvergeEvent Id} {i : ℕ}
  {record : Option (Hash × ℕ)} {served : Bytes} {C : Converger Id → ConvergeEvent Id → Prop} {n₀ : Node Id}
  {events : List (ConvergeEvent Id)}

theorem next_advance (h : c.next (.advance i record served) = some c') :
    ∃ path before node stage, c.passes[i]? = some ⟨path, before⟩ ∧
      c.node.Advances path record served before node stage ∧
      c' = ⟨node, c.passes.set i ⟨path, stage⟩⟩ := by
  obtain ⟨pass, hpass, h⟩ := Option.bind_eq_some_iff.mp h
  obtain ⟨⟨node, stage⟩, hadvance, rfl⟩ := Option.map_eq_some_iff.mp h
  exact ⟨pass.path, pass.stage, node, stage, hpass, Node.advances_of_advance hadvance, rfl⟩

/-- Steps other than those of a pass, and than local mutations, leave the state and the passes alone. -/
theorem next_dataPlane (h : c.next ev = some c') :
    (∃ sec, ev = .mutate sec) ∨ (∃ path, ev = .start path) ∨ (∃ i record served, ev = .advance i record served) ∨
      (c'.node.state = c.node.state ∧ c'.node.myIdentity = c.node.myIdentity ∧ c'.passes = c.passes) := by
  cases ev with
  | mutate sec => exact Or.inl ⟨sec, rfl⟩
  | start path => exact Or.inr (Or.inl ⟨path, rfl⟩)
  | advance i record served => exact Or.inr (Or.inr (Or.inl ⟨i, record, served, rfl⟩))
  | register | lose =>
    cases h
    exact Or.inr (Or.inr (Or.inr ⟨rfl, rfl, rfl⟩))
  | disconnect i =>
    obtain ⟨event, -, rfl⟩ := Option.map_eq_some_iff.mp h
    exact Or.inr (Or.inr (Or.inr ⟨rfl, rfl, rfl⟩))

theorem myIdentity_next (h : c.next ev = some c') : c'.node.myIdentity = c.node.myIdentity := by
  rcases next_dataPlane h with ⟨sec, rfl⟩ | ⟨path, rfl⟩ | ⟨i, record, served, rfl⟩ | ⟨-, heq, -⟩
  · cases h
    rfl
  · cases h
    rfl
  · obtain ⟨path, before, node, stage, -, hadvance, rfl⟩ := next_advance h
    exact hadvance.generation_eq.1
  · exact heq

/-- A property of every pass, relative to the generation of the state, is kept by a step if a pass starts
with it, the pass that steps keeps it, and the others keep it when the generation is written. -/
theorem forall_pass_next {P : ℕ → Pass Id → Prop} (hP : ∀ pass ∈ c.passes, P c.node.state.generation pass)
    (hread : ∀ path, P c.node.state.generation ⟨path, c.node.readStage⟩)
    (hmutate : ∀ sec, ev = .mutate sec → ∀ pass ∈ c.passes, P (sec.run c.node.state).generation pass)
    (hwrite : ∀ i record served path data, ev = .advance i record served →
      c.passes[i]? = some ⟨path, .checked data⟩ → ∀ pass ∈ c.passes, P data.generation pass)
    (hstep : ∀ i record served path before node stage, ev = .advance i record served →
      c.passes[i]? = some ⟨path, before⟩ → c.node.Advances path record served before node stage →
      P node.state.generation ⟨path, stage⟩)
    (h : c.next ev = some c') : ∀ pass ∈ c'.passes, P c'.node.state.generation pass := by
  rcases next_dataPlane h with ⟨sec, rfl⟩ | ⟨path, rfl⟩ | ⟨i, record, served, rfl⟩ | ⟨hstate, -, hpasses⟩
  · cases h
    exact hmutate sec rfl
  · cases h
    intro pass hpass
    rcases List.mem_append.mp hpass with hold | hnew
    · exact hP pass hold
    · exact List.mem_singleton.mp hnew ▸ hread path
  · obtain ⟨path, before, node, stage, hpass, hadvance, rfl⟩ := next_advance h
    intro other hother
    rcases List.mem_or_eq_of_mem_set hother with hold | rfl
    · rcases hadvance.generation_eq.2 with heq | ⟨data, rfl, heq⟩
      · rw [heq]
        exact hP other hold
      · rw [heq]
        exact hwrite i record served path data rfl hpass other hold
    · exact hstep i record served path before node stage rfl hpass hadvance
  · rw [hstate, hpasses]
    exact hP

/-- Every blob of a pass has been verified against a signed hash. -/
def Verified (c : Converger Id) : Prop :=
  ∀ pass ∈ c.passes, ∀ data, pass.stage.blob = some data →
    ∃ signed generation served, fetchedBlob signed generation served = some data

theorem Verified.next (hverified : c.Verified) (h : c.next ev = some c') : c'.Verified := by
  refine forall_pass_next (P := fun _ pass => ∀ data, pass.stage.blob = some data →
    ∃ signed generation served, fetchedBlob signed generation served = some data) hverified
    (fun _ _ h => nomatch h) (fun _ _ => hverified) (fun _ _ _ _ _ _ _ => hverified) ?_ h
  intro i record served path before node stage _ hpass hadvance data hdata
  rcases hadvance.blob_eq hdata with hold | ⟨signed, generation, hfetched⟩
  · exact hverified _ (List.mem_of_getElem? hpass) data hold
  · exact ⟨signed, generation, served, hfetched⟩

theorem Runs.verified (hrun : Runs C n₀ events c) : c.Verified :=
  hrun.invariant (I := fun _ c => c.Verified) (fun _ hpass => nomatch hpass)
    fun _ _ _ _ hverified _ h => hverified.next h

theorem Runs.step (hrun : Runs C n₀ events c) (ev : ConvergeEvent Id) (hmeets : C c ev) (h : c.next ev = some c') :
    Runs C n₀ (events ++ [ev]) c' :=
  Run.snoc hrun hmeets h

end Converger

/-! ### Passes that get the record and the bytes of a blob -/

section Served

variable {data : GroupBlob Id} {path : ApplyPath}

/-- The hash and the generation a signed record of the blob has. -/
def recordOf (data : GroupBlob Id) : Hash × ℕ := (Blake3.hash (Msgpack.toVecNamed data), data.generation)

omit [DecidableEq Id] in
/-- The poller goes on with a record above the generation it read. -/
theorem recordToFetch_poller {currentGeneration : ℕ} {currentHash : Option Hash}
    (hnewer : currentGeneration < data.generation) :
    recordToFetch .poller currentGeneration currentHash (some (recordOf data)) = some (recordOf data) := by
  rw [recordToFetch, Option.filter_eq_some_iff]
  exact ⟨rfl, by simp [recordOf, pollerShouldFetch, hnewer.not_gt, hnewer.ne']⟩

/-- The reconverge worker goes on with the record of a blob of any other generation. -/
theorem recordToFetch_reconverge (hrt : Msgpack.RoundTrips Id) (hinj : Function.Injective Blake3.hash)
    {s : NetworkState Id} (hsealed : s.Sealed) (data : GroupBlob Id) (hne : s.generation ≠ data.generation)
    {currentGeneration : ℕ} :
    recordToFetch .reconverge currentGeneration (s.snapshot.map GroupSnapshot.hash) (some (recordOf data)) =
      some (recordOf data) := by
  obtain ⟨blob, hsnapshot, hgeneration, -⟩ := hsealed
  rw [recordToFetch, Option.filter_eq_some_iff]
  refine ⟨rfl, ?_⟩
  change (trustedReconvergeHash (s.snapshot.map GroupSnapshot.hash) _).isSome = true
  rw [hsnapshot, Option.map_some, trustedReconvergeHash, if_neg, Option.isSome_some]
  intro hhash
  have hbytes := hinj (Option.some.inj hhash)
  have hblob : some blob = some data := by rw [← hrt blob, ← hrt data, ← hbytes]
  exact hne (hgeneration ▸ congrArg GroupBlob.generation (Option.some.inj hblob))

variable [Endpoint Id] {c : Converger Id} {i : ℕ}

theorem Converger.next_resolve {currentGeneration : ℕ} {currentHash : Option Hash} {r : Hash × ℕ} {served : Bytes}
    (hpass : c.passes[i]? = some ⟨path, .resolving currentGeneration currentHash⟩)
    (hfetch : recordToFetch path currentGeneration currentHash (some r) = some r) :
    c.next (.advance i (some r) served) = some ⟨c.node, c.passes.set i ⟨path, .fetching r.1 r.2⟩⟩ := by
  simp only [next, hpass, Option.bind_some, Node.advance, hfetch, Option.elim_some, Option.map_some]

theorem Converger.next_fetch (hrt : Msgpack.RoundTrips Id) (hinj : Function.Injective Blake3.hash)
    (hvalid : data.valid = true) {record : Option (Hash × ℕ)}
    (hpass : c.passes[i]? = some ⟨path, .fetching (recordOf data).1 (recordOf data).2⟩) :
    c.next (.advance i record (Msgpack.toVecNamed data)) = some ⟨c.node, c.passes.set i ⟨path, .fetched data⟩⟩ := by
  simp only [next, hpass, Option.bind_some, Node.advance, recordOf, fetchedBlob_toVecNamed hrt hinj hvalid,
    Option.elim_some, Option.map_some]

end Served

end Tetron.Daemon
