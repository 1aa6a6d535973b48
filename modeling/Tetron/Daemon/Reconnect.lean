import Tetron.Daemon.Converge

/-!
# Pruning and redialing peers

Four tasks share a network's routes. The reconverge worker prunes the peers its roster no longer lists: it
enters a peer in `pruned_peers`, closes the connection and removes the route. The disconnect handler removes
the route of a connection that ended and, unless the peer left or has an entry in `pruned_peers`, starts a
redial task. The redial task sleeps, looks whether the roster still lists the peer, connects, sends its hello,
and registers the route. The roster changes under all three.

`Redialer` is a node with its tasks in progress. A step takes one task over what it does without waiting for
another party, and a prune peer by peer from one shared structure to the next. The loop of a member and the
handler of a coordinator differ in two places, under `coordinator`.
-/

namespace Tetron.Daemon

open Tetron.Membership

inductive CloseReason
  | left
  | kicked
  | other
deriving DecidableEq

def CloseReason.prunesMember : CloseReason → Bool
  | .left => true
  | .kicked | .other => false

theorem CloseReason.prunesMember_eq_false {reason : CloseReason} (h : reason ≠ .left) :
    reason.prunesMember = false := by
  cases reason with
  | left => exact absurd rfl h
  | kicked | other => rfl

inductive ReconnectDecision
  | reconnect
  | ignoreStaleDisconnect
  | peerLeftDeliberately
  | peerRemovedFromRoster
deriving DecidableEq

def reconnectDecision (removed prunesMember wasPrunedLocally : Bool) : ReconnectDecision :=
  if !removed then .ignoreStaleDisconnect
  else if prunesMember then .peerLeftDeliberately
  else if wasPrunedLocally then .peerRemovedFromRoster
  else .reconnect

theorem reconnectDecision_eq_reconnect {removed prunesMember wasPrunedLocally : Bool} :
    reconnectDecision removed prunesMember wasPrunedLocally = .reconnect ↔
      removed = true ∧ prunesMember = false ∧ wasPrunedLocally = false := by
  cases removed <;> cases prunesMember <;> cases wasPrunedLocally <;> decide

inductive DialRetryDecision
  | keepDialing
  | abandonPeerGone
deriving DecidableEq

def dialRetryDecision (inRoster wasPrunedLocally : Bool) : DialRetryDecision :=
  if !inRoster || wasPrunedLocally then .abandonPeerGone else .keepDialing

theorem dialRetryDecision_eq_keepDialing {inRoster wasPrunedLocally : Bool} :
    dialRetryDecision inRoster wasPrunedLocally = .keepDialing ↔ inRoster = true ∧ wasPrunedLocally = false := by
  cases inRoster <;> cases wasPrunedLocally <;> decide

theorem DialRetryDecision.eq_keepDialing {d : DialRetryDecision} (h : d ≠ .abandonPeerGone) : d = .keepDialing := by
  cases d with
  | keepDialing => rfl
  | abandonPeerGone => exact absurd rfl h

/-- The address a reconnect registers the peer under. -/
def reconnectRouteIp {Id : Type} (roster : Option (Member Id)) (stored : Ipv4Addr) : Ipv4Addr :=
  (resolveHelloIp roster none).getD stored

structure DisconnectEvent (Id : Type) where
  endpointId : Id
  ip : Ipv4Addr
  ipv6 : Ipv6Addr
  network : String
  reason : CloseReason
  /-- `none` for the event that starts the dials of a cold restore. -/
  connStableId : Option ℕ
deriving DecidableEq

/-- What a reader reports when its connection ends. -/
def ReaderTask.report {Id : Type} (r : ReaderTask Id) (reason : CloseReason) : DisconnectEvent Id :=
  ⟨r.peerId, r.peerIp, r.peerIpv6, r.network, reason, some r.conn.stableId⟩

/-! ### The tasks -/

/-- How far the loop body of `prune_departed_peers` is with one peer. -/
inductive PruneStage
  | listed
  /-- The roster has been read and does not list the peer. -/
  | departed
  | suppressed
  | closed
deriving DecidableEq

structure PruneTask (Id : Type) where
  peer : Id × Ipv4Addr × Connection
  stage : PruneStage

/-- How far a redial task is with an attempt. -/
inductive DialStage
  /-- It sleeps before the next attempt. -/
  | waiting
  /-- The roster has been read, and lists the peer; the connect is awaited. -/
  | connecting (ip : Ipv4Addr)
  /-- The stream is being opened and the hello sent. -/
  | greeting (ip : Ipv4Addr) (conn : Connection)
deriving DecidableEq

structure DialTask (Id : Type) where
  peerId : Id
  /-- The address of the event that started the task. -/
  peerIp : Ipv4Addr
  peerIpv6 : Ipv6Addr
  stage : DialStage

/-- What a redial task waits for. -/
inductive DialInput
  | wake
  | connected (conn : Connection)
  /-- The connect, the stream or the hello failed. -/
  | failed
  | greeted

variable {Id : Type} [DecidableEq Id] [Msgpack Id] [Blake3]

structure Redialer (Id : Type) [DecidableEq Id] [Msgpack Id] [Blake3] where
  node : Node Id
  coordinator : Bool
  /-- The disconnect whose route the handler has removed, and on which it has not decided yet. A coordinator
  publishes and broadcasts in between. -/
  handling : Option (DisconnectEvent Id)
  prunes : List (PruneTask Id)
  dials : List (DialTask Id)
  /-- This network's part of `dial_in_flight`. -/
  dialInFlight : List Id

/-- The ways a roster is written: by a local section, or with the roster of a verified blob. -/
inductive RosterUpdate (Id : Type)
  | mutate (sec : Section Id)
  | adopt (path : ApplyPath) (data : GroupBlob Id)

inductive RedialEvent (Id : Type)
  | update (u : RosterUpdate Id)
  /-- The poller drops the routes of the members a fetched blob does not list. -/
  | reconcile (data : GroupBlob Id)
  | register (conn : Connection) (peerId : Id) (ip : Ipv4Addr)
  | lose (conn : Connection)
  | disconnect (i : ℕ) (reason : CloseReason) (now : ℕ)
  | coldRestore (peerId : Id) (ip : Ipv4Addr) (now : ℕ)
  | decide
  | startPrune
  | prune (i : ℕ)
  | dial (i : ℕ) (input : DialInput)
  /-- Another of the node's dials takes or returns a peer's claim. -/
  | claim (peerId : Id)
  | release (peerId : Id)

/-- A task's entry after a step; `none` if the step ended it. -/
def replaceAt {α : Type} (tasks : List α) (i : ℕ) : Option α → List α
  | some task => tasks.set i task
  | none => tasks.eraseIdx i

omit [Blake3] in
theorem mem_of_mem_replaceAt {α : Type} {tasks : List α} {i : ℕ} {new : Option α} {task : α}
    (h : task ∈ replaceAt tasks i new) : task ∈ tasks ∨ new = some task := by
  cases new with
  | none => exact Or.inl (List.mem_of_mem_eraseIdx h)
  | some t => exact (List.mem_or_eq_of_mem_set h).imp_right fun heq => congrArg some heq.symm

namespace Node

/-- Take a peer's entry out of `pruned_peers`; whether there was one. -/
def consumePruned (n : Node Id) (id : Id) : Node Id × Bool :=
  ({ n with prunedPeers := n.prunedPeers.filter fun entry => entry ≠ (n.networkName, id) },
    decide ((n.networkName, id) ∈ n.prunedPeers))

def addRoute (n : Node Id) (conn : Connection) (peerId : Id) (ip : Ipv4Addr) (ipv6 : Ipv6Addr) : Node Id :=
  { n with
    peers := n.peers.add ip ipv6 conn peerId n.networkName
    readers := ⟨conn, peerId, ip, ipv6, n.networkName⟩ :: n.readers }

/-- The route's removal, and whether the event was for the route's connection. -/
def removeRoute (n : Node Id) (event : DisconnectEvent Id) : PeerTable Id × Bool :=
  match event.connStableId with
  | some id => n.peers.removePeerFromNetworkIf event.ip event.ipv6 event.network id
  | none => (n.peers.removePeerFromNetwork event.ip event.ipv6 event.network, true)

variable [Endpoint Id]

def advancePrune (n : Node Id) (task : PruneTask Id) : Node Id × Option (PruneTask Id) :=
  match task.stage with
  | .listed =>
    if (n.state.members.all.any fun m => m.identity = task.peer.1) || task.peer.1 = n.myIdentity then (n, none)
    else (n, some { task with stage := .departed })
  | .departed =>
    ({ n with prunedPeers := n.prunedPeers.insert (n.networkName, task.peer.1) },
      some { task with stage := .suppressed })
  | .suppressed => (n.close task.peer.2.2, some { task with stage := .closed })
  | .closed =>
    ({ n with
        peers := n.peers.removePeerFromNetwork task.peer.2.1 (deriveIpv6 task.peer.1 n.state.networkPublicKey)
          n.networkName }, none)

/-- A prune that nothing interrupts. -/
theorem prunePeer_eq_advancePrune (n : Node Id) (peer : Id × Ipv4Addr × Connection) :
    n.prunePeer peer = (Nat.iterate (fun p : Node Id × Option (PruneTask Id) => p.2.elim p p.1.advancePrune) 4
      (n, some ⟨peer, .listed⟩)).1 := by
  by_cases hstays : ((n.state.members.all.any fun m => m.identity = peer.1) || peer.1 = n.myIdentity) = true
  · simp [prunePeer, advancePrune, hstays]
  · simp [prunePeer, advancePrune, hstays, close]

/-- A prune enters in `pruned_peers` the peer it found missing from the roster, and nothing else. -/
theorem advancePrune_spec (n : Node Id) (task : PruneTask Id) :
    (n.advancePrune task).1.networkName = n.networkName ∧ (n.advancePrune task).1.state = n.state ∧
      (∀ entry ∈ (n.advancePrune task).1.prunedPeers,
        entry ∈ n.prunedPeers ∨ task.stage = .departed ∧ entry = (n.networkName, task.peer.1)) ∧
      ∀ task', (n.advancePrune task).2 = some task' → task'.stage = .departed →
        task'.peer.1 = task.peer.1 ∧ n.state.members.isMember task.peer.1 = false := by
  obtain ⟨peer, stage⟩ := task
  cases stage with
  | listed =>
    unfold advancePrune
    dsimp only
    split
    · exact ⟨rfl, rfl, fun _ h => Or.inl h, nofun⟩
    · rename_i hdeparted
      rw [MemberList.any_all_identity, Bool.or_eq_true, not_or, Bool.not_eq_true] at hdeparted
      refine ⟨rfl, rfl, fun _ h => Or.inl h, ?_⟩
      rintro _ ⟨⟩ -
      exact ⟨rfl, hdeparted.1⟩
  | departed =>
    refine ⟨rfl, rfl, fun entry h => ?_, by rintro _ ⟨⟩ ⟨⟩⟩
    exact (List.mem_insert_iff.mp h).symm.imp_right fun heq => ⟨rfl, heq⟩
  | suppressed => exact ⟨rfl, rfl, fun _ h => Or.inl h, by rintro _ ⟨⟩ ⟨⟩⟩
  | closed => exact ⟨rfl, rfl, fun _ h => Or.inl h, nofun⟩

end Node

namespace Redialer

variable [Endpoint Id]

/-- The first half of handling a disconnect. A stale one is dropped; a coordinator writes its roster. -/
def onDisconnect (d : Redialer Id) (event : DisconnectEvent Id) (now : ℕ) : Redialer Id :=
  if (d.node.removeRoute event).2 then
    { d with
      node := { d.node with
        peers := (d.node.removeRoute event).1
        state :=
          if d.coordinator then peerCleanup d.node.state event.endpointId event.reason.prunesMember now
          else d.node.state }
      handling := some event }
  else d

/-- The task a disconnect starts. A coordinator derives the IPv6 address again. -/
def dialTask (d : Redialer Id) (event : DisconnectEvent Id) : DialTask Id where
  peerId := event.endpointId
  peerIp := event.ip
  peerIpv6 :=
    if d.coordinator then deriveIpv6 event.endpointId d.node.state.networkPublicKey else event.ipv6
  stage := .waiting

/-- The second half. A member's loop goes on before it takes the entry of a peer that left. -/
def onDecide (d : Redialer Id) (event : DisconnectEvent Id) : Redialer Id :=
  if event.reason.prunesMember && !d.coordinator then { d with handling := none }
  else
    let (node, wasPrunedLocally) := d.node.consumePruned event.endpointId
    { d with
      node := node
      handling := none
      dials :=
        if reconnectDecision true event.reason.prunesMember wasPrunedLocally = .reconnect then
          d.dialTask event :: d.dials
        else d.dials }

/-- What a redial task does between its sleep and the connect. -/
def attempt (d : Redialer Id) (task : DialTask Id) : Redialer Id × Option (DialTask Id) :=
  let member := d.node.state.members.get task.peerId
  let (node, wasPruned) := d.node.consumePruned task.peerId
  if dialRetryDecision member.isSome wasPruned = .abandonPeerGone then ({ d with node := node }, none)
  else if (node.peers.peersForNetworkWithConn node.networkName).any fun p => p.1 = task.peerId then
    ({ d with node := node }, none)
  else if task.peerId ∈ d.dialInFlight then ({ d with node := node }, some task)
  else
    ({ d with node := node, dialInFlight := task.peerId :: d.dialInFlight },
      some { task with stage := .connecting (reconnectRouteIp member task.peerIp) })

/-- The claim goes when the attempt ends, whichever way. -/
def advanceDial (d : Redialer Id) (task : DialTask Id) : DialInput → Option (Redialer Id × Option (DialTask Id))
  | .wake => if task.stage = .waiting then some (d.attempt task) else none
  | .connected conn =>
    match task.stage with
    | .connecting ip => some (d, some { task with stage := .greeting ip conn })
    | .waiting | .greeting .. => none
  | .failed =>
    if task.stage = .waiting then none
    else some ({ d with dialInFlight := d.dialInFlight.erase task.peerId }, some { task with stage := .waiting })
  | .greeted =>
    match task.stage with
    | .greeting ip conn =>
      some ({ d with
        node := d.node.addRoute conn task.peerId ip task.peerIpv6
        dialInFlight := d.dialInFlight.erase task.peerId }, none)
    | .waiting | .connecting _ => none

end Redialer

/-- Who is listed after a coordinator has handled a disconnect. -/
theorem isMember_peerCleanup (s : NetworkState Id) (id id' : Id) (prunesMember : Bool) (now : ℕ) :
    (peerCleanup s id prunesMember now).members.isMember id' =
      (s.members.isMember id' && !(prunesMember && id' = id)) := by
  unfold peerCleanup MemberList.isMember
  cases prunesMember with
  | true =>
    rw [if_pos rfl, MemberList.get_remove]
    by_cases hid : id' = id <;> simp [hid]
  | false =>
    rw [if_neg nofun, MemberList.get_modify]
    by_cases hid : id' = id <;> simp [hid]

namespace Redialer

/-! ### What a step does to the roster, to `pruned_peers` and to the redial tasks -/

/-- The peer is suppressed, or about to be by a prune that has read the roster. -/
def Suppressed (d : Redialer Id) (id : Id) : Prop :=
  (d.node.networkName, id) ∈ d.node.prunedPeers ∨ ∃ task ∈ d.prunes, task.peer.1 = id ∧ task.stage = .departed

instance (d : Redialer Id) (id : Id) : Decidable (d.Suppressed id) := by unfold Suppressed; infer_instance

/-- What every step keeps to. A peer comes to be suppressed only while it is not listed, and comes to be
dialed only while it is. -/
structure Frame (d d' : Redialer Id) : Prop where
  networkName : d'.node.networkName = d.node.networkName
  suppressed : ∀ id, d'.Suppressed id → d.Suppressed id ∨ d.node.state.members.isMember id = false
  dials : ∀ task' ∈ d'.dials, task'.stage ≠ .waiting →
    (∃ task ∈ d.dials, task.peerId = task'.peerId ∧ task.stage ≠ .waiting) ∨
      d.node.state.members.isMember task'.peerId = true

section Frame

variable {d d' : Redialer Id}

/-- A step that touches none of these. -/
theorem Frame.of_eq (hname : d'.node.networkName = d.node.networkName)
    (hpruned : d'.node.prunedPeers = d.node.prunedPeers) (hprunes : d'.prunes = d.prunes)
    (hdials : d'.dials = d.dials) : Frame d d' := by
  refine ⟨hname, fun id h => Or.inl ?_, fun task h hstage => Or.inl ⟨task, hdials ▸ h, rfl, hstage⟩⟩
  rwa [Suppressed, hname, hpruned, hprunes] at h

theorem onDisconnect_eq (d : Redialer Id) (event : DisconnectEvent Id) (now : ℕ) :
    ∃ peers handling, d.onDisconnect event now = { d with
      node := { d.node with
        peers := peers
        state :=
          if d.coordinator = true ∧ (d.node.removeRoute event).2 = true then
            peerCleanup d.node.state event.endpointId event.reason.prunesMember now
          else d.node.state }
      handling := handling } := by
  unfold onDisconnect
  split
  · rename_i hremoved
    exact ⟨_, _, by simp only [hremoved, and_true]; rfl⟩
  · rename_i hstale
    exact ⟨d.node.peers, d.handling, by rw [if_neg fun h => hstale h.2]⟩

theorem frame_onDisconnect (d : Redialer Id) (disconnects : List (ReaderTask Id)) (event : DisconnectEvent Id)
    (now : ℕ) : Frame d (onDisconnect { d with node := { d.node with disconnects := disconnects } } event now) := by
  obtain ⟨peers, handling, heq⟩ :=
    onDisconnect_eq { d with node := { d.node with disconnects := disconnects } } event now
  rw [heq]
  exact .of_eq rfl rfl rfl rfl

/-- A handled disconnect leaves the roster alone, unless a coordinator handles it. -/
theorem roster_onDisconnect (d : Redialer Id) (disconnects : List (ReaderTask Id)) (event : DisconnectEvent Id)
    (now : ℕ) {d' : Redialer Id}
    (h : onDisconnect { d with node := { d.node with disconnects := disconnects } } event now = d') :
    d'.node.state = d.node.state ∨
      d.coordinator = true ∧ (d.node.removeRoute event).2 = true ∧ d'.dials = d.dials ∧
        d'.node.state = peerCleanup d.node.state event.endpointId event.reason.prunesMember now := by
  obtain ⟨peers, handling, heq⟩ :=
    onDisconnect_eq { d with node := { d.node with disconnects := disconnects } } event now
  rw [← h, heq]
  dsimp only
  split
  · rename_i hcleans
    exact Or.inr ⟨hcleans.1, hcleans.2, rfl, rfl⟩
  · exact Or.inl rfl

theorem suppressed_of_consumePruned {id id' : Id} {dials : List (DialTask Id)} {dialInFlight : List Id}
    {handling : Option (DisconnectEvent Id)}
    (h : Suppressed ⟨(d.node.consumePruned id').1, d.coordinator, handling, d.prunes, dials, dialInFlight⟩ id) :
    d.Suppressed id :=
  h.imp_left fun hmem => (List.mem_filter.mp hmem).1

/-- An attempt goes on to connect only to a listed peer. -/
theorem attempt_spec (d : Redialer Id) (task : DialTask Id) :
    (∃ dialInFlight, (d.attempt task).1 =
      { d with node := (d.node.consumePruned task.peerId).1, dialInFlight := dialInFlight }) ∧
      ∀ task', (d.attempt task).2 = some task' →
        task' = task ∨ task'.peerId = task.peerId ∧ d.node.state.members.isMember task.peerId = true := by
  unfold attempt
  dsimp only
  split
  · exact ⟨⟨_, rfl⟩, nofun⟩
  · rename_i hkeep
    split
    · exact ⟨⟨_, rfl⟩, nofun⟩
    · split
      · exact ⟨⟨_, rfl⟩, by rintro _ ⟨⟩; exact Or.inl rfl⟩
      · refine ⟨⟨_, rfl⟩, ?_⟩
        rintro _ ⟨⟩
        exact Or.inr ⟨rfl, (dialRetryDecision_eq_keepDialing.mp (DialRetryDecision.eq_keepDialing hkeep)).1⟩

theorem advanceDial_spec {task : DialTask Id} {input : DialInput} {new : Option (DialTask Id)}
    (h : d.advanceDial task input = some (d', new)) :
    d'.node.networkName = d.node.networkName ∧ d'.node.state = d.node.state ∧ d'.prunes = d.prunes ∧
      (∀ entry ∈ d'.node.prunedPeers, entry ∈ d.node.prunedPeers) ∧
      ∀ task', new = some task' → task'.stage ≠ .waiting → task'.peerId = task.peerId ∧
        (task.stage ≠ .waiting ∨ d.node.state.members.isMember task.peerId = true) := by
  cases input with
  | wake =>
    obtain ⟨hwaiting, h⟩ := Option.ite_none_right_eq_some.mp h
    obtain ⟨⟨dialInFlight, hnode⟩, hnew⟩ := d.attempt_spec task
    rw [Option.some.inj h] at hnode hnew
    subst hnode
    refine ⟨rfl, rfl, rfl, fun entry he => (List.mem_filter.mp he).1, fun task' htask' hstage' => ?_⟩
    rcases hnew task' htask' with rfl | ⟨hpeer, hlisted⟩
    · exact absurd hwaiting hstage'
    · exact ⟨hpeer, Or.inr hlisted⟩
  | connected conn =>
    obtain ⟨peerId, peerIp, peerIpv6, stage⟩ := task
    cases stage with
    | connecting ip =>
      cases h
      refine ⟨rfl, rfl, rfl, fun _ he => he, ?_⟩
      rintro _ ⟨⟩ -
      exact ⟨rfl, Or.inl nofun⟩
    | waiting | greeting => cases h
  | failed =>
    obtain ⟨-, h⟩ := Option.ite_none_left_eq_some.mp h
    cases h
    refine ⟨rfl, rfl, rfl, fun _ he => he, ?_⟩
    rintro _ ⟨⟩ hstage'
    exact absurd rfl hstage'
  | greeted =>
    obtain ⟨peerId, peerIp, peerIpv6, stage⟩ := task
    cases stage with
    | greeting ip conn =>
      cases h
      exact ⟨rfl, rfl, rfl, fun _ he => he, nofun⟩
    | waiting | connecting => cases h

theorem frame_dial {i : ℕ} {task : DialTask Id} {input : DialInput} {new : Option (DialTask Id)}
    (htask : d.dials[i]? = some task) (h : d.advanceDial task input = some (d', new)) :
    Frame d { d' with dials := replaceAt d.dials i new } := by
  obtain ⟨hname, -, hprunes, hpruned, hnew⟩ := advanceDial_spec h
  refine ⟨hname, ?_, fun task' htask' hstage' => ?_⟩
  · rintro id (hentry | hmarked)
    · rw [hname] at hentry
      exact Or.inl (Or.inl (hpruned _ hentry))
    · exact Or.inl (Or.inr (hprunes ▸ hmarked))
  · rcases mem_of_mem_replaceAt htask' with hold | hnew'
    · exact Or.inl ⟨task', hold, rfl, hstage'⟩
    · obtain ⟨hpeer, hstage | hlisted⟩ := hnew task' hnew' hstage'
      · exact Or.inl ⟨task, List.mem_of_getElem? htask, hpeer.symm, hstage⟩
      · exact Or.inr (hpeer ▸ hlisted)

variable [Endpoint Id]

theorem frame_onDecide (d : Redialer Id) (event : DisconnectEvent Id) : Frame d (d.onDecide event) := by
  unfold onDecide
  split
  · exact .of_eq rfl rfl rfl rfl
  · refine ⟨rfl, fun id h => Or.inl (suppressed_of_consumePruned h),
      fun task h hstage => Or.inl ⟨task, ?_, rfl, hstage⟩⟩
    dsimp only at h
    split at h
    · -- the new task waits
      rcases List.mem_cons.mp h with rfl | hold
      · exact absurd rfl hstage
      · exact hold
    · exact h

omit [Endpoint Id] in
/-- Prunes that are only listed suppress nobody yet. -/
theorem frame_startPrune (d : Redialer Id) (peers : List (Id × Ipv4Addr × Connection)) :
    Frame d { d with prunes := d.prunes ++ peers.map fun peer => ⟨peer, .listed⟩ } := by
  refine ⟨rfl, ?_, fun task htask hstage => Or.inl ⟨task, htask, rfl, hstage⟩⟩
  rintro id (hentry | ⟨task, htask, hpeer, hstage⟩)
  · exact Or.inl (Or.inl hentry)
  · rcases List.mem_append.mp htask with hold | hnew
    · exact Or.inl (Or.inr ⟨task, hold, hpeer, hstage⟩)
    · obtain ⟨peer, -, rfl⟩ := List.mem_map.mp hnew
      cases hstage

theorem frame_prune {i : ℕ} {task : PruneTask Id} (htask : d.prunes[i]? = some task) :
    Frame d { d with
      node := (d.node.advancePrune task).1
      prunes := replaceAt d.prunes i (d.node.advancePrune task).2 } := by
  obtain ⟨hname, -, hpruned, hmarked⟩ := d.node.advancePrune_spec task
  refine ⟨hname, ?_, fun task h hstage => Or.inl ⟨task, h, rfl, hstage⟩⟩
  rintro id (hentry | ⟨task', htask', rfl, hstage'⟩)
  · rw [hname] at hentry
    rcases hpruned _ hentry with hold | ⟨hstage, heq⟩
    · exact Or.inl (Or.inl hold)
    · -- it was about to be suppressed
      exact Or.inl (Or.inr ⟨task, List.mem_of_getElem? htask, (Prod.mk.inj heq).2.symm, hstage⟩)
  · rcases mem_of_mem_replaceAt htask' with hold | hnew
    · exact Or.inl (Or.inr ⟨task', hold, rfl, hstage'⟩)
    · obtain ⟨heq, habsent⟩ := hmarked _ hnew hstage'
      exact Or.inr (heq ▸ habsent)

end Frame

end Redialer

section Steps

variable [Endpoint Id]

def RosterUpdate.run (s : NetworkState Id) : RosterUpdate Id → Option (NetworkState Id)
  | .mutate sec => some (sec.run s)
  | .adopt path data => applyBlob path s data

namespace Redialer

/-- One disconnect is handled at a time. -/
def next (d : Redialer Id) : RedialEvent Id → Option (Redialer Id)
  | .update u => (u.run d.node.state).map fun s => { d with node := { d.node with state := s } }
  | .reconcile data => some { d with node := d.node.reconcileRemoved data }
  | .register conn peerId ip => some { d with node := d.node.registerPeer conn peerId ip }
  | .lose conn => some { d with node := d.node.close conn }
  | .disconnect i reason now =>
    if d.handling.isSome then none
    else d.node.disconnects[i]?.map fun r =>
      onDisconnect { d with node := { d.node with disconnects := d.node.disconnects.eraseIdx i } }
        (r.report reason) now
  | .coldRestore peerId ip now =>
    if d.handling.isSome then none
    else some (d.onDisconnect
      ⟨peerId, ip, deriveIpv6 peerId d.node.state.networkPublicKey, d.node.networkName, .other, none⟩ now)
  | .decide => d.handling.map d.onDecide
  | .startPrune =>
    some { d with prunes :=
      d.prunes ++ (d.node.peers.peersForNetworkWithConn d.node.networkName).map fun peer => ⟨peer, .listed⟩ }
  | .prune i =>
    d.prunes[i]?.map fun task =>
      { d with node := (d.node.advancePrune task).1, prunes := replaceAt d.prunes i (d.node.advancePrune task).2 }
  | .dial i input =>
    d.dials[i]?.bind fun task =>
      (d.advanceDial task input).map fun (d', task') => { d' with dials := replaceAt d.dials i task' }
  | .claim peerId =>
    if peerId ∈ d.dialInFlight then none else some { d with dialInFlight := peerId :: d.dialInFlight }
  | .release peerId => some { d with dialInFlight := d.dialInFlight.erase peerId }

/-- A node none of whose tasks is under way. -/
def idle (n : Node Id) (coordinator : Bool) : Redialer Id := ⟨n, coordinator, none, [], [], []⟩

abbrev Runs (C : Redialer Id → RedialEvent Id → Prop) (d₀ : Redialer Id) (events : List (RedialEvent Id))
    (d : Redialer Id) : Prop :=
  Run (fun d ev d' => d.next ev = some d') C d₀ events d

section Next

variable {d d' : Redialer Id} {ev : RedialEvent Id}

theorem frame_next (h : d.next ev = some d') : Frame d d' := by
  cases ev with
  | update u =>
    obtain ⟨s, -, rfl⟩ := Option.map_eq_some_iff.mp h
    exact .of_eq rfl rfl rfl rfl
  | reconcile data =>
    cases h
    obtain ⟨peers, hpeers⟩ := Node.reconcileRemoved_eq d.node data
    rw [hpeers]
    exact .of_eq rfl rfl rfl rfl
  | disconnect i reason now =>
    obtain ⟨-, h⟩ := Option.ite_none_left_eq_some.mp h
    obtain ⟨r, -, rfl⟩ := Option.map_eq_some_iff.mp h
    exact frame_onDisconnect d _ _ _
  | coldRestore peerId ip now =>
    obtain ⟨-, h⟩ := Option.ite_none_left_eq_some.mp h
    cases h
    exact frame_onDisconnect d d.node.disconnects _ _
  | decide =>
    obtain ⟨event, -, rfl⟩ := Option.map_eq_some_iff.mp h
    exact frame_onDecide d event
  | startPrune =>
    cases h
    exact frame_startPrune d _
  | prune i =>
    obtain ⟨task, htask, rfl⟩ := Option.map_eq_some_iff.mp h
    exact frame_prune htask
  | dial i input =>
    obtain ⟨task, htask, h⟩ := Option.bind_eq_some_iff.mp h
    obtain ⟨⟨d₁, new⟩, hadvance, rfl⟩ := Option.map_eq_some_iff.mp h
    exact frame_dial htask hadvance
  | claim peerId =>
    obtain ⟨-, h⟩ := Option.ite_none_left_eq_some.mp h
    cases h
    exact .of_eq rfl rfl rfl rfl
  | register | lose | release =>
    cases h
    exact .of_eq rfl rfl rfl rfl

/-- The roster changes when it is updated, and when a coordinator handles a disconnect. -/
theorem roster_next (h : d.next ev = some d') :
    d'.node.state = d.node.state ∨
      (∃ u s, ev = .update u ∧ u.run d.node.state = some s ∧ d' = { d with node := { d.node with state := s } }) ∨
      ∃ event now, d.coordinator = true ∧ (d.node.removeRoute event).2 = true ∧ d'.dials = d.dials ∧
        d'.node.state = peerCleanup d.node.state event.endpointId event.reason.prunesMember now ∧
        (event.reason = .left → ∃ i r, ev = .disconnect i .left now ∧ d.node.disconnects[i]? = some r ∧
          event = r.report .left) := by
  cases ev with
  | update u =>
    obtain ⟨s, hs, rfl⟩ := Option.map_eq_some_iff.mp h
    exact Or.inr (Or.inl ⟨u, s, rfl, hs, rfl⟩)
  | reconcile data =>
    cases h
    obtain ⟨peers, hpeers⟩ := Node.reconcileRemoved_eq d.node data
    rw [hpeers]
    exact Or.inl rfl
  | disconnect i reason now =>
    obtain ⟨-, h⟩ := Option.ite_none_left_eq_some.mp h
    obtain ⟨r, hr, h⟩ := Option.map_eq_some_iff.mp h
    refine (roster_onDisconnect d _ _ now h).imp_right fun ⟨hcoord, hremoved, hdials, hstate⟩ => Or.inr ?_
    refine ⟨r.report reason, now, hcoord, hremoved, hdials, hstate, fun hleft => ?_⟩
    obtain rfl : reason = .left := hleft
    exact ⟨i, r, rfl, hr, rfl⟩
  | coldRestore peerId ip now =>
    obtain ⟨-, h⟩ := Option.ite_none_left_eq_some.mp h
    refine (roster_onDisconnect d d.node.disconnects _ now (Option.some.inj h)).imp_right
      fun ⟨hcoord, hremoved, hdials, hstate⟩ => Or.inr ?_
    exact ⟨_, now, hcoord, hremoved, hdials, hstate, nofun⟩
  | decide =>
    obtain ⟨event, -, rfl⟩ := Option.map_eq_some_iff.mp h
    unfold onDecide
    split
    · exact Or.inl rfl
    · exact Or.inl rfl
  | prune i =>
    obtain ⟨task, -, rfl⟩ := Option.map_eq_some_iff.mp h
    exact Or.inl (d.node.advancePrune_spec task).2.1
  | dial i input =>
    obtain ⟨task, -, h⟩ := Option.bind_eq_some_iff.mp h
    obtain ⟨⟨d₁, new⟩, hadvance, rfl⟩ := Option.map_eq_some_iff.mp h
    exact Or.inl (advanceDial_spec hadvance).2.1
  | claim peerId =>
    obtain ⟨-, h⟩ := Option.ite_none_left_eq_some.mp h
    cases h
    exact Or.inl rfl
  | register | lose | startPrune | release =>
    cases h
    exact Or.inl rfl

end Next

end Redialer

end Steps

end Tetron.Daemon
