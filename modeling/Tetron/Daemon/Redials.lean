import Tetron.Daemon.Reconnect

/-!
# Who is redialed

The entry a prune leaves in `pruned_peers` is meant for the one disconnect the prune causes. The prune also
removes the route, and a disconnect that comes after that is dropped as stale before the entry is looked at.
Such an entry stays; as long as no update lists its peer again, the handler redials every listed peer
(`redials_listed_peer`).

A redial task reads the roster before it connects and registers the peer after its hello is sent. What it
registers is listed as long as no update drops a peer while its dial is under way
(`redial_registers_listed`).
-/

namespace Tetron.Daemon

open Tetron.Membership

variable {Id : Type} [DecidableEq Id] [Msgpack Id] [Blake3]

namespace Redialer

section Handler

variable {d : Redialer Id}

/-- Suppressed peers are not listed. -/
def SuppressedAbsent (d : Redialer Id) : Prop := ∀ id, d.Suppressed id → d.node.state.members.isMember id = false

/-- Dialed peers are listed. -/
def DialsListed (d : Redialer Id) : Prop :=
  ∀ task ∈ d.dials, task.stage ≠ .waiting → d.node.state.members.isMember task.peerId = true

theorem consumePruned_of_listed (hinv : d.SuppressedAbsent) {id : Id}
    (hlisted : d.node.state.members.isMember id = true) : (d.node.consumePruned id).2 = false := by
  refine decide_eq_false fun hentry => ?_
  rw [hinv id (Or.inl hentry)] at hlisted
  cases hlisted

/-- The registered connection's disconnect is not stale, and only a leave changes who is listed. -/
theorem onDisconnect_report {r : ReaderTask Id} (reason : CloseReason) (now : ℕ)
    (hconn : d.node.peers.connOf r.peerIp r.network = some r.conn) :
    (d.onDisconnect (r.report reason) now).handling = some (r.report reason) ∧
      (reason ≠ .left → ∀ id, (d.onDisconnect (r.report reason) now).node.state.members.isMember id =
        d.node.state.members.isMember id) := by
  have hmatch : (d.node.peers.connOf r.peerIp r.network).map Connection.stableId = some r.conn.stableId := by
    rw [hconn, Option.map_some]
  have hremoved : (d.node.removeRoute (r.report reason)).2 = true := congrArg Prod.snd (if_pos hmatch)
  rw [onDisconnect, if_pos hremoved]
  refine ⟨rfl, fun hreason id => ?_⟩
  dsimp only
  split
  · rw [isMember_peerCleanup]
    simp [ReaderTask.report, CloseReason.prunesMember_eq_false hreason]
  · rfl

end Handler

variable [Endpoint Id]

/-- An update lists no peer anew that is suppressed. -/
def ReadmitsUnsuppressed (d : Redialer Id) : RedialEvent Id → Prop
  | .update u => ∀ s ∈ u.run d.node.state, ∀ m ∈ s.members.all,
      d.node.state.members.isMember m.identity = false → ¬ d.Suppressed m.identity
  | _ => True

instance (d : Redialer Id) (ev : RedialEvent Id) : Decidable (d.ReadmitsUnsuppressed ev) := by
  unfold ReadmitsUnsuppressed
  split <;> infer_instance

/-- No update drops a peer while a dial of it is under way, nor does a coordinator for a leave. -/
def KeepsDialed (d : Redialer Id) : RedialEvent Id → Prop
  | .update u => ∀ s ∈ u.run d.node.state, ∀ task ∈ d.dials, task.stage ≠ .waiting →
      s.members.isMember task.peerId = true
  | .disconnect i .left _ => d.coordinator = true → ∀ r ∈ d.node.disconnects[i]?,
      (d.node.removeRoute (r.report .left)).2 = true → ∀ task ∈ d.dials, task.stage ≠ .waiting →
      task.peerId ≠ r.peerId
  | _ => True

instance (d : Redialer Id) (ev : RedialEvent Id) : Decidable (d.KeepsDialed ev) := by
  unfold KeepsDialed
  split <;> infer_instance

variable {d d' : Redialer Id} {ev : RedialEvent Id}

/-! ### Suppressed peers are not listed -/

/-- What is listed after a step was listed before, or by the update. -/
theorem isMember_of_next {id : Id} (h : d.next ev = some d') (hlisted : d'.node.state.members.isMember id = true) :
    d.node.state.members.isMember id = true ∨
      ∃ u s, ev = .update u ∧ u.run d.node.state = some s ∧ d' = { d with node := { d.node with state := s } } := by
  rcases roster_next h with hsame | hupdate | ⟨event, now, -, -, -, hcleanup, -⟩
  · exact Or.inl (hsame ▸ hlisted)
  · exact Or.inr hupdate
  · rw [hcleanup, isMember_peerCleanup, Bool.and_eq_true] at hlisted
    exact Or.inl hlisted.1

theorem SuppressedAbsent.next (hinv : d.SuppressedAbsent) (hC : d.ReadmitsUnsuppressed ev)
    (h : d.next ev = some d') : d'.SuppressedAbsent := by
  intro id hsuppressed
  have habsent : d.node.state.members.isMember id = false :=
    ((frame_next h).suppressed id hsuppressed).elim (hinv id) fun habsent => habsent
  by_contra hlisted
  rcases isMember_of_next h (Bool.not_eq_false _ ▸ hlisted) with hbefore | ⟨u, s, rfl, hs, rfl⟩
  · rw [habsent] at hbefore
    cases hbefore
  · -- the update would have listed a suppressed peer
    obtain ⟨m, hm⟩ := Option.isSome_iff_exists.mp (Bool.not_eq_false _ ▸ hlisted : (s.members.get id).isSome = true)
    obtain rfl := s.members.identity_of_get hm
    exact hC s hs m (MemberList.mem_all_iff.mpr hm) habsent hsuppressed

theorem Runs.suppressedAbsent {d₀ : Redialer Id} {events : List (RedialEvent Id)}
    (hrun : Runs ReadmitsUnsuppressed d₀ events d) (h₀ : d₀.SuppressedAbsent) : d.SuppressedAbsent :=
  hrun.invariant (I := fun _ d => d.SuppressedAbsent) h₀ fun _ _ _ _ hinv hC h => hinv.next hC h

/-! ### Dialed peers are listed -/

theorem DialsListed.next (hinv : d.DialsListed) (hC : d.KeepsDialed ev) (h : d.next ev = some d') :
    d'.DialsListed := by
  intro task' htask' hstage'
  rcases roster_next h with hsame | ⟨u, s, rfl, hs, rfl⟩ | ⟨event, now, hcoord, hremoved, hdials, hcleanup, hleft⟩
  · rw [hsame]
    rcases (frame_next h).dials task' htask' hstage' with ⟨task, htask, hpeer, hstage⟩ | hlisted
    · exact hpeer ▸ hinv task htask hstage
    · exact hlisted
  · exact hC s hs task' htask' hstage'
  · rw [hdials] at htask'
    rw [hcleanup, isMember_peerCleanup, hinv task' htask' hstage', Bool.true_and]
    cases hreason : event.reason with
    | kicked | other => rfl
    | left =>
      obtain ⟨i, r, rfl, hr, rfl⟩ := hleft hreason
      have hother := hC hcoord r hr hremoved task' htask' hstage'
      exact Bool.not_eq_true' _ |>.mpr (decide_eq_false hother)

theorem Runs.dialsListed {d₀ : Redialer Id} {events : List (RedialEvent Id)}
    (hrun : Runs KeepsDialed d₀ events d) (h₀ : d₀.DialsListed) : d.DialsListed :=
  hrun.invariant (I := fun _ d => d.DialsListed) h₀ fun _ _ _ _ hinv hC h => hinv.next hC h

/-! ### Disconnects and registrations -/

/-- **The disconnect of a listed peer's registered connection starts a redial**, and no redial of a listed peer
is given up, in every run in which no update lists a suppressed peer anew. -/
theorem redials_listed_peer {n₀ : Node Id} {coordinator : Bool} {events : List (RedialEvent Id)}
    (hstart : ∀ id, n₀.state.members.isMember id = true → (n₀.networkName, id) ∉ n₀.prunedPeers)
    (hrun : Runs ReadmitsUnsuppressed (idle n₀ coordinator) events d) :
    (∀ i r reason now, d.handling = none → d.node.disconnects[i]? = some r →
      d.node.peers.connOf r.peerIp r.network = some r.conn →
      ∃ d', d.next (.disconnect i reason now) = some d' ∧ d'.handling = some (r.report reason) ∧
        (reason ≠ .left → ∀ id, d'.node.state.members.isMember id = d.node.state.members.isMember id)) ∧
    (∀ event, d.handling = some event → d.node.state.members.isMember event.endpointId = true →
      event.reason ≠ .left → ∃ d', d.next .decide = some d' ∧ d'.dials = d.dialTask event :: d.dials) ∧
    ∀ task ∈ d.dials, d.node.state.members.isMember task.peerId = true →
      dialRetryDecision (d.node.state.members.get task.peerId).isSome (d.node.consumePruned task.peerId).2 =
        .keepDialing := by
  have hinv : d.SuppressedAbsent := hrun.suppressedAbsent fun id hsuppressed => by
    rcases hsuppressed with hentry | ⟨task, htask, -⟩
    · exact Bool.eq_false_iff.mpr fun hlisted => hstart id hlisted hentry
    · cases htask
  refine ⟨fun i r reason now hfree hr hconn => ?_, fun event hevent hlisted hreason => ?_, fun task _ hlisted => ?_⟩
  · refine ⟨_, by rw [next, if_neg (by simp [hfree]), hr, Option.map_some], ?_⟩
    exact onDisconnect_report reason now hconn
  · have hnot := CloseReason.prunesMember_eq_false hreason
    have hunmarked := consumePruned_of_listed hinv hlisted
    refine ⟨_, by rw [next, hevent, Option.map_some], ?_⟩
    rw [onDecide, if_neg (by simp [hnot])]
    exact if_pos (reconnectDecision_eq_reconnect.mpr ⟨rfl, hnot, hunmarked⟩)
  · exact dialRetryDecision_eq_keepDialing.mpr ⟨hlisted, consumePruned_of_listed hinv hlisted⟩

/-- **A redial task registers a listed peer**, in every run in which no peer is dropped while a dial of it is
under way. -/
theorem redial_registers_listed {n₀ : Node Id} {coordinator : Bool} {events : List (RedialEvent Id)} {i : ℕ}
    {task : DialTask Id} (hrun : Runs KeepsDialed (idle n₀ coordinator) events d) (htask : d.dials[i]? = some task)
    (h : d.next (.dial i .greeted) = some d') :
    (∃ ip conn, d'.node = d.node.addRoute conn task.peerId ip task.peerIpv6) ∧
      d'.node.state.members.isMember task.peerId = true := by
  have hinv : d.DialsListed := hrun.dialsListed nofun
  have hlisted := hinv task (List.mem_of_getElem? htask)
  rw [next, htask, Option.bind_some] at h
  obtain ⟨⟨d₁, new⟩, hadvance, rfl⟩ := Option.map_eq_some_iff.mp h
  obtain ⟨peerId, peerIp, peerIpv6, stage⟩ := task
  cases stage with
  | greeting ip conn =>
    cases hadvance
    exact ⟨⟨ip, conn, rfl⟩, hlisted nofun⟩
  | waiting | connecting => cases hadvance

end Redialer

end Tetron.Daemon

/-! ### carol is removed and comes back -/

namespace Tetron.Daemon.Redialer

open Tetron.Membership Sample

/-- bob's node, which is not connected to anyone. -/
def bobsNode (coordinator : Bool) : Node Peer where
  myIdentity := .bob
  networkName := "mesh"
  state := { Sample.state 1 [member .alice true, member .bob coordinator, member .carol false] with
    networkSecretKey := if coordinator then some [1] else none }
  peers := .new
  readers := []
  disconnects := []
  prunedPeers := []

noncomputable abbrev bob (coordinator : Bool) : Redialer Peer := idle (bobsNode coordinator) coordinator

def carolsIp : Ipv4Addr := deriveIp Peer.carol defaultSubnet

def kickCarol : RedialEvent Peer := .update (.adopt .reconverge (blob 2 [member .alice true, member .bob false]))

def readmitCarol : RedialEvent Peer :=
  .update (.adopt .reconverge (blob 3 [member .alice true, member .bob false, member .carol false]))

/-- carol is connected and kicked, and bob has just closed its connection. -/
def pruneCarol : List (RedialEvent Peer) :=
  [.register ⟨7⟩ .carol carolsIp, kickCarol, .startPrune, .prune 0, .prune 0, .prune 0]

/-- carol is admitted again, connects, and its connection drops. -/
def carolReturns : List (RedialEvent Peer) :=
  [readmitCarol, .register ⟨8⟩ .carol carolsIp, .lose ⟨8⟩, .disconnect 0 .other 0]

/-- The drop of carol's second connection. -/
def carolsDrop : DisconnectEvent Peer :=
  ⟨.carol, carolsIp, deriveIpv6 Peer.carol .alice, "mesh", .other, some 8⟩

/-- The disconnect bob causes is handled before the prune removes the route. -/
theorem redials_listed_peer_carol : ∃ d d' : Redialer Peer,
    Runs ReadmitsUnsuppressed (bob false) (pruneCarol ++ [.disconnect 0 .other 0, .decide, .prune 0] ++
      carolReturns) d ∧ d.handling = some carolsDrop ∧ d.next .decide = some d' ∧
      d'.dials = d.dialTask carolsDrop :: d.dials := by
  obtain ⟨d, hrun, hhandling, hlisted⟩ : ∃ d : Redialer Peer, Runs ReadmitsUnsuppressed (bob false)
      (pruneCarol ++ [.disconnect 0 .other 0, .decide, .prune 0] ++ carolReturns) d ∧
      d.handling = some carolsDrop ∧ d.node.state.members.isMember .carol = true :=
    Run.exists_of_exec (by decide +kernel)
  obtain ⟨d', hd', hdials⟩ := (redials_listed_peer nofun hrun).2.1 carolsDrop hhandling hlisted nofun
  exact ⟨d, d', hrun, hhandling, hd', hdials⟩

/-- The prune removes the route first. The disconnect it causes is stale, and the entry meets carol's next. -/
theorem readmitted_peer_not_redialed : ∃ d d' : Redialer Peer,
    Runs (fun _ _ => True) (bob false) (pruneCarol ++ [.prune 0, .disconnect 0 .other 0] ++ carolReturns) d ∧
      d.handling = some carolsDrop ∧ d.node.state.members.isMember .carol = true ∧
      d.next .decide = some d' ∧ d'.dials = [] := by
  obtain ⟨d, hrun, hhandling, hlisted, d', hd', hdials⟩ : ∃ d : Redialer Peer, Runs (fun _ _ => True) (bob false)
      (pruneCarol ++ [.prune 0, .disconnect 0 .other 0] ++ carolReturns) d ∧ d.handling = some carolsDrop ∧
      d.node.state.members.isMember .carol = true ∧ ∃ d' ∈ d.next .decide, d'.dials = [] :=
    Run.exists_of_exec (by decide +kernel)
  exact ⟨d, d', hrun, hhandling, hlisted, hd', hdials⟩

/-- carol's connection drops, and bob's hello to it is on its way. -/
def redialCarol : List (RedialEvent Peer) :=
  [.register ⟨7⟩ .carol carolsIp, .lose ⟨7⟩, .disconnect 0 .other 0, .decide, .dial 0 .wake, .dial 0 (.connected ⟨8⟩)]

/-- carol's place in the roster is confirmed by a blob while it is dialed. -/
theorem redial_registers_listed_carol : ∃ d d' : Redialer Peer,
    Runs KeepsDialed (bob true) (redialCarol ++ [readmitCarol]) d ∧ d.next (.dial 0 .greeted) = some d' ∧
      d'.node.state.members.isMember .carol = true := by
  obtain ⟨d, hrun, ⟨task, htask, hpeer⟩, hgreeted⟩ : ∃ d : Redialer Peer,
      Runs KeepsDialed (bob true) (redialCarol ++ [readmitCarol]) d ∧ (∃ task ∈ d.dials[0]?, task.peerId = .carol) ∧
      (d.next (.dial 0 .greeted)).isSome = true := Run.exists_of_exec (by decide +kernel)
  obtain ⟨d', hd'⟩ := Option.isSome_iff_exists.mp hgreeted
  exact ⟨d, d', hrun, hd', hpeer ▸ (redial_registers_listed hrun htask hd').2⟩

/-- carol is kicked while bob's hello is on its way, and registered when it has been sent. -/
theorem kicked_peer_registered :
    (∃ d d' : Redialer Peer, Runs (fun _ _ => True) (bob false) (redialCarol ++ [kickCarol]) d ∧
      d.next (.dial 0 .greeted) = some d' ∧ d'.node.state.members.isMember .carol = false ∧
      d'.node.peers.connOf carolsIp "mesh" = some ⟨8⟩) ∧
    ∃ d d' : Redialer Peer, Runs (fun _ _ => True) (bob true) (redialCarol ++ [kickCarol]) d ∧
      d.next (.dial 0 .greeted) = some d' ∧ d'.node.state.members.isMember .carol = false ∧
      d'.node.peers.connOf carolsIp "mesh" = some ⟨8⟩ := by
  have hrole : ∀ coordinator : Bool, ∃ d d' : Redialer Peer,
      Runs (fun _ _ => True) (bob coordinator) (redialCarol ++ [kickCarol]) d ∧
      d.next (.dial 0 .greeted) = some d' ∧ d'.node.state.members.isMember .carol = false ∧
      d'.node.peers.connOf carolsIp "mesh" = some ⟨8⟩ := by
    intro coordinator
    obtain ⟨d, hrun, d', hd', hboth⟩ : ∃ d : Redialer Peer,
        Runs (fun _ _ => True) (bob coordinator) (redialCarol ++ [kickCarol]) d ∧ ∃ d' ∈ d.next (.dial 0 .greeted),
        d'.node.state.members.isMember .carol = false ∧ d'.node.peers.connOf carolsIp "mesh" = some ⟨8⟩ :=
      Run.exists_of_exec (by cases coordinator <;> decide +kernel)
    exact ⟨d, d', hrun, hd', hboth⟩
  exact ⟨hrole false, hrole true⟩

end Tetron.Daemon.Redialer
