import Tetron.Control
import Tetron.Daemon.Adopt
import Tetron.Daemon.Start
import Tetron.Lib.Run

/-!
# Who an ordinary member lets in

A node that does not hold the network key serves `MeshHello`s from its rosters, listens for control
messages on the connection it joined over and on every connection its reconnect loop redials, and
replaces its rosters by those of verified blobs. `MemberNode` is such a node with all of these
interleaved; each write-locked section is a step, and so is a registration.

`MemberApproved` is obeyed whoever sends it. So an identity may be registered that no blob lists and
no coordinator vouched for. If the node hears `MemberApproved` only from coordinators, and replaces its
rosters only when no hello of an unlisted identity is under way, it registers only identities with one
or the other. The one exception is the node itself: at a first join the `Welcome` lists it, and the blob
may not yet.
-/

namespace Tetron.Daemon

open Tetron.Membership
open Tetron.Control (ControlMsg)

/-- How far the task that serves a `MeshHello` is: it has looked the identity up, or it has also run
its write-locked section and is about to register the address. -/
inductive HelloStage
  | checked (isApproved : Bool) (rosterIp : Ipv4Addr)
  | seated (ip : Ipv4Addr)
deriving DecidableEq

structure HelloTask (Id : Type) where
  identity : Id
  hostname : Option String
  veilidNodeId : Option String
  stage : HelloStage
deriving DecidableEq

structure MemberNode (Id : Type) [DecidableEq Id] [Msgpack Id] [Blake3] where
  myIdentity : Id
  state : NetworkState Id
  /-- Remotes of the connections with a control listener. -/
  listening : List Id
  /-- Identities with a route and a reader. -/
  routes : List Id
  /-- Peers whose connection dropped and that the reconnect loop is redialing. -/
  redialing : List Id
  hellos : List (HelloTask Id)
  /-- The last verified blob applied. -/
  applied : GroupBlob Id
  /-- Identities that a `MemberApproved` from a remote flagged as coordinator has named. -/
  vouched : List Id

inductive MemberEvent (Id : Type)
  | drop (peer : Id)
  | redial (peer : Id)
  | control (remote : Id) (msg : ControlMsg Id)
  | hello (transport identity : Id) (hostname veilidNodeId : Option String)
  | seat (task : HelloTask Id) (now : ℕ)
  | register (task : HelloTask Id)
  | apply (path : ApplyPath) (data : GroupBlob Id)
  | finalizeJoin (netPubkey : Id)

variable {Id : Type} [DecidableEq Id] [Endpoint Id] [Msgpack Id] [Blake3]

def adminGrantKeyValid (secretKey : Bytes) (netPubkey : Id) : Bool := Endpoint.publicKey secretKey == netPubkey

namespace MemberNode

def flagged (n : MemberNode Id) (remote : Id) : Bool := (n.state.members.get remote).any Member.isCoordinator

/-- The node after joining through `remote`. -/
def start (me remote : Id) (data : GroupBlob Id) (members : List (Member Id))
    (approved : List (ApprovedEntry Id)) (netPubkey : Id) (name : String) : MemberNode Id where
  myIdentity := me
  state := buildMemberState data members approved netPubkey name
  listening := [remote]
  routes := [remote]
  redialing := []
  hellos := []
  applied := data
  vouched := []

/-- The arms of `spawn_member_control_listener`. `MemberSync` and `BlobUpdated` only wake the reconverge worker, and a
`Ping` is answered. -/
def onControl (n : MemberNode Id) (remote : Id) : ControlMsg Id → MemberNode Id
  | .memberApproved identity ip hostname _ =>
    { n with
      state := memberApproved n.state identity ip hostname
      vouched := if n.flagged remote then identity :: n.vouched else n.vouched }
  | .adminGrant networkPubkey secretKey =>
    if networkPubkey ≠ n.state.networkPublicKey then n
    else if !adminGrantKeyValid secretKey n.state.networkPublicKey then n
    else { n with state := adminGrant n.state secretKey n.myIdentity }
  | _ => n

/-- The read-locked look-up of `handle_connection`. -/
def onHello (n : MemberNode Id) (transport identity : Id) (hostname veilidNodeId : Option String) :
    MemberNode Id :=
  if identity ≠ transport then n
  else
    match resolveHelloIp (n.state.members.get identity) (n.state.approved.get identity) with
    | none => n
    | some rosterIp =>
      { n with hellos :=
          ⟨identity, hostname, veilidNodeId, .checked (n.state.approved.isApproved identity) rosterIp⟩ ::
            n.hellos }

/-- The write-locked section of a hello task. -/
def onSeat (n : MemberNode Id) (task : HelloTask Id) (now : ℕ) : Option (MemberNode Id) :=
  match task.stage with
  | .checked true _ =>
    match admitApprovedMember n.state task.identity task.hostname task.veilidNodeId now with
    | (none, state) => some { n with state := state, hellos := n.hellos.erase task }
    | (some ip, state) =>
      some { n with state := state, hellos := { task with stage := .seated ip } :: n.hellos.erase task }
  | .checked false rosterIp =>
    some { n with
      state :=
        if task.hostname.isSome || task.veilidNodeId.isSome then
          knownMemberHello n.state task.identity task.hostname task.veilidNodeId
        else n.state
      hellos := { task with stage := .seated rosterIp } :: n.hellos.erase task }
  | .seated _ => none

/-- One step; `none` if the event cannot happen. Any blob may be applied at any time: what the tasks
that apply blobs check first only removes steps. -/
def next (n : MemberNode Id) : MemberEvent Id → Option (MemberNode Id)
  | .drop peer =>
    if peer ∈ n.routes then
      some { n with
        routes := n.routes.erase peer
        listening := n.listening.filter (· ≠ peer)
        redialing := peer :: n.redialing }
    else none
  | .redial peer =>
    if peer ∈ n.redialing then
      some { n with
        redialing := n.redialing.erase peer
        routes := peer :: n.routes
        listening := peer :: n.listening }
    else none
  | .control remote msg => if remote ∈ n.listening then some (n.onControl remote msg) else none
  | .hello transport identity hostname veilidNodeId =>
    some (n.onHello transport identity hostname veilidNodeId)
  | .seat task now => if task ∈ n.hellos then n.onSeat task now else none
  | .register task =>
    match task.stage with
    | .checked .. => none
    | .seated _ =>
      if task ∈ n.hellos then
        some { n with routes := task.identity :: n.routes, hellos := n.hellos.erase task }
      else none
  | .apply path data => (applyBlob path n.state data).map fun state => { n with state := state, applied := data }
  | .finalizeJoin netPubkey => some { n with state := finalizeJoin n.state netPubkey }

/-- The last applied blob lists the identity, or a coordinator's `MemberApproved` named it. -/
def Justified (n : MemberNode Id) (id : Id) : Prop := n.applied.Lists id ∨ id ∈ n.vouched

/-- `MemberApproved` comes from a remote flagged as coordinator, and no blob is applied over the hello
of an identity it does not list. -/
def Heeds (n : MemberNode Id) : MemberEvent Id → Prop
  | .control remote (.memberApproved ..) => n.flagged remote = true
  | .apply _ data => ∀ task ∈ n.hellos, data.Lists task.identity
  | _ => True

instance (n : MemberNode Id) (ev : MemberEvent Id) : Decidable (n.Heeds ev) := by
  unfold Heeds
  split <;> infer_instance

/-! ### Only justified identities are known -/

/-- Whoever is known is justified, or excepted. -/
structure Inv (excepted : Id → Prop) (n : MemberNode Id) : Prop where
  known : ∀ id, n.state.Knows id → excepted id ∨ n.Justified id
  hellos : ∀ task ∈ n.hellos, excepted task.identity ∨ n.Justified task.identity

/-- The node itself, if the roster it was welcomed with lists it and the blob does not. -/
def Welcomed (me : Id) (data : GroupBlob Id) (members : List (Member Id)) (id : Id) : Prop :=
  id = me ∧ (∃ m ∈ members, m.identity = me) ∧ ¬ data.Lists me

variable {n n' : MemberNode Id} {excepted : Id → Prop}

theorem Inv.start {me remote netPubkey : Id} {data : GroupBlob Id} {members : List (Member Id)}
    {approved : List (ApprovedEntry Id)} {name : String}
    (hmembers : ∀ m ∈ members, m.identity = me ∨ data.Lists m.identity)
    (happroved : ∀ e ∈ approved, data.Lists e.identity) :
    (start me remote data members approved netPubkey name).Inv (Welcomed me data members) := by
  refine ⟨fun id hid => ?_, nofun⟩
  rcases hid with hmember | happ
  · obtain ⟨m, hm⟩ := Option.isSome_iff_exists.mp hmember
    have hmem := MemberList.mem_of_get_fromMembers hm
    obtain rfl := MemberList.identity_of_get hm
    by_cases hlists : data.Lists m.identity
    · exact .inr (.inl hlists)
    · have hown := (hmembers m hmem).resolve_right hlists
      exact .inl ⟨hown, ⟨m, hmem, hown⟩, hown ▸ hlists⟩
  · obtain ⟨e, he⟩ := Option.isSome_iff_exists.mp happ
    exact .inr (.inl (ApprovedList.identity_of_get he ▸ happroved e (ApprovedList.mem_of_get_fromEntries he)))

/-- A section that makes no one known keeps the invariant, with the hellos of justified identities. -/
theorem Inv.run (hinv : n.Inv excepted) (sec : Section Id) (hadmission : ∀ m, sec ≠ .admitPeer m)
    (happrove : ∀ id ip hostname, sec ≠ .memberApproved id ip hostname) {hellos : List (HelloTask Id)}
    (hhellos : ∀ task ∈ hellos, excepted task.identity ∨ n.Justified task.identity) :
    Inv excepted { n with state := sec.run n.state, hellos := hellos } := by
  refine ⟨fun id hid => ?_, hhellos⟩
  rcases Section.knows_of_run sec hadmission hid with hold | ⟨ip, hostname, rfl⟩
  · exact hinv.known id hold
  · exact absurd rfl (happrove id ip hostname)

theorem Inv.onControl (hinv : n.Inv excepted) {remote : Id} {msg : ControlMsg Id}
    (hheeds : n.Heeds (.control remote msg)) : (n.onControl remote msg).Inv excepted := by
  cases msg with
  | memberApproved identity ip hostname veilidNodeId =>
    have hflag : n.flagged remote = true := hheeds
    simp only [MemberNode.onControl, hflag, if_true]
    refine ⟨fun id hid => ?_, fun task htask => (hinv.hellos task htask).imp_right (.imp_right (.tail _))⟩
    rcases Section.knows_of_run (.memberApproved identity ip hostname) nofun hid with
      hold | ⟨_, _, heq⟩
    · exact (hinv.known id hold).imp_right (.imp_right (.tail _))
    · cases heq
      exact .inr (.inr (.head _))
  | adminGrant networkPubkey secretKey =>
    simp only [MemberNode.onControl]
    split
    · exact hinv
    · split
      · exact hinv
      · exact hinv.run (.adminGrant secretKey n.myIdentity) nofun nofun hinv.hellos
  | _ => exact hinv

omit [Endpoint Id] in
theorem Inv.onHello (hinv : n.Inv excepted) (transport identity : Id) (hostname veilidNodeId : Option String) :
    (n.onHello transport identity hostname veilidNodeId).Inv excepted := by
  unfold MemberNode.onHello
  split
  · exact hinv
  · split
    · exact hinv
    · rename_i rosterIp hresolve
      refine ⟨hinv.known, fun task htask => ?_⟩
      rcases List.mem_cons.mp htask with rfl | hold
      · apply hinv.known
        -- an address was resolved, so one of the rosters has the identity
        rcases Option.or_eq_some_iff.mp hresolve with hmember | ⟨-, happroved⟩
        · obtain ⟨m, hm, -⟩ := Option.map_eq_some_iff.mp hmember
          exact Or.inl (Option.isSome_iff_exists.mpr ⟨m, hm⟩)
        · obtain ⟨e, he, -⟩ := Option.map_eq_some_iff.mp happroved
          exact Or.inr (Option.isSome_iff_exists.mpr ⟨e, he⟩)
      · exact hinv.hellos task hold

theorem Inv.onSeat (hinv : n.Inv excepted) {task : HelloTask Id} {now : ℕ} (htask : task ∈ n.hellos)
    (h : n.onSeat task now = some n') : n'.Inv excepted := by
  have herase : ∀ t ∈ n.hellos.erase task, excepted t.identity ∨ n.Justified t.identity := fun t ht =>
    hinv.hellos t (List.mem_of_mem_erase ht)
  have hcons : ∀ stage, ∀ t ∈ { task with stage := stage } :: n.hellos.erase task,
      excepted t.identity ∨ n.Justified t.identity := by
    intro stage t ht
    rcases List.mem_cons.mp ht with rfl | hrest
    · exact hinv.hellos task htask
    · exact herase t hrest
  unfold MemberNode.onSeat at h
  split at h
  · -- whatever address comes out, the state is that after the section
    have hrun : ∀ ip state,
        admitApprovedMember n.state task.identity task.hostname task.veilidNodeId now = (ip, state) →
        state = (Section.admitApprovedMember task.identity task.hostname task.veilidNodeId now).run n.state :=
      fun _ _ heq => (congrArg Prod.snd heq).symm
    split at h
    · rename_i state heq
      cases h
      rw [hrun _ _ heq]
      exact hinv.run (.admitApprovedMember ..) nofun nofun herase
    · rename_i ip state heq
      cases h
      rw [hrun _ _ heq]
      exact hinv.run (.admitApprovedMember ..) nofun nofun (hcons _)
  · cases h
    split
    · exact hinv.run (.knownMemberHello task.identity task.hostname task.veilidNodeId) nofun nofun
        (hcons _)
    · exact ⟨hinv.known, hcons _⟩
  · cases h

/-- **Step**: an event that heeds the sender and the hellos under way keeps the invariant. -/
theorem Inv.step (hinv : n.Inv excepted) {ev : MemberEvent Id} (hheeds : n.Heeds ev) (h : n.next ev = some n') :
    n'.Inv excepted := by
  cases ev with
  | drop peer =>
    simp only [next] at h
    split at h <;> cases h
    exact ⟨hinv.known, hinv.hellos⟩
  | redial peer =>
    simp only [next] at h
    split at h <;> cases h
    exact ⟨hinv.known, hinv.hellos⟩
  | control remote msg =>
    simp only [next] at h
    split at h <;> cases h
    exact hinv.onControl hheeds
  | hello transport identity hostname veilidNodeId =>
    cases h
    exact hinv.onHello transport identity hostname veilidNodeId
  | seat task now =>
    simp only [next] at h
    split at h
    · rename_i htask
      exact hinv.onSeat htask h
    · cases h
  | register task =>
    simp only [next] at h
    split at h
    · cases h
    · split at h <;> cases h
      exact ⟨hinv.known, fun t ht => hinv.hellos t (List.mem_of_mem_erase ht)⟩
  | apply path data =>
    obtain ⟨state, happly, rfl⟩ := Option.map_eq_some_iff.mp h
    exact ⟨fun id hid => .inr (.inl (lists_of_applyBlob happly hid)), fun task htask =>
      .inr (.inl (hheeds task htask))⟩
  | finalizeJoin netPubkey =>
    cases h
    exact hinv.run (.finalizeJoin netPubkey) nofun nofun hinv.hellos

/-- A member that joined with a roster its verified blob lists, except perhaps for the member itself, and heeds who
sends `MemberApproved` and which hellos a new blob overtakes, registers an identity only if the last applied blob lists
it or a coordinator's `MemberApproved` named it, or it is its own. -/
theorem register_justified {me remote netPubkey : Id} {data : GroupBlob Id} {members : List (Member Id)}
    {approved : List (ApprovedEntry Id)} {name : String} {events : List (MemberEvent Id)}
    (hmembers : ∀ m ∈ members, m.identity = me ∨ data.Lists m.identity)
    (happroved : ∀ e ∈ approved, data.Lists e.identity)
    (hrun : Run (fun n ev n' => n.next ev = some n') Heeds
      (start me remote data members approved netPubkey name) events n)
    {task : HelloTask Id} (hregister : n.next (.register task) = some n') :
    Welcomed me data members task.identity ∨ n.applied.Lists task.identity ∨ task.identity ∈ n.vouched := by
  have hinv : n.Inv (Welcomed me data members) :=
    hrun.invariant (I := fun _ n => n.Inv (Welcomed me data members)) (Inv.start hmembers happroved)
      fun _ _ _ _ hinv hheeds hstep => hinv.step hheeds hstep
  simp only [next] at hregister
  split at hregister
  · cases hregister
  · split at hregister
    · rename_i htask
      exact hinv.hellos task htask
    · cases hregister

end MemberNode

end Tetron.Daemon

/-! ### bob's node -/

namespace Tetron.Daemon.MemberNode

open Tetron.Membership Sample

/-- bob has joined through alice, with mallory on the roster. -/
noncomputable def bobNode : MemberNode Peer :=
  start .bob .alice (blob 5 [member .alice true, member .bob false, member .mallory false])
    [member .alice true, member .bob false, member .mallory false] [] .alice "mesh"

def helloTask (peer : Peer) (stage : HelloStage) : HelloTask Peer := ⟨peer, none, none, stage⟩

/-- A hello up to its registration. -/
def helloEvents (peer : Peer) (isApproved : Bool) : List (MemberEvent Peer) :=
  [.hello peer peer none none,
    .seat (helloTask peer (.checked isApproved (deriveIp peer defaultSubnet))) 100]

def seatedTask (peer : Peer) : HelloTask Peer := helloTask peer (.seated (deriveIp peer defaultSubnet))

/-- carol is vouched for by a remote, and says hello. -/
def vouchEvents (remote : Peer) : List (MemberEvent Peer) :=
  .control remote (.memberApproved .carol (deriveIp Peer.carol defaultSubnet) none none) :: helloEvents .carol true

/-- The `Welcome` of a first join lists bob, and the blob alice serves does not yet. -/
noncomputable def newNode : MemberNode Peer :=
  start .bob .alice (blob 4 [member .alice true]) [member .alice true, member .bob false] [] .alice "mesh"

theorem register_justified_carol : ∃ events, ∃ n n' : MemberNode Peer,
    Run (fun n ev n' => n.next ev = some n') Heeds newNode events n ∧
      n.next (.register (seatedTask .carol)) = some n' ∧
      (n.applied.Lists Peer.carol ∨ Peer.carol ∈ n.vouched) := by
  obtain ⟨n, hrun, hn⟩ : ∃ n : MemberNode Peer, Run (fun n ev n' => n.next ev = some n') Heeds newNode
      (vouchEvents .alice) n ∧ (n.next (.register (seatedTask .carol))).isSome = true :=
    Run.exists_of_exec (by decide +kernel)
  obtain ⟨n', hn'⟩ := Option.isSome_iff_exists.mp hn
  exact ⟨_, n, n', hrun, hn', (register_justified (by decide) (by decide) hrun hn').resolve_left fun h => nomatch h.1⟩

/-- mallory, an ordinary member, connects, drops and is redialed; on the new connection it vouches for
carol, whom no blob lists, and bob registers carol. -/
theorem stranger_registered : ∃ events, ∃ n n' : MemberNode Peer,
    Run (fun n ev n' => n.next ev = some n') (fun _ _ => True) bobNode events n ∧
      n.next (.register (seatedTask .carol)) = some n' ∧ n.flagged .mallory = false ∧
      ¬ (n.applied.Lists Peer.carol ∨ Peer.carol ∈ n.vouched) := by
  obtain ⟨n, hrun, hregister, hn⟩ : ∃ n : MemberNode Peer, Run (fun n ev n' => n.next ev = some n')
      (fun _ _ => True) bobNode
      (helloEvents .mallory false ++ [.register (seatedTask .mallory), .drop .mallory, .redial .mallory] ++
        vouchEvents .mallory) n ∧
      (n.next (.register (seatedTask .carol))).isSome = true ∧ n.flagged .mallory = false ∧
      ¬ (n.applied.Lists Peer.carol ∨ Peer.carol ∈ n.vouched) := Run.exists_of_exec (by decide +kernel)
  obtain ⟨n', hn'⟩ := Option.isSome_iff_exists.mp hregister
  exact ⟨_, n, n', hrun, hn', hn⟩

end Tetron.Daemon.MemberNode
