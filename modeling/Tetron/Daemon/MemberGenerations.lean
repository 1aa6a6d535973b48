import Tetron.Daemon.MemberNode
import Tetron.Daemon.Nuke

/-!
# The generation of a node without the network key

A node without the key cannot publish, and takes its generation from the blobs it applies. `Follower` is such
a node with the records published for its network so far. Two of its own mutations advance the generation all
the same. The hello of an approved peer seats the peer, whoever serves it; and `nuke_network` asks for the
coordinator flag of the roster where the other commands ask for the key.

A generation that has run ahead makes the node pass over newly signed records, until they catch up. It does
not run ahead if either happens only while a newer record is already out (`keyless_generation_le`).
-/

namespace Tetron.Daemon

open Tetron.Membership

structure Follower (Id : Type) [DecidableEq Id] [Msgpack Id] [Blake3] where
  node : MemberNode Id
  /-- Calls of `nuke_network` that have passed their checks. -/
  nukes : List NukePath
  /-- The blobs of the records published so far, by whatever holder of the key. -/
  published : List (GroupBlob Id)

inductive FollowEvent (Id : Type)
  | publish (data : GroupBlob Id)
  | apply (path : ApplyPath) (i : ℕ)
  | member (ev : MemberEvent Id)
  | nukeCheck (args : NukeArgs)
  | nukeCommit (i now : ℕ)
  /-- The commands and tasks that a holder of the key has besides. -/
  | mutate (sec : Section Id)

def MemberEvent.isApply {Id : Type} : MemberEvent Id → Bool
  | .apply .. => true
  | _ => false

variable {Id : Type} [DecidableEq Id] [Endpoint Id] [Msgpack Id] [Blake3]

/-- The last write-locked section of `nuke_network`. The state is left as it is where the call destroys the
network without a proposal, or has no proposal to cancel. -/
def nukeCommit (s : NetworkState Id) (myId : Id) (now : ℕ) : NukePath → NetworkState Id
  | .solo => s
  | .cancel => (cancelNuke s myId).toOption.getD s
  | .propose => proposeNuke s myId now

namespace Follower

def next (f : Follower Id) : FollowEvent Id → Option (Follower Id)
  | .publish data => some { f with published := data :: f.published }
  | .apply path i =>
    f.published[i]?.bind fun data => (f.node.next (.apply path data)).map fun node => { f with node := node }
  | .member ev => if ev.isApply then none else (f.node.next ev).map fun node => { f with node := node }
  | .nukeCheck args =>
    (nukeCheck f.node.state f.node.myIdentity args).toOption.map fun path => { f with nukes := path :: f.nukes }
  | .nukeCommit i now =>
    f.nukes[i]?.map fun path =>
      { f with
        node := { f.node with state := nukeCommit f.node.state f.node.myIdentity now path }
        nukes := f.nukes.eraseIdx i }
  | .mutate sec =>
    if f.node.state.networkSecretKey.isSome then
      some { f with node := { f.node with state := sec.run f.node.state } }
    else none

abbrev Runs (C : Follower Id → FollowEvent Id → Prop) (f₀ : Follower Id) (events : List (FollowEvent Id))
    (f : Follower Id) : Prop :=
  Run (fun f ev f' => f.next ev = some f') C f₀ events f

/-- The step mutates the state of a node that need not hold the key. -/
def Advances (f : Follower Id) : FollowEvent Id → Prop
  | .member (.seat ⟨id, _, _, .checked true _⟩ _) =>
    f.node.state.members.isMember id = false ∧ f.node.state.approved.isApproved id = true
  | .nukeCommit i _ => ∃ path ∈ f.nukes[i]?, path = .propose ∨
      path = .cancel ∧ (f.node.state.nukeProposals[Endpoint.display f.node.myIdentity]?).isSome = true
  | _ => False

/-- Such a step finds the key, or a published record that is newer than the state. -/
def StaysBehind (f : Follower Id) (ev : FollowEvent Id) : Prop :=
  f.Advances ev → f.node.state.networkSecretKey.isSome = true ∨
    ∃ data ∈ f.published, f.node.state.generation < data.generation

instance (f : Follower Id) (ev : FollowEvent Id) : Decidable (f.StaysBehind ev) := by
  unfold StaysBehind Advances
  split <;> infer_instance

end Follower

/-! ### Who advances the generation -/

section Generation

variable {s : NetworkState Id}

/-- Seating an approved peer advances the generation, serving any other hello does not. -/
theorem generation_admitApprovedMember (id : Id) (hostname veilidNodeId : Option String) (now : ℕ) :
    (admitApprovedMember s id hostname veilidNodeId now).2.generation = s.generation ∨
      s.members.isMember id = false ∧ s.approved.isApproved id = true ∧
        (admitApprovedMember s id hostname veilidNodeId now).2.generation = succGeneration s.generation := by
  unfold admitApprovedMember
  dsimp only
  split
  · exact Or.inl rfl
  · exact Or.inl rfl
  · rename_i e habsent happroved
    exact Or.inr ⟨by rw [MemberList.isMember, habsent]; rfl, by rw [ApprovedList.isApproved, happroved]; rfl, rfl⟩

theorem generation_nukeCommit (myId : Id) (now : ℕ) (path : NukePath) :
    (nukeCommit s myId now path).networkSecretKey = s.networkSecretKey ∧
      ((nukeCommit s myId now path).generation = s.generation ∨
        (path = .propose ∨ path = .cancel ∧ (s.nukeProposals[Endpoint.display myId]?).isSome = true) ∧
          (nukeCommit s myId now path).generation = succGeneration s.generation) := by
  cases path with
  | solo => exact ⟨rfl, Or.inl rfl⟩
  | propose => exact ⟨rfl, Or.inr ⟨Or.inl rfl, rfl⟩⟩
  | cancel =>
    have hcommit : nukeCommit s myId now .cancel = (cancelNuke s myId).toOption.getD s := rfl
    rw [hcommit, cancelNuke]
    split
    · exact ⟨rfl, Or.inl rfl⟩
    · rename_i hproposed
      exact ⟨rfl, Or.inr ⟨Or.inr ⟨rfl, by simpa using hproposed⟩, rfl⟩⟩

/-- The generation stays, and the key is not forgotten. -/
structure NetworkState.Keeps (s s' : NetworkState Id) : Prop where
  key : s'.networkSecretKey = none → s.networkSecretKey = none
  generation : s'.generation = s.generation

omit [Endpoint Id] in
theorem NetworkState.Keeps.refl (s : NetworkState Id) : s.Keeps s := ⟨fun h => h, rfl⟩

namespace MemberNode

variable {n n' : MemberNode Id}

theorem keeps_onControl (n : MemberNode Id) (remote : Id) (msg : Control.ControlMsg Id) :
    n.state.Keeps (n.onControl remote msg).state := by
  cases msg with
  | memberApproved => exact ⟨fun h => h, rfl⟩
  | adminGrant networkPubkey secretKey =>
    simp only [onControl]
    split
    · exact .refl _
    · split
      · exact .refl _
      · exact ⟨fun h => absurd h (Option.some_ne_none _), rfl⟩
  | _ => exact .refl _

/-- Serving a hello runs the section of an approved peer, or keeps the generation. -/
theorem state_onSeat {task : HelloTask Id} {now : ℕ} (h : n.onSeat task now = some n') :
    n.state.Keeps n'.state ∨ (∃ ip, task.stage = .checked true ip) ∧
      n'.state = (admitApprovedMember n.state task.identity task.hostname task.veilidNodeId now).2 := by
  unfold onSeat at h
  split at h
  · rename_i ip hstage
    refine Or.inr ⟨⟨ip, hstage⟩, ?_⟩
    split at h <;> rename_i hserved <;> rw [hserved] <;> cases h <;> rfl
  · cases h
    refine Or.inl ?_
    dsimp only
    split
    · exact ⟨fun h => h, rfl⟩
    · exact .refl _
  · cases h

/-- Of the steps that apply no blob, only the seat of an approved peer may advance the generation. -/
theorem state_next {ev : MemberEvent Id} (hev : ev.isApply = false) (h : n.next ev = some n') :
    n.state.Keeps n'.state ∨ ∃ task now, ev = .seat task now ∧ (∃ ip, task.stage = .checked true ip) ∧
      n'.state = (admitApprovedMember n.state task.identity task.hostname task.veilidNodeId now).2 := by
  cases ev with
  | drop peer | redial peer =>
    obtain ⟨-, h⟩ := Option.ite_none_right_eq_some.mp h
    cases h
    exact Or.inl (.refl _)
  | control remote msg =>
    obtain ⟨-, h⟩ := Option.ite_none_right_eq_some.mp h
    cases h
    exact Or.inl (n.keeps_onControl remote msg)
  | hello transport identity hostname veilidNodeId =>
    cases h
    unfold onHello
    split
    · exact Or.inl (.refl _)
    · split <;> exact Or.inl (.refl _)
  | seat task now =>
    obtain ⟨-, h⟩ := Option.ite_none_right_eq_some.mp h
    exact (state_onSeat h).imp_right fun hseat => ⟨task, now, rfl, hseat⟩
  | register task =>
    simp only [next] at h
    split at h
    · cases h
    · obtain ⟨-, h⟩ := Option.ite_none_right_eq_some.mp h
      cases h
      exact Or.inl (.refl _)
  | apply path data => cases hev
  | finalizeJoin netPubkey =>
    cases h
    exact Or.inl ⟨fun h => h, rfl⟩

end MemberNode

end Generation

namespace Follower

variable {f f' : Follower Id} {ev : FollowEvent Id}

/-- Without the key, some published record is as new as the state. -/
def Bounded (f : Follower Id) : Prop :=
  f.node.state.networkSecretKey = none → ∃ data ∈ f.published, f.node.state.generation ≤ data.generation

/-- A step on the node alone: its generation stays, or it advances as the condition allows. -/
theorem Bounded.of_advance {node : MemberNode Id} {nukes : List NukePath} (hinv : f.Bounded)
    (hkey : node.state.networkSecretKey = none → f.node.state.networkSecretKey = none)
    (hC : f.StaysBehind ev)
    (hgeneration : node.state.generation = f.node.state.generation ∨
      f.Advances ev ∧ node.state.generation = succGeneration f.node.state.generation) :
    Bounded ⟨node, nukes, f.published⟩ := by
  intro hnone
  have hnone := hkey hnone
  rcases hgeneration with hsame | ⟨hadvances, hbump⟩
  · rw [hsame]
    exact hinv hnone
  · rcases hC hadvances with hsome | ⟨data, hdata, hlt⟩
    · rw [hnone] at hsome
      cases hsome
    · exact ⟨data, hdata, hbump ▸ (Nat.mod_le _ _).trans hlt⟩

theorem Bounded.next (hinv : f.Bounded) (hC : f.StaysBehind ev) (h : f.next ev = some f') : f'.Bounded := by
  cases ev with
  | publish data =>
    cases h
    intro hnone
    obtain ⟨r, hr, hle⟩ := hinv hnone
    exact ⟨r, List.mem_cons_of_mem _ hr, hle⟩
  | apply path i =>
    obtain ⟨data, hdata, h⟩ := Option.bind_eq_some_iff.mp h
    obtain ⟨node, hnode, rfl⟩ := Option.map_eq_some_iff.mp h
    obtain ⟨state, hstate, rfl⟩ := Option.map_eq_some_iff.mp hnode
    exact fun _ => ⟨data, List.mem_of_getElem? hdata, (applyBlob_frame hstate).1.le⟩
  | member ev =>
    obtain ⟨hev, h⟩ := Option.ite_none_left_eq_some.mp h
    obtain ⟨node, hnode, rfl⟩ := Option.map_eq_some_iff.mp h
    rcases MemberNode.state_next (Bool.not_eq_true _ ▸ hev) hnode with hkeeps | ⟨task, now, rfl, ⟨ip, hstage⟩, hstate⟩
    · exact hinv.of_advance hkeeps.key hC (Or.inl hkeeps.generation)
    · obtain ⟨id, hostname, veilidNodeId, stage⟩ := task
      obtain rfl : stage = .checked true ip := hstage
      have hsection : node.state =
          (Section.admitApprovedMember id hostname veilidNodeId now).run f.node.state := hstate
      refine hinv.of_advance (fun hnone => Section.networkSecretKey_run (hsection ▸ hnone)) hC ?_
      rw [hstate]
      rcases generation_admitApprovedMember id hostname veilidNodeId now with hsame | ⟨habsent, happroved, hbump⟩
      · exact Or.inl hsame
      · exact Or.inr ⟨⟨habsent, happroved⟩, hbump⟩
  | nukeCheck args =>
    obtain ⟨path, -, rfl⟩ := Option.map_eq_some_iff.mp h
    exact hinv
  | nukeCommit i now =>
    obtain ⟨path, hpath, rfl⟩ := Option.map_eq_some_iff.mp h
    obtain ⟨hkey, hgeneration⟩ := generation_nukeCommit f.node.myIdentity now path
    exact hinv.of_advance (fun hnone => hkey ▸ hnone) hC
      (hgeneration.imp_right fun hbump => ⟨⟨path, hpath, hbump.1⟩, hbump.2⟩)
  | mutate sec =>
    obtain ⟨hsome, h⟩ := Option.ite_none_right_eq_some.mp h
    cases h
    intro hnone
    rw [Section.networkSecretKey_run hnone] at hsome
    cases hsome

/-- **A node without the network key is not ahead of every published record**, and so passes over no record
newer than all of them, in every run in which it admits approved peers, and commits proposals to destroy the
network, only while a record newer than its state is out. -/
theorem keyless_generation_le {me remote netPubkey : Id} {data : GroupBlob Id} {members : List (Member Id)}
    {approved : List (ApprovedEntry Id)} {name : String} {published : List (GroupBlob Id)}
    {events : List (FollowEvent Id)} (hstart : ∃ record ∈ published, data.generation ≤ record.generation)
    (hrun : Runs StaysBehind ⟨.start me remote data members approved netPubkey name, [], published⟩ events f)
    (hkey : f.node.state.networkSecretKey = none) :
    (∃ record ∈ f.published, f.node.state.generation ≤ record.generation) ∧
      ∀ signed : GroupBlob Id, (∀ record ∈ f.published, record.generation < signed.generation) →
        (∀ hash currentHash, pollerShouldFetch signed.generation hash f.node.state.generation currentHash = true) ∧
          ¬ signed.generation < f.node.state.generation := by
  have hinv : f.Bounded :=
    hrun.invariant (I := fun _ f => f.Bounded) (fun _ => hstart) fun _ _ _ _ hinv hC h => hinv.next hC h
  obtain ⟨record, hrecord, hle⟩ := hinv hkey
  refine ⟨⟨record, hrecord, hle⟩, fun signed hnewest => ?_⟩
  have hnewer : f.node.state.generation < signed.generation := hle.trans_lt (hnewest record hrecord)
  refine ⟨fun hash currentHash => ?_, hnewer.le.not_gt⟩
  simp [pollerShouldFetch, hnewer.le, hnewer.ne']

end Follower

end Tetron.Daemon

/-! ### bob admits two peers that mallory approved -/

namespace Tetron.Daemon.Follower

open Tetron.Membership Sample MemberNode

/-- bob's node, at the generation of the one record published. -/
noncomputable def bob : Follower Peer where
  node := bobNode
  nukes := []
  published := [blob 5 [member .alice true, member .bob false, member .mallory false]]

/-- The blob with which alice kicks mallory. -/
def kickMallory : GroupBlob Peer := blob 6 [member .alice true, member .bob false]

def victorsIp : Ipv4Addr := deriveIpWithIndex Peer.victor 1 defaultSubnet

/-- mallory, whom bob has redialed, approves carol and victor, and both say hello to bob. -/
def approvedHellos : List (MemberEvent Peer) :=
  helloEvents .mallory false ++ [.register (seatedTask .mallory), .drop .mallory, .redial .mallory] ++
    vouchEvents .mallory ++ [.control .mallory (.memberApproved .victor victorsIp none none),
      .hello .victor .victor none none, .seat (helloTask .victor (.checked true victorsIp)) 100]

theorem keyless_generation_le_bob : ∃ f : Follower Peer,
    Runs StaysBehind bob (.publish kickMallory :: (vouchEvents .alice).map .member) f ∧
      f.node.state.networkSecretKey = none ∧ f.node.state.generation = 6 ∧
      ∃ record ∈ f.published, f.node.state.generation ≤ record.generation := by
  refine Run.exists_of_exec_imp (fun f => f.node.state.networkSecretKey = none ∧ f.node.state.generation = 6)
    (by decide +kernel) fun f hrun ⟨hkey, hsix⟩ => ?_
  have hstart : ∃ record ∈ bob.published, 5 ≤ record.generation := ⟨_, List.mem_singleton_self _, le_rfl⟩
  exact ⟨hkey, hsix, (keyless_generation_le hstart hrun hkey).1⟩

/-- bob's generation has passed that of every record, and the poller does not fetch the one that kicks mallory. -/
theorem keyless_generation_ahead : ∃ f : Follower Peer,
    Runs (fun _ _ => True) bob (approvedHellos.map .member ++ [.publish kickMallory]) f ∧
      f.node.state.networkSecretKey = none ∧ f.node.state.members.isMember .mallory = true ∧
      kickMallory ∈ f.published ∧ (∀ record ∈ f.published, record.generation < f.node.state.generation) ∧
      ∀ hash currentHash,
        pollerShouldFetch kickMallory.generation hash f.node.state.generation currentHash = false := by
  obtain ⟨f, hrun, hkey, hlisted, hseven, hpublished⟩ : ∃ f : Follower Peer,
      Runs (fun _ _ => True) bob (approvedHellos.map .member) f ∧ f.node.state.networkSecretKey = none ∧
      f.node.state.members.isMember .mallory = true ∧ f.node.state.generation = 7 ∧
      f.published.map GroupBlob.generation = [5] := Run.exists_of_exec (by decide +kernel)
  refine ⟨{ f with published := kickMallory :: f.published }, hrun.snoc trivial rfl, hkey, hlisted,
    List.mem_cons_self, fun record hrecord => ?_, fun hash currentHash => ?_⟩
  · have hmem : record.generation ∈ [6, 5] := hpublished ▸ List.mem_map_of_mem hrecord
    have hgeneration : record.generation = 6 ∨ record.generation = 5 := by simpa using hmem
    dsimp only
    omega
  · simp [pollerShouldFetch, hseven, kickMallory, blob]

end Tetron.Daemon.Follower
