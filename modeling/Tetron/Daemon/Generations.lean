import Tetron.Daemon.Converge

/-!
# Generations while passes are interleaved

The poller compares the record's generation with the one it read at the start and writes without
looking again; a reconverge worker compares just before its write, but looks for its own removal first.
So a write may lower the generation, and an outdated record may make the node leave. Neither happens
where no write overtakes a pass that has made its comparison, and no outdated blob reaches a test that
does not compare.
-/

namespace Tetron.Daemon

open Tetron.Membership

variable {Id : Type} [DecidableEq Id] [Msgpack Id] [Blake3]

/-! ### The generation never goes down -/

/-- A pass that has compared generations is going on with one that is not below this one. -/
def Pass.AheadOf (generation : ℕ) : Pass Id → Prop
  | ⟨.poller, .fetching _ remoteGeneration⟩ => generation ≤ remoteGeneration
  | ⟨.poller, .fetched data⟩ => generation ≤ data.generation
  | ⟨_, .checked data⟩ => generation ≤ data.generation
  | _ => True

namespace Converger

variable [Endpoint Id]

/-- No write overtakes a pass that has compared generations, the poller's comparison holds for the
state as it is when the record arrives, and the blob of a record is not older than the record. -/
def InOrder (c : Converger Id) : ConvergeEvent Id → Prop
  | .mutate sec => c.node.state.generation + 1 < 2 ^ 64 ∧
      ∀ pass ∈ c.passes, pass.AheadOf (sec.run c.node.state).generation
  | .advance i record served =>
    match c.passes[i]? with
    | some ⟨.poller, .resolving currentGeneration _⟩ => ∀ r ∈ record,
        currentGeneration ≤ r.2 → c.node.state.generation ≤ r.2
    | some ⟨.poller, .fetching signed remoteGeneration⟩ =>
      ∀ data ∈ (fetchedBlob signed remoteGeneration served : Option (GroupBlob Id)),
        remoteGeneration ≤ data.generation
    | some ⟨_, .checked data⟩ => ∀ pass ∈ c.passes, pass.AheadOf data.generation
    | _ => True
  | _ => True

def Ahead (c : Converger Id) : Prop := ∀ pass ∈ c.passes, pass.AheadOf c.node.state.generation

variable {c c' : Converger Id} {i : ℕ} {record : Option (Hash × ℕ)} {served : Bytes} {path : ApplyPath}
  {before stage : Stage Id} {node : Node Id}

/-- The pass that steps is still ahead: the comparison it makes, or the one it has made, was with the
generation the state has now. -/
theorem aheadOf_advance (hpass : c.passes[i]? = some ⟨path, before⟩)
    (hahead : Pass.AheadOf c.node.state.generation ⟨path, before⟩) (horder : c.InOrder (.advance i record served))
    (h : c.node.Advances path record served before node stage) :
    Pass.AheadOf node.state.generation ⟨path, stage⟩ := by
  simp only [InOrder, hpass] at horder
  cases h with
  | skip | leave | prune => cases path <;> trivial
  | resolve hfetch =>
    cases path with
    | poller =>
      obtain ⟨hrecord, hnewer⟩ := le_of_recordToFetch_poller hfetch
      exact horder _ hrecord hnewer
    | reconverge => trivial
  | fetch hdata =>
    cases path with
    | poller => exact le_trans hahead (horder _ hdata)
    | reconverge => trivial
  | pass hcompared =>
    cases path with
    | poller => exact hahead
    | reconverge => exact hcompared rfl
  | write _ hstage =>
    rcases hstage with ⟨rfl, rfl⟩ | ⟨rfl, rfl⟩ <;> trivial

theorem Ahead.next (hahead : c.Ahead) {ev : ConvergeEvent Id} (horder : c.InOrder ev) (h : c.next ev = some c') :
    c'.Ahead := by
  refine forall_pass_next hahead (fun path => by cases path <;> trivial) ?_ ?_ ?_ h
  · rintro sec rfl
    exact horder.2
  · rintro i record served path data rfl hpass
    simpa only [InOrder, hpass] using horder
  · rintro i record served path before node stage rfl hpass hadvance
    exact aheadOf_advance hpass (hahead _ (List.mem_of_getElem? hpass)) horder hadvance

/-- **Monotone generations.** In a run in which no write overtakes a pass that has compared generations,
every write of the generation stores a value not below the one it replaces. -/
theorem generation_le_next {n₀ : Node Id} {events : List (ConvergeEvent Id)}
    (hrun : Runs InOrder n₀ events c) (ev : ConvergeEvent Id) (horder : c.InOrder ev)
    (h : c.next ev = some c') : c.node.state.generation ≤ c'.node.state.generation := by
  have hahead : c.Ahead := hrun.invariant (I := fun _ c => c.Ahead) (fun _ hpass => nomatch hpass)
    fun _ _ _ _ hahead horder hnext => hahead.next horder hnext
  rcases next_dataPlane h with ⟨sec, rfl⟩ | ⟨path, rfl⟩ | ⟨i, record, served, rfl⟩ | ⟨hstate, -, -⟩
  · cases h
    rcases (Section.frame_run c.node.state sec).generation_eq with heq | heq
    · exact heq.ge
    · exact le_of_le_of_eq (Nat.le_succ _) (heq.trans (succGeneration_of_lt horder.1)).symm
  · cases h
    exact le_rfl
  · obtain ⟨path, before, node, stage, hpass, hadvance, rfl⟩ := next_advance h
    rcases hadvance.generation_eq.2 with heq | ⟨data, rfl, heq⟩
    · exact heq.ge
    · have hpending := hahead _ (List.mem_of_getElem? hpass)
      exact le_of_le_of_eq (by cases path <;> exact hpending) heq.symm
  · rw [hstate]

end Converger

/-! ### What makes a node leave -/

/-- The record the poller is fetching is not below this generation, nor is a fetched blob that does not
list the node. -/
def Pass.Current (me : Id) (generation : ℕ) : Pass Id → Prop
  | ⟨.poller, .fetching _ remoteGeneration⟩ => generation ≤ remoteGeneration
  | ⟨_, .fetched data⟩ => data.Lists me ∨ generation ≤ data.generation
  | _ => True

namespace Converger

variable [Endpoint Id]

/-- No write overtakes a record the poller is fetching or a fetched blob that does not list the node, the
poller's comparison holds for the state as it is when the record arrives, and a blob that does not list
the node is, when fetched, not older than the record (poller) or than the state (reconverge worker). -/
def Timely (c : Converger Id) : ConvergeEvent Id → Prop
  | .mutate sec => ∀ pass ∈ c.passes, pass.Current c.node.myIdentity (sec.run c.node.state).generation
  | .advance i record served =>
    match c.passes[i]? with
    | some ⟨.poller, .resolving currentGeneration _⟩ => ∀ r ∈ record,
        currentGeneration ≤ r.2 → c.node.state.generation ≤ r.2
    | some ⟨path, .fetching signed remoteGeneration⟩ =>
      ∀ data ∈ (fetchedBlob signed remoteGeneration served : Option (GroupBlob Id)),
        data.Lists c.node.myIdentity ∨
          (match path with
            | .poller => remoteGeneration
            | .reconverge => c.node.state.generation) ≤ data.generation
    | some ⟨_, .checked data⟩ => ∀ pass ∈ c.passes, pass.Current c.node.myIdentity data.generation
    | _ => True
  | _ => True

def AllCurrent (c : Converger Id) : Prop :=
  ∀ pass ∈ c.passes, pass.Current c.node.myIdentity c.node.state.generation

variable {c c' : Converger Id} {i : ℕ} {record : Option (Hash × ℕ)} {served : Bytes} {path : ApplyPath}
  {before stage : Stage Id} {node : Node Id}

theorem current_advance (hpass : c.passes[i]? = some ⟨path, before⟩)
    (hcurrent : Pass.Current c.node.myIdentity c.node.state.generation ⟨path, before⟩)
    (htimely : c.Timely (.advance i record served)) (h : c.node.Advances path record served before node stage) :
    Pass.Current c.node.myIdentity node.state.generation ⟨path, stage⟩ := by
  simp only [Timely, hpass] at htimely
  cases h with
  | skip | leave | pass | prune => cases path <;> trivial
  | resolve hfetch =>
    cases path with
    | poller =>
      obtain ⟨hrecord, hnewer⟩ := le_of_recordToFetch_poller hfetch
      exact htimely _ hrecord hnewer
    | reconverge => trivial
  | fetch hdata =>
    cases path with
    | poller => exact (htimely _ hdata).imp_right (le_trans hcurrent)
    | reconverge => exact htimely _ hdata
  | write _ hstage =>
    rcases hstage with ⟨rfl, rfl⟩ | ⟨rfl, rfl⟩ <;> trivial

theorem AllCurrent.next (hcurrent : c.AllCurrent) {ev : ConvergeEvent Id} (htimely : c.Timely ev)
    (h : c.next ev = some c') : c'.AllCurrent := by
  unfold AllCurrent
  rw [myIdentity_next h]
  refine forall_pass_next (P := Pass.Current c.node.myIdentity) hcurrent
    (fun path => by cases path <;> trivial) ?_ ?_ ?_ h
  · rintro sec rfl
    exact htimely
  · rintro i record served path data rfl hpass
    cases path <;> simpa only [Timely, hpass] using htimely
  · rintro i record served path before node stage rfl hpass hadvance
    exact current_advance hpass (hcurrent _ (List.mem_of_getElem? hpass)) htimely hadvance

/-- **Leaving.** In a run in which no outdated record or blob reaches a test that does not compare, and no
write overtakes one that does, a node leaves only for a verified blob that does not list it and whose
generation is at least its own. -/
theorem leaves_for_current {n₀ : Node Id} {events : List (ConvergeEvent Id)} {data : GroupBlob Id}
    (hrun : Runs Timely n₀ events c) (h : c.next (.advance i record served) = some c')
    (hleft : c'.passes[i]? = some ⟨path, .left data⟩) :
    c.node.state.generation ≤ data.generation ∧ ¬ data.Lists c.node.myIdentity ∧
      ∃ signed generation served, fetchedBlob signed generation served = some data := by
  have hall : c.AllCurrent := hrun.invariant (I := fun _ c => c.AllCurrent) (fun _ hpass => nomatch hpass)
    fun _ _ _ _ hall htimely hnext => hall.next htimely hnext
  have hverified := hrun.verified.next h _ (List.mem_of_getElem? hleft) data rfl
  obtain ⟨path', before, node, stage, hpass, hadvance, rfl⟩ := next_advance h
  rw [List.getElem?_set_self (List.getElem?_eq_some_iff.mp hpass).1] at hleft
  cases hleft
  cases hadvance with
  | leave hunlisted =>
    have hcurrent : data.Lists c.node.myIdentity ∨ c.node.state.generation ≤ data.generation := by
      have := hall _ (List.mem_of_getElem? hpass)
      cases path <;> exact this
    exact ⟨hcurrent.resolve_left hunlisted, hunlisted, hverified⟩
  | write _ hstage => rcases hstage with ⟨-, heq⟩ | ⟨-, heq⟩ <;> cases heq

end Converger

end Tetron.Daemon

/-! ### alice polls while she admits carol -/

namespace Tetron.Daemon.Converger

open Tetron.Membership Sample

noncomputable def aliceNode : Node Peer where
  myIdentity := .alice
  networkName := "mesh"
  state := (Sample.state 1 [member .alice true, member .bob true]).refreshSnapshot
  peers := .new
  readers := []
  disconnects := []
  prunedPeers := []

/-- What bob, another coordinator, has published. -/
def bobsBlob (generation : ℕ) : GroupBlob Peer :=
  blob generation [member .alice true, member .bob true, member .mallory false]

theorem valid_bobsBlob (generation : ℕ) : (bobsBlob generation).valid = true :=
  (by decide +kernel : (bobsBlob 0).valid = true)

/-- The poller has made its comparison and goes on with bob's record. -/
noncomputable def polling (n : Node Peer) (generation : ℕ) : Converger Peer :=
  ⟨n, [⟨.poller, .fetching (recordOf (bobsBlob generation)).1 generation⟩]⟩

theorem runs_polling (generation : ℕ) (h : 1 < generation) :
    ∃ events, Runs InOrder aliceNode events (polling aliceNode generation) := by
  have hread : Runs InOrder aliceNode _ _ := Runs.step .nil (.start .poller) trivial rfl
  refine ⟨_, hread.step (.advance 0 (some (recordOf (bobsBlob generation))) []) ?_
    (next_resolve rfl (recordToFetch_poller h))⟩
  rintro r hr -
  cases hr
  exact h.le

/-- Once served, alice's poller passes its tests and is about to write. -/
theorem runs_checked {C : Converger Peer → ConvergeEvent Peer → Prop} {events : List (ConvergeEvent Peer)}
    {state : NetworkState Peer} {generation : ℕ}
    (hrun : Runs C aliceNode events (polling { aliceNode with state := state } generation))
    (hfetch : C (polling { aliceNode with state := state } generation)
      (.advance 0 none (Msgpack.toVecNamed (bobsBlob generation))))
    (hcheck : C ⟨{ aliceNode with state := state }, [⟨.poller, .fetched (bobsBlob generation)⟩]⟩ (.advance 0 none [])) :
    ∃ events, Runs C aliceNode events
      ⟨{ aliceNode with state := state }.reconcileRemoved (bobsBlob generation),
        [⟨.poller, .checked (bobsBlob generation)⟩]⟩ :=
  ⟨_, (hrun.step _ hfetch (next_fetch roundTrips Function.injective_id (valid_bobsBlob generation) rfl)).step
    (.advance 0 none []) hcheck rfl⟩

def carolsAdmission : Section Peer :=
  .admitPeer (admittedMember .carol (deriveIp Peer.carol defaultSubnet) 0 none none 20)

theorem generation_le_next_alice : ∃ events, ∃ c c' : Converger Peer, Runs InOrder aliceNode events c ∧
    c.next (.advance 0 none []) = some c' ∧ c.node.state.generation = 2 ∧ c'.node.state.generation = 3 ∧
    c.node.state.generation ≤ c'.node.state.generation := by
  obtain ⟨_, hpolling⟩ := runs_polling 3 (by decide)
  have hadmitted := hpolling.step (.mutate carolsAdmission) ⟨by decide, List.forall_mem_singleton.mpr
    (show (carolsAdmission.run aliceNode.state).generation ≤ 3 by decide +kernel)⟩ rfl
  have hserved : ∀ data ∈ fetchedBlob _ _ _, 3 ≤ data.generation := fun data hdata => by
    rw [fetchedBlob_toVecNamed roundTrips Function.injective_id (valid_bobsBlob 3)] at hdata
    exact Option.some.inj hdata ▸ le_rfl
  obtain ⟨_, hrun⟩ := runs_checked hadmitted hserved trivial
  exact ⟨_, _, _, hrun, rfl, by decide +kernel, by decide +kernel,
    generation_le_next hrun (.advance 0 none []) (List.forall_mem_singleton.mpr le_rfl) rfl⟩

/-- Between the poller's comparison and its write, alice admits carol and mints an invite. The write
takes both back. -/
theorem write_lowers_generation : ∃ events, ∃ c c' : Converger Peer,
    Runs (fun _ _ => True) aliceNode events c ∧
    c.next (.advance 0 none []) = some c' ∧ c'.node.state.generation < c.node.state.generation ∧
    c.node.state.members.isMember .carol = true ∧ c'.node.state.members.isMember .carol = false := by
  obtain ⟨_, hpolling⟩ := runs_polling 2 (by decide)
  have hadmitted := (Runs.step (hpolling.mono fun _ _ _ => trivial) (.mutate carolsAdmission) trivial rfl).step
    (.mutate (.inviteCreate [7] 10 0)) trivial rfl
  obtain ⟨events, hrun⟩ := runs_checked hadmitted trivial trivial
  exact ⟨_, _, _, hrun, rfl, by decide +kernel, by decide +kernel, by decide +kernel⟩

/-! ### bob hears of a record that does not list him -/

noncomputable def bobNode : Node Peer where
  myIdentity := .bob
  networkName := "mesh"
  state := { Sample.state 3 [member .alice true, member .bob false] with networkSecretKey := none }.refreshSnapshot
  peers := .new
  readers := []
  disconnects := []
  prunedPeers := []

/-- The network without bob. -/
def withoutBob (generation : ℕ) : GroupBlob Peer := blob generation [member .alice true]

theorem valid_withoutBob (generation : ℕ) : (withoutBob generation).valid = true :=
  (by decide +kernel : (withoutBob 0).valid = true)

/-- bob's reconverge worker goes on with the record of such a blob. -/
theorem runs_resolved (generation : ℕ) (hne : 3 ≠ generation) : ∃ events, Runs Timely bobNode events
    ⟨bobNode, [⟨.reconverge, .fetching (recordOf (withoutBob generation)).1 generation⟩]⟩ := by
  have hread : Runs Timely bobNode _ _ := Runs.step .nil (.start .reconverge) trivial rfl
  exact ⟨_, hread.step (.advance 0 (some (recordOf (withoutBob generation))) []) trivial
    (next_resolve rfl (recordToFetch_reconverge (s := bobNode.state) roundTrips Function.injective_id
      (NetworkState.sealed_refreshSnapshot _) (withoutBob generation) hne))⟩

theorem leaves_for_current_bob : ∃ events, ∃ c c' : Converger Peer, Runs Timely bobNode events c ∧
    c.next (.advance 0 none []) = some c' ∧ c'.passes[0]? = some ⟨.reconverge, .left (withoutBob 4)⟩ ∧
    c.node.state.generation ≤ (withoutBob 4).generation := by
  obtain ⟨_, hresolved⟩ := runs_resolved 4 (by decide)
  have hserved : ∀ data ∈ fetchedBlob _ _ _, data.Lists bobNode.myIdentity ∨ 3 ≤ data.generation :=
    fun data hdata => by
      rw [fetchedBlob_toVecNamed roundTrips Function.injective_id (valid_withoutBob 4)] at hdata
      exact Or.inr (Option.some.inj hdata ▸ by decide)
  have hfetched := hresolved.step (.advance 0 none _) hserved
    (next_fetch roundTrips Function.injective_id (valid_withoutBob 4) rfl)
  have hleave : Converger.next ⟨bobNode, [⟨.reconverge, .fetched (withoutBob 4)⟩]⟩ (.advance 0 none []) =
      some ⟨bobNode, [⟨.reconverge, .left (withoutBob 4)⟩]⟩ := rfl
  exact ⟨_, _, _, hfetched, hleave, rfl, (leaves_for_current hfetched hleave rfl).1⟩

/-- bob is a member at generation three. A record of generation one, from before he joined, makes him
leave. -/
theorem leaves_for_outdated : ∃ events, ∃ c c' : Converger Peer, Runs (fun _ _ => True) bobNode events c ∧
    c.next (.advance 0 none []) = some c' ∧ c'.passes[0]? = some ⟨.reconverge, .left (withoutBob 1)⟩ ∧
    (withoutBob 1).generation < c.node.state.generation := by
  obtain ⟨_, hresolved⟩ := runs_resolved 1 (by decide)
  have hfetched := Runs.step (hresolved.mono fun _ _ _ => trivial) (.advance 0 none _) trivial
    (next_fetch roundTrips Function.injective_id (valid_withoutBob 1) rfl)
  exact ⟨_, _, _, hfetched, rfl, rfl, by decide⟩

end Tetron.Daemon.Converger
