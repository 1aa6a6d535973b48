import Tetron.Daemon.Adopt
import Tetron.Daemon.Nuke
import Tetron.Lib.Run

/-!
# Proposals and the coordinators behind them

Proposals are counted by their keys. No operation that takes a coordinator off the roster, or its flag,
takes its proposal along, and a call checks its own flag, and whether it is the only one, under an earlier lock
than the one under which it proposes or takes the key for its tombstone. `Council` is a node with its nuke calls
under way between all other edits of its state. Where nobody is unseated over an open proposal, every counted
proposal is by a coordinator of the current roster; where in addition no second coordinator turns up under a call
that found one, no tombstone goes out over the heads of two.
-/

namespace Tetron.Daemon

open Tetron.Membership

section System

/-- A nuke call past its first check, with the proposal it is to look up yet. -/
structure OpenCall where
  path : NukePath
  second : Option String
deriving DecidableEq

structure Council (Id : Type) [DecidableEq Id] [Msgpack Id] [Blake3] where
  myId : Id
  state : NetworkState Id
  calls : List OpenCall
  /-- Every decision for a tombstone: the state it was taken in and, on the consensus path, the clock and the time
  to live of a proposal. -/
  decided : List (NetworkState Id × Option (ℕ × ℕ))

inductive CouncilEvent (Id : Type)
  | mutate (sec : Section Id)
  | apply (path : ApplyPath) (data : GroupBlob Id)
  | check (args : NukeArgs)
  | second (short : String) (now nukeTtl : ℕ)
  | cancel
  | propose (now nukeTtl : ℕ)
  /-- A call that found a single coordinator takes the key for its tombstone. -/
  | solo

variable {Id : Type} [DecidableEq Id] [Endpoint Id] [Msgpack Id] [Blake3]

/-- The sections of `nuke_network` itself. -/
def Section.onNuke : Section Id → Bool
  | .cancelNuke _ | .proposeNuke .. => true
  | _ => false

namespace Council

/-- The last section of a call on the consensus path. -/
def onPropose (c : Council Id) (now nukeTtl : ℕ) : Council Id :=
  match nukePropose c.state c.myId now nukeTtl with
  | .destroyed s _ _ => { c with state := s, decided := (s, some (now, nukeTtl)) :: c.decided }
  | .proposed s | .cancelled s => { c with state := s }

def next (c : Council Id) : CouncilEvent Id → Option (Council Id)
  | .mutate sec => if sec.onNuke then none else some { c with state := sec.run c.state }
  | .apply path data => (applyBlob path c.state data).map fun s => { c with state := s }
  | .check args =>
    match nukeCheck c.state c.myId args with
    | .error _ => none
    | .ok path => some { c with calls := ⟨path, args.second⟩ :: c.calls }
  | .second short now nukeTtl =>
    if ⟨.propose, some short⟩ ∈ c.calls then
      let calls := c.calls.erase ⟨.propose, some short⟩
      match resolveNukeProposer c.state.nukeProposals now nukeTtl short with
      | .error _ => some { c with calls := calls }
      | .ok _ => some { c with calls := ⟨.propose, none⟩ :: calls }
    else none
  | .cancel =>
    if c.calls.any (·.path == .cancel) then
      some { c with
        state := (cancelNuke c.state c.myId).toOption.getD c.state
        calls := c.calls.eraseP (·.path == .cancel) }
    else none
  | .propose now nukeTtl =>
    if ⟨.propose, none⟩ ∈ c.calls then
      some (onPropose { c with calls := c.calls.erase ⟨.propose, none⟩ } now nukeTtl)
    else none
  | .solo =>
    if c.calls.any (·.path == .solo) then
      some { c with calls := c.calls.eraseP (·.path == .solo), decided := (c.state, none) :: c.decided }
    else none

/-- A call is under way that found a single coordinator. -/
def Soloing (c : Council Id) : Prop := ∃ call ∈ c.calls, call.path = .solo

end Council

end System

/-! ### Accountable proposals -/

section Proposals

variable {Id : Type} [DecidableEq Id] [Endpoint Id] [Msgpack Id] [Blake3]

/-- A key of the proposals belongs to a coordinator of the roster. -/
def NetworkState.ByCoordinator (s : NetworkState Id) (key : Bytes) : Prop :=
  ∃ id, s.flagged id = true ∧ Endpoint.display id = key

def NetworkState.Accountable (s : NetworkState Id) : Prop :=
  ∀ key ∈ s.nukeProposals, s.ByCoordinator key

/-- As many coordinators of the roster as the threshold asks for have an unexpired proposal. -/
def NetworkState.Agreed (s : NetworkState Id) (now nukeTtl : ℕ) : Prop :=
  ∃ ids : List Id, ids.Nodup ∧ s.nukeConsensusThreshold ≤ ids.length ∧ ∀ id ∈ ids, s.flagged id = true ∧
    ∃ proposedAt, s.nukeProposals[Endpoint.display id]? = some proposedAt ∧ now - proposedAt < nukeTtl

variable {s : NetworkState Id}

omit [Blake3] in
theorem mem_activeNukeProposers {proposals : Std.ExtTreeMap Bytes ℕ} {now ttlSecs : ℕ} {key : Bytes} :
    key ∈ activeNukeProposers proposals now ttlSecs ↔
      ∃ proposedAt, proposals[key]? = some proposedAt ∧ now - proposedAt < ttlSecs := by
  simp only [activeNukeProposers, List.mem_map, List.mem_filter, decide_eq_true_eq, Prod.exists,
    exists_and_right, exists_eq_right, Std.ExtTreeMap.mem_toList_iff_getElem?_eq_some]

theorem NetworkState.Accountable.byCoordinator (h : s.Accountable) {now nukeTtl : ℕ} {key : Bytes}
    (hkey : key ∈ activeNukeProposers s.nukeProposals now nukeTtl) : s.ByCoordinator key := by
  obtain ⟨proposedAt, hget, -⟩ := mem_activeNukeProposers.mp hkey
  exact h key (Std.ExtTreeMap.mem_iff_isSome_getElem?.mpr (by rw [hget]; rfl))

omit [Blake3] in
theorem nodup_activeNukeProposers (proposals : Std.ExtTreeMap Bytes ℕ) (now ttlSecs : ℕ) :
    (activeNukeProposers proposals now ttlSecs).Nodup := by
  have hkeys : (proposals.toList.map Prod.fst).Nodup := by
    rw [Std.ExtTreeMap.map_fst_toList_eq_keys]
    exact Std.ExtTreeMap.nodup_keys
  exact hkeys.sublist (List.filter_sublist.map Prod.fst)

/-- Enough active proposals are agreement, if all of them are by coordinators. -/
theorem NetworkState.Accountable.agreed (h : s.Accountable) {now nukeTtl : ℕ}
    (hcount : s.nukeConsensusThreshold ≤ (activeNukeProposers s.nukeProposals now nukeTtl).length) :
    s.Agreed now nukeTtl := by
  have howner : ∀ key ∈ activeNukeProposers s.nukeProposals now nukeTtl, s.ByCoordinator key :=
    fun key hkey => h.byCoordinator hkey
  choose owner hflagged hdisplay using howner
  let ids := (activeNukeProposers s.nukeProposals now nukeTtl).attach.map fun key => owner key.1 key.2
  have hkeys : ids.map Endpoint.display = activeNukeProposers s.nukeProposals now nukeTtl := by
    calc ids.map Endpoint.display = _ := List.map_map
      _ = _ := List.map_congr_left fun key _ => hdisplay key.1 key.2
      _ = activeNukeProposers s.nukeProposals now nukeTtl := List.attach_map_subtype_val _
  -- the owners differ because their keys do
  refine ⟨ids, .of_map Endpoint.display ?_, ?_, fun id hid => ?_⟩
  · rw [hkeys]
    exact nodup_activeNukeProposers _ _ _
  · rw [← hkeys, List.length_map] at hcount
    exact hcount
  · obtain ⟨key, -, rfl⟩ := List.mem_map.mp hid
    obtain ⟨proposedAt, hget, hfresh⟩ := mem_activeNukeProposers.mp key.2
    exact ⟨hflagged key.1 key.2, proposedAt, by rwa [hdisplay key.1 key.2], hfresh⟩

/-! ### Who may be unseated -/

/-- The identity a section may take the flag from. -/
def Section.unseats : Section Id → Option Id
  | .peerCleanup id true _ => some id
  | .removeMemberRosterOnly id => some id
  -- a re-admission replaces the entry
  | .admitPeer m => some m.identity
  | _ => none

omit [Endpoint Id] [Msgpack Id] [Blake3] in
theorem flagged_of_modify {l : MemberList Id} {e : MemberList.Edit Id} {id id' : Id}
    (he : ∀ m, m.isCoordinator = true → (e.apply m).isCoordinator = true)
    (h : (l.get id).any Member.isCoordinator = true) :
    ((l.modify id' e).get id).any Member.isCoordinator = true := by
  rw [MemberList.get_modify]
  split
  · rename_i heq
    obtain ⟨m, hm, hflag⟩ := (Option.any_eq_true _ _).mp h
    rw [← heq, hm]
    exact he m hflag
  · exact h

omit [Endpoint Id] [Msgpack Id] [Blake3] in
theorem flagged_of_remove {l : MemberList Id} {id id' : Id} (hne : id ≠ id')
    (h : (l.get id).any Member.isCoordinator = true) :
    ((l.remove id').get id).any Member.isCoordinator = true := by
  rwa [MemberList.get_remove, if_neg hne]

omit [Endpoint Id] [Msgpack Id] [Blake3] in
theorem flagged_of_addOrKeep {l : MemberList Id} {m : Member Id} {id : Id} (hne : id ≠ m.identity)
    (h : (l.get id).any Member.isCoordinator = true) :
    ((l.addOrKeep m).get id).any Member.isCoordinator = true := by
  rcases MemberList.addOrKeep_eq l m with ⟨hfree, heq⟩ | ⟨-, heq⟩
  · rwa [heq, MemberList.get_insert, if_neg hne]
  · rwa [heq]

/-- A coordinator stays one through every section that does not unseat it. -/
theorem Section.flagged_run (sec : Section Id) {id : Id} (h : s.flagged id = true) (hseat : sec.unseats ≠ some id) :
    (sec.run s).flagged id = true := by
  by_cases htables : sec.onTables = true
  · rcases Section.run_of_onTables s htables with heq | ⟨_, _, heq, -⟩ <;> rw [heq] <;> exact h
  cases sec with
  | peerCleanup id' prunesMember now =>
    cases prunesMember with
    | true => exact flagged_of_remove (fun heq => hseat (heq ▸ rfl)) h
    | false => exact flagged_of_modify (fun _ hm => hm) h
  | removeMemberRosterOnly id' => exact flagged_of_remove (fun heq => hseat (heq ▸ rfl)) h
  | admitPeer m => exact flagged_of_addOrKeep (fun heq => hseat (heq ▸ rfl)) h
  | applyVeilidNodeId id' node => exact flagged_of_modify (fun _ hm => hm) h
  | knownMemberHello id' hostname veilidNodeId => exact flagged_of_modify (fun _ hm => hm) h
  | adminGrant key myIdentity => exact flagged_of_modify (fun _ _ => rfl) h
  | publishGrant grantee => exact flagged_of_modify (fun _ _ => rfl) h
  | admitApprovedMember id' hostname veilidNodeId now =>
    simp only [Section.run, Daemon.admitApprovedMember]
    split
    · exact h
    · exact h
    · rename_i e habsent happroved
      -- only an identity that is not on the roster is seated
      have hother : id ≠ id' := by
        rintro rfl
        rw [NetworkState.flagged, habsent] at h
        cases h
      exact flagged_of_addOrKeep hother h
  | cancelNuke | proposeNuke | inviteCreate | inviteRevoke | redeemInvite | restoreDenied => exact absurd rfl htables
  | updateSnapshot | memberApproved | finalizeJoin => exact h

theorem Section.nukeProposals_run (sec : Section Id) (h : sec.onNuke = false) :
    (sec.run s).nukeProposals = s.nukeProposals := by
  by_cases hinvites : sec.onInvites = true
  · have htables : sec.onTables = true := by cases sec <;> first | exact hinvites | rfl
    rcases Section.run_of_onTables s htables with heq | ⟨_, _, heq, -, hproposals⟩ <;> rw [heq]
    exact hproposals hinvites
  cases sec with
  | peerCleanup id' prunesMember now => cases prunesMember <;> rfl
  | admitApprovedMember id' hostname veilidNodeId now =>
    simp only [Section.run, Daemon.admitApprovedMember]
    split <;> rfl
  | cancelNuke | proposeNuke => cases h
  | inviteCreate | inviteRevoke | redeemInvite | restoreDenied => exact absurd rfl hinvites
  | _ => rfl

end Proposals

/-! ### The run -/

namespace Council

variable {Id : Type} [DecidableEq Id] [Endpoint Id] [Msgpack Id] [Blake3]

/-- Nobody with an open proposal is unseated, a blob lists the proposals of its own coordinators only, the node
still holds its flag when it proposes, and a call that found a single coordinator does not come to meet two. -/
def Orderly (c : Council Id) : CouncilEvent Id → Prop
  | .mutate sec =>
    (∀ id, sec.unseats = some id → c.state.flagged id = true →
      c.state.nukeProposals[Endpoint.display id]? = none) ∧
    (c.Soloing → coordinatorCount (sec.run c.state).members.all ≤ 1)
  | .apply path data => ∀ roster, path.roster data = some roster →
      (∀ key ∈ data.nukeProposals, ∃ m ∈ (MemberList.fromMembers roster).all,
        m.isCoordinator = true ∧ Endpoint.display m.identity = key) ∧
      (c.Soloing → coordinatorCount (MemberList.fromMembers roster).all ≤ 1)
  | .propose _ _ => c.state.flagged c.myId = true
  | _ => True

abbrev Runs (c₀ : Council Id) (events : List (CouncilEvent Id)) (c : Council Id) : Prop :=
  Run (fun c e c' => next c e = some c') Orderly c₀ events c

structure Inv (c : Council Id) : Prop where
  accountable : c.state.Accountable
  alone : c.Soloing → coordinatorCount c.state.members.all ≤ 1
  agreed : ∀ s now nukeTtl, (s, some (now, nukeTtl)) ∈ c.decided → s.Agreed now nukeTtl
  only : ∀ s, (s, none) ∈ c.decided → coordinatorCount s.members.all ≤ 1

variable {c c' : Council Id}

theorem accountable_mutate (h : c.state.Accountable) {sec : Section Id} (hnuke : sec.onNuke = false)
    (horderly : c.Orderly (.mutate sec)) : (sec.run c.state).Accountable := by
  intro key hkey
  rw [Section.nukeProposals_run sec hnuke] at hkey
  obtain ⟨id, hflagged, rfl⟩ := h key hkey
  refine ⟨id, Section.flagged_run sec hflagged fun hunseats => ?_, rfl⟩
  have hnone := horderly.1 id hunseats hflagged
  have hsome := Std.ExtTreeMap.mem_iff_isSome_getElem?.mp hkey
  rw [hnone] at hsome
  cases hsome

theorem accountable_apply {path : ApplyPath} {data : GroupBlob Id} {s' : NetworkState Id}
    (horderly : c.Orderly (.apply path data)) (happly : applyBlob path c.state data = some s') :
    s'.Accountable := by
  obtain ⟨roster, hroster, rfl⟩ := Option.map_eq_some_iff.mp happly
  intro key hkey
  obtain ⟨m, hm, hflag, hdisplay⟩ := (horderly roster hroster).1 key hkey
  refine ⟨m.identity, ?_, hdisplay⟩
  have hget := MemberList.mem_all_iff.mp hm
  exact (Option.any_eq_true _ _).mpr ⟨m, hget, hflag⟩

theorem accountable_cancel (h : c.state.Accountable) (myId : Id) :
    ((cancelNuke c.state myId).toOption.getD c.state).Accountable := by
  unfold cancelNuke
  split
  · exact h
  · intro key hkey
    exact h key (Std.ExtTreeMap.mem_erase.mp hkey).2

theorem accountable_propose (h : c.state.Accountable) (hflagged : c.state.flagged c.myId = true) (now : ℕ) :
    (proposeNuke c.state c.myId now).Accountable := by
  intro key hkey
  rcases Std.ExtTreeMap.mem_insert.mp hkey with hself | hold
  · exact ⟨c.myId, hflagged, Std.LawfulEqOrd.eq_of_compare hself⟩
  · exact h key hold

theorem members_cancelNuke (s : NetworkState Id) (myId : Id) :
    ((cancelNuke s myId).toOption.getD s).members = s.members := by
  unfold cancelNuke
  split <;> rfl

/-- With fewer calls under way, no more of them found a single coordinator. -/
theorem Inv.withCalls (h : c.Inv) {calls : List OpenCall} (hsub : calls ⊆ c.calls) :
    ({ c with calls := calls } : Council Id).Inv := by
  refine ⟨h.accountable, ?_, h.agreed, h.only⟩
  rintro ⟨call, hmem, hpath⟩
  exact h.alone ⟨call, hsub hmem, hpath⟩

theorem Inv.openCall (h : c.Inv) {call : OpenCall}
    (hcall : call.path = .solo → coordinatorCount c.state.members.all ≤ 1) :
    ({ c with calls := call :: c.calls } : Council Id).Inv := by
  refine ⟨h.accountable, ?_, h.agreed, h.only⟩
  rintro ⟨call', hmem, hpath⟩
  rcases List.mem_cons.mp hmem with rfl | hold
  · exact hcall hpath
  · exact h.alone ⟨call', hold, hpath⟩

theorem Inv.addDecision (h : c.Inv) {s : NetworkState Id} {how : Option (ℕ × ℕ)}
    (hagreed : ∀ now nukeTtl, how = some (now, nukeTtl) → s.Agreed now nukeTtl)
    (honly : how = none → coordinatorCount s.members.all ≤ 1) :
    ({ c with decided := (s, how) :: c.decided } : Council Id).Inv := by
  refine ⟨h.accountable, h.alone, fun s' now nukeTtl hmem => ?_, fun s' hmem => ?_⟩
  · rcases List.mem_cons.mp hmem with heq | hold
    · cases heq
      exact hagreed now nukeTtl rfl
    · exact h.agreed s' now nukeTtl hold
  · rcases List.mem_cons.mp hmem with heq | hold
    · cases heq
      exact honly rfl
    · exact h.only s' hold

omit [Endpoint Id] in
/-- A check that ends on the solo path found a single coordinator. -/
theorem count_of_nukeCheck {s : NetworkState Id} {myId : Id} {args : NukeArgs}
    (h : nukeCheck s myId args = .ok .solo) : coordinatorCount s.members.all ≤ 1 := by
  simp only [nukeCheck] at h
  split at h
  · cases h
  · split at h
    · assumption
    · split at h
      · cases h
      · split at h <;> cases h

theorem Inv.propose (h : c.Inv) (hflagged : c.state.flagged c.myId = true) (now nukeTtl : ℕ) :
    (c.onPropose now nukeTtl).Inv := by
  have haccountable := accountable_propose h.accountable hflagged now
  have hproposed : ({ c with state := proposeNuke c.state c.myId now } : Council Id).Inv :=
    ⟨haccountable, h.alone, h.agreed, h.only⟩
  unfold onPropose nukePropose
  by_cases hcount : (activeNukeProposers (proposeNuke c.state c.myId now).nukeProposals now nukeTtl).length <
      (proposeNuke c.state c.myId now).nukeConsensusThreshold
  · simp only [if_pos hcount]
    exact hproposed
  · simp only [if_neg hcount]
    refine hproposed.addDecision (fun now' nukeTtl' heq => ?_) fun heq => nomatch heq
    cases heq
    exact haccountable.agreed (not_lt.mp hcount)

theorem Inv.step (h : c.Inv) {e : CouncilEvent Id} (horderly : c.Orderly e) (hnext : next c e = some c') :
    c'.Inv := by
  cases e with
  | mutate sec =>
    simp only [next] at hnext
    split at hnext
    · cases hnext
    · rename_i hnuke
      cases hnext
      exact ⟨accountable_mutate h.accountable (by simpa using hnuke) horderly, horderly.2, h.agreed, h.only⟩
  | apply path data =>
    obtain ⟨s', happly, rfl⟩ := Option.map_eq_some_iff.mp hnext
    refine ⟨accountable_apply horderly happly, fun hsolo => ?_, h.agreed, h.only⟩
    obtain ⟨roster, hroster, rfl⟩ := Option.map_eq_some_iff.mp happly
    exact (horderly roster hroster).2 hsolo
  | check args =>
    simp only [next] at hnext
    split at hnext
    · cases hnext
    · rename_i path hcheck
      cases hnext
      refine h.openCall fun hpath => ?_
      cases hpath
      exact count_of_nukeCheck hcheck
  | second short now nukeTtl =>
    simp only [next] at hnext
    split at hnext
    · have hrest := h.withCalls (List.erase_subset (a := ⟨.propose, some short⟩))
      split at hnext <;> cases hnext
      · exact hrest
      · exact hrest.openCall fun hpath => nomatch hpath
    · cases hnext
  | cancel =>
    simp only [next] at hnext
    split at hnext
    · cases hnext
      have hrest := h.withCalls (List.eraseP_subset (p := (·.path == .cancel)))
      refine ⟨accountable_cancel h.accountable c.myId, fun hsolo => ?_, h.agreed, h.only⟩
      change coordinatorCount ((cancelNuke c.state c.myId).toOption.getD c.state).members.all ≤ 1
      rw [members_cancelNuke]
      exact hrest.alone hsolo
    · cases hnext
  | propose now nukeTtl =>
    simp only [next] at hnext
    split at hnext
    · cases hnext
      exact (h.withCalls List.erase_subset).propose horderly now nukeTtl
    · cases hnext
  | solo =>
    simp only [next] at hnext
    split at hnext
    · rename_i hany
      cases hnext
      obtain ⟨call, hcall, hpath⟩ := List.any_eq_true.mp hany
      refine (h.withCalls List.eraseP_subset).addDecision (fun _ _ heq => nomatch heq) fun _ => ?_
      exact h.alone ⟨call, hcall, eq_of_beq hpath⟩
    · cases hnext

/-- **Consensus is of coordinators**: along every orderly run, each counted proposal is by a coordinator of
the current roster, every tombstone on the consensus path was decided with as many of them as the threshold asks
for, and every other one under a roster that flags one coordinator at most. -/
theorem consensus_of_coordinators {c₀ : Council Id} {events : List (CouncilEvent Id)}
    (hstart : c₀.state.Accountable) (hidle : c₀.calls = []) (hfresh : c₀.decided = []) (hrun : Runs c₀ events c) :
    (∀ now nukeTtl, ∀ key ∈ activeNukeProposers c.state.nukeProposals now nukeTtl, c.state.ByCoordinator key) ∧
      (∀ s now nukeTtl, (s, some (now, nukeTtl)) ∈ c.decided → s.Agreed now nukeTtl) ∧
        ∀ s, (s, none) ∈ c.decided → coordinatorCount s.members.all ≤ 1 := by
  have hinv : c.Inv := by
    have hnone : ∀ d, d ∉ c₀.decided := by
      intro d hmem
      rw [hfresh] at hmem
      cases hmem
    refine hrun.invariant (I := fun _ c => c.Inv) ⟨hstart, ?_, ?_, ?_⟩ fun _ c e c' h horderly hnext =>
      h.step horderly hnext
    · rintro ⟨call, hmem, -⟩
      rw [hidle] at hmem
      cases hmem
    · exact fun s now nukeTtl hmem => absurd hmem (hnone _)
    · exact fun s hmem => absurd hmem (hnone _)
  exact ⟨fun now nukeTtl key hkey => hinv.accountable.byCoordinator hkey, hinv.agreed, hinv.only⟩

end Council

end Tetron.Daemon

namespace Tetron.Daemon.Council

open Tetron.Membership Sample

/-- Alice, bob and carol coordinate; bob's proposal is open. -/
def bobsProposal : Council Peer where
  myId := .alice
  state := { Sample.state 5 [member .alice true, member .bob true, member .carol true] with
    nukeProposals := (∅ : Std.ExtTreeMap Bytes ℕ).insert (name .bob) 90 }
  calls := []
  decided := []

def forced : NukeArgs := ⟨true, false, none⟩

theorem accountable_bobsProposal : bobsProposal.state.Accountable := by
  intro key hkey
  rcases Std.ExtTreeMap.mem_insert.mp hkey with hbob | hnone
  · exact ⟨.bob, by decide, Std.LawfulEqOrd.eq_of_compare hbob⟩
  · simp at hnone

theorem runs_forced {c : Council Peer} (hcalls : c.calls = [])
    (hcheck : nukeCheck c.state c.myId forced = .ok .propose) (hflagged : c.state.flagged c.myId = true)
    (now nukeTtl : ℕ) : Runs c [.check forced, .propose now nukeTtl] (c.onPropose now nukeTtl) := by
  have hfirst : Runs c ([] ++ [.check forced]) { c with calls := [⟨.propose, none⟩] } := by
    refine Run.nil.snoc trivial ?_
    simp only [next, hcheck, hcalls]
    rfl
  have hsecond : next { c with calls := [⟨.propose, none⟩] } (.propose now nukeTtl) =
      some (c.onPropose now nukeTtl) := by
    simp only [next, List.mem_singleton, if_true, List.erase_cons_head]
    rw [← hcalls]
  exact Run.snoc hfirst (show Orderly _ (.propose now nukeTtl) from hflagged) hsecond

/-- Alice's proposal after bob's decides for the tombstone. -/
theorem consensus_of_coordinators_alice :
    Runs bobsProposal [.check forced, .propose 100 1000] (bobsProposal.onPropose 100 1000) ∧
      ∃ s, (bobsProposal.onPropose 100 1000).decided = [(s, some (100, 1000))] ∧ s.Agreed 100 1000 := by
  have hrun := runs_forced (c := bobsProposal) rfl rfl (by decide) 100 1000
  obtain ⟨s, hs⟩ : ∃ s, (bobsProposal.onPropose 100 1000).decided = [(s, some (100, 1000))] := ⟨_, rfl⟩
  have hagreed := (consensus_of_coordinators accountable_bobsProposal rfl rfl hrun).2.1 s 100 1000
  rw [hs] at hagreed
  exact ⟨hrun, s, hs, hagreed List.mem_cons_self⟩

/-- Alice coordinates alone; bob is a member. -/
def aliceCoordinates : Council Peer where
  myId := .alice
  state := Sample.state 5 [member .alice true, member .bob false]
  calls := []
  decided := []

/-- Among the peers other than alice, no coordinator of the roster has a proposal. -/
noncomputable def onlyAliceProposes (s : NetworkState Peer) : Bool :=
  [Peer.bob, .mallory, .carol, .victor].all fun id => !s.flagged id || (s.nukeProposals[name id]?).isNone

theorem not_agreed_of_onlyAliceProposes {s : NetworkState Peer} (honly : onlyAliceProposes s = true)
    (hthreshold : 2 ≤ s.nukeConsensusThreshold) (now nukeTtl : ℕ) : ¬ s.Agreed now nukeTtl := by
  rintro ⟨ids, hnodup, hlength, hids⟩
  have hpeers : ∀ id, id ∉ [Peer.alice] → id ∈ [Peer.bob, .mallory, .carol, .victor] := by
    intro id
    cases id <;> decide
  have halice : ids ⊆ [Peer.alice] := by
    intro id hid
    obtain ⟨hflagged, proposedAt, hproposal, -⟩ := hids id hid
    by_contra hne
    have hother := List.all_eq_true.mp honly id (hpeers id hne)
    have hname : s.nukeProposals[name id]? = some proposedAt := hproposal
    rw [hflagged, hname] at hother
    cases hother
  have hone := (List.subperm_of_subset hnodup halice).length_le
  simp only [List.length_singleton] at hone
  omega

/-- Bob is kicked and his proposal counts all the same: of the coordinators left, only alice wants to destroy
the network. And a call that found alice alone destroys it although bob has been made a coordinator meanwhile. -/
theorem kicked_proposer_counts :
    (∃ c s, Run (fun c e c' => next c e = some c') (fun _ _ => True) bobsProposal
        [.mutate (.removeMemberRosterOnly .bob), .check forced, .propose 100 1000] c ∧
      (s, some (100, 1000)) ∈ c.decided ∧ ¬ s.Agreed 100 1000) ∧
    ∃ c s, Run (fun c e c' => next c e = some c') (fun _ _ => True) aliceCoordinates
        [.check forced, .mutate (.publishGrant .bob), .solo] c ∧
      (s, none) ∈ c.decided ∧ coordinatorCount s.members.all = 2 ∧ ∀ now nukeTtl, ¬ s.Agreed now nukeTtl := by
  constructor
  · obtain ⟨c, hrun, ⟨s, _⟩, hmem, rfl, hthreshold, honly⟩ : ∃ c : Council Peer,
        Run (fun c e c' => next c e = some c') (fun _ _ => True) bobsProposal
          [.mutate (.removeMemberRosterOnly .bob), .check forced, .propose 100 1000] c ∧
        ∃ d ∈ c.decided, d.2 = some (100, 1000) ∧ 2 ≤ d.1.nukeConsensusThreshold ∧ onlyAliceProposes d.1 = true :=
      Run.exists_of_exec (by decide +kernel)
    exact ⟨c, s, hrun, hmem, not_agreed_of_onlyAliceProposes honly hthreshold 100 1000⟩
  · obtain ⟨c, hrun, ⟨s, _⟩, hmem, rfl, hcount, hthreshold, honly⟩ : ∃ c : Council Peer,
        Run (fun c e c' => next c e = some c') (fun _ _ => True) aliceCoordinates
          [.check forced, .mutate (.publishGrant .bob), .solo] c ∧
        ∃ d ∈ c.decided, d.2 = none ∧ coordinatorCount d.1.members.all = 2 ∧ 2 ≤ d.1.nukeConsensusThreshold ∧
          onlyAliceProposes d.1 = true := Run.exists_of_exec (by decide +kernel)
    exact ⟨c, s, hrun, hmem, hcount, not_agreed_of_onlyAliceProposes honly hthreshold⟩

end Tetron.Daemon.Council
