import Tetron.Daemon.Admission
import Tetron.Daemon.Start

/-!
# Names that pick out one member

`resolve_peer_name` takes the first member whose hostname matches ignoring case, and relies on hostnames
being lower case and different. Admission keeps neither up by itself: a joiner's wish goes into the roster
as it comes, a suffix may lengthen a name past the limit, and two handlers may settle on one name before
either adds its member.

Where wishes are valid, and the name a handler settles on is not too long and not planned by another joiner's
handler at that moment, the names of every roster reached are valid and a query matches at most one member
(`names_pick_out_one`).
-/

namespace Tetron.Daemon

open Tetron.Membership Tetron.Hostname

section Resolve

variable {Id : Type} [DecidableEq Id]

def answersTo (name : String) (m : Member Id) : Bool := m.hostname.any fun h => eqIgnoreAsciiCase h name

/-- `resolve_peer_name`: on the roster of the network, if the node is in it, and else as a short id. -/
def resolvePeerName (members : Option (MemberList Id)) (resolveShortIdAnyNetwork : String → Except String Id)
    (name : String) : Except String Id :=
  match members.bind fun l => l.all.find? (answersTo name) with
  | some m => .ok m.identity
  | none => resolveShortIdAnyNetwork name

/-- Valid hostnames, no two of them equal ignoring case. -/
structure NamesSound (members : MemberList Id) : Prop where
  valid : ∀ m ∈ members.all, ∀ name, m.hostname = some name → isValidHostname name = true
  distinct : ∀ m ∈ members.all, ∀ m' ∈ members.all, ∀ name name', m.hostname = some name →
    m'.hostname = some name' → eqIgnoreAsciiCase name name' = true → m = m'

variable {members : MemberList Id}

omit [DecidableEq Id] in
theorem answersTo_iff {name : String} {m : Member Id} :
    answersTo name m = true ↔ ∃ h, m.hostname = some h ∧ eqIgnoreAsciiCase h name = true := by
  rw [answersTo, Option.any_eq_true]

theorem eqIgnoreAsciiCase_of_common {a b name : String} (ha : eqIgnoreAsciiCase a name = true)
    (hb : eqIgnoreAsciiCase b name = true) : eqIgnoreAsciiCase a b = true := by
  rw [eqIgnoreAsciiCase, beq_iff_eq] at *
  exact ha.trans hb.symm

/-- At most one member answers to a name, and the name resolves to it. -/
theorem NamesSound.resolves (hsound : NamesSound members) (name : String) {m : Member Id} (hm : m ∈ members.all)
    (hanswers : answersTo name m = true) (resolveShortId : String → Except String Id) :
    (∀ m' ∈ members.all, answersTo name m' = true → m' = m) ∧
      resolvePeerName (some members) resolveShortId name = .ok m.identity := by
  have honly : ∀ m' ∈ members.all, answersTo name m' = true → m' = m := by
    intro m' hm' hanswers'
    obtain ⟨h, hname, heq⟩ := answersTo_iff.mp hanswers
    obtain ⟨h', hname', heq'⟩ := answersTo_iff.mp hanswers'
    exact hsound.distinct m' hm' m hm h' h hname' hname (eqIgnoreAsciiCase_of_common heq' heq)
  refine ⟨honly, ?_⟩
  cases hfind : members.all.find? (answersTo name) with
  | none => exact absurd hanswers (List.find?_eq_none.mp hfind m hm)
  | some m' =>
    rw [resolvePeerName, Option.bind_some, hfind]
    show Except.ok m'.identity = _
    rw [honly m' (List.mem_of_find?_eq_some hfind) (List.find?_some hfind)]

/-- Among valid names, different is different ignoring case. -/
theorem namesSound_of_distinctNames (hvalid : ∀ m ∈ members.all, ∀ name, m.hostname = some name →
    isValidHostname name = true) (hdistinct : Lobby.DistinctNames members) : NamesSound members where
  valid := hvalid
  distinct m hm m' hm' name name' hname hname' heq := by
    have hsame := eq_of_eqIgnoreAsciiCase (hvalid m hm name hname) (hvalid m' hm' name' hname') heq
    have hget := MemberList.mem_all_iff.mp hm
    have hget' := MemberList.mem_all_iff.mp hm'
    have hid : m.identity = m'.identity := by
      refine hdistinct _ _ m m' hget hget' ?_ ?_
      · rw [hname]
        rfl
      · rw [hname, hname', hsame]
    rw [hid, hget'] at hget
    exact (Option.some.inj hget).symm

theorem NamesSound.distinctNames (hsound : NamesSound members) : Lobby.DistinctNames members := by
  intro id id' m m' hm hm' hsome heq
  obtain ⟨name, hname⟩ := Option.isSome_iff_exists.mp hsome
  have hid := MemberList.identity_of_get hm
  have hid' := MemberList.identity_of_get hm'
  have hsame := hsound.distinct m (MemberList.mem_all_iff.mpr (hid.symm ▸ hm)) m'
    (MemberList.mem_all_iff.mpr (hid'.symm ▸ hm')) name name hname (heq ▸ hname) (beq_self_eq_true _)
  rw [← hid, ← hid', hsame]

end Resolve

/-! ### Names in the lobby -/

/-- The name settled on, between reading the names and adding the member. -/
def JoinStage.plannedName : JoinStage → Option String
  | .checkIp plan | .checkIpv6 plan | .add plan => plan.hostname
  | _ => none

/-- The name a handler is about to settle on. -/
def JoinHandler.chosenName {Id : Type} [DecidableEq Id] [Msgpack Id] [Blake3] (h : JoinHandler Id) (l : Lobby Id) :
    Option String :=
  match h.stage, h.hostname with
  | .name .., some desired =>
    (admissionHostname desired (l.state.takenNames h.remoteId) h.authoritative).bind Except.toOption
  | _, _ => none

namespace Lobby

variable {Id : Type} [DecidableEq Id] [Msgpack Id] [Blake3]

/-- A wish is a valid hostname. The name a handler settles on is not too long, and no handler of another joiner
has it planned. -/
def NameSafe (l : Lobby Id) : LobbyEvent Id → Prop
  | .join _ _ hostname _ _ => hostname.all isValidHostname = true
  | .advance h _ => ∀ name ∈ h.chosenName l, name.utf8ByteSize ≤ 63 ∧
      ∀ h' ∈ l.handlers, h'.remoteId ≠ h.remoteId → h'.stage.plannedName ≠ some name

instance (l : Lobby Id) : (e : LobbyEvent Id) → Decidable (l.NameSafe e)
  | .join _ _ hostname _ _ => inferInstanceAs (Decidable (hostname.all isValidHostname = true))
  | .advance h _ => inferInstanceAs (Decidable (∀ name ∈ h.chosenName l, name.utf8ByteSize ≤ 63 ∧
      ∀ h' ∈ l.handlers, h'.remoteId ≠ h.remoteId → h'.stage.plannedName ≠ some name))

/-- Two handlers of different joiners have not planned one name. -/
def Apart (h h' : JoinHandler Id) : Prop :=
  ∀ name, h.stage.plannedName = some name → h'.stage.plannedName = some name → h.remoteId = h'.remoteId

omit [DecidableEq Id] [Msgpack Id] [Blake3] in
theorem Apart.symm {h h' : JoinHandler Id} (hapart : Apart h h') : Apart h' h :=
  fun name hname hname' => (hapart name hname' hname).symm

theorem nameFree_of_takenNames {s : NetworkState Id} {remoteId : Id} {name : String}
    (h : name ∉ s.takenNames remoteId) : NameFree s.members remoteId name := by
  intro id m hm hne hname
  have hid := MemberList.identity_of_get hm
  refine h (List.mem_filterMap.mpr ⟨m, List.mem_filter.mpr ⟨?_, ?_⟩, hname⟩)
  · exact MemberList.mem_all_iff.mpr (hid.symm ▸ hm)
  · exact decide_eq_true (hid ▸ hne)

omit [Msgpack Id] [Blake3] in
/-- Whoever else is added has another name. -/
theorem nameFree_addOrKeep {list : MemberList Id} {new : Member Id} {remoteId : Id} {name : String}
    (hfree : NameFree list remoteId name) (hname : new.hostname = some name → new.identity = remoteId) :
    NameFree (list.addOrKeep new) remoteId name := by
  intro id m hm hne
  rcases MemberList.get_of_addOrKeep hm with hold | rfl
  · exact hfree id m hold hne
  · exact fun hnew => hne (MemberList.identity_of_get hm ▸ hname hnew)

structure NameInv (l : Lobby Id) : Prop where
  wishes : ∀ h ∈ l.handlers, ∀ name, h.hostname = some name → isValidHostname name = true
  planned : ∀ h ∈ l.handlers, ∀ name, h.stage.plannedName = some name →
    isValidHostname name = true ∧ NameFree l.state.members h.remoteId name
  apart : l.handlers.Pairwise Apart
  valid : ∀ id m name, l.state.members.get id = some m → m.hostname = some name → isValidHostname name = true
  names : DistinctNames l.state.members

variable [Endpoint Id] {l l' : Lobby Id} {h : JoinHandler Id}

/-- What a lock does to the planned name: the member is added, or the roster stays and the name is dropped,
kept, or settled. -/
theorem plannedName_of_advance {now : ℕ} {state : NetworkState Id} {peers : PeerTable Id} {stage : JoinStage}
    (hadvance : h.advance l now = some (state, peers, stage)) :
    (∃ plan, h.stage = .add plan ∧ state = admitPeer l.state (h.member plan now) ∧ stage = .welcome plan) ∨
      state = l.state ∧ (stage.plannedName = none ∨ stage.plannedName = h.stage.plannedName ∨
        ∃ ip index desired name, h.stage = .name ip index ∧ h.hostname = some desired ∧
          admissionHostname desired (l.state.takenNames h.remoteId) h.authoritative = some (.ok name) ∧
          stage.plannedName = some name) := by
  rw [JoinHandler.advance] at hadvance
  split at hadvance
  · obtain ⟨⟨ip, index⟩, -, heq⟩ := Option.bind_eq_some_iff.mp hadvance
    cases heq
    right
    refine ⟨rfl, Or.inl ?_⟩
    split <;> rfl
  · rename_i ip index hstage
    obtain ⟨desired, hwish, hrest⟩ := Option.bind_eq_some_iff.mp hadvance
    obtain ⟨outcome, hname, heq⟩ := Option.bind_eq_some_iff.mp hrest
    right
    cases outcome with
    | ok name =>
      cases heq
      exact ⟨rfl, Or.inr (Or.inr ⟨ip, index, desired, name, hstage, hwish, hname, rfl⟩)⟩
    | error conflict =>
      cases heq
      exact ⟨rfl, Or.inl rfl⟩
  · rename_i plan hstage
    cases hadvance
    right
    refine ⟨rfl, ?_⟩
    split
    · exact Or.inl rfl
    · exact Or.inr (Or.inl (by rw [hstage]; rfl))
  · rename_i plan hstage
    cases hadvance
    right
    refine ⟨rfl, ?_⟩
    split
    · exact Or.inl rfl
    · exact Or.inr (Or.inl (by rw [hstage]; rfl))
  · rename_i plan hstage
    cases hadvance
    exact Or.inl ⟨plan, hstage, rfl, rfl⟩
  all_goals first | (cases hadvance; exact Or.inr ⟨rfl, Or.inl rfl⟩) | cases hadvance

omit [Endpoint Id] in
theorem NameInv.others (hinv : l.NameInv) (hmem : h ∈ l.handlers) : ∀ h' ∈ l.handlers.erase h, Apart h h' :=
  (List.pairwise_cons.mp (((List.perm_cons_erase hmem).pairwise_iff Apart.symm).mp hinv.apart)).1

omit [Endpoint Id] in
/-- A handler goes on with the roster as it is. -/
theorem NameInv.proceeds (hinv : l.NameInv) (hmem : h ∈ l.handlers) (peers : PeerTable Id) {stage : JoinStage}
    (hplanned : ∀ name, stage.plannedName = some name →
      isValidHostname name = true ∧ NameFree l.state.members h.remoteId name)
    (hapart : ∀ h' ∈ l.handlers.erase h, Apart { h with stage := stage } h') :
    NameInv { l with peers := peers, handlers := { h with stage := stage } :: l.handlers.erase h } where
  wishes h' hmem' name hname := by
    rcases handler_cases hmem' with rfl | hold
    · exact hinv.wishes h hmem name hname
    · exact hinv.wishes h' hold name hname
  planned h' hmem' name hname := by
    rcases handler_cases hmem' with rfl | hold
    · exact hplanned name hname
    · exact hinv.planned h' hold name hname
  apart := List.pairwise_cons.mpr ⟨hapart, hinv.apart.sublist List.erase_sublist⟩
  valid := hinv.valid
  names := hinv.names

/-- A handler adds its member under the name it planned. -/
theorem NameInv.adds (hinv : l.NameInv) (hmem : h ∈ l.handlers) {plan : JoinPlan} (hstage : h.stage = .add plan)
    (now : ℕ) (peers : PeerTable Id) : NameInv { l with
      state := admitPeer l.state (h.member plan now)
      peers := peers
      handlers := { h with stage := .welcome plan } :: l.handlers.erase h } := by
  have hname : h.stage.plannedName = plan.hostname := by
    rw [hstage]
    rfl
  have hplan : ∀ name, (h.member plan now).hostname = some name →
      isValidHostname name = true ∧ NameFree l.state.members h.remoteId name :=
    fun name hnew => hinv.planned h hmem name (hname.trans hnew)
  refine ⟨fun h' hmem' name hwish => ?_, fun h' hmem' name hplan' => ?_, ?_, fun id m name hm hmname => ?_,
    distinctNames_addOrKeep hinv.names fun name hnew => (hplan name hnew).2⟩
  · rcases handler_cases hmem' with rfl | hold
    · exact hinv.wishes h hmem name hwish
    · exact hinv.wishes h' hold name hwish
  · rcases List.mem_cons.mp hmem' with rfl | herase
    · cases hplan'
    · obtain ⟨hvalid, hfree⟩ := hinv.planned h' (List.mem_of_mem_erase herase) name hplan'
      -- the adding handler has planned its name too
      exact ⟨hvalid, nameFree_addOrKeep hfree fun hnew => hinv.others hmem h' herase name (hname.trans hnew) hplan'⟩
  · exact List.pairwise_cons.mpr ⟨fun _ _ => nofun, hinv.apart.sublist List.erase_sublist⟩
  · rcases MemberList.get_of_addOrKeep hm with hold | rfl
    · exact hinv.valid id m name hold hmname
    · exact (hplan name hmname).1

theorem NameInv.step (hinv : l.NameInv) {e : LobbyEvent Id} (hsafe : l.NameSafe e) (hnext : next l e = some l') :
    l'.NameInv := by
  cases e with
  | join conn remoteId hostname veilidNodeId authoritative =>
    obtain rfl := next_join hnext
    refine ⟨fun h hmem name hname => ?_, fun h hmem name hname => ?_, ?_, hinv.valid, hinv.names⟩
    · rcases List.mem_cons.mp hmem with rfl | hold
      · have hname : hostname = some name := hname
        rw [NameSafe, hname] at hsafe
        exact hsafe
      · exact hinv.wishes h hold name hname
    · rcases List.mem_cons.mp hmem with rfl | hold
      · cases hname
      · exact hinv.planned h hold name hname
    · exact List.pairwise_cons.mpr ⟨fun _ _ => nofun, hinv.apart⟩
  | advance h now =>
    obtain ⟨hmem, state, peers, stage, hadvance, rfl⟩ := next_advance hnext
    rcases plannedName_of_advance hadvance with ⟨plan, hstage, rfl, rfl⟩ | ⟨rfl, hnone | hkept | hsettled⟩
    · exact hinv.adds hmem hstage now peers
    · exact hinv.proceeds hmem peers (by rw [hnone]; nofun) fun _ _ name hname => nomatch hnone.symm.trans hname
    · exact hinv.proceeds hmem peers (fun name hname => hinv.planned h hmem name (hkept ▸ hname))
        fun h' hmem' name hname => hinv.others hmem h' hmem' name (hkept ▸ hname)
    · obtain ⟨ip, index, desired, name, hstage, hwish, hname, hplanned⟩ := hsettled
      obtain ⟨hlen, hothers⟩ := hsafe name (by simp [JoinHandler.chosenName, hstage, hwish, hname, Except.toOption])
      obtain ⟨hfree, hvalid⟩ := admissionHostname_ok hname
      refine hinv.proceeds hmem peers (fun name' hname' => ?_) fun h' hmem' name' hname' hplan' => ?_
      · cases hplanned.symm.trans hname'
        exact ⟨hvalid (hinv.wishes h hmem desired hwish) hlen, nameFree_of_takenNames hfree⟩
      · cases hplanned.symm.trans hname'
        exact (not_ne_iff.mp fun hne => hothers h' (List.mem_of_mem_erase hmem') hne hplan').symm

/-- **A name picks out one member**: from a roster with sound names, along admissions that are all name-safe,
every hostname is valid, no two are equal ignoring case, and a query matches at most one member, to which it
resolves. -/
theorem names_pick_out_one {l₀ : Lobby Id} {events : List (LobbyEvent Id)} (hfresh : l₀.handlers = [])
    (hsound : NamesSound l₀.state.members)
    (hrun : Run (fun l e l' => next l e = some l') NameSafe l₀ events l) :
    (∀ m ∈ l.state.members.all, ∀ name, m.hostname = some name → isValidHostname name = true) ∧
      (∀ m ∈ l.state.members.all, ∀ m' ∈ l.state.members.all, ∀ name name', m.hostname = some name →
        m'.hostname = some name' → eqIgnoreAsciiCase name name' = true → m = m') ∧
      ∀ query, ∀ m ∈ l.state.members.all, answersTo query m = true →
        (∀ m' ∈ l.state.members.all, answersTo query m' = true → m' = m) ∧
          ∀ resolveShortId, resolvePeerName (some l.state.members) resolveShortId query = .ok m.identity := by
  have hinv : l.NameInv := by
    refine hrun.invariant (I := fun _ l => l.NameInv) ?_ fun _ l e l' h hsafe hnext => h.step hsafe hnext
    have hnone : ∀ h, h ∉ l₀.handlers := hfresh ▸ fun _ => List.not_mem_nil
    refine ⟨fun h hmem => absurd hmem (hnone h), fun h hmem => absurd hmem (hnone h),
      hfresh ▸ List.Pairwise.nil, fun id m name hm hname => ?_, hsound.distinctNames⟩
    exact hsound.valid m (MemberList.mem_all_iff.mpr (MemberList.identity_of_get hm ▸ hm)) name hname
  have hfinal : NamesSound l.state.members := namesSound_of_distinctNames
    (fun m hm name hname => hinv.valid _ m name (MemberList.mem_all_iff.mp hm) hname) hinv.names
  refine ⟨hfinal.valid, hfinal.distinct, fun query m hm hanswers => ⟨?_, fun resolveShortId => ?_⟩⟩
  · exact (hfinal.resolves query hm hanswers fun _ => .ok m.identity).1
  · exact (hfinal.resolves query hm hanswers resolveShortId).2

end Lobby

/-- A new network starts with sound names: there is only its creator's. -/
theorem namesSound_buildInitialRoster {Id : Type} [DecidableEq Id] [Endpoint Id] [Msgpack Id] [Blake3]
    {p : IdentityProvider Id} {name hostname : String} {key : Bytes} {subnet : Subnet} {threshold : ℕ}
    {preApprove : Option (Id × Option String)} {veilidNodeId : Option String} {s : NetworkState Id}
    (h : buildInitialRoster p name hostname key subnet threshold preApprove veilidNodeId = some s)
    (hvalid : isValidHostname hostname = true) : NamesSound s.members := by
  obtain ⟨t, rfl, -, hadd, -⟩ := buildInitialRoster_eq_some h
  have honly : ∀ m ∈ t.members.all, m = p.selfMember subnet (some hostname) veilidNodeId := by
    intro m hm
    rcases MemberList.get_of_add hadd (MemberList.mem_all_iff.mp hm) with hold | hnew
    · cases hold
    · exact hnew
  refine ⟨fun m hm n hn => ?_, fun m hm m' hm' _ _ _ _ _ => (honly m hm).trans (honly m' hm').symm⟩
  rw [honly m hm] at hn
  cases hn
  exact hvalid

end Tetron.Daemon

namespace Tetron.Daemon.Lobby

open Tetron.Membership Tetron.Hostname Sample

/-- A joiner's plan at its index-zero address. -/
def planAs (peer : Peer) (name : String) : JoinPlan := ⟨deriveIp peer defaultSubnet, 0, some name⟩

/-- The peer asks for the name and gets it. -/
def joinsAs (conn : ℕ) (peer : Peer) (name : String) : List (LobbyEvent Peer) :=
  planning conn peer (planAs peer name) ++ carrying conn peer (planAs peer name)

theorem namesSound_bobsLobby : NamesSound bobsLobby.state.members := by
  have hnone : ∀ m ∈ bobsLobby.state.members.all, m.hostname = none := by decide +kernel
  refine ⟨fun m hm name hname => ?_, fun m hm m' hm' name _ hname => ?_⟩
  · rw [hnone m hm] at hname
    cases hname
  · rw [hnone m hm] at hname
    cases hname

/-- Alice joins under her name and is found by it however it is typed. -/
theorem names_pick_out_one_alice : ∃ l, Run (fun l e l' => next l e = some l') NameSafe bobsLobby
    (joinsAs 1 .alice "alice") l ∧
      ∀ resolveShortId, resolvePeerName (some l.state.members) resolveShortId "Alice" = .ok .alice := by
  refine Run.exists_of_exec_imp
    (fun l => ∃ m ∈ l.state.members.all, m.identity = .alice ∧ answersTo "Alice" m = true) (by decide +kernel)
    fun l hrun ⟨m, hm, hid, hname⟩ => ?_
  exact hid ▸ ((names_pick_out_one rfl namesSound_bobsLobby hrun).2.2 "Alice" m hm hname).2

/-- Mallory joins as `Alice` after alice: the name is not valid, and both answer to `alice`. -/
theorem borrowed_name_admitted :
    ∃ l, Run (fun l e l' => next l e = some l') (fun _ _ => True) bobsLobby
        (joinsAs 1 .alice "alice" ++ joinsAs 2 .mallory "Alice") l ∧
      (l.state.members.get .mallory).bind Member.hostname = some "Alice" ∧
      isValidHostname "Alice" = false ∧
      (l.state.members.all.filter (answersTo "alice")).length = 2 :=
  Run.exists_of_exec (by decide +kernel)

end Tetron.Daemon.Lobby
