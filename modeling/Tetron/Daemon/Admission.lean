import Tetron.Daemon.NetworkState
import Tetron.Daemon.PeerTable
import Tetron.Hostname
import Tetron.Lib.Run

/-!
# Concurrent join handlers

`admit_peer` plans a joiner's address and hostname under four read locks, adds the joiner under a later
write lock, and registers the connection last. `Lobby` runs any number of these handlers, one lock at a
time and in any order. The result of adding the member is discarded, so a handler whose plan was overtaken
goes on to announce an address it did not get.

A plan that still fits the roster when the write lock is taken is carried out as announced.
-/

namespace Tetron.Daemon

open Tetron.Membership Tetron.Hostname

/-- What `validate_admission` settles. -/
structure JoinPlan where
  ip : Ipv4Addr
  collisionIndex : ℕ
  hostname : Option String
deriving DecidableEq

inductive Denial
  | hostnameInUse (conflict : String)
  | ipCollision (ip : Ipv4Addr)
  | ipv6Collision (ip : Ipv6Addr)
deriving DecidableEq

/-- Where a handler stands: each stage but the last two ends with taking a lock. -/
inductive JoinStage
  | assign
  | name (ip : Ipv4Addr) (collisionIndex : ℕ)
  | checkIp (plan : JoinPlan)
  | checkIpv6 (plan : JoinPlan)
  | add (plan : JoinPlan)
  /-- The member is added, `MemberApproved` goes out, and the roster is read for the `Welcome`. -/
  | welcome (plan : JoinPlan)
  | routeV4 (plan : JoinPlan)
  | routeV6 (plan : JoinPlan)
  | spawnReader (plan : JoinPlan)
  | returned (plan : JoinPlan)
  | denied (reason : Denial)
deriving DecidableEq

/-- The plan, once the handler has added its member. -/
def JoinStage.added : JoinStage → Option JoinPlan
  | .welcome plan | .routeV4 plan | .routeV6 plan | .spawnReader plan | .returned plan => some plan
  | _ => none

/-- The plan, once the handler has registered the IPv4 route. -/
def JoinStage.routed : JoinStage → Option JoinPlan
  | .routeV6 plan | .spawnReader plan | .returned plan => some plan
  | _ => none

theorem JoinStage.added_of_routed {stage : JoinStage} {plan : JoinPlan} (h : stage.routed = some plan) :
    stage.added = some plan := by
  cases stage <;> first | exact h | cases h

structure JoinHandler (Id : Type) where
  conn : Connection
  remoteId : Id
  hostname : Option String
  veilidNodeId : Option String
  authoritative : Bool
  stage : JoinStage
deriving DecidableEq

structure Lobby (Id : Type) [DecidableEq Id] [Msgpack Id] [Blake3] where
  networkName : String
  networkKey : Id
  state : NetworkState Id
  peers : PeerTable Id
  handlers : List (JoinHandler Id)

inductive LobbyEvent (Id : Type)
  | join (conn : Connection) (remoteId : Id) (hostname veilidNodeId : Option String) (authoritative : Bool)
  | advance (h : JoinHandler Id) (now : ℕ)

variable {Id : Type} [DecidableEq Id] [Msgpack Id] [Blake3]

/-- The names of the other members. -/
def NetworkState.takenNames (s : NetworkState Id) (remoteId : Id) : List String :=
  (s.members.all.filter fun m => m.identity ≠ remoteId).filterMap Member.hostname

/-- The address belongs to somebody else. -/
def NetworkState.ipCollision (s : NetworkState Id) (remoteId : Id) (ip : Ipv4Addr) : Bool :=
  match s.members.getByIp ip with
  | some existing => existing.identity ≠ remoteId
  | none => (s.approved.getByIp ip).any fun existing => existing.identity ≠ remoteId

variable [Endpoint Id]

/-- Somebody else derives the same IPv6 address. -/
def NetworkState.ipv6Collision (s : NetworkState Id) (networkKey remoteId : Id) : Bool :=
  (s.members.all.any fun m =>
      m.identity ≠ remoteId ∧ deriveIpv6 m.identity networkKey = deriveIpv6 remoteId networkKey) ||
    s.approved.all.any fun a =>
      a.identity ≠ remoteId ∧ deriveIpv6 a.identity networkKey = deriveIpv6 remoteId networkKey

/-- The two address checks of `validate_admission`. -/
def checkPlan (s : NetworkState Id) (networkKey remoteId : Id) (plan : JoinPlan) : Except Denial JoinPlan :=
  if s.ipCollision remoteId plan.ip then .error (.ipCollision plan.ip)
  else if s.ipv6Collision networkKey remoteId then .error (.ipv6Collision (deriveIpv6 remoteId networkKey))
  else .ok plan

/-- `validate_admission` on one state; `none` if it does not return. -/
def validateAdmission (s : NetworkState Id) (networkKey remoteId : Id) (hostname : Option String)
    (authoritative : Bool) : Option (Except Denial JoinPlan) :=
  (assignIp s.members remoteId s.subnet).bind fun (ip, collisionIndex) =>
    match hostname with
    | none => some (checkPlan s networkKey remoteId ⟨ip, collisionIndex, none⟩)
    | some desired =>
      (admissionHostname desired (s.takenNames remoteId) authoritative).map fun outcome =>
        match outcome with
        | .ok name => checkPlan s networkKey remoteId ⟨ip, collisionIndex, some name⟩
        | .error conflict => .error (.hostnameInUse conflict)

namespace JoinHandler

/-- The member the handler adds. -/
def member (h : JoinHandler Id) (plan : JoinPlan) (now : ℕ) : Member Id :=
  admittedMember h.remoteId plan.ip plan.collisionIndex plan.hostname h.veilidNodeId now

/-- One lock of `admit_peer`: the state and the table it leaves, and where the handler goes on. -/
def advance (h : JoinHandler Id) (l : Lobby Id) (now : ℕ) : Option (NetworkState Id × PeerTable Id × JoinStage) :=
  match h.stage with
  | .assign => do
    let (ip, collisionIndex) ← assignIp l.state.members h.remoteId l.state.subnet
    -- without a wish there is no lock for the name
    let stage := if h.hostname.isSome then .name ip collisionIndex else .checkIp ⟨ip, collisionIndex, none⟩
    some (l.state, l.peers, stage)
  | .name ip collisionIndex => do
    let desired ← h.hostname
    match ← admissionHostname desired (l.state.takenNames h.remoteId) h.authoritative with
    | .ok name => some (l.state, l.peers, .checkIp ⟨ip, collisionIndex, some name⟩)
    | .error conflict => some (l.state, l.peers, .denied (.hostnameInUse conflict))
  | .checkIp plan =>
    some (l.state, l.peers,
      if l.state.ipCollision h.remoteId plan.ip then .denied (.ipCollision plan.ip) else .checkIpv6 plan)
  | .checkIpv6 plan =>
    some (l.state, l.peers,
      if l.state.ipv6Collision l.networkKey h.remoteId then
        .denied (.ipv6Collision (deriveIpv6 h.remoteId l.networkKey))
      else .add plan)
  | .add plan => some (admitPeer l.state (h.member plan now), l.peers, .welcome plan)
  | .welcome plan => some (l.state, l.peers, .routeV4 plan)
  | .routeV4 plan =>
    some (l.state, { l.peers with v4 := PeerTable.register l.peers.v4 plan.ip h.conn h.remoteId l.networkName },
      .routeV6 plan)
  | .routeV6 plan =>
    some (l.state, { l.peers with
      v6 := PeerTable.register l.peers.v6 (deriveIpv6 h.remoteId l.networkKey) h.conn h.remoteId l.networkName },
      .spawnReader plan)
  | .spawnReader plan => some (l.state, l.peers, .returned plan)
  | .returned _ | .denied _ => none

/-- The handler's next locks while nobody else moves, up to the write lock. -/
def settle (h : JoinHandler Id) (l : Lobby Id) (now : ℕ) : ℕ → Option JoinStage
  | 0 => some h.stage
  | locks + 1 =>
    match h.stage with
    | .add plan => some (.add plan)
    | .denied reason => some (.denied reason)
    | _ => (h.advance l now).bind fun (_, _, stage) => settle { h with stage := stage } l now locks

/-- Where a verdict takes the handler. -/
def afterVerdict : Except Denial JoinPlan → JoinStage
  | .ok plan => .add plan
  | .error reason => .denied reason

theorem settle_checkIp (conn : Connection) (remoteId : Id) (hostname veilidNodeId : Option String)
    (authoritative : Bool) (plan : JoinPlan) (l : Lobby Id) (now : ℕ) :
    settle ⟨conn, remoteId, hostname, veilidNodeId, authoritative, .checkIp plan⟩ l now 2 =
      some (afterVerdict (checkPlan l.state l.networkKey remoteId plan)) := by
  simp only [settle, advance, Option.bind_some, checkPlan]
  cases l.state.ipCollision remoteId plan.ip with
  | true => rfl
  | false => cases l.state.ipv6Collision l.networkKey remoteId <;> rfl

/-- Undisturbed, the read locks come to what `validate_admission` decides on one state. -/
theorem settle_eq_validateAdmission {h : JoinHandler Id} (hstage : h.stage = .assign) (l : Lobby Id) (now : ℕ) :
    h.settle l now (if h.hostname.isSome then 4 else 3) =
      (validateAdmission l.state l.networkKey h.remoteId h.hostname h.authoritative).map afterVerdict := by
  obtain ⟨conn, remoteId, hostname, veilidNodeId, authoritative, stage⟩ := h
  cases hstage
  rw [validateAdmission]
  cases hassign : assignIp l.state.members remoteId l.state.subnet with
  | none => cases hostname <;> simp [settle, advance, hassign]
  | some assigned =>
    cases hostname with
    | none =>
      rw [Option.isSome_none, if_neg Bool.false_ne_true, settle]
      simp [advance, hassign, settle_checkIp]
    | some desired =>
      rw [Option.isSome_some, if_pos rfl, settle]
      cases hname : admissionHostname desired (l.state.takenNames remoteId) authoritative with
      | none => simp [advance, hassign, hname, settle]
      | some outcome =>
        cases outcome with
        | error conflict => simp [advance, hassign, hname, settle, afterVerdict]
        | ok name =>
          simp only [advance, hassign, Option.bind_eq_bind, Option.bind_some, Option.isSome_some, if_true]
          rw [settle]
          simp [advance, hname, settle_checkIp]

end JoinHandler

namespace Lobby

def next (l : Lobby Id) : LobbyEvent Id → Option (Lobby Id)
  | .join conn remoteId hostname veilidNodeId authoritative =>
    -- a known member is not admitted again
    if l.state.members.isMember remoteId then none
    else some { l with
      handlers := ⟨conn, remoteId, hostname, veilidNodeId, authoritative, .assign⟩ :: l.handlers }
  | .advance h now =>
    if h ∈ l.handlers then
      (h.advance l now).map fun (state, peers, stage) =>
        { l with state := state, peers := peers, handlers := { h with stage := stage } :: l.handlers.erase h }
    else none

variable {l l' : Lobby Id}

theorem next_join {conn : Connection} {remoteId : Id} {hostname veilidNodeId : Option String} {authoritative : Bool}
    (hnext : next l (.join conn remoteId hostname veilidNodeId authoritative) = some l') :
    l' = { l with handlers := ⟨conn, remoteId, hostname, veilidNodeId, authoritative, .assign⟩ :: l.handlers } := by
  rw [next] at hnext
  split at hnext
  · cases hnext
  · exact (Option.some.inj hnext).symm

theorem next_advance {h : JoinHandler Id} {now : ℕ} (hnext : next l (.advance h now) = some l') :
    h ∈ l.handlers ∧ ∃ state peers stage, h.advance l now = some (state, peers, stage) ∧
      l' = { l with
        state := state, peers := peers, handlers := { h with stage := stage } :: l.handlers.erase h } := by
  rw [next] at hnext
  split at hnext
  · rename_i hmem
    obtain ⟨⟨state, peers, stage⟩, hadvance, rfl⟩ := Option.map_eq_some_iff.mp hnext
    exact ⟨hmem, state, peers, stage, hadvance, rfl⟩
  · cases hnext

end Lobby

/-! ### What a lock can change -/

namespace JoinHandler

/-- A handler adds its member, registers its IPv4 route, or leaves both the roster and these routes alone. -/
inductive Advances (h : JoinHandler Id) (l : Lobby Id) : NetworkState Id → PeerTable Id → JoinStage → Prop
  | adds (plan : JoinPlan) (now : ℕ) (stage_eq : h.stage = .add plan) :
      Advances h l (admitPeer l.state (h.member plan now)) l.peers (.welcome plan)
  | routes (plan : JoinPlan) (stage_eq : h.stage = .routeV4 plan) :
      Advances h l l.state
        { l.peers with v4 := PeerTable.register l.peers.v4 plan.ip h.conn h.remoteId l.networkName } (.routeV6 plan)
  | proceeds (peers : PeerTable Id) (stage : JoinStage) (v4_eq : peers.v4 = l.peers.v4)
      (added_eq : stage.added = h.stage.added) (routed_eq : stage.routed = h.stage.routed) :
      Advances h l l.state peers stage

theorem advances_of_advance {h : JoinHandler Id} {l : Lobby Id} {now : ℕ} {state : NetworkState Id}
    {peers : PeerTable Id} {stage : JoinStage} (hadvance : h.advance l now = some (state, peers, stage)) :
    h.Advances l state peers stage := by
  rw [advance] at hadvance
  split at hadvance
  · rename_i hstage
    obtain ⟨⟨ip, index⟩, -, heq⟩ := Option.bind_eq_some_iff.mp hadvance
    cases heq
    refine .proceeds _ _ rfl ?_ ?_ <;> rw [hstage] <;> split <;> rfl
  · rename_i ip index hstage
    obtain ⟨desired, -, hrest⟩ := Option.bind_eq_some_iff.mp hadvance
    obtain ⟨outcome, -, heq⟩ := Option.bind_eq_some_iff.mp hrest
    cases outcome <;> cases heq <;> refine .proceeds _ _ rfl ?_ ?_ <;> rw [hstage] <;> rfl
  · rename_i plan hstage
    cases hadvance
    refine .proceeds _ _ rfl ?_ ?_ <;> rw [hstage] <;> split <;> rfl
  · rename_i plan hstage
    cases hadvance
    refine .proceeds _ _ rfl ?_ ?_ <;> rw [hstage] <;> split <;> rfl
  · rename_i plan hstage
    cases hadvance
    exact .adds plan now hstage
  · rename_i plan hstage
    cases hadvance
    refine .proceeds _ _ rfl ?_ ?_ <;> rw [hstage] <;> rfl
  · rename_i plan hstage
    cases hadvance
    exact .routes plan hstage
  · rename_i plan hstage
    cases hadvance
    refine .proceeds _ _ rfl ?_ ?_ <;> rw [hstage] <;> rfl
  · rename_i plan hstage
    cases hadvance
    refine .proceeds _ _ rfl ?_ ?_ <;> rw [hstage] <;> rfl
  · cases hadvance
  · cases hadvance

end JoinHandler

/-! ### The run -/

namespace Lobby

variable {l l' : Lobby Id}

/-- The roster lists the joiner as its plan says. -/
def Seated (l : Lobby Id) (id : Id) (plan : JoinPlan) : Prop :=
  ∃ m, l.state.members.get id = some m ∧ m.ip = plan.ip ∧ m.hostname = plan.hostname

/-- The route of the address leads to the joiner, over a connection of one of its handlers. -/
def Routed (l : Lobby Id) (id : Id) (ip : Ipv4Addr) : Prop :=
  ∃ e, l.peers.v4.get? ip = some e ∧ e.endpointId = id ∧
    ∃ h ∈ l.handlers, h.remoteId = id ∧ e.conns.get? l.networkName = some h.conn

/-- No two members have the same hostname. -/
def DistinctNames (members : MemberList Id) : Prop :=
  ∀ id id' m m', members.get id = some m → members.get id' = some m' → m.hostname.isSome →
    m.hostname = m'.hostname → id = id'

/-- No member but the joiner has the name. -/
def NameFree (members : MemberList Id) (remoteId : Id) (name : String) : Prop :=
  ∀ id m, members.get id = some m → id ≠ remoteId → m.hostname ≠ some name

omit [Endpoint Id] [Msgpack Id] [Blake3] in
/-- A member is added under a name that is free. -/
theorem distinctNames_addOrKeep {list : MemberList Id} {new : Member Id} (hnames : DistinctNames list)
    (hfree : ∀ name, new.hostname = some name → NameFree list new.identity name) :
    DistinctNames (list.addOrKeep new) := by
  intro id id' m m' hm hm' hsome heq
  obtain ⟨name, hname⟩ := Option.isSome_iff_exists.mp hsome
  rcases MemberList.get_of_addOrKeep hm with hold | rfl <;> rcases MemberList.get_of_addOrKeep hm' with hold' | rfl
  · exact hnames id id' m m' hold hold' hsome heq
  · by_contra hne
    exact hfree name (heq ▸ hname) id m hold (MemberList.identity_of_get hm' ▸ hne) hname
  · by_contra hne
    exact hfree name hname id' m' hold' (MemberList.identity_of_get hm ▸ Ne.symm hne) (heq ▸ hname)
  · exact (MemberList.identity_of_get hm).symm.trans (MemberList.identity_of_get hm')

/-- A plan fits the roster: nobody else has its address or its hostname, and the joiner is not listed
under another address or hostname. -/
def Fits (members : MemberList Id) (id : Id) (plan : JoinPlan) : Prop :=
  ∀ m ∈ members.all, if m.identity = id then m.ip = plan.ip ∧ m.hostname = plan.hostname
    else m.ip ≠ plan.ip ∧ (plan.hostname.isSome → m.hostname ≠ plan.hostname)

instance (members : MemberList Id) (id : Id) (plan : JoinPlan) : Decidable (Fits members id plan) := by
  unfold Fits
  infer_instance

/-- A handler that takes the write lock finds that its plan still fits. -/
def PlansFit (l : Lobby Id) : LobbyEvent Id → Prop
  | .advance h _ =>
    match h.stage with
    | .add plan => Fits l.state.members h.remoteId plan
    | _ => True
  | .join .. => True

instance (l : Lobby Id) (e : LobbyEvent Id) : Decidable (l.PlansFit e) := by
  unfold PlansFit
  split
  · split <;> infer_instance
  · infer_instance

abbrev Runs (l₀ : Lobby Id) (events : List (LobbyEvent Id)) (l : Lobby Id) : Prop :=
  Run (fun l e l' => next l e = some l') PlansFit l₀ events l

structure Inv (l : Lobby Id) : Prop where
  seated : ∀ h ∈ l.handlers, ∀ plan, h.stage.added = some plan → l.Seated h.remoteId plan
  routed : ∀ h ∈ l.handlers, ∀ plan, h.stage.routed = some plan → l.Routed h.remoteId plan.ip
  names : DistinctNames l.state.members

section Fits

variable {members : MemberList Id} {id id' : Id} {plan : JoinPlan} {m : Member Id}

omit [Endpoint Id] [Msgpack Id] [Blake3] in
theorem Fits.own (hfits : Fits members id plan) (hm : members.get id = some m) :
    m.ip = plan.ip ∧ m.hostname = plan.hostname := by
  have hid := MemberList.identity_of_get hm
  have hcase := hfits m (MemberList.mem_all_iff.mpr (hid.symm ▸ hm))
  rwa [if_pos hid] at hcase

omit [Endpoint Id] [Msgpack Id] [Blake3] in
theorem Fits.other (hfits : Fits members id plan) (hm : members.get id' = some m) (hne : id' ≠ id) :
    m.ip ≠ plan.ip ∧ (plan.hostname.isSome → m.hostname ≠ plan.hostname) := by
  have hid := MemberList.identity_of_get hm
  have hcase := hfits m (MemberList.mem_all_iff.mpr (hid.symm ▸ hm))
  rwa [if_neg (hid ▸ hne)] at hcase

end Fits

/-- A member added under a plan that fits is listed as planned, and nobody else's entry changes. -/
theorem get_admitPeer {h : JoinHandler Id} {plan : JoinPlan} (hfits : Fits l.state.members h.remoteId plan)
    (now : ℕ) (id : Id) : (admitPeer l.state (h.member plan now)).members.get id =
      if id = h.remoteId then some (h.member plan now) else l.state.members.get id := by
  have hfree : l.state.members.Free (h.member plan now) := by
    intro id' m hm hip
    by_contra hne
    exact (hfits.other hm hne).1 hip
  change (l.state.members.addOrKeep (h.member plan now)).get id = _
  rw [MemberList.addOrKeep_of_free hfree, MemberList.get_insert]
  rfl

omit [Endpoint Id] [Msgpack Id] [Blake3] in
/-- The handlers after one of them moved on. -/
theorem handler_cases {h h' : JoinHandler Id} {stage : JoinStage} {handlers : List (JoinHandler Id)}
    (hmem : h' ∈ { h with stage := stage } :: handlers.erase h) :
    h' = { h with stage := stage } ∨ h' ∈ handlers := by
  rcases List.mem_cons.mp hmem with heq | hold
  · exact Or.inl heq
  · exact Or.inr (List.mem_of_mem_erase hold)

omit [Endpoint Id] [Msgpack Id] [Blake3] in
/-- Some handler of every joiner is left after one of them moved on. -/
theorem exists_handler {h h' : JoinHandler Id} {stage : JoinStage} {handlers : List (JoinHandler Id)}
    (hmem : h' ∈ handlers) : ∃ h'' ∈ { h with stage := stage } :: handlers.erase h,
      h''.remoteId = h'.remoteId ∧ h''.conn = h'.conn := by
  by_cases heq : h' = h
  · exact ⟨_, List.mem_cons_self, by rw [heq], by rw [heq]⟩
  · exact ⟨h', List.mem_cons_of_mem _ ((List.mem_erase_of_ne heq).mpr hmem), rfl, rfl⟩

section Steps

variable {h : JoinHandler Id}

theorem Inv.adds (hinv : l.Inv) {plan : JoinPlan} (hfits : Fits l.state.members h.remoteId plan) (now : ℕ) :
    Inv { l with
      state := admitPeer l.state (h.member plan now)
      handlers := { h with stage := .welcome plan } :: l.handlers.erase h } where
  seated h' hmem plan' hadded := by
    rcases handler_cases hmem with rfl | hold
    · cases hadded
      exact ⟨h.member plan now, (get_admitPeer hfits now _).trans (if_pos rfl), rfl, rfl⟩
    · obtain ⟨m, hm, hip, hname⟩ := hinv.seated h' hold plan' hadded
      by_cases hid : h'.remoteId = h.remoteId
      · -- an earlier handler of the same joiner had the same plan
        obtain ⟨hown, hownName⟩ := hfits.own (hid ▸ hm)
        exact ⟨h.member plan now, (get_admitPeer hfits now _).trans (if_pos hid), hown.symm.trans hip,
          hownName.symm.trans hname⟩
      · exact ⟨m, (get_admitPeer hfits now _).trans ((if_neg hid).trans hm), hip, hname⟩
  routed h' hmem plan' hrouted := by
    rcases handler_cases hmem with rfl | hold
    · cases hrouted
    · obtain ⟨e, he, hid, h₁, hmem₁, hid₁, hconn⟩ := hinv.routed h' hold plan' hrouted
      obtain ⟨h₂, hmem₂, hid₂, hconn₂⟩ := exists_handler hmem₁
      exact ⟨e, he, hid, h₂, hmem₂, hid₂.trans hid₁, hconn.trans (congrArg some hconn₂.symm)⟩
  names := distinctNames_addOrKeep hinv.names fun name hname id m hm hne heq =>
    (hfits.other hm hne).2 (Option.isSome_iff_exists.mpr ⟨name, hname⟩) (heq.trans hname.symm)

omit [Endpoint Id] in
theorem Inv.routes (hinv : l.Inv) (hmem : h ∈ l.handlers) {plan : JoinPlan} (hstage : h.stage = .routeV4 plan) :
    Inv { l with
      peers := { l.peers with v4 := PeerTable.register l.peers.v4 plan.ip h.conn h.remoteId l.networkName }
      handlers := { h with stage := .routeV6 plan } :: l.handlers.erase h } where
  seated h' hmem' plan' hadded := by
    rcases handler_cases hmem' with rfl | hold
    · cases hadded
      exact hinv.seated h hmem plan (by rw [hstage]; rfl)
    · exact hinv.seated h' hold plan' hadded
  routed h' hmem' plan' hrouted := by
    -- the address is the planned one, or its entry is the old one
    by_cases hip : plan'.ip = plan.ip
    · have hid : h'.remoteId = h.remoteId := by
        rcases handler_cases hmem' with rfl | hold
        · rfl
        · obtain ⟨m', hm', hip', -⟩ := hinv.seated h' hold plan' (JoinStage.added_of_routed hrouted)
          obtain ⟨m, hm, hipm, -⟩ := hinv.seated h hmem plan (by rw [hstage]; rfl)
          exact l.state.members.distinct hm' hm (hip'.trans (hip.trans hipm.symm))
      refine ⟨_, PeerTable.get?_register.trans (if_pos hip), hid.symm, _, List.mem_cons_self, hid.symm, ?_⟩
      exact HashTable.get?_insert.trans (if_pos rfl)
    · have hold : h' ∈ l.handlers := by
        rcases handler_cases hmem' with rfl | hold
        · cases hrouted
          exact absurd rfl hip
        · exact hold
      obtain ⟨e, he, hid, h₁, hmem₁, hid₁, hconn⟩ := hinv.routed h' hold plan' hrouted
      obtain ⟨h₂, hmem₂, hid₂, hconn₂⟩ := exists_handler hmem₁
      exact ⟨e, PeerTable.get?_register.trans ((if_neg hip).trans he), hid, h₂, hmem₂, hid₂.trans hid₁,
        hconn.trans (congrArg some hconn₂.symm)⟩
  names := hinv.names

omit [Endpoint Id] in
theorem Inv.proceeds (hinv : l.Inv) (hmem : h ∈ l.handlers) {peers : PeerTable Id} {stage : JoinStage}
    (hv4 : peers.v4 = l.peers.v4) (hadded : stage.added = h.stage.added) (hrouted : stage.routed = h.stage.routed) :
    Inv { l with peers := peers, handlers := { h with stage := stage } :: l.handlers.erase h } where
  seated h' hmem' plan' hplan := by
    rcases handler_cases hmem' with rfl | hold
    · exact hinv.seated h hmem plan' (hadded ▸ hplan)
    · exact hinv.seated h' hold plan' hplan
  routed h' hmem' plan' hplan := by
    have hroute : l.Routed h'.remoteId plan'.ip := by
      rcases handler_cases hmem' with rfl | hold
      · exact hinv.routed h hmem plan' (hrouted ▸ hplan)
      · exact hinv.routed h' hold plan' hplan
    obtain ⟨e, he, hid, h₁, hmem₁, hid₁, hconn⟩ := hroute
    obtain ⟨h₂, hmem₂, hid₂, hconn₂⟩ := exists_handler hmem₁
    exact ⟨e, hv4 ▸ he, hid, h₂, hmem₂, hid₂.trans hid₁, hconn.trans (congrArg some hconn₂.symm)⟩
  names := hinv.names

end Steps

theorem Inv.step (hinv : l.Inv) {e : LobbyEvent Id} (hfit : l.PlansFit e) (hnext : next l e = some l') :
    l'.Inv := by
  cases e with
  | join conn remoteId hostname veilidNodeId authoritative =>
    obtain rfl := next_join hnext
    refine ⟨fun h hmem plan hadded => ?_, fun h hmem plan hrouted => ?_, hinv.names⟩
    · rcases List.mem_cons.mp hmem with rfl | hold
      · cases hadded
      · exact hinv.seated h hold plan hadded
    · rcases List.mem_cons.mp hmem with rfl | hold
      · cases hrouted
      · obtain ⟨e, he, hid, h₁, hmem₁, hid₁, hconn⟩ := hinv.routed h hold plan hrouted
        exact ⟨e, he, hid, h₁, List.mem_cons_of_mem _ hmem₁, hid₁, hconn⟩
  | advance h now =>
    obtain ⟨hmem, state, peers, stage, hadvance, rfl⟩ := next_advance hnext
    cases JoinHandler.advances_of_advance hadvance with
    | adds plan now' hstage =>
      simp only [PlansFit, hstage] at hfit
      exact hinv.adds hfit now'
    | routes plan hstage => exact hinv.routes hmem hstage
    | proceeds peers stage hv4 hadded hrouted => exact hinv.proceeds hmem hv4 hadded hrouted

/-- **Admitted as announced**: where every plan fits when it is carried out, a joiner whose handler returned
is on the roster at the address and hostname announced for it, the address routes to it, and no two members
share an address or a hostname. -/
theorem admitted_as_announced {l₀ : Lobby Id} {events : List (LobbyEvent Id)} (hfresh : l₀.handlers = [])
    (hnames : DistinctNames l₀.state.members) (hrun : Runs l₀ events l) :
    (∀ h ∈ l.handlers, ∀ plan, h.stage = .returned plan →
      (∃ m, l.state.members.get h.remoteId = some m ∧ m.ip = plan.ip ∧ m.hostname = plan.hostname) ∧
        (∃ r, l.peers.lookupV4 plan.ip = some r ∧ r.endpointId = h.remoteId) ∧
        ∃ h' ∈ l.handlers, h'.remoteId = h.remoteId ∧ l.peers.connOf plan.ip l.networkName = some h'.conn) ∧
      (∀ id id' m m', l.state.members.get id = some m → l.state.members.get id' = some m' → m.ip = m'.ip →
        id = id') ∧ DistinctNames l.state.members := by
  have hinv : l.Inv := by
    have hnone : ∀ h, h ∉ l₀.handlers := hfresh ▸ fun _ => List.not_mem_nil
    refine hrun.invariant (I := fun _ l => l.Inv) ⟨?_, ?_, hnames⟩ fun _ l e l' h hfit hnext => h.step hfit hnext
    · exact fun h hmem => absurd hmem (hnone h)
    · exact fun h hmem => absurd hmem (hnone h)
  refine ⟨fun h hmem plan hstage => ⟨?_, ?_⟩, fun id id' m m' => l.state.members.distinct, hinv.names⟩
  · exact hinv.seated h hmem plan (by rw [hstage]; rfl)
  · obtain ⟨e, he, hpeer, h', hmem', hid, hconn⟩ := hinv.routed h hmem plan (by rw [hstage]; rfl)
    obtain ⟨r, hr, hrpeer⟩ := PeerTable.exists_lookupV4 he hconn
    refine ⟨⟨r, hr, hrpeer.trans hpeer⟩, h', hmem', hid, ?_⟩
    rw [PeerTable.connOf, he]
    exact hconn

end Lobby

end Tetron.Daemon

namespace Tetron.Daemon.Lobby

open Tetron.Membership Sample

/-- Bob alone coordinates the network. -/
def bobsLobby : Lobby Peer := ⟨"mesh", .bob, Sample.state 5 [member .bob true], .new, []⟩

def handler (conn : ℕ) (peer : Peer) (hostname : Option String) (stage : JoinStage) : JoinHandler Peer :=
  ⟨⟨conn⟩, peer, hostname, none, false, stage⟩

/-- The locks of a handler up to the write lock, and from there to its return. -/
def planningStages (plan : JoinPlan) : List JoinStage :=
  .assign :: ((if plan.hostname.isSome then [.name plan.ip plan.collisionIndex] else []) ++
    [.checkIp plan, .checkIpv6 plan])

def carryingStages (plan : JoinPlan) : List JoinStage :=
  [.add plan, .welcome plan, .routeV4 plan, .routeV6 plan, .spawnReader plan]

def planning (conn : ℕ) (peer : Peer) (plan : JoinPlan) : List (LobbyEvent Peer) :=
  .join ⟨conn⟩ peer plan.hostname none false ::
    (planningStages plan).map fun stage => .advance (handler conn peer plan.hostname stage) 100

def carrying (conn : ℕ) (peer : Peer) (plan : JoinPlan) : List (LobbyEvent Peer) :=
  (carryingStages plan).map fun stage => .advance (handler conn peer plan.hostname stage) 100

/-- The index-zero address of both alice and victor. -/
def sharedPlan : JoinPlan := ⟨deriveIp Peer.alice defaultSubnet, 0, none⟩

def victorsPlan : JoinPlan := ⟨deriveIpWithIndex Peer.victor 1 defaultSubnet, 1, none⟩

theorem distinctNames_bobsLobby : DistinctNames bobsLobby.state.members := by
  have honly : ∀ id m, bobsLobby.state.members.get id = some m → id = .bob := by
    intro id m hm
    cases id <;> first | rfl | cases hm
  intro id id' m m' hm hm' _ _
  rw [honly id m hm, honly id' m' hm']

/-- Victor joins after alice and gets an address of its own. -/
theorem admitted_as_announced_victor : ∃ l,
    Runs bobsLobby (planning 1 .alice sharedPlan ++ carrying 1 .alice sharedPlan ++
      planning 2 .victor victorsPlan ++ carrying 2 .victor victorsPlan) l ∧
      handler 2 .victor none (.returned victorsPlan) ∈ l.handlers ∧
      ∃ m, l.state.members.get .victor = some m ∧ m.ip = victorsPlan.ip ∧ m.hostname = victorsPlan.hostname := by
  refine Run.exists_of_exec_imp (fun l => handler 2 .victor none (.returned victorsPlan) ∈ l.handlers)
    (by decide +kernel) fun l hrun hmem => ?_
  exact ⟨hmem, ((admitted_as_announced rfl distinctNames_bobsLobby hrun).1 _ hmem victorsPlan rfl).1⟩

/-- Two handlers that have both planned before either adds its member. -/
def racing (peer peer' : Peer) (plan plan' : JoinPlan) : List (LobbyEvent Peer) :=
  planning 1 peer plan ++ planning 2 peer' plan' ++ carrying 1 peer plan ++ carrying 2 peer' plan'

def namedPlan (peer : Peer) : JoinPlan := ⟨deriveIp peer defaultSubnet, 0, some "pc"⟩

/-- Alice and victor plan the same address: both handlers return, victor is not on the roster, and alice's
address routes to victor. Carol and mallory plan the same name: both get it. -/
theorem overtaken_join_announced :
    (∃ l, Run (fun l e l' => next l e = some l') (fun _ _ => True) bobsLobby
        (racing .alice .victor sharedPlan sharedPlan) l ∧
      handler 2 .victor none (.returned sharedPlan) ∈ l.handlers ∧ l.state.members.isMember .victor = false ∧
        (l.state.members.getByIp sharedPlan.ip).map Member.identity = some .alice ∧
        (l.peers.lookupV4 sharedPlan.ip).map PeerRoute.endpointId = some .victor) ∧
      ∃ l, Run (fun l e l' => next l e = some l') (fun _ _ => True) bobsLobby
        (racing .carol .mallory (namedPlan .carol) (namedPlan .mallory)) l ∧
        (l.state.members.get .carol).bind Member.hostname = some "pc" ∧
        (l.state.members.get .mallory).bind Member.hostname = some "pc" :=
  ⟨Run.exists_of_exec (by decide +kernel), Run.exists_of_exec (by decide +kernel)⟩

end Tetron.Daemon.Lobby
