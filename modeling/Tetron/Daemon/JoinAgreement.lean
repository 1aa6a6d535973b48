import Tetron.Daemon.Admission
import Tetron.Daemon.JoinWalk

/-!
# The two ends of a join

A coordinator admits joiners one lock at a time, any number of them in any order (`Lobby`), and sends each a `Welcome`
with the roster as it then is. The joiner takes the address the roster has for it; if the roster does not list it, it
takes the address it derives for itself, unless somebody else is listed there.

A handler whose plan was overtaken does not notice and welcomes a joiner that is not on the roster. The joiner does,
if the address it derives for itself is its first: the plan had the lowest index whose address was open, and addresses
on the roster do not move, so that by then the first address is somebody else's. A joiner in whose configuration
another index is stored derives a later one, which may well be free.

* `adopted_as_listed`: whatever the order of the locks and the delays of the answers, joiners that derive their first
  addresses adopt none but those under which the coordinator lists them, then and ever after, and no two joiners adopt
  the same. A `Welcome` is in vain only if it is late, too long for the reader, or the joiner was overtaken.
* `turned_away_once_listed`: a listed joiner whose `Welcome` was in vain cannot make up for it. The coordinator takes it
  for a member that reconnects, and no request it sends from then on is answered.

What else writes the roster, such as a kick, is not among the steps.
-/

namespace Tetron.Daemon.JoinAgreement

open Tetron.Membership Tetron.Control Tetron.Daemon.JoinWalk

/-! ### Addresses that do not move -/

section Addresses

variable {Id : Type} [DecidableEq Id]

/-- Whoever is on the roster stays on it, at the same address. -/
def Keeps (members members' : MemberList Id) : Prop :=
  ∀ id m, members.get id = some m → ∃ m', members'.get id = some m' ∧ m'.ip = m.ip

namespace Keeps

variable {a b c : MemberList Id} {id : Id} {ip : Ipv4Addr}

theorem refl (a : MemberList Id) : Keeps a a := fun _ m hm => ⟨m, hm, rfl⟩

theorem trans (hab : Keeps a b) (hbc : Keeps b c) : Keeps a c := by
  intro id m hm
  obtain ⟨m', hm', hip⟩ := hab id m hm
  obtain ⟨m'', hm'', hip'⟩ := hbc id m' hm'
  exact ⟨m'', hm'', hip'.trans hip⟩

/-- What belongs to somebody else goes on to. -/
theorem taken (hkeeps : Keeps a b) (htaken : ¬ a.OpenTo id ip) : ¬ b.OpenTo id ip := by
  intro hopen
  apply htaken
  intro m hm hip
  obtain ⟨m', hm', hip'⟩ := hkeeps m.identity m (MemberList.mem_all_iff.mp hm)
  have hid := MemberList.identity_of_get hm'
  exact hid.symm.trans (hopen m' (MemberList.mem_all_iff.mpr (hid.symm ▸ hm')) (hip'.trans hip))

theorem isMember (hkeeps : Keeps a b) (hmember : a.isMember id = true) : b.isMember id = true := by
  obtain ⟨m, hm⟩ := Option.isSome_iff_exists.mp hmember
  obtain ⟨m', hm', -⟩ := hkeeps id m hm
  exact Option.isSome_iff_exists.mpr ⟨m', hm'⟩

end Keeps

/-- A member's own address is open to it. -/
theorem openTo_own {members : MemberList Id} {id : Id} {m : Member Id} (hm : members.get id = some m) :
    members.OpenTo id m.ip := by
  intro m' hm' hip
  exact members.distinct (MemberList.mem_all_iff.mp hm') hm hip

variable [Endpoint Id]

/-- The address has this index, and those of the lower indices belong to others. -/
def Lowest (members : MemberList Id) (subnet : Subnet) (id : Id) (ip : Ipv4Addr) (index : ℕ) : Prop :=
  ip = deriveIpWithIndex id index subnet ∧ ∀ j < index, ¬ members.OpenTo id (deriveIpWithIndex id j subnet)

variable {members members' : MemberList Id} {subnet : Subnet} {id : Id} {ip ip' : Ipv4Addr} {index index' : ℕ}

theorem Lowest.keeps (hlowest : Lowest members subnet id ip index) (hkeeps : Keeps members members') :
    Lowest members' subnet id ip index :=
  ⟨hlowest.1, fun j hj => hkeeps.taken (hlowest.2 j hj)⟩

/-- Of the lowest addresses only one is open. -/
theorem Lowest.unique (hlowest : Lowest members subnet id ip index) (hopen : members.OpenTo id ip)
    (hlowest' : Lowest members subnet id ip' index') (hopen' : members.OpenTo id ip') : ip = ip' := by
  obtain ⟨rfl, hbelow⟩ := hlowest
  obtain ⟨rfl, hbelow'⟩ := hlowest'
  rcases lt_trichotomy index index' with hlt | rfl | hlt
  · exact absurd hopen (hbelow' index hlt)
  · rfl
  · exact absurd hopen' (hbelow index' hlt)

/-- If the lowest address is somebody else's, so is the first. -/
theorem Lowest.first_taken (hlowest : Lowest members subnet id ip index) (htaken : ¬ members.OpenTo id ip) :
    ¬ members.OpenTo id (deriveIp id subnet) := by
  obtain ⟨rfl, hbelow⟩ := hlowest
  rcases Nat.eq_zero_or_pos index with rfl | hpos
  · exact htaken
  · exact hbelow 0 hpos

end Addresses

/-! ### The coordinator's handlers -/

/-- The address and the index a handler has planned. -/
def planned : JoinStage → Option (Ipv4Addr × ℕ)
  | .name ip index => some (ip, index)
  | .checkIp plan | .checkIpv6 plan | .add plan | .welcome plan | .routeV4 plan | .routeV6 plan | .spawnReader plan
  | .returned plan => some (plan.ip, plan.collisionIndex)
  | .assign | .denied _ => none

theorem planned_of_added {stage : JoinStage} {plan : JoinPlan} (h : stage.added = some plan) :
    planned stage = some (plan.ip, plan.collisionIndex) := by
  cases stage <;> cases h <;> rfl

section Handlers

variable {Id : Type} [DecidableEq Id] [Endpoint Id] [Msgpack Id] [Blake3]

/-- What the handlers rely on without looking again. -/
structure Planned (l : Lobby Id) : Prop where
  plans : ∀ h ∈ l.handlers, ∀ ip index, planned h.stage = some (ip, index) →
    Lowest l.state.members l.state.subnet h.remoteId ip index
  /-- A joiner that is listed by now was listed by a handler of its own. -/
  listed : ∀ h ∈ l.handlers, ∀ m, l.state.members.get h.remoteId = some m →
    ∃ index, Lowest l.state.members l.state.subnet h.remoteId m.ip index
  added : ∀ h ∈ l.handlers, ∀ plan, h.stage.added = some plan →
    l.state.members.isMember h.remoteId = true ∨ ¬ l.state.members.OpenTo h.remoteId plan.ip

/-- A joiner that is told it is admitted, and is not listed, finds somebody else at its first address. -/
theorem Planned.told {l : Lobby Id} (hinv : Planned l) {h : JoinHandler Id} (hmem : h ∈ l.handlers) {plan : JoinPlan}
    (hadded : h.stage.added = some plan) :
    l.state.members.isMember h.remoteId = true ∨
      ¬ l.state.members.OpenTo h.remoteId (deriveIp h.remoteId l.state.subnet) :=
  (hinv.added h hmem plan hadded).imp_right
    (hinv.plans h hmem plan.ip plan.collisionIndex (planned_of_added hadded)).first_taken

section Steps

variable {l : Lobby Id} {h : JoinHandler Id}

/-- One handler has moved on, and the roster has kept its addresses. -/
theorem Planned.moved (hinv : Planned l) (hmem : h ∈ l.handlers) {state : NetworkState Id} {peers : PeerTable Id}
    {stage : JoinStage} (hsubnet : state.subnet = l.state.subnet) (hkeeps : Keeps l.state.members state.members)
    (hplans : ∀ ip index, planned stage = some (ip, index) →
      Lowest state.members state.subnet h.remoteId ip index)
    (hlisted : ∀ id m, state.members.get id = some m → l.state.members.get id = some m ∨
      ∃ index, Lowest state.members state.subnet id m.ip index)
    (hadded : ∀ plan, stage.added = some plan →
      state.members.isMember h.remoteId = true ∨ ¬ state.members.OpenTo h.remoteId plan.ip) :
    Planned { l with
      state := state, peers := peers, handlers := { h with stage := stage } :: l.handlers.erase h } where
  plans h' hmem' ip index hplanned := by
    rcases Lobby.handler_cases hmem' with rfl | hold
    · exact hplans ip index hplanned
    · exact hsubnet ▸ (hinv.plans h' hold ip index hplanned).keeps hkeeps
  listed h' hmem' m hm := by
    have hsome : ∃ h₀ ∈ l.handlers, h₀.remoteId = h'.remoteId := by
      rcases Lobby.handler_cases hmem' with rfl | hold
      exacts [⟨h, hmem, rfl⟩, ⟨h', hold, rfl⟩]
    obtain ⟨h₀, hmem₀, hid⟩ := hsome
    rcases hlisted h'.remoteId m hm with hbefore | hnew
    · obtain ⟨index, hlowest⟩ := hinv.listed h₀ hmem₀ m (hid ▸ hbefore)
      exact ⟨index, hsubnet ▸ hid ▸ hlowest.keeps hkeeps⟩
    · exact hnew
  added h' hmem' plan hplan := by
    rcases Lobby.handler_cases hmem' with rfl | hold
    · exact hadded plan hplan
    · exact (hinv.added h' hold plan hplan).imp hkeeps.isMember hkeeps.taken

/-- The member is added at the address it already has, at an open one, or not at all. -/
theorem keeps_admitPeer (hinv : Planned l) (hmem : h ∈ l.handlers) {plan : JoinPlan} (hstage : h.stage = .add plan)
    (now : ℕ) : Keeps l.state.members (admitPeer l.state (h.member plan now)).members := by
  change Keeps l.state.members (l.state.members.addOrKeep (h.member plan now))
  rcases MemberList.addOrKeep_eq l.state.members (h.member plan now) with ⟨hfree, heq⟩ | ⟨-, heq⟩
  · rw [heq]
    intro id m hm
    rw [MemberList.get_insert]
    split
    · rename_i hid
      obtain rfl : id = h.remoteId := hid
      refine ⟨_, rfl, ?_⟩
      -- both the old and the planned address are open to the joiner, and both are lowest
      have hopen : l.state.members.OpenTo h.remoteId plan.ip := fun m' hm' hip =>
        hfree m'.identity m' (MemberList.mem_all_iff.mp hm') hip
      obtain ⟨index, hlowest⟩ := hinv.listed h hmem m hm
      exact (hinv.plans h hmem plan.ip plan.collisionIndex (by rw [hstage]; rfl)).unique hopen hlowest (openTo_own hm)
    · exact ⟨m, hm, rfl⟩
  · rw [heq]
    exact .refl _

theorem Planned.adds (hinv : Planned l) (hmem : h ∈ l.handlers) {plan : JoinPlan} (hstage : h.stage = .add plan)
    (now : ℕ) (peers : PeerTable Id) : Planned { l with
      state := admitPeer l.state (h.member plan now), peers := peers
      handlers := { h with stage := .welcome plan } :: l.handlers.erase h } := by
  have hkeeps := keeps_admitPeer hinv hmem hstage now
  have hlowest := hinv.plans h hmem plan.ip plan.collisionIndex (by rw [hstage]; rfl)
  refine hinv.moved hmem rfl hkeeps ?_ ?_ ?_
  · intro ip index hplanned
    cases hplanned
    exact hlowest.keeps hkeeps
  · intro id m hm
    rcases MemberList.get_of_addOrKeep hm with hbefore | rfl
    · exact .inl hbefore
    · obtain rfl : h.remoteId = id := MemberList.identity_of_get hm
      exact .inr ⟨plan.collisionIndex, hlowest.keeps hkeeps⟩
  · intro plan' hplan
    cases hplan
    change (l.state.members.addOrKeep (h.member plan now)).isMember h.remoteId = true ∨
      ¬ (l.state.members.addOrKeep (h.member plan now)).OpenTo h.remoteId plan.ip
    rcases MemberList.addOrKeep_eq l.state.members (h.member plan now) with ⟨hfree, heq⟩ | ⟨htaken, heq⟩
    · rw [heq]
      exact .inl (congrArg Option.isSome (MemberList.get_insert.trans (if_pos rfl)))
    · rw [heq]
      exact .inr fun hopen => htaken (MemberList.free_of_openTo hopen)

end Steps

/-- A handler plans an address, adds its member, or goes on with what it has planned. -/
inductive Takes (h : JoinHandler Id) (l : Lobby Id) : NetworkState Id → JoinStage → Prop
  | assigns (ip : Ipv4Addr) (index : ℕ) (stage : JoinStage)
      (assigned : assignIp l.state.members h.remoteId l.state.subnet = some (ip, index))
      (plans : planned stage = some (ip, index)) (unadded : stage.added = none) : Takes h l l.state stage
  | adds (plan : JoinPlan) (now : ℕ) (stage_eq : h.stage = .add plan) :
      Takes h l (admitPeer l.state (h.member plan now)) (.welcome plan)
  | goesOn (stage : JoinStage) (plans : ∀ p, planned stage = some p → planned h.stage = some p)
      (added_eq : stage.added = h.stage.added) : Takes h l l.state stage

/-- The plan and what has been done about it stay. -/
theorem Takes.same {h : JoinHandler Id} {l : Lobby Id} {stage : JoinStage} (hplanned : planned stage = planned h.stage)
    (hadded : stage.added = h.stage.added) : Takes h l l.state stage :=
  .goesOn stage (fun _ hp => hplanned ▸ hp) hadded

/-- The handler denies the join. -/
theorem Takes.denies {h : JoinHandler Id} {l : Lobby Id} (reason : Denial) (hadded : h.stage.added = none) :
    Takes h l l.state (.denied reason) :=
  .goesOn _ nofun hadded.symm

theorem takes_of_advance {h : JoinHandler Id} {l : Lobby Id} {now : ℕ} {state : NetworkState Id}
    {peers : PeerTable Id} {stage : JoinStage} (hadvance : h.advance l now = some (state, peers, stage)) :
    Takes h l state stage := by
  rw [JoinHandler.advance] at hadvance
  split at hadvance
  · obtain ⟨⟨ip, index⟩, hassign, heq⟩ := Option.bind_eq_some_iff.mp hadvance
    cases heq
    refine .assigns ip index _ hassign ?_ ?_ <;> split <;> rfl
  · rename_i ip index hstage
    obtain ⟨desired, -, hrest⟩ := Option.bind_eq_some_iff.mp hadvance
    obtain ⟨outcome, -, heq⟩ := Option.bind_eq_some_iff.mp hrest
    cases outcome with
    | ok name =>
      cases heq
      exact .same (by rw [hstage]; rfl) (by rw [hstage]; rfl)
    | error conflict =>
      cases heq
      exact .denies _ (by rw [hstage]; rfl)
  · rename_i plan hstage
    cases hadvance
    split
    · exact .denies _ (by rw [hstage]; rfl)
    · exact .same (by rw [hstage]; rfl) (by rw [hstage]; rfl)
  · rename_i plan hstage
    cases hadvance
    split
    · exact .denies _ (by rw [hstage]; rfl)
    · exact .same (by rw [hstage]; rfl) (by rw [hstage]; rfl)
  · rename_i plan hstage
    cases hadvance
    exact .adds plan now hstage
  · rename_i plan hstage
    cases hadvance
    exact .same (by rw [hstage]; rfl) (by rw [hstage]; rfl)
  · rename_i plan hstage
    cases hadvance
    exact .same (by rw [hstage]; rfl) (by rw [hstage]; rfl)
  · rename_i plan hstage
    cases hadvance
    exact .same (by rw [hstage]; rfl) (by rw [hstage]; rfl)
  · rename_i plan hstage
    cases hadvance
    exact .same (by rw [hstage]; rfl) (by rw [hstage]; rfl)
  · cases hadvance
  · cases hadvance

/-- **One step** of the lobby keeps the plans lowest and the addresses where they are. -/
theorem Planned.step {l l' : Lobby Id} (hinv : Planned l) {e : LobbyEvent Id} (hnext : l.next e = some l') :
    Planned l' ∧ Keeps l.state.members l'.state.members ∧ l'.state.subnet = l.state.subnet := by
  cases e with
  | join conn remoteId hostname veilidNodeId authoritative =>
    rw [Lobby.next] at hnext
    split at hnext
    · cases hnext
    · rename_i hstranger
      cases hnext
      refine ⟨⟨?_, ?_, ?_⟩, .refl _, rfl⟩
      · intro h hmem ip index hplanned
        rcases List.mem_cons.mp hmem with rfl | hold
        · cases hplanned
        · exact hinv.plans h hold ip index hplanned
      · intro h hmem m hm
        rcases List.mem_cons.mp hmem with rfl | hold
        · exact absurd (Option.isSome_iff_exists.mpr ⟨m, hm⟩) hstranger
        · exact hinv.listed h hold m hm
      · intro h hmem plan hplan
        rcases List.mem_cons.mp hmem with rfl | hold
        · cases hplan
        · exact hinv.added h hold plan hplan
  | advance h now =>
    obtain ⟨hmem, state, peers, stage, hadvance, rfl⟩ := Lobby.next_advance hnext
    cases takes_of_advance hadvance with
    | assigns ip index stage hassigned hplans hunadded =>
      refine ⟨hinv.moved hmem rfl (.refl _) ?_ (fun _ _ hm => .inl hm) ?_, .refl _, rfl⟩
      · intro ip' index' hplanned
        obtain ⟨rfl, rfl⟩ := Prod.mk.inj (Option.some.inj (hplans.symm.trans hplanned))
        obtain ⟨-, hip, -, hbelow⟩ := assignIp_eq_some_iff.mp hassigned
        exact ⟨hip, hbelow⟩
      · intro plan hplan
        cases hunadded.symm.trans hplan
    | adds plan now' hstage =>
      exact ⟨hinv.adds hmem hstage now' peers, keeps_admitPeer hinv hmem hstage now', rfl⟩
    | goesOn stage hplans hadded =>
      refine ⟨hinv.moved hmem rfl (.refl _) ?_ (fun _ _ hm => .inl hm) ?_, .refl _, rfl⟩
      · exact fun ip index hplanned => hinv.plans h hmem ip index (hplans _ hplanned)
      · exact fun plan hplan => hinv.added h hmem plan (hadded ▸ hplan)

end Handlers

/-! ### The joiners -/

/-- The coordinator, the welcomes that are under way, and what the joiners made of theirs. -/
structure Joins (Id : Type) [DecidableEq Id] [Msgpack Id] [Blake3] where
  lobby : Lobby Id
  underway : List (Id × ControlMsg Id)
  adopted : List (Id × Ipv4Addr)
  /-- With the time the message took. -/
  inVain : List (Id × ControlMsg Id × ℕ)
  /-- The attempts of joiners that were listed already. -/
  turnedAway : List Id

inductive JoinEvent (Id : Type)
  | coordinator (e : LobbyEvent Id)
  /-- A message reaches a joiner so many milliseconds after it has sent its request. -/
  | answer (id : Id) (msg : ControlMsg Id) (took : ℕ)
  /-- A joiner that is listed asks again. The coordinator closes its stream after a while, or does not. -/
  | again (conn : Connection) (id : Id) (closes : Option ℕ)

section Joiners

variable {Id : Type} [DecidableEq Id] [Msgpack Id] [Blake3]

def Joins.opening (l : Lobby Id) : Joins Id := ⟨l, [], [], [], []⟩

/-- The handler that has added its member writes the `Welcome`. -/
def welcomes (s : NetworkState Id) : LobbyEvent Id → List (Id × ControlMsg Id)
  | .advance h _ =>
    match h.stage with
    | .welcome _ => [(h.remoteId, welcome s)]
    | _ => []
  | .join .. => []

theorem mem_welcomes {s : NetworkState Id} {e : LobbyEvent Id} {sent : Id × ControlMsg Id}
    (hmem : sent ∈ welcomes s e) :
    ∃ h now plan, e = .advance h now ∧ h.stage = .welcome plan ∧ sent = (h.remoteId, welcome s) := by
  cases e with
  | join conn remoteId hostname veilidNodeId authoritative => cases hmem
  | advance h now =>
    rw [welcomes] at hmem
    split at hmem
    · rename_i plan hstage
      exact ⟨h, now, plan, rfl, hstage, List.mem_singleton.mp hmem⟩
    · cases hmem

variable [Wire (ControlMsg Id)]

/-- A coordinator as the joiner sees it: the request gets out, and this is what comes back. -/
def answering (msg : ControlMsg Id) (took : ℕ) : JoinWalk.Coordinator Id where
  connect := some (0, true)
  request := some (0, true)
  verdict := some (took, (recvMsg (encodeMsg msg)).toOption)
  greeting := none
  settle := some (0, true)

/-- `handle_known_member_reconnect`, as a joiner sees it that has sent a request: the coordinator speaks on a stream of
its own, and its control reader drops the joiner's unanswered. -/
def reconnecting (closes : Option ℕ) : JoinWalk.Coordinator Id where
  connect := some (0, true)
  request := some (0, true)
  verdict := closes.map fun t => (t, none)
  greeting := some (0, some .memberSync)
  settle := some (0, true)

/-- No roster has four gigabytes. -/
def Carriable (s : Joins Id) : JoinEvent Id → Prop
  | .coordinator e => ∀ sent ∈ welcomes s.lobby.state e, (Wire.toVecNamed sent.2).length < 2 ^ 32
  | .answer .. | .again .. => True

variable [Endpoint Id]

/-- What a joiner's configuration has: the collision index of its address, zero unless there is a file with another one,
and the subnet. -/
structure Stored where
  collisionIndex : ℕ
  subnet : Subnet

def Stored.provider (stored : Stored) (id : Id) : IdentityProvider Id := ⟨id, stored.collisionIndex, stored.subnet⟩

/-- The address a joiner ends up with; it has read the subnet from the network's blob. -/
def outcome (w : JoinWalk.World Id) (p : IdentityProvider Id) (subnet : Subnet) (c : JoinWalk.Coordinator Id) :
    Option Ipv4Addr :=
  match performJoinHandshake w c true p.endpointId (p.myIp subnet) with
  | some (_, some (.admitted _ _ ip)) => some ip
  | _ => none

namespace Joins

def next (w : JoinWalk.World Id) (stored : Id → Stored) (s : Joins Id) : JoinEvent Id → Option (Joins Id)
  | .coordinator e =>
    (s.lobby.next e).map fun l => { s with lobby := l, underway := welcomes s.lobby.state e ++ s.underway }
  | .answer id msg took =>
    if (id, msg) ∈ s.underway then
      let s := { s with underway := s.underway.erase (id, msg) }
      match outcome w ((stored id).provider id) s.lobby.state.subnet (answering msg took) with
      | some ip => some { s with adopted := (id, ip) :: s.adopted }
      | none => some { s with inVain := (id, msg, took) :: s.inVain }
    else none
  | .again conn id closes =>
    (s.lobby.state.members.get id).map fun m =>
      let l := s.lobby
      let peers := l.peers.add m.ip (deriveIpv6 id l.networkKey) conn id l.networkName
      let s := { s with lobby := { l with peers := peers } }
      match outcome w ((stored id).provider id) l.state.subnet (reconnecting closes) with
      | some ip => { s with adopted := (id, ip) :: s.adopted }
      | none => { s with turnedAway := id :: s.turnedAway }

end Joins

/-! #### What a joiner makes of a roster -/

omit [Wire (ControlMsg Id)] [Endpoint Id] [Msgpack Id] [Blake3] in
/-- `resolve_welcome_self_ip` on a roster. -/
theorem resolveWelcomeSelfIp_all (members : MemberList Id) (ip : Ipv4Addr) (id : Id) :
    (resolveWelcomeSelfIp members.all ip id).toOption =
      (members.get id).elim (if members.OpenTo id ip then some ip else none) fun m => some m.ip := by
  rw [resolveWelcomeSelfIp, MemberList.find?_all_identity]
  cases hget : members.get id with
  | some m => rfl
  | none =>
    simp only [welcomeIpCollision, Option.elim_none]
    cases hfind : members.all.find? fun m => m.ip = ip ∧ m.identity ≠ id with
    | some m =>
      have hother : m.ip = ip ∧ m.identity ≠ id := by simpa using List.find?_some hfind
      rw [if_neg fun hopen => hother.2 (hopen m (List.mem_of_find?_eq_some hfind) hother.1)]
      rfl
    | none =>
      have hopen : members.OpenTo id ip := by
        intro m hm hip
        by_contra hne
        exact List.find?_eq_none.mp hfind m hm (decide_eq_true ⟨hip, hne⟩)
      rw [if_pos hopen]
      rfl

omit [DecidableEq Id] [Endpoint Id] [Msgpack Id] [Blake3] in
/-- The reader takes a message of less than four gigabytes as it was sent, or not at all. -/
theorem recvMsg_encodeMsg (hrt : Wire.RoundTrips (ControlMsg Id)) {msg : ControlMsg Id}
    (hlen : (Wire.toVecNamed msg).length < 2 ^ 32) :
    (recvMsg (encodeMsg msg)).toOption = if (Wire.toVecNamed msg).length ≤ 65536 then some msg else none := by
  rw [recvMsg, encodeMsg, recvFramed_framed, Nat.mod_eq_of_lt hlen]
  by_cases hle : (Wire.toVecNamed msg).length ≤ 65536
  · rw [if_neg (not_not.mpr hle), if_pos hle, List.take_length, hrt msg]
    rfl
  · rw [if_pos hle, if_neg hle]
    rfl

/-- What comes of a welcome. -/
theorem outcome_welcome (hrt : Wire.RoundTrips (ControlMsg Id)) {state : NetworkState Id}
    (hlen : (Wire.toVecNamed (welcome state)).length < 2 ^ 32) (w : JoinWalk.World Id) (p : IdentityProvider Id)
    (subnet : Subnet) (took : ℕ) : outcome w p subnet (answering (welcome state) took) =
      if took ≤ joinResponseTimeout ∧ (Wire.toVecNamed (welcome state)).length ≤ 65536 then
        (resolveWelcomeSelfIp state.members.all (p.myIp subnet) p.endpointId).toOption
      else none := by
  simp only [outcome, performJoinHandshake, answering, recvMsg_encodeMsg hrt hlen, if_true, Option.bind_some,
    Awaited.timeout]
  by_cases htime : took ≤ joinResponseTimeout
  · by_cases hle : (Wire.toVecNamed (welcome state)).length ≤ 65536
    · rw [if_pos htime, if_pos hle, if_pos ⟨htime, hle⟩]
      simp only [Option.join_some, welcome]
      cases resolveWelcomeSelfIp state.members.all (p.myIp subnet) p.endpointId <;> rfl
    · rw [if_pos htime, if_neg hle, if_neg (hle ·.2)]
      rfl
  · rw [if_neg htime, if_neg (htime ·.1)]
    rfl

omit [Wire (ControlMsg Id)] in
/-- A joiner that is listed gets no verdict. -/
theorem outcome_reconnecting (w : JoinWalk.World Id) (p : IdentityProvider Id) (subnet : Subnet) (closes : Option ℕ) :
    outcome w p subnet (reconnecting closes) = none := by
  have hsilent : (((reconnecting closes).verdict : Awaited (Option (ControlMsg Id))).timeout
      joinResponseTimeout).2.join = none := by
    cases closes with
    | none => rfl
    | some t =>
      change (if t ≤ joinResponseTimeout then (t, some none) else (joinResponseTimeout, none)).2.join = none
      split <;> rfl
  simp only [outcome, performJoinHandshake, if_true, hsilent]
  rfl

/-- A joiner that is listed gets its route back and is turned away. -/
theorem Joins.next_again {s : Joins Id} {id : Id} {m : Member Id} (hm : s.lobby.state.members.get id = some m)
    (w : JoinWalk.World Id) (stored : Id → Stored) (conn : Connection) (closes : Option ℕ) :
    s.next w stored (.again conn id closes) = some { s with
      lobby := { s.lobby with
        peers := s.lobby.peers.add m.ip (deriveIpv6 id s.lobby.networkKey) conn id s.lobby.networkName }
      turnedAway := id :: s.turnedAway } := by
  rw [Joins.next, hm]
  simp only [Option.map_some, outcome_reconnecting]

/-- What a step can do. -/
inductive Moves (w : JoinWalk.World Id) (stored : Id → Stored) (s : Joins Id) : JoinEvent Id → Joins Id → Prop
  | coordinator (e : LobbyEvent Id) (l : Lobby Id) (next : s.lobby.next e = some l) :
      Moves w stored s (.coordinator e) { s with lobby := l, underway := welcomes s.lobby.state e ++ s.underway }
  | adopts (id : Id) (msg : ControlMsg Id) (took : ℕ) (ip : Ipv4Addr) (sent : (id, msg) ∈ s.underway)
      (outcome_eq : outcome w ((stored id).provider id) s.lobby.state.subnet (answering msg took) = some ip) :
      Moves w stored s (.answer id msg took)
        { s with underway := s.underway.erase (id, msg), adopted := (id, ip) :: s.adopted }
  | inVain (id : Id) (msg : ControlMsg Id) (took : ℕ) (sent : (id, msg) ∈ s.underway)
      (outcome_eq : outcome w ((stored id).provider id) s.lobby.state.subnet (answering msg took) = none) :
      Moves w stored s (.answer id msg took)
        { s with underway := s.underway.erase (id, msg), inVain := (id, msg, took) :: s.inVain }
  | turnedAway (conn : Connection) (id : Id) (closes : Option ℕ) (m : Member Id)
      (listed : s.lobby.state.members.get id = some m) :
      Moves w stored s (.again conn id closes) { s with
        lobby := { s.lobby with
          peers := s.lobby.peers.add m.ip (deriveIpv6 id s.lobby.networkKey) conn id s.lobby.networkName }
        turnedAway := id :: s.turnedAway }

theorem moves_of_next {w : JoinWalk.World Id} {stored : Id → Stored} {s s' : Joins Id} {e : JoinEvent Id}
    (hnext : s.next w stored e = some s') : Moves w stored s e s' := by
  cases e with
  | coordinator e =>
    obtain ⟨l, hl, rfl⟩ := Option.map_eq_some_iff.mp hnext
    exact .coordinator e l hl
  | answer id msg took =>
    rw [Joins.next] at hnext
    split at hnext
    · rename_i hmem
      cases hout : outcome w ((stored id).provider id) s.lobby.state.subnet (answering msg took) with
      | some ip =>
        simp only [hout, Option.some.injEq] at hnext
        subst hnext
        exact .adopts id msg took ip hmem hout
      | none =>
        simp only [hout, Option.some.injEq] at hnext
        subst hnext
        exact .inVain id msg took hmem hout
    · cases hnext
  | again conn id closes =>
    obtain ⟨m, hm, -⟩ := Option.map_eq_some_iff.mp hnext
    cases (Joins.next_again hm w stored conn closes).symm.trans hnext
    exact .turnedAway conn id closes m hm

/-! #### The run -/

/-- What holds between the two ends. -/
structure Agreed (stored : Id → Stored) (s : Joins Id) : Prop where
  planned : Planned s.lobby
  /-- The address a joiner derives for itself is its first. -/
  first : ∀ id, (stored id).collisionIndex = 0 ∨ (stored id).subnet ≠ s.lobby.state.subnet
  /-- A message under way is the welcome of an earlier roster, which lists the joiner or has somebody else at its first
  address. -/
  sent : ∀ id msg, (id, msg) ∈ s.underway → ∃ state : NetworkState Id, msg = welcome state ∧
    (Wire.toVecNamed msg).length < 2 ^ 32 ∧ Keeps state.members s.lobby.state.members ∧
      (state.members.isMember id = true ∨ ¬ state.members.OpenTo id (deriveIp id s.lobby.state.subnet))
  adopted : ∀ id ip, (id, ip) ∈ s.adopted → ∃ m, s.lobby.state.members.get id = some m ∧ m.ip = ip
  inVain : ∀ id msg took, (id, msg, took) ∈ s.inVain → joinResponseTimeout < took ∨
    65536 < (Wire.toVecNamed msg).length ∨ ¬ s.lobby.state.members.OpenTo id (deriveIp id s.lobby.state.subnet)

variable {stored : Id → Stored} {s s' : Joins Id}

/-- A step of the coordinator. -/
theorem Agreed.coordinator (hinv : Agreed stored s) {e : LobbyEvent Id} {l : Lobby Id} (hnext : s.lobby.next e = some l)
    (hcarriable : Carriable s (.coordinator e)) :
    Agreed stored { s with lobby := l, underway := welcomes s.lobby.state e ++ s.underway } := by
  obtain ⟨hplanned, hkeeps, hsubnet⟩ := hinv.planned.step hnext
  refine ⟨hplanned, hsubnet ▸ hinv.first, ?_, ?_, ?_⟩
  · intro id msg hmem
    rcases List.mem_append.mp hmem with hnew | hold
    · obtain ⟨h, now, plan, rfl, hstage, heq⟩ := mem_welcomes hnew
      obtain ⟨rfl, rfl⟩ := Prod.mk.inj heq
      obtain ⟨hhandler, -⟩ := Lobby.next_advance hnext
      refine ⟨s.lobby.state, rfl, hcarriable _ hnew, hkeeps, ?_⟩
      rw [hsubnet]
      exact hinv.planned.told hhandler (by rw [hstage]; rfl)
    · obtain ⟨state, hmsg, hlen, hbefore, htold⟩ := hinv.sent id msg hold
      exact ⟨state, hmsg, hlen, hbefore.trans hkeeps, hsubnet ▸ htold⟩
  · intro id ip hmem
    obtain ⟨m, hm, hip⟩ := hinv.adopted id ip hmem
    obtain ⟨m', hm', hip'⟩ := hkeeps id m hm
    exact ⟨m', hm', hip'.trans hip⟩
  · intro id msg took hmem
    exact (hinv.inVain id msg took hmem).imp_right (Or.imp_right (hsubnet ▸ hkeeps.taken ·))

omit [DecidableEq Id] [Wire (ControlMsg Id)] [Msgpack Id] [Blake3] in
theorem Stored.myIp_provider {own : Stored} {subnet : Subnet} (hfirst : own.collisionIndex = 0 ∨ own.subnet ≠ subnet)
    (id : Id) : (own.provider id).myIp subnet = deriveIp id subnet := by
  unfold IdentityProvider.myIp Stored.provider
  split
  · rename_i heq
    rw [hfirst.resolve_right (not_not.mpr heq.symm), heq]
    rfl
  · rfl

/-- What a joiner makes of a message that was under way. -/
theorem Agreed.outcome (hinv : Agreed stored s) (hrt : Wire.RoundTrips (ControlMsg Id)) (w : JoinWalk.World Id)
    {id : Id} {msg : ControlMsg Id} (hmem : (id, msg) ∈ s.underway) (took : ℕ) :
    (∃ ip m, outcome w ((stored id).provider id) s.lobby.state.subnet (answering msg took) = some ip ∧
        s.lobby.state.members.get id = some m ∧ m.ip = ip) ∨
      outcome w ((stored id).provider id) s.lobby.state.subnet (answering msg took) = none ∧
        (joinResponseTimeout < took ∨
          65536 < (Wire.toVecNamed msg).length ∨
            ¬ s.lobby.state.members.OpenTo id (deriveIp id s.lobby.state.subnet)) := by
  obtain ⟨state, rfl, hlen, hkeeps, htold⟩ := hinv.sent id msg hmem
  rw [outcome_welcome hrt hlen, resolveWelcomeSelfIp_all, Stored.myIp_provider (hinv.first id),
    show ((stored id).provider id).endpointId = id from rfl]
  by_cases hread : took ≤ joinResponseTimeout ∧ (Wire.toVecNamed (welcome state)).length ≤ 65536
  · rw [if_pos hread]
    cases hget : state.members.get id with
    | some m =>
      obtain ⟨m', hm', hip⟩ := hkeeps id m hget
      exact .inl ⟨m.ip, m', rfl, hm', hip⟩
    | none =>
      -- the joiner was overtaken: its own address is not to be had
      have htaken : ¬ state.members.OpenTo id (deriveIp id s.lobby.state.subnet) := by
        refine htold.resolve_left ?_
        rw [MemberList.isMember, hget]
        exact Bool.false_ne_true
      rw [Option.elim_none, if_neg htaken]
      exact .inr ⟨rfl, .inr (.inr (hkeeps.taken htaken))⟩
  · rw [if_neg hread]
    refine .inr ⟨rfl, ?_⟩
    rcases not_and_or.mp hread with hlate | hlong
    · exact .inl (not_le.mp hlate)
    · exact .inr (.inl (not_le.mp hlong))

theorem Agreed.step (hinv : Agreed stored s) (hrt : Wire.RoundTrips (ControlMsg Id)) {w : JoinWalk.World Id}
    {e : JoinEvent Id} (hcarriable : Carriable s e) (hnext : s.next w stored e = some s') : Agreed stored s' := by
  cases moves_of_next hnext with
  | coordinator e l hl => exact hinv.coordinator hl hcarriable
  | adopts id msg took ip hmem hout =>
    refine ⟨hinv.planned, hinv.first, fun id' msg' h => hinv.sent id' msg' (List.mem_of_mem_erase h), ?_,
      hinv.inVain⟩
    intro id' ip' hmem'
    rcases List.mem_cons.mp hmem' with heq | hold
    · obtain ⟨rfl, rfl⟩ := Prod.mk.inj heq
      rcases hinv.outcome hrt w hmem took with ⟨ip, m, hout', hm, hip⟩ | ⟨hnone, -⟩
      · cases hout.symm.trans hout'
        exact ⟨m, hm, hip⟩
      · cases hout.symm.trans hnone
    · exact hinv.adopted id' ip' hold
  | inVain id msg took hmem hout =>
    refine ⟨hinv.planned, hinv.first, fun id' msg' h => hinv.sent id' msg' (List.mem_of_mem_erase h), hinv.adopted,
      ?_⟩
    intro id' msg' took' hmem'
    rcases List.mem_cons.mp hmem' with heq | hold
    · cases heq
      rcases hinv.outcome hrt w hmem took with ⟨ip, m, hsome, -⟩ | ⟨-, hwhy⟩
      · cases hout.symm.trans hsome
      · exact hwhy
    · exact hinv.inVain id' msg' took' hold
  | turnedAway conn id closes m hm =>
    exact ⟨⟨hinv.planned.plans, hinv.planned.listed, hinv.planned.added⟩, hinv.first, hinv.sent, hinv.adopted,
      hinv.inVain⟩

abbrev Joins.Runs (w : JoinWalk.World Id) (stored : Id → Stored) (l₀ : Lobby Id) (events : List (JoinEvent Id))
    (s : Joins Id) : Prop :=
  Run (fun s e s' => s.next w stored e = some s') Carriable (.opening l₀) events s

/-- The handler has sent its verdict. -/
def said : JoinStage → Bool
  | .routeV4 _ | .routeV6 _ | .spawnReader _ | .returned _ | .denied _ => true
  | .assign | .name .. | .checkIp _ | .checkIpv6 _ | .add _ | .welcome _ => false

/-- The joiner is listed, and no verdict on it is to come or under way. -/
structure Settled (s : Joins Id) (id : Id) : Prop where
  listed : s.lobby.state.members.isMember id = true
  told : ∀ h ∈ s.lobby.handlers, h.remoteId = id → said h.stage = true
  quiet : ∀ msg, (id, msg) ∉ s.underway

/-- The joiner connects and sends a request. -/
def asks (id : Id) : JoinEvent Id → Bool
  | .coordinator (.join _ remoteId ..) => remoteId = id
  | .again _ remoteId _ => remoteId = id
  | .coordinator (.advance ..) | .answer .. => false

omit [Wire (ControlMsg Id)] in
theorem said_of_advance {h : JoinHandler Id} {l : Lobby Id} {now : ℕ} {state : NetworkState Id} {peers : PeerTable Id}
    {stage : JoinStage} (hadvance : h.advance l now = some (state, peers, stage)) (hsaid : said h.stage = true) :
    said stage = true := by
  obtain ⟨conn, remoteId, hostname, veilidNodeId, authoritative, before⟩ := h
  cases before with
  | routeV4 plan | routeV6 plan | spawnReader plan =>
    cases hadvance
    rfl
  | returned plan => cases hadvance
  | denied reason => cases hadvance
  | assign => cases hsaid
  | name ip index => cases hsaid
  | checkIp plan | checkIpv6 plan | add plan | welcome plan => cases hsaid

omit [Wire (ControlMsg Id)] in
/-- The handlers strike nobody off the roster. -/
theorem isMember_of_advance {h : JoinHandler Id} {l : Lobby Id} {now : ℕ} {state : NetworkState Id}
    {peers : PeerTable Id} {stage : JoinStage} {id : Id} (hadvance : h.advance l now = some (state, peers, stage))
    (hmember : l.state.members.isMember id = true) : state.members.isMember id = true := by
  cases takes_of_advance hadvance with
  | assigns ip index stage hassigned hplans hunadded => exact hmember
  | goesOn stage hplans hadded => exact hmember
  | adds plan now' hstage =>
    change (l.state.members.addOrKeep (h.member plan now')).isMember id = true
    rcases MemberList.addOrKeep_eq l.state.members (h.member plan now') with ⟨_, heq⟩ | ⟨-, heq⟩
    · rw [heq, MemberList.isMember, MemberList.get_insert]
      split
      · rfl
      · exact hmember
    · rw [heq]
      exact hmember

omit [Wire (ControlMsg Id)] in
/-- The coordinator neither hears the joiner out again nor has anything left to tell it. -/
theorem Settled.coordinator {id : Id} (h : Settled s id) {e : LobbyEvent Id} {l : Lobby Id}
    (hnext : s.lobby.next e = some l) :
    Settled { s with lobby := l, underway := welcomes s.lobby.state e ++ s.underway } id ∧
      asks id (.coordinator e) = false := by
  cases e with
  | join conn remoteId hostname veilidNodeId authoritative =>
    have hother : remoteId ≠ id := by
      rintro rfl
      rw [Lobby.next, if_pos h.listed] at hnext
      cases hnext
    cases Lobby.next_join hnext
    refine ⟨⟨h.listed, ?_, h.quiet⟩, decide_eq_false hother⟩
    intro h' hmem hid
    rcases List.mem_cons.mp hmem with rfl | hold
    · exact absurd hid hother
    · exact h.told h' hold hid
  | advance handler now =>
    obtain ⟨hmem, state, peers, stage, hadvance, rfl⟩ := Lobby.next_advance hnext
    refine ⟨⟨isMember_of_advance hadvance h.listed, ?_, ?_⟩, rfl⟩
    · intro h' hmem' hid
      rcases Lobby.handler_cases hmem' with rfl | hold
      · exact said_of_advance hadvance (h.told handler hmem hid)
      · exact h.told h' hold hid
    · intro msg hsent
      rcases List.mem_append.mp hsent with hnew | hold
      · -- only a handler that has not spoken yet writes a welcome
        obtain ⟨h', now', plan, heq, hstage, hto⟩ := mem_welcomes hnew
        cases heq
        have hsaid := h.told handler hmem (congrArg Prod.fst hto).symm
        rw [hstage] at hsaid
        cases hsaid
      · exact h.quiet msg hold

/-- **One step** after the joiner has settled: if it asks, it is turned away. -/
theorem Settled.step {id : Id} (h : Settled s id) {w : JoinWalk.World Id} {e : JoinEvent Id}
    (hnext : s.next w stored e = some s') :
    Settled s' id ∧ (∀ ip, (id, ip) ∈ s'.adopted → (id, ip) ∈ s.adopted) ∧
      s'.turnedAway.count id = s.turnedAway.count id + [e].countP (asks id) := by
  -- what is sent to others is none of the joiner's
  have hother : ∀ {id' msg}, (id', msg) ∈ s.underway → id ≠ id' := by
    rintro id' msg hmem rfl
    exact h.quiet msg hmem
  have hquiet : ∀ (sent : Id × ControlMsg Id) msg, (id, msg) ∉ s.underway.erase sent :=
    fun _ msg hmem => h.quiet msg (List.mem_of_mem_erase hmem)
  cases moves_of_next hnext with
  | coordinator e l hl =>
    obtain ⟨hsettled, hasks⟩ := h.coordinator hl
    refine ⟨hsettled, fun _ hip => hip, ?_⟩
    rw [List.countP_singleton, hasks]
    rfl
  | adopts id' msg took ip hmem hout =>
    refine ⟨⟨h.listed, h.told, hquiet _⟩, fun ip' hip => ?_, rfl⟩
    rcases List.mem_cons.mp hip with heq | hold
    · exact absurd (congrArg Prod.fst heq) (hother hmem)
    · exact hold
  | inVain id' msg took hmem hout => exact ⟨⟨h.listed, h.told, hquiet _⟩, fun _ hip => hip, rfl⟩
  | turnedAway conn id' closes m hm =>
    refine ⟨⟨h.listed, h.told, h.quiet⟩, fun _ hip => hip, ?_⟩
    rw [List.count_cons, List.countP_singleton]
    simp only [asks, decide_eq_true_eq, beq_iff_eq]

/-- Nothing keeps the joiner from asking. -/
theorem Settled.exists_again {id : Id} (h : Settled s id) (w : JoinWalk.World Id) (stored : Id → Stored)
    (conn : Connection) (closes : Option ℕ) : ∃ s', s.next w stored (.again conn id closes) = some s' := by
  obtain ⟨m, hm⟩ := Option.isSome_iff_exists.mp h.listed
  exact ⟨_, Joins.next_again hm w stored conn closes⟩

/-- **A listed joiner that missed its welcome stays out**: once the coordinator lists it, and no verdict is to come or
under way, it adopts no address in whatever follows, and as often as it asks it is turned away. The coordinator goes on
listing it. -/
theorem turned_away_once_listed {w : JoinWalk.World Id} {id : Id} (hsettled : Settled s id)
    {later : List (JoinEvent Id)} (hlater : Run (fun s e s' => s.next w stored e = some s') Carriable s later s') :
    Settled s' id ∧ (∀ ip, (id, ip) ∈ s'.adopted → (id, ip) ∈ s.adopted) ∧
      s'.turnedAway.count id = s.turnedAway.count id + later.countP (asks id) := by
  refine hlater.invariant (I := fun later t => Settled t id ∧ (∀ ip, (id, ip) ∈ t.adopted → (id, ip) ∈ s.adopted) ∧
    t.turnedAway.count id = s.turnedAway.count id + later.countP (asks id)) ⟨hsettled, fun _ hip => hip, rfl⟩ ?_
  intro ls t e t' ⟨hsettled', hadopted, hcount⟩ _ hnext
  obtain ⟨hstep, hadopted', hcount'⟩ := hsettled'.step hnext
  refine ⟨hstep, fun ip hip => hadopted ip (hadopted' ip hip), ?_⟩
  rw [hcount', hcount, List.countP_append, Nat.add_assoc]

end Joiners

end Tetron.Daemon.JoinAgreement

namespace Tetron.Daemon.JoinAgreement.Sample

open Tetron.Membership Tetron.Control Tetron.Daemon.Sample Tetron.Daemon.JoinWalk Tetron.Daemon.Lobby

/-- The roster once alice is on it. -/
noncomputable def alicesRoster : NetworkState Peer :=
  admitPeer bobsLobby.state ((handler 1 .alice none (.add sharedPlan)).member sharedPlan 100)

theorem length_alicesRoster : (Wire.toVecNamed (welcome alicesRoster)).length = 86 := by decide +kernel

/-- Nobody has a collision index stored. -/
def plain (_ : Peer) : Stored := ⟨0, defaultSubnet⟩

/-- Nobody answers but the coordinator. -/
def silent : JoinWalk.World Peer := ⟨fun _ => ⟨none, none, none, none, none⟩, none, [], fun _ => none, []⟩

/-- Alice's roster is the only one that is sent. -/
noncomputable def onlyAlices (s : Joins Peer) : JoinEvent Peer → Bool
  | .coordinator e => (welcomes s.lobby.state e).all fun sent => sent.2 = welcome alicesRoster
  | .answer .. | .again .. => true

theorem carriable_of_onlyAlices (s : Joins Peer) (e : JoinEvent Peer) (h : onlyAlices s e = true) : Carriable s e := by
  cases e with
  | coordinator e =>
    intro sent hmem
    have hmsg : sent.2 = welcome alicesRoster := of_decide_eq_true (List.all_eq_true.mp h sent hmem)
    rw [hmsg, length_alicesRoster]
    decide
  | answer id msg took => trivial
  | again conn id closes => trivial

/-- Alice is listed and welcomed. -/
theorem alice_welcomed : ∃ s,
    Joins.Runs silent plain bobsLobby
      ((planning 1 .alice sharedPlan ++ carrying 1 .alice sharedPlan).map .coordinator) s ∧
    s.lobby.state.members.isMember .alice = true ∧
    s.lobby.handlers = [handler 1 .alice none (.returned sharedPlan)] ∧
    s.underway = [(.alice, welcome alicesRoster)] ∧ s.adopted = [] ∧ s.turnedAway = [] :=
  Run.exists_mono carriable_of_onlyAlices (Run.exists_of_exec (by decide +kernel))

/-- The welcome takes thirty-one seconds. Alice asks twice more. -/
theorem turned_away_once_listed_late : ∃ s s',
    Joins.Runs silent plain bobsLobby
      ((planning 1 .alice sharedPlan ++ carrying 1 .alice sharedPlan).map .coordinator ++
        [.answer .alice (welcome alicesRoster) 31000]) s ∧
    Run (fun s e s' => s.next silent plain e = some s') Carriable s
      [.again ⟨2⟩ .alice (some 5), .again ⟨3⟩ .alice none] s' ∧
    Settled s .alice ∧ s'.lobby.state.members.isMember .alice = true ∧ (∀ ip, (.alice, ip) ∉ s'.adopted) ∧
      s'.turnedAway.count .alice = 2 := by
  obtain ⟨s, hrun, hlisted, hhandlers, hunderway, hadopted, haway⟩ := alice_welcomed
  have hlate : outcome silent ((plain .alice).provider .alice) s.lobby.state.subnet
      (answering (welcome alicesRoster) 31000) = none := by
    have hlen : (Wire.toVecNamed (welcome alicesRoster)).length < 2 ^ 32 := by rw [length_alicesRoster]; decide
    rw [outcome_welcome codec.1 hlen, if_neg fun h => absurd h.1 (by decide)]
  let t : Joins Peer := { s with underway := [], inVain := (.alice, welcome alicesRoster, 31000) :: s.inVain }
  have hvain : s.next silent plain (.answer .alice (welcome alicesRoster) 31000) = some t := by
    simp [Joins.next, hunderway, hlate, t]
  have hsettled : Settled t .alice := by
    refine ⟨hlisted, fun h hmem _ => ?_, fun _ => List.not_mem_nil⟩
    change h ∈ s.lobby.handlers at hmem
    rw [hhandlers, List.mem_singleton] at hmem
    subst hmem
    rfl
  obtain ⟨u, hfirst⟩ := hsettled.exists_again silent plain ⟨2⟩ (some 5)
  obtain ⟨v, hsecond⟩ := (hsettled.step hfirst).1.exists_again silent plain ⟨3⟩ none
  have hagain : ∀ (s : Joins Peer) (conn : Connection) (id : Peer) (closes : Option ℕ),
      Carriable s (.again conn id closes) := fun _ _ _ _ => trivial
  have hlater : Run (fun s e s' => s.next silent plain e = some s') Carriable t
      [.again ⟨2⟩ .alice (some 5), .again ⟨3⟩ .alice none] v :=
    (Run.nil.snoc (hagain ..) hfirst).snoc (hagain ..) hsecond
  obtain ⟨hsettled', hsame, hcount⟩ := turned_away_once_listed hsettled hlater
  refine ⟨t, v, hrun.snoc trivial hvain, hlater, hsettled, hsettled'.listed, fun ip hip => ?_, ?_⟩
  · have hnone := hsame ip hip
    rw [show t.adopted = [] from hadopted] at hnone
    cases hnone
  · rw [hcount, show t.turnedAway = [] from haway]
    rfl

end Tetron.Daemon.JoinAgreement.Sample
