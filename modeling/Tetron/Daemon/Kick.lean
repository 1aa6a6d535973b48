import Tetron.Daemon.NetworkState
import Tetron.Daemon.PeerTable

/-!
# Kicking a member

`kick_member` finds the network by a prefix of its key and the member by a prefix of its identity, looked for on
the rosters of all networks the node is in. It then takes the member off both rosters of the network, republishes,
and drops the member's routes. These it finds in the IPv4 table: `finalize_removal` leaves an IPv6 route behind
if the member has no IPv4 route of its own, because somebody else was registered at its address
(`kick_member_iff`).
-/

namespace Tetron.Daemon

open Tetron.Membership

structure NetworkHandle (Id : Type) [DecidableEq Id] [Msgpack Id] [Blake3] where
  state : NetworkState Id
  networkKey : Id
  peers : PeerTable Id

structure MeshManager (Id : Type) [DecidableEq Id] [Msgpack Id] [Blake3] where
  /-- `self.endpoint.id()` -/
  endpointId : Id
  networks : HashTable String (NetworkHandle Id)

/-- The two answers to a command. -/
inductive IpcMessage
  | ok (message : String)
  | error (message : String)
deriving DecidableEq

section Model

variable {Id : Type} [Endpoint Id]

/-- `fmt_short`: five bytes in hexadecimal. -/
def fmtShort (id : Id) : String := toHex ((Endpoint.asBytes id).take 5)

/-- `id.to_string().starts_with(short)` -/
def startsWith (id : Id) (short : String) : Bool := short.toUTF8.data.toList.isPrefixOf (Endpoint.display id)

/-- `MIN_PREFIX_LEN` -/
def minPrefixLen : ℕ := 10

variable [DecidableEq Id] [Msgpack Id] [Blake3]

namespace MeshManager

/-- The networks whose key starts with `short`. -/
def matchingNetworks (d : MeshManager Id) (short : String) : List (String × Id) :=
  (d.networks.entries.filter fun e => startsWith e.2.networkKey short).map fun e => (e.1, e.2.networkKey)

def resolveNetworkShortId (d : MeshManager Id) (short : String) : Except String String :=
  if short.utf8ByteSize < minPrefixLen then
    .error (s!"'{short}' is too short to safely identify a network -- use at least " ++
      s!"{minPrefixLen} characters (the `network_key` shown by `tetron status`), or the full value")
  else
    match d.matchingNetworks short with
    | [] => .error s!"could not resolve network '{short}'"
    | [(name, _)] => .ok name
    | several => .error (s!"'{short}' is ambiguous -- matches {several.length} networks (" ++
        ", ".intercalate (several.map fun m => m.1 ++ " " ++ fmtShort m.2) ++ "); use more characters")

/-- The identities on the rosters, network by network. -/
def memberIds (d : MeshManager Id) : List Id :=
  d.networks.entries.flatMap fun e => e.2.state.members.all.map Member.identity

/-- The body of the loop over the rosters. -/
def pushMatch (short : String) (found : List Id) (id : Id) : List Id :=
  if startsWith id short && !found.contains id then found ++ [id] else found

def matchingPeers (d : MeshManager Id) (short : String) : List Id := d.memberIds.foldl (pushMatch short) []

def resolveShortIdAnyNetwork (d : MeshManager Id) (short : String) : Except String Id :=
  if short = "self" then .ok d.endpointId
  else if short.utf8ByteSize < minPrefixLen then
    .error (s!"'{short}' is too short to safely identify a peer -- use at least " ++
      s!"{minPrefixLen} characters (the short id shown by `tetron status`), or the full id")
  else
    match d.matchingPeers short with
    | [] => .error s!"could not resolve peer '{short}'"
    | [id] => .ok id
    | several => .error (s!"'{short}' is ambiguous -- matches {several.length} peers (" ++
        ", ".intercalate (several.map fmtShort) ++ "); use more characters")

/-- The checks of `kick_member`: the network, its handle, and the member to remove. -/
def kickTarget (d : MeshManager Id) (networkKey endpointId : String) :
    Except String (String × NetworkHandle Id × Member Id) := do
  let network ← d.resolveNetworkShortId networkKey
  match d.networks.get? network with
  | none => .error s!"network '{network}' not found"
  | some h =>
    if h.state.networkSecretKey.isNone then
      .error "only a coordinator (network key holder) can kick a member"
    else
      let candidate ← d.resolveShortIdAnyNetwork endpointId
      match h.state.members.all.find? fun m => m.identity = candidate with
      | none => .error s!"'{endpointId}' is not a member of '{network}'"
      | some m =>
        if m.identity = d.endpointId then
          .error "cannot kick yourself — use `tetron leave` or `tetron nuke`"
        else .ok (network, h, m)

end MeshManager

def coordNote (isCoordinator : Bool) : String :=
  if isCoordinator then
    " (was a coordinator -- this removes their roster access but does not revoke " ++
      "their copy of the network key; if their machine is not actually gone, they " ++
      "could still use it to mint themselves a new invite and rejoin)"
  else ""

/-- The loop of `finalize_removal`, without the closing of the connections. -/
def dropRoutes (network : String) (networkKey : Id) (victims : List Id) (peers : PeerTable Id)
    (connected : List (Id × Ipv4Addr × Connection)) : PeerTable Id :=
  connected.foldl (fun peers p =>
    if victims.contains p.1 then peers.removePeerFromNetwork p.2.1 (deriveIpv6 p.1 networkKey) network
    else peers) peers

def finalizeRemoval (network : String) (h : NetworkHandle Id) (victims : List Id) : NetworkHandle Id :=
  { h with
    state := h.state.bumpGenerationAndRefresh
    peers := dropRoutes network h.networkKey victims h.peers (h.peers.peersForNetworkWithConn network) }

/-- The handle of a network from which a member is kicked. -/
def NetworkHandle.kick (network : String) (h : NetworkHandle Id) (victim : Id) : NetworkHandle Id :=
  finalizeRemoval network { h with state := removeMemberRosterOnly h.state victim } [victim]

/-- `kick_member`. Nothing comes between its steps here, so `mesh_ctx_for` finds the handle again. -/
def MeshManager.kickMember (d : MeshManager Id) (networkKey endpointId : String) : IpcMessage × MeshManager Id :=
  match d.kickTarget networkKey endpointId with
  | .error message => (.error message, d)
  | .ok (network, h, m) =>
    let display := m.hostname.getD (fmtShort m.identity)
    (.ok (s!"kicked '{display}' from '{network}'" ++ coordNote m.isCoordinator),
      { d with networks := d.networks.insert network (h.kick network m.identity) })

end Model

/-! ### Who is meant -/

section Resolve

variable {Id : Type} [DecidableEq Id] [Endpoint Id] [Msgpack Id] [Blake3] {d : MeshManager Id}
  {short : String} {id : Id}

/-- The identity is a member of a network the node is in. -/
def MeshManager.Lists (d : MeshManager Id) (id : Id) : Prop :=
  ∃ name h, d.networks.get? name = some h ∧ h.state.members.isMember id = true

omit [Endpoint Id] in
theorem mem_memberIds : id ∈ d.memberIds ↔ d.Lists id := by
  simp only [MeshManager.memberIds, List.mem_flatMap, List.mem_map]
  constructor
  · rintro ⟨⟨name, h⟩, he, m, hm, rfl⟩
    refine ⟨name, h, HashTable.get?_eq_some_iff.mpr he, ?_⟩
    rw [MemberList.isMember, MemberList.mem_all_iff.mp hm]
    rfl
  · rintro ⟨name, h, hget, hmember⟩
    obtain ⟨m, hm⟩ := Option.isSome_iff_exists.mp hmember
    have hid := MemberList.identity_of_get hm
    exact ⟨⟨name, h⟩, HashTable.get?_eq_some_iff.mp hget, m, MemberList.mem_all_iff.mpr (hid.symm ▸ hm), hid⟩

omit [Msgpack Id] [Blake3] in
/-- The loop collects what it was given and every identity that starts with `short`. -/
theorem mem_foldl_pushMatch {ids found : List Id} :
    id ∈ ids.foldl (MeshManager.pushMatch short) found ↔ id ∈ found ∨ id ∈ ids ∧ startsWith id short = true := by
  induction ids generalizing found with
  | nil => simp
  | cons a ids ih =>
    have hpush : id ∈ MeshManager.pushMatch short found a ↔ id ∈ found ∨ id = a ∧ startsWith a short = true := by
      unfold MeshManager.pushMatch
      by_cases hfound : a ∈ found
      · have hcontains : found.contains a = true := by simpa using hfound
        rw [hcontains, Bool.not_true, Bool.and_false, if_neg Bool.false_ne_true]
        constructor
        · exact Or.inl
        · rintro (h | ⟨rfl, -⟩)
          · exact h
          · exact hfound
      · cases hstarts : startsWith a short <;> simp [hfound]
    rw [List.foldl_cons, ih, hpush, List.mem_cons]
    constructor
    · rintro ((h | ⟨rfl, hstarts⟩) | ⟨h, hstarts⟩)
      · exact Or.inl h
      · exact Or.inr ⟨Or.inl rfl, hstarts⟩
      · exact Or.inr ⟨Or.inr h, hstarts⟩
    · rintro (h | ⟨rfl | h, hstarts⟩)
      · exact Or.inl (Or.inl h)
      · exact Or.inl (Or.inr ⟨rfl, hstarts⟩)
      · exact Or.inr ⟨h, hstarts⟩

theorem mem_matchingPeers : id ∈ d.matchingPeers short ↔ d.Lists id ∧ startsWith id short = true := by
  rw [MeshManager.matchingPeers, mem_foldl_pushMatch, mem_memberIds]
  simp

/-- A short id resolves to the node itself by the word `self`, or to the one member it is a prefix of. -/
theorem resolveShortId_eq_ok (h : d.resolveShortIdAnyNetwork short = .ok id) :
    id = d.endpointId ∨
      minPrefixLen ≤ short.utf8ByteSize ∧ ∀ id', d.Lists id' ∧ startsWith id' short = true ↔ id' = id := by
  unfold MeshManager.resolveShortIdAnyNetwork at h
  split at h
  · cases h
    exact Or.inl rfl
  · split at h
    · cases h
    · rename_i hlength
      split at h
      · cases h
      · rename_i heq
        cases h
        refine Or.inr ⟨not_lt.mp hlength, fun id' => ?_⟩
        rw [← mem_matchingPeers, heq, List.mem_singleton]
      · cases h

/-- What the checks let through. -/
theorem kickTarget_eq_ok {networkKey endpointId network : String} {h : NetworkHandle Id} {m : Member Id} :
    d.kickTarget networkKey endpointId = .ok (network, h, m) ↔
      d.resolveNetworkShortId networkKey = .ok network ∧ d.networks.get? network = some h ∧
        h.state.networkSecretKey ≠ none ∧ d.resolveShortIdAnyNetwork endpointId = .ok m.identity ∧
        h.state.members.get m.identity = some m ∧ m.identity ≠ d.endpointId := by
  simp only [MeshManager.kickTarget, MemberList.find?_all_identity, bind, Except.bind]
  constructor
  · intro hok
    split at hok
    · cases hok
    · rename_i name hname
      split at hok
      · cases hok
      · rename_i handle hhandle
        split at hok
        · cases hok
        · rename_i hkey
          split at hok
          · cases hok
          · rename_i candidate hcandidate
            split at hok
            · cases hok
            · rename_i found hfound
              split at hok
              · cases hok
              · rename_i hself
                cases hok
                have hid := MemberList.identity_of_get hfound
                refine ⟨hname, hhandle, ?_, hid ▸ hcandidate, hid.symm ▸ hfound, hself⟩
                exact fun hnone => hkey (Option.isNone_iff_eq_none.mpr hnone)
  · rintro ⟨hname, hhandle, hkey, hcandidate, hfound, hself⟩
    have hsome : ¬ h.state.networkSecretKey.isNone = true := fun hnone => hkey (Option.isNone_iff_eq_none.mp hnone)
    simp only [hname, hhandle, if_neg hsome, hcandidate, hfound, if_neg hself]

end Resolve

/-! ### The routes that go -/

section Routes

variable {Id κ : Type} [DecidableEq κ] {t : HashTable κ (PeerEntry Id)} {addr addr' : κ} {id : Id} {network : String}

/-- The entry of the address is the peer's, with a connection in the network. -/
def Routes (t : HashTable κ (PeerEntry Id)) (addr : κ) (id : Id) (network : String) : Prop :=
  ∃ e, t.get? addr = some e ∧ e.endpointId = id ∧ (e.conns.get? network).isSome = true

theorem get?_unregister_of_ne (hne : addr' ≠ addr) :
    (PeerTable.unregister t addr network).get? addr' = t.get? addr' := by
  unfold PeerTable.unregister
  split
  · rfl
  · split
    · rw [HashTable.get?_erase, if_neg hne]
    · rw [HashTable.get?_insert, if_neg hne]

theorem routes_unregister :
    Routes (PeerTable.unregister t addr network) addr' id network ↔ Routes t addr' id network ∧ addr' ≠ addr := by
  by_cases haddr : addr' = addr
  · subst haddr
    refine iff_of_false ?_ fun h => h.2 rfl
    rintro ⟨e, hget, -, hconn⟩
    have hnone : PeerTable.connAt (PeerTable.unregister t addr' network) addr' network = none := by
      rw [PeerTable.connAt_unregister, if_pos ⟨rfl, rfl⟩]
    rw [PeerTable.connAt, hget, Option.bind_some] at hnone
    rw [hnone] at hconn
    cases hconn
  · rw [Routes, get?_unregister_of_ne haddr]
    exact ⟨fun h => ⟨h, haddr⟩, fun h => h.1⟩

theorem routes_foldl_unregister {addrs : List κ} :
    Routes (addrs.foldl (fun t a => PeerTable.unregister t a network) t) addr id network ↔
      Routes t addr id network ∧ addr ∉ addrs := by
  induction addrs generalizing t with
  | nil => simp
  | cons a addrs ih => rw [List.foldl_cons, ih, routes_unregister, List.mem_cons, not_or, and_assoc]

end Routes

section Removal

variable {Id : Type} [DecidableEq Id] [Endpoint Id] [Msgpack Id] [Blake3] {network : String}
  {h : NetworkHandle Id} {id : Id}

omit [Msgpack Id] in
/-- The loop unregisters the addresses of the victims in one table, and the derived ones in the other. -/
theorem dropRoutes_eq (networkKey : Id) (victims : List Id) (peers : PeerTable Id)
    (connected : List (Id × Ipv4Addr × Connection)) :
    dropRoutes network networkKey victims peers connected =
      ⟨((connected.filter fun p => victims.contains p.1).map fun p => p.2.1).foldl
          (fun t a => PeerTable.unregister t a network) peers.v4,
        ((connected.filter fun p => victims.contains p.1).map fun p => deriveIpv6 p.1 networkKey).foldl
          (fun t a => PeerTable.unregister t a network) peers.v6⟩ := by
  induction connected generalizing peers with
  | nil => rfl
  | cons p connected ih =>
    rw [dropRoutes, List.foldl_cons]
    cases hvictim : victims.contains p.1 with
    | true =>
      rw [if_pos rfl, List.filter_cons, hvictim, if_pos rfl]
      exact ih _
    | false =>
      rw [if_neg Bool.false_ne_true, List.filter_cons, hvictim, if_neg Bool.false_ne_true]
      exact ih _

/-- Neither table routes to the peer in the network. -/
def NoRoute (peers : PeerTable Id) (network : String) (id : Id) : Prop :=
  (∀ ip, ¬ Routes peers.v4 ip id network) ∧ ∀ ipv6, ¬ Routes peers.v6 ipv6 id network

/-- A peer with an IPv6 route has it at its derived address, and has an IPv4 route as well. -/
def NetworkHandle.Tracks (h : NetworkHandle Id) (network : String) (id : Id) : Prop :=
  ∀ ipv6, Routes h.peers.v6 ipv6 id network →
    ipv6 = deriveIpv6 id h.networkKey ∧ ∃ ip, Routes h.peers.v4 ip id network

omit [DecidableEq Id] [Endpoint Id] [Msgpack Id] [Blake3] in
/-- The peers a removal looks at are those with an IPv4 route. -/
theorem routes_v4_iff {peers : PeerTable Id} {ip : Ipv4Addr} :
    Routes peers.v4 ip id network ↔ ∃ conn, (id, ip, conn) ∈ peers.peersForNetworkWithConn network := by
  constructor
  · rintro ⟨e, hget, hid, hconn⟩
    obtain ⟨conn, hconn⟩ := Option.isSome_iff_exists.mp hconn
    exact ⟨conn, PeerTable.mem_peersForNetworkWithConn.mpr ⟨e, hget, hid, hconn⟩⟩
  · rintro ⟨conn, hmem⟩
    obtain ⟨e, hget, hid, hconn⟩ := PeerTable.mem_peersForNetworkWithConn.mp hmem
    exact ⟨e, hget, hid, Option.isSome_iff_exists.mpr ⟨conn, hconn⟩⟩

/-- The routes a kick leaves to its victim: no IPv4 route, and none at the derived IPv6 address of a victim that
has an IPv4 route. -/
theorem routes_kick (network : String) (h : NetworkHandle Id) (id : Id) :
    (∀ ip, ¬ Routes (h.kick network id).peers.v4 ip id network) ∧
      ∀ ipv6, Routes (h.kick network id).peers.v6 ipv6 id network ↔
        Routes h.peers.v6 ipv6 id network ∧
          ¬ (ipv6 = deriveIpv6 id h.networkKey ∧ ∃ ip, Routes h.peers.v4 ip id network) := by
  have hpeers : (h.kick network id).peers = _ :=
    dropRoutes_eq h.networkKey [id] h.peers (h.peers.peersForNetworkWithConn network)
  simp only [hpeers, routes_foldl_unregister, routes_v4_iff, List.mem_map, List.mem_filter]
  constructor
  · rintro ip ⟨⟨conn, hmem⟩, hkept⟩
    exact hkept ⟨(id, ip, conn), ⟨hmem, by simp⟩, rfl⟩
  · intro ipv6
    refine and_congr_right fun _ => not_congr ⟨?_, ?_⟩
    · rintro ⟨⟨pid, ip, conn⟩, ⟨hmem, hvictim⟩, rfl⟩
      cases List.mem_singleton.mp (List.contains_iff_mem.mp hvictim)
      exact ⟨rfl, ip, conn, hmem⟩
    · rintro ⟨rfl, ip, conn, hmem⟩
      exact ⟨(id, ip, conn), ⟨hmem, by simp⟩, rfl⟩

theorem noRoute_kick_iff : NoRoute (h.kick network id).peers network id ↔ h.Tracks network id := by
  obtain ⟨hv4, hv6⟩ := routes_kick network h id
  constructor
  · rintro ⟨-, hnone⟩ ipv6 hroute
    by_contra hstays
    exact hnone ipv6 ((hv6 ipv6).mpr ⟨hroute, hstays⟩)
  · intro htracks
    refine ⟨hv4, fun ipv6 hroute => ?_⟩
    obtain ⟨hbefore, hstays⟩ := (hv6 ipv6).mp hroute
    exact hstays (htracks ipv6 hbefore)

/-- The handle of a network without the peer and with nothing else changed but the generation, one up. -/
structure NetworkHandle.Without (network : String) (h : NetworkHandle Id) (id : Id) (h' : NetworkHandle Id) : Prop where
  members : ∀ id', h'.state.members.get id' = if id' = id then none else h.state.members.get id'
  approved : ∀ id', h'.state.approved.get id' = if id' = id then none else h.state.approved.get id'
  invites : h'.state.invites = h.state.invites
  reusableKeys : h'.state.reusableKeys = h.state.reusableKeys
  nukeProposals : h'.state.nukeProposals = h.state.nukeProposals
  generation : h'.state.generation = h.state.generation + 1
  routes : NoRoute h'.peers network id

theorem without_kick_iff :
    NetworkHandle.Without network h id (h.kick network id) ↔
      h.state.generation + 1 < 2 ^ 64 ∧ h.Tracks network id := by
  have hgeneration : (h.kick network id).state.generation = (h.state.generation + 1) % 2 ^ 64 := rfl
  constructor
  · intro hwithout
    refine ⟨?_, noRoute_kick_iff.mp hwithout.routes⟩
    have hone := hgeneration.symm.trans hwithout.generation
    omega
  · rintro ⟨hlt, htracks⟩
    exact {
      members := fun _ => MemberList.get_remove
      approved := fun _ => ApprovedList.get_remove
      invites := rfl
      reusableKeys := rfl
      nukeProposals := rfl
      generation := hgeneration.trans (Nat.mod_eq_of_lt hlt)
      routes := noRoute_kick_iff.mpr htracks }

theorem kickMember_of_target {d : MeshManager Id} {networkKey endpointId : String} {m : Member Id}
    (htarget : d.kickTarget networkKey endpointId = .ok (network, h, m)) :
    ∃ message, d.kickMember networkKey endpointId =
      (.ok message, { d with networks := d.networks.insert network (h.kick network m.identity) }) := by
  rw [MeshManager.kickMember, htarget]
  exact ⟨_, rfl⟩

/-- **Kicks**: a kick changes nothing and says why, or removes just the one member that is meant, exactly when a
member that passes the checks is tracked in both tables and the generation does not wrap. -/
theorem kick_member_iff (d : MeshManager Id) (networkKey endpointId : String) :
    ((∃ message, d.kickMember networkKey endpointId = (.error message, d)) ∨
      ∃ message network h h' id,
        d.kickMember networkKey endpointId = (.ok message, { d with networks := d.networks.insert network h' }) ∧
        d.resolveNetworkShortId networkKey = .ok network ∧ d.networks.get? network = some h ∧
        h.state.members.isMember id = true ∧ id ≠ d.endpointId ∧ 10 ≤ endpointId.utf8ByteSize ∧
        (∀ id', d.Lists id' ∧ startsWith id' endpointId = true ↔ id' = id) ∧
        NetworkHandle.Without network h id h') ↔
      ∀ network h id, d.resolveNetworkShortId networkKey = .ok network → d.networks.get? network = some h →
        h.state.networkSecretKey ≠ none → d.resolveShortIdAnyNetwork endpointId = .ok id →
        h.state.members.isMember id = true → id ≠ d.endpointId →
          h.state.generation + 1 < 2 ^ 64 ∧ h.Tracks network id := by
  constructor
  · intro heither network h id hnetwork hhandle hkey hid hmember hself
    obtain ⟨m, hm⟩ := Option.isSome_iff_exists.mp hmember
    cases MemberList.identity_of_get hm
    have htarget : d.kickTarget networkKey endpointId = .ok (network, h, m) :=
      kickTarget_eq_ok.mpr ⟨hnetwork, hhandle, hkey, hid, hm, hself⟩
    obtain ⟨_, hkicked⟩ := kickMember_of_target htarget
    have honly := ((resolveShortId_eq_ok hid).resolve_left hself).2
    rcases heither with ⟨_, hkick⟩ | ⟨_, network', h₁, h', id', hkick, hnetwork', hhandle', -, -, -, honly', hw⟩
    · cases congrArg Prod.fst (hkicked.symm.trans hkick)
    · cases hnetwork.symm.trans hnetwork'
      cases hhandle.symm.trans hhandle'
      cases (honly id').mp ((honly' id').mpr rfl)
      have hresult : h.kick network m.identity = h' := by
        have hnetworks := congrArg (fun r => MeshManager.networks r.2) (hkicked.symm.trans hkick)
        have hget := congrArg (HashTable.get? · network) hnetworks
        simpa only [HashTable.get?_insert, if_true, Option.some.injEq] using hget
      exact without_kick_iff.mp (hresult ▸ hw)
  · intro hcondition
    cases htarget : d.kickTarget networkKey endpointId with
    | error message => exact Or.inl ⟨message, by rw [MeshManager.kickMember, htarget]⟩
    | ok target =>
      obtain ⟨network, h, m⟩ := target
      obtain ⟨hnetwork, hhandle, hkey, hid, hm, hself⟩ := kickTarget_eq_ok.mp htarget
      have hmember : h.state.members.isMember m.identity = true := Option.isSome_iff_exists.mpr ⟨m, hm⟩
      obtain ⟨hlength, honly⟩ := (resolveShortId_eq_ok hid).resolve_left hself
      have hwithout := without_kick_iff.mpr (hcondition network h m.identity hnetwork hhandle hkey hid hmember hself)
      obtain ⟨message, hkicked⟩ := kickMember_of_target htarget
      exact Or.inr ⟨message, network, h, _, m.identity, hkicked, hnetwork, hhandle, hmember, hself, hlength, honly,
        hwithout⟩

end Removal

end Tetron.Daemon

namespace Tetron.Daemon.Team

open Tetron.Membership

inductive Mate
  | alice
  | bob
  | carol
deriving DecidableEq, Countable

def name : Mate → Bytes
  | .alice => List.replicate 10 97
  | .bob => List.replicate 10 98
  | .carol => List.replicate 10 99

scoped instance : Endpoint Mate where
  display := name
  asBytes := name
  publicKey _ := .alice

scoped instance : Blake3 := ⟨id⟩

noncomputable scoped instance : Msgpack Mate := Classical.choose Msgpack.exists_roundTrips

def member (mate : Mate) : Member Mate :=
  ⟨mate, deriveIp mate defaultSubnet, decide (mate = .alice), none, 0, none, none⟩

def state : NetworkState Mate where
  generation := 5
  members := .fromMembers [member .alice, member .bob, member .carol]
  approved := .new
  snapshot := none
  networkSecretKey := some [1]
  networkPublicKey := .alice
  networkName := none
  reusableKeys := ∅
  invites := ∅
  nukeProposals := ∅
  nukeConsensusThreshold := defaultNukeConsensusThreshold
  subnet := defaultSubnet

/-- Alice with a link to bob. -/
def linked : PeerTable Mate :=
  PeerTable.new.add (member .bob).ip (deriveIpv6 Mate.bob .alice) ⟨1⟩ .bob "mesh"

/-- Carol was given the address bob is still registered under, and has linked up as well. -/
def overlaid : PeerTable Mate :=
  linked.add (member .bob).ip (deriveIpv6 Mate.carol .alice) ⟨2⟩ .carol "mesh"

def handle (peers : PeerTable Mate) : NetworkHandle Mate := ⟨state, .alice, peers⟩

def manager (peers : PeerTable Mate) : MeshManager Mate := ⟨.alice, HashTable.insert ∅ "mesh" (handle peers)⟩

theorem resolves_mesh (peers : PeerTable Mate) : (manager peers).resolveNetworkShortId "aaaaaaaaaa" = .ok "mesh" := rfl

theorem resolves_bob (peers : PeerTable Mate) : (manager peers).resolveShortIdAnyNetwork "bbbbbbbbbb" = .ok .bob := rfl

theorem tracks_linked : (handle linked).Tracks "mesh" .bob := by
  rintro ipv6 ⟨e, hget, -⟩
  rw [handle, linked, PeerTable.add, PeerTable.get?_register] at hget
  split at hget
  · rename_i heq
    exact ⟨heq, (member .bob).ip, _, rfl, rfl, rfl⟩
  · cases hget

theorem target_bob (peers : PeerTable Mate) :
    (manager peers).kickTarget "aaaaaaaaaa" "bbbbbbbbbb" = .ok ("mesh", handle peers, member .bob) :=
  kickTarget_eq_ok.mpr ⟨resolves_mesh peers, rfl, nofun, resolves_bob peers, rfl, nofun⟩

/-- Alice kicks bob. -/
theorem kick_member_bob :
    ∃ message h', (manager linked).kickMember "aaaaaaaaaa" "bbbbbbbbbb" =
        (.ok message, { manager linked with networks := (manager linked).networks.insert "mesh" h' }) ∧
      NetworkHandle.Without "mesh" (handle linked) .bob h' := by
  have hhandle : (manager linked).networks.get? "mesh" = some (handle linked) := rfl
  have hdoes := (kick_member_iff (manager linked) "aaaaaaaaaa" "bbbbbbbbbb").mpr (by
    intro network h id hnetwork hget _ hid _ _
    cases (resolves_mesh linked).symm.trans hnetwork
    cases hhandle.symm.trans hget
    cases (resolves_bob linked).symm.trans hid
    exact ⟨by decide, tracks_linked⟩)
  rcases hdoes with ⟨message, herror⟩ | ⟨message, network, h, h', id, hkick, hnetwork, hget, -, -, -, honly, hwithout⟩
  · obtain ⟨_, hkicked⟩ := kickMember_of_target (target_bob linked)
    cases congrArg Prod.fst (hkicked.symm.trans herror)
  · cases (resolves_mesh linked).symm.trans hnetwork
    cases hhandle.symm.trans hget
    cases (honly .bob).mp ⟨⟨"mesh", handle linked, rfl, rfl⟩, rfl⟩
    exact ⟨message, h', hkick, hwithout⟩

/-- Bob's IPv6 route outlives his membership when carol has taken over his IPv4 entry. -/
theorem kicked_peer_keeps_route :
    ∃ message d' h', (manager overlaid).kickMember "aaaaaaaaaa" "bbbbbbbbbb" = (.ok message, d') ∧
      d'.networks.get? "mesh" = some h' ∧ h'.state.members.isMember .bob = false ∧
      Routes h'.peers.v6 (deriveIpv6 Mate.bob .alice) .bob "mesh" := by
  obtain ⟨message, hkicked⟩ := kickMember_of_target (target_bob overlaid)
  refine ⟨message, _, (handle overlaid).kick "mesh" .bob, hkicked, rfl, by decide +kernel, ?_⟩
  have hroute : (((handle overlaid).kick "mesh" .bob).peers.v6.get? (deriveIpv6 Mate.bob .alice)).any
      (fun e => decide (e.endpointId = .bob) && (e.conns.get? "mesh").isSome) = true := by decide +kernel
  obtain ⟨e, hget, hboth⟩ := (Option.any_eq_true _ _).mp hroute
  obtain ⟨hid, hconn⟩ := Bool.and_eq_true_iff.mp hboth
  exact ⟨e, hget, of_decide_eq_true hid, hconn⟩

end Tetron.Daemon.Team
