import Tetron.Addressing
import Tetron.Lib.Table
import Tetron.Membership.Invites

/-!
# The peer table

The routing table of the data plane: virtual address to peer, with one connection per network. The IPv4
and the IPv6 table are kept side by side by the same two operations, `register` and `unregister`.

A connection stays open when its entry goes: the table routes packets out, and what a peer sends in is
read by a task of the connection.
-/

namespace Tetron

open Tetron.Membership

variable {Id : Type} [Endpoint Id] [Blake3]

/-- Octet 0x02, then 48 bits of the hash of the network key. -/
def ipv6NetworkPrefix (network : Id) : Ipv6Addr := fun i =>
  if i = 0 then 2 else if i ≤ 6 then byteAt (Blake3.hash (Endpoint.display network)) (i - 1) else 0

/-- The network's octets, then 72 bits of the hash of `identity:network`. -/
def deriveIpv6 (identity network : Id) : Ipv6Addr := fun i =>
  if i ≤ 6 then ipv6NetworkPrefix network i
  else byteAt (Blake3.hash (Endpoint.display identity ++ [58] ++ Endpoint.display network)) (i - 7)

end Tetron

namespace Tetron.Daemon

/-- A QUIC connection, by its `stable_id`. -/
structure Connection where
  stableId : ℕ
deriving DecidableEq

theorem Connection.eq_of_stableId {a b : Connection} (h : a.stableId = b.stableId) : a = b := by
  cases a
  cases b
  exact congrArg Connection.mk h

structure PeerEntry (Id : Type) where
  endpointId : Id
  /-- Network name to the connection within that network. -/
  conns : HashTable String Connection

structure PeerRoute (Id : Type) where
  conn : Connection
  endpointId : Id
  network : String

/-- The connection of the lexically smallest network. -/
def PeerEntry.route {Id : Type} (e : PeerEntry Id) : Option (PeerRoute Id) :=
  (e.conns.entries.insertionSort fun a b => a.1 ≤ b.1).head?.map fun c => ⟨c.2, e.endpointId, c.1⟩

structure PeerTable (Id : Type) where
  v4 : HashTable Ipv4Addr (PeerEntry Id)
  v6 : HashTable Ipv6Addr (PeerEntry Id)

namespace PeerTable

variable {Id : Type}

section Register

variable {κ : Type} [DecidableEq κ] (t : HashTable κ (PeerEntry Id))

/-- Either half of `add`: the entry takes the identity and the connection, and keeps the connections of
other networks. -/
def register (addr : κ) (conn : Connection) (endpointId : Id) (network : String) :
    HashTable κ (PeerEntry Id) :=
  t.insert addr ⟨endpointId, ((t.get? addr).elim ∅ PeerEntry.conns).insert network conn⟩

/-- Either half of `remove_peer_from_network`: an entry goes with its last connection. -/
def unregister (addr : κ) (network : String) : HashTable κ (PeerEntry Id) :=
  match t.get? addr with
  | none => t
  | some e =>
    if (e.conns.erase network).size = 0 then t.erase addr
    else t.insert addr { e with conns := e.conns.erase network }

end Register

def new : PeerTable Id := ⟨∅, ∅⟩

def add (t : PeerTable Id) (ip : Ipv4Addr) (ipv6 : Ipv6Addr) (conn : Connection) (endpointId : Id)
    (network : String) : PeerTable Id :=
  ⟨register t.v4 ip conn endpointId network, register t.v6 ipv6 conn endpointId network⟩

def lookupV4 (t : PeerTable Id) (ip : Ipv4Addr) : Option (PeerRoute Id) :=
  (t.v4.get? ip).bind PeerEntry.route

def lookupV6 (t : PeerTable Id) (ip : Ipv6Addr) : Option (PeerRoute Id) :=
  (t.v6.get? ip).bind PeerEntry.route

def remove (t : PeerTable Id) (ip : Ipv4Addr) (ipv6 : Ipv6Addr) : PeerTable Id :=
  ⟨t.v4.erase ip, t.v6.erase ipv6⟩

def removePeerFromNetwork (t : PeerTable Id) (ip : Ipv4Addr) (ipv6 : Ipv6Addr) (network : String) :
    PeerTable Id :=
  ⟨unregister t.v4 ip network, unregister t.v6 ipv6 network⟩

/-- The connection an address is registered with in a network. -/
def connOf (t : PeerTable Id) (ip : Ipv4Addr) (network : String) : Option Connection :=
  (t.v4.get? ip).bind fun e => e.conns.get? network

def removePeerFromNetworkIf (t : PeerTable Id) (ip : Ipv4Addr) (ipv6 : Ipv6Addr) (network : String)
    (stableId : ℕ) : PeerTable Id × Bool :=
  if ((t.connOf ip network).map Connection.stableId) = some stableId then
    (t.removePeerFromNetwork ip ipv6 network, true)
  else (t, false)

def peersForNetwork (t : PeerTable Id) (network : String) : List (Id × Ipv4Addr) :=
  (t.v4.entries.filter fun e => (e.2.conns.get? network).isSome).map fun e => (e.2.endpointId, e.1)

def peersForNetworkWithConn (t : PeerTable Id) (network : String) : List (Id × Ipv4Addr × Connection) :=
  t.v4.entries.filterMap fun e => (e.2.conns.get? network).map fun conn => (e.2.endpointId, e.1, conn)

section Register

variable {κ : Type} [DecidableEq κ] {t : HashTable κ (PeerEntry Id)}

theorem get?_register {addr addr' : κ} {conn : Connection} {endpointId : Id} {network : String} :
    (register t addr conn endpointId network).get? addr' =
      if addr' = addr then some ⟨endpointId, ((t.get? addr).elim ∅ PeerEntry.conns).insert network conn⟩
      else t.get? addr' :=
  HashTable.get?_insert

/-- The connection either table holds for an address and a network. -/
def connAt (t : HashTable κ (PeerEntry Id)) (addr : κ) (network : String) : Option Connection :=
  (t.get? addr).bind fun e => e.conns.get? network

theorem connAt_register {addr addr' : κ} {conn : Connection} {endpointId : Id} {network network' : String} :
    connAt (register t addr conn endpointId network) addr' network' =
      if addr' = addr ∧ network' = network then some conn else connAt t addr' network' := by
  rw [connAt, get?_register]
  by_cases haddr : addr' = addr
  · subst haddr
    rw [if_pos rfl, Option.bind_some, HashTable.get?_insert]
    by_cases hnet : network' = network
    · rw [if_pos hnet, if_pos ⟨rfl, hnet⟩]
    · rw [if_neg hnet, if_neg fun h => hnet h.2, connAt]
      cases t.get? addr' <;> rfl
  · rw [if_neg haddr, if_neg fun h => haddr h.1, connAt]

theorem connAt_unregister {addr addr' : κ} {network network' : String} :
    connAt (unregister t addr network) addr' network' =
      if addr' = addr ∧ network' = network then none else connAt t addr' network' := by
  cases hget : t.get? addr with
  | none =>
    simp only [unregister, hget]
    split
    · rename_i h
      rw [connAt, h.1, hget, Option.bind_none]
    · rfl
  | some e =>
    -- the entry without the network, which `unregister` drops when it is empty
    have hconns : connAt (unregister t addr network) addr' network' =
        if addr' = addr then (e.conns.erase network).get? network' else connAt t addr' network' := by
      simp only [unregister, hget]
      split
      · rename_i hempty
        rw [connAt, HashTable.get?_erase, HashTable.get?_of_size_eq_zero hempty]
        split <;> rfl
      · rw [connAt, HashTable.get?_insert]
        split <;> rfl
    rw [hconns, HashTable.get?_erase]
    by_cases haddr : addr' = addr
    · subst haddr
      simp only [if_true, true_and, connAt, hget, Option.bind_some]
    · rw [if_neg haddr, if_neg fun h => haddr h.1]

end Register

variable {t : PeerTable Id} {ip : Ipv4Addr} {conn : Connection} {id : Id} {network : String}

/-- An entry with a connection has a route, to the entry's peer. -/
theorem exists_lookupV4 {e : PeerEntry Id} (h : t.v4.get? ip = some e) (hconn : e.conns.get? network = some conn) :
    ∃ r, t.lookupV4 ip = some r ∧ r.endpointId = e.endpointId := by
  have hmem : (⟨network, conn⟩ : Σ _ : String, Connection) ∈
      e.conns.entries.insertionSort fun a b => a.1 ≤ b.1 :=
    (List.mem_insertionSort _).mpr (HashTable.get?_eq_some_iff.mp hconn)
  cases hsorted : e.conns.entries.insertionSort fun a b => a.1 ≤ b.1 with
  | nil =>
    rw [hsorted] at hmem
    cases hmem
  | cons c rest =>
    refine ⟨⟨c.2, e.endpointId, c.1⟩, ?_, rfl⟩
    rw [lookupV4, h, Option.bind_some, PeerEntry.route, hsorted]
    rfl

theorem mem_peersForNetworkWithConn :
    (id, ip, conn) ∈ t.peersForNetworkWithConn network ↔
      ∃ e, t.v4.get? ip = some e ∧ e.endpointId = id ∧ e.conns.get? network = some conn := by
  simp only [peersForNetworkWithConn, List.mem_filterMap, Option.map_eq_some_iff, Prod.mk.injEq]
  constructor
  · rintro ⟨⟨ip', e⟩, hmem, conn', hconn, hid, rfl, rfl⟩
    exact ⟨e, HashTable.get?_eq_some_iff.mpr hmem, hid, hconn⟩
  · rintro ⟨e, hget, hid, hconn⟩
    exact ⟨⟨ip, e⟩, HashTable.get?_eq_some_iff.mp hget, conn, hconn, hid, rfl, rfl⟩

end PeerTable

end Tetron.Daemon
