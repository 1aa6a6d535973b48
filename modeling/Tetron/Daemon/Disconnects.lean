import Tetron.Daemon.PeerTable
import Tetron.Daemon.NetworkState
import Tetron.Lib.Run

/-!
# Late disconnects

A peer that dials again is registered over its old connection, whose own disconnect is handled some time
later. `remove_peer_from_network_if` is there for this: it looks whether the connection stored is still the
one that died. It looks in the IPv4 table only and then removes from both. The two tables hold the same
connection of a peer as long as a peer is registered under one IPv4 address at a time
(`removeIf_keeps_others`); a peer whose address was reassigned loses its IPv6 route to the disconnect of its
former connection (`not_keepsOthers_of_moved`).
-/

namespace Tetron.Daemon

open Tetron.Membership PeerTable

/-- One network's connections: its name and key, and the peer at the other end of each connection. -/
structure Link (Id : Type) where
  network : String
  networkKey : Id
  remoteId : Connection → Id

/-- The calls made for a network. A disconnect is handled with the address its connection was registered
under. -/
inductive TableCall (Id : Type)
  | add (ip : Ipv4Addr) (conn : Connection)
  | removeIf (ip : Ipv4Addr) (conn : Connection)
  | remove (ip : Ipv4Addr) (peer : Id)

section Disconnects

variable {Id : Type} [Endpoint Id] [Blake3]

namespace Link

def ipv6 (l : Link Id) (conn : Connection) : Ipv6Addr := deriveIpv6 (l.remoteId conn) l.networkKey

def run (l : Link Id) (t : PeerTable Id) : TableCall Id → PeerTable Id
  | .add ip conn => t.add ip (l.ipv6 conn) conn (l.remoteId conn) l.network
  | .removeIf ip conn => (t.removePeerFromNetworkIf ip (l.ipv6 conn) l.network conn.stableId).1
  | .remove ip peer => t.removePeerFromNetwork ip (deriveIpv6 peer l.networkKey) l.network

/-- A peer is registered only while no other address is routed to another connection of it. -/
def Settled (l : Link Id) (t : PeerTable Id) : TableCall Id → Prop
  | .add ip conn => ∀ ip' conn', ip' ≠ ip → connAt t.v4 ip' l.network = some conn' →
      l.ipv6 conn' = l.ipv6 conn → conn' = conn
  | _ => True

end Link

/-- Every connection of either table is still there, unless its stable id is this one. -/
structure KeepsOthers (t t' : PeerTable Id) (stableId : ℕ) : Prop where
  v4 : ∀ ip network conn, connAt t.v4 ip network = some conn → conn.stableId ≠ stableId →
    connAt t'.v4 ip network = some conn
  v6 : ∀ ipv6 network conn, connAt t.v6 ipv6 network = some conn → conn.stableId ≠ stableId →
    connAt t'.v6 ipv6 network = some conn

/-- The two tables agree on the connection of a peer. -/
def Paired (l : Link Id) (t : PeerTable Id) : Prop :=
  ∀ ip conn conn', connAt t.v4 ip l.network = some conn → connAt t.v6 (l.ipv6 conn) l.network = some conn' →
    conn' = conn

section Call

variable {l : Link Id} {t : PeerTable Id} {ip : Ipv4Addr} {conn : Connection}

/-- A disconnect either finds its connection and removes it from both tables, or changes nothing. -/
theorem run_removeIf (l : Link Id) (t : PeerTable Id) (ip : Ipv4Addr) (conn : Connection) :
    l.run t (.removeIf ip conn) =
      if connAt t.v4 ip l.network = some conn then t.removePeerFromNetwork ip (l.ipv6 conn) l.network else t := by
  have hmatch : (t.connOf ip l.network).map Connection.stableId = some conn.stableId ↔
      connAt t.v4 ip l.network = some conn := by
    constructor
    · intro h
      obtain ⟨c, hc, hid⟩ := Option.map_eq_some_iff.mp h
      exact Connection.eq_of_stableId hid ▸ hc
    · intro h
      exact Option.map_eq_some_iff.mpr ⟨conn, h, rfl⟩
  simp only [Link.run, removePeerFromNetworkIf, hmatch]
  split <;> rfl

/-- A disconnect spares the connections of others exactly when its connection is not the one registered, or
the IPv6 table does not hold another one for its peer. -/
theorem keepsOthers_removeIf_iff :
    KeepsOthers t (l.run t (.removeIf ip conn)) conn.stableId ↔
      (connAt t.v4 ip l.network = some conn → ∀ conn', connAt t.v6 (l.ipv6 conn) l.network = some conn' →
        conn' = conn) := by
  rw [run_removeIf]
  split
  · rename_i hmatch
    constructor
    · intro hkeeps _ conn' hconn'
      by_contra hne
      have hstill := hkeeps.v6 _ _ conn' hconn' fun hid => hne (Connection.eq_of_stableId hid)
      rw [removePeerFromNetwork, connAt_unregister, if_pos ⟨rfl, rfl⟩] at hstill
      cases hstill
    · intro hpaired
      -- what `unregister` takes is the connection that died
      refine ⟨fun ip' network c hc hne => ?_, fun ipv6 network c hc hne => ?_⟩
      · rw [removePeerFromNetwork, connAt_unregister, if_neg]
        · exact hc
        · rintro ⟨rfl, rfl⟩
          rw [hmatch] at hc
          exact hne (Option.some.inj hc ▸ rfl)
      · rw [removePeerFromNetwork, connAt_unregister, if_neg]
        · exact hc
        · rintro ⟨rfl, rfl⟩
          exact hne (hpaired hmatch c hc ▸ rfl)
  · rename_i hother
    exact ⟨fun _ h => absurd h hother, fun _ => ⟨fun _ _ _ hc _ => hc, fun _ _ _ hc _ => hc⟩⟩

/-- Removing keeps the tables paired, whatever is removed. -/
theorem Paired.removePeerFromNetwork (h : Paired l t) (ipv6 : Ipv6Addr) :
    Paired l (t.removePeerFromNetwork ip ipv6 l.network) := by
  intro ip' c c' hc hc'
  rw [PeerTable.removePeerFromNetwork, connAt_unregister] at hc hc'
  split at hc
  · cases hc
  · split at hc'
    · cases hc'
    · exact h ip' c c' hc hc'

theorem Paired.add (h : Paired l t) (hsettled : l.Settled t (.add ip conn)) : Paired l (l.run t (.add ip conn)) := by
  intro ip' c c' hc hc'
  rw [Link.run, PeerTable.add, connAt_register] at hc hc'
  split at hc
  · -- the address just registered
    cases hc
    rw [if_pos ⟨rfl, rfl⟩] at hc'
    exact (Option.some.inj hc').symm
  · rename_i hne
    have hip : ip' ≠ ip := fun heq => hne ⟨heq, rfl⟩
    split at hc'
    · rename_i hsame
      cases hc'
      exact (hsettled ip' c hip hc hsame.1).symm
    · exact h ip' c c' hc hc'

theorem Paired.run (h : Paired l t) (call : TableCall Id) (hsettled : l.Settled t call) :
    Paired l (l.run t call) := by
  cases call with
  | add ip conn => exact h.add hsettled
  | removeIf ip conn =>
    rw [run_removeIf]
    split
    · exact h.removePeerFromNetwork _
    · exact h
  | remove ip peer => exact h.removePeerFromNetwork _

end Call

/-- **A disconnect removes no connection but its own**, in every sequence of calls that registers a peer
under one address at a time. -/
theorem removeIf_keeps_others {l : Link Id} {calls : List (TableCall Id)} {t : PeerTable Id}
    (hrun : Run (fun t call t' => l.run t call = t') l.Settled .new calls t) (ip : Ipv4Addr) (conn : Connection) :
    KeepsOthers t (l.run t (.removeIf ip conn)) conn.stableId := by
  have hpaired : Paired l t := by
    refine hrun.invariant (I := fun _ t => Paired l t) (fun ip conn conn' h _ => by cases h) ?_
    intro _ t call t' h hsettled hstep
    rw [← hstep]
    exact h.run call hsettled
  exact keepsOthers_removeIf_iff.mpr fun hmatch conn' hconn' => hpaired ip conn conn' hmatch hconn'

/-- Registered under a second address, a peer loses its IPv6 route to the disconnect of its first connection. -/
theorem not_keepsOthers_of_moved {l : Link Id} {t : PeerTable Id} {ip ip' : Ipv4Addr} {conn old : Connection}
    (hip : ip' ≠ ip) (hold : connAt t.v4 ip' l.network = some old) (hpeer : l.ipv6 old = l.ipv6 conn)
    (hne : old ≠ conn) :
    ¬ KeepsOthers (l.run t (.add ip conn)) (l.run (l.run t (.add ip conn)) (.removeIf ip' old)) old.stableId := by
  intro hkeeps
  have hv4 : connAt (l.run t (.add ip conn)).v4 ip' l.network = some old := by
    rw [Link.run, PeerTable.add, connAt_register, if_neg fun h => hip h.1]
    exact hold
  have hv6 : connAt (l.run t (.add ip conn)).v6 (l.ipv6 old) l.network = some conn := by
    rw [Link.run, PeerTable.add, connAt_register, if_pos ⟨hpeer, rfl⟩]
  exact hne (keepsOthers_removeIf_iff.mp hkeeps hv4 conn hv6).symm

end Disconnects

namespace Sample

/-- Bob's connections in a network of alice's. -/
def bobsLink : Link Peer := ⟨"home", .alice, fun _ => .bob⟩

def former : Ipv4Addr := deriveIpWithIndex Peer.bob 0 defaultSubnet

def reseated : Ipv4Addr := deriveIpWithIndex Peer.bob 1 defaultSubnet

/-- The table once bob's first registration was removed. -/
def vacated : PeerTable Peer := bobsLink.run (bobsLink.run .new (.add former ⟨1⟩)) (.remove former .bob)

theorem connAt_vacated (ip : Ipv4Addr) : connAt vacated.v4 ip "home" = none := by
  change connAt (unregister (register ∅ former ⟨1⟩ Peer.bob "home") former "home") ip "home" = none
  rw [connAt_unregister, connAt_register]
  split <;> rfl

/-- Bob moves, but not before his former route was removed. -/
theorem removeIf_keeps_others_bob :
    ∃ t, Run (fun t call t' => bobsLink.run t call = t') bobsLink.Settled .new
        [.add former ⟨1⟩, .remove former .bob, .add reseated ⟨2⟩] t ∧
      connAt t.v6 (bobsLink.ipv6 ⟨2⟩) "home" = some ⟨2⟩ ∧
        KeepsOthers t (bobsLink.run t (.removeIf former ⟨1⟩)) 1 := by
  have hsettled : bobsLink.Settled vacated (.add reseated ⟨2⟩) := by
    intro ip conn _ hconn
    rw [show connAt vacated.v4 ip bobsLink.network = none from connAt_vacated ip] at hconn
    cases hconn
  have hfirst : Run (fun t call t' => bobsLink.run t call = t') bobsLink.Settled .new
      ([] ++ [.add former ⟨1⟩]) _ := Run.nil.snoc (fun _ _ _ h => by cases h) rfl
  have hsecond : Run _ bobsLink.Settled .new ([.add former ⟨1⟩] ++ [.remove former .bob]) vacated :=
    hfirst.snoc trivial rfl
  have hrun := hsecond.snoc hsettled rfl
  refine ⟨_, hrun, ?_, removeIf_keeps_others hrun former ⟨1⟩⟩
  exact connAt_register.trans (if_pos ⟨rfl, rfl⟩)

/-- Bob moves and his former connection, still registered, is reported closed. -/
theorem moved_peer_loses_route :
    ∃ t, Run (fun t call t' => bobsLink.run t call = t') (fun _ _ => True) .new
        [.add former ⟨1⟩, .add reseated ⟨2⟩] t ∧
      ¬ KeepsOthers t (bobsLink.run t (.removeIf former ⟨1⟩)) 1 := by
  have hfirst : Run (fun t call t' => bobsLink.run t call = t') (fun _ _ => True) .new
      ([] ++ [.add former ⟨1⟩]) _ := Run.nil.snoc trivial rfl
  refine ⟨_, hfirst.snoc trivial rfl, ?_⟩
  have hmoved : former ≠ reseated := by decide +kernel
  exact not_keepsOthers_of_moved hmoved rfl rfl (by decide)

end Sample

end Tetron.Daemon
