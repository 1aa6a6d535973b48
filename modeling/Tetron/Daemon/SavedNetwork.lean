import Tetron.Daemon.MemberNode
import Tetron.Daemon.Start
import Tetron.Lib.SharedCell

/-!
# Writers of the saved network

Each network is a file of its own, and its writers load it, change a few fields and save it. `AdminGrant` and
`persist_verified_roster` do so under the lock of `update_network`; `reconcile_local_hostname` and
`finalize_join` load and save without it. A granted key is therefore safe from the roster writer, and from the
other two as long as neither is between its load and its save when the grant is saved (`granted_key_kept`).
-/

namespace Tetron.Daemon

open Tetron.Membership

inductive TransportMode
  | default
  | tor
  | veilid
deriving DecidableEq

/-- The file of a network: what a restart reads, and what `finalize_join` writes besides. -/
structure NetworkFile (Id : Type) extends NetworkConfig Id where
  networkPublicKey : Option Id
  transport : Option TransportMode

section Writers

variable {Id : Type} [DecidableEq Id]

/-- The file after `merge_verified_roster`, if it changes. -/
def mergeVerifiedRoster (net : NetworkFile Id) (members : List (Member Id)) (approved : List (ApprovedEntry Id)) :
    Option (NetworkFile Id) :=
  if members.isEmpty then none
  else if net.members = members.map toMemberEntry ∧ net.approved = approved.map toApprovedEntry then none
  else some { net with members := members.map toMemberEntry, approved := approved.map toApprovedEntry }

/-- The file after `reconcile_local_hostname`, if it changes. -/
def reconcileLocalHostname (net : NetworkFile Id) (members : List (Member Id)) (myIdentity : Id) :
    Option (NetworkFile Id) :=
  match (members.find? fun m => m.identity = myIdentity).bind Member.hostname with
  | none => none
  | some mine => if net.myHostname = some mine then none else some { net with myHostname := some mine }

inductive ConfigWriter (Id : Type)
  | adminGrant (networkPubkey : Id) (secretKey : Bytes)
  | persistVerifiedRoster (members : List (Member Id)) (approved : List (ApprovedEntry Id))
  | reconcileLocalHostname (members : List (Member Id)) (myIdentity : Id)
  | finalizeJoin (netPubkey : Id) (transport : Option TransportMode)

namespace ConfigWriter

/-- Those that go through `update_network`. -/
def locked : ConfigWriter Id → Bool
  | adminGrant .. | persistVerifiedRoster .. => true
  | reconcileLocalHostname .. | finalizeJoin .. => false

def isGrant : ConfigWriter Id → Bool
  | adminGrant .. => true
  | _ => false

variable [Endpoint Id]

/-- What each writes for the file it loaded, in the network of this key. A grant for another network or with
another key is ignored. -/
def modify (netPubkey : Id) : ConfigWriter Id → NetworkFile Id → Option (NetworkFile Id)
  | adminGrant networkPubkey secretKey, net =>
    if networkPubkey ≠ netPubkey then none
    else if !adminGrantKeyValid secretKey netPubkey then none
    else some { net with networkSecretKey := some secretKey }
  | persistVerifiedRoster members approved, net => mergeVerifiedRoster net members approved
  | reconcileLocalHostname members myIdentity, net => Daemon.reconcileLocalHostname net members myIdentity
  | finalizeJoin netPubkey transport, net => some { net with networkPublicKey := some netPubkey, transport }

end ConfigWriter

variable [Endpoint Id]

def configWriters (netPubkey : Id) : Writers (ConfigWriter Id) (NetworkFile Id) where
  modify := ConfigWriter.modify netPubkey
  locked := ConfigWriter.locked
  marks := ConfigWriter.isGrant

/-- The network's own secret key is in the file. -/
def NetworkFile.holdsKey (netPubkey : Id) (net : NetworkFile Id) : Bool :=
  net.networkSecretKey.any fun key => adminGrantKeyValid key netPubkey

variable {netPubkey : Id} {net net' : NetworkFile Id}

omit [Endpoint Id] in
theorem secretKey_mergeVerifiedRoster {members : List (Member Id)} {approved : List (ApprovedEntry Id)}
    (h : mergeVerifiedRoster net members approved = some net') : net'.networkSecretKey = net.networkSecretKey := by
  unfold mergeVerifiedRoster at h
  split at h
  · cases h
  · split at h
    · cases h
    · cases h
      rfl

omit [Endpoint Id] in
theorem secretKey_reconcileLocalHostname {members : List (Member Id)} {myIdentity : Id}
    (h : reconcileLocalHostname net members myIdentity = some net') :
    net'.networkSecretKey = net.networkSecretKey := by
  unfold reconcileLocalHostname at h
  split at h
  · cases h
  · split at h
    · cases h
    · cases h
      rfl

/-- A grant that writes, writes the network's key. -/
theorem holdsKey_of_adminGrant {networkPubkey : Id} {secretKey : Bytes}
    (h : (ConfigWriter.adminGrant networkPubkey secretKey).modify netPubkey net = some net') :
    net'.holdsKey netPubkey = true := by
  simp only [ConfigWriter.modify] at h
  split at h
  · cases h
  · split at h
    · cases h
    · rename_i hvalid
      cases h
      change adminGrantKeyValid secretKey netPubkey = true
      simpa using hvalid

/-- No writer takes the key out of the copy it loaded. -/
theorem holdsKey_of_modify {w : ConfigWriter Id} (h : w.modify netPubkey net = some net')
    (hkey : net.holdsKey netPubkey = true) : net'.holdsKey netPubkey = true := by
  cases w with
  | adminGrant networkPubkey secretKey => exact holdsKey_of_adminGrant h
  | persistVerifiedRoster members approved =>
    rw [NetworkFile.holdsKey, secretKey_mergeVerifiedRoster h]
    exact hkey
  | reconcileLocalHostname members myIdentity =>
    rw [NetworkFile.holdsKey, secretKey_reconcileLocalHostname h]
    exact hkey
  | finalizeJoin netPubkey transport =>
    cases h
    exact hkey

/-- **A granted key stays in the file** until the network is deleted, in every interleaving of its writers in
which a grant is saved while neither unlocked writer is between its load and its save. -/
theorem granted_key_kept {file : Option (NetworkFile Id)} {events : List (SharedCell.Event (ConfigWriter Id))}
    {s : SharedCell (ConfigWriter Id) (NetworkFile Id)}
    (hrun : Run (fun s e s' => SharedCell.next (configWriters netPubkey) s e = some s')
      (fun s e => SharedCell.exclusive (configWriters netPubkey) s e = true) (.idle file) events s)
    (hgranted : s.marked = true) : ∃ net, s.content = some net ∧ net.holdsKey netPubkey = true := by
  refine SharedCell.kept (fun _ _ _ => holdsKey_of_modify) ?_ ?_ hrun hgranted
  · intro w net net' hgrant h
    cases w with
    | adminGrant networkPubkey secretKey => exact holdsKey_of_adminGrant h
    | persistVerifiedRoster | reconcileLocalHostname | finalizeJoin => cases hgrant
  · intro w hgrant
    cases w with
    | adminGrant networkPubkey secretKey => rfl
    | persistVerifiedRoster | reconcileLocalHostname | finalizeJoin => cases hgrant

end Writers

namespace Sample

/-- What bob saved when he joined. -/
def bobsFile : NetworkFile Peer where
  name := "mesh"
  myHostname := some "bob"
  members := []
  approved := []
  networkSecretKey := none
  subnet := some defaultSubnet
  nukeConsensusThreshold := 2
  networkPublicKey := some .alice
  transport := none

/-- Bob's entry in a roster that renamed him. -/
def renamed : List (Member Peer) := [{ member .bob false with hostname := some "bob-1" }]

def bobsWriters : List (SharedCell.Event (ConfigWriter Peer)) :=
  [.start (.reconcileLocalHostname renamed .bob), .start (.adminGrant .alice [7])]

/-- The rename is saved before the key, and the roster after it. -/
theorem granted_key_kept_bob :
    ∃ s, Run (fun s e s' => SharedCell.next (configWriters Peer.alice) s e = some s')
        (fun s e => SharedCell.exclusive (configWriters Peer.alice) s e = true) (.idle (some bobsFile))
        (bobsWriters ++ [.load 0, .load 1, .save 0, .save 1, .start (.persistVerifiedRoster renamed []), .load 2,
          .save 2]) s ∧
      ∃ net, s.content = some net ∧ net.holdsKey .alice = true := by
  exact Run.exists_of_exec_imp (SharedCell.marked · = true) (by decide +kernel) fun s => granted_key_kept

/-- The rename was loaded before the key was saved, and is saved after it. -/
theorem granted_key_lost :
    ∃ s, Run (fun s e s' => SharedCell.next (configWriters Peer.alice) s e = some s') (fun _ _ => True)
        (.idle (some bobsFile)) (bobsWriters ++ [.load 0, .load 1, .save 1, .save 0]) s ∧
      (s.marked && s.content.any fun net => !net.holdsKey .alice) = true :=
  Run.exists_of_exec (by decide +kernel)

end Sample

end Tetron.Daemon
