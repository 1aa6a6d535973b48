import Tetron.Daemon.Canonical
import Tetron.Daemon.Publish

/-!
# Room in the network record

A pkarr packet holds at most 1000 bytes of DNS message. The publisher names every connected peer as a seed,
79 bytes each, so the record it builds fits for ten seeds, itself included, and for no eleventh
(`builds_record_iff`). A coordinator with more peers than that publishes nothing any more.
-/

namespace Tetron.Dht

open Tetron.Membership

/-- The owner name `_tetron.<key>` written out: two labels with their length bytes, the key as 52 characters
of z-base-32, and the root. -/
def ownerNameSize : ℕ := (1 + 7) + (1 + 52) + 1

/-- A TXT record of one string: owner name, ten bytes of type, class, TTL and data length, and the string
with its length byte. -/
def txtRecordSize (nameSize : ℕ) (value : Bytes) : ℕ := nameSize + 10 + (1 + value.length)

/-- The DNS message of `from_txt_strings`, one record for each string. The first record spells the owner
name, the others point back to it with two bytes. -/
def txtPacketSize : List Bytes → ℕ
  | [] => 12
  | value :: values => 12 + txtRecordSize ownerNameSize value + (values.map (txtRecordSize 2)).sum

/-- `from_txt_strings` fails exactly for messages of more than 1000 bytes. -/
def Pkarr.SizeLimited (Id : Type) [Pkarr Id] : Prop :=
  ∀ values, Pkarr.fits Id values = true ↔ txtPacketSize values ≤ 1000

/-- Endpoint ids are printed as 64 hexadecimal digits, different ids differently. -/
structure HexDisplay (Id : Type) [Endpoint Id] : Prop where
  injective : Function.Injective (Endpoint.display : Id → Bytes)
  length : ∀ id : Id, (Endpoint.display id).length = 64

theorem length_hashText (h : Hash) : (hashText h).length = 2 * h.length := by
  induction h with
  | nil => rfl
  | cons b h ih =>
    have hstep : (hashText (b :: h)).length = (hashText h).length + 2 := by
      simp [hashText, toHex]
    rw [hstep, ih, List.length_cons]
    omega

section Size

variable {Id : Type} [Endpoint Id]

/-- The message of a record: 197 bytes, the digits of the generation, and 79 bytes for each seed. -/
theorem txtPacketSize_recordValues (hdisplay : HexDisplay Id) {blobHash : Hash} (hhash : blobHash.length = 32)
    (generation : ℕ) (seeds : List Id) : txtPacketSize (recordValues blobHash generation seeds) =
      197 + (decimal generation).length + 79 * seeds.length := by
  have hseeds : ((seeds.map fun peer => peerTag ++ Endpoint.display peer).map (txtRecordSize 2)).sum =
      79 * seeds.length := by
    induction seeds with
    | nil => rfl
    | cons peer seeds ih =>
      have hpeer : txtRecordSize 2 (peerTag ++ Endpoint.display peer) = 79 := by
        rw [txtRecordSize, List.length_append, hdisplay.length, show peerTag.length = 2 from rfl]
      rw [List.map_cons, List.map_cons, List.sum_cons, ih, hpeer, List.length_cons]
      ring
  have hversion : txtRecordSize ownerNameSize recordVersion = 75 := rfl
  have hblob : txtRecordSize 2 (hashTag ++ hashText blobHash) = 79 := by
    rw [txtRecordSize, List.length_append, length_hashText, hhash, show hashTag.length = 2 from rfl]
  have hgeneration : txtRecordSize 2 (generationTag ++ decimal generation) = 15 + (decimal generation).length := by
    rw [txtRecordSize, List.length_append, show generationTag.length = 2 from rfl]
    omega
  have hmesh : txtRecordSize 2 (meshTag ++ decimal meshProtocolVersion) = 16 := by decide
  rw [recordValues, List.cons_append, txtPacketSize, List.map_append, List.sum_append, hseeds, hversion,
    List.map_cons, List.map_cons, List.map_singleton, List.sum_cons, List.sum_cons, List.sum_singleton, hblob,
    hgeneration, hmesh]
  omega

end Size

end Tetron.Dht

namespace Tetron.Daemon

open Tetron.Membership Tetron.Dht

section Seeds

variable {Id : Type} [DecidableEq Id] [Endpoint Id]

/-- The publisher and the peers connected to it in the network. -/
def connectedNodes (peers : PeerTable Id) (networkName : String) (endpointId : Id) : Finset Id :=
  insert endpointId ((peers.peersForNetwork networkName).map Prod.fst).toFinset

/-- Sorting and dropping repeated neighbours leaves every node once. -/
theorem length_seedPeers (hdisplay : Function.Injective (Endpoint.display : Id → Bytes)) (peers : PeerTable Id)
    (networkName : String) (endpointId : Id) :
    (seedPeers peers networkName endpointId).length = (connectedNodes peers networkName endpointId).card := by
  rw [seedPeers, destutter_sorted hdisplay, ← List.card_toFinset, connectedNodes]
  congr 1
  ext id
  rw [List.mem_toFinset, List.mem_insertionSort, List.mem_append, List.mem_singleton, Finset.mem_insert,
    List.mem_toFinset, or_comm]

variable [Pkarr Id]

/-- **The publisher builds its record** exactly while the nodes to name and the digits of the generation
leave room. -/
theorem builds_record_iff (hpkarr : Pkarr.SizeLimited Id) (hdisplay : HexDisplay Id) {blobHash : Hash}
    (hhash : blobHash.length = 32) (generation : ℕ) (peers : PeerTable Id) (networkName : String)
    (endpointId : Id) :
    (encodeNetworkRecord blobHash generation (seedPeers peers networkName endpointId)).isSome = true ↔
      79 * (connectedNodes peers networkName endpointId).card + (decimal generation).length ≤ 803 := by
  have hsize := txtPacketSize_recordValues hdisplay hhash generation (seedPeers peers networkName endpointId)
  rw [length_seedPeers hdisplay.injective] at hsize
  have hfits := hpkarr (recordValues blobHash generation (seedPeers peers networkName endpointId))
  simp only [encodeNetworkRecord]
  split
  · rename_i hfit
    have hle := hfits.mp hfit
    simp only [Option.isSome_some, true_iff]
    omega
  · rename_i hfit
    have hgt := mt hfits.mpr hfit
    simp only [Option.isSome_none, Bool.false_eq_true, false_iff]
    omega

end Seeds

end Tetron.Daemon

/-! ### A fleet of sixteen nodes -/

namespace Tetron.Daemon.Fleet

open Tetron.Dht

/-- Ids that differ in their first digit. -/
scoped instance : Endpoint (Fin 16) where
  display i := UInt8.ofNat (48 + i) :: List.replicate 63 48
  asBytes i := [UInt8.ofNat i]
  publicKey _ := ⟨0, Nat.succ_pos 15⟩

scoped instance : Pkarr (Fin 16) where
  fits values := txtPacketSize values ≤ 1000
  parseHash _ := none
  parseId _ := none

theorem sizeLimited : Pkarr.SizeLimited (Fin 16) := fun _ => decide_eq_true_iff

theorem hexDisplay : HexDisplay (Fin 16) where
  injective := by decide
  length i := by
    show (_ :: List.replicate 63 _).length = 64
    rw [List.length_cons, List.length_replicate]

/-- Node zero with links to the nodes given, at one address each. -/
def linked (nodes : List (Fin 16)) : PeerTable (Fin 16) :=
  nodes.foldl (fun t (i : Fin 16) => t.add (BitVec.ofNat 32 i.val) (fun _ => UInt8.ofNat i.val) ⟨i.val⟩ i "mesh") .new

def blobHash : Membership.Hash := List.replicate 32 0

/-- Nine peers can be named. -/
theorem builds_record_nine :
    (encodeNetworkRecord blobHash 7 (seedPeers (linked [1, 2, 3, 4, 5, 6, 7, 8, 9]) "mesh" 0)).isSome = true :=
  (builds_record_iff sizeLimited hexDisplay rfl 7 (linked [1, 2, 3, 4, 5, 6, 7, 8, 9]) "mesh" 0).mpr (by decide +kernel)

/-- With a tenth peer the record of the same network cannot be built. -/
theorem tenth_peer_blocks_record :
    encodeNetworkRecord blobHash 7 (seedPeers (linked [1, 2, 3, 4, 5, 6, 7, 8, 9, 10]) "mesh" 0) = none := by
  decide +kernel

end Tetron.Daemon.Fleet
