import Tetron.Daemon.Adopt
import Tetron.Daemon.Grant

/-!
# What a record says, and records from before generations

A coordinator encodes hash, generation and seeds, and every reader decodes the same. A record published before
records had a generation counts as generation zero: a publisher, a grant and the poller all rank it below any
record with a positive one (`Outranks`).
-/

namespace Tetron.Daemon

open Tetron.Membership Tetron.Dht

variable {Id : Type}

variable (Id) in
/-- Generation `g` wins over generation `older` wherever a record's generation is compared with a node's, whichever
of the two is the record's: a publisher and a grant write over the older record and leave the newer one alone, and
the poller fetches the newer one only. -/
structure Outranks (g older : ℕ) : Prop where
  overwrites : ∀ hash (seeds : List Id), dhtReadBeforeWrite (some (hash, older, seeds)) g = true
  keeps : ∀ hash (seeds : List Id), dhtReadBeforeWrite (some (hash, g, seeds)) older = false
  grants : ∀ hash dhtHash, grantPublishAction g hash (some (older, dhtHash)) = .publish
  reconverges : ∀ hash dhtHash, grantPublishAction older hash (some (g, dhtHash)) = .reconverge
  ignores : ∀ hash current, pollerShouldFetch older hash g current = false
  fetches : ∀ hash current, pollerShouldFetch g hash older current = true

variable (Id) in
theorem outranks_of_lt {g older : ℕ} (h : older < g) : Outranks Id g older where
  overwrites hash seeds := dhtReadBeforeWrite_some.mpr h
  keeps hash seeds := by
    rw [Bool.eq_false_iff, ne_eq, dhtReadBeforeWrite_some]
    exact Nat.lt_asymm h
  grants hash dhtHash := by
    simp [grantPublishAction, Nat.compare_eq_gt.mpr h]
  reconverges hash dhtHash := by
    simp [grantPublishAction, Nat.compare_eq_lt.mpr h]
  ignores hash current := by simp [pollerShouldFetch, h]
  fetches hash current := by
    have hne : g ≠ older := by omega
    simp [pollerShouldFetch, hne, Nat.le_of_lt h]

variable [Endpoint Id] [Pkarr Id]

/-- **A record reads back.** Every packet of an encoded record decodes to its hash, generation and seeds and names
this build's protocol version. Without its `g,` entry it decodes as generation zero, as does any record that has no
such entry, and that is outranked by every positive generation. -/
theorem record_reads_back (hparse : Pkarr.ParsesBack Id) (blobHash : Hash) {generation : ℕ}
    (hgeneration : generation < 2 ^ 64) (seedPeers : List Id) {packet : SignedPacket}
    (h : encodeNetworkRecord blobHash generation seedPeers = some packet) :
    decodeNetworkRecord packet = some (blobHash, generation, seedPeers) ∧
      meshVersionFromRecord packet = some meshProtocolVersion ∧
      decodeNetworkRecord packet.withoutGeneration = some (blobHash, 0, seedPeers) ∧
      ∀ (old : SignedPacket) (r : Hash × ℕ × List Id),
        (∀ record ∈ old.txtRecords, isGeneration record = false) → decodeNetworkRecord old = some r →
          r.2.1 = 0 ∧ (0 < generation → Outranks Id generation r.2.1) := by
  have hdecode := decodeNetworkRecord_of_encode hparse hgeneration h
  refine ⟨hdecode, meshVersionFromRecord_of_encode h, decodeNetworkRecord_withoutGeneration hdecode, ?_⟩
  intro old r hentries hold
  have hzero := generation_eq_zero hentries hold
  refine ⟨hzero, fun hpos => ?_⟩
  rw [hzero]
  exact outranks_of_lt Id hpos

end Tetron.Daemon

namespace Tetron.Daemon.Sample

open Tetron.Membership Tetron.Dht

theorem record_reads_back_bob :
    encodeNetworkRecord [1] 7 [Peer.bob] = some liveRecord ∧
      decodeNetworkRecord liveRecord = some ([1], 7, [Peer.bob]) ∧
      meshVersionFromRecord liveRecord = some meshProtocolVersion ∧
      decodeNetworkRecord liveRecord.withoutGeneration = some ([1], 0, [Peer.bob]) ∧
      ∀ (old : SignedPacket) (r : Hash × ℕ × List Peer),
        (∀ record ∈ old.txtRecords, isGeneration record = false) → decodeNetworkRecord old = some r →
          r.2.1 = 0 ∧ (0 < 7 → Outranks Peer 7 r.2.1) :=
  ⟨rfl, record_reads_back parsesBack [1] (by decide) [Peer.bob] rfl⟩

end Tetron.Daemon.Sample
