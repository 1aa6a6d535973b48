import Tetron.Daemon.NetworkState
import Tetron.Daemon.PeerTable
import Tetron.Dht

/-!
# The publishers

A coordinator's publisher rereads the state on every notification, a granted co-coordinator's lazy
publisher every ten seconds. Both ask the DHT for the live record first and write only over a lower
generation. A resolve that fails, for whatever reason, is taken for a network without a record.
-/

namespace Tetron.Daemon

open Tetron.Membership Tetron.Dht

/-- How a publish call ends: the relay may have stored a record whose publish timed out. -/
inductive Delivery
  | delivered
  | lost
  | unconfirmed
deriving DecidableEq, Repr

/-- How the two network calls of one iteration end. -/
structure Calls where
  resolves : Bool
  delivery : Delivery

/-- A publisher task; the lazy one remembers the hash it last published. -/
inductive Publisher
  | network
  | lazy (lastPublished : Option Hash)

section Record

variable {Id : Type} [Pkarr Id]

/-- `resolve_network`: an answer within the timeout is the live record, if there is one and it decodes. -/
def resolveNetwork (live : Option SignedPacket) (resolves : Bool) : Option (Hash × ℕ × List Id) :=
  if resolves then live.bind decodeNetworkRecord else none

def dhtReadBeforeWrite (resolved : Option (Hash × ℕ × List Id)) (localGeneration : ℕ) : Bool :=
  match resolved with
  | some (_, dhtGeneration, _) =>
    match compare localGeneration dhtGeneration with
    | .gt => true
    | .lt => false
    -- published already, or a tie with other content, which is left alone
    | .eq => false
  | none => true

variable (Id) in
/-- What readers see of the record. -/
def recordSeen (live : Option SignedPacket) : Option (Hash × ℕ) :=
  (live.bind (decodeNetworkRecord : _ → Option (Hash × ℕ × List Id))).map fun r => (r.1, r.2.1)

variable (Id) in
/-- The record is replaced by another of a lower or equal generation. -/
def Regresses (before after : Option SignedPacket) : Prop :=
  ∃ h g h' g', recordSeen Id before = some (h, g) ∧ recordSeen Id after = some (h', g') ∧ g' ≤ g ∧
    (h', g') ≠ (h, g)

theorem not_regresses_self {live : Option SignedPacket} : ¬ Regresses Id live live := by
  rintro ⟨h, g, h', g', hbefore, hafter, -, hne⟩
  rw [hbefore] at hafter
  exact hne (Option.some.inj hafter).symm

omit [Pkarr Id] in
theorem dhtReadBeforeWrite_some {r : Hash × ℕ × List Id} {generation : ℕ} :
    dhtReadBeforeWrite (some r) generation = true ↔ r.2.1 < generation := by
  simp only [dhtReadBeforeWrite]
  split
  · rename_i hgt
    simpa using Nat.compare_eq_gt.mp hgt
  · rename_i hlt
    simpa using (Nat.compare_eq_lt.mp hlt).le
  · rename_i heq
    simpa using (Nat.compare_eq_eq.mp heq).le

variable (Id) in
/-- The guard lets a publish through if the resolve failed or what readers see is older. -/
theorem dhtReadBeforeWrite_resolveNetwork (live : Option SignedPacket) (resolves : Bool) (generation : ℕ) :
    dhtReadBeforeWrite (resolveNetwork live resolves : Option (Hash × ℕ × List Id)) generation = true ↔
      (resolves = true → ∀ h g, recordSeen Id live = some (h, g) → g < generation) := by
  cases resolves with
  | false => simp [resolveNetwork, dhtReadBeforeWrite]
  | true =>
    simp only [resolveNetwork, if_true, recordSeen, true_implies]
    cases (live.bind decodeNetworkRecord : Option (Hash × ℕ × List Id)) with
    | none => simp [dhtReadBeforeWrite]
    | some r =>
      simp only [dhtReadBeforeWrite_some, Option.map_some, Option.some.injEq, Prod.mk.injEq, and_imp,
        forall_apply_eq_imp_iff, forall_eq']

end Record

section Publish

variable {Id : Type} [Endpoint Id] [Pkarr Id]

/-- `publish_network`: whether it returned `Ok`, and the record that is live then. -/
def publishNetwork (blobHash : Hash) (generation : ℕ) (seedPeers : List Id) (delivery : Delivery)
    (live : Option SignedPacket) : Bool × Option SignedPacket :=
  match encodeNetworkRecord blobHash generation seedPeers with
  | none => (false, live)
  | some packet =>
    match delivery with
    | .delivered => (true, some packet)
    | .lost => (false, live)
    | .unconfirmed => (false, some packet)

/-- The guarded publish of both loops. -/
def publishGuarded (generation : ℕ) (hash : Hash) (seeds : List Id) (calls : Calls)
    (live : Option SignedPacket) : Bool × Option SignedPacket :=
  if dhtReadBeforeWrite (resolveNetwork live calls.resolves : Option (Hash × ℕ × List Id)) generation then
    publishNetwork hash generation seeds calls.delivery live
  else (false, live)

/-- A publish call of this record reaches the relay. -/
def Writes (blobHash : Hash) (generation : ℕ) (seeds : List Id) (delivery : Delivery) : Prop :=
  Pkarr.fits Id (recordValues blobHash generation seeds) = true ∧ delivery ≠ .lost

variable {generation : ℕ} {hash : Hash} {seeds : List Id} {delivery : Delivery} {live : Option SignedPacket}

theorem publishNetwork_of_writes (h : Writes hash generation seeds delivery) :
    (publishNetwork hash generation seeds delivery live).2 = some ⟨recordValues hash generation seeds⟩ := by
  obtain ⟨hfits, hdelivery⟩ := h
  simp only [publishNetwork, encodeNetworkRecord, hfits, if_true]
  cases delivery with
  | delivered => rfl
  | lost => exact absurd rfl hdelivery
  | unconfirmed => rfl

theorem publishNetwork_of_not_writes (h : ¬ Writes hash generation seeds delivery) :
    (publishNetwork hash generation seeds delivery live).2 = live := by
  simp only [publishNetwork, encodeNetworkRecord]
  by_cases hfits : Pkarr.fits Id (recordValues hash generation seeds) = true
  · have hlost : delivery = .lost := by
      by_contra hdelivery
      exact h ⟨hfits, hdelivery⟩
    rw [if_pos hfits, hlost]
  · rw [if_neg hfits]

theorem recordSeen_recordValues (hparse : Pkarr.ParsesBack Id) (hash : Hash) (hgeneration : generation < 2 ^ 64)
    (seeds : List Id) : recordSeen Id (some ⟨recordValues hash generation seeds⟩) = some (hash, generation) := by
  rw [recordSeen, Option.bind_some, decodeNetworkRecord_recordValues hparse hash hgeneration, Option.map_some]

/-- A guarded publish loses a record exactly when the resolve failed although one is live. -/
theorem regresses_publishGuarded_iff (hparse : Pkarr.ParsesBack Id) (hgeneration : generation < 2 ^ 64)
    (hash : Hash) (seeds : List Id) (calls : Calls) (live : Option SignedPacket) :
    Regresses Id live (publishGuarded generation hash seeds calls live).2 ↔
      calls.resolves = false ∧ Writes hash generation seeds calls.delivery ∧
        ∃ h g, recordSeen Id live = some (h, g) ∧ generation ≤ g ∧ (h, g) ≠ (hash, generation) := by
  have hguard := dhtReadBeforeWrite_resolveNetwork Id live calls.resolves generation
  have hseen := recordSeen_recordValues hparse hash hgeneration seeds
  constructor
  · intro hregress
    rw [publishGuarded] at hregress
    split at hregress
    · rename_i hpass
      by_cases hwrites : Writes hash generation seeds calls.delivery
      · rw [publishNetwork_of_writes hwrites] at hregress
        obtain ⟨h, g, h', g', hbefore, hafter, hle, hne⟩ := hregress
        cases hseen.symm.trans hafter
        refine ⟨?_, hwrites, h, g, hbefore, hle, hne.symm⟩
        by_contra hresolves
        have hlt := hguard.mp hpass (Bool.not_eq_false _ ▸ hresolves) h g hbefore
        omega
      · rw [publishNetwork_of_not_writes hwrites] at hregress
        exact absurd hregress not_regresses_self
    · exact absurd hregress not_regresses_self
  · rintro ⟨hresolves, hwrites, h, g, hbefore, hle, hne⟩
    have hpass := hguard.mpr fun hres => by simp [hresolves] at hres
    rw [publishGuarded, if_pos hpass, publishNetwork_of_writes hwrites]
    exact ⟨h, g, hash, generation, hbefore, hseen, hle, hne.symm⟩

end Publish

section Iteration

variable {Id : Type} [DecidableEq Id] [Endpoint Id] [Msgpack Id] [Blake3]

/-- The seeds of a record: the connected peers and the publisher itself, sorted by name. -/
def seedPeers (peers : PeerTable Id) (networkName : String) (endpointId : Id) : List Id :=
  (((peers.peersForNetwork networkName).map Prod.fst ++ [endpointId]).insertionSort
    fun a b => displayLe a b).destutter (· ≠ ·)

/-- The generation and hash a publisher reads under the lock. -/
def NetworkState.published (s : NetworkState Id) : ℕ × Hash :=
  (s.generation, (s.snapshot.map GroupSnapshot.hash).getD (Blake3.hash s.bytes))

/-- The publisher gets to the guard. -/
def Publisher.attempts (pub : Publisher) (hash : Hash) : Bool :=
  match pub with
  | .network => true
  | .lazy lastPublished => lastPublished ≠ some hash

variable [Pkarr Id] (pub : Publisher) (s : NetworkState Id) (peers : PeerTable Id) (networkName : String)
  (endpointId : Id) (calls : Calls) (live : Option SignedPacket)

/-- One iteration of `spawn_network_publisher` or `spawn_lazy_publisher`, with the record after it. -/
def Publisher.iterate : Publisher × Option SignedPacket :=
  let (generation, hash) := s.published
  let seeds := seedPeers peers networkName endpointId
  match pub with
  | .network => (.network, (publishGuarded generation hash seeds calls live).2)
  | .lazy lastPublished =>
    if lastPublished = some hash then (.lazy lastPublished, live)
    else
      let (ok, live') := publishGuarded generation hash seeds calls live
      (.lazy (if ok then some hash else lastPublished), live')

theorem Publisher.iterate_snd :
    (pub.iterate s peers networkName endpointId calls live).2 =
      if pub.attempts s.published.2 then
        (publishGuarded s.generation s.published.2 (seedPeers peers networkName endpointId) calls live).2
      else live := by
  cases pub with
  | network => rfl
  | lazy lastPublished =>
    by_cases hlast : lastPublished = some s.published.2
    · have hskip : (Publisher.lazy lastPublished).attempts s.published.2 = false := by simp [attempts, hlast]
      simp only [iterate, if_pos hlast, hskip, Bool.false_eq_true, if_false]
    · have htry : (Publisher.lazy lastPublished).attempts s.published.2 = true := by simp [attempts, hlast]
      simp only [iterate, if_neg hlast, htry, if_true]
      rfl

/-- **Publishing keeps newer records** unless a resolve fails while another record, of this generation or a
newer one, is live, and the write goes through. -/
theorem keeps_newer_record_iff (hparse : Pkarr.ParsesBack Id) (hgeneration : s.generation < 2 ^ 64) :
    ¬ Regresses Id live (pub.iterate s peers networkName endpointId calls live).2 ↔
      calls.resolves = true ∨ pub.attempts s.published.2 = false ∨
        ¬ Writes s.published.2 s.generation (seedPeers peers networkName endpointId) calls.delivery ∨
        ∀ h g, recordSeen Id live = some (h, g) → g < s.generation ∨ (h, g) = (s.published.2, s.generation) := by
  have hiff := regresses_publishGuarded_iff hparse hgeneration s.published.2
    (seedPeers peers networkName endpointId) calls live
  rw [Publisher.iterate_snd]
  cases pub.attempts s.published.2 with
  | false => simp [not_regresses_self]
  | true =>
    rw [if_pos rfl, hiff]
    constructor
    · intro hkeeps
      by_contra hcond
      push Not at hcond
      obtain ⟨hresolves, -, hwrites, h, g, hseen, hle, hne⟩ := hcond
      exact hkeeps ⟨Bool.not_eq_true _ ▸ hresolves, hwrites, h, g, hseen, hle, hne⟩
    · rintro hcond ⟨hresolves, hwrites, h, g, hseen, hle, hne⟩
      rcases hcond with hanswer | hskip | hlost | hold
      · exact absurd (hanswer.symm.trans hresolves) (by decide)
      · exact absurd hskip (by decide)
      · exact hlost hwrites
      · rcases hold h g hseen with hlt | hsame
        · omega
        · exact hne hsame

end Iteration

end Tetron.Daemon

namespace Tetron.Daemon.Sample

open Tetron.Membership Tetron.Dht

/-! ### A stale coordinator -/

def hexValue (digit : UInt8) : ℕ := if digit ≤ 57 then digit.toNat - 48 else digit.toNat - 87

def fromHex : Bytes → Hash
  | hi :: lo :: rest => UInt8.ofNat (16 * hexValue hi + hexValue lo) :: fromHex rest
  | _ => []

def parsePeer : Bytes → Option Peer
  | [97] => some .alice
  | [98] => some .bob
  | [109] => some .mallory
  | [99] => some .carol
  | [118, 109] => some .victor
  | _ => none

scoped instance : Pkarr Peer where
  fits _ := true
  parseHash text := some (fromHex text)
  parseId := parsePeer

theorem fromHex_hashText (h : Hash) : fromHex (hashText h) = h := by
  have hbyte : ∀ b : UInt8, UInt8.ofNat (16 * hexValue (UInt8.ofNat (hexDigit (b.toNat / 16)).toNat) +
      hexValue (UInt8.ofNat (hexDigit (b.toNat % 16)).toNat)) = b :=
    forall_byte (by decide +kernel)
  induction h with
  | nil => rfl
  | cons b h ih =>
    have hstep : hashText (b :: h) = UInt8.ofNat (hexDigit (b.toNat / 16)).toNat ::
        UInt8.ofNat (hexDigit (b.toNat % 16)).toNat :: hashText h := by
      simp [hashText, toHex]
    rw [hstep, fromHex, hbyte, ih]

theorem parsesBack : Pkarr.ParsesBack Peer where
  hash h := congrArg some (fromHex_hashText h)
  id peer := by cases peer <;> rfl

/-- A record of generation 7. -/
def liveRecord : SignedPacket := ⟨recordValues [1] 7 [Peer.bob]⟩

theorem recordSeen_liveRecord : recordSeen Peer (some liveRecord) = some ([1], 7) :=
  recordSeen_recordValues parsesBack [1] (by decide) [Peer.bob]

theorem keeps_newer_record_alice :
    ¬ Regresses Peer (some liveRecord) (Publisher.network.iterate (state 5 [member .alice true]) .new "mesh"
      .alice ⟨true, .delivered⟩ (some liveRecord)).2 :=
  (keeps_newer_record_iff .network (state 5 [member .alice true]) .new "mesh" .alice ⟨true, .delivered⟩
    (some liveRecord) parsesBack (by decide)).mpr (Or.inl rfl)

theorem regresses_of_failed_resolve {pub : Publisher} (hattempts : ∀ hash, pub.attempts hash = true) :
    Regresses Peer (some liveRecord) (pub.iterate (state 5 [member .alice true]) .new "mesh" .alice
      ⟨false, .delivered⟩ (some liveRecord)).2 := by
  rw [Publisher.iterate_snd, if_pos (hattempts _)]
  refine (regresses_publishGuarded_iff parsesBack (by decide) _ _ _ _).mpr ⟨rfl, ⟨rfl, by decide⟩, [1], 7,
    recordSeen_liveRecord, by decide, ?_⟩
  intro heq
  exact absurd (congrArg Prod.snd heq) (by decide)

/-- A coordinator at generation 5 whose resolve fails publishes over the record of generation 7, through
either publisher. -/
theorem stale_publish_after_failed_resolve :
    Regresses Peer (some liveRecord) (Publisher.network.iterate (state 5 [member .alice true]) .new "mesh"
        .alice ⟨false, .delivered⟩ (some liveRecord)).2 ∧
      Regresses Peer (some liveRecord) ((Publisher.lazy none).iterate (state 5 [member .alice true]) .new "mesh"
        .alice ⟨false, .delivered⟩ (some liveRecord)).2 :=
  ⟨regresses_of_failed_resolve fun _ => rfl, regresses_of_failed_resolve fun _ => rfl⟩

end Tetron.Daemon.Sample
