import Mathlib.Data.Fintype.BigOperators
import Tetron.Daemon.PeerTable
import Tetron.Forward.PeerReader
import Tetron.Packet.FragmentV4
import Tetron.Packet.FragmentV6

/-!
# The outbound half of the data plane

`run_mesh` reads one packet after another from the TUN device and hands each to the connection of the peer it is
addressed to: as one datagram, or cut into a fragment set. What the connection answers, how large a datagram may
be, how much room its send buffer has and whether a datagram is taken, is up to QUIC and may change from one call
to the next.

The metrics count packets, so a packet should be dropped once at most. The loop over a fragment set returns when
the buffer runs short, but goes on after a failed send and counts a drop for each: `drops_le_iff` says for which
answers a packet is still dropped only once.
-/

namespace Tetron.Forward.Mesh

open Packet Daemon

instance : Fintype DropReason where
  elems := {.sendFailure, .noPeer, .malformed, .backpressure, .spoof, .fragmentationFailed}
  complete reason := by cases reason <;> decide

structure ForwardMetrics where
  packetsTx : ℕ
  bytesTx : ℕ
  drops : DropReason → ℕ
  fragmentedIpv4 : ℕ
  fragmentedIpv6 : ℕ

namespace ForwardMetrics

def new : ForwardMetrics := ⟨0, 0, fun _ => 0, 0, 0⟩

def recordTx (s : ForwardMetrics) (bytes : ℕ) : ForwardMetrics :=
  { s with packetsTx := s.packetsTx + 1, bytesTx := s.bytesTx + bytes }

def recordDrop (s : ForwardMetrics) (reason : DropReason) : ForwardMetrics :=
  { s with drops := Function.update s.drops reason (s.drops reason + 1) }

def recordFragmentedIpv4 (s : ForwardMetrics) : ForwardMetrics :=
  { s with fragmentedIpv4 := s.fragmentedIpv4 + 1 }

def recordFragmentedIpv6 (s : ForwardMetrics) : ForwardMetrics :=
  { s with fragmentedIpv6 := s.fragmentedIpv6 + 1 }

/-- All drops, whatever the reason. -/
def totalDrops (s : ForwardMetrics) : ℕ := ∑ reason, s.drops reason

theorem totalDrops_recordDrop (s : ForwardMetrics) (reason : DropReason) :
    (s.recordDrop reason).totalDrops = s.totalDrops + 1 := by
  have hrest := Finset.add_sum_erase Finset.univ s.drops (Finset.mem_univ reason)
  show ∑ r, Function.update s.drops reason (s.drops reason + 1) r = (∑ r, s.drops r) + 1
  rw [Finset.sum_update_of_mem (Finset.mem_univ reason), ← hrest, ← Finset.erase_eq]
  omega

end ForwardMetrics

/-- What is done about a packet: a connection takes a datagram, or something is counted. -/
inductive Action
  | tx (datagram : Bytes)
  | drop (reason : DropReason)
  | fragmentedIpv4
  | fragmentedIpv6
deriving DecidableEq

def ForwardMetrics.record (s : ForwardMetrics) : Action → ForwardMetrics
  | .tx datagram => s.recordTx datagram.length
  | .drop reason => s.recordDrop reason
  | .fragmentedIpv4 => s.recordFragmentedIpv4
  | .fragmentedIpv6 => s.recordFragmentedIpv6

def Action.isDrop : Action → Bool
  | .drop _ => true
  | _ => false

def drops (actions : List Action) : ℕ := actions.countP Action.isDrop

@[simp] theorem drops_nil : drops [] = 0 := rfl

@[simp] theorem drops_drop (reason : DropReason) (actions : List Action) :
    drops (.drop reason :: actions) = drops actions + 1 := List.countP_cons_of_pos rfl

@[simp] theorem drops_tx (datagram : Bytes) (actions : List Action) :
    drops (.tx datagram :: actions) = drops actions := List.countP_cons_of_neg Bool.false_ne_true

theorem totalDrops_record (actions : List Action) (stats : ForwardMetrics) :
    (actions.foldl ForwardMetrics.record stats).totalDrops = stats.totalDrops + drops actions := by
  induction actions generalizing stats with
  | nil => rfl
  | cons action rest ih =>
    rw [List.foldl_cons, ih]
    cases action with
    | drop reason =>
      rw [ForwardMetrics.record, ForwardMetrics.totalDrops_recordDrop, drops_drop]
      omega
    | tx datagram | fragmentedIpv4 | fragmentedIpv6 => rfl

/-- The answers of a connection while one packet is handled: `max_datagram_size`, the `i`th
`datagram_send_buffer_space` that is compared with a length, and whether the `i`th `send_datagram` is `Ok`. The
space is also read for a log line; nothing depends on that reading. -/
structure ConnAnswers where
  maxDatagramSize : Option ℕ
  datagramSendBufferSpace : ℕ → ℕ
  sendDatagram : ℕ → Bool

def fragmentSetWireLen (fragments : List Bytes) : ℕ := (fragments.map List.length).sum

/-- The loop of `send_fragment_set`, at fragment `i`. Comparison `0` was the one for the whole set. -/
def sendFragments (conn : ConnAnswers) : ℕ → List Bytes → List Action
  | _, [] => []
  | i, frag :: rest =>
    if conn.datagramSendBufferSpace (i + 1) < frag.length then [.drop .backpressure]
    else if conn.sendDatagram i then .tx frag :: sendFragments conn (i + 1) rest
    else .drop .sendFailure :: sendFragments conn (i + 1) rest

def sendFragmentSet (conn : ConnAnswers) (fragments : List Bytes) : List Action :=
  if conn.datagramSendBufferSpace 0 < fragmentSetWireLen fragments then [.drop .backpressure]
  else sendFragments conn 0 fragments

/-- What the loop keeps: the metrics and the next id of `NEXT_FRAG6_ID`. -/
structure Outbound where
  stats : ForwardMetrics
  nextFrag6Id : UInt32

/-- A packet read from the TUN, the peer table it is looked up in, and the answers of the connection it is routed
to. -/
structure TunRead (Id : Type) where
  packet : Bytes
  peers : PeerTable Id
  conn : ConnAnswers

namespace TunRead

variable {Id : Type}

def lookup (r : TunRead Id) : IpAddr → Option (PeerRoute Id)
  | .v4 ip => r.peers.lookupV4 ip
  | .v6 ip => r.peers.lookupV6 ip

/-- The peer a packet is for. -/
def route (r : TunRead Id) : Option (PeerRoute Id) :=
  (parsePacketInfo r.packet).bind fun info => r.lookup info.dstIp

end TunRead

variable {Id : Type}

/-- The standard path: the packet is one datagram. -/
def sendWhole (conn : ConnAnswers) (packet : Bytes) : List Action :=
  if conn.datagramSendBufferSpace 0 < packet.length then [.drop .backpressure]
  else if conn.sendDatagram 0 then [.tx packet]
  else [.drop .sendFailure]

/-- A packet over `max_dgram`, with the next id. The id of an IPv6 packet is taken before it is cut. -/
def sendCut (conn : ConnAnswers) (packet : Bytes) (maxDgram : ℕ) (id : UInt32) : List Action × UInt32 :=
  match packet.head?.map fun b : UInt8 => b >>> 4 with
  | some 4 =>
    match fragmentIpv4Into packet maxDgram with
    | some fragments => (.fragmentedIpv4 :: sendFragmentSet conn fragments, id)
    | none => ([.drop .fragmentationFailed], id)
  | some 6 =>
    match fragmentIpv6Into packet id maxDgram with
    | some fragments => (.fragmentedIpv6 :: sendFragmentSet conn fragments, id + 1)
    | none => ([.drop .fragmentationFailed], id + 1)
  | _ => ([.drop .sendFailure], id)

/-- A packet with a peer to go to. -/
def sendRouted (conn : ConnAnswers) (packet : Bytes) (id : UInt32) : List Action × UInt32 :=
  match conn.maxDatagramSize with
  | none => ([.drop .sendFailure], id)
  | some maxDgram =>
    if packet.length ≤ maxDgram then (sendWhole conn packet, id) else sendCut conn packet maxDgram id

/-- The body of the loop. What is empty or not IP is passed over and not counted. -/
def handle (id : UInt32) (r : TunRead Id) : List Action × UInt32 :=
  if r.packet.length = 0 then ([], id)
  else
    match parsePacketInfo r.packet with
    | none => ([], id)
    | some info =>
      match r.lookup info.dstIp with
      | none => ([.drop .noPeer], id)
      | some _ => sendRouted r.conn r.packet id

def forward (m : Outbound) (r : TunRead Id) : Outbound :=
  ⟨(handle m.nextFrag6Id r).1.foldl ForwardMetrics.record m.stats, (handle m.nextFrag6Id r).2⟩

/-- The loop over the packets read until it is cancelled. -/
def runMesh (m : Outbound) (reads : List (TunRead Id)) : Outbound := reads.foldl forward m

/-! ### What a fragment set may cost -/

/-- Every fragment from the `i`th on finds room and is taken. -/
def GoesThrough (conn : ConnAnswers) (i : ℕ) (fragments : List Bytes) : Prop :=
  ∀ k f, fragments[k]? = some f → f.length ≤ conn.datagramSendBufferSpace (i + k + 1) ∧ conn.sendDatagram (i + k)

/-- The first `k` fragments from the `i`th on, and the one after them, find room: the loop tries to send it. -/
def Reaches (conn : ConnAnswers) (i : ℕ) (fragments : List Bytes) (k : ℕ) : Prop :=
  ∀ j f, j ≤ k → fragments[j]? = some f → f.length ≤ conn.datagramSendBufferSpace (i + j + 1)

/-- When the loop fails to send a fragment, all later ones go through. -/
def FailsOnce (conn : ConnAnswers) (i : ℕ) (fragments : List Bytes) : Prop :=
  ∀ k < fragments.length, Reaches conn i fragments k → conn.sendDatagram (i + k) = false →
    GoesThrough conn (i + k + 1) (fragments.drop (k + 1))

/-- The fragment set a packet is sent as, when it has a peer and is over the connection's datagram size. -/
def fragmentsOf (m : Outbound) (r : TunRead Id) : Option (List Bytes) := do
  let info ← parsePacketInfo r.packet
  let _ ← r.lookup info.dstIp
  let maxDgram ← r.conn.maxDatagramSize
  if r.packet.length ≤ maxDgram then none
  else if ipVersion r.packet = 4 then fragmentIpv4Into r.packet maxDgram
  else fragmentIpv6Into r.packet m.nextFrag6Id maxDgram

section Loop

variable {conn : ConnAnswers} {i k : ℕ} {f : Bytes} {fragments : List Bytes} {stats : ForwardMetrics}

theorem goesThrough_nil : GoesThrough conn i [] := by
  intro k f hf
  simp at hf

theorem goesThrough_cons :
    GoesThrough conn i (f :: fragments) ↔
      (f.length ≤ conn.datagramSendBufferSpace (i + 1) ∧ conn.sendDatagram i) ∧
        GoesThrough conn (i + 1) fragments := by
  constructor
  · intro h
    refine ⟨h 0 f rfl, fun k g hg => ?_⟩
    have hk := h (k + 1) g hg
    rwa [show i + (k + 1) = i + 1 + k by omega] at hk
  · rintro ⟨hhead, hrest⟩ k g hg
    cases k with
    | zero =>
      obtain rfl : f = g := by simpa using hg
      exact hhead
    | succ k =>
      rw [show i + (k + 1) = i + 1 + k by omega]
      exact hrest k g hg

theorem reaches_zero_cons :
    Reaches conn i (f :: fragments) 0 ↔ f.length ≤ conn.datagramSendBufferSpace (i + 1) := by
  constructor
  · intro h
    exact h 0 f le_rfl rfl
  · intro h j g hj hg
    obtain rfl : j = 0 := by omega
    obtain rfl : f = g := by simpa using hg
    exact h

theorem reaches_succ_cons :
    Reaches conn i (f :: fragments) (k + 1) ↔
      f.length ≤ conn.datagramSendBufferSpace (i + 1) ∧ Reaches conn (i + 1) fragments k := by
  constructor
  · intro h
    refine ⟨h 0 f (by omega) rfl, fun j g hj hg => ?_⟩
    have hj' := h (j + 1) g (by omega) hg
    rwa [show i + (j + 1) = i + 1 + j by omega] at hj'
  · rintro ⟨hhead, hrest⟩ j g hj hg
    cases j with
    | zero =>
      obtain rfl : f = g := by simpa using hg
      exact hhead
    | succ j =>
      rw [show i + (j + 1) = i + 1 + j by omega]
      exact hrest j g (by omega) hg

theorem failsOnce_nil : FailsOnce conn i [] := by
  intro k hk
  simp at hk

/-- A set that goes through has no failed send at all. -/
theorem GoesThrough.failsOnce (h : GoesThrough conn i fragments) : FailsOnce conn i fragments := by
  intro k hk _ hfail
  have hsent := (h k _ (List.getElem?_eq_getElem hk)).2
  rw [hfail] at hsent
  cases hsent

/-- The condition as the loop meets it: nothing is asked once the buffer is short. -/
theorem failsOnce_cons :
    FailsOnce conn i (f :: fragments) ↔
      (f.length ≤ conn.datagramSendBufferSpace (i + 1) →
        if conn.sendDatagram i then FailsOnce conn (i + 1) fragments
        else GoesThrough conn (i + 1) fragments) := by
  constructor
  · intro h hroom
    split
    · intro k hk hreach hfail
      have hlater := h (k + 1) (by simpa using hk) (reaches_succ_cons.mpr ⟨hroom, hreach⟩)
        (by rwa [show i + (k + 1) = i + 1 + k by omega])
      rwa [show i + (k + 1) + 1 = i + 1 + k + 1 by omega, List.drop_succ_cons] at hlater
    · rename_i hfail
      exact h 0 (by simp) (reaches_zero_cons.mpr hroom) (by simpa using hfail)
  · intro h k hk hreach hfail
    cases k with
    | zero =>
      have hhead := h (reaches_zero_cons.mp hreach)
      rwa [if_neg (by rw [show conn.sendDatagram i = false from hfail]; simp)] at hhead
    | succ k =>
      obtain ⟨hroom, hreach⟩ := reaches_succ_cons.mp hreach
      have honce : FailsOnce conn (i + 1) fragments := by
        have hhead := h hroom
        split at hhead
        · exact hhead
        · exact hhead.failsOnce
      rw [show i + (k + 1) = i + 1 + k by omega] at hfail ⊢
      exact honce k (by simpa using hk) hreach hfail

variable (conn i fragments)

theorem drops_sendFragments_eq_zero_iff :
    drops (sendFragments conn i fragments) = 0 ↔ GoesThrough conn i fragments := by
  induction fragments generalizing i with
  | nil => exact ⟨fun _ => goesThrough_nil, fun _ => rfl⟩
  | cons f rest ih =>
    rw [sendFragments, goesThrough_cons, ← ih (i + 1)]
    split
    · rename_i hshort
      simp [Nat.not_le.mpr hshort]
    · rename_i hroom
      split
      · rename_i hsent
        simp [Nat.le_of_not_lt hroom, hsent]
      · rename_i hfail
        simp [hfail]

/-- The loop records one drop at most exactly when it fails to send only once. -/
theorem drops_sendFragments_le_one_iff : drops (sendFragments conn i fragments) ≤ 1 ↔ FailsOnce conn i fragments := by
  induction fragments generalizing i with
  | nil => exact ⟨fun _ => failsOnce_nil, fun _ => Nat.zero_le 1⟩
  | cons f rest ih =>
    rw [sendFragments, failsOnce_cons]
    split
    · rename_i hshort
      simp [hshort]
    · rename_i hroom
      split
      · rename_i hsent
        simp [Nat.le_of_not_lt hroom, ih]
      · rename_i hfail
        -- the failed send has used up the one drop, so the rest may not add another
        simp [Nat.le_of_not_lt hroom, ← drops_sendFragments_eq_zero_iff]

theorem drops_sendFragmentSet_le_one_iff : drops (sendFragmentSet conn fragments) ≤ 1 ↔
    (fragmentSetWireLen fragments ≤ conn.datagramSendBufferSpace 0 → FailsOnce conn 0 fragments) := by
  rw [sendFragmentSet]
  split
  · rename_i hshort
    simp [Nat.not_le.mpr hshort]
  · rename_i hroom
    rw [drops_sendFragments_le_one_iff]
    exact ⟨fun h _ => h, fun h => h (Nat.le_of_not_lt hroom)⟩

end Loop

theorem ipVersion_of_parsePacketInfo {packet : Bytes} {info : PacketInfo}
    (h : parsePacketInfo packet = some info) : ipVersion packet = 4 ∨ ipVersion packet = 6 := by
  rw [parsePacketInfo] at h
  split at h
  · cases h
  · split at h
    · exact .inl ‹_›
    · split at h
      · exact .inr ‹_›
      · cases h

/-- What becomes of a packet: it is passed over, has no peer, cannot be sent as a datagram, is sent whole, or is cut,
if that is possible. -/
inductive Handled (m : Outbound) (r : TunRead Id) : List Action → UInt32 → Prop
  | passed (parse : parsePacketInfo r.packet = none) : Handled m r [] m.nextFrag6Id
  | noPeer (parse : parsePacketInfo r.packet ≠ none) (route : r.route = none) :
      Handled m r [.drop .noPeer] m.nextFrag6Id
  | noSize (route : r.route ≠ none) (max : r.conn.maxDatagramSize = none) :
      Handled m r [.drop .sendFailure] m.nextFrag6Id
  | whole {maxDgram : ℕ} (route : r.route ≠ none) (max : r.conn.maxDatagramSize = some maxDgram)
      (fits : r.packet.length ≤ maxDgram) : Handled m r (sendWhole r.conn r.packet) m.nextFrag6Id
  | cut {maxDgram : ℕ} {fragments : List Bytes} {id : UInt32} {counted : Action} (route : r.route ≠ none)
      (max : r.conn.maxDatagramSize = some maxDgram) (exceeds : maxDgram < r.packet.length)
      (version : ipVersion r.packet = 4 ∧ id = m.nextFrag6Id ∨ ipVersion r.packet = 6 ∧ id = m.nextFrag6Id + 1)
      (cuts : fragmentsOf m r = some fragments) (counts : counted = .fragmentedIpv4 ∨ counted = .fragmentedIpv6) :
      Handled m r (counted :: sendFragmentSet r.conn fragments) id
  | uncut {maxDgram : ℕ} {id : UInt32} (route : r.route ≠ none) (max : r.conn.maxDatagramSize = some maxDgram)
      (exceeds : maxDgram < r.packet.length)
      (version : ipVersion r.packet = 4 ∧ id = m.nextFrag6Id ∨ ipVersion r.packet = 6 ∧ id = m.nextFrag6Id + 1)
      (cuts : fragmentsOf m r = none) : Handled m r [.drop .fragmentationFailed] id

theorem fragmentsOf_eq (m : Outbound) {r : TunRead Id} {maxDgram : ℕ} (hroute : r.route ≠ none)
    (hmax : r.conn.maxDatagramSize = some maxDgram) (hexceeds : maxDgram < r.packet.length) :
    fragmentsOf m r = if ipVersion r.packet = 4 then fragmentIpv4Into r.packet maxDgram
      else fragmentIpv6Into r.packet m.nextFrag6Id maxDgram := by
  obtain ⟨route, hroute⟩ := Option.ne_none_iff_exists'.mp hroute
  obtain ⟨info, hparse, hpeer⟩ := Option.bind_eq_some_iff.mp hroute
  simp [fragmentsOf, hparse, hpeer, hmax, hexceeds]

theorem handled_handle (m : Outbound) (r : TunRead Id) :
    ∃ actions id, handle m.nextFrag6Id r = (actions, id) ∧ Handled m r actions id := by
  refine ⟨(handle m.nextFrag6Id r).1, (handle m.nextFrag6Id r).2, rfl, ?_⟩
  rw [handle]
  split
  · rename_i hempty
    exact .passed (by rw [List.length_eq_zero_iff.mp hempty]; rfl)
  · cases hparse : parsePacketInfo r.packet with
    | none => exact .passed hparse
    | some info =>
      dsimp only
      have hroute : r.route = r.lookup info.dstIp := by rw [TunRead.route, hparse, Option.bind_some]
      cases hpeer : r.lookup info.dstIp with
      | none => exact .noPeer (by simp [hparse]) (hroute.trans hpeer)
      | some route =>
        dsimp only
        have hsome : r.route ≠ none := by simp [hroute, hpeer]
        rw [sendRouted]
        cases hmax : r.conn.maxDatagramSize with
        | none => exact .noSize hsome hmax
        | some maxDgram =>
          dsimp only
          split
          · rename_i hfits
            exact .whole hsome hmax hfits
          · rename_i hover
            have hcut := fragmentsOf_eq m hsome hmax (not_le.mp hover)
            have hfirst : r.packet.head?.map (fun b : UInt8 => b >>> 4) = some (ipVersion r.packet) := by
              cases hpacket : r.packet with
              | nil =>
                rw [hpacket] at hparse
                cases hparse
              | cons b rest => rfl
            have hover := not_le.mp hover
            rw [sendCut, hfirst]
            rcases ipVersion_of_parsePacketInfo hparse with h | h
            · rw [h] at hcut ⊢
              rw [if_pos rfl] at hcut
              cases hfragments : fragmentIpv4Into r.packet maxDgram with
              | none => exact .uncut hsome hmax hover (.inl ⟨h, rfl⟩) (hcut.trans hfragments)
              | some fragments => exact .cut hsome hmax hover (.inl ⟨h, rfl⟩) (hcut.trans hfragments) (.inl rfl)
            · rw [h] at hcut ⊢
              rw [if_neg (by decide)] at hcut
              cases hfragments : fragmentIpv6Into r.packet m.nextFrag6Id maxDgram with
              | none => exact .uncut hsome hmax hover (.inr ⟨h, rfl⟩) (hcut.trans hfragments)
              | some fragments => exact .cut hsome hmax hover (.inr ⟨h, rfl⟩) (hcut.trans hfragments) (.inr rfl)

theorem totalDrops_forward (m : Outbound) (r : TunRead Id) :
    (forward m r).stats.totalDrops = m.stats.totalDrops + drops (handle m.nextFrag6Id r).1 :=
  totalDrops_record _ _

theorem drops_sendWhole_le (conn : ConnAnswers) (packet : Bytes) : drops (sendWhole conn packet) ≤ 1 := by
  rw [sendWhole]
  split
  · exact le_rfl
  · split
    · exact Nat.zero_le 1
    · exact le_rfl

/-- Only a packet over the datagram size is cut. -/
theorem fragmentsOf_eq_some {m : Outbound} {r : TunRead Id} {fragments : List Bytes}
    (h : fragmentsOf m r = some fragments) :
    r.route ≠ none ∧ ∃ maxDgram, r.conn.maxDatagramSize = some maxDgram ∧ maxDgram < r.packet.length := by
  obtain ⟨info, hparse, h⟩ := Option.bind_eq_some_iff.mp h
  obtain ⟨route, hroute, h⟩ := Option.bind_eq_some_iff.mp h
  obtain ⟨maxDgram, hmax, h⟩ := Option.bind_eq_some_iff.mp h
  refine ⟨by simp [TunRead.route, hparse, hroute], maxDgram, hmax, ?_⟩
  by_contra hfits
  rw [if_pos (not_lt.mp hfits)] at h
  cases h

/-- If the packet is cut into a set that fits the send buffer, the loop over the set fails to send only once. -/
def DroppedOnce (m : Outbound) (r : TunRead Id) : Prop :=
  ∀ fragments, fragmentsOf m r = some fragments →
    fragmentSetWireLen fragments ≤ r.conn.datagramSendBufferSpace 0 → FailsOnce r.conn 0 fragments

theorem totalDrops_forward_le_iff (m : Outbound) (r : TunRead Id) :
    (forward m r).stats.totalDrops ≤ m.stats.totalDrops + 1 ↔ DroppedOnce m r := by
  rw [totalDrops_forward, Nat.add_le_add_iff_left]
  obtain ⟨actions, id, heq, hhandled⟩ := handled_handle m r
  rw [heq]
  have hwhole : fragmentsOf m r = none → DroppedOnce m r := by
    intro hnone fragments hcut
    rw [hnone] at hcut
    cases hcut
  cases hhandled with
  | passed hparse => exact iff_of_true (Nat.zero_le 1) (hwhole (by simp [fragmentsOf, hparse]))
  | noPeer hparse hroute =>
    refine iff_of_true le_rfl (hwhole (Option.eq_none_iff_forall_ne_some.mpr fun fragments hcut => ?_))
    exact (fragmentsOf_eq_some hcut).1 hroute
  | noSize hroute hmax =>
    refine iff_of_true le_rfl (hwhole (Option.eq_none_iff_forall_ne_some.mpr fun fragments hcut => ?_))
    obtain ⟨-, maxDgram, hsome, -⟩ := fragmentsOf_eq_some hcut
    rw [hmax] at hsome
    cases hsome
  | whole hroute hmax hfits =>
    refine iff_of_true (drops_sendWhole_le _ _)
      (hwhole (Option.eq_none_iff_forall_ne_some.mpr fun fragments hcut => ?_))
    obtain ⟨-, maxDgram, hsome, hexceeds⟩ := fragmentsOf_eq_some hcut
    rw [hmax] at hsome
    cases hsome
    omega
  | uncut hroute hmax hexceeds hversion hcut => exact iff_of_true le_rfl (hwhole hcut)
  | @cut maxDgram fragments id counted hroute hmax hexceeds hversion hcut hcounts =>
    have hdrops : drops (counted :: sendFragmentSet r.conn fragments) = drops (sendFragmentSet r.conn fragments) := by
      rcases hcounts with rfl | rfl <;> rfl
    rw [hdrops, drops_sendFragmentSet_le_one_iff, DroppedOnce, hcut]
    simp

/-- **One drop a packet.** Whatever was forwarded before, the next packet adds one drop at most exactly when no
fragment of its set fails to be sent before another one is lost. A packet sent whole is dropped once at most. -/
theorem drops_le_iff (m : Outbound) (reads : List (TunRead Id)) (r : TunRead Id) :
    (runMesh m (reads ++ [r])).stats.totalDrops ≤ (runMesh m reads).stats.totalDrops + 1 ↔
      DroppedOnce (runMesh m reads) r := by
  rw [runMesh, List.foldl_append]
  exact totalDrops_forward_le_iff (runMesh m reads) r

section Flood

/-- An IPv6 packet of 60 bytes. -/
def longPacket : Bytes := 0x60 :: List.replicate 59 0

/-- The packet is for the only peer, over a connection that takes datagrams of 40 bytes and has lost its path: it is
cut into two envelopes, and neither is taken. -/
def lostPath : TunRead String where
  packet := longPacket
  peers := PeerTable.new.add (Ipv4Addr.new 100 64 0 2) (ipv6At longPacket 24) ⟨7⟩ "peer" "home"
  conn := ⟨some 40, fun _ => 1000, fun _ => false⟩

/-- One packet, two drops. -/
theorem two_drops :
    (runMesh ⟨.new, 0⟩ [lostPath]).stats.totalDrops = 2 ∧
      (runMesh ⟨.new, 0⟩ [lostPath]).stats.drops .sendFailure = 2 ∧
      (runMesh ⟨.new, 0⟩ [lostPath]).stats.fragmentedIpv6 = 1 := by
  decide +kernel

end Flood

end Tetron.Forward.Mesh
