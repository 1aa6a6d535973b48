import Tetron.Forward.PeerReader
import Tetron.Forward.RunMesh
import Tetron.Lib.Run

/-!
# From one TUN device to the other

`run_mesh` on one side, `spawn_peer_reader` on the other, and between them a connection whose datagrams may be lost,
repeated and reordered.

* The metrics of the sending side say what was handed to the connections: as many datagrams and bytes as were taken,
  and no drop exactly when every packet with a readable header went out in full (`metrics_account`).
* The receiving side makes nothing up (`delivered_genuine`). What it writes to its TUN device is a packet the sender
  read for this connection, or an IPv4 fragment of one. An IPv6 packet that travelled in envelopes comes out byte for
  byte, as long as `NEXT_FRAG6_ID` has not come round: an id then belongs to one packet only, and payloads of one
  packet that continue each other up to its length are the packet.
-/

namespace Tetron.Forward.Mesh

open Packet Daemon Pieces

variable {Id : Type}

/-! ### The datagrams a connection takes -/

def Action.datagram? : Action → Option Bytes
  | .tx datagram => some datagram
  | _ => none

def taken (actions : List Action) : List Bytes := actions.filterMap Action.datagram?

@[simp] theorem taken_nil : taken [] = [] := rfl

@[simp] theorem taken_tx (d : Bytes) (actions : List Action) : taken (.tx d :: actions) = d :: taken actions := rfl

@[simp] theorem taken_drop (reason : DropReason) (actions : List Action) :
    taken (.drop reason :: actions) = taken actions := rfl

/-- What the connection takes of one packet. -/
def sent (m : Outbound) (r : TunRead Id) : List Bytes := taken (handle m.nextFrag6Id r).1

/-- What all connections take during a run. -/
def sentRun (m : Outbound) : List (TunRead Id) → List Bytes
  | [] => []
  | r :: rest => sent m r ++ sentRun (forward m r) rest

/-! ### The metrics -/

theorem tx_record (actions : List Action) (stats : ForwardMetrics) :
    (actions.foldl ForwardMetrics.record stats).packetsTx = stats.packetsTx + (taken actions).length ∧
      (actions.foldl ForwardMetrics.record stats).bytesTx = stats.bytesTx + fragmentSetWireLen (taken actions) := by
  induction actions generalizing stats with
  | nil => exact ⟨rfl, rfl⟩
  | cons action rest ih =>
    obtain ⟨hpackets, hbytes⟩ := ih (stats.record action)
    rw [List.foldl_cons, hpackets, hbytes]
    cases action with
    | tx d =>
      simp only [taken_tx, fragmentSetWireLen, List.map_cons, List.sum_cons, List.length_cons,
        ForwardMetrics.record, ForwardMetrics.recordTx]
      omega
    | drop reason | fragmentedIpv4 | fragmentedIpv6 => exact ⟨rfl, rfl⟩

theorem tx_runMesh (reads : List (TunRead Id)) (m : Outbound) :
    (runMesh m reads).stats.packetsTx = m.stats.packetsTx + (sentRun m reads).length ∧
      (runMesh m reads).stats.bytesTx = m.stats.bytesTx + fragmentSetWireLen (sentRun m reads) := by
  induction reads generalizing m with
  | nil => exact ⟨rfl, rfl⟩
  | cons r rest ih =>
    obtain ⟨hpackets, hbytes⟩ := ih (forward m r)
    obtain ⟨hfirst, hfirst'⟩ := tx_record (handle m.nextFrag6Id r).1 m.stats
    have hrun : runMesh m (r :: rest) = runMesh (forward m r) rest := rfl
    rw [hrun, hpackets, hbytes, sentRun, forward, hfirst, hfirst', List.length_append]
    simp only [sent, fragmentSetWireLen, List.map_append, List.sum_append]
    omega

theorem totalDrops_le_runMesh (reads : List (TunRead Id)) (m : Outbound) :
    m.stats.totalDrops ≤ (runMesh m reads).stats.totalDrops := by
  induction reads generalizing m with
  | nil => exact le_rfl
  | cons r rest ih =>
    refine le_trans ?_ (ih (forward m r))
    rw [totalDrops_forward]
    exact Nat.le_add_right _ _

/-! ### When nothing is dropped -/

/-- The datagrams that carry a packet, if it can be sent at all. -/
def datagramsOf (m : Outbound) (r : TunRead Id) : Option (List Bytes) :=
  r.conn.maxDatagramSize.bind fun maxDgram =>
    if r.packet.length ≤ maxDgram then some [r.packet] else fragmentsOf m r

/-- The packet is passed over as no IP packet, or its peer's connection takes every datagram of it. -/
def Lossless (m : Outbound) (r : TunRead Id) : Prop :=
  parsePacketInfo r.packet = none ∨ r.route.isSome ∧ datagramsOf m r = some (sent m r)

section Taken

variable {conn : ConnAnswers} {fragments : List Bytes} {i : ℕ} {d : Bytes}

theorem mem_of_mem_sendFragments (h : d ∈ taken (sendFragments conn i fragments)) : d ∈ fragments := by
  induction fragments generalizing i with
  | nil => exact h
  | cons f rest ih =>
    rw [sendFragments] at h
    split at h
    · cases h
    · split at h
      · rcases List.mem_cons.mp h with rfl | h
        · exact List.mem_cons_self
        · exact List.mem_cons_of_mem _ (ih h)
      · exact List.mem_cons_of_mem _ (ih h)

theorem mem_of_mem_sendFragmentSet (h : d ∈ taken (sendFragmentSet conn fragments)) : d ∈ fragments := by
  rw [sendFragmentSet] at h
  split at h
  · cases h
  · exact mem_of_mem_sendFragments h

/-- A fragment is taken or costs a drop, or the loop ends with one. -/
theorem taken_sendFragments_iff (conn : ConnAnswers) (fragments : List Bytes) (i : ℕ) :
    (taken (sendFragments conn i fragments)).length ≤ fragments.length ∧
      (drops (sendFragments conn i fragments) = 0 ↔ fragments = taken (sendFragments conn i fragments)) := by
  induction fragments generalizing i with
  | nil => exact ⟨le_rfl, iff_of_true rfl rfl⟩
  | cons f rest ih =>
    obtain ⟨hlen, hiff⟩ := ih (i + 1)
    rw [sendFragments]
    split
    · simp
    · split
      · simpa using ⟨hlen, hiff⟩
      · refine ⟨hlen.trans (Nat.le_succ _), iff_of_false (by simp) fun heq => ?_⟩
        -- a fragment that failed is missing for good
        have := congrArg List.length heq
        rw [taken_drop, List.length_cons] at this
        omega

theorem drops_sendFragmentSet_eq_zero_iff (conn : ConnAnswers) (fragments : List Bytes) :
    drops (sendFragmentSet conn fragments) = 0 ↔ fragments = taken (sendFragmentSet conn fragments) := by
  rw [sendFragmentSet]
  split
  · rename_i hshort
    have hne : fragments ≠ [] := by
      rintro rfl
      simp [fragmentSetWireLen] at hshort
    simp [hne]
  · exact (taken_sendFragments_iff conn fragments 0).2

end Taken

theorem lossless_iff {m : Outbound} {r : TunRead Id} (hroute : r.route ≠ none) :
    Lossless m r ↔ datagramsOf m r = some (sent m r) := by
  have hparse : parsePacketInfo r.packet ≠ none := by
    intro hnone
    simp [TunRead.route, hnone] at hroute
  simp [Lossless, hparse, Option.isSome_iff_ne_none.mpr hroute]

theorem totalDrops_forward_eq_iff (m : Outbound) (r : TunRead Id) :
    (forward m r).stats.totalDrops = m.stats.totalDrops ↔ Lossless m r := by
  rw [totalDrops_forward, Nat.add_eq_left]
  obtain ⟨actions, id, heq, hhandled⟩ := handled_handle m r
  rw [heq]
  cases hhandled with
  | passed hparse => exact iff_of_true rfl (.inl hparse)
  | noPeer hparse hroute => simp [Lossless, hparse, hroute]
  | noSize hroute hmax => simp [lossless_iff hroute, datagramsOf, hmax]
  | whole hroute hmax hfits =>
    rw [lossless_iff hroute, sent, heq, datagramsOf, hmax, Option.bind_some, if_pos hfits, sendWhole]
    split
    · simp
    · split <;> simp
  | uncut hroute hmax hexceeds hversion hcut =>
    simp [lossless_iff hroute, datagramsOf, hmax, not_le.mpr hexceeds, hcut]
  | cut hroute hmax hexceeds hversion hcut hcounts =>
    rw [lossless_iff hroute, sent, heq, datagramsOf, hmax, Option.bind_some, if_neg (not_le.mpr hexceeds), hcut,
      Option.some.injEq]
    rcases hcounts with rfl | rfl <;> exact drops_sendFragmentSet_eq_zero_iff r.conn _

theorem totalDrops_runMesh_eq_iff (reads : List (TunRead Id)) (m : Outbound) :
    (runMesh m reads).stats.totalDrops = m.stats.totalDrops ↔
      ∀ before r after, reads = before ++ r :: after → Lossless (runMesh m before) r := by
  induction reads generalizing m with
  | nil => simp [runMesh]
  | cons r rest ih =>
    have hfirst : m.stats.totalDrops ≤ (forward m r).stats.totalDrops := totalDrops_le_runMesh [r] m
    have hrest := totalDrops_le_runMesh rest (forward m r)
    have hrun : runMesh m (r :: rest) = runMesh (forward m r) rest := rfl
    rw [hrun]
    constructor
    · intro heq before r' after hsplit
      cases before with
      | nil =>
        obtain ⟨rfl, -⟩ := List.cons.inj hsplit
        exact (totalDrops_forward_eq_iff m r).mp (by omega)
      | cons b before =>
        obtain ⟨rfl, htail⟩ := List.cons.inj hsplit
        exact (ih (forward m r)).mp (by omega) before r' after htail
    · intro hall
      have h1 := (totalDrops_forward_eq_iff m r).mpr (hall [] r rest rfl)
      have h2 := (ih (forward m r)).mpr fun before r' after hsplit =>
        hall (r :: before) r' after (by rw [hsplit]; rfl)
      omega

/-- **The metrics tell what was sent.** Over any run of the loop, `packets_tx` and `bytes_tx` grow by the number and
the size of the datagrams the connections took, and the drop counters stand still exactly when no IP packet was lost
on the way to them: each had a peer, and all datagrams of it were taken. -/
theorem metrics_account (m : Outbound) (reads : List (TunRead Id)) :
    (runMesh m reads).stats.packetsTx = m.stats.packetsTx + (sentRun m reads).length ∧
      (runMesh m reads).stats.bytesTx = m.stats.bytesTx + fragmentSetWireLen (sentRun m reads) ∧
      ((runMesh m reads).stats.totalDrops = m.stats.totalDrops ↔
        ∀ before r after, reads = before ++ r :: after → Lossless (runMesh m before) r) :=
  ⟨(tx_runMesh reads m).1, (tx_runMesh reads m).2, totalDrops_runMesh_eq_iff reads m⟩

/-! ### Where a datagram comes from -/

/-- The packet is over the connection's datagram size and an IPv6 one, so that it is given an id. -/
def TunRead.takesFrag6Id (r : TunRead Id) : Bool :=
  r.route.isSome && r.conn.maxDatagramSize.any (· < r.packet.length) && ipVersion r.packet == 6

theorem nextFrag6Id_forward (m : Outbound) (r : TunRead Id) :
    (forward m r).nextFrag6Id = if r.takesFrag6Id then m.nextFrag6Id + 1 else m.nextFrag6Id := by
  obtain ⟨actions, id, heq, hhandled⟩ := handled_handle m r
  rw [forward, heq, TunRead.takesFrag6Id]
  cases hhandled with
  | passed hparse => simp [TunRead.route, hparse]
  | noPeer hparse hroute => simp [hroute]
  | noSize hroute hmax => simp [hmax]
  | whole hroute hmax hfits => simp [hmax, not_lt.mpr hfits]
  | uncut hroute hmax hexceeds hversion hcut | cut hroute hmax hexceeds hversion hcut hcounts =>
    rcases hversion with ⟨hver, rfl⟩ | ⟨hver, rfl⟩ <;>
      simp [hmax, hexceeds, hver, Option.isSome_iff_ne_none.mpr hroute]

/-- What an IP stack may be handed for the packet: the packet itself, or one of the fragments an IPv4 packet is cut
into. -/
def PieceOf (r : TunRead Id) (p : Bytes) : Prop :=
  p = r.packet ∨ ipVersion r.packet = 4 ∧ ∃ maxDgram fragments, r.conn.maxDatagramSize = some maxDgram ∧
    fragmentIpv4Into r.packet maxDgram = some fragments ∧ p ∈ fragments

/-- The datagram is one of the envelopes the packet is cut into under the id `id`. -/
def EnvelopeOf (id : UInt32) (r : TunRead Id) (d : Bytes) : Prop :=
  ∃ maxDgram fragments, fragmentIpv6Into r.packet id maxDgram = some fragments ∧ d ∈ fragments

theorem eq_of_mem_sendWhole {conn : ConnAnswers} {packet d : Bytes} (h : d ∈ taken (sendWhole conn packet)) :
    d = packet := by
  rw [sendWhole] at h
  split at h
  · cases h
  · split at h
    · exact List.mem_singleton.mp h
    · cases h

/-- A datagram a connection takes is a piece of the packet, or an envelope of it under the id the packet is given. -/
theorem mem_sent {m : Outbound} {r : TunRead Id} {d : Bytes} (h : d ∈ sent m r) :
    PieceOf r d ∨ r.takesFrag6Id ∧ EnvelopeOf m.nextFrag6Id r d := by
  obtain ⟨actions, id, heq, hhandled⟩ := handled_handle m r
  rw [sent, heq] at h
  cases hhandled with
  | passed | noPeer | noSize | uncut => cases h
  | whole hroute hmax hfits => exact .inl (.inl (eq_of_mem_sendWhole h))
  | @cut maxDgram fragments _ counted hroute hmax hexceeds hversion hcut hcounts =>
    have hmem : d ∈ fragments := by
      rcases hcounts with rfl | rfl <;> exact mem_of_mem_sendFragmentSet h
    rw [fragmentsOf_eq m hroute hmax hexceeds] at hcut
    rcases hversion with ⟨hver, -⟩ | ⟨hver, -⟩
    · rw [if_pos hver] at hcut
      exact .inl (.inr ⟨hver, maxDgram, fragments, hmax, hcut, hmem⟩)
    · rw [hver, if_neg (by decide)] at hcut
      refine .inr ⟨?_, maxDgram, fragments, hcut, hmem⟩
      simp [TunRead.takesFrag6Id, hmax, hexceeds, hver, Option.isSome_iff_ne_none.mpr hroute]

theorem exists_span_of_envelopeOf {id : UInt32} {r : TunRead Id} {d : Bytes} (h : EnvelopeOf id r d) :
    ∃ s : Span, s.start < 65536 ∧ s.stop ≤ r.packet.length ∧ d = envelope r.packet id s := by
  obtain ⟨maxDgram, fragments, hcut, hmem⟩ := h
  simp only [fragmentIpv6Into, Option.ite_none_left_eq_some, Option.some.injEq] at hcut
  obtain ⟨-, -, hlen, rfl⟩ := hcut
  obtain ⟨s, hs, rfl⟩ := List.mem_map.mp hmem
  obtain ⟨-, hstop, -⟩ := mem_cut hs
  refine ⟨s, ?_, hstop, rfl⟩
  simp only [Span.stop] at hstop
  omega

theorem head?_ipv4Fragment {packet : Bytes} (s : Span) (hne : packet ≠ []) :
    (ipv4Fragment packet s).head? = packet.head? := by
  cases packet with
  | nil => exact absurd rfl hne
  | cons b rest => simp [ipv4Fragment, uncheckedHeader, headerLen]

theorem head?_ne_frag6Magic_of_ipVersion {packet : Bytes} (h : ipVersion packet = 4 ∨ ipVersion packet = 6) :
    packet.head? ≠ some frag6Magic := by
  intro hhead
  cases packet with
  | nil => cases hhead
  | cons b rest =>
    obtain rfl := Option.some.inj hhead
    revert h
    show ¬ (frag6Magic >>> 4 = 4 ∨ frag6Magic >>> 4 = 6)
    decide

/-- The receiver takes no piece of a packet for an envelope. -/
theorem head?_ne_frag6Magic_of_pieceOf {r : TunRead Id} {d : Bytes} (hroute : r.route.isSome)
    (h : PieceOf r d) : d.head? ≠ some frag6Magic := by
  obtain ⟨route, hroute⟩ := Option.isSome_iff_exists.mp hroute
  obtain ⟨info, hparse, -⟩ := Option.bind_eq_some_iff.mp hroute
  have hhead := head?_ne_frag6Magic_of_ipVersion (ipVersion_of_parsePacketInfo hparse)
  rcases h with rfl | ⟨hver, maxDgram, fragments, -, hcut, hmem⟩
  · exact hhead
  · simp only [fragmentIpv4Into, Option.ite_none_left_eq_some, Option.some.injEq] at hcut
    obtain ⟨-, -, -, -, -, -, rfl⟩ := hcut
    obtain ⟨s, -, rfl⟩ := List.mem_map.mp hmem
    rw [head?_ipv4Fragment s]
    · exact hhead
    · rintro hnil
      simp [hnil, ipVersion, byteAt] at hver

/-! ### What a reassembler completes -/

open Ipv6Reassembler

/-- A length the reassembler knows was announced by an envelope that has none after it. -/
def Announced (ds : List Bytes) (r : Ipv6Reassembler) : Prop :=
  ∀ id p, r.get? id = some p → ∀ n, p.totalLen = some n →
    ∃ d ∈ ds, Carries id d ∧ envelopeMore d = false ∧ envelopeStop d = n

section Completed

variable {ds : List Bytes} {r : Ipv6Reassembler} {t : Clock} {d : Bytes}

theorem Announced.same {r₁ : Ipv6Reassembler} (h : Announced ds r) (same : HashTable.Same r r₁) :
    Announced ds r₁ := by
  intro id p hp
  rw [← same.get?] at hp
  exact h id p hp

theorem Announced.mono {ds' : List Bytes} (h : Announced ds r) (hsub : ds ⊆ ds') : Announced ds' r := by
  intro id p hp n hn
  obtain ⟨e, he, hrest⟩ := h id p hp n hn
  exact ⟨e, hsub he, hrest⟩

/-- The length of the stored entry is the datagram's own or the one it had. -/
theorem totalLen_stored (h : Announced ds r) (hd : d ∈ ds) (henv : IsEnvelope d) {now : Instant} {n : ℕ}
    (hn : (stored r now d).totalLen = some n) :
    ∃ e ∈ ds, Carries (envelopeId d) e ∧ envelopeMore e = false ∧ envelopeStop e = n := by
  simp only [stored, PartialIpv6.store] at hn
  split at hn
  · cases hentry : r.get? (envelopeId d) with
    | none => simp [hentry, PartialIpv6.fresh] at hn
    | some p =>
      rw [hentry] at hn
      exact h _ p hentry n hn
  · rename_i hmore
    exact ⟨d, hd, ⟨henv, rfl⟩, by simpa using hmore, Option.some.inj hn⟩

theorem Announced.accept (h : Announced ds r) (hd : d ∈ ds) : Announced ds (accept r t d).2 := by
  intro id p hp n hn
  rcases get?_accept_eq_some hp with ⟨⟨henv, rfl⟩, -, rfl⟩ | ⟨-, hp⟩
  · exact totalLen_stored (fun k q hq => h k q (get?_swept hq)) hd henv hn
  · exact h id p (get?_swept hp) n hn

/-- **A set of one packet completes to that packet**: the chunks are parts of it that continue each other from its
first byte, and the length they reach is announced by an envelope that ends where the packet ends. -/
theorem complete_eq {packet full : Bytes} (hsrc : Sourced ds r) (hlen : Announced ds r) (hd : d ∈ ds)
    (hacc : (Ipv6Reassembler.accept r t d).1 = .complete full)
    (hone : ∀ e ∈ ds, Carries (envelopeId d) e →
      ∃ s : Span, s.start < 65536 ∧ s.stop ≤ packet.length ∧ e = envelope packet (envelopeId d) s) :
    full = packet := by
  obtain ⟨henv, -, hfull⟩ := accept_eq_complete hacc
  obtain ⟨htotal, hjoin⟩ := tryComplete_eq_some hfull
  have hpart : full = slice packet ⟨0, full.length⟩ := by
    refine eq_slice_of_joinFrom packet hjoin fun x hx => ?_
    obtain ⟨e, he, hcar, hoff, hpay⟩ := chunk_stored (fun k q hq => hsrc k q (get?_swept hq)) henv
      (Std.ExtTreeMap.mem_toList_iff_getElem?_eq_some.mp hx)
    have he : e ∈ ds := by
      rcases List.mem_append.mp he with he | he
      · exact he
      · rwa [List.mem_singleton.mp he]
    obtain ⟨s, hstart, hstop, rfl⟩ := hone e he hcar
    rw [envelopeOffset_envelope hstart] at hoff
    exact ⟨s, hstop, Prod.ext hoff.symm hpay.symm⟩
  have hwhole : full.length = packet.length := by
    obtain ⟨e, he, hcar, hmore, hstop⟩ :=
      totalLen_stored (fun k q hq => hlen k q (get?_swept hq)) hd henv htotal
    obtain ⟨s, hstart, hle, rfl⟩ := hone e he hcar
    rw [envelopeMore_envelope, decide_eq_false_iff_not] at hmore
    rw [envelopeStop_envelope hstart hle] at hstop
    omega
  rw [hpart, hwhole]
  simp [slice]

end Completed

/-! ### The link -/

/-- The sending daemon, what the connection has taken so far, and the reader at its other end. -/
structure Link where
  sender : Outbound
  wire : List Bytes
  reader : Reader

def Link.new (m : Outbound) : Link := ⟨m, [], Reader.new⟩

inductive Event (Id : Type) where
  /-- A loop of the sending daemon reads a packet; the loops of all its networks share the metrics and the ids. -/
  | tunRead (r : TunRead Id)
  /-- A datagram reaches the reader. -/
  | arrive (d : Bytes)

/-- The packet is sent over the connection `c`. -/
def TunRead.over (c : Connection) (r : TunRead Id) : Bool := r.route.any fun route => decide (route.conn = c)

/-- One step of the link `c`. Any datagram the connection ever took may arrive, any number of times. -/
inductive LinkStep (c : Connection) (peerIp : Ipv4Addr) (peerIpv6 : Ipv6Addr) : Link → Event Id → Link → Prop
  | tunRead (s : Link) (r : TunRead Id) : LinkStep c peerIp peerIpv6 s (.tunRead r)
      { s with sender := forward s.sender r, wire := s.wire ++ if r.over c then sent s.sender r else [] }
  | arrive {s : Link} {d : Bytes} {reader : Reader} (hwire : d ∈ s.wire)
      (hread : ReadStep peerIp peerIpv6 s.reader d reader) :
      LinkStep c peerIp peerIpv6 s (.arrive d) { s with reader := reader }

/-- The packets read, in order. -/
def reads : List (Event Id) → List (TunRead Id)
  | [] => []
  | .tunRead r :: ls => r :: reads ls
  | .arrive _ :: ls => reads ls

/-- The packets that were given an id, in the order of their ids. -/
def cuts (ls : List (Event Id)) : List (TunRead Id) := (reads ls).filter TunRead.takesFrag6Id

theorem reads_append (ls ls' : List (Event Id)) : reads (ls ++ ls') = reads ls ++ reads ls' := by
  induction ls with
  | nil => rfl
  | cons e ls ih =>
    cases e with
    | tunRead r => simp [reads, ih]
    | arrive d => simpa [reads] using ih

theorem cuts_append (ls ls' : List (Event Id)) : cuts (ls ++ ls') = cuts ls ++ cuts ls' := by
  simp only [cuts, reads_append, List.filter_append]

theorem TunRead.isSome_route_of_over {c : Connection} {r : TunRead Id} (h : r.over c) : r.route.isSome := by
  cases hroute : r.route with
  | none => simp [TunRead.over, hroute] at h
  | some route => rfl

/-- Where a datagram on the wire comes from, the first id of the run being `start`. -/
def FromRead (c : Connection) (start : UInt32) (ls : List (Event Id)) (d : Bytes) : Prop :=
  (∃ r ∈ reads ls, r.over c ∧ PieceOf r d) ∨
    ∃ k r, (cuts ls)[k]? = some r ∧ r.over c ∧ EnvelopeOf (start + UInt32.ofNat k) r d

theorem FromRead.append {c : Connection} {start : UInt32} {ls : List (Event Id)} {d : Bytes}
    (h : FromRead c start ls d) (ls' : List (Event Id)) : FromRead c start (ls ++ ls') d := by
  rcases h with ⟨r, hr, hrest⟩ | ⟨k, r, hk, hrest⟩
  · exact .inl ⟨r, by rw [reads_append]; exact List.mem_append_left _ hr, hrest⟩
  · refine .inr ⟨k, r, ?_, hrest⟩
    rw [cuts_append, List.getElem?_append_left (List.getElem?_eq_some_iff.mp hk).1]
    exact hk

/-- What carries an id on the wire is an envelope, and the id says which packet's. -/
theorem FromRead.envelopeOf {c : Connection} {start id : UInt32} {ls : List (Event Id)} {d : Bytes}
    (h : FromRead c start ls d) (hcar : Carries id d) :
    ∃ k r, (cuts ls)[k]? = some r ∧ r.over c ∧ EnvelopeOf id r d ∧ id = start + UInt32.ofNat k := by
  rcases h with ⟨r, -, hover, hpiece⟩ | ⟨k, r, hk, hover, henv⟩
  · exact absurd hcar.1.1 (head?_ne_frag6Magic_of_pieceOf (TunRead.isSome_route_of_over hover) hpiece)
  · obtain ⟨s, -, -, rfl⟩ := exists_span_of_envelopeOf henv
    have hid : id = start + UInt32.ofNat k := hcar.2.symm.trans carries_envelope.2
    exact ⟨k, r, hk, hover, hid ▸ henv, hid⟩

theorem eq_of_ofNat_eq {start : UInt32} {j k n : ℕ} (hn : n ≤ 2 ^ 32) (hj : j < n) (hk : k < n)
    (h : start + UInt32.ofNat j = start + UInt32.ofNat k) : j = k := by
  have hnat := congrArg UInt32.toNat ((UInt32.add_right_inj start).mp h)
  simp only [UInt32.toNat_ofNat'] at hnat
  omega

/-- As long as the ids have not come round, the datagrams on the wire that carry one id are envelopes of one
packet. -/
theorem exists_packet_of_carries {c : Connection} {start id : UInt32} {ls : List (Event Id)} {d : Bytes}
    (hids : (cuts ls).length ≤ 2 ^ 32) (hd : FromRead c start ls d) (hcar : Carries id d) :
    ∃ r ∈ reads ls, r.over c ∧ ∀ e, FromRead c start ls e → Carries id e → EnvelopeOf id r e := by
  obtain ⟨j, r, hj, hover, -, hidj⟩ := hd.envelopeOf hcar
  refine ⟨r, List.mem_of_mem_filter (List.mem_of_getElem? hj), hover, fun e he hcare => ?_⟩
  obtain ⟨k, r', hk, -, henv, hidk⟩ := he.envelopeOf hcare
  have hjlt := (List.getElem?_eq_some_iff.mp hj).1
  have hklt := (List.getElem?_eq_some_iff.mp hk).1
  obtain rfl := eq_of_ofNat_eq hids hjlt hklt (hidj.symm.trans hidk)
  obtain rfl := Option.some.inj (hj.symm.trans hk)
  exact henv

/-- What holds of the link after any events. -/
structure Genuine (c : Connection) (m : Outbound) (ls : List (Event Id)) (s : Link) : Prop where
  nextId : s.sender.nextFrag6Id = m.nextFrag6Id + UInt32.ofNat (cuts ls).length
  wire : ∀ d ∈ s.wire, FromRead c m.nextFrag6Id ls d
  sourced : Sourced s.wire s.reader.reassembler
  announced : Announced s.wire s.reader.reassembler
  tun : (cuts ls).length ≤ 2 ^ 32 → ∀ p ∈ s.reader.tun, ∃ r ∈ reads ls, r.over c ∧ PieceOf r p

section Steps

variable {c : Connection} {m : Outbound} {ls : List (Event Id)} {s : Link} {peerIp : Ipv4Addr} {peerIpv6 : Ipv6Addr}

theorem genuine_new (c : Connection) (m : Outbound) : Genuine c m ([] : List (Event Id)) (Link.new m) where
  nextId := by
    show m.nextFrag6Id = m.nextFrag6Id + UInt32.ofNat 0
    simp
  wire := by simp [Link.new]
  sourced := by
    intro id p hp
    simp [Link.new, Reader.new, Ipv6Reassembler.new] at hp
  announced := by
    intro id p hp
    simp [Link.new, Reader.new, Ipv6Reassembler.new] at hp
  tun := by simp [Link.new, Reader.new]

/-- The sender puts nothing on the wire but pieces and envelopes of what it read. -/
theorem Genuine.tunRead (h : Genuine c m ls s) (r : TunRead Id) : Genuine c m (ls ++ [.tunRead r])
    { s with sender := forward s.sender r, wire := s.wire ++ if r.over c then sent s.sender r else [] } where
  nextId := by
    rw [nextFrag6Id_forward, h.nextId, cuts_append]
    by_cases htakes : r.takesFrag6Id
    · have hone : cuts [Event.tunRead r] = [r] := by simp [cuts, reads, htakes]
      rw [if_pos htakes, hone, List.length_append, List.length_singleton, UInt32.ofNat_add, UInt32.add_assoc]
      rfl
    · have hnone : cuts [Event.tunRead r] = [] := by simp [cuts, reads, htakes]
      rw [if_neg htakes, hnone, List.append_nil]
  wire := by
    intro d hd
    rcases List.mem_append.mp hd with hd | hd
    · exact (h.wire d hd).append _
    · split at hd
      · rename_i hover
        have hread : r ∈ reads (ls ++ [Event.tunRead r]) := by simp [reads_append, reads]
        rcases mem_sent hd with hpiece | ⟨htakes, henv⟩
        · exact .inl ⟨r, hread, hover, hpiece⟩
        · refine .inr ⟨(cuts ls).length, r, ?_, hover, h.nextId ▸ henv⟩
          have hone : cuts [Event.tunRead r] = [r] := by simp [cuts, reads, htakes]
          simp [cuts_append, hone]
      · cases hd
  sourced := h.sourced.mono (List.subset_append_left _ _)
  announced := h.announced.mono (List.subset_append_left _ _)
  tun := by
    intro hids p hp
    rw [cuts_append, List.length_append] at hids
    obtain ⟨q, hq, hrest⟩ := h.tun (by omega) p hp
    exact ⟨q, by rw [reads_append]; exact List.mem_append_left _ hq, hrest⟩

/-- What the reader hands over on a datagram of the wire. -/
theorem Genuine.handed (h : Genuine c m ls s) (hids : (cuts ls).length ≤ 2 ^ 32) {r : Ipv6Reassembler}
    (same : HashTable.Same s.reader.reassembler r) {t : Clock} {d p : Bytes} (hwire : d ∈ s.wire)
    (hp : p ∈ (turn peerIp peerIpv6 r t d).1.handed) : ∃ r ∈ reads ls, r.over c ∧ PieceOf r p := by
  obtain ⟨hdec, horigin⟩ := mem_handed_turn hp
  rcases horigin with rfl | hacc
  · -- an envelope is no IP packet, so it is not handed over as it is
    rcases h.wire p hwire with ⟨q, hq, hrest⟩ | ⟨k, q, -, -, henv⟩
    · exact ⟨q, hq, hrest⟩
    · obtain ⟨span, -, -, rfl⟩ := exists_span_of_envelopeOf henv
      exact absurd carries_envelope.1.1 (head_ne_frag6Magic (evaluateInbound_eq_accept hdec).2)
  · obtain ⟨henv, -⟩ := accept_eq_complete hacc
    have hcar : Carries (envelopeId d) d := ⟨henv, rfl⟩
    obtain ⟨q, hq, hover, hone⟩ := exists_packet_of_carries hids (h.wire d hwire) hcar
    have hfull := complete_eq (h.sourced.same same) (h.announced.same same) hwire hacc
      fun e he hcare => exists_span_of_envelopeOf (hone e (h.wire e he) hcare)
    exact ⟨q, hq, hover, .inl hfull⟩

theorem Genuine.arrive (h : Genuine c m ls s) {d : Bytes} {reader : Reader} (hwire : d ∈ s.wire)
    (hread : ReadStep peerIp peerIpv6 s.reader d reader) :
    Genuine c m (ls ++ [.arrive d]) { s with reader := reader } := by
  have hreads : reads (ls ++ [Event.arrive d]) = reads ls := by simp [reads_append, reads]
  have hcuts : cuts (ls ++ [Event.arrive d]) = cuts ls := by rw [cuts, hreads, cuts]
  have hsub : s.wire ++ [d] ⊆ s.wire := List.append_subset.mpr ⟨List.Subset.refl _, by simpa using hwire⟩
  obtain ⟨same, t, _⟩ := hread
  refine ⟨by rw [hcuts]; exact h.nextId, fun e he => (h.wire e he).append _, ?_, ?_, fun hids p hp => ?_⟩
  · dsimp only
    rw [turn_snd]
    exact (h.sourced.same same).accept.mono hsub
  · dsimp only
    rw [turn_snd]
    exact (h.announced.same same).accept hwire
  · rw [hcuts] at hids
    rw [hreads]
    rcases List.mem_append.mp hp with hp | hp
    · exact h.tun hids p hp
    · exact h.handed hids same hwire hp

end Steps

/-- **Nothing is made up on the way.** However the datagrams of a connection are lost, repeated or reordered, and
whatever else the sending daemon sends meanwhile, the reader hands to its TUN device only packets the sender read for
this connection, or IPv4 fragments of such packets. The one condition is that the ids of IPv6 packets have not come
round since the sender started. -/
theorem delivered_genuine (c : Connection) (peerIp : Ipv4Addr) (peerIpv6 : Ipv6Addr) (m : Outbound)
    {ls : List (Event Id)} {s : Link}
    (hrun : Run (LinkStep c peerIp peerIpv6) (fun _ _ => True) (Link.new m) ls s)
    (hids : (cuts ls).length ≤ 2 ^ 32) : ∀ p ∈ s.reader.tun, ∃ r ∈ reads ls, r.over c ∧ PieceOf r p := by
  have hinv : Genuine c m ls s := by
    refine hrun.invariant (genuine_new c m) ?_
    rintro ls s e s' h - hstep
    cases hstep with
    | tunRead r => exact h.tunRead r
    | arrive hwire hread => exact h.arrive hwire hread
  exact hinv.tun hids

section Swapped

/-- A packet for the only peer, over a connection that takes datagrams of 40 bytes. -/
def openPath : TunRead String := { lostPath with conn := ⟨some 40, fun _ => 1000, fun _ => true⟩ }

def firstEnvelope : Bytes := envelope longPacket 0 ⟨0, 32⟩
def lastEnvelope : Bytes := envelope longPacket 0 ⟨32, 28⟩

/-- The two envelopes of the packet arrive in the wrong order, and the first of them once more. -/
theorem delivered_genuine_swapped :
    ∃ s, Run (LinkStep ⟨7⟩ 0 0) (fun _ _ => True) (Link.new ⟨.new, 0⟩)
        [.tunRead openPath, .arrive lastEnvelope, .arrive firstEnvelope, .arrive firstEnvelope] s ∧
      s.reader.tun = [longPacket] ∧ ∀ p ∈ s.reader.tun, ∃ r ∈ [openPath], r.over ⟨7⟩ ∧ PieceOf r p := by
  have h0 : LinkStep ⟨7⟩ 0 0 (Link.new ⟨.new, 0⟩) (.tunRead openPath) _ := .tunRead _ _
  have hsent := Run.nil.snoc (C := fun _ _ => True) trivial h0
  have hlast := hsent.snoc trivial
    (.arrive (d := lastEnvelope) (by decide +kernel) (.read (List.Perm.refl _) ⟨0, 0⟩ _))
  have hboth := hlast.snoc trivial
    (.arrive (d := firstEnvelope) (by decide +kernel) (.read (List.Perm.refl _) ⟨0, 0⟩ _))
  have hrun := hboth.snoc trivial
    (.arrive (d := firstEnvelope) (by decide +kernel) (.read (List.Perm.refl _) ⟨0, 0⟩ _))
  exact ⟨_, hrun, by decide +kernel, delivered_genuine _ _ _ _ hrun (by decide +kernel)⟩

end Swapped

end Tetron.Forward.Mesh
