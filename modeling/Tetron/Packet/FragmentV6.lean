import Tetron.Bytes
import Tetron.Lib.Pieces
import Tetron.Lib.Table

/-!
# IPv6 fragment envelopes

The sending side (`fragmentIpv6Into`) cuts an oversized IPv6 packet into envelopes; the receiving
side (`Ipv6Reassembler.accept`) collects envelopes by id until a set covers its packet without a
gap. Clock readings are inputs: a call reads the clock once while collecting garbage and once for
the entry it touches.

The reassembler's table is a hash table, so which of several equally old entries is evicted
depends on its iteration order.
-/

namespace Tetron.Packet

open Pieces

/-! ### The sender -/

/-- `FRAG6_MAGIC`. -/
def frag6Magic : UInt8 := 0xF6

/-- `FRAG6_HEADER_LEN`: magic(1) + id(4) + offset(2) + more-flag(1). -/
def frag6HeaderLen : ℕ := 8

/-- `MAX_REASSEMBLED_IPV6_PACKET`. -/
def maxReassembledIpv6Packet : ℕ := 1280

/-- The header written before each slice of the packet. -/
def envelopeHeader (id : UInt32) (offset : ℕ) (more : UInt8) : Bytes :=
  frag6Magic :: (u32ToBe id ++ (u16ToBe offset ++ [more]))

/-- The envelope around the slice of the packet under `s`. -/
def envelope (packet : Bytes) (id : UInt32) (s : Span) : Bytes :=
  envelopeHeader id s.start (if s.stop < packet.length then 1 else 0) ++ slice packet s

/-- The slices the loop of `fragment_ipv6_into` visits. -/
def envelopeSpans (packet : Bytes) (maxSize : ℕ) : List Span :=
  cut (maxSize - frag6HeaderLen) packet.length packet.length 0

/-- `fragment_ipv6_into`; `none` is the result `false`, with nothing appended. -/
def fragmentIpv6Into (packet : Bytes) (id : UInt32) (maxSize : ℕ) : Option (List Bytes) :=
  if packet.length ≤ maxSize then none
  else if maxSize ≤ frag6HeaderLen then none
  else if packet.length > 65535 then none
  else some ((envelopeSpans packet maxSize).map (envelope packet id))

/-! ### Reading an envelope -/

/-- The datagram gets past the two tests at the top of `accept`. -/
def IsEnvelope (d : Bytes) : Prop := d.head? = some frag6Magic ∧ frag6HeaderLen ≤ d.length

instance (d : Bytes) : Decidable (IsEnvelope d) := inferInstanceAs (Decidable (_ ∧ _))

def envelopeId (d : Bytes) : UInt32 :=
  u32FromBe (byteAt d 1) (byteAt d 2) (byteAt d 3) (byteAt d 4)

def envelopeOffset (d : Bytes) : ℕ := u16FromBe (byteAt d 5) (byteAt d 6)

def envelopeMore (d : Bytes) : Bool := byteAt d 7 != 0

def envelopePayload (d : Bytes) : Bytes := d.drop frag6HeaderLen

/-- Where the payload ends in the packet the envelope belongs to. -/
def envelopeStop (d : Bytes) : ℕ := envelopeOffset d + (envelopePayload d).length

/-- The datagram is an envelope of the fragment set `id`. -/
def Carries (id : UInt32) (d : Bytes) : Prop := IsEnvelope d ∧ envelopeId d = id

instance (id : UInt32) (d : Bytes) : Decidable (Carries id d) := inferInstanceAs (Decidable (_ ∧ _))

section Envelope

variable {packet : Bytes} {id : UInt32} {s : Span}

theorem envelope_length (h : s.stop ≤ packet.length) :
    (envelope packet id s).length = frag6HeaderLen + s.len := by
  simp only [envelope, envelopeHeader, u32ToBe, u16ToBe, List.length_append, List.length_cons,
    List.length_nil, length_slice packet s h, frag6HeaderLen]

theorem carries_envelope : Carries id (envelope packet id s) := by
  refine ⟨⟨rfl, ?_⟩, ?_⟩
  · simp [envelope, envelopeHeader, u32ToBe, u16ToBe, frag6HeaderLen]
  · exact u32FromBe_ofNat id

theorem envelopeOffset_envelope (h : s.start < 65536) :
    envelopeOffset (envelope packet id s) = s.start :=
  u16FromBe_ofNat h

theorem envelopePayload_envelope : envelopePayload (envelope packet id s) = slice packet s := rfl

theorem envelopeMore_envelope :
    envelopeMore (envelope packet id s) = decide (s.stop < packet.length) := by
  by_cases h : s.stop < packet.length <;> simp [envelopeMore, envelope, envelopeHeader, u32ToBe,
    u16ToBe, byteAt, h]

theorem envelopeStop_envelope (hstart : s.start < 65536) (hstop : s.stop ≤ packet.length) :
    envelopeStop (envelope packet id s) = s.stop := by
  rw [envelopeStop, envelopeOffset_envelope hstart, envelopePayload_envelope,
    length_slice packet s hstop, Span.stop]

end Envelope

/-! ### The reassembler -/

/-- A reading of the monotonic clock, in nanoseconds. -/
abbrev Instant := ℕ

/-- The instants one call of `accept` reads: in `gc_stale`, and for the entry's `last_seen`. -/
structure Clock where
  gc : Instant
  seen : Instant
deriving DecidableEq, Repr

/-- `Ipv6FragmentOutcome`. -/
inductive Ipv6FragmentOutcome where
  | complete (packet : Bytes)
  | waiting
  | notAFragment
  | rejected
deriving DecidableEq, Repr

/-- `PartialIpv6`. -/
structure PartialIpv6 where
  chunks : Std.ExtTreeMap ℕ Bytes
  totalLen : Option ℕ
  lastSeen : Instant

/-- `MAX_REASSEMBLY_ENTRIES`. -/
def maxReassemblyEntries : ℕ := 16

/-- `REASSEMBLY_TIMEOUT`: five seconds. -/
def reassemblyTimeout : ℕ := 5 * 10 ^ 9

/-- The entry `or_insert_with` makes. -/
def PartialIpv6.fresh (now : Instant) : PartialIpv6 := ⟨∅, none, now⟩

/-- `PartialIpv6::try_complete`; the running `expected` is the length of what is joined so far. -/
def PartialIpv6.tryComplete (p : PartialIpv6) : Option Bytes := do
  let total ← p.totalLen
  let out ← joinFrom 0 p.chunks.toList
  if out.length = total then some out else none

/-- The writes of `accept` to the entry of the datagram's id. -/
def PartialIpv6.store (p : PartialIpv6) (now : Instant) (d : Bytes) : PartialIpv6 where
  chunks := p.chunks.insert (envelopeOffset d) (envelopePayload d)
  totalLen := if envelopeMore d then p.totalLen else some (envelopeStop d)
  lastSeen := now

/-- `Ipv6Reassembler`, by its table `partial`. -/
abbrev Ipv6Reassembler := HashTable UInt32 PartialIpv6

namespace Ipv6Reassembler

/-- `Ipv6Reassembler::new`. -/
def new : Ipv6Reassembler := ∅

/-- `gc_stale`; `duration_since` saturates at zero. -/
def gcStale (r : Ipv6Reassembler) (now : Instant) : Ipv6Reassembler :=
  r.retain fun _ p => now - p.lastSeen < reassemblyTimeout

/-- Evict the entry seen longest ago when a new id meets a full table. -/
def makeRoom (r : Ipv6Reassembler) (id : UInt32) : Ipv6Reassembler :=
  if id ∉ r ∧ r.size ≥ maxReassemblyEntries then
    match r.minByKey PartialIpv6.lastSeen with
    | some oldest => r.erase oldest
    | none => r
  else r

/-- The entry of the datagram's id once the datagram is stored in it. -/
def stored (r : Ipv6Reassembler) (now : Instant) (d : Bytes) : PartialIpv6 :=
  ((r.get? (envelopeId d)).getD (PartialIpv6.fresh now)).store now d

/-- The last part of `accept`: store the fragment, and hand the packet out if that completes it. -/
def deliver (r : Ipv6Reassembler) (now : Instant) (d : Bytes) : Ipv6FragmentOutcome × Ipv6Reassembler :=
  match (stored r now d).tryComplete with
  | some full => (.complete full, (r.insert (envelopeId d) (stored r now d)).erase (envelopeId d))
  | none => (.waiting, r.insert (envelopeId d) (stored r now d))

/-- `Ipv6Reassembler::accept`. -/
def accept (r : Ipv6Reassembler) (t : Clock) (d : Bytes) : Ipv6FragmentOutcome × Ipv6Reassembler :=
  if d.head? ≠ some frag6Magic then (.notAFragment, r)
  else if d.length < frag6HeaderLen then (.rejected, r)
  else
    let r := gcStale r t.gc
    if envelopeStop d > maxReassembledIpv6Packet then (.rejected, r.erase (envelopeId d))
    else deliver (makeRoom r (envelopeId d)) t.seen d

/-- The table after the entries that time out or are evicted while `d` is handled are gone. -/
def swept (r : Ipv6Reassembler) (t : Clock) (d : Bytes) : Ipv6Reassembler :=
  if ¬ IsEnvelope d then r
  else if envelopeStop d > maxReassembledIpv6Packet then gcStale r t.gc
  else makeRoom (gcStale r t.gc) (envelopeId d)

/-- Handling `d` neither times the entry of `id` out nor evicts it. -/
def Keeps (id : UInt32) (r : Ipv6Reassembler) (t : Clock) (d : Bytes) : Prop :=
  id ∈ r → id ∈ swept r t d

instance (id : UInt32) (r : Ipv6Reassembler) (t : Clock) (d : Bytes) : Decidable (Keeps id r t d) :=
  inferInstanceAs (Decidable (_ → _))

/-! ### What one call does -/

section Accept

variable {r : Ipv6Reassembler} {t : Clock} {d : Bytes} {id k : UInt32} {p : PartialIpv6}

theorem get?_makeRoom (h : (makeRoom r id).get? k = some p) : r.get? k = some p := by
  unfold makeRoom at h
  split at h
  · split at h
    · exact HashTable.get?_of_erase h
    · exact h
  · exact h

theorem get?_gcStale {now : Instant} (h : (gcStale r now).get? k = some p) : r.get? k = some p := by
  rw [gcStale, HashTable.get?_retain, Option.filter_eq_some_iff] at h
  exact h.1

/-- Sweeping only drops entries. -/
theorem get?_swept (h : (swept r t d).get? k = some p) : r.get? k = some p := by
  unfold swept at h
  split at h
  · exact h
  · split at h
    · exact get?_gcStale h
    · exact get?_gcStale (get?_makeRoom h)

/-- An entry that is kept is kept as it was. -/
theorem Keeps.get?_eq (h : Keeps id r t d) : (swept r t d).get? id = r.get? id := by
  cases hs : (swept r t d).get? id with
  | some p => exact (get?_swept hs).symm
  | none =>
    have hout : id ∉ swept r t d := HashTable.get?_eq_none.mp hs
    exact (HashTable.get?_eq_none.mpr fun hin => hout (h hin)).symm

theorem accept_of_not_isEnvelope (h : ¬ IsEnvelope d) :
    accept r t d = (if d.head? ≠ some frag6Magic then .notAFragment else .rejected, r) := by
  unfold accept
  split
  · rfl
  · split
    · rfl
    · rename_i h1 h2
      exact absurd ⟨not_not.mp h1, not_lt.mp h2⟩ h

theorem accept_of_oversized (h : IsEnvelope d) (hbig : envelopeStop d > maxReassembledIpv6Packet) :
    accept r t d = (.rejected, (swept r t d).erase (envelopeId d)) := by
  simp [accept, swept, h, h.1, not_lt.mpr h.2, hbig]

theorem accept_of_fits (h : IsEnvelope d) (hfits : envelopeStop d ≤ maxReassembledIpv6Packet) :
    accept r t d = deliver (swept r t d) t.seen d := by
  simp [accept, swept, h, h.1, not_lt.mpr h.2, not_lt.mpr hfits]

/-- Completing a set drops its entry; otherwise the entry is the stored one. -/
theorem get?_deliver {now : Instant} : (deliver r now d).2.get? k =
    if k = envelopeId d then
      if (stored r now d).tryComplete.isSome then none else some (stored r now d)
    else r.get? k := by
  unfold deliver
  cases (stored r now d).tryComplete with
  | none => simp only [HashTable.get?_insert, Option.isSome_none, Bool.false_eq_true, if_false]
  | some full =>
    simp only [HashTable.get?_erase, HashTable.get?_insert, Option.isSome_some, if_true]
    split <;> rfl

/-- **Frame rule**: a datagram touches no entry of another fragment set that it does not sweep. -/
theorem get?_accept_of_not_carries (h : ¬ Carries id d) :
    (accept r t d).2.get? id = (swept r t d).get? id := by
  by_cases henv : IsEnvelope d
  · have hne : id ≠ envelopeId d := fun heq => h ⟨henv, heq.symm⟩
    by_cases hfits : envelopeStop d ≤ maxReassembledIpv6Packet
    · rw [accept_of_fits henv hfits, get?_deliver, if_neg hne]
    · rw [accept_of_oversized henv (not_le.mp hfits), HashTable.get?_erase, if_neg hne]
  · rw [accept_of_not_isEnvelope henv, swept, if_pos henv]

/-- An entry left by a datagram is the one it was stored in, or one of another fragment set. -/
theorem get?_accept_eq_some {p : PartialIpv6} (hp : (accept r t d).2.get? id = some p) :
    (Carries id d ∧ envelopeStop d ≤ maxReassembledIpv6Packet ∧ p = stored (swept r t d) t.seen d) ∨
      ¬ Carries id d ∧ (swept r t d).get? id = some p := by
  by_cases hcar : Carries id d
  · obtain ⟨henv, rfl⟩ := hcar
    by_cases hfits : envelopeStop d ≤ maxReassembledIpv6Packet
    · rw [accept_of_fits henv hfits, get?_deliver, if_pos rfl] at hp
      split at hp
      · cases hp
      · exact Or.inl ⟨⟨henv, rfl⟩, hfits, (Option.some.inj hp).symm⟩
    · rw [accept_of_oversized henv (not_le.mp hfits), HashTable.get?_erase, if_pos rfl] at hp
      cases hp
  · rw [get?_accept_of_not_carries hcar] at hp
    exact Or.inr ⟨hcar, hp⟩

end Accept

end Ipv6Reassembler

end Tetron.Packet
