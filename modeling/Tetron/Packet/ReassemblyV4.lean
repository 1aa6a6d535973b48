import Tetron.Packet.FragmentV4

/-!
# RFC 791 reassembly of fragments

The receiving kernel's side, as RFC 791 describes it: a fragment belongs to the buffer named by
its addresses, protocol and identification; its data goes to the offset it names, a fragment
without more-fragments fixes the length of the datagram, and the fragment at offset zero supplies
the header. Writing the pieces of a packet is writing the packet, however often the pieces were cut
again and in whatever order they come in (`receive_refragmented`).
-/

namespace Tetron.Packet

open Pieces

/-- RFC 791's buffer identifier. -/
structure BufId where
  source : Ipv4Addr
  destination : Ipv4Addr
  protocol : UInt8
  identification : ℕ
deriving DecidableEq

def bufId (p : Bytes) : BufId :=
  ⟨ipv4At p 12, ipv4At p 16, byteAt p 9, u16FromBe (byteAt p 4) (byteAt p 5)⟩

/-- What a buffer keeps of its datagram. The header's rewritten bytes are recomputed when the
datagram is complete. -/
inductive Field where
  | octet (i : ℕ)
  | length
  | header (i : ℕ)
deriving DecidableEq

/-- The receiver's buffers: for each, the fields known so far. -/
abbrev Buffers := BufId × Field → Option ℕ

def contributionTo (p : Bytes) : Field → Option ℕ
  | .octet i =>
    if fragmentOffset p ≤ i ∧ i < fragmentOffset p + (payload p).length then
      (payload p)[i - fragmentOffset p]?.map UInt8.toNat
    else none
  | .length => if moreFragments p = 0 then some (fragmentOffset p + (payload p).length) else none
  | .header i =>
    if fragmentOffset p = 0 ∧ i < headerLen ∧ i ∉ rewritten then some (byteAt p i).toNat else none

/-- What a packet contributes to the receiver's buffers. -/
def contribution (p : Bytes) : Buffers := fun k =>
  if k.1 = bufId p then contributionTo p k.2 else none

/-- Receiving one packet. -/
def receive (buffers : Buffers) (p : Bytes) : Buffers := overlay buffers (contribution p)

/-- `Refragmented p pieces`: the pieces come from cutting `p`, and its pieces, any number of times. -/
inductive Refragmented : Bytes → List Bytes → Prop
  | whole (p : Bytes) : Refragmented p [p]
  | split {p : Bytes} {maxSize : ℕ} {frags : List Bytes} {parts : Bytes → List Bytes}
      (cut : fragmentIpv4Into p maxSize = some frags) (rest : ∀ f ∈ frags, Refragmented f (parts f)) :
      Refragmented p (frags.flatMap parts)

section Covers

variable {p : Bytes} {maxSize : ℕ}

theorem bufId_ipv4Fragment (hp : Fragmentable p) (s : Span) : bufId (ipv4Fragment p s) = bufId p := by
  have hkept : ∀ i < headerLen, i ∉ rewritten → byteAt (ipv4Fragment p s) i = byteAt p i :=
    fun i => byteAt_ipv4Fragment_of_kept hp
  simp only [bufId, ipv4At]
  repeat rw [hkept _ (by decide) (by decide)]

/-- The fields that the slice `s` of the packet's payload is responsible for. -/
def Under (p : Bytes) (s : Span) : Field → Prop
  | .octet i => fragmentOffset p + s.start ≤ i ∧ i < fragmentOffset p + s.stop
  | .length => s.stop = p.length - headerLen
  | .header _ => s.start = 0

/-- A fragment contributes what the packet does, to the fields its slice is responsible for. -/
theorem contributionTo_ipv4Fragment (hp : Fragmentable p) (hmax : headerLen + 8 ≤ maxSize) {s : Span}
    (hs : s ∈ fragmentSpans p maxSize) (field : Field) :
    (Under p s field → contributionTo (ipv4Fragment p s) field = contributionTo p field) ∧
      (¬ Under p s field → contributionTo (ipv4Fragment p s) field = none) := by
  obtain ⟨hstop, hpos, -, h8, -⟩ := mem_fragmentSpans hmax hs
  have hstart : s.start < p.length - headerLen := by simp only [Span.stop] at hstop; omega
  have hlen : (payload p).length = p.length - headerLen := List.length_drop
  have hpay := payload_ipv4Fragment (s := s) hp
  have hpaylen : (payload (ipv4Fragment p s)).length = s.len := by
    rw [hpay, length_slice _ _ (hlen ▸ hstop)]
  have hoff := fragmentOffset_ipv4Fragment hp hstart h8
  cases field with
  | octet i =>
    simp only [contributionTo, Under, hoff, hpaylen, Nat.add_assoc, Span.stop] at hstop ⊢
    refine ⟨fun hin => ?_, fun hout => if_neg hout⟩
    have hidx : s.start + (i - (fragmentOffset p + s.start)) = i - fragmentOffset p := by omega
    rw [if_pos hin, hpay, getElem?_slice, if_pos (by omega), hidx, if_pos (by omega)]
  | length =>
    simp only [contributionTo, Under, hoff, hpaylen, moreFragments_ipv4Fragment hp hstart, hlen]
    refine ⟨fun hend => ?_, fun hmid => ?_⟩
    · rw [if_pos hend.ge, ← hend, Nat.add_assoc, Span.stop]
    · rw [if_neg (by omega : ¬ s.stop ≥ p.length - headerLen), if_neg (by decide)]
  | header i =>
    simp only [contributionTo, Under, hoff]
    refine ⟨fun hfirst => ?_, fun hlater => if_neg (by omega)⟩
    rw [hfirst, Nat.add_zero]
    split
    · rename_i hkept
      rw [byteAt_ipv4Fragment_of_kept hp hkept.2.1 hkept.2.2]
    · rfl

/-- Every field a packet contributes to is some slice's responsibility. -/
theorem exists_under (hmax : headerLen + 8 ≤ maxSize) (hlt : maxSize < p.length) {field : Field} {v : ℕ}
    (h : contributionTo p field = some v) : ∃ s ∈ fragmentSpans p maxSize, Under p s field := by
  have htiles := tiles_fragmentSpans (p := p) hmax
  have hlen : (payload p).length = p.length - headerLen := List.length_drop
  cases field with
  | octet i =>
    simp only [contributionTo] at h
    split at h
    · rename_i hin
      obtain ⟨s, hs, hle, hgt⟩ := htiles.exists_mem (i - fragmentOffset p) (by omega) (by omega)
      exact ⟨s, hs, by simp only [Under]; omega⟩
    · cases h
  | length =>
    obtain ⟨s, hs, -, hgt⟩ := htiles.exists_mem (p.length - headerLen - 1) (by omega) (by omega)
    have hstop := (htiles.bounds s hs).2.2
    exact ⟨s, hs, by simp only [Under]; omega⟩
  | header i =>
    obtain ⟨s, hs, hle, -⟩ := htiles.exists_mem 0 (by omega) (by omega)
    exact ⟨s, hs, by simp only [Under]; omega⟩

/-- Cutting a packet does not change what it contributes. -/
theorem covers_fragments (hp : Fragmentable p) (hmax : headerLen + 8 ≤ maxSize) (hlt : maxSize < p.length) :
    Covers (((fragmentSpans p maxSize).map (ipv4Fragment p)).map contribution) (contribution p) := by
  rintro ⟨id, field⟩ v
  simp only [List.map_map, List.mem_map, exists_exists_and_eq_and, Function.comp_apply, contribution,
    bufId_ipv4Fragment hp]
  by_cases hid : id = bufId p
  · simp only [hid, if_true]
    constructor
    · intro h
      obtain ⟨s, hs, hunder⟩ := exists_under hmax hlt h
      exact ⟨s, hs, ((contributionTo_ipv4Fragment hp hmax hs field).1 hunder).trans h⟩
    · rintro ⟨s, hs, h⟩
      obtain ⟨hin, hout⟩ := contributionTo_ipv4Fragment hp hmax hs field
      by_cases hunder : Under p s field
      · exact (hin hunder).symm.trans h
      · rw [hout hunder] at h
        cases h
  · simp [hid]

/-- **Cutting again changes nothing either.** -/
theorem covers_refragmented {pieces : List Bytes} (h : Refragmented p pieces) (hp : Fragmentable p) :
    Covers (pieces.map contribution) (contribution p) := by
  induction h with
  | whole p => exact covers_singleton _
  | @split p maxSize frags parts cut rest ih =>
    obtain ⟨hlt, hmax, rfl⟩ := fragmentIpv4Into_eq_some cut
    rw [List.map_flatMap]
    refine (covers_fragments hp hmax hlt).flatMap fun f hf => ?_
    obtain ⟨s, hs, rfl⟩ := List.mem_map.mp hf
    exact ih _ hf (fragmentable_of_mem hp hmax hs)

end Covers

/-- Receiving packets one after the other writes what they contribute. -/
theorem foldl_receive (buffers : Buffers) (ps : List Bytes) :
    ps.foldl receive buffers = (ps.map contribution).foldl overlay buffers := by
  rw [List.foldl_map]
  rfl

theorem receive_refragmented {p : Bytes} {pieces order : List Bytes} (hp : Fragmentable p)
    (h : Refragmented p pieces) (horder : order.Perm pieces) (buffers : Buffers) :
    order.foldl receive buffers = receive buffers p := by
  rw [foldl_receive, receive]
  exact foldl_overlay ((covers_refragmented h hp).perm (horder.symm.map contribution)) buffers

/-- **IPv4 fragmentation**: the fragments are what RFC 791 asks for, and receiving them, or any
pieces cut from them again, in any order, is receiving the packet. -/
theorem fragmentIpv4Into_spec (p : Bytes) (maxSize : ℕ) (hp : Fragmentable p) (hlo : 28 ≤ maxSize)
    (hhi : maxSize < p.length) :
    ∃ frags, fragmentIpv4Into p maxSize = some frags ∧ FragmentsOf p maxSize frags ∧
      (∀ (order : List Bytes) (buffers : Buffers), order.Perm frags →
        order.foldl receive buffers = receive buffers p) ∧
      ∀ (parts : Bytes → List Bytes) (order : List Bytes) (buffers : Buffers),
        (∀ f ∈ frags, Refragmented f (parts f)) → order.Perm (frags.flatMap parts) →
        order.foldl receive buffers = receive buffers p := by
  have hcut := fragmentIpv4Into_of_fragmentable hp hlo hhi
  refine ⟨_, hcut, fragmentsOf_map hp hlo hhi, ?_, ?_⟩
  · intro order buffers horder
    have hsplit : Refragmented p (((fragmentSpans p maxSize).map (ipv4Fragment p)).flatMap fun f => [f]) :=
      .split hcut fun f _ => .whole f
    rw [List.flatMap_singleton'] at hsplit
    exact receive_refragmented hp hsplit horder buffers
  · intro parts order buffers hparts horder
    exact receive_refragmented hp (.split hcut hparts) horder buffers

/-- A middle fragment of a datagram: offset 8, more fragments to come, sixteen bytes of payload. -/
def middleFragment : Bytes :=
  [69, 0, 0, 36, 18, 52, 32, 1, 64, 17, 51, 224, 10, 88, 0, 2, 10, 88, 0, 3] ++ List.replicate 16 7

theorem fragmentable_middleFragment : Fragmentable middleFragment := by
  constructor <;> decide

theorem fragmentIpv4Into_middleFragment :
    ∃ first second, fragmentIpv4Into middleFragment 28 = some [first, second] ∧
      FragmentsOf middleFragment 28 [first, second] ∧
      ∀ buffers, receive (receive buffers second) first = receive buffers middleFragment := by
  obtain ⟨frags, hcut, hfrags, hrecv, -⟩ :=
    fragmentIpv4Into_spec middleFragment 28 fragmentable_middleFragment (by decide) (by decide)
  have htwo : frags.length = 2 := by
    have : (fragmentIpv4Into middleFragment 28).map List.length = some 2 := by decide
    simpa [hcut] using this
  obtain ⟨first, second, rfl⟩ := List.length_eq_two.mp htwo
  exact ⟨first, second, hcut, hfrags, fun buffers => hrecv [second, first] buffers (List.Perm.swap _ _ _)⟩

end Tetron.Packet
