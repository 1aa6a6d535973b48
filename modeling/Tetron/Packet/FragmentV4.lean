import Tetron.Packet.Parse
import Tetron.Lib.Pieces

/-!
# IPv4 fragmentation

`fragmentIpv4Into` cuts an oversized IPv4 packet, which may be a fragment itself, into smaller
fragments. Its pieces are well formed again (`Fragmentable`), so they may be cut once more, and
RFC 791 reassembly cannot tell pieces of pieces from the packet (`receive_refragmented`).
-/

namespace Tetron.Packet

open Pieces

/-! ### The header checksum -/

/-- The words of the data, summed; an odd last byte is padded with zero. A header's sum stays far
below `2 ^ 32`. -/
def sumWords : Bytes → ℕ
  | hi :: lo :: rest => u16FromBe hi lo + sumWords rest
  | [hi] => hi.toNat * 256
  | [] => 0

/-- `while sum >> 16 != 0 { sum = (sum & 0xFFFF) + (sum >> 16) }`, which lowers the sum each time. -/
def foldCarries : ℕ → ℕ → ℕ
  | 0, sum => sum
  | fuel + 1, sum => if sum / 65536 ≠ 0 then foldCarries fuel (sum % 65536 + sum / 65536) else sum

/-- `ip_checksum`. -/
def ipChecksum (data : Bytes) : ℕ := 65535 - foldCarries (sumWords data) (sumWords data) % 65536

/-! ### Header fields -/

/-- `HEADER_LEN`: no IP options. -/
def headerLen : ℕ := 20

def totalLength (p : Bytes) : ℕ := u16FromBe (byteAt p 2) (byteAt p 3)

/-- The more-fragments bit. -/
def moreFragments (p : Bytes) : UInt8 := (byteAt p 6 >>> 5) &&& 1

/-- The fragment offset, in bytes. -/
def fragmentOffset (p : Bytes) : ℕ := ((((byteAt p 6).toNat &&& 0x1F) <<< 8) ||| (byteAt p 7).toNat) * 8

def storedChecksum (p : Bytes) : ℕ := u16FromBe (byteAt p 10) (byteAt p 11)

/-- The checksum of the header with its checksum field zeroed. -/
def computedChecksum (p : Bytes) : ℕ := ipChecksum (((p.take headerLen).set 10 0).set 11 0)

def payload (p : Bytes) : Bytes := p.drop headerLen

/-- `MAX_FRAG_OFFSET_BYTES`: the largest byte offset the 13-bit field can express. -/
def maxFragOffsetBytes : ℕ := 0x1FFF * 8

/-! ### Fragmenting -/

/-- Byte 6 of a fragment: the input's don't-fragment bit, more-fragments and the offset's high bits. -/
def flagsByte (old mf : UInt8) (offsetHi : ℕ) : UInt8 :=
  (old &&& 0x40) ||| (mf <<< (5 : UInt8)) ||| (UInt8.ofNat offsetHi &&& 0x1F)

/-- The header of the fragment that holds the payload under `s`, before its checksum. -/
def uncheckedHeader (packet : Bytes) (s : Span) : Bytes :=
  let payloadLen := packet.length - headerLen
  let mf : UInt8 := if s.stop ≥ payloadLen then moreFragments packet else 1
  let fragOffset := (fragmentOffset packet + s.start) / 8 % 65536
  let totalLen := (headerLen + s.len) % 65536
  let hdr := packet.take headerLen
  let hdr := (hdr.set 2 (UInt8.ofNat (totalLen / 256))).set 3 (UInt8.ofNat totalLen)
  let hdr := (hdr.set 4 (byteAt packet 4)).set 5 (byteAt packet 5)
  let hdr := hdr.set 6 (flagsByte (byteAt packet 6) mf (fragOffset / 256))
  let hdr := hdr.set 7 (UInt8.ofNat fragOffset)
  (hdr.set 10 0).set 11 0

/-- One turn of the loop in `fragment_ipv4_into`. -/
def ipv4Fragment (packet : Bytes) (s : Span) : Bytes :=
  let hdr := uncheckedHeader packet s
  let csum := ipChecksum hdr
  (hdr.set 10 (UInt8.ofNat (csum / 256))).set 11 (UInt8.ofNat csum) ++ slice (payload packet) s

/-- The slices of the payload the loop visits; `& !7` rounds the stride down to a multiple of 8. -/
def fragmentSpans (packet : Bytes) (maxSize : ℕ) : List Span :=
  cut ((maxSize - headerLen) / 8 * 8) (packet.length - headerLen) (packet.length - headerLen) 0

/-- `fragment_ipv4_into`; `none` is the result `false`, with nothing appended. -/
def fragmentIpv4Into (packet : Bytes) (maxSize : ℕ) : Option (List Bytes) :=
  if packet.length ≤ maxSize then none
  else if packet.length < headerLen then none
  else if maxSize < headerLen + 8 then none
  else if ihl packet * 4 ≠ headerLen then none
  else if computedChecksum packet ≠ storedChecksum packet then none
  else if fragmentOffset packet + (packet.length - headerLen - 1) > maxFragOffsetBytes then none
  else some ((fragmentSpans packet maxSize).map (ipv4Fragment packet))

/-- A packet RFC 791 and the source agree on: a whole header without options, a true total length
and checksum, and every byte at an offset the fragment offset field can express. Only the last
fragment of a datagram may have a ragged end. -/
structure Fragmentable (p : Bytes) : Prop where
  len_ge : headerLen ≤ p.length
  len_le : p.length ≤ 65535
  version : ipVersion p = 4
  ihl : ihl p = 5
  total : totalLength p = p.length
  checksum : storedChecksum p = computedChecksum p
  addressable : fragmentOffset p + (p.length - headerLen - 1) ≤ maxFragOffsetBytes
  aligned : moreFragments p = 1 → 8 ∣ p.length - headerLen

/-- The header bytes a fragment may change: total length, flags and offset, checksum. -/
def rewritten : List ℕ := [2, 3, 6, 7, 10, 11]

/-! ### Reading a fragment's header -/

theorem byteAt_append_left {xs ys : Bytes} {i : ℕ} (h : i < xs.length) :
    byteAt (xs ++ ys) i = byteAt xs i := by
  simp [byteAt, List.getD_eq_getElem?_getD, List.getElem?_append_left h]

theorem byteAt_take {xs : Bytes} {n i : ℕ} (h : i < n) : byteAt (xs.take n) i = byteAt xs i := by
  simp [byteAt, List.getD_eq_getElem?_getD, h]

theorem byteAt_set {xs : Bytes} {i j : ℕ} {v : UInt8} (hi : i < xs.length) :
    byteAt (xs.set i v) j = if i = j then v else byteAt xs j := by
  simp only [byteAt, List.getD_eq_getElem?_getD, List.getElem?_set]
  split
  · simp_all
  · rfl

theorem moreFragments_eq (p : Bytes) : moreFragments p = 0 ∨ moreFragments p = 1 := by
  refine forall_byte (Q := fun b => (b >>> 5) &&& 1 = 0 ∨ (b >>> 5) &&& 1 = 1) ?_ (byteAt p 6)
  decide +kernel

/-- The flags byte keeps the numbers put into it apart. -/
theorem flagsByte_spec (old : UInt8) {mf : UInt8} (hmf : mf = 0 ∨ mf = 1) {hi : ℕ} (hhi : hi < 32) :
    (flagsByte old mf hi >>> 5) &&& 1 = mf ∧ (flagsByte old mf hi).toNat &&& 0x1F = hi := by
  have hold : old &&& 0x40 = 0 ∨ old &&& 0x40 = 0x40 :=
    forall_byte (Q := fun b => b &&& 0x40 = 0 ∨ b &&& 0x40 = 0x40) (by decide +kernel) old
  have hall : ∀ x ∈ [(0 : UInt8), 0x40], ∀ m ∈ [(0 : UInt8), 1], ∀ hi < 32,
      ((x ||| (m <<< (5 : UInt8)) ||| (UInt8.ofNat hi &&& 0x1F)) >>> 5) &&& 1 = m ∧
        (x ||| (m <<< (5 : UInt8)) ||| (UInt8.ofNat hi &&& 0x1F)).toNat &&& 0x1F = hi := by
    decide +kernel
  exact hall _ (by simpa using hold) _ (by simpa using hmf) hi hhi

theorem eight_dvd_fragmentOffset (p : Bytes) : 8 ∣ fragmentOffset p := Dvd.intro_left _ rfl

/-! ### One fragment -/

section Fragment

variable {p : Bytes} {s : Span}

theorem length_uncheckedHeader (h : Fragmentable p) : (uncheckedHeader p s).length = headerLen := by
  simp [uncheckedHeader, h.len_ge]

theorem length_ipv4Fragment (h : Fragmentable p) (hs : s.stop ≤ p.length - headerLen) :
    (ipv4Fragment p s).length = headerLen + s.len := by
  have hlen : (payload p).length = p.length - headerLen := List.length_drop
  simp [ipv4Fragment, length_uncheckedHeader h, length_slice (payload p) s (by omega)]

theorem payload_ipv4Fragment (h : Fragmentable p) :
    payload (ipv4Fragment p s) = slice (payload p) s := by
  rw [payload, ipv4Fragment]
  exact List.drop_left' (by simp [length_uncheckedHeader h])

/-- The header bytes of a fragment. -/
theorem byteAt_ipv4Fragment (h : Fragmentable p) {i : ℕ} (hi : i < headerLen) :
    byteAt (ipv4Fragment p s) i =
      if i = 11 then UInt8.ofNat (ipChecksum (uncheckedHeader p s))
      else if i = 10 then UInt8.ofNat (ipChecksum (uncheckedHeader p s) / 256)
      else byteAt (uncheckedHeader p s) i := by
  have hlen := length_uncheckedHeader (s := s) h
  simp only [headerLen] at hlen hi
  rw [ipv4Fragment, byteAt_append_left (by simp; omega), byteAt_set (by simp; omega),
    byteAt_set (by omega)]
  simp only [eq_comm]

theorem byteAt_uncheckedHeader (h : Fragmentable p) {i : ℕ} (hi : i < headerLen) :
    byteAt (uncheckedHeader p s) i =
      if i = 2 then UInt8.ofNat ((headerLen + s.len) % 65536 / 256)
      else if i = 3 then UInt8.ofNat ((headerLen + s.len) % 65536)
      else if i = 6 then flagsByte (byteAt p 6)
        (if s.stop ≥ p.length - headerLen then moreFragments p else 1)
        ((fragmentOffset p + s.start) / 8 % 65536 / 256)
      else if i = 7 then UInt8.ofNat ((fragmentOffset p + s.start) / 8 % 65536)
      else if i = 10 ∨ i = 11 then 0
      else byteAt p i := by
  have hlen : (p.take headerLen).length = headerLen := by simp [h.len_ge]
  unfold uncheckedHeader
  repeat rw [byteAt_set (by simp only [List.length_set, hlen]; decide)]
  rw [byteAt_take hi]
  have hcases : i = 2 ∨ i = 3 ∨ i = 4 ∨ i = 5 ∨ i = 6 ∨ i = 7 ∨ i = 10 ∨ i = 11 ∨
      (i ≠ 2 ∧ i ≠ 3 ∧ i ≠ 4 ∧ i ≠ 5 ∧ i ≠ 6 ∧ i ≠ 7 ∧ i ≠ 10 ∧ i ≠ 11) := by omega
  -- bytes 4 and 5 are written back unchanged
  rcases hcases with rfl | rfl | rfl | rfl | rfl | rfl | rfl | rfl | ⟨h2, h3, h4, h5, h6, h7, h10, h11⟩
  case inr.inr.inr.inr.inr.inr.inr.inr =>
    simp only [h2, h3, h6, h7, h10, h11, h2.symm, h3.symm, h4.symm, h5.symm, h6.symm, h7.symm, h10.symm, h11.symm,
      or_self, if_false]
  all_goals rfl

theorem byteAt_ipv4Fragment_of_kept (h : Fragmentable p) {i : ℕ} (hi : i < headerLen)
    (hkept : i ∉ rewritten) : byteAt (ipv4Fragment p s) i = byteAt p i := by
  simp only [rewritten, List.mem_cons, List.not_mem_nil, or_false, not_or] at hkept
  obtain ⟨h2, h3, h6, h7, h10, h11⟩ := hkept
  rw [byteAt_ipv4Fragment h hi, byteAt_uncheckedHeader h hi]
  simp [h2, h3, h6, h7, h10, h11]

theorem totalLength_ipv4Fragment (h : Fragmentable p) (hs : s.stop ≤ p.length - headerLen) :
    totalLength (ipv4Fragment p s) = (ipv4Fragment p s).length := by
  have hle := h.len_le
  have h20 : headerLen = 20 := rfl
  rw [length_ipv4Fragment h hs, totalLength, byteAt_ipv4Fragment h (by decide),
    byteAt_ipv4Fragment h (by decide), byteAt_uncheckedHeader h (by decide),
    byteAt_uncheckedHeader h (by decide)]
  simp only [Nat.reduceEqDiff, if_true, if_false]
  rw [u16FromBe_ofNat (Nat.mod_lt _ (by omega)), Nat.mod_eq_of_lt (by simp only [Span.stop] at hs; omega)]

/-- Zeroing a fragment's checksum field gives back the header the checksum was computed over. -/
theorem checksum_ipv4Fragment (h : Fragmentable p) :
    storedChecksum (ipv4Fragment p s) = computedChecksum (ipv4Fragment p s) := by
  have hlen := length_uncheckedHeader (s := s) h
  have hcsum : ipChecksum (uncheckedHeader p s) < 65536 := by unfold ipChecksum; omega
  have hhdr : (((ipv4Fragment p s).take headerLen).set 10 0).set 11 0 = uncheckedHeader p s := by
    rw [ipv4Fragment, List.take_left' (by simpa using hlen)]
    have h10 : (11 : ℕ) ≠ 10 := by decide
    rw [List.set_comm _ _ h10, List.set_set, List.set_set, uncheckedHeader, List.set_comm _ _ h10,
      List.set_set, List.set_set]
  rw [storedChecksum, byteAt_ipv4Fragment h (by decide), byteAt_ipv4Fragment h (by decide),
    computedChecksum, hhdr]
  simpa using u16FromBe_ofNat hcsum

/-- Byte 6 of a fragment, with the offset's high bits in range. -/
theorem flags_ipv4Fragment (h : Fragmentable p) (hs : s.start < p.length - headerLen) :
    (byteAt (ipv4Fragment p s) 6 >>> 5) &&& 1 =
        (if s.stop ≥ p.length - headerLen then moreFragments p else 1) ∧
      (byteAt (ipv4Fragment p s) 6).toNat &&& 0x1F = (fragmentOffset p + s.start) / 8 / 256 := by
  have haddr := h.addressable
  simp only [maxFragOffsetBytes] at haddr
  have hmf : (if s.stop ≥ p.length - headerLen then moreFragments p else 1) = 0 ∨
      (if s.stop ≥ p.length - headerLen then moreFragments p else 1) = 1 := by
    split
    · exact moreFragments_eq p
    · exact Or.inr rfl
  have hbyte : byteAt (ipv4Fragment p s) 6 = flagsByte (byteAt p 6)
      (if s.stop ≥ p.length - headerLen then moreFragments p else 1)
      ((fragmentOffset p + s.start) / 8 / 256) := by
    rw [byteAt_ipv4Fragment h (by decide), byteAt_uncheckedHeader h (by decide),
      Nat.mod_eq_of_lt (by omega : (fragmentOffset p + s.start) / 8 < 65536)]
    simp
  rw [hbyte]
  exact flagsByte_spec _ hmf (by omega)

theorem moreFragments_ipv4Fragment (h : Fragmentable p) (hs : s.start < p.length - headerLen) :
    moreFragments (ipv4Fragment p s) =
      if s.stop ≥ p.length - headerLen then moreFragments p else 1 :=
  (flags_ipv4Fragment h hs).1

theorem fragmentOffset_ipv4Fragment (h : Fragmentable p) (hs : s.start < p.length - headerLen)
    (h8 : 8 ∣ s.start) : fragmentOffset (ipv4Fragment p s) = fragmentOffset p + s.start := by
  have hsum : 8 ∣ fragmentOffset p + s.start := Nat.dvd_add (eight_dvd_fragmentOffset p) h8
  have haddr := h.addressable
  simp only [maxFragOffsetBytes] at haddr
  have hlow : (byteAt (ipv4Fragment p s) 7).toNat = (fragmentOffset p + s.start) / 8 % 256 := by
    rw [byteAt_ipv4Fragment h (by decide), byteAt_uncheckedHeader h (by decide)]
    simp
  have hor : ∀ hi lo : ℕ, lo < 256 → (hi <<< 8) ||| lo = hi * 256 + lo := by
    intro hi lo hlo
    rw [← Nat.shiftLeft_add_eq_or_of_lt hlo, Nat.shiftLeft_eq]
  rw [fragmentOffset, (flags_ipv4Fragment h hs).2, hlow, hor _ _ (Nat.mod_lt _ (by omega))]
  omega

/-- **The pieces are fragmentable again.** -/
theorem fragmentable_ipv4Fragment (h : Fragmentable p) (hstop : s.stop ≤ p.length - headerLen)
    (hpos : 0 < s.len) (h8 : 8 ∣ s.start) (hfull : s.stop < p.length - headerLen → 8 ∣ s.len) :
    Fragmentable (ipv4Fragment p s) := by
  have hlen := length_ipv4Fragment h hstop
  have hstart : s.start < p.length - headerLen := by simp only [Span.stop] at hstop; omega
  have hkept := byteAt_ipv4Fragment_of_kept (s := s) h (i := 0) (by decide) (by decide)
  have hle := h.len_le
  have haddr := h.addressable
  simp only [Span.stop] at hstop
  refine ⟨by omega, by omega, ?_, ?_, totalLength_ipv4Fragment h hstop, checksum_ipv4Fragment h, ?_, ?_⟩
  · rw [ipVersion, hkept]; exact h.version
  · rw [Packet.ihl, hkept]; exact h.ihl
  · rw [fragmentOffset_ipv4Fragment h hstart h8, hlen]; omega
  · rw [moreFragments_ipv4Fragment h hstart, hlen]
    intro hmf
    rw [Nat.add_sub_cancel_left]
    split at hmf
    · rename_i hlast
      have hend : s.start + s.len = p.length - headerLen := le_antisymm hstop hlast
      exact (Nat.dvd_add_right h8).mp (hend ▸ h.aligned hmf)
    · rename_i hlast
      exact hfull (not_le.mp hlast)

end Fragment

/-! ### The fragments of a packet -/

/-- The fragments' offsets are absolute: each continues where the one before it ended. -/
def OffsetsFrom : ℕ → List Bytes → Prop
  | _, [] => True
  | pos, f :: fs => fragmentOffset f = pos ∧ OffsetsFrom (pos + (payload f).length) fs

/-- More-fragments is set on all fragments but the last, which has `mf`. -/
def MoresTo (mf : UInt8) (frags : List Bytes) : Prop :=
  ∃ init last, frags = init ++ [last] ∧ (∀ f ∈ init, moreFragments f = 1) ∧ moreFragments last = mf

/-- What the fragments of `p` have to be. -/
structure FragmentsOf (p : Bytes) (maxSize : ℕ) (frags : List Bytes) : Prop where
  sizes : ∀ f ∈ frags, f.length ≤ maxSize
  checksums : ∀ f ∈ frags, storedChecksum f = computedChecksum f
  totals : ∀ f ∈ frags, totalLength f = f.length
  headers : ∀ f ∈ frags, ∀ i < headerLen, i ∉ rewritten → byteAt f i = byteAt p i
  offsets : OffsetsFrom (fragmentOffset p) frags
  mores : MoresTo (moreFragments p) frags
  payloads : frags.flatMap payload = payload p

section Spans

variable {p : Bytes} {maxSize : ℕ} {s : Span}

theorem tiles_fragmentSpans (hmax : headerLen + 8 ≤ maxSize) :
    Tiles 0 (fragmentSpans p maxSize) (p.length - headerLen) :=
  cut_tiles (by omega) _ _ (by omega) (by omega)

/-- What the loop's slices look like. -/
theorem mem_fragmentSpans (hmax : headerLen + 8 ≤ maxSize) (h : s ∈ fragmentSpans p maxSize) :
    s.stop ≤ p.length - headerLen ∧ 0 < s.len ∧ headerLen + s.len ≤ maxSize ∧ 8 ∣ s.start ∧
      (s.stop < p.length - headerLen → 8 ∣ s.len) := by
  obtain ⟨hlen, -, hfull, -⟩ := mem_cut h
  obtain ⟨-, hpos, hstop⟩ := (tiles_fragmentSpans hmax).bounds s h
  have h8 : 8 ∣ (maxSize - headerLen) / 8 * 8 := Dvd.intro_left _ rfl
  refine ⟨hstop, hpos, by omega, dvd_start_of_mem_cut h8 h, fun hlt => ?_⟩
  rw [hfull hlt]
  exact h8

theorem fragmentable_of_mem (hp : Fragmentable p) (hmax : headerLen + 8 ≤ maxSize)
    (h : s ∈ fragmentSpans p maxSize) : Fragmentable (ipv4Fragment p s) := by
  obtain ⟨hstop, hpos, -, h8, hfull⟩ := mem_fragmentSpans hmax h
  exact fragmentable_ipv4Fragment hp hstop hpos h8 hfull

theorem fragmentIpv4Into_eq_some {frags : List Bytes} (h : fragmentIpv4Into p maxSize = some frags) :
    maxSize < p.length ∧ headerLen + 8 ≤ maxSize ∧
      frags = (fragmentSpans p maxSize).map (ipv4Fragment p) := by
  unfold fragmentIpv4Into at h
  repeat' split at h
  all_goals first | (cases h; done) | skip
  cases h
  exact ⟨by omega, by omega, rfl⟩

theorem fragmentIpv4Into_of_fragmentable (hp : Fragmentable p) (hmax : headerLen + 8 ≤ maxSize)
    (hlt : maxSize < p.length) :
    fragmentIpv4Into p maxSize = some ((fragmentSpans p maxSize).map (ipv4Fragment p)) := by
  have h1 := hp.len_ge
  have h2 := hp.addressable
  have h3 : ihl p * 4 = headerLen := by rw [hp.ihl]; rfl
  simp [fragmentIpv4Into, not_le.mpr hlt, not_lt.mpr h1, not_lt.mpr hmax, h3, hp.checksum.symm,
    not_lt.mpr h2]

theorem offsetsFrom_map (hp : Fragmentable p) : ∀ {ss : List Span} {a : ℕ},
    Tiles a ss (p.length - headerLen) → (∀ s ∈ ss, 8 ∣ s.start) →
    OffsetsFrom (fragmentOffset p + a) (ss.map (ipv4Fragment p))
  | [], _, _, _ => trivial
  | s :: ss, a, htiles, h8 => by
      obtain ⟨-, hpos, hstop⟩ := htiles.bounds s (by simp)
      have hlen : (payload p).length = p.length - headerLen := List.length_drop
      obtain ⟨hstart, -, htail⟩ := htiles
      refine ⟨?_, ?_⟩
      · rw [fragmentOffset_ipv4Fragment hp (by simp only [Span.stop] at hstop; omega) (h8 s (by simp)), hstart]
      · rw [payload_ipv4Fragment hp, length_slice _ _ (by omega), Nat.add_assoc]
        exact offsetsFrom_map hp htail fun t ht => h8 t (by simp [ht])

theorem moresTo_map (hp : Fragmentable p) : ∀ {ss : List Span} {a : ℕ},
    Tiles a ss (p.length - headerLen) → ss ≠ [] → MoresTo (moreFragments p) (ss.map (ipv4Fragment p))
  | [], _, _, hne => absurd rfl hne
  | [s], a, htiles, _ => by
      obtain ⟨-, hpos, hstop⟩ := htiles.bounds s (by simp)
      obtain ⟨hstart, -, hend⟩ := htiles
      simp only [Tiles] at hend
      refine ⟨[], ipv4Fragment p s, rfl, by simp, ?_⟩
      rw [moreFragments_ipv4Fragment hp (by simp only [Span.stop] at hstop; omega),
        if_pos (by simp only [Span.stop]; omega)]
  | s :: t :: ss, a, htiles, _ => by
      obtain ⟨-, hpos, hstop⟩ := htiles.bounds s (by simp)
      obtain ⟨hstart, -, htail⟩ := htiles
      have hlt := htail.lt_of_ne_nil (by simp)
      obtain ⟨init, last, heq, hinit, hlast⟩ := moresTo_map hp htail (by simp)
      refine ⟨ipv4Fragment p s :: init, last, by simp [heq], ?_, hlast⟩
      intro f hf
      rcases List.mem_cons.mp hf with rfl | hf
      · rw [moreFragments_ipv4Fragment hp (by simp only [Span.stop] at hstop; omega),
          if_neg (by simp only [Span.stop]; omega)]
      · exact hinit f hf

theorem fragmentsOf_map (hp : Fragmentable p) (hmax : headerLen + 8 ≤ maxSize) (hlt : maxSize < p.length) :
    FragmentsOf p maxSize ((fragmentSpans p maxSize).map (ipv4Fragment p)) := by
  have htiles := tiles_fragmentSpans (p := p) hmax
  have hne : fragmentSpans p maxSize ≠ [] := by
    intro hnil
    rw [hnil] at htiles
    simp only [Tiles] at htiles
    omega
  refine ⟨?_, ?_, ?_, ?_, ?_, moresTo_map hp htiles hne, ?_⟩
  · rintro f hf
    obtain ⟨s, hs, rfl⟩ := List.mem_map.mp hf
    obtain ⟨hstop, -, hle, -⟩ := mem_fragmentSpans hmax hs
    rw [length_ipv4Fragment hp hstop]
    exact hle
  · rintro f hf
    obtain ⟨s, hs, rfl⟩ := List.mem_map.mp hf
    exact checksum_ipv4Fragment hp
  · rintro f hf
    obtain ⟨s, hs, rfl⟩ := List.mem_map.mp hf
    exact totalLength_ipv4Fragment hp (mem_fragmentSpans hmax hs).1
  · rintro f hf i hi hkept
    obtain ⟨s, hs, rfl⟩ := List.mem_map.mp hf
    exact byteAt_ipv4Fragment_of_kept hp hi hkept
  · exact offsetsFrom_map hp htiles fun s hs => (mem_fragmentSpans hmax hs).2.2.2.1
  · have hlen : (payload p).length = p.length - headerLen := List.length_drop
    rw [List.flatMap_map]
    simp only [payload_ipv4Fragment hp]
    rw [flatMap_slice_of_tiles (payload p) htiles, slice, List.drop_zero, Nat.sub_zero, ← hlen,
      List.take_length]

end Spans

end Tetron.Packet
