import Tetron.Lib.OnesComplement
import Tetron.Packet.FragmentV4

/-!
# The header checksum

`ip_checksum` on the machine integers of the source. For the lengths an IP packet can have nothing overflows
(`noOverflow_of_length_le`), the carries are folded in two turns at most, and the result is the number that
`Packet.ipChecksum` computes. A header that carries its checksum sums up to all ones (`ip_checksum_spec`).
-/

namespace Tetron.Packet.Checksum

/-! ### The source's loops -/

/-- The first loop of `ip_checksum`, and the odd last byte after it. -/
def accumulate (sum : UInt32) : Bytes → UInt32
  | hi :: lo :: rest => accumulate (sum + UInt32.ofNat (u16FromBe hi lo)) rest
  | [hi] => sum + hi.toUInt32 <<< 8
  | [] => sum

/-- None of these additions reaches `2 ^ 32`. -/
def NoOverflow (sum : ℕ) : Bytes → Prop
  | hi :: lo :: rest => sum + u16FromBe hi lo < 2 ^ 32 ∧ NoOverflow (sum + u16FromBe hi lo) rest
  | [hi] => sum + hi.toNat * 256 < 2 ^ 32
  | [] => True

/-- `(sum & 0xFFFF) + (sum >> 16)`. -/
def foldTurn (sum : UInt32) : UInt32 := (sum &&& (0xFFFF : UInt32)) + (sum >>> (16 : UInt32))

theorem toNat_shiftRight_sixteen (sum : UInt32) : (sum >>> 16).toNat = sum.toNat / 65536 := by
  rw [UInt32.toNat_shiftRight]
  exact Nat.shiftRight_eq_div_pow _ _

theorem shiftRight_sixteen_ne_zero_iff (sum : UInt32) : sum >>> 16 ≠ 0 ↔ 65536 ≤ sum.toNat := by
  rw [ne_eq, ← UInt32.toNat_inj, toNat_shiftRight_sixteen, UInt32.toNat_zero]
  omega

theorem toNat_foldTurn (sum : UInt32) : (foldTurn sum).toNat = sum.toNat % 65536 + sum.toNat / 65536 := by
  have hand : (sum &&& 0xFFFF).toNat = sum.toNat % 65536 := by
    rw [UInt32.toNat_and]
    exact Nat.and_two_pow_sub_one_eq_mod _ 16
  have hlt := sum.toNat_lt
  rw [foldTurn, UInt32.toNat_add, hand, toNat_shiftRight_sixteen]
  omega

theorem toNat_foldTurn_lt {sum : UInt32} (h : sum >>> 16 ≠ 0) : (foldTurn sum).toNat < sum.toNat := by
  rw [shiftRight_sixteen_ne_zero_iff] at h
  rw [toNat_foldTurn]
  omega

/-- `while sum >> 16 != 0`: each turn lowers the sum. -/
def foldLoop (sum : UInt32) : UInt32 := if sum >>> 16 ≠ 0 then foldLoop (foldTurn sum) else sum
termination_by sum.toNat
decreasing_by exact toNat_foldTurn_lt ‹_›

/-- `ip_checksum`. -/
def ipChecksum (data : Bytes) : UInt16 := ~~~(foldLoop (accumulate 0 data)).toUInt16

/-- What `fragment_ipv4_into` does to a header once its other fields are written. -/
def writeChecksum (hdr : Bytes) : Bytes :=
  let hdr := (hdr.set 10 0).set 11 0
  let csum := ipChecksum hdr
  (hdr.set 10 (csum >>> 8).toUInt8).set 11 csum.toUInt8

/-! ### The sum -/

/-- The 16-bit words of the data. -/
def words : Bytes → List ℕ
  | hi :: lo :: rest => u16FromBe hi lo :: words rest
  | [hi] => [hi.toNat * 256]
  | [] => []

theorem u16FromBe_le (hi lo : UInt8) : u16FromBe hi lo ≤ 65535 := by
  have hhi := hi.toNat_lt
  have hlo := lo.toNat_lt
  rw [u16FromBe]
  omega

theorem sum_words : ∀ data : Bytes, (words data).sum = sumWords data
  | [] => rfl
  | [hi] => by rw [words, sumWords, List.sum_singleton]
  | hi :: lo :: rest => by rw [words, sumWords, List.sum_cons, sum_words rest]

theorem length_words : ∀ data : Bytes, (words data).length = (data.length + 1) / 2
  | [] => rfl
  | [_] => by simp [words]
  | _ :: _ :: rest => by
      rw [words, List.length_cons, length_words rest, List.length_cons, List.length_cons]
      omega

theorem words_le : ∀ data : Bytes, ∀ word ∈ words data, word ≤ 65535
  | [] => fun _ h => absurd h List.not_mem_nil
  | [hi] => by
      have hhi := hi.toNat_lt
      simp only [words, List.mem_singleton, forall_eq]
      omega
  | hi :: lo :: rest => List.forall_mem_cons.mpr ⟨u16FromBe_le hi lo, words_le rest⟩

theorem noOverflow_of_add_lt : ∀ (data : Bytes) {sum : ℕ}, sum + 65535 * ((data.length + 1) / 2) < 2 ^ 32 →
    NoOverflow sum data
  | [], _, _ => trivial
  | [hi], sum, h => by
      have hhi := hi.toNat_lt
      simp only [List.length_singleton] at h
      simp only [NoOverflow]
      omega
  | hi :: lo :: rest, sum, h => by
      have hword := u16FromBe_le hi lo
      simp only [List.length_cons] at h
      refine ⟨by omega, noOverflow_of_add_lt rest ?_⟩
      omega

/-- The accumulator of the longest input ends below `32768 * 65536`. -/
theorem noOverflow_of_length_le {data : Bytes} (h : data.length ≤ 65535) : NoOverflow 0 data := by
  apply noOverflow_of_add_lt
  omega

theorem toNat_accumulate : ∀ (data : Bytes) (sum : UInt32), NoOverflow sum.toNat data →
    (accumulate sum data).toNat = sum.toNat + sumWords data
  | [], _, _ => rfl
  | [hi], sum, h => by
      have hhi := hi.toNat_lt
      have hshift : (hi.toUInt32 <<< 8).toNat = hi.toNat * 256 := by
        rw [UInt32.toNat_shiftLeft]
        change hi.toNat <<< 8 % 2 ^ 32 = _
        rw [Nat.shiftLeft_eq]
        omega
      simp only [NoOverflow] at h
      rw [accumulate, UInt32.toNat_add, hshift, sumWords, Nat.mod_eq_of_lt h]
  | hi :: lo :: rest, sum, h => by
      have hword : (sum + UInt32.ofNat (u16FromBe hi lo)).toNat = sum.toNat + u16FromBe hi lo := by
        have hle := u16FromBe_le hi lo
        have hlt := h.1
        rw [UInt32.toNat_add, UInt32.toNat_ofNat']
        omega
      have hrest := toNat_accumulate rest (sum + UInt32.ofNat (u16FromBe hi lo)) (hword ▸ h.2)
      rw [accumulate, hrest, hword, sumWords, Nat.add_assoc]

/-! ### Folding the carries -/

theorem foldLoop_of_lt {sum : UInt32} (h : sum.toNat < 65536) : foldLoop sum = sum := by
  rw [foldLoop, if_neg]
  rw [shiftRight_sixteen_ne_zero_iff]
  omega

theorem foldLoop_of_ge {sum : UInt32} (h : 65536 ≤ sum.toNat) : foldLoop sum = foldLoop (foldTurn sum) := by
  rw [foldLoop, if_pos ((shiftRight_sixteen_ne_zero_iff sum).mpr h)]

/-- The loop ends after `turns` turns with `out`. -/
def Ends (sum : UInt32) (turns : ℕ) (out : UInt32) : Prop :=
  foldTurn^[turns] sum = out ∧ out >>> 16 = 0 ∧ ∀ earlier < turns, foldTurn^[earlier] sum >>> 16 ≠ 0

/-- A `u32` is folded in two turns at most. -/
theorem exists_ends (sum : UInt32) : ∃ turns ≤ 2, Ends sum turns (foldLoop sum) := by
  have hlt := sum.toNat_lt
  have hturn := toNat_foldTurn sum
  have hturn' := toNat_foldTurn (foldTurn sum)
  have hguard := shiftRight_sixteen_ne_zero_iff
  by_cases h : sum.toNat < 65536
  · refine ⟨0, by omega, (foldLoop_of_lt h).symm, ?_, by simp⟩
    rw [foldLoop_of_lt h]
    exact not_not.mp fun hne => absurd ((hguard sum).mp hne) (by omega)
  · have hge : sum >>> 16 ≠ 0 := (hguard sum).mpr (by omega)
    by_cases h' : (foldTurn sum).toNat < 65536
    · have hloop : foldLoop sum = foldTurn sum := by rw [foldLoop_of_ge (by omega), foldLoop_of_lt h']
      refine ⟨1, by omega, hloop.symm, ?_, fun earlier hearlier => ?_⟩
      · rw [hloop]
        exact not_not.mp fun hne => absurd ((hguard _).mp hne) (by omega)
      · obtain rfl : earlier = 0 := by omega
        exact hge
    · have h'' : (foldTurn (foldTurn sum)).toNat < 65536 := by omega
      have hloop : foldLoop sum = foldTurn (foldTurn sum) := by
        rw [foldLoop_of_ge (by omega), foldLoop_of_ge (by omega), foldLoop_of_lt h'']
      refine ⟨2, le_rfl, hloop.symm, ?_, fun earlier hearlier => ?_⟩
      · rw [hloop]
        exact not_not.mp fun hne => absurd ((hguard _).mp hne) (by omega)
      · rcases (by omega : earlier = 0 ∨ earlier = 1) with rfl | rfl
        · exact hge
        · exact (hguard (foldTurn sum)).mpr (not_lt.mp h')

theorem Ends.spec {sum out : UInt32} {turns : ℕ} (h : Ends sum turns out) :
    out.toNat < 65536 ∧ out.toNat ≡ sum.toNat [MOD 65535] ∧ (out.toNat = 0 ↔ sum.toNat = 0) := by
  obtain ⟨rfl, hguard, -⟩ := h
  have hlt : (foldTurn^[turns] sum).toNat < 65536 :=
    not_le.mp fun hge => (shiftRight_sixteen_ne_zero_iff _).mpr hge hguard
  refine ⟨hlt, ?_⟩
  clear hguard hlt
  induction turns with
  | zero => exact ⟨Nat.ModEq.refl _, Iff.rfl⟩
  | succ turns ih =>
    have hturn := toNat_foldTurn (foldTurn^[turns] sum)
    rw [Function.iterate_succ_apply', hturn]
    exact ⟨(OnesComplement.carry_modEq _).trans ih.1, (OnesComplement.carry_eq_zero_iff _).trans ih.2⟩

/-- The fuelled loop over numbers ends with the same sum. -/
theorem foldCarries_eq_foldLoop {fuel : ℕ} {sum : UInt32} (h : sum.toNat ≤ fuel) :
    foldCarries fuel sum.toNat = (foldLoop sum).toNat := by
  induction fuel generalizing sum with
  | zero => rw [foldCarries, foldLoop_of_lt (by omega)]
  | succ fuel ih =>
    rw [foldCarries]
    by_cases hge : 65536 ≤ sum.toNat
    · have hlower := toNat_foldTurn_lt ((shiftRight_sixteen_ne_zero_iff sum).mpr hge)
      rw [if_pos (by omega), ← toNat_foldTurn, ih (by omega), foldLoop_of_ge hge]
    · rw [if_neg (by omega), foldLoop_of_lt (by omega)]

/-! ### The checksum -/

section Result

variable {data : Bytes}

theorem toNat_accumulate_zero (h : data.length ≤ 65535) : (accumulate 0 data).toNat = sumWords data := by
  have hsum := toNat_accumulate data 0 (noOverflow_of_length_le h)
  rwa [UInt32.toNat_zero, Nat.zero_add] at hsum

theorem foldLoop_accumulate (h : data.length ≤ 65535) :
    (foldLoop (accumulate 0 data)).toNat < 65536 ∧
      (foldLoop (accumulate 0 data)).toNat ≡ sumWords data [MOD 65535] ∧
      ((foldLoop (accumulate 0 data)).toNat = 0 ↔ sumWords data = 0) := by
  obtain ⟨turns, -, hends⟩ := exists_ends (accumulate 0 data)
  have hspec := hends.spec
  rwa [toNat_accumulate_zero h] at hspec

theorem toNat_ipChecksum (h : data.length ≤ 65535) :
    (ipChecksum data).toNat = 65535 - (foldLoop (accumulate 0 data)).toNat := by
  have hlt := (foldLoop_accumulate h).1
  rw [ipChecksum, UInt16.toNat_not, UInt32.toNat_toUInt16, Nat.mod_eq_of_lt hlt]
  change 65536 - 1 - _ = _
  omega

/-- The model of the fragmenter computes the source's number. -/
theorem ipChecksum_eq (h : data.length ≤ 65535) : (ipChecksum data).toNat = Packet.ipChecksum data := by
  have hfold : foldCarries (sumWords data) (sumWords data) = (foldLoop (accumulate 0 data)).toNat := by
    rw [← toNat_accumulate_zero h]
    exact foldCarries_eq_foldLoop le_rfl
  rw [toNat_ipChecksum h, Packet.ipChecksum, hfold, Nat.mod_eq_of_lt (foldLoop_accumulate h).1]

end Result

/-- Words of an even number of bytes before other bytes. -/
theorem sumWords_append : ∀ {xs ys : Bytes}, xs.length % 2 = 0 → sumWords (xs ++ ys) = sumWords xs + sumWords ys
  | [], ys, _ => (Nat.zero_add _).symm
  | [_], _, h => absurd h (by simp)
  | hi :: lo :: xs, ys, h => by
      have heven : xs.length % 2 = 0 := by
        simp only [List.length_cons] at h
        omega
      rw [List.cons_append, List.cons_append, sumWords, sumWords, sumWords_append heven, Nat.add_assoc]

/-- The two bytes of a word of a header, written over. -/
theorem set_pair {xs ys : Bytes} {b c b' c' : UInt8} {i : ℕ} (h : xs.length = i) :
    ((xs ++ b :: c :: ys).set i b').set (i + 1) c' = xs ++ b' :: c' :: ys := by
  subst h
  rw [List.set_append_right _ _ le_rfl, List.set_append_right _ _ (Nat.le_succ _)]
  simp

/-- A header around its checksum field. -/
theorem exists_checksum_field {hdr : Bytes} (h : hdr.length = 20) :
    ∃ xs b c ys, xs.length = 10 ∧ ys.length = 8 ∧ hdr = xs ++ b :: c :: ys := by
  have hdrop : (hdr.drop 10).length = 10 := by
    rw [List.length_drop]
    omega
  obtain ⟨b, rest, hb⟩ := List.exists_cons_of_length_pos (l := hdr.drop 10) (by omega)
  rw [hb, List.length_cons] at hdrop
  obtain ⟨c, ys, rfl⟩ := List.exists_cons_of_length_pos (l := rest) (by omega)
  rw [List.length_cons] at hdrop
  refine ⟨hdr.take 10, b, c, ys, ?_, by omega, ?_⟩
  · rw [List.length_take]
    omega
  · rw [← hb, List.take_append_drop]

/-- The bytes a checksum is written as. -/
theorem toUInt8_checksum (csum : UInt16) :
    (csum >>> 8).toUInt8 = UInt8.ofNat (csum.toNat / 256) ∧ csum.toUInt8 = UInt8.ofNat csum.toNat := by
  constructor
  · apply UInt8.toNat.inj
    rw [UInt16.toNat_toUInt8, UInt16.toNat_shiftRight, UInt8.toNat_ofNat']
    change csum.toNat >>> 8 % 256 = _
    rw [Nat.shiftRight_eq_div_pow]
  · apply UInt8.toNat.inj
    rw [UInt16.toNat_toUInt8, UInt8.toNat_ofNat']

theorem u16FromBe_checksum (csum : UInt16) : u16FromBe (csum >>> 8).toUInt8 csum.toUInt8 = csum.toNat := by
  obtain ⟨hhi, hlo⟩ := toUInt8_checksum csum
  rw [hhi, hlo, u16FromBe_ofNat csum.toNat_lt]

theorem sum_words_writeChecksum {hdr : Bytes} (hlen : hdr.length = 20) :
    (words (writeChecksum hdr)).length = 10 ∧ OnesComplement.sum 0xFFFF (words (writeChecksum hdr)) = 0xFFFF := by
  obtain ⟨xs, b, c, ys, hxs, hys, rfl⟩ := exists_checksum_field hlen
  have hblank : ((xs ++ b :: c :: ys).set 10 0).set 11 0 = xs ++ 0 :: 0 :: ys := set_pair hxs
  have hblankLen : (xs ++ 0 :: 0 :: ys).length ≤ 65535 := by
    simp only [List.length_append, List.length_cons]
    omega
  have hwritten : writeChecksum (xs ++ b :: c :: ys) =
      xs ++ (ipChecksum (xs ++ 0 :: 0 :: ys) >>> 8).toUInt8 :: (ipChecksum (xs ++ 0 :: 0 :: ys)).toUInt8 :: ys := by
    rw [writeChecksum, hblank]
    exact set_pair hxs
  have hsum : sumWords (writeChecksum (xs ++ b :: c :: ys)) =
      sumWords (xs ++ 0 :: 0 :: ys) + (ipChecksum (xs ++ 0 :: 0 :: ys)).toNat := by
    have heven : xs.length % 2 = 0 := by omega
    rw [hwritten, sumWords_append heven, sumWords_append heven, sumWords, sumWords, u16FromBe_checksum]
    simp only [u16FromBe, UInt8.toNat_zero]
    omega
  obtain ⟨hlt, hmod, hzero⟩ := foldLoop_accumulate hblankLen
  rw [toNat_ipChecksum hblankLen] at hsum
  constructor
  · rw [length_words, hwritten, List.length_append, List.length_cons, List.length_cons, hxs, hys]
  · rw [OnesComplement.sum_eq_top_iff (by omega) (words_le _), sum_words, hsum]
    -- the folded sum and the plain one agree modulo 65535, and vanish together
    generalize sumWords (xs ++ 0 :: 0 :: ys) = plain at hmod hzero ⊢
    generalize (foldLoop (accumulate 0 (xs ++ 0 :: 0 :: ys))).toNat = folded at hlt hmod hzero ⊢
    rw [Nat.ModEq] at hmod
    omega

/-- **The header checksum**: a 20-byte header with its checksum written into it sums up to `0xFFFF` in one's
complement. The sum of up to 65535 bytes never overflows, and its carries are folded in at most two turns. -/
theorem ip_checksum_spec :
    (∀ hdr : Bytes, hdr.length = 20 →
      (words (writeChecksum hdr)).length = 10 ∧ OnesComplement.sum 0xFFFF (words (writeChecksum hdr)) = 0xFFFF) ∧
    ∀ data : Bytes, data.length ≤ 65535 →
      NoOverflow 0 data ∧ ∃ turns ≤ 2, Ends (accumulate 0 data) turns (foldLoop (accumulate 0 data)) := by
  refine ⟨fun hdr hlen => sum_words_writeChecksum hlen, fun data hlen => ?_⟩
  exact ⟨noOverflow_of_length_le hlen, exists_ends _⟩

/-- A header as a router would send it, with a checksum that has to fold a carry. -/
theorem ip_checksum_spec_header :
    OnesComplement.sum 0xFFFF (words (writeChecksum
      [0x45, 0, 0, 0x73, 0, 0, 0x40, 0, 0x40, 0x11, 1, 2, 0xc0, 0xa8, 0, 1, 0xc0, 0xa8, 0, 0xc7])) = 0xFFFF ∧
    NoOverflow 0 [0x45, 0, 0, 0x73] :=
  ⟨(ip_checksum_spec.1 _ rfl).2, (ip_checksum_spec.2 _ (by decide)).1⟩

/-! ### The fragmenter's headers -/

/-- Every fragment's header carries its checksum, so it sums up to `0xFFFF` too. -/
theorem sum_words_ipv4Fragment {packet : Bytes} (hlen : headerLen ≤ packet.length) (s : Pieces.Span) :
    OnesComplement.sum 0xFFFF (words ((ipv4Fragment packet s).take headerLen)) = 0xFFFF := by
  have hhdr : (uncheckedHeader packet s).length = 20 := by
    simp only [uncheckedHeader, List.length_set, List.length_take]
    exact Nat.min_eq_left hlen
  have hblank : ((uncheckedHeader packet s).set 10 0).set 11 0 = uncheckedHeader packet s := by
    rw [uncheckedHeader, List.set_comm 0 0 (by decide : 11 ≠ 10), List.set_set, List.set_set]
  have hwritten : (ipv4Fragment packet s).take headerLen = writeChecksum (uncheckedHeader packet s) := by
    obtain ⟨hhi, hlo⟩ := toUInt8_checksum (ipChecksum (uncheckedHeader packet s))
    rw [ipChecksum_eq (by omega)] at hhi hlo
    rw [writeChecksum, hblank, hhi, hlo, ipv4Fragment]
    exact List.take_left' (by simp only [List.length_set, hhdr, headerLen])
  rw [hwritten]
  exact (sum_words_writeChecksum hhdr).2

end Tetron.Packet.Checksum
