import Mathlib.Data.List.Basic
import Mathlib.Data.Fintype.Basic
import Mathlib.Data.String.Basic

/-!
# Bytes, big-endian words and addresses

Packets are byte lists. The source indexes them only behind a length test, so an index out of
range (where the source would panic) reads `0` here and is never reached. A `u16` that is only
compared and added is a natural number below `2 ^ 16`; `u16ToBe` keeps the truncation of
`as u16`.
-/

namespace Tetron

abbrev Bytes := List UInt8

/-- `packet[i]`. -/
def byteAt (p : Bytes) (i : ℕ) : UInt8 := p.getD i 0

/-- `u16::from_be_bytes([hi, lo])`. -/
def u16FromBe (hi lo : UInt8) : ℕ := hi.toNat * 256 + lo.toNat

/-- `(n as u16).to_be_bytes()`. -/
def u16ToBe (n : ℕ) : Bytes := [UInt8.ofNat (n / 256), UInt8.ofNat n]

/-- `u32::from_be_bytes([a, b, c, d])`. -/
def u32FromBe (a b c d : UInt8) : UInt32 :=
  UInt32.ofNat (((a.toNat * 256 + b.toNat) * 256 + c.toNat) * 256 + d.toNat)

/-- `id.to_be_bytes()`. -/
def u32ToBe (n : UInt32) : Bytes :=
  [UInt8.ofNat (n.toNat / 2 ^ 24), UInt8.ofNat (n.toNat / 2 ^ 16), UInt8.ofNat (n.toNat / 2 ^ 8),
    UInt8.ofNat n.toNat]

/-- `std::str::from_utf8`. -/
def fromUtf8 (b : Bytes) : Option String := String.fromUTF8? ⟨b.toArray⟩

theorem fromUtf8_toUTF8 (s : String) : fromUtf8 s.toUTF8.data.toList = some s := by
  have hvalid : s.toUTF8.IsValidUTF8 := s.isValidUTF8
  simp only [fromUtf8, Array.toArray_toList, String.fromUTF8?]
  rw [dif_pos hvalid]
  rfl

theorem utf8Len_of_utf8Size_eq_one {cs : List Char} (h : ∀ c ∈ cs, c.utf8Size = 1) :
    String.utf8Len cs = cs.length := by
  induction cs with
  | nil => rfl
  | cons c cs ih =>
    rw [String.utf8Len_cons, h c List.mem_cons_self, ih fun c' hc' => h c' (List.mem_cons_of_mem _ hc'),
      List.length_cons]

/-- A property of bytes may be checked number by number. -/
theorem forall_byte {Q : UInt8 → Prop} (h : ∀ n < 256, Q (UInt8.ofNat n)) (b : UInt8) : Q b := by
  rw [← UInt8.ofNat_toNat (x := b)]
  exact h _ b.toNat_lt

theorem u16FromBe_ofNat {n : ℕ} (h : n < 65536) :
    u16FromBe (UInt8.ofNat (n / 256)) (UInt8.ofNat n) = n := by
  simp only [u16FromBe, UInt8.toNat_ofNat']
  omega

theorem u32FromBe_ofNat (n : UInt32) :
    u32FromBe (UInt8.ofNat (n.toNat / 2 ^ 24)) (UInt8.ofNat (n.toNat / 2 ^ 16))
      (UInt8.ofNat (n.toNat / 2 ^ 8)) (UInt8.ofNat n.toNat) = n := by
  have hn := n.toNat_lt
  apply UInt32.toNat.inj
  simp only [u32FromBe, UInt8.toNat_ofNat', UInt32.toNat_ofNat']
  omega

/-- `Ipv4Addr`, as the 32-bit word the source converts it to and from. -/
abbrev Ipv4Addr := BitVec 32

/-- `Ipv4Addr::new(a, b, c, d)`. -/
def Ipv4Addr.new (a b c d : UInt8) : Ipv4Addr :=
  a.toBitVec ++ b.toBitVec ++ c.toBitVec ++ d.toBitVec

/-- `Ipv6Addr`, by its octets. -/
abbrev Ipv6Addr := Fin 16 → UInt8

inductive IpAddr where
  | v4 (addr : Ipv4Addr)
  | v6 (addr : Ipv6Addr)
deriving DecidableEq

end Tetron
