import Tetron.Bytes
import Mathlib

/-!
# Overlay addressing

The overlay subnet and the derivation of a peer's IPv4 address from its identity with FNV-1a. For
every usable subnet a derived address is inside the subnet and neither of its two reserved
addresses (`ensureInCgnatRange_deriveIpWithIndex`).

Arithmetic is that of a release build: a shift by 32 is a shift by 0, sums wrap.
-/

namespace Tetron

/-- What is used of an `EndpointId` besides equality: the UTF-8 bytes of its `Display` string, its key
bytes, and the public half of a secret key. -/
class Endpoint (Id : Type) where
  display : Id → Bytes
  asBytes : Id → Bytes
  publicKey : Bytes → Id

/-- The overlay subnet, by base address and prefix length. -/
structure Subnet where
  base : Ipv4Addr
  prefixLen : ℕ
deriving DecidableEq, Repr

/-- 10.88.0.0/24. -/
def defaultSubnet : Subnet := ⟨Ipv4Addr.new 10 88 0 0, 24⟩

def resolveSubnet (subnet : Option Subnet) : Subnet := subnet.getD defaultSubnet

def subnetHostMask (prefixLen : ℕ) : BitVec 32 :=
  if prefixLen ≥ 32 then 0 else (1 <<< ((32 - prefixLen) % 32)) - 1

/-- The network address: the base with its host bits cleared. -/
def Subnet.network (subnet : Subnet) : Ipv4Addr := subnet.base &&& ~~~subnetHostMask subnet.prefixLen

def ipInSubnet (ip : Ipv4Addr) (subnet : Subnet) : Bool :=
  (ip &&& ~~~subnetHostMask subnet.prefixLen) == subnet.network

def fnv1a (input : Bytes) : BitVec 32 :=
  input.foldl (fun hash b => (hash ^^^ b.toBitVec.zeroExtend 32) * 16777619) 2166136261

/-- The digits of `format!("{index}")`. -/
def decimal (index : ℕ) : Bytes := (Nat.toDigits 10 index).map fun c => UInt8.ofNat c.toNat

/-- The host part of an address: network and gateway (0 and 1) are reserved. -/
def hostBits (hash mask : BitVec 32) : BitVec 32 :=
  if hash &&& mask ≤ 1 then (hash &&& mask) + 2 else hash &&& mask

section Derive

variable {Id : Type} [Endpoint Id]

def deriveIpWithIndex (identity : Id) (index : ℕ) (subnet : Subnet) : Ipv4Addr :=
  let input :=
    if index = 0 then Endpoint.display identity else Endpoint.display identity ++ decimal index
  subnet.network ||| hostBits (fnv1a input) (subnetHostMask subnet.prefixLen)

def deriveIp (identity : Id) (subnet : Subnet) : Ipv4Addr := deriveIpWithIndex identity 0 subnet

end Derive

/-- `ensure_in_cgnat_range`, by whether it succeeds. -/
def ensureInCgnatRange (ip : Ipv4Addr) (subnet : Subnet) : Bool :=
  ipInSubnet ip subnet && ip != subnet.network && ip != subnet.network + 1

/-! ### Derived addresses are in range -/

/-- There is room for two reserved addresses and at least one host, and the mask does not wrap. -/
def Subnet.Usable (subnet : Subnet) : Prop := 1 ≤ subnet.prefixLen ∧ subnet.prefixLen ≤ 30

instance (subnet : Subnet) : Decidable subnet.Usable := inferInstanceAs (Decidable (_ ∧ _))

theorem toNat_subnetHostMask {prefixLen : ℕ} (h1 : 1 ≤ prefixLen) (h2 : prefixLen ≤ 32) :
    (subnetHostMask prefixLen).toNat = 2 ^ (32 - prefixLen) - 1 := by
  have hall : ∀ n < 33, 1 ≤ n → (subnetHostMask n).toNat = 2 ^ (32 - n) - 1 := by decide
  exact hall prefixLen (by omega) h1

theorem getLsbD_subnetHostMask {prefixLen : ℕ} (h1 : 1 ≤ prefixLen) (h2 : prefixLen ≤ 32) (i : ℕ) :
    (subnetHostMask prefixLen).getLsbD i = decide (i < 32 - prefixLen) := by
  rw [BitVec.getLsbD, toNat_subnetHostMask h1 h2, Nat.testBit_two_pow_sub_one]

theorem toNat_and_subnetHostMask (x : BitVec 32) {prefixLen : ℕ} (h1 : 1 ≤ prefixLen) (h2 : prefixLen ≤ 32) :
    (x &&& subnetHostMask prefixLen).toNat = x.toNat % 2 ^ (32 - prefixLen) := by
  rw [BitVec.toNat_and, toNat_subnetHostMask h1 h2, Nat.and_two_pow_sub_one_eq_mod]

theorem hostBits_of_two_le {hash mask : BitVec 32} (h : 2 ≤ (hash &&& mask).toNat) :
    hostBits hash mask = hash &&& mask := by
  rw [hostBits, if_neg]
  intro hle
  have hle : (hash &&& mask).toNat ≤ 1 := hle
  omega

/-- The host part fits under the mask and is none of the reserved two. -/
theorem hostBits_spec (hash : BitVec 32) {prefixLen : ℕ} (h1 : 1 ≤ prefixLen) (h2 : prefixLen ≤ 30) :
    2 ≤ (hostBits hash (subnetHostMask prefixLen)).toNat ∧
      (hostBits hash (subnetHostMask prefixLen)).toNat < 2 ^ (32 - prefixLen) := by
  have hfour : 2 ^ 2 ≤ 2 ^ (32 - prefixLen) := Nat.pow_le_pow_right (by omega) (by omega)
  have hlt : (hash &&& subnetHostMask prefixLen).toNat < 2 ^ (32 - prefixLen) := by
    rw [toNat_and_subnetHostMask hash h1 (by omega)]
    exact Nat.mod_lt _ (by omega)
  by_cases hle : (hash &&& subnetHostMask prefixLen).toNat ≤ 1
  · have hle' : hash &&& subnetHostMask prefixLen ≤ 1 := hle
    have hadd : ((hash &&& subnetHostMask prefixLen) + 2).toNat =
        (hash &&& subnetHostMask prefixLen).toNat + 2 := by
      rw [BitVec.toNat_add]
      exact Nat.mod_eq_of_lt (show (hash &&& subnetHostMask prefixLen).toNat + 2 < 2 ^ 32 by omega)
    rw [hostBits, if_pos hle']
    omega
  · rw [hostBits_of_two_le (by omega)]
    omega

section InRange

variable {network host mask : BitVec 32} {k : ℕ}

theorem getLsbD_of_and_mask (hmask : ∀ i, mask.getLsbD i = decide (i < k)) (hnet : network &&& mask = 0)
    {i : ℕ} (hi : i < k) : network.getLsbD i = false := by
  have hbit : (network &&& mask).getLsbD i = false := by rw [hnet]; exact BitVec.getLsbD_zero
  rwa [BitVec.getLsbD_and, hmask, decide_eq_true hi, Bool.and_true] at hbit

/-- An address put together from a network part above bit `k` and a host part below it. -/
theorem or_and_mask (hmask : ∀ i, mask.getLsbD i = decide (i < k)) (hhost : host.toNat < 2 ^ k)
    (hnet : network &&& mask = 0) :
    (network ||| host) &&& mask = host ∧ (network ||| host) &&& ~~~mask = network := by
  have hbits : ∀ i, ¬ i < k → host.getLsbD i = false := fun i hi =>
    Nat.testBit_lt_two_pow (hhost.trans_le (Nat.pow_le_pow_right (by omega) (not_lt.mp hi)))
  constructor
  · apply BitVec.eq_of_getLsbD_eq
    intro i _
    rw [BitVec.getLsbD_and, BitVec.getLsbD_or, hmask]
    by_cases hi : i < k
    · rw [getLsbD_of_and_mask hmask hnet hi, decide_eq_true hi, Bool.false_or, Bool.and_true]
    · rw [hbits i hi, decide_eq_false hi, Bool.and_false]
  · apply BitVec.eq_of_getLsbD_eq
    intro i hi32
    rw [BitVec.getLsbD_and, BitVec.getLsbD_or, BitVec.getLsbD_not, hmask, decide_eq_true hi32]
    by_cases hi : i < k
    · rw [getLsbD_of_and_mask hmask hnet hi, decide_eq_true hi, Bool.not_true, Bool.and_false, Bool.and_false]
    · rw [hbits i hi, decide_eq_false hi, Bool.or_false, Bool.not_false, Bool.and_true, Bool.and_true]

end InRange

theorem Subnet.network_and_mask (subnet : Subnet) : subnet.network &&& subnetHostMask subnet.prefixLen = 0 := by
  rw [Subnet.network, BitVec.and_assoc, BitVec.not_and_self]
  exact BitVec.and_zero

/-- The gateway is the network address with its last bit set. -/
theorem Subnet.network_add_one {subnet : Subnet} (h : subnet.Usable) : subnet.network + 1 = subnet.network ||| 1 := by
  obtain ⟨h1, h2⟩ := h
  apply BitVec.add_eq_or_of_and_eq_zero
  apply BitVec.eq_of_getLsbD_eq
  intro i _
  rw [BitVec.getLsbD_and, BitVec.getLsbD_zero]
  rcases Nat.eq_zero_or_pos i with rfl | hi
  · rw [getLsbD_of_and_mask (getLsbD_subnetHostMask h1 (by omega)) subnet.network_and_mask (by omega), Bool.false_and]
  · have hbit : (1 : BitVec 32).getLsbD i = false := by
      simp [BitVec.getLsbD_one, show i ≠ 0 by omega]
    rw [hbit, Bool.and_false]

theorem ensureInCgnatRange_deriveIpWithIndex {Id : Type} [Endpoint Id] (identity : Id) (index : ℕ)
    {subnet : Subnet} (h : subnet.Usable) :
    ensureInCgnatRange (deriveIpWithIndex identity index subnet) subnet = true := by
  have hone := subnet.network_add_one h
  have hnet := subnet.network_and_mask
  obtain ⟨h1, h2⟩ := h
  have hmask := getLsbD_subnetHostMask h1 (show subnet.prefixLen ≤ 32 by omega)
  generalize hhost : hostBits (fnv1a (if index = 0 then Endpoint.display identity
    else Endpoint.display identity ++ decimal index)) (subnetHostMask subnet.prefixLen) = host
  obtain ⟨hge, hlt⟩ := hhost ▸ hostBits_spec _ h1 h2
  obtain ⟨hlow, hhigh⟩ := or_and_mask hmask hlt hnet
  have hip : deriveIpWithIndex identity index subnet = subnet.network ||| host := by
    rw [← hhost, deriveIpWithIndex]
  -- the two reserved addresses differ from the derived one in their host parts
  have hne : subnet.network ||| host ≠ subnet.network := by
    intro heq
    rw [heq, hnet] at hlow
    rw [← hlow] at hge
    simp at hge
  have hne1 : subnet.network ||| host ≠ subnet.network + 1 := by
    intro heq
    have hpow : 2 ^ 1 ≤ 2 ^ (32 - subnet.prefixLen) := Nat.pow_le_pow_right (by omega) (by omega)
    have hlt1 : (1 : BitVec 32).toNat < 2 ^ (32 - subnet.prefixLen) := by
      rw [show (1 : BitVec 32).toNat = 1 from rfl]
      omega
    have hlow1 := (or_and_mask hmask hlt1 hnet).1
    rw [heq, hone, hlow1] at hlow
    rw [← hlow] at hge
    simp at hge
  rw [ensureInCgnatRange, ipInSubnet, hip, hhigh, beq_self_eq_true, bne_iff_ne.mpr hne,
    bne_iff_ne.mpr hne1]
  rfl

end Tetron
