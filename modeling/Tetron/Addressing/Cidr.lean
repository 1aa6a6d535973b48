import Tetron.Addressing.Subnets

/-!
# Subnets from their text

`parse_cidr` reads a subnet from the `--subnet` option of `create` and from the configuration. It takes
every prefix length up to 32, also those that leave no room for a host beside the network and the gateway
address, and zero, for which the shift of the host mask wraps. Addresses derived in such a subnet are
outside it or reserved. It takes a base with host bits as well, and the TUN's gateway, which follows that base, is
then an address like any other (`derived_in_parsed_subnet_iff`).
-/

namespace Tetron

/-! ### Numbers and addresses as the standard library reads them -/

/-- `char::is_whitespace`. -/
def isWhitespace (c : Char) : Bool :=
  let n := c.toNat
  (9 ≤ n && n ≤ 13) || n == 0x20 || n == 0x85 || n == 0xA0 || n == 0x1680 || (0x2000 ≤ n && n ≤ 0x200A) ||
    n == 0x2028 || n == 0x2029 || n == 0x202F || n == 0x205F || n == 0x3000

/-- `str::trim`. -/
def trim (text : List Char) : List Char :=
  ((text.dropWhile isWhitespace).reverse.dropWhile isWhitespace).reverse

inductive ParseIntError
  | empty
  | invalidDigit
  | posOverflow
deriving DecidableEq

def ParseIntError.text : ParseIntError → String
  | .empty => "cannot parse integer from empty string"
  | .invalidDigit => "invalid digit found in string"
  | .posOverflow => "number too large to fit in target type"

def pushU8 (n : ℕ) (c : Char) : Except ParseIntError ℕ :=
  if c.isDigit then
    if 10 * n + (c.toNat - 48) < 256 then .ok (10 * n + (c.toNat - 48)) else .error .posOverflow
  else .error .invalidDigit

/-- `str::parse::<u8>`; a plus sign may come first. -/
def parseU8 : List Char → Except ParseIntError ℕ
  | [] => .error .empty
  | ['+'] => .error .invalidDigit
  | '+' :: digits => digits.foldlM pushU8 0
  | digits => digits.foldlM pushU8 0

/-- One number of a dotted quad: up to three digits, and no leading zero. -/
def parseOctet (digits : List Char) : Option UInt8 :=
  if digits = [] || 3 < digits.length || (digits.head? = some '0' && 1 < digits.length) then none
  else (digits.foldlM pushU8 0).toOption.map UInt8.ofNat

/-- `str::parse::<Ipv4Addr>`. -/
def parseIpv4 (text : List Char) : Option Ipv4Addr :=
  match text.splitOn '.' with
  | [a, b, c, d] => do
      let a ← parseOctet a
      let b ← parseOctet b
      let c ← parseOctet c
      let d ← parseOctet d
      return Ipv4Addr.new a b c d
  | _ => none

/-- `split_once`. -/
def splitOnce (separator : Char) (text : List Char) : Option (List Char × List Char) :=
  match text.span (· ≠ separator) with
  | (before, _ :: after) => some (before, after)
  | (_, []) => none

/-! ### Subnets -/

def parseCidr (s : String) : Except String Subnet :=
  match splitOnce '/' s.toList with
  | none => .error "subnet must be CIDR base/prefix, e.g. 10.88.0.0/16"
  | some (base, prefixText) =>
    match parseIpv4 (trim base) with
    | none => .error ("bad subnet base address: " ++ "invalid IPv4 address syntax")
    | some base =>
      match parseU8 (trim prefixText) with
      | .error e => .error ("bad subnet prefix length: " ++ e.text)
      | .ok prefixLen =>
        if prefixLen ≤ 32 then .ok ⟨base, prefixLen⟩ else .error "subnet prefix must be 0..=32"

/-- The subnet of a `Create` request, as `handle_request` passes it on. -/
def requestedSubnet : Option String → Except String (Option Subnet)
  | none => .ok none
  | some text =>
    match parseCidr text with
    | .ok subnet => .ok (some subnet)
    | .error e => .error ("invalid --subnet: " ++ e)

/-- The `subnet` key of the configuration, set to the entries given; a reset goes back to the default. -/
def configuredSubnet (entries : List String) (reset : Bool) : Except String (Option Subnet) :=
  if reset then .ok none
  else
    match entries with
    | [text] => (parseCidr text).map some
    | _ => .error "subnet takes a single CIDR, e.g. 10.88.0.0/16"

theorem prefixLen_of_parseCidr {s : String} {subnet : Subnet} (h : parseCidr s = .ok subnet) :
    subnet.prefixLen ≤ 32 := by
  unfold parseCidr at h
  split at h
  · cases h
  · split at h
    · cases h
    · split at h
      · cases h
      · split at h
        · rename_i hle
          cases h
          exact hle
        · cases h

example : parseCidr " 10.99.0.0 /16" = .ok ⟨Ipv4Addr.new 10 99 0 0, 16⟩ := by decide +kernel
example : parseCidr "10.0.0.0/256" = .error "bad subnet prefix length: number too large to fit in target type" := by
  decide +kernel

/-! ### Derived addresses at the extreme prefix lengths -/

/-- No host bits: the offset of two falls into the network bits, or changes nothing. -/
theorem not_host_of_mask_zero (base hash : BitVec 32) :
    ¬ ((base ||| hostBits hash 0) &&& ~~~0 = base ∧ base ||| hostBits hash 0 ≠ base) := by
  have hones : ~~~(0 : BitVec 32) = BitVec.allOnes 32 := rfl
  rw [hones, BitVec.and_allOnes]
  exact fun h => h.2 h.1

/-- One host bit: the same, and what is left of the offset is the gateway. -/
theorem not_host_of_mask_one {network : BitVec 32} (hash : BitVec 32) (hnet : network &&& 1 = 0) :
    ¬ ((network ||| hostBits hash 1) &&& ~~~1 = network ∧ network ||| hostBits hash 1 ≠ network ∧
      network ||| hostBits hash 1 ≠ network + 1) := by
  rintro ⟨hin, hne, hgateway⟩
  have hself : network &&& ~~~1 = network := by
    have hparts := or_and_mask_self network 1
    rw [hnet] at hparts
    exact BitVec.or_zero.symm.trans hparts
  rw [BitVec.add_eq_or_of_and_eq_zero _ _ hnet] at hgateway
  have hbit : hash &&& 1 = 0 ∨ hash &&& 1 = 1 := by
    have hlt : (hash &&& 1).toNat < 2 := by
      rw [BitVec.toNat_and, show (1 : BitVec 32).toNat = 2 ^ 1 - 1 from rfl, Nat.and_two_pow_sub_one_eq_mod]
      omega
    rcases Nat.lt_or_ge (hash &&& 1).toNat 1 with h0 | h1
    · exact Or.inl (BitVec.eq_of_toNat_eq (show _ = 0 by omega))
    · exact Or.inr (BitVec.eq_of_toNat_eq (show _ = 1 by omega))
  rw [BitVec.and_or_distrib_right, hself] at hin
  rcases hbit with hbit | hbit
  · have hhost : hostBits hash 1 = 2 := by rw [hostBits, hbit]; decide
    rw [hhost] at hin hne
    exact hne hin
  · have hhost : hostBits hash 1 = 3 := by rw [hostBits, hbit]; decide
    have hthree : (3 : BitVec 32) = (3 &&& ~~~1) ||| 1 := by decide
    rw [hhost] at hin hgateway
    apply hgateway
    calc network ||| 3 = network ||| ((3 &&& ~~~1) ||| 1) := by rw [← hthree]
      _ = network ||| 1 := by rw [← BitVec.or_assoc, hin]

section Parsed

variable {Id : Type} [Endpoint Id]

/-- A derived address is a host address of its subnet exactly in the usable subnets, of those that have at
most 32 network bits. -/
theorem deriveIpWithIndex_host_iff (identity : Id) (index : ℕ) {subnet : Subnet} (h32 : subnet.prefixLen ≤ 32) :
    (ipInSubnet (deriveIpWithIndex identity index subnet) subnet = true ∧
        deriveIpWithIndex identity index subnet ≠ subnet.network ∧
        deriveIpWithIndex identity index subnet ≠ subnet.network + 1) ↔ subnet.Usable := by
  constructor
  · rw [ipInSubnet, beq_iff_eq, deriveIpWithIndex]
    generalize fnv1a (if index = 0 then Endpoint.display identity
      else Endpoint.display identity ++ decimal index) = hash
    have hnet := subnet.network_and_mask
    rintro ⟨hin, hne, hgateway⟩
    by_contra hunusable
    have hcases : subnet.prefixLen = 0 ∨ subnet.prefixLen = 31 ∨ subnet.prefixLen = 32 := by
      unfold Subnet.Usable at hunusable
      omega
    rcases hcases with hlen | hlen | hlen
    · rw [hlen, show subnetHostMask 0 = 0 by decide] at hin hne
      exact not_host_of_mask_zero subnet.network hash ⟨hin, hne⟩
    · rw [hlen, show subnetHostMask 31 = 1 by decide] at hin hne hgateway hnet
      exact not_host_of_mask_one hash hnet ⟨hin, hne, hgateway⟩
    · rw [hlen, show subnetHostMask 32 = 0 by decide] at hin hne
      exact not_host_of_mask_zero subnet.network hash ⟨hin, hne⟩
  · intro husable
    have hrange := ensureInCgnatRange_deriveIpWithIndex identity index husable
    simpa only [ensureInCgnatRange, Bool.and_eq_true, bne_iff_ne, and_assoc] using hrange

/-- The base as written has no host bits, or all of them: the address after it is the reserved one or lies
outside. -/
def Subnet.AtEdge (subnet : Subnet) : Prop :=
  subnet.base &&& subnetHostMask subnet.prefixLen = 0 ∨
    subnet.base &&& subnetHostMask subnet.prefixLen = subnetHostMask subnet.prefixLen

instance (subnet : Subnet) : Decidable subnet.AtEdge := inferInstanceAs (Decidable (_ ∨ _))

/-- In a space of 2 ^ 32 addresses cut into blocks, the next address is in the same block and none of its first two
exactly if this one is neither the first nor the last of it. -/
theorem succ_in_block_iff {size blocks base : ℕ} (hfour : 4 ≤ size) (hblocks : size * blocks = 2 ^ 32)
    (hlt : base < 2 ^ 32) :
    (((base + 1) % 2 ^ 32 / size = base / size ∧ ¬ (base + 1) % 2 ^ 32 = size * (base / size)) ∧
        ¬ (base + 1) % 2 ^ 32 = (size * (base / size) + 1) % 2 ^ 32) ↔
      ¬ (base % size = 0 ∨ base % size = size - 1) := by
  obtain ⟨number, host, hhost, rfl⟩ : ∃ number host, host < size ∧ base = size * number + host :=
    ⟨base / size, base % size, Nat.mod_lt _ (by omega), (Nat.div_add_mod base size).symm⟩
  have hdiv : (size * number + host) / size = number := by
    rw [Nat.mul_add_div (by omega), Nat.div_eq_of_lt hhost, Nat.add_zero]
  have hmod : (size * number + host) % size = host := by
    rw [Nat.mul_add_mod, Nat.mod_eq_of_lt hhost]
  have hnumber : number < blocks := by
    by_contra hge
    have hmul := Nat.mul_le_mul_left size (not_lt.mp hge)
    omega
  have hnext : size * (number + 1) ≤ size * blocks := Nat.mul_le_mul_left size hnumber
  rw [Nat.mul_add, Nat.mul_one] at hnext
  rw [hdiv, hmod, Nat.mod_eq_of_lt (show size * number + 1 < 2 ^ 32 by omega)]
  by_cases hlast : host = size - 1
  · -- the next block, or back at the first
    refine iff_of_false ?_ (fun hne => hne (Or.inr hlast))
    rintro ⟨⟨hsame, hne⟩, -⟩
    rcases Nat.lt_or_ge (size * number + host + 1) (2 ^ 32) with hinside | hwrap
    · rw [Nat.mod_eq_of_lt hinside, show size * number + host + 1 = size * (number + 1) by
        rw [Nat.mul_add, Nat.mul_one]; omega, Nat.mul_div_cancel_left _ (by omega)] at hsame
      omega
    · have hzero : (size * number + host + 1) % 2 ^ 32 = 0 := by
        rw [show size * number + host + 1 = 2 ^ 32 by omega, Nat.mod_self]
      rw [hzero, Nat.zero_div] at hsame
      rw [hzero, ← hsame, Nat.mul_zero] at hne
      exact hne rfl
  · have hinside : (size * number + host + 1) % 2 ^ 32 = size * number + (host + 1) := Nat.mod_eq_of_lt (by omega)
    rw [hinside, Nat.mul_add_div (by omega), Nat.div_eq_of_lt (show host + 1 < size by omega)]
    omega

/-- The TUN's gateway, one after the base as written, is an ordinary host address unless the base is at an edge
of its subnet. -/
theorem ensureInCgnatRange_subnetGateway {subnet : Subnet} (h : subnet.Usable) :
    ensureInCgnatRange (subnetGateway subnet) subnet = true ↔ ¬ subnet.AtEdge := by
  obtain ⟨h1, h30⟩ := h
  have h32 : subnet.prefixLen ≤ 32 := by omega
  have hedge : subnet.AtEdge ↔ subnet.base.toNat % 2 ^ (32 - subnet.prefixLen) = 0 ∨
      subnet.base.toNat % 2 ^ (32 - subnet.prefixLen) = 2 ^ (32 - subnet.prefixLen) - 1 := by
    unfold Subnet.AtEdge
    rw [← BitVec.toNat_inj, ← BitVec.toNat_inj, toNat_and_subnetHostMask _ h1 h32, toNat_subnetHostMask h1 h32]
    rfl
  have hnetwork : subnet.network.toNat =
      2 ^ (32 - subnet.prefixLen) * (subnet.base.toNat / 2 ^ (32 - subnet.prefixLen)) :=
    toNat_and_not_subnetHostMask subnet.base h1 h32
  have hgateway : (subnetGateway subnet).toNat = (subnet.base.toNat + 1) % 2 ^ 32 := BitVec.toNat_add _ _
  rw [ensureInCgnatRange, Bool.and_eq_true, Bool.and_eq_true, bne_iff_ne, bne_iff_ne,
    ipInSubnet_iff ⟨h1, h32⟩, hedge, ne_eq, ne_eq, ← BitVec.toNat_inj, ← BitVec.toNat_inj, BitVec.toNat_add,
    hnetwork, hgateway, show (1 : BitVec 32).toNat = 1 from rfl]
  have hfour : 2 ^ 2 ≤ 2 ^ (32 - subnet.prefixLen) := Nat.pow_le_pow_right (by omega) (by omega)
  have hblocks : 2 ^ (32 - subnet.prefixLen) * 2 ^ subnet.prefixLen = 2 ^ 32 := by
    rw [← pow_add, Nat.sub_add_cancel h32]
  exact succ_in_block_iff hfour hblocks subnet.base.isLt

/-- In a subnet of at most 256 addresses, every identity derives the TUN's gateway under some collision index,
unless the base is at an edge of the subnet. -/
theorem deriveIpWithIndex_ne_subnetGateway_iff (identity : Id) {subnet : Subnet} (h24 : 24 ≤ subnet.prefixLen)
    (h30 : subnet.prefixLen ≤ 30) :
    (∀ index < 2 ^ 32, deriveIpWithIndex identity index subnet ≠ subnetGateway subnet) ↔ subnet.AtEdge := by
  have husable : subnet.Usable := ⟨by omega, h30⟩
  constructor
  · intro hne
    by_contra hinside
    obtain ⟨index, hindex, heq⟩ :=
      exists_deriveIpWithIndex_eq identity h24 h30 ((ensureInCgnatRange_subnetGateway husable).mpr hinside)
    exact hne index hindex heq
  · intro hedge index _ heq
    have hrange := ensureInCgnatRange_deriveIpWithIndex identity index husable
    rw [heq] at hrange
    exact (ensureInCgnatRange_subnetGateway husable).mp hrange hedge

/-- **Addresses in parsed subnets**: the text goes through as it is, and what is derived in its subnet is an
address of the subnet other than the network address and the one after it exactly for prefixes from 1 to 30. It
is not the gateway the TUN takes either if the base is written at an edge of the subnet; otherwise, in a
subnet of up to 256 addresses, every identity comes to it. -/
theorem derived_in_parsed_subnet_iff {cidr : String} {subnet : Subnet} (h : parseCidr cidr = .ok subnet)
    (identity : Id) :
    requestedSubnet (some cidr) = .ok (some subnet) ∧ configuredSubnet [cidr] false = .ok (some subnet) ∧
      (∀ index, (ipInSubnet (deriveIpWithIndex identity index subnet) subnet = true ∧
          deriveIpWithIndex identity index subnet ≠ subnet.network ∧
          deriveIpWithIndex identity index subnet ≠ subnet.network + 1) ↔
        1 ≤ subnet.prefixLen ∧ subnet.prefixLen ≤ 30) ∧
      (1 ≤ subnet.prefixLen → subnet.prefixLen ≤ 30 → subnet.AtEdge →
        ∀ index, deriveIpWithIndex identity index subnet ≠ subnetGateway subnet) ∧
      (24 ≤ subnet.prefixLen → subnet.prefixLen ≤ 30 →
        ((∀ index < 2 ^ 32, deriveIpWithIndex identity index subnet ≠ subnetGateway subnet) ↔ subnet.AtEdge)) := by
  refine ⟨?_, ?_, fun index => deriveIpWithIndex_host_iff identity index (prefixLen_of_parseCidr h), ?_,
    deriveIpWithIndex_ne_subnetGateway_iff identity⟩
  · rw [requestedSubnet, h]
  · rw [configuredSubnet, if_neg (by decide), h]
    rfl
  · intro h1 h30 hedge index heq
    have hrange := ensureInCgnatRange_deriveIpWithIndex identity index ⟨h1, h30⟩
    rw [heq] at hrange
    exact (ensureInCgnatRange_subnetGateway ⟨h1, h30⟩).mp hrange hedge

end Parsed

end Tetron

namespace Tetron.Cidr

/-- An identity that is its own text. -/
scoped instance : Endpoint Bytes := ⟨id, id, id⟩

/-- The identity with the text "a". -/
def someone : Bytes := [97]

theorem derived_in_parsed_subnet_default :
    parseCidr "10.88.0.0/24" = .ok defaultSubnet ∧ ipInSubnet (deriveIp someone defaultSubnet) defaultSubnet = true ∧
      deriveIp someone defaultSubnet ≠ defaultSubnet.network ∧
      deriveIp someone defaultSubnet ≠ defaultSubnet.network + 1 ∧
      deriveIp someone defaultSubnet ≠ subnetGateway defaultSubnet := by
  have hparse : parseCidr "10.88.0.0/24" = .ok defaultSubnet := by decide +kernel
  obtain ⟨-, -, hhost, hgateway, -⟩ := derived_in_parsed_subnet_iff hparse someone
  obtain ⟨hin, hnetwork, hone⟩ := (hhost 0).mpr (by decide)
  exact ⟨hparse, hin, hnetwork, hone, hgateway (by decide) (by decide) (by decide) 0⟩

/-- 10.0.0.0/31, 10.0.0.0/32 and 10.0.0.0/0 are accepted, and the addresses derived there, 10.0.0.2 and
10.0.0.3, are outside. 10.88.0.43/24 is accepted too, and the address derived there is 10.88.0.44, the gateway. -/
theorem derived_outside_extreme_prefixes :
    (parseCidr "10.0.0.0/31" = .ok ⟨Ipv4Addr.new 10 0 0 0, 31⟩ ∧
        ipInSubnet (deriveIp someone ⟨Ipv4Addr.new 10 0 0 0, 31⟩) ⟨Ipv4Addr.new 10 0 0 0, 31⟩ = false) ∧
      (parseCidr "10.0.0.0/32" = .ok ⟨Ipv4Addr.new 10 0 0 0, 32⟩ ∧
        ipInSubnet (deriveIp someone ⟨Ipv4Addr.new 10 0 0 0, 32⟩) ⟨Ipv4Addr.new 10 0 0 0, 32⟩ = false) ∧
      (parseCidr "10.0.0.0/0" = .ok ⟨Ipv4Addr.new 10 0 0 0, 0⟩ ∧
        ipInSubnet (deriveIp someone ⟨Ipv4Addr.new 10 0 0 0, 0⟩) ⟨Ipv4Addr.new 10 0 0 0, 0⟩ = false) ∧
      parseCidr "10.88.0.43/24" = .ok ⟨Ipv4Addr.new 10 88 0 43, 24⟩ ∧
        deriveIp someone ⟨Ipv4Addr.new 10 88 0 43, 24⟩ = Ipv4Addr.new 10 88 0 44 ∧
        subnetGateway ⟨Ipv4Addr.new 10 88 0 43, 24⟩ = Ipv4Addr.new 10 88 0 44 := by
  decide +kernel

end Tetron.Cidr
