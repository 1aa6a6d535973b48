import Tetron.Addressing.HostRange

/-!
# Subnets side by side

A node gives every network a subnet of its own. Two subnets overlap if their bases agree in the network bits
of the shorter prefix; read as numbers, those bits are a quotient, and the overlap is that of two blocks of
addresses (`subnetsOverlap_iff_exists`).

`next_available_subnet` walks from a candidate in steps of the candidate's size and gives up after 4096 of
them. It finds a free block exactly if there is one that close (`next_available_subnet_iff`); the steps an
existing subnet can take up are the blocks of the candidate's size in it
(`nextAvailableSubnet_free_of_covered`).
-/

namespace Tetron

/-- The address the TUN is given as its gateway. -/
def subnetGateway (subnet : Subnet) : Ipv4Addr := subnet.base + 1

/-- Network bits compared at the shorter prefix. -/
def subnetsOverlap (a b : Subnet) : Bool :=
  let hostMask := subnetHostMask (min a.prefixLen b.prefixLen)
  (a.base &&& ~~~hostMask) == (b.base &&& ~~~hostMask)

/-- The first existing subnet that overlaps the candidate. -/
def findSubnetCollision (candidate : Subnet) (existing : List Subnet) : Option Subnet :=
  existing.find? fun e => subnetsOverlap e candidate

/-- The prefix lengths for which the mask is that of the prefix. -/
def Subnet.Proper (subnet : Subnet) : Prop := 1 ≤ subnet.prefixLen ∧ subnet.prefixLen ≤ 32

instance (subnet : Subnet) : Decidable subnet.Proper := inferInstanceAs (Decidable (_ ∧ _))

/-! ### Network bits as quotients -/

section Quotients

variable {prefixLen : ℕ}

theorem toNat_and_not_subnetHostMask (x : BitVec 32) (h1 : 1 ≤ prefixLen) (h2 : prefixLen ≤ 32) :
    (x &&& ~~~subnetHostMask prefixLen).toNat = 2 ^ (32 - prefixLen) * (x.toNat / 2 ^ (32 - prefixLen)) := by
  have hparts := or_and_mask_self x (subnetHostMask prefixLen)
  have hdisjoint : (x &&& ~~~subnetHostMask prefixLen) &&& (x &&& subnetHostMask prefixLen) = 0#32 := by
    rw [BitVec.and_assoc, BitVec.and_comm x (subnetHostMask prefixLen),
      ← BitVec.and_assoc (~~~subnetHostMask prefixLen), BitVec.not_and_self]
    simp
  rw [← BitVec.add_eq_or_of_and_eq_zero _ _ hdisjoint] at hparts
  have hsum := BitVec.toNat_add_of_and_eq_zero hdisjoint
  rw [hparts, toNat_and_subnetHostMask x h1 h2] at hsum
  have hdiv := Nat.div_add_mod x.toNat (2 ^ (32 - prefixLen))
  omega

/-- The same network bits. -/
theorem and_not_mask_eq_iff (x y : BitVec 32) (h1 : 1 ≤ prefixLen) (h2 : prefixLen ≤ 32) :
    x &&& ~~~subnetHostMask prefixLen = y &&& ~~~subnetHostMask prefixLen ↔
      x.toNat / 2 ^ (32 - prefixLen) = y.toNat / 2 ^ (32 - prefixLen) := by
  rw [← BitVec.toNat_inj, toNat_and_not_subnetHostMask x h1 h2, toNat_and_not_subnetHostMask y h1 h2]
  exact Nat.mul_right_inj (show 2 ^ (32 - prefixLen) ≠ 0 by positivity)

end Quotients

theorem ipInSubnet_iff {subnet : Subnet} (h : subnet.Proper) (ip : Ipv4Addr) :
    ipInSubnet ip subnet = true ↔
      ip.toNat / 2 ^ (32 - subnet.prefixLen) = subnet.base.toNat / 2 ^ (32 - subnet.prefixLen) := by
  rw [ipInSubnet, beq_iff_eq, Subnet.network, and_not_mask_eq_iff _ _ h.1 h.2]

theorem subnetsOverlap_comm (a b : Subnet) : subnetsOverlap a b = subnetsOverlap b a := by
  rw [subnetsOverlap, subnetsOverlap, min_comm, Bool.beq_comm]

theorem subnetsOverlap_iff {a b : Subnet} (ha : a.Proper) (hb : b.Proper) :
    subnetsOverlap a b = true ↔ a.base.toNat / 2 ^ (32 - min a.prefixLen b.prefixLen) =
      b.base.toNat / 2 ^ (32 - min a.prefixLen b.prefixLen) := by
  rw [subnetsOverlap, beq_iff_eq]
  exact and_not_mask_eq_iff _ _ (le_min ha.1 hb.1) ((min_le_left _ _).trans ha.2)

/-- A quotient by a large power is a quotient of the one by a smaller power. -/
theorem div_pow_of_le (n : ℕ) {j k : ℕ} (h : j ≤ k) : n / 2 ^ k = n / 2 ^ j / 2 ^ (k - j) := by
  rw [Nat.div_div_eq_div_mul, ← pow_add, Nat.add_sub_cancel' h]

/-- With the shorter prefix on the left. -/
theorem exists_common_iff {a b : Subnet} (ha : a.Proper) (hb : b.Proper) (hle : a.prefixLen ≤ b.prefixLen) :
    subnetsOverlap a b = true ↔ ∃ ip, ipInSubnet ip a = true ∧ ipInSubnet ip b = true := by
  rw [subnetsOverlap_iff ha hb, min_eq_left hle]
  constructor
  · intro heq
    exact ⟨b.base, (ipInSubnet_iff ha _).mpr heq.symm, (ipInSubnet_iff hb _).mpr rfl⟩
  · rintro ⟨ip, hipa, hipb⟩
    rw [ipInSubnet_iff ha] at hipa
    rw [ipInSubnet_iff hb] at hipb
    have hbits : 32 - b.prefixLen ≤ 32 - a.prefixLen := by omega
    rw [← hipa, div_pow_of_le ip.toNat hbits, hipb, ← div_pow_of_le _ hbits]

/-- Two subnets overlap iff they share an address. -/
theorem subnetsOverlap_iff_exists {a b : Subnet} (ha : a.Proper) (hb : b.Proper) :
    subnetsOverlap a b = true ↔ ∃ ip, ipInSubnet ip a = true ∧ ipInSubnet ip b = true := by
  rcases le_total a.prefixLen b.prefixLen with hle | hle
  · exact exists_common_iff ha hb hle
  · rw [subnetsOverlap_comm, exists_common_iff hb ha hle]
    exact exists_congr fun _ => and_comm

theorem findSubnetCollision_eq_none_iff {candidate : Subnet} {existing : List Subnet} (hcandidate : candidate.Proper)
    (hexisting : ∀ e ∈ existing, e.Proper) :
    findSubnetCollision candidate existing = none ↔
      ∀ ip, ipInSubnet ip candidate = true → ∀ e ∈ existing, ipInSubnet ip e = false := by
  rw [findSubnetCollision, List.find?_eq_none]
  constructor
  · intro hnone ip hip e he
    by_contra hin
    have hshared := (subnetsOverlap_iff_exists (hexisting e he) hcandidate).mpr
      ⟨ip, Bool.not_eq_false _ ▸ hin, hip⟩
    exact hnone e he hshared
  · intro hapart e he hoverlap
    obtain ⟨ip, hipe, hip⟩ := (subnetsOverlap_iff_exists (hexisting e he) hcandidate).mp hoverlap
    exact absurd ((hapart ip hip e he).symm.trans hipe) (by decide)

/-- **Overlap is a shared address**, and no collision is found exactly if no address of the candidate is in
an existing subnet. -/
theorem subnets_overlap_iff_shared {a b candidate : Subnet} {existing : List Subnet} (ha : a.Proper) (hb : b.Proper)
    (hcandidate : candidate.Proper) (hexisting : ∀ e ∈ existing, e.Proper) :
    (subnetsOverlap a b = true ↔ ∃ ip, ipInSubnet ip a = true ∧ ipInSubnet ip b = true) ∧
      (findSubnetCollision candidate existing = none ↔
        ∀ ip, ipInSubnet ip candidate = true → ∀ e ∈ existing, ipInSubnet ip e = false) :=
  ⟨subnetsOverlap_iff_exists ha hb, findSubnetCollision_eq_none_iff hcandidate hexisting⟩

theorem subnets_overlap_iff_shared_default :
    (subnetsOverlap defaultSubnet ⟨Ipv4Addr.new 10 0 0 5, 8⟩ = true ↔
        ∃ ip, ipInSubnet ip defaultSubnet = true ∧ ipInSubnet ip ⟨Ipv4Addr.new 10 0 0 5, 8⟩ = true) ∧
      (findSubnetCollision ⟨Ipv4Addr.new 10 88 1 7, 32⟩ [defaultSubnet] = none ↔
        ∀ ip, ipInSubnet ip ⟨Ipv4Addr.new 10 88 1 7, 32⟩ = true → ∀ e ∈ [defaultSubnet], ipInSubnet ip e = false) :=
  subnets_overlap_iff_shared (by decide) (by decide) (by decide) (by decide)

/-! ### The search for a free subnet -/

/-- `1u32.checked_shl(u32::from(32 - prefix)).unwrap_or(0)`; the difference is taken in `u8`. -/
def blockSize (prefixLen : ℕ) : BitVec 32 :=
  let shift := (32 + 256 - prefixLen) % 256
  if shift < 32 then 1 <<< shift else 0

/-- Nothing in the list overlaps the subnet. -/
def IsFree (existing : List Subnet) (subnet : Subnet) : Prop := existing.any (subnetsOverlap · subnet) = false

instance (existing : List Subnet) (subnet : Subnet) : Decidable (IsFree existing subnet) :=
  inferInstanceAs (Decidable (_ = _))

/-- The loop, with the attempts that are left. -/
def nextAvailableFrom (existing : List Subnet) : ℕ → Subnet → Subnet
  | 0, attempt => attempt
  | left + 1, attempt =>
    if !existing.any (subnetsOverlap · attempt) then attempt
    else if blockSize attempt.prefixLen = 0 then attempt
    else nextAvailableFrom existing left { attempt with base := attempt.base + blockSize attempt.prefixLen }

def nextAvailableSubnet (candidate : Subnet) (existing : List Subnet) : Subnet :=
  nextAvailableFrom existing 4096 candidate

/-- The `k`-th block from a subnet on, coming round at the end of the address space. -/
def Subnet.block (subnet : Subnet) (k : ℕ) : Subnet :=
  { subnet with base := subnet.base + BitVec.ofNat 32 k * blockSize subnet.prefixLen }

theorem Subnet.block_zero (subnet : Subnet) : subnet.block 0 = subnet := by simp [Subnet.block]

theorem Subnet.block_succ (subnet : Subnet) (k : ℕ) :
    subnet.block (k + 1) =
      Subnet.block { subnet with base := subnet.base + blockSize subnet.prefixLen } k := by
  have hofNat : BitVec.ofNat 32 (k + 1) = 1#32 + BitVec.ofNat 32 k := by
    rw [Nat.add_comm, BitVec.ofNat_add]
  simp only [Subnet.block, hofNat, BitVec.add_mul, BitVec.one_mul, BitVec.add_assoc]

theorem Subnet.block_of_blockSize_eq_zero {subnet : Subnet} (h : blockSize subnet.prefixLen = 0) (k : ℕ) :
    subnet.block k = subnet := by simp [Subnet.block, h]

/-- The loop ends on a free subnet iff there is one among the attempts, the last one included. -/
theorem isFree_nextAvailableFrom (existing : List Subnet) (left : ℕ) (attempt : Subnet) :
    IsFree existing (nextAvailableFrom existing left attempt) ↔ ∃ k ≤ left, IsFree existing (attempt.block k) := by
  induction left generalizing attempt with
  | zero => simp [nextAvailableFrom, Subnet.block_zero]
  | succ left ih =>
    rw [nextAvailableFrom]
    split
    · rename_i hfree
      have hfree : IsFree existing attempt := by simpa [IsFree] using hfree
      exact ⟨fun _ => ⟨0, by omega, by rwa [Subnet.block_zero]⟩, fun _ => hfree⟩
    · rename_i htaken
      have htaken : ¬ IsFree existing attempt := by simpa [IsFree] using htaken
      split
      · rename_i hzero
        simp only [Subnet.block_of_blockSize_eq_zero hzero, htaken, and_false, exists_false]
      · rw [ih]
        constructor
        · rintro ⟨k, hk, hfree⟩
          exact ⟨k + 1, by omega, by rwa [Subnet.block_succ]⟩
        · rintro ⟨k, hk, hfree⟩
          cases k with
          | zero => exact absurd (Subnet.block_zero attempt ▸ hfree) htaken
          | succ k => exact ⟨k, by omega, by rwa [← Subnet.block_succ]⟩

/-- A loop that finds nothing returns the block after its last attempt. -/
theorem nextAvailableFrom_of_taken {existing : List Subnet} {left : ℕ} {attempt : Subnet}
    (htaken : ∀ k < left, ¬ IsFree existing (attempt.block k)) :
    nextAvailableFrom existing left attempt = attempt.block left := by
  induction left generalizing attempt with
  | zero => rw [Subnet.block_zero, nextAvailableFrom]
  | succ left ih =>
    have hfirst : existing.any (subnetsOverlap · attempt) = true := by
      simpa [IsFree, Subnet.block_zero] using htaken 0 (by omega)
    rw [nextAvailableFrom, hfirst, Bool.not_true, if_neg (by decide)]
    split
    · rename_i hzero
      exact (Subnet.block_of_blockSize_eq_zero hzero _).symm
    · rw [ih fun k hk => Subnet.block_succ attempt k ▸ htaken (k + 1) (by omega), Subnet.block_succ]

/-- **A free subnet is found** wherever there is one, exactly if there is one among the next 4096 blocks. -/
theorem next_available_subnet_iff (candidate : Subnet) (existing : List Subnet) :
    ((∃ base, IsFree existing { candidate with base := base }) →
        IsFree existing (nextAvailableSubnet candidate existing)) ↔
      ((∃ base, IsFree existing { candidate with base := base }) →
        ∃ k ≤ 4096, IsFree existing (candidate.block k)) := by
  rw [nextAvailableSubnet, isFree_nextAvailableFrom]

theorem next_available_subnet_after_default :
    IsFree [defaultSubnet] (nextAvailableSubnet defaultSubnet [defaultSubnet]) :=
  (next_available_subnet_iff defaultSubnet [defaultSubnet]).mpr (fun _ => ⟨1, by omega, by decide⟩)
    ⟨Ipv4Addr.new 10 88 1 0, by decide⟩

/-! ### The subnet of a new network -/

/-- `Display` of an address. -/
def dotted (ip : Ipv4Addr) : String :=
  let octet (i : ℕ) : String := toString (ip.toNat / 256 ^ i % 256)
  octet 3 ++ "." ++ octet 2 ++ "." ++ octet 1 ++ "." ++ octet 0

def Subnet.text (subnet : Subnet) : String := dotted subnet.base ++ "/" ++ toString subnet.prefixLen

/-- How `create_network_inner` settles the subnet: one that is asked for is taken or refused as it is, else
the search starts from the node's default. -/
def createSubnet (requested persisted : Option Subnet) (existing : List Subnet) (force : Bool) :
    Except String Subnet :=
  match requested with
  | some requested =>
    match findSubnetCollision requested existing with
    | some overlapping =>
      if force then .ok requested
      else .error ("--subnet " ++ requested.text ++ " overlaps a network this node already has (" ++
        overlapping.text ++ ") -- pick a distinct range (see `tetron status`'s `subnet` line for what's " ++
        "already in use), or pass --force to create it anyway")
    | none => .ok requested
  | none => .ok (nextAvailableSubnet (persisted.getD defaultSubnet) existing)

/-- Without `--force`, a network gets a subnet apart from the node's others, unless the search gives up: its
result is not looked at again. -/
theorem isFree_createSubnet {requested persisted : Option Subnet} {existing : List Subnet} {subnet : Subnet}
    (h : createSubnet requested persisted existing false = .ok subnet) :
    IsFree existing subnet ↔
      requested.isSome = true ∨ ∃ k ≤ 4096, IsFree existing ((persisted.getD defaultSubnet).block k) := by
  cases requested with
  | none =>
    cases h
    rw [nextAvailableSubnet, isFree_nextAvailableFrom]
    simp
  | some requested =>
    simp only [createSubnet] at h
    split at h
    · cases h
    · rename_i hnone
      cases h
      have hfree : IsFree existing subnet := by
        rw [findSubnetCollision, List.find?_eq_none] at hnone
        rw [IsFree, List.any_eq_false]
        exact hnone
      simp [hfree]

/-! ### How many attempts the existing subnets take up -/

section Covered

variable {candidate e : Subnet} {existing : List Subnet}

/-- The blocks with prefix `prefixLen` that meet a subnet: those inside it, or the one it is in. -/
def Subnet.covered (e : Subnet) (prefixLen : ℕ) : ℕ := 2 ^ (prefixLen - e.prefixLen)

/-- The number of a subnet among the blocks of its size. -/
def Subnet.number (subnet : Subnet) : ℕ := subnet.base.toNat / 2 ^ (32 - subnet.prefixLen)

theorem Subnet.number_lt (hsubnet : candidate.Proper) : candidate.number < 2 ^ candidate.prefixLen := by
  obtain ⟨h1, h2⟩ := hsubnet
  rw [Subnet.number, Nat.div_lt_iff_lt_mul (by positivity), ← pow_add,
    show candidate.prefixLen + (32 - candidate.prefixLen) = 32 by omega]
  exact candidate.base.isLt

theorem toNat_blockSize (hsubnet : candidate.Proper) :
    (blockSize candidate.prefixLen).toNat = 2 ^ (32 - candidate.prefixLen) := by
  have hall : ∀ n < 33, 1 ≤ n → (blockSize n).toNat = 2 ^ (32 - n) := by decide
  exact hall _ (by have := hsubnet.2; omega) hsubnet.1

/-- Blocks are numbered consecutively. -/
theorem Subnet.number_block (hsubnet : candidate.Proper) (k : ℕ) :
    (candidate.block k).number = (candidate.number + k) % 2 ^ candidate.prefixLen := by
  have hsize : 2 ^ 32 = 2 ^ candidate.prefixLen * 2 ^ (32 - candidate.prefixLen) := by
    have := hsubnet.2
    rw [← pow_add, show candidate.prefixLen + (32 - candidate.prefixLen) = 32 by omega]
  have hbase : (candidate.block k).base.toNat =
      (candidate.base.toNat + k * 2 ^ (32 - candidate.prefixLen)) % 2 ^ 32 := by
    simp only [Subnet.block, BitVec.toNat_add, BitVec.toNat_mul, BitVec.toNat_ofNat, toNat_blockSize hsubnet]
    rw [Nat.add_mod_mod, ← Nat.add_mod_mod, Nat.mod_mul_mod, Nat.add_mod_mod]
  rw [Subnet.number, Subnet.number, hbase]
  change _ % _ / 2 ^ (32 - candidate.prefixLen) = _
  rw [hsize, Nat.mul_comm (2 ^ candidate.prefixLen), Nat.mod_mul_right_div_self,
    Nat.add_mul_div_right _ _ (by positivity)]

theorem Subnet.block_proper (hsubnet : candidate.Proper) (k : ℕ) : (candidate.block k).Proper := hsubnet

/-- Overlap, in the numbers of the blocks. -/
theorem subnetsOverlap_iff_number (he : e.Proper) (hsubnet : candidate.Proper) :
    subnetsOverlap e candidate = true ↔ candidate.number / e.covered candidate.prefixLen =
      e.base.toNat / 2 ^ (32 - min e.prefixLen candidate.prefixLen) := by
  have h32 := hsubnet.2
  have hle : 32 - candidate.prefixLen ≤ 32 - min e.prefixLen candidate.prefixLen := by omega
  have hcovered : 32 - min e.prefixLen candidate.prefixLen - (32 - candidate.prefixLen) =
      candidate.prefixLen - e.prefixLen := by omega
  rw [subnetsOverlap_iff he hsubnet, div_pow_of_le candidate.base.toNat hle, hcovered, eq_comm]
  rfl

/-- With 10.0.0.0/8 taken, the search from 10.88.0.0/24 ends inside it, 4096 blocks further on, although
11.0.0.0/24 is free. -/
theorem next_available_subnet_inside_ten :
    (∃ base, IsFree [⟨Ipv4Addr.new 10 0 0 0, 8⟩] { defaultSubnet with base := base }) ∧
      nextAvailableSubnet defaultSubnet [⟨Ipv4Addr.new 10 0 0 0, 8⟩] = ⟨Ipv4Addr.new 10 104 0 0, 24⟩ ∧
      ¬ IsFree [⟨Ipv4Addr.new 10 0 0 0, 8⟩] (nextAvailableSubnet defaultSubnet [⟨Ipv4Addr.new 10 0 0 0, 8⟩]) := by
  have hnumber : defaultSubnet.number = 677888 := by decide
  have htaken : ∀ k < 4096, ¬ IsFree [⟨Ipv4Addr.new 10 0 0 0, 8⟩] (defaultSubnet.block k) := by
    intro k hk
    have hoverlap : subnetsOverlap ⟨Ipv4Addr.new 10 0 0 0, 8⟩ (defaultSubnet.block k) = true := by
      rw [subnetsOverlap_iff_number (by decide) (Subnet.block_proper (by decide) k), Subnet.number_block (by decide),
        hnumber]
      have hten : (Ipv4Addr.new 10 0 0 0).toNat / 2 ^ 24 = 10 := by decide
      change (677888 + k) % 2 ^ 24 / 2 ^ 16 = (Ipv4Addr.new 10 0 0 0).toNat / 2 ^ 24
      omega
    simp [IsFree, hoverlap]
  have hresult : nextAvailableSubnet defaultSubnet [⟨Ipv4Addr.new 10 0 0 0, 8⟩] = ⟨Ipv4Addr.new 10 104 0 0, 24⟩ := by
    rw [nextAvailableSubnet, nextAvailableFrom_of_taken htaken]
    decide
  refine ⟨⟨Ipv4Addr.new 11 0 0 0, by decide⟩, hresult, ?_⟩
  rw [hresult]
  decide

theorem isFree_cons :
    IsFree (e :: existing) candidate ↔ subnetsOverlap e candidate = false ∧ IsFree existing candidate := by
  simp [IsFree]

/-- Whether a block is free depends on its number alone. -/
theorem isFree_congr (hexisting : ∀ e ∈ existing, e.Proper) (hsubnet : candidate.Proper) {other : Subnet}
    (hlen : other.prefixLen = candidate.prefixLen) (hnumber : other.number = candidate.number)
    (h : IsFree existing candidate) : IsFree existing other := by
  rw [IsFree, List.any_eq_false] at h ⊢
  intro e he hoverlap
  have hother : other.Proper := ⟨hlen ▸ hsubnet.1, hlen ▸ hsubnet.2⟩
  apply h e he
  rw [subnetsOverlap_iff_number (hexisting e he) hother, hlen, hnumber] at hoverlap
  rwa [subnetsOverlap_iff_number (hexisting e he) hsubnet]

/-- Consecutive blocks have different numbers until they come round. -/
theorem eq_of_number_block_eq (hsubnet : candidate.Proper) {j k : ℕ} (hj : j < 2 ^ candidate.prefixLen)
    (hk : k < 2 ^ candidate.prefixLen) (h : (candidate.block j).number = (candidate.block k).number) : j = k := by
  rw [Subnet.number_block hsubnet, Subnet.number_block hsubnet] at h
  exact Nat.ModEq.eq_of_lt_of_lt (Nat.ModEq.add_left_cancel' candidate.number h) hj hk

/-- One existing subnet takes up no more attempts than blocks it meets. -/
theorem card_overlap_le (he : e.Proper) (hsubnet : candidate.Proper) {n : ℕ} (hn : n ≤ 2 ^ candidate.prefixLen) :
    ((Finset.range n).filter fun k => subnetsOverlap e (candidate.block k) = true).card ≤
      e.covered candidate.prefixLen := by
  have hpos : 0 < e.covered candidate.prefixLen := by unfold Subnet.covered; positivity
  rw [← Finset.card_range (e.covered candidate.prefixLen)]
  refine Finset.card_le_card_of_injOn (fun k => (candidate.block k).number % e.covered candidate.prefixLen)
    (fun k _ => Finset.mem_coe.mpr (Finset.mem_range.mpr (Nat.mod_lt _ hpos))) ?_
  intro j hj k hk hmod
  -- the quotients agree as both blocks meet `e`, so the numbers do
  obtain ⟨hj, hoverlap⟩ := Finset.mem_filter.mp (Finset.mem_coe.mp hj)
  obtain ⟨hk, hoverlap'⟩ := Finset.mem_filter.mp (Finset.mem_coe.mp hk)
  rw [subnetsOverlap_iff_number he (Subnet.block_proper hsubnet _)] at hoverlap hoverlap'
  have hdiv := hoverlap.trans hoverlap'.symm
  refine eq_of_number_block_eq hsubnet ((Finset.mem_range.mp hj).trans_le hn) ((Finset.mem_range.mp hk).trans_le hn) ?_
  rw [← Nat.div_add_mod (candidate.block j).number (e.covered candidate.prefixLen),
    ← Nat.div_add_mod (candidate.block k).number (e.covered candidate.prefixLen)]
  exact congrArg₂ (fun q r => e.covered candidate.prefixLen * q + r) hdiv hmod

theorem card_taken_le (hexisting : ∀ e ∈ existing, e.Proper) (hsubnet : candidate.Proper) {n : ℕ}
    (hn : n ≤ 2 ^ candidate.prefixLen) :
    ((Finset.range n).filter fun k => ¬ IsFree existing (candidate.block k)).card ≤
      (existing.map fun e => e.covered candidate.prefixLen).sum := by
  induction existing with
  | nil => simp [IsFree]
  | cons e existing ih =>
    have hsubset : (Finset.range n).filter (fun k => ¬ IsFree (e :: existing) (candidate.block k)) ⊆
        ((Finset.range n).filter fun k => subnetsOverlap e (candidate.block k) = true) ∪
          (Finset.range n).filter fun k => ¬ IsFree existing (candidate.block k) := by
      intro k hk
      obtain ⟨hk, htaken⟩ := Finset.mem_filter.mp hk
      rw [isFree_cons, not_and_or, Bool.not_eq_false] at htaken
      rw [Finset.mem_union, Finset.mem_filter, Finset.mem_filter]
      exact htaken.imp (⟨hk, ·⟩) (⟨hk, ·⟩)
    have hhead := card_overlap_le (hexisting e List.mem_cons_self) hsubnet hn
    have htail := ih fun e' he' => hexisting e' (List.mem_cons_of_mem _ he')
    rw [List.map_cons, List.sum_cons]
    exact (Finset.card_le_card hsubset).trans ((Finset.card_union_le _ _).trans (Nat.add_le_add hhead htail))

/-- Where the existing subnets meet at most 4096 blocks of the candidate's size together, as fewer than 4096
subnets do that are no larger than the candidate, a free block is found if there is one. -/
theorem nextAvailableSubnet_free_of_covered (hexisting : ∀ e ∈ existing, e.Proper) (hsubnet : candidate.Proper)
    (hcovered : (existing.map fun e => e.covered candidate.prefixLen).sum ≤ 4096)
    (hsome : ∃ base, IsFree existing { candidate with base := base }) :
    IsFree existing (nextAvailableSubnet candidate existing) := by
  rw [nextAvailableSubnet, isFree_nextAvailableFrom]
  rcases Nat.lt_or_ge 4096 (2 ^ candidate.prefixLen) with hmany | hfew
  · -- 4097 different blocks, of which at most 4096 are taken
    by_contra hnone
    push Not at hnone
    have hall : (Finset.range 4097).filter (fun k => ¬ IsFree existing (candidate.block k)) = Finset.range 4097 := by
      refine Finset.filter_true_of_mem fun k hk => hnone k ?_
      have := Finset.mem_range.mp hk
      omega
    have hcard := card_taken_le hexisting hsubnet (n := 4097) hmany
    rw [hall, Finset.card_range] at hcard
    omega
  · -- every block comes up
    obtain ⟨base, hfree⟩ := hsome
    have hproper : Subnet.Proper { candidate with base := base } := hsubnet
    have hlt := Subnet.number_lt hproper
    have hlt' := Subnet.number_lt hsubnet
    generalize hnumber : Subnet.number { candidate with base := base } = number at hlt
    change number < 2 ^ candidate.prefixLen at hlt
    refine ⟨(number + 2 ^ candidate.prefixLen - candidate.number) % 2 ^ candidate.prefixLen,
      ((Nat.mod_lt _ (by positivity)).trans_le hfew).le, isFree_congr hexisting hproper rfl ?_ hfree⟩
    rw [hnumber, Subnet.number_block hsubnet, Nat.add_mod_mod,
      show candidate.number + (number + 2 ^ candidate.prefixLen - candidate.number) =
        number + 2 ^ candidate.prefixLen by omega, Nat.add_mod_right, Nat.mod_eq_of_lt hlt]

end Covered

end Tetron
