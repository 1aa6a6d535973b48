import Tetron.Addressing

/-!
# Every host address is derived

The low byte of an FNV-1a hash depends on nothing but the low byte before and the bytes that follow, so
appending the digits of a collision index runs an automaton of 256 states. Seven digits lead from any
state to any other (`exists_digits`). In a subnet of at most 256 addresses every identity therefore derives
every host address under some collision index, and that index fits a `u32` with room to spare
(`exists_deriveIpWithIndex_eq`).
-/

namespace Tetron

/-! ### Digits appended to the hashed text -/

theorem fnv1a_append (input more : Bytes) :
    fnv1a (input ++ more) =
      more.foldl (fun hash b => (hash ^^^ b.toBitVec.zeroExtend 32) * 16777619) (fnv1a input) :=
  List.foldl_append

/-- What one more decimal digit does to the low byte of the hash. -/
def digitStep (low digit : ℕ) : ℕ := (low ^^^ (48 + digit)) * 147 % 256

/-- The digit as a byte of text. -/
def digitByte (digit : ℕ) : UInt8 := UInt8.ofNat (48 + digit)

theorem toNat_digitByte {d : ℕ} (hd : d < 10) : (digitByte d).toNat = 48 + d := by
  rw [digitByte, UInt8.toNat_ofNat', Nat.mod_eq_of_lt (by omega)]

/-- The low byte of the hash runs by itself: carries go upwards. -/
theorem low_fnv1a_digit (hash : BitVec 32) {d : ℕ} (hd : d < 10) :
    ((hash ^^^ (digitByte d).toBitVec.zeroExtend 32) * 16777619).toNat % 256 =
      digitStep (hash.toNat % 256) d := by
  have hbyte : ((digitByte d).toBitVec.zeroExtend 32).toNat = 48 + d := by
    rw [BitVec.zeroExtend, BitVec.toNat_setWidth, UInt8.toNat_toBitVec, toNat_digitByte hd]
    omega
  have hxor : (hash.toNat ^^^ (48 + d)) % 256 = (hash.toNat % 256) ^^^ (48 + d) := by
    have hmod := Nat.xor_mod_two_pow (a := hash.toNat) (b := 48 + d) (n := 8)
    rw [hmod, Nat.mod_eq_of_lt (a := 48 + d) (by omega)]
  rw [BitVec.toNat_mul, BitVec.toNat_xor, hbyte, digitStep, ← hxor,
    show (16777619 : BitVec 32).toNat = 16777619 from rfl, Nat.mod_mod_of_dvd _ (by norm_num), Nat.mul_mod,
    show 16777619 % 256 = 147 from rfl]

theorem low_foldl_digits (ds : List ℕ) (hds : ∀ d ∈ ds, d < 10) (hash : BitVec 32) :
    ((ds.map digitByte).foldl (fun hash b => (hash ^^^ b.toBitVec.zeroExtend 32) * 16777619) hash).toNat % 256 =
      ds.foldl digitStep (hash.toNat % 256) := by
  induction ds generalizing hash with
  | nil => rfl
  | cons d ds ih =>
    rw [List.map_cons, List.foldl_cons, List.foldl_cons, ih fun d' hd' => hds d' (List.mem_cons_of_mem _ hd'),
      low_fnv1a_digit hash (hds d List.mem_cons_self)]

theorem decimal_snoc {n d : ℕ} (hn : 0 < n) (hd : d < 10) : decimal (10 * n + d) = decimal n ++ [digitByte d] := by
  have hchar : ∀ d < 10, UInt8.ofNat (Nat.digitChar d).toNat = digitByte d := by decide
  rw [decimal, Nat.toDigits_of_base_le (by omega) (by omega), show (10 * n + d) / 10 = n by omega,
    show (10 * n + d) % 10 = d by omega, List.map_append, List.map_singleton, hchar d hd, decimal]

/-- The number with the digits `ds` after those of `n`. -/
def appendDigits (n : ℕ) (ds : List ℕ) : ℕ := ds.foldl (fun n d => 10 * n + d) n

theorem decimal_appendDigits (ds : List ℕ) (hds : ∀ d ∈ ds, d < 10) {n : ℕ} (hn : 0 < n) :
    decimal (appendDigits n ds) = decimal n ++ ds.map digitByte := by
  induction ds generalizing n with
  | nil => rw [List.map_nil, List.append_nil, appendDigits, List.foldl_nil]
  | cons d ds ih =>
    have hrest := ih (fun d' hd' => hds d' (List.mem_cons_of_mem _ hd')) (n := 10 * n + d) (by omega)
    rw [decimal_snoc hn (hds d List.mem_cons_self)] at hrest
    rw [appendDigits, List.foldl_cons, ← appendDigits, hrest, List.map_cons, List.append_assoc,
      List.singleton_append]

theorem appendDigits_lt (ds : List ℕ) (hds : ∀ d ∈ ds, d < 10) (n : ℕ) :
    appendDigits n ds < (n + 1) * 10 ^ ds.length := by
  induction ds generalizing n with
  | nil => rw [appendDigits, List.foldl_nil, List.length_nil, pow_zero]; omega
  | cons d ds ih =>
    have hd := hds d List.mem_cons_self
    have hrest := ih (fun d' hd' => hds d' (List.mem_cons_of_mem _ hd')) (10 * n + d)
    have hle : (10 * n + d + 1) * 10 ^ ds.length ≤ 10 * (n + 1) * 10 ^ ds.length :=
      Nat.mul_le_mul_right _ (by omega)
    calc appendDigits n (d :: ds) = appendDigits (10 * n + d) ds := rfl
      _ < (10 * n + d + 1) * 10 ^ ds.length := hrest
      _ ≤ 10 * (n + 1) * 10 ^ ds.length := hle
      _ = (n + 1) * 10 ^ (d :: ds).length := by rw [List.length_cons, pow_succ]; ring

theorem appendDigits_pos (ds : List ℕ) {n : ℕ} (hn : 0 < n) : 0 < appendDigits n ds := by
  induction ds generalizing n with
  | nil => exact hn
  | cons d ds ih => exact ih (n := 10 * n + d) (by omega)

/-! Eight low bytes that differ in their last three bits make up a block. The first digit forgets where in
its block the run started, three lead to block zero, three more to any block, and the last one picks
the byte. -/

theorem digitStep_block : ∀ h < 32, ∀ l < 8, ∀ a < 8, digitStep (8 * h + l) (a ^^^ l) = digitStep (8 * h) a := by
  decide +kernel

theorem exists_digits_to_zero : ∀ h < 32, ∃ a < 8, ∃ b < 8, ∃ c < 8,
    digitStep (digitStep (digitStep (8 * h) a) b) c / 8 = 0 := by
  decide +kernel

theorem exists_digits_from_zero : ∀ h < 32, ∃ a < 8, ∃ b < 8, ∃ c < 8,
    digitStep (digitStep (digitStep 0 a) b) c / 8 = h := by
  decide +kernel

/-- 155 is the inverse of the multiplier. -/
theorem digitStep_last : ∀ t < 256, ∀ l < 8,
    digitStep (8 * (t * 155 % 256 / 8 ^^^ 6) + l) (t * 155 % 8 ^^^ l) = t := by
  decide +kernel

theorem xor_lt_eight {a b : ℕ} (ha : a < 8) (hb : b < 8) : a ^^^ b < 8 :=
  Nat.xor_lt_two_pow (n := 3) ha hb

/-- Seven digits lead from any low byte to any other. -/
theorem exists_digits {low target : ℕ} (hlow : low < 256) (htarget : target < 256) :
    ∃ ds : List ℕ, ds.length = 7 ∧ (∀ d ∈ ds, d < 8) ∧ ds.foldl digitStep low = target := by
  have hlast : target * 155 % 256 / 8 ^^^ 6 < 32 := Nat.xor_lt_two_pow (n := 5) (by omega) (by omega)
  obtain ⟨a, ha, b, hb, c, hc, hzero⟩ := exists_digits_to_zero (low / 8) (by omega)
  obtain ⟨a', ha', b', hb', c', hc', hblock⟩ := exists_digits_from_zero _ hlast
  have hfirst := digitStep_block (low / 8) (by omega) (low % 8) (by omega) a ha
  rw [show 8 * (low / 8) + low % 8 = low by omega] at hfirst
  generalize hx : digitStep (digitStep (digitStep (8 * (low / 8)) a) b) c = x at hzero
  generalize hy : digitStep (digitStep (digitStep 0 a') b') c' = y at hblock
  have hmiddle := digitStep_block 0 (by omega) x (by omega) a' ha'
  have hfinal := digitStep_last target htarget (y % 8) (by omega)
  rw [← hblock, show 8 * (y / 8) + y % 8 = y by omega] at hfinal
  rw [mul_zero, zero_add] at hmiddle
  refine ⟨[a ^^^ low % 8, b, c, a' ^^^ x, b', c', target * 155 % 8 ^^^ y % 8], rfl, ?_, ?_⟩
  · have h1 := xor_lt_eight ha (show low % 8 < 8 by omega)
    have h2 := xor_lt_eight ha' (show x < 8 by omega)
    have h3 := xor_lt_eight (show target * 155 % 8 < 8 by omega) (show y % 8 < 8 by omega)
    simp [*]
  · simp only [List.foldl_cons, List.foldl_nil]
    rw [hfirst, hx, hmiddle, hy, hfinal]

/-- **Every low byte is reached**: some index turns the low byte of the hash into any given one. -/
theorem exists_index_low (input : Bytes) {target : ℕ} (htarget : target < 256) :
    ∃ index, 0 < index ∧ index < 2 ^ 32 ∧ (fnv1a (input ++ decimal index)).toNat % 256 = target := by
  have hone : decimal 1 = [digitByte 1] := by decide
  have hstart : digitStep ((fnv1a input).toNat % 256) 1 < 256 := Nat.mod_lt _ (by omega)
  obtain ⟨ds, hlen, hds, hfold⟩ := exists_digits hstart htarget
  have hten : ∀ d ∈ ds, d < 10 := fun d hd => (hds d hd).trans (by omega)
  refine ⟨appendDigits 1 ds, appendDigits_pos ds (by omega), ?_, ?_⟩
  · have hlt := appendDigits_lt ds hten 1
    rw [hlen] at hlt
    omega
  · rw [decimal_appendDigits ds hten (by omega), hone, List.singleton_append, ← List.map_cons, fnv1a_append,
      low_foldl_digits (1 :: ds) (List.forall_mem_cons.mpr ⟨by omega, hten⟩), List.foldl_cons, hfold]

/-! ### Host addresses -/

/-- An address is its network part and its host part. -/
theorem or_and_mask_self (ip mask : BitVec 32) : (ip &&& ~~~mask) ||| (ip &&& mask) = ip := by
  rw [← BitVec.and_or_distrib_left, BitVec.or_comm, BitVec.or_not_self, BitVec.and_allOnes]

section Host

variable {subnet : Subnet} {ip : Ipv4Addr}

/-- The host part of a usable address is none of the reserved two. -/
theorem two_le_host (h : subnet.Usable) (hrange : ensureInCgnatRange ip subnet = true) :
    2 ≤ (ip &&& subnetHostMask subnet.prefixLen).toNat := by
  simp only [ensureInCgnatRange, ipInSubnet, Bool.and_eq_true, beq_iff_eq, bne_iff_ne] at hrange
  obtain ⟨⟨hin, hne⟩, hne1⟩ := hrange
  have hip := or_and_mask_self ip (subnetHostMask subnet.prefixLen)
  rw [hin] at hip
  by_contra hlt
  have hcases : (ip &&& subnetHostMask subnet.prefixLen).toNat = 0 ∨
      (ip &&& subnetHostMask subnet.prefixLen).toNat = 1 := by omega
  rcases hcases with hzero | hone
  · have hhost : ip &&& subnetHostMask subnet.prefixLen = 0 := BitVec.eq_of_toNat_eq hzero
    rw [hhost] at hip
    exact hne (hip.symm.trans BitVec.or_zero)
  · have hhost : ip &&& subnetHostMask subnet.prefixLen = 1 := BitVec.eq_of_toNat_eq hone
    rw [hhost, ← Subnet.network_add_one h] at hip
    exact hne1 hip.symm

/-- **Every host address is derived** by every identity under some index, in a subnet of at most 256
addresses. -/
theorem exists_deriveIpWithIndex_eq {Id : Type} [Endpoint Id] (identity : Id) (h24 : 24 ≤ subnet.prefixLen)
    (h30 : subnet.prefixLen ≤ 30) (hrange : ensureInCgnatRange ip subnet = true) :
    ∃ index < 2 ^ 32, deriveIpWithIndex identity index subnet = ip := by
  have htwo := two_le_host ⟨by omega, h30⟩ hrange
  have hhost := toNat_and_subnetHostMask ip (show 1 ≤ subnet.prefixLen by omega) (by omega)
  have hdvd : 2 ^ (32 - subnet.prefixLen) ∣ 2 ^ 8 := Nat.pow_dvd_pow 2 (by omega)
  have hlt : ip.toNat % 2 ^ (32 - subnet.prefixLen) < 256 :=
    (Nat.mod_lt _ (by positivity)).trans_le (Nat.le_of_dvd (by omega) hdvd)
  obtain ⟨index, hpos, hindex, hlow⟩ := exists_index_low (Endpoint.display identity) hlt
  have hhash : fnv1a (Endpoint.display identity ++ decimal index) &&& subnetHostMask subnet.prefixLen =
      ip &&& subnetHostMask subnet.prefixLen := by
    apply BitVec.eq_of_toNat_eq
    rw [hhost, toNat_and_subnetHostMask _ (by omega) (by omega), ← Nat.mod_mod_of_dvd _ hdvd]
    change _ % 256 % _ = _
    rw [hlow, Nat.mod_mod]
  refine ⟨index, hindex, ?_⟩
  have hin : ip &&& ~~~subnetHostMask subnet.prefixLen = subnet.network := by
    simp only [ensureInCgnatRange, ipInSubnet, Bool.and_eq_true, beq_iff_eq] at hrange
    exact hrange.1.1
  rw [deriveIpWithIndex, if_neg (by omega), hostBits_of_two_le (by rw [hhash]; exact htwo), hhash, ← hin]
  exact or_and_mask_self ip _

end Host

end Tetron
