import Mathlib
import Tetron.Bytes

/-!
# Hostnames

How an admitted peer's hostname is settled. The suffix search counts with a `u32` and is given that many
rounds.
-/

namespace Tetron.Hostname

def isValidHostname (name : String) : Bool :=
  if name.isEmpty || name.utf8ByteSize > 63 then false
  else if name.toList.head? == some '-' || name.toList.getLast? == some '-' then false
  else name.toList.all fun c => c.isLower || c.isDigit || c == '-'

/-- `eq_ignore_ascii_case`. -/
def eqIgnoreAsciiCase (a b : String) : Bool := a.toList.map Char.toLower == b.toList.map Char.toLower

/-- The loop of `resolve_collision` from suffix `i` on. -/
def resolveFrom (desired : String) (taken : List String) : ℕ → ℕ → Option String
  | 0, _ => none
  | fuel + 1, i =>
    let candidate := desired ++ "-" ++ toString i
    if candidate ∈ taken then resolveFrom desired taken fuel (i + 1) else some candidate

def resolveCollision (desired : String) (taken : List String) : Option String :=
  if desired ∉ taken then some desired else resolveFrom desired taken (2 ^ 32 - 1) 1

/-- An authoritative name is taken or refused as it is; another name gets a suffix if it has to. -/
def admissionHostname (desired : String) (taken : List String) (authoritative : Bool) :
    Option (Except String String) :=
  if authoritative then some (if desired ∈ taken then .error desired else .ok desired)
  else (resolveCollision desired taken).map .ok

/-! ### The suffix search -/

theorem resolveFrom_eq_find? (desired : String) (taken : List String) (fuel i : ℕ) :
    resolveFrom desired taken fuel i =
      ((List.range' i fuel).find? fun j => desired ++ "-" ++ toString j ∉ taken).map
        fun j => desired ++ "-" ++ toString j := by
  induction fuel generalizing i with
  | zero => rfl
  | succ fuel ih =>
    rw [resolveFrom, List.range'_succ, List.find?_cons]
    by_cases htaken : desired ++ "-" ++ toString i ∈ taken
    · simp only [htaken, if_true, not_true, decide_false, ih]
    · simp only [htaken, if_false, not_false_eq_true, decide_true, Option.map_some]

theorem suffixed_injective (desired : String) : Function.Injective fun i : ℕ => desired ++ "-" ++ toString i := by
  intro i j h
  exact Nat.repr_injective ((String.append_right_inj _).mp h)

theorem suffixed_ne (desired : String) (i : ℕ) : desired ++ "-" ++ toString i ≠ desired := by
  intro h
  have hlen := congrArg String.length h
  rw [String.length_append, String.length_append] at hlen
  have hone : "-".length = 1 := rfl
  omega

/-- The names in the order they are tried: the wish, and then the wish with a suffix. -/
def candidate (desired : String) (i : ℕ) : String := if i = 0 then desired else desired ++ "-" ++ toString i

theorem candidate_injective (desired : String) : Function.Injective (candidate desired) := by
  intro i j h
  unfold candidate at h
  split at h <;> split at h
  · omega
  · exact absurd h.symm (suffixed_ne desired j)
  · exact absurd h (suffixed_ne desired i)
  · exact suffixed_injective desired h

/-- **The search** takes the first candidate that is free. -/
theorem resolveCollision_eq_find? (desired : String) (taken : List String) :
    resolveCollision desired taken =
      ((List.range (2 ^ 32)).find? fun i => candidate desired i ∉ taken).map (candidate desired) := by
  have hrange : List.range (2 ^ 32) = 0 :: List.range' 1 (2 ^ 32 - 1) := by
    rw [List.range_eq_range', ← Nat.sub_add_cancel (Nat.one_le_two_pow : 1 ≤ 2 ^ 32), List.range'_succ,
      Nat.sub_add_cancel Nat.one_le_two_pow]
  have hsuffixed : ∀ i ∈ List.range' 1 (2 ^ 32 - 1), candidate desired i = desired ++ "-" ++ toString i := by
    intro i hi
    exact if_neg (Nat.one_le_iff_ne_zero.mp (List.mem_range'_1.mp hi).1)
  rw [resolveCollision, hrange, List.find?_cons]
  by_cases hfree : desired ∉ taken
  · have hfirst : decide (candidate desired 0 ∉ taken) = true := decide_eq_true hfree
    rw [if_pos hfree, hfirst]
    rfl
  · have hfirst : decide (candidate desired 0 ∉ taken) = false := decide_eq_false hfree
    have hsame : (List.range' 1 (2 ^ 32 - 1)).find? (fun i => candidate desired i ∉ taken) =
        (List.range' 1 (2 ^ 32 - 1)).find? fun i => desired ++ "-" ++ toString i ∉ taken :=
      List.find?_congr fun i hi => by rw [hsuffixed i hi]
    rw [if_neg hfree, hfirst, resolveFrom_eq_find?, hsame]
    cases hfind : (List.range' 1 (2 ^ 32 - 1)).find? fun i => desired ++ "-" ++ toString i ∉ taken with
    | none => rfl
    | some i => rw [Option.map_some, Option.map_some, hsuffixed i (List.mem_of_find?_eq_some hfind)]

theorem resolveCollision_eq_some {desired name : String} {taken : List String} :
    resolveCollision desired taken = some name ↔
      ∃ i < 2 ^ 32, candidate desired i = name ∧ candidate desired i ∉ taken ∧
        ∀ j < i, candidate desired j ∈ taken := by
  rw [resolveCollision_eq_find?, Option.map_eq_some_iff]
  simp only [List.find?_range_eq_some, List.mem_range, decide_eq_true_eq, Bool.not_eq_true', decide_eq_false_iff_not,
    not_not]
  constructor
  · rintro ⟨i, ⟨hfree, hlt, htaken⟩, hname⟩
    exact ⟨i, hlt, hname, hfree, htaken⟩
  · rintro ⟨i, hlt, hname, hfree, htaken⟩
    exact ⟨i, ⟨hfree, hlt, htaken⟩, hname⟩

theorem resolveCollision_isSome {desired : String} {taken : List String} :
    (resolveCollision desired taken).isSome = true ↔ ∃ i < 2 ^ 32, candidate desired i ∉ taken := by
  rw [resolveCollision_eq_find?, Option.isSome_map, List.find?_isSome]
  simp only [List.mem_range, decide_eq_true_eq]

/-- Candidates are different names, so no more of them are taken than there are names. -/
theorem tried_le {desired : String} {taken : List String} {i : ℕ} (h : ∀ j < i, candidate desired j ∈ taken) :
    i ≤ taken.length := by
  have hsubset : (List.range i).map (candidate desired) ⊆ taken := by
    intro name hname
    obtain ⟨j, hj, rfl⟩ := List.mem_map.mp hname
    exact h j (List.mem_range.mp hj)
  have hnodup : ((List.range i).map (candidate desired)).Nodup :=
    List.Nodup.map (candidate_injective desired) List.nodup_range
  calc i = ((List.range i).map (candidate desired)).length := by rw [List.length_map, List.length_range]
    _ ≤ taken.length := (hnodup.subperm hsubset).length_le

/-- The search returns if fewer names are taken than there are `u32` values. -/
theorem admissionHostname_isSome {desired : String} {taken : List String} (hlen : taken.length < 2 ^ 32)
    (authoritative : Bool) : (admissionHostname desired taken authoritative).isSome = true := by
  rw [admissionHostname]
  split
  · rfl
  · rw [Option.isSome_map, resolveCollision_isSome]
    by_contra hnone
    have hall : ∀ i < 2 ^ 32, candidate desired i ∈ taken := fun i hi => by_contra fun hfree => hnone ⟨i, hi, hfree⟩
    exact absurd (tried_le hall) (by omega)

/-! ### Valid names -/

/-- What a valid name is made of. -/
def IsNameChar (c : Char) : Prop := c.isLower = true ∨ c.isDigit = true ∨ c = '-'

instance : DecidablePred IsNameChar := fun c => by unfold IsNameChar; infer_instance

theorem isValidHostname_iff {name : String} : isValidHostname name = true ↔
    name.toList ≠ [] ∧ name.utf8ByteSize ≤ 63 ∧ name.toList.head? ≠ some '-' ∧ name.toList.getLast? ≠ some '-' ∧
      ∀ c ∈ name.toList, IsNameChar c := by
  simp only [isValidHostname, IsNameChar, Bool.if_false_left, Bool.and_eq_true, Bool.not_eq_true',
    List.all_eq_true, Bool.or_eq_true, beq_iff_eq, decide_eq_false_iff_not, not_lt,
    decide_eq_true_eq, ne_eq, not_or, String.isEmpty_iff, String.toList_eq_nil_iff, gt_iff_lt, and_assoc, or_assoc]

theorem toLower_of_valid {c : Char} (h : IsNameChar c) : c.toLower = c := by
  apply Char.toLower_eq_of_not_isUpper
  intro hupper
  rcases h with hlower | hdigit | rfl
  · exact Char.not_isUpper_of_isLower hlower hupper
  · simp only [Char.isDigit, Char.isUpper, Bool.and_eq_true, decide_eq_true_eq] at hdigit hupper
    have hle : c.val.toNat ≤ 57 := hdigit.2
    have hge : 65 ≤ c.val.toNat := hupper.1
    omega
  · exact absurd hupper (by decide)

/-- Valid names have no letter case to ignore. -/
theorem eq_of_eqIgnoreAsciiCase {a b : String} (ha : isValidHostname a = true) (hb : isValidHostname b = true)
    (h : eqIgnoreAsciiCase a b = true) : a = b := by
  have hlower : ∀ {s : String}, isValidHostname s = true → s.toList.map Char.toLower = s.toList := by
    intro s hs
    obtain ⟨-, -, -, -, hchars⟩ := isValidHostname_iff.mp hs
    rw [List.map_congr_left fun c hc => toLower_of_valid (hchars c hc), List.map_id']
  rw [eqIgnoreAsciiCase, beq_iff_eq, hlower ha, hlower hb] at h
  exact String.toList_inj.mp h

/-! ### Valid names stay valid -/

theorem utf8Size_of_isNameChar {c : Char} (h : IsNameChar c) : c.utf8Size = 1 := by
  rw [Char.utf8Size_eq_one_iff]
  rcases h with hlower | hdigit | rfl
  · simp only [Char.isLower, Bool.and_eq_true, decide_eq_true_eq] at hlower
    exact UInt32.le_trans hlower.2 (by decide)
  · simp only [Char.isDigit, Bool.and_eq_true, decide_eq_true_eq] at hdigit
    exact UInt32.le_trans hdigit.2 (by decide)
  · decide

theorem utf8Len_of_isNameChar {cs : List Char} (h : ∀ c ∈ cs, IsNameChar c) : String.utf8Len cs = cs.length :=
  utf8Len_of_utf8Size_eq_one fun c hc => utf8Size_of_isNameChar (h c hc)

theorem isDigit_of_mem_toString {i : ℕ} {c : Char} (h : c ∈ (toString i).toList) : c.isDigit = true := by
  have htext : (toString i).toList = Nat.toDigits 10 i := Nat.toList_repr
  rw [htext] at h
  exact Nat.isDigit_of_mem_toDigits (by omega) (by omega) h

theorem utf8ByteSize_toString (i : ℕ) : (toString i).utf8ByteSize = (Nat.toDigits 10 i).length := by
  show (String.ofList (Nat.toDigits 10 i)).utf8ByteSize = _
  rw [String.utf8ByteSize_ofList, utf8Len_of_isNameChar fun c hc => ?_]
  exact Or.inr (Or.inl (Nat.isDigit_of_mem_toDigits (by omega) (by omega) hc))

theorem utf8ByteSize_toString_mono {i j : ℕ} (h : i ≤ j) : (toString i).utf8ByteSize ≤ (toString j).utf8ByteSize := by
  rw [utf8ByteSize_toString, utf8ByteSize_toString,
    Nat.length_toDigits_le_iff (by omega) (List.length_pos_iff.mpr Nat.toDigits_ne_nil)]
  exact h.trans_lt ((Nat.length_toDigits_le_iff (by omega) (List.length_pos_iff.mpr Nat.toDigits_ne_nil)).mp le_rfl)

theorem utf8ByteSize_suffixed (desired : String) (i : ℕ) :
    (desired ++ "-" ++ toString i).utf8ByteSize = desired.utf8ByteSize + 1 + (toString i).utf8ByteSize := by
  rw [String.utf8ByteSize_append, String.utf8ByteSize_append]
  rfl

/-- A suffix makes a valid name too long or leaves it valid. -/
theorem isValidHostname_suffixed {desired : String} (hvalid : isValidHostname desired = true) (i : ℕ) :
    isValidHostname (desired ++ "-" ++ toString i) = true ↔ (desired ++ "-" ++ toString i).utf8ByteSize ≤ 63 := by
  obtain ⟨hne, -, hhead, -, hchars⟩ := isValidHostname_iff.mp hvalid
  have hsome : (toString i).toList ≠ [] := by
    have htext : (toString i).toList = Nat.toDigits 10 i := Nat.toList_repr
    rw [htext]
    exact Nat.toDigits_ne_nil
  refine ⟨fun h => (isValidHostname_iff.mp h).2.1, fun hsize => isValidHostname_iff.mpr ?_⟩
  rw [String.toList_append, String.toList_append]
  refine ⟨by simp [hne], hsize, ?_, ?_, fun c hc => ?_⟩
  · rwa [List.append_assoc, List.head?_append_of_ne_nil _ hne]
  · rw [List.getLast?_append_of_ne_nil _ hsome]
    intro hlast
    exact absurd (isDigit_of_mem_toString (List.mem_of_getLast? hlast)) (by decide)
  · rcases List.mem_append.mp hc with hfront | hdigit
    · rcases List.mem_append.mp hfront with hname | hhyphen
      · exact hchars c hname
      · exact Or.inr (Or.inr (by simpa using hhyphen))
    · exact Or.inr (Or.inl (isDigit_of_mem_toString hdigit))

/-- What an admitted name is: free, and valid if the wish was valid and it is not too long. -/
theorem admissionHostname_ok {desired name : String} {taken : List String} {authoritative : Bool}
    (h : admissionHostname desired taken authoritative = some (.ok name)) :
    name ∉ taken ∧ (isValidHostname desired = true → name.utf8ByteSize ≤ 63 → isValidHostname name = true) := by
  rw [admissionHostname] at h
  split at h
  · split at h
    · cases h
    · rename_i hfree
      cases h
      exact ⟨hfree, fun hvalid _ => hvalid⟩
  · obtain ⟨resolved, hresolve, heq⟩ := Option.map_eq_some_iff.mp h
    cases heq
    obtain ⟨i, -, rfl, hfree, -⟩ := resolveCollision_eq_some.mp hresolve
    refine ⟨hfree, fun hvalid hlen => ?_⟩
    by_cases hzero : i = 0
    · rwa [candidate, if_pos hzero]
    · rw [candidate, if_neg hzero] at hlen ⊢
      exact (isValidHostname_suffixed hvalid i).mpr hlen

/-! ### The search as a whole -/

theorem isValidHostname_candidate {desired : String} (hvalid : isValidHostname desired = true) (i : ℕ) :
    isValidHostname (candidate desired i) = true ↔ (candidate desired i).utf8ByteSize ≤ 63 := by
  unfold candidate
  split
  · exact iff_of_true hvalid (isValidHostname_iff.mp hvalid).2.1
  · exact isValidHostname_suffixed hvalid i

/-- Later candidates are no shorter. -/
theorem utf8ByteSize_candidate_mono (desired : String) {i j : ℕ} (h : i ≤ j) :
    (candidate desired i).utf8ByteSize ≤ (candidate desired j).utf8ByteSize := by
  by_cases hi : i = 0
  · rw [candidate, if_pos hi, candidate]
    split
    · exact le_rfl
    · rw [utf8ByteSize_suffixed]
      omega
  · have hj : j ≠ 0 := by omega
    rw [candidate, if_neg hi, candidate, if_neg hj, utf8ByteSize_suffixed, utf8ByteSize_suffixed]
    exact Nat.add_le_add_left (utf8ByteSize_toString_mono h) _

/-- **The search for a valid wish** ends within one candidate more than there are names, with a free and valid
name, exactly if some candidate of at most 63 bytes is free. -/
theorem resolve_collision_iff {desired : String} {taken : List String} (hvalid : isValidHostname desired = true) :
    (∃ i ≤ taken.length, (∀ j < i, candidate desired j ∈ taken) ∧
      resolveCollision desired taken = some (candidate desired i) ∧ candidate desired i ∉ taken ∧
      isValidHostname (candidate desired i) = true) ↔
    ∃ i < 2 ^ 32, candidate desired i ∉ taken ∧ (candidate desired i).utf8ByteSize ≤ 63 := by
  constructor
  · rintro ⟨i, -, -, hresolve, hfree, hname⟩
    obtain ⟨k, hk, heq, -, -⟩ := resolveCollision_eq_some.mp hresolve
    obtain rfl := candidate_injective desired heq
    exact ⟨_, hk, hfree, (isValidHostname_candidate hvalid _).mp hname⟩
  · rintro ⟨k, hk, hkfree, hksize⟩
    obtain ⟨name, hresolve⟩ := Option.isSome_iff_exists.mp (resolveCollision_isSome.mpr ⟨k, hk, hkfree⟩)
    obtain ⟨i, hi, rfl, hfree, htaken⟩ := resolveCollision_eq_some.mp hresolve
    -- the first free candidate is not after `k`, so it is no longer
    have hle : i ≤ k := not_lt.mp fun hlt => hkfree (htaken k hlt)
    refine ⟨i, tried_le htaken, htaken, hresolve, hfree, (isValidHostname_candidate hvalid i).mpr ?_⟩
    exact (utf8ByteSize_candidate_mono desired hle).trans hksize

theorem resolve_collision_alice :
    ∃ i ≤ ["alice", "alice-1"].length, (∀ j < i, candidate "alice" j ∈ ["alice", "alice-1"]) ∧
      resolveCollision "alice" ["alice", "alice-1"] = some (candidate "alice" i) ∧
      candidate "alice" i ∉ ["alice", "alice-1"] ∧ isValidHostname (candidate "alice" i) = true := by
  have hvalid : isValidHostname "alice" = true := by decide +kernel
  refine (resolve_collision_iff hvalid).mpr ⟨2, by norm_num, ?_, ?_⟩
  · decide +kernel
  · decide +kernel

/-- **No room for a suffix**: the name of 63 letters is taken, and what is returned has 65. -/
theorem resolve_collision_too_long :
    isValidHostname (String.ofList (List.replicate 63 'a')) = true ∧
      resolveCollision (String.ofList (List.replicate 63 'a')) [String.ofList (List.replicate 63 'a')] =
        some (String.ofList (List.replicate 63 'a') ++ "-1") ∧
      isValidHostname (String.ofList (List.replicate 63 'a') ++ "-1") = false := by
  refine ⟨by decide +kernel, ?_, by decide +kernel⟩
  rw [resolveCollision_eq_some]
  refine ⟨1, by norm_num, rfl, by decide +kernel, by decide +kernel⟩

end Tetron.Hostname
