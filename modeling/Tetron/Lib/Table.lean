import Mathlib

/-!
# Hash tables and ordered maps

A hash table is an association list without repeated keys (`AList`); the order of its entries is
the order an iteration over it visits them. A caller that wants this order to be arbitrary lets a
step start from any table with the `Same` entries.

An ordered map is `Std.ExtTreeMap`; the one fact added here (`toList_eq_of_mem_iff`) reads its
in-order listing off its lookups.
-/

/-- A hash table with its entries in iteration order. -/
abbrev HashTable (κ ν : Type*) := AList (fun _ : κ => ν)

namespace HashTable

variable {κ ν : Type*}

/-- The same entries, in any iteration order. -/
def Same (t u : HashTable κ ν) : Prop := t.entries.Perm u.entries

def retain (t : HashTable κ ν) (keep : κ → ν → Bool) : HashTable κ ν :=
  ⟨t.entries.filter fun e => keep e.1 e.2, t.nodupKeys.sublist List.filter_sublist⟩

def size (t : HashTable κ ν) : ℕ := t.entries.length

def values (t : HashTable κ ν) : List ν := t.entries.map fun e => e.2

/-- The entry with the least `rank`, the first visited one among equals. -/
def minEntry (rank : ν → ℕ) : List (Σ _ : κ, ν) → Option (Σ _ : κ, ν)
  | [] => none
  | e :: rest =>
    match minEntry rank rest with
    | none => some e
    | some m => if rank m.2 < rank e.2 then some m else some e

def minByKey (t : HashTable κ ν) (rank : ν → ℕ) : Option κ := (minEntry rank t.entries).map (·.1)

theorem Same.size {t u : HashTable κ ν} (h : Same t u) : t.size = u.size := h.length_eq

theorem size_retain_le (t : HashTable κ ν) (keep : κ → ν → Bool) : (t.retain keep).size ≤ t.size :=
  List.length_filter_le _ _

theorem minEntry_mem {rank : ν → ℕ} {l : List (Σ _ : κ, ν)} {e : Σ _ : κ, ν} (h : minEntry rank l = some e) :
    e ∈ l := by
  induction l generalizing e with
  | nil => cases h
  | cons first rest ih =>
    rw [minEntry] at h
    cases hmin : minEntry rank rest with
    | none =>
      rw [hmin] at h
      exact Option.some.inj h ▸ List.mem_cons_self
    | some m =>
      simp only [hmin] at h
      split at h
      · exact Option.some.inj h ▸ List.mem_cons_of_mem _ (ih hmin)
      · exact Option.some.inj h ▸ List.mem_cons_self

/-- A table that is not empty has a least entry. -/
theorem exists_minByKey {t : HashTable κ ν} (rank : ν → ℕ) (h : 0 < t.size) :
    ∃ k, t.minByKey rank = some k ∧ k ∈ t := by
  obtain ⟨e, he⟩ : ∃ e, minEntry rank t.entries = some e := by
    obtain ⟨first, rest, hentries⟩ := List.exists_cons_of_length_pos h
    rw [hentries, minEntry]
    cases minEntry rank rest with
    | none => exact ⟨_, rfl⟩
    | some m =>
      dsimp only
      split
      · exact ⟨_, rfl⟩
      · exact ⟨_, rfl⟩
  exact ⟨e.1, by rw [minByKey, he, Option.map_some], AList.mem_keys.mpr (List.mem_keys_of_mem (minEntry_mem he))⟩

section Lookup

variable [DecidableEq κ]

def get? (t : HashTable κ ν) (k : κ) : Option ν := AList.lookup k t

def insert (t : HashTable κ ν) (k : κ) (v : ν) : HashTable κ ν := AList.insert k v t

def erase (t : HashTable κ ν) (k : κ) : HashTable κ ν := AList.erase k t

variable {t u : HashTable κ ν} {k k' : κ} {v : ν}

theorem get?_eq_some_iff : t.get? k = some v ↔ (⟨k, v⟩ : Σ _ : κ, ν) ∈ t.entries :=
  AList.mem_lookup_iff

theorem get?_eq_none : t.get? k = none ↔ k ∉ t := AList.lookup_eq_none

theorem mem_of_get?_eq_some (h : t.get? k = some v) : k ∈ t := by
  by_contra hout
  rw [get?_eq_none.mpr hout] at h
  cases h

theorem Same.get? (h : Same t u) (k : κ) : t.get? k = u.get? k := AList.perm_lookup h

@[simp] theorem get?_empty : (∅ : HashTable κ ν).get? k = none := rfl

theorem get?_insert : (t.insert k v).get? k' = if k' = k then some v else t.get? k' := by
  by_cases h : k' = k
  · subst h; simp [insert, HashTable.get?]
  · simp [insert, HashTable.get?, h, AList.lookup_insert_ne h]

theorem get?_erase : (t.erase k).get? k' = if k' = k then none else t.get? k' := by
  by_cases h : k' = k
  · subst h; simp [erase, HashTable.get?]
  · simp [erase, HashTable.get?, h, AList.lookup_erase_ne h]

/-- An entry after an insertion is the new one or an old one. -/
theorem get?_of_insert {w : ν} (h : (t.insert k v).get? k' = some w) : (k' = k ∧ v = w) ∨ t.get? k' = some w := by
  rw [get?_insert] at h
  split at h
  · exact .inl ⟨‹_›, Option.some.inj h⟩
  · exact .inr h

/-- An entry after an erasure is an old one. -/
theorem get?_of_erase (h : (t.erase k).get? k' = some v) : t.get? k' = some v := by
  rw [get?_erase] at h
  split at h
  · cases h
  · exact h

theorem get?_retain (keep : κ → ν → Bool) : (t.retain keep).get? k = (t.get? k).filter (keep k) := by
  ext v
  rw [get?_eq_some_iff, Option.filter_eq_some_iff, get?_eq_some_iff]
  simp [retain]

theorem get?_of_size_eq_zero (h : t.size = 0) (k : κ) : t.get? k = none := by
  have hempty : t.entries = [] := List.length_eq_zero_iff.mp h
  cases hget : t.get? k with
  | none => rfl
  | some v =>
    have hmem := get?_eq_some_iff.mp hget
    rw [hempty] at hmem
    cases hmem

theorem mem_values_iff : v ∈ t.values ↔ ∃ k, t.get? k = some v := by
  simp only [values, List.mem_map, get?_eq_some_iff]
  constructor
  · rintro ⟨⟨k, w⟩, he, rfl⟩; exact ⟨k, he⟩
  · rintro ⟨k, he⟩; exact ⟨⟨k, v⟩, he, rfl⟩

theorem size_erase_of_mem (h : k ∈ t) : (t.erase k).size + 1 = t.size := by
  obtain ⟨v, front, back, -, hentries, herased⟩ := List.exists_of_kerase (AList.mem_keys.mp h)
  have hsize : (t.erase k).size = (List.kerase k t.entries).length := rfl
  rw [hsize, herased, size, hentries, List.length_append, List.length_append, List.length_cons, Nat.add_assoc]

theorem size_erase_le (t : HashTable κ ν) (k : κ) : (t.erase k).size ≤ t.size :=
  (List.kerase_sublist k t.entries).length_le

theorem size_insert (t : HashTable κ ν) (k : κ) (v : ν) : (t.insert k v).size = (t.erase k).size + 1 := rfl

/-- Tables with the same look-ups have the same values, in some order. -/
theorem values_perm (h : ∀ k, t.get? k = u.get? k) : t.values.Perm u.values := by
  have hentries : t.entries.Perm u.entries := AList.toFinmap_eq.mp (Finmap.ext_lookup h)
  exact hentries.map _

theorem values_insert (t : HashTable κ ν) (k : κ) (v : ν) : (t.insert k v).values = v :: (t.erase k).values := rfl

/-- The values are the one under `k` and those of the table without it. -/
theorem values_erase (h : t.get? k = some v) : t.values.Perm (v :: (t.erase k).values) := by
  rw [← values_insert]
  refine values_perm fun k' => ?_
  rw [get?_insert]
  split
  · rename_i heq
    rw [heq, h]
  · rfl

theorem erase_of_get?_eq_none (h : t.get? k = none) : t.values.Perm (t.erase k).values := by
  refine values_perm fun k' => ?_
  rw [get?_erase]
  split
  · rename_i heq
    rw [heq, h]
  · rfl

end Lookup

end HashTable

namespace List

/-- Sorting forgets the order of a list, where the ranking tells its elements apart. -/
theorem insertionSort_eq_of_perm {α : Type*} {r : α → α → Prop} [DecidableRel r] [Std.Total r] [IsTrans α r]
    {l l' : List α} (hperm : l.Perm l') (hanti : ∀ a ∈ l, ∀ b ∈ l, r a b → r b a → a = b) :
    l.insertionSort r = l'.insertionSort r := by
  have hsorted : (l.insertionSort r).Perm (l'.insertionSort r) :=
    ((perm_insertionSort r l).trans hperm).trans (perm_insertionSort r l').symm
  refine hsorted.eq_of_pairwise (fun a b ha hb h1 h2 => ?_) (pairwise_insertionSort r l)
    (pairwise_insertionSort r l')
  have ha' : a ∈ l := (mem_insertionSort r).mp ha
  have hb' : b ∈ l := hperm.mem_iff.mpr ((mem_insertionSort r).mp hb)
  exact hanti a ha' b hb' h1 h2

/-- The entries of a map `f`, put one by one and in any order into a store that starts empty, give `f`:
`step` has to succeed only on an entry of `f` and a store that holds nothing but entries of `f`. -/
theorem get_foldl_of_entries {σ κ ν : Type*} [DecidableEq κ] (get : σ → κ → Option ν) (key : ν → κ)
    {step : σ → ν → σ} {f : κ → Option ν}
    (hstep : ∀ acc v, (∀ k w, get acc k = some w → f k = some w) → f (key v) = some v →
      ∀ k, get (step acc v) k = if k = key v then some v else get acc k)
    (hkey : ∀ k v, f k = some v → key v = k) {vs : List ν} (hvs : ∀ v, v ∈ vs ↔ f (key v) = some v) {start : σ}
    (hstart : ∀ k, get start k = none) (k : κ) : get (vs.foldl step start) k = f k := by
  -- a prefix of the list fills in the keys it has met
  suffices hfold : ∀ (ws : List ν) (acc : σ), (∀ k w, get acc k = some w → f k = some w) →
      (∀ w ∈ ws, f (key w) = some w) →
      get (ws.foldl step acc) k = if k ∈ ws.map key then f k else get acc k by
    rw [hfold vs start (fun k w hw => by rw [hstart] at hw; cases hw) fun w hw => (hvs w).mp hw, hstart]
    split
    · rfl
    · rename_i habsent
      cases hf : f k with
      | none => rfl
      | some v =>
        have hk := hkey k v hf
        exact absurd (mem_map.mpr ⟨v, (hvs v).mpr (hk ▸ hf), hk⟩) habsent
  intro ws
  induction ws with
  | nil => exact fun acc _ _ => by simp
  | cons w ws ih =>
    intro acc hacc hws
    have hw := hws w mem_cons_self
    have hget := hstep acc w hacc hw
    have hacc' : ∀ k v, get (step acc w) k = some v → f k = some v := by
      intro k v hv
      rw [hget] at hv
      split at hv
      · rename_i heq
        rw [heq, ← Option.some.inj hv]
        exact hw
      · exact hacc k v hv
    rw [foldl_cons, ih (step acc w) hacc' fun v hv => hws v (mem_cons_of_mem _ hv), hget, map_cons]
    by_cases htail : k ∈ ws.map key
    · rw [if_pos htail, if_pos (mem_cons_of_mem _ htail)]
    · by_cases hhead : k = key w
      · rw [if_neg htail, if_pos hhead, if_pos (hhead ▸ mem_cons_self), hhead, hw]
      · rw [if_neg htail, if_neg hhead, if_neg (by simp [hhead, htail])]

end List

namespace OrderedMap

variable {ν : Type*}

section Lookup

variable {κ : Type*} [Ord κ] [Std.TransOrd κ] [Std.LawfulEqOrd κ] [DecidableEq κ] {t : Std.ExtTreeMap κ ν}
  {k k' : κ} {v : ν}

theorem getElem?_insert : (t.insert k v)[k']? = if k' = k then some v else t[k']? := by
  rw [Std.ExtTreeMap.getElem?_insert]
  simp only [Std.compare_eq_iff_eq, eq_comm (a := k)]

theorem getElem?_erase : (t.erase k)[k']? = if k' = k then none else t[k']? := by
  rw [Std.ExtTreeMap.getElem?_erase]
  simp only [Std.compare_eq_iff_eq, eq_comm (a := k)]

end Lookup

/-- The listing of an ordered map is the one strictly ascending list with its entries. -/
theorem toList_eq_of_mem_iff {t : Std.ExtTreeMap ℕ ν} {l : List (ℕ × ν)}
    (hsorted : l.Pairwise (fun a b => a.1 < b.1)) (hmem : ∀ k v, t[k]? = some v ↔ (k, v) ∈ l) :
    t.toList = l := by
  have hasc : t.toList.Pairwise (fun a b => a.1 < b.1) := by
    refine Std.ExtTreeMap.ordered_keys_toList.imp fun {a b} h => ?_
    exact Nat.compare_eq_lt.mp h
  have hnodup : ∀ {m : List (ℕ × ν)}, m.Pairwise (fun a b => a.1 < b.1) → m.Nodup := fun h =>
    h.imp fun {a b} hlt heq => by rw [heq] at hlt; exact lt_irrefl _ hlt
  have hperm : t.toList.Perm l := by
    rw [List.perm_ext_iff_of_nodup (hnodup hasc) (hnodup hsorted)]
    rintro ⟨k, v⟩
    rw [Std.ExtTreeMap.mem_toList_iff_getElem?_eq_some, hmem]
  refine hperm.eq_of_pairwise (fun a b _ _ h1 h2 => ?_) hasc hsorted
  exact absurd h1 (lt_asymm h2)

end OrderedMap
