import Tetron.Membership.Assign

/-!
# What the tiebreak settles on

`resolve_ip_tiebreak` seats the members one after another, in the order of their identity bytes, each at its
lowest open index. So

* the addresses and indices of its input do not matter (`resolveIpTiebreak_congr`), and with them the order
  of the input does not, and a second run changes nothing;
* a roster is left as it is exactly if each member's lower indices all derive addresses of members before it
  (`seatedLowest_of_resolveIpTiebreak`, `resolveIpTiebreak_of_seatedLowest`).
-/

namespace Tetron.Membership

variable {Id : Type} [Endpoint Id]

/-! ### The order of the tiebreak -/

def Before (a b : Id) : Prop := compare (Endpoint.asBytes a) (Endpoint.asBytes b) = .lt

instance (a b : Id) : Decidable (Before a b) := inferInstanceAs (Decidable (_ = _))

theorem Before.irrefl (a : Id) : ¬ Before a a := by
  have hself : compare (Endpoint.asBytes a) (Endpoint.asBytes a) = .eq := Std.ReflCmp.compare_self
  rw [Before, hself]
  nofun

theorem Before.asymm {a b : Id} (h : Before a b) : ¬ Before b a := by
  have hswap : compare (Endpoint.asBytes b) (Endpoint.asBytes a) =
      (compare (Endpoint.asBytes a) (Endpoint.asBytes b)).swap := Std.OrientedCmp.eq_swap
  rw [Before, hswap, h]
  nofun

/-- The order the members are sorted by. -/
def bytesLe (a b : Member Id) : Prop := (compare (Endpoint.asBytes a.identity) (Endpoint.asBytes b.identity)).isLE

instance : DecidableRel (bytesLe : Member Id → Member Id → Prop) := fun _ _ => inferInstanceAs (Decidable (_ = true))

instance : Std.Total (bytesLe : Member Id → Member Id → Prop) where
  total a b := by
    have hswap : compare (Endpoint.asBytes b.identity) (Endpoint.asBytes a.identity) =
        (compare (Endpoint.asBytes a.identity) (Endpoint.asBytes b.identity)).swap := Std.OrientedCmp.eq_swap
    unfold bytesLe
    rw [hswap]
    cases compare (Endpoint.asBytes a.identity) (Endpoint.asBytes b.identity) <;> simp [Ordering.isLE, Ordering.swap]

instance : IsTrans (Member Id) bytesLe := ⟨fun _ _ _ hab hbc => Std.TransCmp.isLE_trans hab hbc⟩

section Bytes

variable (hbytes : Function.Injective (Endpoint.asBytes : Id → Bytes))
include hbytes

theorem before_of_bytesLe {a b : Member Id} (h : bytesLe a b) (hne : a.identity ≠ b.identity) :
    Before a.identity b.identity := by
  unfold bytesLe at h
  cases hcmp : compare (Endpoint.asBytes a.identity) (Endpoint.asBytes b.identity) with
  | lt => exact hcmp
  | eq => exact absurd (hbytes (Std.LawfulEqCmp.eq_of_compare hcmp)) hne
  | gt =>
    rw [hcmp] at h
    cases h

/-- Members with different identities are sorted strictly. -/
theorem pairwise_before {ms : List (Member Id)} (hids : (ms.map Member.identity).Nodup) :
    (ms.insertionSort bytesLe).Pairwise fun a b => Before a.identity b.identity := by
  have hsorted := List.pairwise_insertionSort bytesLe ms
  have hnodup : ((ms.insertionSort bytesLe).map Member.identity).Nodup :=
    (((List.perm_insertionSort bytesLe ms).map Member.identity).nodup_iff).mpr hids
  refine (hsorted.and (List.pairwise_map.mp hnodup)).imp fun {a b} h => ?_
  exact before_of_bytesLe hbytes h.1 h.2

end Bytes

variable [DecidableEq Id]

theorem resolveIpTiebreak_eq (ms : List (Member Id)) (subnet : Subnet) : resolveIpTiebreak ms subnet =
    ((ms.insertionSort bytesLe).foldlM (reseat subnet) MemberList.new).map MemberList.all := rfl

/-! ### The input's addresses do not matter -/

/-- The member without its seat. -/
def Member.unseated (m : Member Id) : Member Id := { m with ip := 0, collisionIndex := 0 }

omit [Endpoint Id] [DecidableEq Id] in
@[simp] theorem Member.identity_unseated (m : Member Id) : m.unseated.identity = m.identity := rfl

theorem reseat_unseated (subnet : Subnet) (list : MemberList Id) (m : Member Id) :
    reseat subnet list m.unseated = reseat subnet list m := rfl

theorem foldlM_reseat_unseated (subnet : Subnet) (ms : List (Member Id)) (list : MemberList Id) :
    (ms.map Member.unseated).foldlM (reseat subnet) list = ms.foldlM (reseat subnet) list := by
  induction ms generalizing list with
  | nil => rfl
  | cons m ms ih =>
    rw [List.map_cons, List.foldlM_cons, List.foldlM_cons, reseat_unseated]
    congr 1
    funext mid
    exact ih mid

theorem resolveIpTiebreak_unseated (ms : List (Member Id)) (subnet : Subnet) :
    resolveIpTiebreak (ms.map Member.unseated) subnet = resolveIpTiebreak ms subnet := by
  have hsort : (ms.map Member.unseated).insertionSort bytesLe = (ms.insertionSort bytesLe).map Member.unseated :=
    (List.map_insertionSort bytesLe bytesLe Member.unseated ms fun _ _ _ _ => Iff.rfl).symm
  rw [resolveIpTiebreak_eq, resolveIpTiebreak_eq, hsort, foldlM_reseat_unseated]

/-- **Seats and order of the input do not matter**: lists of the same members, seats aside, have one
tiebreak. -/
theorem resolveIpTiebreak_congr (hbytes : Function.Injective (Endpoint.asBytes : Id → Bytes))
    {ms ms' : List (Member Id)} (hids : (ms.map Member.identity).Nodup)
    (hperm : (ms.map Member.unseated).Perm (ms'.map Member.unseated)) (subnet : Subnet) :
    resolveIpTiebreak ms subnet = resolveIpTiebreak ms' subnet := by
  have hids' : ((ms.map Member.unseated).map Member.identity).Nodup := by
    rw [List.map_map]
    exact hids
  have hsort : (ms.map Member.unseated).insertionSort bytesLe = (ms'.map Member.unseated).insertionSort bytesLe := by
    refine List.insertionSort_eq_of_perm hperm fun a ha b hb hab hba => ?_
    refine List.inj_on_of_nodup_map hids' ha hb ?_
    by_contra hne
    exact (before_of_bytesLe hbytes hab hne).asymm (before_of_bytesLe hbytes hba (Ne.symm hne))
  rw [← resolveIpTiebreak_unseated ms, ← resolveIpTiebreak_unseated ms', resolveIpTiebreak_eq,
    resolveIpTiebreak_eq, hsort]

/-! ### Who is seated where -/

/-- Every index below the member's own derives an address of a member before it. -/
def LowerTaken (ms : List (Member Id)) (subnet : Subnet) (m : Member Id) : Prop :=
  ∀ j < m.collisionIndex, ∃ m' ∈ ms, Before m'.identity m.identity ∧ m'.ip = deriveIpWithIndex m.identity j subnet

instance (ms : List (Member Id)) (subnet : Subnet) (m : Member Id) : Decidable (LowerTaken ms subnet m) :=
  inferInstanceAs (Decidable (∀ j < m.collisionIndex, _))

omit [DecidableEq Id] in
theorem LowerTaken.mono {ms ms' : List (Member Id)} {subnet : Subnet} {m : Member Id}
    (h : LowerTaken ms subnet m) (hsub : ms ⊆ ms') : LowerTaken ms' subnet m := by
  intro j hj
  obtain ⟨m', hmem, hbefore, hip⟩ := h j hj
  exact ⟨m', hsub hmem, hbefore, hip⟩

/-- The member sits at the lowest index that the members before it leave open. -/
structure SeatedLowest (ms : List (Member Id)) (subnet : Subnet) (m : Member Id) : Prop where
  derived : m.Derived subnet
  index_lt : m.collisionIndex < 2 ^ 32
  lower : LowerTaken ms subnet m

section Seats

variable {subnet : Subnet} {list list' : MemberList Id} {a : Member Id}

omit [Endpoint Id] in
/-- The members after one more was seated, whom the list did not have. -/
theorem mem_all_reseat {ip : Ipv4Addr} {index : ℕ}
    (hget : ∀ id, list'.get id =
      if id = a.identity then some { a with ip := ip, collisionIndex := index } else list.get id)
    (hnew : ∀ m ∈ list.all, m.identity ≠ a.identity) {m : Member Id} :
    m ∈ list'.all ↔ m = { a with ip := ip, collisionIndex := index } ∨ m ∈ list.all := by
  rw [MemberList.mem_all_iff, hget]
  constructor
  · intro h
    split at h
    · exact Or.inl (Option.some.inj h).symm
    · exact Or.inr (MemberList.mem_all_iff.mpr h)
  · rintro (rfl | hmem)
    · exact if_pos rfl
    · rw [if_neg (hnew m hmem)]
      exact MemberList.mem_all_iff.mp hmem

theorem ne_of_before (h : ∀ m ∈ list.all, Before m.identity a.identity) :
    ∀ m ∈ list.all, m.identity ≠ a.identity :=
  fun m hm heq => Before.irrefl a.identity (heq ▸ h m hm)

/-- A member at its lowest index is assigned its seat again, once those before it are seated. -/
theorem assignIp_of_seatedLowest {later : List (Member Id)} (hseat : SeatedLowest (list.all ++ a :: later) subnet a)
    (hbefore : ∀ m ∈ list.all, Before m.identity a.identity) (hlater : ∀ b ∈ later, Before a.identity b.identity)
    (hips : ∀ m ∈ list.all, m.ip = a.ip → m = a) :
    assignIp list a.identity subnet = some (a.ip, a.collisionIndex) := by
  obtain ⟨hderived, hindex, hlower⟩ := hseat
  refine assignIp_eq_some_iff.mpr ⟨hindex, hderived, fun m hm hip => ?_, fun j hj hopen => ?_⟩
  · rw [hips m hm hip]
  · obtain ⟨m', hm', hbefore', hip'⟩ := hlower j hj
    rcases List.mem_append.mp hm' with hold | hrest
    · exact ne_of_before hbefore m' hold (hopen m' hold hip')
    · rcases List.mem_cons.mp hrest with rfl | hmem
      · exact Before.irrefl _ hbefore'
      · exact hbefore'.asymm (hlater m' hmem)

/-- Seating a sorted list leaves everybody at the lowest index. -/
theorem seatedLowest_of_foldlM {ms : List (Member Id)} (hsorted : ms.Pairwise fun a b => Before a.identity b.identity)
    (hbefore : ∀ m ∈ list.all, ∀ a ∈ ms, Before m.identity a.identity)
    (hlist : ∀ m ∈ list.all, SeatedLowest list.all subnet m)
    (h : ms.foldlM (reseat subnet) list = some list') : ∀ m ∈ list'.all, SeatedLowest list'.all subnet m := by
  induction ms generalizing list with
  | nil =>
    cases h
    exact hlist
  | cons a ms ih =>
    rw [List.foldlM_cons] at h
    obtain ⟨mid, hmid, hrest⟩ := Option.bind_eq_some_iff.mp h
    obtain ⟨ip, index, hassign, hget⟩ := reseat_eq_some hmid
    obtain ⟨hlt, hip, -, hleast⟩ := assignIp_eq_some_iff.mp hassign
    obtain ⟨hfirst, hsorted⟩ := List.pairwise_cons.mp hsorted
    have hnew := ne_of_before fun m hm => hbefore m hm a List.mem_cons_self
    have hmem : ∀ m, m ∈ mid.all ↔ _ := fun m => mem_all_reseat hget hnew
    have hsub : list.all ⊆ mid.all := fun m hm => (hmem m).mpr (Or.inr hm)
    refine ih hsorted (fun m hm b hb => ?_) (fun m hm => ?_) hrest
    · rcases (hmem m).mp hm with rfl | hold
      · exact hfirst b hb
      · exact hbefore m hold b (List.mem_cons_of_mem _ hb)
    · rcases (hmem m).mp hm with rfl | hold
      · refine ⟨hip, hlt, fun j hj => ?_⟩
        -- what holds the address of a lower index was seated before
        have hheld := hleast j hj
        simp only [MemberList.OpenTo, not_forall] at hheld
        obtain ⟨m', hm', hip', -⟩ := hheld
        exact ⟨m', hsub hm', hbefore m' hm' a List.mem_cons_self, hip'⟩
      · obtain ⟨hderived, hindex, hlower⟩ := hlist m hold
        exact ⟨hderived, hindex, hlower.mono hsub⟩

/-- Members that sit at their lowest indices, one to an address, are seated where they are. -/
theorem foldlM_of_seatedLowest {ms : List (Member Id)} (hsorted : ms.Pairwise fun a b => Before a.identity b.identity)
    (hbefore : ∀ m ∈ list.all, ∀ a ∈ ms, Before m.identity a.identity)
    (hips : ∀ m ∈ list.all ++ ms, ∀ m' ∈ list.all ++ ms, m.ip = m'.ip → m = m')
    (hms : ∀ m ∈ ms, SeatedLowest (list.all ++ ms) subnet m) :
    ∃ list', ms.foldlM (reseat subnet) list = some list' ∧ ∀ m, m ∈ list'.all ↔ m ∈ list.all ++ ms := by
  induction ms generalizing list with
  | nil => exact ⟨list, rfl, fun m => by rw [List.append_nil]⟩
  | cons a ms ih =>
    obtain ⟨hfirst, hsorted⟩ := List.pairwise_cons.mp hsorted
    have hnew := ne_of_before fun m hm => hbefore m hm a List.mem_cons_self
    have hassign : assignIp list a.identity subnet = some (a.ip, a.collisionIndex) :=
      assignIp_of_seatedLowest (hms a List.mem_cons_self) (fun m hm => hbefore m hm a List.mem_cons_self) hfirst
        fun m hm => hips m (List.mem_append_left _ hm) a (List.mem_append_right _ List.mem_cons_self)
    have hreseat : reseat subnet list a = some (list.addOrKeep a) := by
      rw [reseat, hassign]
      rfl
    obtain ⟨ip, index, hassign', hget⟩ := reseat_eq_some hreseat
    cases hassign.symm.trans hassign'
    have hmem : ∀ m, m ∈ (list.addOrKeep a).all ↔ m = a ∨ m ∈ list.all := fun m => mem_all_reseat hget hnew
    have hall : ∀ m, m ∈ (list.addOrKeep a).all ++ ms ↔ m ∈ list.all ++ a :: ms := by
      intro m
      rw [List.mem_append, hmem, List.mem_append, List.mem_cons, or_comm (a := m = a), or_assoc]
    have hrest : ∀ m ∈ ms, SeatedLowest ((list.addOrKeep a).all ++ ms) subnet m := by
      intro m hm
      obtain ⟨hderived, hindex, hlower⟩ := hms m (List.mem_cons_of_mem _ hm)
      exact ⟨hderived, hindex, hlower.mono fun m' hm' => (hall m').mpr hm'⟩
    have hbefore' : ∀ m ∈ (list.addOrKeep a).all, ∀ b ∈ ms, Before m.identity b.identity := by
      intro m hm b hb
      rcases (hmem m).mp hm with rfl | hold
      · exact hfirst b hb
      · exact hbefore m hold b (List.mem_cons_of_mem _ hb)
    obtain ⟨list', hfold, hmembers⟩ := ih hsorted hbefore'
      (fun m hm m' hm' => hips m ((hall m).mp hm) m' ((hall m').mp hm')) hrest
    refine ⟨list', ?_, fun m => (hmembers m).trans (hall m)⟩
    rw [List.foldlM_cons, hreseat]
    exact hfold

end Seats

/-! ### The result -/

/-- Whoever was seated is one of the list, seats aside. -/
theorem exists_unseated_of_foldlM {subnet : Subnet} {ms : List (Member Id)} {list list' : MemberList Id}
    (h : ms.foldlM (reseat subnet) list = some list') {m : Member Id} (hm : m ∈ list'.all) :
    m ∈ list.all ∨ ∃ a ∈ ms, m.unseated = a.unseated := by
  induction ms generalizing list with
  | nil =>
    cases h
    exact Or.inl hm
  | cons a ms ih =>
    rw [List.foldlM_cons] at h
    obtain ⟨mid, hmid, hrest⟩ := Option.bind_eq_some_iff.mp h
    obtain ⟨ip, index, -, hget⟩ := reseat_eq_some hmid
    rcases ih hrest with hmem | ⟨b, hb, heq⟩
    · have hmem := MemberList.mem_all_iff.mp hmem
      rw [hget] at hmem
      split at hmem
      · cases hmem
        exact Or.inr ⟨a, List.mem_cons_self, rfl⟩
      · exact Or.inl (MemberList.mem_all_iff.mpr hmem)
    · exact Or.inr ⟨b, List.mem_cons_of_mem _ hb, heq⟩

/-- The tiebreak changes seats and nothing else. -/
theorem perm_unseated_of_resolveIpTiebreak {subnet : Subnet} {ms r : List (Member Id)}
    (hids : (ms.map Member.identity).Nodup) (h : resolveIpTiebreak ms subnet = some r) :
    (r.map Member.unseated).Perm (ms.map Member.unseated) := by
  obtain ⟨list, rfl, hsome, -⟩ := resolveIpTiebreak_spec h
  have hfrom : ∀ m ∈ list.all, ∃ a ∈ ms, m.unseated = a.unseated := by
    intro m hm
    rw [resolveIpTiebreak_eq] at h
    obtain ⟨list', hfold, hall⟩ := Option.map_eq_some_iff.mp h
    rw [← hall] at hm
    rcases exists_unseated_of_foldlM hfold hm with hnew | ⟨a, ha, heq⟩
    · cases hnew
    · exact ⟨a, (List.mem_insertionSort bytesLe).mp ha, heq⟩
  have hnodup : ∀ {l : List (Member Id)}, (l.map Member.identity).Nodup → (l.map Member.unseated).Nodup := by
    intro l hl
    refine List.Nodup.of_map Member.identity ?_
    rwa [List.map_map]
  rw [List.perm_ext_iff_of_nodup (hnodup list.nodup_identities) (hnodup hids)]
  intro n
  simp only [List.mem_map]
  constructor
  · rintro ⟨m, hm, rfl⟩
    obtain ⟨a, ha, heq⟩ := hfrom m hm
    exact ⟨a, ha, heq.symm⟩
  · rintro ⟨a, ha, rfl⟩
    obtain ⟨m, hm⟩ := Option.isSome_iff_exists.mp ((hsome a.identity).mpr ⟨a, ha, rfl⟩)
    have hid := MemberList.identity_of_get hm
    have hmem := MemberList.mem_all_iff.mpr (hid.symm ▸ hm)
    -- the member found under the identity comes from an entry with that identity
    obtain ⟨b, hb, heq⟩ := hfrom m hmem
    have hsame : b.identity = a.identity := (congrArg Member.identity heq).symm.trans hid
    rw [List.inj_on_of_nodup_map hids hb ha hsame] at heq
    exact ⟨m, hmem, heq⟩

section Result

variable (hbytes : Function.Injective (Endpoint.asBytes : Id → Bytes)) {ms r : List (Member Id)} {subnet : Subnet}
include hbytes

/-- After the tiebreak everybody sits at the lowest index. -/
theorem seatedLowest_of_resolveIpTiebreak (hids : (ms.map Member.identity).Nodup)
    (h : resolveIpTiebreak ms subnet = some r) : ∀ m ∈ r, SeatedLowest r subnet m := by
  rw [resolveIpTiebreak_eq] at h
  obtain ⟨list, hfold, rfl⟩ := Option.map_eq_some_iff.mp h
  exact seatedLowest_of_foldlM (pairwise_before hbytes hids) (by nofun) (by nofun) hfold

/-- Members at their lowest indices, one to an address, keep their seats. -/
theorem resolveIpTiebreak_of_seatedLowest (hids : (ms.map Member.identity).Nodup)
    (hips : ∀ m ∈ ms, ∀ m' ∈ ms, m.ip = m'.ip → m = m') (hms : ∀ m ∈ ms, SeatedLowest ms subnet m) :
    ∃ r, resolveIpTiebreak ms subnet = some r ∧ ∀ m, m ∈ r ↔ m ∈ ms := by
  have hsort : ∀ m, m ∈ ms.insertionSort bytesLe ↔ m ∈ ms := fun m => List.mem_insertionSort bytesLe
  have hsub : ms ⊆ (MemberList.new : MemberList Id).all ++ ms.insertionSort bytesLe := fun m hm => (hsort m).mpr hm
  have hsorted : ∀ m ∈ ms.insertionSort bytesLe,
      SeatedLowest ((MemberList.new : MemberList Id).all ++ ms.insertionSort bytesLe) subnet m := by
    intro m hm
    obtain ⟨hderived, hindex, hlower⟩ := hms m ((hsort m).mp hm)
    exact ⟨hderived, hindex, hlower.mono hsub⟩
  have hips' : ∀ m ∈ (MemberList.new : MemberList Id).all ++ ms.insertionSort bytesLe,
      ∀ m' ∈ (MemberList.new : MemberList Id).all ++ ms.insertionSort bytesLe, m.ip = m'.ip → m = m' :=
    fun m hm m' hm' => hips m ((hsort m).mp hm) m' ((hsort m').mp hm')
  obtain ⟨list, hfold, hall⟩ := foldlM_of_seatedLowest (pairwise_before hbytes hids) (by nofun) hips' hsorted
  refine ⟨list.all, ?_, fun m => (hall m).trans (hsort m)⟩
  rw [resolveIpTiebreak_eq, hfold]
  rfl

/-- The tiebreak leaves a roster of derived addresses alone exactly if no address is there twice and every
lower index is taken. -/
theorem resolveIpTiebreak_fixes_iff (hids : (ms.map Member.identity).Nodup)
    (hseats : ∀ m ∈ ms, m.Derived subnet ∧ m.collisionIndex < 2 ^ 32) :
    (∃ r, resolveIpTiebreak ms subnet = some r ∧ ∀ m, m ∈ r ↔ m ∈ ms) ↔
      (∀ m ∈ ms, ∀ m' ∈ ms, m.ip = m'.ip → m = m') ∧ ∀ m ∈ ms, LowerTaken ms subnet m := by
  constructor
  · rintro ⟨r, hr, hmem⟩
    have hlowest := seatedLowest_of_resolveIpTiebreak hbytes hids hr
    obtain ⟨list, rfl, -, -⟩ := resolveIpTiebreak_spec hr
    refine ⟨fun m hm m' hm' => MemberList.eq_of_ip_eq ((hmem m).mpr hm) ((hmem m').mpr hm'), fun m hm => ?_⟩
    exact (hlowest m ((hmem m).mpr hm)).lower.mono fun m' hm' => (hmem m').mp hm'
  · rintro ⟨hips, hlower⟩
    refine resolveIpTiebreak_of_seatedLowest hbytes hids hips fun m hm => ?_
    exact ⟨(hseats m hm).1, (hseats m hm).2, hlower m hm⟩

/-- A second tiebreak finds everybody seated. -/
theorem resolveIpTiebreak_idem (hids : (ms.map Member.identity).Nodup) (h : resolveIpTiebreak ms subnet = some r) :
    resolveIpTiebreak r subnet = some r := by
  rw [← h]
  exact (resolveIpTiebreak_congr hbytes hids (perm_unseated_of_resolveIpTiebreak hids h).symm subnet).symm

end Result

end Tetron.Membership
