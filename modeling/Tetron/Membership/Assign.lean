import Tetron.Membership.Roster

/-!
# Assigning and validating addresses

An entry is *derived* when its address is the one its identity and recorded collision index give in
a subnet. `assign_ip` produces derived addresses that no other identity holds; the reconverge
tiebreak reseats a whole roster that way; `validate_member` and `validate_approved` accept exactly
the derived entries of a usable subnet (`validateMember_iff`).
-/

namespace Tetron.Membership

variable {Id : Type} [DecidableEq Id] [Endpoint Id]

/-! ### Assigning -/

/-- The loop of `assign_ip` from collision index `index` on. -/
def assignFrom (members : MemberList Id) (identity : Id) (subnet : Subnet) : ℕ → ℕ → Option (Ipv4Addr × ℕ)
  | 0, _ => none
  | fuel + 1, index =>
    let ip := deriveIpWithIndex identity index subnet
    match members.getByIp ip with
    | some existing =>
      if existing.identity ≠ identity then assignFrom members identity subnet fuel (index + 1)
      else some (ip, index)
    | none => some (ip, index)

def assignIp (members : MemberList Id) (identity : Id) (subnet : Subnet) : Option (Ipv4Addr × ℕ) :=
  assignFrom members identity subnet (2 ^ 32) 0

section Search

variable {members : MemberList Id} {identity : Id} {subnet : Subnet} {ip : Ipv4Addr} {index : ℕ}

/-- The loop looks for the first index whose address is open to the identity. -/
theorem assignFrom_eq_find? (fuel start : ℕ) : assignFrom members identity subnet fuel start =
    ((List.range' start fuel).find? fun i =>
      members.OpenTo identity (deriveIpWithIndex identity i subnet)).map
        fun i => (deriveIpWithIndex identity i subnet, i) := by
  induction fuel generalizing start with
  | zero => rfl
  | succ fuel ih =>
    rw [assignFrom, List.range'_succ, List.find?_cons]
    cases hheld : members.getByIp (deriveIpWithIndex identity start subnet) with
    | none =>
      have hopen : members.OpenTo identity _ := MemberList.openTo_of_getByIp_none hheld
      simp only [hopen, decide_true, Option.map_some]
    | some existing =>
      have hopen : members.OpenTo identity _ ↔ existing.identity = identity :=
        MemberList.openTo_iff_of_getByIp hheld
      by_cases hsame : existing.identity = identity
      · simp only [hopen, hsame, ne_eq, not_true, if_false, decide_true, Option.map_some]
      · simp only [hopen, hsame, ne_eq, not_false_eq_true, if_true, decide_false, ih]

/-- **The lowest open index**: what `assign_ip` returns, and that it is the first of its kind. -/
theorem assignIp_eq_some_iff : assignIp members identity subnet = some (ip, index) ↔
    index < 2 ^ 32 ∧ ip = deriveIpWithIndex identity index subnet ∧ members.OpenTo identity ip ∧
      ∀ j < index, ¬ members.OpenTo identity (deriveIpWithIndex identity j subnet) := by
  simp only [assignIp, assignFrom_eq_find?, Option.map_eq_some_iff, List.find?_range'_eq_some,
    List.mem_range'_1, decide_eq_true_eq, Bool.not_eq_true', decide_eq_false_iff_not, Prod.mk.injEq]
  constructor
  · rintro ⟨i, ⟨hopen, ⟨-, hlt⟩, hleast⟩, rfl, rfl⟩
    exact ⟨by omega, rfl, hopen, fun j hj => hleast j (Nat.zero_le j) hj⟩
  · rintro ⟨hlt, rfl, hopen, hleast⟩
    exact ⟨index, ⟨hopen, ⟨Nat.zero_le _, by omega⟩, fun j _ hj => hleast j hj⟩, rfl, rfl⟩

theorem assignIp_isSome_iff : (assignIp members identity subnet).isSome = true ↔
    ∃ index < 2 ^ 32, members.OpenTo identity (deriveIpWithIndex identity index subnet) := by
  simp only [assignIp, assignFrom_eq_find?, Option.isSome_map, List.find?_isSome, List.mem_range'_1,
    decide_eq_true_eq]
  constructor
  · rintro ⟨index, ⟨-, hlt⟩, hopen⟩
    exact ⟨index, by omega, hopen⟩
  · rintro ⟨index, hlt, hopen⟩
    exact ⟨index, ⟨Nat.zero_le _, by omega⟩, hopen⟩

end Search

/-! ### Derived entries -/

def Member.Derived (m : Member Id) (subnet : Subnet) : Prop :=
  m.ip = deriveIpWithIndex m.identity m.collisionIndex subnet

def ApprovedEntry.Derived (e : ApprovedEntry Id) (subnet : Subnet) : Prop :=
  e.ip = deriveIpWithIndex e.identity e.collisionIndex subnet

instance (m : Member Id) (subnet : Subnet) : Decidable (m.Derived subnet) := inferInstanceAs (Decidable (_ = _))

instance (e : ApprovedEntry Id) (subnet : Subnet) : Decidable (e.Derived subnet) :=
  inferInstanceAs (Decidable (_ = _))

def validateMember (m : Member Id) (subnet : Subnet) : Bool :=
  m.ip == deriveIpWithIndex m.identity m.collisionIndex subnet && ensureInCgnatRange m.ip subnet

def validateApproved (e : ApprovedEntry Id) (subnet : Subnet) : Bool :=
  e.ip == deriveIpWithIndex e.identity e.collisionIndex subnet && ensureInCgnatRange e.ip subnet

section Validate

variable {subnet : Subnet}

omit [DecidableEq Id] in
theorem validateMember_iff (h : subnet.Usable) (m : Member Id) :
    validateMember m subnet = true ↔ m.Derived subnet := by
  simp only [validateMember, Bool.and_eq_true, beq_iff_eq, Member.Derived]
  refine ⟨And.left, fun heq => ⟨heq, ?_⟩⟩
  rw [heq]
  exact ensureInCgnatRange_deriveIpWithIndex _ _ h

omit [DecidableEq Id] in
theorem validateApproved_iff (h : subnet.Usable) (e : ApprovedEntry Id) :
    validateApproved e subnet = true ↔ e.Derived subnet := by
  simp only [validateApproved, Bool.and_eq_true, beq_iff_eq, ApprovedEntry.Derived]
  refine ⟨And.left, fun heq => ⟨heq, ?_⟩⟩
  rw [heq]
  exact ensureInCgnatRange_deriveIpWithIndex _ _ h

end Validate

/-! ### The reconverge tiebreak -/

/-- Reseat one member at the lowest index free in the list so far. -/
def reseat (subnet : Subnet) (list : MemberList Id) (m : Member Id) : Option (MemberList Id) :=
  (assignIp list m.identity subnet).map fun (ip, idx) =>
    list.addOrKeep { m with ip := ip, collisionIndex := idx }

/-- `resolve_ip_tiebreak`; the sort is stable. -/
def resolveIpTiebreak (members : List (Member Id)) (subnet : Subnet) : Option (List (Member Id)) :=
  let sorted := members.insertionSort fun a b =>
    (compare (Endpoint.asBytes a.identity) (Endpoint.asBytes b.identity)).isLE
  (sorted.foldlM (reseat subnet) MemberList.new).map MemberList.all

section Reseat

variable {subnet : Subnet} {list list' : MemberList Id} {m : Member Id}

/-- Reseating a member puts it where `assign_ip` says, and touches no one else. -/
theorem reseat_eq_some (h : reseat subnet list m = some list') :
    ∃ ip index, assignIp list m.identity subnet = some (ip, index) ∧
      ∀ id, list'.get id =
        if id = m.identity then some { m with ip := ip, collisionIndex := index } else list.get id := by
  unfold reseat at h
  obtain ⟨⟨ip, index⟩, hassign, rfl⟩ := Option.map_eq_some_iff.mp h
  obtain ⟨-, -, hopen, -⟩ := assignIp_eq_some_iff.mp hassign
  refine ⟨ip, index, hassign, fun id => ?_⟩
  have hfree : list.Free { m with ip := ip, collisionIndex := index } := MemberList.free_of_openTo hopen
  change (list.addOrKeep { m with ip := ip, collisionIndex := index }).get id = _
  rw [MemberList.addOrKeep_of_free hfree, MemberList.get_insert]

/-- Reseating a roster keeps its identities and leaves only derived addresses. -/
theorem foldlM_reseat : ∀ {ms : List (Member Id)} {list list' : MemberList Id},
    ms.foldlM (reseat subnet) list = some list' →
    (∀ id, (list'.get id).isSome ↔ (list.get id).isSome ∨ ∃ m ∈ ms, m.identity = id) ∧
      ((∀ id m, list.get id = some m → m.Derived subnet) →
        ∀ id m, list'.get id = some m → m.Derived subnet)
  | [], list, list', h => by
      cases h
      simp
  | a :: ms, list, list', h => by
      rw [List.foldlM_cons] at h
      obtain ⟨mid, hmid, hrest⟩ := Option.bind_eq_some_iff.mp h
      obtain ⟨ip, index, hassign, hget⟩ := reseat_eq_some hmid
      obtain ⟨hids, hders⟩ := foldlM_reseat hrest
      refine ⟨fun id => ?_, fun hlist => hders fun id m hm => ?_⟩
      · rw [hids id, hget id]
        by_cases heq : id = a.identity
        · subst heq
          simp
        · simp [heq, Ne.symm heq]
      · rw [hget id] at hm
        split at hm
        · cases hm
          exact (assignIp_eq_some_iff.mp hassign).2.1
        · exact hlist id m hm

end Reseat

/-- **The tiebreak** keeps the roster's identities; its entries are derived, one to an identity and
one to an address. -/
theorem resolveIpTiebreak_spec {ms tiebroken : List (Member Id)} {subnet : Subnet}
    (h : resolveIpTiebreak ms subnet = some tiebroken) :
    ∃ list : MemberList Id, tiebroken = list.all ∧
      (∀ id, (list.get id).isSome ↔ ∃ m ∈ ms, m.identity = id) ∧
      ∀ m ∈ tiebroken, m.Derived subnet := by
  unfold resolveIpTiebreak at h
  obtain ⟨list, hfold, rfl⟩ := Option.map_eq_some_iff.mp h
  obtain ⟨hids, hders⟩ := foldlM_reseat hfold
  refine ⟨list, rfl, fun id => ?_, fun m hm => ?_⟩
  · rw [hids id]
    simp [MemberList.new, MemberList.get, List.mem_insertionSort]
  · exact hders (by simp [MemberList.new, MemberList.get]) _ m (MemberList.mem_all_iff.mp hm)

end Tetron.Membership
