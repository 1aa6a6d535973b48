import Tetron.Membership.Roster

/-!
# The map behind a member list

The source keeps its members in a plain `HashMap` and hands out mutable references into it; nothing about
the type stops an entry from sitting under another identity or from sharing an address. Here are the
operations on that map as the source has them, with nothing promised (`RosterMap`), and every edit that is
made through a mutable reference (`MemberEdit`). Any sequence of them, from an empty map, leaves a map that
is keyed by identity and has every address once (`RosterMap.consistent_replay`), and the operations of
`MemberList` are these (`MemberList.add_members`, `MemberList.modify_members`).
-/

namespace Tetron.Membership

variable {Id : Type} [DecidableEq Id]

/-- `HashMap<EndpointId, Member>`. -/
abbrev RosterMap (Id : Type) := HashTable Id (Member Id)

/-- What is written through `get_mut`: a time, a node id, what a `MeshHello` brings, the coordinator flag. -/
inductive MemberEdit
  | lastSeen (now : ℕ)
  | veilidNodeId (node : String)
  | hello (hostname node : Option String)
  | coordinator
deriving DecidableEq

def MemberEdit.apply {Id : Type} (m : Member Id) : MemberEdit → Member Id
  | .lastSeen now => { m with lastSeen := some now }
  | .veilidNodeId node => { m with veilidNodeId := some node }
  | .hello hostname node => { m with
      hostname := hostname.or m.hostname
      veilidNodeId := node.or m.veilidNodeId }
  | .coordinator => { m with isCoordinator := true }

omit [DecidableEq Id] in
theorem MemberEdit.apply_keeps (e : MemberEdit) (m : Member Id) :
    (e.apply m).identity = m.identity ∧ (e.apply m).ip = m.ip := by
  cases e <;> exact ⟨rfl, rfl⟩

namespace RosterMap

def getByIp (t : RosterMap Id) (ip : Ipv4Addr) : Option (Member Id) := t.values.find? fun m => m.ip = ip

/-- `MemberList::add`: the result, and the map after it. -/
def add (t : RosterMap Id) (m : Member Id) : Except (IpCollision Id) Unit × RosterMap Id :=
  match t.getByIp m.ip with
  | some existing =>
    if existing.identity ≠ m.identity then (.error ⟨m.ip, existing.identity, m.identity⟩, t)
    else (.ok (), t.insert m.identity m)
  | none => (.ok (), t.insert m.identity m)

/-- A write through `get_mut`, if the identity is there. -/
def edit (t : RosterMap Id) (id : Id) (e : MemberEdit) : RosterMap Id :=
  match t.get? id with
  | some m => t.insert id (e.apply m)
  | none => t

def fromMembers (ms : List (Member Id)) : RosterMap Id := ms.foldl (fun t m => (t.add m).2) ∅

/-- Everybody sits under their own identity, and nobody shares an address. -/
structure Consistent (t : RosterMap Id) : Prop where
  keyed : ∀ id m, t.get? id = some m → m.identity = id
  distinct : ∀ id id' m m', t.get? id = some m → t.get? id' = some m' → m.ip = m'.ip → id = id'

/-- One operation on a roster; `fromMembers` replaces it. -/
inductive Op (Id : Type)
  | add (m : Member Id)
  | remove (id : Id)
  | edit (id : Id) (e : MemberEdit)
  | fromMembers (ms : List (Member Id))

def Op.run (t : RosterMap Id) : Op Id → RosterMap Id
  | .add m => (t.add m).2
  | .remove id => t.erase id
  | .edit id e => t.edit id e
  | .fromMembers ms => RosterMap.fromMembers ms

def replay (t : RosterMap Id) (ops : List (Op Id)) : RosterMap Id := ops.foldl Op.run t

/-! ### Every operation keeps a roster consistent -/

variable {t : RosterMap Id} {m : Member Id} {id : Id}

theorem consistent_empty : Consistent (∅ : RosterMap Id) := ⟨by simp, by simp⟩

theorem getByIp_eq_none {ip : Ipv4Addr} (h : t.getByIp ip = none) (hm : t.get? id = some m) : m.ip ≠ ip := by
  have hmem := HashTable.mem_values_iff.mpr ⟨id, hm⟩
  simpa using List.find?_eq_none.mp h m hmem

theorem getByIp_eq_some {ip : Ipv4Addr} (h : t.getByIp ip = some m) : (∃ id, t.get? id = some m) ∧ m.ip = ip :=
  ⟨HashTable.mem_values_iff.mp (List.mem_of_find?_eq_some h), by simpa using List.find?_some h⟩

/-- A refused add changes nothing. -/
theorem add_of_error {c : IpCollision Id} (h : (t.add m).1 = .error c) : (t.add m).2 = t := by
  unfold add at h ⊢
  split
  · split
    · rfl
    · rename_i hsome hsame
      simp only [hsome, if_neg hsame] at h
      cases h
  · rename_i hnone
    simp only [hnone] at h
    cases h

/-- An entry under its own identity, at an address that nobody else has, keeps a roster consistent. -/
theorem Consistent.insert (h : t.Consistent)
    (hfree : ∀ id m', t.get? id = some m' → m'.ip = m.ip → id = m.identity) :
    Consistent (HashTable.insert t m.identity m) := by
  constructor
  · intro id m' hm'
    obtain ⟨hid, rfl⟩ | hm' := HashTable.get?_of_insert hm'
    · exact hid.symm
    · exact h.keyed id m' hm'
  · intro id id' n n' hn hn' hip
    obtain ⟨hid, rfl⟩ | hn := HashTable.get?_of_insert hn <;>
      obtain ⟨hid', rfl⟩ | hn' := HashTable.get?_of_insert hn'
    · exact hid.trans hid'.symm
    · exact hid.trans (hfree id' n' hn' hip.symm).symm
    · exact (hfree id n hn hip).trans hid'.symm
    · exact h.distinct id id' n n' hn hn' hip

theorem Consistent.add (h : t.Consistent) (m : Member Id) : Consistent (t.add m).2 := by
  unfold RosterMap.add
  split
  · rename_i existing hexisting
    obtain ⟨⟨id, hid⟩, hip⟩ := getByIp_eq_some hexisting
    split
    · exact h
    · rename_i hsame
      refine h.insert fun id' m' hm' hip' => ?_
      -- the holder that was found is the only one, and it is the newcomer itself
      rw [h.distinct id' id m' existing hm' hid (hip'.trans hip.symm), ← h.keyed id existing hid]
      exact not_not.mp hsame
  · rename_i hnone
    exact h.insert fun _ m' hm' hip => absurd hip (getByIp_eq_none hnone hm')

theorem Consistent.edit (h : t.Consistent) (id : Id) (e : MemberEdit) : Consistent (t.edit id e) := by
  unfold RosterMap.edit
  split
  · rename_i m hm
    obtain ⟨hidentity, hip⟩ := e.apply_keeps m
    have hid : (e.apply m).identity = id := hidentity.trans (h.keyed id m hm)
    rw [← hid]
    refine h.insert fun id' m' hm' hip' => ?_
    rw [hid]
    exact h.distinct id' id m' m hm' hm (hip'.trans hip)
  · exact h

theorem Consistent.remove (h : t.Consistent) (id : Id) : Consistent (HashTable.erase t id) where
  keyed id' m hm := h.keyed id' m (HashTable.get?_of_erase hm)
  distinct id₁ id₂ m₁ m₂ h₁ h₂ :=
    h.distinct id₁ id₂ m₁ m₂ (HashTable.get?_of_erase h₁) (HashTable.get?_of_erase h₂)

/-- A list with repeated identities or addresses is as good as any other: what collides is dropped. -/
theorem consistent_fromMembers (ms : List (Member Id)) : Consistent (fromMembers ms) :=
  List.foldlRecOn (motive := Consistent) ms _ consistent_empty fun _ h m _ => h.add m

theorem Consistent.run (h : t.Consistent) (op : Op Id) : Consistent (op.run t) := by
  cases op with
  | add m => exact h.add m
  | remove id => exact h.remove id
  | edit id e => exact h.edit id e
  | fromMembers ms => exact consistent_fromMembers ms

/-- **Rosters stay consistent** under any sequence of operations. -/
theorem consistent_replay (ops : List (Op Id)) : Consistent (replay ∅ ops) :=
  List.foldlRecOn (motive := Consistent) ops _ consistent_empty fun _ h op _ => h.run op

end RosterMap

/-! ### The operations of a member list -/

namespace MemberList

variable {l : MemberList Id}

theorem add_of_collision {m existing : Member Id} (h : l.getByIp m.ip = some existing)
    (hid : existing.identity ≠ m.identity) : l.add m = .error ⟨m.ip, existing.identity, m.identity⟩ := by
  unfold add
  split
  · rename_i hnone
    cases h.symm.trans hnone
  · rename_i existing' hsome
    cases h.symm.trans hsome
    exact dif_neg hid

theorem add_members (l : MemberList Id) (m : Member Id) :
    RosterMap.add l.members m =
      match l.add m with
      | .ok l' => (.ok (), l'.members)
      | .error c => (.error c, l.members) := by
  cases hip : l.getByIp m.ip with
  | none =>
    have hraw : RosterMap.getByIp l.members m.ip = none := hip
    rw [add_of_free (free_of_none hip), RosterMap.add, hraw]
    rfl
  | some existing =>
    have hraw : RosterMap.getByIp l.members m.ip = some existing := hip
    by_cases hid : existing.identity = m.identity
    · rw [add_of_free (free_of_same hip hid), RosterMap.add, hraw]
      exact if_neg (not_not.mpr hid)
    · rw [add_of_collision hip hid, RosterMap.add, hraw]
      exact if_pos hid

theorem addOrKeep_members (l : MemberList Id) (m : Member Id) :
    (l.addOrKeep m).members = (RosterMap.add l.members m).2 := by
  rw [add_members, addOrKeep]
  cases l.add m <;> rfl

theorem modify_members (l : MemberList Id) (id : Id) {edit : Edit Id} {e : MemberEdit}
    (h : ∀ m, edit.apply m = e.apply m) : (l.modify id edit).members = RosterMap.edit l.members id e := by
  unfold modify RosterMap.edit
  split
  · rename_i hnone
    have hget : l.members.get? id = none := hnone
    rw [hget]
  · rename_i m hm
    have hget : l.members.get? id = some m := hm
    have hid : (edit.apply m).identity = id := (edit.identity_eq m).trans (identity_of_get hm)
    rw [hget]
    change l.members.insert (edit.apply m).identity (edit.apply m) = l.members.insert id (e.apply m)
    rw [hid, h]

theorem fromMembers_members (ms : List (Member Id)) : (fromMembers ms).members = RosterMap.fromMembers ms := by
  have hfold : ∀ (l : MemberList Id), (ms.foldl addOrKeep l).members =
      ms.foldl (fun t m => (RosterMap.add t m).2) l.members := by
    induction ms with
    | nil => exact fun _ => rfl
    | cons m ms ih =>
      intro l
      rw [List.foldl_cons, List.foldl_cons, ih, addOrKeep_members]
  exact hfold new

end MemberList

end Tetron.Membership
