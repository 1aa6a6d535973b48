import Tetron.Addressing
import Tetron.Lib.Table

/-!
# Members and approved entries

The two rosters of a network. A `MemberList` carries what the source maintains about its map: a
member sits under its own identity, and no two members share an address. `ApprovedList` promises
only the former, because `from_entries` takes its entries as they come.

`assign_ip` searches the collision indices from zero; the index is a `u32`, so the search comes
round after `2 ^ 32` of them and does not return if none is free (`none`).
-/

namespace Tetron.Membership

structure Member (Id : Type) where
  identity : Id
  ip : Ipv4Addr
  isCoordinator : Bool
  hostname : Option String
  collisionIndex : ℕ
  lastSeen : Option ℕ
  veilidNodeId : Option String
deriving DecidableEq

structure IpCollision (Id : Type) where
  ip : Ipv4Addr
  existingIdentity : Id
  newIdentity : Id
deriving DecidableEq

structure MemberList (Id : Type) [DecidableEq Id] where
  members : HashTable Id (Member Id)
  keyed : ∀ {id m}, members.get? id = some m → m.identity = id
  distinct : ∀ {id id' m m'}, members.get? id = some m → members.get? id' = some m' → m.ip = m'.ip →
    id = id'

section Members

variable {Id : Type} [DecidableEq Id]

namespace MemberList

def new : MemberList Id := ⟨∅, by simp, by simp⟩

def get (l : MemberList Id) (id : Id) : Option (Member Id) := l.members.get? id

def isMember (l : MemberList Id) (id : Id) : Bool := (l.get id).isSome

def all (l : MemberList Id) : List (Member Id) := l.members.values

def getByIp (l : MemberList Id) (ip : Ipv4Addr) : Option (Member Id) := l.all.find? fun m => m.ip = ip

variable {l : MemberList Id} {m : Member Id} {id : Id} {ip : Ipv4Addr}

theorem identity_of_get (h : l.get id = some m) : m.identity = id := l.keyed h

theorem mem_all_iff : m ∈ l.all ↔ l.get m.identity = some m := by
  rw [all, HashTable.mem_values_iff]
  constructor
  · rintro ⟨id, h⟩
    rw [get, l.keyed h]
    exact h
  · exact fun h => ⟨_, h⟩

/-- The listing has every identity once. -/
theorem nodup_identities (l : MemberList Id) : (l.all.map Member.identity).Nodup := by
  have hkeys : l.all.map Member.identity = l.members.entries.keys := by
    rw [all, HashTable.values, List.map_map, List.keys]
    refine List.map_congr_left fun e he => ?_
    exact l.keyed (HashTable.get?_eq_some_iff.mpr he)
  rw [hkeys]
  exact l.members.nodupKeys

theorem nodup_all (l : MemberList Id) : l.all.Nodup := l.nodup_identities.of_map _

theorem eq_of_ip_eq {m' : Member Id} (hm : m ∈ l.all) (hm' : m' ∈ l.all) (hip : m.ip = m'.ip) : m = m' := by
  have hget := mem_all_iff.mp hm
  have hget' := mem_all_iff.mp hm'
  rw [l.distinct hget hget' hip, hget'] at hget
  exact (Option.some.inj hget).symm

/-- And every address. -/
theorem nodup_ips (l : MemberList Id) : (l.all.map Member.ip).Nodup :=
  l.nodup_all.map_on fun _ hm _ hm' => eq_of_ip_eq hm hm'

theorem any_all_identity (l : MemberList Id) (id : Id) : (l.all.any fun m => m.identity = id) = l.isMember id := by
  rw [Bool.eq_iff_iff, List.any_eq_true, isMember, Option.isSome_iff_exists]
  constructor
  · rintro ⟨m, hm, hid⟩
    exact ⟨m, of_decide_eq_true hid ▸ mem_all_iff.mp hm⟩
  · rintro ⟨m, hm⟩
    have hid := identity_of_get hm
    exact ⟨m, mem_all_iff.mpr (hid ▸ hm), decide_eq_true hid⟩

theorem find?_all_identity (l : MemberList Id) (id : Id) : (l.all.find? fun m => m.identity = id) = l.get id := by
  cases hfind : l.all.find? fun m => m.identity = id with
  | some m =>
    have hid : m.identity = id := by simpa using List.find?_some hfind
    rw [← hid]
    exact (mem_all_iff.mp (List.mem_of_find?_eq_some hfind)).symm
  | none =>
    cases hget : l.get id with
    | none => rfl
    | some m =>
      have hid := identity_of_get hget
      have hmem : m ∈ l.all := mem_all_iff.mpr (hid.symm ▸ hget)
      exact absurd (decide_eq_true hid) (List.find?_eq_none.mp hfind m hmem)

theorem getByIp_eq_some (h : l.getByIp ip = some m) : l.get m.identity = some m ∧ m.ip = ip :=
  ⟨mem_all_iff.mp (List.mem_of_find?_eq_some h), by simpa using List.find?_some h⟩

theorem getByIp_eq_none (h : l.getByIp ip = none) (hm : l.get id = some m) : m.ip ≠ ip := by
  have hall : m ∈ l.all := mem_all_iff.mpr (by rwa [identity_of_get hm])
  simpa using List.find?_eq_none.mp h m hall

/-- No other identity holds the member's address. -/
def Free (l : MemberList Id) (m : Member Id) : Prop :=
  ∀ id m', l.get id = some m' → m'.ip = m.ip → id = m.identity

/-- Nobody but the identity itself holds the address. -/
def OpenTo (l : MemberList Id) (id : Id) (ip : Ipv4Addr) : Prop := ∀ m ∈ l.all, m.ip = ip → m.identity = id

instance (l : MemberList Id) (id : Id) (ip : Ipv4Addr) : Decidable (l.OpenTo id ip) :=
  inferInstanceAs (Decidable (∀ m ∈ l.all, m.ip = ip → m.identity = id))

theorem free_of_openTo (h : l.OpenTo m.identity m.ip) : l.Free m := by
  intro id m' hm' hip
  have hid := identity_of_get hm'
  exact hid.symm.trans (h m' (mem_all_iff.mpr (hid.symm ▸ hm')) hip)

/-- Addresses are distinct: the holder that `get_by_ip` finds is the only one. -/
theorem openTo_iff_of_getByIp {existing : Member Id} (h : l.getByIp ip = some existing) :
    l.OpenTo id ip ↔ existing.identity = id := by
  obtain ⟨hget, hip⟩ := getByIp_eq_some h
  constructor
  · intro hopen
    exact hopen existing (mem_all_iff.mpr hget) hip
  · intro hid m hm hmip
    rw [l.distinct (mem_all_iff.mp hm) hget (hmip.trans hip.symm), hid]

theorem openTo_of_getByIp_none (h : l.getByIp ip = none) : l.OpenTo id ip :=
  fun _ hm hip => absurd hip (getByIp_eq_none h (mem_all_iff.mp hm))

def insert (l : MemberList Id) (m : Member Id) (hfree : l.Free m) : MemberList Id where
  members := l.members.insert m.identity m
  keyed := by
    intro id m' h
    rw [HashTable.get?_insert] at h
    split at h
    · rename_i heq
      cases h
      exact heq.symm
    · exact l.keyed h
  distinct := by
    intro id id' n n' h h' hip
    rw [HashTable.get?_insert] at h h'
    split at h <;> split at h'
    · rename_i h1 h2
      exact h1.trans h2.symm
    · rename_i h1 _
      cases h
      exact h1.trans (hfree id' n' h' hip.symm).symm
    · rename_i _ h2
      cases h'
      exact (hfree id n h hip).trans h2.symm
    · exact l.distinct h h' hip

theorem free_of_none (h : l.getByIp m.ip = none) : l.Free m :=
  fun _ _ hm' hip => absurd hip (getByIp_eq_none h hm')

theorem free_of_same {existing : Member Id} (h : l.getByIp m.ip = some existing)
    (hid : existing.identity = m.identity) : l.Free m := by
  intro id m' hm' hip
  obtain ⟨hget, hip'⟩ := getByIp_eq_some h
  exact (l.distinct hm' hget (hip.trans hip'.symm)).trans hid

def add (l : MemberList Id) (m : Member Id) : Except (IpCollision Id) (MemberList Id) :=
  match h : l.getByIp m.ip with
  | none => .ok (l.insert m (free_of_none h))
  | some existing =>
    if hid : existing.identity = m.identity then .ok (l.insert m (free_of_same h hid))
    else .error ⟨m.ip, existing.identity, m.identity⟩

/-- `let _ = list.add(member)`. -/
def addOrKeep (l : MemberList Id) (m : Member Id) : MemberList Id :=
  match l.add m with
  | .ok l' => l'
  | .error _ => l

def remove (l : MemberList Id) (id : Id) : MemberList Id where
  members := l.members.erase id
  keyed := by
    intro id' m h
    rw [HashTable.get?_erase] at h
    split at h
    · cases h
    · exact l.keyed h
  distinct := by
    intro id₁ id₂ m₁ m₂ h₁ h₂ hip
    rw [HashTable.get?_erase] at h₁ h₂
    split at h₁
    · cases h₁
    split at h₂
    · cases h₂
    exact l.distinct h₁ h₂ hip

/-- What the code changes of a member through `get_mut`: everything but its identity, its address
and its collision index. -/
structure Edit (Id : Type) where
  apply : Member Id → Member Id
  identity_eq : ∀ m, (apply m).identity = m.identity
  ip_eq : ∀ m, (apply m).ip = m.ip
  index_eq : ∀ m, (apply m).collisionIndex = m.collisionIndex

theorem free_edit (e : Edit Id) (h : l.get id = some m) : l.Free (e.apply m) := by
  intro id' m' h' hip
  rw [e.identity_eq, identity_of_get h]
  exact l.distinct h' h (hip.trans (e.ip_eq m))

/-- `if let Some(m) = members.get_mut(id) { … }`. -/
def modify (l : MemberList Id) (id : Id) (e : Edit Id) : MemberList Id :=
  match h : l.get id with
  | none => l
  | some m => l.insert (e.apply m) (free_edit e h)

def fromMembers (ms : List (Member Id)) : MemberList Id := ms.foldl addOrKeep new

/-! ### Lookups after an operation -/

theorem get_insert {hfree : l.Free m} :
    (l.insert m hfree).get id = if id = m.identity then some m else l.get id :=
  HashTable.get?_insert

theorem get_remove {id' : Id} : (l.remove id).get id' = if id' = id then none else l.get id' :=
  HashTable.get?_erase

theorem add_of_free (hfree : l.Free m) : l.add m = .ok (l.insert m hfree) := by
  unfold add
  split
  · rfl
  · rename_i existing h
    obtain ⟨hget, hip⟩ := getByIp_eq_some h
    rw [dif_pos (hfree _ _ hget hip)]

theorem add_of_not_free (hfree : ¬ l.Free m) : ∃ e, l.add m = .error e := by
  unfold add
  split
  · rename_i h
    exact absurd (free_of_none h) hfree
  · rename_i existing h
    by_cases hid : existing.identity = m.identity
    · exact absurd (free_of_same h hid) hfree
    · exact ⟨_, dif_neg hid⟩

theorem isSome_add_iff (l : MemberList Id) (m : Member Id) : (l.add m).toOption.isSome = true ↔ l.Free m := by
  by_cases hfree : l.Free m
  · rw [add_of_free hfree]
    exact iff_of_true rfl hfree
  · obtain ⟨e, he⟩ := add_of_not_free hfree
    rw [he]
    exact iff_of_false Bool.false_ne_true hfree

/-- A newcomer fits on a roster on which nobody has its address. -/
theorem free_iff_of_not_isMember {l : MemberList Id} {m : Member Id} (habsent : l.isMember m.identity = false) :
    l.Free m ↔ ∀ m' ∈ l.all, m'.ip ≠ m.ip := by
  constructor
  · intro hfree m' hm' hip
    have hget := mem_all_iff.mp hm'
    rw [hfree _ m' hget hip] at hget
    rw [isMember, hget] at habsent
    cases habsent
  · intro hips id' m' hget hip
    have hmem : m' ∈ l.all := mem_all_iff.mpr ((identity_of_get hget).symm ▸ hget)
    exact absurd hip (hips m' hmem)

theorem addOrKeep_of_free (hfree : l.Free m) : l.addOrKeep m = l.insert m hfree := by
  rw [addOrKeep, add_of_free hfree]

/-- Adding a member changes the entry under its own identity, or nothing. -/
theorem addOrKeep_eq (l : MemberList Id) (m : Member Id) :
    (∃ hfree : l.Free m, l.addOrKeep m = l.insert m hfree) ∨ (¬ l.Free m ∧ l.addOrKeep m = l) := by
  by_cases hfree : l.Free m
  · exact Or.inl ⟨hfree, addOrKeep_of_free hfree⟩
  · obtain ⟨e, he⟩ := add_of_not_free hfree
    exact Or.inr ⟨hfree, by rw [addOrKeep, he]⟩

theorem get_modify {id' : Id} {e : Edit Id} :
    (l.modify id e).get id' = if id' = id then (l.get id).map e.apply else l.get id' := by
  unfold modify
  split
  · rename_i h
    split
    · rename_i heq
      rw [heq, h]
      rfl
    · rfl
  · rename_i m h
    rw [get_insert, e.identity_eq, identity_of_get h, h]
    rfl

theorem get_of_addOrKeep {new : Member Id} (h : (l.addOrKeep new).get id = some m) :
    l.get id = some m ∨ m = new := by
  rcases addOrKeep_eq l new with ⟨hfree, heq⟩ | ⟨-, heq⟩
  · rw [heq, get_insert] at h
    split at h
    · exact Or.inr (Option.some.inj h).symm
    · exact Or.inl h
  · exact Or.inl (heq ▸ h)

theorem get_of_add {new : Member Id} {l' : MemberList Id} (hadd : (l.add new).toOption = some l')
    (h : l'.get id = some m) : l.get id = some m ∨ m = new := by
  apply get_of_addOrKeep
  rw [addOrKeep]
  cases hok : l.add new with
  | error e =>
    rw [hok] at hadd
    cases hadd
  | ok l'' =>
    rw [hok] at hadd
    cases hadd
    exact h

theorem get_of_modify {id' : Id} {e : Edit Id} (h : (l.modify id' e).get id = some m) :
    ∃ m₀, l.get id = some m₀ ∧ m.ip = m₀.ip ∧ m.collisionIndex = m₀.collisionIndex := by
  rw [get_modify] at h
  split at h
  · rename_i heq
    obtain ⟨m₀, hm₀, rfl⟩ := Option.map_eq_some_iff.mp h
    exact ⟨m₀, heq ▸ hm₀, e.ip_eq m₀, e.index_eq m₀⟩
  · exact ⟨m, h, rfl, rfl⟩

theorem get_of_remove {id' : Id} (h : (l.remove id').get id = some m) : l.get id = some m := by
  rw [get_remove] at h
  split at h
  · cases h
  · exact h

/-- A roster built from a list holds only entries of the list. -/
theorem mem_of_get_fromMembers {ms : List (Member Id)} (h : (fromMembers ms).get id = some m) : m ∈ ms := by
  refine List.foldlRecOn (motive := fun l => l.get id = some m → m ∈ ms) ms addOrKeep ?_ ?_ h
  · simp [new, get]
  · intro l ih a ha hget
    rcases get_of_addOrKeep hget with hold | rfl
    · exact ih hold
    · exact ha

/-- Rebuilding a roster from its own members, in any order, gives the same roster. -/
theorem get_fromMembers {ms : List (Member Id)} (hms : ∀ m, m ∈ ms ↔ m ∈ l.all) (id : Id) :
    (fromMembers ms).get id = l.get id := by
  refine List.get_foldl_of_entries get Member.identity (fun acc m hacc hm id => ?_) (fun _ _ => identity_of_get)
    (fun m => (hms m).trans mem_all_iff) (fun id => by simp [new, get]) id
  -- whoever holds the address of `m` in `acc` holds it in `l`, so it is `m`
  have hfree : acc.Free m := fun id' m' hm' hip => l.distinct (hacc id' m' hm') hm hip
  rw [addOrKeep_of_free hfree, get_insert]

end MemberList

/-- `mark_coordinator`. -/
def markCoordinator (l : MemberList Id) (id : Id) : MemberList Id :=
  l.modify id ⟨fun m => { m with isCoordinator := true }, fun _ => rfl, fun _ => rfl, fun _ => rfl⟩

end Members

/-! ### Approved entries -/

structure ApprovedEntry (Id : Type) where
  identity : Id
  ip : Ipv4Addr
  hostname : Option String
  collisionIndex : ℕ
deriving DecidableEq

structure ApprovedList (Id : Type) [DecidableEq Id] where
  entries : HashTable Id (ApprovedEntry Id)
  keyed : ∀ {id e}, entries.get? id = some e → e.identity = id

namespace ApprovedList

variable {Id : Type} [DecidableEq Id]

def new : ApprovedList Id := ⟨∅, by simp⟩

def get (l : ApprovedList Id) (id : Id) : Option (ApprovedEntry Id) := l.entries.get? id

def isApproved (l : ApprovedList Id) (id : Id) : Bool := (l.get id).isSome

def all (l : ApprovedList Id) : List (ApprovedEntry Id) := l.entries.values

def getByIp (l : ApprovedList Id) (ip : Ipv4Addr) : Option (ApprovedEntry Id) :=
  l.all.find? fun e => e.ip = ip

def insert (l : ApprovedList Id) (e : ApprovedEntry Id) : ApprovedList Id where
  entries := l.entries.insert e.identity e
  keyed := by
    intro id e' h
    rw [HashTable.get?_insert] at h
    split at h
    · rename_i heq
      cases h
      exact heq.symm
    · exact l.keyed h

def remove (l : ApprovedList Id) (id : Id) : ApprovedList Id where
  entries := l.entries.erase id
  keyed := by
    intro id' e h
    rw [HashTable.get?_erase] at h
    split at h
    · cases h
    · exact l.keyed h

/-- The collision of an entry with the identity that holds its address, if that is another one. -/
def collision (e : ApprovedEntry Id) (holder : Option Id) : Option (IpCollision Id) :=
  holder.bind fun id => if id ≠ e.identity then some ⟨e.ip, id, e.identity⟩ else none

def approve (l : ApprovedList Id) (e : ApprovedEntry Id) (members : MemberList Id) :
    Except (IpCollision Id) (ApprovedList Id) :=
  match collision e ((members.getByIp e.ip).map Member.identity) with
  | some c => .error c
  | none =>
    match collision e ((l.getByIp e.ip).map ApprovedEntry.identity) with
    | some c => .error c
    | none => .ok (l.insert e)

/-- `let _ = list.approve(entry, members)`. -/
def approveOrKeep (l : ApprovedList Id) (e : ApprovedEntry Id) (members : MemberList Id) : ApprovedList Id :=
  match l.approve e members with
  | .ok l' => l'
  | .error _ => l

def fromEntries (es : List (ApprovedEntry Id)) : ApprovedList Id := es.foldl insert new

variable {l : ApprovedList Id} {e : ApprovedEntry Id} {id : Id}

theorem identity_of_get (h : l.get id = some e) : e.identity = id := l.keyed h

theorem mem_all_iff : e ∈ l.all ↔ l.get e.identity = some e := by
  rw [all, HashTable.mem_values_iff]
  constructor
  · rintro ⟨id, h⟩
    rw [get, l.keyed h]
    exact h
  · exact fun h => ⟨_, h⟩

theorem get_insert : (l.insert e).get id = if id = e.identity then some e else l.get id :=
  HashTable.get?_insert

theorem get_remove {id' : Id} : (l.remove id).get id' = if id' = id then none else l.get id' :=
  HashTable.get?_erase

/-- Approving changes the entry under its own identity, or nothing. -/
theorem approveOrKeep_eq (l : ApprovedList Id) (e : ApprovedEntry Id) (members : MemberList Id) :
    l.approveOrKeep e members = l.insert e ∨ l.approveOrKeep e members = l := by
  unfold approveOrKeep approve
  cases collision e ((members.getByIp e.ip).map Member.identity) with
  | some c => exact Or.inr rfl
  | none =>
    cases collision e ((l.getByIp e.ip).map ApprovedEntry.identity) with
    | some c => exact Or.inr rfl
    | none => exact Or.inl rfl

theorem collision_eq_none {holder : Option Id} (h : ∀ id, holder = some id → id = e.identity) :
    collision e holder = none := by
  cases holder with
  | none => rfl
  | some id => exact if_neg (not_not.mpr (h id rfl))

theorem getByIp_eq_some {ip : Ipv4Addr} (h : l.getByIp ip = some e) : l.get e.identity = some e ∧ e.ip = ip :=
  ⟨mem_all_iff.mp (List.mem_of_find?_eq_some h), by simpa using List.find?_some h⟩

/-- An entry whose address nobody else has is approved. -/
theorem approveOrKeep_of_free {members : MemberList Id}
    (hmembers : ∀ id m, members.get id = some m → m.ip = e.ip → id = e.identity)
    (hentries : ∀ id e', l.get id = some e' → e'.ip = e.ip → id = e.identity) :
    l.approveOrKeep e members = l.insert e := by
  have hfirst : collision e ((members.getByIp e.ip).map Member.identity) = none := by
    refine collision_eq_none fun id hid => ?_
    obtain ⟨m, hm, rfl⟩ := Option.map_eq_some_iff.mp hid
    obtain ⟨hget, hip⟩ := MemberList.getByIp_eq_some hm
    exact hmembers _ m hget hip
  have hsecond : collision e ((l.getByIp e.ip).map ApprovedEntry.identity) = none := by
    refine collision_eq_none fun id hid => ?_
    obtain ⟨e', he', rfl⟩ := Option.map_eq_some_iff.mp hid
    obtain ⟨hget, hip⟩ := getByIp_eq_some he'
    exact hentries _ e' hget hip
  rw [approveOrKeep, approve, hfirst, hsecond]

theorem get_of_remove {id' : Id} (h : (l.remove id').get id = some e) : l.get id = some e := by
  rw [get_remove] at h
  split at h
  · cases h
  · exact h

theorem get_of_approveOrKeep {new : ApprovedEntry Id} {members : MemberList Id}
    (h : (l.approveOrKeep new members).get id = some e) : l.get id = some e ∨ e = new := by
  rcases approveOrKeep_eq l new members with heq | heq
  · rw [heq, get_insert] at h
    split at h
    · exact Or.inr (Option.some.inj h).symm
    · exact Or.inl h
  · exact Or.inl (heq ▸ h)

theorem get_of_approve {new : ApprovedEntry Id} {members : MemberList Id} {l' : ApprovedList Id}
    (happrove : (l.approve new members).toOption = some l') (h : l'.get id = some e) :
    l.get id = some e ∨ e = new := by
  have hkeep : l.approveOrKeep new members = l' := by
    rw [approveOrKeep]
    cases hok : l.approve new members with
    | error c => simp [hok, Except.toOption] at happrove
    | ok l'' => simpa [hok, Except.toOption] using happrove
  exact get_of_approveOrKeep (hkeep ▸ h)

theorem mem_of_get_fromEntries {es : List (ApprovedEntry Id)} (h : (fromEntries es).get id = some e) :
    e ∈ es := by
  refine List.foldlRecOn (motive := fun l => l.get id = some e → e ∈ es) es insert ?_ ?_ h
  · simp [new, get]
  · intro l ih a ha hget
    rw [get_insert] at hget
    split at hget
    · exact Option.some.inj hget ▸ ha
    · exact ih hget

/-- Approving the entries of a list again, in any order, gives the same list, where nobody shares an address
with somebody else. -/
theorem get_foldl_approveOrKeep {members : MemberList Id} {es : List (ApprovedEntry Id)}
    (hes : ∀ e, e ∈ es ↔ e ∈ l.all)
    (hmembers : ∀ id m id' e, members.get id = some m → l.get id' = some e → m.ip = e.ip → id = id')
    (hentries : ∀ id e id' e', l.get id = some e → l.get id' = some e' → e.ip = e'.ip → id = id') (id : Id) :
    (es.foldl (fun acc e => acc.approveOrKeep e members) new).get id = l.get id := by
  refine List.get_foldl_of_entries get ApprovedEntry.identity (fun acc e hacc he id => ?_)
    (fun _ _ => identity_of_get) (fun e => (hes e).trans mem_all_iff) (fun id => by simp [new, get]) id
  rw [approveOrKeep_of_free (fun id' m hm hip => hmembers id' m _ e hm he hip)
    fun id' e' he' hip => hentries id' e' _ e (hacc id' e' he') he hip, get_insert]

end ApprovedList

/-- `resolve_hello_ip`: the roster's address, else the approved one. -/
def resolveHelloIp {Id : Type} (member : Option (Member Id)) (approved : Option (ApprovedEntry Id)) :
    Option Ipv4Addr :=
  (member.map Member.ip).or (approved.map ApprovedEntry.ip)

end Tetron.Membership
