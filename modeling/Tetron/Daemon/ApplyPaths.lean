import Tetron.Daemon.Adopt
import Tetron.Membership.Tiebreak

/-!
# Two ways to apply a roster

The reconverge worker runs every roster through the tiebreak, the group poller takes it as it stands. A
tiebreak depends on who is in the roster and on nothing else (`tiebreak_canonical`). It may move members of
a roster without any clash: whoever was admitted at a higher index because of a member that has left since,
or that sorts after it (`moves_nobody_iff`). And where addresses do clash, the poller drops all but the first
holder. So the two paths end with one roster exactly if there is nothing for the tiebreak to do
(`paths_agree_iff`).
-/

namespace Tetron.Membership

variable {Id : Type} [DecidableEq Id] [Endpoint Id]

/-- **The tiebreak is canonical**: its result is a function of the members, seats aside; it seats exactly the
members it was given, one to an address, where `validate_member` accepts them; and it is idempotent. -/
theorem tiebreak_canonical (hbytes : Function.Injective (Endpoint.asBytes : Id → Bytes)) {subnet : Subnet}
    (h1 : 1 ≤ subnet.prefixLen) (h30 : subnet.prefixLen ≤ 30) {ms r : List (Member Id)}
    (hids : (ms.map Member.identity).Nodup) (h : resolveIpTiebreak ms subnet = some r) :
    (∀ ms' : List (Member Id), (ms'.map Member.unseated).Perm (ms.map Member.unseated) →
        ∃ r', resolveIpTiebreak ms' subnet = some r' ∧ ∀ m, m ∈ r' ↔ m ∈ r) ∧
      (r.map Member.unseated).Perm (ms.map Member.unseated) ∧ (r.map Member.ip).Nodup ∧
      (∀ m ∈ r, validateMember m subnet = true) ∧
      ∃ r', resolveIpTiebreak r subnet = some r' ∧ ∀ m, m ∈ r' ↔ m ∈ r := by
  obtain ⟨list, rfl, -, hderived⟩ := resolveIpTiebreak_spec h
  refine ⟨fun ms' hperm => ⟨list.all, ?_, fun m => Iff.rfl⟩, perm_unseated_of_resolveIpTiebreak hids h,
    list.nodup_ips, fun m hm => (validateMember_iff ⟨h1, h30⟩ m).mpr (hderived m hm),
    list.all, resolveIpTiebreak_idem hbytes hids h, fun m => Iff.rfl⟩
  rw [← resolveIpTiebreak_congr hbytes hids hperm.symm, h]

end Tetron.Membership

namespace Tetron.Daemon

open Tetron.Membership

section Paths

variable {Id : Type} [DecidableEq Id] [Endpoint Id] [Msgpack Id] [Blake3] {s : NetworkState Id}
  {data : GroupBlob Id}

/-- Reconverging ends with the members of the tiebreak. -/
theorem members_applyBlob_reconverge (s : NetworkState Id) {r : List (Member Id)}
    (hr : resolveIpTiebreak data.members (resolveSubnet data.subnet) = some r) :
    ∃ s', applyBlob .reconverge s data = some s' ∧ ∀ m, m ∈ s'.members.all ↔ m ∈ r := by
  obtain ⟨list, rfl, -, -⟩ := resolveIpTiebreak_spec hr
  refine ⟨adopt s data list.all, ?_, fun m => ?_⟩
  · rw [applyBlob, ApplyPath.roster, hr]
    rfl
  · change m ∈ (MemberList.fromMembers list.all).all ↔ _
    rw [MemberList.mem_all_iff, MemberList.get_fromMembers fun _ => Iff.rfl, MemberList.mem_all_iff]

variable (hbytes : Function.Injective (Endpoint.asBytes : Id → Bytes))
include hbytes

/-- **Nobody is moved** by the tiebreak of a roster without clashes, nor by reconverging to it, exactly if
every index below a member's own derives an address of a member before it. -/
theorem moves_nobody_iff (s : NetworkState Id) (hids : (data.members.map Member.identity).Nodup)
    (hips : (data.members.map Member.ip).Nodup)
    (hderived : ∀ m ∈ data.members, m.Derived (resolveSubnet data.subnet))
    (hindex : ∀ m ∈ data.members, m.collisionIndex < 2 ^ 32) :
    ((∃ r, resolveIpTiebreak data.members (resolveSubnet data.subnet) = some r ∧ ∀ m, m ∈ r ↔ m ∈ data.members) ∧
      ∃ s', applyBlob .reconverge s data = some s' ∧ ∀ m, m ∈ s'.members.all ↔ m ∈ data.members) ↔
      ∀ m ∈ data.members, LowerTaken data.members (resolveSubnet data.subnet) m := by
  have hfixes := resolveIpTiebreak_fixes_iff hbytes hids fun m hm => ⟨hderived m hm, hindex m hm⟩
  constructor
  · rintro ⟨hkept, -⟩
    exact (hfixes.mp hkept).2
  · intro hlower
    have hkept := hfixes.mpr ⟨fun m hm m' hm' => List.inj_on_of_nodup_map hips hm hm', hlower⟩
    obtain ⟨r, hr, hmem⟩ := hkept
    obtain ⟨s', happly, hmembers⟩ := members_applyBlob_reconverge s hr
    exact ⟨⟨r, hr, hmem⟩, s', happly, fun m => (hmembers m).trans (hmem m)⟩

/-- **Both paths keep everybody and agree** exactly if no two members share an address and every index below
a member's own derives an address of a member before it. -/
theorem paths_agree_iff (s : NetworkState Id) (hvalid : data.valid = true)
    (hids : (data.members.map Member.identity).Nodup)
    (hindex : ∀ m ∈ data.members, m.collisionIndex < 2 ^ 32) :
    (∃ s₁ s₂, applyBlob .poller s data = some s₁ ∧ applyBlob .reconverge s data = some s₂ ∧
      (∀ id, data.ListsMember id → s₁.members.isMember id = true ∧ s₂.members.isMember id = true) ∧
      ∀ id, s₁.members.get id = s₂.members.get id) ↔
      (∀ m ∈ data.members, ∀ m' ∈ data.members, m.ip = m'.ip → m = m') ∧
        ∀ m ∈ data.members, LowerTaken data.members (resolveSubnet data.subnet) m := by
  have hderived : ∀ m ∈ data.members, m.Derived (resolveSubnet data.subnet) := fun m hm =>
    (address_of_valid hvalid hm).1
  rw [← resolveIpTiebreak_fixes_iff hbytes hids fun m hm => ⟨hderived m hm, hindex m hm⟩]
  constructor
  · rintro ⟨s₁, s₂, hpoller, hreconverge, hkept, hagree⟩
    cases hpoller
    obtain ⟨r, hr, rfl⟩ := Option.map_eq_some_iff.mp hreconverge
    obtain ⟨list, rfl, -, -⟩ := resolveIpTiebreak_spec hr
    have hagree : ∀ id, (MemberList.fromMembers data.members).get id = list.get id := fun id =>
      (hagree id).trans (MemberList.get_fromMembers (fun _ => Iff.rfl) id)
    refine ⟨list.all, hr, fun m => ?_⟩
    rw [MemberList.mem_all_iff, ← hagree]
    constructor
    · exact MemberList.mem_of_get_fromMembers
    · intro hm
      -- the poller kept an entry for the identity, and the blob has only this one
      obtain ⟨n, hn⟩ := Option.isSome_iff_exists.mp (hkept m.identity ⟨m, hm, rfl⟩).1
      have hn : (MemberList.fromMembers data.members).get m.identity = some n := hn
      rw [hn, List.inj_on_of_nodup_map hids (MemberList.mem_of_get_fromMembers hn) hm
        (MemberList.identity_of_get hn)]
  · rintro ⟨r, hr, hmem⟩
    obtain ⟨list, rfl, hsome, -⟩ := resolveIpTiebreak_spec hr
    have hpoller : ∀ id, (MemberList.fromMembers data.members).get id = list.get id :=
      MemberList.get_fromMembers fun m => (hmem m).symm
    have hreconverge : ∀ id, (MemberList.fromMembers list.all).get id = list.get id :=
      MemberList.get_fromMembers fun _ => Iff.rfl
    refine ⟨adopt s data data.members, adopt s data list.all, rfl, by rw [applyBlob, ApplyPath.roster, hr]; rfl,
      fun id hid => ?_, fun id => (hpoller id).trans (hreconverge id).symm⟩
    have hlisted : (list.get id).isSome = true := (hsome id).mpr hid
    constructor
    · show ((MemberList.fromMembers data.members).get id).isSome = true
      rw [hpoller, hlisted]
    · show ((MemberList.fromMembers list.all).get id).isSome = true
      rw [hreconverge, hlisted]

end Paths

/-! ### Alice and victor derive one address -/

namespace Sample

theorem asBytes_injective : Function.Injective (Endpoint.asBytes : Peer → Bytes) := by
  intro a b
  cases a <;> cases b <;> first | (intro; rfl) | (intro h; exact absurd h (by decide))

/-- Victor at index one, its index-zero address being alice's. -/
def victorAside : Member Peer :=
  { member .victor false with ip := deriveIpWithIndex Peer.victor 1 defaultSubnet, collisionIndex := 1 }

/-- Both at index zero. -/
def clashing : List (Member Peer) := [member .victor false, member .alice true]

/-- The clash is resolved once, in one way. -/
theorem tiebreak_canonical_clashing : ∃ r, resolveIpTiebreak clashing defaultSubnet = some r ∧
    (r.map Member.unseated).Perm (clashing.map Member.unseated) ∧ (r.map Member.ip).Nodup ∧
    ∃ r', resolveIpTiebreak r defaultSubnet = some r' ∧ ∀ m, m ∈ r' ↔ m ∈ r := by
  have hsome : (resolveIpTiebreak clashing defaultSubnet).isSome = true := by decide +kernel
  obtain ⟨r, hr⟩ := Option.isSome_iff_exists.mp hsome
  obtain ⟨-, hperm, hips, -, hidem⟩ :=
    tiebreak_canonical asBytes_injective (by decide) (by decide) (by decide) hr
  exact ⟨r, hr, hperm, hips, hidem⟩

/-- Victor sits aside, and alice is there. -/
def seated : GroupBlob Peer := blob 5 [member .alice true, victorAside]

/-- So nobody moves. -/
theorem moves_nobody_victor :
    ∃ s', applyBlob .reconverge (state 3 []) seated = some s' ∧ ∀ m, m ∈ s'.members.all ↔ m ∈ seated.members :=
  ((moves_nobody_iff asBytes_injective (state 3 []) (by decide) (by decide) (by decide) (by decide)).mpr
    (by decide)).2

/-- Alice has left: victor, whose address clashes with nobody's, is moved to the address she had. -/
theorem lone_victor_moved :
    let data := blob 5 [member .bob true, victorAside]
    (data.members.map Member.identity).Nodup ∧ (data.members.map Member.ip).Nodup ∧
      (∀ m ∈ data.members, m.Derived defaultSubnet) ∧
      (resolveIpTiebreak data.members defaultSubnet).map (fun r => r.find? fun m => m.identity = .victor) =
        some (some (member .victor false)) ∧
      (applyBlob .reconverge (state 3 []) data).map (fun s' => s'.members.get .victor) =
        some (some (member .victor false)) := by
  decide +kernel

/-- And both paths agree. -/
theorem paths_agree_victor : ∃ s₁ s₂, applyBlob .poller (state 3 []) seated = some s₁ ∧
    applyBlob .reconverge (state 3 []) seated = some s₂ ∧ ∀ id, s₁.members.get id = s₂.members.get id := by
  have hvalid : seated.valid = true := by decide
  obtain ⟨s₁, s₂, hpoller, hreconverge, -, hagree⟩ :=
    (paths_agree_iff asBytes_injective (state 3 []) hvalid (by decide) (by decide)).mpr ⟨by decide, by decide⟩
  exact ⟨s₁, s₂, hpoller, hreconverge, hagree⟩

/-- A verified blob with both at index zero: the poller drops victor, the reconverge worker keeps it. -/
theorem poller_drops_member :
    (blob 5 [member .alice true, member .victor false]).valid = true ∧
      (applyBlob .poller (state 3 []) (blob 5 [member .alice true, member .victor false])).map
        (fun s' => s'.members.isMember .victor) = some false ∧
      (applyBlob .reconverge (state 3 []) (blob 5 [member .alice true, member .victor false])).map
        (fun s' => s'.members.isMember .victor) = some true := by
  decide +kernel

end Sample

end Tetron.Daemon
