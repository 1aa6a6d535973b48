import Tetron.Addressing.HostRange
import Tetron.Daemon.Admission

/-!
# The searches of an admission

`validate_admission` runs two loops without a bound, both under the state lock: `assign_ip` tries collision
indices and `resolve_collision` tries name suffixes. The name search cannot outlast the address search: a
roster that leaves the joiner one address lists fewer others than there are suffixes. So an admission returns
exactly if some index derives an address that nobody else holds (`admission_returns_iff`). In a subnet of at
most 256 addresses that is any host address at all (`assignIp_of_room`); in a full one the loop never ends.
-/

namespace Tetron.Membership

variable {Id : Type} [DecidableEq Id]

/-- A roster that leaves an address to the identity lists fewer others than there are addresses. -/
theorem MemberList.length_others_lt {l : MemberList Id} {id : Id} {ip : Ipv4Addr} (hopen : l.OpenTo id ip) :
    (l.all.filter fun m => m.identity ≠ id).length < 2 ^ 32 := by
  have hnodup : (ip :: (l.all.filter fun m => m.identity ≠ id).map Member.ip).Nodup := by
    refine List.nodup_cons.mpr ⟨fun hmem => ?_, (List.filter_sublist.map _).nodup l.nodup_ips⟩
    obtain ⟨m, hm, hip⟩ := List.mem_map.mp hmem
    obtain ⟨hall, hother⟩ := List.mem_filter.mp hm
    exact of_decide_eq_true hother (hopen m hall hip)
  have hle := (hnodup.map (f := BitVec.toFin) fun _ _ => BitVec.eq_of_toFin_eq).length_le_card
  rw [Fintype.card_fin, List.length_map, List.length_cons, List.length_map] at hle
  omega

variable [Endpoint Id] {members : MemberList Id} {identity : Id} {subnet : Subnet}

/-- **The lowest open index, where there is room**: in a subnet of at most 256 addresses with a host address
that nobody else holds, `assign_ip` returns. -/
theorem assignIp_of_room (h24 : 24 ≤ subnet.prefixLen) (h30 : subnet.prefixLen ≤ 30)
    (hroom : ∃ ip, ipInSubnet ip subnet = true ∧ ip ≠ subnet.network ∧ ip ≠ subnet.network + 1 ∧
      members.OpenTo identity ip) :
    ∃ ip index, assignIp members identity subnet = some (ip, index) ∧
      ip = deriveIpWithIndex identity index subnet ∧ members.OpenTo identity ip ∧
      (∀ j < index, ¬ members.OpenTo identity (deriveIpWithIndex identity j subnet)) ∧
      ipInSubnet ip subnet = true ∧ ip ≠ subnet.network ∧ ip ≠ subnet.network + 1 := by
  obtain ⟨free, hin, hne, hne1, hopen⟩ := hroom
  have hrange : ensureInCgnatRange free subnet = true := by
    rw [ensureInCgnatRange, hin, bne_iff_ne.mpr hne, bne_iff_ne.mpr hne1]
    rfl
  obtain ⟨i, hi, hderive⟩ := exists_deriveIpWithIndex_eq identity h24 h30 hrange
  have hsome : (assignIp members identity subnet).isSome = true :=
    assignIp_isSome_iff.mpr ⟨i, hi, hderive.symm ▸ hopen⟩
  obtain ⟨⟨ip, index⟩, hassign⟩ := Option.isSome_iff_exists.mp hsome
  obtain ⟨-, hip, hheld, hleast⟩ := assignIp_eq_some_iff.mp hassign
  have husable : subnet.Usable := ⟨by omega, h30⟩
  have hderived := ensureInCgnatRange_deriveIpWithIndex identity index husable
  rw [← hip] at hderived
  simp only [ensureInCgnatRange, Bool.and_eq_true, bne_iff_ne] at hderived
  exact ⟨ip, index, hassign, hip, hheld, hleast, hderived.1.1, hderived.1.2, hderived.2⟩

end Tetron.Membership

namespace Tetron.Daemon

open Tetron.Membership Tetron.Hostname

section Room

open Sample

/-- Alice alone, at the index-zero address that victor derives too. -/
def aliceAlone : MemberList Peer := .fromMembers [member .alice true]

/-- Victor gets another address. -/
theorem assignIp_of_room_victor : ∃ ip index, assignIp aliceAlone .victor defaultSubnet = some (ip, index) ∧
    ip = deriveIpWithIndex Peer.victor index defaultSubnet ∧ ip ≠ deriveIp Peer.alice defaultSubnet := by
  have hroom : ∃ ip, ipInSubnet ip defaultSubnet = true ∧ ip ≠ defaultSubnet.network ∧
      ip ≠ defaultSubnet.network + 1 ∧ aliceAlone.OpenTo .victor ip :=
    ⟨Ipv4Addr.new 10 88 0 7, by decide, by decide, by decide, by decide⟩
  obtain ⟨ip, index, hassign, hip, hopen, -⟩ := assignIp_of_room (by decide) (by decide) hroom
  refine ⟨ip, index, hassign, hip, ?_⟩
  rintro rfl
  exact absurd hopen (by decide)

end Room

section Returns

variable {Id : Type} [DecidableEq Id] [Endpoint Id] [Msgpack Id] [Blake3]

omit [Endpoint Id] in
theorem NetworkState.length_takenNames_lt {s : NetworkState Id} {remoteId : Id} {ip : Ipv4Addr}
    (hopen : s.members.OpenTo remoteId ip) : (s.takenNames remoteId).length < 2 ^ 32 :=
  (List.length_filterMap_le _ _).trans_lt (MemberList.length_others_lt hopen)

/-- The address search decides whether the whole admission returns. -/
theorem validateAdmission_isSome (s : NetworkState Id) (networkKey remoteId : Id) (hostname : Option String)
    (authoritative : Bool) : (validateAdmission s networkKey remoteId hostname authoritative).isSome =
      (assignIp s.members remoteId s.subnet).isSome := by
  rw [validateAdmission]
  cases hassign : assignIp s.members remoteId s.subnet with
  | none => rfl
  | some plan =>
    obtain ⟨ip, index⟩ := plan
    obtain ⟨-, -, hopen, -⟩ := assignIp_eq_some_iff.mp hassign
    cases hostname with
    | none => rfl
    | some desired =>
      show (Option.map _ (admissionHostname desired (s.takenNames remoteId) authoritative)).isSome = _
      rw [Option.isSome_map]
      exact admissionHostname_isSome (NetworkState.length_takenNames_lt hopen) authoritative

/-- **An admission returns** exactly if some collision index derives an address that no other member
holds. -/
theorem admission_returns_iff (s : NetworkState Id) (networkKey remoteId : Id) (hostname : Option String)
    (authoritative : Bool) :
    ((assignIp s.members remoteId s.subnet).isSome = true ∧
      (validateAdmission s networkKey remoteId hostname authoritative).isSome = true) ↔
    ∃ index < 2 ^ 32, s.members.OpenTo remoteId (deriveIpWithIndex remoteId index s.subnet) := by
  rw [validateAdmission_isSome, and_self, assignIp_isSome_iff]

end Returns

open Sample

/-- 10.88.0.0/30. -/
def pairSubnet : Subnet := ⟨Ipv4Addr.new 10 88 0 0, 30⟩

/-- Alice and bob hold both host addresses. -/
def pairState : NetworkState Peer := { Sample.state 5
    [{ member .alice true with ip := deriveIp Peer.alice pairSubnet },
      { member .bob false with ip := deriveIp Peer.bob pairSubnet }] with subnet := pairSubnet }

theorem deriveIpWithIndex_pairSubnet (peer : Peer) (index : ℕ) :
    deriveIpWithIndex peer index pairSubnet = deriveIp Peer.alice pairSubnet ∨
      deriveIpWithIndex peer index pairSubnet = deriveIp Peer.bob pairSubnet := by
  rw [deriveIpWithIndex]
  generalize fnv1a _ = hash
  obtain ⟨hge, hlt⟩ := hostBits_spec hash (show 1 ≤ pairSubnet.prefixLen by decide) (by decide)
  generalize hostBits hash (subnetHostMask pairSubnet.prefixLen) = host at hge hlt
  have hlt : host.toNat < 4 := hlt
  have hcases : host.toNat = 2 ∨ host.toNat = 3 := by omega
  rcases hcases with htwo | hthree
  · left
    rw [show host = 2 from BitVec.eq_of_toNat_eq htwo]
    decide
  · right
    rw [show host = 3 from BitVec.eq_of_toNat_eq hthree]
    decide

/-- Carol's admission to the full network goes through all collision indices. -/
theorem full_subnet_never_returns :
    assignIp pairState.members .carol pairState.subnet = none ∧
      validateAdmission pairState Peer.alice .carol none false = none := by
  have hsome : (assignIp pairState.members .carol pairState.subnet).isSome = false := by
    rw [Bool.eq_false_iff, ne_eq, assignIp_isSome_iff]
    rintro ⟨index, -, hopen⟩
    have halice : ¬ pairState.members.OpenTo .carol (deriveIp Peer.alice pairSubnet) := by decide
    have hbob : ¬ pairState.members.OpenTo .carol (deriveIp Peer.bob pairSubnet) := by decide
    rcases deriveIpWithIndex_pairSubnet .carol index with heq | heq
    · exact halice (heq ▸ hopen)
    · exact hbob (heq ▸ hopen)
  have hreturns := validateAdmission_isSome pairState Peer.alice .carol none false
  rw [hsome] at hreturns
  exact ⟨Option.isSome_eq_false_iff.mp hsome |> Option.isNone_iff_eq_none.mp,
    Option.isSome_eq_false_iff.mp hreturns |> Option.isNone_iff_eq_none.mp⟩

end Tetron.Daemon
