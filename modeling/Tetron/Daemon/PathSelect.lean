import Tetron.Daemon.PeerTable

/-!
# Which path is reported

A connection runs over several paths at once. `gather_conn_info` classifies their addresses, picks the path
shown in the status, and says why it is not a direct one if it is not.

The pick (`choosePathIndex_eq_some`) trusts a selected path that carries traffic, then any path that does,
then any path at all, in the order direct, relay, Tor, Veilid. The explanation takes a direct path in the list
that did not win for one without traffic, which a selected path of another class shows to be wrong
(`via_detail_iff`).
-/

namespace Tetron.Daemon

open Tetron.Membership

inductive ConnType
  | direct
  | relay
  | tor
  | veilid
  | unknown
deriving DecidableEq, Repr

inductive ViaDetail
  | noDirectCandidate
  | directUnvalidated
  | directBled
deriving DecidableEq, Repr

/-- `(conn_type, is_selected, in_subnet, has_activity)`. -/
structure PathClass where
  connType : ConnType
  isSelected : Bool
  inSubnet : Bool
  hasActivity : Bool
deriving DecidableEq, Repr

/-! ### The pick -/

/-- The classes the two loops go through. -/
def classOrder : List ConnType := [.direct, .relay, .tor, .veilid]

def ConnType.rank (t : ConnType) : ℕ := classOrder.idxOf t

def trustworthyCount (classes : List PathClass) : ℕ := (classes.filter (·.inSubnet)).length

/-- Selected, and active or alone. -/
def trustedOutright (classes : List PathClass) (c : PathClass) : Bool :=
  c.isSelected && c.inSubnet && (c.hasActivity || trustworthyCount classes == 1)

/-- One loop over the classes: the first candidate of the first class that has one. -/
def bestByClass (admits : PathClass → Bool) (classes : List PathClass) : Option ℕ :=
  classOrder.findSome? fun want => classes.findIdx? fun c => c.connType == want && admits c

def choosePathIndex (classes : List PathClass) : Option ℕ :=
  (classes.findIdx? (trustedOutright classes)).or <|
    (bestByClass (fun c => c.inSubnet && c.hasActivity) classes).or <|
      (bestByClass (·.inSubnet) classes).or (classes.findIdx? (·.inSubnet))

section Pick

variable {classes : List PathClass} {admits : PathClass → Bool} {i : ℕ}

theorem ConnType.mem_classOrder {t : ConnType} (h : t ≠ .unknown) : t ∈ classOrder := by
  cases t with
  | unknown => exact absurd rfl h
  | direct | relay | tor | veilid => decide

theorem ConnType.eq_direct_of_rank_le {t : ConnType} (h : t.rank ≤ ConnType.rank .direct) : t = .direct := by
  cases t with
  | direct => rfl
  | relay | tor | veilid | unknown => exact absurd h (by decide)

/-- A class of a lower rank comes earlier in the loop. -/
theorem mem_front_of_rank_lt {front back : List ConnType} {want t : ConnType}
    (hsplit : classOrder = front ++ want :: back) (hlt : t.rank < want.rank) : t ∈ front := by
  by_contra hnot
  have hwant : want.rank ≤ front.length := by
    rw [ConnType.rank, hsplit]
    by_cases hmem : want ∈ front
    · rw [List.idxOf_append_of_mem hmem]
      exact List.idxOf_le_length
    · rw [List.idxOf_append_of_notMem hmem, List.idxOf_cons_self, Nat.add_zero]
  have ht : front.length ≤ t.rank := by
    rw [ConnType.rank, hsplit, List.idxOf_append_of_notMem hnot]
    exact Nat.le_add_right _ _
  omega

theorem find?_of_findIdx? {p : PathClass → Bool} (h : classes.findIdx? p = some i) :
    ∃ c, classes[i]? = some c ∧ classes.find? p = some c := by
  obtain ⟨hlt, -, -⟩ := List.findIdx?_eq_some_iff_getElem.mp h
  have hget := List.getElem?_eq_getElem hlt
  refine ⟨_, hget, ?_⟩
  rw [List.find?_eq_bind_findIdx?_getElem?, h, Option.bind_some, hget]

theorem bestByClass_eq_some (h : bestByClass admits classes = some i) :
    ∃ c, classes[i]? = some c ∧ admits c = true ∧
      ∀ d ∈ classes, admits d = true → c.connType.rank ≤ d.connType.rank := by
  obtain ⟨front, want, back, hsplit, hidx, hfront⟩ := List.findSome?_eq_some_iff.mp h
  obtain ⟨c, hc, hfind⟩ := find?_of_findIdx? hidx
  have hpasses := List.find?_some hfind
  rw [Bool.and_eq_true, beq_iff_eq] at hpasses
  refine ⟨c, hc, hpasses.2, fun d hd hadmits => ?_⟩
  by_contra hlt
  rw [hpasses.1, Nat.not_le] at hlt
  -- the class of `d` was tried before, and `d` was not found
  have hnone := List.findIdx?_eq_none_iff.mp (hfront _ (mem_front_of_rank_lt hsplit hlt)) d hd
  simp [hadmits] at hnone

theorem bestByClass_eq_none (h : bestByClass admits classes = none) {c : PathClass} (hc : c ∈ classes)
    (hadmits : admits c = true) : c.connType = .unknown := by
  by_contra hknown
  have hclass := List.findSome?_eq_none_iff.mp h _ (ConnType.mem_classOrder hknown)
  have hnone := List.findIdx?_eq_none_iff.mp hclass c hc
  simp [hadmits] at hnone

theorem trustedOutright_iff {c : PathClass} :
    trustedOutright classes c = true ↔
      c.isSelected = true ∧ c.inSubnet = true ∧ (c.hasActivity = true ∨ trustworthyCount classes = 1) := by
  simp [trustedOutright, and_assoc]

/-- What a pick tells: it is in the subnet, and it is the first one trusted outright, or there is no such path
and it is of the best class among the active ones, or none is active (save one of an unknown class). -/
theorem choosePathIndex_eq_some (h : choosePathIndex classes = some i) :
    ∃ c, classes[i]? = some c ∧ c.inSubnet = true ∧
      (classes.find? (trustedOutright classes) = some c ∨
        classes.find? (trustedOutright classes) = none ∧
          (c.hasActivity = true ∧
              (∀ d ∈ classes, d.inSubnet = true → d.hasActivity = true → c.connType.rank ≤ d.connType.rank) ∨
            ∀ d ∈ classes, d.inSubnet = true → d.hasActivity = true → d.connType = .unknown)) := by
  rw [choosePathIndex, Option.or_eq_some_iff] at h
  rcases h with htrusted | ⟨hnone, h⟩
  · obtain ⟨c, hc, hfind⟩ := find?_of_findIdx? htrusted
    exact ⟨c, hc, (trustedOutright_iff.mp (List.find?_some hfind)).2.1, .inl hfind⟩
  have hnot : classes.find? (trustedOutright classes) = none := by
    rw [List.find?_eq_bind_findIdx?_getElem?, hnone, Option.bind_none]
  rw [Option.or_eq_some_iff] at h
  rcases h with hactive | ⟨hquiet, h⟩
  · obtain ⟨c, hc, hpasses, hbest⟩ := bestByClass_eq_some hactive
    rw [Bool.and_eq_true] at hpasses
    refine ⟨c, hc, hpasses.1, .inr ⟨hnot, .inl ⟨hpasses.2, fun d hd hin hact => hbest d hd ?_⟩⟩⟩
    rw [hin, hact, Bool.and_self]
  have hunknown : ∀ d ∈ classes, d.inSubnet = true → d.hasActivity = true → d.connType = .unknown :=
    fun d hd hin hact => bestByClass_eq_none hquiet hd (by rw [hin, hact, Bool.and_self])
  rw [Option.or_eq_some_iff] at h
  rcases h with hclass | ⟨-, hany⟩
  · obtain ⟨c, hc, hpasses, -⟩ := bestByClass_eq_some hclass
    exact ⟨c, hc, hpasses, .inr ⟨hnot, .inr hunknown⟩⟩
  · obtain ⟨c, hc, hfind⟩ := find?_of_findIdx? hany
    exact ⟨c, hc, List.find?_some hfind, .inr ⟨hnot, .inr hunknown⟩⟩

theorem choosePathIndex_eq_none : choosePathIndex classes = none ↔ ∀ c ∈ classes, c.inSubnet = false := by
  constructor
  · intro h
    rw [choosePathIndex, Option.or_eq_none_iff, Option.or_eq_none_iff, Option.or_eq_none_iff] at h
    exact List.findIdx?_eq_none_iff.mp h.2.2.2
  · intro hout
    by_contra hsome
    obtain ⟨i, hi⟩ := Option.ne_none_iff_exists'.mp hsome
    obtain ⟨c, hc, hin, -⟩ := choosePathIndex_eq_some hi
    rw [hout c (List.mem_of_getElem? hc)] at hin
    exact Bool.false_ne_true hin

/-- With one candidate in the subnet, it is that one. -/
theorem eq_of_trustworthyCount_eq_one (h : trustworthyCount classes = 1) {c d : PathClass} (hc : c ∈ classes)
    (hd : d ∈ classes) (hcin : c.inSubnet = true) (hdin : d.inSubnet = true) : c = d := by
  obtain ⟨only, honly⟩ := List.length_eq_one_iff.mp h
  have hc' : c ∈ classes.filter (·.inSubnet) := List.mem_filter.mpr ⟨hc, hcin⟩
  have hd' : d ∈ classes.filter (·.inSubnet) := List.mem_filter.mpr ⟨hd, hdin⟩
  rw [honly, List.mem_singleton] at hc' hd'
  rw [hc', hd']

/-- A path is picked if one is in the subnet. One without traffic is picked only if none has any, and unless a
selected one has traffic, the pick is of the best class among those that have. -/
theorem choosePathIndex_spec (classes : List PathClass) (hknown : ∀ c ∈ classes, c.connType ≠ .unknown) :
    (choosePathIndex classes = none ↔ ∀ c ∈ classes, c.inSubnet = false) ∧
      ∀ i, choosePathIndex classes = some i → ∃ c, classes[i]? = some c ∧ c.inSubnet = true ∧
        (c.hasActivity = false → ∀ d ∈ classes, d.inSubnet = true → d.hasActivity = false) ∧
        ((∀ d ∈ classes, d.isSelected = true → d.inSubnet = true → d.hasActivity = false) →
          (∃ d ∈ classes, d.inSubnet = true ∧ d.hasActivity = true) →
            ∀ d ∈ classes, d.inSubnet = true → d.hasActivity = true → ¬d.connType.rank < c.connType.rank) := by
  refine ⟨choosePathIndex_eq_none, fun i hi => ?_⟩
  obtain ⟨c, hc, hin, hwhy⟩ := choosePathIndex_eq_some hi
  have hmem := List.mem_of_getElem? hc
  refine ⟨c, hc, hin, ?_, ?_⟩
  · intro hquiet d hd hdin
    rcases hwhy with htrusted | ⟨-, ⟨hactive, -⟩ | hunknown⟩
    · -- trusted without traffic, hence the only one
      have hsel := trustedOutright_iff.mp (List.find?_some htrusted)
      have honly := hsel.2.2.resolve_left (by rw [hquiet]; exact Bool.false_ne_true)
      rw [← eq_of_trustworthyCount_eq_one honly hmem hd hin hdin]
      exact hquiet
    · exact absurd (hquiet.symm.trans hactive) Bool.false_ne_true
    · by_contra hact
      exact hknown d hd (hunknown d hd hdin (Bool.eq_true_of_not_eq_false hact))
  · intro hselected _ d hd hdin hdact
    rw [Nat.not_lt]
    rcases hwhy with htrusted | ⟨-, ⟨-, hbest⟩ | hunknown⟩
    · have hsel := trustedOutright_iff.mp (List.find?_some htrusted)
      have honly := hsel.2.2.resolve_left (by rw [hselected c hmem hsel.1 hin]; exact Bool.false_ne_true)
      rw [eq_of_trustworthyCount_eq_one honly hmem hd hin hdin]
    · exact hbest d hd hdin hdact
    · exact absurd (hunknown d hd hdin hdact) (hknown d hd)

end Pick

def relayOverQuietDirect : List PathClass := [⟨.relay, false, true, true⟩, ⟨.direct, true, true, false⟩]

/-- A selected direct path without traffic loses to a relay with traffic. -/
theorem choosePathIndex_spec_relay :
    choosePathIndex relayOverQuietDirect = some 0 ∧
      ∃ c, relayOverQuietDirect[0]? = some c ∧ c.inSubnet = true ∧
        ∀ d ∈ relayOverQuietDirect, d.inSubnet = true → d.hasActivity = true →
          ¬d.connType.rank < c.connType.rank := by
  obtain ⟨c, hc, hin, -, hbest⟩ := (choosePathIndex_spec relayOverQuietDirect (by decide)).2 0 (by decide)
  exact ⟨by decide, c, hc, hin, hbest (by decide) (by decide)⟩

/-! ### The explanation -/

def classifyViaDetail (classes : List PathClass) (winnerConnType : ConnType) : Option ViaDetail :=
  if winnerConnType = .direct then none
  else if classes.any fun c => c.connType == .direct && c.inSubnet then some .directUnvalidated
  else if classes.any fun c => c.connType == .direct && !c.inSubnet then some .directBled
  else some .noDirectCandidate

/-- In the subnet, direct, and with traffic. -/
def PathClass.ActiveDirect (c : PathClass) : Prop :=
  c.connType = .direct ∧ c.inSubnet = true ∧ c.hasActivity = true

instance : DecidablePred PathClass.ActiveDirect := fun c => by unfold PathClass.ActiveDirect; infer_instance

def selectedActive (c : PathClass) : Bool := c.isSelected && c.inSubnet && c.hasActivity

section Explanation

variable {classes : List PathClass}

theorem winner_ne_direct {winner : ConnType} {detail : ViaDetail}
    (h : classifyViaDetail classes winner = some detail) : winner ≠ .direct := by
  rintro rfl
  rw [classifyViaDetail, if_pos rfl] at h
  cases h

/-- With traffic on a direct path, being alone adds nothing: the trusted paths are the selected ones with
traffic. -/
theorem trustedOutright_eq_selectedActive {d : PathClass} (hd : d ∈ classes) (hactive : d.ActiveDirect)
    {c : PathClass} (hc : c ∈ classes) : trustedOutright classes c = selectedActive c := by
  rw [Bool.eq_iff_iff, trustedOutright_iff]
  simp only [selectedActive, Bool.and_eq_true, and_assoc]
  refine and_congr_right fun _ => and_congr_right fun hin => ⟨?_, .inl⟩
  rintro (hact | honly)
  · exact hact
  · rw [eq_of_trustworthyCount_eq_one honly hc hd hin hactive.2.1]
    exact hactive.2.2

/-- With traffic on a direct path, the pick is the first selected path with traffic, and a direct path if no
selected path has traffic. -/
theorem choosePathIndex_of_activeDirect {d : PathClass} (hd : d ∈ classes) (hactive : d.ActiveDirect) :
    ∃ i c, choosePathIndex classes = some i ∧ classes[i]? = some c ∧
      (classes.find? selectedActive = some c ∨ classes.find? selectedActive = none ∧ c.ActiveDirect) := by
  obtain ⟨i, hi⟩ : ∃ i, choosePathIndex classes = some i := by
    rw [← Option.ne_none_iff_exists', ne_eq, choosePathIndex_eq_none]
    exact fun hout => Bool.false_ne_true ((hout d hd).symm.trans hactive.2.1)
  obtain ⟨c, hc, hin, hwhy⟩ := choosePathIndex_eq_some hi
  have hsame : classes.find? (trustedOutright classes) = classes.find? selectedActive :=
    List.find?_congr fun _ => trustedOutright_eq_selectedActive hd hactive
  rw [hsame] at hwhy
  refine ⟨i, c, hi, hc, hwhy.imp_right fun ⟨hnone, hbest⟩ => ⟨hnone, ?_⟩⟩
  rcases hbest with ⟨hact, hbest⟩ | hunknown
  · have hrank := hbest d hd hactive.2.1 hactive.2.2
    rw [hactive.1] at hrank
    exact ⟨ConnType.eq_direct_of_rank_le hrank, hin, hact⟩
  · exact absurd (hactive.1.symm.trans (hunknown d hd hactive.2.1 hactive.2.2)) (by decide)

theorem activeDirect_wins_iff {d : PathClass} (hd : d ∈ classes) (hactive : d.ActiveDirect) :
    (∃ i c, choosePathIndex classes = some i ∧ classes[i]? = some c ∧ c.ActiveDirect) ↔
      ∀ c, classes.find? selectedActive = some c → c.connType = .direct := by
  obtain ⟨i, w, hi, hw, hpick⟩ := choosePathIndex_of_activeDirect hd hactive
  constructor
  · rintro ⟨j, w', hj, hw', hdirect⟩ c hc
    obtain rfl : i = j := Option.some.inj (hi.symm.trans hj)
    obtain rfl : w = w' := Option.some.inj (hw.symm.trans hw')
    rcases hpick with hfind | ⟨hnone, -⟩
    · rw [Option.some.inj (hc.symm.trans hfind)]
      exact hdirect.1
    · cases hc.symm.trans hnone
  · intro hfirst
    refine ⟨i, w, hi, hw, ?_⟩
    rcases hpick with hfind | ⟨-, hdirect⟩
    · have hselected := List.find?_some hfind
      simp only [selectedActive, Bool.and_eq_true] at hselected
      exact ⟨hfirst w hfind, hselected.1.2, hselected.2⟩
    · exact hdirect

/-- A direct path is explained as one without traffic only if it has none, and wins if it has some, exactly if
the first selected path with traffic, if there is one, is direct. -/
theorem via_detail_iff (classes : List PathClass) :
    ((∀ i c, choosePathIndex classes = some i → classes[i]? = some c →
          classifyViaDetail classes c.connType = some .directUnvalidated → ∀ d ∈ classes, ¬d.ActiveDirect) ∧
        ((∃ d ∈ classes, d.ActiveDirect) →
          ∃ i c, choosePathIndex classes = some i ∧ classes[i]? = some c ∧ c.ActiveDirect)) ↔
      (∀ d ∈ classes, ¬d.ActiveDirect) ∨ ∀ c, classes.find? selectedActive = some c → c.connType = .direct := by
  constructor
  · rintro ⟨-, hwins⟩
    rw [or_iff_not_imp_left]
    intro hsome
    push Not at hsome
    obtain ⟨d, hd, hactive⟩ := hsome
    exact (activeDirect_wins_iff hd hactive).mp (hwins ⟨d, hd, hactive⟩)
  · rintro (hquiet | hfirst)
    · exact ⟨fun _ _ _ _ _ => hquiet, fun ⟨d, hd, hactive⟩ => absurd hactive (hquiet d hd)⟩
    · refine ⟨fun i c hi hc hdetail d hd hactive => ?_, fun ⟨d, hd, hactive⟩ =>
        (activeDirect_wins_iff hd hactive).mpr hfirst⟩
      obtain ⟨j, w, hj, hw, hdirect⟩ := (activeDirect_wins_iff hd hactive).mpr hfirst
      obtain rfl : i = j := Option.some.inj (hi.symm.trans hj)
      obtain rfl : c = w := Option.some.inj (hc.symm.trans hw)
      exact winner_ne_direct hdetail hdirect.1

/-- A selected relay wins over a direct path, both with traffic. -/
def relayOverDirect : List PathClass := [⟨.relay, true, true, true⟩, ⟨.direct, false, true, true⟩]

/-- The direct path has traffic, and is said to have none. -/
theorem via_detail_active :
    choosePathIndex relayOverDirect = some 0 ∧ relayOverDirect[0]? = some ⟨.relay, true, true, true⟩ ∧
      classifyViaDetail relayOverDirect .relay = some .directUnvalidated ∧
      (⟨.direct, false, true, true⟩ : PathClass) ∈ relayOverDirect ∧
      PathClass.ActiveDirect ⟨.direct, false, true, true⟩ := by
  decide

end Explanation

/-! ### The report -/

section Report

variable {Id : Type} [Endpoint Id] [Blake3]

def ipv6NetworkPrefixLen : ℕ := 56

def ipv6InNetwork (addr : Ipv6Addr) (network : Id) : Bool :=
  decide (∀ i : Fin 16, i.val < ipv6NetworkPrefixLen / 8 → addr i = ipv6NetworkPrefix network i)

/-- `iroh::TransportAddr`. -/
inductive TransportAddr
  | relay (url : String)
  | v4 (ip : Ipv4Addr) (port : UInt16)
  | v6 (ip : Ipv6Addr) (port : UInt16)
  | custom (id : ℕ)

/-- `u64::from_be_bytes(*b"\0\0veilid")`. -/
def veilidTransportId : ℕ := 0x7665696c6964

/-- Inside an overlay network that the daemon manages itself. -/
def looksSelfCapturedOrBled (managedSubnets : List Subnet) (managedNetworkKeys : List Id) : TransportAddr → Bool
  | .v4 ip _ => managedSubnets.any fun subnet => ipInSubnet ip subnet
  | .v6 ip _ => managedNetworkKeys.any fun key => ipv6InNetwork ip key
  | .relay _ | .custom _ => false

/-- The class of an address, and whether it may be trusted; `veilid` is the feature of that name. -/
def classifyCandidateAddr (veilid : Bool) (managedSubnets : List Subnet) (managedNetworkKeys : List Id)
    (addr : TransportAddr) : ConnType × Bool :=
  match addr with
  | .relay _ => (.relay, true)
  | .custom id => if veilid && id == veilidTransportId then (.veilid, true) else (.tor, true)
  | .v4 _ _ | .v6 _ _ => (.direct, !looksSelfCapturedOrBled managedSubnets managedNetworkKeys addr)

structure Path where
  remoteAddr : TransportAddr
  isSelected : Bool
  udpRxBytes : ℕ

structure ConnectionInfo where
  connType : ConnType
  remoteAddr : Option TransportAddr
  paths : List PathClass
  viaDetail : Option ViaDetail

variable (veilid : Bool) (managedSubnets : List Subnet) (managedNetworkKeys : List Id)

def pathClass (p : Path) : PathClass :=
  let (connType, inSubnet) := classifyCandidateAddr veilid managedSubnets managedNetworkKeys p.remoteAddr
  ⟨connType, p.isSelected, inSubnet, decide (p.udpRxBytes > 0)⟩

def gatherConnInfo (paths : List Path) : ConnectionInfo :=
  let classes := paths.map (pathClass veilid managedSubnets managedNetworkKeys)
  let (connType, remoteAddr) :=
    match (choosePathIndex classes).bind fun idx => paths[idx]? with
    | some path => ((pathClass veilid managedSubnets managedNetworkKeys path).connType, some path.remoteAddr)
    | none => (.unknown, none)
  ⟨connType, remoteAddr, classes, classifyViaDetail classes connType⟩

variable {veilid managedSubnets managedNetworkKeys}

/-- An address always has a class. -/
theorem pathClass_connType_ne_unknown (p : Path) :
    (pathClass veilid managedSubnets managedNetworkKeys p).connType ≠ .unknown := by
  unfold pathClass classifyCandidateAddr
  rcases p.remoteAddr with url | ⟨ip, port⟩ | ⟨ip, port⟩ | id
  · exact ConnType.noConfusion
  · exact ConnType.noConfusion
  · exact ConnType.noConfusion
  · dsimp only
    split <;> exact ConnType.noConfusion

theorem pathClass_inSubnet (p : Path) :
    (pathClass veilid managedSubnets managedNetworkKeys p).inSubnet =
      !looksSelfCapturedOrBled managedSubnets managedNetworkKeys p.remoteAddr := by
  unfold pathClass classifyCandidateAddr looksSelfCapturedOrBled
  rcases p.remoteAddr with url | ⟨ip, port⟩ | ⟨ip, port⟩ | id
  · rfl
  · rfl
  · rfl
  · dsimp only
    split <;> rfl

variable (veilid managedSubnets managedNetworkKeys) in
/-- Either the paths are all in overlay networks and nothing is reported, or one that is not is. -/
theorem gatherConnInfo_cases (paths : List Path) :
    ((gatherConnInfo veilid managedSubnets managedNetworkKeys paths).connType = .unknown ∧
        (gatherConnInfo veilid managedSubnets managedNetworkKeys paths).remoteAddr = none ∧
        ∀ p ∈ paths, looksSelfCapturedOrBled managedSubnets managedNetworkKeys p.remoteAddr = true) ∨
      ∃ p ∈ paths, looksSelfCapturedOrBled managedSubnets managedNetworkKeys p.remoteAddr = false ∧
        (gatherConnInfo veilid managedSubnets managedNetworkKeys paths).connType =
          (pathClass veilid managedSubnets managedNetworkKeys p).connType ∧
        (gatherConnInfo veilid managedSubnets managedNetworkKeys paths).remoteAddr = some p.remoteAddr := by
  rcases hpick : choosePathIndex (paths.map (pathClass veilid managedSubnets managedNetworkKeys)) with _ | i
  · refine .inl ⟨?_, ?_, fun p hp => ?_⟩
    · rw [gatherConnInfo, hpick, Option.bind_none]
    · rw [gatherConnInfo, hpick, Option.bind_none]
    have hout := choosePathIndex_eq_none.mp hpick _ (List.mem_map_of_mem hp)
    rwa [pathClass_inSubnet, Bool.not_eq_false'] at hout
  · obtain ⟨c, hc, hin, -⟩ := choosePathIndex_eq_some hpick
    rw [List.getElem?_map] at hc
    obtain ⟨p, hp, rfl⟩ := Option.map_eq_some_iff.mp hc
    rw [pathClass_inSubnet, Bool.not_eq_true'] at hin
    refine .inr ⟨p, List.mem_of_getElem? hp, hin, ?_, ?_⟩ <;> rw [gatherConnInfo, hpick, Option.bind_some, hp]

/-- An overlay address is never reported, and a connection is unknown only if all its paths have one. -/
theorem gatherConnInfo_remoteAddr (paths : List Path) :
    (∀ addr, (gatherConnInfo veilid managedSubnets managedNetworkKeys paths).remoteAddr = some addr →
        looksSelfCapturedOrBled managedSubnets managedNetworkKeys addr = false) ∧
      ((gatherConnInfo veilid managedSubnets managedNetworkKeys paths).connType = .unknown ↔
        ∀ p ∈ paths, looksSelfCapturedOrBled managedSubnets managedNetworkKeys p.remoteAddr = true) := by
  rcases gatherConnInfo_cases veilid managedSubnets managedNetworkKeys paths with
    ⟨htype, haddr, hall⟩ | ⟨p, hp, htrusted, htype, haddr⟩
  · rw [haddr]
    exact ⟨fun addr h => absurd h (Option.some_ne_none addr).symm, iff_of_true htype hall⟩
  · rw [haddr, htype]
    refine ⟨fun addr h => ?_, iff_of_false (pathClass_connType_ne_unknown p) fun hall => ?_⟩
    · rwa [← Option.some.inj h]
    · exact Bool.false_ne_true (htrusted.symm.trans (hall p hp))

end Report

end Tetron.Daemon
