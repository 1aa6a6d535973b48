import Tetron.Daemon.Adopt
import Tetron.Daemon.Start
import Tetron.Lib.Run

/-!
# Burned invites and the signed record

Several nodes hold states of one network: they join on a published record, restart from one, apply
others, become coordinators, redeem invites, and publish their snapshots. `World` is all of them with
every record published so far.

An invite is burned at generation `g` once it has been redeemed and a record without it has been
published at `g`. Applying a blob leaves a node's own invite table as it was, so a burned invite may
come back in a record above `g`, published by a node that has applied one at least at `g`. It does not
where holders of the network key drop burned invites before they apply a blob or restart, and other nodes
before they receive the key, where minted secrets are fresh, and where published generations ascend.
-/

namespace Tetron.Daemon

open Tetron.Membership

variable {Id : Type} [DecidableEq Id] [Msgpack Id] [Blake3]

/-- A join that has consumed an invite and is being decided. -/
structure HeldInvite where
  secret : Bytes
  entry : InviteEntry
deriving DecidableEq

structure Replica (Id : Type) [DecidableEq Id] [Msgpack Id] [Blake3] where
  state : NetworkState Id
  joins : List HeldInvite
  /-- Generations of the verified blobs the node has taken its state from. -/
  applied : List ℕ

structure World (Id : Type) [DecidableEq Id] [Msgpack Id] [Blake3] where
  nodes : Id → Option (Replica Id)
  /-- The blobs of the records published so far, the first one first. -/
  records : List (GroupBlob Id)
  /-- Keys of the invites some join was admitted with. -/
  redeemed : List String
  /-- A redeemed invite, and the generation of a record published without it. -/
  burned : List (String × ℕ)

inductive WorldEvent (Id : Type)
  | join (n : Id) (record : ℕ) (members : List (Member Id)) (approved : List (ApprovedEntry Id))
      (netPubkey : Id) (name : String)
  | restart (p : IdentityProvider Id) (record : ℕ) (nc : NetworkConfig Id)
      (veilidNodeId : Option String)
  | restartFromConfig (p : IdentityProvider Id) (nc : NetworkConfig Id) (veilidNodeId : Option String)
  | write (n : Id) (sec : Section Id)
  | redeem (n : Id) (secret : Bytes) (now : ℕ)
  | admitJoiner (n : Id) (held : HeldInvite) (m : Member Id)
  | deny (n : Id) (held : HeldInvite) (now : ℕ)
  | apply (n : Id) (path : ApplyPath) (record : ℕ)
  | publish (n : Id)

/-- The sections of a redemption, which are events of their own here. -/
def Section.isRedemption : Section Id → Bool
  | .redeemInvite .. | .restoreDenied .. => true
  | _ => false

/-- The node has taken its state from a blob of at least this generation. -/
def Replica.HasApplied (r : Replica Id) (generation : ℕ) : Prop := ∃ a ∈ r.applied, generation ≤ a

instance (r : Replica Id) (generation : ℕ) : Decidable (r.HasApplied generation) :=
  inferInstanceAs (Decidable (∃ a ∈ r.applied, generation ≤ a))

/-- The node can still hand the invite out: it is on its table, or held by one of its joins. -/
def Replica.Holds (r : Replica Id) (key : String) : Prop :=
  Redeemable r.state.invites key ∨ ∃ held ∈ r.joins, inviteKey held.secret = key

instance (r : Replica Id) (key : String) : Decidable (r.Holds key) :=
  inferInstanceAs (Decidable (_ ∨ ∃ held ∈ r.joins, inviteKey held.secret = key))

namespace World

def start (n : Id) (s : NetworkState Id) : World Id where
  nodes := fun id => if id = n then some ⟨s, [], []⟩ else none
  records := []
  redeemed := []
  burned := []

def set (w : World Id) (n : Id) (r : Replica Id) : World Id :=
  { w with nodes := Function.update w.nodes n (some r) }

/-- What a node applied before it was started again. -/
def appliedBy (w : World Id) (n : Id) : List ℕ := (w.nodes n).elim [] Replica.applied

variable [Endpoint Id]

/-- The publishers sign the snapshot, with the state's generation. -/
def onPublish (w : World Id) (r : Replica Id) : Option (World Id) :=
  match r.state.networkSecretKey, r.state.snapshot with
  | some _, some snapshot =>
    some { w with
      records := w.records ++ [snapshot.blob]
      burned :=
        ((w.redeemed.filter fun key => (snapshot.blob.invites[key]?).isNone).map fun key =>
          (key, r.state.generation)) ++ w.burned }
  | _, _ => none

/-- One step. A node may apply, join on or restart from any record published so far. -/
def next (w : World Id) : WorldEvent Id → Option (World Id)
  | .join n record members approved netPubkey name =>
    w.records[record]?.map fun data =>
      w.set n ⟨buildMemberState data members approved netPubkey name, [], data.generation :: w.appliedBy n⟩
  | .restart p record nc veilidNodeId =>
    w.records[record]?.bind fun data =>
      (restoreCoordinatorNetwork p (some data) nc veilidNodeId).map fun state =>
        w.set p.endpointId ⟨state, [], data.generation :: w.appliedBy p.endpointId⟩
  | .restartFromConfig p nc veilidNodeId =>
    (restoreCoordinatorNetwork p none nc veilidNodeId).map fun state =>
      w.set p.endpointId ⟨state, [], w.appliedBy p.endpointId⟩
  | .write n sec =>
    (w.nodes n).bind fun r =>
      if sec.isRedemption then none else some (w.set n { r with state := sec.run r.state })
  | .redeem n secret now =>
    (w.nodes n).map fun r =>
      match redeemInvite r.state secret now with
      | (some entry, state) => w.set n { r with state := state, joins := ⟨secret, entry⟩ :: r.joins }
      | (none, state) => w.set n { r with state := state }
  | .admitJoiner n held m =>
    (w.nodes n).bind fun r =>
      if held ∈ r.joins then
        some { w.set n { r with state := admitPeer r.state m, joins := r.joins.erase held } with
          redeemed := inviteKey held.secret :: w.redeemed }
      else none
  | .deny n held now =>
    (w.nodes n).bind fun r =>
      if held ∈ r.joins then
        some (w.set n { r with
          state := restoreDenied r.state held.secret held.entry now
          joins := r.joins.erase held })
      else none
  | .apply n path record =>
    (w.nodes n).bind fun r =>
      w.records[record]?.bind fun data =>
        (applyBlob path r.state data).map fun state =>
          w.set n { r with state := state, applied := data.generation :: r.applied }
  | .publish n => (w.nodes n).bind w.onPublish

/-! ### The condition -/

/-- Holders of the key drop burned invites before they take a state from a record, and other nodes before
they receive it; only fresh secrets are minted, and only ascending generations published. -/
def Clean (w : World Id) : WorldEvent Id → Prop
  | .restart p record _ _ => ∀ data ∈ w.records[record]?, ∀ b ∈ w.burned,
      b.2 ≤ data.generation ∨ (∃ a ∈ w.appliedBy p.endpointId, b.2 ≤ a) → ¬ Redeemable data.invites b.1
  | .apply n _ record => ∀ data ∈ w.records[record]?, ∀ r ∈ w.nodes n, r.state.networkSecretKey ≠ none →
      ∀ b ∈ w.burned, b.2 ≤ data.generation → ¬ r.Holds b.1
  | .write n (.adminGrant _ _) => ∀ r ∈ w.nodes n, ∀ b ∈ w.burned, r.HasApplied b.2 → ¬ r.Holds b.1
  | .write _ (.inviteCreate secret _ _) => ∀ b ∈ w.burned, b.1 ≠ inviteKey secret
  | .publish n => ∀ r ∈ w.nodes n, ∀ data ∈ w.records, data.generation < r.state.generation
  | _ => True

instance (w : World Id) (ev : WorldEvent Id) : Decidable (w.Clean ev) := by
  unfold Clean
  split <;> infer_instance

/-! ### Burned invites stay dropped -/

end World

/-- Apart from redemptions, a section makes a key redeemable only by minting it. -/
theorem Section.redeemable_of_run [Endpoint Id] {s : NetworkState Id} {sec : Section Id} {key : String}
    (hsec : sec.isRedemption = false) (h : Redeemable (sec.run s).invites key) :
    Redeemable s.invites key ∨ ∃ secret now ttlSecs, sec = .inviteCreate secret now ttlSecs ∧
      key = inviteKey secret := by
  by_cases hon : sec.onInvites
  · cases sec with
    | inviteCreate secret now ttlSecs =>
      rcases redeemable_of_insert h with hold | ⟨rfl, -⟩
      · exact Or.inl hold
      · exact Or.inr ⟨secret, now, ttlSecs, rfl, rfl⟩
    | inviteRevoke inviteId =>
      simp only [Section.run, Daemon.inviteRevoke] at h
      cases hrev : revokeInvite s.invites inviteId with
      | error e =>
        rw [hrev] at h
        exact Or.inl h
      | ok invites =>
        rw [hrev] at h
        obtain ⟨key', e, -, rfl, -⟩ := revokeInvite_eq_ok hrev
        rcases redeemable_of_insert h with hold | ⟨-, hlive⟩
        · exact Or.inl hold
        · cases hlive
    | redeemInvite secret now => cases hsec
    | restoreDenied secret entry now => cases hsec
    | _ => cases hon
  · rw [(Section.frame_run s sec).invites_eq (by simpa using hon)] at h
    exact Or.inl h

/-- A node's state is sealed, what it has applied was published, and if it has the key, it holds no invite
that was burned at a generation it has applied. -/
structure Replica.Ok [Endpoint Id] (records : List (GroupBlob Id)) (burned : List (String × ℕ))
    (r : Replica Id) : Prop where
  sealed : r.state.Sealed
  behind : ∀ a ∈ r.applied, ∃ data ∈ records, a ≤ data.generation
  dropped : r.state.networkSecretKey ≠ none → ∀ b ∈ burned, r.HasApplied b.2 → ¬ r.Holds b.1

namespace World

variable [Endpoint Id]

def Inv (w : World Id) : Prop := ∀ n r, w.nodes n = some r → r.Ok w.records w.burned

variable {w w' : World Id} {n : Id} {r : Replica Id}

theorem inv_start {s : NetworkState Id} (hs : s.Sealed) : (start n s).Inv := by
  intro n' r hr
  simp only [start] at hr
  split at hr
  · cases hr
    exact ⟨hs, nofun, fun _ _ hb => nomatch hb⟩
  · cases hr

theorem Inv.set (hinv : w.Inv) (hr : r.Ok w.records w.burned) : (w.set n r).Inv := by
  intro n' r' hr'
  simp only [World.set, Function.update_apply] at hr'
  split at hr'
  · cases hr'
    exact hr
  · exact hinv n' r' hr'

/-- A step of a node that keeps what it has applied, and its key, is fine if it takes up no invite. -/
theorem ok_of_holds (hok : r.Ok w.records w.burned) {r' : Replica Id} (hsealed : r'.state.Sealed)
    (hkey : r'.state.networkSecretKey = r.state.networkSecretKey) (happlied : r'.applied = r.applied)
    (hholds : ∀ b ∈ w.burned, r'.Holds b.1 → r.Holds b.1) : r'.Ok w.records w.burned where
  sealed := hsealed
  behind := happlied ▸ hok.behind
  dropped hsome b hb happ hold :=
    hok.dropped (hkey ▸ hsome) b hb (by rwa [Replica.HasApplied, ← happlied]) (hholds b hb hold)

/-- What a node that is started again had applied was published. -/
theorem Inv.behind_appliedBy (hinv : w.Inv) {a : ℕ} (ha : a ∈ w.appliedBy n) :
    ∃ data ∈ w.records, a ≤ data.generation := by
  unfold appliedBy at ha
  cases hn : w.nodes n with
  | none =>
    rw [hn] at ha
    cases ha
  | some r =>
    rw [hn] at ha
    exact (hinv n r hn).behind a ha

/-- A node that takes its state from a record, without the key or from one that lists no burned invite. -/
theorem Inv.ok_restarted (hinv : w.Inv) {state : NetworkState Id} {data : GroupBlob Id} (hsealed : state.Sealed)
    (hdata : data ∈ w.records) (hinvites : state.invites = data.invites)
    (hclean : state.networkSecretKey ≠ none → ∀ b ∈ w.burned,
      b.2 ≤ data.generation ∨ (∃ a ∈ w.appliedBy n, b.2 ≤ a) → ¬ Redeemable data.invites b.1) :
    Replica.Ok w.records w.burned ⟨state, [], data.generation :: w.appliedBy n⟩ where
  sealed := hsealed
  behind a ha := by
    rcases List.mem_cons.mp ha with rfl | hold
    · exact ⟨data, hdata, le_refl _⟩
    · exact hinv.behind_appliedBy hold
  dropped hsome b hb happ hold := by
    obtain ⟨a, ha, hle⟩ := happ
    have hlists : Redeemable data.invites b.1 := by
      rcases hold with htable | ⟨_, hin, -⟩
      · rwa [← hinvites]
      · cases hin
    rcases List.mem_cons.mp ha with rfl | hin
    · exact hclean hsome b hb (Or.inl hle) hlists
    · exact hclean hsome b hb (Or.inr ⟨a, hin, hle⟩) hlists

theorem Inv.write (hinv : w.Inv) (hnode : w.nodes n = some r) {sec : Section Id} (hclean : w.Clean (.write n sec))
    (hsec : sec.isRedemption = false) : (w.set n { r with state := sec.run r.state }).Inv := by
  have hok := hinv n r hnode
  cases hgrant : sec.isGrant with
  | true =>
    cases sec with
    | adminGrant key myIdentity =>
      exact hinv.set ⟨hok.sealed.run (.adminGrant key myIdentity), hok.behind, fun _ b hb happ hold =>
        hclean r hnode b hb happ hold⟩
    | _ => cases hgrant
  | false =>
    refine hinv.set (ok_of_holds hok (hok.sealed.run sec) (Section.networkSecretKey_eq _ sec hgrant) rfl
      fun b hb hold => ?_)
    rcases hold with htable | hjoin
    · rcases Section.redeemable_of_run hsec htable with hold | ⟨secret, now, ttlSecs, rfl, hkey⟩
      · exact Or.inl hold
      · exact absurd hkey (hclean b hb)
    · exact Or.inr hjoin

theorem Inv.redeem (hinv : w.Inv) (hnode : w.nodes n = some r) (secret : Bytes) (now : ℕ) :
    Inv (match redeemInvite r.state secret now with
      | (some entry, state) => w.set n { r with state := state, joins := ⟨secret, entry⟩ :: r.joins }
      | (none, state) => w.set n { r with state := state }) := by
  have hok := hinv n r hnode
  cases hvalid : validateInvite r.state.invites secret now with
  | none =>
    simp only [redeemInvite, consumeInvite_of_none hvalid]
    exact hinv.set (ok_of_holds hok hok.sealed rfl rfl fun _ _ => id)
  | some entry =>
    simp only [redeemInvite, consumeInvite_of_some hvalid]
    obtain ⟨hentry, hlive, -⟩ := validateInvite_eq_some.mp hvalid
    refine hinv.set (ok_of_holds hok (NetworkState.sealed_refreshSnapshot _) rfl rfl fun b hb hold => ?_)
    rcases hold with htable | ⟨held, hheld, hkey⟩
    · exact Or.inl (redeemable_of_erase htable)
    · rcases List.mem_cons.mp hheld with rfl | hold
      · exact Or.inl (hkey ▸ ⟨entry, hentry, hlive⟩)
      · exact Or.inr ⟨held, hold, hkey⟩

theorem Inv.deny (hinv : w.Inv) (hnode : w.nodes n = some r) {held : HeldInvite} (hheld : held ∈ r.joins)
    (now : ℕ) : (w.set n { r with
      state := restoreDenied r.state held.secret held.entry now
      joins := r.joins.erase held }).Inv := by
  have hok := hinv n r hnode
  refine hinv.set (ok_of_holds hok (hok.sealed.run (.restoreDenied held.secret held.entry now))
    (Section.networkSecretKey_eq _ (.restoreDenied held.secret held.entry now) rfl) rfl fun b hb hold => ?_)
  rcases hold with htable | ⟨other, hother, hkey⟩
  · rcases invites_restoreDenied r.state held.secret held.entry now with hkeep | hback
    · exact Or.inl (hkeep ▸ htable)
    · rcases redeemable_of_insert (hback ▸ htable) with hold | ⟨hkey, -⟩
      · exact Or.inl hold
      · exact Or.inr ⟨held, hheld, hkey.symm⟩
  · exact Or.inr ⟨other, List.mem_of_mem_erase hother, hkey⟩

theorem Inv.apply (hinv : w.Inv) (hnode : w.nodes n = some r) {path : ApplyPath} {data : GroupBlob Id}
    {state : NetworkState Id} (hdata : data ∈ w.records) (happly : applyBlob path r.state data = some state)
    (hclean : r.state.networkSecretKey ≠ none → ∀ b ∈ w.burned, b.2 ≤ data.generation → ¬ r.Holds b.1) :
    (w.set n { r with state := state, applied := data.generation :: r.applied }).Inv := by
  have hok := hinv n r hnode
  obtain ⟨-, -, hinvites, -, hkey⟩ := applyBlob_frame happly
  refine hinv.set ⟨sealed_applyBlob happly, fun a ha => ?_, fun hsome b hb happ hold => ?_⟩
  · rcases List.mem_cons.mp ha with rfl | hold
    · exact ⟨data, hdata, le_refl _⟩
    · exact hok.behind a hold
  · have hold : r.Holds b.1 := hold.imp_left fun htable => hinvites ▸ htable
    obtain ⟨a, ha, hle⟩ := happ
    rcases List.mem_cons.mp ha with rfl | hin
    · exact hclean (hkey ▸ hsome) b hb hle hold
    · exact hok.dropped (hkey ▸ hsome) b hb ⟨a, hin, hle⟩ hold

/-- A publication above every earlier one burns invites only at a generation no one has applied yet. -/
theorem Inv.publish (hinv : w.Inv) (hnode : w.nodes n = some r) (hclean : w.Clean (.publish n))
    (h : w.onPublish r = some w') : w'.Inv := by
  unfold onPublish at h
  split at h
  · cases h
    intro n' r' hnode'
    have hok := hinv n' r' hnode'
    refine ⟨hok.sealed, fun a ha => ?_, fun hsome b hb happ => ?_⟩
    · obtain ⟨data, hdata, hle⟩ := hok.behind a ha
      exact ⟨data, List.mem_append_left _ hdata, hle⟩
    · rcases List.mem_append.mp hb with hnew | hold
      · obtain ⟨key, -, rfl⟩ := List.mem_map.mp hnew
        obtain ⟨a, ha, hle⟩ := happ
        obtain ⟨data, hdata, hbound⟩ := hok.behind a ha
        have hlt := hclean r hnode data hdata
        exact absurd (hle.trans hbound) (not_le.mpr hlt)
      · exact hok.dropped hsome b hold happ
  · cases h

/-- **Step**: a clean event keeps every node's burned invites dropped. -/
theorem Inv.step (hinv : w.Inv) {ev : WorldEvent Id} (hclean : w.Clean ev) (h : w.next ev = some w') :
    w'.Inv := by
  cases ev with
  | join n record members approved netPubkey name =>
    obtain ⟨data, hdata, rfl⟩ := Option.map_eq_some_iff.mp h
    exact hinv.set (hinv.ok_restarted (NetworkState.sealed_refreshSnapshot _) (List.mem_of_getElem? hdata) rfl
      fun hsome => absurd rfl hsome)
  | restart p record nc veilidNodeId =>
    obtain ⟨data, hdata, h⟩ := Option.bind_eq_some_iff.mp h
    obtain ⟨state, hstate, rfl⟩ := Option.map_eq_some_iff.mp h
    obtain ⟨hsealed, hinvites⟩ := restoreCoordinatorNetwork_spec hstate
    exact hinv.set (hinv.ok_restarted hsealed (List.mem_of_getElem? hdata) hinvites fun _ => hclean data hdata)
  | restartFromConfig p nc veilidNodeId =>
    obtain ⟨state, hstate, rfl⟩ := Option.map_eq_some_iff.mp h
    obtain ⟨hsealed, hinvites⟩ := restoreCoordinatorNetwork_spec hstate
    refine hinv.set ⟨hsealed, fun a ha => hinv.behind_appliedBy ha, fun _ b _ _ hold => ?_⟩
    -- the saved configuration has no invites
    rcases hold with ⟨e, he, -⟩ | ⟨_, hin, -⟩
    · rw [hinvites] at he
      simp at he
    · cases hin
  | write n sec =>
    obtain ⟨r, hnode, h⟩ := Option.bind_eq_some_iff.mp h
    split at h <;> cases h
    rename_i hsec
    exact hinv.write hnode hclean (by simpa using hsec)
  | redeem n secret now =>
    obtain ⟨r, hnode, rfl⟩ := Option.map_eq_some_iff.mp h
    exact hinv.redeem hnode secret now
  | admitJoiner n held m =>
    obtain ⟨r, hnode, h⟩ := Option.bind_eq_some_iff.mp h
    split at h <;> cases h
    have hok := hinv n r hnode
    refine hinv.set (ok_of_holds hok (hok.sealed.run (.admitPeer m)) rfl rfl fun b _ hold => ?_)
    exact hold.imp_right fun ⟨other, hother, hkey⟩ => ⟨other, List.mem_of_mem_erase hother, hkey⟩
  | deny n held now =>
    obtain ⟨r, hnode, h⟩ := Option.bind_eq_some_iff.mp h
    split at h <;> cases h
    rename_i hheld
    exact hinv.deny hnode hheld now
  | apply n path record =>
    obtain ⟨r, hnode, h⟩ := Option.bind_eq_some_iff.mp h
    obtain ⟨data, hdata, h⟩ := Option.bind_eq_some_iff.mp h
    obtain ⟨state, happly, rfl⟩ := Option.map_eq_some_iff.mp h
    exact hinv.apply hnode (List.mem_of_getElem? hdata) happly (hclean data hdata r hnode)
  | publish n =>
    obtain ⟨r, hnode, h⟩ := Option.bind_eq_some_iff.mp h
    exact hinv.publish hnode hclean h

/-- In a network where the holders of the key drop burned invites before they take a state from a record and other
nodes before they receive it, minted secrets are fresh and published generations ascend, a node that has applied a
blob at or above the generation at which an invite was burned publishes no record above it that lists the invite as
redeemable. -/
theorem burned_stays_burned {p : IdentityProvider Id} {name hostname : String} {key : Bytes} {subnet : Subnet}
    {threshold : ℕ} {preApprove : Option (Id × Option String)} {veilidNodeId : Option String}
    {s₀ : NetworkState Id} {events : List (WorldEvent Id)}
    (hcreate : buildInitialRoster p name hostname key subnet threshold preApprove veilidNodeId = some s₀)
    (hrun : Run (fun w ev w' => w.next ev = some w') Clean (start p.endpointId s₀) events w)
    (hnode : w.nodes n = some r) (hpublish : w.next (.publish n) = some w') :
    ∃ data, w'.records = w.records ++ [data] ∧ data.generation = r.state.generation ∧
      ∀ b ∈ w.burned, b.2 < data.generation → r.HasApplied b.2 → ¬ Redeemable data.invites b.1 := by
  have hinv : w.Inv := hrun.invariant (I := fun _ w => w.Inv) (inv_start (sealed_buildInitialRoster hcreate))
    fun _ _ _ _ hinv hclean hstep => hinv.step hclean hstep
  have hok := hinv n r hnode
  obtain ⟨blob, hsnapshot, hgeneration, hinvites⟩ := hok.sealed
  simp only [next, hnode, Option.bind_some, onPublish, hsnapshot] at hpublish
  split at hpublish
  · rename_i hkey heq
    cases heq
    cases hpublish
    have hsome : r.state.networkSecretKey ≠ none := by simp [hkey]
    exact ⟨blob, rfl, hgeneration, fun b hb _ happ hlists => hok.dropped hsome b hb happ (Or.inl (hinvites ▸ hlists))⟩
  · cases hpublish

end World

end Tetron.Daemon

/-! ### bob's own invite -/

namespace Tetron.Daemon.World

open Tetron.Membership Sample

def founder : IdentityProvider Peer := ⟨.alice, 0, defaultSubnet⟩

noncomputable def founded : NetworkState Peer :=
  (buildInitialRoster founder "mesh" "alice" [1] defaultSubnet 2 none none).get (by decide +kernel)

/-- The join with the invite alice minted at time 10, for good. -/
def bobsInvite : HeldInvite := ⟨[7], .fromSecret [7] 10 0⟩

/-- alice mints an invite and publishes it, admits bob with it, and publishes the next record without it. -/
def burnEvents : List (WorldEvent Peer) :=
  [.write .alice (.inviteCreate [7] 10 0), .publish .alice, .redeem .alice [7] 20,
    .admitJoiner .alice bobsInvite (admittedMember .bob (deriveIp Peer.bob defaultSubnet) 0 none none 20),
    .publish .alice]

/-- bob takes his state from a record, and is made a coordinator. -/
def joinEvents (record : ℕ) : List (WorldEvent Peer) :=
  [.join .bob record [member .alice true, member .bob false] [] .alice "mesh",
    .apply .bob .poller 1, .write .bob (.adminGrant [1] .bob), .write .bob .updateSnapshot]

theorem burned_stays_burned_bob : ∃ w w' r data,
    Run (fun w ev w' => World.next w ev = some w') Clean (start .alice founded) (burnEvents ++ joinEvents 1) w ∧
    w.nodes .bob = some r ∧ w.next (.publish .bob) = some w' ∧ w'.records = w.records ++ [data] ∧
    (inviteKey [7], 3) ∈ w.burned ∧ 3 < data.generation ∧ r.HasApplied 3 ∧
    ¬ Redeemable data.invites (inviteKey [7]) := by
  obtain ⟨w, hrun, r, hnode, hgeneration, hsome, hburned, happ⟩ : ∃ w : World Peer,
      Run (fun w ev w' => World.next w ev = some w') Clean (start .alice founded) (burnEvents ++ joinEvents 1) w ∧
      ∃ r ∈ w.nodes .bob, 3 < r.state.generation ∧ (w.next (.publish .bob)).isSome = true ∧
        (inviteKey [7], 3) ∈ w.burned ∧ r.HasApplied 3 := Run.exists_of_exec (by decide +kernel)
  obtain ⟨w', hpublish⟩ := Option.isSome_iff_exists.mp hsome
  obtain ⟨data, hrecords, hdata, hclean⟩ := burned_stays_burned (p := founder) (Option.some_get _).symm hrun hnode
    hpublish
  have hlt : 3 < data.generation := hdata ▸ hgeneration
  exact ⟨w, w', r, data, hrun, hnode, hpublish, hrecords, hburned, hlt, happ, hclean _ hburned hlt happ⟩

/-- bob joined on the record with his invite. He polls the one without it, which leaves his table as it
was, and publishes the invite again at a higher generation. -/
theorem burned_invite_returns : ∃ w w' r data,
    Run (fun w ev w' => World.next w ev = some w') (fun _ _ => True) (start .alice founded)
      (burnEvents ++ joinEvents 0) w ∧
    w.nodes .bob = some r ∧ w.next (.publish .bob) = some w' ∧ w'.records = w.records ++ [data] ∧
    (inviteKey [7], 3) ∈ w.burned ∧ 3 < data.generation ∧ r.HasApplied 3 ∧
    Redeemable data.invites (inviteKey [7]) := by
  obtain ⟨w, hrun, r, hnode, hkey, snapshot, hsnapshot, hburned, hlt, happ, hlists⟩ : ∃ w : World Peer,
      Run (fun w ev w' => World.next w ev = some w') (fun _ _ => True) (start .alice founded)
        (burnEvents ++ joinEvents 0) w ∧
      ∃ r ∈ w.nodes .bob, r.state.networkSecretKey.isSome = true ∧ ∃ snapshot ∈ r.state.snapshot,
        (inviteKey [7], 3) ∈ w.burned ∧ 3 < snapshot.blob.generation ∧ r.HasApplied 3 ∧
        Redeemable snapshot.blob.invites (inviteKey [7]) := Run.exists_of_exec (by decide +kernel)
  obtain ⟨key, hkey⟩ := Option.isSome_iff_exists.mp hkey
  have hpublish : w.next (.publish .bob) = w.onPublish r := by rw [next, hnode, Option.bind_some]
  rw [onPublish, hkey, hsnapshot] at hpublish
  exact ⟨w, _, r, snapshot.blob, hrun, hnode, hpublish, rfl, hburned, hlt, happ, hlists⟩

end Tetron.Daemon.World
