import Tetron.Daemon.Admission
import Tetron.Daemon.Publish

/-!
# Serving what the record names

A record names a blob by its hash, and whoever reads it asks the publisher for the blob, so a snapshot has to be
in the store before the publisher is notified. Redeeming an invite seals one snapshot when the invite is
consumed, another when the joiner is added or the invite restored, and stores the bytes of the joiner's only.

A join that consumed its invite leaves a blob to serve exactly when it is admitted and the write succeeds
(`redeem_serves_iff`).
-/

namespace Tetron.Daemon

open Tetron.Membership

/-- The store holds a blob with this hash. -/
def Stored [Blake3] (blobs : List Bytes) (hash : Hash) : Prop := ∃ bytes ∈ blobs, Blake3.hash bytes = hash

/-- A joiner's request, what the clock says at each step, and whether the write to the store succeeds. -/
structure RedeemCall (Id : Type) where
  remoteId : Id
  hostname : Option String
  veilidNodeId : Option String
  secret : Bytes
  consumedAt : ℕ
  checkedAt : ℕ
  seatedAt : ℕ
  restoredAt : ℕ
  stores : Bool

variable {Id : Type} [DecidableEq Id] [Endpoint Id] [Msgpack Id] [Blake3]

namespace RedeemCall

variable (call : RedeemCall Id) (networkKey : Id) (s : NetworkState Id) (blobs : List Bytes)

def seat (plan : JoinPlan) : NetworkState Id :=
  Daemon.admitPeer s
    (admittedMember call.remoteId plan.ip plan.collisionIndex plan.hostname call.veilidNodeId call.seatedAt)

/-- Whether `validate_admission` lets the joiner in. -/
def admissible : Bool :=
  match validateAdmission s networkKey call.remoteId call.hostname false with
  | some (.ok _) => true
  | _ => false

/-- The state in which the admission is decided. -/
def consumed : NetworkState Id := (redeemInvite s call.secret call.consumedAt).2

/-- `admit_peer`, up to its result: the joiner is added and the snapshot stored, or nothing changes. -/
def admitPeer : Option (Bool × NetworkState Id × List Bytes) :=
  (validateAdmission s networkKey call.remoteId call.hostname false).map fun verdict =>
    match verdict with
    | .error _ => (false, s, blobs)
    | .ok plan =>
      let s' := call.seat s plan
      let stored := if call.stores then (s'.snapshot.map GroupSnapshot.msgpackBytes).toList else []
      (true, s', stored ++ blobs)

/-- `redeem_invite_and_admit` by itself, with the state and the store it leaves; `none` if it does not return. -/
def run : Option (NetworkState Id × List Bytes) :=
  match redeemInvite s call.secret call.consumedAt with
  | (some entry, s₁) =>
    (call.admitPeer networkKey s₁ blobs).map fun (admitted, s₂, blobs') =>
      if admitted then (s₂, blobs') else (restoreDenied s₂ call.secret entry call.restoredAt, blobs')
  | (none, s₁) =>
    match validateReusableKey s₁.reusableKeys call.secret call.checkedAt with
    | some _ => (call.admitPeer networkKey s₁ blobs).map Prod.snd
    | none => some (s₁, blobs)

/-- With a live invite, the joiner is let in and the write succeeds. Without one, the same for the holder of a
reusable key; anybody else changes nothing, so the blob has to be there. -/
def Stores : Prop :=
  if (validateInvite s.invites call.secret call.consumedAt).isSome then
    call.admissible networkKey (call.consumed s) = true ∧ call.stores = true
  else if (validateReusableKey s.reusableKeys call.secret call.checkedAt).isSome ∧
      call.admissible networkKey s = true then call.stores = true
  else Stored blobs s.published.2

end RedeemCall

/-- No blob of the network in the store is ahead of the state, and its counter has room. -/
def NetworkState.Leads (s : NetworkState Id) (blobs : List Bytes) : Prop :=
  s.generation + 2 < 2 ^ 64 ∧
    ∀ b : GroupBlob Id, Msgpack.toVecNamed b ∈ blobs → b.name = s.networkName → b.generation ≤ s.generation

/-- The snapshot is of a later generation of the network. -/
def NetworkState.Passed (s t : NetworkState Id) : Prop :=
  ∃ b : GroupBlob Id, t.snapshot = some (.of b) ∧ b.name = s.networkName ∧ s.generation < b.generation

section Steps

variable {call : RedeemCall Id} {networkKey : Id} {s t : NetworkState Id} {blobs : List Bytes}

/-- A later snapshot is not in the store. -/
theorem NetworkState.Passed.not_stored (hinj : Function.Injective (Blake3.hash : Bytes → Hash)) (h : s.Passed t)
    (hleads : s.Leads blobs) : ¬ Stored blobs t.published.2 := by
  obtain ⟨b, hsnap, hname, hlt⟩ := h
  rintro ⟨bytes, hmem, hhash⟩
  rw [NetworkState.published, hsnap] at hhash
  have hbytes : bytes = Msgpack.toVecNamed b := hinj hhash
  rw [hbytes] at hmem
  exact absurd (hleads.2 b hmem hname) (not_le.mpr hlt)

theorem NetworkState.passed_bump (hname : t.networkName = s.networkName) (hgen : s.generation ≤ t.generation)
    (hroom : t.generation + 1 < 2 ^ 64) : s.Passed t.bumpGenerationAndRefresh := by
  refine ⟨NetworkState.blob _, rfl, hname, ?_⟩
  change s.generation < succGeneration t.generation
  rw [succGeneration_of_lt hroom]
  omega

theorem passed_seat (plan : JoinPlan) (hname : t.networkName = s.networkName) (hgen : s.generation ≤ t.generation)
    (hroom : t.generation + 1 < 2 ^ 64) : s.Passed (call.seat t plan) :=
  NetworkState.passed_bump hname hgen hroom

theorem passed_restoreDenied {secret : Bytes} {entry : InviteEntry} {now : ℕ} (h : s.Passed t)
    (hname : t.networkName = s.networkName) (hgen : s.generation ≤ t.generation) (hroom : t.generation + 1 < 2 ^ 64) :
    s.Passed (restoreDenied t secret entry now) := by
  unfold restoreDenied
  split
  · exact h
  · exact NetworkState.passed_bump hname hgen hroom

/-- What `admit_peer` leaves: a seated joiner and, if the write succeeds, its snapshot in the store; or nothing. -/
theorem admitPeer_cases {admitted : Bool} {t' : NetworkState Id} {blobs' : List Bytes}
    (h : call.admitPeer networkKey t blobs = some (admitted, t', blobs')) :
    (admitted = true ∧ call.admissible networkKey t = true ∧ ∃ plan, t' = call.seat t plan ∧
        (call.stores = true → Stored blobs' t'.published.2) ∧ (call.stores = false → blobs' = blobs)) ∨
      (admitted = false ∧ call.admissible networkKey t = false ∧ t' = t ∧ blobs' = blobs) := by
  unfold RedeemCall.admitPeer at h
  obtain ⟨verdict, hverdict, heq⟩ := Option.map_eq_some_iff.mp h
  cases verdict with
  | error reason =>
    cases heq
    refine Or.inr ⟨rfl, ?_, rfl, rfl⟩
    rw [RedeemCall.admissible, hverdict]
  | ok plan =>
    cases heq
    refine Or.inl ⟨rfl, ?_, plan, rfl, fun hstores => ?_, fun hstores => ?_⟩
    · rw [RedeemCall.admissible, hverdict]
    · rw [if_pos hstores]
      exact ⟨_, List.mem_cons_self, rfl⟩
    · rw [if_neg (by rw [hstores]; exact Bool.false_ne_true)]
      rfl

/-- A later snapshot that is in the store was put there. -/
theorem stores_of_stored (hinj : Function.Injective (Blake3.hash : Bytes → Hash)) {t' : NetworkState Id}
    {blobs' : List Bytes} (hleads : s.Leads blobs) (hpassed : s.Passed t') (hno : call.stores = false → blobs' = blobs)
    (hstored : Stored blobs' t'.published.2) : call.stores = true := by
  cases hstores : call.stores with
  | true => rfl
  | false =>
    rw [hno hstores] at hstored
    exact absurd hstored (hpassed.not_stored hinj hleads)

theorem redeemInvite_of_some {secret : Bytes} {now : ℕ} {entry : InviteEntry}
    (h : validateInvite s.invites secret now = some entry) :
    redeemInvite s secret now =
      (some entry, NetworkState.bumpGenerationAndRefresh { s with invites := s.invites.erase (inviteKey secret) }) := by
  rw [redeemInvite, consumeInvite_of_some h]

theorem redeemInvite_of_none {secret : Bytes} {now : ℕ} (h : validateInvite s.invites secret now = none) :
    redeemInvite s secret now = (none, s) := by
  rw [redeemInvite, consumeInvite_of_none h]

/-- Consuming an invite seals the next generation of the network. -/
theorem consumed_spec {entry : InviteEntry}
    (hinvite : validateInvite s.invites call.secret call.consumedAt = some entry) (hroom : s.generation + 1 < 2 ^ 64) :
    s.Passed (call.consumed s) ∧ (call.consumed s).networkName = s.networkName ∧
      (call.consumed s).generation = s.generation + 1 := by
  rw [RedeemCall.consumed, redeemInvite_of_some hinvite]
  exact ⟨NetworkState.passed_bump rfl le_rfl hroom, rfl, succGeneration_of_lt hroom⟩

/-- A denied join ends with a snapshot that was not stored. -/
theorem not_stored_of_denied (hinj : Function.Injective (Blake3.hash : Bytes → Hash)) {entry : InviteEntry}
    (hinvite : validateInvite s.invites call.secret call.consumedAt = some entry) (hleads : s.Leads blobs) :
    ¬ Stored blobs (restoreDenied (call.consumed s) call.secret entry call.restoredAt).published.2 := by
  have hroom := hleads.1
  obtain ⟨hpassed, hname, hgen⟩ := consumed_spec hinvite (by omega)
  exact (passed_restoreDenied hpassed hname (by omega) (by omega)).not_stored hinj hleads

end Steps

section Call

variable {call : RedeemCall Id} {networkKey : Id} {s s' : NetworkState Id} {blobs blobs' : List Bytes}

/-- The branch of a live invite. -/
theorem serves_of_invite (hinj : Function.Injective (Blake3.hash : Bytes → Hash)) {entry : InviteEntry}
    (hinvite : validateInvite s.invites call.secret call.consumedAt = some entry)
    (h : call.run networkKey s blobs = some (s', blobs')) :
    (call.admissible networkKey (call.consumed s) = true → call.stores = true → Stored blobs' s'.published.2) ∧
      (s.Leads blobs → Stored blobs' s'.published.2 →
        call.admissible networkKey (call.consumed s) = true ∧ call.stores = true) := by
  have hrun : call.run networkKey s blobs = (call.admitPeer networkKey (call.consumed s) blobs).map
      fun (admitted, s₂, blobs') =>
        if admitted then (s₂, blobs') else (restoreDenied s₂ call.secret entry call.restoredAt, blobs') := by
    rw [RedeemCall.run, RedeemCall.consumed, redeemInvite_of_some hinvite]
  rw [hrun] at h
  obtain ⟨⟨admitted, s₂, blobs₂⟩, hadmit, heq⟩ := Option.map_eq_some_iff.mp h
  rcases admitPeer_cases hadmit with ⟨rfl, hok, plan, rfl, hyes, hno⟩ | ⟨rfl, hok, rfl, rfl⟩
  · cases heq
    refine ⟨fun _ => hyes, fun hleads hstored => ⟨hok, ?_⟩⟩
    have hroom := hleads.1
    obtain ⟨-, hname, hgen⟩ := consumed_spec hinvite (by omega)
    exact stores_of_stored hinj hleads (passed_seat plan hname (by omega) (by omega)) hno hstored
  · cases heq
    refine ⟨fun hyes => absurd hyes (by rw [hok]; exact Bool.false_ne_true), fun hleads hstored => ?_⟩
    exact absurd hstored (not_stored_of_denied hinj hinvite hleads)

/-- A denied join keeps the store and restores what it can of the invite. -/
theorem run_of_denied {entry : InviteEntry} {reason : Denial}
    (hinvite : validateInvite s.invites call.secret call.consumedAt = some entry)
    (hdenied : validateAdmission (call.consumed s) networkKey call.remoteId call.hostname false =
      some (.error reason)) :
    call.run networkKey s blobs =
      some (restoreDenied (call.consumed s) call.secret entry call.restoredAt, blobs) := by
  rw [RedeemCall.consumed, redeemInvite_of_some hinvite] at hdenied ⊢
  simp only [RedeemCall.run, redeemInvite_of_some hinvite, RedeemCall.admitPeer, hdenied, Option.map_some,
    Bool.false_eq_true, if_false]

/-- **The store can serve what the record will name** if a join that consumed its invite, or came with a
reusable key, is admitted and its write succeeds, or a join that changed nothing found the blob there; and only
then, unless the store holds a later blob of the network. -/
theorem redeem_serves_iff (hinj : Function.Injective (Blake3.hash : Bytes → Hash))
    (h : call.run networkKey s blobs = some (s', blobs')) :
    (call.Stores networkKey s blobs → Stored blobs' s'.published.2) ∧
      (s.Leads blobs → (Stored blobs' s'.published.2 ↔ call.Stores networkKey s blobs)) := by
  suffices hsplit : (call.Stores networkKey s blobs → Stored blobs' s'.published.2) ∧
      (s.Leads blobs → Stored blobs' s'.published.2 → call.Stores networkKey s blobs) from
    ⟨hsplit.1, fun hleads => ⟨hsplit.2 hleads, hsplit.1⟩⟩
  unfold RedeemCall.Stores
  cases hinvite : validateInvite s.invites call.secret call.consumedAt with
  | some entry =>
    rw [Option.isSome_some, if_pos rfl]
    obtain ⟨hyes, hno⟩ := serves_of_invite hinj hinvite h
    exact ⟨fun hstores => hyes hstores.1 hstores.2, hno⟩
  | none =>
    rw [Option.isSome_none, if_neg Bool.false_ne_true]
    simp only [RedeemCall.run, redeemInvite_of_none hinvite] at h
    cases hkey : validateReusableKey s.reusableKeys call.secret call.checkedAt with
    | none =>
      rw [hkey] at h
      cases h
      rw [if_neg fun hboth => Bool.false_ne_true hboth.1]
      exact ⟨id, fun _ => id⟩
    | some key =>
      rw [hkey] at h
      obtain ⟨⟨admitted, s₂, blobs₂⟩, hadmit, heq⟩ := Option.map_eq_some_iff.mp h
      cases heq
      rcases admitPeer_cases hadmit with ⟨rfl, hok, plan, rfl, hyes, hno⟩ | ⟨rfl, hok, rfl, rfl⟩
      · rw [if_pos ⟨rfl, hok⟩]
        refine ⟨hyes, fun hleads hstored => ?_⟩
        have hroom := hleads.1
        exact stores_of_stored hinj hleads (passed_seat plan rfl le_rfl (by omega)) hno hstored
      · rw [if_neg fun hboth => by rw [hok] at hboth; exact Bool.false_ne_true hboth.2]
        exact ⟨id, fun _ => id⟩

end Call

end Tetron.Daemon

namespace Tetron.Daemon.Sample

open Tetron.Membership

/-- Carol coordinates, alice is approved, and there is an invite. -/
noncomputable def inviting : NetworkState Peer :=
  let s := state 5 [member .carol true]
  NetworkState.refreshSnapshot { s with
    approved := s.approved.approveOrKeep ⟨.alice, deriveIp Peer.alice defaultSubnet, none, 0⟩ s.members
    invites := (∅ : Invites).insert (inviteKey [9]) (.fromSecret [9] 0 3600) }

def redeems (peer : Peer) : RedeemCall Peer := ⟨peer, some "peer", none, [9], 10, 10, 11, 12, true⟩

theorem redeem_serves_bob :
    ∃ s blobs, (redeems .bob).run .carol inviting [inviting.bytes] = some (s, blobs) ∧
      Stored blobs s.published.2 := by
  have hreturns : ((redeems .bob).run .carol inviting [inviting.bytes]).isSome = true := by decide +kernel
  obtain ⟨⟨s, blobs⟩, hrun⟩ := Option.isSome_iff_exists.mp hreturns
  have hlive : (validateInvite inviting.invites (redeems .bob).secret (redeems .bob).consumedAt).isSome = true := by
    decide +kernel
  have hin : (redeems .bob).admissible .carol ((redeems .bob).consumed inviting) = true := by decide +kernel
  refine ⟨s, blobs, hrun, (redeem_serves_iff Function.injective_id hrun).1 ?_⟩
  rw [RedeemCall.Stores, if_pos hlive]
  exact ⟨hin, rfl⟩

theorem leads_inviting : inviting.Leads [inviting.bytes] := by
  refine ⟨by decide, fun b hmem _ => ?_⟩
  have hbytes : Msgpack.toVecNamed b = Msgpack.toVecNamed inviting.blob := List.mem_singleton.mp hmem
  have hblob : (Msgpack.fromSlice (Msgpack.toVecNamed b) : Option (GroupBlob Peer)) =
      Msgpack.fromSlice (Msgpack.toVecNamed inviting.blob) := by rw [hbytes]
  rw [roundTrips, roundTrips] at hblob
  exact (congrArg GroupBlob.generation (Option.some.inj hblob)).le

/-- Victor is denied, because the address he derives is approved for alice, and the invite is restored: the
store, which could serve the network before, cannot any more. -/
theorem denied_join_not_served :
    Stored [inviting.bytes] inviting.published.2 ∧
      ∃ s blobs, (redeems .victor).run .carol inviting [inviting.bytes] = some (s, blobs) ∧
        ¬ Stored blobs s.published.2 := by
  obtain ⟨entry, hinvite⟩ : ∃ entry, validateInvite inviting.invites (redeems .victor).secret
      (redeems .victor).consumedAt = some entry := Option.isSome_iff_exists.mp (by decide +kernel)
  have hdenied : validateAdmission ((redeems .victor).consumed inviting) .carol (redeems .victor).remoteId
      (redeems .victor).hostname false = some (.error (.ipCollision (deriveIp Peer.victor defaultSubnet))) := by
    rfl
  exact ⟨⟨_, List.mem_singleton.mpr rfl, rfl⟩, _, _, run_of_denied hinvite hdenied,
    not_stored_of_denied Function.injective_id hinvite leads_inviting⟩

end Tetron.Daemon.Sample
