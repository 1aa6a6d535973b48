import Tetron.Daemon.Adopt
import Tetron.Lib.Run

/-!
# Redeeming invites on one coordinator

An invite is off the table while a join that presented it is being decided: `consume_invite` takes it
under the write lock, and `restore_invite` puts it back if the join is denied. `Coordinator` interleaves
any number of such joins with minting and revoking invites, and with every section and blob that does
not touch the table.

What carries the argument is that a secret has one token: an entry on the table, a join that holds the
entry, or an admission. No step makes a second one, because minted secrets are fresh; and a revoked
secret's token stays on the table, revoked.
-/

namespace Tetron.Daemon

open Tetron.Membership

inductive RedemptionStage
  /-- Holds the consumed entry; the admission is being decided. -/
  | consumed (entry : InviteEntry)
  /-- Found no entry; the reusable keys come next. -/
  | lookup
  /-- A reusable key; the admission is being decided. -/
  | reusable
deriving DecidableEq

/-- A run of `redeem_invite_and_admit`, and whether a revocation of its secret had succeeded before it
started. -/
structure Redemption where
  secret : Bytes
  afterRevoke : Bool
  stage : RedemptionStage
deriving DecidableEq

structure Admission where
  secret : Bytes
  afterRevoke : Bool
deriving DecidableEq

structure Coordinator (Id : Type) [DecidableEq Id] [Msgpack Id] [Blake3] where
  state : NetworkState Id
  redemptions : List Redemption
  admitted : List Admission
  /-- Keys that have been on the table. -/
  used : List String
  /-- Keys whose revocation succeeded. -/
  revoked : List String

inductive CoordinatorEvent (Id : Type)
  | mint (secret : Bytes) (now ttlSecs : ℕ)
  | revoke (inviteId : String)
  | redeem (secret : Bytes) (now : ℕ)
  | fallback (task : Redemption) (now : ℕ)
  | admitJoiner (task : Redemption) (m : Member Id)
  | deny (task : Redemption) (now : ℕ)
  | other (sec : Section Id)
  | apply (path : ApplyPath) (data : GroupBlob Id)

variable {Id : Type} [DecidableEq Id] [Endpoint Id] [Msgpack Id] [Blake3]

namespace Coordinator

def start (s : NetworkState Id) : Coordinator Id := ⟨s, [], [], s.invites.keys, []⟩

/-- `invite_revoke`. -/
def onRevoke (c : Coordinator Id) (inviteId : String) : Coordinator Id :=
  match inviteRevoke c.state inviteId with
  | .error _ => c
  | .ok state =>
    { c with
      state := state
      revoked := (c.state.invites.toList.filter fun kv => kv.2.matchesId inviteId).map Prod.fst ++ c.revoked }

/-- The first section of `redeem_invite_and_admit`. -/
def onRedeem (c : Coordinator Id) (secret : Bytes) (now : ℕ) : Coordinator Id :=
  let afterRevoke := decide (inviteKey secret ∈ c.revoked)
  match redeemInvite c.state secret now with
  | (some entry, state) =>
    { c with state := state, redemptions := ⟨secret, afterRevoke, .consumed entry⟩ :: c.redemptions }
  | (none, state) => { c with state := state, redemptions := ⟨secret, afterRevoke, .lookup⟩ :: c.redemptions }

/-- The second phase: a valid reusable key, or the join is rejected. -/
def onFallback (c : Coordinator Id) (task : Redemption) (now : ℕ) : Coordinator Id :=
  match validateReusableKey c.state.reusableKeys task.secret now with
  | some _ => { c with redemptions := { task with stage := .reusable } :: c.redemptions.erase task }
  | none => { c with redemptions := c.redemptions.erase task }

/-- A denied join: what was consumed is restored. -/
def onDeny (c : Coordinator Id) (task : Redemption) (now : ℕ) : Coordinator Id :=
  match task.stage with
  | .consumed entry =>
    { c with state := restoreDenied c.state task.secret entry now, redemptions := c.redemptions.erase task }
  | _ => { c with redemptions := c.redemptions.erase task }

def next (c : Coordinator Id) : CoordinatorEvent Id → Option (Coordinator Id)
  | .mint secret now ttlSecs =>
    some { c with state := inviteCreate c.state secret now ttlSecs, used := inviteKey secret :: c.used }
  | .revoke inviteId => some (c.onRevoke inviteId)
  | .redeem secret now => some (c.onRedeem secret now)
  | .fallback task now =>
    if task ∈ c.redemptions ∧ task.stage = .lookup then some (c.onFallback task now) else none
  | .admitJoiner task m =>
    if task ∈ c.redemptions ∧ task.stage ≠ .lookup then
      some { c with
        state := admitPeer c.state m
        redemptions := c.redemptions.erase task
        admitted := ⟨task.secret, task.afterRevoke⟩ :: c.admitted }
    else none
  | .deny task now =>
    if task ∈ c.redemptions ∧ task.stage ≠ .lookup then some (c.onDeny task now) else none
  | .other sec => if sec.onInvites then none else some { c with state := sec.run c.state }
  | .apply path data => (applyBlob path c.state data).map fun state => { c with state := state }

/-- A minted secret is fresh: it has not been on the table, and is no reusable key. -/
def Fresh (c : Coordinator Id) : CoordinatorEvent Id → Prop
  | .mint secret _ _ => inviteKey secret ∉ c.used ∧ c.state.reusableKeys[inviteKey secret]? = none
  | _ => True

instance (c : Coordinator Id) (ev : CoordinatorEvent Id) : Decidable (c.Fresh ev) := by
  unfold Fresh
  split <;> infer_instance

/-! ### One token to a secret -/

/-- The join holds the secret's entry. -/
def holds (secret : Bytes) (task : Redemption) : Bool :=
  match task.stage with
  | .consumed _ => task.secret = secret
  | _ => false

/-- Entries on the table, joins that hold one, and admissions. -/
def tokens (c : Coordinator Id) (secret : Bytes) : ℕ :=
  (c.state.invites[inviteKey secret]?).isSome.toNat + c.redemptions.countP (holds secret) +
    c.admitted.countP fun a => a.secret = secret

/-- A join with the secret holds a live entry it took before any revocation, or has none. -/
def Sound (secret : Bytes) (task : Redemption) : Prop :=
  task.secret = secret → task.stage = .lookup ∨
    ∃ entry, task.stage = .consumed entry ∧ entry.revoked = false ∧ task.afterRevoke = false

/-- What holds of a secret that is no reusable key. -/
structure Inv (keys : ReusableKeys) (secret : Bytes) (c : Coordinator Id) : Prop where
  keys_eq : c.state.reusableKeys = keys
  once : c.tokens secret ≤ 1
  unused : inviteKey secret ∉ c.used → c.tokens secret = 0
  sound : ∀ task ∈ c.redemptions, Sound secret task
  revoked : inviteKey secret ∈ c.revoked → ∃ e, c.state.invites[inviteKey secret]? = some e ∧ e.revoked = true
  admitted : ∀ a ∈ c.admitted, a.secret = secret → a.afterRevoke = false

section Steps

variable {c c' : Coordinator Id} {keys : ReusableKeys} {secret : Bytes}

omit [Endpoint Id] in
theorem inv_start (s : NetworkState Id) (secret : Bytes) : Inv s.reusableKeys secret (start s) where
  keys_eq := rfl
  once := by
    simp only [tokens, start, List.countP_nil, Nat.add_zero]
    exact Bool.toNat_le _
  unused := by
    intro hused
    have habsent : s.invites[inviteKey secret]? = none :=
      Std.ExtTreeMap.getElem?_eq_none fun hmem => hused (Std.ExtTreeMap.mem_keys.mpr hmem)
    simp [tokens, start, habsent]
  sound := nofun
  revoked := nofun
  admitted := nofun

omit [Endpoint Id] in
/-- A step that mints nothing keeps the invariant if it makes no token of the secret. -/
theorem Inv.of_tokens_le (hinv : Inv keys secret c)
    (hkeys : c'.state.reusableKeys = c.state.reusableKeys) (hused : c'.used = c.used)
    (htokens : c'.tokens secret ≤ c.tokens secret)
    (hsound : ∀ task ∈ c'.redemptions, task ∈ c.redemptions ∨ Sound secret task)
    (hrevoked : inviteKey secret ∈ c'.revoked →
      ∃ e, c'.state.invites[inviteKey secret]? = some e ∧ e.revoked = true)
    (hadmitted : ∀ a ∈ c'.admitted, a ∈ c.admitted ∨ (a.secret = secret → a.afterRevoke = false)) :
    Inv keys secret c' where
  keys_eq := hkeys.trans hinv.keys_eq
  once := htokens.trans hinv.once
  unused hnot := Nat.le_zero.mp (htokens.trans (hinv.unused (hused ▸ hnot)).le)
  sound task htask := (hsound task htask).elim (hinv.sound task) id
  revoked := hrevoked
  admitted a ha := (hadmitted a ha).elim (hinv.admitted a) id

omit [Endpoint Id] in
/-- A step on the state alone, that keeps the table and the keys. -/
theorem Inv.of_state (hinv : Inv keys secret c) {state : NetworkState Id}
    (hinvites : state.invites = c.state.invites) (hkeys : state.reusableKeys = c.state.reusableKeys) :
    Inv keys secret { c with state := state } :=
  hinv.of_tokens_le hkeys rfl (by simp only [tokens, hinvites, le_refl]) (fun _ => Or.inl)
    (by simpa only [hinvites] using hinv.revoked) fun _ => Or.inl

theorem Inv.mint (hinv : Inv keys secret c) {minted : Bytes} {now ttlSecs : ℕ}
    (hfresh : c.Fresh (.mint minted now ttlSecs)) :
    Inv keys secret
      { c with state := inviteCreate c.state minted now ttlSecs, used := inviteKey minted :: c.used } := by
  have hlookup : (inviteCreate c.state minted now ttlSecs).invites[inviteKey secret]? =
      if inviteKey secret = inviteKey minted then some (.fromSecret minted now ttlSecs)
      else c.state.invites[inviteKey secret]? := OrderedMap.getElem?_insert
  by_cases hsame : inviteKey secret = inviteKey minted
  · -- the secret is fresh, so it had no token
    rw [if_pos hsame] at hlookup
    have hzero := hinv.unused (hsame ▸ hfresh.1)
    simp only [tokens, Nat.add_eq_zero_iff] at hzero
    refine ⟨hinv.keys_eq, ?_, fun hused => absurd (.head _) (hsame ▸ hused), hinv.sound, fun hrev => ?_,
      hinv.admitted⟩
    · simp only [tokens, hlookup, hzero.1.2, hzero.2]
      exact le_refl 1
    · obtain ⟨e, he, -⟩ := hinv.revoked hrev
      rw [he] at hzero
      cases hzero.1.1
  · rw [if_neg hsame] at hlookup
    refine ⟨hinv.keys_eq, ?_, fun hused => ?_, hinv.sound, ?_, hinv.admitted⟩
    · simpa only [tokens, hlookup] using hinv.once
    · simpa only [tokens, hlookup] using hinv.unused fun hold => hused (.tail _ hold)
    · simpa only [hlookup] using hinv.revoked

theorem Inv.onRevoke (hinv : Inv keys secret c) (inviteId : String) : Inv keys secret (c.onRevoke inviteId) := by
  unfold Coordinator.onRevoke inviteRevoke
  cases hrev : revokeInvite c.state.invites inviteId with
  | error e => exact hinv
  | ok invites =>
    obtain ⟨key, entry, hentry, rfl, hmatch⟩ := revokeInvite_eq_ok hrev
    have hlookup : (c.state.invites.insert key { entry with revoked := true })[inviteKey secret]? =
        if inviteKey secret = key then some { entry with revoked := true }
        else c.state.invites[inviteKey secret]? := OrderedMap.getElem?_insert
    -- the entry was there, so no token appears
    have hsome : ((c.state.invites.insert key { entry with revoked := true })[inviteKey secret]?).isSome =
        (c.state.invites[inviteKey secret]?).isSome := by
      rw [hlookup]
      split
      · rename_i heq
        rw [heq, hentry]
        rfl
      · rfl
    refine hinv.of_tokens_le rfl rfl ?_ (fun _ => Or.inl) (fun hin => ?_) fun _ => Or.inl
    · exact (congrArg (fun b : Bool => b.toNat + _ + _) hsome).le
    · change ∃ e, (c.state.invites.insert key { entry with revoked := true })[inviteKey secret]? = some e ∧ _
      rw [hlookup]
      split
      · exact ⟨_, rfl, rfl⟩
      · rename_i hne
        simp only [hmatch, List.map_cons, List.map_nil, List.cons_append, List.nil_append,
          List.mem_cons] at hin
        exact hinv.revoked (hin.resolve_left hne)

omit [Endpoint Id] in
/-- An entry that can be redeemed has not been revoked. -/
theorem Inv.not_revoked (hinv : Inv keys secret c) {entry : InviteEntry} {now : ℕ}
    (hvalid : validateInvite c.state.invites secret now = some entry) : inviteKey secret ∉ c.revoked := by
  intro hin
  obtain ⟨hentry, hlive, -⟩ := validateInvite_eq_some.mp hvalid
  obtain ⟨e, he, hrev⟩ := hinv.revoked hin
  rw [hentry] at he
  cases he
  exact Bool.false_ne_true (hlive.symm.trans hrev)

theorem Inv.onRedeem (hinj : Function.Injective Blake3.hash) (hinv : Inv keys secret c) (presented : Bytes)
    (now : ℕ) : Inv keys secret (c.onRedeem presented now) := by
  unfold Coordinator.onRedeem redeemInvite
  cases hvalid : validateInvite c.state.invites presented now with
  | none =>
    rw [consumeInvite_of_none hvalid]
    refine hinv.of_tokens_le rfl rfl ?_ (fun task htask => ?_) hinv.revoked fun _ => Or.inl
    · simp [tokens, holds]
    · rcases List.mem_cons.mp htask with rfl | hold
      · exact Or.inr fun _ => Or.inl rfl
      · exact Or.inl hold
  | some entry =>
    rw [consumeInvite_of_some hvalid]
    obtain ⟨hentry, hlive, -⟩ := validateInvite_eq_some.mp hvalid
    have hlookup : (c.state.invites.erase (inviteKey presented))[inviteKey secret]? =
        if inviteKey secret = inviteKey presented then none else c.state.invites[inviteKey secret]? :=
      OrderedMap.getElem?_erase
    by_cases hsame : presented = secret
    · -- the token moves from the table to the join
      subst hsame
      rw [if_pos rfl] at hlookup
      have hnot := hinv.not_revoked hvalid
      refine hinv.of_tokens_le rfl rfl ?_ (fun task htask => ?_) (fun hin => absurd hin hnot) fun _ => Or.inl
      · simp only [tokens, NetworkState.bumpGenerationAndRefresh, NetworkState.refreshSnapshot, hlookup,
          hentry, List.countP_cons, holds, decide_true, if_true, Option.isSome_none, Option.isSome_some,
          Bool.toNat_false, Bool.toNat_true]
        omega
      · rcases List.mem_cons.mp htask with rfl | hold
        · exact Or.inr fun _ => Or.inr ⟨entry, rfl, hlive, decide_eq_false hnot⟩
        · exact Or.inl hold
    · have hne : inviteKey secret ≠ inviteKey presented := fun heq =>
        hsame (inviteKey_injective hinj heq).symm
      rw [if_neg hne] at hlookup
      refine hinv.of_tokens_le rfl rfl ?_ (fun task htask => ?_) (fun hin => ?_) fun _ => Or.inl
      · simp [tokens, NetworkState.bumpGenerationAndRefresh, NetworkState.refreshSnapshot, hlookup, holds,
          hsame]
      · rcases List.mem_cons.mp htask with rfl | hold
        · exact Or.inr fun heq => absurd heq hsame
        · exact Or.inl hold
      · simpa [NetworkState.bumpGenerationAndRefresh, NetworkState.refreshSnapshot, hlookup] using
          hinv.revoked hin

omit [DecidableEq Id] [Endpoint Id] [Blake3] in
theorem countP_erase_add {α : Type*} [DecidableEq α] {l : List α} {a : α} {p : α → Bool} (ha : a ∈ l) :
    (l.erase a).countP p + (if p a then 1 else 0) = l.countP p := by
  rw [(List.perm_cons_erase ha).countP_eq p, List.countP_cons]

omit [Endpoint Id] in
/-- A join that ends with the tables as they are takes its token, if it holds one, with it. -/
theorem Inv.erase (hinv : Inv keys secret c) {task : Redemption} (htask : task ∈ c.redemptions) :
    Inv keys secret { c with redemptions := c.redemptions.erase task } := by
  have herase := countP_erase_add (p := holds secret) htask
  refine hinv.of_tokens_le rfl rfl ?_ (fun t ht => Or.inl (List.mem_of_mem_erase ht)) hinv.revoked
    fun _ => Or.inl
  simp only [tokens]
  omega

omit [Endpoint Id] in
theorem Inv.onFallback (hinv : Inv keys secret c) (hkey : keys[inviteKey secret]? = none) {task : Redemption}
    (htask : task ∈ c.redemptions) (now : ℕ) : Inv keys secret (c.onFallback task now) := by
  have herase := countP_erase_add (p := holds secret) htask
  unfold Coordinator.onFallback
  split
  · rename_i key hvalid
    -- a secret with a valid reusable key is another one
    have hother : task.secret ≠ secret := by
      rintro rfl
      rw [validateReusableKey, hinv.keys_eq, hkey] at hvalid
      cases hvalid
    refine hinv.of_tokens_le rfl rfl ?_ (fun t ht => ?_) hinv.revoked fun _ => Or.inl
    · simp only [tokens, List.countP_cons, holds, Bool.false_eq_true, if_false]
      omega
    · rcases List.mem_cons.mp ht with rfl | hold
      · exact Or.inr fun heq => absurd heq hother
      · exact Or.inl (List.mem_of_mem_erase hold)
  · exact hinv.erase htask

theorem Inv.admitJoiner (hinv : Inv keys secret c) {task : Redemption} (htask : task ∈ c.redemptions)
    (hstage : task.stage ≠ .lookup) (m : Member Id) :
    Inv keys secret { c with
      state := admitPeer c.state m
      redemptions := c.redemptions.erase task
      admitted := ⟨task.secret, task.afterRevoke⟩ :: c.admitted } := by
  have herase := countP_erase_add (p := holds secret) htask
  have hsound := hinv.sound task htask
  have hinvites : (admitPeer c.state m).invites = c.state.invites :=
    (Section.frame_run c.state (.admitPeer m)).invites_eq rfl
  refine hinv.of_tokens_le (Section.frame_run c.state (.admitPeer m)).reusableKeys_eq rfl ?_
    (fun t ht => Or.inl (List.mem_of_mem_erase ht)) hinv.revoked fun a ha => ?_
  · -- the token moves from the join to the admission
    simp only [tokens, hinvites, List.countP_cons]
    by_cases hsame : task.secret = secret
    · obtain ⟨entry, hentry, -⟩ := (hsound hsame).resolve_left hstage
      have hholds : holds secret task = true := by simp [holds, hentry, hsame]
      simp only [hsame, decide_true, if_true]
      rw [hholds, if_pos rfl] at herase
      omega
    · simp only [hsame, decide_false, Bool.false_eq_true, if_false]
      omega
  · rcases List.mem_cons.mp ha with rfl | hold
    · refine Or.inr fun hsame => ?_
      obtain ⟨entry, -, -, hafter⟩ := (hsound hsame).resolve_left hstage
      exact hafter
    · exact Or.inl hold

section Restore

variable {s : NetworkState Id} {presented : Bytes} {entry : InviteEntry} {now : ℕ}

theorem restoreDenied_of_free (hfree : s.invites[inviteKey presented]? = none) :
    restoreDenied s presented entry now =
      if entry.Expired now then s
      else NetworkState.bumpGenerationAndRefresh
        { s with invites := s.invites.insert (inviteKey presented) entry } := by
  rw [restoreDenied, restoreInvite_eq hfree]
  by_cases hexp : entry.Expired now
  · rw [if_pos hexp, if_pos hexp]
  · rw [if_neg hexp, if_neg hexp]

theorem getElem?_restoreDenied_of_ne {key : String} (hne : key ≠ inviteKey presented) :
    (restoreDenied s presented entry now).invites[key]? = s.invites[key]? := by
  rcases invites_restoreDenied s presented entry now with hkeep | hback
  · rw [hkeep]
  · rw [hback]
    exact OrderedMap.getElem?_insert.trans (if_neg hne)

end Restore

omit [Endpoint Id] in
/-- While a join holds a secret's entry the table has none. -/
theorem Inv.absent (hinv : Inv keys secret c) {task : Redemption} (htask : task ∈ c.redemptions)
    (hholds : holds secret task = true) : c.state.invites[inviteKey secret]? = none := by
  have honce := hinv.once
  have hpos : 0 < c.redemptions.countP (holds secret) := List.countP_pos_iff.mpr ⟨task, htask, hholds⟩
  cases h : c.state.invites[inviteKey secret]? with
  | none => rfl
  | some e =>
    simp only [tokens, h, Option.isSome_some, Bool.toNat_true] at honce
    omega

theorem Inv.onDeny (hinj : Function.Injective Blake3.hash) (hinv : Inv keys secret c) {task : Redemption}
    (htask : task ∈ c.redemptions) (now : ℕ) : Inv keys secret (c.onDeny task now) := by
  have herase := countP_erase_add (p := holds secret) htask
  unfold Coordinator.onDeny
  split
  · rename_i entry hstage
    have hkeys := (Section.frame_run c.state (.restoreDenied task.secret entry now)).reusableKeys_eq
    by_cases hsame : task.secret = secret
    · -- the token goes back to the table, or is dropped as expired
      have hholds : holds secret task = true := by simp [holds, hstage, hsame]
      have habsent := hinv.absent htask hholds
      rw [hholds, if_pos rfl] at herase
      refine hinv.of_tokens_le hkeys rfl ?_ (fun t ht => Or.inl (List.mem_of_mem_erase ht)) (fun hin => ?_)
        fun _ => Or.inl
      · have hle := Bool.toNat_le
          ((restoreDenied c.state task.secret entry now).invites[inviteKey secret]?).isSome
        simp only [tokens, habsent, Option.isSome_none, Bool.toNat_false]
        omega
      · obtain ⟨e, he, -⟩ := hinv.revoked hin
        rw [habsent] at he
        cases he
    · have hne : inviteKey secret ≠ inviteKey task.secret := fun heq =>
        hsame (inviteKey_injective hinj heq).symm
      have hlookup : (restoreDenied c.state task.secret entry now).invites[inviteKey secret]? =
          c.state.invites[inviteKey secret]? := getElem?_restoreDenied_of_ne hne
      refine hinv.of_tokens_le hkeys rfl ?_ (fun t ht => Or.inl (List.mem_of_mem_erase ht)) (fun hin => ?_)
        fun _ => Or.inl
      · simp only [tokens, hlookup]
        omega
      · simpa only [hlookup] using hinv.revoked hin
  · exact hinv.erase htask

/-- **Step**: with fresh secrets every event keeps the invariant of every secret. -/
theorem Inv.step (hinj : Function.Injective Blake3.hash) (hkey : keys[inviteKey secret]? = none)
    (hinv : Inv keys secret c) {ev : CoordinatorEvent Id} (hfresh : c.Fresh ev) (h : c.next ev = some c') :
    Inv keys secret c' := by
  cases ev with
  | mint minted now ttlSecs =>
    cases h
    exact hinv.mint hfresh
  | revoke inviteId =>
    cases h
    exact hinv.onRevoke inviteId
  | redeem presented now =>
    cases h
    exact hinv.onRedeem hinj presented now
  | fallback task now =>
    simp only [next] at h
    split at h <;> cases h
    rename_i htask
    exact hinv.onFallback hkey htask.1 now
  | admitJoiner task m =>
    simp only [next] at h
    split at h <;> cases h
    rename_i htask
    exact hinv.admitJoiner htask.1 htask.2 m
  | deny task now =>
    simp only [next] at h
    split at h <;> cases h
    rename_i htask
    exact hinv.onDeny hinj htask.1 now
  | other sec =>
    simp only [next] at h
    split at h <;> cases h
    rename_i hsec
    have hframe := Section.frame_run c.state sec
    exact hinv.of_state (hframe.invites_eq (by simpa using hsec)) hframe.reusableKeys_eq
  | apply path data =>
    obtain ⟨state, happly, rfl⟩ := Option.map_eq_some_iff.mp h
    obtain ⟨-, -, hinvites, hkeys, -⟩ := applyBlob_frame happly
    exact hinv.of_state hinvites hkeys

/-- A denied join leaves its secret redeemable, unless its entry has expired. -/
theorem restores_denied (hinv : Inv keys secret c) {task : Redemption} {entry : InviteEntry} {now : ℕ}
    (hsecret : task.secret = secret) (hstage : task.stage = .consumed entry)
    (hdeny : c.next (.deny task now) = some c') :
    entry.Expired now ∨ ∀ later, ¬ entry.Expired later → validateInvite c'.state.invites secret later = some entry := by
  subst hsecret
  simp only [next] at hdeny
  split at hdeny
  · rename_i htask
    cases hdeny
    have habsent := hinv.absent htask.1 (by simp [holds, hstage])
    obtain ⟨_, hentry, hlive, -⟩ := (hinv.sound task htask.1 rfl).resolve_left htask.2
    rw [hstage] at hentry
    cases hentry
    by_cases hexp : entry.Expired now
    · exact Or.inl hexp
    · refine Or.inr fun later hlater => ?_
      rw [onDeny, hstage]
      simp only [restoreDenied_of_free habsent, if_neg hexp]
      exact validateInvite_eq_some.mpr ⟨OrderedMap.getElem?_insert.trans (if_pos rfl), hlive, hlater⟩
  · cases hdeny

/-- **Invites are single-use**, whatever the interleaving: a secret that is no reusable key is admitted
at most once, and never by a join that started after it was revoked; a denied join leaves it redeemable
unless it has expired; and a join with an unknown, revoked or expired secret is dropped with nothing
changed. -/
theorem invites_single_use (hinj : Function.Injective Blake3.hash) {s₀ : NetworkState Id}
    {events : List (CoordinatorEvent Id)}
    (hrun : Run (fun c ev c' => c.next ev = some c') Fresh (start s₀) events c)
    (hkey : s₀.reusableKeys[inviteKey secret]? = none) :
    (c.admitted.countP fun a => a.secret = secret) ≤ 1 ∧
    (∀ a ∈ c.admitted, a.secret = secret → a.afterRevoke = false) ∧
    (∀ task entry now c', task.secret = secret → task.stage = .consumed entry →
      c.next (.deny task now) = some c' →
      entry.Expired now ∨
        ∀ later, ¬ entry.Expired later → validateInvite c'.state.invites secret later = some entry) ∧
    (∀ now, (∀ entry, c.state.invites[inviteKey secret]? = some entry →
        entry.revoked = true ∨ entry.Expired now) →
      c.next (.redeem secret now) = some { c with
        redemptions := ⟨secret, decide (inviteKey secret ∈ c.revoked), .lookup⟩ :: c.redemptions }) ∧
    ∀ task now, task ∈ c.redemptions → task.secret = secret → task.stage = .lookup →
      c.next (.fallback task now) = some { c with redemptions := c.redemptions.erase task } := by
  have hinv : Inv s₀.reusableKeys secret c := hrun.invariant
    (I := fun _ c => Inv s₀.reusableKeys secret c) (inv_start s₀ secret)
    fun _ _ _ _ hinv hfresh hstep => hinv.step hinj hkey hfresh hstep
  refine ⟨?_, hinv.admitted, ?_, ?_, ?_⟩
  · exact le_trans (Nat.le_add_left _ _) hinv.once
  · exact fun task entry now c' hsecret hstage hdeny => restores_denied hinv hsecret hstage hdeny
  · intro now hdead
    have hnone : validateInvite c.state.invites secret now = none := by
      cases h : validateInvite c.state.invites secret now with
      | none => rfl
      | some entry =>
        obtain ⟨hentry, hlive, hunexpired⟩ := validateInvite_eq_some.mp h
        rcases hdead entry hentry with hrev | hexp
        · exact absurd (hlive.symm.trans hrev) Bool.false_ne_true
        · exact absurd hexp hunexpired
    simp only [next, onRedeem, redeemInvite, consumeInvite_of_none hnone]
  · rintro task now htask rfl hstage
    simp only [next, htask, hstage, and_self, if_true, onFallback]
    rw [validateReusableKey, hinv.keys_eq, hkey]
    rfl

end Steps

end Coordinator

end Tetron.Daemon

/-! ### One secret, denied and then admitted -/

namespace Tetron.Daemon.Coordinator

open Tetron.Membership Sample

noncomputable def aliceCoordinator : Coordinator Peer := start (Sample.state 5 [member .alice true])

/-- The join of a secret minted at time 10 for 100 seconds. -/
def mintedJoin : Redemption := ⟨[7], false, .consumed (.fromSecret [7] 10 100)⟩

theorem invites_single_use_sample : ∃ c, Run (fun c ev c' => Coordinator.next c ev = some c') Fresh
      aliceCoordinator [.mint [7] 10 100, .redeem [7] 20, .deny mintedJoin 21, .redeem [7] 22,
        .admitJoiner mintedJoin (member .bob false), .redeem [7] 23] c ∧
    (c.admitted.countP fun a => a.secret = [7]) = 1 := by
  refine Run.exists_of_exec_imp (fun c => 1 ≤ c.admitted.countP fun a => a.secret = [7]) (by decide +kernel)
    fun c hrun hadmitted => ?_
  exact le_antisymm (invites_single_use Function.injective_id hrun (by decide +kernel)).1 hadmitted

end Tetron.Daemon.Coordinator
