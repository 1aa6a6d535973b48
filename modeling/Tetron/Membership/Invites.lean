import Tetron.Bytes
import Tetron.Lib.Table
import Mathlib

/-!
# Invites and reusable keys

The tables of single-use invites and reusable keys, keyed by the hex digest of their secret. Times
are Unix seconds; an invite with `expires = 0` is permanent.
-/

namespace Tetron.Membership

/-! ### Digests -/

abbrev Hash := Bytes

/-- The hash function, of which nothing but its values is used; that it has no collisions is assumed
where it matters. -/
class Blake3 where
  hash : Bytes → Hash

def hexDigit (n : ℕ) : Char := Char.ofNat (if n < 10 then 48 + n else 87 + n)

/-- `Hash::to_hex`. -/
def toHex (h : Hash) : String :=
  String.ofList (h.flatMap fun b => [hexDigit (b.toNat / 16), hexDigit (b.toNat % 16)])

/-- The table key of a secret. -/
def inviteKey [Blake3] (secret : Bytes) : String := toHex (Blake3.hash secret)

theorem toHex_injective : Function.Injective toHex := by
  have hdigit : ∀ m < 16, ∀ n < 16, hexDigit m = hexDigit n → m = n := by decide
  intro h h' heq
  have hlist := String.ofList_injective heq
  clear heq
  induction h generalizing h' with
  | nil =>
    cases h' with
    | nil => rfl
    | cons b h' => simp at hlist
  | cons b h ih =>
    cases h' with
    | nil => simp at hlist
    | cons b' h' =>
      simp only [List.flatMap_cons, List.cons_append, List.nil_append, List.cons.injEq] at hlist
      obtain ⟨hhi, hlo, hrest⟩ := hlist
      have hb := b.toNat_lt
      have hb' := b'.toNat_lt
      have h1 := hdigit _ (by omega) _ (by omega) hhi
      have h2 := hdigit _ (by omega) _ (by omega) hlo
      have hbyte : b = b' := UInt8.toNat.inj (by omega)
      rw [hbyte, ih hrest]

theorem inviteKey_injective [Blake3] (h : Function.Injective Blake3.hash) :
    Function.Injective inviteKey :=
  toHex_injective.comp h

/-! ### Entries -/

structure InviteEntry where
  id : String
  created : ℕ
  expires : ℕ
  revoked : Bool
deriving DecidableEq, Repr

structure ReusableKey where
  id : String
  created : ℕ
  expires : ℕ
  revoked : Bool
deriving DecidableEq, Repr

abbrev Invites := Std.ExtTreeMap String InviteEntry

abbrev ReusableKeys := Std.ExtTreeMap String ReusableKey

/-- `u64::saturating_add`. -/
def saturatingAdd (a b : ℕ) : ℕ := min (a + b) (2 ^ 64 - 1)

/-- `InviteEntry::from_secret`, without the table key. -/
def InviteEntry.fromSecret [Blake3] (secret : Bytes) (created ttlSecs : ℕ) : InviteEntry where
  id := String.ofList ((inviteKey secret).toList.take 8)
  created := created
  expires := if ttlSecs = 0 then 0 else saturatingAdd created ttlSecs
  revoked := false

/-- Past its expiry, if it has one. -/
def InviteEntry.Expired (e : InviteEntry) (now : ℕ) : Prop := e.expires > 0 ∧ now ≥ e.expires

instance (e : InviteEntry) (now : ℕ) : Decidable (e.Expired now) := inferInstanceAs (Decidable (_ ∧ _))

/-- An exact id or a leading part of it. -/
def InviteEntry.matchesId (e : InviteEntry) (id : String) : Bool :=
  e.id == id || id.toList.isPrefixOf e.id.toList

section Operations

variable [Blake3]

def validateReusableKey (keys : ReusableKeys) (secret : Bytes) (now : ℕ) : Option ReusableKey :=
  keys[inviteKey secret]?.filter fun key => !(key.revoked || decide (now ≥ key.expires))

def validateInvite (invites : Invites) (secret : Bytes) (now : ℕ) : Option InviteEntry :=
  invites[inviteKey secret]?.filter fun entry => !(entry.revoked || decide (entry.Expired now))

def consumeInvite (invites : Invites) (secret : Bytes) (now : ℕ) : Option InviteEntry × Invites :=
  match validateInvite invites secret now with
  | none => (none, invites)
  | some _ => (invites[inviteKey secret]?, invites.erase (inviteKey secret))

def restoreInvite (invites : Invites) (secret : Bytes) (entry : InviteEntry) (now : ℕ) : Bool × Invites :=
  if entry.Expired now then (false, invites)
  else if (invites[inviteKey secret]?).isSome then (false, invites)
  else (true, invites.insert (inviteKey secret) entry)

/-- `revoke_invite`: the one entry whose id matches is marked. -/
def revokeInvite (invites : Invites) (id : String) : Except String Invites :=
  match invites.toList.filter fun kv => kv.2.matchesId id with
  | [] => .error ("no invite matching '" ++ id ++ "'")
  | [kv] => .ok (invites.insert kv.1 { kv.2 with revoked := true })
  | _ => .error ("ambiguous invite id '" ++ id ++ "'")

end Operations

/-! ### What the operations do -/

section Specs

variable [Blake3] {invites invites' : Invites} {secret : Bytes} {entry : InviteEntry} {now : ℕ}

theorem validateInvite_eq_some : validateInvite invites secret now = some entry ↔
    invites[inviteKey secret]? = some entry ∧ entry.revoked = false ∧ ¬ entry.Expired now := by
  simp [validateInvite, Option.filter_eq_some_iff]

theorem consumeInvite_of_some (h : validateInvite invites secret now = some entry) :
    consumeInvite invites secret now = (some entry, invites.erase (inviteKey secret)) := by
  rw [consumeInvite, h, (validateInvite_eq_some.mp h).1]

theorem consumeInvite_of_none (h : validateInvite invites secret now = none) :
    consumeInvite invites secret now = (none, invites) := by
  rw [consumeInvite, h]

/-- Restoring an invite puts the entry back, or does nothing. -/
theorem restoreInvite_cases (invites : Invites) (secret : Bytes) (entry : InviteEntry) (now : ℕ) :
    restoreInvite invites secret entry now = (false, invites) ∨
    restoreInvite invites secret entry now = (true, invites.insert (inviteKey secret) entry) := by
  unfold restoreInvite
  split
  · exact Or.inl rfl
  · split
    · exact Or.inl rfl
    · exact Or.inr rfl

theorem restoreInvite_eq (hfree : invites[inviteKey secret]? = none) :
    restoreInvite invites secret entry now =
      if entry.Expired now then (false, invites) else (true, invites.insert (inviteKey secret) entry) := by
  rw [restoreInvite, hfree]
  rfl

omit [Blake3] in
/-- A revocation that succeeds marks the one entry that matches. -/
theorem revokeInvite_eq_ok {id : String} (h : revokeInvite invites id = .ok invites') :
    ∃ key e, invites[key]? = some e ∧ invites' = invites.insert key { e with revoked := true } ∧
      (invites.toList.filter fun kv => kv.2.matchesId id) = [(key, e)] := by
  unfold revokeInvite at h
  split at h
  · cases h
  · rename_i kv hmatch
    cases h
    have hmem : kv ∈ invites.toList := (List.mem_filter.mp (hmatch ▸ List.mem_singleton_self kv)).1
    exact ⟨kv.1, kv.2, Std.ExtTreeMap.mem_toList_iff_getElem?_eq_some.mp hmem, rfl, hmatch⟩
  · cases h

end Specs

/-! ### Keys on the table -/

/-- The key is on the table, not revoked. -/
def Redeemable (invites : Invites) (key : String) : Prop :=
  ∃ entry, invites[key]? = some entry ∧ entry.revoked = false

instance (invites : Invites) (key : String) : Decidable (Redeemable invites key) :=
  match h : invites[key]? with
  | none => .isFalse fun ⟨_, he, _⟩ => by rw [h] at he; cases he
  | some entry =>
    if hrev : entry.revoked = false then .isTrue ⟨entry, h, hrev⟩
    else .isFalse fun ⟨_, he, hlive⟩ => by rw [h] at he; cases he; exact hrev hlive

section Keys

variable {invites : Invites} {key key' : String} {entry : InviteEntry}

theorem redeemable_of_insert (h : Redeemable (invites.insert key' entry) key) :
    Redeemable invites key ∨ key = key' ∧ entry.revoked = false := by
  obtain ⟨e, he, hlive⟩ := h
  rw [OrderedMap.getElem?_insert] at he
  split at he
  · rename_i heq
    cases he
    exact Or.inr ⟨heq, hlive⟩
  · exact Or.inl ⟨e, he, hlive⟩

theorem redeemable_of_erase (h : Redeemable (invites.erase key') key) : Redeemable invites key := by
  obtain ⟨e, he, hlive⟩ := h
  rw [OrderedMap.getElem?_erase] at he
  split at he
  · cases he
  · exact ⟨e, he, hlive⟩

end Keys

end Tetron.Membership
