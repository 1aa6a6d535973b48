import Tetron.Control
import Tetron.Daemon.Canonical
import Tetron.Lib.BoundedWalk

/-!
# Which peers a node asks, and for how long

A node that needs a roster asks one peer after the other. `fetch_verified_blob` asks whoever is connected or named in
the signed record for the blob, and a node that restores a network at boot dials the coordinators of the blob it has.
Both walks give every peer a limit and start no further one once their budget has passed; what a peer does with its
turn is up to the peer.

* `fetch_succeeds_iff`: whatever the peers do, a fetch is over in less than a minute and returns nothing but what
  hashes to the signed hash; and it succeeds exactly if some peer serves the blob in time and those before it in the
  order of their names leave 45 seconds unused. Three silent peers that sort before all others make every fetch fail.
* `restore_registers`: whatever the coordinators do, a restore ends with the network registered, with the roster of the
  first coordinator that takes the node back (`TakesBack`), or with the blob and a redial for every other member. The
  answer `JoinPending`, after which a fresh join waits, does not stop it.
-/

namespace Tetron.Daemon.JoinWalk

open Tetron.Membership Tetron.Control

/-! ### Choosing and walking -/

section Select

variable {Id : Type} [DecidableEq Id]

/-- `coordinator_dial_order`. -/
def coordinatorDialOrder (minter : Id) (members : List (Member Id)) (me : Id) : List Id :=
  let order := if minter ≠ me ∧ members.any (fun m => m.identity = minter ∧ m.isCoordinator) then [minter] else []
  members.foldl (fun order m =>
    if m.isCoordinator ∧ m.identity ≠ me ∧ m.identity ∉ order then order ++ [m.identity] else order) order

/-- `welcome_ip_collision`. -/
def welcomeIpCollision (members : List (Member Id)) (myIp : Ipv4Addr) (myIdentity : Id) : Option Id :=
  (members.find? fun m => m.ip = myIp ∧ m.identity ≠ myIdentity).map (·.identity)

/-- `resolve_welcome_self_ip`. -/
def resolveWelcomeSelfIp (members : List (Member Id)) (myIp : Ipv4Addr) (myIdentity : Id) : Except Id Ipv4Addr :=
  match members.find? fun m => m.identity = myIdentity with
  | some mine => .ok mine.ip
  | none =>
    match welcomeIpCollision members myIp myIdentity with
    | some existing => .error existing
    | none => .ok myIp

/-- `first_some_bounded`. -/
def firstSomeBounded {I T : Type} (items : List I) (perItem budget : ℕ) (f : I → Awaited (Option T)) :
    Awaited (Option T) :=
  (Walk.run budget (fun item => let r := (f item).timeout perItem; some (r.1, r.2.join)) items).map fun w =>
    (w.took, w.found)

inductive RestoreAttempt (T : Type) where
  | joined (t : T)
  | pending
  | failed

inductive RestoreWalk (T : Type) where
  | joined (t : T)
  | pending
  | exhausted

/-- What ends the walk. -/
def RestoreAttempt.settled {T : Type} : RestoreAttempt T → Option (Option T)
  | .joined t => some (some t)
  | .pending => some none
  | .failed => none

/-- `walk_restore_coordinators`. -/
def walkRestoreCoordinators {T : Type} (order : List Id) (budget : ℕ) (attempt : Id → Awaited (RestoreAttempt T)) :
    Awaited (RestoreWalk T) :=
  (Walk.run budget (fun c => (attempt c).map fun (t, r) => (t, r.settled)) order).map fun w =>
    (w.took,
      match w.found with
      | some (some t) => .joined t
      | some none => .pending
      | none => .exhausted)

/-! The dial order has every coordinator of the roster but this node, once. -/

theorem foldl_dialOrder (me : Id) (members : List (Member Id)) {order : List Id} (hnodup : order.Nodup) :
    let order' := members.foldl (fun order m =>
      if m.isCoordinator ∧ m.identity ≠ me ∧ m.identity ∉ order then order ++ [m.identity] else order) order
    order'.Nodup ∧ ∀ id, id ∈ order' ↔
      id ∈ order ∨ (id ≠ me ∧ ∃ m ∈ members, m.identity = id ∧ m.isCoordinator = true) := by
  induction members generalizing order with
  | nil => exact ⟨hnodup, by simp⟩
  | cons m members ih =>
    dsimp only [List.foldl_cons]
    split
    · rename_i htake
      obtain ⟨hcoord, hme, hnew⟩ := htake
      have hsnoc : (order ++ [m.identity]).Nodup :=
        List.nodup_append'.mpr ⟨hnodup, List.nodup_singleton _, by simpa using hnew⟩
      obtain ⟨hnodup', hmem⟩ := ih hsnoc
      refine ⟨hnodup', fun id => (hmem id).trans ?_⟩
      simp only [List.mem_append, List.mem_singleton, List.exists_mem_cons_iff, or_assoc]
      constructor
      · rintro (h | rfl | h)
        · exact .inl h
        · exact .inr ⟨hme, .inl ⟨rfl, hcoord⟩⟩
        · exact .inr ⟨h.1, .inr h.2⟩
      · rintro (h | ⟨hne, ⟨rfl, -⟩ | h⟩)
        · exact .inl h
        · exact .inr (.inl rfl)
        · exact .inr (.inr ⟨hne, h⟩)
    · rename_i hskip
      obtain ⟨hnodup', hmem⟩ := ih hnodup
      refine ⟨hnodup', fun id => (hmem id).trans ?_⟩
      simp only [List.exists_mem_cons_iff]
      constructor
      · rintro (h | h)
        · exact .inl h
        · exact .inr ⟨h.1, .inr h.2⟩
      · rintro (h | ⟨hne, ⟨rfl, hcoord⟩ | h⟩)
        · exact .inl h
        · -- a coordinator that is passed over is already listed
          by_contra hout
          exact hskip ⟨hcoord, hne, fun hin => hout (.inl hin)⟩
        · exact .inr ⟨hne, h⟩

/-- What the roster adds to the order comes in the order of the roster. -/
theorem sublist_foldl_dialOrder (me : Id) (members : List (Member Id)) {order ids : List Id} (h : order.Sublist ids) :
    (members.foldl (fun order m =>
      if m.isCoordinator ∧ m.identity ≠ me ∧ m.identity ∉ order then order ++ [m.identity] else order) order).Sublist
      (ids ++ members.map (·.identity)) := by
  induction members generalizing order ids with
  | nil => simpa using h
  | cons m members ih =>
    have hone : (if m.isCoordinator ∧ m.identity ≠ me ∧ m.identity ∉ order then order ++ [m.identity]
        else order).Sublist (ids ++ [m.identity]) := by
      split
      · exact h.append (List.Sublist.refl _)
      · exact h.trans (List.sublist_append_left _ _)
    simpa using ih hone

/-- Without a minter to begin with, the order is that of the roster. -/
theorem coordinatorDialOrder_sublist (members : List (Member Id)) (me : Id) :
    (coordinatorDialOrder me members me).Sublist (members.map (·.identity)) := by
  rw [coordinatorDialOrder, if_neg fun h => h.1 rfl]
  exact sublist_foldl_dialOrder me members (List.Sublist.refl [])

theorem nodup_coordinatorDialOrder (minter : Id) (members : List (Member Id)) (me : Id) :
    (coordinatorDialOrder minter members me).Nodup := by
  refine (foldl_dialOrder me members ?_).1
  split
  · exact List.nodup_singleton _
  · exact List.nodup_nil

theorem mem_coordinatorDialOrder {minter me id : Id} {members : List (Member Id)} :
    id ∈ coordinatorDialOrder minter members me ↔
      id ≠ me ∧ ∃ m ∈ members, m.identity = id ∧ m.isCoordinator = true := by
  rw [coordinatorDialOrder]
  split
  · rename_i hminter
    obtain ⟨hne, hany⟩ := hminter
    refine ((foldl_dialOrder me members (List.nodup_singleton minter)).2 id).trans ⟨fun h => ?_, .inr⟩
    rcases h with h | h
    · rw [List.mem_singleton.mp h]
      refine ⟨hne, ?_⟩
      simpa using hany
    · exact h
  · refine ((foldl_dialOrder me members List.nodup_nil).2 id).trans ⟨fun h => ?_, .inr⟩
    exact h.resolve_left (by simp)

end Select

/-! ### Fetching the blob

Times are in milliseconds. -/

/-- `BLOB_FETCH_PEER_TIMEOUT`. -/
def blobFetchPeerTimeout : ℕ := 15000

/-- `BLOB_FETCH_BUDGET`. -/
def blobFetchBudget : ℕ := 45000

section Fetch

variable {Id : Type} [Endpoint Id] [Msgpack Id] [Blake3] {connected seeds : List Id}
  {serve : Id → Awaited (Option Bytes)} {signed : Hash}

/-- One turn of the fetch. -/
def fetchAttempt (serve : Id → Awaited (Option Bytes)) (signed : Hash) (pid : Id) :
    Awaited (Option (GroupBlob Id)) :=
  let r := Awaited.timeout blobFetchPeerTimeout
    ((serve pid).map fun (t, bytes) => (t, bytes.bind fun bytes => verifyGroupBlob bytes signed))
  some (r.1, r.2.join)

/-- How long a peer keeps a fetch busy. -/
def fetchTurn (serve : Id → Awaited (Option Bytes)) (pid : Id) : ℕ :=
  (serve pid).elim blobFetchPeerTimeout fun r => min r.1 blobFetchPeerTimeout

/-- The peer serves the blob within its limit: bytes with the signed hash that decode to it, and its members' addresses
are in order. -/
def Serves (serve : Id → Awaited (Option Bytes)) (signed : Hash) (pid : Id) (blob : GroupBlob Id) : Prop :=
  ∃ t ≤ blobFetchPeerTimeout, ∃ bytes, serve pid = some (t, some bytes) ∧
    Blake3.hash bytes = signed ∧ Msgpack.fromSlice bytes = some blob ∧ blob.valid = true

theorem fetchAttempt_eq_some {pid : Id} {t : ℕ} {blob : GroupBlob Id}
    (h : fetchAttempt serve signed pid = some (t, some blob)) : Serves serve signed pid blob := by
  simp only [fetchAttempt, Option.some.injEq, Prod.mk.injEq] at h
  obtain ⟨t', hle, hserve⟩ := Awaited.timeout_eq_some.mp (Option.join_eq_some_iff.mp h.2)
  obtain ⟨⟨u, served⟩, hpid, heq⟩ := Option.map_eq_some_iff.mp hserve
  obtain ⟨rfl, hverify⟩ := Prod.mk.inj heq
  obtain ⟨bytes, rfl, hverify⟩ := Option.bind_eq_some_iff.mp hverify
  exact ⟨u, hle, bytes, hpid, verifyGroupBlob_eq_some_iff.mp hverify⟩

theorem fetchAttempt_of_serves {pid : Id} {blob : GroupBlob Id} (h : Serves serve signed pid blob) :
    ∃ t, fetchAttempt serve signed pid = some (t, some blob) := by
  obtain ⟨t, hle, bytes, hpid, hbytes⟩ := h
  have hverify := verifyGroupBlob_eq_some_iff.mpr hbytes
  refine ⟨t, ?_⟩
  simp [fetchAttempt, hpid, hverify, Awaited.timeout, hle]

theorem fetchAttempt_time (pid : Id) :
    (fetchAttempt serve signed pid).elim 0 Prod.fst = fetchTurn serve pid := by
  rw [fetchAttempt, fetchTurn]
  cases hpid : serve pid with
  | none => rfl
  | some r =>
    obtain ⟨t, bytes⟩ := r
    dsimp only [Option.map_some, Awaited.timeout, Option.elim_some]
    split
    · exact (Nat.min_eq_left ‹_›).symm
    · exact (Nat.min_eq_right (by omega)).symm

theorem total_fetchAttempt (before : List Id) :
    Walk.total (fetchAttempt serve signed) before = (before.map (fetchTurn serve)).sum := by
  rw [Walk.total]
  congr 2
  exact funext fetchAttempt_time

variable [DecidableEq Id]

/-- The peers of a fetch: sorted by name, without repeated neighbours. -/
def fetchOrder (connected seeds : List Id) : List Id :=
  ((connected ++ seeds).insertionSort fun a b => displayLe a b).destutter (· ≠ ·)

/-- `fetch_verified_blob`: `serve` says what comes of the connection to a peer and the transfer, and when. -/
def fetchVerifiedBlob (connected seeds : List Id) (serve : Id → Awaited (Option Bytes)) (signed : Hash) :
    Awaited (Option (GroupBlob Id)) :=
  firstSomeBounded (fetchOrder connected seeds) blobFetchPeerTimeout blobFetchBudget fun pid =>
    (serve pid).map fun (t, bytes) => (t, bytes.bind fun bytes => verifyGroupBlob bytes signed)

/-- A fetch is a walk, and it ends. -/
theorem exists_fetch (connected seeds : List Id) (serve : Id → Awaited (Option Bytes)) (signed : Hash) :
    ∃ w, Walk.run blobFetchBudget (fetchAttempt serve signed) (fetchOrder connected seeds) = some w ∧
      fetchVerifiedBlob connected seeds serve signed = some (w.took, w.found) := by
  obtain ⟨w, hw⟩ : ∃ w, Walk.run blobFetchBudget (fetchAttempt serve signed) (fetchOrder connected seeds) = some w :=
    Walk.exists_run fun _ _ => rfl
  exact ⟨w, hw, Option.map_eq_some_iff.mpr ⟨w, hw, rfl⟩⟩

theorem fetch_took_lt {t : ℕ} {r : Option (GroupBlob Id)}
    (h : fetchVerifiedBlob connected seeds serve signed = some (t, r)) :
    t < blobFetchBudget + blobFetchPeerTimeout := by
  obtain ⟨w, hw, hfetch⟩ := exists_fetch connected seeds serve signed
  rw [hfetch] at h
  cases h
  refine Walk.took_lt (by decide) (fun pid _ t r hpid => ?_) hw
  simp only [fetchAttempt, Option.some.injEq, Prod.mk.injEq] at hpid
  rw [← hpid.1]
  exact Awaited.timeout_le _ _

omit [Endpoint Id] [Msgpack Id] [Blake3] in
/-- Leaving out repeated neighbours leaves nobody out. -/
theorem mem_destutter'_ne (pid a : Id) (l : List Id) : pid ∈ l.destutter' (· ≠ ·) a ↔ pid ∈ a :: l := by
  induction l generalizing a with
  | nil => rfl
  | cons b l ih =>
    by_cases hne : a ≠ b
    · rw [List.destutter'_cons_pos _ hne, List.mem_cons, ih b, ← List.mem_cons]
    · rw [List.destutter'_cons_neg _ hne, ih a, not_not.mp hne]
      simp

omit [Msgpack Id] [Blake3] in
theorem mem_fetchOrder {pid : Id} : pid ∈ fetchOrder connected seeds ↔ pid ∈ connected ++ seeds := by
  rw [fetchOrder, ← List.mem_insertionSort (fun a b : Id => displayLe a b = true) (l := connected ++ seeds)]
  cases (connected ++ seeds).insertionSort fun a b => displayLe a b with
  | nil => rfl
  | cons a l => exact mem_destutter'_ne pid a l

omit [Msgpack Id] [Blake3] in
theorem sorted_fetchOrder (connected seeds : List Id) :
    (fetchOrder connected seeds).Pairwise fun a b => displayLe a b = true :=
  (List.pairwise_insertionSort _ _).sublist (List.destutter_sublist _ _)

omit [Msgpack Id] [Blake3] in
theorem nodup_fetchOrder (hdisplay : Function.Injective (Endpoint.display : Id → Bytes)) (connected seeds : List Id) :
    (fetchOrder connected seeds).Nodup := by
  rw [fetchOrder, destutter_sorted hdisplay]
  exact List.nodup_dedup _

/-- What a fetch returns was served by a peer it asked. -/
theorem fetch_served {t : ℕ} {blob : GroupBlob Id}
    (h : fetchVerifiedBlob connected seeds serve signed = some (t, some blob)) :
    ∃ pid ∈ connected ++ seeds, Serves serve signed pid blob := by
  obtain ⟨w, hw, hfetch⟩ := exists_fetch connected seeds serve signed
  obtain ⟨-, hfound⟩ := Prod.mk.inj (Option.some.inj (hfetch.symm.trans h))
  cases Walk.spec hw with
  | found before pid after b u hitems _ hyields _ =>
    cases hfound
    have hin : pid ∈ fetchOrder connected seeds := by
      rw [hitems]
      exact List.mem_append_right _ List.mem_cons_self
    exact ⟨pid, mem_fetchOrder.mp hin, fetchAttempt_eq_some hyields⟩
  | exhausted => cases hfound

/-- A fetch finds what a peer serves whose turn comes in time. -/
theorem fetch_found_iff {t : ℕ} {r : Option (GroupBlob Id)}
    (h : fetchVerifiedBlob connected seeds serve signed = some (t, r)) :
    r.isSome = true ↔ ∃ before pid after blob, fetchOrder connected seeds = before ++ pid :: after ∧
      Serves serve signed pid blob ∧ (before = [] ∨ (before.map (fetchTurn serve)).sum < blobFetchBudget) := by
  obtain ⟨w, hw, hfetch⟩ := exists_fetch connected seeds serve signed
  obtain ⟨-, rfl⟩ := Prod.mk.inj (Option.some.inj (hfetch.symm.trans h))
  rw [Walk.found_iff (fun _ _ => rfl) hw]
  constructor
  · rintro ⟨before, pid, after, blob, u, hitems, hyields, htime⟩
    rw [total_fetchAttempt] at htime
    exact ⟨before, pid, after, blob, hitems, fetchAttempt_eq_some hyields, htime⟩
  · rintro ⟨before, pid, after, blob, hitems, hserves, htime⟩
    obtain ⟨u, hyields⟩ := fetchAttempt_of_serves hserves
    refine ⟨before, pid, after, blob, u, hitems, hyields, ?_⟩
    rw [total_fetchAttempt]
    exact htime

/-- **Fetching the blob**: the peers are asked once each, in the order of their names. Whatever they do, the fetch is
over in less than a minute, what it returns was served by one of them and hashes to the signed hash, and it returns
something exactly if some peer serves the blob and the turns of those before it leave time. -/
theorem fetch_succeeds_iff (connected seeds : List Id) (serve : Id → Awaited (Option Bytes)) (signed : Hash) :
    (∀ pid, pid ∈ fetchOrder connected seeds ↔ pid ∈ connected ++ seeds) ∧
    (fetchOrder connected seeds).Pairwise (fun a b => displayLe a b = true) ∧
    (Function.Injective (Endpoint.display : Id → Bytes) → (fetchOrder connected seeds).Nodup) ∧
    ∃ t r, fetchVerifiedBlob connected seeds serve signed = some (t, r) ∧ t < 60000 ∧
      (∀ blob, r = some blob → ∃ pid ∈ connected ++ seeds, Serves serve signed pid blob) ∧
      (r.isSome = true ↔ ∃ before pid after blob, fetchOrder connected seeds = before ++ pid :: after ∧
        Serves serve signed pid blob ∧ (before = [] ∨ (before.map (fetchTurn serve)).sum < blobFetchBudget)) := by
  obtain ⟨w, -, hfetch⟩ := exists_fetch connected seeds serve signed
  refine ⟨fun pid => mem_fetchOrder, sorted_fetchOrder connected seeds,
    fun hdisplay => nodup_fetchOrder hdisplay connected seeds, w.took, w.found, hfetch, fetch_took_lt hfetch,
    fun blob hblob => ?_, fetch_found_iff hfetch⟩
  rw [hblob] at hfetch
  exact fetch_served hfetch

end Fetch

/-! ### Restoring a network -/

/-- `DIAL_TIMEOUT`. -/
def dialTimeout : ℕ := 10000

/-- `RESTORE_HANDSHAKE_TIMEOUT`. -/
def restoreHandshakeTimeout : ℕ := 15000

/-- `RESTORE_COORDINATOR_BUDGET`. -/
def restoreCoordinatorBudget : ℕ := 30000

/-- `RESOLVE_TIMEOUT` of the record. -/
def resolveTimeout : ℕ := 15000

/-- How long a joiner waits for the verdict. -/
def joinResponseTimeout : ℕ := 30000

/-- How a coordinator treats this node. -/
structure Coordinator (Id : Type) where
  /-- Whether the connection is made. -/
  connect : Awaited Bool
  /-- Whether the join request gets out. -/
  request : Awaited Bool
  /-- What it answers to the request: a message, or the end of the stream. -/
  verdict : Awaited (Option (ControlMsg Id))
  /-- What it says first on a connection of a member that is back. -/
  greeting : Awaited (Option (ControlMsg Id))
  /-- Whether the rest succeeds: the config is saved, and on a restore the hello gets out. -/
  settle : Awaited Bool

structure World (Id : Type) where
  coordinator : Id → Coordinator Id
  /-- The signed record: the hash, the generation and the seeds. -/
  resolve : Awaited (Option (Hash × ℕ × List Id))
  connected : List Id
  serve : Id → Awaited (Option Bytes)
  persistedRoster : List (Member Id)

inductive HandshakeOutcome (Id : Type) where
  | admitted (members : List (Member Id)) (approved : List (ApprovedEntry Id)) (myIp : Ipv4Addr)
  | pending

/-- What a dial ends with: the roster, and the members a disconnection is reported for so that they are redialed. -/
structure EstablishedMesh (Id : Type) where
  members : List (Member Id)
  approved : List (ApprovedEntry Id)
  seeded : List Id

section Restore

variable {Id : Type} [DecidableEq Id] [Endpoint Id] [Msgpack Id] [Blake3]

/-- The roster after a `MemberSync`: from the signed record, or the saved one. -/
def syncedRoster (w : World Id) : Awaited (List (Member Id) × List (ApprovedEntry Id)) :=
  let r := w.resolve.timeout resolveTimeout
  match r.2.join with
  | some (signed, _, seeds) =>
    (fetchVerifiedBlob w.connected seeds w.serve signed).map fun (t, data) =>
      (r.1 + t, data.elim (w.persistedRoster, []) fun data => (data.members, data.approved))
  | none => some (r.1, w.persistedRoster, [])

/-- `perform_join_handshake`; the outer `none` inside is an error. -/
def performJoinHandshake (w : World Id) (c : Coordinator Id) (initial : Bool) (me : Id) (myIp : Ipv4Addr) :
    Awaited (Option (HandshakeOutcome Id)) :=
  if initial then
    c.request.bind fun (t, sent) =>
      if sent then
        let r := c.verdict.timeout joinResponseTimeout
        some (t + r.1,
          match r.2.join with
          | some (.welcome members approved) =>
            match resolveWelcomeSelfIp members myIp me with
            | .ok ip => some (.admitted members approved ip)
            | .error _ => none
          | some .joinPending => some .pending
          | _ => none)
      else some (t, none)
  else
    let r := c.greeting.timeout restoreHandshakeTimeout
    match r.2.join with
    | some (.welcome members approved) => some (r.1, some (.admitted members approved myIp))
    | some (.joinApproved _ members) => some (r.1, some (.admitted members [] myIp))
    | some .memberSync =>
      (syncedRoster w).map fun (t, members, approved) => (r.1 + t, some (.admitted members approved myIp))
    | _ => some (r.1, none)

/-- `join_mesh_shared`, as far as it decides the outcome. -/
def joinMeshShared (w : World Id) (c : Coordinator Id) (initial : Bool) (me : Id) (myIp : Ipv4Addr) :
    Awaited (Option (HandshakeOutcome Id)) :=
  (performJoinHandshake w c initial me myIp).bind fun (t, outcome) =>
    match outcome with
    | some (.admitted members approved ip) =>
      c.settle.map fun (t', ok) => (t + t', if ok then some (.admitted members approved ip) else none)
    | _ => some (t, outcome)

/-- One attempt of the restore walk. -/
def restoreAttempt (w : World Id) (me : Id) (myIp : Ipv4Addr) (id : Id) :
    Awaited (RestoreAttempt (List (Member Id) × List (ApprovedEntry Id))) :=
  let c := w.coordinator id
  let r := c.connect.timeout dialTimeout
  if r.2 = some true then
    (joinMeshShared w c false me myIp).map fun (t, outcome) =>
      (r.1 + t,
        match outcome with
        | some (.admitted members approved _) => .joined (members, approved)
        | some .pending => .pending
        | none => .failed)
  else some (r.1, .failed)

/-- `dial_reconnect`: the inner `none` leaves the network to a later retry. -/
def dialReconnect (w : World Id) (me : Id) (myIp : Ipv4Addr) (data : GroupBlob Id) :
    Awaited (Option (EstablishedMesh Id)) :=
  (walkRestoreCoordinators (coordinatorDialOrder me data.members me) restoreCoordinatorBudget
    (restoreAttempt w me myIp)).map fun (t, walk) =>
      (t,
        match walk with
        | .joined (members, approved) => some ⟨members, approved, []⟩
        | .pending => none
        | .exhausted =>
          some ⟨data.members, data.approved, (data.members.filter fun m => m.identity ≠ me).map (·.identity)⟩)

/-! #### Who takes the node back -/

/-- Where the roster comes from when a coordinator answers `MemberSync`: from the blob of the signed record, if the
record is found and one of its peers serves the blob in time, and otherwise from the saved one. -/
inductive Synced (w : World Id) : List (Member Id) → List (ApprovedEntry Id) → Prop
  | served (t : ℕ) (signed : Hash) (generation : ℕ) (seeds : List Id) (pid : Id) (blob : GroupBlob Id)
      (resolved : w.resolve = some (t, some (signed, generation, seeds))) (soon : t ≤ resolveTimeout)
      (asked : pid ∈ w.connected ++ seeds) (serves : Serves w.serve signed pid blob) :
      Synced w blob.members blob.approved
  | unserved (t : ℕ) (signed : Hash) (generation : ℕ) (seeds : List Id)
      (resolved : w.resolve = some (t, some (signed, generation, seeds))) (soon : t ≤ resolveTimeout)
      (nobody : ∀ before pid after blob, fetchOrder w.connected seeds = before ++ pid :: after →
        Serves w.serve signed pid blob → before ≠ [] ∧ blobFetchBudget ≤ (before.map (fetchTurn w.serve)).sum) :
      Synced w w.persistedRoster []
  | unresolved (nothing : ∀ t record, w.resolve = some (t, some record) → resolveTimeout < t) :
      Synced w w.persistedRoster []

/-- What the first message on the connection of a member that is back makes of the roster. -/
inductive Greets (w : World Id) : ControlMsg Id → List (Member Id) → List (ApprovedEntry Id) → Prop
  | welcome (members : List (Member Id)) (approved : List (ApprovedEntry Id)) :
      Greets w (.welcome members approved) members approved
  | joinApproved (ip : Ipv4Addr) (members : List (Member Id)) : Greets w (.joinApproved ip members) members []
  | memberSync (members : List (Member Id)) (approved : List (ApprovedEntry Id)) (synced : Synced w members approved) :
      Greets w .memberSync members approved

/-- A coordinator takes the node back: it can be dialed in time, it greets in time with a message that gives a roster,
and what follows succeeds. -/
structure TakesBack (w : World Id) (c : Coordinator Id) (members : List (Member Id))
    (approved : List (ApprovedEntry Id)) : Prop where
  dialed : ∃ t ≤ dialTimeout, c.connect = some (t, true)
  greeted : ∃ t ≤ restoreHandshakeTimeout, ∃ msg, c.greeting = some (t, some msg) ∧ Greets w msg members approved
  settled : ∃ t, c.settle = some (t, true)

/-- The longest a roster after a `MemberSync` may take. -/
def syncLimit : ℕ := resolveTimeout + (blobFetchBudget + blobFetchPeerTimeout)

theorem exists_syncedRoster (w : World Id) :
    ∃ t members approved, syncedRoster w = some (t, members, approved) ∧ t ≤ syncLimit ∧
      Synced w members approved := by
  have hresolve := Awaited.timeout_le resolveTimeout w.resolve
  rw [syncedRoster, syncLimit]
  dsimp only
  split
  · rename_i signed generation seeds hrecord
    obtain ⟨t, soon, resolved⟩ := Awaited.timeout_eq_some.mp (Option.join_eq_some_iff.mp hrecord)
    obtain ⟨walk, -, hfetch⟩ := exists_fetch w.connected seeds w.serve signed
    have hlt := fetch_took_lt hfetch
    rw [hfetch, Option.map_some]
    refine ⟨_, _, _, rfl, by omega, ?_⟩
    cases hfound : walk.found with
    | some blob =>
      rw [hfound] at hfetch
      obtain ⟨pid, asked, serves⟩ := fetch_served hfetch
      exact .served t signed generation seeds pid blob resolved soon asked serves
    | none =>
      refine .unserved t signed generation seeds resolved soon fun before pid after blob horder serves => ?_
      by_contra hin
      have hsome := (fetch_found_iff hfetch).mpr ⟨before, pid, after, blob, horder, serves, by
        by_cases hnil : before = []
        · exact .inl hnil
        · exact .inr (not_le.mp fun hle => hin ⟨hnil, hle⟩)⟩
      rw [hfound] at hsome
      cases hsome
  · rename_i hnothing
    refine ⟨_, _, _, rfl, by omega, .unresolved fun t record hrecord => ?_⟩
    by_contra hsoon
    have hfound : (w.resolve.timeout resolveTimeout).2.join = some record :=
      Option.join_eq_some_iff.mpr (Awaited.timeout_eq_some.mpr ⟨t, not_lt.mp hsoon, hrecord⟩)
    rw [hnothing] at hfound
    cases hfound

/-- The handshake of a restore ends with the roster of the greeting, or fails if there is none. -/
theorem restoreHandshake_spec (w : World Id) (c : Coordinator Id) (me : Id) (myIp : Ipv4Addr) :
    ∃ t ≤ restoreHandshakeTimeout + syncLimit,
      (∃ members approved,
        performJoinHandshake w c false me myIp = some (t, some (.admitted members approved myIp)) ∧
        ∃ t ≤ restoreHandshakeTimeout, ∃ msg, c.greeting = some (t, some msg) ∧ Greets w msg members approved) ∨
      (performJoinHandshake w c false me myIp = some (t, none) ∧
        ∀ t ≤ restoreHandshakeTimeout, ∀ msg members approved, c.greeting = some (t, some msg) →
          ¬ Greets w msg members approved) := by
  have hle := Awaited.timeout_le restoreHandshakeTimeout c.greeting
  have hgreeting : ∀ {msg}, (c.greeting.timeout restoreHandshakeTimeout).2.join = some msg →
      ∃ t ≤ restoreHandshakeTimeout, c.greeting = some (t, some msg) := fun h =>
    Awaited.timeout_eq_some.mp (Option.join_eq_some_iff.mp h)
  rw [performJoinHandshake, if_neg Bool.false_ne_true]
  dsimp only
  split
  · rename_i members approved hmsg
    obtain ⟨t, ht, hgreet⟩ := hgreeting hmsg
    exact ⟨_, by omega, .inl ⟨members, approved, rfl, t, ht, _, hgreet, .welcome members approved⟩⟩
  · rename_i ip members hmsg
    obtain ⟨t, ht, hgreet⟩ := hgreeting hmsg
    exact ⟨_, by omega, .inl ⟨members, [], rfl, t, ht, _, hgreet, .joinApproved ip members⟩⟩
  · rename_i hmsg
    obtain ⟨t, ht, hgreet⟩ := hgreeting hmsg
    obtain ⟨t', members, approved, hsync, hle', synced⟩ := exists_syncedRoster w
    rw [hsync, Option.map_some]
    exact ⟨_, by omega, .inl ⟨members, approved, rfl, t, ht, _, hgreet, .memberSync members approved synced⟩⟩
  · rename_i hwelcome happroved hsync
    refine ⟨_, by omega, .inr ⟨rfl, fun t ht msg members approved hgreet hgreets => ?_⟩⟩
    have hmsg : (c.greeting.timeout restoreHandshakeTimeout).2.join = some msg :=
      Option.join_eq_some_iff.mpr (Awaited.timeout_eq_some.mpr ⟨t, ht, hgreet⟩)
    cases hgreets with
    | welcome => exact hwelcome _ _ hmsg
    | joinApproved => exact happroved _ _ hmsg
    | memberSync => exact hsync hmsg

/-- The longest one attempt of a restore may take. -/
def attemptLimit (settle : ℕ) : ℕ := dialTimeout + (restoreHandshakeTimeout + syncLimit + settle)

/-- An attempt ends in time: with the roster of a coordinator that takes the node back, or as failed if it does not. -/
theorem restoreAttempt_spec (w : World Id) (me : Id) (myIp : Ipv4Addr) {id : Id} {settle : ℕ}
    (hsettle : ∃ t ok, (w.coordinator id).settle = some (t, ok) ∧ t ≤ settle) :
    ∃ t ≤ attemptLimit settle,
      (∃ members approved, restoreAttempt w me myIp id = some (t, .joined (members, approved)) ∧
        TakesBack w (w.coordinator id) members approved) ∨
      (restoreAttempt w me myIp id = some (t, .failed) ∧
        ∀ members approved, ¬ TakesBack w (w.coordinator id) members approved) := by
  have hconnect := Awaited.timeout_le dialTimeout (w.coordinator id).connect
  obtain ⟨u, ok, hok, hu⟩ := hsettle
  rw [restoreAttempt, attemptLimit]
  dsimp only
  split
  · rename_i hdialed
    obtain ⟨t, hshake, ⟨members, approved, hjoin, hgreeted⟩ | ⟨hjoin, hnone⟩⟩ :=
      restoreHandshake_spec w (w.coordinator id) me myIp
    · rw [joinMeshShared, hjoin, Option.bind_some]
      dsimp only
      rw [hok, Option.map_some, Option.map_some]
      dsimp only
      cases ok with
      | true =>
        exact ⟨_, by omega, .inl ⟨members, approved, rfl, Awaited.timeout_eq_some.mp hdialed, hgreeted, u, hok⟩⟩
      | false =>
        refine ⟨_, by omega, .inr ⟨rfl, fun _ _ hback => ?_⟩⟩
        obtain ⟨_, hsettled⟩ := hback.settled
        rw [hok] at hsettled
        cases hsettled
    · rw [joinMeshShared, hjoin, Option.bind_some]
      refine ⟨_, by omega, .inr ⟨rfl, fun members approved hback => ?_⟩⟩
      obtain ⟨t, ht, msg, hgreet, hgreets⟩ := hback.greeted
      exact hnone t ht msg members approved hgreet hgreets
  · rename_i hoffline
    exact ⟨_, by omega, .inr ⟨rfl, fun _ _ hback => hoffline (Awaited.timeout_eq_some.mpr hback.dialed)⟩⟩

/-- One attempt as the walk sees it. -/
def settledAttempt (w : World Id) (me : Id) (myIp : Ipv4Addr) (id : Id) :
    Awaited (Option (Option (List (Member Id) × List (ApprovedEntry Id)))) :=
  (restoreAttempt w me myIp id).map fun (t, r) => (t, r.settled)

theorem settledAttempt_spec (w : World Id) (me : Id) (myIp : Ipv4Addr) {id : Id} {settle : ℕ}
    (hsettle : ∃ t ok, (w.coordinator id).settle = some (t, ok) ∧ t ≤ settle) :
    ∃ t found, settledAttempt w me myIp id = some (t, found) ∧ t ≤ attemptLimit settle ∧
      ((∃ members approved, found = some (some (members, approved)) ∧
          TakesBack w (w.coordinator id) members approved) ∨
        (found = none ∧ ∀ members approved, ¬ TakesBack w (w.coordinator id) members approved)) := by
  obtain ⟨t, hle, ⟨members, approved, hattempt, hback⟩ | ⟨hattempt, hnot⟩⟩ :=
    restoreAttempt_spec w me myIp hsettle <;> rw [settledAttempt, hattempt, Option.map_some]
  · exact ⟨t, _, rfl, hle, .inl ⟨members, approved, rfl, hback⟩⟩
  · exact ⟨t, _, rfl, hle, .inr ⟨rfl, hnot⟩⟩

end Restore

/-- **A restore registers the network**: whatever the coordinators do, as long as what follows a handshake ends, the
restore ends with the network registered. It dials every coordinator of the blob but the node itself once, in the order
of the blob. Its roster is that of the first one that takes the node back; or it is the blob's, with a redial for every
other member, after all coordinators have failed or the budget is spent. -/
theorem restore_registers {Id : Type} [DecidableEq Id] [Endpoint Id] [Msgpack Id] [Blake3] (w : World Id) (me : Id)
    (myIp : Ipv4Addr) (data : GroupBlob Id) {settle : ℕ}
    (hsettle : ∀ m ∈ data.members, m.isCoordinator = true → m.identity ≠ me →
      ∃ t ok, (w.coordinator m.identity).settle = some (t, ok) ∧ t ≤ settle) :
    ∃ order, order.Nodup ∧ order.Sublist (data.members.map (·.identity)) ∧
      (∀ id, id ∈ order ↔ id ≠ me ∧ ∃ m ∈ data.members, m.identity = id ∧ m.isCoordinator = true) ∧
      ∃ t mesh, dialReconnect w me myIp data = some (t, some mesh) ∧
        t < restoreCoordinatorBudget + attemptLimit settle ∧
        ((∃ before id after members approved, order = before ++ id :: after ∧
            (∀ c ∈ before, ∀ members approved, ¬ TakesBack w (w.coordinator c) members approved) ∧
            TakesBack w (w.coordinator id) members approved ∧ mesh = ⟨members, approved, []⟩) ∨
          (∃ tried rest, order = tried ++ rest ∧
            (∀ c ∈ tried, ∀ members approved, ¬ TakesBack w (w.coordinator c) members approved) ∧
            (rest = [] ∨ restoreCoordinatorBudget ≤ t) ∧
            mesh = ⟨data.members, data.approved,
              (data.members.filter fun m => m.identity ≠ me).map (·.identity)⟩)) := by
  refine ⟨coordinatorDialOrder me data.members me, nodup_coordinatorDialOrder me data.members me,
    coordinatorDialOrder_sublist data.members me, fun id => mem_coordinatorDialOrder, ?_⟩
  have hends : ∀ c ∈ coordinatorDialOrder me data.members me,
      ∃ t ok, (w.coordinator c).settle = some (t, ok) ∧ t ≤ settle := by
    intro c hc
    obtain ⟨hne, m, hm, rfl, hcoord⟩ := mem_coordinatorDialOrder.mp hc
    exact hsettle m hm hcoord hne
  have hfailed : ∀ c ∈ coordinatorDialOrder me data.members me, Walk.Fails (settledAttempt w me myIp) c →
      ∀ members approved, ¬ TakesBack w (w.coordinator c) members approved := by
    intro c hc ⟨u, hu⟩
    obtain ⟨t, found, hattempt, -, hcases⟩ := settledAttempt_spec w me myIp (hends c hc)
    cases hattempt.symm.trans hu
    obtain ⟨_, _, hfound, -⟩ | ⟨-, hnot⟩ := hcases
    · cases hfound
    · exact hnot
  obtain ⟨walk, hwalk⟩ : ∃ walk, Walk.run restoreCoordinatorBudget (settledAttempt w me myIp)
      (coordinatorDialOrder me data.members me) = some walk := by
    refine Walk.exists_run fun c hc => ?_
    obtain ⟨t, found, hattempt, -⟩ := settledAttempt_spec w me myIp (hends c hc)
    rw [hattempt]
    rfl
  have hlong : ∀ c ∈ coordinatorDialOrder me data.members me, ∀ t found,
      settledAttempt w me myIp c = some (t, found) → t ≤ attemptLimit settle := by
    intro c hc t found hfound
    obtain ⟨_, _, hattempt, hle, -⟩ := settledAttempt_spec w me myIp (hends c hc)
    cases hattempt.symm.trans hfound
    exact hle
  have htook := Walk.took_lt (by decide) hlong hwalk
  have hdial : dialReconnect w me myIp data = some (walk.took, _) :=
    Option.map_eq_some_iff.mpr ⟨_, Option.map_eq_some_iff.mpr ⟨walk, hwalk, rfl⟩, rfl⟩
  cases Walk.spec hwalk with
  | found before id after found u horder hfails hyields htime =>
    have hbefore : ∀ c ∈ before, c ∈ coordinatorDialOrder me data.members me := by
      intro c hc
      rw [horder]
      exact List.mem_append_left _ hc
    obtain ⟨t, _, hattempt, -, hcases⟩ := settledAttempt_spec w me myIp (hends id (by rw [horder]; simp))
    cases hattempt.symm.trans hyields
    obtain ⟨members, approved, hfound, hback⟩ | ⟨hfound, -⟩ := hcases
    · cases hfound
      exact ⟨_, _, hdial, htook, .inl ⟨before, id, after, members, approved, horder,
        fun c hc => hfailed c (hbefore c hc) (hfails c hc), hback, rfl⟩⟩
    · cases hfound
  | exhausted tried rest horder hfails hlast =>
    refine ⟨_, _, hdial, htook, .inr ⟨tried, rest, horder, fun c hc => hfailed c ?_ (hfails c hc), hlast, rfl⟩⟩
    rw [horder]
    exact List.mem_append_left _ hc

/-- Alice, the only coordinator, says nothing at all: bob registers the network from the blob and redials alice. -/
theorem restore_registers_silent :
    open Sample in
    ∃ t mesh,
      dialReconnect (⟨fun _ => ⟨none, none, none, none, some (0, true)⟩, none, [], fun _ => none, []⟩ : World Peer) .bob
        (deriveIp Peer.bob defaultSubnet) (blob 1 [member .alice true, member .bob false]) =
      some (t, some mesh) ∧ t < restoreCoordinatorBudget + attemptLimit 0 := by
  open Sample in
  obtain ⟨-, -, -, -, t, mesh, hdial, htook, -⟩ := restore_registers
    (⟨fun _ => ⟨none, none, none, none, some (0, true)⟩, none, [], fun _ => none, []⟩ : World Peer)
    .bob (deriveIp Peer.bob defaultSubnet) (blob 1 [member .alice true, member .bob false])
    fun _ _ _ _ => ⟨0, true, rfl, le_rfl⟩
  exact ⟨t, mesh, hdial, htook⟩

end Tetron.Daemon.JoinWalk
