import Mathlib.Logic.Function.Basic
import Tetron.Lib.Run

/-!
# Which handler answers for a network

Inbound connections are dispatched by protocol name, which is made of the first sixteen characters of the network key;
keys that begin alike count as one here. The table of handlers (`ProtocolRouter`), the table of running networks and the
list of protocols the endpoint offers are three shared maps that `create`, `restore`, `join`, `leave` and the promotion
of a member to coordinator change one after the other, without a lock across. A promotion is asked for by the task that
received the network key, through a channel, and is carried out by name. The endpoint boots with the protocols of all
saved networks on offer, and no handler; its list is replaced at the end of each call.

When no call is under way and all promotions have been taken, the maps should agree: each running network is answered
by a handler of its own, by a coordinator's if the node holds the key, nothing else is registered, and exactly what is
registered is offered, at least once the list of the boot has been replaced. `router_settles` proves this of every run
that keeps four rules, none of which the daemon enforces:

* calls on one network, or on one key, do not overlap;
* no network is joined under a second name;
* two calls are not refreshing the endpoint's list at the same time;
* no key arrives between the registration of a join and the entry of the joined network in the table.

The last section shows runs that break one rule each, and what is left behind.
-/

namespace Tetron.Daemon.AcceptRouter

inductive NetworkRole where
  | coordinator
  | member
deriving DecidableEq

/-- `should_promote`. -/
def shouldPromote (current : NetworkRole) : Bool := current != .coordinator

/-- `role_for_key_holder`. -/
def roleForKeyHolder (holdsNetworkKey : Bool) : NetworkRole := if holdsNetworkKey then .coordinator else .member

/-- The parts of a `NetworkHandle` that matter here. `life` tells one run of a network from the next: it stands for
the state and the cancellation token the handle and its accept handler share. -/
structure NetworkHandle (K : Type) where
  networkKey : K
  role : NetworkRole
  life : ℕ
deriving DecidableEq

/-- `AcceptHandler`: for a coordinator or a member, over the state of one life. -/
structure AcceptHandler where
  role : NetworkRole
  life : ℕ
deriving DecidableEq

/-- A call under way, by what it does next. -/
inductive Call (N K : Type) where
  /-- `create_network_inner`: insert the handle, -/
  | createInsert (network : N) (key : K) (life : ℕ)
  /-- then register the handler. -/
  | createRegister (network : N) (key : K) (life : ℕ)
  /-- `restore_coordinator_network`: register the handler, then `insert`. -/
  | restoreRegister (network : N) (key : K) (life : ℕ)
  /-- `finalize_join`: register a handler by whether the key is held, then `insert`. -/
  | joinRegister (network : N) (key : K) (life : ℕ)
  | insert (network : N) (key : K) (life : ℕ) (role : NetworkRole)
  /-- `promote_to_coordinator`: look the network up again for its context, -/
  | promoteCtx (network : N) (key : K) (life : ℕ)
  /-- then register the handler. -/
  | promoteRegister (network : N) (key : K) (life : ℕ)
  /-- `teardown_network_runtime`, the handle having been removed. -/
  | unregister (network : N) (key : K)
  /-- `refresh_alpns`: list the handlers, -/
  | refreshAlpns (network : N) (key : K)
  /-- then `set_alpns`. -/
  | setAlpns (network : N) (key : K) (alpns : K → Bool)

namespace Call

variable {N K : Type}

def network : Call N K → N
  | createInsert n _ _ | createRegister n _ _ | restoreRegister n _ _ | joinRegister n _ _ | insert n _ _ _
  | promoteCtx n _ _ | promoteRegister n _ _ | unregister n _ | refreshAlpns n _ | setAlpns n _ _ => n

def key : Call N K → K
  | createInsert _ k _ | createRegister _ k _ | restoreRegister _ k _ | joinRegister _ k _ | insert _ k _ _
  | promoteCtx _ k _ | promoteRegister _ k _ | unregister _ k | refreshAlpns _ k | setAlpns _ k _ => k

/-- The call has listed the handlers and is about to offer them. -/
def isSetAlpns : Call N K → Bool
  | setAlpns _ _ _ => true
  | _ => false

/-- The call is a join that has registered its handler for the life `l`. -/
def joins (l : ℕ) : Call N K → Bool
  | insert _ _ l' .member => l' == l
  | _ => false

end Call

/-- The parts of `MeshManager` that matter here. `owner` and `holds` are about lives: the network a life belongs to,
and whether its state holds the network key. -/
structure Manager (N K : Type) where
  networks : N → Option (NetworkHandle K)
  handlers : K → Option AcceptHandler
  offered : K → Bool
  /-- How often the endpoint's list has been replaced. -/
  refreshes : ℕ
  promotions : List N
  calls : List (Option (Call N K))
  lives : ℕ
  owner : ℕ → Option N
  holds : ℕ → Bool

inductive Event (N K : Type) where
  | create (network : N) (key : K)
  | restore (network : N) (key : K)
  | join (network : N) (key : K)
  | leave (network : N)
  /-- The loop takes a promotion from the channel. -/
  | promote (network : N)
  /-- The state of a life is given the network key, and the loop is told. -/
  | grant (life : ℕ)
  /-- The `i`th call goes on. -/
  | step (i : ℕ)

variable {N K : Type} [DecidableEq N] [DecidableEq K]

namespace Manager

/-- `build_daemon`: the endpoint offers the `initial_alpns`, those of the saved networks whose keys are known. -/
def new (saved : List K) : Manager N K :=
  ⟨fun _ => none, fun _ => none, fun k => decide (k ∈ saved), 0, [], [], 0, fun _ => none, fun _ => false⟩

/-- A new life of the network has begun with a call. -/
def begun (s : Manager N K) (network : N) (holds : Bool) (call : Call N K) : Manager N K :=
  { s with
    calls := s.calls ++ [some call]
    lives := s.lives + 1
    owner := Function.update s.owner s.lives (some network)
    holds := Function.update s.holds s.lives holds }

/-- A network that is running is refused. -/
def begin (s : Manager N K) (network : N) (holds : Bool) (call : ℕ → Call N K) : Option (Manager N K) :=
  if (s.networks network).isSome then none else some (s.begun network holds (call s.lives))

/-- `ProtocolRouter::register`. -/
def register (s : Manager N K) (key : K) (handler : AcceptHandler) : Manager N K :=
  { s with handlers := Function.update s.handlers key (some handler) }

/-- `register_coordinator_handler`: the handler, and the role of the network if it is there. -/
def registerCoordinatorHandler (s : Manager N K) (network : N) (key : K) (life : ℕ) : Manager N K :=
  { s with
    handlers := Function.update s.handlers key (some ⟨.coordinator, life⟩)
    networks := Function.update s.networks network
      ((s.networks network).map fun h => { h with role := .coordinator }) }

def goOn (s : Manager N K) (i : ℕ) (call : Option (Call N K)) : Manager N K := { s with calls := s.calls.set i call }

/-- The next step of a call. -/
def advance (s : Manager N K) (i : ℕ) : Call N K → Manager N K
  | .createInsert n k l =>
    { s with networks := Function.update s.networks n (some ⟨k, .coordinator, l⟩) }.goOn i
      (some (.createRegister n k l))
  | .createRegister n k l => (s.registerCoordinatorHandler n k l).goOn i (some (.refreshAlpns n k))
  | .restoreRegister n k l => (s.registerCoordinatorHandler n k l).goOn i (some (.insert n k l .coordinator))
  | .joinRegister n k l =>
    match roleForKeyHolder (s.holds l) with
    | .coordinator => (s.registerCoordinatorHandler n k l).goOn i (some (.insert n k l .member))
    | .member => (s.register k ⟨.member, l⟩).goOn i (some (.insert n k l .member))
  | .insert n k l role =>
    { s with networks := Function.update s.networks n (some ⟨k, role, l⟩) }.goOn i (some (.refreshAlpns n k))
  | .promoteCtx n k l => s.goOn i ((s.networks n).map fun _ => .promoteRegister n k l)
  | .promoteRegister n k l => (s.registerCoordinatorHandler n k l).goOn i (some (.refreshAlpns n k))
  | .unregister n k =>
    { s with handlers := Function.update s.handlers k none }.goOn i (some (.refreshAlpns n k))
  | .refreshAlpns n k => s.goOn i (some (.setAlpns n k fun k => (s.handlers k).isSome))
  | .setAlpns _ _ alpns => { s with offered := alpns, refreshes := s.refreshes + 1 }.goOn i none

def next (s : Manager N K) : Event N K → Option (Manager N K)
  | .create n k => s.begin n true fun l => .createInsert n k l
  | .restore n k => s.begin n true fun l => .restoreRegister n k l
  | .join n k => s.begin n false fun l => .joinRegister n k l
  | .leave n =>
    match s.networks n with
    | none => some s
    | some h => some { s with
        networks := Function.update s.networks n none
        calls := s.calls ++ [some (.unregister n h.networkKey)] }
  | .promote n =>
    if n ∈ s.promotions then
      let s := { s with promotions := s.promotions.erase n }
      match s.networks n with
      | none => some s
      | some h =>
        if shouldPromote h.role then
          some { s with calls := s.calls ++ [some (.promoteCtx n h.networkKey h.life)] }
        else some s
    else none
  | .grant l =>
    match s.owner l with
    | none => none
    | some n => some { s with holds := Function.update s.holds l true, promotions := s.promotions ++ [n] }
  | .step i =>
    match s.calls[i]? with
    | some (some c) => some (s.advance i c)
    | _ => none

end Manager

/-! ### The rules -/

/-- No call under way satisfies `p`. -/
def Manager.without (s : Manager N K) (p : Call N K → Bool) : Bool := s.calls.all fun c => c.all fun c => !p c

/-- No call on the network or on the key is under way. -/
def Manager.free (s : Manager N K) (n : N) (k : K) : Bool :=
  s.without fun c => c.network = n || c.key = k

/-- No running network has the key. -/
def Manager.unused (s : Manager N K) (k : K) : Bool :=
  (List.range s.lives).all fun l => (s.owner l).all fun n => (s.networks n).all fun h => h.networkKey != k

/-- The rules of the header. -/
def serial (s : Manager N K) : Event N K → Bool
  | .create n k | .restore n k | .join n k => s.free n k && s.unused k
  | .leave n | .promote n => (s.networks n).all fun h => s.free n h.networkKey
  | .grant l => s.without (Call.joins l)
  | .step i =>
    match s.calls[i]? with
    | some (some (.refreshAlpns _ _)) => s.without Call.isSetAlpns
    | _ => true

/-- The `i`th call is under way. -/
def Under (s : Manager N K) (i : ℕ) (c : Call N K) : Prop := s.calls[i]? = some (some c)

section Rules

variable {s : Manager N K}

omit [DecidableEq N] [DecidableEq K] in
theorem without_iff {p : Call N K → Bool} : s.without p = true ↔ ∀ i c, Under s i c → p c = false := by
  simp only [Manager.without, Under, List.all_eq_true]
  constructor
  · intro h i c hc
    simpa using h _ (List.mem_of_getElem? hc)
  · intro h c hc
    obtain ⟨i, hi⟩ := List.getElem?_of_mem hc
    cases c with
    | none => rfl
    | some c => simpa using h i c hi

theorem free_iff {n : N} {k : K} : s.free n k = true ↔ ∀ i c, Under s i c → c.network ≠ n ∧ c.key ≠ k := by
  rw [Manager.free, without_iff]
  simp

end Rules

/-! ### The steps that keep them -/

section Steps

variable {s s' : Manager N K} {e : Event N K}

/-- The first step of a call that begins a life. -/
def Begins (n : N) (k : K) (l : ℕ) (c : Call N K) : Prop :=
  c = .createInsert n k l ∨ c = .restoreRegister n k l ∨ c = .joinRegister n k l

/-- What a step that keeps the rules does. -/
inductive Moves (s : Manager N K) : Manager N K → Prop where
  | begins {n : N} {k : K} {c : Call N K} (holds : Bool) (hbegins : Begins n k s.lives c) (hnone : s.networks n = none)
      (hfree : s.free n k = true) (hunused : s.unused k = true) : Moves s (s.begun n holds c)
  | leave {n : N} {h : NetworkHandle K} (hnet : s.networks n = some h) (hfree : s.free n h.networkKey = true) :
      Moves s { s with
        networks := Function.update s.networks n none
        calls := s.calls ++ [some (.unregister n h.networkKey)] }
  | promote {n : N} {h : NetworkHandle K} (hnet : s.networks n = some h) (hfree : s.free n h.networkKey = true) :
      Moves s { s with
        promotions := s.promotions.erase n
        calls := s.calls ++ [some (.promoteCtx n h.networkKey h.life)] }
  | taken {n : N} (hrole : ∀ h, s.networks n = some h → h.role = .coordinator) :
      Moves s { s with promotions := s.promotions.erase n }
  | grant {n : N} {l : ℕ} (howner : s.owner l = some n) (hjoins : s.without (Call.joins l) = true) :
      Moves s { s with holds := Function.update s.holds l true, promotions := s.promotions ++ [n] }
  | refused : Moves s s
  | advance {i : ℕ} {c : Call N K} (hc : Under s i c)
      (alone : ∀ n k, c = .refreshAlpns n k → s.without Call.isSetAlpns = true) : Moves s (s.advance i c)

theorem moves_of_begin {n : N} {k : K} {holds : Bool} {call : ℕ → Call N K}
    (hbegins : Begins n k s.lives (call s.lives)) (hserial : (s.free n k && s.unused k) = true)
    (hnext : s.begin n holds call = some s') : Moves s s' := by
  unfold Manager.begin at hnext
  by_cases hsome : (s.networks n).isSome
  · simp [hsome] at hnext
  · rw [if_neg hsome] at hnext
    obtain rfl := Option.some.inj hnext
    obtain ⟨hfree, hunused⟩ := Bool.and_eq_true_iff.mp hserial
    exact .begins holds hbegins (Option.not_isSome_iff_eq_none.mp hsome) hfree hunused

theorem moves_of_leave {n : N} (hserial : serial s (.leave n) = true) (hnext : s.next (.leave n) = some s') :
    Moves s s' := by
  simp only [Manager.next] at hnext
  cases hnet : s.networks n with
  | none =>
    rw [hnet] at hnext
    obtain rfl := Option.some.inj hnext
    exact .refused
  | some h =>
    rw [hnet] at hnext
    obtain rfl := Option.some.inj hnext
    exact .leave hnet (by simpa [serial, hnet] using hserial)

theorem moves_of_promote {n : N} (hserial : serial s (.promote n) = true) (hnext : s.next (.promote n) = some s') :
    Moves s s' := by
  simp only [Manager.next] at hnext
  by_cases hmem : n ∈ s.promotions
  · rw [if_pos hmem] at hnext
    cases hnet : s.networks n with
    | none =>
      rw [hnet] at hnext
      obtain rfl := Option.some.inj hnext
      exact .taken fun h' hh' => absurd (hnet.symm.trans hh') (by simp)
    | some h =>
      rw [hnet] at hnext
      by_cases hshould : shouldPromote h.role
      · simp only [hshould, if_true] at hnext
        obtain rfl := Option.some.inj hnext
        exact .promote hnet (by simpa [serial, hnet] using hserial)
      · simp only [hshould] at hnext
        obtain rfl := Option.some.inj hnext
        refine .taken fun h' hh' => ?_
        obtain rfl := Option.some.inj (hnet.symm.trans hh')
        simpa [shouldPromote] using hshould
  · rw [if_neg hmem] at hnext
    cases hnext

theorem advance_of_next {i : ℕ} (hnext : s.next (.step i) = some s') : ∃ c, Under s i c ∧ s' = s.advance i c := by
  simp only [Manager.next] at hnext
  cases hc : s.calls[i]? with
  | none =>
    rw [hc] at hnext
    cases hnext
  | some d =>
    cases d with
    | none =>
      rw [hc] at hnext
      cases hnext
    | some c =>
      rw [hc] at hnext
      exact ⟨c, hc, (Option.some.inj hnext).symm⟩

theorem moves_of_next (hserial : serial s e = true) (hnext : s.next e = some s') : Moves s s' := by
  cases e with
  | create n k => exact moves_of_begin (.inl rfl) hserial hnext
  | restore n k => exact moves_of_begin (.inr (.inl rfl)) hserial hnext
  | join n k => exact moves_of_begin (.inr (.inr rfl)) hserial hnext
  | leave n => exact moves_of_leave hserial hnext
  | promote n => exact moves_of_promote hserial hnext
  | grant l =>
    simp only [Manager.next] at hnext
    cases howner : s.owner l with
    | none =>
      rw [howner] at hnext
      cases hnext
    | some n =>
      rw [howner] at hnext
      obtain rfl := Option.some.inj hnext
      exact .grant howner hserial
  | step i =>
    obtain ⟨c, hc, rfl⟩ := advance_of_next hnext
    refine .advance hc fun n k heq => ?_
    subst heq
    have hc' : s.calls[i]? = some (some (.refreshAlpns n k)) := hc
    simpa only [serial, hc'] using hserial

end Steps

/-! ### The three maps along a run -/

/-- What a call relies on at its next step. -/
def Fits (s : Manager N K) : Call N K → Prop
  | .createInsert n k l | .restoreRegister n k l | .joinRegister n k l =>
    s.networks n = none ∧ s.handlers k = none ∧ l < s.lives ∧ s.owner l = some n
  | .createRegister n k l => s.networks n = some ⟨k, .coordinator, l⟩
  | .insert n k l role => s.networks n = none ∧ l < s.lives ∧ s.owner l = some n ∧
      ∃ r, s.handlers k = some ⟨r, l⟩ ∧ (role = .coordinator → r = .coordinator) ∧
        (s.holds l = true → r = .coordinator)
  | .promoteCtx n k l | .promoteRegister n k l => ∃ role, s.networks n = some ⟨k, role, l⟩
  | .unregister n _ => s.networks n = none
  | .refreshAlpns _ _ | .setAlpns _ _ _ => True

/-- A promotion of the network is under way. -/
def Promoting (s : Manager N K) (n : N) (h : NetworkHandle K) : Prop :=
  ∃ i, Under s i (.promoteCtx n h.networkKey h.life) ∨ Under s i (.promoteRegister n h.networkKey h.life)

/-- A running network has its handler, or is about to register it. If the node holds the key, the handler is a
coordinator's, or its promotion is still to come. -/
def Served (s : Manager N K) (n : N) (h : NetworkHandle K) : Prop :=
  (∃ i, Under s i (.createRegister n h.networkKey h.life)) ∨
    ∃ r, s.handlers h.networkKey = some ⟨r, h.life⟩ ∧ (h.role = .coordinator → r = .coordinator) ∧
      (s.holds h.life = true → r = .coordinator ∨ n ∈ s.promotions ∨ Promoting s n h)

/-- A handler belongs to a running network, to one about to be entered, or is about to be removed. -/
def Origin (s : Manager N K) (k : K) (a : AcceptHandler) : Prop :=
  (∃ n h, s.networks n = some h ∧ h.networkKey = k ∧ h.life = a.life) ∨
    (∃ i n, Under s i (.unregister n k)) ∨ ∃ i n role, Under s i (.insert n k a.life role)

structure Agreeing (s : Manager N K) : Prop where
  exclusive : ∀ i j c d, Under s i c → Under s j d → c.network = d.network ∨ c.key = d.key → i = j
  running : ∀ n h, s.networks n = some h → h.life < s.lives ∧ s.owner h.life = some n
  keys : ∀ n n' h h', s.networks n = some h → s.networks n' = some h' → h.networkKey = h'.networkKey → n = n'
  same : ∀ n h i c, s.networks n = some h → Under s i c → (c.network = n ↔ c.key = h.networkKey)
  fits : ∀ i c, Under s i c → Fits s c
  served : ∀ n h, s.networks n = some h → Served s n h
  origin : ∀ k a, s.handlers k = some a → Origin s k a

/-- From `s` to `s'` nothing changes but the network `n`, the key `k` and the call `i`; lives may be added, and
promotions of `n` taken. -/
structure Local (n : N) (k : K) (i : ℕ) (s s' : Manager N K) : Prop where
  networks : ∀ n' ≠ n, s'.networks n' = s.networks n'
  handlers : ∀ k' ≠ k, s'.handlers k' = s.handlers k'
  calls : ∀ j ≠ i, ∀ d, Under s' j d ↔ Under s j d
  lives : s.lives ≤ s'.lives
  owner : ∀ l < s.lives, s'.owner l = s.owner l
  holds : ∀ l < s.lives, s'.holds l = s.holds l
  promotions : ∀ n' ≠ n, n' ∈ s.promotions → n' ∈ s'.promotions

section Frame

variable {s s' : Manager N K} {n : N} {k : K} {i : ℕ}

omit [DecidableEq N] [DecidableEq K] in
theorem Fits.congr {c : Call N K} (hlocal : Local n k i s s') (hn : c.network ≠ n) (hk : c.key ≠ k) (h : Fits s c) :
    Fits s' c := by
  have hnet := hlocal.networks c.network hn
  have hhand := hlocal.handlers c.key hk
  cases c with
  | createInsert n' k' l | restoreRegister n' k' l | joinRegister n' k' l =>
    obtain ⟨h1, h2, hlt, howner⟩ := h
    exact ⟨hnet.trans h1, hhand.trans h2, Nat.lt_of_lt_of_le hlt hlocal.lives, (hlocal.owner l hlt).trans howner⟩
  | createRegister n' k' l => exact hnet.trans h
  | insert n' k' l role =>
    obtain ⟨h1, hlt, howner, r, hr, hrole, hholds⟩ := h
    refine ⟨hnet.trans h1, Nat.lt_of_lt_of_le hlt hlocal.lives, (hlocal.owner l hlt).trans howner, r,
      hhand.trans hr, hrole, ?_⟩
    rw [hlocal.holds l hlt]
    exact hholds
  | promoteCtx n' k' l | promoteRegister n' k' l =>
    obtain ⟨role, hrole⟩ := h
    exact ⟨role, hnet.trans hrole⟩
  | unregister n' k' => exact hnet.trans h
  | refreshAlpns | setAlpns => trivial

omit [DecidableEq N] [DecidableEq K] in
/-- A call on another network or key is still under way. -/
theorem Local.under (hlocal : Local n k i s s') (hat : ∀ c, Under s i c → c.network = n ∧ c.key = k) {j : ℕ}
    {c : Call N K} (hc : Under s j c) (hother : c.network ≠ n ∨ c.key ≠ k) : Under s' j c := by
  have hne : j ≠ i := by
    rintro rfl
    obtain ⟨hn, hk⟩ := hat c hc
    rcases hother with h | h
    · exact h hn
    · exact h hk
  exact (hlocal.calls j hne c).mpr hc

omit [DecidableEq N] [DecidableEq K] in
theorem Served.congr (hlocal : Local n k i s s') (hat : ∀ c, Under s i c → c.network = n ∧ c.key = k) {n' : N}
    {h' : NetworkHandle K} (hn : n' ≠ n) (hk : h'.networkKey ≠ k) (hlt : h'.life < s.lives) (h : Served s n' h') :
    Served s' n' h' := by
  rcases h with ⟨j, hj⟩ | ⟨r, hr, hrole, hholds⟩
  · exact .inl ⟨j, hlocal.under hat hj (.inl hn)⟩
  · refine .inr ⟨r, (hlocal.handlers _ hk).trans hr, hrole, fun hheld => ?_⟩
    rw [hlocal.holds _ hlt] at hheld
    rcases hholds hheld with hcoord | hqueued | ⟨j, hj | hj⟩
    · exact .inl hcoord
    · exact .inr (.inl (hlocal.promotions n' hn hqueued))
    · exact .inr (.inr ⟨j, .inl (hlocal.under hat hj (.inl hn))⟩)
    · exact .inr (.inr ⟨j, .inr (hlocal.under hat hj (.inl hn))⟩)

omit [DecidableEq N] [DecidableEq K] in
theorem Origin.congr (hlocal : Local n k i s s') (hat : ∀ c, Under s i c → c.network = n ∧ c.key = k)
    (hmine : ∀ h', s.networks n = some h' → h'.networkKey = k) {k' : K} {a : AcceptHandler} (hk : k' ≠ k)
    (h : Origin s k' a) : Origin s' k' a := by
  rcases h with ⟨n', h', hn', hkey, hlife⟩ | ⟨j, n', hj⟩ | ⟨j, n', role, hj⟩
  · have hne : n' ≠ n := by
      rintro rfl
      exact hk (hkey.symm.trans (hmine h' hn'))
    exact .inl ⟨n', h', (hlocal.networks n' hne).trans hn', hkey, hlife⟩
  · exact .inr (.inl ⟨j, n', hlocal.under hat hj (.inr hk)⟩)
  · exact .inr (.inr ⟨j, n', role, hlocal.under hat hj (.inr hk)⟩)

omit [DecidableEq N] [DecidableEq K] in
/-- **Frame rule**: a step on one network leaves the others as they are. What is to be shown is about that network, its
key and its call only. -/
theorem Agreeing.local (h : Agreeing s) (hlocal : Local n k i s s')
    (hat : ∀ c, Under s i c → c.network = n ∧ c.key = k)
    (hfree : ∀ j c, j ≠ i → Under s j c → c.network ≠ n ∧ c.key ≠ k)
    (hother : ∀ n' h', n' ≠ n → s.networks n' = some h' → h'.networkKey ≠ k)
    (hmine : ∀ h', s.networks n = some h' → h'.networkKey = k)
    (hcall : ∀ c, Under s' i c → c.network = n ∧ c.key = k ∧ Fits s' c)
    (hrunning : ∀ h', s'.networks n = some h' →
      h'.networkKey = k ∧ h'.life < s'.lives ∧ s'.owner h'.life = some n ∧ Served s' n h')
    (horigin : ∀ a, s'.handlers k = some a → Origin s' k a) : Agreeing s' where
  exclusive := by
    intro j₁ j₂ c d hc hd hcd
    by_cases h₁ : j₁ = i
    · by_cases h₂ : j₂ = i
      · rw [h₁, h₂]
      · subst h₁
        obtain ⟨hn, hk, -⟩ := hcall c hc
        obtain ⟨hn', hk'⟩ := hfree j₂ d h₂ ((hlocal.calls j₂ h₂ d).mp hd)
        rcases hcd with heq | heq
        · exact absurd (heq.symm.trans hn) hn'
        · exact absurd (heq.symm.trans hk) hk'
    · by_cases h₂ : j₂ = i
      · subst h₂
        obtain ⟨hn, hk, -⟩ := hcall d hd
        obtain ⟨hn', hk'⟩ := hfree j₁ c h₁ ((hlocal.calls j₁ h₁ c).mp hc)
        rcases hcd with heq | heq
        · exact absurd (heq.trans hn) hn'
        · exact absurd (heq.trans hk) hk'
      · exact h.exclusive j₁ j₂ c d ((hlocal.calls j₁ h₁ c).mp hc) ((hlocal.calls j₂ h₂ d).mp hd) hcd
  running := by
    intro n' h' hn'
    by_cases heq : n' = n
    · subst heq
      obtain ⟨-, hlt, howner, -⟩ := hrunning h' hn'
      exact ⟨hlt, howner⟩
    · rw [hlocal.networks n' heq] at hn'
      obtain ⟨hlt, howner⟩ := h.running n' h' hn'
      exact ⟨Nat.lt_of_lt_of_le hlt hlocal.lives, (hlocal.owner _ hlt).trans howner⟩
  keys := by
    intro n₁ n₂ h₁ h₂ hn₁ hn₂ hkey
    by_cases heq₁ : n₁ = n
    · by_cases heq₂ : n₂ = n
      · rw [heq₁, heq₂]
      · subst heq₁
        rw [hlocal.networks n₂ heq₂] at hn₂
        exact absurd (hkey.symm.trans (hrunning h₁ hn₁).1) (hother n₂ h₂ heq₂ hn₂)
    · rw [hlocal.networks n₁ heq₁] at hn₁
      by_cases heq₂ : n₂ = n
      · subst heq₂
        exact absurd (hkey.trans (hrunning h₂ hn₂).1) (hother n₁ h₁ heq₁ hn₁)
      · rw [hlocal.networks n₂ heq₂] at hn₂
        exact h.keys n₁ n₂ h₁ h₂ hn₁ hn₂ hkey
  same := by
    intro n' h' j c hn' hc
    by_cases heq : n' = n
    · subst heq
      have hkey := (hrunning h' hn').1
      by_cases hj : j = i
      · subst hj
        obtain ⟨hn, hk, -⟩ := hcall c hc
        exact ⟨fun _ => hk.trans hkey.symm, fun _ => hn⟩
      · obtain ⟨hn, hk⟩ := hfree j c hj ((hlocal.calls j hj c).mp hc)
        exact ⟨fun hn' => absurd hn' hn, fun hk' => absurd (hk'.trans hkey) hk⟩
    · rw [hlocal.networks n' heq] at hn'
      by_cases hj : j = i
      · subst hj
        obtain ⟨hn, hk, -⟩ := hcall c hc
        exact ⟨fun hn'' => absurd (hn''.symm.trans hn) heq,
          fun hk' => absurd (hk'.symm.trans hk) (hother n' h' heq hn')⟩
      · exact h.same n' h' j c hn' ((hlocal.calls j hj c).mp hc)
  fits := by
    intro j c hc
    by_cases hj : j = i
    · subst hj
      exact (hcall c hc).2.2
    · have hc := (hlocal.calls j hj c).mp hc
      obtain ⟨hn, hk⟩ := hfree j c hj hc
      exact (h.fits j c hc).congr hlocal hn hk
  served := by
    intro n' h' hn'
    by_cases heq : n' = n
    · subst heq
      exact (hrunning h' hn').2.2.2
    · rw [hlocal.networks n' heq] at hn'
      exact (h.served n' h' hn').congr hlocal hat heq (hother n' h' heq hn') (h.running n' h' hn').1
  origin := by
    intro k' a hk'
    by_cases heq : k' = k
    · subst heq
      exact horigin a hk'
    · rw [hlocal.handlers k' heq] at hk'
      exact (h.origin k' a hk').congr hlocal hat hmine heq

end Frame

section Calls

variable {s s' : Manager N K} {n : N} {k : K} {i l : ℕ} {c : Call N K}

omit [DecidableEq N] in
theorem agreeing_new (saved : List K) : Agreeing (Manager.new saved : Manager N K) := by
  refine ⟨?_, ?_, ?_, ?_, ?_, ?_, ?_⟩ <;> intros <;> simp_all [Manager.new, Under]

omit [DecidableEq N] [DecidableEq K] in
theorem Under.unique {d : Call N K} (hc : Under s i c) (hd : Under s i d) : c = d :=
  Option.some.inj (Option.some.inj (hc.symm.trans hd))

omit [DecidableEq N] [DecidableEq K] in
/-- A step of a call, as the frame rule wants it. -/
theorem Agreeing.step_local (h : Agreeing s) (hc : Under s i c) (hlocal : Local c.network c.key i s s')
    (hcall : ∀ d, Under s' i d → d.network = c.network ∧ d.key = c.key ∧ Fits s' d)
    (hrunning : ∀ h', s'.networks c.network = some h' →
      h'.networkKey = c.key ∧ h'.life < s'.lives ∧ s'.owner h'.life = some c.network ∧ Served s' c.network h')
    (horigin : ∀ a, s'.handlers c.key = some a → Origin s' c.key a) : Agreeing s' := by
  refine h.local hlocal ?_ ?_ ?_ ?_ hcall hrunning horigin
  · intro d hd
    obtain rfl := hc.unique hd
    exact ⟨rfl, rfl⟩
  · intro j d hj hd
    constructor
    · intro hn
      exact hj (h.exclusive j i d c hd hc (.inl hn))
    · intro hk
      exact hj (h.exclusive j i d c hd hc (.inr hk))
  · intro n' h' hne hn' hkey
    exact hne ((h.same n' h' i c hn' hc).mpr hkey.symm).symm
  · intro h' hn'
    exact ((h.same _ h' i c hn' hc).mp rfl).symm

omit [DecidableEq N] [DecidableEq K] in
theorem under_goOn {d : Option (Call N K)} (hc : Under s i c) (hcalls : s'.calls = s.calls.set i d) :
    (∀ j ≠ i, ∀ e, Under s' j e ↔ Under s j e) ∧ ∀ e, Under s' i e ↔ d = some e := by
  have hlt := (List.getElem?_eq_some_iff.mp hc).1
  constructor
  · intro j hj e
    rw [Under, Under, hcalls, List.getElem?_set_ne hj.symm]
  · intro e
    rw [Under, hcalls, List.getElem?_set_self hlt, Option.some.injEq]

omit [DecidableEq N] [DecidableEq K] in
theorem local_goOn {d : Option (Call N K)} (hc : Under s i c) (hcalls : s'.calls = s.calls.set i d)
    (hnetworks : ∀ n' ≠ c.network, s'.networks n' = s.networks n')
    (hhandlers : ∀ k' ≠ c.key, s'.handlers k' = s.handlers k') (hlives : s'.lives = s.lives)
    (howner : s'.owner = s.owner) (hholds : s'.holds = s.holds) (hpromotions : s'.promotions = s.promotions) :
    Local c.network c.key i s s' where
  networks := hnetworks
  handlers := hhandlers
  calls := (under_goOn hc hcalls).1
  lives := hlives ▸ Nat.le_refl _
  owner := fun _ _ => by rw [howner]
  holds := fun _ _ => by rw [hholds]
  promotions := fun _ _ hmem => by rw [hpromotions]; exact hmem

omit [DecidableEq N] [DecidableEq K] in
/-- While the call of a network is past its registration, the network has its handler, and no other call gives an
excuse. -/
theorem Agreeing.settled (h : Agreeing s) (hc : Under s i c)
    (hcall : ∀ l role, c ≠ .createRegister c.network c.key l ∧ c ≠ .insert c.network c.key l role ∧
      c ≠ .unregister c.network c.key) :
    (∀ h', s.networks c.network = some h' → ∃ r, s.handlers c.key = some ⟨r, h'.life⟩ ∧
      (h'.role = .coordinator → r = .coordinator) ∧
      (s.holds h'.life = true → r = .coordinator ∨ c.network ∈ s.promotions ∨ Promoting s c.network h')) ∧
    ∀ a, s.handlers c.key = some a → ∃ h', s.networks c.network = some h' ∧ h'.life = a.life := by
  constructor
  · intro h' hn'
    have hkey : c.key = h'.networkKey := (h.same _ h' i c hn' hc).mp rfl
    rw [hkey]
    rcases h.served _ h' hn' with ⟨j, hj⟩ | hserved
    · obtain rfl := h.exclusive j i _ c hj hc (.inl rfl)
      rw [← hkey] at hj
      exact absurd (hc.unique hj) (hcall h'.life .member).1
    · exact hserved
  · intro a ha
    rcases h.origin _ a ha with ⟨n', h', hn', hkey, hlife⟩ | ⟨j, n', hj⟩ | ⟨j, n', role, hj⟩
    · obtain rfl : c.network = n' := (h.same n' h' i c hn' hc).mpr hkey.symm
      exact ⟨h', hn', hlife⟩
    · obtain rfl := h.exclusive j i _ c hj hc (.inr rfl)
      obtain hcj := hc.unique hj
      obtain rfl : c.network = n' := by rw [hcj]; rfl
      exact absurd hcj (hcall 0 .member).2.2
    · obtain rfl := h.exclusive j i _ c hj hc (.inr rfl)
      obtain hcj := hc.unique hj
      obtain rfl : c.network = n' := by rw [hcj]; rfl
      exact absurd hcj (hcall a.life role).2.1

theorem Agreeing.createInsert (h : Agreeing s) (hc : Under s i (.createInsert n k l)) :
    Agreeing (s.advance i (.createInsert n k l)) := by
  obtain ⟨-, hnone, hlt, howner⟩ := h.fits i _ hc
  have hcalls : ∀ d, Under (s.advance i (.createInsert n k l)) i d ↔ some (.createRegister n k l) = some d :=
    (under_goOn hc rfl).2
  have hnet : (s.advance i (.createInsert n k l)).networks n = some ⟨k, .coordinator, l⟩ := Function.update_self ..
  refine h.step_local hc (local_goOn hc rfl (fun n' hn' => Function.update_of_ne hn' _ _) (fun _ _ => rfl) rfl rfl rfl
    rfl) ?_ ?_ ?_
  · intro d hd
    obtain rfl := Option.some.inj ((hcalls d).mp hd)
    exact ⟨rfl, rfl, hnet⟩
  · intro h' hh'
    obtain rfl := Option.some.inj (hnet.symm.trans hh')
    exact ⟨rfl, hlt, howner, .inl ⟨i, (hcalls _).mpr rfl⟩⟩
  · intro a ha
    exact absurd (hnone.symm.trans ha) (by simp)

/-- A coordinator's handler is registered for a running network. -/
theorem Agreeing.registerRunning (h : Agreeing s) {role : NetworkRole} (hc : Under s i c)
    (hnet : s.networks c.network = some ⟨c.key, role, l⟩) :
    Agreeing ((s.registerCoordinatorHandler c.network c.key l).goOn i (some (.refreshAlpns c.network c.key))) := by
  have hcalls : ∀ d, Under ((s.registerCoordinatorHandler c.network c.key l).goOn i
      (some (.refreshAlpns c.network c.key))) i d ↔ some (.refreshAlpns c.network c.key) = some d :=
    (under_goOn hc rfl).2
  have hnet' : ((s.registerCoordinatorHandler c.network c.key l).goOn i
      (some (.refreshAlpns c.network c.key))).networks c.network = some ⟨c.key, .coordinator, l⟩ := by
    show Function.update s.networks c.network _ c.network = _
    rw [Function.update_self, hnet]
    rfl
  have hhand : ((s.registerCoordinatorHandler c.network c.key l).goOn i
      (some (.refreshAlpns c.network c.key))).handlers c.key = some ⟨.coordinator, l⟩ := Function.update_self ..
  obtain ⟨hlt, howner⟩ := h.running _ _ hnet
  refine h.step_local hc (local_goOn hc rfl (fun n' hn' => Function.update_of_ne hn' _ _)
    (fun k' hk' => Function.update_of_ne hk' _ _) rfl rfl rfl rfl) ?_ ?_ ?_
  · intro d hd
    obtain rfl := Option.some.inj ((hcalls d).mp hd)
    exact ⟨rfl, rfl, trivial⟩
  · intro h' hh'
    obtain rfl := Option.some.inj (hnet'.symm.trans hh')
    exact ⟨rfl, hlt, howner, .inr ⟨.coordinator, hhand, fun _ => rfl, fun _ => .inl rfl⟩⟩
  · intro a ha
    obtain rfl := Option.some.inj (hhand.symm.trans ha)
    exact .inl ⟨c.network, _, hnet', rfl, rfl⟩

omit [DecidableEq N] in
/-- A handler is registered for a network that is not entered yet. -/
theorem Agreeing.registerFirst (h : Agreeing s) (hc : Under s i c) (hnone : s.networks c.network = none)
    (hlt : l < s.lives) (howner : s.owner l = some c.network) {r role : NetworkRole}
    (hrole : role = .coordinator → r = .coordinator) (hholds : s.holds l = true → r = .coordinator)
    (hnetworks : s'.networks = s.networks) (hhandlers : s'.handlers = Function.update s.handlers c.key (some ⟨r, l⟩))
    (hcalls : s'.calls = s.calls.set i (some (.insert c.network c.key l role))) (hlives : s'.lives = s.lives)
    (howner' : s'.owner = s.owner) (hholds' : s'.holds = s.holds) (hpromotions : s'.promotions = s.promotions) :
    Agreeing s' := by
  have hunder := (under_goOn hc hcalls).2
  have hhand : s'.handlers c.key = some ⟨r, l⟩ := by rw [hhandlers, Function.update_self]
  have hnet : s'.networks c.network = none := by rw [hnetworks, hnone]
  refine h.step_local hc (local_goOn hc hcalls (fun _ _ => by rw [hnetworks])
    (fun k' hk' => by rw [hhandlers, Function.update_of_ne hk']) hlives howner' hholds' hpromotions) ?_ ?_ ?_
  · intro d hd
    obtain rfl := Option.some.inj ((hunder d).mp hd)
    exact ⟨rfl, rfl, hnet, hlives ▸ hlt, howner' ▸ howner, r, hhand, hrole, hholds' ▸ hholds⟩
  · intro h' hh'
    exact absurd (hnet.symm.trans hh') (by simp)
  · intro a ha
    obtain rfl := Option.some.inj (hhand.symm.trans ha)
    exact .inr (.inr ⟨i, c.network, role, (hunder _).mpr rfl⟩)

/-- Registering a coordinator's handler leaves a table alone that has no entry for the network. -/
theorem networks_registerCoordinatorHandler (k : K) (l : ℕ) (hnone : s.networks n = none) :
    (s.registerCoordinatorHandler n k l).networks = s.networks := by
  show Function.update s.networks n _ = s.networks
  rw [hnone, Option.map_none, ← hnone, Function.update_eq_self]

theorem Agreeing.restoreRegister (h : Agreeing s) (hc : Under s i (.restoreRegister n k l)) :
    Agreeing (s.advance i (.restoreRegister n k l)) := by
  obtain ⟨hnone, -, hlt, howner⟩ := h.fits i _ hc
  exact h.registerFirst hc hnone hlt howner (fun _ => rfl) (fun _ => rfl)
    (networks_registerCoordinatorHandler k l hnone) rfl rfl rfl rfl rfl rfl

theorem Agreeing.joinRegister (h : Agreeing s) (hc : Under s i (.joinRegister n k l)) :
    Agreeing (s.advance i (.joinRegister n k l)) := by
  obtain ⟨hnone, -, hlt, howner⟩ := h.fits i _ hc
  simp only [Manager.advance]
  cases hholds : s.holds l with
  | true =>
    exact h.registerFirst hc hnone hlt howner (r := .coordinator) (fun _ => rfl) (fun _ => rfl)
      (networks_registerCoordinatorHandler k l hnone) rfl rfl rfl rfl rfl rfl
  | false =>
    refine h.registerFirst hc hnone hlt howner (r := .member) (fun heq => ?_) (fun htrue => ?_) rfl rfl rfl rfl rfl
      rfl rfl
    · cases heq
    · rw [hholds] at htrue
      cases htrue

theorem Agreeing.insert (h : Agreeing s) {role : NetworkRole} (hc : Under s i (.insert n k l role)) :
    Agreeing (s.advance i (.insert n k l role)) := by
  obtain ⟨-, hlt, howner, r, hhand, hrole, hholds⟩ := h.fits i _ hc
  have hcalls : ∀ d, Under (s.advance i (.insert n k l role)) i d ↔ some (.refreshAlpns n k) = some d :=
    (under_goOn hc rfl).2
  have hnet : (s.advance i (.insert n k l role)).networks n = some ⟨k, role, l⟩ := Function.update_self ..
  refine h.step_local hc (local_goOn hc rfl (fun n' hn' => Function.update_of_ne hn' _ _) (fun _ _ => rfl) rfl rfl rfl
    rfl) ?_ ?_ ?_
  · intro d hd
    obtain rfl := Option.some.inj ((hcalls d).mp hd)
    exact ⟨rfl, rfl, trivial⟩
  · intro h' hh'
    obtain rfl := Option.some.inj (hnet.symm.trans hh')
    exact ⟨rfl, hlt, howner, .inr ⟨r, hhand, hrole, fun hheld => .inl (hholds hheld)⟩⟩
  · intro a ha
    obtain rfl := Option.some.inj (hhand.symm.trans ha)
    exact .inl ⟨n, _, hnet, rfl, rfl⟩

omit [DecidableEq N] [DecidableEq K] in
/-- A step of a call past its registration changes none of the maps. -/
theorem Agreeing.quiet (h : Agreeing s) (hc : Under s i c) {d : Option (Call N K)}
    (hpast : ∀ l role, c ≠ .createRegister c.network c.key l ∧ c ≠ .insert c.network c.key l role ∧
      c ≠ .unregister c.network c.key)
    (hnetworks : s'.networks = s.networks) (hhandlers : s'.handlers = s.handlers)
    (hcalls : s'.calls = s.calls.set i d) (hlives : s'.lives = s.lives) (howner : s'.owner = s.owner)
    (hholds : s'.holds = s.holds) (hpromotions : s'.promotions = s.promotions)
    (hcall : ∀ d', d = some d' → d'.network = c.network ∧ d'.key = c.key ∧ Fits s' d')
    (hpromoting : ∀ h', s.networks c.network = some h' → Promoting s c.network h' → Promoting s' c.network h') :
    Agreeing s' := by
  obtain ⟨hserved, horigin⟩ := h.settled hc hpast
  have hunder := (under_goOn hc hcalls).2
  refine h.step_local hc (local_goOn hc hcalls (fun _ _ => by rw [hnetworks]) (fun _ _ => by rw [hhandlers]) hlives
    howner hholds hpromotions) ?_ ?_ ?_
  · intro d' hd'
    exact hcall d' ((hunder d').mp hd')
  · intro h' hh'
    rw [hnetworks] at hh'
    obtain ⟨hlt, hown⟩ := h.running _ h' hh'
    have hkey : c.key = h'.networkKey := (h.same _ h' i c hh' hc).mp rfl
    obtain ⟨r, hr, hrole, hheld⟩ := hserved h' hh'
    refine ⟨hkey.symm, hlives ▸ hlt, howner ▸ hown, .inr ⟨r, by rw [hhandlers, ← hkey, hr], hrole, fun hh => ?_⟩⟩
    rw [hholds] at hh
    rcases hheld hh with hcoord | hqueued | hpromote
    · exact .inl hcoord
    · exact .inr (.inl (hpromotions ▸ hqueued))
    · exact .inr (.inr (hpromoting h' hh' hpromote))
  · intro a ha
    rw [hhandlers] at ha
    obtain ⟨h', hh', hlife⟩ := horigin a ha
    exact .inl ⟨c.network, h', by rw [hnetworks, hh'], ((h.same _ h' i c hh' hc).mp rfl).symm, hlife⟩

omit [DecidableEq N] [DecidableEq K] in
/-- The promotion of a network whose only call is no promotion is not under way. -/
theorem Agreeing.not_promoting (h : Agreeing s) (hc : Under s i c)
    (hcall : ∀ l, c ≠ .promoteCtx c.network c.key l ∧ c ≠ .promoteRegister c.network c.key l)
    {h' : NetworkHandle K} : ¬ Promoting s c.network h' := by
  rintro ⟨j, hj | hj⟩
  · obtain rfl := h.exclusive j i _ c hj hc (.inl rfl)
    have hcj := hc.unique hj
    have hkey : c.key = h'.networkKey := by rw [hcj]; rfl
    exact (hcall h'.life).1 (by rw [hkey]; exact hcj)
  · obtain rfl := h.exclusive j i _ c hj hc (.inl rfl)
    have hcj := hc.unique hj
    have hkey : c.key = h'.networkKey := by rw [hcj]; rfl
    exact (hcall h'.life).2 (by rw [hkey]; exact hcj)

theorem Agreeing.promoteCtx (h : Agreeing s) (hc : Under s i (.promoteCtx n k l)) :
    Agreeing (s.advance i (.promoteCtx n k l)) := by
  obtain ⟨role, hnet⟩ := h.fits i _ hc
  have hcalls : (s.advance i (.promoteCtx n k l)).calls = s.calls.set i (some (.promoteRegister n k l)) := by
    show s.calls.set i _ = _
    rw [hnet]
    rfl
  refine h.quiet hc (fun _ _ => by simp) rfl rfl hcalls rfl rfl rfl rfl ?_ ?_
  · intro d hd
    obtain rfl := Option.some.inj hd
    exact ⟨rfl, rfl, role, hnet⟩
  · intro h' hh' _
    obtain rfl := Option.some.inj (hnet.symm.trans hh')
    exact ⟨i, .inr (((under_goOn hc hcalls).2 _).mpr rfl)⟩

theorem Agreeing.unregister (h : Agreeing s) (hc : Under s i (.unregister n k)) :
    Agreeing (s.advance i (.unregister n k)) := by
  have hnone : s.networks n = none := h.fits i _ hc
  have hcalls : ∀ d, Under (s.advance i (.unregister n k)) i d ↔ some (.refreshAlpns n k) = some d :=
    (under_goOn hc rfl).2
  have hhand : (s.advance i (.unregister n k)).handlers k = none := Function.update_self ..
  refine h.step_local hc (local_goOn hc rfl (fun _ _ => rfl) (fun k' hk' => Function.update_of_ne hk' _ _) rfl rfl rfl
    rfl) ?_ ?_ ?_
  · intro d hd
    obtain rfl := Option.some.inj ((hcalls d).mp hd)
    exact ⟨rfl, rfl, trivial⟩
  · intro h' hh'
    exact absurd (hnone.symm.trans hh') (by simp)
  · intro a ha
    exact absurd (hhand.symm.trans ha) (by simp)

/-- **Step lemma** for calls under way. -/
theorem Agreeing.advance (h : Agreeing s) (hc : Under s i c) : Agreeing (s.advance i c) := by
  cases c with
  | createInsert n k l => exact h.createInsert hc
  | createRegister n k l => exact h.registerRunning hc (h.fits i _ hc)
  | restoreRegister n k l => exact h.restoreRegister hc
  | joinRegister n k l => exact h.joinRegister hc
  | insert n k l role => exact h.insert hc
  | promoteCtx n k l => exact h.promoteCtx hc
  | promoteRegister n k l =>
    obtain ⟨role, hnet⟩ := h.fits i _ hc
    exact h.registerRunning hc hnet
  | unregister n k => exact h.unregister hc
  | refreshAlpns n k =>
    refine h.quiet hc (fun _ _ => by simp) rfl rfl rfl rfl rfl rfl rfl ?_ ?_
    · intro d hd
      obtain rfl := Option.some.inj hd
      exact ⟨rfl, rfl, trivial⟩
    · intro h' _ hpromoting
      exact absurd hpromoting (h.not_promoting hc fun _ => by simp)
  | setAlpns n k alpns =>
    refine h.quiet hc (fun _ _ => by simp) rfl rfl rfl rfl rfl rfl rfl ?_ ?_
    · intro d hd
      cases hd
    · intro h' _ hpromoting
      exact absurd hpromoting (h.not_promoting hc fun _ => by simp)

omit [DecidableEq N] [DecidableEq K] in
theorem under_append (hcalls : s'.calls = s.calls ++ [some c]) :
    (∀ j ≠ s.calls.length, ∀ d, Under s' j d ↔ Under s j d) ∧ ∀ d, Under s' s.calls.length d ↔ c = d := by
  constructor
  · intro j hj d
    rw [Under, Under, hcalls]
    rcases Nat.lt_or_gt_of_ne hj with hlt | hgt
    · rw [List.getElem?_append_left hlt]
    · rw [List.getElem?_eq_none (by simp; omega), List.getElem?_eq_none (by omega)]
  · intro d
    rw [Under, hcalls, List.getElem?_concat_length, Option.some.injEq, Option.some.injEq]

omit [DecidableEq N] [DecidableEq K] in
/-- A call is begun, as the frame rule wants it. -/
theorem Agreeing.append (h : Agreeing s) (hlocal : Local c.network c.key s.calls.length s s')
    (hcalls : s'.calls = s.calls ++ [some c]) (hfree : ∀ j d, Under s j d → d.network ≠ c.network ∧ d.key ≠ c.key)
    (hother : ∀ n' h', n' ≠ c.network → s.networks n' = some h' → h'.networkKey ≠ c.key)
    (hmine : ∀ h', s.networks c.network = some h' → h'.networkKey = c.key) (hfits : Fits s' c)
    (hrunning : ∀ h', s'.networks c.network = some h' →
      h'.networkKey = c.key ∧ h'.life < s'.lives ∧ s'.owner h'.life = some c.network ∧ Served s' c.network h')
    (horigin : ∀ a, s'.handlers c.key = some a → Origin s' c.key a) : Agreeing s' := by
  refine h.local hlocal ?_ (fun j d _ => hfree j d) hother hmine ?_ hrunning horigin
  · intro d hd
    exact absurd (List.getElem?_eq_some_iff.mp hd).1 (Nat.lt_irrefl _)
  · intro d hd
    obtain rfl := ((under_append hcalls).2 d).mp hd
    exact ⟨rfl, rfl, hfits⟩

omit [DecidableEq N] in
theorem Agreeing.unused (h : Agreeing s) (hunused : s.unused k = true) {h' : NetworkHandle K}
    (hnet : s.networks n = some h') : h'.networkKey ≠ k := by
  obtain ⟨hlt, howner⟩ := h.running n h' hnet
  have hall := List.all_eq_true.mp hunused h'.life (List.mem_range.mpr hlt)
  simpa [howner, hnet] using hall

theorem Agreeing.begins (h : Agreeing s) (holds : Bool) (hbegins : Begins n k s.lives c) (hnone : s.networks n = none)
    (hfree : s.free n k = true) (hunused : s.unused k = true) : Agreeing (s.begun n holds c) := by
  have hcalls := free_iff.mp hfree
  -- nothing of the key is left: its network does not run, and no call on it is under way
  have hhand : s.handlers k = none := by
    rw [Option.eq_none_iff_forall_ne_some]
    intro a ha
    rcases h.origin k a ha with ⟨n', h', hn', hkey, -⟩ | ⟨j, n', hj⟩ | ⟨j, n', role, hj⟩
    · exact h.unused hunused hn' hkey
    · exact (hcalls j _ hj).2 rfl
    · exact (hcalls j _ hj).2 rfl
  have hon : c.network = n ∧ c.key = k := by
    rcases hbegins with heq | heq | heq <;> rw [heq] <;> exact ⟨rfl, rfl⟩
  obtain ⟨hn, hk⟩ := hon
  refine h.append ?_ rfl ?_ ?_ ?_ ?_ ?_ ?_
  · exact {
      networks := fun _ _ => rfl
      handlers := fun _ _ => rfl
      calls := (under_append rfl).1
      lives := Nat.le_succ _
      owner := fun l hl => Function.update_of_ne (Nat.ne_of_lt hl) _ _
      holds := fun l hl => Function.update_of_ne (Nat.ne_of_lt hl) _ _
      promotions := fun _ _ hmem => hmem }
  · rw [hn, hk]
    exact hcalls
  · intro n' h' _ hn'
    rw [hk]
    exact h.unused hunused hn'
  · rw [hn, hnone]
    intro h' hh'
    cases hh'
  · rcases hbegins with heq | heq | heq <;> rw [heq] <;>
      exact ⟨hnone, hhand, Nat.lt_succ_self _, Function.update_self ..⟩
  · intro h' hh'
    rw [hn] at hh'
    exact absurd (hnone.symm.trans hh') (by simp)
  · intro a ha
    rw [hk] at ha
    exact absurd (hhand.symm.trans ha) (by simp)

theorem Agreeing.leave (h : Agreeing s) {h₀ : NetworkHandle K} (hnet : s.networks n = some h₀)
    (hfree : s.free n h₀.networkKey = true) :
    Agreeing { s with
      networks := Function.update s.networks n none
      calls := s.calls ++ [some (.unregister n h₀.networkKey)] } := by
  refine h.append (c := .unregister n h₀.networkKey) ?_ rfl (free_iff.mp hfree) ?_ ?_ ?_ ?_ ?_
  · exact {
      networks := fun n' hn' => Function.update_of_ne hn' _ _
      handlers := fun _ _ => rfl
      calls := (under_append rfl).1
      lives := Nat.le_refl _
      owner := fun _ _ => rfl
      holds := fun _ _ => rfl
      promotions := fun _ _ hmem => hmem }
  · intro n' h' hne hn' hkey
    exact hne (h.keys n' n h' h₀ hn' hnet hkey)
  · intro h' hh'
    obtain rfl := Option.some.inj (hnet.symm.trans hh')
    rfl
  · exact Function.update_self ..
  · intro h' hh'
    exact absurd ((Function.update_self ..).symm.trans hh') (by simp)
  · intro a _
    exact .inr (.inl ⟨s.calls.length, n, ((under_append rfl).2 _).mpr rfl⟩)

omit [DecidableEq K] in
/-- A promotion with nothing to do is taken. -/
theorem Agreeing.taken (h : Agreeing s) (hrole : ∀ h', s.networks n = some h' → h'.role = .coordinator) :
    Agreeing { s with promotions := s.promotions.erase n } := by
  refine ⟨h.exclusive, h.running, h.keys, h.same, fun i c hc => ?_, fun n' h' hn' => ?_, h.origin⟩
  · have hfits := h.fits i c hc
    cases c <;> exact hfits
  · rcases h.served n' h' hn' with hcreate | ⟨r, hr, hcoord, hheld⟩
    · exact .inl hcreate
    · refine .inr ⟨r, hr, hcoord, fun hh => ?_⟩
      by_cases heq : n' = n
      · subst heq
        exact .inl (hcoord (hrole h' hn'))
      · rcases hheld hh with hrole' | hqueued | hpromoting
        · exact .inl hrole'
        · exact .inr (.inl ((List.mem_erase_of_ne heq).mpr hqueued))
        · exact .inr (.inr hpromoting)

theorem Agreeing.promote (h : Agreeing s) {h₀ : NetworkHandle K} (hnet : s.networks n = some h₀)
    (hfree : s.free n h₀.networkKey = true) :
    Agreeing { s with
      promotions := s.promotions.erase n
      calls := s.calls ++ [some (.promoteCtx n h₀.networkKey h₀.life)] } := by
  have hfree := free_iff.mp hfree
  obtain ⟨hlt, howner⟩ := h.running n h₀ hnet
  refine h.append (c := .promoteCtx n h₀.networkKey h₀.life) ?_ rfl hfree ?_ ?_ ?_ ?_ ?_
  · exact {
      networks := fun _ _ => rfl
      handlers := fun _ _ => rfl
      calls := (under_append rfl).1
      lives := Nat.le_refl _
      owner := fun _ _ => rfl
      holds := fun _ _ => rfl
      promotions := fun n' hn' hmem' => (List.mem_erase_of_ne hn').mpr hmem' }
  · intro n' h' hne hn' hkey
    exact hne (h.keys n' n h' h₀ hn' hnet hkey)
  · intro h' hh'
    obtain rfl := Option.some.inj (hnet.symm.trans hh')
    rfl
  · exact ⟨h₀.role, hnet⟩
  · intro h' hh'
    obtain rfl := Option.some.inj (hnet.symm.trans hh')
    refine ⟨rfl, hlt, howner, ?_⟩
    rcases h.served n _ hnet with ⟨j, hj⟩ | ⟨r, hr, hcoord, -⟩
    · exact absurd rfl (hfree j _ hj).1
    · exact .inr ⟨r, hr, hcoord, fun _ => .inr (.inr ⟨_, .inl (((under_append rfl).2 _).mpr rfl)⟩)⟩
  · intro a ha
    rcases h.origin _ a ha with hrunning | ⟨j, n', hj⟩ | ⟨j, n', role, hj⟩
    · exact .inl hrunning
    · exact absurd rfl (hfree j _ hj).2
    · exact absurd rfl (hfree j _ hj).2

omit [DecidableEq N] [DecidableEq K] in
theorem Agreeing.grant (h : Agreeing s) (howner : s.owner l = some n) (hjoins : s.without (Call.joins l) = true) :
    Agreeing { s with holds := Function.update s.holds l true, promotions := s.promotions ++ [n] } := by
  have hjoins := without_iff.mp hjoins
  refine ⟨h.exclusive, h.running, h.keys, h.same, fun i c hc => ?_, fun n' h' hn' => ?_, h.origin⟩
  · have hfits := h.fits i c hc
    cases c with
    | insert n' k' l' role =>
      obtain ⟨h1, hlt, hown, r, hr, hcoord, hheld⟩ := hfits
      refine ⟨h1, hlt, hown, r, hr, hcoord, fun hh => ?_⟩
      cases role with
      | coordinator => exact hcoord rfl
      | member =>
        -- the join of another life
        have hne : l' ≠ l := by simpa [Call.joins] using hjoins i _ hc
        replace hh : Function.update s.holds l true l' = true := hh
        rw [Function.update_of_ne hne] at hh
        exact hheld hh
    | _ => exact hfits
  · rcases h.served n' h' hn' with hcreate | ⟨r, hr, hcoord, hheld⟩
    · exact .inl hcreate
    · refine .inr ⟨r, hr, hcoord, fun hh => ?_⟩
      by_cases heq : h'.life = l
      · have hsame : n = n' := by
          have hown := (h.running n' h' hn').2
          rw [heq, howner] at hown
          exact Option.some.inj hown
        exact .inr (.inl (List.mem_append_right _ (by simp [hsame])))
      · replace hh : Function.update s.holds l true h'.life = true := hh
        rw [Function.update_of_ne heq] at hh
        rcases hheld hh with hrole' | hqueued | hpromoting
        · exact .inl hrole'
        · exact .inr (.inl (List.mem_append_left _ hqueued))
        · exact .inr (.inr hpromoting)

/-- **Step lemma.** -/
theorem Agreeing.step (h : Agreeing s) (hmoves : Moves s s') : Agreeing s' := by
  cases hmoves with
  | begins holds hbegins hnone hfree hunused => exact h.begins holds hbegins hnone hfree hunused
  | leave hnet hfree => exact h.leave hnet hfree
  | promote hnet hfree => exact h.promote hnet hfree
  | taken hrole => exact h.taken hrole
  | grant howner hjoins => exact h.grant howner hjoins
  | refused => exact h
  | advance hc alone => exact h.advance hc

end Calls

/-! ### The list of the endpoint -/

/-- No call on the key is under way that could still change its handler. -/
def Clean (s : Manager N K) (k : K) : Prop := ∀ i c, Under s i c → c.key = k → c.isSetAlpns = true

/-- The list about to be offered, or the one offered if none is, has every key right that is clean; not so the list of
the boot. -/
structure Offering (s : Manager N K) : Prop where
  one : ∀ i j c d, Under s i c → Under s j d → c.isSetAlpns = true → d.isSetAlpns = true → i = j
  pending : ∀ i n k alpns, Under s i (.setAlpns n k alpns) → ∀ k', Clean s k' → alpns k' = (s.handlers k').isSome
  shown : 0 < s.refreshes → (∀ i c, Under s i c → c.isSetAlpns = false) →
    ∀ k', Clean s k' → s.offered k' = (s.handlers k').isSome

section Offer

variable {s s' : Manager N K} {n : N} {k : K} {i : ℕ} {c : Call N K}

omit [DecidableEq N] in
theorem offering_new (saved : List K) : Offering (Manager.new saved : Manager N K) := by
  refine ⟨?_, ?_, ?_⟩
  · intro i j c d hc
    simp [Under, Manager.new] at hc
  · intro i n k alpns hc
    simp [Under, Manager.new] at hc
  · intro hrefreshed
    exact absurd hrefreshed (Nat.lt_irrefl 0)

omit [DecidableEq N] [DecidableEq K] in
/-- A step on a key that leaves a call on it to refresh the list. -/
theorem Offering.dirty (h : Offering s) {d : Call N K} (hhandlers : ∀ k' ≠ k, s'.handlers k' = s.handlers k')
    (hcalls : ∀ j ≠ i, ∀ e, Under s' j e ↔ Under s j e) (hoffered : s'.offered = s.offered)
    (hrefreshes : s'.refreshes = s.refreshes)
    (hbefore : ∀ e, Under s i e → e.key = k ∧ e.isSetAlpns = false)
    (hafter : ∀ e, Under s' i e ↔ d = e) (hkey : d.key = k) (hset : d.isSetAlpns = false) : Offering s' := by
  have hd : Under s' i d := (hafter d).mpr rfl
  have hclean : ∀ k', Clean s' k' → k' ≠ k ∧ Clean s k' := by
    intro k' hk'
    have hne : k' ≠ k := by
      rintro rfl
      exact Bool.false_ne_true (hset.symm.trans (hk' i d hd hkey))
    refine ⟨hne, fun j e he hek => ?_⟩
    by_cases hj : j = i
    · subst hj
      exact absurd (hek.symm.trans (hbefore e he).1) hne
    · exact hk' j e ((hcalls j hj e).mpr he) hek
  have hsets : ∀ j e, Under s' j e → e.isSetAlpns = true → Under s j e := by
    intro j e he hset'
    by_cases hj : j = i
    · subst hj
      obtain rfl := (hafter e).mp he
      exact absurd (hset.symm.trans hset') Bool.false_ne_true
    · exact (hcalls j hj e).mp he
  refine ⟨?_, ?_, ?_⟩
  · intro j₁ j₂ c₁ c₂ h₁ h₂ hset₁ hset₂
    exact h.one j₁ j₂ c₁ c₂ (hsets _ _ h₁ hset₁) (hsets _ _ h₂ hset₂) hset₁ hset₂
  · intro j n' k₀ alpns hj k' hk'
    obtain ⟨hne, hk⟩ := hclean k' hk'
    rw [hhandlers k' hne]
    exact h.pending j n' k₀ alpns (hsets _ _ hj rfl) k' hk
  · intro hrefreshed hnone k' hk'
    obtain ⟨hne, hk⟩ := hclean k' hk'
    rw [hhandlers k' hne, hoffered]
    refine h.shown (hrefreshes ▸ hrefreshed) (fun j e he => ?_) k' hk
    by_cases hj : j = i
    · subst hj
      exact (hbefore e he).2
    · exact hnone j e ((hcalls j hj e).mpr he)

/-- A call on a key that is not yet listing handlers stays on it. -/
theorem advance_dirty (i : ℕ) (hfits : Fits s c) (hrefresh : ∀ n k, c ≠ .refreshAlpns n k)
    (hset : c.isSetAlpns = false) :
    ∃ d, (s.advance i c).calls = s.calls.set i (some d) ∧ d.key = c.key ∧ d.isSetAlpns = false ∧
      (∀ k' ≠ c.key, (s.advance i c).handlers k' = s.handlers k') ∧ (s.advance i c).offered = s.offered ∧
      (s.advance i c).refreshes = s.refreshes := by
  cases c with
  | createInsert n k l => exact ⟨.createRegister n k l, rfl, rfl, rfl, fun _ _ => rfl, rfl, rfl⟩
  | createRegister n k l =>
    exact ⟨.refreshAlpns n k, rfl, rfl, rfl, fun k' hk' => Function.update_of_ne hk' _ _, rfl, rfl⟩
  | restoreRegister n k l =>
    exact ⟨.insert n k l .coordinator, rfl, rfl, rfl, fun k' hk' => Function.update_of_ne hk' _ _, rfl, rfl⟩
  | joinRegister n k l =>
    refine ⟨.insert n k l .member, ?_⟩
    simp only [Manager.advance]
    cases s.holds l with
    | true => exact ⟨rfl, rfl, rfl, fun k' hk' => Function.update_of_ne hk' _ _, rfl, rfl⟩
    | false => exact ⟨rfl, rfl, rfl, fun k' hk' => Function.update_of_ne hk' _ _, rfl, rfl⟩
  | insert n k l role => exact ⟨.refreshAlpns n k, rfl, rfl, rfl, fun _ _ => rfl, rfl, rfl⟩
  | promoteCtx n k l =>
    obtain ⟨role, hnet⟩ := hfits
    refine ⟨.promoteRegister n k l, ?_, rfl, rfl, fun _ _ => rfl, rfl, rfl⟩
    show s.calls.set i _ = _
    rw [hnet]
    rfl
  | promoteRegister n k l =>
    exact ⟨.refreshAlpns n k, rfl, rfl, rfl, fun k' hk' => Function.update_of_ne hk' _ _, rfl, rfl⟩
  | unregister n k =>
    exact ⟨.refreshAlpns n k, rfl, rfl, rfl, fun k' hk' => Function.update_of_ne hk' _ _, rfl, rfl⟩
  | refreshAlpns n k => exact absurd rfl (hrefresh n k)
  | setAlpns n k alpns => cases hset

/-- The handlers are listed, while no other list is about to be offered. -/
theorem offering_refresh (hc : Under s i (.refreshAlpns n k))
    (halone : s.without Call.isSetAlpns = true) : Offering (s.advance i (.refreshAlpns n k)) := by
  have halone := without_iff.mp halone
  obtain ⟨hothers, hmine⟩ : (∀ j ≠ i, ∀ e, Under (s.advance i (.refreshAlpns n k)) j e ↔ Under s j e) ∧
      ∀ e, Under (s.advance i (.refreshAlpns n k)) i e ↔ _ = some e := under_goOn hc rfl
  have honly : ∀ j e, Under (s.advance i (.refreshAlpns n k)) j e → e.isSetAlpns = true → j = i := by
    intro j e he hset
    by_contra hj
    exact Bool.false_ne_true ((halone j e ((hothers j hj e).mp he)).symm.trans hset)
  refine ⟨?_, ?_, ?_⟩
  · intro j₁ j₂ c₁ c₂ h₁ h₂ hset₁ hset₂
    rw [honly j₁ c₁ h₁ hset₁, honly j₂ c₂ h₂ hset₂]
  · intro j n' k₀ alpns hj k' _
    obtain rfl := honly j _ hj rfl
    cases Option.some.inj ((hmine _).mp hj)
    rfl
  · intro _ hnone
    exact absurd (hnone i _ ((hmine _).mpr rfl)) (by simp [Call.isSetAlpns])

/-- The list is offered. -/
theorem Offering.set (h : Offering s) {alpns : K → Bool} (hc : Under s i (.setAlpns n k alpns)) :
    Offering (s.advance i (.setAlpns n k alpns)) := by
  obtain ⟨hothers, hmine⟩ : (∀ j ≠ i, ∀ e, Under (s.advance i (.setAlpns n k alpns)) j e ↔ Under s j e) ∧
      ∀ e, Under (s.advance i (.setAlpns n k alpns)) i e ↔ none = some e := under_goOn hc rfl
  have hbefore : ∀ j e, Under (s.advance i (.setAlpns n k alpns)) j e → j ≠ i ∧ Under s j e := by
    intro j e he
    have hj : j ≠ i := by
      rintro rfl
      cases (hmine e).mp he
    exact ⟨hj, (hothers j hj e).mp he⟩
  have hnone : ∀ j e, Under (s.advance i (.setAlpns n k alpns)) j e → e.isSetAlpns = true → False := by
    intro j e he hset
    obtain ⟨hj, he⟩ := hbefore j e he
    exact hj (h.one j i e _ he hc hset rfl)
  refine ⟨?_, ?_, ?_⟩
  · intro j₁ j₂ c₁ c₂ h₁ _ hset₁
    exact absurd (hnone j₁ c₁ h₁ hset₁) not_false
  · intro j n' k₀ alpns' hj
    exact absurd (hnone j _ hj rfl) not_false
  · intro _ _ k' hk'
    refine h.pending i n k alpns hc k' fun j e he hek => ?_
    by_cases hj : j = i
    · subst hj
      obtain rfl := hc.unique he
      rfl
    · exact hk' j e ((hothers j hj e).mpr he) hek

omit [DecidableEq N] [DecidableEq K] in
theorem Offering.aside (h : Offering s) (hcalls : s'.calls = s.calls) (hhandlers : s'.handlers = s.handlers)
    (hoffered : s'.offered = s.offered) (hrefreshes : s'.refreshes = s.refreshes) : Offering s' := by
  have hunder : ∀ j e, Under s' j e ↔ Under s j e := fun j e => by rw [Under, Under, hcalls]
  have hclean : ∀ k, Clean s' k ↔ Clean s k := fun k => by simp only [Clean, hunder]
  refine ⟨?_, ?_, ?_⟩
  · simp only [hunder]
    exact h.one
  · simp only [hunder, hclean, hhandlers]
    exact h.pending
  · simp only [hunder, hclean, hhandlers, hoffered, hrefreshes]
    exact h.shown

omit [DecidableEq N] [DecidableEq K] in
theorem Offering.append (h : Offering s) (hcalls : s'.calls = s.calls ++ [some c]) (hset : c.isSetAlpns = false)
    (hhandlers : s'.handlers = s.handlers) (hoffered : s'.offered = s.offered)
    (hrefreshes : s'.refreshes = s.refreshes) : Offering s' := by
  obtain ⟨hothers, hmine⟩ := under_append hcalls
  refine h.dirty (k := c.key) (fun _ _ => by rw [hhandlers]) hothers hoffered hrefreshes (fun e he => ?_) hmine rfl hset
  exact absurd (List.getElem?_eq_some_iff.mp he).1 (Nat.lt_irrefl _)

theorem Offering.advance (h : Offering s) (hc : Under s i c) (hfits : Fits s c)
    (halone : ∀ n k, c = .refreshAlpns n k → s.without Call.isSetAlpns = true) : Offering (s.advance i c) := by
  by_cases hset : c.isSetAlpns = true
  · cases c with
    | setAlpns n k alpns => exact h.set hc
    | _ => cases hset
  · by_cases hrefresh : ∃ n k, c = .refreshAlpns n k
    · obtain ⟨n, k, rfl⟩ := hrefresh
      exact offering_refresh hc (halone n k rfl)
    · have hset := Bool.not_eq_true _ ▸ hset
      obtain ⟨d, hcalls, hkey, hdset, hhandlers, hoffered, hrefreshes⟩ :=
        advance_dirty i hfits (fun n k heq => hrefresh ⟨n, k, heq⟩) hset
      obtain ⟨hothers, hmine⟩ := under_goOn hc hcalls
      refine h.dirty hhandlers hothers hoffered hrefreshes (fun e he => ?_) (fun e => ?_) hkey hdset
      · obtain rfl := hc.unique he
        exact ⟨rfl, hset⟩
      · rw [hmine, Option.some.injEq]

theorem Offering.step (h : Offering s) (hagreeing : Agreeing s) (hmoves : Moves s s') : Offering s' := by
  cases hmoves with
  | begins holds hbegins _ _ _ =>
    refine h.append rfl ?_ rfl rfl rfl
    rcases hbegins with rfl | rfl | rfl <;> rfl
  | leave _ _ => exact h.append rfl rfl rfl rfl rfl
  | promote _ _ => exact h.append rfl rfl rfl rfl rfl
  | taken _ => exact h.aside rfl rfl rfl rfl
  | grant _ _ => exact h.aside rfl rfl rfl rfl
  | refused => exact h
  | advance hc alone => exact h.advance hc (hagreeing.fits _ _ hc) alone

/-- Before the first refresh, the saved networks are offered, and whoever has registered a handler is still at it. -/
structure Booting (saved : List K) (s : Manager N K) : Prop where
  offered : s.refreshes = 0 → ∀ k, s.offered k = decide (k ∈ saved)
  under : s.refreshes = 0 → ∀ k a, s.handlers k = some a → ∃ i c, Under s i c ∧ c.key = k

variable {saved : List K}

omit [DecidableEq N] in
theorem booting_new (saved : List K) : Booting saved (Manager.new saved : Manager N K) :=
  ⟨fun _ _ => rfl, fun _ _ _ ha => (by cases ha)⟩

omit [DecidableEq N] in
/-- A call goes on with its key, or one begins. -/
theorem Booting.goOn (h : Booting saved s) {d : Call N K} (hat : ∀ c, Under s i c → c.key = d.key) (hd : Under s' i d)
    (hcalls : ∀ j ≠ i, ∀ e, Under s' j e ↔ Under s j e) (hhandlers : ∀ k' ≠ d.key, s'.handlers k' = s.handlers k')
    (hoffered : s'.offered = s.offered) (hrefreshes : s'.refreshes = s.refreshes) : Booting saved s' := by
  constructor
  · rw [hrefreshes, hoffered]
    exact h.offered
  · rw [hrefreshes]
    intro hboot k' a ha
    by_cases hk : k' = d.key
    · exact ⟨i, d, hd, hk.symm⟩
    · rw [hhandlers k' hk] at ha
      obtain ⟨j, e, he, hek⟩ := h.under hboot k' a ha
      have hj : j ≠ i := by
        rintro rfl
        exact hk (hek.symm.trans (hat e he))
      exact ⟨j, e, (hcalls j hj e).mpr he, hek⟩

omit [DecidableEq N] in
theorem Booting.append (h : Booting saved s) (hcalls : s'.calls = s.calls ++ [some c])
    (hhandlers : s'.handlers = s.handlers) (hoffered : s'.offered = s.offered)
    (hrefreshes : s'.refreshes = s.refreshes) : Booting saved s' := by
  obtain ⟨hothers, hmine⟩ := under_append hcalls
  refine h.goOn (fun e he => ?_) ((hmine c).mpr rfl) hothers (fun _ _ => by rw [hhandlers]) hoffered hrefreshes
  exact absurd (List.getElem?_eq_some_iff.mp he).1 (Nat.lt_irrefl _)

theorem Booting.advance (h : Booting saved s) (hc : Under s i c) (hfits : Fits s c) :
    Booting saved (s.advance i c) := by
  have hat : ∀ e, Under s i e → e.key = c.key := fun e he => by rw [hc.unique he]
  by_cases hset : c.isSetAlpns = true
  · cases c with
    | setAlpns n k alpns => exact ⟨fun hboot => absurd hboot (Nat.succ_ne_zero _), fun hboot =>
      absurd hboot (Nat.succ_ne_zero _)⟩
    | _ => cases hset
  · by_cases hrefresh : ∃ n k, c = .refreshAlpns n k
    · obtain ⟨n, k, rfl⟩ := hrefresh
      have hcalls : (s.advance i (.refreshAlpns n k)).calls =
          s.calls.set i (some (.setAlpns n k fun k => (s.handlers k).isSome)) := rfl
      obtain ⟨hothers, hmine⟩ := under_goOn hc hcalls
      refine h.goOn ?_ ((hmine _).mpr rfl) hothers (fun _ _ => rfl) rfl rfl
      exact hat
    · obtain ⟨d, hcalls, hkey, -, hhandlers, hoffered, hrefreshes⟩ :=
        advance_dirty i hfits (fun n k heq => hrefresh ⟨n, k, heq⟩) (Bool.not_eq_true _ ▸ hset)
      obtain ⟨hothers, hmine⟩ := under_goOn hc hcalls
      exact h.goOn (hkey ▸ hat) ((hmine d).mpr rfl) hothers (hkey ▸ hhandlers) hoffered hrefreshes

theorem Booting.step (h : Booting saved s) (hagreeing : Agreeing s) (hmoves : Moves s s') : Booting saved s' := by
  cases hmoves with
  | begins holds hbegins _ _ _ => exact h.append rfl rfl rfl rfl
  | leave _ _ => exact h.append rfl rfl rfl rfl
  | promote _ _ => exact h.append rfl rfl rfl rfl
  | taken _ => exact ⟨h.offered, h.under⟩
  | grant _ _ => exact ⟨h.offered, h.under⟩
  | refused => exact h
  | advance hc alone => exact h.advance hc (hagreeing.fits _ _ hc)

end Offer

/-! ### Where a run comes to rest -/

/-- No call is under way, and no promotion is waiting. -/
def Manager.idle (s : Manager N K) : Bool := (s.without fun _ => true) && s.promotions.isEmpty

/-- **At rest**, every running network has the handler of its life, a coordinator's if the node coordinates the network
or holds its key; every handler is that of a running network; and the endpoint offers what is registered, once its list
has been refreshed. Before that, nothing is registered, and the saved networks are offered. -/
theorem router_settles {saved : List K} {events : List (Event N K)} {s : Manager N K}
    (hrun : Run (fun s e s' => s.next e = some s') (fun s e => serial s e = true) (Manager.new saved) events s)
    (hidle : s.idle = true) :
    (∀ n h, s.networks n = some h → ∃ role, s.handlers h.networkKey = some ⟨role, h.life⟩ ∧
      (h.role = .coordinator ∨ s.holds h.life = true → role = .coordinator)) ∧
    (∀ k a, s.handlers k = some a → ∃ n h, s.networks n = some h ∧ h.networkKey = k ∧ h.life = a.life) ∧
    (0 < s.refreshes → ∀ k, s.offered k = (s.handlers k).isSome) ∧
    (s.refreshes = 0 → ∀ k, s.handlers k = none ∧ s.offered k = decide (k ∈ saved)) := by
  obtain ⟨hagreeing, hoffering, hbooting⟩ :=
    hrun.invariant (I := fun _ s => Agreeing s ∧ Offering s ∧ Booting saved s)
      ⟨agreeing_new saved, offering_new saved, booting_new saved⟩
      fun _ _ _ _ ⟨hagreeing, hoffering, hbooting⟩ hserial hnext =>
        have hmoves := moves_of_next hserial hnext
        ⟨hagreeing.step hmoves, hoffering.step hagreeing hmoves, hbooting.step hagreeing hmoves⟩
  obtain ⟨hwithout, hempty⟩ := Bool.and_eq_true_iff.mp hidle
  have hcalls : ∀ i c, ¬ Under s i c := fun i c hc => absurd (without_iff.mp hwithout i c hc) (by simp)
  refine ⟨?_, ?_, ?_, ?_⟩
  · intro n h hn
    rcases hagreeing.served n h hn with ⟨i, hi⟩ | ⟨role, hrole, hcoord, hheld⟩
    · exact absurd hi (hcalls _ _)
    · refine ⟨role, hrole, ?_⟩
      rintro (hr | hh)
      · exact hcoord hr
      · rcases hheld hh with hr | hqueued | ⟨i, hi | hi⟩
        · exact hr
        · rw [List.isEmpty_iff.mp hempty] at hqueued
          cases hqueued
        · exact absurd hi (hcalls _ _)
        · exact absurd hi (hcalls _ _)
  · intro k a ha
    rcases hagreeing.origin k a ha with hrunning | ⟨i, n, hi⟩ | ⟨i, n, role, hi⟩
    · exact hrunning
    · exact absurd hi (hcalls _ _)
    · exact absurd hi (hcalls _ _)
  · intro hrefreshed k
    exact hoffering.shown hrefreshed (fun i c hc => absurd hc (hcalls i c)) k fun i c hc => absurd hc (hcalls i c)
  · intro hboot k
    refine ⟨Option.eq_none_iff_forall_ne_some.mpr fun a ha => ?_, hbooting.offered hboot k⟩
    obtain ⟨i, c, hc, -⟩ := hbooting.under hboot k a ha
    exact hcalls i c hc

/-- One network is created while another is joined; the key of the joined one is granted, and the member promoted. A
third network is saved and not restored. -/
theorem router_settles_promoted :
    ∃ s : Manager ℕ ℕ, Run (fun s e s' => s.next e = some s') (fun s e => serial s e = true) (Manager.new [12])
        [.create 0 10, .join 1 11, .step 0, .step 1, .step 0, .step 1, .grant 1, .step 0, .step 0, .step 1, .step 1,
          .promote 1, .step 2, .step 2, .step 2, .step 2] s ∧
      s.handlers 11 = some ⟨.coordinator, 1⟩ ∧ ∀ k, s.offered k = (s.handlers k).isSome := by
  refine Run.exists_of_exec_imp
    (fun s => s.idle = true ∧ s.handlers 11 = some ⟨.coordinator, 1⟩ ∧ 0 < s.refreshes) (by decide +kernel)
    fun s hrun ⟨hidle, hhand, hrefreshed⟩ => ?_
  exact ⟨hhand, (router_settles hrun hidle).2.2.1 hrefreshed⟩

/-! ### Runs that break a rule -/

/-- A network is created again while it is still being left: the new life loses its handler. -/
example : (Run.exec Manager.next (fun _ _ => True) (Manager.new [] : Manager ℕ ℕ)
    [.create 0 10, .step 0, .step 0, .step 0, .step 0, .leave 0, .create 0 10, .step 2, .step 2, .step 2, .step 2,
      .step 1, .step 1, .step 1]).any
      (fun s => s.idle && (s.networks 0).isSome && (s.handlers 10).isNone) = true := by decide +kernel

/-- A network is left during its promotion: the handler of a life that is over stays, and its protocol is offered. -/
example : (Run.exec Manager.next (fun _ _ => True) (Manager.new [] : Manager ℕ ℕ)
    [.join 0 10, .step 0, .step 0, .step 0, .step 0, .grant 0, .promote 0, .step 1, .leave 0, .step 2, .step 2,
      .step 2, .step 1, .step 1, .step 1]).any
      (fun s => s.idle && (s.networks 0).isNone && (s.handlers 10).isSome && s.offered 10) = true := by decide +kernel

/-- A network is joined under a second name, which is then left: the first one loses its handler. -/
example : (Run.exec Manager.next (fun _ _ => True) (Manager.new [] : Manager ℕ ℕ)
    [.join 0 10, .step 0, .step 0, .step 0, .step 0, .join 1 10, .step 1, .step 1, .step 1, .step 1, .leave 1, .step 2,
      .step 2, .step 2]).any
      (fun s => s.idle && (s.networks 0).isSome && (s.handlers 10).isNone) = true := by decide +kernel

/-- Two calls refresh the list at the same time: the older list is offered last. -/
example : (Run.exec Manager.next (fun _ _ => True) (Manager.new [] : Manager ℕ ℕ)
    [.create 0 10, .step 0, .step 0, .step 0, .create 1 11, .step 1, .step 1, .step 1, .step 1, .step 0]).any
      (fun s => s.idle && (s.handlers 11).isSome && !s.offered 11) = true := by decide +kernel

/-- The key arrives before the joined network is entered: its promotion finds no network, and a holder of the key goes
on answering as a member. -/
example : (Run.exec Manager.next (fun _ _ => True) (Manager.new [] : Manager ℕ ℕ)
    [.join 0 10, .step 0, .grant 0, .promote 0, .step 0, .step 0, .step 0]).any
      (fun s => s.idle && s.holds 0 && s.handlers 10 == some ⟨.member, 0⟩) = true := by decide +kernel

end Tetron.Daemon.AcceptRouter
