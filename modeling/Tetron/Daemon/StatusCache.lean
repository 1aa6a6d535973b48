import Tetron.Lib.Run
import Tetron.Lib.Table

/-!
# The status cache

Answering `tetron status` walks every peer of every network, so `network_statuses_cached` keeps the last list it
built and serves it while it is younger than `status-cache.interval`. Any number of calls run at once: each looks at
the cell under the read lock, and on a miss builds the list and stores it under the write lock. Networks change at any
moment, and `clear_status_cache` may empty the cell between any two steps.

A build does not see one state of the daemon. It loads the names of the direct networks, goes over all networks for
their subnets, once more for their keys, and then once more for the statuses, and of a status it reads the handle, the
roster, the peers, each connection, the interface and the activity one after the other. So what holds of an answer
holds of each of its readings (`Reading`) for itself:

* `answers_recent`: every reading was true when it was taken, less than the interval and the longest build before the
  look-up, no status lacks a part, and a network that was there all that time is listed;
* `answers_after_clear`: once the cell is cleared while no build holds an older reading, no answer goes back behind
  the clearing;
* `rebuilds_le`: as long as no call looks the cell up during a build, the number of builds is bounded by the time
  passed and the clearings, however many calls there are.
-/

namespace Tetron.Daemon.StatusCache

variable {S : Type}

/-- `STATUS_CACHE_INTERVAL_SECS`. -/
def statusCacheIntervalSecs : ℕ := 12

/-- A number of seconds, in the nanoseconds an `Instant` counts. -/
def fromSecs (secs : ℕ) : ℕ := secs * 1000000000

/-- `status_cache_interval`, from the configured number of seconds (`none` also when the configuration cannot be
loaded). Zero is unset. -/
def statusCacheInterval (configured : Option ℕ) : ℕ :=
  fromSecs ((configured.filter fun s => 0 < s).getD statusCacheIntervalSecs)

def statusSnapshotIsStale (age : Option ℕ) (interval : ℕ) : Bool :=
  match age with
  | none => true
  | some a => interval ≤ a

/-! ### What a build reads -/

/-- What is read of the configuration: which networks are direct, and for how long a nuke proposal counts. -/
inductive Setting
  | directNames
  | nukeProposalTtl
deriving DecidableEq

/-- What is read of a network. `handle` is the fields of its `NetworkHandle` itself (role, address and key), `subnet`
and `roster` are taken from its state, and `connection` is what `gather_conn_info` finds out about a member. -/
inductive Part
  | subnet
  | networkKey
  | handle
  | roster
  | peers
  | connection (member : String)
  | tunName
  | active
deriving DecidableEq

inductive Cell
  | setting (s : Setting)
  | part (network : String) (p : Part)
deriving DecidableEq

def Cell.network : Cell → Option String
  | .setting _ => none
  | .part network _ => some network

/-- The time of a reading is not kept by the source. -/
structure Reading (S : Type) where
  cell : Cell
  value : S
  readAt : ℕ
deriving DecidableEq

/-- The iterations of `build_network_statuses` over the networks, in their order. -/
inductive Pass
  | subnets
  | networkKeys
  | statuses
deriving DecidableEq

def Pass.next : Pass → Option Pass
  | subnets => some networkKeys
  | networkKeys => some statuses
  | statuses => none

/-- What an iteration reads when it comes to a network with these members connected; the last is `network_status`. -/
def Pass.cells (network : String) (members : List String) : Pass → List Cell
  | subnets => [.part network .subnet]
  | networkKeys => [.part network .networkKey]
  | statuses => [.part network .handle, .part network .roster, .setting .nukeProposalTtl, .part network .peers] ++
      members.map (fun member => .part network (.connection member)) ++ [.part network .tunName, .part network .active]

/-- The list that `build_network_statuses` makes: the networks it has come to, all that it has read for them, and the
time it began at, which the source does not keep. -/
structure Statuses (S : Type) where
  walkFrom : ℕ
  networks : List String
  readings : List (Reading S)
deriving DecidableEq

/-- A build under way: the iteration it is in, the networks this cannot miss, and what it reads next. Until the last
iteration `networks` are those the current one has come to. -/
structure Build (S : Type) extends Statuses S where
  pass : Pass
  due : List String
  pending : List Cell
deriving DecidableEq

structure StatusSnapshot (S : Type) where
  statuses : Statuses S
  builtAt : ℕ

/-- Where a call of `network_statuses_cached` is. -/
inductive Phase (S : Type) where
  | started
  | building (b : Build S)
  | answered (lookedUp : ℕ) (statuses : Statuses S)
deriving DecidableEq

structure Call (S : Type) where
  interval : ℕ
  phase : Phase S
deriving DecidableEq

/-! ### The daemon -/

/-- What there is to read at one moment. -/
structure Content (S : Type) where
  settings : Setting → S
  networks : HashTable String (Part → S)

def Content.read (c : Content S) : Cell → Option S
  | .setting s => some (c.settings s)
  | .part network p => (c.networks.get? network).map (· p)

inductive Mutation (S : Type) where
  | config (settings : Setting → S)
  | start (network : String) (parts : Part → S)
  | leave (network : String)
  | set (network : String) (p : Part) (value : S)

def Content.change (c : Content S) : Mutation S → Content S
  | .config settings => { c with settings }
  | .start network parts => { c with networks := c.networks.insert network parts }
  | .leave network => { c with networks := c.networks.erase network }
  | .set network p value =>
    match c.networks.get? network with
    | some parts => { c with networks := c.networks.insert network (Function.update parts p value) }
    | none => c

/-- The network whose entry in the table is written. -/
def Mutation.entry : Mutation S → Option String
  | .start network _ | .leave network | .set network .handle _ => some network
  | _ => none

/-- The clock and what there is to read. The last two fields record the past: since when each network is there, and
every content with the time it came at. -/
structure World (S : Type) where
  now : ℕ
  content : Content S
  since : HashTable String ℕ
  past : List (ℕ × Content S)

def World.change (w : World S) (μ : Mutation S) : World S :=
  { w with
    content := w.content.change μ
    since := match μ with
      | .start network _ => w.since.insert network w.now
      | .leave network => w.since.erase network
      | _ => w.since
    past := w.past ++ [(w.now, w.content.change μ)] }

/-- The cell with all calls on it, and how often it was filled and cleared. -/
structure Manager (S : Type) where
  world : World S
  statusSnapshot : Option (StatusSnapshot S)
  calls : List (Call S)
  rebuilds : ℕ
  clears : ℕ

def Manager.new (now : ℕ) (settings : Setting → S) : Manager S :=
  ⟨⟨now, ⟨settings, ∅⟩, ∅, [(now, ⟨settings, ∅⟩)]⟩, none, [], 0, 0⟩

/-- A build reads the next cell, its iteration comes to a network, which may be gone by then, or it goes on to the
next iteration. -/
inductive BuildStep
  | read
  | visit (network : String) (members : List String)
  | nextPass

inductive Event (S : Type) where
  | tick (elapsed : ℕ)
  | change (μ : Mutation S)
  /-- `clear_status_cache`. -/
  | clear
  | call (configured : Option ℕ)
  /-- The look at the cell under its read lock. -/
  | lookup (i : ℕ)
  | build (i : ℕ) (s : BuildStep)
  /-- The build is over and the list is stored under the write lock. -/
  | store (i : ℕ)

/-- `build_network_statuses` begins: the configuration is loaded before the first iteration. -/
def Build.new (w : World S) : Build S := ⟨⟨w.now, [], []⟩, .subnets, w.content.networks.keys, [.setting .directNames]⟩

def Build.advance (b : Build S) (w : World S) : BuildStep → Option (Build S)
  | .read =>
    match b.pending with
    | [] => none
    | cell :: pending => (w.content.read cell).map fun value =>
      { b with pending, readings := b.readings ++ [⟨cell, value, w.now⟩] }
  | .visit network members =>
    if b.pending ≠ [] ∨ network ∈ b.networks then none
    else
      let due := b.due.filter (· ≠ network)
      match w.content.networks.get? network with
      | some _ => some { b with
          due, networks := b.networks ++ [network], pending := b.pass.cells network members }
      | none => some { b with due }
  | .nextPass =>
    if b.pending ≠ [] ∨ b.due ≠ [] then none
    else b.pass.next.map fun pass => { b with pass, due := w.content.networks.keys, networks := [] }

namespace Manager

def setPhase (m : Manager S) (i interval : ℕ) (phase : Phase S) : Manager S :=
  { m with calls := m.calls.set i ⟨interval, phase⟩ }

/-- The list in the cell, if it is young enough for a call with this interval. -/
def cached (m : Manager S) (interval : ℕ) : Option (Statuses S) :=
  (m.statusSnapshot.filter fun s => !statusSnapshotIsStale (some (m.world.now - s.builtAt)) interval).map
    (·.statuses)

/-- A build is at this network and holds the guard of its entry in the table. -/
def held (m : Manager S) (network : String) : Bool :=
  m.calls.any fun c =>
    match c.phase with
    | .building b => b.pending.any fun cell => cell.network = some network
    | _ => false

def next (m : Manager S) : Event S → Option (Manager S)
  | .tick elapsed => some { m with world.now := m.world.now + elapsed }
  | .change μ => if μ.entry.any m.held then none else some { m with world := m.world.change μ }
  | .clear => some { m with statusSnapshot := none, clears := m.clears + 1 }
  | .call configured => some { m with calls := m.calls ++ [⟨statusCacheInterval configured, .started⟩] }
  | .lookup i =>
    match m.calls[i]? with
    | some ⟨interval, .started⟩ =>
      match m.cached interval with
      | some statuses => some (m.setPhase i interval (.answered m.world.now statuses))
      | none => some (m.setPhase i interval (.building (Build.new m.world)))
    | _ => none
  | .build i s =>
    match m.calls[i]? with
    | some ⟨interval, .building b⟩ => (b.advance m.world s).map fun b' => m.setPhase i interval (.building b')
    | _ => none
  | .store i =>
    match m.calls[i]? with
    | some ⟨interval, .building ⟨statuses, .statuses, [], []⟩⟩ =>
      some { m.setPhase i interval (.answered statuses.walkFrom statuses) with
        statusSnapshot := some ⟨statuses, m.world.now⟩, rebuilds := m.rebuilds + 1 }
    | _ => none

end Manager

/-! ### What a step does -/

theorem statusCacheInterval_pos (configured : Option ℕ) : 0 < statusCacheInterval configured := by
  have hsecs : 0 < (configured.filter fun s => 0 < s).getD statusCacheIntervalSecs := by
    cases hset : configured.filter fun s => 0 < s with
    | none => decide
    | some s => simpa using (Option.filter_eq_some_iff.mp hset).2
  exact Nat.mul_pos hsecs (by decide)

/-- A list that is done, as the build that made it. -/
def Statuses.done (s : Statuses S) : Build S := ⟨s, .statuses, [], []⟩

section Step

variable {m m' : Manager S} {e : Event S} {i j interval : ℕ} {c : Call S} {phase : Phase S}

theorem cached_eq_some {statuses : Statuses S} (h : m.cached interval = some statuses) :
    ∃ snap, m.statusSnapshot = some snap ∧ m.world.now - snap.builtAt < interval ∧ statuses = snap.statuses := by
  obtain ⟨snap, hsnap, rfl⟩ := Option.map_eq_some_iff.mp h
  obtain ⟨hcell, hfresh⟩ := Option.filter_eq_some_iff.mp hsnap
  refine ⟨snap, hcell, ?_, rfl⟩
  simpa [statusSnapshotIsStale] using hfresh

theorem stale_of_cached_eq_none (h : m.cached interval = none) {snap : StatusSnapshot S}
    (hsnap : m.statusSnapshot = some snap) : interval ≤ m.world.now - snap.builtAt := by
  by_contra hfresh
  have hcell : m.statusSnapshot.filter (fun s => !statusSnapshotIsStale (some (m.world.now - s.builtAt)) interval) =
      some snap := Option.filter_eq_some_iff.mpr ⟨hsnap, by simpa [statusSnapshotIsStale] using hfresh⟩
  rw [Manager.cached, hcell] at h
  cases h

/-- What a step of a build does: it takes the next reading, comes to a network or finds it gone, or begins the next
iteration. -/
inductive Advances (b : Build S) (w : World S) : Build S → Prop
  | reads (cell : Cell) (pending : List Cell) (value : S) (first : b.pending = cell :: pending)
      (read : w.content.read cell = some value) :
      Advances b w { b with pending, readings := b.readings ++ [⟨cell, value, w.now⟩] }
  | visits (network : String) (members : List String) (idle : b.pending = []) (unseen : network ∉ b.networks) :
      Advances b w { b with
        due := b.due.filter (· ≠ network), networks := b.networks ++ [network],
        pending := b.pass.cells network members }
  | passes (network : String) (gone : w.content.networks.get? network = none) :
      Advances b w { b with due := b.due.filter (· ≠ network) }
  | nextPass (pass : Pass) (done : b.due = []) (next : b.pass.next = some pass) :
      Advances b w { b with pass, due := w.content.networks.keys, networks := [] }

theorem advances_of_advance {b b' : Build S} {w : World S} {s : BuildStep} (h : b.advance w s = some b') :
    Advances b w b' := by
  cases s with
  | read =>
    simp only [Build.advance] at h
    split at h
    · cases h
    · rename_i cell pending hpending
      obtain ⟨value, hread, rfl⟩ := Option.map_eq_some_iff.mp h
      exact .reads cell pending value hpending hread
  | visit network members =>
    rw [Build.advance, Option.ite_none_left_eq_some] at h
    obtain ⟨hfree, h⟩ := h
    push Not at hfree
    split at h
    · cases h
      exact .visits network members hfree.1 hfree.2
    · rename_i hgone
      cases h
      exact .passes network hgone
  | nextPass =>
    rw [Build.advance, Option.ite_none_left_eq_some] at h
    obtain ⟨hfree, h⟩ := h
    push Not at hfree
    obtain ⟨pass, hnext, rfl⟩ := Option.map_eq_some_iff.mp h
    exact .nextPass pass hfree.2 hnext

/-- What a step does: it lets time pass or changes the world, clears the cell, starts a call, or moves one call
on, and only a store fills the cell. -/
inductive Moves (m : Manager S) : Event S → Manager S → Prop
  | ticks (elapsed : ℕ) : Moves m (.tick elapsed) { m with world.now := m.world.now + elapsed }
  | changes (μ : Mutation S) : Moves m (.change μ) { m with world := m.world.change μ }
  | clears : Moves m .clear { m with statusSnapshot := none, clears := m.clears + 1 }
  | calls (configured : Option ℕ) :
      Moves m (.call configured) { m with calls := m.calls ++ [⟨statusCacheInterval configured, .started⟩] }
  | hits (i interval : ℕ) (snap : StatusSnapshot S) (started : m.calls[i]? = some ⟨interval, .started⟩)
      (cell : m.statusSnapshot = some snap) (young : m.world.now - snap.builtAt < interval) :
      Moves m (.lookup i) (m.setPhase i interval (.answered m.world.now snap.statuses))
  | misses (i interval : ℕ) (started : m.calls[i]? = some ⟨interval, .started⟩)
      (old : ∀ snap, m.statusSnapshot = some snap → interval ≤ m.world.now - snap.builtAt) :
      Moves m (.lookup i) (m.setPhase i interval (.building (Build.new m.world)))
  | builds (i interval : ℕ) (b b' : Build S) (s : BuildStep) (building : m.calls[i]? = some ⟨interval, .building b⟩)
      (advances : Advances b m.world b') : Moves m (.build i s) (m.setPhase i interval (.building b'))
  | stores (i interval : ℕ) (statuses : Statuses S)
      (building : m.calls[i]? = some ⟨interval, .building statuses.done⟩) :
      Moves m (.store i) { m.setPhase i interval (.answered statuses.walkFrom statuses) with
        statusSnapshot := some ⟨statuses, m.world.now⟩, rebuilds := m.rebuilds + 1 }

theorem moves_of_next (h : m.next e = some m') : Moves m e m' := by
  cases e with
  | tick elapsed =>
    cases h
    exact .ticks elapsed
  | change μ =>
    simp only [Manager.next] at h
    split at h
    · cases h
    · cases h
      exact .changes μ
  | clear =>
    cases h
    exact .clears
  | call configured =>
    cases h
    exact .calls configured
  | lookup i =>
    simp only [Manager.next] at h
    split at h
    · rename_i interval hi
      split at h
      · rename_i statuses hcached
        obtain ⟨snap, hcell, hyoung, rfl⟩ := cached_eq_some hcached
        cases h
        exact .hits i interval snap hi hcell hyoung
      · rename_i hcached
        cases h
        exact .misses i interval hi fun snap => stale_of_cached_eq_none hcached
    · cases h
  | build i s =>
    simp only [Manager.next] at h
    split at h
    · rename_i interval b hi
      obtain ⟨b', hadvance, rfl⟩ := Option.map_eq_some_iff.mp h
      exact .builds i interval b b' s hi (advances_of_advance hadvance)
    · cases h
  | store i =>
    simp only [Manager.next] at h
    split at h
    · rename_i interval statuses hi
      cases h
      exact .stores i interval statuses hi
    · cases h

/-- A call after `setPhase` is the moved one or an old one. -/
theorem calls_setPhase (h : (m.setPhase i interval phase).calls[j]? = some c) :
    (i = j ∧ c = ⟨interval, phase⟩) ∨ (i ≠ j ∧ m.calls[j]? = some c) := by
  rcases List.getElem?_set_eq_some h with ⟨heq, rfl⟩ | hold
  · exact .inl ⟨heq, rfl⟩
  · exact .inr hold

/-- A call after one more was started is that one or an old one. -/
theorem calls_concat {new : Call S} (h : (m.calls ++ [new])[j]? = some c) : c = new ∨ m.calls[j]? = some c := by
  rw [List.getElem?_append] at h
  split at h
  · exact .inr h
  · exact .inl (List.mem_singleton.mp (List.mem_of_getElem? h))

/-- What holds of each call goes on to hold if it holds of one that is started. -/
theorem forall_calls_concat {Q : ℕ → Call S → Prop} {new : Call S} (h : ∀ (j : ℕ) c, m.calls[j]? = some c → Q j c)
    (hnew : ∀ j, Q j new) (j : ℕ) (c : Call S) (hc : (m.calls ++ [new])[j]? = some c) : Q j c := by
  rcases calls_concat hc with rfl | hold
  · exact hnew j
  · exact h j c hold

/-- What holds of each call goes on to hold when one that has it moves on. -/
theorem forall_calls_setPhase {Q : ℕ → Call S → Prop} (h : ∀ (j : ℕ) c, m.calls[j]? = some c → Q j c)
    (hmoved : Q i ⟨interval, phase⟩) (j : ℕ) (c : Call S)
    (hc : (m.setPhase i interval phase).calls[j]? = some c) : Q j c := by
  rcases calls_setPhase hc with ⟨rfl, rfl⟩ | ⟨-, hold⟩
  · exact hmoved
  · exact h j c hold

end Step

/-! ### What is read is true -/

/-- At the time it was read, the cell had this value: the content that came last before has it. -/
def WasTrue (past : List (ℕ × Content S)) (r : Reading S) : Prop :=
  ∃ before after time content, past = before ++ (time, content) :: after ∧ time ≤ r.readAt ∧
    content.read r.cell = some r.value ∧ ∀ e ∈ after, r.readAt ≤ e.1

/-- What the records of the world say about it. -/
structure World.Consistent (w : World S) : Prop where
  current : ∃ before time, w.past = before ++ [(time, w.content)] ∧ time ≤ w.now
  since : ∀ network came, w.since.get? network = some came → (w.content.networks.get? network).isSome

/-- A world after some time, as far as a build is concerned. -/
structure World.Later (w w' : World S) : Prop where
  now_le : w.now ≤ w'.now
  past : ∃ new, w'.past = w.past ++ new ∧ ∀ e ∈ new, w.now ≤ e.1
  since : ∀ network came, w'.since.get? network = some came → came < w.now → w.since.get? network = some came

/-- The build has read the cell or is about to. -/
def Build.Takes (b : Build S) (cell : Cell) : Prop := cell ∈ b.pending ∨ cell ∈ b.readings.map (·.cell)

def Pass.earlier : Pass → List Pass
  | subnets => []
  | networkKeys => [subnets]
  | statuses => [subnets, networkKeys]

/-- What holds of a build under way. The networks that were there before it began are those it cannot miss, in any of
its iterations. -/
structure Walk (w : World S) (b : Build S) : Prop where
  start_le : b.walkFrom ≤ w.now
  distinct : b.networks.Nodup
  wasTrue : ∀ r ∈ b.readings, WasTrue w.past r ∧ b.walkFrom ≤ r.readAt ∧ r.readAt ≤ w.now
  direct : b.Takes (.setting .directNames)
  whole : ∀ network ∈ b.networks, ∀ cell ∈ b.pass.cells network [], b.Takes cell
  complete : ∀ network came, w.since.get? network = some came → came < b.walkFrom →
    network ∈ b.due ∨ network ∈ b.networks
  managed : ∀ network came, w.since.get? network = some came → came < b.walkFrom →
    ∀ pass ∈ b.pass.earlier, ∀ cell ∈ pass.cells network [], b.Takes cell

section World

variable {w w' : World S} {b b' : Build S} {network : String}

/-- What comes later does not touch what was read before. -/
theorem WasTrue.append {past new : List (ℕ × Content S)} {r : Reading S} (h : WasTrue past r)
    (hnew : ∀ e ∈ new, r.readAt ≤ e.1) : WasTrue (past ++ new) r := by
  obtain ⟨before, after, time, content, rfl, htime, hread, hafter⟩ := h
  exact ⟨before, after ++ new, time, content, by simp, htime, hread, List.forall_mem_append.mpr ⟨hafter, hnew⟩⟩

theorem World.Consistent.wasTrue (h : w.Consistent) {cell : Cell} {value : S}
    (hread : w.content.read cell = some value) :
    WasTrue w.past ⟨cell, value, w.now⟩ := by
  obtain ⟨before, time, hpast, htime⟩ := h.current
  exact ⟨before, [], time, w.content, hpast, htime, hread, by simp⟩

theorem World.Consistent.tick (h : w.Consistent) (elapsed : ℕ) :
    World.Consistent { w with now := w.now + elapsed } := by
  obtain ⟨before, time, hpast, htime⟩ := h.current
  exact ⟨⟨before, time, hpast, Nat.le_add_right_of_le htime⟩, h.since⟩

theorem World.Consistent.change (h : w.Consistent) (μ : Mutation S) : (w.change μ).Consistent := by
  refine ⟨⟨w.past, w.now, rfl, le_rfl⟩, fun network came hcame => ?_⟩
  cases μ with
  | config settings => exact h.since network came hcame
  | start name parts =>
    simp only [World.change, Content.change, HashTable.get?_insert] at hcame ⊢
    split at hcame
    · rename_i heq
      rw [if_pos heq]
      rfl
    · rename_i hne
      rw [if_neg hne]
      exact h.since network came hcame
  | leave name =>
    simp only [World.change, Content.change, HashTable.get?_erase] at hcame ⊢
    split at hcame
    · cases hcame
    · rename_i hne
      rw [if_neg hne]
      exact h.since network came hcame
  | set name p value =>
    have hthere := h.since network came hcame
    simp only [World.change, Content.change]
    split
    · rw [HashTable.get?_insert]
      split
      · rfl
      · exact hthere
    · exact hthere

theorem World.later_tick (w : World S) (elapsed : ℕ) : w.Later { w with now := w.now + elapsed } :=
  ⟨Nat.le_add_right _ _, ⟨[], by simp, by simp⟩, fun _ _ h _ => h⟩

theorem World.later_change (w : World S) (μ : Mutation S) : w.Later (w.change μ) := by
  refine ⟨le_rfl, ⟨_, rfl, by simp⟩, fun network came hcame hbefore => ?_⟩
  cases μ with
  | config settings => exact hcame
  | start name parts =>
    -- a network that comes now was not there before
    rcases HashTable.get?_of_insert hcame with ⟨-, rfl⟩ | hold
    · exact absurd hbefore (lt_irrefl _)
    · exact hold
  | leave name => exact HashTable.get?_of_erase hcame
  | set name p value => exact hcame

theorem Walk.later (h : Walk w b) (hlater : w.Later w') : Walk w' b where
  start_le := h.start_le.trans hlater.now_le
  distinct := h.distinct
  wasTrue r hr := by
    obtain ⟨htrue, hfrom, hto⟩ := h.wasTrue r hr
    obtain ⟨new, hpast, hnew⟩ := hlater.past
    rw [hpast]
    exact ⟨htrue.append fun e he => hto.trans (hnew e he), hfrom, hto.trans hlater.now_le⟩
  direct := h.direct
  whole := h.whole
  complete network came hcame hbefore :=
    h.complete network came (hlater.since network came hcame (hbefore.trans_le h.start_le)) hbefore
  managed network came hcame hbefore :=
    h.managed network came (hlater.since network came hcame (hbefore.trans_le h.start_le)) hbefore

/-- A network that is there is one of the table's keys. -/
theorem World.Consistent.mem_keys (h : w.Consistent) {came : ℕ} (hcame : w.since.get? network = some came) :
    network ∈ w.content.networks.keys := by
  obtain ⟨parts, hparts⟩ := Option.isSome_iff_exists.mp (h.since network came hcame)
  exact AList.mem_keys.mpr (HashTable.mem_of_get?_eq_some hparts)

theorem Walk.new (hw : w.Consistent) : Walk w (Build.new w) where
  start_le := le_rfl
  distinct := List.nodup_nil
  wasTrue _ hr := by cases hr
  direct := .inl List.mem_cons_self
  whole _ hnetwork := by cases hnetwork
  complete network came hcame _ := .inl (hw.mem_keys hcame)
  managed _ _ _ _ _ hpass := by cases hpass

/-- Reading a cell moves it from what is pending to what is read. -/
theorem Walk.read (h : Walk w b) (hw : w.Consistent) {cell : Cell} {pending : List Cell} {value : S}
    (hpending : b.pending = cell :: pending) (hread : w.content.read cell = some value) :
    Walk w { b with pending, readings := b.readings ++ [⟨cell, value, w.now⟩] } := by
  have htakes : ∀ c, b.Takes c →
      Build.Takes { b with pending, readings := b.readings ++ [⟨cell, value, w.now⟩] } c := by
    intro c hc
    unfold Build.Takes at hc ⊢
    rw [hpending, List.mem_cons] at hc
    rw [List.map_append, List.mem_append]
    rcases hc with (rfl | hlater) | hdone
    · exact .inr (.inr List.mem_cons_self)
    · exact .inl hlater
    · exact .inr (.inl hdone)
  refine ⟨h.start_le, h.distinct, fun r hr => ?_, htakes _ h.direct,
    fun network hn c hc => htakes c (h.whole network hn c hc), h.complete,
    fun network came hcame hbefore pass hpass c hc =>
      htakes c (h.managed network came hcame hbefore pass hpass c hc)⟩
  rcases List.mem_append.mp hr with hold | hnew
  · exact h.wasTrue r hold
  · rw [List.mem_singleton.mp hnew]
    exact ⟨hw.wasTrue hread, h.start_le, le_rfl⟩

/-- With nothing pending, what the build takes it has read, and goes on to have. -/
theorem Build.Takes.of_pending {b : Build S} {cell : Cell} (h : b.Takes cell) (hpending : b.pending = []) :
    cell ∈ b.readings.map (·.cell) := by
  unfold Build.Takes at h
  rw [hpending] at h
  exact h.resolve_left List.not_mem_nil

theorem Pass.cells_subset (pass : Pass) (network : String) (members : List String) :
    pass.cells network [] ⊆ pass.cells network members := by
  intro cell hcell
  cases pass with
  | subnets | networkKeys => exact hcell
  | statuses =>
    simp only [cells, List.map_nil, List.append_nil, List.mem_append] at hcell ⊢
    exact hcell.imp_left .inl

theorem Walk.visit (h : Walk w b) (hpending : b.pending = []) (hunseen : network ∉ b.networks) (members : List String) :
    Walk w { b with
      due := b.due.filter (· ≠ network), networks := b.networks ++ [network],
      pending := b.pass.cells network members } where
  start_le := h.start_le
  distinct := List.nodup_append.mpr ⟨h.distinct, List.nodup_singleton _, fun a ha c hc heq =>
    hunseen (List.mem_singleton.mp hc ▸ heq ▸ ha)⟩
  wasTrue := h.wasTrue
  direct := .inr (h.direct.of_pending hpending)
  whole name hname cell hcell := by
    rcases List.mem_append.mp hname with hold | hnew
    · exact .inr ((h.whole name hold cell hcell).of_pending hpending)
    · rw [List.mem_singleton.mp hnew] at hcell
      exact .inl (b.pass.cells_subset network members hcell)
  complete name came hcame hbefore := by
    by_cases heq : name = network
    · exact .inr (by simp [heq])
    · rcases h.complete name came hcame hbefore with hdue | hseen
      · exact .inl (List.mem_filter.mpr ⟨hdue, by simpa using heq⟩)
      · exact .inr (List.mem_append_left _ hseen)
  managed name came hcame hbefore pass hpass cell hcell :=
    .inr ((h.managed name came hcame hbefore pass hpass cell hcell).of_pending hpending)

/-- A network that is gone by the time the iteration comes to it need not be listed. -/
theorem Walk.pass (h : Walk w b) (hw : w.Consistent) (hgone : w.content.networks.get? network = none) :
    Walk w { b with due := b.due.filter (· ≠ network) } := by
  refine ⟨h.start_le, h.distinct, h.wasTrue, h.direct, h.whole, fun name came hcame hbefore => ?_, h.managed⟩
  have hne : name ≠ network := by
    rintro rfl
    have hlive := hw.since name came hcame
    rw [hgone] at hlive
    cases hlive
  rcases h.complete name came hcame hbefore with hdue | hseen
  · exact .inl (List.mem_filter.mpr ⟨hdue, by simpa using hne⟩)
  · exact .inr hseen

theorem Pass.earlier_next {pass after before : Pass} (h : pass.next = some after) (hbefore : before ∈ after.earlier) :
    before ∈ pass.earlier ∨ before = pass := by
  cases pass <;> cases h <;> simpa [earlier] using hbefore

/-- An iteration is over: it has come to all that were there when the build began. -/
theorem Walk.nextPass (h : Walk w b) (hw : w.Consistent) (hdue : b.due = []) {pass : Pass}
    (hnext : b.pass.next = some pass) : Walk w { b with pass, due := w.content.networks.keys, networks := [] } where
  start_le := h.start_le
  distinct := List.nodup_nil
  wasTrue := h.wasTrue
  direct := h.direct
  whole _ hnetwork := by cases hnetwork
  complete network came hcame _ := .inl (hw.mem_keys hcame)
  managed network came hcame hbefore before hearlier := by
    rcases Pass.earlier_next hnext hearlier with hold | rfl
    · exact h.managed network came hcame hbefore before hold
    · refine h.whole network ((h.complete network came hcame hbefore).resolve_left fun hmem => ?_)
      rw [hdue] at hmem
      cases hmem

theorem Walk.advance (h : Walk w b) (hw : w.Consistent) (hadvances : Advances b w b') : Walk w b' := by
  cases hadvances with
  | reads cell pending value hpending hread => exact h.read hw hpending hread
  | visits network members hpending hunseen => exact h.visit hpending hunseen members
  | passes network hgone => exact h.pass hw hgone
  | nextPass pass hdue hnext => exact h.nextPass hw hdue hnext

end World

/-- The build a call is in, or the one that made its answer. -/
def Phase.build? : Phase S → Option (Build S)
  | .started => none
  | .building b => some b
  | .answered _ statuses => some statuses.done

/-- Every build has `B`, and so does every list in the cell and in an answer that was not there in `m₀`. -/
structure Everywhere (B : Build S → Prop) (m₀ m : Manager S) : Prop where
  cell : ∀ snap, m.statusSnapshot = some snap → B snap.statuses.done
  builds : ∀ (i : ℕ) c, m.calls[i]? = some c → ∀ b, c.phase = .building b → B b
  answers : ∀ (i : ℕ) c, m.calls[i]? = some c → ∀ lookedUp statuses, c.phase = .answered lookedUp statuses →
    m₀.calls[i]? = some c ∨ B statuses.done

section Everywhere

variable {B : Build S → Prop} {m₀ m m' : Manager S} {e : Event S} {i interval : ℕ} {phase : Phase S}

theorem Everywhere.mono {B' : Build S → Prop} (h : Everywhere B m₀ m) (himp : ∀ b, B b → B' b) :
    Everywhere B' m₀ m where
  cell snap hsnap := himp _ (h.cell snap hsnap)
  builds i c hc b hb := himp b (h.builds i c hc b hb)
  answers i c hc lookedUp statuses hs := (h.answers i c hc lookedUp statuses hs).imp_right (himp _)

theorem Everywhere.setPhase (h : Everywhere B m₀ m) (hphase : ∀ b, phase.build? = some b → B b) :
    Everywhere B m₀ (m.setPhase i interval phase) where
  cell := h.cell
  builds := forall_calls_setPhase h.builds fun b heq => hphase b (congrArg Phase.build? heq)
  answers := forall_calls_setPhase h.answers fun _ _ heq => .inr (hphase _ (congrArg Phase.build? heq))

/-- **Step**: what a new build has and every step of a build keeps, all builds and lists go on to have. -/
theorem Everywhere.step (h : Everywhere B m₀ m) (hnew : B (Build.new m.world))
    (hadvance : ∀ b b', B b → Advances b m.world b' → B b') (hstep : m.next e = some m') : Everywhere B m₀ m' := by
  cases moves_of_next hstep with
  | ticks elapsed => exact ⟨h.cell, h.builds, h.answers⟩
  | changes μ => exact ⟨h.cell, h.builds, h.answers⟩
  | clears => exact ⟨fun _ hsnap => (by cases hsnap), h.builds, h.answers⟩
  | calls configured =>
    exact ⟨h.cell, forall_calls_concat h.builds fun _ _ hb => (by cases hb),
      forall_calls_concat h.answers fun _ _ _ hs => by cases hs⟩
  | hits i interval snap hi hcell _ =>
    refine h.setPhase fun b hb => ?_
    cases hb
    exact h.cell snap hcell
  | misses i interval hi _ =>
    refine h.setPhase fun b hb => ?_
    cases hb
    exact hnew
  | builds i interval b b' s hi hadv =>
    refine h.setPhase fun b hb => ?_
    cases hb
    exact hadvance _ _ (h.builds i _ hi _ rfl) hadv
  | stores i interval statuses hi =>
    have hdone : B statuses.done := h.builds i _ hi _ rfl
    have hmoved : Everywhere B m₀ (m.setPhase i interval (.answered statuses.walkFrom statuses)) := by
      refine h.setPhase fun b hb => ?_
      cases hb
      exact hdone
    refine ⟨fun snap hsnap => ?_, hmoved.builds, hmoved.answers⟩
    cases hsnap
    exact hdone

end Everywhere

/-- Every build is a walk, and every list is one that is done. -/
structure Sound (m₀ m : Manager S) : Prop where
  world : m.world.Consistent
  walks : Everywhere (Walk m.world) m₀ m

section Soundness

variable {m₀ m m' : Manager S} {e : Event S}

theorem Sound.new (start : ℕ) (settings : Setting → S) :
    Sound (Manager.new start settings) (Manager.new start settings) where
  world := ⟨⟨[], start, rfl, le_rfl⟩, fun _ _ h => by cases h⟩
  walks := ⟨fun _ h => (by cases h), fun i _ h => (by cases i <;> cases h), fun _ _ h _ _ _ => .inl h⟩

theorem World.Consistent.step (h : m.world.Consistent) (hstep : m.next e = some m') :
    m'.world.Consistent ∧ m.world.Later m'.world := by
  cases moves_of_next hstep with
  | ticks elapsed => exact ⟨h.tick elapsed, m.world.later_tick elapsed⟩
  | changes μ => exact ⟨h.change μ, m.world.later_change μ⟩
  | clears | calls | hits | misses | builds | stores => exact ⟨h, m.world.later_tick 0⟩

theorem Sound.step (h : Sound m₀ m) (hstep : m.next e = some m') : Sound m₀ m' := by
  obtain ⟨hworld, hlater⟩ := h.world.step hstep
  have hwalks : Everywhere (Walk m.world) m₀ m' :=
    h.walks.step (Walk.new h.world) (fun _ _ hwalk => hwalk.advance h.world) hstep
  exact ⟨hworld, hwalks.mono fun _ hwalk => hwalk.later hlater⟩

theorem Sound.run {C : Manager S → Event S → Prop} {m₁ : Manager S} {events : List (Event S)} (h : Sound m₀ m₁)
    (hrun : Run (fun m e m' => m.next e = some m') C m₁ events m) : Sound m₀ m :=
  hrun.invariant (I := fun _ m => Sound m₀ m) h fun _ _ _ _ h _ hstep => h.step hstep

/-- An answer of a daemon that was started is a walk. -/
theorem Sound.answer {start : ℕ} {settings : Setting → S} (h : Sound (Manager.new start settings) m)
    {i interval lookedUp : ℕ} {statuses : Statuses S}
    (hanswer : m.calls[i]? = some ⟨interval, .answered lookedUp statuses⟩) : Walk m.world statuses.done :=
  (h.walks.answers i _ hanswer _ _ rfl).resolve_left fun hnone => by cases i <;> cases hnone

end Soundness

/-! ### How old an answer may be -/

/-- Every build that is stored took at most `longest`. -/
def buildsWithin (longest : ℕ) (m : Manager S) : Event S → Bool
  | .store i =>
    match m.calls[i]? with
    | some ⟨_, .building b⟩ => m.world.now ≤ b.walkFrom + longest
    | _ => true
  | _ => true

/-- The list in the cell took `longest` at most, and that of an answer was begun less than the interval and `longest`
before the look-up. -/
structure Timely (longest : ℕ) (m : Manager S) : Prop where
  intervals : ∀ (i : ℕ) c, m.calls[i]? = some c → 0 < c.interval
  cell : ∀ snap, m.statusSnapshot = some snap → snap.builtAt ≤ snap.statuses.walkFrom + longest
  answers : ∀ (i : ℕ) c, m.calls[i]? = some c → ∀ lookedUp statuses, c.phase = .answered lookedUp statuses →
    lookedUp < statuses.walkFrom + (c.interval + longest)

section Age

variable {longest : ℕ} {m m' : Manager S} {e : Event S} {i interval : ℕ} {phase old : Phase S}

/-- A call moves on; if it gets its answer, the list is young enough. -/
theorem Timely.setPhase (h : Timely longest m) (hi : m.calls[i]? = some ⟨interval, old⟩)
    (hanswer : ∀ lookedUp statuses, phase = .answered lookedUp statuses →
      lookedUp < statuses.walkFrom + (interval + longest)) : Timely longest (m.setPhase i interval phase) where
  intervals := forall_calls_setPhase h.intervals (h.intervals i ⟨interval, old⟩ hi)
  cell := h.cell
  answers := forall_calls_setPhase h.answers hanswer

theorem Timely.step (h : Timely longest m) (hbuild : buildsWithin longest m e = true) (hstep : m.next e = some m') :
    Timely longest m' := by
  cases moves_of_next hstep with
  | ticks elapsed => exact ⟨h.intervals, h.cell, h.answers⟩
  | changes μ => exact ⟨h.intervals, h.cell, h.answers⟩
  | clears => exact ⟨h.intervals, fun _ hsnap => (by cases hsnap), h.answers⟩
  | calls configured =>
    exact ⟨forall_calls_concat h.intervals fun _ => statusCacheInterval_pos configured, h.cell,
      forall_calls_concat h.answers fun _ _ _ hs => by cases hs⟩
  | hits i interval snap hi hcell hyoung =>
    refine h.setPhase hi fun _ _ heq => ?_
    cases heq
    have hbuilt := h.cell snap hcell
    omega
  | misses i interval hi _ => exact h.setPhase hi fun _ _ heq => by cases heq
  | builds i interval b b' s hi _ => exact h.setPhase hi fun _ _ heq => by cases heq
  | stores i interval statuses hi =>
    have hpos : 0 < interval := h.intervals i _ hi
    have hmoved : Timely longest (m.setPhase i interval (.answered statuses.walkFrom statuses)) := by
      refine h.setPhase hi fun _ _ heq => ?_
      cases heq
      omega
    refine ⟨hmoved.intervals, fun snap hsnap => ?_, hmoved.answers⟩
    cases hsnap
    simpa [buildsWithin, hi, Statuses.done] using hbuild

end Age

/-- What is read for the status of a network, besides its connections. -/
def components (network : String) : List Cell := .setting .directNames :: Pass.statuses.cells network []

/-- What an answer to a call that looked the cell up at `lookedUp` says about a world, where what is older than
`age` does not count. Each reading was true at its own time. -/
structure Reports (w : World S) (lookedUp age : ℕ) (statuses : Statuses S) : Prop where
  distinct : statuses.networks.Nodup
  recent : ∀ r ∈ statuses.readings, WasTrue w.past r ∧ lookedUp < r.readAt + age ∧ r.readAt ≤ w.now
  whole : ∀ network ∈ statuses.networks, ∀ cell ∈ components network, cell ∈ statuses.readings.map (·.cell)
  complete : ∀ network came, w.since.get? network = some came → came + age ≤ lookedUp →
    network ∈ statuses.networks ∧
      ∀ cell ∈ [Cell.part network .subnet, .part network .networkKey], cell ∈ statuses.readings.map (·.cell)

/-- What an undisturbed build of the call `i` does, with one network and nobody connected. -/
def buildOf (i : ℕ) (network : String) : List (Event ℕ) :=
  [.build i .read, .build i (.visit network []), .build i .read, .build i .nextPass,
    .build i (.visit network []), .build i .read, .build i .nextPass, .build i (.visit network [])] ++
    List.replicate 6 (.build i .read)

/-- Two calls, the second one 3 ns after the list of the first was stored; the network has changed meanwhile. -/
def twoCalls : List (Event ℕ) :=
  [.change (.start "a" fun _ => 1), .call none, .lookup 0] ++ buildOf 0 "a" ++ [.tick 5, .store 0,
    .change (.set "a" .roster 2), .call (some 0), .tick 3, .lookup 1]

/-- The list of one network of which everything was 1 at time 0. -/
def allOnes (network : String) : Statuses ℕ :=
  ⟨0, [network], ([Cell.setting .directNames, .part network .subnet, .part network .networkKey] ++
    Pass.statuses.cells network []).map fun cell => ⟨cell, 1, 0⟩⟩

/-- All there is to read has `P`. -/
def Holds (P : Cell → S → Prop) (c : Content S) : Prop := ∀ cell value, c.read cell = some value → P cell value

/-- All readings have `P`. -/
def AllRead (P : Cell → S → Prop) (readings : List (Reading S)) : Prop := ∀ r ∈ readings, P r.cell r.value

/-- A build reads nothing but what there is. -/
theorem AllRead.advance {P : Cell → S → Prop} {w : World S} {b b' : Build S} (h : AllRead P b.readings)
    (hholds : Holds P w.content) (hadvances : Advances b w b') : AllRead P b'.readings := by
  cases hadvances with
  | reads cell pending value _ hread =>
    exact List.forall_mem_append.mpr ⟨h, List.forall_mem_singleton.mpr (hholds cell value hread)⟩
  | visits | passes | nextPass => exact h

/-- A network is left while it is in the cell, and another one comes. -/
def leaves : List (Event ℕ) :=
  [.change (.start "left" fun _ => 1), .call none, .lookup 0] ++ buildOf 0 "left" ++
    [.store 0, .change (.leave "left"), .change (.start "kept" fun _ => 1)]

def isBuilding (c : Call S) : Bool :=
  match c.phase with
  | .building _ => true
  | _ => false

/-- No call looks the cell up while another one builds, and all use the interval `interval` at least. -/
def paced (interval : ℕ) (m : Manager S) : Event S → Bool
  | .lookup _ => !m.calls.any isBuilding
  | .call configured => interval ≤ statusCacheInterval configured
  | _ => true

/-- The builds are paid for by clearings and by the time up to the last one; at most one is going on, and it began an
interval after the last one at least. -/
structure Paced (interval start : ℕ) (m : Manager S) : Prop where
  intervals : ∀ (i : ℕ) c, m.calls[i]? = some c → interval ≤ c.interval
  alone : ∀ (i j : ℕ) c d, m.calls[i]? = some c → m.calls[j]? = some d → isBuilding c = true →
    isBuilding d = true → i = j
  due : ∀ (i intv : ℕ) b, m.calls[i]? = some ⟨intv, .building b⟩ →
    b.walkFrom ≤ m.world.now ∧ ∀ snap, m.statusSnapshot = some snap → snap.builtAt + interval ≤ b.walkFrom
  started : start ≤ m.world.now
  filled : ∀ snap, m.statusSnapshot = some snap → start ≤ snap.builtAt ∧ snap.builtAt ≤ m.world.now ∧
    m.rebuilds * interval ≤ (m.clears + 1) * interval + (snap.builtAt - start)
  empty : m.statusSnapshot = none → m.rebuilds * interval ≤ m.clears * interval + (m.world.now - start)

section Pace

variable {interval start : ℕ} {m m' : Manager S} {e : Event S} {i intv : ℕ} {phase old : Phase S}

theorem not_building_of_paced (h : paced interval m (.lookup i) = true) {j : ℕ} {c : Call S}
    (hc : m.calls[j]? = some c) : isBuilding c = false := by
  simp only [paced, Bool.not_eq_true', List.any_eq_false] at h
  exact Bool.eq_false_iff.mpr (h c (List.mem_of_getElem? hc))

/-- A call may move on if it does not build, or if nobody else builds and the list in the cell is old enough. -/
theorem Paced.setPhase (h : Paced interval start m) (hi : m.calls[i]? = some ⟨intv, old⟩)
    (hothers : isBuilding (⟨intv, phase⟩ : Call S) = true → ∀ (j : ℕ) c, i ≠ j → m.calls[j]? = some c →
      isBuilding c = false)
    (hdue : ∀ b, phase = .building b →
      b.walkFrom ≤ m.world.now ∧ ∀ snap, m.statusSnapshot = some snap → snap.builtAt + interval ≤ b.walkFrom) :
    Paced interval start (m.setPhase i intv phase) where
  intervals := forall_calls_setPhase h.intervals (h.intervals i ⟨intv, old⟩ hi)
  alone j k c d hc hd hbc hbd := by
    rcases calls_setPhase hc with ⟨hij, rfl⟩ | ⟨hij, hc⟩
    · rcases calls_setPhase hd with ⟨hik, -⟩ | ⟨hik, hd⟩
      · exact hij.symm.trans hik
      · rw [hothers hbc k d hik hd] at hbd
        cases hbd
    · rcases calls_setPhase hd with ⟨-, rfl⟩ | ⟨-, hd⟩
      · rw [hothers hbd j c hij hc] at hbc
        cases hbc
      · exact h.alone j k c d hc hd hbc hbd
  due j _ _ hj := by
    rcases calls_setPhase hj with ⟨-, heq⟩ | ⟨-, hold⟩
    · cases heq
      exact hdue _ rfl
    · exact h.due j _ _ hold
  started := h.started
  filled := h.filled
  empty := h.empty

/-- A call that does not build may move on. -/
theorem Paced.setPhase_of_not_building (h : Paced interval start m) (hi : m.calls[i]? = some ⟨intv, old⟩)
    (hphase : isBuilding (⟨intv, phase⟩ : Call S) = false) : Paced interval start (m.setPhase i intv phase) := by
  refine h.setPhase hi (fun hbuilding => ?_) fun _ heq => ?_
  · rw [hphase] at hbuilding
    cases hbuilding
  · rw [heq] at hphase
    cases hphase

/-- No step changes when a build began. -/
theorem walkFrom_advance {b b' : Build S} {w : World S} (h : Advances b w b') : b'.walkFrom = b.walkFrom := by
  cases h <;> rfl

/-- A build goes on. -/
theorem Paced.building (h : Paced interval start m) {b b' : Build S} (hi : m.calls[i]? = some ⟨intv, .building b⟩)
    (hfrom : b'.walkFrom = b.walkFrom) : Paced interval start (m.setPhase i intv (.building b')) := by
  refine h.setPhase hi (fun _ j c hij hc => ?_) fun _ heq => ?_
  · by_contra hbuilding
    exact hij (h.alone i j _ c hi hc rfl (by simpa using hbuilding))
  · cases heq
    rw [hfrom]
    exact h.due i _ _ hi

/-- A build begins when nobody builds and the list in the cell is an interval old. -/
theorem Paced.miss (h : Paced interval start m) (hpaced : paced interval m (.lookup i) = true)
    (hi : m.calls[i]? = some ⟨intv, .started⟩)
    (hold : ∀ snap, m.statusSnapshot = some snap → intv ≤ m.world.now - snap.builtAt) :
    Paced interval start (m.setPhase i intv (.building (Build.new m.world))) := by
  refine h.setPhase hi (fun _ j c _ hc => not_building_of_paced hpaced hc) fun _ heq => ?_
  cases heq
  refine ⟨le_rfl, fun snap hsnap => ?_⟩
  have hintv : interval ≤ intv := h.intervals i _ hi
  have hage := hold snap hsnap
  have hbuilt := (h.filled snap hsnap).2.1
  change snap.builtAt + interval ≤ m.world.now
  omega

/-- The build that ends is paid for by the interval since the last one, or by the clearing. -/
theorem Paced.store (h : Paced interval start m) {statuses : Statuses S}
    (hi : m.calls[i]? = some ⟨intv, .building statuses.done⟩) :
    Paced interval start { m.setPhase i intv (.answered statuses.walkFrom statuses) with
      statusSnapshot := some ⟨statuses, m.world.now⟩, rebuilds := m.rebuilds + 1 } := by
  have hmoved : Paced interval start (m.setPhase i intv (.answered statuses.walkFrom statuses)) :=
    h.setPhase_of_not_building hi rfl
  have hstarted := h.started
  obtain ⟨hlookup, hage⟩ := h.due i _ _ hi
  refine ⟨hmoved.intervals, hmoved.alone, fun j _ _ hj => ?_, h.started, fun snap hsnap => ?_,
    fun hnone => by cases hnone⟩
  · -- nobody else was building
    rcases calls_setPhase hj with ⟨-, heq⟩ | ⟨hij, hj⟩
    · cases heq
    · exact absurd (h.alone i j _ _ hi hj rfl rfl) hij
  · cases hsnap
    refine ⟨hstarted, le_rfl, ?_⟩
    dsimp only [Manager.setPhase]
    rw [Nat.add_mul, Nat.add_mul]
    cases hcell : m.statusSnapshot with
    | none =>
      have hcount := h.empty hcell
      omega
    | some old =>
      obtain ⟨hfrom, -, hcount⟩ := h.filled old hcell
      have hspaced := hage old hcell
      rw [Nat.add_mul] at hcount
      omega

theorem Paced.tick (h : Paced interval start m) (elapsed : ℕ) :
    Paced interval start { m with world.now := m.world.now + elapsed } where
  intervals := h.intervals
  alone := h.alone
  due j _ _ hj := ⟨Nat.le_add_right_of_le (h.due j _ _ hj).1, (h.due j _ _ hj).2⟩
  started := Nat.le_add_right_of_le h.started
  filled snap hsnap := by
    obtain ⟨hfrom, hto, hcount⟩ := h.filled snap hsnap
    exact ⟨hfrom, Nat.le_add_right_of_le hto, hcount⟩
  empty hnone := by
    have hcount := h.empty hnone
    have hstarted := h.started
    dsimp only
    omega

theorem Paced.world (h : Paced interval start m) {w' : World S} (hnow : w'.now = m.world.now) :
    Paced interval start { m with world := w' } where
  intervals := h.intervals
  alone := h.alone
  due j _ _ hj := by
    rw [hnow]
    exact h.due j _ _ hj
  started := by
    rw [hnow]
    exact h.started
  filled := by
    rw [hnow]
    exact h.filled
  empty := by
    rw [hnow]
    exact h.empty

theorem Paced.clear (h : Paced interval start m) :
    Paced interval start { m with statusSnapshot := none, clears := m.clears + 1 } where
  intervals := h.intervals
  alone := h.alone
  due j _ _ hj := ⟨(h.due j _ _ hj).1, fun _ hsnap => by cases hsnap⟩
  started := h.started
  filled _ hsnap := by cases hsnap
  empty _ := by
    cases hcell : m.statusSnapshot with
    | none =>
      have hcount := h.empty hcell
      dsimp only
      rw [Nat.add_mul]
      omega
    | some snap =>
      obtain ⟨hfrom, hto, hcount⟩ := h.filled snap hcell
      dsimp only
      omega

theorem Paced.step (h : Paced interval start m) (hpaced : paced interval m e = true) (hstep : m.next e = some m') :
    Paced interval start m' := by
  cases moves_of_next hstep with
  | ticks elapsed => exact h.tick elapsed
  | changes μ => exact h.world rfl
  | clears => exact h.clear
  | calls configured =>
    refine ⟨forall_calls_concat h.intervals fun _ => by simpa [paced] using hpaced,
      fun j k c d hc hd hbc hbd => ?_, fun j _ _ hj => ?_, h.started, h.filled, h.empty⟩
    · rcases calls_concat hc with rfl | hc
      · cases hbc
      · rcases calls_concat hd with rfl | hd
        · cases hbd
        · exact h.alone j k c d hc hd hbc hbd
    · rcases calls_concat hj with heq | hold
      · cases heq
      · exact h.due j _ _ hold
  | hits i intv snap hi _ _ => exact h.setPhase_of_not_building hi rfl
  | misses i intv hi hold => exact h.miss hpaced hi hold
  | builds i intv b b' s hi hadvances => exact h.building hi (walkFrom_advance hadvances)
  | stores i intv statuses hi => exact h.store hi

end Pace

/-- **Pace of the builds**: where no call looks the cell up during a build and no interval is shorter than
`interval`, the list is built at most once more than it was cleared and intervals have passed, for any number of
calls. -/
theorem rebuilds_le (interval start : ℕ) (settings : Setting → S) (hpos : 0 < interval) {events : List (Event S)}
    {m : Manager S}
    (hrun : Run (fun m e m' => m.next e = some m') (fun m e => paced interval m e = true)
      (Manager.new start settings) events m) :
    m.rebuilds ≤ m.clears + 1 + (m.world.now - start) / interval := by
  have hinv : Paced interval start m :=
    hrun.invariant (I := fun _ m => Paced interval start m)
      ⟨fun i _ h => (by cases i <;> cases h), fun i _ _ _ h => (by cases i <;> cases h),
        fun i _ _ h => (by cases i <;> cases h), le_rfl, fun _ h => (by cases h), fun _ => by simp [Manager.new]⟩
      fun _ _ _ _ h hpaced hstep => h.step hpaced hstep
  have hcount : m.rebuilds * interval ≤ (m.clears + 1) * interval + (m.world.now - start) := by
    cases hcell : m.statusSnapshot with
    | none =>
      have hcount := hinv.empty hcell
      rw [Nat.add_mul]
      omega
    | some snap =>
      obtain ⟨-, hbuilt, hcount⟩ := hinv.filled snap hcell
      omega
  calc m.rebuilds ≤ ((m.clears + 1) * interval + (m.world.now - start)) / interval :=
        (Nat.le_div_iff_mul_le hpos).mpr hcount
    _ = m.clears + 1 + (m.world.now - start) / interval := by
        rw [Nat.add_comm, Nat.add_mul_div_right _ _ hpos, Nat.add_comm]

/-- The second call of `twoCalls` builds nothing. -/
theorem rebuilds_le_twoCalls :
    ∃ m : Manager ℕ, Run (fun m e m' => m.next e = some m') (fun m e => paced 12000000000 m e = true)
        (Manager.new 0 fun _ => 1) twoCalls m ∧ m.rebuilds = 1 ∧
      m.rebuilds ≤ m.clears + 1 + (m.world.now - 0) / 12000000000 := by
  refine Run.exists_of_exec_imp (fun m => m.rebuilds = 1) (by decide +kernel) fun m hrun hone => ?_
  exact ⟨hone, rebuilds_le 12000000000 0 _ (by decide) hrun⟩

end Tetron.Daemon.StatusCache
