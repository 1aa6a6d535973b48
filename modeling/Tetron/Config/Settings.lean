import Tetron.Config.Overrides

/-!
# Settings

What `config set` and `config get` are for: a config is one value for each setting (`AppConfig.value`), a key names
a setting, and setting a key changes the value of that setting only. For every key the two functions agree on what
it names (`dispatched`), but for the two keys of `reconnect-holddown`, which `config_get` does not know.
-/

namespace Tetron.Config.Overrides

/-- The settings `config_set` has an arm for. -/
inductive Key
  | relay
  | discoveryDns
  | subnet
  | ratelimitCapacity
  | ratelimitRefillPerSec
  | ratelimitStrikeLimit
  | ratelimitGlobalCapacity
  | ratelimitGlobalRefillPerSec
  | ratelimitGlobalStrikeLimit
  | dropMonitorWindow
  | dropMonitorThreshold
  | dropMonitorCooldown
  | pathFlapThreshold
  | pathFlapWindow
  | reconnectLogThreshold
  | reconnectLogWindow
  | reconnectColdThreshold
  | reconnectColdBackoff
  | reconnectFrozenThreshold
  | reconnectFrozenBackoff
  | reconnectHolddownMinUptime
  | reconnectHolddownJitterPct
  | ipcRequestTimeout
  | ipcResponseTimeout
  | ipcMaxClients
  | ipcReservedClients
  | helloTimeout
  | joinRequestTimeout
  | statusCacheInterval
  | nukeProposalTtl
  | listenPort
  | pollerInterval
  | logRetention
  | inviteDefaultExpiry
  | selfcaptureMitigation
  | logLevel
  | pathPreference
deriving DecidableEq, Repr

namespace Key

def name : Key → String
  | relay => "relay"
  | discoveryDns => "discovery-dns"
  | subnet => "subnet"
  | ratelimitCapacity => "ratelimit.capacity"
  | ratelimitRefillPerSec => "ratelimit.refill-per-sec"
  | ratelimitStrikeLimit => "ratelimit.strike-limit"
  | ratelimitGlobalCapacity => "ratelimit.global-capacity"
  | ratelimitGlobalRefillPerSec => "ratelimit.global-refill-per-sec"
  | ratelimitGlobalStrikeLimit => "ratelimit.global-strike-limit"
  | dropMonitorWindow => "drop-monitor.window"
  | dropMonitorThreshold => "drop-monitor.threshold"
  | dropMonitorCooldown => "drop-monitor.cooldown"
  | pathFlapThreshold => "path-flap.threshold"
  | pathFlapWindow => "path-flap.window"
  | reconnectLogThreshold => "reconnect-log.threshold"
  | reconnectLogWindow => "reconnect-log.window"
  | reconnectColdThreshold => "reconnect-cold.threshold"
  | reconnectColdBackoff => "reconnect-cold.backoff"
  | reconnectFrozenThreshold => "reconnect-frozen.threshold"
  | reconnectFrozenBackoff => "reconnect-frozen.backoff"
  | reconnectHolddownMinUptime => "reconnect-holddown.min-uptime"
  | reconnectHolddownJitterPct => "reconnect-holddown.jitter-pct"
  | ipcRequestTimeout => "ipc.request-timeout"
  | ipcResponseTimeout => "ipc.response-timeout"
  | ipcMaxClients => "ipc.max-clients"
  | ipcReservedClients => "ipc.reserved-clients"
  | helloTimeout => "hello.timeout"
  | joinRequestTimeout => "join.request-timeout"
  | statusCacheInterval => "status-cache.interval"
  | nukeProposalTtl => "nuke-proposal-ttl"
  | listenPort => "listen-port"
  | pollerInterval => "poller-interval"
  | logRetention => "log-retention"
  | inviteDefaultExpiry => "invite-default-expiry"
  | selfcaptureMitigation => "selfcapture-mitigation"
  | logLevel => "log-level"
  | pathPreference => "path-preference"

/-- What a setting may be set to; `none`, and an empty list of servers, are the default. -/
def Value : Key → Type
  | relay | discoveryDns => ServerOverride
  | subnet => Option Subnet
  | selfcaptureMitigation => Option Bool
  | logLevel | pathPreference => Option String
  | _ => Option ℕ

/-- The value of a setting as the operator is shown it. -/
def render : (k : Key) → k.Value → String
  | relay, o | discoveryDns, o => renderOverride o
  | subnet, s => renderSubnet s
  | selfcaptureMitigation, b => renderMitigation b
  | logLevel, w => renderWord "<default: info>" w
  | pathPreference, w => renderWord "<default: auto>" w
  | ratelimitCapacity, n | ratelimitRefillPerSec, n | ratelimitStrikeLimit, n | ratelimitGlobalCapacity, n
  | ratelimitGlobalRefillPerSec, n | ratelimitGlobalStrikeLimit, n | dropMonitorWindow, n | dropMonitorThreshold, n
  | dropMonitorCooldown, n | pathFlapThreshold, n | pathFlapWindow, n | reconnectLogThreshold, n
  | reconnectLogWindow, n | reconnectColdThreshold, n | reconnectColdBackoff, n | reconnectFrozenThreshold, n
  | reconnectFrozenBackoff, n | reconnectHolddownMinUptime, n | reconnectHolddownJitterPct, n
  | ipcRequestTimeout, n | ipcResponseTimeout, n | ipcMaxClients, n | ipcReservedClients, n | helloTimeout, n
  | joinRequestTimeout, n | statusCacheInterval, n | nukeProposalTtl, n | listenPort, n | pollerInterval, n
  | logRetention, n | inviteDefaultExpiry, n => renderOpt n

section Parse

variable [Host]

/-- The value of a numeric field of a group. -/
def numeric (key : String) (values : ℕ) : List String → Bool → Except String (Option ℕ) :=
  single (key ++ " takes a single numeric value") (parseRatelimitValue values)

/-- What the entries given for a setting stand for. -/
def parse (replace : Bool) (entries : List String) (reset : Bool) : (k : Key) → Except String k.Value
  | relay => relayOverride replace entries reset
  | discoveryDns => discoveryOverride replace entries reset
  | subnet => configuredSubnet entries reset
  | ratelimitCapacity => numeric "ratelimit.capacity" u64Values entries reset
  | ratelimitRefillPerSec => numeric "ratelimit.refill-per-sec" u64Values entries reset
  | ratelimitStrikeLimit => numeric "ratelimit.strike-limit" u32Values entries reset
  | ratelimitGlobalCapacity => numeric "ratelimit.global-capacity" u64Values entries reset
  | ratelimitGlobalRefillPerSec => numeric "ratelimit.global-refill-per-sec" u64Values entries reset
  | ratelimitGlobalStrikeLimit => numeric "ratelimit.global-strike-limit" u32Values entries reset
  | dropMonitorWindow => numeric "drop-monitor.window" u64Values entries reset
  | dropMonitorThreshold => numeric "drop-monitor.threshold" u64Values entries reset
  | dropMonitorCooldown => numeric "drop-monitor.cooldown" u64Values entries reset
  | pathFlapThreshold => numeric "path-flap.threshold" u32Values entries reset
  | pathFlapWindow => numeric "path-flap.window" u64Values entries reset
  | reconnectLogThreshold => numeric "reconnect-log.threshold" u32Values entries reset
  | reconnectLogWindow => numeric "reconnect-log.window" u64Values entries reset
  | reconnectColdThreshold => numeric "reconnect-cold.threshold" u32Values entries reset
  | reconnectColdBackoff => numeric "reconnect-cold.backoff" u64Values entries reset
  | reconnectFrozenThreshold => numeric "reconnect-frozen.threshold" u32Values entries reset
  | reconnectFrozenBackoff => numeric "reconnect-frozen.backoff" u64Values entries reset
  | reconnectHolddownMinUptime => numeric "reconnect-holddown.min-uptime" u64Values entries reset
  | reconnectHolddownJitterPct => numeric "reconnect-holddown.jitter-pct" u32Values entries reset
  | ipcRequestTimeout => numeric "ipc.request-timeout" u64Values entries reset
  | ipcResponseTimeout => numeric "ipc.response-timeout" u64Values entries reset
  | ipcMaxClients => numeric "ipc.max-clients" Host.usizeValues entries reset
  | ipcReservedClients => numeric "ipc.reserved-clients" Host.usizeValues entries reset
  | helloTimeout => numeric "hello.timeout" u64Values entries reset
  | joinRequestTimeout => numeric "join.request-timeout" u64Values entries reset
  | statusCacheInterval => numeric "status-cache.interval" u64Values entries reset
  | nukeProposalTtl => single "nuke-proposal-ttl takes a single duration, e.g. 24h" parseDuration entries reset
  | listenPort => single "listen-port takes a single port number" (parseRatelimitValue u16Values) entries reset
  | pollerInterval =>
    single "poller-interval takes a single value in seconds" (parseRatelimitValue u64Values) entries reset
  | logRetention => single "log-retention takes a single value in days" (parseRatelimitValue u32Values) entries reset
  | inviteDefaultExpiry =>
    single "invite-default-expiry takes a single duration, e.g. 24h" parseDuration entries reset
  | selfcaptureMitigation =>
    single "selfcapture-mitigation takes a single value: on/off" parseBoolValue entries reset
  | logLevel =>
    single "log-level takes a single value: trace/debug/info/warn/error" parseLogLevelValue entries reset
  | pathPreference =>
    single "path-preference takes a single value: direct/relay/tor/veilid" parsePathPreferenceValue entries reset

end Parse

end Key

/-- A config as one value for each setting. -/
def AppConfig.value (cfg : AppConfig) : (k : Key) → k.Value
  | .relay => cfg.relay
  | .discoveryDns => cfg.discoveryDns
  | .subnet => cfg.subnet
  | .ratelimitCapacity => cfg.ratelimit.capacity
  | .ratelimitRefillPerSec => cfg.ratelimit.refillPerSec
  | .ratelimitStrikeLimit => cfg.ratelimit.strikeLimit
  | .ratelimitGlobalCapacity => cfg.ratelimit.globalCapacity
  | .ratelimitGlobalRefillPerSec => cfg.ratelimit.globalRefillPerSec
  | .ratelimitGlobalStrikeLimit => cfg.ratelimit.globalStrikeLimit
  | .dropMonitorWindow => cfg.dropMonitor.windowSecs
  | .dropMonitorThreshold => cfg.dropMonitor.threshold
  | .dropMonitorCooldown => cfg.dropMonitor.cooldownSecs
  | .pathFlapThreshold => cfg.pathFlap.threshold
  | .pathFlapWindow => cfg.pathFlap.windowSecs
  | .reconnectLogThreshold => cfg.reconnectLog.threshold
  | .reconnectLogWindow => cfg.reconnectLog.windowSecs
  | .reconnectColdThreshold => cfg.reconnectCold.threshold
  | .reconnectColdBackoff => cfg.reconnectCold.backoffSecs
  | .reconnectFrozenThreshold => cfg.reconnectFrozen.threshold
  | .reconnectFrozenBackoff => cfg.reconnectFrozen.backoffSecs
  | .reconnectHolddownMinUptime => cfg.reconnectHolddown.minUptimeSecs
  | .reconnectHolddownJitterPct => cfg.reconnectHolddown.jitterPct
  | .ipcRequestTimeout => cfg.ipc.requestTimeoutSecs
  | .ipcResponseTimeout => cfg.ipc.responseTimeoutSecs
  | .ipcMaxClients => cfg.ipc.maxClients
  | .ipcReservedClients => cfg.ipc.reservedClients
  | .helloTimeout => cfg.hello.timeoutSecs
  | .joinRequestTimeout => cfg.join.requestTimeoutSecs
  | .statusCacheInterval => cfg.statusCache.intervalSecs
  | .nukeProposalTtl => cfg.nukeProposalTtl
  | .listenPort => cfg.listenPort
  | .pollerInterval => cfg.pollerInterval
  | .logRetention => cfg.logRetention
  | .inviteDefaultExpiry => cfg.inviteDefaultExpiry
  | .selfcaptureMitigation => cfg.selfcaptureMitigation
  | .logLevel => cfg.logLevel
  | .pathPreference => cfg.pathPreference

/-- The config of given values. -/
def AppConfig.ofValues (f : (k : Key) → k.Value) : AppConfig where
  subnet := f .subnet
  relay := f .relay
  discoveryDns := f .discoveryDns
  ratelimit := ⟨f .ratelimitCapacity, f .ratelimitRefillPerSec, f .ratelimitStrikeLimit, f .ratelimitGlobalCapacity,
    f .ratelimitGlobalRefillPerSec, f .ratelimitGlobalStrikeLimit⟩
  dropMonitor := ⟨f .dropMonitorWindow, f .dropMonitorThreshold, f .dropMonitorCooldown⟩
  pathFlap := ⟨f .pathFlapThreshold, f .pathFlapWindow⟩
  reconnectLog := ⟨f .reconnectLogThreshold, f .reconnectLogWindow⟩
  reconnectCold := ⟨f .reconnectColdThreshold, f .reconnectColdBackoff⟩
  reconnectFrozen := ⟨f .reconnectFrozenThreshold, f .reconnectFrozenBackoff⟩
  reconnectHolddown := ⟨f .reconnectHolddownMinUptime, f .reconnectHolddownJitterPct⟩
  statusCache := ⟨f .statusCacheInterval⟩
  join := ⟨f .joinRequestTimeout⟩
  hello := ⟨f .helloTimeout⟩
  ipc := ⟨f .ipcRequestTimeout, f .ipcResponseTimeout, f .ipcMaxClients, f .ipcReservedClients⟩
  nukeProposalTtl := f .nukeProposalTtl
  listenPort := f .listenPort
  pollerInterval := f .pollerInterval
  logRetention := f .logRetention
  inviteDefaultExpiry := f .inviteDefaultExpiry
  selfcaptureMitigation := f .selfcaptureMitigation
  logLevel := f .logLevel
  pathPreference := f .pathPreference

theorem AppConfig.value_ofValues (f : (k : Key) → k.Value) : (AppConfig.ofValues f).value = f := by
  funext k
  cases k <;> rfl

/-- One setting changes. -/
def AppConfig.update (cfg : AppConfig) (k : Key) (v : k.Value) : AppConfig :=
  AppConfig.ofValues (Function.update cfg.value k v)

theorem AppConfig.value_update (cfg : AppConfig) (k : Key) (v : k.Value) :
    (cfg.update k v).value = Function.update cfg.value k v :=
  AppConfig.value_ofValues _

/-! ### Groups of keys -/

theorem stripPrefix_eq_some {start text rest : String} : stripPrefix start text = some rest ↔ text = start ++ rest := by
  rw [stripPrefix, Option.map_eq_some_iff]
  constructor
  · rintro ⟨tail, htail, rfl⟩
    obtain ⟨head, hhead, hstart⟩ := List.dropPrefix?_eq_some_iff.mp htail
    obtain rfl := eq_of_beq hstart
    rw [← String.toList_inj, hhead, String.toList_append, String.toList_ofList]
  · rintro rfl
    refine ⟨rest.toList, List.dropPrefix?_eq_some_iff.mpr ⟨start.toList, ?_, beq_self_eq_true _⟩, ?_⟩
    · rw [String.toList_append]
    · rw [String.ofList_toList]

/-- Neither of two texts begins with the other. -/
def Apart (a b : String) : Prop := ¬ a.toList <+: b.toList ∧ ¬ b.toList <+: a.toList

instance (a b : String) : Decidable (Apart a b) := inferInstanceAs (Decidable (_ ∧ _))

theorem Apart.symm {a b : String} (h : Apart a b) : Apart b a := ⟨h.2, h.1⟩

theorem stripPrefix_of_apart {a b : String} (h : Apart a b) (rest : String) : stripPrefix a (b ++ rest) = none := by
  refine Option.eq_none_iff_forall_ne_some.mpr fun rest' heq => ?_
  have htexts : b.toList ++ rest.toList = a.toList ++ rest'.toList := by
    rw [← String.toList_append, ← String.toList_append, stripPrefix_eq_some.mp heq]
  have ha : a.toList <+: b.toList ++ rest.toList := ⟨rest'.toList, htexts.symm⟩
  rcases List.prefix_or_prefix_of_prefix ha (List.prefix_append b.toList rest.toList) with hab | hba
  · exact h.1 hab
  · exact h.2 hba

/-- Of branches with starts apart, a key takes that whose start it begins with, if there is one. -/
theorem inGroup_filterMap {ι : Type*} {α : Type} {start : ι → String} {branch : ι → Option (String → α)} {gs : List ι}
    (hapart : (gs.map start).Pairwise Apart) {g : ι} (hg : g ∈ gs) (sub : String) :
    inGroup (gs.filterMap fun g => (branch g).map fun f => (start g, f)) (start g ++ sub) =
      (branch g).map fun f => f sub := by
  have hskip : ∀ rest : List ι, (∀ g' ∈ rest, Apart (start g') (start g)) →
      inGroup (rest.filterMap fun g => (branch g).map fun f => (start g, f)) (start g ++ sub) = none := by
    intro rest hrest
    refine List.findSome?_eq_none_iff.mpr fun p hp => ?_
    obtain ⟨g', hg', hp⟩ := List.mem_filterMap.mp hp
    obtain ⟨f, -, rfl⟩ := Option.map_eq_some_iff.mp hp
    rw [stripPrefix_of_apart (hrest g' hg'), Option.map_none]
  induction gs with
  | nil => cases hg
  | cons first rest ih =>
    rw [List.map_cons, List.pairwise_cons] at hapart
    rcases List.mem_cons.mp hg with rfl | hrest
    · cases hbranch : branch g with
      | none =>
        rw [List.filterMap_cons_none (by rw [hbranch, Option.map_none])]
        exact hskip rest fun g' hg' => (hapart.1 _ (List.mem_map_of_mem hg')).symm
      | some f =>
        rw [List.filterMap_cons_some (by rw [hbranch, Option.map_some]), inGroup, List.findSome?_cons,
          stripPrefix_eq_some.mpr rfl]
        rfl
    · rw [← ih hapart.2 hrest]
      cases hbranch : branch first with
      | none => rw [List.filterMap_cons_none (by rw [hbranch, Option.map_none])]
      | some f =>
        rw [List.filterMap_cons_some (by rw [hbranch, Option.map_some]), inGroup, List.findSome?_cons,
          stripPrefix_of_apart (hapart.1 _ (List.mem_map_of_mem hrest))]
        rfl

/-- A group of numeric fields as the two functions have it: the setter's fields and the part of the config they belong
to, the rows of `config_get`, if it has any, and the settings they stand for. -/
structure Group where
  start : String
  name : String
  Part : Type
  fields : List (String × NumericField Part)
  part : AppConfig → Part
  put : AppConfig → Part → AppConfig
  rows : Option (List (String × (AppConfig → Option ℕ)))
  keys : List Key

def groups [Host] : List Group :=
  [⟨"ratelimit.", "ratelimit", _, ratelimitFields, (·.ratelimit), fun cfg x => { cfg with ratelimit := x },
      some ratelimitRows, [.ratelimitCapacity, .ratelimitRefillPerSec, .ratelimitStrikeLimit,
      .ratelimitGlobalCapacity, .ratelimitGlobalRefillPerSec, .ratelimitGlobalStrikeLimit]⟩,
    ⟨"drop-monitor.", "drop-monitor", _, dropMonitorFields, (·.dropMonitor), fun cfg x => { cfg with dropMonitor := x },
      some dropMonitorRows, [.dropMonitorWindow, .dropMonitorThreshold, .dropMonitorCooldown]⟩,
    ⟨"path-flap.", "path-flap", _, pathFlapFields, (·.pathFlap), fun cfg x => { cfg with pathFlap := x },
      some pathFlapRows, [.pathFlapThreshold, .pathFlapWindow]⟩,
    ⟨"reconnect-log.", "reconnect-log", _, reconnectLogFields, (·.reconnectLog),
      fun cfg x => { cfg with reconnectLog := x }, some reconnectLogRows,
      [.reconnectLogThreshold, .reconnectLogWindow]⟩,
    ⟨"reconnect-cold.", "reconnect-cold", _, reconnectColdFields, (·.reconnectCold),
      fun cfg x => { cfg with reconnectCold := x }, some reconnectColdRows,
      [.reconnectColdThreshold, .reconnectColdBackoff]⟩,
    ⟨"reconnect-frozen.", "reconnect-frozen", _, reconnectFrozenFields, (·.reconnectFrozen),
      fun cfg x => { cfg with reconnectFrozen := x }, some reconnectFrozenRows,
      [.reconnectFrozenThreshold, .reconnectFrozenBackoff]⟩,
    ⟨"reconnect-holddown.", "reconnect-holddown", _, reconnectHolddownFields, (·.reconnectHolddown),
      fun cfg x => { cfg with reconnectHolddown := x }, none,
      [.reconnectHolddownMinUptime, .reconnectHolddownJitterPct]⟩,
    ⟨"ipc.", "ipc", _, ipcFields, (·.ipc), fun cfg x => { cfg with ipc := x }, some ipcRows,
      [.ipcRequestTimeout, .ipcResponseTimeout, .ipcMaxClients, .ipcReservedClients]⟩,
    ⟨"hello.", "hello", _, helloFields, (·.hello), fun cfg x => { cfg with hello := x }, some helloRows,
      [.helloTimeout]⟩,
    ⟨"join.", "join", _, joinFields, (·.join), fun cfg x => { cfg with join := x }, some joinRows,
      [.joinRequestTimeout]⟩,
    ⟨"status-cache.", "status-cache", _, statusCacheFields, (·.statusCache),
      fun cfg x => { cfg with statusCache := x }, some statusCacheRows, [.statusCacheInterval]⟩]

namespace Group

def setter (g : Group) (cfg : AppConfig) (sub : String) (entries : List String) (reset : Bool) : Outcome AppConfig :=
  within (g.put cfg) (setNumericKey g.name g.fields (g.part cfg) sub entries reset)

def reader (g : Group) : Option (String → Except String Reader) := g.rows.map (readNumericKey g.name)

end Group

theorem groupSetters_eq [Host] (cfg : AppConfig) :
    groupSetters cfg = groups.filterMap fun g => (some (g.setter cfg)).map fun set => (g.start, set) := rfl

theorem groupReaders_eq [Host] :
    groupReaders = groups.filterMap fun g => g.reader.map fun read => (g.start, read) := rfl

/-! ### Keys and settings -/

/-- The settings `config_get` has no branch for. -/
def Key.hidden : Key → Bool
  | reconnectHolddownMinUptime | reconnectHolddownJitterPct => true
  | _ => false

/-- The first entry of a table with this name is that of the first setting with this key. -/
theorem lookup_of_forall₂ {α : Type} {start : String} {R : String × α → Key → Prop}
    (hname : ∀ p k, R p k → start ++ p.1 = k.name) {table : List (String × α)} {keys : List Key}
    (h : List.Forall₂ R table keys) (sub : String) :
    (table.lookup sub = none ∧ keys.find? (fun k => k.name = start ++ sub) = none) ∨
      ∃ a k, table.lookup sub = some a ∧ keys.find? (fun k => k.name = start ++ sub) = some k ∧ R (sub, a) k := by
  induction h with
  | nil => exact .inl ⟨rfl, rfl⟩
  | @cons p k table keys hp _ ih =>
    have hkey : k.name = start ++ sub ↔ sub = p.1 := by
      rw [← hname p k hp, String.append_right_inj, eq_comm]
    by_cases hsub : sub = p.1
    · subst hsub
      refine .inr ⟨p.2, k, ?_, ?_, hp⟩
      · rw [List.lookup_cons, beq_self_eq_true]
      · exact List.find?_cons_of_pos (by simpa using hkey)
    · rw [List.lookup_cons, beq_eq_false_iff_ne.mpr hsub, List.find?_cons_of_neg (by simpa [hkey] using hsub)]
      exact ih

/-- The setter of a group assigns to the first field of that name. -/
theorem setNumericKey_of_some {C : Type} {group : String} {fields : List (String × NumericField C)}
    {sub : String} {f : NumericField C} (h : fields.lookup sub = some f) (c : C) (entries : List String)
    (reset : Bool) : setNumericKey group fields c sub entries reset =
      assign c (f.set c) (Key.numeric (group ++ "." ++ sub) f.values entries reset) := by
  unfold setNumericKey Key.numeric single
  cases reset with
  | true => simp [h, assign]
  | false =>
    match entries with
    | [raw] =>
      simp only [Bool.false_eq_true, if_false, h]
      cases parseRatelimitValue f.values raw with
      | ok n => rfl
      | error e => rfl
    | [] => rfl
    | _ :: _ :: _ => rfl

theorem setNumericKey_of_none {C : Type} (group : String) {fields : List (String × NumericField C)} {sub : String}
    (h : fields.lookup sub = none) (c : C) (entries : List String) (reset : Bool) :
    ∃ e, setNumericKey group fields c sub entries reset = (.error e, c) := by
  unfold setNumericKey
  split
  · simp [h]
  · split
    · simp [h]
    · exact ⟨_, rfl⟩

theorem within_assign {α C : Type} (put : C → AppConfig) (c : C) (set : α → C) (v : Except String α) :
    within put (assign c set v) = assign (put c) (fun a => put (set a)) v := by
  cases v with
  | ok a => rfl
  | error e => rfl

variable [Host]

namespace Group

/-- A field of the setter is the setting `k`. -/
structure Sets (g : Group) (p : String × NumericField g.Part) (k : Key) : Prop where
  name : g.start ++ p.1 = k.name
  set : ∀ cfg replace entries reset,
    assign (g.put cfg (g.part cfg)) (fun v => g.put cfg (p.2.set (g.part cfg) v))
      (Key.numeric (g.name ++ "." ++ p.1) p.2.values entries reset) =
    assign cfg (cfg.update k) (k.parse replace entries reset)

/-- A row shows the setting `k`. -/
structure Shows (g : Group) (p : String × (AppConfig → Option ℕ)) (k : Key) : Prop where
  name : g.start ++ p.1 = k.name
  row : ∀ cfg, renderOpt (p.2 cfg) = k.render (cfg.value k)
  shown : k.hidden = false

structure Agrees (g : Group) : Prop where
  put_part : ∀ cfg, g.put cfg (g.part cfg) = cfg
  fields : List.Forall₂ g.Sets g.fields g.keys
  rows : ∀ rows, g.rows = some rows → List.Forall₂ g.Shows rows g.keys
  hidden : g.rows = none → ∀ k ∈ g.keys, k.hidden = true

end Group

/-- The setters and the rows of every group are those of its settings, one by one. -/
theorem agrees_of_mem : ∀ g ∈ groups, g.Agrees := by
  simp only [groups, List.forall_mem_cons, List.not_mem_nil, false_imp_iff, implies_true, and_true]
  refine ⟨?_, ?_, ?_, ?_, ?_, ?_, ?_, ?_, ?_, ?_, ?_⟩
  all_goals
    refine ⟨fun _ => rfl, ?_, ?_, ?_⟩
    · repeat' first | exact .nil | refine .cons ⟨rfl, fun _ _ _ _ => rfl⟩ ?_
    · rintro _ ⟨⟩
      repeat' first | exact .nil | refine .cons ⟨rfl, fun _ => rfl, rfl⟩ ?_
    · rintro ⟨⟩ <;> decide

/-- Both functions take the key for the setting `k`. -/
structure Names (key : String) (k : Key) : Prop where
  name : key = k.name
  set : ∀ cfg replace entries reset,
    setEntries cfg key replace entries reset = assign cfg (cfg.update k) (k.parse replace entries reset)
  shown : k.hidden = false → reader key = .ok fun cfg => k.render (cfg.value k)
  hides : k.hidden = true → ∃ e, reader key = .error e

/-- Neither function knows the key. -/
structure Refused (key : String) : Prop where
  set : ∀ cfg replace entries reset, ∃ e, setEntries cfg key replace entries reset = (.error e, cfg)
  get : ∃ e, reader key = .error e

/-- The settings with a key of their own. -/
def plainKeys : List Key :=
  [.relay, .discoveryDns, .subnet, .nukeProposalTtl, .listenPort, .pollerInterval, .logRetention,
    .inviteDefaultExpiry, .selfcaptureMitigation, .logLevel, .pathPreference]

def groupStarts : List String :=
  ["ratelimit.", "drop-monitor.", "path-flap.", "reconnect-log.", "reconnect-cold.", "reconnect-frozen.",
    "reconnect-holddown.", "ipc.", "hello.", "join.", "status-cache."]

theorem map_start_groups : groups.map (·.start) = groupStarts := rfl

omit [Host] in
theorem groupStarts_apart : groupStarts.Pairwise Apart := by decide +kernel

omit [Host] in
theorem groupStarts_apart_plain : ∀ start ∈ groupStarts, ∀ k ∈ plainKeys, Apart start k.name := by decide +kernel

section Plain

variable {key : String}

omit [Host] in
theorem readPlain_of_ne (hplain : ∀ k ∈ plainKeys, key ≠ k.name) : readPlain key = .error (unknownOnGet key) := by
  simp only [plainKeys, List.forall_mem_cons, Key.name] at hplain
  unfold readPlain
  split <;> first | rfl | simp at hplain

omit [Host] in
theorem setPlain_of_ne (hplain : ∀ k ∈ plainKeys, key ≠ k.name) (cfg : AppConfig) (entries : List String)
    (reset : Bool) : setPlain cfg key entries reset = (.error (unknownOnSet key), cfg) := by
  simp only [plainKeys, List.forall_mem_cons, Key.name] at hplain
  unfold setPlain
  split <;> first | rfl | simp at hplain

theorem setEntries_of_inGroup (hrelay : key ≠ "relay") (hdns : key ≠ "discovery-dns") (hsubnet : key ≠ "subnet")
    (cfg : AppConfig) (replace : Bool) (entries : List String) (reset : Bool) :
    setEntries cfg key replace entries reset =
      (inGroup (groupSetters cfg) key).elim (setPlain cfg key entries reset) fun set => set entries reset := by
  unfold setEntries
  split
  · contradiction
  · contradiction
  · contradiction
  · cases inGroup (groupSetters cfg) key <;> rfl

omit [Host] in
theorem reader_of_inGroup (hsubnet : key ≠ "subnet") :
    reader key = (inGroup groupReaders key).elim (readPlain key) id := by
  unfold reader
  split
  · contradiction
  · cases inGroup groupReaders key <;> rfl

/-- A key outside the groups is looked for in neither function's groups. -/
theorem inGroup_eq_none (hstart : ∀ start ∈ groupStarts, stripPrefix start key = none) {α : Type}
    (branch : Group → Option (String → α)) :
    inGroup (groups.filterMap fun g => (branch g).map fun f => (g.start, f)) key = none := by
  refine List.findSome?_eq_none_iff.mpr fun p hp => ?_
  obtain ⟨g, hg, hp⟩ := List.mem_filterMap.mp hp
  obtain ⟨f, -, rfl⟩ := Option.map_eq_some_iff.mp hp
  rw [hstart g.start (map_start_groups ▸ List.mem_map_of_mem hg), Option.map_none]

theorem setEntries_plain (hstart : ∀ start ∈ groupStarts, stripPrefix start key = none) (hrelay : key ≠ "relay")
    (hdns : key ≠ "discovery-dns") (hsubnet : key ≠ "subnet") (cfg : AppConfig) (replace : Bool)
    (entries : List String) (reset : Bool) :
    setEntries cfg key replace entries reset = setPlain cfg key entries reset := by
  rw [setEntries_of_inGroup hrelay hdns hsubnet, groupSetters_eq, inGroup_eq_none hstart, Option.elim_none]

theorem reader_plain (hstart : ∀ start ∈ groupStarts, stripPrefix start key = none) (hsubnet : key ≠ "subnet") :
    reader key = readPlain key := by
  rw [reader_of_inGroup hsubnet, groupReaders_eq, inGroup_eq_none hstart, Option.elim_none]

/-- A key of its own names its setting to both functions. -/
theorem names_plain : ∀ k ∈ plainKeys, Names k.name k := by
  have hstart : ∀ k ∈ plainKeys, ∀ start ∈ groupStarts, stripPrefix start k.name = none := by
    intro k hk start hmem
    rw [← String.append_empty (s := k.name)]
    exact stripPrefix_of_apart (groupStarts_apart_plain start hmem k hk) ""
  intro k hk
  have hshown : k.hidden = false := by
    revert k
    decide
  refine ⟨rfl, ?_, fun _ => ?_, fun hhidden => ?_⟩
  · simp only [plainKeys, List.mem_cons, List.not_mem_nil, or_false] at hk
    rcases hk with rfl | rfl | rfl | rfl | rfl | rfl | rfl | rfl | rfl | rfl | rfl
    · exact fun _ _ _ _ => rfl
    · exact fun _ _ _ _ => rfl
    · exact fun _ _ _ _ => rfl
    all_goals exact setEntries_plain (hstart _ (by decide)) (by decide) (by decide) (by decide)
  · simp only [plainKeys, List.mem_cons, List.not_mem_nil, or_false] at hk
    rcases hk with rfl | rfl | rfl | rfl | rfl | rfl | rfl | rfl | rfl | rfl | rfl
    case inr.inr.inl => rfl
    all_goals exact reader_plain (hstart _ (by decide)) (by decide)
  · rw [hshown] at hhidden
    cases hhidden

end Plain

section Groups

variable {g : Group} {k : Key} {sub : String}

theorem ne_of_mem_plainKeys (hg : g ∈ groups) (hk : k ∈ plainKeys) : g.start ++ sub ≠ k.name := by
  intro heq
  have hstart : g.start ∈ groupStarts := map_start_groups ▸ List.mem_map_of_mem hg
  refine (groupStarts_apart_plain g.start hstart k hk).1 ⟨sub.toList, ?_⟩
  rw [← String.toList_append, heq]

theorem inGroup_group (hg : g ∈ groups) {α : Type} (branch : Group → Option (String → α)) :
    inGroup (groups.filterMap fun g => (branch g).map fun f => (g.start, f)) (g.start ++ sub) =
      (branch g).map fun f => f sub := by
  refine inGroup_filterMap ?_ hg sub
  rw [map_start_groups]
  exact groupStarts_apart

theorem setEntries_group (hg : g ∈ groups) (cfg : AppConfig) (replace : Bool) (entries : List String) (reset : Bool) :
    setEntries cfg (g.start ++ sub) replace entries reset = g.setter cfg sub entries reset := by
  rw [setEntries_of_inGroup (ne_of_mem_plainKeys hg (k := .relay) (by decide))
    (ne_of_mem_plainKeys hg (k := .discoveryDns) (by decide)) (ne_of_mem_plainKeys hg (k := .subnet) (by decide)),
    groupSetters_eq, inGroup_group hg, Option.map_some, Option.elim_some]

/-- A key of a group without rows is unknown. -/
theorem reader_group (hg : g ∈ groups) :
    reader (g.start ++ sub) =
      (g.rows.map fun rows => readNumericKey g.name rows sub).getD (.error (unknownOnGet (g.start ++ sub))) := by
  rw [reader_of_inGroup (ne_of_mem_plainKeys hg (k := .subnet) (by decide)), groupReaders_eq,
    inGroup_group hg, Group.reader, Option.map_map]
  cases g.rows with
  | none => exact readPlain_of_ne fun k hk => ne_of_mem_plainKeys hg hk
  | some rows => rfl

/-- A key of a group names a setting of the group to both functions, or neither has it. -/
theorem dispatched_group (hg : g ∈ groups) (sub : String) :
    (∃ k, Names (g.start ++ sub) k) ∨ Refused (g.start ++ sub) := by
  have hagrees := agrees_of_mem g hg
  -- the rows find the same setting as the fields
  have hrows : ∀ rows, g.rows = some rows → _ := fun rows h =>
    lookup_of_forall₂ (fun _ _ h => h.name) (hagrees.rows rows h) sub
  rcases lookup_of_forall₂ (fun _ _ h => h.name) hagrees.fields sub with ⟨hnone, hkeys⟩ | ⟨f, k, hsome, hkeys, hsets⟩
  · refine .inr ⟨fun cfg replace entries reset => ?_, ?_⟩
    · obtain ⟨e, he⟩ := setNumericKey_of_none g.name hnone (g.part cfg) entries reset
      exact ⟨e, by rw [setEntries_group hg, Group.setter, he, within, hagrees.put_part]⟩
    · rw [reader_group hg]
      cases h : g.rows with
      | none => exact ⟨_, rfl⟩
      | some rows =>
        rcases hrows rows h with ⟨hrow, -⟩ | ⟨_, _, -, hfound, -⟩
        · rw [Option.map_some, Option.getD_some, readNumericKey, hrow]
          exact ⟨_, rfl⟩
        · rw [hkeys] at hfound
          cases hfound
  · have hset : ∀ cfg replace entries reset, setEntries cfg (g.start ++ sub) replace entries reset =
        assign cfg (cfg.update k) (k.parse replace entries reset) := by
      intro cfg replace entries reset
      rw [setEntries_group hg, Group.setter, setNumericKey_of_some hsome, within_assign]
      exact hsets.set cfg replace entries reset
    have hget : reader (g.start ++ sub) = _ := reader_group hg
    cases h : g.rows with
    | none =>
      have hhidden := hagrees.hidden h k (List.mem_of_find?_eq_some hkeys)
      refine .inl ⟨k, hsets.name, hset, fun hshown => ?_, fun _ => ⟨_, by rw [hget, h, Option.map_none]; rfl⟩⟩
      rw [hhidden] at hshown
      cases hshown
    | some rows =>
      rcases hrows rows h with ⟨-, hfound⟩ | ⟨read, k', hrow, hfound, hshows⟩
      · rw [hkeys] at hfound
        cases hfound
      · rw [hkeys] at hfound
        cases hfound
        refine .inl ⟨k, hsets.name, hset, fun _ => ?_, fun hhidden => ?_⟩
        · rw [hget, h, Option.map_some, Option.getD_some, readNumericKey, hrow]
          exact congrArg Except.ok (funext hshows.row)
        · rw [hshows.shown] at hhidden
          cases hhidden

end Groups

/-- **The two functions agree on the keys**: a key names a setting, to both alike, or is unknown to both. -/
theorem dispatched (key : String) : (∃ k, Names key k) ∨ Refused key := by
  by_cases hgroup : ∃ start ∈ groupStarts, ∃ sub, stripPrefix start key = some sub
  · obtain ⟨start, hmem, sub, hsub⟩ := hgroup
    rw [← map_start_groups] at hmem
    obtain ⟨g, hg, rfl⟩ := List.mem_map.mp hmem
    rw [stripPrefix_eq_some.mp hsub]
    exact dispatched_group hg sub
  by_cases hplain : ∃ k ∈ plainKeys, key = k.name
  · obtain ⟨k, hk, rfl⟩ := hplain
    exact .inl ⟨k, names_plain k hk⟩
  have hstart : ∀ start ∈ groupStarts, stripPrefix start key = none := by
    intro start hmem
    refine Option.eq_none_iff_forall_ne_some.mpr fun sub hsub => ?_
    exact hgroup ⟨start, hmem, sub, hsub⟩
  have hne : ∀ k ∈ plainKeys, key ≠ k.name := fun k hk heq => hplain ⟨k, hk, heq⟩
  have hsubnet : key ≠ "subnet" := hne .subnet (by decide)
  refine .inr ⟨fun cfg replace entries reset => ⟨unknownOnSet key, ?_⟩, unknownOnGet key, ?_⟩
  · rw [setEntries_plain hstart (hne .relay (by decide)) (hne .discoveryDns (by decide)) hsubnet]
    exact setPlain_of_ne hne cfg entries reset
  · rw [reader_plain hstart hsubnet]
    exact readPlain_of_ne hne

end Tetron.Config.Overrides
