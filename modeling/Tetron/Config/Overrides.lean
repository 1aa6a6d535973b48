import Tetron.Addressing.Cidr
import Tetron.Dht

/-!
# `tetron config set` and `tetron config get`

The settings an operator may override, each under a key of its own. `config_set` reads a value, checks it and stores
it in the config; `config_get` renders what is stored. Both find the setting by its key: a fixed one, or a group of
numeric fields such as `ratelimit.` followed by the name of the field. They list the keys separately, so nothing but
care keeps the two lists in step.
-/

namespace Tetron.Config.Overrides

/-! ### The schema -/

structure ServerOverride where
  servers : List String := []
  replace : Bool := false
deriving DecidableEq, Repr

def ServerOverride.isUnset (o : ServerOverride) : Bool := o.servers.isEmpty

structure RateLimitConfig where
  capacity : Option ℕ := none
  refillPerSec : Option ℕ := none
  strikeLimit : Option ℕ := none
  globalCapacity : Option ℕ := none
  globalRefillPerSec : Option ℕ := none
  globalStrikeLimit : Option ℕ := none
deriving DecidableEq, Repr

structure DropMonitorConfig where
  windowSecs : Option ℕ := none
  threshold : Option ℕ := none
  cooldownSecs : Option ℕ := none
deriving DecidableEq, Repr

structure PathFlapConfig where
  threshold : Option ℕ := none
  windowSecs : Option ℕ := none
deriving DecidableEq, Repr

structure ReconnectLogConfig where
  threshold : Option ℕ := none
  windowSecs : Option ℕ := none
deriving DecidableEq, Repr

structure ReconnectColdConfig where
  threshold : Option ℕ := none
  backoffSecs : Option ℕ := none
deriving DecidableEq, Repr

structure ReconnectFrozenConfig where
  threshold : Option ℕ := none
  backoffSecs : Option ℕ := none
deriving DecidableEq, Repr

structure ReconnectHolddownConfig where
  minUptimeSecs : Option ℕ := none
  jitterPct : Option ℕ := none
deriving DecidableEq, Repr

structure IpcConfig where
  requestTimeoutSecs : Option ℕ := none
  responseTimeoutSecs : Option ℕ := none
  maxClients : Option ℕ := none
  reservedClients : Option ℕ := none
deriving DecidableEq, Repr

structure HelloConfig where
  timeoutSecs : Option ℕ := none
deriving DecidableEq, Repr

structure JoinConfig where
  requestTimeoutSecs : Option ℕ := none
deriving DecidableEq, Repr

structure StatusCacheConfig where
  intervalSecs : Option ℕ := none
deriving DecidableEq, Repr

/-- The fields of the config that have a key. -/
structure AppConfig where
  subnet : Option Subnet := none
  relay : ServerOverride := {}
  discoveryDns : ServerOverride := {}
  ratelimit : RateLimitConfig := {}
  dropMonitor : DropMonitorConfig := {}
  pathFlap : PathFlapConfig := {}
  reconnectLog : ReconnectLogConfig := {}
  reconnectCold : ReconnectColdConfig := {}
  reconnectFrozen : ReconnectFrozenConfig := {}
  reconnectHolddown : ReconnectHolddownConfig := {}
  statusCache : StatusCacheConfig := {}
  join : JoinConfig := {}
  hello : HelloConfig := {}
  ipc : IpcConfig := {}
  nukeProposalTtl : Option ℕ := none
  listenPort : Option ℕ := none
  pollerInterval : Option ℕ := none
  logRetention : Option ℕ := none
  inviteDefaultExpiry : Option ℕ := none
  selfcaptureMitigation : Option Bool := none
  logLevel : Option String := none
  pathPreference : Option String := none
deriving DecidableEq, Repr

/-- What the functions take from outside: the scheme of a text `url::Url::parse` accepts, and how many values a
`usize` has. -/
class Host where
  urlScheme : String → Option String
  usizeValues : ℕ

def u16Values : ℕ := 2 ^ 16

def u32Values : ℕ := 2 ^ 32

def u64Values : ℕ := 2 ^ 64

/-! ### Reading a value -/

/-- `str::strip_prefix`. -/
def stripPrefix (start text : String) : Option String :=
  (text.toList.dropPrefix? start.toList).map String.ofList

/-- `str::to_ascii_lowercase`. -/
def toAsciiLowercase (text : String) : String := String.ofList (text.toList.map Char.toLower)

def parseEntries (value : String) : List String :=
  ((value.toList.splitOn ',').map fun s => String.ofList (trim s)).filter fun s => !s.isEmpty

def parseRatelimitValue (values : ℕ) (raw : String) : Except String ℕ :=
  match Dht.parseUnsigned values raw.toUTF8.data.toList with
  | some n => .ok n
  | none => .error s!"invalid ratelimit value: {raw} (expected a whole number)"

def parseBoolValue (raw : String) : Except String Bool :=
  match toAsciiLowercase raw with
  | "on" | "true" | "1" => .ok true
  | "off" | "false" | "0" => .ok false
  | _ => .error s!"invalid value: {raw} (expected on/off)"

def parseLogLevelValue (raw : String) : Except String String :=
  match toAsciiLowercase raw with
  | "trace" => .ok "trace"
  | "debug" => .ok "debug"
  | "info" => .ok "info"
  | "warn" => .ok "warn"
  | "error" => .ok "error"
  | _ => .error s!"invalid log-level: {raw} (expected trace/debug/info/warn/error)"

def parsePathPreferenceValue (raw : String) : Except String String :=
  match toAsciiLowercase raw with
  | "direct" => .ok "direct"
  | "relay" => .ok "relay"
  | "tor" => .ok "tor"
  | "veilid" => .ok "veilid"
  | _ => .error s!"invalid path-preference: {raw} (expected direct/relay/tor/veilid)"

/-- The number and the suffix of a duration; a bare number is in seconds. -/
def splitDuration (s : List Char) : List Char × String :=
  match s.getLast? with
  | some c => if c.isAlpha then (s.dropLast, String.singleton c) else (s, "s")
  | none => (s, "s")

def multiplier (suffix : String) : Option ℕ :=
  match suffix with
  | "s" => some 1
  | "m" => some 60
  | "h" => some 3600
  | "d" => some 86400
  | "w" => some 604800
  | _ => none

def parseDuration (text : String) : Except String ℕ :=
  let s := trim text.toList
  if s = [] then .error "empty duration"
  else
    let numStr := String.ofList (splitDuration s).1
    let suffix := (splitDuration s).2
    match Dht.parseUnsigned u64Values numStr.toUTF8.data.toList with
    | none => .error s!"invalid number '{numStr}'"
    | some value =>
      match multiplier suffix with
      | none => .error s!"unknown suffix '{suffix}', use s/m/h/d/w"
      | some factor =>
        if value * factor < u64Values then .ok (value * factor) else .error "duration overflows u64"

section Urls

variable [Host]

def validateHttpUrl (s : String) : Except String Unit :=
  match Host.urlScheme s with
  | none => .error s!"invalid URL: {s}"
  | some scheme =>
    if scheme = "http" ∨ scheme = "https" then .ok () else .error s!"URL must be http or https: {s}"

def relayPresetRayfish : String := "http://relay.iroh.rayfish.xyz:3340"

def discoveryPresetRayfish : String := "http://dns.iroh.rayfish.xyz:8080"

def resolveUrlEntry (entry preset : String) : Except String String :=
  if entry = "rayfish" then .ok preset
  else do
    validateHttpUrl entry
    return entry

/-- The entries are checked one after the other and kept as they are. -/
def checkedServers (preset : String) (entries : List String) (replace : Bool) : Except String ServerOverride := do
  entries.forM fun e => do
    let _ ← resolveUrlEntry e preset
  return ⟨entries, replace⟩

/-- What `relay` is set to. -/
def relayOverride (replace : Bool) (entries : List String) (reset : Bool) : Except String ServerOverride :=
  if reset then .ok {}
  else if entries = ["off"] then .ok ⟨["off"], true⟩
  else checkedServers relayPresetRayfish entries replace

/-- What `discovery-dns` is set to. -/
def discoveryOverride (replace : Bool) (entries : List String) (reset : Bool) : Except String ServerOverride :=
  if reset then .ok {} else checkedServers discoveryPresetRayfish entries replace

end Urls

/-- The value of a key that takes a single entry; a reset clears it. -/
def single {α : Type} (takes : String) (parse : String → Except String α) (entries : List String) (reset : Bool) :
    Except String (Option α) :=
  if reset then .ok none
  else
    match entries with
    | [raw] => (parse raw).map some
    | _ => .error takes

/-! ### `config_set` -/

/-- The result of a call that takes `&mut C`: whether it succeeds, and what `C` is left as. -/
abbrev Outcome (C : Type) : Type := Except String Unit × C

/-- `*target = value?`. -/
def assign {α C : Type} (c : C) (put : α → C) (value : Except String α) : Outcome C :=
  match value with
  | .ok v => (.ok (), put v)
  | .error e => (.error e, c)

/-- A numeric field of a group: how many values its type has, and its assignment. -/
structure NumericField (C : Type) where
  values : ℕ
  set : C → Option ℕ → C

/-- The setter of a group of numeric fields, which it matches in this order. A reset looks for the field, everything
else first for the value. -/
def setNumericKey {C : Type} (group : String) (fields : List (String × NumericField C)) (c : C) (sub : String)
    (entries : List String) (reset : Bool) : Outcome C :=
  if reset then
    match fields.lookup sub with
    | some f => (.ok (), f.set c none)
    | none => (.error s!"unknown {group} config key: {sub}", c)
  else
    match entries with
    | [raw] =>
      match fields.lookup sub with
      | some f => assign c (fun v => f.set c (some v)) (parseRatelimitValue f.values raw)
      | none => (.error s!"unknown {group} config key: {sub}", c)
    | _ => (.error s!"{group}.{sub} takes a single numeric value", c)

def ratelimitFields : List (String × NumericField RateLimitConfig) :=
  [("capacity", ⟨u64Values, fun rl v => { rl with capacity := v }⟩),
    ("refill-per-sec", ⟨u64Values, fun rl v => { rl with refillPerSec := v }⟩),
    ("strike-limit", ⟨u32Values, fun rl v => { rl with strikeLimit := v }⟩),
    ("global-capacity", ⟨u64Values, fun rl v => { rl with globalCapacity := v }⟩),
    ("global-refill-per-sec", ⟨u64Values, fun rl v => { rl with globalRefillPerSec := v }⟩),
    ("global-strike-limit", ⟨u32Values, fun rl v => { rl with globalStrikeLimit := v }⟩)]

def setRatelimitKey : RateLimitConfig → String → List String → Bool → Outcome RateLimitConfig :=
  setNumericKey "ratelimit" ratelimitFields

def dropMonitorFields : List (String × NumericField DropMonitorConfig) :=
  [("window", ⟨u64Values, fun dm v => { dm with windowSecs := v }⟩),
    ("threshold", ⟨u64Values, fun dm v => { dm with threshold := v }⟩),
    ("cooldown", ⟨u64Values, fun dm v => { dm with cooldownSecs := v }⟩)]

def setDropMonitorKey : DropMonitorConfig → String → List String → Bool → Outcome DropMonitorConfig :=
  setNumericKey "drop-monitor" dropMonitorFields

def pathFlapFields : List (String × NumericField PathFlapConfig) :=
  [("threshold", ⟨u32Values, fun pf v => { pf with threshold := v }⟩),
    ("window", ⟨u64Values, fun pf v => { pf with windowSecs := v }⟩)]

def setPathFlapKey : PathFlapConfig → String → List String → Bool → Outcome PathFlapConfig :=
  setNumericKey "path-flap" pathFlapFields

def reconnectLogFields : List (String × NumericField ReconnectLogConfig) :=
  [("threshold", ⟨u32Values, fun rl v => { rl with threshold := v }⟩),
    ("window", ⟨u64Values, fun rl v => { rl with windowSecs := v }⟩)]

def setReconnectLogKey : ReconnectLogConfig → String → List String → Bool → Outcome ReconnectLogConfig :=
  setNumericKey "reconnect-log" reconnectLogFields

def reconnectColdFields : List (String × NumericField ReconnectColdConfig) :=
  [("threshold", ⟨u32Values, fun rc v => { rc with threshold := v }⟩),
    ("backoff", ⟨u64Values, fun rc v => { rc with backoffSecs := v }⟩)]

def setReconnectColdKey : ReconnectColdConfig → String → List String → Bool → Outcome ReconnectColdConfig :=
  setNumericKey "reconnect-cold" reconnectColdFields

def reconnectFrozenFields : List (String × NumericField ReconnectFrozenConfig) :=
  [("threshold", ⟨u32Values, fun rf v => { rf with threshold := v }⟩),
    ("backoff", ⟨u64Values, fun rf v => { rf with backoffSecs := v }⟩)]

def setReconnectFrozenKey : ReconnectFrozenConfig → String → List String → Bool → Outcome ReconnectFrozenConfig :=
  setNumericKey "reconnect-frozen" reconnectFrozenFields

def reconnectHolddownFields : List (String × NumericField ReconnectHolddownConfig) :=
  [("min-uptime", ⟨u64Values, fun rh v => { rh with minUptimeSecs := v }⟩),
    ("jitter-pct", ⟨u32Values, fun rh v => { rh with jitterPct := v }⟩)]

def setReconnectHolddownKey :
    ReconnectHolddownConfig → String → List String → Bool → Outcome ReconnectHolddownConfig :=
  setNumericKey "reconnect-holddown" reconnectHolddownFields

def ipcFields [Host] : List (String × NumericField IpcConfig) :=
  [("request-timeout", ⟨u64Values, fun ic v => { ic with requestTimeoutSecs := v }⟩),
    ("response-timeout", ⟨u64Values, fun ic v => { ic with responseTimeoutSecs := v }⟩),
    ("max-clients", ⟨Host.usizeValues, fun ic v => { ic with maxClients := v }⟩),
    ("reserved-clients", ⟨Host.usizeValues, fun ic v => { ic with reservedClients := v }⟩)]

def setIpcKey [Host] : IpcConfig → String → List String → Bool → Outcome IpcConfig :=
  setNumericKey "ipc" ipcFields

def helloFields : List (String × NumericField HelloConfig) :=
  [("timeout", ⟨u64Values, fun hc v => { hc with timeoutSecs := v }⟩)]

def setHelloKey : HelloConfig → String → List String → Bool → Outcome HelloConfig :=
  setNumericKey "hello" helloFields

def joinFields : List (String × NumericField JoinConfig) :=
  [("request-timeout", ⟨u64Values, fun jc v => { jc with requestTimeoutSecs := v }⟩)]

def setJoinKey : JoinConfig → String → List String → Bool → Outcome JoinConfig :=
  setNumericKey "join" joinFields

def statusCacheFields : List (String × NumericField StatusCacheConfig) :=
  [("interval", ⟨u64Values, fun sc v => { sc with intervalSecs := v }⟩)]

def setStatusCacheKey : StatusCacheConfig → String → List String → Bool → Outcome StatusCacheConfig :=
  setNumericKey "status-cache" statusCacheFields

/-- The setter of a group works on the group's part of the config. -/
def within {C : Type} (put : C → AppConfig) (o : Outcome C) : Outcome AppConfig := (o.1, put o.2)

section Set

variable [Host] (cfg : AppConfig)

/-- The arms of `config_set` for the groups, in its order. -/
def groupSetters : List (String × (String → List String → Bool → Outcome AppConfig)) :=
  [("ratelimit.", fun sub entries reset =>
      within (fun x => { cfg with ratelimit := x }) (setRatelimitKey cfg.ratelimit sub entries reset)),
    ("drop-monitor.", fun sub entries reset =>
      within (fun x => { cfg with dropMonitor := x }) (setDropMonitorKey cfg.dropMonitor sub entries reset)),
    ("path-flap.", fun sub entries reset =>
      within (fun x => { cfg with pathFlap := x }) (setPathFlapKey cfg.pathFlap sub entries reset)),
    ("reconnect-log.", fun sub entries reset =>
      within (fun x => { cfg with reconnectLog := x }) (setReconnectLogKey cfg.reconnectLog sub entries reset)),
    ("reconnect-cold.", fun sub entries reset =>
      within (fun x => { cfg with reconnectCold := x }) (setReconnectColdKey cfg.reconnectCold sub entries reset)),
    ("reconnect-frozen.", fun sub entries reset =>
      within (fun x => { cfg with reconnectFrozen := x })
        (setReconnectFrozenKey cfg.reconnectFrozen sub entries reset)),
    ("reconnect-holddown.", fun sub entries reset =>
      within (fun x => { cfg with reconnectHolddown := x })
        (setReconnectHolddownKey cfg.reconnectHolddown sub entries reset)),
    ("ipc.", fun sub entries reset =>
      within (fun x => { cfg with ipc := x }) (setIpcKey cfg.ipc sub entries reset)),
    ("hello.", fun sub entries reset =>
      within (fun x => { cfg with hello := x }) (setHelloKey cfg.hello sub entries reset)),
    ("join.", fun sub entries reset =>
      within (fun x => { cfg with join := x }) (setJoinKey cfg.join sub entries reset)),
    ("status-cache.", fun sub entries reset =>
      within (fun x => { cfg with statusCache := x }) (setStatusCacheKey cfg.statusCache sub entries reset))]

/-- The first group whose name the key starts with, and the rest of the key. -/
def inGroup {α : Type} (groups : List (String × (String → α))) (key : String) : Option α :=
  groups.findSome? fun g => (stripPrefix g.1 key).map g.2

def unknownOnSet (key : String) : String :=
  s!"unknown config key: {key} (expected relay, discovery-dns, subnet, " ++
    "nuke-proposal-ttl, listen-port, poller-interval, log-retention, " ++
    "invite-default-expiry, selfcapture-mitigation, log-level, path-preference, " ++
    "drop-monitor.<window|threshold|cooldown>, path-flap.<threshold|window>, " ++
    "reconnect-log.<threshold|window>, reconnect-cold.<threshold|backoff>, " ++
    "reconnect-frozen.<threshold|backoff>, " ++
    "reconnect-holddown.<min-uptime|jitter-pct>, status-cache.interval, " ++
    "join.request-timeout, hello.timeout, " ++
    "ipc.<request-timeout|response-timeout|max-clients|reserved-clients>, or " ++
    "ratelimit.<capacity|refill-per-sec|strike-limit|global-capacity|" ++
    "global-refill-per-sec|global-strike-limit>)"

/-- The arms of `config_set` after the groups. -/
def setPlain (key : String) (entries : List String) (reset : Bool) : Outcome AppConfig :=
  match key with
  | "nuke-proposal-ttl" => assign cfg (fun v => { cfg with nukeProposalTtl := v })
      (single "nuke-proposal-ttl takes a single duration, e.g. 24h" parseDuration entries reset)
  | "listen-port" => assign cfg (fun v => { cfg with listenPort := v })
      (single "listen-port takes a single port number" (parseRatelimitValue u16Values) entries reset)
  | "poller-interval" => assign cfg (fun v => { cfg with pollerInterval := v })
      (single "poller-interval takes a single value in seconds" (parseRatelimitValue u64Values) entries reset)
  | "log-retention" => assign cfg (fun v => { cfg with logRetention := v })
      (single "log-retention takes a single value in days" (parseRatelimitValue u32Values) entries reset)
  | "invite-default-expiry" => assign cfg (fun v => { cfg with inviteDefaultExpiry := v })
      (single "invite-default-expiry takes a single duration, e.g. 24h" parseDuration entries reset)
  | "selfcapture-mitigation" => assign cfg (fun v => { cfg with selfcaptureMitigation := v })
      (single "selfcapture-mitigation takes a single value: on/off" parseBoolValue entries reset)
  | "log-level" => assign cfg (fun v => { cfg with logLevel := v })
      (single "log-level takes a single value: trace/debug/info/warn/error" parseLogLevelValue entries reset)
  | "path-preference" => assign cfg (fun v => { cfg with pathPreference := v })
      (single "path-preference takes a single value: direct/relay/tor/veilid" parsePathPreferenceValue entries reset)
  | other => (.error (unknownOnSet other), cfg)

/-- `config_set` once the value is split into entries. -/
def setEntries (key : String) (replace : Bool) (entries : List String) (reset : Bool) : Outcome AppConfig :=
  match key with
  | "relay" => assign cfg (fun o => { cfg with relay := o }) (relayOverride replace entries reset)
  | "discovery-dns" => assign cfg (fun o => { cfg with discoveryDns := o }) (discoveryOverride replace entries reset)
  | "subnet" => assign cfg (fun s => { cfg with subnet := s }) (configuredSubnet entries reset)
  | key =>
    match inGroup (groupSetters cfg) key with
    | some set => set entries reset
    | none => setPlain cfg key entries reset

/-- An empty value, or the keyword `n0` alone, resets the key. -/
def isReset (entries : List String) : Bool := entries.isEmpty || entries == ["n0"]

def configSet (key value : String) (replace : Bool) : Outcome AppConfig :=
  setEntries cfg key replace (parseEntries value) (isReset (parseEntries value))

end Set

/-! ### `config_get` -/

def renderOpt : Option ℕ → String
  | some n => toString n
  | none => "<default>"

def renderOverride (o : ServerOverride) : String :=
  if o.isUnset then "<default>"
  else if o.servers = ["off"] then "off"
  else String.intercalate "," o.servers ++ if o.replace then " (replace)" else " (augment)"

def renderSubnet : Option Subnet → String
  | some s => s.text
  | none => "<default>"

def renderMitigation : Option Bool → String
  | some true => "on"
  | some false => "off"
  | none => "<default: on>"

/-- A setting shown as its text. -/
def renderWord (unset : String) : Option String → String
  | some text => text
  | none => unset

/-- What a row shows of the config. Which one it is depends on the key alone. -/
abbrev Reader : Type := AppConfig → String

/-- The rows of a group of numeric fields. -/
def readNumericKey (group : String) (rows : List (String × (AppConfig → Option ℕ))) (sub : String) :
    Except String Reader :=
  match rows.lookup sub with
  | some read => .ok fun cfg => renderOpt (read cfg)
  | none => .error s!"unknown {group} config key: {sub}"

def ratelimitRows : List (String × (AppConfig → Option ℕ)) :=
  [("capacity", fun cfg => cfg.ratelimit.capacity),
    ("refill-per-sec", fun cfg => cfg.ratelimit.refillPerSec),
    ("strike-limit", fun cfg => cfg.ratelimit.strikeLimit),
    ("global-capacity", fun cfg => cfg.ratelimit.globalCapacity),
    ("global-refill-per-sec", fun cfg => cfg.ratelimit.globalRefillPerSec),
    ("global-strike-limit", fun cfg => cfg.ratelimit.globalStrikeLimit)]

def dropMonitorRows : List (String × (AppConfig → Option ℕ)) :=
  [("window", fun cfg => cfg.dropMonitor.windowSecs),
    ("threshold", fun cfg => cfg.dropMonitor.threshold),
    ("cooldown", fun cfg => cfg.dropMonitor.cooldownSecs)]

def pathFlapRows : List (String × (AppConfig → Option ℕ)) :=
  [("threshold", fun cfg => cfg.pathFlap.threshold),
    ("window", fun cfg => cfg.pathFlap.windowSecs)]

def reconnectLogRows : List (String × (AppConfig → Option ℕ)) :=
  [("threshold", fun cfg => cfg.reconnectLog.threshold),
    ("window", fun cfg => cfg.reconnectLog.windowSecs)]

def reconnectColdRows : List (String × (AppConfig → Option ℕ)) :=
  [("threshold", fun cfg => cfg.reconnectCold.threshold),
    ("backoff", fun cfg => cfg.reconnectCold.backoffSecs)]

def reconnectFrozenRows : List (String × (AppConfig → Option ℕ)) :=
  [("threshold", fun cfg => cfg.reconnectFrozen.threshold),
    ("backoff", fun cfg => cfg.reconnectFrozen.backoffSecs)]

def ipcRows : List (String × (AppConfig → Option ℕ)) :=
  [("request-timeout", fun cfg => cfg.ipc.requestTimeoutSecs),
    ("response-timeout", fun cfg => cfg.ipc.responseTimeoutSecs),
    ("max-clients", fun cfg => cfg.ipc.maxClients),
    ("reserved-clients", fun cfg => cfg.ipc.reservedClients)]

def helloRows : List (String × (AppConfig → Option ℕ)) :=
  [("timeout", fun cfg => cfg.hello.timeoutSecs)]

def joinRows : List (String × (AppConfig → Option ℕ)) :=
  [("request-timeout", fun cfg => cfg.join.requestTimeoutSecs)]

def statusCacheRows : List (String × (AppConfig → Option ℕ)) :=
  [("interval", fun cfg => cfg.statusCache.intervalSecs)]

/-- The branches of `row` for the groups, in its order. -/
def groupReaders : List (String × (String → Except String Reader)) :=
  [("ratelimit.", readNumericKey "ratelimit" ratelimitRows),
    ("drop-monitor.", readNumericKey "drop-monitor" dropMonitorRows),
    ("path-flap.", readNumericKey "path-flap" pathFlapRows),
    ("reconnect-log.", readNumericKey "reconnect-log" reconnectLogRows),
    ("reconnect-cold.", readNumericKey "reconnect-cold" reconnectColdRows),
    ("reconnect-frozen.", readNumericKey "reconnect-frozen" reconnectFrozenRows),
    ("ipc.", readNumericKey "ipc" ipcRows),
    ("hello.", readNumericKey "hello" helloRows),
    ("join.", readNumericKey "join" joinRows),
    ("status-cache.", readNumericKey "status-cache" statusCacheRows)]

def unknownOnGet (key : String) : String :=
  s!"unknown config key: {key} (expected relay, discovery-dns, subnet, " ++
    "nuke-proposal-ttl, listen-port, poller-interval, log-retention, " ++
    "invite-default-expiry, selfcapture-mitigation, log-level, " ++
    "drop-monitor.<window|threshold|cooldown>, path-flap.<threshold|window>, " ++
    "reconnect-log.<threshold|window>, reconnect-cold.<threshold|backoff>, " ++
    "reconnect-frozen.<threshold|backoff>, or " ++
    "ratelimit.<capacity|refill-per-sec|strike-limit|global-capacity|" ++
    "global-refill-per-sec|global-strike-limit>)"

/-- The branches of `row` after the groups. -/
def readPlain (key : String) : Except String Reader :=
  match key with
  | "nuke-proposal-ttl" => .ok fun cfg => renderOpt cfg.nukeProposalTtl
  | "listen-port" => .ok fun cfg => renderOpt cfg.listenPort
  | "poller-interval" => .ok fun cfg => renderOpt cfg.pollerInterval
  | "log-retention" => .ok fun cfg => renderOpt cfg.logRetention
  | "invite-default-expiry" => .ok fun cfg => renderOpt cfg.inviteDefaultExpiry
  | "selfcapture-mitigation" => .ok fun cfg => renderMitigation cfg.selfcaptureMitigation
  | "log-level" => .ok fun cfg => renderWord "<default: info>" cfg.logLevel
  | "path-preference" => .ok fun cfg => renderWord "<default: auto>" cfg.pathPreference
  | "relay" => .ok fun cfg => renderOverride cfg.relay
  | "discovery-dns" => .ok fun cfg => renderOverride cfg.discoveryDns
  | other => .error (unknownOnGet other)

def reader (key : String) : Except String Reader :=
  match key with
  | "subnet" => .ok fun cfg => renderSubnet cfg.subnet
  | key =>
    match inGroup groupReaders key with
    | some found => found
    | none => readPlain key

def row (cfg : AppConfig) (key : String) : Except String (String × String) :=
  (reader key).map fun read => (key, read cfg)

/-- The rows of `config_get` without a key. -/
def allKeys : List String :=
  ["relay", "discovery-dns", "subnet", "ratelimit.capacity", "ratelimit.refill-per-sec", "ratelimit.strike-limit",
    "ratelimit.global-capacity", "ratelimit.global-refill-per-sec", "ratelimit.global-strike-limit",
    "drop-monitor.window", "drop-monitor.threshold", "drop-monitor.cooldown", "path-flap.threshold",
    "path-flap.window", "reconnect-log.threshold", "reconnect-log.window", "reconnect-cold.threshold",
    "reconnect-cold.backoff", "reconnect-frozen.threshold", "reconnect-frozen.backoff", "join.request-timeout",
    "hello.timeout", "ipc.request-timeout", "ipc.response-timeout", "ipc.max-clients", "ipc.reserved-clients",
    "nuke-proposal-ttl", "listen-port", "poller-interval", "log-retention", "invite-default-expiry",
    "selfcapture-mitigation", "log-level", "path-preference"]

def configGet (cfg : AppConfig) : Option String → Except String (List (String × String))
  | some key => (row cfg key).map fun r => [r]
  | none => allKeys.mapM (row cfg)

end Tetron.Config.Overrides
