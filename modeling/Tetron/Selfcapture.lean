import Tetron.Dht
import Tetron.Lib.Run

/-!
# The routing rule for iroh's own traffic (Linux)

Every TUN device has a route to its subnet in the main routing table, so a datagram iroh sends to the overlay address
of a peer ends up in the node's own TUN device. At each start the daemon therefore installs a policy rule: UDP from its
listen port is looked up in a table of its own, which holds a copy of the default route and nothing else. The rule
outlives the daemon, and the next start finds it again in what `ip rule list` prints.

What `ip` and the kernel do is not part of this repository. It is a parameter: what the daemon relies on are the fields
of `Linux`, and how packets are routed those of `Routing`.

* `rule_follows_port`: however starts on different ports, switching the setting off and on, uninstalls, reboots and
  failing commands follow each other, there is at most one such rule, and a start whose commands work leaves it for the
  port of that start, or removes it, as long as no rule of others is listed as one for the daemon's table.
* `rule_never_decides`: where rules are asked in the order of their priorities, the rule is of no use, as 52369 comes
  after 32766, the priority of the main table. Whatever the main table can route, which is every overlay address and,
  with a default route, everything, never gets to the rule.
-/

namespace Tetron.Selfcapture

/-- `SHADOW_TABLE`. -/
def shadowTable : ℕ := 52369

/-- `RULE_PRIORITY`. -/
def rulePriority : ℕ := 52369

def ascii (text : String) : Bytes := text.toList.map fun c => UInt8.ofNat c.toNat

/-! ### Reading `ip rule list` -/

/-- What follows the first occurrence of `sep`. -/
def afterFirst (sep : Bytes) : Bytes → Option Bytes
  | [] => none
  | b :: rest =>
    match (b :: rest).dropPrefix? sep with
    | some after => some after
    | none => afterFirst sep rest

/-- What comes before the first occurrence of `sep`, or everything. -/
def beforeFirst (sep : Bytes) : Bytes → Bytes
  | [] => []
  | b :: rest => if sep.isPrefixOf (b :: rest) then [] else b :: beforeFirst sep rest

/-- `str::contains`. -/
def contains (needle text : Bytes) : Bool := (afterFirst needle text).isSome

/-- `split(sep).nth(1)`. -/
def secondPart (sep text : Bytes) : Option Bytes := (afterFirst sep text).map (beforeFirst sep)

def isWhitespace (b : UInt8) : Bool := b == 32 || (9 ≤ b && b ≤ 13)

/-- `split_whitespace().next()`. -/
def firstWord (text : Bytes) : Option Bytes :=
  match text.dropWhile isWhitespace with
  | [] => none
  | word => some (word.takeWhile fun b => !isWhitespace b)

def needle : Bytes := ascii "lookup 52369"

/-- The port in a line about the daemon's table. -/
def portOf (line : Bytes) : Option UInt16 :=
  if contains needle line then
    (secondPart (ascii "sport ") line).bind fun part =>
      (firstWord part).bind fun word => (Dht.parseUnsigned (2 ^ 16) word).map UInt16.ofNat
  else none

/-- `current_rule_port`, on the lines of the listing. -/
def currentRulePort (lines : List Bytes) : Option UInt16 := lines.findSome? portOf

/-- How the rule of `add_rule` is listed. -/
def ruleLine (port : UInt16) : Bytes :=
  ascii "52369:\tfrom all ipproto udp " ++ (ascii "sport " ++ (decimal port.toNat ++ 32 :: needle))

section Text

variable {sep word text rest : Bytes}

theorem dropPrefix?_eq_none (h : ¬ sep <+: text) : text.dropPrefix? sep = none := by
  rw [Option.eq_none_iff_forall_ne_some]
  intro after hafter
  obtain ⟨p, htext, hp⟩ := List.dropPrefix?_eq_some_iff.mp hafter
  exact h ⟨after, by rw [htext, eq_of_beq hp]⟩

/-- A separator is found where it occurs, unless it occurs earlier. -/
theorem afterFirst_append (hsep : sep ≠ []) (pre : Bytes)
    (hfirst : ∀ i < pre.length, ¬ sep <+: (pre ++ sep).drop i) :
    afterFirst sep (pre ++ (sep ++ rest)) = some rest := by
  induction pre with
  | nil =>
    obtain ⟨s, sep, rfl⟩ := List.exists_cons_of_ne_nil hsep
    have hdrop : (s :: sep ++ rest).dropPrefix? (s :: sep) = some rest :=
      List.dropPrefix?_eq_some_iff.mpr ⟨s :: sep, rfl, BEq.rfl⟩
    rw [List.nil_append, List.cons_append, afterFirst, ← List.cons_append, hdrop]
  | cons b pre ih =>
    -- an occurrence here would lie before `rest`
    have hnot : ¬ sep <+: b :: (pre ++ (sep ++ rest)) := by
      intro hhere
      have hwhole : b :: pre ++ sep <+: b :: (pre ++ (sep ++ rest)) := ⟨rest, by simp⟩
      exact hfirst 0 (by simp) (List.prefix_of_prefix_length_le hhere hwhole (by simp; omega))
    rw [List.cons_append, afterFirst, dropPrefix?_eq_none hnot]
    exact ih fun i hi => hfirst (i + 1) (by simpa using hi)

theorem contains_append (hsep : sep ≠ []) (pre : Bytes) : contains sep (pre ++ (sep ++ rest)) = true := by
  induction pre with
  | nil =>
    have hfound : afterFirst sep ([] ++ (sep ++ rest)) = some rest :=
      afterFirst_append hsep [] fun i hi => absurd hi (Nat.not_lt_zero i)
    rw [contains, hfound]
    rfl
  | cons b pre ih =>
    rw [contains, List.cons_append, afterFirst]
    cases (b :: (pre ++ (sep ++ rest))).dropPrefix? sep with
    | none => exact ih
    | some after => rfl

/-- A word before a blank is the first word of the part it stands in, if the separator begins with neither. -/
theorem firstWord_beforeFirst {s : UInt8} (hne : word ≠ [])
    (hword : ∀ b ∈ word, isWhitespace b = false ∧ b ≠ s) (hs : s ≠ 32) :
    firstWord (beforeFirst (s :: sep) (word ++ 32 :: rest)) = some word := by
  have hnot : ∀ {b : UInt8} {text : Bytes}, b ≠ s → (s :: sep).isPrefixOf (b :: text) = false := by
    intro b text hb
    rw [List.isPrefixOf_cons_cons, beq_eq_false_iff_ne.mpr hb.symm, Bool.false_and]
  have hpart : beforeFirst (s :: sep) (word ++ 32 :: rest) = word ++ 32 :: beforeFirst (s :: sep) rest := by
    clear hne
    induction word with
    | nil =>
      rw [List.nil_append, beforeFirst, hnot hs.symm]
      rfl
    | cons b word ih =>
      rw [List.cons_append, beforeFirst, hnot (hword b List.mem_cons_self).2]
      simp only [Bool.false_eq_true, if_false, List.cons_append, List.cons.injEq, true_and]
      exact ih fun c hc => hword c (List.mem_cons_of_mem _ hc)
  obtain ⟨b, tail, rfl⟩ := List.exists_cons_of_ne_nil hne
  have hb := (hword b List.mem_cons_self).1
  have htake : ((b :: tail) ++ 32 :: beforeFirst (s :: sep) rest).takeWhile (fun b => !isWhitespace b) = b :: tail := by
    rw [List.takeWhile_append_of_pos fun c hc => by rw [(hword c hc).1]; rfl]
    simp [isWhitespace]
  rw [firstWord, hpart, List.cons_append, List.dropWhile_cons_of_neg (by simp [hb])]
  exact congrArg some htake

theorem decimal_ne_nil (n : ℕ) : decimal n ≠ [] := fun h => Nat.toDigits_ne_nil (List.map_eq_nil_iff.mp h)

theorem mem_decimal {n : ℕ} {b : UInt8} (h : b ∈ decimal n) : isWhitespace b = false ∧ b ≠ 115 := by
  obtain ⟨c, hc, rfl⟩ := List.mem_map.mp h
  obtain ⟨hlo, hhi, -⟩ := Dht.digit_bounds (Nat.isDigit_of_mem_toDigits (by omega) (by omega) hc)
  generalize UInt8.ofNat c.toNat = b at hlo hhi
  have hne : b ≠ 32 ∧ ¬ b ≤ 13 ∧ b ≠ 115 := by
    rw [UInt8.le_iff_toNat_le] at hlo hhi ⊢
    refine ⟨?_, by simp at hlo ⊢; omega, ?_⟩
    · rintro rfl
      simp at hlo
    · rintro rfl
      simp at hhi
  obtain ⟨hblank, hcontrol, hs⟩ := hne
  simp [isWhitespace, hblank, hcontrol, hs]

/-- **The daemon's own rule is read back.** -/
theorem portOf_ruleLine (port : UInt16) : portOf (ruleLine port) = some port := by
  have hcontains : contains needle (ruleLine port) = true := by
    have hline : ruleLine port =
        ascii "52369:\tfrom all ipproto udp " ++ (ascii "sport " ++ (decimal port.toNat ++ [32])) ++
          (needle ++ []) := by
      simp [ruleLine]
    rw [hline]
    exact contains_append (by decide) _
  have hafter : afterFirst (ascii "sport ") (ruleLine port) = some (decimal port.toNat ++ 32 :: needle) :=
    afterFirst_append (by decide) _ (by decide +kernel)
  have hword : firstWord (beforeFirst (ascii "sport ") (decimal port.toNat ++ 32 :: needle)) =
      some (decimal port.toNat) :=
    firstWord_beforeFirst (decimal_ne_nil _) (fun b hb => mem_decimal hb) (by decide)
  rw [portOf, if_pos hcontains, secondPart, hafter, Option.map_some, Option.bind_some, hword, Option.bind_some,
    Dht.parseUnsigned_decimal port.toNat_lt, Option.map_some, UInt16.ofNat_toNat]

end Text

/-- A rule of others for the table 523690 is taken for the daemon's own. -/
example : portOf (ascii "1000:\tfrom all ipproto udp sport 4000 lookup 523690") = some 4000 := by decide +kernel

/-! ### What the daemon relies on -/

structure Packet where
  udp : Bool
  sport : UInt16
  dst : Ipv4Addr

/-- A policy rule: one as `add_rule` makes it, or one of others with its line in the listing. -/
inductive Rule
  | daemon (port : UInt16)
  | other (priority : ℕ) (selects : Packet → Bool) (table : ℕ) (line : Bytes)

namespace Rule

def priority : Rule → ℕ
  | daemon _ => rulePriority
  | other priority _ _ _ => priority

def selects : Rule → Packet → Bool
  | daemon port, p => p.udp && p.sport == port
  | other _ selects _ _, p => selects p

def table : Rule → ℕ
  | daemon _ => shadowTable
  | other _ _ table _ => table

def line : Rule → Bytes
  | daemon port => ruleLine port
  | other _ _ _ line => line

def port? : Rule → Option UInt16
  | daemon port => some port
  | other _ _ _ _ => none

end Rule

/-- The ports of the daemon's rules. -/
def ports (rules : List Rule) : List UInt16 := rules.filterMap Rule.port?

def others (rules : List Rule) : List Rule := rules.filter fun r => r.port?.isNone

/-- The commands `ip` is called with. -/
inductive Command
  | ruleList
  /-- `rule add ipproto udp sport PORT table 52369 priority 52369`. -/
  | ruleAdd (port : UInt16)
  /-- `rule del` with the same arguments. -/
  | ruleDel (port : UInt16)
  /-- `route show default`. -/
  | routeShow
  /-- `route replace default via GATEWAY dev DEVICE table 52369`. -/
  | routeReplace (gateway device : Bytes)
  /-- `route flush table 52369`. -/
  | routeFlush

/-- A machine the daemon runs on, and what the daemon relies on there. -/
class Linux (K : Type) where
  /-- What a command does and what it prints, by lines, unless it fails. -/
  ip : K → Command → K × Option (List Bytes)
  /-- The rules, in the order in which they are listed. -/
  rules : K → List Rule
  /-- Gateway and device of the default route in the daemon's table. -/
  shadow : K → Option (Bytes × Bytes)
  /-- What `ip route show default` prints. -/
  defaults : K → List Bytes
  others_ip : ∀ k c, others (rules (ip k c).1) = others (rules k)
  defaults_ip : ∀ k c, defaults (ip k c).1 = defaults k
  ruleList : ∀ k, ip k .ruleList = (k, some ((rules k).map Rule.line))
  ruleAdd : ∀ k port, port ∉ ports (rules k) → (ip k (.ruleAdd port)).2.isSome = true ∧
    (ports (rules (ip k (.ruleAdd port)).1)).Perm (port :: ports (rules k))
  ruleDel : ∀ k port, port ∈ ports (rules k) → (ip k (.ruleDel port)).2.isSome = true ∧
    ports (rules (ip k (.ruleDel port)).1) = (ports (rules k)).erase port
  routeShow : ∀ k, ip k .routeShow = (k, some (defaults k))
  routeReplace : ∀ k gateway device, shadow (ip k (.routeReplace gateway device)).1 = some (gateway, device) ∧
    ports (rules (ip k (.routeReplace gateway device)).1) = ports (rules k)
  routeFlush : ∀ k, ports (rules (ip k .routeFlush).1) = ports (rules k)

/-! ### The daemon's side -/

/-- What the daemon does with `ip`: it is done, or it runs a command and goes on with what that printed. -/
inductive Script
  | done (ok : Bool)
  | run (c : Command) (andThen : Option (List Bytes) → Script)

/-- Which commands of a start or an uninstall can be run. -/
abbrev Works := Command → Bool

/-- `run_ip(..)?`, and what follows it. -/
def runIp (c : Command) (andThen : Script) : Script := .run c fun out => if out.isSome then andThen else .done false

def addRule (port : UInt16) (andThen : Script) : Script := runIp (.ruleAdd port) andThen

def splitWhitespace (text : Bytes) : List Bytes := (text.splitOnP isWhitespace).filter (· ≠ [])

/-- The words after `via` and `dev`. -/
def viaDev : List Bytes → Option Bytes × Option Bytes → Option Bytes × Option Bytes
  | [], found => found
  | word :: rest, found =>
    if word = ascii "via" then
      match rest with
      | [] => (none, found.2)
      | gateway :: rest => viaDev rest (some gateway, found.2)
    else if word = ascii "dev" then
      match rest with
      | [] => (found.1, none)
      | device :: rest => viaDev rest (found.1, some device)
    else viaDev rest found

/-- The default route, as the daemon reads it from what `ip route show default` prints. -/
def defaultRoute (lines : List Bytes) : Option (Bytes × Bytes) :=
  lines.head?.bind fun line =>
    match viaDev (splitWhitespace line) (none, none) with
    | (some gateway, some device) => some (gateway, device)
    | _ => none

def refreshShadowDefaultRoute : Script :=
  .run .routeShow fun out =>
    match out.bind defaultRoute with
    | some (gateway, device) => runIp (.routeReplace gateway device) (.done true)
    | none => .done false

def applyInner (listenPort : UInt16) : Script :=
  .run .ruleList fun out =>
    match out with
    | none => .done false
    | some lines =>
      match currentRulePort lines with
      | some port =>
        -- if the right rule is there, the gateway may still have changed
        if port = listenPort then refreshShadowDefaultRoute
        else runIp (.ruleDel port) (addRule listenPort refreshShadowDefaultRoute)
      | none => addRule listenPort refreshShadowDefaultRoute

/-- The end of `teardown_inner`, whose failures are all ignored. -/
def flushShadowTable : Script := .run .routeFlush fun _ => .done true

def teardownInner : Script :=
  .run .ruleList fun out =>
    match out.bind currentRulePort with
    | some port => .run (.ruleDel port) fun _ => flushShadowTable
    | none => flushShadowTable

/-- `apply`. -/
def apply (listenPort : UInt16) (enabled : Bool) : Script :=
  if enabled then applyInner listenPort else teardownInner

section Machine

variable {K : Type} [Linux K]

open Linux

/-- A command that cannot be run changes nothing. -/
def Script.exec (works : Works) : Script → K → K
  | done _, k => k
  | run c andThen, k => if works c then (andThen (ip k c).2).exec works (ip k c).1 else (andThen none).exec works k

inductive Event (K : Type) where
  /-- The daemon starts. -/
  | start (listenPort : UInt16) (enabled : Bool) (works : Works)
  | uninstall (works : Works)
  /-- Other tools change their rules, routes are added and removed, the default route changes. -/
  | change (k : K)
  /-- The machine starts. -/
  | reboot (k : K)

def next (k : K) : Event K → K
  | .start listenPort enabled works => (apply listenPort enabled).exec works k
  | .uninstall works => teardownInner.exec works k
  | .change k' | .reboot k' => k'

/-- No rule of others is listed as one for the daemon's table. -/
def TellsApart (k : K) : Prop := ∀ r ∈ others (rules k), contains needle r.line = false

/-- Others leave the daemon's rules alone and have none that are taken for them; no rule survives a reboot. -/
def Event.apart (k : K) : Event K → Prop
  | .change k' => ports (rules k') = ports (rules k) ∧ TellsApart k'
  | .reboot k' => ports (rules k') = [] ∧ TellsApart k'
  | _ => True

/-! ### One rule, for the port of the last start -/

/-- The rules of others are told apart, and there is at most one of the daemon's. -/
structure Single (k : K) : Prop where
  apart : TellsApart k
  single : (ports (rules k)).length ≤ 1

section Single

variable {k : K} {works : Works} {port : UInt16} {c : Command} {andThen : Option (List Bytes) → Script}
  {script : Script}

theorem exec_run (works : Works) (c : Command) (andThen : Option (List Bytes) → Script) (k : K) :
    (Script.run c andThen).exec works k =
      if works c then (andThen (ip k c).2).exec works (ip k c).1 else (andThen none).exec works k := rfl

/-- What every command keeps, every script keeps. -/
theorem Script.exec_keeps {P : K → Prop} (hip : ∀ k c, P k → P (ip k c).1) (script : Script) (h : P k) :
    P (script.exec works k) := by
  induction script generalizing k with
  | done ok => exact h
  | run c andThen ih =>
    rw [exec_run]
    split
    · exact ih _ (hip k c h)
    · exact ih _ h

/-- Listing and showing change nothing. -/
theorem exec_ruleList (hworks : works .ruleList = true) :
    (Script.run .ruleList andThen).exec works k = (andThen (some ((rules k).map Rule.line))).exec works k := by
  rw [exec_run, if_pos hworks, ruleList]

/-- A command that is run and does not fail is followed by the rest. -/
theorem exec_runIp (hworks : works c = true) (hsome : (ip k c).2.isSome = true) :
    (runIp c script).exec works k = script.exec works (ip k c).1 := by
  rw [runIp, exec_run, if_pos hworks, if_pos hsome]

theorem exec_runIp_of_fails (hfails : works c = false) : (runIp c script).exec works k = k := by
  rw [runIp, exec_run, if_neg (by simp [hfails])]
  rfl

theorem TellsApart.ip (h : TellsApart k) (c : Command) : TellsApart (ip k c).1 := by
  intro r hr
  rw [others_ip] at hr
  exact h r hr

theorem TellsApart.exec (h : TellsApart k) (script : Script) : TellsApart (script.exec works k) :=
  script.exec_keeps (P := TellsApart) (fun _ c hk => hk.ip c) h

/-- The daemon finds its own rule in the listing. -/
theorem currentRulePort_listing (h : TellsApart k) :
    currentRulePort ((rules k).map Rule.line) = (ports (rules k)).head? := by
  rw [currentRulePort, List.findSome?_map, ports, ← List.head?_filterMap]
  refine congrArg List.head? (List.filterMap_congr fun r hr => ?_)
  cases r with
  | daemon port => exact portOf_ruleLine port
  | other priority selects table line =>
    have hline := h _ (List.mem_filter.mpr ⟨hr, rfl⟩)
    exact if_neg (by simpa [Rule.line] using hline)

theorem Single.ports_eq (h : Single k) : ports (rules k) = [] ∨ ∃ p, ports (rules k) = [p] := by
  have hlen := h.single
  cases hd : ports (rules k) with
  | nil => exact .inl rfl
  | cons p rest =>
    rw [hd, List.length_cons] at hlen
    have hrest : rest = [] := List.length_eq_zero_iff.mp (by omega)
    exact .inr ⟨p, by rw [hrest]⟩

theorem Single.add (h : Single k) (hnone : ports (rules k) = []) (port : UInt16) :
    (ip k (.ruleAdd port)).2.isSome = true ∧ ports (rules (ip k (.ruleAdd port)).1) = [port] ∧
      Single (ip k (.ruleAdd port)).1 := by
  obtain ⟨hsome, hperm⟩ := ruleAdd k port (by simp [hnone])
  rw [hnone] at hperm
  have hports := List.perm_singleton.mp hperm
  exact ⟨hsome, hports, h.apart.ip _, by rw [hports]; exact le_rfl⟩

theorem Single.del (h : Single k) (hone : ports (rules k) = [port]) :
    (ip k (.ruleDel port)).2.isSome = true ∧ ports (rules (ip k (.ruleDel port)).1) = [] ∧
      Single (ip k (.ruleDel port)).1 := by
  obtain ⟨hsome, hports⟩ := ruleDel k port (by simp [hone])
  rw [hone, List.erase_cons_head] at hports
  exact ⟨hsome, hports, h.apart.ip _, by rw [hports]; exact Nat.zero_le 1⟩

theorem ports_refreshShadowDefaultRoute (works : Works) (k : K) :
    ports (rules (refreshShadowDefaultRoute.exec works k)) = ports (rules k) := by
  rw [refreshShadowDefaultRoute, exec_run]
  cases hshow : works .routeShow with
  | false => rfl
  | true =>
    rw [if_pos rfl, routeShow]
    cases hdefault : (some (defaults k)).bind defaultRoute with
    | none => rfl
    | some route =>
      obtain ⟨gateway, device⟩ := route
      have hports := (routeReplace k gateway device).2
      simp only [runIp, exec_run]
      split
      · split <;> exact hports
      · rfl

theorem shadow_refreshShadowDefaultRoute {gateway device : Bytes} (hshow : works .routeShow = true)
    (hreplace : works (.routeReplace gateway device) = true)
    (hdefault : defaultRoute (defaults k) = some (gateway, device)) :
    shadow (refreshShadowDefaultRoute.exec works k) = some (gateway, device) := by
  have hshadow := (routeReplace k gateway device).1
  rw [refreshShadowDefaultRoute, exec_run, if_pos hshow, routeShow]
  simp only [Option.bind_some, hdefault, runIp, exec_run, hreplace, if_true]
  split <;> exact hshadow

theorem Single.refresh (h : Single k) : Single (refreshShadowDefaultRoute.exec works k) :=
  ⟨h.apart.exec _, (ports_refreshShadowDefaultRoute works k).symm ▸ h.single⟩

/-- A start that finds no rule, or has removed the old one, adds its own and goes on to the default route, or gives
up. -/
theorem Single.addRule (h : Single k) (hnone : ports (rules k) = []) (works : Works) (port : UInt16) :
    ∃ k', Single k' ∧ defaults k' = defaults k ∧
      ((ports (rules k') = [port] ∧ (addRule port refreshShadowDefaultRoute).exec works k =
          refreshShadowDefaultRoute.exec works k') ∨
        (works (.ruleAdd port) = false ∧ (addRule port refreshShadowDefaultRoute).exec works k = k')) := by
  obtain ⟨hsome, hports, hsingle⟩ := h.add hnone port
  cases hadd : works (.ruleAdd port) with
  | false => exact ⟨k, h, rfl, .inr ⟨rfl, exec_runIp_of_fails hadd⟩⟩
  | true => exact ⟨_, hsingle, defaults_ip _ _, .inl ⟨hports, exec_runIp hadd hsome⟩⟩

/-- The commands that are needed to remove a rule. -/
def CanRemove (works : Works) : Prop := works .ruleList = true ∧ ∀ port, works (.ruleDel port) = true

/-- `apply_inner` goes on to the default route with the rule of its port, or gives up with that, the old or no rule. -/
theorem Single.applyInner (h : Single k) (works : Works) (port : UInt16) :
    ∃ k', Single k' ∧ defaults k' = defaults k ∧
      ((ports (rules k') = [port] ∧ (applyInner port).exec works k = refreshShadowDefaultRoute.exec works k') ∨
        (¬ (CanRemove works ∧ works (.ruleAdd port) = true) ∧ (applyInner port).exec works k = k')) := by
  cases hlist : works .ruleList with
  | false =>
    refine ⟨k, h, rfl, .inr ⟨fun hcan => ?_, ?_⟩⟩
    · rw [hcan.1.1] at hlist
      cases hlist
    · rw [Selfcapture.applyInner, exec_run, hlist]
      rfl
  | true =>
    rw [Selfcapture.applyInner, exec_ruleList hlist]
    dsimp only
    rw [currentRulePort_listing h.apart]
    rcases h.ports_eq with hnone | ⟨old, hone⟩
    · rw [hnone]
      obtain ⟨k', hsingle, hdefaults, hcase⟩ := h.addRule hnone works port
      refine ⟨k', hsingle, hdefaults, hcase.imp_right fun ⟨hfails, heq⟩ => ⟨fun hcan => ?_, heq⟩⟩
      rw [hcan.2] at hfails
      cases hfails
    · rw [hone, List.head?_cons]
      dsimp only
      by_cases hsame : old = port
      · subst hsame
        exact ⟨k, h, rfl, .inl ⟨hone, by rw [if_pos rfl]⟩⟩
      · rw [if_neg hsame]
        obtain ⟨hsome, hports, hsingle⟩ := h.del hone
        cases hdel : works (.ruleDel old) with
        | false =>
          refine ⟨k, h, rfl, .inr ⟨fun hcan => ?_, exec_runIp_of_fails hdel⟩⟩
          rw [hcan.1.2] at hdel
          cases hdel
        | true =>
          rw [exec_runIp hdel hsome]
          obtain ⟨k', hsingle', hdefaults, hcase⟩ := hsingle.addRule hports works port
          refine ⟨k', hsingle', hdefaults.trans (defaults_ip _ _),
            hcase.imp_right fun ⟨hfails, heq⟩ => ⟨fun hcan => ?_, heq⟩⟩
          rw [hcan.2] at hfails
          cases hfails

theorem ports_flushShadowTable (works : Works) (k : K) :
    ports (rules (flushShadowTable.exec works k)) = ports (rules k) := by
  rw [flushShadowTable, exec_run]
  split
  · exact routeFlush k
  · rfl

/-- `teardown_inner` removes the rule, if it can list and delete rules. -/
theorem Single.teardownInner (h : Single k) (works : Works) :
    ports (rules (teardownInner.exec works k)) = [] ∨
      (ports (rules (Selfcapture.teardownInner.exec works k)) = ports (rules k) ∧ ¬ CanRemove works) := by
  cases hlist : works .ruleList with
  | false =>
    refine .inr ⟨?_, fun hcan => ?_⟩
    · rw [Selfcapture.teardownInner, exec_run, hlist]
      exact ports_flushShadowTable works k
    · rw [hcan.1] at hlist
      cases hlist
  | true =>
    rw [Selfcapture.teardownInner, exec_ruleList hlist]
    dsimp only [Option.bind_some]
    rw [currentRulePort_listing h.apart]
    rcases h.ports_eq with hnone | ⟨old, hone⟩
    · rw [hnone]
      exact .inl ((ports_flushShadowTable works k).trans hnone)
    · rw [hone, List.head?_cons]
      dsimp only
      rw [exec_run]
      cases hdel : works (.ruleDel old) with
      | false =>
        refine .inr ⟨(ports_flushShadowTable works k).trans hone, fun hcan => ?_⟩
        rw [hcan.2] at hdel
        cases hdel
      | true => exact .inl ((ports_flushShadowTable works _).trans (h.del hone).2.1)

/-- **Step lemma.** -/
theorem Single.next (h : Single k) {e : Event K} (hapart : e.apart k) : Single (next k e) := by
  have hteardown : ∀ works, Single (Selfcapture.teardownInner.exec works k) := by
    intro works
    refine ⟨h.apart.exec _, ?_⟩
    rcases h.teardownInner works with hnone | ⟨hsame, -⟩
    · rw [hnone]
      exact Nat.zero_le 1
    · rw [hsame]
      exact h.single
  cases e with
  | start listenPort enabled works =>
    cases enabled with
    | false => exact hteardown works
    | true =>
      obtain ⟨k', hsingle, -, ⟨-, heq⟩ | ⟨-, heq⟩⟩ := h.applyInner works listenPort
      · exact (congrArg Single heq).mpr hsingle.refresh
      · exact (congrArg Single heq).mpr hsingle
  | uninstall works => exact hteardown works
  | change k' => exact ⟨hapart.2, hapart.1.symm ▸ h.single⟩
  | reboot k' => exact ⟨hapart.2, hapart.1.symm ▸ Nat.zero_le 1⟩

end Single

/-- The daemon is uninstalled, or started with the setting switched off. -/
def Event.removes (works : Works) (e : Event K) : Prop := e = .uninstall works ∨ ∃ port, e = .start port false works

/-- **The rule follows the port.** On a machine without a rule of the daemon's, after every history of starts,
uninstalls, reboots, changes by others and failing commands there is at most one, as long as others leave it alone and
have no rule that is listed as one for the daemon's table. A start that can list, delete and add rules then leaves the
rule for its own port; if the routing commands work too, the table holds the default route of that moment; and a start
with the setting switched off, or an uninstall, leaves no rule. -/
theorem rule_follows_port {k₀ k : K} (hnone : ports (rules k₀) = []) (htells : TellsApart k₀)
    {events : List (Event K)} (hrun : Run (fun k e k' => next k e = k') (fun k e => e.apart k) k₀ events k) :
    (ports (rules k)).length ≤ 1 ∧
    (∀ port works, CanRemove works → works (.ruleAdd port) = true →
      ports (rules (next k (.start port true works))) = [port] ∧
        ∀ gateway device, defaultRoute (defaults k) = some (gateway, device) → works .routeShow = true →
          works (.routeReplace gateway device) = true →
          shadow (next k (.start port true works)) = some (gateway, device)) ∧
    ∀ works e, Event.removes works e → CanRemove works → ports (rules (next k e)) = [] := by
  have h : Single k := hrun.invariant (I := fun _ k => Single k) ⟨htells, hnone.symm ▸ Nat.zero_le 1⟩
    fun _ k e k' h hapart hnext => hnext ▸ h.next hapart
  refine ⟨h.single, fun port works hcan hadd => ?_, fun works e he hcan => ?_⟩
  · obtain ⟨k', -, hdefaults, ⟨hport, heq⟩ | ⟨hcannot, -⟩⟩ := h.applyInner works port
    · have hnext : next k (.start port true works) = refreshShadowDefaultRoute.exec works k' := heq
      rw [hnext]
      refine ⟨(ports_refreshShadowDefaultRoute works k').trans hport, fun gateway device hdefault hshow hreplace => ?_⟩
      exact shadow_refreshShadowDefaultRoute hshow hreplace (hdefaults ▸ hdefault)
    · exact absurd ⟨hcan, hadd⟩ hcannot
  · have hgone : ports (rules (teardownInner.exec works k)) = [] :=
      (h.teardownInner works).resolve_right fun hkept => hkept.2 hcan
    rcases he with rfl | ⟨port, rfl⟩
    · exact hgone
    · exact hgone

/-! ### The rule is asked too late -/

/-- The route a packet gets from the first of these rules that applies to it and whose table has one. -/
def routeBy {R : Type} (lookup : ℕ → Ipv4Addr → Option R) (rules : List Rule) (p : Packet) : Option R :=
  rules.findSome? fun r => if r.selects p then lookup r.table p.dst else none

/-- How packets are routed: the rules are asked in the order of their priorities, and each names a table (none skips
others or drops the packet). -/
class Routing (K : Type) (R : outParam Type) extends Linux K where
  lookup : K → ℕ → Ipv4Addr → Option R
  route : K → Packet → Option R
  sorted : ∀ k, (rules k).Pairwise fun r r' => r.priority ≤ r'.priority
  first_match : ∀ k p, route k p = routeBy (lookup k) (rules k) p

/-- The table of the machine's own routes, and the priority of its rule. -/
def mainTable : ℕ := 254

def mainPriority : ℕ := 32766

/-- The rule of the main table, which applies to every packet. -/
def Rule.IsMain (r : Rule) : Prop :=
  r.port? = none ∧ r.priority = mainPriority ∧ r.table = mainTable ∧ ∀ p, r.selects p = true

/-- Linux comes with the rule of the main table. -/
def HasMain (k : K) : Prop := ∃ r ∈ others (rules k), r.IsMain

/-- Nobody removes it. -/
def Event.keepsMain : Event K → Prop
  | .change k' | .reboot k' => HasMain k'
  | _ => True

theorem HasMain.exec {k : K} {works : Works} (h : HasMain k) (script : Script) : HasMain (script.exec works k) :=
  script.exec_keeps (P := HasMain) (fun k c hk => by rwa [HasMain, others_ip]) h

theorem HasMain.next {k : K} (h : HasMain k) {e : Event K} (hkeeps : e.keepsMain) : HasMain (next k e) := by
  cases e with
  | start listenPort enabled works => exact h.exec _
  | uninstall works => exact h.exec _
  | change k' => exact hkeeps
  | reboot k' => exact hkeeps

/-- What comes after the main rule does not matter for what the main table can route, and the daemon's rule does. -/
theorem routeBy_others {R : Type} {lookup : ℕ → Ipv4Addr → Option R} {rules : List Rule} {p : Packet}
    (hsorted : rules.Pairwise fun r r' => r.priority ≤ r'.priority) {main : Rule} (hmem : main ∈ rules)
    (hmain : main.IsMain) (hroute : (lookup mainTable p.dst).isSome = true) :
    routeBy lookup rules p = routeBy lookup (others rules) p := by
  obtain ⟨hother, hpriority, htable, hselects⟩ := hmain
  obtain ⟨before, after, rfl⟩ := List.append_of_mem hmem
  have hbefore : others before = before := by
    refine List.filter_eq_self.mpr fun r hr => ?_
    have hle := (List.pairwise_append.mp hsorted).2.2 r hr main List.mem_cons_self
    cases r with
    | other priority selects table line => rfl
    | daemon port =>
      rw [hpriority] at hle
      exact absurd (show rulePriority ≤ mainPriority from hle) (by decide)
  obtain ⟨route, hsome⟩ := Option.isSome_iff_exists.mp hroute
  have hask : (if main.selects p then lookup main.table p.dst else none) = some route := by
    rw [if_pos (hselects p), htable, hsome]
  have hfilter : others (before ++ main :: after) = before ++ main :: others after := by
    rw [others, List.filter_append, List.filter_cons_of_pos (by simp [hother])]
    exact congrArg (· ++ main :: others after) hbefore
  rw [hfilter, routeBy, routeBy, List.findSome?_append, List.findSome?_append, List.findSome?_cons,
    List.findSome?_cons, hask]

end Machine

/-- **The rule decides nothing.** Where the rules are asked in the order of their priorities, after every history a
packet for which the main table has a route is routed as if the daemon had no rule, also UDP from the daemon's port to
an overlay address. -/
theorem rule_never_decides {K R : Type} [Routing K R] {k₀ k : K} (hmain : HasMain k₀) {events : List (Event K)}
    (hrun : Run (fun k e k' => next k e = k') (fun _ e => e.keepsMain) k₀ events k) {p : Packet}
    (hroute : (Routing.lookup k mainTable p.dst).isSome = true) :
    Routing.route k p = routeBy (Routing.lookup k) (others (Linux.rules k)) p := by
  have h : HasMain k := hrun.invariant (I := fun _ k => HasMain k) hmain
    fun _ k e k' h hkeeps hnext => hnext ▸ h.next hkeeps
  obtain ⟨r, hr, hismain⟩ := h
  rw [Routing.first_match]
  exact routeBy_others (Routing.sorted k) (List.mem_of_mem_filter hr) hismain hroute

/-! ### A machine -/

namespace Sample

/-- A machine in a home network, with the overlay `10.88.0.0/24`. -/
structure Machine where
  daemons : List UInt16
  shadow : Option (Bytes × Bytes)

def mainRule : Rule := .other mainPriority (fun _ => true) mainTable (ascii "32766:\tfrom all lookup main")

def Machine.rules (k : Machine) : List Rule := mainRule :: k.daemons.map .daemon

def Machine.ip (k : Machine) : Command → Machine × Option (List Bytes)
  | .ruleList => (k, some (k.rules.map Rule.line))
  | .ruleAdd port => if port ∈ k.daemons then (k, none) else ({ k with daemons := k.daemons ++ [port] }, some [])
  | .ruleDel port => if port ∈ k.daemons then ({ k with daemons := k.daemons.erase port }, some []) else (k, none)
  | .routeShow => (k, some [ascii "default via 192.168.1.1 dev eth0"])
  | .routeReplace gateway device => ({ k with shadow := some (gateway, device) }, some [])
  | .routeFlush => ({ k with shadow := none }, some [])

theorem ports_rules (k : Machine) : ports k.rules = k.daemons := by
  rw [ports, Machine.rules, List.filterMap_cons_none rfl, List.filterMap_map]
  exact List.filterMap_some

theorem others_rules (k : Machine) : others k.rules = [mainRule] := by
  simp [others, Machine.rules, mainRule, Rule.port?]

instance linuxMachine : Linux Machine where
  ip := Machine.ip
  rules := Machine.rules
  shadow k := k.shadow
  defaults _ := [ascii "default via 192.168.1.1 dev eth0"]
  others_ip k c := (others_rules _).trans (others_rules k).symm
  defaults_ip _ _ := rfl
  ruleList _ := rfl
  ruleAdd k port h := by
    rw [ports_rules] at h ⊢
    rw [Machine.ip, if_neg h, ports_rules]
    exact ⟨rfl, List.perm_append_singleton port k.daemons⟩
  ruleDel k port h := by
    rw [ports_rules] at h ⊢
    rw [Machine.ip, if_pos h, ports_rules]
    exact ⟨rfl, rfl⟩
  routeShow _ := rfl
  routeReplace _ _ _ := ⟨rfl, rfl⟩
  routeFlush _ := rfl

/-- The device of a route: the main table has the overlay and the default route, the daemon's a copy of the latter. -/
def Machine.lookup (k : Machine) (table : ℕ) (dst : Ipv4Addr) : Option Bytes :=
  if table = mainTable then
    if dst.toNat / 256 = 10 * 65536 + 88 * 256 then some (ascii "tun0") else some (ascii "eth0")
  else if table = shadowTable then k.shadow.map (·.2)
  else none

instance routingMachine : Routing Machine Bytes where
  lookup := Machine.lookup
  route k p := routeBy k.lookup k.rules p
  sorted k := by
    refine List.pairwise_cons.mpr ⟨fun r hr => ?_, List.pairwise_map.mpr (List.pairwise_of_forall fun _ _ => le_rfl)⟩
    obtain ⟨port, -, rfl⟩ := List.mem_map.mp hr
    exact show mainPriority ≤ rulePriority by decide
  first_match _ _ := rfl

def allButDel : Works
  | .ruleDel _ => false
  | _ => true

def fresh : Machine := ⟨[], none⟩

theorem tellsApart_fresh : TellsApart fresh := by
  intro r hr
  obtain rfl : r = mainRule := List.mem_singleton.mp (others_rules fresh ▸ hr)
  decide +kernel

/-- The rule of the first start cannot be removed by the second, and is replaced by the third. -/
theorem rule_follows_port_moved :
    ∃ k : Machine, Run (fun k e k' => next k e = k') (fun k e => Event.apart k e) fresh
        [.start 43737 true fun _ => true, .start 50000 true allButDel] k ∧
      k.daemons = [43737] ∧ ports (Linux.rules (next k (.start 50000 true fun _ => true))) = [50000] := by
  have hstart : Run (fun k e k' => next k e = k') (fun k e => Event.apart k e) fresh [] fresh := .nil
  have hapart : ∀ (k : Machine) port works, Event.apart k (.start port true works) := fun _ _ _ => trivial
  have hrun := (hstart.snoc (hapart _ 43737 fun _ => true) rfl).snoc (hapart _ 50000 allButDel) rfl
  exact ⟨_, hrun, by decide +kernel,
    ((rule_follows_port rfl tellsApart_fresh hrun).2.1 50000 (fun _ => true) ⟨rfl, fun _ => rfl⟩ rfl).1⟩

/-- A datagram of iroh to the overlay address `10.88.0.5` goes to the TUN device in spite of the rule. -/
theorem rule_never_decides_captured :
    ∃ k : Machine, Run (fun k e k' => next k e = k') (fun _ e => Event.keepsMain e) fresh
        [.start 43737 true fun _ => true] k ∧
      k.daemons = [43737] ∧ k.shadow = some (ascii "192.168.1.1", ascii "eth0") ∧
      routeBy k.lookup (others k.rules) ⟨true, 43737, Ipv4Addr.new 10 88 0 5⟩ = some (ascii "tun0") ∧
      Routing.route k ⟨true, 43737, Ipv4Addr.new 10 88 0 5⟩ =
        routeBy k.lookup (others k.rules) ⟨true, 43737, Ipv4Addr.new 10 88 0 5⟩ := by
  have hmain : HasMain fresh := ⟨mainRule, (others_rules fresh).symm ▸ List.mem_cons_self, rfl, rfl, rfl, fun _ => rfl⟩
  have hstart : Run (fun k e k' => next k e = k') (fun _ e => Event.keepsMain e) fresh [] fresh := .nil
  have hkeeps : Event.keepsMain (K := Machine) (.start 43737 true fun _ => true) := trivial
  have hrun := hstart.snoc hkeeps rfl
  exact ⟨_, hrun, by decide +kernel, by decide +kernel, by decide +kernel,
    rule_never_decides hmain hrun (by decide +kernel)⟩

end Sample

end Tetron.Selfcapture
