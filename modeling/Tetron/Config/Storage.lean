import Tetron.Bytes
import Tetron.Lib.Table

/-!
# The configuration tree

`settings.toml` and one file per network under `networks/`, as the file system shows them: contents, lengths
and modification times (`SystemTime` in nanoseconds since the epoch). `loadIn` assembles the configuration
from the files; a `Fingerprint` records the stamps of the files it looks at.

A change is stamped with the clock rounded down to the granularity of the file system, at most two seconds.
A stamp older than that cannot be reached again, so a change that a settled fingerprint does not see has left
what it looks at alone (`undisturbed_apply`).
-/

namespace Tetron.Config

/-- `RACY_WINDOW`. -/
def racyWindow : ℕ := 2000000000

/-- How finely the file system stamps changes. -/
structure Granularity where
  nanos : ℕ
  pos : 0 < nanos
  le : nanos ≤ racyWindow

/-- The stamp of a change made at `now`. -/
def Granularity.stamp (g : Granularity) (now : ℕ) : ℕ := now - now % g.nanos

theorem Granularity.lt_stamp (g : Granularity) {m now : ℕ} (h : m + racyWindow ≤ now) : m < g.stamp now := by
  have hmod : now % g.nanos < g.nanos := Nat.mod_lt _ g.pos
  have hle := g.le
  simp only [stamp]
  omega

/-! ### Files -/

structure ConfigFile where
  content : Bytes
  mtime : ℕ
deriving DecidableEq

/-- `stat_file` of a file that is there. -/
def ConfigFile.stat (f : ConfigFile) : ℕ × ℕ := (f.mtime, f.content.length)

/-- `networks/`, with its own modification time. -/
structure NetworksDir where
  mtime : ℕ
  files : HashTable String ConfigFile
deriving DecidableEq

/-- What there is under a configuration directory. -/
structure ConfigTree where
  settings : Option ConfigFile
  networks : Option NetworksDir
  /-- `networks.toml` of the old layout. -/
  legacy : Option Bytes
deriving DecidableEq

/-- `p.extension() == Some("toml")`: a name of the form `stem.toml` with a stem. -/
def hasTomlExtension (name : String) : Bool := ".toml".toList.isSuffixOf name.toList && name ≠ ".toml"

/-- What `read_dir` shows of the network files. -/
def NetworksDir.readDir (d : NetworksDir) : List String := d.files.keys.filter (hasTomlExtension ·)

def NetworksDir.tomlNames (d : NetworksDir) : List String := d.readDir.insertionSort (· ≤ ·)

namespace ConfigTree

def readDir (t : ConfigTree) : List String := t.networks.elim [] NetworksDir.readDir

/-- The network files in the order in which `load_in` reads them. -/
def tomlNames (t : ConfigTree) : List String := t.networks.elim [] NetworksDir.tomlNames

def network (t : ConfigTree) (name : String) : Option ConfigFile := t.networks.bind fun d => d.files.get? name

/-- `stat_file` of `settings.toml`. -/
def statSettings (t : ConfigTree) : Option (ℕ × ℕ) := t.settings.map ConfigFile.stat

/-- `stat_file` of a network's file. -/
def statNetwork (t : ConfigTree) (name : String) : Option (ℕ × ℕ) := (t.network name).map ConfigFile.stat

/-- `dir_mtime` of `networks/`. -/
def dirMtime (t : ConfigTree) : Option ℕ := t.networks.map NetworksDir.mtime

end ConfigTree

/-! ### Loading -/

/-- `AppConfig`: the fields of `Settings`, and the networks. -/
structure AppConfig (S N : Type) where
  settings : S
  networks : List N
deriving DecidableEq

/-- The `toml` crate on a type of the configuration. -/
class Toml (α : Type) where
  fromStr : String → Option α
  toStringPretty : α → Option String

/-- `name` of a `NetworkConfig`. -/
class NetworkName (N : Type) where
  name : N → String

section Load

variable {S N : Type} [Toml S] [Toml N] [Inhabited S]

def networkPath (dir name : String) : String := dir ++ "/networks/" ++ name

/-- The settings in the file, or the defaults where there is none. -/
def readSettings : Option ConfigFile → Except String S
  | none => .ok default
  | some file =>
    match fromUtf8 file.content with
    | none => .error "reading settings.toml"
    | some s =>
      match Toml.fromStr s with
      | none => .error "parsing settings.toml"
      | some settings => .ok settings

/-- The networks read so far with the one in the file at `path`. One that does not parse is skipped. -/
def readNetwork (path : String) (networks : List N) (file : Option ConfigFile) : Except String (List N) :=
  match file.bind fun f => fromUtf8 f.content with
  | none => .error ("reading " ++ path)
  | some s =>
    match Toml.fromStr s with
    | none => .ok networks
    | some net => .ok (networks ++ [net])

/-- The loop over the paths, when `networks` have been read. -/
def readNetworks (dir : String) (t : ConfigTree) : List String → List N → Except String (List N)
  | [], networks => .ok networks
  | name :: names, networks =>
    match readNetwork (networkPath dir name) networks (t.network name) with
    | .error e => .error e
    | .ok networks => readNetworks dir t names networks

/-- `load_in`. -/
def loadIn (dir : String) (t : ConfigTree) : Except String (AppConfig S N) :=
  match readSettings t.settings with
  | .error e => .error e
  | .ok settings =>
    match readNetworks dir t t.tomlNames [] with
    | .error e => .error e
    | .ok networks => .ok ⟨settings, networks⟩

theorem readNetworks_congr {dir : String} {t t' : ConfigTree} {names : List String} {networks : List N}
    (h : ∀ name ∈ names, t'.network name = t.network name) :
    readNetworks dir t' names networks = readNetworks dir t names networks := by
  induction names generalizing networks with
  | nil => rfl
  | cons name names ih =>
    have hrest := fun networks => @ih networks fun n hn => h n (List.mem_cons_of_mem _ hn)
    simp only [readNetworks, h name List.mem_cons_self, hrest]

end Load

/-! ### Changes -/

/-- What happens to the files. Other processes and `write_file` replace a file, an editor may write it in
place; a file that is written where there was none is created, with `networks/` if need be. -/
inductive Change
  | writeSettings (bytes : Bytes)
  | editSettings (bytes : Bytes)
  | deleteSettings
  | writeNetwork (name : String) (bytes : Bytes)
  | editNetwork (name : String) (bytes : Bytes)
  | deleteNetwork (name : String)
  /-- `networks.toml` becomes `networks.toml.bak`. -/
  | retireLegacy

namespace Change

/-- The tree after a change. A replaced, created or deleted file stamps the directory, an edit in place does
not. -/
def apply (stamp : ℕ) (t : ConfigTree) : Change → ConfigTree
  | writeSettings bytes => { t with settings := some ⟨bytes, stamp⟩ }
  | editSettings bytes => { t with settings := t.settings.map fun _ => ⟨bytes, stamp⟩ }
  | deleteSettings => { t with settings := none }
  | writeNetwork name bytes =>
    { t with networks := some ⟨stamp, (t.networks.elim ∅ NetworksDir.files).insert name ⟨bytes, stamp⟩⟩ }
  | editNetwork name bytes =>
    if (t.network name).isNone then t
    else { t with networks := t.networks.map fun d => { d with files := d.files.insert name ⟨bytes, stamp⟩ } }
  | deleteNetwork name =>
    if (t.network name).isNone then t
    else { t with networks := t.networks.map fun d => ⟨stamp, d.files.erase name⟩ }
  | retireLegacy => { t with legacy := none }

/-- A `settings.toml` appears. -/
def createsSettings (t : ConfigTree) : Change → Bool
  | writeSettings _ => t.settings.isNone
  | _ => false

/-- A network file appears. -/
def createsNetwork (t : ConfigTree) : Change → Bool
  | writeNetwork name _ => hasTomlExtension name && (t.network name).isNone
  | _ => false

end Change

/-! ### The old layout -/

section Migrate

variable {S N : Type} [Toml S] [Toml N] [Toml (AppConfig S N)] [NetworkName N]

def validateNetName (name : String) : Bool :=
  !(name.isEmpty || name.utf8ByteSize > 64 || !name.toList.all fun c => c.isLower || c.isDigit || c == '-')

/-- The write `save_settings_in` comes to. -/
def saveSettingsIn (config : AppConfig S N) : Except String Change :=
  match Toml.toStringPretty config.settings with
  | none => .error "serializing settings"
  | some contents => .ok (.writeSettings contents.toUTF8.data.toList)

/-- The write `save_network_in` comes to. -/
def saveNetworkIn (net : N) : Except String Change :=
  if validateNetName (NetworkName.name net) then
    match Toml.toStringPretty net with
    | none => .error "serializing network config"
    | some contents => .ok (.writeNetwork (NetworkName.name net ++ ".toml") contents.toUTF8.data.toList)
  else .error ("invalid network name for config file: " ++ (NetworkName.name net).quote)

/-- What `migrate_legacy` does with the old file, step by step; it stops at the first error. -/
def migrateLegacy (S N : Type) [Toml S] [Toml N] [Toml (AppConfig S N)] [NetworkName N] (contents : Bytes) :
    List (Except String Change) :=
  match fromUtf8 contents with
  | none => [.error "reading legacy networks.toml"]
  | some s =>
    match (Toml.fromStr s : Option (AppConfig S N)) with
    | none => [.error "parsing legacy networks.toml"]
    | some old => saveSettingsIn old :: old.networks.map saveNetworkIn ++ [.ok .retireLegacy]

end Migrate

/-! ### Fingerprints -/

structure Fingerprint where
  settings : Option (ℕ × ℕ)
  networksDir : Option ℕ
  networkFiles : List (String × ℕ × ℕ)
  trusted : Bool
deriving DecidableEq

namespace Fingerprint

def stamps (settings : Option (ℕ × ℕ)) (networksDir : Option ℕ) (networkFiles : List (String × ℕ × ℕ)) : List ℕ :=
  (settings.map Prod.fst).toList ++ networksDir.toList ++ networkFiles.map fun f => f.2.1

/-- The end of `fingerprint_full`, when the clock has been read: stamps within the window are not trusted. -/
def taken (settings : Option (ℕ × ℕ)) (networksDir : Option ℕ) (networkFiles : List (String × ℕ × ℕ)) (now : ℕ) :
    Fingerprint where
  settings := settings
  networksDir := networksDir
  networkFiles := networkFiles
  trusted := (stamps settings networksDir networkFiles).all fun m => m + racyWindow ≤ now

/-- No change made from `now` on can bring back a stamp of the fingerprint. -/
def Settled (fp : Fingerprint) (now : ℕ) : Prop :=
  ∀ m ∈ stamps fp.settings fp.networksDir fp.networkFiles, m + racyWindow ≤ now

section Settled

variable {fp : Fingerprint} {now : ℕ} {g : Granularity}

theorem settled_taken {settings : Option (ℕ × ℕ)} {networksDir : Option ℕ} {networkFiles : List (String × ℕ × ℕ)}
    (h : (taken settings networksDir networkFiles now).trusted = true) :
    (taken settings networksDir networkFiles now).Settled now := by
  intro m hm
  exact of_decide_eq_true (List.all_eq_true.mp h m hm)

theorem Settled.mono {later : ℕ} (h : fp.Settled now) (hle : now ≤ later) : fp.Settled later :=
  fun m hm => (h m hm).trans hle

theorem Settled.ne_stamp (h : fp.Settled now) {m : ℕ}
    (hm : m ∈ stamps fp.settings fp.networksDir fp.networkFiles) : m ≠ g.stamp now :=
  (g.lt_stamp (h m hm)).ne

theorem Settled.settings_ne (h : fp.Settled now) (len : ℕ) : fp.settings ≠ some (g.stamp now, len) := by
  intro heq
  exact h.ne_stamp (g := g) (m := g.stamp now) (by simp [stamps, heq]) rfl

theorem Settled.networksDir_ne (h : fp.Settled now) : fp.networksDir ≠ some (g.stamp now) := by
  intro heq
  exact h.ne_stamp (g := g) (m := g.stamp now) (by simp [stamps, heq]) rfl

theorem Settled.networkFiles_ne (h : fp.Settled now) {f : String × ℕ × ℕ} (hf : f ∈ fp.networkFiles) :
    f.2.1 ≠ g.stamp now := by
  refine h.ne_stamp ?_
  exact List.mem_append_right _ (List.mem_map_of_mem hf)

end Settled

end Fingerprint

/-! ### What a change leaves alone -/

namespace ConfigTree

variable {t t' : ConfigTree} {name : String}

theorem mem_tomlNames : name ∈ t.tomlNames ↔ hasTomlExtension name = true ∧ (t.network name).isSome = true := by
  unfold tomlNames network
  cases t.networks with
  | none => simp
  | some d =>
    have hkeys : name ∈ d.files.keys ↔ (d.files.get? name).isSome = true := AList.lookup_isSome.symm
    simp only [Option.elim_some, NetworksDir.tomlNames, NetworksDir.readDir, List.mem_insertionSort, List.mem_filter,
      hkeys, Option.bind_some, and_comm]

theorem mem_readDir : name ∈ t.readDir ↔ name ∈ t.tomlNames := by
  unfold readDir tomlNames
  cases t.networks with
  | none => rfl
  | some d => exact (List.mem_insertionSort _).symm

theorem pairwise_tomlNames (t : ConfigTree) : t.tomlNames.Pairwise (· ≤ ·) := by
  unfold tomlNames
  cases t.networks with
  | none => exact List.Pairwise.nil
  | some d => exact List.pairwise_insertionSort _ _

theorem nodup_tomlNames (t : ConfigTree) : t.tomlNames.Nodup := by
  unfold tomlNames
  cases t.networks with
  | none => exact List.nodup_nil
  | some d => exact (List.perm_insertionSort _ _).nodup_iff.mpr (d.files.keys_nodup.filter _)

/-- The listing shows which files there are, and nothing else. -/
theorem tomlNames_congr (h : ∀ name, (t'.network name).isSome = (t.network name).isSome) :
    t'.tomlNames = t.tomlNames := by
  have hperm : t'.tomlNames.Perm t.tomlNames := by
    rw [List.perm_ext_iff_of_nodup t'.nodup_tomlNames t.nodup_tomlNames]
    intro name
    rw [mem_tomlNames, mem_tomlNames, h]
  exact hperm.eq_of_pairwise (fun _ _ _ _ => le_antisymm) t'.pairwise_tomlNames t.pairwise_tomlNames

end ConfigTree

/-- What of `t` is the same in `t'`, as far as `t'` still matches the fingerprint. -/
structure Undisturbed (fp : Fingerprint) (t t' : ConfigTree) : Prop where
  settings : t'.statSettings = fp.settings → fp.settings ≠ none → t'.settings = t.settings
  dir : t'.dirMtime = fp.networksDir → t.dirMtime = fp.networksDir ∧ t'.tomlNames = t.tomlNames
  network : ∀ f ∈ fp.networkFiles, t'.dirMtime = fp.networksDir → t'.statNetwork f.1 = some f.2 →
    t'.network f.1 = t.network f.1

theorem Undisturbed.refl (fp : Fingerprint) (t : ConfigTree) : Undisturbed fp t t :=
  ⟨fun _ _ => rfl, fun h => ⟨h, rfl⟩, fun _ _ _ _ => rfl⟩

section Changes

variable {t : ConfigTree} {fp : Fingerprint} {now : ℕ} {g : Granularity}

/-- A change of `settings.toml` alone. -/
theorem undisturbed_of_settings (file : Option ConfigFile)
    (h : file.map ConfigFile.stat = fp.settings → fp.settings ≠ none → file = t.settings) :
    Undisturbed fp t { t with settings := file } :=
  ⟨h, fun hdir => ⟨hdir, rfl⟩, fun _ _ _ _ => rfl⟩

/-- A change that stamps the directory. -/
theorem undisturbed_of_dir (hfp : fp.Settled now) (files : HashTable String ConfigFile) :
    Undisturbed fp t { t with networks := some ⟨g.stamp now, files⟩ } :=
  ⟨fun _ _ => rfl, fun hdir => absurd hdir.symm hfp.networksDir_ne,
    fun _ _ hdir _ => absurd hdir.symm hfp.networksDir_ne⟩

theorem network_editNetwork (stamp : ℕ) (bytes : Bytes) {name : String} (hthere : (t.network name).isSome = true)
    (n : String) :
    ((Change.editNetwork name bytes).apply stamp t).network n =
      if n = name then some ⟨bytes, stamp⟩ else t.network n := by
  obtain ⟨d, hd⟩ : ∃ d, t.networks = some d := by
    cases hd : t.networks with
    | none => simp [ConfigTree.network, hd] at hthere
    | some d => exact ⟨d, rfl⟩
  rw [Change.apply, if_neg (by simpa using Option.isSome_iff_ne_none.mp hthere)]
  simp [ConfigTree.network, hd, HashTable.get?_insert]

theorem undisturbed_editNetwork (hfp : fp.Settled now) (name : String) (bytes : Bytes) :
    Undisturbed fp t ((Change.editNetwork name bytes).apply (g.stamp now) t) := by
  by_cases hthere : (t.network name).isSome = true
  · have hnetwork := network_editNetwork (g.stamp now) bytes hthere
    refine ⟨fun _ _ => ?_, fun hdir => ⟨?_, ?_⟩, fun f hf _ hstat => ?_⟩
    · simp only [Change.apply]
      split <;> rfl
    · rw [← hdir, Change.apply]
      split
      · rfl
      · simp [ConfigTree.dirMtime, Function.comp_def]
    · refine ConfigTree.tomlNames_congr fun n => ?_
      rw [hnetwork]
      split
      · rename_i heq
        rw [heq, hthere, Option.isSome_some]
      · rfl
    · rw [hnetwork]
      split
      · rename_i heq
        rw [ConfigTree.statNetwork, hnetwork, if_pos heq] at hstat
        have hstamp : g.stamp now = f.2.1 := congrArg Prod.fst (Option.some.inj hstat)
        exact absurd hstamp.symm (hfp.networkFiles_ne hf)
      · rfl
  · have hsame : (Change.editNetwork name bytes).apply (g.stamp now) t = t := by
      rw [Change.apply, if_pos (by simpa using hthere)]
    rw [hsame]
    exact Undisturbed.refl fp t

/-- **A change that a settled fingerprint does not see leaves what it looks at alone.** -/
theorem undisturbed_apply (hfp : fp.Settled now) (c : Change) : Undisturbed fp t (c.apply (g.stamp now) t) := by
  cases c with
  | writeSettings bytes =>
    exact undisturbed_of_settings _ fun hstat _ => absurd hstat.symm (hfp.settings_ne _)
  | editSettings bytes =>
    refine undisturbed_of_settings _ fun hstat hsome => ?_
    cases hfile : t.settings with
    | none => rfl
    | some file =>
      rw [hfile] at hstat
      exact absurd hstat.symm (hfp.settings_ne _)
  | deleteSettings => exact undisturbed_of_settings _ fun hstat hsome => absurd hstat.symm hsome
  | writeNetwork name bytes => exact undisturbed_of_dir hfp _
  | editNetwork name bytes => exact undisturbed_editNetwork hfp name bytes
  | deleteNetwork name =>
    rw [Change.apply]
    split
    · exact Undisturbed.refl fp t
    · cases hd : t.networks with
      | none =>
        rename_i hthere
        simp [ConfigTree.network, hd] at hthere
      | some d => exact undisturbed_of_dir hfp _
  | retireLegacy => exact ⟨fun _ _ => rfl, fun hdir => ⟨hdir, rfl⟩, fun _ _ _ _ => rfl⟩

end Changes

end Tetron.Config
