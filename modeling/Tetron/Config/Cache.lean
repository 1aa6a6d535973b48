import Tetron.Config.Storage

/-!
# Loading through the configuration cache

`load_cached_in` returns the configuration it keeps while the stamps it was taken with are still those of the
files. It looks at the files one at a time, and other processes change them in between, so each look is a step
here: of `fingerprint_still_valid` (`Checking`), of `fingerprint_full` (`Fingerprinting`) and of `load_in`
(`Loading`).

For each of the three this module says what it knows after any steps and any changes between them. `Loaded` is
what it comes to: a configuration with the fingerprint taken before it stays true to the files for as long as
they match.
-/

namespace Tetron.Config

/-! ### The steps of a call -/

/-- `fingerprint_still_valid`: what is compared next. -/
inductive Checking
  | settings
  | dir
  | files (todo : List (String × ℕ × ℕ))

/-- `fingerprint_full`: what is looked at next, with what was seen. -/
inductive Fingerprinting
  | list
  | files (todo : List String) (seen : List (String × ℕ × ℕ))
  | settings (seen : List (String × ℕ × ℕ))
  | dir (seen : List (String × ℕ × ℕ)) (stat : Option (ℕ × ℕ))
  | clock (seen : List (String × ℕ × ℕ)) (stat : Option (ℕ × ℕ)) (mtime : Option ℕ)

/-- `load_in`: what is looked at next, with what was read. -/
inductive Loading (S N : Type)
  | findSettings
  | readSettings
  | findNetworks (settings : S)
  | listNetworks (settings : S)
  | readNetworks (settings : S) (todo : List String) (networks : List N)

/-- The next comparison, or the verdict. -/
def Checking.step (fp : Fingerprint) (t : ConfigTree) : Checking → Checking ⊕ Bool
  | .settings => if t.statSettings = fp.settings then .inl .dir else .inr false
  | .dir => if t.dirMtime = fp.networksDir then .inl (.files fp.networkFiles) else .inr false
  | .files [] => .inr true
  | .files (f :: todo) => if t.statNetwork f.1 = some f.2 then .inl (.files todo) else .inr false

/-- The next look, or the fingerprint. A file that is gone when its turn comes is left out. What was seen is
sorted in the end; no name comes twice, so the stamps do not matter for that. -/
def Fingerprinting.step (now : ℕ) (t : ConfigTree) : Fingerprinting → Fingerprinting ⊕ Fingerprint
  | .list => .inl (.files t.readDir [])
  | .files [] seen => .inl (.settings (seen.insertionSort fun f g => f.1 ≤ g.1))
  | .files (name :: todo) seen =>
    match t.statNetwork name with
    | none => .inl (.files todo seen)
    | some stat => .inl (.files todo (seen ++ [(name, stat)]))
  | .settings seen => .inl (.dir seen t.statSettings)
  | .dir seen stat => .inl (.clock seen stat t.dirMtime)
  | .clock seen stat mtime => .inr (Fingerprint.taken stat mtime seen now)

section Model

variable {S N : Type} [Toml S] [Toml N] [Inhabited S]

/-- The next look, or the outcome. A file found by one look may be gone at the next. -/
def Loading.step (dir : String) (t : ConfigTree) : Loading S N → Loading S N ⊕ Except String (AppConfig S N)
  | .findSettings => if t.settings.isNone then .inl (.findNetworks default) else .inl .readSettings
  | .readSettings =>
    if t.settings.isNone then .inr (.error "reading settings.toml")
    else
      match Config.readSettings t.settings with
      | .error e => .inr (.error e)
      | .ok settings => .inl (.findNetworks settings)
  | .findNetworks settings =>
    if t.networks.isNone then .inr (.ok ⟨settings, []⟩) else .inl (.listNetworks settings)
  | .listNetworks settings =>
    if t.networks.isNone then .inr (.error ("reading " ++ dir ++ "/networks"))
    else .inl (.readNetworks settings t.tomlNames [])
  | .readNetworks settings [] networks => .inr (.ok ⟨settings, networks⟩)
  | .readNetworks settings (name :: todo) networks =>
    match readNetwork (networkPath dir name) networks (t.network name) with
    | .error e => .inr (.error e)
    | .ok networks => .inl (.readNetworks settings todo networks)

end Model

/-! ### What a fingerprint stands for -/

section Sound

variable {S N : Type} [Toml S] [Toml N] [Inhabited S]

/-- While the directory has the recorded stamp, the files in it are among the recorded ones. -/
def Covers (fp : Fingerprint) (t : ConfigTree) : Prop :=
  t.dirMtime = fp.networksDir → ∀ name ∈ t.tomlNames, name ∈ fp.networkFiles.map Prod.fst

/-- The settings are those of the file with the recorded stamp, or the defaults if there was none. -/
structure SettingsFrom (fp : Fingerprint) (t : ConfigTree) (settings : S) : Prop where
  absent : fp.settings = none → settings = default
  present : t.statSettings = fp.settings → fp.settings ≠ none → readSettings t.settings = .ok settings

/-- While the stamps are the recorded ones, reading on from `networks` gives what reading from the start does. -/
def NetworksFrom (dir : String) (fp : Fingerprint) (t : ConfigTree) (todo : List String) (networks : List N) : Prop :=
  t.dirMtime = fp.networksDir → (∀ f ∈ fp.networkFiles, t.statNetwork f.1 = some f.2) →
    todo ⊆ t.tomlNames ∧ readNetworks dir t todo networks = readNetworks dir t t.tomlNames []

/-- The recorded stamps are those of the files. -/
structure Matches (fp : Fingerprint) (t : ConfigTree) : Prop where
  settings : t.statSettings = fp.settings
  dir : t.dirMtime = fp.networksDir
  files : ∀ f ∈ fp.networkFiles, t.statNetwork f.1 = some f.2

/-- A configuration loaded after its fingerprint was taken. -/
structure Loaded (dir : String) (t : ConfigTree) (now : ℕ) (fp : Fingerprint) (config : AppConfig S N) : Prop where
  settled : fp.Settled now
  covers : Covers fp t
  settings : SettingsFrom fp t config.settings
  networks : NetworksFrom dir fp t [] config.networks

variable {dir : String} {t t' : ConfigTree} {now : ℕ} {fp : Fingerprint}

omit [Toml N] in
/-- No file was recorded, and none is found. -/
theorem settingsFrom_default (habsent : t.settings = none) : SettingsFrom fp t (default : S) := by
  refine ⟨fun _ => rfl, fun hstat hsome => ?_⟩
  rw [ConfigTree.statSettings, habsent] at hstat
  exact absurd hstat.symm hsome

omit [Toml S] [Inhabited S] in
theorem networksFrom_nil (habsent : t.networks = none) : NetworksFrom dir fp t [] ([] : List N) := by
  refine fun _ _ => ⟨by simp, ?_⟩
  simp only [ConfigTree.tomlNames, habsent, Option.elim_none]

omit [Toml S] [Inhabited S] in
theorem NetworksFrom.next {name : String} {todo : List String} {networks networks' : List N}
    (h : NetworksFrom dir fp t (name :: todo) networks)
    (hread : readNetwork (networkPath dir name) networks (t.network name) = .ok networks') :
    NetworksFrom dir fp t todo networks' := by
  intro hdir hfiles
  obtain ⟨hsub, hrest⟩ := h hdir hfiles
  refine ⟨fun n hn => hsub (List.mem_cons_of_mem _ hn), ?_⟩
  rw [← hrest, readNetworks, hread]

theorem Covers.undisturbed (h : Covers fp t) (hund : Undisturbed fp t t') : Covers fp t' := by
  intro hdir name hname
  obtain ⟨hdir', hnames⟩ := hund.dir hdir
  exact h hdir' name (hnames ▸ hname)

theorem SettingsFrom.undisturbed {settings : S} (h : SettingsFrom fp t settings) (hund : Undisturbed fp t t') :
    SettingsFrom fp t' settings := by
  refine ⟨h.absent, fun hstat hsome => ?_⟩
  have hsame := hund.settings hstat hsome
  rw [ConfigTree.statSettings, hsame] at hstat
  rw [hsame]
  exact h.present hstat hsome

theorem NetworksFrom.undisturbed {todo : List String} {networks : List N} (h : NetworksFrom dir fp t todo networks)
    (hcovers : Covers fp t) (hund : Undisturbed fp t t') : NetworksFrom dir fp t' todo networks := by
  intro hdir hfiles
  obtain ⟨hdir', hnames⟩ := hund.dir hdir
  have hsame : ∀ f ∈ fp.networkFiles, t'.network f.1 = t.network f.1 :=
    fun f hf => hund.network f hf hdir (hfiles f hf)
  have hfiles' : ∀ f ∈ fp.networkFiles, t.statNetwork f.1 = some f.2 := by
    intro f hf
    rw [ConfigTree.statNetwork, ← hsame f hf]
    exact hfiles f hf
  obtain ⟨hsub, hread⟩ := h hdir' hfiles'
  have hlisted : ∀ name ∈ t.tomlNames, t'.network name = t.network name := by
    intro name hname
    obtain ⟨f, hf, rfl⟩ := List.mem_map.mp (hcovers hdir' name hname)
    exact hsame f hf
  rw [hnames, readNetworks_congr fun name hname => hlisted name (hsub hname), readNetworks_congr hlisted]
  exact ⟨hsub, hread⟩

theorem Loaded.undisturbed {config : AppConfig S N} (h : Loaded dir t now fp config) (hund : Undisturbed fp t t') :
    Loaded dir t' now fp config :=
  ⟨h.settled, h.covers.undisturbed hund, h.settings.undisturbed hund, h.networks.undisturbed h.covers hund⟩

theorem Loaded.mono {config : AppConfig S N} {later : ℕ} (h : Loaded dir t now fp config) (hle : now ≤ later) :
    Loaded dir t later fp config :=
  ⟨h.settled.mono hle, h.covers, h.settings, h.networks⟩

theorem Loaded.change {config : AppConfig S N} (h : Loaded dir t now fp config) (g : Granularity) (c : Change) :
    Loaded dir (c.apply (g.stamp now) t) now fp config :=
  h.undisturbed (undisturbed_apply h.settled c)

/-- **A configuration whose fingerprint matches is what loading gives.** -/
theorem Loaded.loadIn_eq {config : AppConfig S N} (h : Loaded dir t now fp config)
    (hmatches : Matches fp t) : loadIn dir t = .ok config := by
  have hread : readSettings t.settings = .ok config.settings := by
    by_cases hnone : fp.settings = none
    · have habsent : t.settings = none := by simpa [ConfigTree.statSettings, hnone] using hmatches.settings
      rw [habsent, h.settings.absent hnone]
      rfl
    · exact h.settings.present hmatches.settings hnone
  obtain ⟨-, hnetworks⟩ := h.networks hmatches.dir hmatches.files
  simp only [loadIn, hread, ← hnetworks, readNetworks]

end Sound

/-! ### What has been compared -/

section Checking

variable {fp : Fingerprint} {t : ConfigTree} {c c' : Checking}

/-- What was compared so far matched, if the files have been `t` all along. -/
def Checking.Matched (fp : Fingerprint) (t : ConfigTree) : Checking → Prop
  | .settings => True
  | .dir => t.statSettings = fp.settings
  | .files todo => t.statSettings = fp.settings ∧ t.dirMtime = fp.networksDir ∧
      ∀ f ∈ fp.networkFiles, f ∈ todo ∨ t.statNetwork f.1 = some f.2

theorem Checking.Matched.step (h : c.Matched fp t) (hstep : c.step fp t = .inl c') : c'.Matched fp t := by
  match c, h, hstep with
  | .settings, _, hstep =>
    simp only [Checking.step] at hstep
    split at hstep <;> cases hstep
    assumption
  | .dir, h, hstep =>
    simp only [Checking.step] at hstep
    split at hstep <;> cases hstep
    rename_i hdir
    exact ⟨h, hdir, fun f hf => Or.inl hf⟩
  | .files (f :: todo), ⟨hsettings, hdir, hfiles⟩, hstep =>
    simp only [Checking.step] at hstep
    split at hstep <;> cases hstep
    rename_i hstat
    refine ⟨hsettings, hdir, fun f' hf' => ?_⟩
    rcases hfiles f' hf' with hmem | hdone
    · rcases List.mem_cons.mp hmem with rfl | hmem
      · exact Or.inr hstat
      · exact Or.inl hmem
    · exact Or.inr hdone

theorem Checking.Matched.valid (h : c.Matched fp t) (hstep : c.step fp t = .inr true) : Matches fp t := by
  match c, h, hstep with
  | .files [], ⟨hsettings, hdir, hfiles⟩, _ =>
    exact ⟨hsettings, hdir, fun f hf => (hfiles f hf).resolve_left List.not_mem_nil⟩
  | .settings, _, hstep =>
    simp only [Checking.step] at hstep
    split at hstep <;> cases hstep
  | .dir, _, hstep =>
    simp only [Checking.step] at hstep
    split at hstep <;> cases hstep
  | .files (f :: todo), _, hstep =>
    simp only [Checking.step] at hstep
    split at hstep <;> cases hstep

end Checking

/-! ### What has been seen -/

/-- A fingerprint that was taken, and that no change has hidden a file from. -/
structure Tracks (fp : Fingerprint) (t : ConfigTree) (now : ℕ) : Prop where
  settled : fp.Settled now
  covers : Covers fp t

section Tracks

variable {fp : Fingerprint} {t : ConfigTree} {now : ℕ} {g : Granularity} {c : Change}

theorem Tracks.mono {later : ℕ} (h : Tracks fp t now) (hle : now ≤ later) : Tracks fp t later :=
  ⟨h.settled.mono hle, h.covers⟩

theorem Tracks.undisturbed (h : Tracks fp t now) : Undisturbed fp t (c.apply (g.stamp now) t) :=
  undisturbed_apply h.settled c

theorem Tracks.change (h : Tracks fp t now) : Tracks fp (c.apply (g.stamp now) t) now :=
  ⟨h.settled, h.covers.undisturbed h.undisturbed⟩

theorem settings_apply_of_absent {stamp : ℕ} (hallow : c.createsSettings t = false) (h : t.settings = none) :
    (c.apply stamp t).settings = none := by
  cases c with
  | writeSettings bytes => simp [Change.createsSettings, h] at hallow
  | editSettings bytes => simp [Change.apply, h]
  | deleteSettings => rfl
  | writeNetwork name bytes => exact h
  | editNetwork name bytes =>
    simp only [Change.apply]
    split <;> exact h
  | deleteNetwork name =>
    simp only [Change.apply]
    split <;> exact h
  | retireLegacy => exact h

theorem network_apply_of_absent {stamp : ℕ} {name : String} (hallow : c.createsNetwork t = false)
    (hext : hasTomlExtension name = true) (h : t.network name = none) : (c.apply stamp t).network name = none := by
  cases c with
  | writeNetwork n bytes =>
    have hne : name ≠ n := by
      rintro rfl
      simp [Change.createsNetwork, hext, h] at hallow
    cases hd : t.networks with
    | none => simp [Change.apply, ConfigTree.network, hd, HashTable.get?_insert, hne]
    | some d =>
      have hget : d.files.get? name = none := by simpa [ConfigTree.network, hd] using h
      simp [Change.apply, ConfigTree.network, hd, HashTable.get?_insert, hne, hget]
  | editNetwork n bytes =>
    by_cases hthere : (t.network n).isSome = true
    · rw [network_editNetwork _ _ hthere, if_neg fun heq => by rw [← heq, h] at hthere; cases hthere]
      exact h
    · rw [Change.apply, if_pos (by simpa using hthere)]
      exact h
  | deleteNetwork n =>
    simp only [Change.apply]
    split
    · exact h
    · cases hd : t.networks with
      | none => simp [ConfigTree.network]
      | some d =>
        have hget : d.files.get? name = none := by simpa [ConfigTree.network, hd] using h
        simp [ConfigTree.network, HashTable.get?_erase, hget]
  | writeSettings | editSettings | deleteSettings | retireLegacy => exact h

/-- Without a creation the listing only loses names. -/
theorem tomlNames_apply_subset {stamp : ℕ} (hallow : c.createsNetwork t = false) :
    (c.apply stamp t).tomlNames ⊆ t.tomlNames := by
  intro name hname
  obtain ⟨hext, hsome⟩ := ConfigTree.mem_tomlNames.mp hname
  refine ConfigTree.mem_tomlNames.mpr ⟨hext, Option.isSome_iff_ne_none.mpr fun hnone => ?_⟩
  rw [network_apply_of_absent hallow hext hnone] at hsome
  cases hsome

end Tracks

namespace Fingerprinting

variable {t : ConfigTree} {now stamp : ℕ} {c : Change} {f f' : Fingerprinting} {fp : Fingerprint}

/-- No `settings.toml` was found. -/
def foundNoSettings : Fingerprinting → Bool
  | .dir _ stat | .clock _ stat _ => stat.isNone
  | _ => false

/-- `networks/` has been listed. -/
def listed : Fingerprinting → Bool
  | .list => false
  | _ => true

/-- Every file there is has been seen or is to be looked at, and `settings.toml` is absent if it was. -/
def Ok (t : ConfigTree) : Fingerprinting → Prop
  | .list => True
  | .files todo seen => ∀ name ∈ t.tomlNames, name ∈ todo ∨ name ∈ seen.map Prod.fst
  | .settings seen => ∀ name ∈ t.tomlNames, name ∈ seen.map Prod.fst
  | .dir seen stat | .clock seen stat _ =>
    (∀ name ∈ t.tomlNames, name ∈ seen.map Prod.fst) ∧ (stat = none → t.settings = none)

theorem Ok.change (h : f.Ok t) (hsettings : (c.createsSettings t && f.foundNoSettings) = false)
    (hnetwork : (c.createsNetwork t && f.listed) = false) : f.Ok (c.apply stamp t) := by
  have habsent : f.foundNoSettings = true → t.settings = none → (c.apply stamp t).settings = none := by
    intro hfound
    rw [hfound, Bool.and_true] at hsettings
    exact settings_apply_of_absent hsettings
  have hnames : f.listed = true → (c.apply stamp t).tomlNames ⊆ t.tomlNames := by
    intro hlisted
    rw [hlisted, Bool.and_true] at hnetwork
    exact tomlNames_apply_subset hnetwork
  cases f with
  | list => trivial
  | files | settings => exact fun name hname => h name (hnames rfl hname)
  | dir seen stat =>
    refine ⟨fun name hname => h.1 name (hnames rfl hname), fun hnone => habsent ?_ (h.2 hnone)⟩
    simp [foundNoSettings, hnone]
  | clock seen stat mtime =>
    refine ⟨fun name hname => h.1 name (hnames rfl hname), fun hnone => habsent ?_ (h.2 hnone)⟩
    simp [foundNoSettings, hnone]

theorem Ok.step_files {name : String} {todo : List String} {seen : List (String × ℕ × ℕ)}
    (h : (files (name :: todo) seen).Ok t) (hstep : (files (name :: todo) seen).step now t = .inl f') : f'.Ok t := by
  have hcases : ∀ n ∈ t.tomlNames, n = name ∨ n ∈ todo ∨ n ∈ seen.map Prod.fst := by
    intro n hn
    rcases h n hn with hmem | hseen
    · rcases List.mem_cons.mp hmem with rfl | hmem
      · exact Or.inl rfl
      · exact Or.inr (Or.inl hmem)
    · exact Or.inr (Or.inr hseen)
  simp only [Fingerprinting.step] at hstep
  split at hstep <;> cases hstep <;> intro n hn <;> rcases hcases n hn with rfl | htodo | hseen
  · rename_i hgone
    have hsome := (ConfigTree.mem_tomlNames.mp hn).2
    rw [ConfigTree.statNetwork, Option.map_eq_none_iff] at hgone
    rw [hgone] at hsome
    cases hsome
  · exact Or.inl htodo
  · exact Or.inr hseen
  · exact Or.inr (by simp)
  · exact Or.inl htodo
  · exact Or.inr (by rw [List.map_append]; exact List.mem_append_left _ hseen)

theorem Ok.step (h : f.Ok t) (hstep : f.step now t = .inl f') : f'.Ok t := by
  match f, h, hstep with
  | .list, _, hstep =>
    cases hstep
    exact fun name hname => Or.inl (ConfigTree.mem_readDir.mpr hname)
  | .files [] seen, h, hstep =>
    cases hstep
    intro name hname
    rw [((List.perm_insertionSort _ seen).map Prod.fst).mem_iff]
    exact (h name hname).resolve_left List.not_mem_nil
  | .files (name :: todo) seen, h, hstep => exact h.step_files hstep
  | .settings seen, h, hstep =>
    cases hstep
    exact ⟨h, fun hnone => by simpa [ConfigTree.statSettings] using hnone⟩
  | .dir seen stat, h, hstep =>
    cases hstep
    exact h

/-- The fingerprint that comes of it. -/
theorem Ok.taken (h : f.Ok t) (hstep : f.step now t = .inr fp) (htrusted : fp.trusted = true) :
    Tracks fp t now ∧ (fp.settings = none → t.settings = none) := by
  match f, h, hstep with
  | .clock seen stat mtime, h, hstep =>
    cases hstep
    exact ⟨⟨Fingerprint.settled_taken htrusted, fun _ => h.1⟩, h.2⟩
  | .files (name :: todo) seen, _, hstep =>
    simp only [Fingerprinting.step] at hstep
    split at hstep <;> cases hstep

end Fingerprinting

/-! ### What has been read -/

namespace Loading

variable {S N : Type} [Toml S] [Toml N] [Inhabited S]
variable {dir : String} {t t' : ConfigTree} {now : ℕ} {fp : Fingerprint} {c : Change} {l l' : Loading S N}
  {config : AppConfig S N} {result : Except String (AppConfig S N)}

/-- What was read goes with the fingerprint. -/
def Ok (dir : String) (fp : Fingerprint) (t : ConfigTree) : Loading S N → Prop
  | .findSettings => fp.settings = none → t.settings = none
  | .readSettings => fp.settings ≠ none
  | .findNetworks settings | .listNetworks settings => SettingsFrom fp t settings
  | .readNetworks settings todo networks => SettingsFrom fp t settings ∧ NetworksFrom dir fp t todo networks

theorem Ok.undisturbed (h : l.Ok dir fp t) (hcovers : Covers fp t) (hund : Undisturbed fp t t')
    (habsent : l = .findSettings → fp.settings = none → t.settings = none → t'.settings = none) :
    l.Ok dir fp t' := by
  cases l with
  | findSettings => exact fun hnone => habsent rfl hnone (h hnone)
  | readSettings => exact h
  | findNetworks settings | listNetworks settings => exact SettingsFrom.undisturbed h hund
  | readNetworks settings todo networks => exact ⟨h.1.undisturbed hund, h.2.undisturbed hcovers hund⟩

/-- What a look finds, and what comes next. -/
inductive Looks (dir : String) (t : ConfigTree) : Loading S N → Loading S N ⊕ Except String (AppConfig S N) → Prop
  | noSettings (absent : t.settings = none) : Looks dir t .findSettings (.inl (.findNetworks default))
  | foundSettings (present : t.settings ≠ none) : Looks dir t .findSettings (.inl .readSettings)
  | settingsGone (absent : t.settings = none) : Looks dir t .readSettings (.inr (.error "reading settings.toml"))
  | settingsBad {e : String} (read : Config.readSettings (S := S) t.settings = .error e) :
      Looks dir t .readSettings (.inr (.error e))
  | settingsRead {settings : S} (read : Config.readSettings t.settings = .ok settings) :
      Looks dir t .readSettings (.inl (.findNetworks settings))
  | noNetworks {settings : S} (absent : t.networks = none) :
      Looks dir t (.findNetworks settings) (.inr (.ok ⟨settings, []⟩))
  | foundNetworks {settings : S} (present : t.networks ≠ none) :
      Looks dir t (.findNetworks settings) (.inl (.listNetworks settings))
  | networksGone {settings : S} (absent : t.networks = none) :
      Looks dir t (.listNetworks settings) (.inr (.error ("reading " ++ dir ++ "/networks")))
  | listed {settings : S} : Looks dir t (.listNetworks settings) (.inl (.readNetworks settings t.tomlNames []))
  | done {settings : S} {networks : List N} :
      Looks dir t (.readNetworks settings [] networks) (.inr (.ok ⟨settings, networks⟩))
  | networkBad {settings : S} {name e : String} {todo : List String} {networks : List N}
      (read : readNetwork (networkPath dir name) networks (t.network name) = .error e) :
      Looks dir t (.readNetworks settings (name :: todo) networks) (.inr (.error e))
  | networkRead {settings : S} {name : String} {todo : List String} {networks networks' : List N}
      (read : readNetwork (networkPath dir name) networks (t.network name) = .ok networks') :
      Looks dir t (.readNetworks settings (name :: todo) networks) (.inl (.readNetworks settings todo networks'))

theorem looks_of_step {next : Loading S N ⊕ Except String (AppConfig S N)} (h : l.step dir t = next) :
    Looks dir t l next := by
  subst h
  match l with
  | .findSettings =>
    rw [Loading.step]
    split
    · exact .noSettings (Option.isNone_iff_eq_none.mp ‹_›)
    · exact .foundSettings (mt Option.isNone_iff_eq_none.mpr ‹_›)
  | .readSettings =>
    rw [Loading.step]
    split
    · exact .settingsGone (Option.isNone_iff_eq_none.mp ‹_›)
    · split
      · exact .settingsBad ‹_›
      · exact .settingsRead ‹_›
  | .findNetworks settings =>
    rw [Loading.step]
    split
    · exact .noNetworks (Option.isNone_iff_eq_none.mp ‹_›)
    · exact .foundNetworks (mt Option.isNone_iff_eq_none.mpr ‹_›)
  | .listNetworks settings =>
    rw [Loading.step]
    split
    · exact .networksGone (Option.isNone_iff_eq_none.mp ‹_›)
    · exact .listed
  | .readNetworks settings [] networks => exact .done
  | .readNetworks settings (name :: todo) networks =>
    rw [Loading.step]
    split
    · exact .networkBad ‹_›
    · exact .networkRead ‹_›

theorem Ok.step (h : l.Ok dir fp t) (hstep : l.step dir t = .inl l') : l'.Ok dir fp t := by
  cases looks_of_step hstep with
  | noSettings absent => exact settingsFrom_default absent
  | foundSettings present => exact fun hnone => present (h hnone)
  | settingsRead read => exact ⟨fun hnone => absurd hnone h, fun _ _ => read⟩
  | foundNetworks => exact h
  | listed => exact ⟨h, fun _ _ => ⟨List.Subset.refl _, rfl⟩⟩
  | networkRead read => exact ⟨h.1, h.2.next read⟩

/-- The configuration that comes of it. -/
theorem Ok.loaded (h : l.Ok dir fp t) (htracks : Tracks fp t now) (hstep : l.step dir t = .inr (.ok config)) :
    Loaded dir t now fp config := by
  cases looks_of_step hstep with
  | noNetworks absent => exact ⟨htracks.settled, htracks.covers, h, networksFrom_nil absent⟩
  | done => exact ⟨htracks.settled, htracks.covers, h.1, h.2⟩

/-- Reading on gives what `loadIn` does, if the files have been `t` all along. -/
def Agrees (dir : String) (t : ConfigTree) : Loading S N → Prop
  | .findSettings => True
  | .readSettings => t.settings ≠ none
  | .findNetworks settings => Config.readSettings t.settings = .ok settings
  | .listNetworks settings => Config.readSettings t.settings = .ok settings ∧ t.networks ≠ none
  | .readNetworks settings todo networks =>
    Config.readSettings t.settings = .ok settings ∧
      Config.readNetworks dir t todo networks = Config.readNetworks dir t t.tomlNames []

theorem Agrees.step (h : l.Agrees dir t) (hstep : l.step dir t = .inl l') : l'.Agrees dir t := by
  cases looks_of_step hstep with
  | noSettings absent =>
    show Config.readSettings t.settings = .ok default
    rw [absent]
    rfl
  | foundSettings present => exact present
  | settingsRead read => exact read
  | foundNetworks present => exact ⟨h, present⟩
  | listed => exact ⟨h.1, rfl⟩
  | networkRead read =>
    obtain ⟨hsettings, hrest⟩ := h
    rw [Config.readNetworks, read] at hrest
    exact ⟨hsettings, hrest⟩

theorem Agrees.result_eq (h : l.Agrees dir t) (hstep : l.step dir t = .inr result) : result = loadIn dir t := by
  cases looks_of_step hstep with
  | settingsGone absent => exact absurd absent h
  | settingsBad read => simp only [loadIn, read]
  | @noNetworks settings absent =>
    have hsettings : Config.readSettings t.settings = .ok settings := h
    simp only [loadIn, hsettings, ConfigTree.tomlNames, absent, Option.elim_none, Config.readNetworks]
  | networksGone absent => exact absurd absent h.2
  | done => simp only [loadIn, h.1, ← h.2, Config.readNetworks]
  | networkBad read =>
    obtain ⟨hsettings, hrest⟩ := h
    rw [Config.readNetworks, read] at hrest
    simp only [loadIn, hsettings, ← hrest]

end Loading

end Tetron.Config
