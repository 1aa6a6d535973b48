import Tetron.Config.Cache
import Tetron.Lib.Run

/-!
# The configuration cache is transparent

Calls of `load_cached_in` run side by side with each other and with changes of the files, and the clock goes
on. A call during which the files do not change returns what `loadIn` makes of them (`cached_load_eq`),
provided that no file appeared behind the back of an earlier call: `settings.toml` after its fingerprint found
none and before it looked for the file to read it, or a network file between its listing of `networks/` and
its reading of the clock. In the first case the fingerprint stands for a file that is not there, and matches
again as soon as the file is removed (`cached_load_stale`).
-/

namespace Tetron.Config

structure CacheEntry (S N : Type) where
  dir : String
  fingerprint : Fingerprint
  config : AppConfig S N

/-- What a call of `load_cached_in` does next. -/
inductive Stage (S N : Type)
  | lookup
  | checking (e : CacheEntry S N) (c : Checking)
  | migrate
  | migrating (todo : List (Except String Change))
  | fingerprinting (f : Fingerprinting)
  | loading (fp : Fingerprint) (l : Loading S N)
  | store (fp : Fingerprint) (config : AppConfig S N)
  | returned (result : Except String (AppConfig S N))

structure Call (S N : Type) where
  dir : String
  migrate : Bool
  stage : Stage S N

/-- The file system under each configuration directory, and the process that loads from it. -/
structure World (S N : Type) where
  clock : ℕ
  trees : String → ConfigTree
  cache : Option (CacheEntry S N)
  calls : List (Call S N)

inductive Event
  | tick (nanos : ℕ)
  | change (dir : String) (c : Change)
  | call (dir : String) (migrate : Bool)
  | step (i : ℕ)

section Model

variable {S N : Type} [Toml S] [Toml N] [Toml (AppConfig S N)] [Inhabited S] [NetworkName N]

/-- Where a call goes next, from what it sees. An error ends it, and is not kept. -/
def Call.advance (now : ℕ) (t : ConfigTree) (cache : Option (CacheEntry S N)) (call : Call S N) :
    Option (Stage S N) :=
  match call.stage with
  | .lookup =>
    match cache with
    | none => some .migrate
    | some e => if e.dir = call.dir ∧ e.fingerprint.trusted then some (.checking e .settings) else some .migrate
  | .checking e c =>
    match c.step e.fingerprint t with
    | .inl c => some (.checking e c)
    | .inr true => some (.returned (.ok e.config))
    | .inr false => some .migrate
  | .migrate =>
    if call.migrate then
      match t.legacy with
      | none => some (.fingerprinting .list)
      | some contents => some (.migrating (migrateLegacy S N contents))
    else some (.fingerprinting .list)
  | .migrating [] => some (.fingerprinting .list)
  | .migrating (.error e :: _) => some (.returned (.error e))
  | .migrating (.ok _ :: todo) => some (.migrating todo)
  | .fingerprinting f =>
    match f.step now t with
    | .inl f => some (.fingerprinting f)
    | .inr fp => some (.loading fp .findSettings)
  | .loading fp l =>
    match l.step call.dir t with
    | .inl l => some (.loading fp l)
    | .inr (.ok config) => some (.store fp config)
    | .inr (.error e) => some (.returned (.error e))
  | .store _ config => some (.returned (.ok config))
  | .returned _ => none

namespace World

def change (g : Granularity) (w : World S N) (dir : String) (c : Change) : World S N :=
  { w with trees := Function.update w.trees dir (c.apply (g.stamp w.clock) (w.trees dir)) }

/-- What a step of a call does besides: the migration writes files, and a loaded configuration is kept. -/
def effect (g : Granularity) (w : World S N) (call : Call S N) : World S N :=
  match call.stage with
  | .migrating (.ok c :: _) => w.change g call.dir c
  | .store fp config => { w with cache := some ⟨call.dir, fp, config⟩ }
  | _ => w

def start (w : World S N) (dir : String) (migrate : Bool) : World S N :=
  { w with calls := w.calls ++ [⟨dir, migrate, .lookup⟩] }

def next (g : Granularity) (w : World S N) : Event → Option (World S N)
  | .tick nanos => some { w with clock := w.clock + nanos }
  | .change dir c => some (w.change g dir c)
  | .call dir migrate => some (w.start dir migrate)
  | .step i =>
    match w.calls[i]? with
    | none => none
    | some call =>
      match call.advance w.clock (w.trees call.dir) w.cache with
      | none => none
      | some stage => some { w.effect g call with calls := w.calls.set i { call with stage } }

end World

/-! ### The condition -/

/-- The fingerprint found no `settings.toml`, and the call is yet to look for the file. -/
def Stage.awaitsSettings : Stage S N → Bool
  | .fingerprinting f => f.foundNoSettings
  | .loading fp .findSettings => fp.settings.isNone
  | _ => false

/-- Between the listing of `networks/` and the reading of the clock. -/
def Stage.hasListed : Stage S N → Bool
  | .fingerprinting f => f.listed
  | _ => false

/-- The change makes no file appear that a call at this stage would miss. -/
def Stage.allows (t : ConfigTree) (c : Change) (stage : Stage S N) : Bool :=
  !(c.createsSettings t && stage.awaitsSettings) && !(c.createsNetwork t && stage.hasListed)

/-- The change makes no file appear behind the back of a call. -/
def World.allows (w : World S N) (dir : String) (c : Change) : Bool :=
  w.calls.all fun call => call.dir ≠ dir || call.stage.allows (w.trees dir) c

/-- No file appears behind the back of a call, and an old file that is to be migrated can be. -/
def World.quiet (w : World S N) : Event → Bool
  | .change dir c => w.allows dir c
  | .step i =>
    match w.calls[i]? with
    | none => true
    | some call =>
      match call.stage with
      | .migrating (.ok c :: _) => w.allows call.dir c
      | .migrate =>
        !call.migrate ||
          (w.trees call.dir).legacy.all fun contents => (migrateLegacy S N contents).all Except.isOk
      | _ => true
  | _ => true

/-- The step leaves the files under `dir` as they are. -/
def World.keeps (g : Granularity) (dir : String) (w : World S N) (ev : Event) : Bool :=
  (w.next g ev).all fun w' => w'.trees dir = w.trees dir

end Model

/-! ### Calls in progress -/

section Stages

variable {S N : Type} [Toml S] [Toml N] [Inhabited S]

/-- What a call knows at each stage. -/
def Stage.Ok (dir : String) (t : ConfigTree) (now : ℕ) : Stage S N → Prop
  | .checking e _ => e.fingerprint.trusted = true → Loaded dir t now e.fingerprint e.config
  | .fingerprinting f => f.Ok t
  | .loading fp l => fp.trusted = true → Tracks fp t now ∧ l.Ok dir fp t
  | .store fp config => fp.trusted = true → Loaded dir t now fp config
  | _ => True

variable {dir : String} {t : ConfigTree} {now : ℕ} {g : Granularity} {c : Change} {stage : Stage S N}

theorem Stage.Ok.mono {later : ℕ} (h : stage.Ok dir t now) (hle : now ≤ later) : stage.Ok dir t later := by
  cases stage with
  | checking | store => exact fun htrusted => (h htrusted).mono hle
  | loading => exact fun htrusted => ⟨(h htrusted).1.mono hle, (h htrusted).2⟩
  | _ => exact h

/-- **Step lemma**: what a call knows survives a change that makes no file appear behind its back. -/
theorem Stage.Ok.change (h : stage.Ok dir t now) (hallow : stage.allows t c = true) :
    stage.Ok dir (c.apply (g.stamp now) t) now := by
  simp only [Stage.allows, Bool.and_eq_true, Bool.not_eq_true'] at hallow
  obtain ⟨hsettings, hnetwork⟩ := hallow
  cases stage with
  | checking | store => exact fun htrusted => (h htrusted).change g c
  | fingerprinting f => exact Fingerprinting.Ok.change h hsettings hnetwork
  | loading fp l =>
    intro htrusted
    obtain ⟨htracks, hload⟩ := h htrusted
    refine ⟨htracks.change, hload.undisturbed htracks.covers htracks.undisturbed ?_⟩
    rintro rfl hnone
    refine settings_apply_of_absent ?_
    simpa [Stage.awaitsSettings, hnone] using hsettings
  | _ => exact h

end Stages

section Advance

variable {S N : Type} [Toml S] [Toml N] [Toml (AppConfig S N)] [Inhabited S] [NetworkName N]
variable {t : ConfigTree} {now : ℕ} {call : Call S N} {cache : Option (CacheEntry S N)} {stage : Stage S N}

/-- The moves a call can make, with what it found. -/
inductive Moves (dir : String) (migrate : Bool) (now : ℕ) (t : ConfigTree) (cache : Option (CacheEntry S N)) :
    Stage S N → Stage S N → Prop
  | miss : Moves dir migrate now t cache .lookup .migrate
  | hit {e : CacheEntry S N} (kept : cache = some e) (same : e.dir = dir) (trusted : e.fingerprint.trusted = true) :
      Moves dir migrate now t cache .lookup (.checking e .settings)
  | check {e : CacheEntry S N} {c c' : Checking} (step : c.step e.fingerprint t = .inl c') :
      Moves dir migrate now t cache (.checking e c) (.checking e c')
  | valid {e : CacheEntry S N} {c : Checking} (step : c.step e.fingerprint t = .inr true) :
      Moves dir migrate now t cache (.checking e c) (.returned (.ok e.config))
  | stale {e : CacheEntry S N} {c : Checking} : Moves dir migrate now t cache (.checking e c) .migrate
  | legacy {contents : Bytes} (flag : migrate = true) (old : t.legacy = some contents) :
      Moves dir migrate now t cache .migrate (.migrating (migrateLegacy S N contents))
  | current : Moves dir migrate now t cache .migrate (.fingerprinting .list)
  | migrated : Moves dir migrate now t cache (.migrating []) (.fingerprinting .list)
  | stuck {e : String} {todo : List (Except String Change)} :
      Moves dir migrate now t cache (.migrating (.error e :: todo)) (.returned (.error e))
  | change {c : Change} {todo : List (Except String Change)} :
      Moves dir migrate now t cache (.migrating (.ok c :: todo)) (.migrating todo)
  | fingerprint {f f' : Fingerprinting} (step : f.step now t = .inl f') :
      Moves dir migrate now t cache (.fingerprinting f) (.fingerprinting f')
  | taken {f : Fingerprinting} {fp : Fingerprint} (step : f.step now t = .inr fp) :
      Moves dir migrate now t cache (.fingerprinting f) (.loading fp .findSettings)
  | load {fp : Fingerprint} {l l' : Loading S N} (step : l.step dir t = .inl l') :
      Moves dir migrate now t cache (.loading fp l) (.loading fp l')
  | loaded {fp : Fingerprint} {l : Loading S N} {config : AppConfig S N} (step : l.step dir t = .inr (.ok config)) :
      Moves dir migrate now t cache (.loading fp l) (.store fp config)
  | failed {fp : Fingerprint} {l : Loading S N} {e : String} (step : l.step dir t = .inr (.error e)) :
      Moves dir migrate now t cache (.loading fp l) (.returned (.error e))
  | keep {fp : Fingerprint} {config : AppConfig S N} :
      Moves dir migrate now t cache (.store fp config) (.returned (.ok config))

theorem Call.moves_of_advance (h : call.advance now t cache = some stage) :
    Moves call.dir call.migrate now t cache call.stage stage := by
  obtain ⟨dir, migrate, before⟩ := call
  match before, h with
  | .lookup, h =>
    simp only [Call.advance] at h
    split at h
    · cases h
      exact .miss
    · split at h <;> cases h
      · rename_i hhit
        exact .hit rfl hhit.1 hhit.2
      · exact .miss
  | .checking e c, h =>
    simp only [Call.advance] at h
    split at h <;> cases h
    · exact .check ‹_›
    · exact .valid ‹_›
    · exact .stale
  | .migrate, h =>
    simp only [Call.advance] at h
    split at h
    · rename_i hflag
      split at h <;> cases h
      · exact .current
      · exact .legacy hflag ‹_›
    · cases h
      exact .current
  | .migrating [], h =>
    cases h
    exact .migrated
  | .migrating (.error _ :: _), h =>
    cases h
    exact .stuck
  | .migrating (.ok _ :: _), h =>
    cases h
    exact .change
  | .fingerprinting f, h =>
    simp only [Call.advance] at h
    split at h <;> cases h
    · exact .fingerprint ‹_›
    · exact .taken ‹_›
  | .loading fp l, h =>
    simp only [Call.advance] at h
    split at h <;> cases h
    · exact .load ‹_›
    · exact .loaded ‹_›
    · exact .failed ‹_›
  | .store fp config, h =>
    cases h
    exact .keep

/-- **Step lemma**: what a call knows at the next stage. -/
theorem Stage.Ok.advance (h : call.stage.Ok call.dir t now)
    (hcache : ∀ e, cache = some e → e.dir = call.dir → e.fingerprint.trusted = true →
      Loaded call.dir t now e.fingerprint e.config)
    (hadv : call.advance now t cache = some stage) : stage.Ok call.dir t now := by
  obtain ⟨dir, migrate, before⟩ := call
  cases Call.moves_of_advance hadv with
  | hit kept same => exact hcache _ kept same
  | check => exact h
  | fingerprint step => exact Fingerprinting.Ok.step h step
  | taken step => exact fun htrusted => Fingerprinting.Ok.taken h step htrusted
  | load step => exact fun htrusted => ⟨(h htrusted).1, (h htrusted).2.step step⟩
  | loaded step => exact fun htrusted => (h htrusted).2.loaded (h htrusted).1 step
  | _ => trivial

end Advance

/-! ### Runs -/

namespace World

variable {S N : Type} [Toml S] [Toml N] [Toml (AppConfig S N)] [Inhabited S] [NetworkName N]
variable {g : Granularity} {w w' : World S N} {ev : Event} {dir : String} {c : Change} {call : Call S N}

/-- The process starts: nothing is kept, and no call is under way. -/
def Fresh (w : World S N) : Prop := w.cache = none ∧ w.calls = []

/-- What is kept and what the calls in progress know is true of the files. -/
structure Inv (w : World S N) : Prop where
  cache : ∀ e, w.cache = some e → e.fingerprint.trusted = true →
    Loaded e.dir (w.trees e.dir) w.clock e.fingerprint e.config
  calls : ∀ call ∈ w.calls, call.stage.Ok call.dir (w.trees call.dir) w.clock

omit [Toml (AppConfig S N)] [NetworkName N] in
theorem Fresh.inv (h : w.Fresh) : w.Inv := by
  refine ⟨fun e he => ?_, fun call hcall => ?_⟩
  · rw [h.1] at he
    cases he
  · rw [h.2] at hcall
    cases hcall

omit [Toml S] [Toml N] [Toml (AppConfig S N)] [Inhabited S] [NetworkName N] in
theorem trees_change (d : String) :
    (w.change g dir c).trees d = if d = dir then c.apply (g.stamp w.clock) (w.trees d) else w.trees d := by
  by_cases heq : d = dir
  · subst heq
    simp [change]
  · simp [change, heq]

omit [Toml (AppConfig S N)] [NetworkName N] in
theorem Inv.change (h : w.Inv) (hallow : w.allows dir c = true) : (w.change g dir c).Inv := by
  refine ⟨fun e he htrusted => ?_, fun call hcall => ?_⟩
  · rw [trees_change]
    split
    · exact (h.cache e he htrusted).change g c
    · exact h.cache e he htrusted
  · rw [trees_change]
    split
    · rename_i heq
      have hstage := List.all_eq_true.mp hallow call hcall
      simp only [heq, ne_eq, not_true_eq_false, decide_false, Bool.false_or] at hstage
      exact (h.calls call hcall).change (heq ▸ hstage)
    · exact h.calls call hcall

omit [Toml (AppConfig S N)] [NetworkName N] in
theorem Inv.tick (h : w.Inv) (nanos : ℕ) : ({ w with clock := w.clock + nanos } : World S N).Inv :=
  ⟨fun e he htrusted => (h.cache e he htrusted).mono (Nat.le_add_right ..),
    fun call hcall => (h.calls call hcall).mono (Nat.le_add_right ..)⟩

omit [Toml (AppConfig S N)] [NetworkName N] in
theorem Inv.start (h : w.Inv) (dir : String) (migrate : Bool) : (w.start dir migrate).Inv := by
  refine ⟨h.cache, fun call hcall => ?_⟩
  rcases List.mem_append.mp hcall with hold | hnew
  · exact h.calls call hold
  · cases List.mem_singleton.mp hnew
    trivial

/-- What a step of a call does to the files and to what is kept. -/
theorem Inv.effect (h : w.Inv) {i : ℕ} (hcall : w.calls[i]? = some call) (hquiet : w.quiet (.step i) = true) :
    (w.effect g call).Inv := by
  simp only [quiet, hcall] at hquiet
  unfold World.effect
  split
  · rename_i hstage
    rw [hstage] at hquiet
    exact h.change hquiet
  · rename_i fp config hstage
    have hok := h.calls call (List.mem_of_getElem? hcall)
    rw [hstage] at hok
    refine ⟨fun e he htrusted => ?_, h.calls⟩
    cases he
    exact hok htrusted
  · exact h

omit [Toml S] [Toml N] [Toml (AppConfig S N)] [Inhabited S] [NetworkName N] in
theorem effect_frame (g : Granularity) (w : World S N) (call : Call S N) :
    (w.effect g call).clock = w.clock ∧ (w.effect g call).calls = w.calls := by
  unfold effect
  split <;> exact ⟨rfl, rfl⟩

/-- The files change under a call only while it migrates, and it does not look at them then. -/
theorem advance_ok (h : w.Inv) {i : ℕ} {stage : Stage S N} (hcall : w.calls[i]? = some call)
    (hadv : call.advance w.clock (w.trees call.dir) w.cache = some stage) :
    stage.Ok call.dir ((w.effect g call).trees call.dir) w.clock := by
  have hok := (h.calls call (List.mem_of_getElem? hcall)).advance
    (fun e he hdir htrusted => hdir ▸ h.cache e he htrusted) hadv
  unfold effect
  split
  · rename_i c todo hstage
    simp only [Call.advance, hstage, Option.some.injEq] at hadv
    subst hadv
    trivial
  · exact hok
  · exact hok

theorem Inv.next (h : w.Inv) (hquiet : w.quiet ev = true) (hnext : w.next g ev = some w') : w'.Inv := by
  cases ev with
  | tick nanos => cases hnext; exact h.tick nanos
  | change dir c => cases hnext; exact h.change hquiet
  | call dir migrate => cases hnext; exact h.start dir migrate
  | step i =>
    simp only [World.next] at hnext
    split at hnext
    · cases hnext
    · rename_i call hcall
      split at hnext
      · cases hnext
      · rename_i stage hadv
        cases hnext
        obtain ⟨hclock, hcalls⟩ := effect_frame g w call
        have heffect := h.effect (g := g) hcall hquiet
        refine ⟨heffect.cache, fun other hother => ?_⟩
        rcases List.mem_or_eq_of_mem_set hother with hold | rfl
        · exact heffect.calls other (hcalls ▸ hold)
        · simp only [hclock]
          exact advance_ok h hcall hadv

end World

/-! ### A call while the files stay as they are -/

section Steady

variable {S N : Type} [Toml S] [Toml N] [Toml (AppConfig S N)] [Inhabited S] [NetworkName N]

/-- What a call knows when the files have been `t` since it started. -/
def Stage.Agrees (dir : String) (t : ConfigTree) : Stage S N → Prop
  | .checking e c => e.fingerprint.trusted = true ∧ c.Matched e.fingerprint t
  | .migrating todo => t.legacy ≠ none ∧ .ok .retireLegacy ∈ todo ∧ ∀ s ∈ todo, s.isOk = true
  | .loading _ l => l.Agrees dir t
  | .store _ config => loadIn dir t = .ok config
  | .returned result => result = loadIn dir t
  | _ => True

variable {t : ConfigTree} {now : ℕ} {call : Call S N} {cache : Option (CacheEntry S N)} {stage : Stage S N}

omit [Inhabited S] in
/-- A migration that meets no error ends with the old file gone. -/
theorem retireLegacy_mem {contents : Bytes} (h : (migrateLegacy S N contents).all Except.isOk = true) :
    .ok .retireLegacy ∈ migrateLegacy S N contents := by
  unfold migrateLegacy at h ⊢
  split
  · rename_i heq
    simp [heq, Except.isOk, Except.toBool] at h
  · rename_i s heq
    simp only [heq] at h
    split
    · rename_i hparse
      simp [hparse, Except.isOk, Except.toBool] at h
    · simp

/-- **Step lemma** for a call under which the files do not change. -/
theorem Stage.Agrees.advance (h : call.stage.Agrees call.dir t) (hok : call.stage.Ok call.dir t now)
    (hmigrate : call.stage = .migrate → call.migrate = true →
      t.legacy.all (fun contents => (migrateLegacy S N contents).all Except.isOk) = true)
    (hkeeps : ∀ c todo, call.stage = .migrating (.ok c :: todo) → c ≠ .retireLegacy)
    (hadv : call.advance now t cache = some stage) : stage.Agrees call.dir t := by
  obtain ⟨dir, migrate, before⟩ := call
  cases Call.moves_of_advance hadv with
  | hit _ _ trusted => exact ⟨trusted, trivial⟩
  | check step => exact ⟨h.1, h.2.step step⟩
  | valid step => exact ((hok h.1).loadIn_eq (h.2.valid step)).symm
  | legacy flag old =>
    have hclean := hmigrate rfl flag
    rw [old, Option.all_some] at hclean
    exact ⟨by simp [old], retireLegacy_mem hclean, List.all_eq_true.mp hclean⟩
  | stuck => exact absurd (h.2.2 _ List.mem_cons_self) (by simp [Except.isOk, Except.toBool])
  | @change c todo =>
    obtain ⟨hlegacy, hmem, hclean⟩ := h
    refine ⟨hlegacy, ?_, fun s hs => hclean s (List.mem_cons_of_mem _ hs)⟩
    rcases List.mem_cons.mp hmem with heq | hmem
    · exact absurd (Except.ok.inj heq).symm (hkeeps c todo rfl)
    · exact hmem
  | load step => exact Loading.Agrees.step h step
  | loaded step => exact (Loading.Agrees.result_eq h step).symm
  | failed step => exact Loading.Agrees.result_eq h step
  | keep => exact h.symm
  | _ => trivial

end Steady

namespace World

variable {S N : Type} [Toml S] [Toml N] [Toml (AppConfig S N)] [Inhabited S] [NetworkName N]
variable {g : Granularity} {w w' : World S N} {ev : Event} {dir : String} {migrate : Bool} {i : ℕ} {t : ConfigTree}

/-- Call `i` is under way, and the files have been `t` since it started. -/
structure Steady (w : World S N) (i : ℕ) (dir : String) (migrate : Bool) (t : ConfigTree) : Prop where
  inv : w.Inv
  tree : w.trees dir = t
  call : ∃ stage, w.calls[i]? = some ⟨dir, migrate, stage⟩ ∧ stage.Agrees dir t

/-- A step under which the files stay as they are does not take the old file away. -/
theorem ne_retireLegacy {stage : Stage S N} (htree : w.trees dir = t) (hcall : w.calls[i]? = some ⟨dir, migrate, stage⟩)
    (hagrees : stage.Agrees dir t) (hkeeps : w.keeps g dir (.step i) = true) (c : Change)
    (todo : List (Except String Change)) (hstage : stage = .migrating (.ok c :: todo)) : c ≠ .retireLegacy := by
  subst hstage
  rintro rfl
  simp only [keeps, World.next, hcall, Call.advance, effect, Option.all_some, decide_eq_true_eq] at hkeeps
  rw [trees_change, if_pos rfl, htree] at hkeeps
  exact hagrees.1 (congrArg ConfigTree.legacy hkeeps).symm

theorem Steady.step (h : w.Steady i dir migrate t) (hquiet : w.quiet (.step i) = true)
    (hkeeps : w.keeps g dir (.step i) = true) (hnext : w.next g (.step i) = some w') :
    ∃ stage, w'.calls[i]? = some ⟨dir, migrate, stage⟩ ∧ stage.Agrees dir t := by
  obtain ⟨stage, hcall, hagrees⟩ := h.call
  simp only [World.next, hcall] at hnext
  split at hnext
  · cases hnext
  · rename_i stage' hadv
    cases hnext
    obtain ⟨hi, -⟩ := List.getElem?_eq_some_iff.mp hcall
    refine ⟨stage', by simp [hi], ?_⟩
    have hok := h.inv.calls _ (List.mem_of_getElem? hcall)
    rw [h.tree] at hadv hok
    refine hagrees.advance hok (fun hstage hflag => ?_) (ne_retireLegacy h.tree hcall hagrees hkeeps) hadv
    simp only [quiet, hcall, show stage = .migrate from hstage, show migrate = true from hflag, Bool.not_true,
      Bool.false_or, h.tree] at hquiet
    exact hquiet

theorem Steady.next (h : w.Steady i dir migrate t) (hquiet : w.quiet ev = true) (hkeeps : w.keeps g dir ev = true)
    (hnext : w.next g ev = some w') : w'.Steady i dir migrate t := by
  have htree : w'.trees dir = t := by
    simp only [keeps, hnext, Option.all_some, decide_eq_true_eq] at hkeeps
    rw [hkeeps, h.tree]
  refine ⟨h.inv.next hquiet hnext, htree, ?_⟩
  obtain ⟨stage, hcall, hagrees⟩ := h.call
  cases ev with
  | tick nanos => cases hnext; exact ⟨stage, hcall, hagrees⟩
  | change dir' c => cases hnext; exact ⟨stage, hcall, hagrees⟩
  | call dir' migrate' =>
    cases hnext
    refine ⟨stage, ?_, hagrees⟩
    obtain ⟨hi, -⟩ := List.getElem?_eq_some_iff.mp hcall
    rw [World.start, List.getElem?_append_left hi]
    exact hcall
  | step j =>
    by_cases hij : j = i
    · subst hij
      exact h.step hquiet hkeeps hnext
    · simp only [World.next] at hnext
      split at hnext
      · cases hnext
      · split at hnext <;> cases hnext
        exact ⟨stage, by rw [List.getElem?_set_ne hij]; exact hcall, hagrees⟩

omit [Toml (AppConfig S N)] [NetworkName N] in
theorem Inv.steady_start (h : w.Inv) (dir : String) (migrate : Bool) :
    (w.start dir migrate).Steady w.calls.length dir migrate (w.trees dir) :=
  ⟨h.start dir migrate, rfl, .lookup, by simp [World.start], trivial⟩

end World

section Transparent

variable {S N : Type} [Toml S] [Toml N] [Toml (AppConfig S N)] [Inhabited S] [NetworkName N]

/-- **The cache is transparent** where no file appears behind the back of a call: from the start of the
process on, a call of `load_cached_in` during which the files do not change returns what `load_in` makes of
them, however the changes before it fell between the steps of the calls before it. -/
theorem cached_load_eq (g : Granularity) {w₀ w₁ w₂ : World S N} {before during : List Event} {dir : String}
    {migrate : Bool} {result : Except String (AppConfig S N)} (hstart : w₀.Fresh)
    (hbefore : Run (fun w ev w' => w.next g ev = some w') (fun w ev => w.quiet ev = true) w₀ before w₁)
    (hduring : Run (fun w ev w' => w.next g ev = some w') (fun w ev => w.quiet ev = true ∧ w.keeps g dir ev = true)
      (w₁.start dir migrate) during w₂)
    (hreturned : w₂.calls[w₁.calls.length]? = some ⟨dir, migrate, .returned result⟩) :
    result = loadIn dir (w₂.trees dir) := by
  have hinv : w₁.Inv :=
    hbefore.invariant (I := fun _ w => w.Inv) hstart.inv fun _ _ _ _ h hquiet hnext => h.next hquiet hnext
  have hsteady : w₂.Steady w₁.calls.length dir migrate (w₁.trees dir) :=
    hduring.invariant (I := fun _ w => w.Steady w₁.calls.length dir migrate (w₁.trees dir))
      (hinv.steady_start dir migrate) fun _ _ _ _ h hC hnext => h.next hC.1 hC.2 hnext
  obtain ⟨stage, hcall, hagrees⟩ := hsteady.call
  rw [hreturned] at hcall
  cases hcall
  rw [hsteady.tree]
  exact hagrees

end Transparent

/-! ### Two histories -/

namespace Sample

/-- Files that hold their text. -/
scoped instance : Toml String := ⟨some, some⟩

scoped instance : Toml (AppConfig String String) := ⟨fun _ => none, fun _ => none⟩

scoped instance : NetworkName String := ⟨id⟩

abbrev Host := World String String

/-- A file system that stamps to the nanosecond. -/
def fine : Granularity := ⟨1, by decide, by decide⟩

def etc : String := "/etc/tetron"

def boot (settings : Option ConfigFile) : Host := ⟨10000000000, fun _ => ⟨settings, none, none⟩, none, []⟩

/-- Where the events lead. -/
def after (C : Host → Event → Bool) (w : Host) (events : List Event) : Host :=
  (Run.exec (World.next fine) (fun w ev => C w ev = true) w events).getD w

theorem run_after (C : Host → Event → Bool) (w : Host) (events : List Event)
    (h : (Run.exec (World.next fine) (fun w ev => C w ev = true) w events).isSome = true) :
    Run (fun w ev w' => World.next fine w ev = some w') (fun w ev => C w ev = true) w events (after C w events) := by
  refine Run.of_exec ?_
  rw [after, Option.getD_of_ne_none (Option.isSome_iff_ne_none.mp h)]

def steps (i n : ℕ) : List Event := List.replicate n (.step i)

/-- A load of an old file, -/
def loaded : Host := after World.quiet (boot (some ⟨[97], 0⟩)) (.call etc true :: steps 0 11)

/-- and a second one, served from the cache. -/
def served : Host :=
  after (fun w ev => w.quiet ev && w.keeps fine etc ev) (loaded.start etc true) (steps 1 4)

/-- The settings are written when the fingerprint has been taken, and removed after they were read. -/
def outrun : Host :=
  after (fun _ _ => true) (boot none)
    (.call etc true :: steps 0 7 ++ .change etc (.writeSettings [97]) :: steps 0 4 ++ [.change etc .deleteSettings])

def misled : Host := after (fun w ev => w.keeps fine etc ev) (outrun.start etc true) (steps 1 4)

end Sample

open Sample

theorem cached_load_eq_served :
    served.calls[loaded.calls.length]? = some ⟨etc, true, .returned (.ok ⟨"a", []⟩)⟩ ∧
      (.ok ⟨"a", []⟩ : Except String (AppConfig String String)) = loadIn etc (served.trees etc) := by
  have hreturned : served.calls[loaded.calls.length]? = some ⟨etc, true, .returned (.ok ⟨"a", []⟩)⟩ := rfl
  have hfresh : (boot (some ⟨[97], 0⟩)).Fresh := ⟨rfl, rfl⟩
  have hbefore := run_after World.quiet (boot (some ⟨[97], 0⟩)) (.call etc true :: steps 0 11) (by decide +kernel)
  have hduring := run_after (fun w ev => w.quiet ev && w.keeps fine etc ev) (loaded.start etc true) (steps 1 4)
    (by decide +kernel)
  exact ⟨hreturned, cached_load_eq fine hfresh hbefore (hduring.mono fun _ _ => Bool.and_eq_true_iff.mp) hreturned⟩

/-- **A file that comes and goes is kept**: the call returns the settings of a file that is not there. -/
theorem cached_load_stale :
    (boot none).Fresh ∧
    (∃ events, Run (fun w ev w' => World.next fine w ev = some w') (fun _ _ => True) (boot none) events outrun) ∧
    (∃ events, Run (fun w ev w' => World.next fine w ev = some w') (fun w ev => w.keeps fine etc ev = true)
      (outrun.start etc true) events misled) ∧
    misled.calls[outrun.calls.length]? = some ⟨etc, true, .returned (.ok ⟨"a", []⟩)⟩ ∧
    (loadIn etc (misled.trees etc) : Except String (AppConfig String String)) = .ok ⟨"", []⟩ := by
  refine ⟨⟨rfl, rfl⟩, ⟨_, (run_after (fun _ _ => true) _ _ ?_).mono fun _ _ _ => trivial⟩,
    ⟨_, run_after (fun w ev => w.keeps fine etc ev) _ _ ?_⟩, rfl, rfl⟩
  · decide +kernel
  · decide +kernel

end Tetron.Config
