import Tetron.Config.WriteFile
import Tetron.Lib.Table

/-!
# The node's key across restarts

A node is who its key says it is. A daemon that starts reads the key from its directory, or makes one and writes it
there (`load_or_create`). Before that it takes over what an older build has left in another directory, entry by entry
and in the order of the listing, unless its own directory is populated already (`migrate_location`).

`Machine` is a machine on which the daemon is started any number of times. A start may end at any point, any rename may
fail, and in the meantime other files of the directory come and go.

* `identity_kept`: all the starts that got so far have run under one key, and the old directory's key is never lost: it
  is in one of the two directories. It is the key the node runs under, if the old directory can be listed, its key can
  be moved, no start ends between the move of a file that counts and that of the key, and no such file is written before
  the key is there.

The last two are needed: the directory then counts as populated without a key, the old one is not looked at again, and
the node comes back as somebody else.
-/

namespace Tetron.Identity

open Tetron.Config

/-- An entry of a directory; what is in a directory in it does not matter here. -/
inductive Entry
  | file (bytes : Bytes)
  | dir
deriving DecidableEq

abbrev Directory := HashTable String Entry

structure SecretKey where
  bytes : Bytes
  length_eq : bytes.length = 32
deriving DecidableEq

/-- `key_path`. -/
def keyPath : String := "secret_key"

namespace Directory

/-- What tells `migrate_location` that there is nothing to relocate. -/
def populated (dir : Directory) : Bool :=
  (dir.get? keyPath).isSome || (dir.get? "settings.toml").isSome || (dir.get? "networks.toml").isSome ||
    dir.get? "networks" == some .dir

def hasKey (dir : Directory) : Bool := (dir.get? keyPath).isSome

theorem populated_of_key {dir : Directory} {entry : Entry} (h : dir.get? keyPath = some entry) :
    populated dir = true := by
  simp [populated, h]

end Directory

/-- Where a start of the daemon is. -/
inductive Stage
  | off
  /-- In the loop of `migrate_location`, before these entries. -/
  | migrating (rest : List String)
  /-- Before `load_or_create`. -/
  | loading
  /-- In `write_file`, before the temporary file and before the rename. -/
  | writing (key : SecretKey)
  | installing (key : SecretKey)
  | running (key : SecretKey)
deriving DecidableEq

structure Machine where
  /-- `~/.config/tetron`. -/
  old : Directory
  /-- `/etc/tetron`. -/
  new : Directory
  pid : ℕ
  stage : Stage
  /-- The keys the daemon has run under. -/
  ran : List SecretKey

inductive Event
  /-- The daemon is started; the old directory can be listed or not. -/
  | start (pid : ℕ) (readable : Bool)
  | move (ok : Bool)
  | moved
  /-- `load_or_create`, with the key it would make. -/
  | load (fresh : SecretKey)
  | write
  /-- The temporary file cannot be created or filled. -/
  | writeFails (left : Option Bytes)
  | rename (ok : Bool)
  /-- Somebody writes or removes a file other than the key. -/
  | save (name : String) (entry : Entry)
  | remove (name : String)
  | stop

namespace Machine

variable (s : Machine)

def tmp : String := tmpName keyPath s.pid

/-- `std::fs::rename` of an entry into the new directory. -/
def relocate (name : String) : Machine :=
  match s.old.get? name with
  | some entry => { s with old := s.old.erase name, new := s.new.insert name entry }
  | none => s

/-- `load_or_create`, up to `write_file`. -/
def loadOrCreate (fresh : SecretKey) : Machine :=
  match s.new.get? keyPath with
  | some (.file bytes) =>
    if h : bytes.length = 32 then { s with stage := .running ⟨bytes, h⟩, ran := ⟨bytes, h⟩ :: s.ran }
    else { s with stage := .off }
  | some .dir => { s with stage := .off }
  | none => { s with stage := .writing fresh }

/-- The rename of `write_file`. -/
def finishWrite (key : SecretKey) (ok : Bool) : Machine :=
  match s.new.get? s.tmp, ok with
  | some entry, true =>
    { s with
      new := (s.new.erase s.tmp).insert keyPath entry, stage := .running key, ran := key :: s.ran }
  | _, _ => { s with new := s.new.erase s.tmp, stage := .off }

def next : Event → Option Machine
  | .start pid readable =>
    match s.stage with
    | .off =>
      some { s with
        pid := pid, stage := if s.new.populated || !readable then .loading else .migrating s.old.keys }
    | _ => none
  | .move ok =>
    match s.stage with
    | .migrating (name :: rest) => some { (if ok then s.relocate name else s) with stage := .migrating rest }
    | _ => none
  | .moved => if s.stage = .migrating [] then some { s with stage := .loading } else none
  | .load fresh => if s.stage = .loading then some (s.loadOrCreate fresh) else none
  | .write =>
    match s.stage with
    | .writing key => some { s with new := s.new.insert s.tmp (.file key.bytes), stage := .installing key }
    | _ => none
  | .writeFails left =>
    match s.stage with
    | .writing _ =>
      some { s with new := left.elim s.new fun bytes => s.new.insert s.tmp (.file bytes), stage := .off }
    | _ => none
  | .rename ok =>
    match s.stage with
    | .installing key => some (s.finishWrite key ok)
    | _ => none
  | .save name entry =>
    if name = keyPath ∨ name = s.tmp then none else some { s with new := s.new.insert name entry }
  | .remove name => if name = keyPath ∨ name = s.tmp then none else some { s with new := s.new.erase name }
  | .stop => some { s with stage := .off }

/-- What the old key's way into the new directory depends on. -/
def careful : Event → Bool
  | .start _ readable => readable
  | .move ok =>
    match s.stage with
    | .migrating (name :: _) => ok || name != keyPath
    | _ => true
  | .save name entry => s.new.populated || !Directory.populated (s.new.insert name entry)
  | .stop =>
    match s.stage with
    | .migrating _ => s.new.hasKey || !s.new.populated
    | _ => true
  | _ => true

end Machine

theorem tmp_ne_keyPath (s : Machine) : s.tmp ≠ keyPath := by
  intro h
  have hlen := congrArg String.length h
  simp only [Machine.tmp, tmpName, String.length_append] at hlen
  have hdot : String.length "." = 1 := by decide
  have hkey : keyPath.length = 10 := by decide
  have htmp : String.length ".tmp." = 5 := by decide
  omega

/-! ### What a step can do -/

variable {s s' : Machine}

/-- What becomes of the two keys, and of the stage. -/
inductive Moves (s : Machine) : Event → Machine → Prop
  | migrates (pid : ℕ) (off : s.stage = .off) (empty : s.new.populated = false) :
      Moves s (.start pid true) { s with pid := pid, stage := .migrating s.old.keys }
  | skips (pid : ℕ) (readable : Bool) (off : s.stage = .off) (why : s.new.populated = true ∨ readable = false) :
      Moves s (.start pid readable) { s with pid := pid, stage := .loading }
  | relocates (name : String) (entry : Entry) (rest : List String) (at_entry : s.stage = .migrating (name :: rest))
      (found : s.old.get? name = some entry) :
      Moves s (.move true)
        { s with old := s.old.erase name, new := s.new.insert name entry, stage := .migrating rest }
  | leaves (ok : Bool) (name : String) (rest : List String) (at_entry : s.stage = .migrating (name :: rest))
      (why : ok = true → s.old.get? name = none) : Moves s (.move ok) { s with stage := .migrating rest }
  | migrated (at_end : s.stage = .migrating []) : Moves s .moved { s with stage := .loading }
  | loads (fresh key : SecretKey) (at_load : s.stage = .loading) (found : s.new.get? keyPath = some (.file key.bytes)) :
      Moves s (.load fresh) { s with stage := .running key, ran := key :: s.ran }
  | makes (fresh : SecretKey) (at_load : s.stage = .loading) (absent : s.new.get? keyPath = none) :
      Moves s (.load fresh) { s with stage := .writing fresh }
  | fills (key : SecretKey) (at_write : s.stage = .writing key) :
      Moves s .write { s with new := s.new.insert s.tmp (.file key.bytes), stage := .installing key }
  | renames (key : SecretKey) (entry : Entry) (at_rename : s.stage = .installing key)
      (found : s.new.get? s.tmp = some entry) :
      Moves s (.rename true)
        { s with new := (s.new.erase s.tmp).insert keyPath entry, stage := .running key, ran := key :: s.ran }
  /-- What is at the key's place is no key. -/
  | corrupt (fresh : SecretKey) (entry : Entry) (at_load : s.stage = .loading)
      (found : s.new.get? keyPath = some entry) : Moves s (.load fresh) { s with stage := .off }
  | fails (e : Event) (new : Directory) (in_write : ∃ key, s.stage = .writing key ∨ s.stage = .installing key)
      (key_eq : new.get? keyPath = s.new.get? keyPath) : Moves s e { s with new := new, stage := .off }
  | saves (name : String) (entry : Entry) (other : ¬ (name = keyPath ∨ name = s.tmp)) :
      Moves s (.save name entry) { s with new := s.new.insert name entry }
  | removes (name : String) (other : ¬ (name = keyPath ∨ name = s.tmp)) :
      Moves s (.remove name) { s with new := s.new.erase name }
  | stops : Moves s .stop { s with stage := .off }

theorem get?_insert_tmp {entry : Entry} : (s.new.insert s.tmp entry).get? keyPath = s.new.get? keyPath :=
  HashTable.get?_insert.trans (if_neg (tmp_ne_keyPath s).symm)

theorem get?_erase_tmp : (s.new.erase s.tmp).get? keyPath = s.new.get? keyPath :=
  HashTable.get?_erase.trans (if_neg (tmp_ne_keyPath s).symm)

theorem moves_of_next {e : Event} (hnext : s.next e = some s') : Moves s e s' := by
  cases e with
  | start pid readable =>
    rw [Machine.next] at hnext
    split at hnext
    · rename_i hoff
      cases hnext
      by_cases hempty : (s.new.populated || !readable) = true
      · rw [if_pos hempty]
        exact .skips pid readable hoff (by simpa using hempty)
      · rw [if_neg hempty]
        obtain ⟨hnone, rfl⟩ : s.new.populated = false ∧ readable = true := by simpa using hempty
        exact .migrates pid hoff hnone
    · cases hnext
  | move ok =>
    rw [Machine.next] at hnext
    split at hnext
    · rename_i name rest hstage
      cases hnext
      cases ok with
      | false => exact .leaves false name rest hstage nofun
      | true =>
        rw [if_pos rfl, Machine.relocate]
        split
        · rename_i entry hfound
          exact .relocates name entry rest hstage hfound
        · rename_i hnone
          exact .leaves true name rest hstage fun _ => hnone
    · cases hnext
  | moved =>
    rw [Machine.next] at hnext
    split at hnext
    · cases hnext
      exact .migrated ‹_›
    · cases hnext
  | load fresh =>
    rw [Machine.next] at hnext
    split at hnext
    · rename_i hstage
      obtain rfl := Option.some.inj hnext
      rw [Machine.loadOrCreate]
      split
      · rename_i bytes hfound
        split
        · rename_i hlen
          exact .loads fresh ⟨bytes, hlen⟩ hstage hfound
        · exact .corrupt fresh _ hstage hfound
      · exact .corrupt fresh _ hstage ‹_›
      · exact .makes fresh hstage ‹_›
    · cases hnext
  | write =>
    rw [Machine.next] at hnext
    split at hnext
    · cases hnext
      exact .fills _ ‹_›
    · cases hnext
  | writeFails left =>
    rw [Machine.next] at hnext
    split at hnext
    · rename_i key hstage
      cases hnext
      refine .fails _ _ ⟨key, .inl hstage⟩ ?_
      cases left with
      | none => rfl
      | some bytes => exact get?_insert_tmp
    · cases hnext
  | rename ok =>
    rw [Machine.next] at hnext
    split at hnext
    · rename_i key hstage
      obtain rfl := Option.some.inj hnext
      unfold Machine.finishWrite
      split
      · exact .renames key _ hstage ‹_›
      · exact .fails _ _ ⟨key, .inr hstage⟩ get?_erase_tmp
    · cases hnext
  | save name entry =>
    rw [Machine.next] at hnext
    split at hnext
    · cases hnext
    · cases hnext
      exact .saves name entry ‹_›
  | remove name =>
    rw [Machine.next] at hnext
    split at hnext
    · cases hnext
    · cases hnext
      exact .removes name ‹_›
  | stop =>
    cases hnext
    exact .stops

/-! ### One key -/

/-- What every run keeps. -/
structure Single (s : Machine) : Prop where
  /-- A key the daemon has run under stays in its place. -/
  ran : ∀ key ∈ s.ran, s.new.get? keyPath = some (.file key.bytes)
  /-- A migration has no key to overwrite. -/
  migrating : ∀ rest, s.stage = .migrating rest → s.new.get? keyPath = none ∨ s.old.get? keyPath = none
  writing : ∀ key, s.stage = .writing key → s.new.get? keyPath = none
  installing : ∀ key, s.stage = .installing key →
    s.new.get? keyPath = none ∧ s.new.get? s.tmp = some (.file key.bytes)

/-- The old key is in one of the two places. -/
def Held (key : SecretKey) (s : Machine) : Prop :=
  s.old.get? keyPath = some (.file key.bytes) ∨ s.new.get? keyPath = some (.file key.bytes)

theorem get?_insert_other (dir : Directory) {name : String} (entry : Entry) (hother : name ≠ keyPath) :
    (dir.insert name entry).get? keyPath = dir.get? keyPath :=
  HashTable.get?_insert.trans (if_neg hother.symm)

theorem get?_erase_other (dir : Directory) {name : String} (hother : name ≠ keyPath) :
    (dir.erase name).get? keyPath = dir.get? keyPath :=
  HashTable.get?_erase.trans (if_neg hother.symm)

theorem no_key_of_unpopulated {dir : Directory} (h : dir.populated = false) : dir.get? keyPath = none := by
  cases hget : dir.get? keyPath with
  | none => rfl
  | some entry => cases (Directory.populated_of_key hget).symm.trans h

/-- The daemon has not run while there is no key. -/
theorem Single.not_ran (hinv : Single s) (hnone : s.new.get? keyPath = none) {key : SecretKey} : key ∉ s.ran := by
  intro hmem
  cases hnone.symm.trans (hinv.ran key hmem)

/-- A migration that finds an old key has not brought one yet. -/
theorem Single.no_key_before (hinv : Single s) {rest : List String} {entry : Entry}
    (hstage : s.stage = .migrating rest) (hfound : s.old.get? keyPath = some entry) : s.new.get? keyPath = none := by
  refine (hinv.migrating rest hstage).resolve_right ?_
  rw [hfound]
  exact Option.some_ne_none _

/-- Another file was written or removed. -/
theorem Single.edited (hinv : Single s) {new : Directory} (hkey : new.get? keyPath = s.new.get? keyPath)
    (htmp : new.get? s.tmp = s.new.get? s.tmp) : Single { s with new := new } where
  ran key hmem := hkey.trans (hinv.ran key hmem)
  migrating rest hstage := (hinv.migrating rest hstage).imp_left hkey.trans
  writing key hstage := hkey.trans (hinv.writing key hstage)
  installing key hstage := (hinv.installing key hstage).imp hkey.trans htmp.trans

theorem Single.step {e : Event} (hinv : Single s) (hmoves : Moves s e s') : Single s' := by
  cases hmoves with
  | migrates pid hoff hempty => exact ⟨hinv.ran, fun _ _ => .inl (no_key_of_unpopulated hempty), nofun, nofun⟩
  | skips pid readable hoff hwhy => exact ⟨hinv.ran, nofun, nofun, nofun⟩
  | relocates name entry rest hstage hfound =>
    by_cases hname : name = keyPath
    · subst hname
      have hnone := hinv.no_key_before hstage hfound
      refine ⟨fun key hmem => absurd hmem (hinv.not_ran hnone), fun _ _ => .inr ?_, nofun, nofun⟩
      exact HashTable.get?_erase.trans (if_pos rfl)
    · have hnew := get?_insert_other s.new entry hname
      have hold := get?_erase_other s.old hname
      refine ⟨fun key hmem => hnew.trans (hinv.ran key hmem), fun _ _ => ?_, nofun, nofun⟩
      exact (hinv.migrating _ hstage).imp hnew.trans hold.trans
  | leaves ok name rest hstage hwhy => exact ⟨hinv.ran, fun _ _ => hinv.migrating _ hstage, nofun, nofun⟩
  | migrated hstage => exact ⟨hinv.ran, nofun, nofun, nofun⟩
  | loads fresh key hstage hfound =>
    refine ⟨fun key' hmem => ?_, nofun, nofun, nofun⟩
    rcases List.mem_cons.mp hmem with rfl | hold
    · exact hfound
    · exact hinv.ran key' hold
  | makes fresh hstage habsent => exact ⟨hinv.ran, nofun, fun _ _ => habsent, nofun⟩
  | fills key hstage =>
    have hnone := hinv.writing key hstage
    refine ⟨fun key' hmem => absurd hmem (hinv.not_ran hnone), nofun, nofun, ?_⟩
    rintro key' ⟨⟩
    exact ⟨get?_insert_tmp.trans hnone, HashTable.get?_insert.trans (if_pos rfl)⟩
  | renames key entry hstage hfound =>
    obtain ⟨hnone, htmp⟩ := hinv.installing key hstage
    obtain rfl := Option.some.inj (hfound.symm.trans htmp)
    refine ⟨fun key' hmem => ?_, nofun, nofun, nofun⟩
    rcases List.mem_cons.mp hmem with rfl | hold
    · exact HashTable.get?_insert.trans (if_pos rfl)
    · exact absurd hold (hinv.not_ran hnone)
  | corrupt fresh entry hstage hfound => exact ⟨hinv.ran, nofun, nofun, nofun⟩
  | fails e new hstage hkey => exact ⟨fun key hmem => hkey.trans (hinv.ran key hmem), nofun, nofun, nofun⟩
  | saves name entry hother =>
    obtain ⟨hname, htmp⟩ := not_or.mp hother
    exact hinv.edited (get?_insert_other s.new entry hname) (HashTable.get?_insert.trans (if_neg (Ne.symm htmp)))
  | removes name hother =>
    obtain ⟨hname, htmp⟩ := not_or.mp hother
    exact hinv.edited (get?_erase_other s.new hname) (HashTable.get?_erase.trans (if_neg (Ne.symm htmp)))
  | stops => exact ⟨hinv.ran, nofun, nofun, nofun⟩

theorem Held.step {key : SecretKey} {e : Event} (hheld : Held key s) (hinv : Single s) (hmoves : Moves s e s') :
    Held key s' := by
  cases hmoves with
  | relocates name entry rest hstage hfound =>
    by_cases hname : name = keyPath
    · subst hname
      have hnone := hinv.no_key_before hstage hfound
      have hold := hheld.resolve_right (by rw [hnone]; exact (Option.some_ne_none _).symm)
      obtain rfl := Option.some.inj (hfound.symm.trans hold)
      exact .inr (HashTable.get?_insert.trans (if_pos rfl))
    · exact hheld.imp (get?_erase_other s.old hname).trans (get?_insert_other s.new entry hname).trans
  | renames key' entry hstage hfound =>
    -- a key is made only where there is none
    have hnone := (hinv.installing key' hstage).1
    exact .inl (hheld.resolve_right (by rw [hnone]; exact (Option.some_ne_none _).symm))
  | fills key' hstage => exact hheld.imp_right get?_insert_tmp.trans
  | fails e new hstage hkey => exact hheld.imp_right hkey.trans
  | saves name entry hother => exact hheld.imp_right (get?_insert_other s.new entry (not_or.mp hother).1).trans
  | removes name hother => exact hheld.imp_right (get?_erase_other s.new (not_or.mp hother).1).trans
  | migrates | skips | leaves | migrated | loads | makes | corrupt | stops => exact hheld

/-! ### The old key -/

/-- A start will look for the old key, or the one under way has it before itself. -/
def Waiting (s : Machine) : Prop :=
  (s.stage = .off ∧ s.new.populated = false) ∨ ∃ rest, s.stage = .migrating rest ∧ keyPath ∈ rest

/-- The old key is in the new place or on its way there. -/
structure Kept (key : SecretKey) (s : Machine) : Prop where
  place : s.new.get? keyPath = some (.file key.bytes) ∨
    s.new.get? keyPath = none ∧ s.old.get? keyPath = some (.file key.bytes) ∧ Waiting s
  unwritten : ∀ other, s.stage ≠ .writing other
  uninstalled : ∀ other, s.stage ≠ .installing other

theorem populated_of_erase {dir : Directory} {name : String} (h : Directory.populated (dir.erase name) = true) :
    dir.populated = true := by
  have hsome : ∀ other, ((dir.erase name).get? other).isSome = true → (dir.get? other).isSome = true := by
    intro other hget
    obtain ⟨entry, hentry⟩ := Option.isSome_iff_exists.mp hget
    exact Option.isSome_iff_exists.mpr ⟨entry, HashTable.get?_of_erase hentry⟩
  simp only [Directory.populated, Bool.or_eq_true, beq_iff_eq] at h ⊢
  rcases h with ((h | h) | h) | h
  · exact .inl (.inl (.inl (hsome _ h)))
  · exact .inl (.inl (.inr (hsome _ h)))
  · exact .inl (.inr (hsome _ h))
  · exact .inr (HashTable.get?_of_erase h)

namespace Kept

variable {key : SecretKey}

/-- A start that is past the migration has the key. -/
theorem new_of_loading (hinv : Kept key s) (hstage : s.stage = .loading) :
    s.new.get? keyPath = some (.file key.bytes) := by
  refine hinv.place.resolve_right ?_
  rintro ⟨-, -, ⟨hoff, -⟩ | ⟨rest, hrest, -⟩⟩
  · cases hstage.symm.trans hoff
  · cases hstage.symm.trans hrest

/-- A migration that has come to an entry has the key, or the key is that entry or a later one. -/
theorem ahead (hinv : Kept key s) {rest : List String} (hstage : s.stage = .migrating rest) :
    s.new.get? keyPath = some (.file key.bytes) ∨
      s.new.get? keyPath = none ∧ s.old.get? keyPath = some (.file key.bytes) ∧ keyPath ∈ rest := by
  refine hinv.place.imp_right fun ⟨hnone, hold, hwaiting⟩ => ⟨hnone, hold, ?_⟩
  rcases hwaiting with ⟨hoff, -⟩ | ⟨rest', hrest, hmem⟩
  · cases hstage.symm.trans hoff
  · obtain rfl := Stage.migrating.inj (hstage.symm.trans hrest)
    exact hmem

theorem step {e : Event} (hinv : Kept key s) (hsingle : Single s) (hcareful : s.careful e = true)
    (hmoves : Moves s e s') : Kept key s' := by
  cases hmoves with
  | migrates pid hoff hempty =>
    refine ⟨hinv.place.imp_right fun ⟨hnone, hold, _⟩ => ⟨hnone, hold, .inr ⟨_, rfl, ?_⟩⟩, nofun, nofun⟩
    exact AList.mem_keys.mp (HashTable.mem_of_get?_eq_some hold)
  | skips pid readable hoff hwhy =>
    have hreadable : readable = true := hcareful
    have hpopulated : s.new.populated = true := hwhy.resolve_right (by rw [hreadable]; decide)
    refine ⟨.inl (hinv.place.resolve_right ?_), nofun, nofun⟩
    rintro ⟨-, -, ⟨-, hempty⟩ | ⟨rest, hrest, -⟩⟩
    · cases hpopulated.symm.trans hempty
    · cases hoff.symm.trans hrest
  | relocates name entry rest hstage hfound =>
    refine ⟨?_, nofun, nofun⟩
    by_cases hname : name = keyPath
    · subst hname
      have hnone := hsingle.no_key_before hstage hfound
      rcases hinv.ahead hstage with hnew | ⟨-, hold, -⟩
      · cases hnone.symm.trans hnew
      · obtain rfl := Option.some.inj (hfound.symm.trans hold)
        exact .inl (HashTable.get?_insert.trans (if_pos rfl))
    · have hnew := get?_insert_other s.new entry hname
      refine (hinv.ahead hstage).imp hnew.trans fun ⟨hnone, hold, hmem⟩ => ?_
      refine ⟨hnew.trans hnone, (get?_erase_other s.old hname).trans hold, .inr ⟨rest, rfl, ?_⟩⟩
      exact (List.mem_cons.mp hmem).resolve_left (Ne.symm hname)
  | leaves ok name rest hstage hwhy =>
    refine ⟨?_, nofun, nofun⟩
    refine (hinv.ahead hstage).imp_right fun ⟨hnone, hold, hmem⟩ => ⟨hnone, hold, .inr ⟨rest, rfl, ?_⟩⟩
    refine (List.mem_cons.mp hmem).resolve_left fun hname => ?_
    subst hname
    simp only [Machine.careful, hstage, bne_self_eq_false, Bool.or_false] at hcareful
    cases hold.symm.trans (hwhy hcareful)
  | migrated hstage =>
    refine ⟨.inl ((hinv.ahead hstage).resolve_right ?_), nofun, nofun⟩
    exact fun ⟨_, _, hmem⟩ => List.not_mem_nil hmem
  | loads fresh found hstage hfound => exact ⟨.inl (hinv.new_of_loading hstage), nofun, nofun⟩
  | makes fresh hstage habsent => cases habsent.symm.trans (hinv.new_of_loading hstage)
  | fills other hstage => exact absurd hstage (hinv.unwritten other)
  | renames other entry hstage hfound => exact absurd hstage (hinv.uninstalled other)
  | corrupt fresh entry hstage hfound => exact ⟨.inl (hinv.new_of_loading hstage), nofun, nofun⟩
  | fails e new hstage hkey =>
    obtain ⟨other, hwriting | hinstalling⟩ := hstage
    · exact absurd hwriting (hinv.unwritten other)
    · exact absurd hinstalling (hinv.uninstalled other)
  | saves name entry hother =>
    have hnew := get?_insert_other s.new entry (not_or.mp hother).1
    refine ⟨hinv.place.imp hnew.trans fun ⟨hnone, hold, hwaiting⟩ => ⟨hnew.trans hnone, hold, ?_⟩, hinv.unwritten,
      hinv.uninstalled⟩
    refine hwaiting.imp_left fun ⟨hoff, hempty⟩ => ⟨hoff, ?_⟩
    simpa [Machine.careful, hempty] using hcareful
  | removes name hother =>
    have hnew := get?_erase_other s.new (not_or.mp hother).1
    refine ⟨hinv.place.imp hnew.trans fun ⟨hnone, hold, hwaiting⟩ => ⟨hnew.trans hnone, hold, ?_⟩, hinv.unwritten,
      hinv.uninstalled⟩
    refine hwaiting.imp_left fun ⟨hoff, hempty⟩ => ⟨hoff, ?_⟩
    exact Bool.eq_false_iff.mpr fun hpopulated => Bool.eq_false_iff.mp hempty (populated_of_erase hpopulated)
  | stops =>
    refine ⟨hinv.place.imp_right fun ⟨hnone, hold, hwaiting⟩ => ⟨hnone, hold, .inl ⟨rfl, ?_⟩⟩, nofun, nofun⟩
    rcases hwaiting with ⟨-, hempty⟩ | ⟨rest, hstage, -⟩
    · exact hempty
    · simpa [Machine.careful, hstage, Directory.hasKey, hnone] using hcareful

end Kept

/-! ### The run -/

abbrev Runs (C : Machine → Event → Prop) (s₀ : Machine) (events : List Event) (s : Machine) : Prop :=
  Run (fun s e s' => s.next e = some s') C s₀ events s

/-- **A node keeps its key**: however often the daemon is started and wherever a start ends, it has run under one key
only, and the key of an old directory is never lost. The node runs under that key, if the new directory is not
populated at first and the run is careful. -/
theorem identity_kept {s₀ : Machine} {events : List Event} (hoff : s₀.stage = .off) (hran : s₀.ran = [])
    (hrun : Runs (fun _ _ => True) s₀ events s) :
    (∀ key ∈ s.ran, ∀ key' ∈ s.ran, key = key') ∧
      ∀ key : SecretKey, s₀.old.get? keyPath = some (.file key.bytes) →
        (s.old.get? keyPath = some (.file key.bytes) ∨ s.new.get? keyPath = some (.file key.bytes)) ∧
          (s₀.new.populated = false → Runs (fun s e => s.careful e = true) s₀ events s →
            ∀ key' ∈ s.ran, key' = key) := by
  have hinit : Single s₀ := by
    refine ⟨?_, ?_, ?_, ?_⟩ <;> simp [hoff, hran]
  have hsingle : Single s :=
    hrun.invariant (I := fun _ s => Single s) hinit fun _ _ _ _ h _ hnext => h.step (moves_of_next hnext)
  have heq : ∀ {key key' : SecretKey}, s.new.get? keyPath = some (.file key.bytes) →
      s.new.get? keyPath = some (.file key'.bytes) → key = key' := by
    intro key key' h h'
    obtain ⟨bytes, hlen⟩ := key
    obtain ⟨bytes', hlen'⟩ := key'
    cases h.symm.trans h'
    rfl
  refine ⟨fun key hmem key' hmem' => heq (hsingle.ran key hmem) (hsingle.ran key' hmem'), ?_⟩
  intro key hold
  constructor
  · have hboth := hrun.invariant (I := fun _ s => Single s ∧ Held key s) ⟨hinit, .inl hold⟩
      fun _ _ _ _ h _ hnext => ⟨h.1.step (moves_of_next hnext), h.2.step h.1 (moves_of_next hnext)⟩
    exact hboth.2
  · intro hempty hcareful key' hmem
    have hwaiting : Kept key s₀ := by
      refine ⟨.inr ⟨no_key_of_unpopulated hempty, hold, .inl ⟨hoff, hempty⟩⟩, ?_, ?_⟩ <;> simp [hoff]
    obtain ⟨-, hkept⟩ := hcareful.invariant (I := fun _ s => Single s ∧ Kept key s) ⟨hinit, hwaiting⟩
      fun _ _ _ _ h hC hnext => ⟨h.1.step (moves_of_next hnext), h.2.step h.1 hC (moves_of_next hnext)⟩
    have hnew := hsingle.ran key' hmem
    refine heq hnew (hkept.place.resolve_right ?_)
    rintro ⟨hnone, -⟩
    cases hnone.symm.trans hnew

end Tetron.Identity

namespace Tetron.Identity.Sample

def key (first : UInt8) : SecretKey := ⟨first :: List.replicate 31 0, rfl⟩

/-- What an older build has left, with the settings first in the listing. -/
def upgraded : Machine where
  old := HashTable.insert (HashTable.insert ∅ keyPath (.file (key 1).bytes)) "settings.toml" (.file [])
  new := ∅
  pid := 1
  stage := .off
  ran := []

/-- The first start ends early, the second runs, and so does the third. -/
def starts : List Event :=
  [.start 7 true, .stop, .start 8 true, .move true, .move true, .moved, .load (key 2), .save "networks" .dir, .stop,
    .start 9 true, .load (key 3)]

theorem identity_kept_upgraded : ∃ s, Runs (fun s e => s.careful e = true) upgraded starts s ∧
    s.ran = [key 1, key 1] ∧ ∀ k ∈ s.ran, k = key 1 := by
  refine Run.exists_of_exec_imp (fun s => s.ran = [key 1, key 1]) (by decide +kernel) fun s hrun hran => ?_
  obtain ⟨-, hold⟩ := identity_kept rfl rfl (hrun.mono fun _ _ _ => trivial)
  exact ⟨hran, (hold (key 1) (by decide +kernel)).2 (by decide +kernel) hrun⟩

/-- A start that ends between the settings and the key: the next one makes a key, and the old one stays behind. -/
example : ∃ s, Runs (fun _ _ => True) upgraded
      [.start 7 true, .move true, .stop, .start 8 true, .load (key 2), .write, .rename true] s ∧
    s.ran = [key 2] ∧ s.old.get? keyPath = some (.file (key 1).bytes) :=
  Run.exists_of_exec (by decide +kernel)

/-- So does a setting that is saved before the first start. -/
example : ∃ s, Runs (fun _ _ => True) upgraded
      [.save "settings.toml" (.file []), .start 8 true, .load (key 2), .write, .rename true] s ∧
    s.ran = [key 2] ∧ s.old.get? keyPath = some (.file (key 1).bytes) :=
  Run.exists_of_exec (by decide +kernel)

end Tetron.Identity.Sample
