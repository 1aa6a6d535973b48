import Tetron.Bytes
import Tetron.Lib.Run
import Mathlib.Logic.Function.Basic

/-!
# Writing a configuration file

`write_file` creates a temporary file, fills it and renames it over the target. Its name is made of the target
and the process, so two threads that write the same file use the same temporary file: the second one to open it
empties what the first one is about to rename, and may go on writing when it has become the target.

If a call creates the temporary file only while no other call is between its own creation and its rename, a
reader gets the previous version or a complete new one (`read_complete`); without that it may get an empty file
(`read_torn`).
-/

namespace Tetron.Config

/-- A directory and the files its names stand for. A file stays what it is when its name goes. -/
structure FileSystem where
  names : String → Option ℕ
  inodes : ℕ → Bytes
  /-- Inodes from here on have not been used. -/
  fresh : ℕ

/-- The temporary file next to `fname`. -/
def tmpName (fname : String) (pid : ℕ) : String := "." ++ fname ++ ".tmp." ++ toString pid

namespace FileSystem

variable (fs : FileSystem) (tmp path : String) (n : ℕ) (bytes : Bytes)

/-- What is at a name. -/
def read : Option Bytes := (fs.names path).map fs.inodes

/-- `File::create`: the file and its inode, emptied if it was there. -/
def create : ℕ × FileSystem :=
  match fs.names tmp with
  | some n => (n, { fs with inodes := Function.update fs.inodes n [] })
  | none => (fs.fresh,
      { names := Function.update fs.names tmp (some fs.fresh)
        inodes := Function.update fs.inodes fs.fresh []
        fresh := fs.fresh + 1 })

/-- `write_all` through a file that was just opened: what lies behind the written bytes stays. -/
def writeAll : FileSystem :=
  { fs with inodes := Function.update fs.inodes n (bytes ++ (fs.inodes n).drop bytes.length) }

/-- `std::fs::rename`, if there is something to rename. -/
def rename : Option FileSystem :=
  (fs.names tmp).map fun n => { fs with names := Function.update (Function.update fs.names path (some n)) tmp none }

/-- `std::fs::remove_file`. -/
def remove : FileSystem := { fs with names := Function.update fs.names tmp none }

end FileSystem

/-- What a call of `write_file` does next. -/
inductive WriteStage
  | create
  | write (inode : ℕ)
  | rename
  | cleanUp
  | finished (renamed : Bool)
deriving DecidableEq

structure WriteCall where
  bytes : Bytes
  stage : WriteStage
deriving DecidableEq

/-- Calls of one process on one file, and readers that have opened the file. -/
structure Saving where
  fs : FileSystem
  calls : List WriteCall
  readers : List ℕ

inductive SavingEvent
  | step (i : ℕ)
  /-- A reader opens the file. -/
  | openFile

namespace Saving

def begin (fs : FileSystem) (contents : List Bytes) : Saving := ⟨fs, contents.map (⟨·, .create⟩), []⟩

/-- The file system and the stage after a step of a call. -/
def writeFile (fname : String) (pid : ℕ) (fs : FileSystem) (call : WriteCall) : Option (FileSystem × WriteStage) :=
  match call.stage with
  | .create => some ((fs.create (tmpName fname pid)).2, .write (fs.create (tmpName fname pid)).1)
  | .write inode => some (fs.writeAll inode call.bytes, .rename)
  | .rename =>
    match fs.rename (tmpName fname pid) fname with
    | some fs => some (fs, .finished true)
    | none => some (fs, .cleanUp)
  | .cleanUp => some (fs.remove (tmpName fname pid), .finished false)
  | .finished _ => none

def next (fname : String) (pid : ℕ) (s : Saving) : SavingEvent → Option Saving
  | .step i =>
    match s.calls[i]? with
    | none => none
    | some call =>
      (writeFile fname pid s.fs call).map fun (fs, stage) =>
        { s with fs, calls := s.calls.set i { call with stage } }
  | .openFile => (s.fs.names fname).map fun n => { s with readers := s.readers ++ [n] }

end Saving

/-- Between the creation of the temporary file and the end of the call. -/
def WriteStage.busy : WriteStage → Bool
  | .create | .finished _ => false
  | .write _ | .rename | .cleanUp => true

/-- The temporary file is created only while no call is at work with it. -/
def Saving.exclusive (s : Saving) : SavingEvent → Bool
  | .step i => s.calls[i]?.all fun call => call.stage ≠ .create || s.calls.all fun other => !other.stage.busy
  | .openFile => true

/-! ### One call at a time -/

theorem tmpName_ne (fname : String) (pid : ℕ) : tmpName fname pid ≠ fname := by
  intro h
  have hlen := congrArg String.length h
  simp only [tmpName, String.length_append] at hlen
  have hdot : ".".length = 1 := rfl
  omega

/-- A directory entry of its own for the temporary file, if there is one left. -/
structure FileSystem.Proper (fs : FileSystem) (fname : String) (pid : ℕ) : Prop where
  path : ∀ n, fs.names fname = some n → n < fs.fresh
  tmp : ∀ n, fs.names (tmpName fname pid) = some n → n < fs.fresh ∧ fs.names fname ≠ some n

/-- The bytes of the previous version or of one of the writes. -/
def Complete (previous : Option Bytes) (contents : List Bytes) (b : Bytes) : Prop := previous = some b ∨ b ∈ contents

/-- What is or was at the path is complete, and the temporary file was never there. -/
structure Guarded (fname : String) (pid : ℕ) (previous : Option Bytes) (contents : List Bytes) (readers : List ℕ)
    (fs : FileSystem) : Prop where
  path : ∀ n, fs.names fname = some n → n < fs.fresh ∧ Complete previous contents (fs.inodes n)
  found : previous.isSome = true → (fs.names fname).isSome = true
  opened : ∀ n ∈ readers, n < fs.fresh ∧ Complete previous contents (fs.inodes n)
  tmp : ∀ n, fs.names (tmpName fname pid) = some n → n < fs.fresh ∧ fs.names fname ≠ some n ∧ n ∉ readers

section Guarded

variable {fname : String} {pid n : ℕ} {previous : Option Bytes} {contents : List Bytes} {readers : List ℕ}
  {fs fs' : FileSystem} {b : Bytes}

theorem FileSystem.Proper.guarded (h : fs.Proper fname pid) (contents : List Bytes) :
    Guarded fname pid (fs.read fname) contents [] fs where
  path n hn := ⟨h.path n hn, Or.inl (by simp [FileSystem.read, hn])⟩
  found hsome := by simpa [FileSystem.read] using hsome
  opened n hn := by cases hn
  tmp n hn := ⟨(h.tmp n hn).1, (h.tmp n hn).2, List.not_mem_nil⟩

/-- Writing to the temporary file. -/
theorem Guarded.update (h : Guarded fname pid previous contents readers fs)
    (htmp : fs.names (tmpName fname pid) = some n) (b : Bytes) :
    Guarded fname pid previous contents readers { fs with inodes := Function.update fs.inodes n b } := by
  obtain ⟨-, hpath, hreaders⟩ := h.tmp n htmp
  refine ⟨fun m hm => ?_, h.found, fun m hm => ?_, h.tmp⟩
  · have hne : m ≠ n := fun heq => hpath (heq ▸ hm)
    simpa [hne] using h.path m hm
  · have hne : m ≠ n := fun heq => hreaders (heq ▸ hm)
    simpa [hne] using h.opened m hm

theorem Guarded.create (h : Guarded fname pid previous contents readers fs) :
    Guarded fname pid previous contents readers (fs.create (tmpName fname pid)).2 := by
  unfold FileSystem.create
  split
  · rename_i n htmp
    exact h.update htmp []
  · have hpath : Function.update fs.names (tmpName fname pid) (some fs.fresh) fname = fs.names fname :=
      Function.update_of_ne (tmpName_ne fname pid).symm ..
    -- the new file has a number that nothing uses
    refine ⟨fun m hm => ?_, fun hsome => ?_, fun m hm => ?_, fun m hm => ?_⟩
    · have hm : fs.names fname = some m := hpath ▸ hm
      obtain ⟨hlt, hcomplete⟩ := h.path m hm
      exact ⟨Nat.lt_succ_of_lt hlt, by simpa [hlt.ne] using hcomplete⟩
    · simpa [hpath] using h.found hsome
    · obtain ⟨hlt, hcomplete⟩ := h.opened m hm
      exact ⟨Nat.lt_succ_of_lt hlt, by simpa [hlt.ne] using hcomplete⟩
    · obtain rfl : fs.fresh = m := by simpa using hm
      refine ⟨Nat.lt_succ_self _, fun hfresh => ?_, fun hmem => ?_⟩
      · have hold : fs.names fname = some fs.fresh := hpath ▸ hfresh
        exact absurd (h.path _ hold).1 (Nat.lt_irrefl _)
      · exact absurd (h.opened _ hmem).1 (Nat.lt_irrefl _)

theorem create_spec (fs : FileSystem) (fname : String) (pid : ℕ) :
    (fs.create (tmpName fname pid)).2.names (tmpName fname pid) = some (fs.create (tmpName fname pid)).1 ∧
      (fs.create (tmpName fname pid)).2.inodes (fs.create (tmpName fname pid)).1 = [] := by
  unfold FileSystem.create
  split
  · rename_i n htmp
    simpa using htmp
  · simp

theorem Guarded.rename (h : Guarded fname pid previous contents readers fs)
    (htmp : fs.names (tmpName fname pid) = some n) (hbytes : fs.inodes n ∈ contents)
    (hrename : fs.rename (tmpName fname pid) fname = some fs') :
    Guarded fname pid previous contents readers fs' := by
  have hne := tmpName_ne fname pid
  simp only [FileSystem.rename, htmp, Option.map_some, Option.some.injEq] at hrename
  subst hrename
  refine ⟨fun m hm => ?_, fun _ => ?_, h.opened, fun m hm => ?_⟩
  · obtain rfl : n = m := by simpa [hne.symm] using hm
    exact ⟨(h.tmp n htmp).1, Or.inr hbytes⟩
  · simp [hne.symm]
  · simp at hm

theorem Guarded.openFile (h : Guarded fname pid previous contents readers fs) (hn : fs.names fname = some n) :
    Guarded fname pid previous contents (readers ++ [n]) fs := by
  refine ⟨h.path, h.found, fun m hm => ?_, fun m hm => ?_⟩
  · rcases List.mem_append.mp hm with hold | hnew
    · exact h.opened m hold
    · cases List.mem_singleton.mp hnew
      exact h.path n hn
  · obtain ⟨hlt, hpath, hreaders⟩ := h.tmp m hm
    refine ⟨hlt, hpath, fun hmem => ?_⟩
    rcases List.mem_append.mp hmem with hold | hnew
    · exact hreaders hold
    · exact hpath (List.mem_singleton.mp hnew ▸ hn)

end Guarded

namespace Saving

variable {fname : String} {pid : ℕ} {s s' : Saving} {call : WriteCall} {i : ℕ} {previous : Option Bytes}
  {contents : List Bytes} {ev : SavingEvent}

/-- What the temporary file holds for a call that is at work with it. -/
def Prepared (fname : String) (pid : ℕ) (fs : FileSystem) (call : WriteCall) : Prop :=
  match call.stage with
  | .write n => fs.names (tmpName fname pid) = some n ∧ fs.inodes n = []
  | .rename => ∃ n, fs.names (tmpName fname pid) = some n ∧ fs.inodes n = call.bytes
  | .cleanUp => False
  | _ => True

theorem prepared_of_not_busy {fs : FileSystem} (h : call.stage.busy = false) : Prepared fname pid fs call := by
  unfold Prepared
  split <;> simp_all [WriteStage.busy]

/-- At most one call is at work, and what it has prepared is in place. -/
structure Inv (fname : String) (pid : ℕ) (previous : Option Bytes) (contents : List Bytes) (s : Saving) : Prop where
  mutex : ∀ (i j : ℕ) (c d : WriteCall), s.calls[i]? = some c → s.calls[j]? = some d → c.stage.busy = true →
    d.stage.busy = true → i = j
  bytes : ∀ call ∈ s.calls, call.bytes ∈ contents
  prepared : ∀ call ∈ s.calls, Prepared fname pid s.fs call
  guarded : Guarded fname pid previous contents s.readers s.fs

theorem inv_begin {fs : FileSystem} (h : fs.Proper fname pid) (contents : List Bytes) :
    Inv fname pid (fs.read fname) contents (begin fs contents) := by
  have hcalls : ∀ call ∈ (begin fs contents).calls, call.bytes ∈ contents ∧ call.stage.busy = false := by
    intro call hcall
    obtain ⟨b, hb, rfl⟩ := List.mem_map.mp hcall
    exact ⟨hb, rfl⟩
  refine ⟨?_, fun c hc => (hcalls c hc).1, fun c hc => prepared_of_not_busy (hcalls c hc).2, h.guarded contents⟩
  intro i j c d hc _ hbusy
  rw [(hcalls c (List.mem_of_getElem? hc)).2] at hbusy
  cases hbusy

/-- A call moves on while the others are not at work. -/
theorem Inv.set {fs : FileSystem} {stage : WriteStage} (h : Inv fname pid previous contents s)
    (hcall : s.calls[i]? = some call)
    (hidle : ∀ (j : ℕ) (c : WriteCall), i ≠ j → s.calls[j]? = some c → c.stage.busy = false)
    (hprepared : Prepared fname pid fs { call with stage })
    (hguarded : Guarded fname pid previous contents s.readers fs) :
    Inv fname pid previous contents { s with fs, calls := s.calls.set i { call with stage } } := by
  refine ⟨?_, fun c hc => ?_, fun c hc => ?_, hguarded⟩
  · intro j k c d hj hk hc hd
    rcases List.getElem?_set_eq_some hj with ⟨rfl, -⟩ | ⟨hne, hj⟩
    · rcases List.getElem?_set_eq_some hk with ⟨rfl, -⟩ | ⟨hne, hk⟩
      · rfl
      · rw [hidle k d hne hk] at hd
        cases hd
    · rw [hidle j c hne hj] at hc
      cases hc
  · rcases List.mem_or_eq_of_mem_set hc with hc | rfl
    · exact h.bytes c hc
    · exact h.bytes call (List.mem_of_getElem? hcall)
  · obtain ⟨j, hj⟩ := List.mem_iff_getElem?.mp hc
    rcases List.getElem?_set_eq_some hj with ⟨-, rfl⟩ | ⟨hne, hj⟩
    · exact hprepared
    · exact prepared_of_not_busy (hidle j c hne hj)

theorem Inv.idle_of_busy (h : Inv fname pid previous contents s) (hcall : s.calls[i]? = some call)
    (hbusy : call.stage.busy = true) (j : ℕ) (c : WriteCall) (hne : i ≠ j) (hc : s.calls[j]? = some c) :
    c.stage.busy = false := by
  by_contra hbusy'
  exact hne (h.mutex i j call c hcall hc hbusy (by simpa using hbusy'))

/-- **Step lemma** for a call. -/
theorem Inv.step (h : Inv fname pid previous contents s) (hcall : s.calls[i]? = some call)
    (hexcl : s.exclusive (.step i) = true) {fs : FileSystem} {stage : WriteStage}
    (hstep : writeFile fname pid s.fs call = some (fs, stage)) :
    Inv fname pid previous contents { s with fs, calls := s.calls.set i { call with stage } } := by
  have hprepared := h.prepared call (List.mem_of_getElem? hcall)
  cases hstage : call.stage with
  | create =>
    simp only [writeFile, hstage, Option.some.injEq, Prod.mk.injEq] at hstep
    obtain ⟨rfl, rfl⟩ := hstep
    simp only [exclusive, hcall, Option.all_some, hstage, ne_eq, not_true_eq_false, decide_false, Bool.false_or,
      List.all_eq_true, Bool.not_eq_true'] at hexcl
    exact h.set hcall (fun j c _ hc => hexcl c (List.mem_of_getElem? hc)) (create_spec s.fs fname pid)
      h.guarded.create
  | write n =>
    have hidle := h.idle_of_busy hcall (by rw [hstage]; rfl)
    simp only [writeFile, hstage, Option.some.injEq, Prod.mk.injEq] at hstep
    obtain ⟨rfl, rfl⟩ := hstep
    simp only [Prepared, hstage] at hprepared
    obtain ⟨htmp, hempty⟩ := hprepared
    refine h.set hcall hidle ⟨n, htmp, ?_⟩ (h.guarded.update htmp _)
    simp [FileSystem.writeAll, hempty]
  | rename =>
    have hidle := h.idle_of_busy hcall (by rw [hstage]; rfl)
    simp only [Prepared, hstage] at hprepared
    obtain ⟨n, htmp, hbytes⟩ := hprepared
    have hmem : s.fs.inodes n ∈ contents := hbytes ▸ h.bytes call (List.mem_of_getElem? hcall)
    simp only [writeFile, hstage] at hstep
    split at hstep
    · rename_i fs' hrename
      cases hstep
      exact h.set hcall hidle (prepared_of_not_busy rfl) (h.guarded.rename htmp hmem hrename)
    · rename_i hnone
      simp [FileSystem.rename, htmp] at hnone
  | cleanUp =>
    simp only [Prepared, hstage] at hprepared
  | finished renamed => simp [writeFile, hstage] at hstep

theorem Inv.next (h : Inv fname pid previous contents s) (hexcl : s.exclusive ev = true)
    (hnext : s.next fname pid ev = some s') : Inv fname pid previous contents s' := by
  cases ev with
  | step i =>
    simp only [Saving.next] at hnext
    split at hnext
    · cases hnext
    · rename_i call hcall
      obtain ⟨⟨fs, stage⟩, hstep, rfl⟩ := Option.map_eq_some_iff.mp hnext
      exact h.step hcall hexcl hstep
  | openFile =>
    obtain ⟨n, hn, rfl⟩ := Option.map_eq_some_iff.mp hnext
    exact ⟨h.mutex, h.bytes, h.prepared, h.guarded.openFile hn⟩

end Saving

/-- **Readers get complete versions** if a call creates the temporary file only while no other is at work with
it: whatever a reader has opened holds the previous version or the bytes of one of the writes, and a file that
was there is there all along. -/
theorem read_complete {fname : String} {pid : ℕ} {fs : FileSystem} {contents : List Bytes}
    {events : List SavingEvent} {s : Saving} (hfs : fs.Proper fname pid)
    (hrun : Run (fun s ev s' => s.next fname pid ev = some s') (fun s ev => s.exclusive ev = true)
      (Saving.begin fs contents) events s) :
    (∀ n ∈ s.readers, fs.read fname = some (s.fs.inodes n) ∨ s.fs.inodes n ∈ contents) ∧
      ((fs.read fname).isSome = true → (s.fs.read fname).isSome = true) := by
  have hinv : Saving.Inv fname pid (fs.read fname) contents s :=
    hrun.invariant (I := fun _ s => Saving.Inv fname pid (fs.read fname) contents s)
      (Saving.inv_begin hfs contents) fun _ _ _ _ h hexcl hnext => h.next hexcl hnext
  refine ⟨fun n hn => (hinv.guarded.opened n hn).2, fun hsome => ?_⟩
  rw [FileSystem.read, Option.isSome_map]
  exact hinv.guarded.found hsome

/-- One file, `settings.toml`, with the byte 9 in it. -/
def savedBefore : FileSystem := ⟨fun name => if name = "settings.toml" then some 0 else none, fun _ => [9], 1⟩

theorem proper_savedBefore : savedBefore.Proper "settings.toml" 7 where
  path n hn := by
    obtain rfl : 0 = n := by simpa [savedBefore] using hn
    exact Nat.one_pos
  tmp n hn := by
    have hne : tmpName "settings.toml" 7 ≠ "settings.toml" := tmpName_ne _ _
    simp [savedBefore, hne] at hn

/-- One write after the other, and a reader of the second. -/
theorem read_complete_in_turn : ∃ s : Saving, s.readers.map s.fs.inodes = [[4, 5]] ∧
    ∀ n ∈ s.readers, savedBefore.read "settings.toml" = some (s.fs.inodes n) ∨ s.fs.inodes n ∈ [[1, 2, 3], [4, 5]] := by
  obtain ⟨s, hrun, hread⟩ : ∃ s : Saving, Run (fun s ev s' => s.next "settings.toml" 7 ev = some s')
      (fun s ev => s.exclusive ev = true) (Saving.begin savedBefore [[1, 2, 3], [4, 5]])
      [.step 0, .step 0, .step 0, .step 1, .step 1, .step 1, .openFile] s ∧ s.readers.map s.fs.inodes = [[4, 5]] :=
    Run.exists_of_exec (by decide +kernel)
  exact ⟨s, hread, (read_complete proper_savedBefore hrun).1⟩

/-- **A torn file**: the second call empties the temporary file that the first one then renames. -/
theorem read_torn : savedBefore.read "settings.toml" = some [9] ∧ ∃ (events : List SavingEvent) (s : Saving),
    Run (fun s ev s' => s.next "settings.toml" 7 ev = some s') (fun _ _ => True)
      (Saving.begin savedBefore [[1, 2, 3], [4, 5]]) events s ∧
    s.readers.map s.fs.inodes = [[]] := by
  exact ⟨rfl, [.step 0, .step 0, .step 1, .step 0, .openFile], Run.exists_of_exec (by decide +kernel)⟩

end Tetron.Config
