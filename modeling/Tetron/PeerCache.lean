import Tetron.Bytes
import Tetron.Lib.ByteCodec
import Tetron.Lib.Run
import Tetron.Lib.Table

/-!
# The peer address cache

The daemon remembers on which addresses it has reached each peer, writes this to a file every five minutes and on
shutdown, and dials these addresses before it asks anyone. An entry that is 30 days old is dropped when the file is
read and whenever it is written.

The file is written next to the old one and renamed, so whatever goes wrong, a crash in the middle of a write included,
the next start finds a file that was written completely, or none. `lookup_refines` states this as a refinement: what a
look-up answers is what one would expect of a memory that survives restarts in the state of the last completed save,
in which nothing is encoded, listed in the order of a hash table, or written to a temporary file.
-/

namespace Tetron.PeerCache

/-- `PRUNE_DAYS`. -/
def pruneDays : ℕ := 30

/-- `is_fresh`. -/
def isFresh (lastSeen now : ℕ) : Bool := now - lastSeen < pruneDays * 86400

/-- A persisted entry. -/
structure Entry (Id Addr : Type) where
  id : Id
  addrs : List Addr
  lastSeen : ℕ

/-- `rmp_serde`, on lists of entries. -/
class Codec (Id Addr : Type) where
  toVec : List (Entry Id Addr) → Bytes
  fromSlice : Bytes → Option (List (Entry Id Addr))

def Codec.RoundTrips (Id Addr : Type) [Codec Id Addr] : Prop :=
  ∀ entries : List (Entry Id Addr), fromSlice (toVec entries) = some entries

/-- What happens to the files of a save: the old file is replaced, the temporary one is left behind with whatever has
been written to it, or it does not come to writing, because the entries are not serialized or the file is not
opened. -/
inductive Written where
  | renamed
  | leftBehind (tmp : Bytes)
  | unwritten

inductive Event (Id Addr : Type) where
  /-- `init` at the start of the daemon, at this reading of the clock. -/
  | init (now : ℕ)
  /-- `update_from_connection`, with the addresses of the connection's paths. -/
  | update (id : Id) (addrs : List Addr) (now : ℕ)
  /-- The hash table is laid out anew. -/
  | rehash (inner : HashTable Id (List Addr × ℕ))
  | save (now : ℕ) (written : Written)
  /-- The process ends, in an orderly way or not. -/
  | exit

/-- The cache in the daemon, if it runs, and the two files. -/
structure Cache (Id Addr : Type) where
  inner : Option (HashTable Id (List Addr × ℕ))
  file : Option Bytes
  tmp : Option Bytes

namespace Cache

variable {Id Addr : Type}

/-- Before the first start. -/
def install : Cache Id Addr := ⟨none, none, none⟩

/-- The entries in the order the table lists them. -/
def toEntries (inner : HashTable Id (List Addr × ℕ)) : List (Entry Id Addr) :=
  inner.entries.map fun e => ⟨e.1, e.2.1, e.2.2⟩

variable [DecidableEq Id]

/-- `collect` into the table: of two entries for one peer the later counts. -/
def fromEntries (entries : List (Entry Id Addr)) : HashTable Id (List Addr × ℕ) :=
  entries.foldl (fun inner e => inner.insert e.id (e.addrs, e.lastSeen)) ∅

def pruneStale (inner : HashTable Id (List Addr × ℕ)) (now : ℕ) : HashTable Id (List Addr × ℕ) :=
  inner.retain fun _ entry => isFresh entry.2 now

def lookup (c : Cache Id Addr) (id : Id) : Option (List Addr) :=
  (c.inner.bind fun inner => (inner.get? id).map (·.1)).filter fun addrs => !addrs.isEmpty

variable [Codec Id Addr]

/-- `PeerAddrCache::new`. -/
def load (file : Option Bytes) (now : ℕ) : HashTable Id (List Addr × ℕ) :=
  let entries : List (Entry Id Addr) := (file.bind Codec.fromSlice).getD []
  fromEntries (entries.filter fun e => isFresh e.lastSeen now)

inductive Step (c : Cache Id Addr) : Event Id Addr → Cache Id Addr → Prop
  | init (now : ℕ) (hoff : c.inner = none) : Step c (.init now) { c with inner := some (load c.file now) }
  | update (inner : HashTable Id (List Addr × ℕ)) (id : Id) (addrs : List Addr) (now : ℕ)
      (hinner : c.inner = some inner) :
      Step c (.update id addrs now)
        { c with inner := some (if addrs.isEmpty then inner else inner.insert id (addrs, now)) }
  | rehash (inner inner' : HashTable Id (List Addr × ℕ)) (hinner : c.inner = some inner)
      (hsame : HashTable.Same inner inner') : Step c (.rehash inner') { c with inner := some inner' }
  | save (inner : HashTable Id (List Addr × ℕ)) (now : ℕ) (hinner : c.inner = some inner) :
      Step c (.save now .renamed)
        ⟨some (pruneStale inner now), some (Codec.toVec (toEntries (pruneStale inner now))), none⟩
  | saveFails (inner : HashTable Id (List Addr × ℕ)) (now : ℕ) (tmp : Bytes) (hinner : c.inner = some inner) :
      Step c (.save now (.leftBehind tmp)) { c with inner := some (pruneStale inner now), tmp := some tmp }
  | saveUnwritten (inner : HashTable Id (List Addr × ℕ)) (now : ℕ) (hinner : c.inner = some inner) :
      Step c (.save now .unwritten) { c with inner := some (pruneStale inner now) }
  | exit : Step c .exit { c with inner := none }

end Cache

/-! ### What a cache is for -/

/-- What is known about the peers: addresses, and when they were seen. -/
abbrev Known (Id Addr : Type) := Id → Option (List Addr × ℕ)

/-- A memory that is there while the daemon runs, and what it was when it was last kept. -/
structure Memory (Id Addr : Type) where
  mind : Option (Known Id Addr)
  kept : Known Id Addr

namespace Memory

variable {Id Addr : Type}

def blank : Memory Id Addr := ⟨none, fun _ => none⟩

/-- Forget what is too old. -/
def forget (known : Known Id Addr) (now : ℕ) : Known Id Addr :=
  fun id => (known id).filter fun entry => isFresh entry.2 now

def lookup (s : Memory Id Addr) (id : Id) : Option (List Addr) :=
  (s.mind.bind fun known => (known id).map (·.1)).filter fun addrs => !addrs.isEmpty

variable [DecidableEq Id]

def step (s : Memory Id Addr) : Event Id Addr → Memory Id Addr
  | .init now => { s with mind := some (forget s.kept now) }
  | .update id addrs now =>
    { s with mind := s.mind.map fun known =>
        if addrs.isEmpty then known else Function.update known id (some (addrs, now)) }
  | .rehash _ => s
  | .save now .renamed =>
    { mind := s.mind.map (forget · now), kept := (s.mind.map (forget · now)).getD s.kept }
  | .save now (.leftBehind _) | .save now .unwritten => { s with mind := s.mind.map (forget · now) }
  | .exit => { s with mind := none }

/-- The memory after these events. -/
def after (events : List (Event Id Addr)) : Memory Id Addr := events.foldl step blank

end Memory

/-! ### The cache is such a memory -/

section Refinement

variable {Id Addr : Type} [DecidableEq Id] {inner : HashTable Id (List Addr × ℕ)} {now : ℕ}

theorem get?_pruneStale (id : Id) :
    (Cache.pruneStale inner now).get? id = Memory.forget (fun id => inner.get? id) now id :=
  HashTable.get?_retain _

/-- The entry a look-up of the table stands for. -/
def entryOf (id : Id) (entry : List Addr × ℕ) : Entry Id Addr := ⟨id, entry.1, entry.2⟩

omit [DecidableEq Id] in
theorem entryOf_injective (id : Id) : Function.Injective (entryOf id : List Addr × ℕ → Entry Id Addr) := by
  rintro ⟨addrs, t⟩ ⟨addrs', t'⟩ h
  cases h
  rfl

theorem mem_toEntries {e : Entry Id Addr} :
    e ∈ Cache.toEntries inner ↔ inner.get? e.id = some (e.addrs, e.lastSeen) := by
  rw [HashTable.get?_eq_some_iff, Cache.toEntries, List.mem_map]
  constructor
  · rintro ⟨x, hx, rfl⟩
    exact hx
  · intro hmem
    exact ⟨_, hmem, rfl⟩

/-- Loading the entries of a table gives what is fresh of it. -/
theorem get?_fromEntries (id : Id) :
    (Cache.fromEntries ((Cache.toEntries inner).filter fun e => isFresh e.lastSeen now)).get? id =
      Memory.forget (fun id => inner.get? id) now id := by
  refine Option.map_injective (entryOf_injective id) ?_
  refine List.get_foldl_of_entries (fun (acc : HashTable Id (List Addr × ℕ)) id => (acc.get? id).map (entryOf id))
    Entry.id (f := fun id => (Memory.forget (fun id => inner.get? id) now id).map (entryOf id))
    (fun acc e _ _ k => ?_) (fun k e he => ?_) (fun e => ?_) (fun k => by simp) id
  · rw [HashTable.get?_insert]
    split
    · rename_i heq
      rw [heq]
      rfl
    · rfl
  · obtain ⟨entry, -, rfl⟩ := Option.map_eq_some_iff.mp he
    rfl
  · rw [List.mem_filter, mem_toEntries, Memory.forget, Option.map_eq_some_iff]
    constructor
    · rintro ⟨hget, hfresh⟩
      exact ⟨(e.addrs, e.lastSeen), Option.filter_eq_some_iff.mpr ⟨hget, hfresh⟩, rfl⟩
    · rintro ⟨⟨addrs, t⟩, hentry, heq⟩
      obtain ⟨hget, hfresh⟩ := Option.filter_eq_some_iff.mp hentry
      obtain ⟨-, rfl, rfl⟩ := Entry.mk.inj heq
      exact ⟨hget, hfresh⟩

variable [Codec Id Addr]

/-- The file holds the entries of some table, or there is none. -/
def Holds (file : Option Bytes) (known : Known Id Addr) : Prop :=
  (file = none ∧ ∀ id, known id = none) ∨
    ∃ inner : HashTable Id (List Addr × ℕ), file = some (Codec.toVec (Cache.toEntries inner)) ∧
      ∀ id, inner.get? id = known id

/-- The cache is in the state of the memory. -/
structure Refines (c : Cache Id Addr) (s : Memory Id Addr) : Prop where
  mind : c.inner.map (fun inner id => inner.get? id) = s.mind
  kept : Holds c.file s.kept

/-- What is read from the file is what was kept, as far as it is fresh. -/
theorem get?_load (hcodec : Codec.RoundTrips Id Addr) {file : Option Bytes} {known : Known Id Addr}
    (h : Holds file known) : (fun id => (Cache.load file now).get? id) = Memory.forget known now := by
  rcases h with ⟨rfl, hnone⟩ | ⟨inner, rfl, hknown⟩
  · funext id
    rw [Memory.forget, hnone id]
    rfl
  · have hload : Cache.load (some (Codec.toVec (Cache.toEntries inner))) now =
        Cache.fromEntries ((Cache.toEntries inner).filter fun e => isFresh e.lastSeen now) := by
      rw [Cache.load, Option.bind_some, hcodec, Option.getD_some]
    funext id
    rw [hload, get?_fromEntries, Memory.forget, Memory.forget, hknown id]

theorem Refines.lookup {c : Cache Id Addr} {s : Memory Id Addr} (h : Refines c s) (id : Id) :
    c.lookup id = s.lookup id := by
  rw [Cache.lookup, Memory.lookup, ← h.mind]
  cases c.inner <;> rfl

/-- A save that fails leaves its mark on the table only. -/
theorem Refines.forget {c : Cache Id Addr} {s : Memory Id Addr} (h : Refines c s) (hinner : c.inner = some inner)
    (now : ℕ) {tmp : Option Bytes} : Refines { c with inner := some (Cache.pruneStale inner now), tmp := tmp }
      { s with mind := s.mind.map (Memory.forget · now) } := by
  refine ⟨?_, h.kept⟩
  rw [← h.mind, hinner, Option.map_some, Option.map_some, Option.map_some]
  exact congrArg some (funext get?_pruneStale)

theorem Refines.step (hcodec : Codec.RoundTrips Id Addr) {c c' : Cache Id Addr} {s : Memory Id Addr}
    (h : Refines c s) {e : Event Id Addr} (hstep : c.Step e c') : Refines c' (s.step e) := by
  cases hstep with
  | init now hoff => exact ⟨congrArg some (get?_load hcodec h.kept), h.kept⟩
  | update inner id addrs now hinner =>
    refine ⟨?_, h.kept⟩
    have hmind : s.mind = some fun id => inner.get? id := by rw [← h.mind, hinner, Option.map_some]
    rw [Memory.step, hmind, Option.map_some, Option.map_some]
    split
    · rfl
    · congr 1
      funext other
      rw [HashTable.get?_insert, Function.update_apply]
  | rehash inner inner' hinner hsame =>
    refine ⟨?_, h.kept⟩
    rw [Memory.step, ← h.mind, hinner, Option.map_some, Option.map_some]
    exact congrArg some (funext fun id => (hsame.get? id).symm)
  | save inner now hinner =>
    have hmind : s.mind.map (Memory.forget · now) = some fun id => (Cache.pruneStale inner now).get? id := by
      rw [← h.mind, hinner, Option.map_some, Option.map_some]
      exact congrArg some (funext fun id => (get?_pruneStale id).symm)
    refine ⟨?_, .inr ⟨_, rfl, fun id => ?_⟩⟩
    · rw [Memory.step, hmind, Option.map_some]
    · rw [Memory.step, hmind, Option.getD_some]
  | saveFails inner now tmp hinner => exact h.forget hinner now
  | saveUnwritten inner now hinner => exact h.forget hinner now
  | exit => exact ⟨rfl, h.kept⟩

end Refinement

/-- **The cache is a memory that survives restarts**: after every run, with crashes, failed writes and hash tables laid
out in any way, a look-up answers what the memory answers after the same events. -/
theorem lookup_refines {Id Addr : Type} [DecidableEq Id] [Codec Id Addr] (hcodec : Codec.RoundTrips Id Addr)
    {events : List (Event Id Addr)} {c : Cache Id Addr}
    (hrun : Run Cache.Step (fun _ _ => True) Cache.install events c) (id : Id) :
    c.lookup id = (Memory.after events).lookup id := by
  have h : Refines c (Memory.after events) :=
    hrun.invariant (I := fun events c => Refines c (Memory.after events)) ⟨rfl, .inl ⟨rfl, fun _ => rfl⟩⟩
      fun events _ e _ h _ hstep => by
        rw [Memory.after, List.foldl_append]
        exact h.step hcodec hstep
  exact h.lookup id

def entryCodec {Id Addr : Type} (key : ByteCodec Id) (addr : ByteCodec Addr) : ByteCodec (Entry Id Addr) :=
  (key.pair (addr.list.pair .nat)).map (fun e => (e.id, e.addrs, e.lastSeen)) (fun e => ⟨e.1, e.2.1, e.2.2⟩)
    fun _ => rfl

/-- Peers and addresses are numbers. -/
def numbers : ByteCodec (List (Entry ℕ ℕ)) := (entryCodec .nat .nat).list

scoped instance numbersCodec : Codec ℕ ℕ := ⟨numbers.write, numbers.whole⟩

/-- A peer that was seen and saved is known after a restart. -/
theorem lookup_refines_restart :
    ∃ c : Cache ℕ ℕ,
      Run Cache.Step (fun _ _ => True) Cache.install
        [.init 0, .update 1 [7] 5, .save 10 .renamed, .exit, .init 20] c ∧ c.lookup 1 = some [7] := by
  have hrun : ∃ c : Cache ℕ ℕ, Run Cache.Step (fun _ _ => True) Cache.install
      [.init 0, .update 1 [7] 5, .save 10 .renamed, .exit, .init 20] c :=
    ⟨_, ((((Run.nil.snoc trivial (.init 0 rfl)).snoc trivial (.update _ 1 [7] 5 rfl)).snoc trivial
      (.save _ 10 rfl)).snoc trivial .exit).snoc trivial (.init 20 rfl)⟩
  obtain ⟨c, hrun⟩ := hrun
  exact ⟨c, hrun, (lookup_refines numbers.whole_write hrun 1).trans (by decide +kernel)⟩

end Tetron.PeerCache
