import Tetron.Daemon.Adopt
import Tetron.Daemon.Publish
import Tetron.Lib.Peak
import Tetron.Lib.Run

/-!
# Coordinators of one network

Several coordinators share the record. Each mutates its own state, publishes it behind the generation guard,
and polls the record; a publish and a poll are one step each here, and a resolve finds the record whenever
there is one. The generation on record only rises. Once nobody mutates any more, a coordinator writes at most
once, whatever the others do and however ties are broken, and when everybody has tried to publish, the record
is at the largest generation there was (`publishes_settle`).

Generations are the values and the record of `Peak`.
-/

namespace Tetron.Daemon

open Tetron.Membership

variable {Id : Type} [DecidableEq Id] [Msgpack Id] [Blake3]

/-- The record as readers resolve it, the coordinators, and how often the record was written. -/
structure Coordinators (Id : Type) [DecidableEq Id] [Msgpack Id] [Blake3] (N : ℕ) where
  record : Option (Hash × ℕ × List Id)
  state : Fin N → NetworkState Id
  writes : ℕ

/-- A poll brings the blob of the record and the roster that is made of it. -/
inductive CoordinatorStep (Id : Type) (N : ℕ)
  | mutate (i : Fin N) (sec : Section Id)
  | publish (i : Fin N) (seeds : List Id)
  | poll (i : Fin N) (data : GroupBlob Id) (members : List (Member Id))

namespace Coordinators

variable {N : ℕ}

def recordGeneration (s : Coordinators Id N) : WithBot ℕ :=
  match s.record with
  | none => ⊥
  | some (_, generation, _) => .some generation

def generation (s : Coordinators Id N) (i : Fin N) : ℕ := (s.state i).generation

/-- The largest generation, on record or local. -/
def peak (s : Coordinators Id N) : WithBot ℕ := Peak.peak s.recordGeneration s.generation

variable [Endpoint Id]

def next (s : Coordinators Id N) : CoordinatorStep Id N → Option (Coordinators Id N)
  | .mutate i sec => some { s with state := Function.update s.state i (sec.run (s.state i)) }
  | .publish i seeds =>
    let (generation, hash) := (s.state i).published
    if dhtReadBeforeWrite s.record generation then
      some { s with record := some (hash, generation, seeds), writes := s.writes + 1 }
    else some s
  | .poll i data members =>
    match s.record with
    | none => some s
    | some (hash, generation, _) =>
      if pollerShouldFetch generation hash (s.state i).generation
          ((s.state i).snapshot.map GroupSnapshot.hash) then
        -- the record names a blob of its own generation
        if data.generation = generation then
          some { s with state := Function.update s.state i (adopt (s.state i) data members) }
        else none
      else some s

/-- A local step that moves the generation. -/
def Mutates (s : Coordinators Id N) : CoordinatorStep Id N → Prop
  | .mutate i sec => (sec.run (s.state i)).generation ≠ (s.state i).generation
  | _ => False

instance (s : Coordinators Id N) (ev : CoordinatorStep Id N) : Decidable (s.Mutates ev) := by
  unfold Mutates
  split <;> infer_instance

/-! ### One step -/

variable {s s' : Coordinators Id N}

omit [Endpoint Id] in
theorem dhtReadBeforeWrite_iff (s : Coordinators Id N) (g : ℕ) :
    dhtReadBeforeWrite s.record g = true ↔ s.recordGeneration < .some g := by
  unfold recordGeneration
  cases hrecord : s.record with
  | none => simp [dhtReadBeforeWrite, WithBot.bot_lt_coe]
  | some r =>
    rw [dhtReadBeforeWrite_some]
    exact WithBot.coe_lt_coe.symm

/-- What a step other than a mutation does, in generations: nothing, a push that is counted, or a pull. -/
inductive Quiet (s : Coordinators Id N) : CoordinatorStep Id N → Coordinators Id N → Prop
  | idle {ev : CoordinatorStep Id N} {t : Coordinators Id N} (record : t.recordGeneration = s.recordGeneration)
      (values : t.generation = s.generation) (counted : t.writes = s.writes)
      (attempted : ∀ i seeds, ev = .publish i seeds → ¬ s.recordGeneration < .some (s.generation i)) : Quiet s ev t
  | push {i : Fin N} {seeds : List Id} {t : Coordinators Id N} (above : s.recordGeneration < .some (s.generation i))
      (record : t.recordGeneration = .some (s.generation i)) (values : t.generation = s.generation)
      (counted : t.writes = s.writes + 1) : Quiet s (.publish i seeds) t
  | pull {i : Fin N} {data : GroupBlob Id} {members : List (Member Id)} {g : ℕ} {t : Coordinators Id N}
      (below : s.generation i ≤ g) (record : s.recordGeneration = .some g)
      (kept : t.recordGeneration = .some g)
      (values : t.generation = Function.update s.generation i g) (counted : t.writes = s.writes) :
      Quiet s (.poll i data members) t

omit [Endpoint Id] in
theorem generation_update (s : Coordinators Id N) (i : Fin N) (state : NetworkState Id) :
    generation { s with state := Function.update s.state i state } =
      Function.update s.generation i state.generation :=
  Function.comp_update NetworkState.generation s.state i state

theorem quiet_next {ev : CoordinatorStep Id N} (hev : ¬ s.Mutates ev) (h : s.next ev = some s') :
    s.Quiet ev s' := by
  cases ev with
  | mutate i sec =>
    cases h
    have hsame : (sec.run (s.state i)).generation = s.generation i := not_not.mp hev
    refine .idle rfl ?_ rfl nofun
    rw [generation_update, hsame, Function.update_eq_self]
  | publish i seeds =>
    have hguard := dhtReadBeforeWrite_iff s (s.generation i)
    by_cases hpass : dhtReadBeforeWrite s.record (s.generation i) = true
    · cases (if_pos hpass).symm.trans h
      exact .push (hguard.mp hpass) rfl rfl rfl
    · cases (if_neg hpass).symm.trans h
      refine .idle rfl rfl rfl fun j seeds' heq => ?_
      cases heq
      exact mt hguard.mpr hpass
  | poll i data members =>
    simp only [next] at h
    split at h
    · cases h
      exact .idle rfl rfl rfl nofun
    · rename_i hash generation seeds hrecord
      split at h
      · rename_i hfetch
        split at h
        · rename_i hgeneration
          cases h
          have hrecorded : s.recordGeneration = .some generation := by rw [recordGeneration, hrecord]
          refine .pull (le_of_pollerShouldFetch hfetch) hrecorded hrecorded ?_ rfl
          rw [generation_update, ← hgeneration]
          rfl
        · cases h
      · cases h
        exact .idle rfl rfl rfl nofun

omit [Endpoint Id] in
/-- A step without a mutation keeps the peak, and nobody gets ahead of the record; a write is made by
somebody who was. -/
theorem Quiet.keeps {ev : CoordinatorStep Id N} (h : s.Quiet ev s') :
    s'.peak = s.peak ∧ Peak.ahead s'.recordGeneration s'.generation ⊆ Peak.ahead s.recordGeneration s.generation ∧
      s'.writes + (Peak.ahead s'.recordGeneration s'.generation).card ≤
        s.writes + (Peak.ahead s.recordGeneration s.generation).card := by
  cases h with
  | idle record values counted attempted =>
    rw [peak, record, values, counted]
    exact ⟨rfl, subset_rfl, le_rfl⟩
  | push above record values counted =>
    rw [peak, record, values]
    have hfewer := Peak.ahead_push above
    refine ⟨Peak.peak_push above, hfewer.subset, ?_⟩
    have hcard := Finset.card_lt_card hfewer
    rw [counted]
    omega
  | pull below record kept values counted =>
    have hsubset : Peak.ahead s'.recordGeneration s'.generation ⊆ Peak.ahead s.recordGeneration s.generation := by
      rw [kept, values, record]
      exact Peak.ahead_pull
    refine ⟨?_, hsubset, ?_⟩
    · rw [peak, peak, kept, values, record]
      exact Peak.peak_pull below
    · have hcard := Finset.card_le_card hsubset
      omega

omit [Endpoint Id] in
/-- After an attempt to publish, a coordinator is not ahead of the record. -/
theorem Quiet.attempted {i : Fin N} {seeds : List Id} (h : s.Quiet (.publish i seeds) s') :
    i ∉ Peak.ahead s'.recordGeneration s'.generation := by
  rw [Peak.mem_ahead]
  cases h with
  | idle record values counted attempted =>
    rw [record, values]
    exact attempted i seeds rfl
  | push above record values counted =>
    rw [record, values]
    exact lt_irrefl _

/-- Only publishing behind the guard writes, and a write raises the generation on record. -/
theorem recordGeneration_lt_of_write {ev : CoordinatorStep Id N} (h : s.next ev = some s')
    (hwrite : s'.writes ≠ s.writes) : s.recordGeneration < s'.recordGeneration := by
  by_cases hev : s.Mutates ev
  · cases ev with
    | mutate i sec =>
      cases h
      exact absurd rfl hwrite
    | publish => cases hev
    | poll => cases hev
  · cases quiet_next hev h with
    | idle _ _ counted => exact absurd counted hwrite
    | push above record => exact record ▸ above
    | pull _ _ _ _ counted => exact absurd counted hwrite

/-! ### Once mutations have stopped -/

/-- The steps that are left when nobody mutates any more. -/
def Settled (s : Coordinators Id N) (ev : CoordinatorStep Id N) : Prop := ¬ s.Mutates ev

instance (s : Coordinators Id N) (ev : CoordinatorStep Id N) : Decidable (s.Settled ev) :=
  inferInstanceAs (Decidable (¬ _))

/-- What holds after a run without mutations from `s₁`. -/
structure Inv (s₁ : Coordinators Id N) (events : List (CoordinatorStep Id N)) (s : Coordinators Id N) : Prop where
  peak : s.peak = s₁.peak
  writes : s.writes + (Peak.ahead s.recordGeneration s.generation).card ≤ s₁.writes + N
  attempted : ∀ i seeds, CoordinatorStep.publish i seeds ∈ events → i ∉ Peak.ahead s.recordGeneration s.generation

theorem Inv.step {s₁ : Coordinators Id N} {events : List (CoordinatorStep Id N)} {ev : CoordinatorStep Id N}
    (hinv : Inv s₁ events s) (hev : s.Settled ev) (h : s.next ev = some s') : Inv s₁ (events ++ [ev]) s' := by
  have hquiet := quiet_next hev h
  obtain ⟨hpeak, hsubset, hwrites⟩ := hquiet.keeps
  refine ⟨hpeak.trans hinv.peak, hwrites.trans hinv.writes, fun i seeds hmem => ?_⟩
  rcases List.mem_append.mp hmem with hbefore | hlast
  · exact fun hahead => hinv.attempted i seeds hbefore (hsubset hahead)
  · cases List.mem_singleton.mp hlast
    exact hquiet.attempted

theorem inv_of_run {s₁ : Coordinators Id N} {events : List (CoordinatorStep Id N)}
    (hrun : Run (fun s ev s' => next s ev = some s') Settled s₁ events s) : Inv s₁ events s := by
  have hstart : Inv s₁ [] s₁ := by
    refine ⟨rfl, Nat.add_le_add_left ?_ _, nofun⟩
    exact (Finset.card_le_univ _).trans (Fintype.card_fin N).le
  exact hrun.invariant (I := Inv s₁) hstart fun _ _ _ _ hinv hev hnext => hinv.step hev hnext

omit [Endpoint Id] in
theorem Inv.recordGeneration_eq {s₁ : Coordinators Id N} {events : List (CoordinatorStep Id N)}
    (hinv : Inv s₁ events s) (hall : ∀ i, ∃ seeds, CoordinatorStep.publish i seeds ∈ events) :
    s.recordGeneration = s₁.peak := by
  rw [← hinv.peak]
  refine (Peak.peak_eq_of_forall fun i => ?_).symm
  obtain ⟨seeds, hmem⟩ := hall i
  exact hinv.attempted i seeds hmem

/-! ### The steps are those of the publisher -/

section Publisher

open Tetron.Dht

variable [Pkarr Id]

/-- An iteration of the publisher whose resolve answers and whose write is delivered makes of the record what
the step does. -/
theorem record_iterate (hparse : Pkarr.ParsesBack Id) (s : Coordinators Id N) (i : Fin N) (peers : PeerTable Id)
    (networkName : String) (endpointId : Id) {live : Option SignedPacket}
    (hlive : live.bind decodeNetworkRecord = s.record) (hgeneration : (s.state i).generation < 2 ^ 64)
    (hfits : Pkarr.fits Id (recordValues (s.state i).published.2 (s.state i).generation
      (seedPeers peers networkName endpointId)) = true) :
    (s.next (.publish i (seedPeers peers networkName endpointId))).map record =
      some ((Publisher.network.iterate (s.state i) peers networkName endpointId ⟨true, .delivered⟩ live).2.bind
        decodeNetworkRecord) := by
  have hresolve : resolveNetwork live true = s.record := hlive
  have hattempts : Publisher.network.attempts (s.state i).published.2 = true := rfl
  rw [Publisher.iterate_snd, if_pos hattempts, publishGuarded, hresolve]
  by_cases hpass : dhtReadBeforeWrite s.record (s.state i).generation = true
  · have hnext : s.next (.publish i (seedPeers peers networkName endpointId)) = some _ := if_pos hpass
    have hwrites : Writes (s.state i).published.2 (s.state i).generation (seedPeers peers networkName endpointId)
        .delivered := ⟨hfits, by decide⟩
    rw [hnext, if_pos hpass, publishNetwork_of_writes hwrites, Option.bind_some,
      decodeNetworkRecord_recordValues hparse _ hgeneration]
    rfl
  · have hnext : s.next (.publish i (seedPeers peers networkName endpointId)) = some _ := if_neg hpass
    rw [hnext, if_neg hpass, hlive]
    rfl

end Publisher

/-- **Publishers settle**: every write raises the generation on record; from any state on, `N` coordinators
that only publish and poll write at most `N` times, and once each of them has tried to publish, the record is
at the largest generation there was in that state, and stays there. -/
theorem publishes_settle {s₁ : Coordinators Id N} {events : List (CoordinatorStep Id N)}
    (hrun : Run (fun s ev s' => next s ev = some s') Settled s₁ events s) :
    (∀ (t t' : Coordinators Id N) ev, t.next ev = some t' → t'.writes ≠ t.writes →
        t.recordGeneration < t'.recordGeneration) ∧
      s.writes ≤ s₁.writes + N ∧
      ((∀ i, ∃ seeds, CoordinatorStep.publish i seeds ∈ events) →
        s.recordGeneration = s₁.peak ∧
          ∀ more s', Run (fun s ev s' => next s ev = some s') Settled s more s' → s'.recordGeneration = s₁.peak) := by
  have hinv := inv_of_run hrun
  refine ⟨fun _ _ _ => recordGeneration_lt_of_write, (Nat.le_add_right _ _).trans hinv.writes, fun hall => ?_⟩
  refine ⟨hinv.recordGeneration_eq hall, fun more s' hmore => ?_⟩
  -- the attempts of the first run still count after more steps
  have hinv' : Inv s₁ (events ++ more) s' := hmore.invariant (I := fun more s' => Inv s₁ (events ++ more) s')
    (by rwa [List.append_nil]) fun more t ev t' h hev hnext => by
      rw [← List.append_assoc]
      exact h.step hev hnext
  refine hinv'.recordGeneration_eq fun i => ?_
  obtain ⟨seeds, hmem⟩ := hall i
  exact ⟨seeds, List.mem_append_left _ hmem⟩

end Coordinators

end Tetron.Daemon

namespace Tetron.Daemon

open Tetron.Membership Sample

/-- Two coordinators that have mutated apart, with nothing on record. -/
def apart : Coordinators Peer 2 := ⟨none, ![state 5 [member .alice true], state 7 [member .bob true]], 0⟩

theorem publishes_settle_apart :
    ∃ s, Run (fun s ev s' => Coordinators.next s ev = some s') Coordinators.Settled apart
        [.publish 0 [.alice], .publish 1 [.bob]] s ∧ s.writes = 2 ∧ s.recordGeneration = apart.peak := by
  refine Run.exists_of_exec_imp (fun s => s.writes = 2) (by decide +kernel) fun s hrun hwrites => ?_
  have hall : ∀ i : Fin 2, ∃ seeds, CoordinatorStep.publish i seeds ∈
      ([.publish 0 [.alice], .publish 1 [.bob]] : List (CoordinatorStep Peer 2)) := by
    intro i
    match i with
    | 0 => exact ⟨[.alice], List.mem_cons_self⟩
    | 1 => exact ⟨[.bob], List.mem_cons_of_mem _ List.mem_cons_self⟩
  exact ⟨hwrites, ((Coordinators.publishes_settle hrun).2.2 hall).1⟩

end Tetron.Daemon
