import Tetron.Forward.ReassemblyLog

/-!
# How much a reassembler holds

A peer decides what its reassembler holds: a fragment is stored if it ends within 1280 bytes, whatever is stored
already. Fragments of a set that keep apart fill at most one packet (`buffered_le`). Overlapping ones are all kept,
one for each offset, so a single set may hold hundreds of packets' worth.
-/

namespace Tetron.Forward

open Packet Pieces Ipv6Reassembler

/-- The payload bytes of a partial set. -/
def bufferedOf (p : PartialIpv6) : ℕ := (p.chunks.toList.map fun x => x.2.length).sum

/-- The payload bytes of all partial sets. -/
def buffered (r : Ipv6Reassembler) : ℕ := (r.values.map bufferedOf).sum

/-- A datagram is accepted, with the table in any order. -/
inductive AcceptStep : Ipv6Reassembler → Arrival → Ipv6Reassembler → Prop
  | accept {s r : Ipv6Reassembler} (same : HashTable.Same s r) (a : Arrival) :
      AcceptStep s a (accept r a.clock a.datagram).2

/-- The fragment overlaps no other fragment held for its set. One at the same offset is replaced. -/
def KeepsApart (r : Ipv6Reassembler) (a : Arrival) : Prop :=
  IsEnvelope a.datagram → envelopeStop a.datagram ≤ maxReassembledIpv6Packet →
    ∀ p, (gcStale r a.clock.gc).get? (envelopeId a.datagram) = some p → ∀ o b, p.chunks[o]? = some b →
      o ≠ envelopeOffset a.datagram → envelopeStop a.datagram ≤ o ∨ o + b.length ≤ envelopeOffset a.datagram

/-! ### One set -/

/-- Every chunk lies within the largest packet. -/
def Within (p : PartialIpv6) : Prop := ∀ o b, p.chunks[o]? = some b → o + b.length ≤ maxReassembledIpv6Packet

/-- No two chunks overlap. -/
def Apart (p : PartialIpv6) : Prop :=
  ∀ (o o' : ℕ) (b b' : Bytes), p.chunks[o]? = some b → p.chunks[o']? = some b' → o < o' → o + b.length ≤ o'

section Entry

variable {p : PartialIpv6} {d : Bytes} {now : Instant}

theorem pairwise_chunks (p : PartialIpv6) : p.chunks.toList.Pairwise fun x y => x.1 < y.1 :=
  Std.ExtTreeMap.ordered_keys_toList.imp fun h => Nat.compare_eq_lt.mp h

theorem chunk_store {o : ℕ} {b : Bytes} (h : (p.store now d).chunks[o]? = some b) :
    (o = envelopeOffset d ∧ b = envelopePayload d) ∨ (o ≠ envelopeOffset d ∧ p.chunks[o]? = some b) := by
  rw [PartialIpv6.store, OrderedMap.getElem?_insert] at h
  split at h
  · rename_i heq
    exact Or.inl ⟨heq, (Option.some.inj h).symm⟩
  · rename_i hne
    exact Or.inr ⟨hne, h⟩

theorem Within.store (h : Within p) (hfits : envelopeStop d ≤ maxReassembledIpv6Packet) :
    Within (p.store now d) := by
  intro o b hb
  rcases chunk_store hb with ⟨rfl, rfl⟩ | ⟨-, hold⟩
  · exact hfits
  · exact h o b hold

theorem Apart.store (h : Apart p)
    (hapart : ∀ o b, p.chunks[o]? = some b → o ≠ envelopeOffset d →
      envelopeStop d ≤ o ∨ o + b.length ≤ envelopeOffset d) : Apart (p.store now d) := by
  intro o o' b b' hb hb' hlt
  rcases chunk_store hb with ⟨rfl, rfl⟩ | ⟨hne, hold⟩
  · rcases chunk_store hb' with ⟨rfl, -⟩ | ⟨hne', hold'⟩
    · exact absurd hlt (lt_irrefl _)
    · rcases hapart o' b' hold' hne' with hbefore | hafter
      · exact hbefore
      · omega
  · rcases chunk_store hb' with ⟨rfl, -⟩ | ⟨-, hold'⟩
    · rcases hapart o b hold hne with hbefore | hafter
      · have hstop : envelopeOffset d ≤ envelopeStop d := Nat.le_add_right _ _
        omega
      · exact hafter
    · exact h o o' b b' hold hold' hlt

/-- Chunks that keep apart fill one packet at most. -/
theorem bufferedOf_le (hwithin : Within p) (hapart : Apart p) : bufferedOf p ≤ maxReassembledIpv6Packet := by
  have hmem : ∀ x ∈ p.chunks.toList, p.chunks[x.1]? = some x.2 := fun x hx =>
    Std.ExtTreeMap.mem_toList_iff_getElem?_eq_some.mp hx
  refine sum_length_le_of_apart ?_ fun x hx => hwithin x.1 x.2 (hmem x hx)
  refine (pairwise_chunks p).imp_of_mem fun {x y} hx hy hlt => ?_
  exact hapart x.1 y.1 x.2 y.2 (hmem x hx) (hmem y hy) hlt

end Entry

/-! ### Whole runs -/

/-- The entry a datagram is stored in: what the table has for its set, or a fresh one. -/
theorem stored_cases {r : Ipv6Reassembler} {t : Clock} {d : Bytes} (henv : IsEnvelope d)
    (hfits : envelopeStop d ≤ maxReassembledIpv6Packet) {Q : PartialIpv6 → Prop}
    (hold : ∀ p, (gcStale r t.gc).get? (envelopeId d) = some p → r.get? (envelopeId d) = some p →
      Q (p.store t.seen d)) (hfresh : Q ((PartialIpv6.fresh t.seen).store t.seen d)) :
    Q (stored (swept r t d) t.seen d) := by
  rw [stored]
  cases hentry : (swept r t d).get? (envelopeId d) with
  | none => exact hfresh
  | some p =>
    refine hold p ?_ (get?_swept hentry)
    rw [swept, if_neg (not_not.mpr henv), if_neg (not_lt.mpr hfits)] at hentry
    exact get?_makeRoom hentry

theorem within_fresh (now : Instant) : Within (PartialIpv6.fresh now) := by
  intro o b hb
  simp [PartialIpv6.fresh] at hb

theorem apart_fresh (now : Instant) : Apart (PartialIpv6.fresh now) := by
  intro o o' b b' hb
  simp [PartialIpv6.fresh] at hb

section Step

variable {r r₁ : Ipv6Reassembler} {a : Arrival}

/-- **Step lemma** for what holds of every entry: it need only be kept by the entry the datagram is stored in. -/
theorem entries_accept {Q : PartialIpv6 → Prop} (hentries : ∀ id p, r.get? id = some p → Q p)
    (same : HashTable.Same r r₁)
    (hstored : IsEnvelope a.datagram → envelopeStop a.datagram ≤ maxReassembledIpv6Packet →
      Q (stored (swept r₁ a.clock a.datagram) a.clock.seen a.datagram)) :
    ∀ id p, (accept r₁ a.clock a.datagram).2.get? id = some p → Q p := by
  intro id p hp
  rcases get?_accept_eq_some hp with ⟨⟨henv, -⟩, hfits, rfl⟩ | ⟨-, hkept⟩
  · exact hstored henv hfits
  · exact hentries id p ((same.get? id).trans (get?_swept hkept))

theorem within_stored (hentries : ∀ id p, r.get? id = some p → Within p) (same : HashTable.Same r r₁)
    (henv : IsEnvelope a.datagram) (hfits : envelopeStop a.datagram ≤ maxReassembledIpv6Packet) :
    Within (stored (swept r₁ a.clock a.datagram) a.clock.seen a.datagram) := by
  refine stored_cases henv hfits (fun p _ hp => ?_) ((within_fresh _).store hfits)
  exact (hentries _ p ((same.get? _).trans hp)).store hfits

theorem apart_stored (hentries : ∀ id p, r.get? id = some p → Apart p) (same : HashTable.Same r r₁)
    (hapart : KeepsApart r a) (henv : IsEnvelope a.datagram)
    (hfits : envelopeStop a.datagram ≤ maxReassembledIpv6Packet) :
    Apart (stored (swept r₁ a.clock a.datagram) a.clock.seen a.datagram) := by
  refine stored_cases henv hfits (fun p hkept hp => ?_) ((apart_fresh _).store fun o b hb => ?_)
  · have hgc : (gcStale r a.clock.gc).get? (envelopeId a.datagram) = some p := by
      rw [gcStale, HashTable.get?_retain] at hkept ⊢
      rw [same.get?]
      exact hkept
    exact (hentries _ p ((same.get? _).trans hp)).store (hapart henv hfits p hgc)
  · simp [PartialIpv6.fresh] at hb

end Step

/-- What every reassembler satisfies: at most 16 entries, with chunks within a packet. -/
structure Bounded (r : Ipv6Reassembler) : Prop where
  size_le : r.size ≤ maxReassemblyEntries
  within : ∀ id p, r.get? id = some p → Within p

theorem bounded_new : Bounded Ipv6Reassembler.new where
  size_le := Nat.zero_le _
  within := fun _ _ hp => absurd hp (Option.some_ne_none _).symm

theorem Bounded.step {s s' : Ipv6Reassembler} {a : Arrival} (h : Bounded s) (hstep : AcceptStep s a s') :
    Bounded s' := by
  obtain ⟨same, a⟩ := hstep
  have hsize := h.size_le
  rw [same.size] at hsize
  exact ⟨size_accept_le hsize, entries_accept h.within same (within_stored h.within same)⟩

/-- Entries that each hold at most `most` bytes. -/
theorem buffered_le_of_entries {r : Ipv6Reassembler} {most : ℕ} (hsize : r.size ≤ maxReassemblyEntries)
    (hentries : ∀ id p, r.get? id = some p → bufferedOf p ≤ most) : buffered r ≤ 16 * most := by
  have hvalues : ∀ n ∈ r.values.map bufferedOf, n ≤ most := by
    intro n hn
    obtain ⟨p, hp, rfl⟩ := List.mem_map.mp hn
    obtain ⟨id, hid⟩ := HashTable.mem_values_iff.mp hp
    exact hentries id p hid
  have hlength : (r.values.map bufferedOf).length ≤ 16 := by
    rw [List.length_map, HashTable.values, List.length_map]
    exact hsize
  calc buffered r ≤ (r.values.map bufferedOf).length • most := List.sum_le_card_nsmul _ _ hvalues
    _ ≤ 16 * most := Nat.mul_le_mul_right _ hlength

/-- **Fragments that keep apart**: in a run in which no fragment overlaps another one held for its set, the
payload bytes held never exceed 16 sets of 1280 bytes. -/
theorem buffered_le {arrivals : List Arrival} {r : Ipv6Reassembler}
    (hrun : Run AcceptStep KeepsApart Ipv6Reassembler.new arrivals r) : buffered r ≤ 16 * 1280 := by
  have hinv : Bounded r ∧ ∀ id p, r.get? id = some p → Apart p := by
    refine hrun.invariant (I := fun _ r => Bounded r ∧ ∀ id p, r.get? id = some p → Apart p) ?_ ?_
    · exact ⟨bounded_new, fun _ _ hp => absurd hp (Option.some_ne_none _).symm⟩
    · rintro _ s a s' ⟨hbounded, hapart⟩ hkeeps hstep
      refine ⟨hbounded.step hstep, ?_⟩
      obtain ⟨same, a⟩ := hstep
      exact entries_accept hapart same (apart_stored hapart same hkeeps)
  obtain ⟨hbounded, hapart⟩ := hinv
  exact buffered_le_of_entries hbounded.size_le fun id p hp => bufferedOf_le (hbounded.within id p hp) (hapart id p hp)

/-- Two halves of a packet, each held once. -/
theorem buffered_le_halves :
    ∃ r, Run AcceptStep KeepsApart Ipv6Reassembler.new
        [⟨⟨0, 1⟩, envelope [1, 2, 3, 4, 5] 7 ⟨0, 2⟩⟩, ⟨⟨2, 3⟩, envelope [1, 2, 3, 4, 5] 7 ⟨2, 2⟩⟩] r ∧
      buffered r = 4 ∧ buffered r ≤ 16 * 1280 := by
  have hfirst : KeepsApart Ipv6Reassembler.new ⟨⟨0, 1⟩, envelope [1, 2, 3, 4, 5] 7 ⟨0, 2⟩⟩ :=
    fun _ _ p hp => absurd hp (Option.some_ne_none p).symm
  have hsecond : KeepsApart (accept Ipv6Reassembler.new ⟨0, 1⟩ (envelope [1, 2, 3, 4, 5] 7 ⟨0, 2⟩)).2
      ⟨⟨2, 3⟩, envelope [1, 2, 3, 4, 5] 7 ⟨2, 2⟩⟩ := by
    intro _ _ p hp o b hb _
    have hnone : Sourced [] Ipv6Reassembler.new := fun _ p hp => absurd hp (Option.some_ne_none p).symm
    obtain ⟨d, hd, -, rfl, rfl⟩ := hnone.accept _ p (get?_gcStale hp) o b hb
    obtain rfl := List.mem_singleton.mp hd
    exact Or.inr (by decide)
  have hrun := (Run.nil.snoc hfirst (AcceptStep.accept (List.Perm.refl _) _)).snoc hsecond
    (AcceptStep.accept (List.Perm.refl _) _)
  exact ⟨_, hrun, by decide +kernel, buffered_le hrun⟩

/-- Fragments of one set at the offsets 0 to 16, each up to the end of the largest packet. -/
def flood : List Arrival :=
  (List.range 17).map fun o => ⟨⟨0, 0⟩, envelopeHeader 7 o 1 ++ List.replicate (1280 - o) 0⟩

theorem run_accepts (arrivals : List Arrival) (r : Ipv6Reassembler) :
    Run AcceptStep (fun _ _ => True) r arrivals
      (arrivals.foldl (fun r a => (accept r a.clock a.datagram).2) r) := by
  induction arrivals using List.reverseRecOn with
  | nil => exact .nil
  | append_singleton arrivals a ih =>
    rw [List.foldl_concat]
    exact ih.snoc trivial (.accept (List.Perm.refl _) a)

/-- One set holds more than 16 packets. -/
theorem buffered_flood : ∃ r, Run AcceptStep (fun _ _ => True) Ipv6Reassembler.new flood r ∧
    r.size = 1 ∧ 16 * 1280 < buffered r :=
  ⟨_, run_accepts flood _, by decide +kernel, by decide +kernel⟩

end Tetron.Forward
