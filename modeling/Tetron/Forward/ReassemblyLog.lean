import Tetron.Forward.PeerReader
import Tetron.Packet.ReassemblyV6

/-!
# What a reassembler makes of whatever arrives

No assumption is made on the datagrams here: they may mix fragment sets, overlap, repeat offsets, announce
different lengths, or be no envelopes at all, and they arrive at any times. Beside the table, the envelopes of
each set that were received since its entry was created are noted (`Logged`).

An entry holds the latest payload received for each offset, and the end of the latest envelope that is marked as
the last one (`Records`). So what is completed is put together from these (`reassembler_run`).
-/

namespace Tetron.Forward

open Packet Pieces Ipv6Reassembler

/-- The latest of the elements that pass. -/
def latest {α : Type*} (p : α → Bool) (l : List α) : Option α := (l.filter p).getLast?

theorem latest_concat {α : Type*} (p : α → Bool) (l : List α) (a : α) :
    latest p (l ++ [a]) = if p a then some a else latest p l := by
  rw [latest, List.filter_append]
  by_cases h : p a
  · rw [if_pos h, List.filter_cons_of_pos h, List.filter_nil, List.getLast?_concat]
  · rw [if_neg h, List.filter_cons_of_neg h, List.filter_nil, List.append_nil, latest]

/-- The latest envelope at an offset. -/
def latestAt (es : List Bytes) (o : ℕ) : Option Bytes := latest (fun e => decide (envelopeOffset e = o)) es

/-- The latest envelope with the more flag at zero. -/
def latestFinal (es : List Bytes) : Option Bytes := latest (fun e => !envelopeMore e) es

theorem latestAt_concat (es : List Bytes) (e : Bytes) (o : ℕ) :
    latestAt (es ++ [e]) o = if envelopeOffset e = o then some e else latestAt es o := by
  rw [latestAt, latest_concat]
  simp only [decide_eq_true_eq]
  rfl

theorem latestFinal_concat (es : List Bytes) (e : Bytes) :
    latestFinal (es ++ [e]) = if envelopeMore e then latestFinal es else some e := by
  rw [latestFinal, latest_concat]
  cases envelopeMore e <;> rfl

theorem latestAt_eq_some {es : List Bytes} {o : ℕ} {e : Bytes} (h : latestAt es o = some e) :
    e ∈ es ∧ envelopeOffset e = o := by
  have hmem := List.mem_filter.mp (List.mem_of_getLast? h)
  exact ⟨hmem.1, of_decide_eq_true hmem.2⟩

theorem exists_latestAt {es : List Bytes} {e : Bytes} (h : e ∈ es) : ∃ u, latestAt es (envelopeOffset e) = some u := by
  rw [← Option.isSome_iff_exists, latestAt, latest, List.getLast?_isSome]
  exact List.ne_nil_of_mem (List.mem_filter.mpr ⟨h, decide_eq_true rfl⟩)

/-! ### The entry of a set -/

/-- The entry is what the envelopes `es` leave. -/
structure Records (es : List Bytes) (p : PartialIpv6) : Prop where
  chunks : ∀ o : ℕ, p.chunks[o]? = (latestAt es o).map envelopePayload
  total : p.totalLen = (latestFinal es).map envelopeStop
  fits : ∀ e ∈ es, envelopeStop e ≤ maxReassembledIpv6Packet

theorem records_fresh (now : Instant) : Records [] (PartialIpv6.fresh now) :=
  ⟨fun o => by simp [PartialIpv6.fresh, latestAt, latest], rfl, by simp⟩

theorem Records.store {es : List Bytes} {p : PartialIpv6} {d : Bytes} (h : Records es p) (now : Instant)
    (hfits : envelopeStop d ≤ maxReassembledIpv6Packet) : Records (es ++ [d]) (p.store now d) := by
  refine ⟨fun o => ?_, ?_, fun e he => ?_⟩
  · simp only [PartialIpv6.store, Std.ExtTreeMap.getElem?_insert, Std.LawfulEqCmp.compare_eq_iff_eq,
      latestAt_concat, h.chunks]
    split <;> rfl
  · simp only [PartialIpv6.store, latestFinal_concat, h.total]
    split <;> rfl
  · rcases List.mem_append.mp he with he | he
    · exact h.fits e he
    · rw [List.mem_singleton.mp he]
      exact hfits

/-- What is put together from the envelopes `es`: for each offset the payload of the latest one, from offset 0
on without gap or overlap, to the length that the latest final one announces. -/
structure Assembled (es : List Bytes) (full : Bytes) : Prop where
  length_le : full.length ≤ 1280
  joined : ∃ used, Contiguous 0 used ∧ full = used.flatMap envelopePayload ∧
    (∀ e ∈ used, latestAt es (envelopeOffset e) = some e) ∧ ∀ e ∈ es, ∃ u ∈ used, envelopeOffset u = envelopeOffset e
  total : ∃ final, latestFinal es = some final ∧ envelopeStop final = full.length

theorem Records.assembled {es : List Bytes} {p : PartialIpv6} {full : Bytes} (h : Records es p)
    (hfull : p.tryComplete = some full) : Assembled es full := by
  obtain ⟨htotal, hjoin⟩ := tryComplete_eq_some hfull
  have hchunk : ∀ x, x ∈ p.chunks.toList ↔ ∃ e, latestAt es x.1 = some e ∧ envelopePayload e = x.2 := by
    intro x
    rw [Std.ExtTreeMap.mem_toList_iff_getElem?_eq_some, h.chunks, Option.map_eq_some_iff]
  obtain ⟨used, hused, hlatest⟩ := exists_map_chunkOf (Q := fun e => latestAt es (envelopeOffset e) = some e)
    fun x hx => by
      obtain ⟨e, he, hpay⟩ := (hchunk x).mp hx
      have hoff := (latestAt_eq_some he).2
      exact ⟨e, hoff.symm ▸ he, Prod.ext hoff hpay⟩
  rw [h.total] at htotal
  obtain ⟨final, hfinal, hstop⟩ := Option.map_eq_some_iff.mp htotal
  have hmem := List.mem_filter.mp (List.mem_of_getLast? hfinal)
  refine ⟨?_, ⟨used, ?_⟩, final, hfinal, hstop⟩
  · rw [← hstop]
    exact h.fits final hmem.1
  · rw [← hused] at hjoin
    obtain ⟨hcont, hout⟩ := contiguous_of_joinFrom_map hjoin
    refine ⟨hcont, hout, hlatest, fun e he => ?_⟩
    -- every offset received is among the chunks
    obtain ⟨u, hu⟩ := exists_latestAt he
    have hchunks := (hchunk (envelopeOffset e, envelopePayload u)).mpr ⟨u, hu, rfl⟩
    rw [← hused] at hchunks
    obtain ⟨v, hv, heq⟩ := List.mem_map.mp hchunks
    exact ⟨v, hv, congrArg Prod.fst heq⟩

/-! ### Whole runs -/

/-- A reassembler, with the envelopes of each set received since its entry was created. -/
structure Logged where
  table : Ipv6Reassembler
  received : UInt32 → List Bytes

def Logged.new : Logged := ⟨Ipv6Reassembler.new, fun _ => []⟩

/-- The envelopes of `id` once `d` is received. An entry that is not there, or is dropped while `d` is handled,
starts anew. -/
def receivedWith (received : UInt32 → List Bytes) (r : Ipv6Reassembler) (t : Clock) (d : Bytes) (id : UInt32) :
    List Bytes :=
  (if id ∈ swept r t d then received id else []) ++ if Carries id d then [d] else []

/-- A datagram is accepted, with the table in any order. -/
inductive LogStep : Logged → Arrival → Logged → Prop
  | accept {s : Logged} {r : Ipv6Reassembler} (same : HashTable.Same s.table r) (a : Arrival) :
      LogStep s a ⟨(accept r a.clock a.datagram).2, receivedWith s.received r a.clock a.datagram⟩

/-- Every entry is what the envelopes received for it leave. -/
def Recorded (received : UInt32 → List Bytes) (r : Ipv6Reassembler) : Prop :=
  ∀ id p, r.get? id = some p → Records (received id) p

section Step

variable {received : UInt32 → List Bytes} {r : Ipv6Reassembler} {t : Clock} {d : Bytes} {full : Bytes}

/-- The entry a datagram is stored in. -/
theorem Recorded.stored (h : Recorded received r) (henv : IsEnvelope d)
    (hfits : envelopeStop d ≤ maxReassembledIpv6Packet) :
    Records (receivedWith received r t d (envelopeId d)) (stored (swept r t d) t.seen d) := by
  have hcar : Carries (envelopeId d) d := ⟨henv, rfl⟩
  rw [receivedWith, if_pos hcar]
  refine Records.store ?_ _ hfits
  cases hentry : (swept r t d).get? (envelopeId d) with
  | none =>
    rw [if_neg (HashTable.get?_eq_none.mp hentry)]
    exact records_fresh _
  | some p =>
    rw [if_pos (HashTable.mem_of_get?_eq_some hentry)]
    exact h _ p (get?_swept hentry)

/-- **Step lemma**: the entries go on being what was received for them. -/
theorem Recorded.accept (h : Recorded received r) : Recorded (receivedWith received r t d) (accept r t d).2 := by
  intro id p hp
  rcases get?_accept_eq_some hp with ⟨⟨henv, rfl⟩, hfits, rfl⟩ | ⟨hcar, hp⟩
  · exact h.stored henv hfits
  · rw [receivedWith, if_pos (HashTable.mem_of_get?_eq_some hp), if_neg hcar, List.append_nil]
    exact h id p (get?_swept hp)

/-- A completed packet is put together from what was received for its set. -/
theorem Recorded.assembled (h : Recorded received r) (hacc : (Ipv6Reassembler.accept r t d).1 = .complete full) :
    Assembled (receivedWith received r t d (envelopeId d)) full := by
  obtain ⟨henv, hfits, hfull⟩ := accept_eq_complete hacc
  exact (h.stored henv hfits).assembled hfull

/-- There is room for one more set, unless the set has an entry already. -/
theorem size_erase_makeRoom {id : UInt32} (h : r.size ≤ maxReassemblyEntries) :
    ((makeRoom r id).erase id).size < maxReassemblyEntries := by
  by_cases hin : id ∈ r
  · have hroom : makeRoom r id = r := if_neg fun hfull => hfull.1 hin
    have hsize := HashTable.size_erase_of_mem hin
    rw [hroom]
    omega
  · by_cases hfull : r.size ≥ maxReassemblyEntries
    · obtain ⟨oldest, hmin, hmem⟩ := HashTable.exists_minByKey PartialIpv6.lastSeen
        (lt_of_lt_of_le (by decide : 0 < maxReassemblyEntries) hfull)
      have hsize := HashTable.size_erase_of_mem hmem
      have hle := HashTable.size_erase_le (r.erase oldest) id
      rw [makeRoom, if_pos ⟨hin, hfull⟩, hmin]
      dsimp only
      omega
    · have hroom : makeRoom r id = r := if_neg fun hroom => hfull hroom.2
      have hle := HashTable.size_erase_le r id
      rw [hroom]
      omega

theorem size_deliver_le {now : Instant} : (deliver r now d).2.size ≤ (r.erase (envelopeId d)).size + 1 := by
  unfold deliver
  cases (Ipv6Reassembler.stored r now d).tryComplete with
  | none => rw [HashTable.size_insert]
  | some full =>
    rw [← HashTable.size_insert _ _ (Ipv6Reassembler.stored r now d)]
    exact HashTable.size_erase_le _ _

theorem size_accept_le (h : r.size ≤ maxReassemblyEntries) : (accept r t d).2.size ≤ maxReassemblyEntries := by
  have hgc : (gcStale r t.gc).size ≤ maxReassemblyEntries := (HashTable.size_retain_le _ _).trans h
  unfold Ipv6Reassembler.accept
  split
  · exact h
  · split
    · exact h
    · dsimp only
      split
      · exact (HashTable.size_erase_le _ _).trans hgc
      · exact size_deliver_le.trans (size_erase_makeRoom hgc)

theorem carries_of_mem_receivedWith (h : ∀ id, ∀ e ∈ received id, Carries id e) {id : UInt32} {e : Bytes}
    (he : e ∈ receivedWith received r t d id) : Carries id e := by
  rcases List.mem_append.mp he with he | he
  · split at he
    · exact h id e he
    · cases he
  · split at he
    · rename_i hcar
      rw [List.mem_singleton.mp he]
      exact hcar
    · cases he

end Step

structure Logged.Inv (s : Logged) : Prop where
  size_le : s.table.size ≤ maxReassemblyEntries
  carries : ∀ id, ∀ e ∈ s.received id, Carries id e
  recorded : Recorded s.received s.table

theorem Recorded.same {received : UInt32 → List Bytes} {r r₁ : Ipv6Reassembler} (h : Recorded received r)
    (same : HashTable.Same r r₁) : Recorded received r₁ := by
  intro id p hp
  rw [← same.get?] at hp
  exact h id p hp

theorem Logged.inv_new : Logged.new.Inv where
  size_le := Nat.zero_le _
  carries := fun _ _ he => absurd he List.not_mem_nil
  recorded := fun _ _ hp => absurd hp (Option.some_ne_none _).symm

theorem Logged.Inv.step {s s' : Logged} {a : Arrival} (hinv : s.Inv) (hstep : LogStep s a s') : s'.Inv := by
  obtain ⟨same, a⟩ := hstep
  have hsize := hinv.size_le
  rw [same.size] at hsize
  exact ⟨size_accept_le hsize, fun _ _ => carries_of_mem_receivedWith hinv.carries, (hinv.recorded.same same).accept⟩

/-- **Whatever arrives**, at any times: there are at most 16 partial sets, and a packet that is completed next,
with the table in any order, is put together from the envelopes of its set received since the entry was
created, the completing one among them. -/
theorem reassembler_run {arrivals : List Arrival} {s : Logged}
    (hrun : Run LogStep (fun _ _ => True) Logged.new arrivals s) :
    s.table.size ≤ 16 ∧
      ∀ (r : Ipv6Reassembler) (t : Clock) (d full : Bytes), HashTable.Same s.table r →
        (accept r t d).1 = .complete full →
          (∀ e ∈ receivedWith s.received r t d (envelopeId d), Carries (envelopeId d) e) ∧
            Assembled (receivedWith s.received r t d (envelopeId d)) full := by
  have hinv := hrun.invariant (I := fun _ s => s.Inv) Logged.inv_new fun _ _ _ _ hinv _ hstep => hinv.step hstep
  refine ⟨hinv.size_le, fun r t d full same hacc => ?_⟩
  exact ⟨fun e => carries_of_mem_receivedWith hinv.carries, (hinv.recorded.same same).assembled hacc⟩

/-- A payload that is replaced before the set is complete. -/
theorem reassembler_run_replaced :
    ∃ s, Run LogStep (fun _ _ => True) Logged.new
        [⟨⟨0, 1⟩, envelope [9, 9, 3, 4] 7 ⟨0, 2⟩⟩, ⟨⟨2, 3⟩, envelope [1, 2, 3, 4] 7 ⟨0, 2⟩⟩] s ∧
      s.table.size ≤ 16 ∧ (accept s.table ⟨4, 5⟩ (envelope [1, 2, 3, 4] 7 ⟨2, 2⟩)).1 = .complete [1, 2, 3, 4] ∧
      Assembled (receivedWith s.received s.table ⟨4, 5⟩ (envelope [1, 2, 3, 4] 7 ⟨2, 2⟩) 7) [1, 2, 3, 4] := by
  have hfirst : LogStep Logged.new ⟨⟨0, 1⟩, envelope [9, 9, 3, 4] 7 ⟨0, 2⟩⟩ _ := .accept (List.Perm.refl _) _
  have hrun := (Run.nil.snoc trivial hfirst).snoc (C := fun _ _ => True) trivial
    (.accept (List.Perm.refl _) ⟨⟨2, 3⟩, envelope [1, 2, 3, 4] 7 ⟨0, 2⟩⟩)
  have hrun' := reassembler_run hrun
  exact ⟨_, hrun, hrun'.1, by decide +kernel, (hrun'.2 _ ⟨4, 5⟩ (envelope [1, 2, 3, 4] 7 ⟨2, 2⟩) [1, 2, 3, 4]
    (List.Perm.refl _) (by decide +kernel)).2⟩

end Tetron.Forward
