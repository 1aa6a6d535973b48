import Tetron.Packet.FragmentV6

/-!
# Fragmented IPv6 packets arrive whole

The envelopes `fragmentIpv6Into` makes of a packet, fed to a reassembler in any order and mixed
with any traffic of other fragment sets, give the packet back when the last one arrives
(`delivery_of_fragmentIpv6Into`). The invariant (`Holding`) says which slices of the packet the
entry of the set holds; a step lemma extends it by one slice, and the run lemma
(`answers_of_delivery`) follows the arrivals.
-/

namespace Tetron.Packet

open Pieces Ipv6Reassembler

/-- A datagram read from the connection, with the clock readings of the call that handles it. -/
structure Arrival where
  clock : Clock
  datagram : Bytes
deriving DecidableEq

/-- `Delivery id r as outs`: from `r`, the arrivals `as` are answered by `outs`, and the entry of
`id` is neither evicted nor timed out on the way. The table's iteration order is arbitrary at
every step. -/
inductive Delivery (id : UInt32) : Ipv6Reassembler → List Arrival → List Ipv6FragmentOutcome → Prop
  | nil (r : Ipv6Reassembler) : Delivery id r [] []
  | cons {r r₁ : Ipv6Reassembler} {a : Arrival} {as : List Arrival}
      {outs : List Ipv6FragmentOutcome} (same : HashTable.Same r r₁)
      (keeps : Keeps id r₁ a.clock a.datagram)
      (rest : Delivery id (accept r₁ a.clock a.datagram).2 as outs) :
      Delivery id r (a :: as) ((accept r₁ a.clock a.datagram).1 :: outs)

/-- The envelopes of `id` among the arrivals, in order of arrival. -/
def carried (id : UInt32) (as : List Arrival) : List Bytes :=
  (as.map Arrival.datagram).filter (Carries id ·)

/-- The answers to the envelopes of `id`. -/
def answers (id : UInt32) (as : List Arrival) (outs : List Ipv6FragmentOutcome) :
    List Ipv6FragmentOutcome :=
  ((as.zip outs).filter fun p => Carries id p.1.datagram).map (·.2)

section Answers

variable {id : UInt32} {as : List Arrival} {outs : List Ipv6FragmentOutcome}

theorem carried_cons (id : UInt32) (a : Arrival) (as : List Arrival) : carried id (a :: as) =
    if Carries id a.datagram then a.datagram :: carried id as else carried id as := by
  simp [carried, List.filter_cons]

theorem answers_cons (id : UInt32) (a : Arrival) (as : List Arrival) (out : Ipv6FragmentOutcome)
    (outs : List Ipv6FragmentOutcome) : answers id (a :: as) (out :: outs) =
    if Carries id a.datagram then out :: answers id as outs else answers id as outs := by
  simp only [answers, List.zip_cons_cons, List.filter_cons, decide_eq_true_eq]
  split <;> simp

theorem answers_eq_nil (h : carried id as = []) : answers id as outs = [] := by
  simp only [carried, List.filter_eq_nil_iff, List.mem_map, forall_exists_index, and_imp,
    forall_apply_eq_imp_iff₂] at h
  simp only [answers, List.map_eq_nil_iff, List.filter_eq_nil_iff]
  rintro ⟨a, out⟩ hmem
  exact h a (List.of_mem_zip hmem).1

end Answers

/-! ### The entry of a set in progress -/

/-- The entry holds exactly the slices `got` of the packet `P`. -/
structure Holding (P : Bytes) (got : List Span) (p : PartialIpv6) : Prop where
  chunks : ∀ o b, p.chunks[o]? = some b ↔ ∃ s ∈ got, keyed P s = (o, b)
  total : p.totalLen = if ∃ s ∈ got, s.stop = P.length then some P.length else none

/-- What the table holds for the set when the slices `got` have arrived. -/
def Progress (P : Bytes) (got : List Span) (entry : Option PartialIpv6) : Prop :=
  if got = [] then entry = none else ∃ p, entry = some p ∧ Holding P got p

theorem holding_fresh (P : Bytes) (now : Instant) : Holding P [] (PartialIpv6.fresh now) :=
  ⟨by simp [PartialIpv6.fresh], by simp [PartialIpv6.fresh]⟩

section Packet

variable {P : Bytes} {id : UInt32} {spans got : List Span} {p : PartialIpv6}

theorem Progress.holding {entry : Option PartialIpv6} (h : Progress P got entry) (now : Instant) :
    Holding P got (entry.getD (PartialIpv6.fresh now)) := by
  unfold Progress at h
  split at h
  · rename_i hnil
    subst hnil
    subst h
    exact holding_fresh P now
  · obtain ⟨p, rfl, hp⟩ := h
    exact hp

/-- **Step lemma**: storing the envelope of a slice that has not arrived yet. -/
theorem Holding.store (h : Holding P got p) {s : Span} (now : Instant) (hstart : s.start < 65536)
    (hstop : s.stop ≤ P.length) (hnew : ∀ t ∈ got, t.start ≠ s.start) :
    Holding P (got ++ [s]) (p.store now (envelope P id s)) := by
  constructor
  · intro o b
    simp only [PartialIpv6.store, envelopeOffset_envelope hstart, envelopePayload_envelope,
      Std.ExtTreeMap.getElem?_insert, Std.LawfulEqCmp.compare_eq_iff_eq, List.mem_append,
      List.mem_singleton, or_and_right, exists_or, exists_eq_left]
    by_cases ho : s.start = o
    · have hold : ¬ ∃ t ∈ got, keyed P t = (o, b) := by
        rintro ⟨t, ht, heq⟩
        exact hnew t ht ((congrArg Prod.fst heq).trans ho.symm)
      simp only [hold, if_pos ho, false_or]
      simp [keyed, ho]
    · simp [ho, keyed, h.chunks]
  · simp only [PartialIpv6.store, envelopeMore_envelope, envelopeStop_envelope hstart hstop,
      h.total, List.mem_append, List.mem_singleton, or_and_right, exists_or, exists_eq_left]
    by_cases hlast : s.stop = P.length
    · simp [hlast]
    · have hlt : s.stop < P.length := lt_of_le_of_ne hstop hlast
      simp [hlt, hlast]

/-- In order, the chunks are the slices of the tiling that have arrived. -/
theorem Holding.toList_chunks (h : Holding P got p) (htiles : Tiles 0 spans P.length)
    (hsub : got ⊆ spans) :
    p.chunks.toList = (spans.filter (· ∈ got)).map (keyed P) := by
  apply OrderedMap.toList_eq_of_mem_iff
  · refine List.pairwise_map.mpr ((htiles.pairwise.imp_of_mem ?_).filter _)
    intro s t hs _ hst
    have hpos := (htiles.bounds s hs).2.1
    simp only [keyed, Span.stop] at hst ⊢
    omega
  · intro o b
    rw [h.chunks]
    simp only [List.mem_map, List.mem_filter, decide_eq_true_eq]
    constructor
    · rintro ⟨s, hs, heq⟩; exact ⟨s, ⟨hsub hs, hs⟩, heq⟩
    · rintro ⟨s, ⟨-, hs⟩, heq⟩; exact ⟨s, hs, heq⟩

theorem Holding.tryComplete_of_all (h : Holding P got p) (htiles : Tiles 0 spans P.length)
    (hne : spans ≠ []) (hsub : got ⊆ spans) (hall : spans ⊆ got) : p.tryComplete = some P := by
  have hfilter : spans.filter (· ∈ got) = spans := List.filter_eq_self.mpr fun s hs => decide_eq_true (hall hs)
  have hlast : ∃ s ∈ got, s.stop = P.length :=
    ⟨spans.getLast hne, hall (List.getLast_mem hne), htiles.stop_getLast hne⟩
  have hjoin : joinFrom 0 p.chunks.toList = some P := by
    rw [h.toList_chunks htiles hsub, hfilter, joinFrom_keyed P htiles le_rfl]
    simp [slice]
  simp [PartialIpv6.tryComplete, h.total, hlast, hjoin]

theorem Holding.tryComplete_of_missing (h : Holding P got p) (htiles : Tiles 0 spans P.length)
    (hsub : got ⊆ spans) {s : Span} (hs : s ∈ spans) (hmiss : s ∉ got) : p.tryComplete = none := by
  cases hout : p.tryComplete with
  | none => rfl
  | some out =>
    exfalso
    simp only [PartialIpv6.tryComplete, h.total, Option.bind_eq_bind, Option.bind_eq_some_iff] at hout
    obtain ⟨total, htotal, out', hjoin, hlen⟩ := hout
    have htotal : P.length = total := by
      split at htotal
      · simpa using htotal
      · simp at htotal
    have hlen : out'.length = total := by
      split at hlen
      · assumption
      · simp at hlen
    rw [h.toList_chunks htiles hsub] at hjoin
    have hall := eq_of_sublist_of_joinFrom P htiles le_rfl List.filter_sublist hjoin (by omega)
    rw [← hall] at hs
    exact hmiss (by simpa using (List.mem_filter.mp hs).2)

/-- The answer to the envelope of a slice that arrives when `got` have, and what it leaves. -/
theorem accept_envelope (hsmall : P.length ≤ maxReassembledIpv6Packet) (htiles : Tiles 0 spans P.length)
    {r : Ipv6Reassembler} {t : Clock} {s : Span} {todo : List Span}
    (hperm : (got ++ s :: todo).Perm spans) (hkeeps : Keeps id r t (envelope P id s))
    (hprog : Progress P got (r.get? id)) :
    (accept r t (envelope P id s)).1 = (if todo = [] then .complete P else .waiting) ∧
      (todo ≠ [] → Progress P (got ++ [s]) ((accept r t (envelope P id s)).2.get? id)) := by
  have hmem : ∀ u ∈ got ++ s :: todo, u ∈ spans := fun u hu => hperm.mem_iff.mp hu
  obtain ⟨-, hpos, hstop⟩ := htiles.bounds s (hmem s (by simp))
  have hlen : P.length ≤ 1280 := hsmall
  have hstart : s.start < 65536 := by simp only [Span.stop] at hstop; omega
  have hstarts : ((got ++ s :: todo).map Span.start).Nodup :=
    (hperm.map Span.start).nodup_iff.mpr htiles.nodup_starts
  have hnew : ∀ u ∈ got, u.start ≠ s.start := by
    rw [List.map_append, List.nodup_append] at hstarts
    intro u hu
    exact hstarts.2.2 _ (List.mem_map_of_mem hu) _ (by simp)
  have hfits : envelopeStop (envelope P id s) ≤ maxReassembledIpv6Packet := by
    rw [envelopeStop_envelope hstart hstop]
    exact hstop.trans hsmall
  have hid : envelopeId (envelope P id s) = id := carries_envelope.2
  have hsub : got ++ [s] ⊆ spans := by
    intro u hu
    exact hmem u (by simp only [List.mem_append, List.mem_cons] at hu ⊢; tauto)
  have hhold : Holding P (got ++ [s]) (stored (swept r t (envelope P id s)) t.seen (envelope P id s)) := by
    rw [stored, hid, hkeeps.get?_eq]
    exact (hprog.holding t.seen).store t.seen hstart hstop hnew
  rw [accept_of_fits carries_envelope.1 hfits, get?_deliver, hid, if_pos rfl, deliver]
  cases todo with
  | nil =>
    -- nothing is missing any more
    have hall : spans ⊆ got ++ [s] := fun u hu => hperm.mem_iff.mpr hu
    have hne : spans ≠ [] := List.ne_nil_of_mem (hmem s (by simp))
    rw [hhold.tryComplete_of_all htiles hne hsub hall]
    simp
  | cons u todo =>
    have hmiss : u ∉ got ++ [s] := by
      intro hu
      have hnodup : (got ++ s :: u :: todo).Nodup := hstarts.of_map
      rw [show got ++ s :: u :: todo = (got ++ [s]) ++ u :: todo by simp, List.nodup_append] at hnodup
      exact hnodup.2.2 u hu u (by simp) rfl
    rw [hhold.tryComplete_of_missing htiles hsub (hmem u (by simp)) hmiss]
    simp [Progress, hhold]

/-- **Run lemma**: the answers to the envelopes still to come, when `got` have arrived. -/
theorem answers_of_delivery (hsmall : P.length ≤ maxReassembledIpv6Packet)
    (htiles : Tiles 0 spans P.length) {r : Ipv6Reassembler} {as : List Arrival}
    {outs : List Ipv6FragmentOutcome} (hrun : Delivery id r as outs) :
    ∀ got todo : List Span, (got ++ todo).Perm spans → todo ≠ [] →
      carried id as = todo.map (envelope P id) → Progress P got (r.get? id) →
      answers id as outs = List.replicate (todo.length - 1) .waiting ++ [.complete P] := by
  induction hrun with
  | nil r =>
    intro got todo _ hne hcar _
    exact absurd (List.map_eq_nil_iff.mp hcar.symm) hne
  | @cons r r₁ a as outs same keeps rest ih =>
    intro got todo hperm hne hcar hprog
    rw [same.get?] at hprog
    rw [carried_cons] at hcar
    rw [answers_cons]
    by_cases hcarries : Carries id a.datagram
    · rw [if_pos hcarries] at hcar ⊢
      cases todo with
      | nil => exact absurd rfl hne
      | cons s todo =>
        obtain ⟨hd, hrest⟩ := List.cons.inj hcar
        rw [hd] at keeps ih ⊢
        obtain ⟨hout, hnext⟩ := accept_envelope hsmall htiles hperm keeps hprog
        rw [hout]
        cases todo with
        | nil => simp [answers_eq_nil hrest]
        | cons u todo =>
          rw [ih (got ++ [s]) (u :: todo) (by simpa using hperm) (by simp) hrest (hnext (by simp))]
          simp [List.replicate_succ]
    · rw [if_neg hcarries] at hcar ⊢
      refine ih got todo hperm hne hcar ?_
      rw [get?_accept_of_not_carries hcarries, keeps.get?_eq]
      exact hprog

end Packet

/-- **An IPv6 packet cut into envelopes arrives whole**, whatever order the envelopes come in and
whatever else arrives between them. -/
theorem delivery_of_fragmentIpv6Into (P : Bytes) (id : UInt32) (maxSize : ℕ) (hP : P.length ≤ 1280)
    (hlo : 8 < maxSize) (hhi : maxSize < P.length) :
    ∃ envelopes, fragmentIpv6Into P id maxSize = some envelopes ∧
      (∀ e ∈ envelopes, e.length ≤ maxSize) ∧
      ∀ (r : Ipv6Reassembler) (as : List Arrival) (outs : List Ipv6FragmentOutcome),
        id ∉ r → Delivery id r as outs → (carried id as).Perm envelopes →
        answers id as outs = List.replicate (envelopes.length - 1) .waiting ++ [.complete P] := by
  have htiles : Tiles 0 (envelopeSpans P maxSize) P.length :=
    cut_tiles (by simp only [frag6HeaderLen]; omega) _ _ (by omega) (by omega)
  refine ⟨(envelopeSpans P maxSize).map (envelope P id), ?_, ?_, ?_⟩
  · have h1 : ¬ P.length ≤ maxSize := by omega
    have h2 : ¬ maxSize ≤ frag6HeaderLen := by simp only [frag6HeaderLen]; omega
    have h3 : ¬ P.length > 65535 := by omega
    rw [fragmentIpv6Into, if_neg h1, if_neg h2, if_neg h3]
  · intro e he
    obtain ⟨s, hs, rfl⟩ := List.mem_map.mp he
    have hlen := (mem_cut hs).1
    rw [envelope_length (htiles.bounds s hs).2.2]
    simp only [frag6HeaderLen] at hlen ⊢
    omega
  · intro r as outs hfree hrun hperm
    obtain ⟨order, horder, hcar⟩ := exists_perm_of_perm_map (envelope P id) hperm
    have hne : order ≠ [] := by
      rintro rfl
      rw [List.nil_perm.mp horder] at htiles
      simp only [Tiles] at htiles
      omega
    have hnone : r.get? id = none := HashTable.get?_eq_none.mpr hfree
    rw [answers_of_delivery hP htiles hrun [] order (by simpa using horder) hne hcar
      (by simp [Progress, hnone]), List.length_map, horder.length_eq]

/-- Two envelopes of one packet, the second first, and a plain datagram between them. -/
def twoEnvelopes : List Arrival :=
  [⟨⟨0, 1⟩, envelope (List.replicate 18 0x60) 7 ⟨9, 9⟩⟩, ⟨⟨2, 3⟩, [0x45, 0]⟩,
    ⟨⟨4, 5⟩, envelope (List.replicate 18 0x60) 7 ⟨0, 9⟩⟩]

theorem delivery_twoEnvelopes : ∃ outs, Delivery 7 ∅ twoEnvelopes outs ∧
    answers 7 twoEnvelopes outs = [.waiting, .complete (List.replicate 18 0x60)] := by
  obtain ⟨envelopes, hfrag, -, hall⟩ := delivery_of_fragmentIpv6Into (List.replicate 18 0x60) 7 17
    (by decide) (by decide) (by decide)
  have henv : fragmentIpv6Into (List.replicate 18 0x60) 7 17 =
      some [envelope (List.replicate 18 0x60) 7 ⟨0, 9⟩, envelope (List.replicate 18 0x60) 7 ⟨9, 9⟩] := by
    decide
  rw [henv] at hfrag
  obtain rfl := Option.some.inj hfrag
  have hrun : Delivery 7 ∅ twoEnvelopes _ :=
    .cons (List.Perm.refl _) (by decide) (.cons (List.Perm.refl _) (by decide)
      (.cons (List.Perm.refl _) (by decide) (.nil _)))
  exact ⟨_, hrun, hall _ _ _ (by decide) hrun (by decide)⟩

end Tetron.Packet
