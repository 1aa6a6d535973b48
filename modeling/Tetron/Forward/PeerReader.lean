import Tetron.Lib.Run
import Tetron.Packet.FragmentV6
import Tetron.Packet.Parse

/-!
# The peer reader

The loop of `spawn_peer_reader`: a datagram read from a peer's connection goes through the
connection's own reassembler and then through `evaluate_inbound`; what is accepted is handed to
the TUN writer. The chunks a reassembler holds are payloads of envelopes that arrived on its
connection (`Sourced`), so whatever the reader hands over is either a datagram of the connection or
joined from such payloads (`reader_hands_over`).
-/

namespace Tetron.Forward

open Packet Pieces Ipv6Reassembler

/-- `MAX_PEER_DATAGRAM`. -/
def maxPeerDatagram : ℕ := 1500

inductive InboundDecision where
  | accept
  | dropMalformed
  | dropSpoof
deriving DecidableEq, Repr

def evaluateInbound (datagram : Bytes) (peerIp : Ipv4Addr) (peerIpv6 : Ipv6Addr) : InboundDecision :=
  if datagram.length > maxPeerDatagram then .dropMalformed
  else
    match parsePacketInfo datagram with
    | none => .dropMalformed
    | some info =>
      let srcOk : Bool :=
        match info.srcIp with
        | .v4 v4 => v4 = peerIp
        | .v6 v6 => v6 = peerIpv6
      if srcOk = false then .dropSpoof else .accept

/-- The reasons packets are counted by that are not forwarded, in either direction. -/
inductive DropReason where
  | sendFailure
  | noPeer
  | malformed
  | backpressure
  | spoof
  | fragmentationFailed
deriving DecidableEq, Repr

/-- What one turn of the loop does with a datagram. -/
inductive Verdict where
  | toTun (packet : Bytes)
  | drop (reason : DropReason)
  | wait
deriving DecidableEq, Repr

def judge (peerIp : Ipv4Addr) (peerIpv6 : Ipv6Addr) (packet : Bytes) : Verdict :=
  match evaluateInbound packet peerIp peerIpv6 with
  | .accept => .toTun packet
  | .dropMalformed => .drop .malformed
  | .dropSpoof => .drop .spoof

/-- One turn of the loop in `spawn_peer_reader`. -/
def turn (peerIp : Ipv4Addr) (peerIpv6 : Ipv6Addr) (r : Ipv6Reassembler) (t : Clock) (datagram : Bytes) :
    Verdict × Ipv6Reassembler :=
  let result := Ipv6Reassembler.accept r t datagram
  match result.1 with
  | .notAFragment => (judge peerIp peerIpv6 datagram, result.2)
  | .complete full => (judge peerIp peerIpv6 full, result.2)
  | .waiting => (.wait, result.2)
  | .rejected => (.drop .malformed, result.2)

/-- A reader: its reassembler, and what it has handed to the TUN writer. -/
structure Reader where
  reassembler : Ipv6Reassembler
  tun : List Bytes

def Reader.new : Reader := ⟨Ipv6Reassembler.new, []⟩

/-- The packet a verdict hands over, if any. -/
def Verdict.handed : Verdict → List Bytes
  | .toTun p => [p]
  | .drop _ => []
  | .wait => []

/-- Reading the datagram `d` at clock readings `t`, with the reassembler's table in any order. -/
inductive ReadStep (peerIp : Ipv4Addr) (peerIpv6 : Ipv6Addr) : Reader → Bytes → Reader → Prop
  | read {s : Reader} {r : Ipv6Reassembler} (same : HashTable.Same s.reassembler r) (t : Clock)
      (d : Bytes) : ReadStep peerIp peerIpv6 s d
        ⟨(turn peerIp peerIpv6 r t d).2, s.tun ++ (turn peerIp peerIpv6 r t d).1.handed⟩

/-! ### Where reassembled bytes come from -/

/-- The envelopes continue each other from position `pos` on. -/
def Contiguous : ℕ → List Bytes → Prop
  | _, [] => True
  | pos, e :: es => envelopeOffset e = pos ∧ Contiguous (pos + (envelopePayload e).length) es

/-- `packet` is the gap-free concatenation of payloads of envelopes of one set among `ds`. -/
def JoinedFrom (ds : List Bytes) (packet : Bytes) : Prop :=
  ∃ id es, (∀ e ∈ es, e ∈ ds ∧ Carries id e) ∧ Contiguous 0 es ∧ packet = es.flatMap envelopePayload

/-- Every chunk is the payload of an envelope among `ds`, at that envelope's offset. -/
def Sourced (ds : List Bytes) (r : Ipv6Reassembler) : Prop :=
  ∀ id p, r.get? id = some p → ∀ o b, p.chunks[o]? = some b →
    ∃ d ∈ ds, Carries id d ∧ envelopeOffset d = o ∧ envelopePayload d = b

/-- The chunk an envelope leaves. -/
def chunkOf (e : Bytes) : ℕ × Bytes := (envelopeOffset e, envelopePayload e)

theorem exists_map_chunkOf {Q : Bytes → Prop} {l : List (ℕ × Bytes)} (h : ∀ x ∈ l, ∃ d, Q d ∧ chunkOf d = x) :
    ∃ es : List Bytes, es.map chunkOf = l ∧ ∀ e ∈ es, Q e := by
  induction l with
  | nil => exact ⟨[], rfl, by simp⟩
  | cons x l ih =>
    obtain ⟨d, hQ, rfl⟩ := h x List.mem_cons_self
    obtain ⟨es, rfl, hes⟩ := ih fun y hy => h y (List.mem_cons_of_mem _ hy)
    exact ⟨d :: es, rfl, List.forall_mem_cons.mpr ⟨hQ, hes⟩⟩

/-- Chunks that join belong to envelopes that continue each other. -/
theorem contiguous_of_joinFrom_map {es : List Bytes} {pos : ℕ} {out : Bytes}
    (h : joinFrom pos (es.map chunkOf) = some out) : Contiguous pos es ∧ out = es.flatMap envelopePayload := by
  induction es generalizing pos out with
  | nil => exact ⟨trivial, (Option.some.inj h).symm⟩
  | cons e es ih =>
    rw [List.map_cons, chunkOf, joinFrom] at h
    split at h
    · cases h
    · rename_i hpos
      obtain ⟨rest, hrest, rfl⟩ := Option.map_eq_some_iff.mp h
      obtain ⟨hcont, rfl⟩ := ih hrest
      exact ⟨⟨not_not.mp hpos, hcont⟩, rfl⟩

theorem contiguous_of_joinFrom {Q : Bytes → Prop} {l : List (ℕ × Bytes)} {pos : ℕ} {out : Bytes}
    (hjoin : joinFrom pos l = some out)
    (hl : ∀ x ∈ l, ∃ d, Q d ∧ envelopeOffset d = x.1 ∧ envelopePayload d = x.2) :
    ∃ es, (∀ e ∈ es, Q e) ∧ Contiguous pos es ∧ out = es.flatMap envelopePayload := by
  obtain ⟨es, rfl, hes⟩ := exists_map_chunkOf fun x hx => by
    obtain ⟨d, hQ, hoff, hpay⟩ := hl x hx
    exact ⟨d, hQ, Prod.ext hoff hpay⟩
  exact ⟨es, hes, contiguous_of_joinFrom_map hjoin⟩

section Accept

variable {ds : List Bytes} {r : Ipv6Reassembler} {t : Clock} {d : Bytes}

theorem Sourced.same {r₁ : Ipv6Reassembler} (h : Sourced ds r) (same : HashTable.Same r r₁) :
    Sourced ds r₁ := by
  intro id p hp
  rw [← same.get?] at hp
  exact h id p hp

theorem Sourced.mono {ds' : List Bytes} (h : Sourced ds r) (hsub : ds ⊆ ds') : Sourced ds' r := by
  intro id p hp o b hb
  obtain ⟨e, he, hcar⟩ := h id p hp o b hb
  exact ⟨e, hsub he, hcar⟩

/-- The chunks of the stored entry are those it had and the datagram's own. -/
theorem chunk_stored (h : Sourced ds r) (henv : IsEnvelope d) {now : Instant} {o : ℕ} {b : Bytes}
    (hb : (stored r now d).chunks[o]? = some b) :
    ∃ e ∈ ds ++ [d], Carries (envelopeId d) e ∧ envelopeOffset e = o ∧ envelopePayload e = b := by
  simp only [stored, PartialIpv6.store, Std.ExtTreeMap.getElem?_insert,
    Std.LawfulEqCmp.compare_eq_iff_eq] at hb
  split at hb
  · rename_i ho
    exact ⟨d, by simp, ⟨henv, rfl⟩, ho, Option.some.inj hb⟩
  · cases hentry : r.get? (envelopeId d) with
    | none => simp [hentry, PartialIpv6.fresh] at hb
    | some p =>
      rw [hentry] at hb
      obtain ⟨e, he, hcar⟩ := h _ p hentry o b hb
      exact ⟨e, by simp [he], hcar⟩

/-- **Step lemma**: a call of `accept` stores nothing but the datagram's payload. -/
theorem Sourced.accept (h : Sourced ds r) : Sourced (ds ++ [d]) (accept r t d).2 := by
  intro id p hp o b hb
  rcases get?_accept_eq_some hp with ⟨⟨henv, rfl⟩, -, rfl⟩ | ⟨-, hp⟩
  · exact chunk_stored (fun k q hq => h k q (get?_swept hq)) henv hb
  · obtain ⟨e, he, hsrc⟩ := h id p (get?_swept hp) o b hb
    exact ⟨e, by simp [he], hsrc⟩

/-- A packet is completed by an envelope that fits, and by the entry this is stored in. -/
theorem accept_eq_complete {full : Bytes} (hacc : (Ipv6Reassembler.accept r t d).1 = .complete full) :
    IsEnvelope d ∧ envelopeStop d ≤ maxReassembledIpv6Packet ∧
      (stored (swept r t d) t.seen d).tryComplete = some full := by
  by_cases henv : IsEnvelope d
  · by_cases hfits : envelopeStop d ≤ maxReassembledIpv6Packet
    · rw [accept_of_fits henv hfits, deliver] at hacc
      split at hacc
      · rename_i full' hfull
        cases hacc
        exact ⟨henv, hfits, hfull⟩
      · cases hacc
    · rw [accept_of_oversized henv (not_le.mp hfits)] at hacc
      cases hacc
  · rw [accept_of_not_isEnvelope henv] at hacc
    dsimp only at hacc
    split at hacc <;> cases hacc

theorem tryComplete_eq_some {p : PartialIpv6} {full : Bytes} (h : p.tryComplete = some full) :
    p.totalLen = some full.length ∧ joinFrom 0 p.chunks.toList = some full := by
  simp only [PartialIpv6.tryComplete, Option.bind_eq_bind, Option.bind_eq_some_iff] at h
  obtain ⟨total, htotal, out, hjoin, hlen⟩ := h
  split at hlen
  · rename_i hout
    obtain rfl := Option.some.inj hlen
    exact ⟨hout ▸ htotal, hjoin⟩
  · cases hlen

/-- A completed packet is joined from payloads that arrived. -/
theorem joinedFrom_of_complete (h : Sourced ds r) {full : Bytes}
    (hacc : (Ipv6Reassembler.accept r t d).1 = .complete full) : JoinedFrom (ds ++ [d]) full := by
  obtain ⟨henv, -, hfull⟩ := accept_eq_complete hacc
  have hsrc : Sourced ds (swept r t d) := fun k q hq => h k q (get?_swept hq)
  obtain ⟨es, hes, hcont, hout⟩ := contiguous_of_joinFrom (tryComplete_eq_some hfull).2 fun x hx => by
    obtain ⟨e, he, hcar, hx'⟩ := chunk_stored hsrc henv (Std.ExtTreeMap.mem_toList_iff_getElem?_eq_some.mp hx)
    exact ⟨e, And.intro he hcar, hx'⟩
  exact ⟨envelopeId d, es, hes, hcont, hout⟩

end Accept

/-! ### What reaches the TUN -/

section Inbound

variable {peerIp : Ipv4Addr} {peerIpv6 : Ipv6Addr} {p d : Bytes} {r : Ipv6Reassembler} {t : Clock}

theorem evaluateInbound_eq_accept (h : evaluateInbound p peerIp peerIpv6 = .accept) :
    p.length ≤ maxPeerDatagram ∧ (IsIpv4From peerIp p ∨ IsIpv6From peerIpv6 p) := by
  unfold evaluateInbound at h
  split at h
  · cases h
  rename_i hlen
  split at h
  · cases h
  rename_i info hparse
  refine ⟨not_lt.mp hlen, ?_⟩
  rcases isIpv4_or_isIpv6_of_parse hparse with ⟨src, hsrc, hfrom⟩ | ⟨src, hsrc, hfrom⟩
  · simp only [hsrc] at h
    split at h
    · cases h
    · rename_i hok
      have heq : src = peerIp := by simpa using hok
      exact Or.inl (heq ▸ hfrom)
  · simp only [hsrc] at h
    split at h
    · cases h
    · rename_i hok
      have heq : src = peerIpv6 := by simpa using hok
      exact Or.inr (heq ▸ hfrom)

/-- The magic byte's upper nibble is no IP version. -/
theorem head_ne_frag6Magic (h : IsIpv4From peerIp p ∨ IsIpv6From peerIpv6 p) :
    p.head? ≠ some frag6Magic := by
  intro hhead
  have hbyte : byteAt p 0 = frag6Magic := by
    cases p with
    | nil => cases hhead
    | cons b rest => exact Option.some.inj hhead
  have hver : ipVersion p = 15 := by rw [ipVersion, hbyte]; decide
  rcases h with h | h
  · exact absurd (hver.symm.trans h.version) (by decide)
  · exact absurd (hver.symm.trans h.version) (by decide)

/-- A turn hands over the datagram itself or a packet its reassembler completed. -/
theorem mem_handed_turn (h : p ∈ (turn peerIp peerIpv6 r t d).1.handed) :
    evaluateInbound p peerIp peerIpv6 = .accept ∧
      (p = d ∨ (Ipv6Reassembler.accept r t d).1 = .complete p) := by
  have hjudge : ∀ q, p ∈ (judge peerIp peerIpv6 q).handed →
      p = q ∧ evaluateInbound p peerIp peerIpv6 = .accept := by
    intro q hq
    unfold judge at hq
    split at hq
    · rename_i hdec
      obtain rfl := List.mem_singleton.mp hq
      exact ⟨rfl, hdec⟩
    · cases hq
    · cases hq
  unfold turn at h
  cases hacc : (Ipv6Reassembler.accept r t d).1 with
  | notAFragment =>
    simp only [hacc] at h
    exact ⟨(hjudge d h).2, Or.inl (hjudge d h).1⟩
  | complete full =>
    simp only [hacc] at h
    exact ⟨(hjudge full h).2, Or.inr (by rw [(hjudge full h).1])⟩
  | waiting => simp [hacc, Verdict.handed] at h
  | rejected => simp [hacc, Verdict.handed] at h

theorem turn_snd : (turn peerIp peerIpv6 r t d).2 = (Ipv6Reassembler.accept r t d).2 := by
  unfold turn
  dsimp only
  split <;> rfl

end Inbound

/-- What may be said of a packet handed over when `ds` have been read. -/
structure HandedOver (peerIp : Ipv4Addr) (peerIpv6 : Ipv6Addr) (ds : List Bytes) (p : Bytes) : Prop where
  length_le : p.length ≤ 1500
  source : IsIpv4From peerIp p ∨ IsIpv6From peerIpv6 p
  origin : p ∈ ds ∨ JoinedFrom ds p
  not_envelope : p.head? ≠ some frag6Magic

theorem HandedOver.mono {peerIp : Ipv4Addr} {peerIpv6 : Ipv6Addr} {ds ds' : List Bytes} {p : Bytes}
    (h : HandedOver peerIp peerIpv6 ds p) (hsub : ds ⊆ ds') : HandedOver peerIp peerIpv6 ds' p := by
  refine ⟨h.length_le, h.source, ?_, h.not_envelope⟩
  rcases h.origin with hin | ⟨id, es, hes, hjoin⟩
  · exact Or.inl (hsub hin)
  · exact Or.inr ⟨id, es, fun e he => ⟨hsub (hes e he).1, (hes e he).2⟩, hjoin⟩

/-- **Everything a reader hands to the TUN writer**, over every sequence of datagrams. -/
theorem reader_hands_over (peerIp : Ipv4Addr) (peerIpv6 : Ipv6Addr) {ds : List Bytes} {s : Reader}
    (hrun : Run (ReadStep peerIp peerIpv6) (fun _ _ => True) Reader.new ds s) :
    ∀ p ∈ s.tun, HandedOver peerIp peerIpv6 ds p := by
  suffices hinv : Sourced ds s.reassembler ∧ ∀ p ∈ s.tun, HandedOver peerIp peerIpv6 ds p from hinv.2
  refine hrun.invariant (I := fun ds s => Sourced ds s.reassembler ∧
    ∀ p ∈ s.tun, HandedOver peerIp peerIpv6 ds p)
    ⟨fun id p hp => by simp [Reader.new, Ipv6Reassembler.new] at hp, by simp [Reader.new]⟩ ?_
  rintro ds s d _ ⟨hsrc, htun⟩ - ⟨same, t, _⟩
  have hsrc := hsrc.same same
  refine ⟨?_, fun p hp => ?_⟩
  · rw [turn_snd]
    exact hsrc.accept
  · rcases List.mem_append.mp hp with hp | hp
    · exact (htun p hp).mono (by simp)
    · obtain ⟨hdec, horigin⟩ := mem_handed_turn hp
      obtain ⟨hlen, hfrom⟩ := evaluateInbound_eq_accept hdec
      refine ⟨hlen, hfrom, ?_, head_ne_frag6Magic hfrom⟩
      rcases horigin with rfl | hacc
      · exact Or.inl (by simp)
      · exact Or.inr (joinedFrom_of_complete hsrc hacc)

/-- A bare IPv4 header from 10.88.0.2, after a nested envelope that goes nowhere. -/
theorem reader_hands_over_header :
    ∃ s, Run (ReadStep 0x0A580002 0) (fun _ _ => True) Reader.new
        [envelope (envelope [0x60] 1 ⟨0, 1⟩) 2 ⟨0, 9⟩,
          [0x45, 0, 0, 20, 0, 0, 0, 0, 64, 6, 0, 0, 10, 88, 0, 2, 10, 88, 0, 3]] s ∧
      s.tun = [[0x45, 0, 0, 20, 0, 0, 0, 0, 64, 6, 0, 0, 10, 88, 0, 2, 10, 88, 0, 3]] ∧
      ∀ p ∈ s.tun, HandedOver 0x0A580002 0
        [envelope (envelope [0x60] 1 ⟨0, 1⟩) 2 ⟨0, 9⟩,
          [0x45, 0, 0, 20, 0, 0, 0, 0, 64, 6, 0, 0, 10, 88, 0, 2, 10, 88, 0, 3]] p := by
  have h1 : ReadStep 0x0A580002 0 Reader.new (envelope (envelope [0x60] 1 ⟨0, 1⟩) 2 ⟨0, 9⟩) _ :=
    .read (List.Perm.refl _) ⟨0, 0⟩ _
  have hrun := (Run.nil.snoc trivial h1).snoc (C := fun _ _ => True) trivial
    (.read (List.Perm.refl _) ⟨0, 0⟩
      [0x45, 0, 0, 20, 0, 0, 0, 0, 64, 6, 0, 0, 10, 88, 0, 2, 10, 88, 0, 3])
  exact ⟨_, hrun, by decide, reader_hands_over _ _ hrun⟩

end Tetron.Forward
