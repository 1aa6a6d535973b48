import Mathlib.Data.List.Basic
import Mathlib.Data.Nat.Basic
import Mathlib.Tactic.Ring

/-!
# Cutting a list into consecutive pieces and putting it together again

A loop that walks an offset over `[0, total)` in strides of `step` (`cut`) yields spans that
*tile* the interval (`Tiles`). Three readings of such a tiling are developed:

* the slices of a list at the spans concatenate to the list (`flatMap_slice_of_tiles`);
* walking offset-keyed pieces in ascending order and insisting on no gap (`joinFrom`) recovers
  the list from all of the pieces, and from no proper part of them (`eq_of_sublist_of_joinFrom`);
* writing the pieces into a sparse buffer, in any order, is writing the whole
  (`foldl_overlay`).
-/

namespace Pieces

variable {α : Type*}

/-! ### Spans and the offset loop -/

/-- A half-open range of positions, by its start and its length. -/
structure Span where
  start : ℕ
  len : ℕ
deriving DecidableEq, Repr

/-- The first position behind the span. -/
def Span.stop (s : Span) : ℕ := s.start + s.len

/-- The part of `xs` under a span. -/
def slice (xs : List α) (s : Span) : List α := (xs.drop s.start).take s.len

/-- The spans visited by `while off < total { len = min(step, total - off); …; off += len }`. -/
def cut (step total : ℕ) : ℕ → ℕ → List Span
  | 0, _ => []
  | fuel + 1, off =>
    if off < total then
      ⟨off, min step (total - off)⟩ :: cut step total fuel (off + min step (total - off))
    else []

/-- `Tiles a ss b`: the spans `ss` are nonempty, consecutive, and cover `[a, b)` exactly. -/
def Tiles : ℕ → List Span → ℕ → Prop
  | a, [], b => a = b
  | a, s :: ss, b => s.start = a ∧ 0 < s.len ∧ Tiles (a + s.len) ss b

theorem cut_tiles {step total : ℕ} (hstep : 0 < step) :
    ∀ fuel off : ℕ, off ≤ total → total - off ≤ fuel → Tiles off (cut step total fuel off) total := by
  intro fuel
  induction fuel with
  | zero => intro off hoff hfuel; simp only [cut, Tiles]; omega
  | succ fuel ih =>
    intro off hoff hfuel
    by_cases hlt : off < total
    · simp only [cut, hlt, if_true, Tiles, true_and]
      exact ⟨by omega, ih _ (by omega) (by omega)⟩
    · simp only [cut, hlt, if_false, Tiles]
      omega

/-- What every span of the loop looks like: full strides, but for the one that ends at `total`. -/
theorem mem_cut {step total fuel off : ℕ} {s : Span} (h : s ∈ cut step total fuel off) :
    s.len ≤ step ∧ s.stop ≤ total ∧ (s.stop < total → s.len = step) ∧ ∃ k, s.start = off + k * step := by
  induction fuel generalizing off with
  | zero => simp [cut] at h
  | succ fuel ih =>
    by_cases hlt : off < total
    · simp only [cut, hlt, if_true, List.mem_cons] at h
      rcases h with rfl | h
      · exact ⟨by simp, by simp [Span.stop]; omega, by simp [Span.stop]; omega, 0, by simp⟩
      · obtain ⟨hlen, hstop, hfull, k, hk⟩ := ih h
        refine ⟨hlen, hstop, hfull, ?_⟩
        -- a later span exists, so this one was a full stride
        by_cases hshort : total - off < step
        · have hend : off + min step (total - off) = total := by omega
          rw [hend] at h
          cases fuel <;> simp [cut] at h
        · exact ⟨k + 1, by rw [hk]; have : min step (total - off) = step := by omega
                           rw [this]; ring⟩
    · simp [cut, hlt] at h

theorem dvd_start_of_mem_cut {step total fuel d : ℕ} {s : Span} (hd : d ∣ step)
    (h : s ∈ cut step total fuel 0) : d ∣ s.start := by
  obtain ⟨-, -, -, k, hk⟩ := mem_cut h
  rw [hk, Nat.zero_add]
  exact hd.mul_left k

/-! ### Tilings -/

theorem Tiles.le : ∀ {ss : List Span} {a b : ℕ}, Tiles a ss b → a ≤ b
  | [], _, _, h => le_of_eq h
  | s :: ss, a, b, ⟨_, _, h⟩ => by have := h.le; omega

theorem Tiles.lt_of_ne_nil {ss : List Span} {a b : ℕ} (h : Tiles a ss b) (hne : ss ≠ []) : a < b := by
  cases ss with
  | nil => exact absurd rfl hne
  | cons s ss =>
    obtain ⟨-, hpos, htail⟩ := h
    have := htail.le
    omega

theorem Tiles.bounds : ∀ {ss : List Span} {a b : ℕ}, Tiles a ss b →
    ∀ s ∈ ss, a ≤ s.start ∧ 0 < s.len ∧ s.stop ≤ b
  | [], _, _, _, _, hs => by simp at hs
  | t :: ss, a, b, ⟨hstart, hpos, htail⟩, s, hs => by
      have hle := htail.le
      rcases List.mem_cons.mp hs with rfl | hs
      · refine ⟨by omega, hpos, ?_⟩
        simp only [Span.stop]
        omega
      · obtain ⟨h1, h2, h3⟩ := htail.bounds s hs
        exact ⟨by omega, h2, h3⟩

/-- Spans of a tiling stand in ascending order and do not overlap. -/
theorem Tiles.pairwise : ∀ {ss : List Span} {a b : ℕ}, Tiles a ss b →
    ss.Pairwise (fun s t => s.stop ≤ t.start)
  | [], _, _, _ => List.Pairwise.nil
  | s :: ss, a, b, ⟨hstart, hpos, htail⟩ => by
      refine List.Pairwise.cons (fun t ht => ?_) htail.pairwise
      have := (htail.bounds t ht).1
      simp only [Span.stop]
      omega

theorem Tiles.nodup_starts {ss : List Span} {a b : ℕ} (h : Tiles a ss b) :
    (ss.map Span.start).Nodup := by
  refine List.pairwise_map.mpr (h.pairwise.imp_of_mem fun {s t} hs _ hst => ?_)
  have hpos := (h.bounds s hs).2.1
  simp only [Span.stop] at hst
  omega

/-- Every position of the interval lies under a span. -/
theorem Tiles.exists_mem : ∀ {ss : List Span} {a b : ℕ}, Tiles a ss b →
    ∀ i, a ≤ i → i < b → ∃ s ∈ ss, s.start ≤ i ∧ i < s.stop
  | [], a, b, h, i, ha, hb => by simp only [Tiles] at h; omega
  | s :: ss, a, b, ⟨hstart, hpos, htail⟩, i, ha, hb => by
      by_cases hi : i < a + s.len
      · exact ⟨s, by simp, by omega, by simp only [Span.stop]; omega⟩
      · obtain ⟨t, ht, h⟩ := htail.exists_mem i (by omega) hb
        exact ⟨t, by simp [ht], h⟩

/-- The last span of a tiling reaches its end. -/
theorem Tiles.stop_getLast : ∀ {ss : List Span} {a b : ℕ}, Tiles a ss b → ∀ (hne : ss ≠ []),
    (ss.getLast hne).stop = b
  | [s], a, b, ⟨hstart, _, hend⟩, _ => by
      simp only [Tiles] at hend
      simp only [List.getLast_singleton, Span.stop]
      omega
  | s :: t :: ss, a, b, ⟨_, _, htail⟩, _ => by
      rw [List.getLast_cons (by simp)]
      exact htail.stop_getLast (by simp)

/-! ### Slices -/

theorem length_slice (xs : List α) (s : Span) (h : s.stop ≤ xs.length) :
    (slice xs s).length = s.len := by
  simp only [Span.stop] at h
  simp only [slice, List.length_take, List.length_drop]
  omega

theorem getElem?_slice (xs : List α) (s : Span) (i : ℕ) :
    (slice xs s)[i]? = if i < s.len then xs[s.start + i]? else none := by
  simp [slice, List.getElem?_take, List.getElem?_drop]

theorem flatMap_slice_of_tiles (xs : List α) : ∀ {ss : List Span} {a b : ℕ}, Tiles a ss b →
    ss.flatMap (slice xs) = slice xs ⟨a, b - a⟩
  | [], a, b, h => by simp only [Tiles] at h; simp [slice, h]
  | s :: ss, a, b, ⟨hstart, hpos, htail⟩ => by
      have hle := htail.le
      rw [List.flatMap_cons, flatMap_slice_of_tiles xs htail]
      have hsplit : b - a = s.len + (b - (a + s.len)) := by omega
      simp only [slice, hstart]
      rw [hsplit, List.take_add, List.drop_drop]

/-! ### Joining offset-keyed pieces -/

/-- Concatenate pieces that continue each other from position `pos`; a gap or an overlap is
refused. -/
def joinFrom : ℕ → List (ℕ × List α) → Option (List α)
  | _, [] => some []
  | pos, (off, xs) :: rest =>
    if off ≠ pos then none else (joinFrom (pos + xs.length) rest).map (xs ++ ·)

/-- The keyed piece of `xs` under a span. -/
def keyed (xs : List α) (s : Span) : ℕ × List α := (s.start, slice xs s)

theorem joinFrom_keyed (xs : List α) : ∀ {ss : List Span} {a b : ℕ}, Tiles a ss b →
    b ≤ xs.length → joinFrom a (ss.map (keyed xs)) = some (slice xs ⟨a, b - a⟩)
  | [], a, b, h, _ => by simp only [Tiles] at h; simp [joinFrom, slice, h]
  | s :: ss, a, b, htiles, hb => by
      have hlen : (slice xs s).length = s.len :=
        length_slice xs s (((htiles.bounds s (by simp)).2.2).trans hb)
      rw [← flatMap_slice_of_tiles xs htiles, List.flatMap_cons]
      obtain ⟨hstart, -, htail⟩ := htiles
      simp only [List.map_cons, keyed, joinFrom, hstart, ne_eq, not_true_eq_false, if_false, hlen]
      rw [flatMap_slice_of_tiles xs htail]
      exact congrArg (Option.map (slice xs s ++ ·)) (joinFrom_keyed xs htail hb)

/-- Pieces that join gap-free up to the end of the tiling are all of its pieces. -/
theorem eq_of_sublist_of_joinFrom (xs : List α) {out : List α} : ∀ {ss sub : List Span} {a b : ℕ},
    Tiles a ss b → b ≤ xs.length → sub.Sublist ss →
    joinFrom a (sub.map (keyed xs)) = some out → a + out.length = b → sub = ss := by
  intro ss
  induction ss generalizing out with
  | nil => intro sub a b _ _ hsub _ _; exact List.sublist_nil.mp hsub
  | cons s ss ih =>
    intro sub a b htiles hb hsub hjoin hlen
    have hab : a < b := htiles.lt_of_ne_nil (by simp)
    have hslice : (slice xs s).length = s.len :=
      length_slice xs s (((htiles.bounds s (by simp)).2.2).trans hb)
    obtain ⟨hstart, hpos, htail⟩ := htiles
    cases hsub with
    | cons _ hsub =>
      -- the first piece is missing, so what is left starts behind a gap
      cases sub with
      | nil =>
        simp only [List.map_nil, joinFrom, Option.some.injEq] at hjoin
        subst hjoin
        simp only [List.length_nil] at hlen
        omega
      | cons t sub =>
        have ht := (htail.bounds t (hsub.subset (by simp))).1
        have hgap : t.start ≠ a := by omega
        simp [joinFrom, keyed, hgap] at hjoin
    | cons_cons _ hsub =>
      rename_i sub
      simp only [List.map_cons, keyed, joinFrom, hstart, ne_eq, not_true_eq_false, if_false,
        hslice, Option.map_eq_some_iff] at hjoin
      obtain ⟨rest, hrest, rfl⟩ := hjoin
      rw [List.length_append, hslice] at hlen
      rw [ih htail hb hsub hrest (by omega)]

/-- Whichever pieces of `xs` join, they join to the part of `xs` they begin at. -/
theorem eq_slice_of_joinFrom (xs : List α) {l : List (ℕ × List α)} {pos : ℕ} {out : List α}
    (hjoin : joinFrom pos l = some out) (hl : ∀ x ∈ l, ∃ s : Span, s.stop ≤ xs.length ∧ x = keyed xs s) :
    out = slice xs ⟨pos, out.length⟩ := by
  induction l generalizing pos out with
  | nil =>
    obtain rfl := Option.some.inj hjoin
    simp [slice]
  | cons x l ih =>
    obtain ⟨s, hstop, rfl⟩ := hl x List.mem_cons_self
    by_cases hstart : s.start = pos
    · simp only [keyed, joinFrom, hstart, ne_eq, not_true_eq_false, if_false,
        Option.map_eq_some_iff] at hjoin
      obtain ⟨rest, hrest, rfl⟩ := hjoin
      have hrest := ih hrest fun y hy => hl y (List.mem_cons_of_mem _ hy)
      rw [length_slice xs s hstop] at hrest
      rw [List.length_append, length_slice xs s hstop]
      conv_lhs => rw [hrest]
      simp only [slice, hstart]
      rw [List.take_add, List.drop_drop]
    · simp [keyed, joinFrom, hstart] at hjoin

/-- A rearrangement of mapped pieces is the map of a rearrangement. -/
theorem exists_perm_of_perm_map {β : Type*} (f : α → β) {l : List α} {m : List β}
    (h : m.Perm (l.map f)) : ∃ l' : List α, l'.Perm l ∧ m = l'.map f := by
  generalize hn : l.map f = n at h
  induction h generalizing l with
  | nil => exact ⟨[], by simp_all, rfl⟩
  | cons b _ ih =>
    obtain ⟨a, l, rfl, rfl, hl⟩ := List.map_eq_cons_iff.mp hn
    obtain ⟨l', hperm, rfl⟩ := ih hl
    exact ⟨a :: l', hperm.cons a, rfl⟩
  | swap b c _ =>
    obtain ⟨a, l, rfl, rfl, hl⟩ := List.map_eq_cons_iff.mp hn
    obtain ⟨a', l, rfl, rfl, rfl⟩ := List.map_eq_cons_iff.mp hl
    exact ⟨a' :: a :: l, List.Perm.swap a a' l, rfl⟩
  | trans _ _ ih₁ ih₂ =>
    obtain ⟨l₂, hperm₂, rfl⟩ := ih₂ hn
    obtain ⟨l₁, hperm₁, rfl⟩ := ih₁ rfl
    exact ⟨l₁, hperm₁.trans hperm₂, rfl⟩

/-! ### Writing pieces into a buffer -/

section Overlay

variable {κ β : Type*}

/-- Write the partial contents `w` over a sparse buffer. -/
def overlay (buf w : κ → Option β) : κ → Option β := fun k => (w k).or (buf k)

/-- The writes `ws` say together what `w` says: no more, no less and nothing else. -/
def Covers (ws : List (κ → Option β)) (w : κ → Option β) : Prop :=
  ∀ k v, w k = some v ↔ ∃ p ∈ ws, p k = some v

theorem Covers.perm {ws ws' : List (κ → Option β)} {w : κ → Option β} (h : Covers ws w)
    (hp : ws.Perm ws') : Covers ws' w := by
  intro k v
  simp only [h k v, hp.mem_iff]

theorem covers_singleton (w : κ → Option β) : Covers [w] w := by
  intro k v
  simp

/-- Covering is transitive: pieces may be replaced by pieces of their own. -/
theorem Covers.flatMap {ι : Type*} {is : List ι} {p : ι → κ → Option β} {w : κ → Option β}
    {parts : ι → List (κ → Option β)} (h : Covers (is.map p) w)
    (hparts : ∀ i ∈ is, Covers (parts i) (p i)) : Covers (is.flatMap parts) w := by
  intro k v
  rw [h k v]
  simp only [List.mem_map, List.mem_flatMap]
  constructor
  · rintro ⟨_, ⟨i, hi, rfl⟩, hv⟩
    obtain ⟨q, hq, hqv⟩ := (hparts i hi k v).mp hv
    exact ⟨q, ⟨i, hi, hq⟩, hqv⟩
  · rintro ⟨q, ⟨i, hi, hq⟩, hqv⟩
    exact ⟨p i, ⟨i, hi, rfl⟩, (hparts i hi k v).mpr ⟨q, hq, hqv⟩⟩

theorem foldl_overlay_apply (k : κ) (w : κ → Option β) : ∀ (ws : List (κ → Option β)) (buf : κ → Option β),
    (∀ p ∈ ws, ∀ v, p k = some v → w k = some v) →
    ws.foldl overlay buf k = if ∃ p ∈ ws, (p k).isSome then w k else buf k := by
  intro ws
  induction ws with
  | nil => intro buf _; simp
  | cons p ws ih =>
    intro buf hsub
    rw [List.foldl_cons, ih _ (fun q hq => hsub q (by simp [hq]))]
    cases hp : p k with
    | none => simp [overlay, hp]
    | some v => simp [overlay, hp, hsub p (by simp) v hp]

/-- **Order does not matter**: pieces that cover `w` write `w`, whatever order they come in. -/
theorem foldl_overlay {ws : List (κ → Option β)} {w : κ → Option β} (h : Covers ws w)
    (buf : κ → Option β) : ws.foldl overlay buf = overlay buf w := by
  funext k
  rw [foldl_overlay_apply k w ws buf (fun p hp v hv => (h k v).mpr ⟨p, hp, hv⟩)]
  cases hw : w k with
  | none =>
    have hnone : ¬ ∃ p ∈ ws, (p k).isSome := by
      rintro ⟨p, hp, hsome⟩
      obtain ⟨v, hv⟩ := Option.isSome_iff_exists.mp hsome
      have := (h k v).mpr ⟨p, hp, hv⟩
      simp [hw] at this
    simp [overlay, hw, hnone]
  | some v =>
    obtain ⟨p, hp, hv⟩ := (h k v).mp hw
    have hsome : ∃ p ∈ ws, (p k).isSome := ⟨p, hp, by simp [hv]⟩
    simp [overlay, hw, hsome]

end Overlay

/-! ### Room for pieces -/

section Room

variable {l : List (ℕ × List α)} {a limit : ℕ}

theorem add_sum_length_le (ha : a ≤ limit) (hapart : l.Pairwise fun x y => x.1 + x.2.length ≤ y.1)
    (hfrom : ∀ x ∈ l, a ≤ x.1) (hto : ∀ x ∈ l, x.1 + x.2.length ≤ limit) :
    a + (l.map fun x => x.2.length).sum ≤ limit := by
  induction l generalizing a with
  | nil => exact ha
  | cons x l ih =>
    obtain ⟨hnext, hapart⟩ := List.pairwise_cons.mp hapart
    obtain ⟨hx, hto⟩ := List.forall_mem_cons.mp hto
    have hrest := ih hx hapart hnext hto
    have hfirst := hfrom x List.mem_cons_self
    rw [List.map_cons, List.sum_cons]
    omega

/-- Pieces in ascending order that do not overlap have room below `limit`. -/
theorem sum_length_le_of_apart (hapart : l.Pairwise fun x y => x.1 + x.2.length ≤ y.1)
    (hto : ∀ x ∈ l, x.1 + x.2.length ≤ limit) : (l.map fun x => x.2.length).sum ≤ limit := by
  have hsum := add_sum_length_le (Nat.zero_le limit) hapart (fun _ _ => Nat.zero_le _) hto
  rwa [Nat.zero_add] at hsum

end Room

end Pieces
