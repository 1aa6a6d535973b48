import Mathlib.Algebra.BigOperators.Group.List.Basic
import Mathlib.Algebra.GroupWithZero.Nat
import Mathlib.Algebra.Order.Group.Nat

/-!
# Walks with a time budget

A walk tries the items of a list one after the other until one yields something, and starts no further item once its
budget has passed. The first item is tried whatever the budget. What an attempt does, and how long it takes, is up to
the environment: `attempt` may be any function, and an attempt may never end.

`Walk.spec` says how a walk that ends has ended, `Walk.took_lt` how long it took, and `Walk.found_iff` which items can
be reached at all.
-/

/-- Something that is awaited: it never comes, or it comes after some time. -/
abbrev Awaited (α : Type*) := Option (ℕ × α)

namespace Awaited

variable {α β : Type*}

/-- Wait for at most `limit`. What comes at the limit is still in time. -/
def timeout (limit : ℕ) : Awaited α → ℕ × Option α
  | none => (limit, none)
  | some (t, a) => if t ≤ limit then (t, some a) else (limit, none)

theorem timeout_le (limit : ℕ) (f : Awaited α) : (f.timeout limit).1 ≤ limit := by
  cases f with
  | none => exact le_rfl
  | some p =>
    rw [timeout]
    split
    · assumption
    · exact le_rfl

theorem timeout_eq_some {limit : ℕ} {f : Awaited α} {a : α} :
    (f.timeout limit).2 = some a ↔ ∃ t ≤ limit, f = some (t, a) := by
  cases f with
  | none => simp [timeout]
  | some p =>
    obtain ⟨t, b⟩ := p
    rw [timeout]
    split
    · simp_all
    · constructor
      · intro h
        cases h
      · rintro ⟨t', hle, heq⟩
        cases heq
        contradiction

end Awaited

/-- What a walk has tried, what it has found and how long it took. -/
structure Walk (α β : Type*) where
  tried : List α
  found : Option β
  took : ℕ

namespace Walk

variable {α β : Type*} {budget : ℕ} {attempt : α → Awaited (Option β)} {items : List α} {w : Walk α β}

/-- The walk from an item on, with the time that has passed and whether an item has been tried. -/
def runFrom (budget : ℕ) (attempt : α → Awaited (Option β)) : ℕ → Bool → List α → Option (Walk α β)
  | elapsed, _, [] => some ⟨[], none, elapsed⟩
  | elapsed, started, a :: rest =>
    if started ∧ budget ≤ elapsed then some ⟨[], none, elapsed⟩
    else
      match attempt a with
      | none => none
      | some (t, some b) => some ⟨[a], some b, elapsed + t⟩
      | some (t, none) =>
        (runFrom budget attempt (elapsed + t) true rest).map fun w => { w with tried := a :: w.tried }

def run (budget : ℕ) (attempt : α → Awaited (Option β)) (items : List α) : Option (Walk α β) :=
  runFrom budget attempt 0 false items

/-- The item yields nothing. -/
def Fails (attempt : α → Awaited (Option β)) (a : α) : Prop := ∃ t, attempt a = some (t, none)

/-- How long the attempts on some items take. -/
def total (attempt : α → Awaited (Option β)) (items : List α) : ℕ :=
  (items.map fun a => (attempt a).elim 0 Prod.fst).sum

@[simp] theorem total_nil : total attempt [] = 0 := rfl

@[simp] theorem total_cons (a : α) :
    total attempt (a :: items) = (attempt a).elim 0 Prod.fst + total attempt items := by
  simp [total]

@[simp] theorem total_append (items' : List α) :
    total attempt (items ++ items') = total attempt items + total attempt items' := by
  simp [total]

/-- How a walk ends: with the last item it tried, or with nothing because all items are tried or the budget is spent. -/
inductive Ends (budget : ℕ) (attempt : α → Awaited (Option β)) (elapsed : ℕ) (started : Bool) (items : List α) :
    Walk α β → Prop
  | found (before : List α) (a : α) (after : List α) (b : β) (t : ℕ) (hitems : items = before ++ a :: after)
      (hfails : ∀ x ∈ before, Fails attempt x) (hyields : attempt a = some (t, some b))
      (htime : (started = false ∧ before = []) ∨ elapsed + total attempt before < budget) :
      Ends budget attempt elapsed started items ⟨before ++ [a], some b, elapsed + total attempt before + t⟩
  | exhausted (tried rest : List α) (hitems : items = tried ++ rest) (hfails : ∀ x ∈ tried, Fails attempt x)
      (hlast : rest = [] ∨ budget ≤ elapsed + total attempt tried) :
      Ends budget attempt elapsed started items ⟨tried, none, elapsed + total attempt tried⟩

/-- One more item in front that yielded nothing. -/
theorem Ends.cons {elapsed t : ℕ} {started : Bool} {a : α} (ha : attempt a = some (t, none))
    (h : Ends budget attempt (elapsed + t) true items w) :
    Ends budget attempt elapsed started (a :: items) { w with tried := a :: w.tried } := by
  have hcost : ∀ xs, elapsed + total attempt (a :: xs) = elapsed + t + total attempt xs := fun xs => by
    rw [total_cons, ha, Option.elim_some, Nat.add_assoc]
  cases h with
  | found before b after y u hitems hfails hyields htime =>
    have htime : elapsed + t + total attempt before < budget := htime.resolve_left fun h => Bool.noConfusion h.1
    have hend : Ends budget attempt elapsed started (a :: items)
        ⟨a :: before ++ [b], some y, elapsed + total attempt (a :: before) + u⟩ :=
      .found (a :: before) b after y u (by rw [hitems]; rfl) (List.forall_mem_cons.mpr ⟨⟨t, ha⟩, hfails⟩) hyields
        (.inr (by rw [hcost]; exact htime))
    rw [hcost] at hend
    exact hend
  | exhausted tried rest hitems hfails hlast =>
    have hend : Ends budget attempt elapsed started (a :: items)
        ⟨a :: tried, none, elapsed + total attempt (a :: tried)⟩ :=
      .exhausted (a :: tried) rest (by rw [hitems]; rfl) (List.forall_mem_cons.mpr ⟨⟨t, ha⟩, hfails⟩)
        (hlast.imp_right fun h => by rw [hcost]; exact h)
    rw [hcost] at hend
    exact hend

theorem ends_of_runFrom {elapsed : ℕ} {started : Bool} (h : runFrom budget attempt elapsed started items = some w) :
    Ends budget attempt elapsed started items w := by
  induction items generalizing elapsed started w with
  | nil =>
    cases h
    exact .exhausted [] [] rfl (by simp) (.inl rfl)
  | cons a rest ih =>
    rw [runFrom] at h
    split at h
    · rename_i hspent
      cases h
      exact .exhausted [] (a :: rest) rfl (by simp) (.inr hspent.2)
    · rename_i hgo
      split at h
      · cases h
      · rename_i t b ha
        cases h
        refine .found [] a rest b t rfl (by simp) ha ?_
        cases started with
        | false => exact .inl ⟨rfl, rfl⟩
        | true => exact .inr (by simpa using hgo)
      · rename_i t ha
        obtain ⟨w', hw', rfl⟩ := Option.map_eq_some_iff.mp h
        exact (ih hw').cons ha

/-- **How a walk ends.** -/
theorem spec (h : run budget attempt items = some w) : Ends budget attempt 0 false items w := ends_of_runFrom h

/-- A walk all of whose attempts end, ends. -/
theorem exists_runFrom (hends : ∀ a ∈ items, (attempt a).isSome) (elapsed : ℕ) (started : Bool) :
    ∃ w, runFrom budget attempt elapsed started items = some w := by
  induction items generalizing elapsed started with
  | nil => exact ⟨_, rfl⟩
  | cons a rest ih =>
    rw [runFrom]
    split
    · exact ⟨_, rfl⟩
    · obtain ⟨⟨t, r⟩, ha⟩ := Option.isSome_iff_exists.mp (hends a List.mem_cons_self)
      rw [ha]
      cases r with
      | some b => exact ⟨_, rfl⟩
      | none =>
        obtain ⟨w, hw⟩ := ih (fun x hx => hends x (List.mem_cons_of_mem _ hx)) (elapsed + t) true
        exact ⟨_, Option.map_eq_some_iff.mpr ⟨w, hw, rfl⟩⟩

theorem exists_run (hends : ∀ a ∈ items, (attempt a).isSome) : ∃ w, run budget attempt items = some w :=
  exists_runFrom hends 0 false

/-- **How long a walk takes**: less than its budget and the longest attempt together. -/
theorem took_lt_from {longest elapsed : ℕ} {started : Bool}
    (hlong : ∀ a ∈ items, ∀ t r, attempt a = some (t, r) → t ≤ longest)
    (h : runFrom budget attempt elapsed started items = some w) (helapsed : elapsed < budget + longest)
    (hstart : elapsed < budget ∨ started = true) : w.took < budget + longest := by
  induction items generalizing elapsed started w with
  | nil =>
    cases h
    exact helapsed
  | cons a rest ih =>
    rw [runFrom] at h
    split at h
    · cases h
      exact helapsed
    · rename_i hgo
      have hin : elapsed < budget := by
        rcases hstart with hlt | hstarted
        · exact hlt
        · by_contra hover
          exact hgo ⟨hstarted, by omega⟩
      have hnext : ∀ t r, attempt a = some (t, r) → elapsed + t < budget + longest := fun t r ha => by
        have := hlong a List.mem_cons_self t r ha
        omega
      split at h
      · cases h
      · rename_i t b ha
        cases h
        exact hnext t _ ha
      · rename_i t ha
        obtain ⟨w', hw', rfl⟩ := Option.map_eq_some_iff.mp h
        exact ih (w := w') (fun x hx => hlong x (List.mem_cons_of_mem _ hx)) hw' (hnext t _ ha) (.inr rfl)

theorem took_lt {longest : ℕ} (hbudget : 0 < budget)
    (hlong : ∀ a ∈ items, ∀ t r, attempt a = some (t, r) → t ≤ longest) (h : run budget attempt items = some w) :
    w.took < budget + longest :=
  took_lt_from hlong h (by omega) (.inl hbudget)

/-- Items that yield nothing and leave time do not keep the walk from the one after them. -/
theorem runFrom_reaches {before after : List α} {a : α} {b : β} {t elapsed : ℕ} {started : Bool}
    (hfails : ∀ x ∈ before, Fails attempt x) (hyields : attempt a = some (t, some b))
    (htime : (started = false ∧ before = []) ∨ elapsed + total attempt before < budget) :
    runFrom budget attempt elapsed started (before ++ a :: after) =
      some ⟨before ++ [a], some b, elapsed + total attempt before + t⟩ := by
  induction before generalizing elapsed started with
  | nil =>
    have hgo : ¬(started = true ∧ budget ≤ elapsed) := by
      rintro ⟨hstarted, hspent⟩
      rcases htime with ⟨hfalse, -⟩ | hlt
      · rw [hstarted] at hfalse
        cases hfalse
      · exact absurd hspent (by simpa using hlt)
    rw [List.nil_append, runFrom, if_neg hgo, hyields]
    rfl
  | cons x before ih =>
    obtain ⟨u, hx⟩ := hfails x List.mem_cons_self
    have htime : elapsed + (u + total attempt before) < budget := by
      rcases htime with ⟨-, hnil⟩ | hlt
      · cases hnil
      · rwa [total_cons, hx, Option.elim_some] at hlt
    have hgo : ¬(started = true ∧ budget ≤ elapsed) := by
      rintro ⟨-, hspent⟩
      omega
    have hrest : runFrom budget attempt (elapsed + u) true (before ++ a :: after) = _ :=
      ih (fun y hy => hfails y (List.mem_cons_of_mem _ hy)) (.inr (by omega))
    rw [List.cons_append, runFrom, if_neg hgo, hx]
    dsimp only
    rw [hrest, Option.map_some, total_cons, hx, Option.elim_some, ← Nat.add_assoc]
    rfl

/-- The first item of a list that yields something. -/
theorem exists_first {before : List α} (after : List α) {a : α} {b : β} {t : ℕ}
    (hends : ∀ x ∈ before, (attempt x).isSome) (hyields : attempt a = some (t, some b)) :
    ∃ before' a' after' b' t', before ++ a :: after = before' ++ a' :: after' ∧
      (∀ x ∈ before', Fails attempt x) ∧ attempt a' = some (t', some b') ∧ before' <+: before := by
  induction before with
  | nil => exact ⟨[], a, after, b, t, rfl, by simp, hyields, List.prefix_rfl⟩
  | cons x before ih =>
    obtain ⟨⟨u, r⟩, hx⟩ := Option.isSome_iff_exists.mp (hends x List.mem_cons_self)
    cases r with
    | some y => exact ⟨[], x, before ++ a :: after, y, u, rfl, by simp, hx, List.nil_prefix⟩
    | none =>
      obtain ⟨before', a', after', b', t', hsplit, hfails, hyields', hpre⟩ :=
        ih fun y hy => hends y (List.mem_cons_of_mem _ hy)
      refine ⟨x :: before', a', after', b', t', by rw [List.cons_append, hsplit]; rfl,
        List.forall_mem_cons.mpr ⟨⟨u, hx⟩, hfails⟩, hyields', ?_⟩
      exact (List.prefix_cons_inj x).mpr hpre

theorem total_mono {before before' : List α} (h : before' <+: before) :
    total attempt before' ≤ total attempt before := by
  obtain ⟨rest, rfl⟩ := h
  rw [total_append]
  exact Nat.le_add_right _ _

/-- **What a walk can reach**: it finds something if and only if some item yields something and the items before it
leave it time. -/
theorem found_iff (hends : ∀ a ∈ items, (attempt a).isSome) (h : run budget attempt items = some w) :
    w.found.isSome = true ↔ ∃ before a after b t, items = before ++ a :: after ∧ attempt a = some (t, some b) ∧
      (before = [] ∨ total attempt before < budget) := by
  constructor
  · intro hfound
    cases spec h with
    | found before a after b t hitems _ hyields htime =>
      exact ⟨before, a, after, b, t, hitems, hyields, htime.imp And.right fun hlt => by simpa using hlt⟩
    | exhausted => cases hfound
  · rintro ⟨before, a, after, b, t, rfl, hyields, htime⟩
    obtain ⟨before', a', after', b', t', hsplit, hfails, hyields', hpre⟩ :=
      exists_first after (fun x hx => hends x (List.mem_append_left _ hx)) hyields
    have htime' : (false = false ∧ before' = []) ∨ 0 + total attempt before' < budget := by
      rcases htime with rfl | hlt
      · exact .inl ⟨rfl, List.prefix_nil.mp hpre⟩
      · exact .inr (by rw [Nat.zero_add]; exact lt_of_le_of_lt (total_mono hpre) hlt)
    have hreach : runFrom budget attempt 0 false (before' ++ a' :: after') = _ :=
      runFrom_reaches hfails hyields' htime'
    rw [run, hsplit, hreach] at h
    cases h
    rfl

end Walk
