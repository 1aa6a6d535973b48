import Mathlib.Data.List.Basic

/-!
# Runs of labelled transition systems

`Run step C s₀ ls s` says that the labels `ls` lead from `s₀` to `s` along steps each of which
meets the condition `C` in the state it starts from. Runs grow at the end, so an invariant may
speak about the labels so far.
-/

variable {σ ℓ : Type*}

/-- In a list of tasks one of which has moved, every task is that one or where it was. -/
theorem List.getElem?_set_eq_some {α : Type*} {l : List α} {i j : ℕ} {a b : α} (h : (l.set i a)[j]? = some b) :
    (i = j ∧ a = b) ∨ (i ≠ j ∧ l[j]? = some b) := by
  rw [List.getElem?_set] at h
  split at h
  · rename_i heq
    split at h
    · exact Or.inl ⟨heq, Option.some.inj h⟩
    · cases h
  · rename_i hne
    exact Or.inr ⟨hne, h⟩

inductive Run (step : σ → ℓ → σ → Prop) (C : σ → ℓ → Prop) (s₀ : σ) : List ℓ → σ → Prop
  | nil : Run step C s₀ [] s₀
  | snoc {ls : List ℓ} {s s' : σ} {l : ℓ} (before : Run step C s₀ ls s) (meets : C s l)
      (last : step s l s') : Run step C s₀ (ls ++ [l]) s'

namespace Run

variable {step : σ → ℓ → σ → Prop} {C : σ → ℓ → Prop} {s₀ s : σ} {ls : List ℓ}

/-- **Invariant rule**: what holds at the start and is kept by every step that meets `C` holds
after every run. -/
theorem invariant {I : List ℓ → σ → Prop} (hrun : Run step C s₀ ls s) (hinit : I [] s₀)
    (hstep : ∀ ls s l s', I ls s → C s l → step s l s' → I (ls ++ [l]) s') : I ls s := by
  induction hrun with
  | nil => exact hinit
  | snoc _ meets last ih => exact hstep _ _ _ _ ih meets last

/-- A run that meets a condition meets a weaker one. -/
theorem mono {D : σ → ℓ → Prop} (hrun : Run step C s₀ ls s) (himp : ∀ s l, C s l → D s l) :
    Run step D s₀ ls s :=
  hrun.invariant (I := fun ls s => Run step D s₀ ls s) .nil
    fun _ s l _ h hC hlast => h.snoc (himp s l hC) hlast

/-- The first step of a run, and the rest of it. -/
theorem uncons {l : ℓ} (hrun : Run step C s₀ (l :: ls) s) : ∃ t, C s₀ l ∧ step s₀ l t ∧ Run step C t ls s := by
  have hsplit := hrun.invariant
    (I := fun ms s => (ms = [] ∧ s = s₀) ∨ ∃ l ls t, ms = l :: ls ∧ C s₀ l ∧ step s₀ l t ∧ Run step C t ls s)
    (.inl ⟨rfl, rfl⟩) (fun ms s last s' h hC hlast => by
      rcases h with ⟨rfl, rfl⟩ | ⟨l, ls, t, rfl, hl, hfirst, hrest⟩
      · exact .inr ⟨last, [], s', rfl, hC, hlast, .nil⟩
      · exact .inr ⟨l, ls ++ [last], t, rfl, hl, hfirst, hrest.snoc hC hlast⟩)
  rcases hsplit with ⟨hnil, -⟩ | ⟨first, rest, t, heq, hl, hfirst, hrest⟩
  · cases hnil
  · cases heq
    exact ⟨t, hl, hfirst, hrest⟩

/-- A step before a run. -/
theorem cons {l : ℓ} {t : σ} (hrun : Run step C t ls s) (meets : C s₀ l) (hfirst : step s₀ l t) :
    Run step C s₀ (l :: ls) s :=
  hrun.invariant (I := fun ls s => Run step C s₀ (l :: ls) s) (.snoc .nil meets hfirst)
    fun _ _ _ _ h hC hlast => h.snoc hC hlast

/-- Execute labels with a step function, as long as the condition is met. -/
def exec (next : σ → ℓ → Option σ) (C : σ → ℓ → Prop) [∀ s l, Decidable (C s l)] : σ → List ℓ → Option σ
  | s, [] => some s
  | s, l :: ls => if C s l then (next s l).bind (exec next C · ls) else none

theorem append_exec {next : σ → ℓ → Option σ} [∀ s l, Decidable (C s l)] :
    ∀ {ms ls : List ℓ} {s s' : σ},
      Run (fun s l s' => next s l = some s') C s₀ ls s → exec next C s ms = some s' →
      Run (fun s l s' => next s l = some s') C s₀ (ls ++ ms) s'
  | [], ls, s, s', hrun, h => by
      simp only [exec, Option.some.injEq] at h
      subst h
      simpa using hrun
  | m :: ms, ls, s, s', hrun, h => by
      rw [exec] at h
      split at h
      · rename_i hC
        obtain ⟨t, ht, hrest⟩ := Option.bind_eq_some_iff.mp h
        simpa using append_exec (hrun.snoc hC ht) hrest
      · cases h

/-- What `exec` computes is a run. -/
theorem of_exec {next : σ → ℓ → Option σ} [∀ s l, Decidable (C s l)]
    (h : exec next C s₀ ls = some s) : Run (fun s l s' => next s l = some s') C s₀ ls s := by
  simpa using append_exec .nil h

/-- An execution whose last state has `P` is a run to such a state. -/
theorem exists_of_exec {next : σ → ℓ → Option σ} [∀ s l, Decidable (C s l)] {P : σ → Prop} [DecidablePred P]
    (h : (exec next C s₀ ls).any (fun s => decide (P s)) = true) :
    ∃ s, Run (fun s l s' => next s l = some s') C s₀ ls s ∧ P s := by
  obtain ⟨s, hs, hp⟩ := (Option.any_eq_true _ _).mp h
  exact ⟨s, of_exec hs, of_decide_eq_true hp⟩

/-- A run to a state with `Q` is one under a weaker condition, too. -/
theorem exists_mono {step : σ → ℓ → σ → Prop} {C' : σ → ℓ → Prop} {Q : σ → Prop} (h : ∀ s l, C s l → C' s l) :
    (∃ s, Run step C s₀ ls s ∧ Q s) → ∃ s, Run step C' s₀ ls s ∧ Q s
  | ⟨s, hrun, hs⟩ => ⟨s, hrun.mono h, hs⟩

/-- And to one that has what follows from the run and `P`. -/
theorem exists_of_exec_imp {next : σ → ℓ → Option σ} [∀ s l, Decidable (C s l)] (P : σ → Prop) [DecidablePred P]
    {Q : σ → Prop} (h : (exec next C s₀ ls).any (fun s => decide (P s)) = true)
    (himp : ∀ s, Run (fun s l s' => next s l = some s') C s₀ ls s → P s → Q s) :
    ∃ s, Run (fun s l s' => next s l = some s') C s₀ ls s ∧ Q s := by
  obtain ⟨s, hrun, hP⟩ := exists_of_exec h
  exact ⟨s, hrun, himp s hrun hP⟩

end Run
