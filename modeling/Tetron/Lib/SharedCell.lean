import Tetron.Lib.Run

/-!
# Read-modify-write on a shared cell

Any number of tasks each load a cell, change their copy and save it, in any interleaving. Some hold one
lock from the load to the save, the others none, so an unlocked task can put back an old copy over what was
saved meanwhile.

What some of the locked writers establish and all writers keep is lost only that way: it stays if no
unlocked task is between its load and its save when it is established (`SharedCell.kept`).
-/

variable {ω α : Type*}

/-- What a task of each kind does to the copy it loaded (`none` leaves the cell alone), which kinds take the
lock, and which establish what is to be kept. -/
structure Writers (ω α : Type*) where
  modify : ω → α → Option α
  locked : ω → Bool
  marks : ω → Bool

namespace SharedCell

inductive Stage (α : Type*)
  | waiting
  | loaded (copy : α)
  | finished

inductive Event (ω : Type*)
  | start (w : ω)
  | load (i : ℕ)
  | save (i : ℕ)
  /-- The task's load or save failed. -/
  | fail (i : ℕ)
  | clear

end SharedCell

open SharedCell in
structure SharedCell (ω α : Type*) where
  content : Option α
  tasks : List (ω × Stage α)
  /-- A marking task has saved, and the cell was not cleared since. -/
  marked : Bool

namespace SharedCell

/-- Nobody at work. -/
def idle (content : Option α) : SharedCell ω α := ⟨content, [], false⟩

/-- Task `i` has a copy to save. -/
def Loaded (s : SharedCell ω α) (i : ℕ) (w : ω) (copy : α) : Prop := s.tasks[i]? = some (w, .loaded copy)

def holdsLock (W : Writers ω α) : ω × Stage α → Bool
  | (w, .loaded _) => W.locked w
  | _ => false

def next (W : Writers ω α) (s : SharedCell ω α) : Event ω → Option (SharedCell ω α)
  | .start w => some { s with tasks := s.tasks ++ [(w, .waiting)] }
  | .load i =>
    match s.tasks[i]? with
    | some (w, .waiting) =>
      if W.locked w && s.tasks.any (holdsLock W) then none
      else
        match s.content.bind (W.modify w) with
        | none => some { s with tasks := s.tasks.set i (w, .finished) }
        | some copy => some { s with tasks := s.tasks.set i (w, .loaded copy) }
    | _ => none
  | .save i =>
    match s.tasks[i]? with
    | some (w, .loaded copy) =>
      some { content := some copy, tasks := s.tasks.set i (w, .finished), marked := s.marked || W.marks w }
    | _ => none
  | .fail i =>
    match s.tasks[i]? with
    | none => none
    | some (w, _) => some { s with tasks := s.tasks.set i (w, .finished) }
  | .clear => some { s with content := none, marked := false }

def isUnlockedCopy (W : Writers ω α) : ω × Stage α → Bool
  | (w, .loaded _) => !W.locked w
  | _ => false

/-- A marking task saves only while no unlocked task has a copy to save. -/
def exclusive (W : Writers ω α) (s : SharedCell ω α) : Event ω → Bool
  | .save i =>
    match s.tasks[i]? with
    | some (w, .loaded _) => !(W.marks w && s.tasks.any (isUnlockedCopy W))
    | _ => true
  | _ => true

variable {W : Writers ω α} {s s' : SharedCell ω α} {e : Event ω} {i j : ℕ} {w w' : ω} {c c' : α}

/-! ### What a step does -/

theorem not_loaded_of_lockFree (h : s.tasks.any (holdsLock W) = false) (hj : s.Loaded j w c) :
    W.locked w = false := by
  have hmem : (w, .loaded c) ∈ s.tasks := List.mem_of_getElem? hj
  have hfree := List.any_eq_false.mp h _ hmem
  exact Bool.eq_false_iff.mpr hfree

theorem locked_of_exclusive (h : exclusive W s (.save i) = true) (hi : s.Loaded i w c) (hw : W.marks w = true)
    (hj : s.Loaded j w' c') : W.locked w' = true := by
  have hi : s.tasks[i]? = some (w, .loaded c) := hi
  simp only [exclusive, hi, hw, Bool.true_and, Bool.not_eq_true'] at h
  have hmem : (w', .loaded c') ∈ s.tasks := List.mem_of_getElem? hj
  have hunlocked : ¬ (!W.locked w') = true := List.any_eq_false.mp h _ hmem
  simpa using hunlocked

/-- A step starts a task, ends one without a save, gives one its copy, saves a copy, or clears the cell. -/
inductive Moves (W : Writers ω α) (s : SharedCell ω α) : Event ω → SharedCell ω α → Prop
  | starts (w : ω) : Moves W s (.start w) { s with tasks := s.tasks ++ [(w, .waiting)] }
  | ends {e : Event ω} (i : ℕ) (w : ω) (unsaved : ∀ j, e ≠ .save j) :
      Moves W s e { s with tasks := s.tasks.set i (w, .finished) }
  | loads (i : ℕ) (w : ω) (copy : α) (copied : s.content.bind (W.modify w) = some copy)
      (free : W.locked w = true → s.tasks.any (holdsLock W) = false) :
      Moves W s (.load i) { s with tasks := s.tasks.set i (w, .loaded copy) }
  | saves (i : ℕ) (w : ω) (copy : α) (loaded : s.Loaded i w copy) :
      Moves W s (.save i) ⟨some copy, s.tasks.set i (w, .finished), s.marked || W.marks w⟩
  | clears : Moves W s .clear { s with content := none, marked := false }

theorem moves_of_next (h : next W s e = some s') : Moves W s e s' := by
  cases e with
  | start w =>
    cases h
    exact .starts w
  | load i =>
    simp only [next] at h
    split at h
    · rename_i w hi
      split at h
      · cases h
      · rename_i hlock
        split at h
        · cases h
          exact .ends i w nofun
        · rename_i copy hcopy
          cases h
          refine .loads i w copy hcopy fun hlocked => ?_
          rw [hlocked, Bool.true_and] at hlock
          exact Bool.eq_false_iff.mpr hlock
    · cases h
  | save i =>
    simp only [next] at h
    split at h
    · rename_i w copy hi
      cases h
      exact .saves i w copy hi
    · cases h
  | fail i =>
    simp only [next] at h
    split at h
    · cases h
    · rename_i w _ _
      cases h
      exact .ends i w nofun
  | clear =>
    cases h
    exact .clears

/-- A copy to save was there before, or its task has just loaded the cell. -/
theorem loaded_next (h : next W s e = some s') (hj : s'.Loaded j w c) :
    (s.Loaded j w c ∧ ∀ i, e = .save i → i ≠ j) ∨
      (e = .load j ∧ s.content.bind (W.modify w) = some c ∧
        (W.locked w = true → s.tasks.any (holdsLock W) = false)) := by
  cases moves_of_next h with
  | starts v =>
    have hj : (s.tasks ++ [(v, Stage.waiting)])[j]? = some (w, .loaded c) := hj
    rw [List.getElem?_append] at hj
    split at hj
    · exact Or.inl ⟨hj, nofun⟩
    · have hmem := List.mem_of_getElem? hj
      cases List.mem_singleton.mp hmem
  | ends i v hunsaved =>
    rcases List.getElem?_set_eq_some hj with ⟨-, ht⟩ | ⟨-, hbefore⟩
    · cases ht
    · exact Or.inl ⟨hbefore, fun i' heq => absurd heq (hunsaved i')⟩
  | loads i v copy hcopy hfree =>
    rcases List.getElem?_set_eq_some hj with ⟨rfl, ht⟩ | ⟨-, hbefore⟩
    · cases ht
      exact Or.inr ⟨rfl, hcopy, hfree⟩
    · exact Or.inl ⟨hbefore, nofun⟩
  | saves i v copy hi =>
    rcases List.getElem?_set_eq_some hj with ⟨-, ht⟩ | ⟨hne, hbefore⟩
    · cases ht
    · exact Or.inl ⟨hbefore, fun i' heq => by cases heq; exact hne⟩
  | clears => exact Or.inl ⟨hj, nofun⟩

/-- The cell changes by a save, or is cleared. -/
theorem content_next (h : next W s e = some s') :
    (∃ i w c, e = .save i ∧ s.Loaded i w c ∧ s'.content = some c ∧ s'.marked = (s.marked || W.marks w)) ∨
      (s'.content = s.content ∧ s'.marked = s.marked) ∨ s'.marked = false := by
  cases moves_of_next h with
  | starts | ends | loads => exact Or.inr (Or.inl ⟨rfl, rfl⟩)
  | saves i w c hi => exact Or.inl ⟨i, w, c, rfl, hi, rfl, rfl⟩
  | clears => exact Or.inr (Or.inr rfl)

/-! ### What is kept -/

section Kept

variable {P : α → Prop}

/-- At most one task holds the lock, marking tasks are about to save what they establish, and once it is
established it holds of the cell and of every copy. -/
structure Inv (W : Writers ω α) (P : α → Prop) (s : SharedCell ω α) : Prop where
  mutex : ∀ {i j w w' c c'}, s.Loaded i w c → s.Loaded j w' c' → W.locked w = true → W.locked w' = true → i = j
  marking : ∀ {i w c}, s.Loaded i w c → W.marks w = true → P c
  copies : s.marked = true → ∀ {i w c}, s.Loaded i w c → P c
  content : s.marked = true → ∃ v, s.content = some v ∧ P v

theorem Inv.idle (content : Option α) : Inv W P (idle content) where
  mutex h := by cases h
  marking h := by cases h
  copies h := by cases h
  content h := by cases h

theorem Inv.mutex_step (h : Inv W P s) (hstep : next W s e = some s') (hi : s'.Loaded i w c) (hj : s'.Loaded j w' c')
    (hw : W.locked w = true) (hw' : W.locked w' = true) : i = j := by
  rcases loaded_next hstep hi with ⟨hi, -⟩ | ⟨rfl, -, hfree⟩
  · rcases loaded_next hstep hj with ⟨hj, -⟩ | ⟨rfl, -, hfree⟩
    · exact h.mutex hi hj hw hw'
    · have hunlocked := not_loaded_of_lockFree (hfree hw') hi
      rw [hw] at hunlocked
      cases hunlocked
  · rcases loaded_next hstep hj with ⟨hj, -⟩ | ⟨heq, -, -⟩
    · have hunlocked := not_loaded_of_lockFree (hfree hw) hj
      rw [hw'] at hunlocked
      cases hunlocked
    · cases heq
      rfl

theorem Inv.step (hkeep : ∀ w v v', W.modify w v = some v' → P v → P v')
    (hmark : ∀ w v v', W.marks w = true → W.modify w v = some v' → P v')
    (hlocked : ∀ w, W.marks w = true → W.locked w = true) (h : Inv W P s) (hquiet : exclusive W s e = true)
    (hstep : next W s e = some s') : Inv W P s' := by
  have hbefore : s.marked = true → ∀ {i w c}, s'.Loaded i w c → P c := by
    intro hmarked i w c hi
    rcases loaded_next hstep hi with ⟨hi, -⟩ | ⟨-, hcopy, -⟩
    · exact h.copies hmarked hi
    · obtain ⟨v, hv, hP⟩ := h.content hmarked
      rw [hv] at hcopy
      exact hkeep w v c hcopy hP
  refine ⟨h.mutex_step hstep, ?_, ?_, ?_⟩
  · intro i w c hi hw
    rcases loaded_next hstep hi with ⟨hi, -⟩ | ⟨-, hcopy, -⟩
    · exact h.marking hi hw
    · obtain ⟨v, -, hv⟩ := Option.bind_eq_some_iff.mp hcopy
      exact hmark w v c hw hv
  · intro hmarked' i w c hi
    rcases content_next hstep with ⟨k, v, d, rfl, hk, -, hflag⟩ | ⟨-, hflag⟩ | hcleared
    · rw [hmarked', eq_comm, Bool.or_eq_true] at hflag
      rcases hflag with hmarked | hv
      · exact hbefore hmarked hi
      · -- the marking task held the lock, and only locked tasks have copies
        rcases loaded_next hstep hi with ⟨hi, hother⟩ | ⟨heq, -⟩
        · have hw := locked_of_exclusive hquiet hk hv hi
          exact absurd (h.mutex hk hi (hlocked v hv) hw) (hother k rfl)
        · cases heq
    · exact hbefore (hflag ▸ hmarked') hi
    · rw [hmarked'] at hcleared
      cases hcleared
  · intro hmarked'
    rcases content_next hstep with ⟨k, v, d, rfl, hk, hcontent, hflag⟩ | ⟨hsame, hflag⟩ | hcleared
    · rw [hmarked', eq_comm, Bool.or_eq_true] at hflag
      refine ⟨d, hcontent, ?_⟩
      rcases hflag with hmarked | hv
      · exact h.copies hmarked hk
      · exact h.marking hk hv
    · rw [hsame]
      exact h.content (hflag ▸ hmarked')
    · rw [hmarked'] at hcleared
      cases hcleared

/-- **Kept once established**, in every run in which marking tasks save while no unlocked task is between its
load and its save. -/
theorem kept (hkeep : ∀ w v v', W.modify w v = some v' → P v → P v')
    (hmark : ∀ w v v', W.marks w = true → W.modify w v = some v' → P v')
    (hlocked : ∀ w, W.marks w = true → W.locked w = true) {content : Option α} {events : List (Event ω)}
    (hrun : Run (fun s e s' => next W s e = some s') (fun s e => exclusive W s e = true) (SharedCell.idle content)
      events s)
    (hmarked : s.marked = true) : ∃ v, s.content = some v ∧ P v := by
  have hinv : Inv W P s :=
    hrun.invariant (I := fun _ s => Inv W P s) (Inv.idle content)
      fun _ _ _ _ h hquiet hstep => h.step hkeep hmark hlocked hquiet hstep
  exact hinv.content hmarked

end Kept

end SharedCell
