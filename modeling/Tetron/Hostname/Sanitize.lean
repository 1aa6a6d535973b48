import Tetron.Hostname

/-!
# Sanitising hostnames

`sanitize_hostname` makes a valid name of any text, if there is anything in its first label to make one of
(`sanitizeHostname_spec`).
-/

namespace Tetron.Hostname

/-- ASCII letters and digits in lower case, a hyphen for anything else. -/
def sanitizeChar (c : Char) : Char := if c.isAlphanum then c.toLower else '-'

/-- `split('.').next()`. -/
def firstLabel (raw : String) : List Char := raw.toList.takeWhile (· != '.')

/-- `trim_end_matches('-')`. -/
def trimEndHyphens (cs : List Char) : List Char := cs.rdropWhile (· == '-')

/-- `trim_matches('-')`. -/
def trimHyphens (cs : List Char) : List Char := trimEndHyphens (cs.dropWhile (· == '-'))

/-- Cleaned, trimmed, cut to 63 characters and trimmed again. -/
def truncated (raw : String) : List Char :=
  trimEndHyphens ((trimHyphens ((firstLabel raw).map sanitizeChar)).take 63)

def sanitizeHostname (raw : String) : Option String :=
  if (truncated raw).isEmpty then none else some (String.ofList (truncated raw))

/-! ### Characters -/

theorem isNameChar_sanitizeChar (c : Char) : IsNameChar (sanitizeChar c) := by
  unfold sanitizeChar
  split
  · rename_i halnum
    rcases Bool.or_eq_true_iff.mp halnum with halpha | hdigit
    · exact Or.inl (by rw [Char.isLower_toLower_eq_isAlpha, halpha])
    · rw [toLower_of_valid (Or.inr (Or.inl hdigit))]
      exact Or.inr (Or.inl hdigit)
  · exact Or.inr (Or.inr rfl)

theorem sanitizeChar_eq_hyphen {c : Char} : sanitizeChar c = '-' ↔ c.isAlphanum = false := by
  unfold sanitizeChar
  split
  · rename_i halnum
    -- neither a letter nor a digit becomes a hyphen
    refine iff_of_false (fun heq => ?_) (by simp [halnum])
    rcases Bool.or_eq_true_iff.mp halnum with halpha | hdigit
    · rw [← Char.isLower_toLower_eq_isAlpha, heq] at halpha
      exact absurd halpha (by decide)
    · rw [toLower_of_valid (Or.inr (Or.inl hdigit))] at heq
      rw [heq] at hdigit
      exact absurd hdigit (by decide)
  · rename_i halnum
    exact iff_of_true rfl (by simpa using halnum)

theorem sanitizeChar_of_isNameChar {c : Char} (h : IsNameChar c) : sanitizeChar c = c := by
  unfold sanitizeChar
  split
  · exact toLower_of_valid h
  · rename_i halnum
    rcases h with hlower | hdigit | rfl
    · exact absurd (by simp [Char.isAlphanum, Char.isAlpha, hlower]) halnum
    · exact absurd (by simp [Char.isAlphanum, hdigit]) halnum
    · rfl

/-! ### Trimming -/

section Trim

variable {cs : List Char}

theorem trimEndHyphens_eq_self (h : cs.getLast? ≠ some '-') : trimEndHyphens cs = cs := by
  refine List.rdropWhile_eq_self_iff.mpr fun hne hlast => h ?_
  rw [List.getLast?_eq_some_getLast hne, beq_iff_eq.mp hlast]

theorem getLast?_trimEndHyphens (cs : List Char) : (trimEndHyphens cs).getLast? ≠ some '-' := by
  intro hlast
  have hne : trimEndHyphens cs ≠ [] := by
    intro hnil
    rw [hnil] at hlast
    cases hlast
  have hnot := List.rdropWhile_last_not (· == '-') cs hne
  rw [List.getLast?_eq_some_getLast hne] at hlast
  exact hnot (beq_iff_eq.mpr (Option.some.inj hlast))

theorem trimEndHyphens_eq_nil : trimEndHyphens cs = [] ↔ ∀ c ∈ cs, c = '-' := by
  simp [trimEndHyphens, List.rdropWhile_eq_nil_iff]

theorem trimHyphens_eq_self (hhead : cs.head? ≠ some '-') (hlast : cs.getLast? ≠ some '-') : trimHyphens cs = cs := by
  have hdrop : cs.dropWhile (· == '-') = cs := by
    cases cs with
    | nil => rfl
    | cons c cs => exact List.dropWhile_cons_of_neg (by simpa using hhead)
  rw [trimHyphens, hdrop, trimEndHyphens_eq_self hlast]

theorem head?_of_isPrefix {ds : List Char} {c : Char} (h : cs <+: ds) (hhead : cs.head? = some c) :
    ds.head? = some c := by
  obtain ⟨rest, rfl⟩ := h
  rw [List.head?_append, hhead, Option.some_or]

theorem head?_dropHyphens (cs : List Char) : (cs.dropWhile (· == '-')).head? ≠ some '-' := by
  intro hhead
  have hnot := List.head?_dropWhile_not (· == '-') cs
  rw [hhead] at hnot
  exact absurd hnot (by decide)

theorem head?_trimHyphens (cs : List Char) : (trimHyphens cs).head? ≠ some '-' :=
  fun hhead => head?_dropHyphens cs (head?_of_isPrefix (List.rdropWhile_prefix _ _) hhead)

/-- What starts without a hyphen is hyphens only if it is empty. -/
theorem eq_nil_of_hyphens (hhead : cs.head? ≠ some '-') (h : ∀ c ∈ cs, c = '-') : cs = [] := by
  cases cs with
  | nil => rfl
  | cons c cs => exact absurd (by rw [List.head?_cons, h c List.mem_cons_self]) hhead

theorem trimHyphens_eq_nil : trimHyphens cs = [] ↔ ∀ c ∈ cs, c = '-' := by
  rw [trimHyphens, trimEndHyphens_eq_nil]
  constructor
  · intro h
    have hnil := eq_nil_of_hyphens (head?_dropHyphens cs) h
    simpa using List.dropWhile_eq_nil_iff.mp hnil
  · intro h
    rw [List.dropWhile_eq_nil_iff.mpr (by simpa using h)]
    simp

/-- Cutting a trimmed name short does not use it up. -/
theorem trimEndHyphens_take_eq_nil {n : ℕ} (hn : 0 < n) (hhead : cs.head? ≠ some '-') :
    trimEndHyphens (cs.take n) = [] ↔ cs = [] := by
  rw [trimEndHyphens_eq_nil]
  constructor
  · intro h
    have hprefix : (cs.take n).head? ≠ some '-' := fun heq => hhead (head?_of_isPrefix (List.take_prefix n cs) heq)
    have hnil := eq_nil_of_hyphens hprefix h
    exact (List.take_eq_nil_iff.mp hnil).resolve_left (by omega)
  · rintro rfl
    simp

end Trim

/-! ### Names -/

theorem sanitizeHostname_eq_none {raw : String} : sanitizeHostname raw = none ↔ truncated raw = [] := by
  simp [sanitizeHostname]

theorem sanitizeHostname_eq_some {raw name : String} :
    sanitizeHostname raw = some name ↔ truncated raw ≠ [] ∧ String.ofList (truncated raw) = name := by
  simp [sanitizeHostname]

theorem truncated_eq_nil {raw : String} : truncated raw = [] ↔ ∀ c ∈ firstLabel raw, c.isAlphanum = false := by
  rw [truncated, trimEndHyphens_take_eq_nil (by decide) (head?_trimHyphens _), trimHyphens_eq_nil, List.forall_mem_map]
  simp only [sanitizeChar_eq_hyphen]

/-- Every character that is left was put there by the cleaning. -/
theorem isNameChar_of_mem_truncated {raw : String} {c : Char} (h : c ∈ truncated raw) : IsNameChar c := by
  have htrim : c ∈ trimHyphens ((firstLabel raw).map sanitizeChar) :=
    List.mem_of_mem_take ((List.rdropWhile_prefix _ _).subset h)
  have hclean : c ∈ (firstLabel raw).map sanitizeChar :=
    (List.dropWhile_suffix _).subset ((List.rdropWhile_prefix _ _).subset htrim)
  obtain ⟨c, -, rfl⟩ := List.mem_map.mp hclean
  exact isNameChar_sanitizeChar c

theorem isValidHostname_truncated {raw : String} (h : truncated raw ≠ []) :
    isValidHostname (String.ofList (truncated raw)) = true := by
  rw [isValidHostname_iff, String.toList_ofList, String.utf8ByteSize_ofList,
    utf8Len_of_isNameChar fun c hc => isNameChar_of_mem_truncated hc]
  refine ⟨h, ?_, fun hhead => ?_, getLast?_trimEndHyphens _, fun c hc => isNameChar_of_mem_truncated hc⟩
  · calc (truncated raw).length
        ≤ ((trimHyphens ((firstLabel raw).map sanitizeChar)).take 63).length := (List.rdropWhile_prefix _ _).length_le
      _ ≤ 63 := List.length_take_le ..
  · have hprefix : truncated raw <+: trimHyphens ((firstLabel raw).map sanitizeChar) :=
      (List.rdropWhile_prefix _ _).trans (List.take_prefix _ _)
    exact head?_trimHyphens _ (head?_of_isPrefix hprefix hhead)

theorem truncated_of_valid {name : String} (h : isValidHostname name = true) : truncated name = name.toList := by
  obtain ⟨-, hsize, hhead, hlast, hchars⟩ := isValidHostname_iff.mp h
  have hlabel : firstLabel name = name.toList := by
    refine List.takeWhile_eq_self_iff.mpr fun c hc => ?_
    have hne : c ≠ '.' := by
      rintro rfl
      exact absurd (hchars '.' hc) (by decide)
    simpa using hne
  have hclean : name.toList.map sanitizeChar = name.toList := by
    rw [List.map_congr_left fun c hc => sanitizeChar_of_isNameChar (hchars c hc), List.map_id']
  have hlen : name.toList.length ≤ 63 := by
    rw [← utf8Len_of_isNameChar hchars, ← String.utf8ByteSize_ofList, String.ofList_toList]
    exact hsize
  rw [truncated, hlabel, hclean, trimHyphens_eq_self hhead hlast, List.take_of_length_le hlen,
    trimEndHyphens_eq_self hlast]

theorem sanitizeHostname_of_valid {name : String} (h : isValidHostname name = true) :
    sanitizeHostname name = some name := by
  rw [sanitizeHostname_eq_some, truncated_of_valid h]
  exact ⟨(isValidHostname_iff.mp h).1, String.ofList_toList⟩

/-- **Sanitising**: what comes of it is valid and stays as it is, valid names are left alone, and nothing comes
of a text whose first label has no ASCII letter or digit. -/
theorem sanitizeHostname_spec (raw : String) :
    (∀ name, sanitizeHostname raw = some name →
      isValidHostname name = true ∧ sanitizeHostname name = some name) ∧
    (isValidHostname raw = true → sanitizeHostname raw = some raw) ∧
    (sanitizeHostname raw = none ↔ ∀ c ∈ firstLabel raw, c.isAlphanum = false) := by
  refine ⟨fun name hname => ?_, sanitizeHostname_of_valid, ?_⟩
  · obtain ⟨hne, rfl⟩ := sanitizeHostname_eq_some.mp hname
    have hvalid := isValidHostname_truncated hne
    exact ⟨hvalid, sanitizeHostname_of_valid hvalid⟩
  · rw [sanitizeHostname_eq_none, truncated_eq_nil]

example : sanitizeHostname "My_Laptop.local" = some "my-laptop" := by decide +kernel

end Tetron.Hostname
