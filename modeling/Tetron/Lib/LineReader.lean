import Mathlib.Data.List.TakeWhile

/-!
# Reading lines from a stream

A stream arrives in pieces. A read collects what has arrived up to and including a separator, and waits for more
when there is none (`poll`). What it has collected so far belongs to the read: if the read is given up, it is gone
from the stream and from the reader (`cancel`).

As long as no read is given up with something collected, the lines that come out are the lines of the stream.
-/

/-- A reader of lines: what its reads have taken from the stream, what has arrived since, and what the read under way
has collected. -/
structure LineReader (α : Type*) where
  taken : List α
  buffered : List α
  held : List α
deriving DecidableEq

namespace LineReader

variable {α : Type*}

def new : LineReader α := ⟨[], [], []⟩

def arrive (r : LineReader α) (piece : List α) : LineReader α := { r with buffered := r.buffered ++ piece }

/-- The read under way is given up, with what it has collected. -/
def cancel (r : LineReader α) : LineReader α := { r with held := [] }

/-- A read that has collected nothing loses nothing. -/
theorem cancel_of_held {r : LineReader α} (h : r.held = []) : r.cancel = r := by
  rw [cancel, ← h]

variable [DecidableEq α] (sep : α)

/-- The read under way is resumed: a line, if a separator has arrived. -/
def poll (r : LineReader α) : Option (List α) × LineReader α :=
  let line := r.buffered.takeWhile (· ≠ sep)
  match r.buffered.dropWhile (· ≠ sep) with
  | _ :: rest => (some (r.held ++ line ++ [sep]), ⟨r.taken ++ line ++ [sep], rest, []⟩)
  | [] => (none, ⟨r.taken ++ r.buffered, [], r.held ++ r.buffered⟩)

/-! ### The lines of a text -/

/-- The lines of a text whose first line has begun with `acc`, each with its separator; what follows the last
separator is no line. -/
def linesFrom : List α → List α → List (List α)
  | _, [] => []
  | acc, a :: text => if a = sep then (acc ++ [a]) :: linesFrom [] text else linesFrom (acc ++ [a]) text

/-- What follows the last separator. -/
def tailFrom : List α → List α → List α
  | acc, [] => acc
  | acc, a :: text => if a = sep then tailFrom [] text else tailFrom (acc ++ [a]) text

def lines (text : List α) : List (List α) := linesFrom sep [] text

def tail (text : List α) : List α := tailFrom sep [] text

variable {sep} (acc : List α) {text line : List α}

theorem linesFrom_append (more : List α) :
    linesFrom sep acc (text ++ more) = linesFrom sep acc text ++ linesFrom sep (tailFrom sep acc text) more := by
  induction text generalizing acc with
  | nil => rfl
  | cons a text ih =>
    rw [List.cons_append, linesFrom, linesFrom, tailFrom]
    split
    · rw [ih, List.cons_append]
    · exact ih (acc ++ [a])

theorem tailFrom_append (more : List α) :
    tailFrom sep acc (text ++ more) = tailFrom sep (tailFrom sep acc text) more := by
  induction text generalizing acc with
  | nil => rfl
  | cons a text ih =>
    rw [List.cons_append, tailFrom, tailFrom]
    split
    · exact ih []
    · exact ih (acc ++ [a])

theorem lines_prefix_append (sep : α) (text more : List α) : lines sep text <+: lines sep (text ++ more) := by
  rw [lines, lines, linesFrom_append]
  exact List.prefix_append _ _

theorem linesFrom_of_notMem (h : sep ∉ text) : linesFrom sep acc text = [] ∧ tailFrom sep acc text = acc ++ text := by
  induction text generalizing acc with
  | nil => simp [linesFrom, tailFrom]
  | cons a text ih =>
    obtain ⟨hne, hrest⟩ : sep ≠ a ∧ sep ∉ text := by simpa using h
    rw [linesFrom, tailFrom, if_neg (Ne.symm hne), if_neg (Ne.symm hne)]
    obtain ⟨hlines, htail⟩ := ih (acc ++ [a]) hrest
    exact ⟨hlines, by rw [htail, List.append_assoc, List.singleton_append]⟩

theorem lines_append_of_notMem (text : List α) {more : List α} (h : sep ∉ more) :
    lines sep (text ++ more) = lines sep text := by
  rw [lines, linesFrom_append, (linesFrom_of_notMem _ h).1, List.append_nil, lines]

/-- The rest of a line completes it. -/
theorem linesFrom_line (h : sep ∉ line) :
    linesFrom sep acc (line ++ [sep]) = [acc ++ line ++ [sep]] ∧ tailFrom sep acc (line ++ [sep]) = [] := by
  obtain ⟨hlines, htail⟩ := linesFrom_of_notMem acc h
  rw [linesFrom_append, tailFrom_append, hlines, htail]
  simp [linesFrom, tailFrom]

/-! ### What reads give -/

variable {r r' : LineReader α}

variable (sep) in
/-- The read under way has collected the line the stream is in. -/
def Aligned (r : LineReader α) : Prop := r.held = tail sep r.taken

/-- What a resumed read does: it takes the rest of the line, or everything. -/
theorem poll_cases (sep : α) (r : LineReader α) :
    (∃ line rest, sep ∉ line ∧ r.buffered = line ++ sep :: rest ∧
      r.poll sep = (some (r.held ++ line ++ [sep]), ⟨r.taken ++ line ++ [sep], rest, []⟩)) ∨
    (sep ∉ r.buffered ∧ r.poll sep = (none, ⟨r.taken ++ r.buffered, [], r.held ++ r.buffered⟩)) := by
  have hnot : sep ∉ r.buffered.takeWhile (· ≠ sep) := fun hmem => by
    simpa using List.mem_takeWhile_imp hmem
  have hsplit := List.takeWhile_append_dropWhile (p := (· ≠ sep)) (l := r.buffered)
  rw [poll]
  cases hdrop : r.buffered.dropWhile (· ≠ sep) with
  | nil =>
    refine .inr ⟨?_, rfl⟩
    rw [hdrop, List.append_nil] at hsplit
    rwa [hsplit] at hnot
  | cons a rest =>
    have ha : a = sep := by
      have hhead := List.head?_dropWhile_not (· ≠ sep) r.buffered
      rw [hdrop] at hhead
      simpa using hhead
    subst ha
    rw [hdrop] at hsplit
    exact .inl ⟨_, rest, hnot, hsplit.symm, rfl⟩

theorem poll_taken (sep : α) (r : LineReader α) :
    (r.poll sep).2.taken ++ (r.poll sep).2.buffered = r.taken ++ r.buffered := by
  obtain ⟨line, rest, -, hbuffered, hpoll⟩ | ⟨-, hpoll⟩ := r.poll_cases sep
  · simp [hpoll, hbuffered]
  · simp [hpoll]

/-- A read that returns gives the next line of the stream. -/
theorem Aligned.poll_some (haligned : r.Aligned sep) (h : r.poll sep = (some line, r')) :
    lines sep r'.taken = lines sep r.taken ++ [line] ∧ r'.Aligned sep := by
  obtain ⟨rest, _, hnot, -, hpoll⟩ | ⟨-, hpoll⟩ := r.poll_cases sep
  · rw [hpoll] at h
    cases h
    obtain ⟨hlines, htail⟩ := linesFrom_line (tailFrom sep [] r.taken) hnot
    constructor
    · rw [lines, List.append_assoc, linesFrom_append, hlines, haligned]
      rfl
    · rw [Aligned, tail, List.append_assoc, tailFrom_append, htail]
  · rw [hpoll] at h
    cases h

/-- A read that waits has taken no whole line. -/
theorem Aligned.poll_none (haligned : r.Aligned sep) (h : r.poll sep = (none, r')) :
    lines sep r'.taken = lines sep r.taken ∧ r'.Aligned sep := by
  obtain ⟨_, _, -, -, hpoll⟩ | ⟨hnot, hpoll⟩ := r.poll_cases sep
  · rw [hpoll] at h
    cases h
  · rw [hpoll] at h
    cases h
    obtain ⟨hlines, htail⟩ := linesFrom_of_notMem (tailFrom sep [] r.taken) hnot
    constructor
    · rw [lines, linesFrom_append, hlines, List.append_nil]
      rfl
    · rw [Aligned, tail, tailFrom_append, htail, haligned]
      rfl

end LineReader
