import Tetron.Lib.FlooredSum

/-!
# Rate limits of control messages

A gate takes a token for each message from a bucket. Messages without a token are dropped and counted as
strikes, a message with a token takes a strike back, and the connection is closed when the strikes reach a
limit. Whether the bucket (of the `ratelimit` crate) has a token is an input here.

Both gates count alike as long as their `u32` lasts (`Tally`). `close_iff` says what a count at the limit means
for the messages: some of the last ones had that many more refused than admitted.
-/

namespace Tetron.Ratelimit

inductive Verdict
  | allow
  | drop
  | close
deriving DecidableEq, Repr

/-! ### The gates -/

/-- The gate of one connection. -/
structure ControlGate where
  strikes : ℕ
  strikeLimit : ℕ

/-- `strikes` is saturated on both ends. -/
def ControlGate.check (gate : ControlGate) (token : Bool) : Verdict × ControlGate :=
  if token then (.allow, { gate with strikes := gate.strikes - 1 })
  else
    let strikes := min (gate.strikes + 1) (2 ^ 32 - 1)
    (if strikes ≥ gate.strikeLimit then .close else .drop, { gate with strikes := strikes })

/-- The gate of the daemon. -/
structure GlobalRateLimiter where
  strikes : ℕ
  strikeLimit : ℕ

/-- `fetch_add` wraps, and the sum it is compared by saturates. -/
def GlobalRateLimiter.check (gate : GlobalRateLimiter) (token : Bool) : Verdict × GlobalRateLimiter :=
  if token then (.allow, { gate with strikes := gate.strikes - 1 })
  else
    (if min (gate.strikes + 1) (2 ^ 32 - 1) ≥ gate.strikeLimit then .close else .drop,
      { gate with strikes := (gate.strikes + 1) % 2 ^ 32 })

/-- The connection's gate first, and the daemon's for the messages it lets through. -/
def ControlGate.checkWithGlobal (gate : ControlGate) (global : GlobalRateLimiter) (token globalToken : Bool) :
    Verdict × ControlGate × GlobalRateLimiter :=
  match gate.check token with
  | (.allow, gate') => ((global.check globalToken).1, gate', (global.check globalToken).2)
  | (other, gate') => (other, gate', global)

/-! ### Counting without an end -/

/-- A gate that counts in the naturals. -/
structure Tally where
  strikes : ℕ
  strikeLimit : ℕ

def Tally.check (tally : Tally) (token : Bool) : Verdict × Tally :=
  if token then (.allow, { tally with strikes := tally.strikes - 1 })
  else
    (if tally.strikes + 1 ≥ tally.strikeLimit then .close else .drop, { tally with strikes := tally.strikes + 1 })

/-- The answers to a sequence of messages, each with its token or without. -/
def answers {G : Type} (check : G → Bool → Verdict × G) : G → List Bool → List Verdict
  | _, [] => []
  | gate, token :: tokens => (check gate token).1 :: answers check (check gate token).2 tokens

/-- The gate after a sequence of messages. -/
def after {G : Type} (check : G → Bool → Verdict × G) (gate : G) (tokens : List Bool) : G :=
  tokens.foldl (fun gate token => (check gate token).2) gate

section Refinement

variable {G : Type} {check : G → Bool → Verdict × G} {toTally : G → Tally} {gate : G} {tokens : List Bool}

/-- The answer to message `i` is that of the gate after the messages before it. -/
theorem getElem?_answers (check : G → Bool → Verdict × G) (gate : G) (tokens : List Bool) (i : ℕ) :
    (answers check gate tokens)[i]? =
      tokens[i]?.map fun token => (check (after check gate (tokens.take i)) token).1 := by
  induction tokens generalizing gate i with
  | nil => rfl
  | cons token tokens ih =>
    cases i with
    | zero => rfl
    | succ i =>
      rw [answers, List.getElem?_cons_succ, ih, List.getElem?_cons_succ, List.take_succ_cons]
      rfl

theorem Tally.strikes_check_le (tally : Tally) (token : Bool) : (tally.check token).2.strikes ≤ tally.strikes + 1 := by
  cases token with
  | true => exact (Nat.sub_le _ _).trans (Nat.le_succ _)
  | false => exact le_refl _

/-- A gate that counts like a tally while its `u32` lasts answers like it. -/
theorem answers_eq_tally
    (hcheck : ∀ gate token, (toTally gate).strikes + 1 < 2 ^ 32 →
      Prod.map id toTally (check gate token) = (toTally gate).check token)
    (hlen : (toTally gate).strikes + tokens.length < 2 ^ 32) :
    answers check gate tokens = answers Tally.check (toTally gate) tokens := by
  induction tokens generalizing gate with
  | nil => rfl
  | cons token tokens ih =>
    rw [List.length_cons] at hlen
    have hstep := hcheck gate token (by omega)
    have hnext : toTally (check gate token).2 = ((toTally gate).check token).2 := congrArg Prod.snd hstep
    have hle := (toTally gate).strikes_check_le token
    rw [answers, answers, ih (by rw [hnext]; omega), hnext]
    exact congrArg (· :: _) (congrArg Prod.fst hstep)

end Refinement

def ControlGate.toTally (gate : ControlGate) : Tally := ⟨gate.strikes, gate.strikeLimit⟩

def GlobalRateLimiter.toTally (gate : GlobalRateLimiter) : Tally := ⟨gate.strikes, gate.strikeLimit⟩

theorem ControlGate.check_refines (gate : ControlGate) (token : Bool) (h : gate.toTally.strikes + 1 < 2 ^ 32) :
    Prod.map id toTally (gate.check token) = gate.toTally.check token := by
  have hmin : min (gate.strikes + 1) (2 ^ 32 - 1) = gate.strikes + 1 := Nat.min_eq_left (Nat.le_sub_one_of_lt h)
  cases token with
  | true => rfl
  | false =>
    rw [check, hmin]
    rfl

theorem GlobalRateLimiter.check_refines (gate : GlobalRateLimiter) (token : Bool)
    (h : gate.toTally.strikes + 1 < 2 ^ 32) :
    Prod.map id toTally (gate.check token) = gate.toTally.check token := by
  have hmin : min (gate.strikes + 1) (2 ^ 32 - 1) = gate.strikes + 1 := Nat.min_eq_left (Nat.le_sub_one_of_lt h)
  have hmod : (gate.strikes + 1) % 2 ^ 32 = gate.strikes + 1 := Nat.mod_eq_of_lt h
  cases token with
  | true => rfl
  | false =>
    rw [check, hmin, hmod]
    rfl

/-! ### What the count means -/

/-- What a message adds to the strikes. -/
def strike (token : Bool) : ℤ := if token then -1 else 1

/-- The refused messages of a sequence are at least `limit` more than the admitted ones. -/
def Overruns (limit : ℕ) (messages : List Bool) : Prop := limit + messages.count true ≤ messages.count false

section Count

variable {limit i : ℕ} {tokens : List Bool}

theorem sum_map_strike (messages : List Bool) :
    (messages.map strike).sum = (messages.count false : ℤ) - messages.count true := by
  induction messages with
  | nil => rfl
  | cons token messages ih =>
    rw [List.map_cons, List.sum_cons, ih, List.count_cons, List.count_cons]
    cases token <;> simp [strike] <;> omega

theorem overruns_iff {messages : List Bool} : Overruns limit messages ↔ (limit : ℤ) ≤ (messages.map strike).sum := by
  rw [Overruns, sum_map_strike]
  omega

theorem after_concat {G : Type} (check : G → Bool → Verdict × G) (gate : G) (tokens : List Bool) (token : Bool) :
    after check gate (tokens ++ [token]) = (check (after check gate tokens) token).2 := by
  rw [after, List.foldl_append]
  rfl

/-- The strikes are the floored sum over all messages. -/
theorem strikes_after (limit : ℕ) (tokens : List Bool) :
    ((after Tally.check ⟨0, limit⟩ tokens).strikes : ℤ) = FlooredSum.floored (tokens.map strike) ∧
      (after Tally.check ⟨0, limit⟩ tokens).strikeLimit = limit := by
  induction tokens using List.reverseRecOn with
  | nil => exact ⟨rfl, rfl⟩
  | append_singleton tokens token ih =>
    rw [after_concat, List.map_append, List.map_singleton, FlooredSum.floored_concat, ← ih.1]
    cases token with
    | true =>
      refine ⟨?_, ih.2⟩
      simp only [Tally.check, strike, if_true]
      omega
    | false =>
      refine ⟨?_, ih.2⟩
      simp only [Tally.check, strike, Bool.false_eq_true, if_false]
      omega

/-- Messages ending with a refused one overrun the limit if the count after them is at the limit. -/
theorem limit_le_iff (messages : List Bool) :
    limit ≤ (after Tally.check ⟨0, limit⟩ messages).strikes + 1 ↔
      ∃ j ≤ messages.length, Overruns limit ((messages ++ [false]).drop j) := by
  have hcount : (((after Tally.check ⟨0, limit⟩ messages).strikes + 1 : ℕ) : ℤ) =
      FlooredSum.floored ((messages ++ [false]).map strike) := by
    rw [← (strikes_after limit _).1, after_concat]
    rfl
  rw [← Int.ofNat_le, hcount, FlooredSum.le_floored_iff]
  constructor
  · rintro ⟨last, hlast, hsum⟩
    rw [List.suffix_iff_eq_drop] at hlast
    generalize ((messages ++ [false]).map strike).length - last.length = j at hlast
    rw [hlast, ← List.map_drop] at hsum
    rcases Nat.lt_or_ge messages.length j with hlt | hle
    · -- no message at all: the last one alone has a strike more
      refine ⟨messages.length, le_refl _, ?_⟩
      rw [List.drop_eq_nil_of_le (by simpa using hlt), List.map_nil, List.sum_nil] at hsum
      rw [overruns_iff, List.drop_left, List.map_singleton, List.sum_singleton]
      exact hsum.trans (by decide)
    · exact ⟨j, hle, overruns_iff.mpr hsum⟩
  · rintro ⟨j, -, hover⟩
    refine ⟨_, ?_, overruns_iff.mp hover⟩
    rw [List.map_drop]
    exact List.drop_suffix _ _

theorem Tally.check_eq_close {tally : Tally} {token : Bool} :
    (tally.check token).1 = .close ↔ token = false ∧ tally.strikeLimit ≤ tally.strikes + 1 := by
  cases token with
  | true => simp [check]
  | false => simp [check, ite_eq_left_iff]

/-- A refused message is dropped at least. -/
theorem refused_ne_allow (c : Prop) [Decidable c] : (if c then Verdict.close else .drop) ≠ .allow := by
  split <;> exact Verdict.noConfusion

theorem Tally.check_eq_allow {tally : Tally} {token : Bool} : (tally.check token).1 = .allow ↔ token = true := by
  cases token with
  | true => simp [check]
  | false =>
    simp only [check, Bool.false_eq_true, if_false, iff_false]
    exact refused_ne_allow _

/-- What the answers to messages with and without tokens ought to be: `close` for a refused one at the end of
messages that overrun the limit, `allow` for an admitted one. -/
def Answers (limit : ℕ) (tokens : List Bool) (verdicts : List Verdict) : Prop :=
  verdicts.length = tokens.length ∧ ∀ i < tokens.length,
    (verdicts[i]? = some .close ↔
        tokens[i]? = some false ∧ ∃ j ≤ i, Overruns limit ((tokens.take (i + 1)).drop j)) ∧
      (verdicts[i]? = some .allow ↔ tokens[i]? = some true)

theorem length_answers {G : Type} (check : G → Bool → Verdict × G) (gate : G) (tokens : List Bool) :
    (answers check gate tokens).length = tokens.length := by
  induction tokens generalizing gate with
  | nil => rfl
  | cons token tokens ih => rw [answers, List.length_cons, List.length_cons, ih]

theorem tally_answers (limit : ℕ) (tokens : List Bool) :
    Answers limit tokens (answers Tally.check ⟨0, limit⟩ tokens) := by
  refine ⟨length_answers _ _ _, fun i hi => ?_⟩
  have htoken := List.getElem?_eq_getElem hi
  have hprefix : tokens.take (i + 1) = tokens.take i ++ [tokens[i]] := List.take_succ_eq_append_getElem hi
  have htake : (tokens.take i).length = i := List.length_take_of_le hi.le
  rw [getElem?_answers, htoken, Option.map_some, hprefix, Option.some_inj, Option.some_inj, Option.some_inj,
    Option.some_inj, Tally.check_eq_close, Tally.check_eq_allow, (strikes_after limit _).2]
  refine ⟨and_congr_right fun hrefused => ?_, Iff.rfl⟩
  rw [limit_le_iff, htake, hrefused]

/-- Both gates close the connection on a refused message exactly if some of the last messages, up to it, have
at least as many refused ones more than admitted ones as the limit says, and admit what has a token. -/
theorem close_iff (limit : ℕ) (tokens : List Bool) (hlen : tokens.length < 2 ^ 32) :
    Answers limit tokens (answers ControlGate.check ⟨0, limit⟩ tokens) ∧
      Answers limit tokens (answers GlobalRateLimiter.check ⟨0, limit⟩ tokens) := by
  have hstart : 0 + tokens.length < 2 ^ 32 := by rwa [Nat.zero_add]
  constructor
  · rw [answers_eq_tally ControlGate.check_refines (show (ControlGate.toTally ⟨0, limit⟩).strikes + _ < _ from hstart)]
    exact tally_answers limit tokens
  · rw [answers_eq_tally GlobalRateLimiter.check_refines
      (show (GlobalRateLimiter.toTally ⟨0, limit⟩).strikes + _ < _ from hstart)]
    exact tally_answers limit tokens

/-- Refused, refused, admitted, refused with a limit of two: the second message closes the connection, and so
does the last. -/
theorem close_iff_four :
    answers ControlGate.check ⟨0, 2⟩ [false, false, true, false] = [.drop, .close, .allow, .close] ∧
      Answers 2 [false, false, true, false] (answers ControlGate.check ⟨0, 2⟩ [false, false, true, false]) ∧
      Answers 2 [false, false, true, false] (answers GlobalRateLimiter.check ⟨0, 2⟩ [false, false, true, false]) :=
  ⟨by decide, close_iff 2 [false, false, true, false] (by decide)⟩

end Count

theorem ControlGate.check_eq_allow {gate : ControlGate} {token : Bool} :
    (gate.check token).1 = .allow ↔ token = true := by
  cases token with
  | true => exact iff_of_true rfl rfl
  | false =>
    simp only [check, Bool.false_eq_true, if_false, iff_false]
    exact refused_ne_allow _

theorem GlobalRateLimiter.check_eq_allow {gate : GlobalRateLimiter} {token : Bool} :
    (gate.check token).1 = .allow ↔ token = true := by
  cases token with
  | true => exact iff_of_true rfl rfl
  | false =>
    simp only [check, Bool.false_eq_true, if_false, iff_false]
    exact refused_ne_allow _

/-- A message is processed if both gates have a token for it. One that its own gate refuses does not count
against the others. -/
theorem checkWithGlobal_spec (gate : ControlGate) (global : GlobalRateLimiter) (token globalToken : Bool) :
    ((gate.checkWithGlobal global token globalToken).1 = .allow ↔ token = true ∧ globalToken = true) ∧
      (token = false → (gate.checkWithGlobal global token globalToken).2.2 = global) := by
  have hallow : (gate.check token).1 = .allow ↔ token = true := ControlGate.check_eq_allow
  rcases hcheck : gate.check token with ⟨verdict, gate'⟩
  rw [hcheck] at hallow
  cases verdict with
  | allow =>
    have htoken := hallow.mp rfl
    rw [ControlGate.checkWithGlobal, hcheck, htoken]
    refine ⟨?_, fun h => absurd h.symm Bool.false_ne_true⟩
    rw [GlobalRateLimiter.check_eq_allow]
    exact (and_iff_right rfl).symm
  | drop | close =>
    have htoken : token ≠ true := fun h => Verdict.noConfusion (hallow.mpr h)
    rw [ControlGate.checkWithGlobal, hcheck]
    exact ⟨iff_of_false Verdict.noConfusion fun h => htoken h.1, fun _ => rfl⟩

end Tetron.Ratelimit
