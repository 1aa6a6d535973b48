import Tetron.Config.Settings

/-!
# What was set is what is shown

After a successful `config set`, `config get` shows the value that was given, or the default after a reset, and every
other key reads as before; a failed one changes nothing. This holds for all keys but those of `reconnect-holddown`:
they can be set and take effect, but `config get` calls them unknown (`reads_back_iff`). What is to be shown is said in
terms of the operator's text (`Kind.Shows`), not of the two functions.
-/

namespace Tetron.Config.Overrides

/-! ### What an operator writes -/

/-- The text is a decimal numeral of `n`; a plus sign and leading zeros may stand before it. -/
def Numeral (text : List Char) (n : ℕ) : Prop :=
  ∃ digits : List Char, digits ≠ [] ∧ (∀ c ∈ digits, c.isDigit = true) ∧ Nat.ofDigitChars 10 digits 0 = n ∧
    (text = digits ∨ text = '+' :: digits)

/-- The entries of a value are what stands between its commas, without the white space around it and without what is
then empty. -/
def Entries (value : String) (entries : List String) : Prop :=
  ∃ pieces : List (List Char), pieces ≠ [] ∧ (∀ piece ∈ pieces, ',' ∉ piece) ∧
    value.toList = [','].intercalate pieces ∧
    entries = (pieces.map fun piece => String.ofList (trim piece)).filter fun entry => entry ≠ ""

/-- What kind of thing a setting is. -/
inductive Kind
  | servers
  | subnet
  | number
  | duration
  | switch
  | word (words : List String)

def Key.kind : Key → Kind
  | relay | discoveryDns => .servers
  | subnet => .subnet
  | nukeProposalTtl | inviteDefaultExpiry => .duration
  | selfcaptureMitigation => .switch
  | logLevel => .word ["trace", "debug", "info", "warn", "error"]
  | pathPreference => .word ["direct", "relay", "tor", "veilid"]
  | _ => .number

/-- The units of a duration, in seconds. -/
def units : List (String × ℕ) := [("", 1), ("s", 1), ("m", 60), ("h", 3600), ("d", 86400), ("w", 604800)]

/-- What is to be shown for a setting of this kind once the entries have been set: a number in decimal, a duration in
seconds, a switch as `on` or `off`, a word in lower case, the servers as they were given together with the mode, and a
subnet as its address and prefix length. -/
def Kind.Shows (replace : Bool) (entries : List String) (text : String) : Kind → Prop
  | servers => (entries = ["off"] ∧ text = "off") ∨ (entries ≠ ["off"] ∧
      text = String.intercalate "," entries ++ if replace then " (replace)" else " (augment)")
  | subnet => ∃ raw base prefixText ip n, entries = [raw] ∧ raw.toList = base ++ '/' :: prefixText ∧ '/' ∉ base ∧
      trim base = (dotted ip).toList ∧ Numeral (trim prefixText) n ∧ text = dotted ip ++ "/" ++ toString n
  | number => ∃ raw n, entries = [raw] ∧ Numeral raw.toList n ∧ text = toString n
  | duration => ∃ raw number n unit seconds, entries = [raw] ∧ (unit, seconds) ∈ units ∧
      trim raw.toList = number ++ unit.toList ∧ Numeral number n ∧ text = toString (n * seconds)
  | switch => ∃ raw, entries = [raw] ∧
      ((toAsciiLowercase raw ∈ ["on", "true", "1"] ∧ text = "on") ∨
        (toAsciiLowercase raw ∈ ["off", "false", "0"] ∧ text = "off"))
  | word words => ∃ raw, entries = [raw] ∧ text = toAsciiLowercase raw ∧ text ∈ words

def Key.defaultText : Key → String
  | selfcaptureMitigation => "<default: on>"
  | logLevel => "<default: info>"
  | pathPreference => "<default: auto>"
  | _ => "<default>"

/-- What a setting is to be shown as once the entries have been set; nothing at all, and `n0`, are a reset. -/
def Key.Reports (k : Key) (replace : Bool) (entries : List String) (text : String) : Prop :=
  if entries = [] ∨ entries = ["n0"] then text = k.defaultText else k.kind.Shows replace entries text

/-! ### What the parsers accept -/

theorem digits_of_foldlM_pushDigit {bound n m : ℕ} {bytes : Bytes}
    (h : bytes.foldlM (Dht.pushDigit bound) n = some m) :
    ∃ digits : List Char, (∀ c ∈ digits, c.isDigit = true) ∧ bytes = digits.map (fun c => UInt8.ofNat c.toNat) ∧
      Nat.ofDigitChars 10 digits n = m := by
  induction bytes generalizing n with
  | nil => exact ⟨[], by simp, rfl, by simpa using h⟩
  | cons b bytes ih =>
    rw [List.foldlM_cons, Option.bind_eq_bind, Option.bind_eq_some_iff] at h
    obtain ⟨next, hpush, hrest⟩ := h
    obtain ⟨digits, hdigits, hbytes, hvalue⟩ := ih hrest
    unfold Dht.pushDigit at hpush
    split at hpush
    · rename_i hb
      split at hpush
      · obtain rfl := Option.some.inj hpush
        have hrange : 48 ≤ b.toNat ∧ b.toNat ≤ 57 := by simpa [UInt8.le_iff_toNat_le] using hb
        have hchar : (Nat.digitChar (b.toNat - 48)).toNat = b.toNat := by
          rw [Nat.toNat_digitChar_of_lt_ten (by omega)]
          omega
        refine ⟨Nat.digitChar (b.toNat - 48) :: digits, ?_, ?_, ?_⟩
        · intro c hc
          rcases List.mem_cons.mp hc with rfl | hc
          · rw [Nat.isDigit_digitChar]
            exact decide_eq_true (by omega)
          · exact hdigits c hc
        · rw [List.map_cons, hchar, UInt8.ofNat_toNat, hbytes]
        · rw [Nat.ofDigitChars_cons, hchar]
          exact hvalue
      · cases hpush
    · cases hpush

/-- A text of ASCII characters is written as one byte each. -/
theorem toUTF8_ofList {cs : List Char} (hascii : ∀ c ∈ cs, c.utf8Size = 1) :
    (String.ofList cs).toUTF8.data.toList = cs.map fun c => UInt8.ofNat c.toNat := by
  have hflat : cs.flatMap String.utf8EncodeChar = cs.map fun c => UInt8.ofNat c.toNat := by
    induction cs with
    | nil => rfl
    | cons c cs ih =>
      rw [List.flatMap_cons, String.utf8EncodeChar_eq_singleton (hascii c List.mem_cons_self),
        ih fun c' hc' => hascii c' (List.mem_cons_of_mem _ hc')]
      rfl
  change (String.ofList cs).toByteArray.data.toList = _
  rw [String.toByteArray_ofList, List.utf8Encode, hflat, List.data_toByteArray]

theorem utf8Size_of_isDigit {c : Char} (h : c.isDigit = true) : c.utf8Size = 1 := by
  rw [Char.utf8Size_eq_one_iff]
  simp only [Char.isDigit, ge_iff_le, Bool.and_eq_true, decide_eq_true_eq] at h
  exact UInt32.le_trans h.2 (by decide)

/-- The bytes `str::parse` accepts for an unsigned number. -/
theorem digits_of_parseUnsigned {bound n : ℕ} {bytes : Bytes} (h : Dht.parseUnsigned bound bytes = some n) :
    ∃ digits : List Char, digits ≠ [] ∧ (∀ c ∈ digits, c.isDigit = true) ∧ Nat.ofDigitChars 10 digits 0 = n ∧
      (bytes = digits.map (fun c => UInt8.ofNat c.toNat) ∨
        bytes = ('+' :: digits).map fun c => UInt8.ofNat c.toNat) := by
  unfold Dht.parseUnsigned at h
  by_cases hplus : bytes.head? = some 43
  · obtain ⟨rest, rfl⟩ : ∃ rest, bytes = 43 :: rest := List.head?_eq_some_iff.mp hplus
    simp only [if_pos hplus, List.tail_cons] at h
    split at h
    · cases h
    · rename_i hne
      obtain ⟨digits, hdigits, rfl, hvalue⟩ := digits_of_foldlM_pushDigit h
      exact ⟨digits, fun hnil => hne (by rw [hnil, List.map_nil]), hdigits, hvalue, .inr rfl⟩
  · simp only [if_neg hplus] at h
    split at h
    · cases h
    · rename_i hne
      obtain ⟨digits, hdigits, rfl, hvalue⟩ := digits_of_foldlM_pushDigit h
      exact ⟨digits, fun hnil => hne (by rw [hnil, List.map_nil]), hdigits, hvalue, .inl rfl⟩

/-- What `str::parse` accepts as a number is a numeral of it. -/
theorem numeral_of_parseUnsigned {bound n : ℕ} {text : String}
    (h : Dht.parseUnsigned bound text.toUTF8.data.toList = some n) : Numeral text.toList n := by
  have hback : ∀ cs : List Char, (∀ c ∈ cs, c.utf8Size = 1) →
      text.toUTF8.data.toList = cs.map (fun c => UInt8.ofNat c.toNat) → text.toList = cs := by
    intro cs hascii hbytes
    rw [← toUTF8_ofList hascii] at hbytes
    have hsame := congrArg fromUtf8 hbytes
    rw [fromUtf8_toUTF8, fromUtf8_toUTF8, Option.some.injEq] at hsame
    rw [hsame, String.toList_ofList]
  obtain ⟨digits, hne, hdigits, hvalue, hbytes⟩ := digits_of_parseUnsigned h
  have hascii : ∀ c ∈ digits, c.utf8Size = 1 := fun c hc => utf8Size_of_isDigit (hdigits c hc)
  refine ⟨digits, hne, hdigits, hvalue, ?_⟩
  rcases hbytes with hbytes | hbytes
  · exact .inl (hback digits hascii hbytes)
  · exact .inr (hback ('+' :: digits) (List.forall_mem_cons.mpr ⟨rfl, hascii⟩) hbytes)

theorem digits_of_foldlM_pushU8 {digits : List Char} {n m : ℕ} (hn : n < 256)
    (h : digits.foldlM pushU8 n = .ok m) :
    (∀ c ∈ digits, c.isDigit = true) ∧ Nat.ofDigitChars 10 digits n = m ∧ m < 256 := by
  induction digits generalizing n with
  | nil =>
    cases h
    exact ⟨by simp, rfl, hn⟩
  | cons c digits ih =>
    rw [List.foldlM_cons] at h
    unfold pushU8 at h
    split at h
    · rename_i hc
      split at h
      · rename_i hlt
        obtain ⟨hdigits, hvalue, hm⟩ := ih hlt h
        refine ⟨List.forall_mem_cons.mpr ⟨hc, hdigits⟩, ?_, hm⟩
        rw [Nat.ofDigitChars_cons]
        exact hvalue
      · cases h
    · cases h

theorem numeral_of_parseU8 {text : List Char} {n : ℕ} (h : parseU8 text = .ok n) : Numeral text n := by
  unfold parseU8 at h
  split at h
  · cases h
  · cases h
  · rename_i digits hne
    obtain ⟨hdigits, hvalue, -⟩ := digits_of_foldlM_pushU8 (by omega) h
    exact ⟨digits, fun hnil => hne (by rw [hnil]), hdigits, hvalue, .inr rfl⟩
  · rename_i hnil _ _
    obtain ⟨hdigits, hvalue, -⟩ := digits_of_foldlM_pushU8 (by omega) h
    exact ⟨text, hnil, hdigits, hvalue, .inl rfl⟩

theorem digitChar_of_isDigit {c : Char} (h : c.isDigit = true) :
    c.toNat - 48 < 10 ∧ Nat.digitChar (c.toNat - 48) = c := by
  obtain ⟨hlo, hhi⟩ : 48 ≤ c.toNat ∧ c.toNat ≤ 57 := by
    simp only [Char.isDigit, ge_iff_le, Bool.and_eq_true, decide_eq_true_eq] at h
    exact ⟨h.1, h.2⟩
  refine ⟨by omega, Char.toNat_inj.mp ?_⟩
  rw [Nat.toNat_digitChar_of_lt_ten (by omega)]
  omega

/-- Digits without a leading zero are the number's own. -/
theorem toDigits_ofDigitChars {digits : List Char} (hne : digits ≠ []) (hdigits : ∀ c ∈ digits, c.isDigit = true)
    (hzero : digits.head? = some '0' → digits.length = 1) :
    Nat.toDigits 10 (Nat.ofDigitChars 10 digits 0) = digits := by
  induction digits using List.reverseRecOn with
  | nil => exact absurd rfl hne
  | append_singleton first c ih =>
    obtain ⟨hc, hchar⟩ := digitChar_of_isDigit (hdigits c (by simp))
    have hvalue : Nat.ofDigitChars 10 (first ++ [c]) 0 = 10 * Nat.ofDigitChars 10 first 0 + (c.toNat - 48) := by
      rw [Nat.ofDigitChars_append, Nat.ofDigitChars_cons, Nat.ofDigitChars_nil]
      rfl
    rw [hvalue]
    cases first with
    | nil => rw [Nat.ofDigitChars_nil, Nat.mul_zero, Nat.zero_add, Nat.toDigits_of_lt_base hc, hchar, List.nil_append]
    | cons d rest =>
      have hd : d ≠ '0' := by
        rintro rfl
        simp at hzero
      have hpos : 0 < Nat.ofDigitChars 10 (d :: rest) 0 := by
        rw [Nat.ofDigitChars_cons]
        refine lt_of_lt_of_le ?_ (Dht.le_ofDigitChars rest _)
        have hdigit := digitChar_of_isDigit (hdigits d (by simp))
        by_contra hnot
        refine hd ?_
        rw [← hdigit.2, show d.toNat - 48 = 0 by
          have : '0'.toNat = 48 := rfl
          omega]
        rfl
      rw [← Nat.toDigits_append_toDigits (by omega) hpos hc, Nat.toDigits_of_lt_base hc, hchar,
        ih (by simp) (fun c' hc' => hdigits c' (List.mem_append_left _ hc')) fun h => ?_]
      simp only [List.head?_cons, Option.some.injEq] at h
      exact absurd h hd

theorem toString_of_parseOctet {digits : List Char} {b : UInt8} (h : parseOctet digits = some b) :
    (toString b.toNat).toList = digits := by
  unfold parseOctet at h
  split at h
  · cases h
  · rename_i hguard
    simp only [Bool.or_eq_true, Bool.and_eq_true, decide_eq_true_eq, not_or, not_and, Nat.not_lt] at hguard
    obtain ⟨⟨hne, -⟩, hzero⟩ := hguard
    cases hfold : digits.foldlM pushU8 0 with
    | error e =>
      rw [hfold] at h
      cases h
    | ok n =>
      rw [hfold] at h
      obtain rfl := Option.some.inj h
      obtain ⟨hdigits, hvalue, hn⟩ := digits_of_foldlM_pushU8 (by omega) hfold
      have hlength : digits.head? = some '0' → digits.length = 1 := by
        intro hhead
        have hle := hzero hhead
        have hpos := List.length_pos_of_ne_nil hne
        omega
      rw [UInt8.toNat_ofNat_of_lt' hn, ← hvalue, Nat.toString_eq_ofList_toDigits, String.toList_ofList,
        toDigits_ofDigitChars hne hdigits hlength]

theorem toNat_ipv4_new (a b c d : UInt8) :
    (Ipv4Addr.new a b c d).toNat = ((a.toNat * 256 + b.toNat) * 256 + c.toNat) * 256 + d.toNat := by
  have happend : ∀ {m : ℕ} (x : BitVec m) (y : UInt8), (x ++ y.toBitVec).toNat = x.toNat * 256 + y.toNat := by
    intro m x y
    rw [BitVec.toNat_append, ← Nat.shiftLeft_add_eq_or_of_lt y.toBitVec.isLt, Nat.shiftLeft_eq]
    rfl
  rw [Ipv4Addr.new, happend, happend, happend]
  rfl

/-- An address in dotted decimal is as it is printed. -/
theorem eq_dotted_of_parseIpv4 {text : List Char} {ip : Ipv4Addr} (h : parseIpv4 text = some ip) :
    text = (dotted ip).toList := by
  unfold parseIpv4 at h
  split at h
  · rename_i a b c d hsplit
    simp only [Option.bind_eq_bind, Option.bind_eq_some_iff, Option.pure_def, Option.some.injEq] at h
    obtain ⟨a', ha, b', hb, c', hc, d', hd, rfl⟩ := h
    have htext : text = a ++ '.' :: b ++ '.' :: c ++ '.' :: d := by
      have hjoin : ['.'].intercalate (text.splitOn '.') = text := List.intercalate_splitOn '.'
      rw [← hjoin, hsplit]
      simp [List.intercalate]
    have ha' := a'.toNat_lt
    have hb' := b'.toNat_lt
    have hc' := c'.toNat_lt
    have hd' := d'.toNat_lt
    have h3 : (Ipv4Addr.new a' b' c' d').toNat / 256 ^ 3 % 256 = a'.toNat := by rw [toNat_ipv4_new]; omega
    have h2 : (Ipv4Addr.new a' b' c' d').toNat / 256 ^ 2 % 256 = b'.toNat := by rw [toNat_ipv4_new]; omega
    have h1 : (Ipv4Addr.new a' b' c' d').toNat / 256 ^ 1 % 256 = c'.toNat := by rw [toNat_ipv4_new]; omega
    have h0 : (Ipv4Addr.new a' b' c' d').toNat / 256 ^ 0 % 256 = d'.toNat := by rw [toNat_ipv4_new]; omega
    rw [htext, dotted]
    simp only [h3, h2, h1, h0, String.toList_append, toString_of_parseOctet ha, toString_of_parseOctet hb,
      toString_of_parseOctet hc, toString_of_parseOctet hd]
    simp
  · cases h

/-! ### A value that is accepted is shown as such -/

theorem not_mem_of_mem_splitOn {α : Type} [DecidableEq α] (x : α) (xs : List α) :
    ∀ piece ∈ xs.splitOn x, x ∉ piece := by
  induction xs with
  | nil => simp
  | cons a xs ih =>
    obtain ⟨first, rest, hsplit⟩ := List.exists_cons_of_ne_nil (List.splitOn_ne_nil x xs)
    rw [hsplit] at ih
    rw [List.splitOn_cons_eq_if_modifyHead, hsplit]
    split
    · exact List.forall_mem_cons.mpr ⟨by simp, ih⟩
    · rename_i hne
      rw [List.modifyHead_cons]
      refine List.forall_mem_cons.mpr ⟨?_, fun piece hpiece => ih piece (List.mem_cons_of_mem _ hpiece)⟩
      have hfirst := ih first List.mem_cons_self
      simp only [List.mem_cons, not_or]
      exact ⟨fun heq => hne (by simp [heq]), hfirst⟩

theorem entries_parseEntries (value : String) : Entries value (parseEntries value) := by
  refine ⟨value.toList.splitOn ',', List.splitOn_ne_nil _ _, not_mem_of_mem_splitOn _ _, ?_, ?_⟩
  · rw [List.intercalate_splitOn]
  · unfold parseEntries
    congr 1
    funext entry
    rw [Bool.eq_iff_iff]
    simp

theorem splitOnce_eq_some {separator : Char} {text before after : List Char}
    (h : splitOnce separator text = some (before, after)) :
    text = before ++ separator :: after ∧ separator ∉ before := by
  unfold splitOnce at h
  rw [List.span_eq_takeWhile_dropWhile] at h
  split at h
  · rename_i taken found rest heq
    cases h
    obtain ⟨htake, hdrop⟩ := Prod.mk.inj heq
    have hfound : found = separator := by
      have hhead := List.head?_dropWhile_not (p := fun c => decide (c ≠ separator)) (l := text)
      rw [hdrop] at hhead
      simpa using hhead
    refine ⟨?_, fun hmem => ?_⟩
    · rw [← List.takeWhile_append_dropWhile (p := fun c => decide (c ≠ separator)) (l := text), htake, hdrop, hfound]
    · rw [← htake] at hmem
      simpa using List.mem_takeWhile_imp hmem
  · cases h

section Shown

variable {takes : String} {entries : List String} {replace : Bool}

theorem single_eq_ok {α : Type} {parse : String → Except String α} {v : Option α}
    (h : single takes parse entries false = .ok v) : ∃ raw a, entries = [raw] ∧ parse raw = .ok a ∧ v = some a := by
  unfold single at h
  rw [if_neg (by decide)] at h
  split at h
  · rename_i raw
    cases hparse : parse raw with
    | error e =>
      rw [hparse] at h
      cases h
    | ok a =>
      rw [hparse] at h
      cases h
      exact ⟨raw, a, rfl, hparse, rfl⟩
  · cases h

theorem shows_number {values : ℕ} {v : Option ℕ}
    (h : single takes (parseRatelimitValue values) entries false = .ok v) :
    Kind.number.Shows replace entries (renderOpt v) := by
  obtain ⟨raw, n, rfl, hparse, rfl⟩ := single_eq_ok h
  unfold parseRatelimitValue at hparse
  split at hparse
  · rename_i n' hn
    cases hparse
    exact ⟨raw, n, rfl, numeral_of_parseUnsigned hn, rfl⟩
  · cases hparse

theorem units_of_multiplier {suffix : String} {factor : ℕ} (h : multiplier suffix = some factor) :
    (suffix, factor) ∈ units := by
  unfold multiplier at h
  split at h <;> cases h <;> decide

theorem splitDuration_eq (s : List Char) :
    (splitDuration s).1 ++ (splitDuration s).2.toList = s ∨ splitDuration s = (s, "s") := by
  unfold splitDuration
  split
  · rename_i c hc
    split
    · refine .inl ?_
      rw [String.toList_singleton]
      exact List.dropLast_append_getLast? c hc
    · exact .inr rfl
  · exact .inr rfl

theorem shows_duration {v : Option ℕ} (h : single takes parseDuration entries false = .ok v) :
    Kind.duration.Shows replace entries (renderOpt v) := by
  obtain ⟨raw, n, rfl, hparse, rfl⟩ := single_eq_ok h
  unfold parseDuration at hparse
  simp only at hparse
  split at hparse
  · cases hparse
  · split at hparse
    · cases hparse
    · rename_i value hvalue
      split at hparse
      · cases hparse
      · rename_i factor hfactor
        split at hparse
        · cases hparse
          have hnumeral := numeral_of_parseUnsigned hvalue
          rw [String.toList_ofList] at hnumeral
          rcases splitDuration_eq (trim raw.toList) with hsplit | hsplit
          · exact ⟨raw, _, value, _, factor, rfl, units_of_multiplier hfactor, hsplit.symm, hnumeral, rfl⟩
          · rw [hsplit] at hnumeral hfactor
            cases hfactor
            refine ⟨raw, trim raw.toList, value, "", 1, rfl, by decide, ?_, hnumeral, rfl⟩
            simp
        · cases hparse

theorem shows_switch {v : Option Bool} (h : single takes parseBoolValue entries false = .ok v) :
    Kind.switch.Shows replace entries (renderMitigation v) := by
  obtain ⟨raw, b, rfl, hparse, rfl⟩ := single_eq_ok h
  refine ⟨raw, rfl, ?_⟩
  unfold parseBoolValue at hparse
  generalize toAsciiLowercase raw = word at hparse ⊢
  split at hparse
  all_goals cases hparse
  all_goals simp [renderMitigation]

theorem shows_logLevel {unset : String} {v : Option String}
    (h : single takes parseLogLevelValue entries false = .ok v) :
    (Kind.word ["trace", "debug", "info", "warn", "error"]).Shows replace entries (renderWord unset v) := by
  obtain ⟨raw, w, rfl, hparse, rfl⟩ := single_eq_ok h
  refine ⟨raw, rfl, ?_⟩
  unfold parseLogLevelValue at hparse
  generalize toAsciiLowercase raw = word at hparse ⊢
  split at hparse
  all_goals cases hparse
  all_goals simp [renderWord]

theorem shows_pathPreference {unset : String} {v : Option String}
    (h : single takes parsePathPreferenceValue entries false = .ok v) :
    (Kind.word ["direct", "relay", "tor", "veilid"]).Shows replace entries (renderWord unset v) := by
  obtain ⟨raw, w, rfl, hparse, rfl⟩ := single_eq_ok h
  refine ⟨raw, rfl, ?_⟩
  unfold parsePathPreferenceValue at hparse
  generalize toAsciiLowercase raw = word at hparse ⊢
  split at hparse
  all_goals cases hparse
  all_goals simp [renderWord]

theorem shows_subnet {v : Option Subnet} (h : configuredSubnet entries false = .ok v) :
    Kind.subnet.Shows replace entries (renderSubnet v) := by
  unfold configuredSubnet at h
  rw [if_neg (by decide)] at h
  split at h
  · rename_i raw
    unfold parseCidr at h
    split at h
    · cases h
    · rename_i base prefixText hsplit
      obtain ⟨hraw, hbase⟩ := splitOnce_eq_some hsplit
      split at h
      · cases h
      · rename_i ip hip
        split at h
        · cases h
        · rename_i n hn
          split at h
          · cases h
            exact ⟨raw, base, prefixText, ip, n, rfl, hraw, hbase, eq_dotted_of_parseIpv4 hip, numeral_of_parseU8 hn,
              rfl⟩
          · cases h
  · cases h

end Shown

section Servers

variable [Host] {preset : String} {entries : List String} {replace : Bool} {o : ServerOverride}

theorem eq_of_checkedServers (h : checkedServers preset entries replace = .ok o) : o = ⟨entries, replace⟩ := by
  unfold checkedServers at h
  cases hcheck : entries.forM (fun e => do let _ ← resolveUrlEntry e preset) with
  | error e =>
    rw [hcheck] at h
    cases h
  | ok _ =>
    rw [hcheck] at h
    cases h
    rfl

omit [Host] in
theorem shows_servers (hne : entries ≠ []) :
    Kind.servers.Shows replace entries (renderOverride ⟨entries, replace⟩) := by
  have hset : (⟨entries, replace⟩ : ServerOverride).isUnset = false := by simpa [ServerOverride.isUnset] using hne
  unfold renderOverride
  rw [if_neg (by simp [hset])]
  split
  · rename_i hoff
    exact .inl ⟨hoff, rfl⟩
  · rename_i hoff
    exact .inr ⟨hoff, rfl⟩

theorem shows_relay (hne : entries ≠ []) (h : relayOverride replace entries false = .ok o) :
    Kind.servers.Shows replace entries (renderOverride o) := by
  unfold relayOverride at h
  rw [if_neg (by decide)] at h
  split at h
  · rename_i hoff
    cases h
    exact .inl ⟨hoff, rfl⟩
  · rw [eq_of_checkedServers h]
    exact shows_servers hne

theorem shows_discovery (hne : entries ≠ []) (h : discoveryOverride replace entries false = .ok o) :
    Kind.servers.Shows replace entries (renderOverride o) := by
  unfold discoveryOverride at h
  rw [if_neg (by decide)] at h
  rw [eq_of_checkedServers h]
  exact shows_servers hne

end Servers

section Reports

variable [Host]

theorem Key.shows_of_parse {k : Key} {replace : Bool} {entries : List String} (hne : entries ≠ []) {v : k.Value}
    (h : k.parse replace entries false = .ok v) : k.kind.Shows replace entries (k.render v) := by
  cases k
  case relay => exact shows_relay hne h
  case discoveryDns => exact shows_discovery hne h
  case subnet => exact shows_subnet h
  case nukeProposalTtl | inviteDefaultExpiry => exact shows_duration h
  case selfcaptureMitigation => exact shows_switch h
  case logLevel => exact shows_logLevel h
  case pathPreference => exact shows_pathPreference h
  all_goals exact shows_number h

theorem Key.render_reset {k : Key} {replace : Bool} {entries : List String} {v : k.Value}
    (h : k.parse replace entries true = .ok v) : k.render v = k.defaultText := by
  cases k <;> cases h <;> rfl

/-- A value that is accepted is shown as what it stands for. -/
theorem Key.reports_of_parse {k : Key} {replace : Bool} {entries : List String} {v : k.Value}
    (h : k.parse replace entries (isReset entries) = .ok v) : k.Reports replace entries (k.render v) := by
  have hreset : isReset entries = true ↔ entries = [] ∨ entries = ["n0"] := by simp [isReset]
  unfold Key.Reports
  split
  · rename_i hempty
    rw [hreset.mpr hempty] at h
    exact k.render_reset h
  · rename_i hset
    rw [Bool.eq_false_iff.mpr (mt hreset.mp hset)] at h
    exact shows_of_parse (fun hnil => hset (.inl hnil)) h

end Reports

/-! ### Set, then get -/

/-- The two keys with a setter and no row. -/
def IsHolddownKey (key : String) : Prop :=
  key = "reconnect-holddown.min-uptime" ∨ key = "reconnect-holddown.jitter-pct"

instance : DecidablePred IsHolddownKey := fun _ => inferInstanceAs (Decidable (_ ∨ _))

theorem hidden_iff (k : Key) : k.hidden = true ↔ IsHolddownKey k.name := by
  cases k <;> decide

variable [Host]

/-- The key is shown as what the value stands for, and every other key reads as before the call. -/
structure ReadsBack (cfg : AppConfig) (key value : String) (replace : Bool) : Prop where
  shows : ∃ k entries text, key = Key.name k ∧ Entries value entries ∧ k.Reports replace entries text ∧
    configGet (configSet cfg key value replace).2 (some key) = .ok [(key, text)]
  others : ∀ other ≠ key, configGet (configSet cfg key value replace).2 (some other) = configGet cfg (some other)

omit [Host] in
theorem configGet_of_error {key e : String} (h : reader key = .error e) (cfg : AppConfig) :
    configGet cfg (some key) = .error e := by
  simp [configGet, row, h, Except.map]

omit [Host] in
theorem configGet_of_ok {key : String} {read : Reader} (h : reader key = .ok read) (cfg : AppConfig) :
    configGet cfg (some key) = .ok [(key, read cfg)] := by
  simp [configGet, row, h, Except.map]

/-- A key that names another setting, or none, reads as before. -/
theorem configGet_update {k : Key} {other : String} (hne : other ≠ k.name) (cfg : AppConfig) (v : k.Value) :
    configGet (cfg.update k v) (some other) = configGet cfg (some other) := by
  obtain ⟨k', hk'⟩ | href := dispatched other
  · cases hhidden : k'.hidden with
    | true =>
      obtain ⟨e, he⟩ := hk'.hides hhidden
      rw [configGet_of_error he, configGet_of_error he]
    | false =>
      have hkey : k' ≠ k := by
        rintro rfl
        exact hne hk'.name
      rw [configGet_of_ok (hk'.shown hhidden), configGet_of_ok (hk'.shown hhidden), AppConfig.value_update,
        Function.update_of_ne hkey]
  · obtain ⟨e, he⟩ := href.get
    rw [configGet_of_error he, configGet_of_error he]

/-- **Set, then get.** A call that succeeds is read back exactly when its key is not one of `reconnect-holddown`, and
a call that fails leaves the config as it was. -/
theorem reads_back_iff (cfg : AppConfig) (key value : String) (replace : Bool) :
    ((configSet cfg key value replace).1 = .ok () →
        (ReadsBack cfg key value replace ↔ ¬ IsHolddownKey key)) ∧
      ∀ e, (configSet cfg key value replace).1 = .error e → (configSet cfg key value replace).2 = cfg := by
  obtain ⟨k, hk⟩ | href := dispatched key
  · have hset : configSet cfg key value replace = assign cfg (cfg.update k)
        (k.parse replace (parseEntries value) (isReset (parseEntries value))) := hk.set _ _ _ _
    cases hparse : k.parse replace (parseEntries value) (isReset (parseEntries value)) with
    | error e =>
      rw [hparse, assign] at hset
      rw [hset]
      exact ⟨fun h => absurd h (by simp), fun _ _ => rfl⟩
    | ok v =>
      rw [hparse, assign] at hset
      refine ⟨fun _ => ?_, fun e he => absurd he (by simp [hset])⟩
      rw [hk.name, ← hidden_iff]
      constructor
      · rintro ⟨⟨_, _, text, _, _, _, hget⟩, _⟩ hhidden
        obtain ⟨e, he⟩ := hk.hides hhidden
        rw [← hk.name, configGet_of_error he] at hget
        cases hget
      · intro hshown
        rw [Bool.not_eq_true] at hshown
        rw [← hk.name]
        refine ⟨⟨k, parseEntries value, k.render v, hk.name, entries_parseEntries value, Key.reports_of_parse hparse,
          ?_⟩, fun other hother => ?_⟩
        · rw [hset, configGet_of_ok (hk.shown hshown), AppConfig.value_update, Function.update_self]
        · rw [hset]
          exact configGet_update (hk.name ▸ hother) cfg v
  · obtain ⟨e, he⟩ := href.set cfg replace (parseEntries value) (isReset (parseEntries value))
    have hset : configSet cfg key value replace = (.error e, cfg) := he
    rw [hset]
    exact ⟨fun h => absurd h (by simp), fun _ _ => rfl⟩

end Tetron.Config.Overrides

namespace Tetron.Config.Overrides.Sample

/-- A host with 64-bit words, whose URL parser takes nothing. -/
scoped instance : Host := ⟨fun _ => none, 2 ^ 64⟩

theorem reads_back_port : ReadsBack {} "listen-port" " 4242" false :=
  ((reads_back_iff {} "listen-port" " 4242" false).1 (by decide +kernel)).mpr (by decide +kernel)

/-- The value is accepted and stored, and the key is then unknown. -/
theorem holddown_unknown :
    (configSet {} "reconnect-holddown.min-uptime" "30" false).1 = .ok () ∧
      (configSet {} "reconnect-holddown.min-uptime" "30" false).2.reconnectHolddown.minUptimeSecs = some 30 ∧
      configGet (configSet {} "reconnect-holddown.min-uptime" "30" false).2 (some "reconnect-holddown.min-uptime") =
        .error (unknownOnGet "reconnect-holddown.min-uptime") := by
  decide +kernel

end Tetron.Config.Overrides.Sample
