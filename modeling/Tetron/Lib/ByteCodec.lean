import Mathlib.Algebra.Order.BigOperators.Group.List
import Mathlib.Algebra.Order.Group.Nat
import Mathlib.Algebra.Order.Ring.Nat

/-!
# Self-delimiting codecs

A codec writes a value as bytes and reads it back from the front of a stream, with what follows left over. What has been
read does not depend on what follows (`read_append`), so that no proper beginning of what was written reads as the value
(`whole_take`), and codecs can be put side by side: pairs, lists, tagged unions.

Numbers are written seven bits a byte, the lowest first, with the high bit set on all bytes but the last.
-/

structure ByteCodec (α : Type*) where
  write : α → List UInt8
  read : List UInt8 → Option (α × List UInt8)
  read_write : ∀ a rest, read (write a ++ rest) = some (a, rest)
  read_append : ∀ {bytes a rest} (more : List UInt8), read bytes = some (a, rest) →
    read (bytes ++ more) = some (a, rest ++ more)

namespace ByteCodec

variable {α β : Type*}

/-- Read a value that takes up all of the bytes. -/
def whole (c : ByteCodec α) (bytes : List UInt8) : Option α :=
  (c.read bytes).bind fun (a, rest) => if rest.isEmpty then some a else none

theorem whole_write (c : ByteCodec α) (a : α) : c.whole (c.write a) = some a := by
  have hread := c.read_write a []
  rw [List.append_nil] at hread
  rw [whole, hread]
  rfl

/-- What was cut short does not read. -/
theorem whole_take (c : ByteCodec α) {a : α} {n : ℕ} (hn : n < (c.write a).length) :
    c.whole ((c.write a).take n) ≠ some a := by
  intro h
  obtain ⟨⟨a', rest⟩, hread, hrest⟩ := Option.bind_eq_some_iff.mp h
  have hlonger := c.read_append ((c.write a).drop n) hread
  have hall := c.read_write a []
  rw [List.append_nil] at hall
  rw [List.take_append_drop, hall] at hlonger
  have hnil : rest ++ (c.write a).drop n = [] := (congrArg Prod.snd (Option.some.inj hlonger)).symm
  have hdrop := (List.append_eq_nil_iff.mp hnil).2
  rw [List.drop_eq_nil_iff] at hdrop
  omega

/-! ### Numbers -/

def writeNat : ℕ → ℕ → List UInt8
  | 0, _ => []
  | fuel + 1, n =>
    if n < 128 then [UInt8.ofNat n] else UInt8.ofNat (n % 128 + 128) :: writeNat fuel (n / 128)

def readNat : List UInt8 → Option (ℕ × List UInt8)
  | [] => none
  | b :: bytes =>
    if b.toNat < 128 then some (b.toNat, bytes)
    else (readNat bytes).map fun (n, rest) => (b.toNat - 128 + 128 * n, rest)

theorem readNat_writeNat {fuel n : ℕ} (h : n < fuel) (rest : List UInt8) :
    readNat (writeNat fuel n ++ rest) = some (n, rest) := by
  induction fuel generalizing n with
  | zero => omega
  | succ fuel ih =>
    rw [writeNat]
    split
    · have hbyte : (UInt8.ofNat n).toNat = n := by rw [UInt8.toNat_ofNat', Nat.mod_eq_of_lt (by omega)]
      rw [List.singleton_append, readNat, hbyte, if_pos ‹_›]
    · have hbyte : (UInt8.ofNat (n % 128 + 128)).toNat = n % 128 + 128 := by
        rw [UInt8.toNat_ofNat', Nat.mod_eq_of_lt (by omega)]
      rw [List.cons_append, readNat, hbyte, if_neg (by omega), ih (by omega), Option.map_some]
      have hsum : n % 128 + 128 - 128 + 128 * (n / 128) = n := by omega
      exact congrArg (fun m => some (m, rest)) hsum

theorem readNat_append {bytes rest : List UInt8} {n : ℕ} (more : List UInt8) (h : readNat bytes = some (n, rest)) :
    readNat (bytes ++ more) = some (n, rest ++ more) := by
  induction bytes generalizing n with
  | nil => cases h
  | cons b bytes ih =>
    rw [readNat] at h
    rw [List.cons_append, readNat]
    split at h
    · rw [if_pos ‹_›]
      cases h
      rfl
    · obtain ⟨⟨m, rest'⟩, hread, heq⟩ := Option.map_eq_some_iff.mp h
      obtain ⟨rfl, rfl⟩ := Prod.mk.inj heq
      rw [if_neg ‹_›, ih hread]
      rfl

def nat : ByteCodec ℕ where
  write n := writeNat (n + 1) n
  read := readNat
  read_write n rest := readNat_writeNat (by omega) rest
  read_append more h := readNat_append more h

theorem length_nat_pos (n : ℕ) : 1 ≤ (nat.write n).length := by
  change 1 ≤ (writeNat (n + 1) n).length
  rw [writeNat]
  split <;> simp

/-! ### Other types -/

def unit : ByteCodec Unit where
  write _ := []
  read bytes := some ((), bytes)
  read_write _ _ := rfl
  read_append more hread := by
    cases hread
    rfl

/-- The values of another type, one for one among those of the first. -/
def map (c : ByteCodec α) (into : β → α) (back : α → β) (h : ∀ b, back (into b) = b) : ByteCodec β where
  write b := c.write (into b)
  read bytes := (c.read bytes).map fun a => (back a.1, a.2)
  read_write b rest := by rw [c.read_write, Option.map_some, h]
  read_append more hread := by
    obtain ⟨⟨a, rest⟩, ha, heq⟩ := Option.map_eq_some_iff.mp hread
    obtain ⟨rfl, rfl⟩ := Prod.mk.inj heq
    rw [c.read_append more ha, Option.map_some]

/-- A value behind so many zero bytes. -/
def padded (width : ℕ) (c : ByteCodec α) : ByteCodec α where
  write a := List.replicate width 0 ++ c.write a
  read bytes := if bytes.length < width then none else c.read (bytes.drop width)
  read_write a rest := by
    rw [if_neg (by simp), List.append_assoc, List.drop_left' (by simp), c.read_write]
  read_append {bytes a rest} more hread := by
    split at hread
    · cases hread
    · rw [if_neg (by rw [List.length_append]; omega), List.drop_append_of_le_length (by omega),
        c.read_append more hread]

/-- A value whose type goes by a tag, behind the tag. -/
def tagged {κ : Type*} {π : κ → Type*} (t : ByteCodec κ) (c : ∀ k, ByteCodec (π k)) : ByteCodec (Σ k, π k) where
  write p := t.write p.1 ++ (c p.1).write p.2
  read bytes := (t.read bytes).bind fun k => ((c k.1).read k.2).map fun a => (⟨k.1, a.1⟩, a.2)
  read_write p rest := by
    rw [List.append_assoc, t.read_write, Option.bind_some, (c p.1).read_write]
    rfl
  read_append more hread := by
    obtain ⟨⟨k, rest⟩, hk, hpayload⟩ := Option.bind_eq_some_iff.mp hread
    obtain ⟨⟨a, rest'⟩, ha, heq⟩ := Option.map_eq_some_iff.mp hpayload
    obtain ⟨rfl, rfl⟩ := Prod.mk.inj heq
    rw [t.read_append more hk, Option.bind_some, (c k).read_append more ha]
    rfl

def pair (c : ByteCodec α) (d : ByteCodec β) : ByteCodec (α × β) :=
  (tagged c fun _ => d).map (fun p => ⟨p.1, p.2⟩) (fun p => (p.1, p.2)) fun _ => rfl

def readMany (c : ByteCodec α) : ℕ → List UInt8 → Option (List α × List UInt8)
  | 0, bytes => some ([], bytes)
  | n + 1, bytes => (c.read bytes).bind fun a => (c.readMany n a.2).map fun l => (a.1 :: l.1, l.2)

theorem readMany_flatMap (c : ByteCodec α) (l : List α) (rest : List UInt8) :
    c.readMany l.length (l.flatMap c.write ++ rest) = some (l, rest) := by
  induction l with
  | nil => rfl
  | cons a l ih =>
    rw [List.length_cons, readMany, List.flatMap_cons, List.append_assoc, c.read_write, Option.bind_some, ih]
    rfl

theorem readMany_append (c : ByteCodec α) {n : ℕ} {bytes rest : List UInt8} {l : List α} (more : List UInt8)
    (h : c.readMany n bytes = some (l, rest)) : c.readMany n (bytes ++ more) = some (l, rest ++ more) := by
  induction n generalizing bytes l with
  | zero =>
    cases h
    rfl
  | succ n ih =>
    obtain ⟨⟨a, rest'⟩, ha, htail⟩ := Option.bind_eq_some_iff.mp h
    obtain ⟨⟨l', rest''⟩, hl, heq⟩ := Option.map_eq_some_iff.mp htail
    obtain ⟨rfl, rfl⟩ := Prod.mk.inj heq
    rw [readMany, c.read_append more ha, Option.bind_some, ih hl]
    rfl

/-- The length, then one element after the other. -/
def list (c : ByteCodec α) : ByteCodec (List α) where
  write l := nat.write l.length ++ l.flatMap c.write
  read bytes := (nat.read bytes).bind fun n => c.readMany n.1 n.2
  read_write l rest := by
    rw [List.append_assoc, nat.read_write, Option.bind_some, c.readMany_flatMap]
  read_append more hread := by
    obtain ⟨⟨n, rest⟩, hn, hl⟩ := Option.bind_eq_some_iff.mp hread
    rw [nat.read_append more hn, Option.bind_some, c.readMany_append more hl]

/-- A list takes at least what its elements take. -/
theorem sum_le_length_list (c : ByteCodec α) {f : α → ℕ} (hf : ∀ a, f a ≤ (c.write a).length) (l : List α) :
    (l.map f).sum ≤ ((list c).write l).length := by
  change _ ≤ (nat.write l.length ++ l.flatMap c.write).length
  rw [List.length_append, List.length_flatMap]
  refine (List.sum_le_sum fun a _ => hf a).trans (Nat.le_add_left _ _)

/-- A list of one value, or of none. -/
def option (c : ByteCodec α) : ByteCodec (Option α) :=
  (list c).map Option.toList List.head? fun o => by cases o <;> rfl

def bool : ByteCodec Bool := nat.map Bool.toNat (· == 1) fun b => by cases b <;> rfl

def byte : ByteCodec UInt8 := nat.map UInt8.toNat UInt8.ofNat fun _ => UInt8.ofNat_toNat

def string : ByteCodec String :=
  (list (nat.map Char.toNat Char.ofNat Char.ofNat_toNat)).map String.toList String.ofList fun _ =>
    String.ofList_toList

theorem length_string (s : String) : s.length ≤ (string.write s).length := by
  have hsum := sum_le_length_list (nat.map Char.toNat Char.ofNat Char.ofNat_toNat) (f := fun _ => 1)
    (fun c => length_nat_pos c.toNat) s.toList
  have hones : (s.toList.map fun _ => 1).sum = s.length := by simp [String.length_toList]
  rwa [hones] at hsum

end ByteCodec
