import Tetron.Membership.GroupBlob

/-!
# The network record

Every network has one record on the DHT, signed with the network's key. Its TXT strings name the group
blob by hash and generation, the mesh protocol version, and the peers to fetch the blob from. A string is
its UTF-8 bytes.
-/

namespace Tetron.Dht

open Tetron.Membership

/-! ### Printed numbers and digests -/

/-- One digit of `str::parse` for an unsigned type with `bound` values. -/
def pushDigit (bound n : ℕ) (digit : UInt8) : Option ℕ :=
  if 48 ≤ digit ∧ digit ≤ 57 then
    if 10 * n + (digit.toNat - 48) < bound then some (10 * n + (digit.toNat - 48)) else none
  else none

/-- `str::parse` for an unsigned type with `bound` values. -/
def parseUnsigned (bound : ℕ) (text : Bytes) : Option ℕ :=
  -- a leading plus sign is allowed
  let digits := if text.head? = some 43 then text.tail else text
  if digits = [] then none else digits.foldlM (pushDigit bound) 0

/-- `Display` of a hash. -/
def hashText (h : Hash) : Bytes := (toHex h).toList.map fun c => UInt8.ofNat c.toNat

theorem digit_bounds {c : Char} (h : c.isDigit = true) :
    48 ≤ UInt8.ofNat c.toNat ∧ UInt8.ofNat c.toNat ≤ 57 ∧
      (UInt8.ofNat c.toNat).toNat - 48 = c.toNat - '0'.toNat := by
  have hrange : 48 ≤ c.toNat ∧ c.toNat ≤ 57 := by
    simp only [Char.isDigit, ge_iff_le, Bool.and_eq_true, decide_eq_true_eq] at h
    exact ⟨h.1, h.2⟩
  have hzero : '0'.toNat = 48 := rfl
  simp only [UInt8.le_iff_toNat_le, UInt8.toNat_ofNat', UInt8.toNat_ofNat, hzero]
  omega

theorem le_ofDigitChars (digits : List Char) (n : ℕ) : n ≤ Nat.ofDigitChars 10 digits n := by
  induction digits generalizing n with
  | nil => exact le_rfl
  | cons c digits ih =>
    rw [Nat.ofDigitChars_cons]
    have := ih (10 * n + (c.toNat - '0'.toNat))
    omega

theorem foldlM_pushDigit (bound : ℕ) (digits : List Char) (n : ℕ) (hdigits : ∀ c ∈ digits, c.isDigit = true)
    (hbound : Nat.ofDigitChars 10 digits n < bound) :
    (digits.map fun c => UInt8.ofNat c.toNat).foldlM (pushDigit bound) n =
      some (Nat.ofDigitChars 10 digits n) := by
  induction digits generalizing n with
  | nil => rfl
  | cons c digits ih =>
    obtain ⟨hlo, hhi, hvalue⟩ := digit_bounds (hdigits c List.mem_cons_self)
    rw [Nat.ofDigitChars_cons] at hbound ⊢
    have hsmall := (le_ofDigitChars digits _).trans_lt hbound
    have hpush : pushDigit bound n (UInt8.ofNat c.toNat) = some (10 * n + (c.toNat - '0'.toNat)) := by
      rw [pushDigit, if_pos ⟨hlo, hhi⟩, hvalue, if_pos hsmall]
    rw [List.map_cons, List.foldlM_cons, hpush, Option.bind_eq_bind, Option.bind_some]
    exact ih _ (fun c hc => hdigits c (List.mem_cons_of_mem _ hc)) hbound

/-- A printed number parses back. -/
theorem parseUnsigned_decimal {bound n : ℕ} (h : n < bound) : parseUnsigned bound (decimal n) = some n := by
  have hdigits : ∀ c ∈ Nat.toDigits 10 n, c.isDigit = true :=
    fun c hc => Nat.isDigit_of_mem_toDigits (by omega) (by omega) hc
  have hvalue : Nat.ofDigitChars 10 (Nat.toDigits 10 n) 0 = n := Nat.ofDigitChars_ten_toDigits
  have hfold := foldlM_pushDigit bound (Nat.toDigits 10 n) 0 hdigits (by rwa [hvalue])
  rw [hvalue] at hfold
  have hhead : (decimal n).head? ≠ some 43 := by
    intro hplus
    obtain ⟨c, hc, hbyte⟩ := List.mem_map.mp (List.mem_of_mem_head? hplus)
    have hlo := (digit_bounds (hdigits c hc)).1
    rw [hbyte] at hlo
    exact absurd hlo (by decide)
  have hne : decimal n ≠ [] := fun hnil => Nat.toDigits_ne_nil (List.map_eq_nil_iff.mp hnil)
  simp only [parseUnsigned, if_neg hhead, if_neg hne]
  exact hfold

/-! ### The record -/

/-- A packet signed with the network's key, by its TXT strings under `_tetron`. -/
structure SignedPacket where
  txtRecords : List Bytes
deriving DecidableEq, Repr

/-- What the record needs of other crates: whether the strings fit in a packet, and how printed hashes
and endpoint ids are parsed. -/
class Pkarr (Id : Type) where
  fits : List Bytes → Bool
  parseHash : Bytes → Option Hash
  parseId : Bytes → Option Id

structure Pkarr.ParsesBack (Id : Type) [Endpoint Id] [Pkarr Id] : Prop where
  hash : ∀ h, Pkarr.parseHash Id (hashText h) = some h
  id : ∀ id : Id, Pkarr.parseId (Endpoint.display id) = some id

/-- `v1`. -/
def recordVersion : Bytes := [118, 49]

def meshProtocolVersion : ℕ := 1

/-- The tags `h,`, `g,`, `m,` and `p,`. -/
def hashTag : Bytes := [104, 44]

def generationTag : Bytes := [103, 44]

def meshTag : Bytes := [109, 44]

def peerTag : Bytes := [112, 44]

section Record

variable {Id : Type} [Endpoint Id] [Pkarr Id]

def recordValues (blobHash : Hash) (generation : ℕ) (seedPeers : List Id) : List Bytes :=
  [recordVersion, hashTag ++ hashText blobHash, generationTag ++ decimal generation,
    meshTag ++ decimal meshProtocolVersion] ++ seedPeers.map fun peer => peerTag ++ Endpoint.display peer

def encodeNetworkRecord (blobHash : Hash) (generation : ℕ) (seedPeers : List Id) : Option SignedPacket :=
  let values := recordValues blobHash generation seedPeers
  if Pkarr.fits Id values then some ⟨values⟩ else none

/-- What `decode_network_record` has gathered so far. -/
structure Gathered (Id : Type) where
  blobHash : Option Hash
  generation : ℕ
  peers : List Id

/-- The body of the loop of `decode_network_record`. -/
def decodeField (acc : Gathered Id) (record : Bytes) : Option (Gathered Id) :=
  match record.dropPrefix? hashTag with
  | some text => (Pkarr.parseHash Id text).map fun h => { acc with blobHash := some h }
  | none =>
    match record.dropPrefix? generationTag with
    | some text => (parseUnsigned (2 ^ 64) text).map fun g => { acc with generation := g }
    | none =>
      match record.dropPrefix? peerTag with
      | some text => (Pkarr.parseId text).map fun id => { acc with peers := acc.peers ++ [id] }
      | none => some acc

def decodeNetworkRecord (packet : SignedPacket) : Option (Hash × ℕ × List Id) :=
  match packet.txtRecords with
  | [] => none
  | version :: fields =>
    if version ≠ recordVersion then none
    else do
      -- a record without a generation counts as generation zero
      let acc ← fields.foldlM decodeField ⟨none, 0, []⟩
      let blobHash ← acc.blobHash
      some (blobHash, acc.generation, acc.peers)

def meshVersionFromRecord (packet : SignedPacket) : Option ℕ :=
  packet.txtRecords.findSome? fun record => (record.dropPrefix? meshTag).bind (parseUnsigned (2 ^ 32))

/-! ### A record decodes to what was encoded -/

omit [Endpoint Id] in
@[simp] theorem decodeField_hash (acc : Gathered Id) (text : Bytes) :
    decodeField acc (hashTag ++ text) =
      (Pkarr.parseHash Id text).map fun h => { acc with blobHash := some h } := by
  simp [decodeField, hashTag, List.dropPrefix?]

omit [Endpoint Id] in
@[simp] theorem decodeField_generation (acc : Gathered Id) (text : Bytes) :
    decodeField acc (generationTag ++ text) =
      (parseUnsigned (2 ^ 64) text).map fun g => { acc with generation := g } := by
  simp [decodeField, hashTag, generationTag, List.dropPrefix?]

omit [Endpoint Id] in
@[simp] theorem decodeField_mesh (acc : Gathered Id) (text : Bytes) :
    decodeField acc (meshTag ++ text) = some acc := by
  simp [decodeField, hashTag, generationTag, meshTag, peerTag, List.dropPrefix?]

omit [Endpoint Id] in
@[simp] theorem decodeField_peer (acc : Gathered Id) (text : Bytes) :
    decodeField acc (peerTag ++ text) =
      (Pkarr.parseId text).map fun id => { acc with peers := acc.peers ++ [id] } := by
  simp [decodeField, hashTag, generationTag, peerTag, List.dropPrefix?]

theorem foldlM_decodeField_peers (hparse : Pkarr.ParsesBack Id) (seedPeers : List Id) (acc : Gathered Id) :
    (seedPeers.map fun peer => peerTag ++ Endpoint.display peer).foldlM decodeField acc =
      some { acc with peers := acc.peers ++ seedPeers } := by
  induction seedPeers generalizing acc with
  | nil => simp
  | cons peer seedPeers ih =>
    rw [List.map_cons, List.foldlM_cons, decodeField_peer, hparse.id, Option.map_some, Option.bind_eq_bind,
      Option.bind_some, ih, List.append_assoc, List.singleton_append]

theorem decodeNetworkRecord_recordValues (hparse : Pkarr.ParsesBack Id) (blobHash : Hash) {generation : ℕ}
    (hgeneration : generation < 2 ^ 64) (seedPeers : List Id) :
    decodeNetworkRecord ⟨recordValues blobHash generation seedPeers⟩ =
      some (blobHash, generation, seedPeers) := by
  have hfields := foldlM_decodeField_peers hparse seedPeers ⟨some blobHash, generation, []⟩
  rw [List.nil_append] at hfields
  simp only [decodeNetworkRecord, recordValues, List.cons_append, List.nil_append, ne_eq, not_true,
    if_false, List.foldlM_cons, decodeField_hash, decodeField_generation, decodeField_mesh, hparse.hash,
    parseUnsigned_decimal hgeneration, Option.map_some, Option.bind_eq_bind, Option.bind_some, hfields]

/-- The packet of an encoded record reads back as the record. -/
theorem decodeNetworkRecord_of_encode (hparse : Pkarr.ParsesBack Id) {blobHash : Hash} {generation : ℕ}
    (hgeneration : generation < 2 ^ 64) {seedPeers : List Id} {packet : SignedPacket}
    (h : encodeNetworkRecord blobHash generation seedPeers = some packet) :
    decodeNetworkRecord packet = some (blobHash, generation, seedPeers) := by
  simp only [encodeNetworkRecord] at h
  split at h
  · cases h
    exact decodeNetworkRecord_recordValues hparse blobHash hgeneration seedPeers
  · cases h

/-- The joiner reads the version of the build that encoded the record. -/
theorem meshVersionFromRecord_of_encode {blobHash : Hash} {generation : ℕ} {seedPeers : List Id}
    {packet : SignedPacket} (h : encodeNetworkRecord blobHash generation seedPeers = some packet) :
    meshVersionFromRecord packet = some meshProtocolVersion := by
  simp only [encodeNetworkRecord] at h
  split at h
  · cases h
    have hmesh : ((meshTag ++ decimal meshProtocolVersion).dropPrefix? meshTag).bind (parseUnsigned (2 ^ 32)) =
        some meshProtocolVersion := by
      rw [show (meshTag ++ decimal meshProtocolVersion).dropPrefix? meshTag = some (decimal meshProtocolVersion)
        from rfl, Option.bind_some]
      exact parseUnsigned_decimal (by decide)
    -- none of the three strings before it carries the tag
    have hversion : recordVersion.dropPrefix? meshTag = none := rfl
    have hhash : (hashTag ++ hashText blobHash).dropPrefix? meshTag = none := rfl
    have hgeneration : (generationTag ++ decimal generation).dropPrefix? meshTag = none := rfl
    simp only [meshVersionFromRecord, recordValues, List.cons_append, List.findSome?_cons, hversion, hhash,
      hgeneration, Option.bind_none, hmesh]
  · cases h

/-! ### Records from before generations -/

/-- The string is a `g,` entry. -/
def isGeneration (record : Bytes) : Bool := (record.dropPrefix? generationTag).isSome

/-- The record without its `g,` entries. -/
def SignedPacket.withoutGeneration (packet : SignedPacket) : SignedPacket :=
  ⟨packet.txtRecords.filter fun record => !isGeneration record⟩

omit [Endpoint Id] in
/-- A field that is no generation reads the same whatever the generation is. -/
theorem decodeField_of_not_isGeneration {acc acc' : Gathered Id} {record : Bytes}
    (hrecord : isGeneration record = false) (h : decodeField acc record = some acc') :
    decodeField { acc with generation := 0 } record = some { acc' with generation := 0 } := by
  have hnone : record.dropPrefix? generationTag = none := by simpa [isGeneration] using hrecord
  simp only [decodeField, hnone] at h ⊢
  split at h
  · obtain ⟨hash, hhash, rfl⟩ := Option.map_eq_some_iff.mp h
    simp [hhash]
  · split at h
    · obtain ⟨id, hid, rfl⟩ := Option.map_eq_some_iff.mp h
      simp [hid]
    · cases h
      rfl

omit [Endpoint Id] in
theorem decodeField_of_isGeneration {acc acc' : Gathered Id} {record : Bytes}
    (hrecord : isGeneration record = true) (h : decodeField acc record = some acc') :
    { acc' with generation := 0 } = { acc with generation := 0 } := by
  obtain ⟨text, htext⟩ := Option.isSome_iff_exists.mp hrecord
  obtain ⟨tag, rfl, htag⟩ := List.dropPrefix?_eq_some_iff.mp htext
  obtain rfl := eq_of_beq htag
  rw [decodeField_generation] at h
  obtain ⟨g, -, rfl⟩ := Option.map_eq_some_iff.mp h
  rfl

omit [Endpoint Id] in
theorem foldlM_decodeField_filter {fields : List Bytes} {acc acc' : Gathered Id}
    (h : fields.foldlM decodeField acc = some acc') :
    (fields.filter fun record => !isGeneration record).foldlM decodeField { acc with generation := 0 } =
      some { acc' with generation := 0 } := by
  induction fields generalizing acc with
  | nil =>
    cases h
    rfl
  | cons record fields ih =>
    rw [List.foldlM_cons] at h
    obtain ⟨next, hnext, hrest⟩ := Option.bind_eq_some_iff.mp h
    cases hrecord : isGeneration record with
    | true =>
      rw [List.filter_cons_of_neg (by simp [hrecord]), ← decodeField_of_isGeneration hrecord hnext]
      exact ih hrest
    | false =>
      rw [List.filter_cons_of_pos (by simp [hrecord]), List.foldlM_cons,
        decodeField_of_not_isGeneration hrecord hnext]
      exact ih hrest

omit [Endpoint Id] in
/-- Without its generation a record decodes to the same hash and seeds, at generation zero. -/
theorem decodeNetworkRecord_withoutGeneration {packet : SignedPacket} {blobHash : Hash} {generation : ℕ}
    {seedPeers : List Id} (h : decodeNetworkRecord packet = some (blobHash, generation, seedPeers)) :
    decodeNetworkRecord packet.withoutGeneration = some (blobHash, 0, seedPeers) := by
  obtain ⟨records⟩ := packet
  cases records with
  | nil => cases h
  | cons version fields =>
    simp only [decodeNetworkRecord] at h
    split at h
    · cases h
    · rename_i hversion
      obtain rfl := not_not.mp hversion
      obtain ⟨acc, hacc, hrest⟩ := Option.bind_eq_some_iff.mp h
      obtain ⟨hash, hhash, hresult⟩ := Option.bind_eq_some_iff.mp hrest
      cases hresult
      have hkept : isGeneration recordVersion = false := rfl
      simp [SignedPacket.withoutGeneration, decodeNetworkRecord, hkept, foldlM_decodeField_filter hacc, hhash]

omit [Endpoint Id] in
/-- A record without a `g,` entry that decodes is of generation zero. -/
theorem generation_eq_zero {packet : SignedPacket} {r : Hash × ℕ × List Id}
    (hentries : ∀ record ∈ packet.txtRecords, isGeneration record = false)
    (h : decodeNetworkRecord packet = some r) : r.2.1 = 0 := by
  have hsame : packet.withoutGeneration = packet := by
    obtain ⟨records⟩ := packet
    rw [SignedPacket.withoutGeneration, List.filter_eq_self.mpr]
    intro record hrecord
    simp [hentries record hrecord]
  have hzero := decodeNetworkRecord_withoutGeneration h
  rw [hsame, h] at hzero
  exact congrArg (fun r => r.2.1) (Option.some.inj hzero)

end Record

end Tetron.Dht
