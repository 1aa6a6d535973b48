import Tetron.Addressing.Cidr
import Tetron.Lib.Radix
import Tetron.Membership.Invites

/-!
# Invite codes

An invite code is the base-58 text of a network key, a secret and a checksum of both. It is handed around as
text and read back from a terminal or a file, with whatever blanks and line breaks came along.

`invite_code_spec` puts the parts together: a code fits the reader's limit, is read back from between blanks,
decodes to its key and secret, and does not survive a change of either that changes the checksum.
-/

namespace Tetron

open Tetron.Membership

/-! ### Base 58 -/

def base58Alphabet : List Char := "123456789ABCDEFGHJKLMNPQRSTUVWXYZabcdefghijkmnopqrstuvwxyz".toList

def base58Char (d : ℕ) : Char := base58Alphabet.getD d '1'

def base58Digit (c : Char) : Option ℕ := base58Alphabet.findIdx? (· == c)

/-- `bs58::encode`. -/
def bs58Encode (bytes : Bytes) : String :=
  String.ofList ((Radix.convert 256 58 (bytes.map UInt8.toNat)).map base58Char)

/-- `bs58::decode`. -/
def bs58Decode (code : String) : Option Bytes :=
  (code.toList.mapM base58Digit).map fun ds => (Radix.convert 58 256 ds).map UInt8.ofNat

theorem base58Digit_base58Char : ∀ d < 58, base58Digit (base58Char d) = some d := by decide +kernel

/-- Plain letters and digits. -/
theorem base58Char_plain : ∀ d < 58, isWhitespace (base58Char d) = false ∧ (base58Char d).utf8Size = 1 := by
  decide +kernel

theorem mem_bs58Encode {bytes : Bytes} {c : Char} (h : c ∈ (bs58Encode bytes).toList) :
    ∃ d < 58, base58Char d = c := by
  rw [bs58Encode, String.toList_ofList] at h
  obtain ⟨d, hd, rfl⟩ := List.mem_map.mp h
  exact ⟨d, Radix.convert_lt (by decide) hd, rfl⟩

theorem toNat_lt_of_mem {bytes : Bytes} {d : ℕ} (h : d ∈ bytes.map UInt8.toNat) : d < 256 := by
  obtain ⟨b, -, rfl⟩ := List.mem_map.mp h
  exact b.toNat_lt

theorem mapM_base58Digit {ds : List ℕ} (h : ∀ d ∈ ds, d < 58) : (ds.map base58Char).mapM base58Digit = some ds := by
  induction ds with
  | nil => rfl
  | cons d ds ih =>
    have hd := base58Digit_base58Char d (h d List.mem_cons_self)
    have hds := ih fun d' hd' => h d' (List.mem_cons_of_mem _ hd')
    rw [List.map_cons, List.mapM_cons, hd, hds]
    rfl

theorem bs58Decode_bs58Encode (bytes : Bytes) : bs58Decode (bs58Encode bytes) = some bytes := by
  rw [bs58Decode, bs58Encode, String.toList_ofList,
    mapM_base58Digit fun d hd => Radix.convert_lt (by decide) hd, Option.map_some,
    Radix.convert_convert (by decide) fun d hd => toNat_lt_of_mem hd, List.map_map]
  have hid : UInt8.ofNat ∘ UInt8.toNat = id := funext fun b => UInt8.ofNat_toNat
  rw [hid, List.map_id]

theorem length_bs58Encode_le {bytes : Bytes} {n : ℕ} (h : 256 ^ bytes.length ≤ 58 ^ n) :
    (bs58Encode bytes).toList.length ≤ n := by
  rw [bs58Encode, String.toList_ofList, List.length_map]
  refine Radix.length_convert_le (by decide) (by decide) (fun d hd => toNat_lt_of_mem hd) ?_
  rwa [List.length_map]

/-! ### The codec -/

/-- `EndpointId::from_bytes`. -/
class EndpointBytes (Id : Type) where
  fromBytes : Bytes → Option Id

/-- Keys are 32 bytes, and are read back from them. -/
structure EndpointBytes.ReadsBack (Id : Type) [Endpoint Id] [EndpointBytes Id] : Prop where
  length : ∀ id : Id, (Endpoint.asBytes id).length = 32
  fromBytes : ∀ id : Id, EndpointBytes.fromBytes (Endpoint.asBytes id) = some id

def secretLen : ℕ := 16

def checksumLen : ℕ := 4

def payloadLen : ℕ := 32 + secretLen

def encodedLen : ℕ := payloadLen + checksumLen

/-- `(ENCODED_LEN * 1366).div_ceil(1000)`. -/
def inviteCodeMaxChars : ℕ := (encodedLen * 1366 + 999) / 1000

inductive InviteCodeError
  | notBase58
  | checksumMismatch
  | unexpectedLength (got : ℕ)
  | invalidKey
deriving DecidableEq

/-- What is shown; `detail` is the text of the crate that found the fault. -/
def InviteCodeError.text (detail : String) : InviteCodeError → String
  | .notBase58 => "invalid invite code: " ++ detail
  | .checksumMismatch => "invalid invite code: checksum mismatch (corrupted or mistyped)"
  | .unexpectedLength got =>
    "invalid invite code: expected " ++ toString encodedLen ++ " or " ++ toString payloadLen ++ " bytes, got " ++
      toString got
  | .invalidKey => "invalid network key in invite: " ++ detail

section Codec

variable {Id : Type} [Endpoint Id] [EndpointBytes Id] [Blake3]

def payloadChecksum (payload : Bytes) : Bytes := (Blake3.hash payload).take checksumLen

def invitePayload (networkPubkey : Id) (secret : Bytes) : Bytes := Endpoint.asBytes networkPubkey ++ secret

def encodeInviteCode (networkPubkey : Id) (secret : Bytes) : String :=
  bs58Encode (invitePayload networkPubkey secret ++ payloadChecksum (invitePayload networkPubkey secret))

def splitPayload (payload : Bytes) : Except InviteCodeError (Id × Bytes) :=
  match EndpointBytes.fromBytes (payload.take 32) with
  | none => .error .invalidKey
  | some networkPubkey => .ok (networkPubkey, payload.drop 32)

/-- The form with a checksum, or the older one without. -/
def decodeInviteCode (code : String) : Except InviteCodeError (Id × Bytes) :=
  match bs58Decode code with
  | none => .error .notBase58
  | some bytes =>
    if bytes.length = encodedLen then
      if bytes.drop payloadLen = payloadChecksum (bytes.take payloadLen) then splitPayload (bytes.take payloadLen)
      else .error .checksumMismatch
    else if bytes.length = payloadLen then splitPayload bytes
    else .error (.unexpectedLength bytes.length)

variable {key : Id} {secret bytes : Bytes} {code : String}

omit [EndpointBytes Id] in
theorem length_encoded (hhash : ∀ b, (Blake3.hash b).length = 32) (hkey : (Endpoint.asBytes key).length = 32)
    (hsecret : secret.length = secretLen) :
    (invitePayload key secret ++ payloadChecksum (invitePayload key secret)).length = encodedLen := by
  simp [invitePayload, payloadChecksum, hhash, hkey, hsecret, encodedLen, payloadLen, checksumLen, Nat.add_assoc]

omit [EndpointBytes Id] in
theorem length_encodeInviteCode_le (hhash : ∀ b, (Blake3.hash b).length = 32)
    (hkey : (Endpoint.asBytes key).length = 32) (hsecret : secret.length = secretLen) :
    (encodeInviteCode key secret).toList.length ≤ inviteCodeMaxChars := by
  refine length_bs58Encode_le ?_
  rw [length_encoded hhash hkey hsecret]
  decide +kernel

omit [Endpoint Id] in
/-- A code of 52 bytes is accepted only with its checksum. -/
theorem decodeInviteCode_of_encoded (hdecode : bs58Decode code = some bytes) (hlen : bytes.length = encodedLen) :
    (decodeInviteCode code : Except InviteCodeError (Id × Bytes)) =
      if bytes.drop payloadLen = payloadChecksum (bytes.take payloadLen) then splitPayload (bytes.take payloadLen)
      else .error .checksumMismatch := by
  simp only [decodeInviteCode, hdecode, hlen, if_true]

theorem decodeInviteCode_encodeInviteCode (hkeys : EndpointBytes.ReadsBack Id)
    (hhash : ∀ b, (Blake3.hash b).length = 32) (hsecret : secret.length = secretLen) :
    decodeInviteCode (encodeInviteCode key secret) = .ok (key, secret) := by
  have hkey := hkeys.length key
  have hpayload : (invitePayload key secret).length = payloadLen := by
    rw [invitePayload, List.length_append, hkey, hsecret, payloadLen]
  rw [encodeInviteCode, decodeInviteCode_of_encoded (bs58Decode_bs58Encode _) (length_encoded hhash hkey hsecret),
    ← hpayload,
    List.take_left, List.drop_left, if_pos rfl, splitPayload, invitePayload, List.take_left' hkey, hkeys.fromBytes key,
    List.drop_left' hkey]

/-- Other bytes before the same checksum are refused, unless they have that checksum. -/
theorem decodeInviteCode_of_altered (hdecode : bs58Decode code = some bytes) (hlen : bytes.length = encodedLen)
    (hdrop : bytes.drop payloadLen = payloadChecksum (invitePayload key secret))
    (hne : payloadChecksum (bytes.take payloadLen) ≠ payloadChecksum (invitePayload key secret)) :
    (decodeInviteCode code : Except InviteCodeError (Id × Bytes)) = .error .checksumMismatch := by
  rw [decodeInviteCode_of_encoded hdecode hlen, hdrop, if_neg hne.symm]

end Codec

/-! ### Reading a code -/

def isLineBreak (c : Char) : Bool := c == '\n' || c == '\r'

/-- The lines that are not empty, trimmed. -/
def inviteLines (text : List Char) : List (List Char) :=
  ((text.splitOnP isLineBreak).map trim).filter (!·.isEmpty)

/-- The cap of `read_invite`. -/
def readInviteCap : ℕ := inviteCodeMaxChars + 64

/-- What `read_invite` makes of the bytes of a reader, or of the error it ended with. -/
def readInvite (source : String) : Except String Bytes → Except String String
  | .error e => .error ("cannot read invite from " ++ source ++ ": " ++ e)
  | .ok input =>
    -- one byte more than allowed is read, to tell that there was more
    if (input.take (readInviteCap + 1)).length ≤ readInviteCap then
      match fromUtf8 (input.take (readInviteCap + 1)) with
      | none => .error (source ++ ": input is not text, not an invite")
      | some text =>
        match inviteLines text.toList with
        | [] => .error (source ++ ": no invite found (empty input)")
        | [code] =>
          if String.utf8Len code ≤ inviteCodeMaxChars then .ok (String.ofList code)
          else .error (source ++ ": line too long to be an invite")
        | _ => .error (source ++ ": expected exactly one invite, found more than one line")
    else .error (source ++ ": input too large to be an invite")

section Lines

variable {cs blanks : List Char} {c : Char}

theorem trim_cons_of_blank (h : isWhitespace c = true) : trim (c :: cs) = trim cs := by
  simp only [trim, List.dropWhile_cons_of_pos h]

theorem isWhitespace_of_isLineBreak (h : isLineBreak c = true) : isWhitespace c = true := by
  simp only [isLineBreak, Bool.or_eq_true, beq_iff_eq] at h
  rcases h with rfl | rfl <;> decide

/-- Blanks and line breaks in front do not show. -/
theorem inviteLines_cons_of_blank (h : isWhitespace c = true) : inviteLines (c :: cs) = inviteLines cs := by
  unfold inviteLines
  rw [List.splitOnP_cons_eq_if_modifyHead]
  split
  · simp [trim]
  · obtain ⟨line, lines, hlines⟩ := List.exists_cons_of_ne_nil (List.splitOnP_ne_nil isLineBreak cs)
    rw [hlines]
    simp only [List.modifyHead_cons, List.map_cons, trim_cons_of_blank h]

theorem inviteLines_append_blanks (h : ∀ c ∈ blanks, isWhitespace c = true) :
    inviteLines (blanks ++ cs) = inviteLines cs := by
  induction blanks with
  | nil => rfl
  | cons c blanks ih =>
    rw [List.cons_append, inviteLines_cons_of_blank (h c List.mem_cons_self),
      ih fun c' hc' => h c' (List.mem_cons_of_mem _ hc')]

/-- Text without a line break goes to the first line. -/
theorem splitOnP_append_of_unbroken {line : List Char} (h : ∀ c ∈ line, isLineBreak c = false) :
    (line ++ cs).splitOnP isLineBreak = (cs.splitOnP isLineBreak).modifyHead (line ++ ·) := by
  induction line with
  | nil =>
    obtain ⟨line, lines, hlines⟩ := List.exists_cons_of_ne_nil (List.splitOnP_ne_nil isLineBreak cs)
    rw [List.nil_append, hlines]
    rfl
  | cons c line ih =>
    rw [List.cons_append, List.splitOnP_cons_eq_if_modifyHead, if_neg (by simp [h c List.mem_cons_self]),
      ih fun c' hc' => h c' (List.mem_cons_of_mem _ hc'), List.modifyHead_modifyHead]
    rfl

theorem all_blank_of_trim_eq_nil (h : trim cs = []) : ∀ c ∈ cs, isWhitespace c = true := by
  rw [trim, List.reverse_eq_nil_iff, List.dropWhile_eq_nil_iff] at h
  intro c hc
  by_contra hnot
  -- what is left of the front starts with a character that is no blank
  obtain ⟨d, hd⟩ : ∃ d, (cs.dropWhile isWhitespace).head? = some d := by
    rcases hrest : cs.dropWhile isWhitespace with _ | ⟨d, rest⟩
    · exact absurd (List.dropWhile_eq_nil_iff.mp hrest c hc) hnot
    · exact ⟨d, rfl⟩
  have hblank := h d (List.mem_reverse.mpr (List.mem_of_mem_head? hd))
  have hfirst := List.head?_dropWhile_not isWhitespace cs
  simp [hd, hblank] at hfirst

/-- A word keeps its characters, the blanks behind it go. -/
theorem trim_append_blanks {word : List Char} (hword : ∀ c ∈ word, isWhitespace c = false)
    (h : ∀ c ∈ blanks, isWhitespace c = true) : trim (word ++ blanks) = word := by
  rcases word with _ | ⟨c, word⟩
  · rw [List.nil_append, trim, List.dropWhile_eq_nil_iff.mpr h]
    rfl
  · have hfront : ((c :: word) ++ blanks).dropWhile isWhitespace = (c :: word) ++ blanks := by
      rw [List.cons_append, List.dropWhile_cons_of_neg (by simp [hword c List.mem_cons_self])]
    have hback : ((c :: word).reverse).dropWhile isWhitespace = (c :: word).reverse := by
      rw [List.dropWhile_eq_self_iff]
      intro hlen
      rw [hword _ (List.mem_reverse.mp (List.getElem_mem hlen))]
      exact Bool.false_ne_true
    rw [trim, hfront, List.reverse_append,
      List.dropWhile_append_of_pos fun c hc => h c (List.mem_reverse.mp hc), hback, List.reverse_reverse]

/-- A single word between blanks is the only line. -/
theorem inviteLines_of_word {word front : List Char} (hne : word ≠ [])
    (hword : ∀ c ∈ word, isWhitespace c = false) (hfront : ∀ c ∈ front, isWhitespace c = true)
    (h : ∀ c ∈ blanks, isWhitespace c = true) : inviteLines (front ++ (word ++ blanks)) = [word] := by
  have hunbroken : ∀ c ∈ word, isLineBreak c = false := fun c hc => by
    by_contra hbreak
    have hspace := isWhitespace_of_isLineBreak (Bool.eq_true_of_not_eq_false hbreak)
    exact Bool.false_ne_true ((hword c hc).symm.trans hspace)
  have hblank : inviteLines blanks = [] := by
    have hnothing : inviteLines (blanks ++ []) = inviteLines [] := inviteLines_append_blanks h
    rwa [List.append_nil] at hnothing
  rw [inviteLines_append_blanks hfront]
  unfold inviteLines at hblank ⊢
  rw [splitOnP_append_of_unbroken hunbroken]
  -- the lines behind the word are blank, and so is what follows it on its own line
  obtain ⟨line, lines, hlines⟩ := List.exists_cons_of_ne_nil (List.splitOnP_ne_nil isLineBreak blanks)
  rw [hlines, List.map_cons, List.filter_eq_nil_iff] at hblank
  have hrest : trim line = [] := by simpa using hblank _ List.mem_cons_self
  rw [hlines, List.modifyHead_cons, List.map_cons, trim_append_blanks hword (all_blank_of_trim_eq_nil hrest),
    List.filter_cons_of_pos (by simpa using hne),
    List.filter_eq_nil_iff.mpr fun l hl => hblank l (List.mem_cons_of_mem _ hl)]

end Lines

/-- A word between blanks, all of it within the cap, is what is read. -/
theorem readInvite_of_word {source : String} {word front blanks : List Char} (hne : word ≠ [])
    (hword : ∀ c ∈ word, isWhitespace c = false) (hfront : ∀ c ∈ front, isWhitespace c = true)
    (hblanks : ∀ c ∈ blanks, isWhitespace c = true) (hlen : String.utf8Len word ≤ inviteCodeMaxChars)
    (hcap : (String.ofList (front ++ (word ++ blanks))).utf8ByteSize ≤ readInviteCap) :
    readInvite source (.ok (String.ofList (front ++ (word ++ blanks))).toUTF8.data.toList) =
      .ok (String.ofList word) := by
  have hbytes : (String.ofList (front ++ (word ++ blanks))).toUTF8.data.toList.length ≤ readInviteCap := hcap
  rw [readInvite, List.take_of_length_le (hbytes.trans (Nat.le_succ _)), if_pos hbytes, fromUtf8_toUTF8]
  simp only [String.toList_ofList, inviteLines_of_word hne hword hfront hblanks, if_pos hlen]

def inviteBlanks : List Char := [' ', '\t', '\n', '\r']

theorem isWhitespace_of_mem_inviteBlanks : ∀ c ∈ inviteBlanks, isWhitespace c = true := by
  simp [inviteBlanks, isWhitespace]

section Code

variable {Id : Type} [Endpoint Id] [Blake3] {key : Id} {secret : Bytes}

theorem not_isWhitespace_of_mem_encodeInviteCode {c : Char} (h : c ∈ (encodeInviteCode key secret).toList) :
    isWhitespace c = false := by
  obtain ⟨d, hd, rfl⟩ := mem_bs58Encode h
  exact (base58Char_plain d hd).1

/-- A code has a byte for each character. -/
theorem utf8Len_encodeInviteCode :
    String.utf8Len (encodeInviteCode key secret).toList = (encodeInviteCode key secret).toList.length := by
  refine utf8Len_of_utf8Size_eq_one fun c hc => ?_
  obtain ⟨d, hd, rfl⟩ := mem_bs58Encode hc
  exact (base58Char_plain d hd).2

theorem encodeInviteCode_ne_nil (hhash : ∀ b, (Blake3.hash b).length = 32)
    (hkey : (Endpoint.asBytes key).length = 32) (hsecret : secret.length = secretLen) :
    (encodeInviteCode key secret).toList ≠ [] := by
  intro hnil
  have hdecode := bs58Decode_bs58Encode (invitePayload key secret ++ payloadChecksum (invitePayload key secret))
  rw [← encodeInviteCode, bs58Decode, hnil] at hdecode
  have hlen := length_encoded hhash hkey hsecret
  rw [← Option.some.inj hdecode] at hlen
  exact absurd hlen (by decide)

/-- The code of a key and a secret is short enough, is read back from between blanks and line breaks, and
decodes to the key and the secret. Other bytes under its checksum are refused, unless they have that checksum
as well. -/
theorem invite_code_spec [EndpointBytes Id] (hkeys : EndpointBytes.ReadsBack Id)
    (hhash : ∀ b, (Blake3.hash b).length = 32) (key : Id) (secret : Bytes) (hsecret : secret.length = secretLen) :
    (encodeInviteCode key secret).toList.length ≤ inviteCodeMaxChars ∧
      (∀ source front back : String,
        (∀ c ∈ front.toList, c ∈ inviteBlanks) → (∀ c ∈ back.toList, c ∈ inviteBlanks) →
        (front ++ (encodeInviteCode key secret ++ back)).utf8ByteSize ≤ readInviteCap →
          readInvite source (.ok (front ++ (encodeInviteCode key secret ++ back)).toUTF8.data.toList) =
            .ok (encodeInviteCode key secret)) ∧
      decodeInviteCode (encodeInviteCode key secret) = .ok (key, secret) ∧
      ∀ (code : String) (bytes : Bytes), bs58Decode code = some bytes → bytes.length = encodedLen →
        bytes.drop payloadLen = payloadChecksum (invitePayload key secret) →
        payloadChecksum (bytes.take payloadLen) ≠ payloadChecksum (invitePayload key secret) →
          ∃ e, (decodeInviteCode code : Except InviteCodeError (Id × Bytes)) = .error e := by
  have hkey := hkeys.length key
  have hlen := length_encodeInviteCode_le hhash hkey hsecret
  refine ⟨hlen, ?_, decodeInviteCode_encodeInviteCode hkeys hhash hsecret, ?_⟩
  · intro source front back hfront hback hcap
    have htext : front ++ (encodeInviteCode key secret ++ back) =
        String.ofList (front.toList ++ ((encodeInviteCode key secret).toList ++ back.toList)) := by
      rw [String.ofList_append, String.ofList_append, String.ofList_toList, String.ofList_toList,
        String.ofList_toList]
    rw [htext] at hcap ⊢
    rw [readInvite_of_word (encodeInviteCode_ne_nil hhash hkey hsecret)
      (fun c hc => not_isWhitespace_of_mem_encodeInviteCode hc)
      (fun c hc => isWhitespace_of_mem_inviteBlanks c (hfront c hc))
      (fun c hc => isWhitespace_of_mem_inviteBlanks c (hback c hc))
      (utf8Len_encodeInviteCode.trans_le hlen) hcap, String.ofList_toList]
  · intro code bytes hdecode hbytes hdrop hne
    exact ⟨_, decodeInviteCode_of_altered hdecode hbytes hdrop hne⟩

end Code

namespace InviteSample

abbrev Key := { b : Bytes // b.length = 32 }

scoped instance : Endpoint Key :=
  ⟨fun key => key.val, fun key => key.val, fun b => ⟨(b ++ List.replicate 32 0).take 32, by simp⟩⟩

scoped instance : EndpointBytes Key := ⟨fun b => if h : b.length = 32 then some ⟨b, h⟩ else none⟩

scoped instance : Blake3 := ⟨fun b => (b ++ List.replicate 32 0).take 32⟩

theorem readsBack : EndpointBytes.ReadsBack Key where
  length := fun key => key.property
  fromBytes := fun key => dif_pos key.property

def key : Key := ⟨List.replicate 32 7, by decide⟩

def secret : Bytes := List.replicate secretLen 9

/-- The bytes of the code with the first byte of the key altered. -/
def altered : Bytes := 8 :: ((invitePayload key secret).drop 1 ++ payloadChecksum (invitePayload key secret))

/-- A pasted line, with the blanks and the line break around it, and a mistyped one. -/
theorem invite_code_spec_pasted :
    readInvite "stdin" (.ok ("  " ++ (encodeInviteCode key secret ++ "\r\n")).toUTF8.data.toList) =
        .ok (encodeInviteCode key secret) ∧
      decodeInviteCode (encodeInviteCode key secret) = .ok (key, secret) ∧
      ∃ e, (decodeInviteCode (bs58Encode altered) : Except InviteCodeError (Key × Bytes)) = .error e := by
  have hspec := invite_code_spec readsBack (by simp [Blake3.hash]) key secret (by decide)
  exact ⟨hspec.2.1 "stdin" "  " "\r\n" (by simp [inviteBlanks]) (by simp [inviteBlanks]) (by decide +kernel),
    hspec.2.2.1,
    hspec.2.2.2 _ altered (bs58Decode_bs58Encode _) (by decide +kernel) (by decide +kernel) (by decide +kernel)⟩

end InviteSample

end Tetron
