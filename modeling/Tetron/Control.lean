import Tetron.Daemon.NetworkState
import Tetron.Lib.ByteCodec

/-!
# Control messages

One message a stream, as a 4-byte big-endian length and a MessagePack body. The reader refuses a frame of
more than 64 KiB before it allocates for it; the writer has no such bound, so a message arrives exactly
when its body is within the reader's (`received_as_sent_iff`), and a roster can outgrow that: every member
of a `Welcome` costs at least its key and its texts (`welcome_not_received`).
-/

namespace Tetron.Control

open Tetron.Membership

inductive ControlMsg (Id : Type)
  | joinRequest (inviteSecret : Option Bytes) (hostname veilidNodeId : Option String)
  | joinPending
  | joinApproved (yourIp : Ipv4Addr) (members : List (Member Id))
  | joinDenied (reason : String)
  | memberSync
  | meshHello (identity : Id) (ip : Ipv4Addr) (hostname veilidNodeId : Option String)
  | memberApproved (identity : Id) (ip : Ipv4Addr) (hostname veilidNodeId : Option String)
  | welcome (members : List (Member Id)) (approved : List (ApprovedEntry Id))
  | blobUpdated
  | adminGrant (networkPubkey : Id) (secretKey : Bytes)
  | fileOffer (sender : Id) (filename : String) (size : ℕ) (mimeType : String) (blobHash : Hash)
  | inviteShare (id : String) (secretHash : Bytes) (expires : ℕ)
  | inviteUsed (secretHash : Bytes)
  | ping (nonce : ℕ)
  | pong (nonce : ℕ)
deriving DecidableEq

/-- `rmp_serde`, on the messages of a type. -/
class Wire (α : Type) where
  toVecNamed : α → Bytes
  fromSlice : Bytes → Option α

namespace Wire

def RoundTrips (α : Type) [Wire α] : Prop := ∀ a : α, fromSlice (toVecNamed a) = some a

/-- An encoding that was cut short does not read as the message it was cut from. -/
def SelfDelimiting (α : Type) [Wire α] : Prop :=
  ∀ (a : α) (n : ℕ), n < (toVecNamed a).length → fromSlice ((toVecNamed a).take n) ≠ some a

end Wire

/-! ### Frames -/

/-- `read_exact` on what a stream brings until it is finished: the bytes asked for and the rest. -/
def readExact (n : ℕ) (stream : Bytes) : Option (Bytes × Bytes) :=
  if stream.length < n then none else some (stream.splitAt n)

/-- `u32::from_be_bytes(len_buf) as usize`. -/
def frameLen (lenBuf : Bytes) : ℕ :=
  (u32FromBe (byteAt lenBuf 0) (byteAt lenBuf 1) (byteAt lenBuf 2) (byteAt lenBuf 3)).toNat

section Framed

variable {α : Type} [Wire α]

/-- What `send_framed` writes: `body.len() as u32` truncates. -/
def framed (msg : α) : Bytes :=
  let body := Wire.toVecNamed msg
  u32ToBe (UInt32.ofNat body.length) ++ body

def recvFramed (stream : Bytes) : Except String α :=
  match readExact 4 stream with
  | none => .error "read message length"
  | some (lenBuf, rest) =>
    if ¬ frameLen lenBuf ≤ 65536 then .error "framed message too large"
    else
      match readExact (frameLen lenBuf) rest with
      | none => .error "read message body"
      | some (body, _) =>
        match Wire.fromSlice body with
        | none => .error "decode framed message"
        | some msg => .ok msg

theorem readExact_of_le {n : ℕ} {stream : Bytes} (h : n ≤ stream.length) :
    readExact n stream = some (stream.take n, stream.drop n) := by
  rw [readExact, if_neg (not_lt.mpr h), List.splitAt_eq]

theorem frameLen_u32ToBe (w : UInt32) : frameLen (u32ToBe w) = w.toNat :=
  congrArg UInt32.toNat (u32FromBe_ofNat w)

/-- What the reader makes of a frame: it sees the length modulo `2 ^ 32`. -/
theorem recvFramed_framed (msg : α) :
    (recvFramed (framed msg) : Except String α) =
      if ¬ (Wire.toVecNamed msg).length % 2 ^ 32 ≤ 65536 then .error "framed message too large"
      else
        match Wire.fromSlice ((Wire.toVecNamed msg).take ((Wire.toVecNamed msg).length % 2 ^ 32)) with
        | none => .error "decode framed message"
        | some msg => .ok msg := by
  have hhead : readExact 4 (framed msg) = some (u32ToBe (UInt32.ofNat (Wire.toVecNamed msg).length),
      Wire.toVecNamed msg) := readExact_of_le (Nat.le_add_left 4 _)
  have hbody := readExact_of_le (Nat.mod_le (Wire.toVecNamed msg).length (2 ^ 32))
  simp only [recvFramed, hhead, frameLen_u32ToBe, UInt32.toNat_ofNat', hbody]

/-- A frame is read back exactly when its body is within the reader's bound. -/
theorem recvFramed_framed_eq_ok_iff (hrt : Wire.RoundTrips α) (hcut : Wire.SelfDelimiting α) (msg : α) :
    recvFramed (framed msg) = .ok msg ↔ (Wire.toVecNamed msg).length ≤ 65536 := by
  rw [recvFramed_framed]
  constructor
  · intro hok
    split at hok
    · cases hok
    · rename_i hbound
      -- The length was not truncated, or the body was cut.
      by_cases hlen : (Wire.toVecNamed msg).length < 2 ^ 32
      · rw [Nat.mod_eq_of_lt hlen] at hbound
        exact not_not.mp hbound
      · have hshort : (Wire.toVecNamed msg).length % 2 ^ 32 < (Wire.toVecNamed msg).length := by
          have := Nat.mod_lt (Wire.toVecNamed msg).length (show 0 < 2 ^ 32 by decide)
          omega
        refine absurd ?_ (hcut msg _ hshort)
        split at hok
        · cases hok
        · rename_i heq
          rw [heq, Except.ok.inj hok]
  · intro hle
    have hmod : (Wire.toVecNamed msg).length % 2 ^ 32 = (Wire.toVecNamed msg).length :=
      Nat.mod_eq_of_lt (by omega)
    rw [hmod, if_neg (not_not.mpr hle), List.take_length, hrt msg]

end Framed

/-! ### Messages -/

section Messages

variable {Id : Type} [Wire (ControlMsg Id)]

/-- `encode_msg` frames as `send_framed` does. -/
def encodeMsg (msg : ControlMsg Id) : Bytes := framed msg

def recvMsg (stream : Bytes) : Except String (ControlMsg Id) := recvFramed stream

/-- **A control message arrives as it was sent** exactly when its body is within the reader's bound. -/
theorem received_as_sent_iff (hrt : Wire.RoundTrips (ControlMsg Id)) (hcut : Wire.SelfDelimiting (ControlMsg Id))
    (msg : ControlMsg Id) :
    recvMsg (encodeMsg msg) = .ok msg ↔ (Wire.toVecNamed msg).length ≤ 65536 :=
  recvFramed_framed_eq_ok_iff hrt hcut msg

end Messages

section Rosters

variable {Id : Type}

/-- What the encoding of a member cannot do without: a 32-byte key, and a byte a character of its texts. -/
def carried (m : Member Id) : ℕ :=
  32 + (m.hostname.elim 0 String.length + m.veilidNodeId.elim 0 String.length)

def ControlMsg.carried : ControlMsg Id → ℕ
  | .welcome members _ => (members.map Control.carried).sum
  | _ => 0

/-- An encoding holds the keys and texts of the members it lists. -/
def Wire.CarriesMembers (Id : Type) [Wire (ControlMsg Id)] : Prop :=
  ∀ msg : ControlMsg Id, msg.carried ≤ (toVecNamed msg).length

/-- The `Welcome` of `admit_peer`: the whole roster, with the approved entries. -/
def welcome [DecidableEq Id] [Msgpack Id] [Blake3] (s : Daemon.NetworkState Id) : ControlMsg Id :=
  .welcome s.members.all s.approved.all

variable [DecidableEq Id] [Msgpack Id] [Blake3] [Wire (ControlMsg Id)] {s : Daemon.NetworkState Id}

/-- A roster that carries more than the bound is welcomed in vain. -/
theorem welcome_not_received (hrt : Wire.RoundTrips (ControlMsg Id)) (hcut : Wire.SelfDelimiting (ControlMsg Id))
    (hcarries : Wire.CarriesMembers Id) (h : 65536 < (s.members.all.map carried).sum) :
    recvMsg (encodeMsg (welcome s)) ≠ .ok (welcome s) := by
  intro hok
  have hbound := (recvFramed_framed_eq_ok_iff hrt hcut _).mp hok
  have hcost : (s.members.all.map carried).sum ≤ _ := hcarries (welcome s)
  omega

end Rosters

/-! ### A codec as assumed

The messages are written one field after the other behind the number of their kind. -/

inductive Kind
  | joinRequest
  | joinPending
  | joinApproved
  | joinDenied
  | memberSync
  | meshHello
  | memberApproved
  | welcome
  | blobUpdated
  | adminGrant
  | fileOffer
  | inviteShare
  | inviteUsed
  | ping
  | pong
deriving DecidableEq

section Codec

open ByteCodec

variable {Id : Type}

def Fields (Id : Type) : Kind → Type
  | .joinRequest => Option Bytes × Option String × Option String
  | .joinPending | .memberSync | .blobUpdated => Unit
  | .joinApproved => Ipv4Addr × List (Member Id)
  | .joinDenied => String
  | .meshHello | .memberApproved => Id × Ipv4Addr × Option String × Option String
  | .welcome => List (Member Id) × List (ApprovedEntry Id)
  | .adminGrant => Id × Bytes
  | .fileOffer => Id × String × ℕ × String × Hash
  | .inviteShare => String × Bytes × ℕ
  | .inviteUsed => Bytes
  | .ping | .pong => ℕ

def ControlMsg.fields : ControlMsg Id → Σ k, Fields Id k
  | .joinRequest inviteSecret hostname veilidNodeId => ⟨.joinRequest, inviteSecret, hostname, veilidNodeId⟩
  | .joinPending => ⟨.joinPending, ()⟩
  | .joinApproved yourIp members => ⟨.joinApproved, yourIp, members⟩
  | .joinDenied reason => ⟨.joinDenied, reason⟩
  | .memberSync => ⟨.memberSync, ()⟩
  | .meshHello identity ip hostname veilidNodeId => ⟨.meshHello, identity, ip, hostname, veilidNodeId⟩
  | .memberApproved identity ip hostname veilidNodeId => ⟨.memberApproved, identity, ip, hostname, veilidNodeId⟩
  | .welcome members approved => ⟨.welcome, members, approved⟩
  | .blobUpdated => ⟨.blobUpdated, ()⟩
  | .adminGrant networkPubkey secretKey => ⟨.adminGrant, networkPubkey, secretKey⟩
  | .fileOffer sender filename size mimeType blobHash => ⟨.fileOffer, sender, filename, size, mimeType, blobHash⟩
  | .inviteShare id secretHash expires => ⟨.inviteShare, id, secretHash, expires⟩
  | .inviteUsed secretHash => ⟨.inviteUsed, secretHash⟩
  | .ping nonce => ⟨.ping, nonce⟩
  | .pong nonce => ⟨.pong, nonce⟩

def ControlMsg.ofFields : (Σ k, Fields Id k) → ControlMsg Id
  | ⟨.joinRequest, inviteSecret, hostname, veilidNodeId⟩ => .joinRequest inviteSecret hostname veilidNodeId
  | ⟨.joinPending, _⟩ => .joinPending
  | ⟨.joinApproved, yourIp, members⟩ => .joinApproved yourIp members
  | ⟨.joinDenied, reason⟩ => .joinDenied reason
  | ⟨.memberSync, _⟩ => .memberSync
  | ⟨.meshHello, identity, ip, hostname, veilidNodeId⟩ => .meshHello identity ip hostname veilidNodeId
  | ⟨.memberApproved, identity, ip, hostname, veilidNodeId⟩ => .memberApproved identity ip hostname veilidNodeId
  | ⟨.welcome, members, approved⟩ => .welcome members approved
  | ⟨.blobUpdated, _⟩ => .blobUpdated
  | ⟨.adminGrant, networkPubkey, secretKey⟩ => .adminGrant networkPubkey secretKey
  | ⟨.fileOffer, sender, filename, size, mimeType, blobHash⟩ => .fileOffer sender filename size mimeType blobHash
  | ⟨.inviteShare, id, secretHash, expires⟩ => .inviteShare id secretHash expires
  | ⟨.inviteUsed, secretHash⟩ => .inviteUsed secretHash
  | ⟨.ping, nonce⟩ => .ping nonce
  | ⟨.pong, nonce⟩ => .pong nonce

theorem ControlMsg.ofFields_fields (msg : ControlMsg Id) : ofFields msg.fields = msg := by cases msg <;> rfl

def ipCodec : ByteCodec Ipv4Addr := nat.map BitVec.toNat (BitVec.ofNat 32) fun ip => by simp

def textCodec : ByteCodec (Option String) := option string

def memberCodec (key : ByteCodec Id) : ByteCodec (Member Id) :=
  (key.pair (ipCodec.pair (bool.pair (textCodec.pair (nat.pair ((option nat).pair textCodec)))))).map
    (fun m => (m.identity, m.ip, m.isCoordinator, m.hostname, m.collisionIndex, m.lastSeen, m.veilidNodeId))
    (fun (identity, ip, isCoordinator, hostname, collisionIndex, lastSeen, veilidNodeId) =>
      ⟨identity, ip, isCoordinator, hostname, collisionIndex, lastSeen, veilidNodeId⟩) fun _ => rfl

def approvedCodec (key : ByteCodec Id) : ByteCodec (ApprovedEntry Id) :=
  (key.pair (ipCodec.pair (textCodec.pair nat))).map (fun a => (a.identity, a.ip, a.hostname, a.collisionIndex))
    (fun (identity, ip, hostname, collisionIndex) => ⟨identity, ip, hostname, collisionIndex⟩) fun _ => rfl

def fieldsCodec (key : ByteCodec Id) : ∀ k, ByteCodec (Fields Id k)
  | .joinRequest => (option (list byte)).pair (textCodec.pair textCodec)
  | .joinPending | .memberSync | .blobUpdated => unit
  | .joinApproved => ipCodec.pair (list (memberCodec key))
  | .joinDenied => string
  | .meshHello | .memberApproved => key.pair (ipCodec.pair (textCodec.pair textCodec))
  | .welcome => (list (memberCodec key)).pair (list (approvedCodec key))
  | .adminGrant => key.pair (list byte)
  | .fileOffer => key.pair (string.pair (nat.pair (string.pair (list byte))))
  | .inviteShare => string.pair ((list byte).pair nat)
  | .inviteUsed => list byte
  | .ping | .pong => nat

def msgCodec (key : ByteCodec Id) : ByteCodec (ControlMsg Id) :=
  (tagged (nat.map Kind.ctorIdx Kind.ofNat Kind.ofNat_ctorIdx) (fieldsCodec key)).map ControlMsg.fields
    ControlMsg.ofFields ControlMsg.ofFields_fields

/-- The codec of the messages, given one of the keys. -/
abbrev Wire.ofKeys (key : ByteCodec Id) : Wire (ControlMsg Id) := ⟨(msgCodec key).write, (msgCodec key).whole⟩

theorem length_textCodec (text : Option String) : text.elim 0 String.length ≤ (textCodec.write text).length := by
  have hsum := sum_le_length_list string length_string text.toList
  cases text with
  | none => exact Nat.zero_le _
  | some s =>
    rw [Option.toList_some, List.map_singleton, List.sum_singleton] at hsum
    exact hsum

theorem carried_le_length_memberCodec {key : ByteCodec Id} (hkey : ∀ id, 32 ≤ (key.write id).length) (m : Member Id) :
    carried m ≤ ((memberCodec key).write m).length := by
  have hid := hkey m.identity
  have hhostname := length_textCodec m.hostname
  have hnode := length_textCodec m.veilidNodeId
  have hparts : (memberCodec key).write m = key.write m.identity ++ (ipCodec.write m.ip ++
      (bool.write m.isCoordinator ++ (textCodec.write m.hostname ++ (nat.write m.collisionIndex ++
        ((option nat).write m.lastSeen ++ textCodec.write m.veilidNodeId))))) := rfl
  rw [hparts, carried]
  simp only [List.length_append]
  omega

/-- With keys of 32 bytes it is all that is asked of a codec. -/
theorem Wire.ofKeys_spec {key : ByteCodec Id} (hkey : ∀ id, 32 ≤ (key.write id).length) :
    letI := Wire.ofKeys key
    RoundTrips (ControlMsg Id) ∧ SelfDelimiting (ControlMsg Id) ∧ CarriesMembers Id := by
  refine ⟨(msgCodec key).whole_write, fun msg n hn => (msgCodec key).whole_take hn, fun msg => ?_⟩
  cases msg with
  | welcome members approved =>
    have hsum := sum_le_length_list (memberCodec key) (carried_le_length_memberCodec hkey) members
    have hparts : (msgCodec key).write (.welcome members approved) = nat.write Kind.welcome.ctorIdx ++
        ((list (memberCodec key)).write members ++ (list (approvedCodec key)).write approved) := rfl
    change (members.map Control.carried).sum ≤ ((msgCodec key).write (.welcome members approved)).length
    rw [hparts, List.length_append, List.length_append]
    omega
  | _ => exact Nat.zero_le _

end Codec

end Tetron.Control

namespace Tetron.Daemon.Sample

open Tetron.Membership Tetron.Control

/-- A peer's key: 32 bytes, of which the last one tells them apart. -/
def keyCodec : ByteCodec Peer := (ByteCodec.nat.map Peer.ctorIdx Peer.ofNat Peer.ofNat_ctorIdx).padded 31

theorem length_keyCodec (peer : Peer) : 32 ≤ (keyCodec.write peer).length := by
  have hlast := ByteCodec.length_nat_pos peer.ctorIdx
  change 32 ≤ (List.replicate 31 0 ++ ByteCodec.nat.write peer.ctorIdx).length
  rw [List.length_append, List.length_replicate]
  omega

scoped instance : Wire (Control.ControlMsg Peer) := Wire.ofKeys keyCodec

theorem codec :
    Wire.RoundTrips (Control.ControlMsg Peer) ∧ Wire.SelfDelimiting (Control.ControlMsg Peer) ∧
      Wire.CarriesMembers Peer :=
  Wire.ofKeys_spec length_keyCodec

/-- Bob's welcome to a network of alice's is 85 bytes long. -/
theorem received_as_sent_welcome :
    (Wire.toVecNamed (welcome (state 5 [member .alice true, member .bob false]))).length = 85 ∧
      recvMsg (encodeMsg (welcome (state 5 [member .alice true, member .bob false]))) =
        .ok (welcome (state 5 [member .alice true, member .bob false])) := by
  have hlen : (Wire.toVecNamed (welcome (state 5 [member .alice true, member .bob false]))).length = 85 := by
    decide +kernel
  obtain ⟨hrt, hcut, -⟩ := codec
  exact ⟨hlen, (received_as_sent_iff hrt hcut _).mpr (by rw [hlen]; decide)⟩

/-- Two joiners brought this as their Veilid node id. -/
def wordy (text : String) : NetworkState Peer :=
  state 5 [member .alice true, { member .bob false with veilidNodeId := some text },
    { member .carol false with veilidNodeId := some text }]

theorem carried_wordy (text : String) :
    ((wordy text).members.all.map carried).sum = 96 + 2 * text.length := by
  have hroster : (wordy text).members.all.map carried =
      [32 + (0 + text.length), 32 + (0 + text.length), 32 + (0 + 0)] := rfl
  rw [hroster]
  simp only [List.sum_cons, List.sum_nil]
  omega

/-- Three members in a /24, each at its derived address, whose `Welcome` no joiner can read. -/
theorem wordy_welcome_not_received :
    ∃ s : NetworkState Peer, s.members.all.length = 3 ∧
      (s.members.all.all fun m => validateMember m s.subnet) = true ∧
        recvMsg (encodeMsg (welcome s)) ≠ .ok (welcome s) := by
  obtain ⟨hrt, hcut, hcarries⟩ := codec
  refine ⟨wordy (String.ofList (List.replicate 40000 'v')), rfl, rfl, welcome_not_received hrt hcut hcarries ?_⟩
  rw [carried_wordy, String.length_ofList, List.length_replicate]
  omega

end Tetron.Daemon.Sample
