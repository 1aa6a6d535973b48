import Tetron.Control
import Tetron.Lib.Frames
import Tetron.Lib.Run

/-!
# One client of the IPC server

`handle_ipc_client` reads one request from a client, has it handled and writes one reply. Both directions carry
MessagePack bodies in frames with a 4-byte length (`MsgpackCodec`), and the socket cuts the bytes into pieces as it
likes. Any local user may connect, so nothing is assumed of the client: it may send garbage, part of a request, or
nothing, and need not read the reply.

* Whatever the client does, at most one request is executed, and it is the one the client's bytes begin with. What is
  written back is one frame or a part of it; a request that does not decode is answered with a text of bounded length.
  Where deadlines are noticed as they pass, the handler holds its slot for the two timeouts and the time the request
  itself takes, and no longer (`session_run`).
* A client that writes one request and reads one reply gets the reply to that request: once the request has arrived, a
  poll executes it, and the writes of the answer end with the whole of it sent (`request_answered`).
-/

namespace Tetron.Ipc.Session

open Tetron.Control (Wire)

/-! ### The codec -/

/-- `MAX_FRAME_LEN`. -/
def maxFrameLen : ℕ := 1048576

/-- The `LengthDelimitedCodec` of `MsgpackCodec::new`: what is relied on are the fields of `Frames.Codec`. -/
class LengthDelimited where
  codec : Frames.Codec UInt8
  limit_codec : codec.limit = maxFrameLen

open LengthDelimited (codec)

section Codec

variable [LengthDelimited] {Msg : Type} [Wire Msg]

/-- `MsgpackCodec::encode`, as what it appends. -/
def encode (msg : Msg) : Option Bytes := codec.encode (Wire.toVecNamed msg)

theorem encode_eq_none_iff {msg : Msg} : encode msg = none ↔ maxFrameLen < (Wire.toVecNamed msg).length := by
  rw [encode, codec.encode_eq_none_iff, LengthDelimited.limit_codec]

inductive Decoded (Msg : Type) where
  | item (msg : Msg)
  | pending
  | failed

/-- `MsgpackCodec::decode`, after the frame codec has been polled. -/
def decoded : Frames.Polled UInt8 → Decoded Msg
  | .frame body => (Wire.fromSlice body).elim .failed .item
  | .pending => .pending
  | .oversize => .failed

/-- The stream begins with a frame that reads as `msg`. -/
def Asks (stream : Bytes) (msg : Msg) : Prop :=
  ∃ body bytes rest, codec.encode body = some bytes ∧ stream = bytes ++ rest ∧ Wire.fromSlice body = some msg

theorem decoded_first_eq_item_iff {stream : Bytes} {msg : Msg} :
    decoded (codec.first stream) = .item msg ↔ Asks stream msg := by
  constructor
  · intro h
    cases hfirst : codec.first stream with
    | frame body =>
      rw [hfirst] at h
      obtain ⟨bytes, rest, hbytes, heq⟩ := codec.exists_of_first stream body hfirst
      refine ⟨body, bytes, rest, hbytes, heq, ?_⟩
      cases hmsg : (Wire.fromSlice body : Option Msg) with
      | none => simp [decoded, hmsg] at h
      | some msg' =>
        rw [decoded, hmsg] at h
        injection h with h
        rw [h]
    | pending => rw [hfirst] at h; cases h
    | oversize => rw [hfirst] at h; cases h
  · rintro ⟨body, bytes, rest, hbytes, rfl, hmsg⟩
    rw [codec.first_encode_append body bytes rest hbytes, decoded, hmsg]
    rfl

/-- What is encoded reads back, whatever follows it. -/
theorem asks_of_encode (hrt : Wire.RoundTrips Msg) {msg : Msg} {bytes : Bytes} (h : encode msg = some bytes)
    (rest : Bytes) : Asks (bytes ++ rest) msg :=
  ⟨_, bytes, rest, h, rfl, hrt msg⟩

/-- Of an encoded message, a part is waited on and the whole is read. -/
theorem decoded_of_isPrefix (hrt : Wire.RoundTrips Msg) {msg : Msg} {bytes part : Bytes}
    (h : encode msg = some bytes) (hpart : part <+: bytes) :
    decoded (codec.first part) = if part.length < bytes.length then (.pending : Decoded Msg) else .item msg := by
  split
  · rename_i hlt
    rw [codec.first_of_lt _ bytes part h hpart hlt]
    rfl
  · rename_i hall
    have hwhole : part = bytes := hpart.eq_of_length_le (not_lt.mp hall)
    rw [decoded_first_eq_item_iff, hwhole, ← List.append_nil bytes]
    exact asks_of_encode hrt h []

end Codec

/-! ### Error texts -/

/-- `MAX_DECODE_ERROR_LEN`. -/
def maxDecodeErrorLen : ℕ := 512

/-- `str::is_char_boundary`. -/
def isCharBoundary (s : String) (i : ℕ) : Bool := s.toList.inits.any fun front => String.utf8Len front == i

/-- `&s[..i]`, at a character boundary. -/
def upToByte (s : String) (i : ℕ) : String :=
  String.ofList ((s.toList.inits.find? fun front => String.utf8Len front == i).getD [])

def truncateDecodeError (s : String) : String :=
  if s.utf8ByteSize ≤ maxDecodeErrorLen then s
  else
    let stop := ((List.range (maxDecodeErrorLen + 1)).reverse.find? (isCharBoundary s)).getD 0
    upToByte s stop ++ "... (truncated)"

theorem utf8ByteSize_upToByte_le (s : String) (i : ℕ) : (upToByte s i).utf8ByteSize ≤ i := by
  rw [upToByte, String.utf8ByteSize_ofList]
  cases hfind : s.toList.inits.find? fun front => String.utf8Len front == i with
  | none => exact Nat.zero_le i
  | some front =>
    have hsize := List.find?_some hfind
    exact le_of_eq (beq_iff_eq.mp hsize)

theorem utf8ByteSize_truncateDecodeError_le (s : String) : (truncateDecodeError s).utf8ByteSize ≤ 527 := by
  rw [truncateDecodeError]
  split
  · rename_i hshort
    exact hshort.trans (by decide)
  · have hstop : ((List.range (maxDecodeErrorLen + 1)).reverse.find? (isCharBoundary s)).getD 0 ≤ 512 := by
      cases hfind : (List.range (maxDecodeErrorLen + 1)).reverse.find? (isCharBoundary s) with
      | none => exact Nat.zero_le _
      | some i =>
        have hmem := List.mem_reverse.mp (List.mem_of_find?_eq_some hfind)
        exact Nat.lt_succ_iff.mp (List.mem_range.mp hmem)
    have hfront := utf8ByteSize_upToByte_le s
      (((List.range (maxDecodeErrorLen + 1)).reverse.find? (isCharBoundary s)).getD 0)
    have hmark : ("... (truncated)" : String).utf8ByteSize = 15 := by decide
    rw [String.utf8ByteSize_append, hmark]
    omega

/-! ### The handler -/

/-- The two timeouts of `IpcConfig`, in seconds; unset or zero for the default. -/
structure IpcTimeouts where
  requestTimeoutSecs : Option ℕ
  responseTimeoutSecs : Option ℕ

namespace IpcTimeouts

/-- `IPC_REQUEST_TIMEOUT_SECS`. -/
def ipcRequestTimeoutSecs : ℕ := 10

/-- `IPC_RESPONSE_TIMEOUT_SECS`. -/
def ipcResponseTimeoutSecs : ℕ := 10

def requestTimeout (c : IpcTimeouts) : ℕ := (c.requestTimeoutSecs.filter fun n => 0 < n).getD ipcRequestTimeoutSecs

def responseTimeout (c : IpcTimeouts) : ℕ :=
  (c.responseTimeoutSecs.filter fun n => 0 < n).getD ipcResponseTimeoutSecs

end IpcTimeouts

section Handling

variable [LengthDelimited] {Msg : Type} [Wire Msg]

inductive Phase (Msg : Type) where
  /-- In `recv_request_bounded`. -/
  | waiting (deadline : ℕ)
  /-- In `handle_request`, which has no deadline. -/
  | handling (req : Msg)
  /-- In `send_reply_bounded`, with the bytes the socket has not taken yet. -/
  | replying (left : Bytes) (deadline : ℕ)
  | closed
deriving DecidableEq

/-- The handler of one connection. Behind its own state it is noted what has reached it from the client, which
requests it had executed, which reply it began to send and how much of it the socket took, how long it has been
there, and how much of that in `handle_request`. -/
structure Handler (Msg : Type) where
  now : ℕ
  reader : codec.Reader
  phase : Phase Msg
  input : Bytes
  executed : List Msg
  reply : Option Msg
  written : Bytes
  held : ℕ
  spent : ℕ

def Handler.new (c : IpcTimeouts) (now : ℕ) : Handler Msg :=
  ⟨now, codec.new, .waiting (now + c.requestTimeout), [], [], none, [], 0, 0⟩

inductive Event (Msg : Type) where
  | tick (elapsed : ℕ)
  /-- The next bytes of the client. -/
  | arrive (piece : Bytes)
  /-- The read of the request is resumed; `text` says what is wrong if something is. -/
  | poll (eof : Bool) (text : String)
  /-- A deadline has passed. -/
  | timeout
  /-- `handle_request` returns. -/
  | respond (resp : Msg)
  /-- The socket takes the next `n` bytes of the reply. -/
  | write (n : ℕ)
  | writeError

namespace Handler

/-- `send_reply_bounded`; a reply that cannot be framed is not sent, and the handler is done. -/
def sendReply (c : IpcTimeouts) (s : Handler Msg) (msg : Msg) : Handler Msg :=
  { s with
    reply := some msg
    phase := (encode msg).elim .closed fun bytes => .replying bytes (s.now + c.responseTimeout) }

/-- Bytes of the reply go out; after the last one the handler is done. -/
def takeBytes (s : Handler Msg) (left : Bytes) (deadline n : ℕ) : Handler Msg :=
  { s with
    written := s.written ++ left.take n
    phase := if left.drop n = [] then .closed else .replying (left.drop n) deadline }

variable (c : IpcTimeouts) (error : String → Msg)

/-- `recv` and what `handle_ipc_client` makes of it. -/
def pollRequest (s : Handler Msg) (eof : Bool) (text : String) : Handler Msg :=
  let s' := { s with reader := (codec.poll s.reader).2 }
  match (decoded (codec.poll s.reader).1 : Decoded Msg) with
  | .item req => { s' with phase := .handling req, executed := s.executed ++ [req] }
  | .pending => if eof then s'.sendReply c (error (truncateDecodeError text)) else s'
  | .failed => s'.sendReply c (error (truncateDecodeError text))

def next (s : Handler Msg) : Event Msg → Option (Handler Msg)
  | .tick elapsed =>
    match s.phase with
    | .closed => some { s with now := s.now + elapsed }
    | .handling _ =>
      some { s with now := s.now + elapsed, held := s.held + elapsed, spent := s.spent + elapsed }
    | _ => some { s with now := s.now + elapsed, held := s.held + elapsed }
  | .arrive piece =>
    match s.phase with
    | .waiting _ => some { s with reader := codec.arrive s.reader piece, input := s.input ++ piece }
    | _ => none
  | .poll eof text =>
    match s.phase with
    | .waiting _ => some (s.pollRequest c error eof text)
    | _ => none
  | .timeout =>
    match s.phase with
    | .waiting deadline | .replying _ deadline => if deadline ≤ s.now then some { s with phase := .closed } else none
    | _ => none
  | .respond resp =>
    match s.phase with
    | .handling _ => some (s.sendReply c resp)
    | _ => none
  | .write n =>
    match s.phase with
    | .replying left deadline => some (s.takeBytes left deadline n)
    | _ => none
  | .writeError =>
    match s.phase with
    | .replying _ _ => some { s with phase := .closed }
    | _ => none

end Handler

/-- A deadline is noticed when it passes: no time goes by in a phase after its deadline. -/
def prompt (s : Handler Msg) : Event Msg → Bool
  | .tick elapsed =>
    match s.phase with
    | .waiting deadline | .replying _ deadline => s.now + elapsed ≤ deadline
    | _ => true
  | _ => true

/-! ### What a step does -/

/-- The steps of a handler, by the phase it is in. -/
inductive Moves (c : IpcTimeouts) (error : String → Msg) (s : Handler Msg) : Event Msg → Handler Msg → Prop
  | idle {elapsed : ℕ} (hphase : s.phase = .closed) :
      Moves c error s (.tick elapsed) { s with now := s.now + elapsed, phase := .closed }
  | work {elapsed : ℕ} {req : Msg} (hphase : s.phase = .handling req) : Moves c error s (.tick elapsed)
      { s with now := s.now + elapsed, phase := .handling req, held := s.held + elapsed, spent := s.spent + elapsed }
  | wait {elapsed deadline : ℕ} (hphase : s.phase = .waiting deadline) : Moves c error s (.tick elapsed)
      { s with now := s.now + elapsed, phase := .waiting deadline, held := s.held + elapsed }
  | stall {elapsed deadline : ℕ} {left : Bytes} (hphase : s.phase = .replying left deadline) :
      Moves c error s (.tick elapsed)
        { s with now := s.now + elapsed, phase := .replying left deadline, held := s.held + elapsed }
  | arrive {piece : Bytes} {deadline : ℕ} (hphase : s.phase = .waiting deadline) : Moves c error s (.arrive piece)
      { s with reader := codec.arrive s.reader piece, phase := .waiting deadline, input := s.input ++ piece }
  | ask {eof : Bool} {text : String} {deadline : ℕ} {req : Msg} (hphase : s.phase = .waiting deadline)
      (hreq : decoded (codec.first (codec.ahead s.reader)) = .item req) : Moves c error s (.poll eof text)
      { s with reader := (codec.poll s.reader).2, phase := .handling req, executed := s.executed ++ [req] }
  | again {text : String} {deadline : ℕ} (hphase : s.phase = .waiting deadline)
      (hahead : codec.ahead (codec.poll s.reader).2 = codec.ahead s.reader) :
      Moves c error s (.poll false text) { s with reader := (codec.poll s.reader).2, phase := .waiting deadline }
  | refuse {eof : Bool} {text : String} {deadline : ℕ} (hphase : s.phase = .waiting deadline)
      (hwhy : eof = true ∨ decoded (codec.first (codec.ahead s.reader)) = (.failed : Decoded Msg)) :
      Moves c error s (.poll eof text)
        (Handler.sendReply c { s with reader := (codec.poll s.reader).2 } (error (truncateDecodeError text)))
  | giveUp {deadline : ℕ} (hphase : s.phase = .waiting deadline) (hlate : deadline ≤ s.now) :
      Moves c error s .timeout { s with phase := .closed }
  | abandon {deadline : ℕ} {left : Bytes} (hphase : s.phase = .replying left deadline) (hlate : deadline ≤ s.now) :
      Moves c error s .timeout { s with phase := .closed }
  | respond {req resp : Msg} (hphase : s.phase = .handling req) :
      Moves c error s (.respond resp) (s.sendReply c resp)
  | write {n deadline : ℕ} {left : Bytes} (hphase : s.phase = .replying left deadline) :
      Moves c error s (.write n) (s.takeBytes left deadline n)
  | writeError {deadline : ℕ} {left : Bytes} (hphase : s.phase = .replying left deadline) :
      Moves c error s .writeError { s with phase := .closed }

section Steps

variable {c : IpcTimeouts} {error : String → Msg} {s s' : Handler Msg} {e : Event Msg}

theorem moves_pollRequest {deadline : ℕ} (hphase : s.phase = .waiting deadline) (eof : Bool) (text : String) :
    Moves c error s (.poll eof text) (s.pollRequest c error eof text) := by
  have hfirst := codec.poll_fst s.reader
  unfold Handler.pollRequest
  cases hdec : (decoded (codec.poll s.reader).1 : Decoded Msg) with
  | item req => exact .ask hphase (hfirst ▸ hdec)
  | failed => exact .refuse hphase (.inr (hfirst ▸ hdec))
  | pending =>
    have hpending : (codec.poll s.reader).1 = .pending := by
      cases hpoll : (codec.poll s.reader).1 with
      | pending => rfl
      | oversize => rw [hpoll] at hdec; cases hdec
      | frame body =>
        rw [hpoll, decoded] at hdec
        cases hmsg : (Wire.fromSlice body : Option Msg) <;> rw [hmsg] at hdec <;> cases hdec
    cases eof with
    | true => exact .refuse hphase (.inl rfl)
    | false =>
      have hagain : Moves c error s (.poll false text) _ :=
        .again hphase (codec.ahead_of_pending s.reader hpending)
      rwa [← hphase] at hagain

theorem moves_of_next (h : s.next c error e = some s') : Moves c error s e s' := by
  cases e with
  | tick elapsed =>
    cases hphase : s.phase with
    | waiting deadline => simp only [Handler.next, hphase, Option.some.injEq] at h; exact h ▸ .wait hphase
    | handling req => simp only [Handler.next, hphase, Option.some.injEq] at h; exact h ▸ .work hphase
    | replying left deadline => simp only [Handler.next, hphase, Option.some.injEq] at h; exact h ▸ .stall hphase
    | closed => simp only [Handler.next, hphase, Option.some.injEq] at h; exact h ▸ .idle hphase
  | arrive piece =>
    cases hphase : s.phase with
    | waiting deadline => simp only [Handler.next, hphase, Option.some.injEq] at h; exact h ▸ .arrive hphase
    | _ => simp [Handler.next, hphase] at h
  | poll eof text =>
    cases hphase : s.phase with
    | waiting deadline =>
      simp only [Handler.next, hphase, Option.some.injEq] at h
      exact h ▸ moves_pollRequest hphase eof text
    | _ => simp [Handler.next, hphase] at h
  | timeout =>
    cases hphase : s.phase with
    | waiting deadline =>
      simp only [Handler.next, hphase, Option.ite_none_right_eq_some, Option.some.injEq] at h
      exact h.2 ▸ .giveUp hphase h.1
    | replying left deadline =>
      simp only [Handler.next, hphase, Option.ite_none_right_eq_some, Option.some.injEq] at h
      exact h.2 ▸ .abandon hphase h.1
    | _ => simp [Handler.next, hphase] at h
  | respond resp =>
    cases hphase : s.phase with
    | handling req => simp only [Handler.next, hphase, Option.some.injEq] at h; exact h ▸ .respond hphase
    | _ => simp [Handler.next, hphase] at h
  | write n =>
    cases hphase : s.phase with
    | replying left deadline => simp only [Handler.next, hphase, Option.some.injEq] at h; exact h ▸ .write hphase
    | _ => simp [Handler.next, hphase] at h
  | writeError =>
    cases hphase : s.phase with
    | replying left deadline =>
      simp only [Handler.next, hphase, Option.some.injEq] at h
      exact h ▸ .writeError hphase
    | _ => simp [Handler.next, hphase] at h

end Steps

/-! ### Whatever the client does -/

/-- What is on record: in any phase, and in the phase the handler is in. -/
structure Recorded (error : String → Msg) (events : List (Event Msg)) (s : Handler Msg) : Prop where
  executed : s.executed = [] ∨ ∃ req, s.executed = [req] ∧ Asks s.input req
  written : s.written = [] ∨ ∃ msg bytes, s.reply = some msg ∧ encode msg = some bytes ∧ s.written <+: bytes
  reply : ∀ msg, s.reply = some msg →
    (s.executed = [] ∧ ∃ text, msg = error (truncateDecodeError text)) ∨ (s.executed ≠ [] ∧ .respond msg ∈ events)
  waiting : ∀ deadline, s.phase = .waiting deadline →
    s.executed = [] ∧ s.reply = none ∧ s.written = [] ∧ codec.ahead s.reader = s.input
  handling : ∀ req, s.phase = .handling req → s.executed = [req] ∧ s.reply = none ∧ s.written = []
  replying : ∀ left deadline, s.phase = .replying left deadline →
    ∃ msg, s.reply = some msg ∧ encode msg = some (s.written ++ left)

/-- How long the handler has been there, by its phase. -/
def Timed (c : IpcTimeouts) (s : Handler Msg) : Prop :=
  match s.phase with
  | .waiting deadline => s.now ≤ deadline ∧ s.held + deadline ≤ s.now + c.requestTimeout + s.spent
  | .handling _ => s.held ≤ c.requestTimeout + s.spent
  | .replying _ deadline =>
    s.now ≤ deadline ∧ s.held + deadline ≤ s.now + c.requestTimeout + s.spent + c.responseTimeout
  | .closed => s.held ≤ c.requestTimeout + s.spent + c.responseTimeout

section Invariant

variable {c : IpcTimeouts} {error : String → Msg} {events : List (Event Msg)} {s s' : Handler Msg} {e : Event Msg}

/-- Before a request is complete there is nothing on record but the bytes that came. -/
theorem recorded_of_waiting {deadline : ℕ} (hphase : s.phase = .waiting deadline) (hexecuted : s.executed = [])
    (hreply : s.reply = none) (hwritten : s.written = []) (hahead : codec.ahead s.reader = s.input) :
    Recorded error events s where
  executed := .inl hexecuted
  written := .inl hwritten
  reply := by
    intro msg hmsg
    rw [hreply] at hmsg
    cases hmsg
  waiting := fun _ _ => ⟨hexecuted, hreply, hwritten, hahead⟩
  handling := by
    intro req hphase'
    rw [hphase] at hphase'
    cases hphase'
  replying := by
    intro left deadline' hphase'
    rw [hphase] at hphase'
    cases hphase'

theorem Recorded.reply_append (h : Recorded error events s) (e : Event Msg) {msg : Msg} (hmsg : s.reply = some msg) :
    (s.executed = [] ∧ ∃ text, msg = error (truncateDecodeError text)) ∨
      (s.executed ≠ [] ∧ .respond msg ∈ events ++ [e]) := by
  rcases h.reply msg hmsg with hrefused | ⟨hne, hmem⟩
  · exact .inl hrefused
  · exact .inr ⟨hne, List.mem_append_left _ hmem⟩

theorem Recorded.tick (h : Recorded error events s) {phase : Phase Msg} (hphase : s.phase = phase)
    (now held spent : ℕ) : Recorded error (events ++ [e])
      { s with now := now, phase := phase, held := held, spent := spent } := by
  subst hphase
  exact ⟨h.executed, h.written, fun msg hmsg => h.reply_append e hmsg, h.waiting, h.handling, h.replying⟩

theorem Recorded.close (h : Recorded error events s) : Recorded error (events ++ [e]) { s with phase := .closed } where
  executed := h.executed
  written := h.written
  reply := fun _ hmsg => h.reply_append e hmsg
  waiting := by
    intro deadline hphase
    cases hphase
  handling := by
    intro req hphase
    cases hphase
  replying := by
    intro left deadline hphase
    cases hphase

/-- The start of a reply with a reason to send it. -/
theorem recorded_sendReply {msg : Msg} (hexecuted : s.executed = [] ∨ ∃ req, s.executed = [req] ∧ Asks s.input req)
    (hwritten : s.written = [])
    (hwhy : (s.executed = [] ∧ ∃ text, msg = error (truncateDecodeError text)) ∨
      (s.executed ≠ [] ∧ .respond msg ∈ events)) : Recorded error events (s.sendReply c msg) where
  executed := hexecuted
  written := .inl hwritten
  reply := by
    intro msg' hmsg
    obtain rfl := Option.some.inj hmsg
    exact hwhy
  waiting := by
    intro deadline hphase
    simp only [Handler.sendReply] at hphase
    cases hbytes : encode msg <;> rw [hbytes] at hphase <;> cases hphase
  handling := by
    intro req hphase
    simp only [Handler.sendReply] at hphase
    cases hbytes : encode msg <;> rw [hbytes] at hphase <;> cases hphase
  replying := by
    intro left deadline hphase
    simp only [Handler.sendReply] at hphase
    cases hbytes : encode msg with
    | none => rw [hbytes] at hphase; cases hphase
    | some bytes =>
      rw [hbytes] at hphase
      injection hphase with hleft
      refine ⟨msg, rfl, ?_⟩
      show encode msg = some (s.written ++ left)
      rw [hwritten, hbytes, hleft, List.nil_append]

theorem Recorded.write (h : Recorded error events s) {left : Bytes} {deadline n : ℕ}
    (hphase : s.phase = .replying left deadline) : Recorded error (events ++ [e]) (s.takeBytes left deadline n) := by
  obtain ⟨msg, hmsg, hbytes⟩ := h.replying left deadline hphase
  refine ⟨h.executed, .inr ⟨msg, _, hmsg, hbytes, ?_⟩, fun msg' hmsg' => h.reply_append e hmsg', ?_, ?_, ?_⟩
  · have hpart : left.take n <+: left := List.take_prefix n left
    exact (List.prefix_append_right_inj _).mpr hpart
  · intro deadline' hphase'
    simp only [Handler.takeBytes] at hphase'
    split at hphase' <;> cases hphase'
  · intro req hphase'
    simp only [Handler.takeBytes] at hphase'
    split at hphase' <;> cases hphase'
  · intro left' deadline' hphase'
    simp only [Handler.takeBytes] at hphase'
    split at hphase'
    · cases hphase'
    · injection hphase' with hleft
      refine ⟨msg, hmsg, ?_⟩
      simp only [Handler.takeBytes]
      rw [← hleft, List.append_assoc, List.take_append_drop]
      exact hbytes

/-- **Step lemma** for the record. -/
theorem Recorded.step (h : Recorded error events s) (hmove : Moves c error s e s') :
    Recorded error (events ++ [e]) s' := by
  cases hmove with
  | idle hphase => exact h.tick hphase _ _ _
  | work hphase => exact h.tick hphase _ _ _
  | wait hphase => exact h.tick hphase _ _ _
  | stall hphase => exact h.tick hphase _ _ _
  | giveUp hphase hlate => exact h.close
  | abandon hphase hlate => exact h.close
  | writeError hphase => exact h.close
  | write hphase => exact h.write hphase
  | @arrive piece deadline hphase =>
    obtain ⟨hexecuted, hreply, hwritten, hahead⟩ := h.waiting deadline hphase
    exact recorded_of_waiting rfl hexecuted hreply hwritten (by rw [codec.ahead_arrive, hahead])
  | @again text deadline hphase hahead =>
    obtain ⟨hexecuted, hreply, hwritten, hinput⟩ := h.waiting deadline hphase
    exact recorded_of_waiting rfl hexecuted hreply hwritten (hahead.trans hinput)
  | @ask eof text deadline req hphase hreq =>
    obtain ⟨hexecuted, hreply, hwritten, hahead⟩ := h.waiting deadline hphase
    rw [hahead] at hreq
    have hone : s.executed ++ [req] = [req] := by rw [hexecuted, List.nil_append]
    refine ⟨.inr ⟨req, hone, decoded_first_eq_item_iff.mp hreq⟩, .inl hwritten, ?_, ?_, ?_, ?_⟩
    · intro msg hmsg
      rw [hreply] at hmsg
      cases hmsg
    · intro dl hphase'
      cases hphase'
    · intro req' hphase'
      injection hphase' with heq
      exact ⟨heq ▸ hone, hreply, hwritten⟩
    · intro left dl hphase'
      cases hphase'
  | @refuse eof text deadline hphase hwhy =>
    obtain ⟨hexecuted, -, hwritten, -⟩ := h.waiting deadline hphase
    exact recorded_sendReply h.executed hwritten (.inl ⟨hexecuted, text, rfl⟩)
  | @respond req resp hphase =>
    obtain ⟨hexecuted, -, hwritten⟩ := h.handling req hphase
    exact recorded_sendReply h.executed hwritten (.inr ⟨by rw [hexecuted]; simp, by simp⟩)

theorem timed_sendReply {msg : Msg} (h : s.held ≤ c.requestTimeout + s.spent) : Timed c (s.sendReply c msg) := by
  unfold Timed Handler.sendReply
  cases encode msg with
  | none =>
    dsimp only [Option.elim_none]
    omega
  | some bytes =>
    dsimp only [Option.elim_some]
    omega

/-- **Step lemma** for the time, where deadlines are noticed. -/
theorem Timed.step (h : Timed c s) (hprompt : prompt s e = true) (hmove : Moves c error s e s') : Timed c s' := by
  unfold Timed at h
  cases hmove with
  | idle hphase | arrive hphase | again hphase _ =>
    rw [hphase] at h
    exact h
  | work hphase | ask hphase _ | giveUp hphase _ | abandon hphase _ | writeError hphase =>
    rw [hphase] at h
    simp only [Timed] at h ⊢
    omega
  | wait hphase | stall hphase =>
    -- a tick does not go past the deadline of the phase
    rw [hphase] at h
    simp only [prompt, hphase, decide_eq_true_eq] at hprompt
    simp only [Timed] at h ⊢
    omega
  | refuse hphase _ =>
    rw [hphase] at h
    refine timed_sendReply ?_
    dsimp only at h ⊢
    omega
  | respond hphase =>
    rw [hphase] at h
    exact timed_sendReply h
  | @write n deadline left hphase =>
    rw [hphase] at h
    unfold Timed Handler.takeBytes
    dsimp only at h ⊢
    by_cases hlast : left.drop n = []
    · rw [if_pos hlast]
      dsimp only
      omega
    · rw [if_neg hlast]
      exact h

omit [Wire Msg] in
theorem Timed.held_le (h : Timed c s) : s.held ≤ c.requestTimeout + s.spent + c.responseTimeout := by
  unfold Timed at h
  split at h <;> omega

end Invariant

/-- What a handler has done so far. -/
structure Outcome (error : String → Msg) (events : List (Event Msg)) (s : Handler Msg) : Prop where
  executed : s.executed = [] ∨ ∃ req, s.executed = [req] ∧ Asks s.input req
  written : s.written = [] ∨ ∃ msg bytes, s.reply = some msg ∧ encode msg = some bytes ∧ s.written <+: bytes
  reply : ∀ msg, s.reply = some msg →
    (s.executed = [] ∧ ∃ text : String, msg = error text ∧ text.utf8ByteSize ≤ 527) ∨
      (s.executed ≠ [] ∧ .respond msg ∈ events)

/-- **Whatever the client does**, at most one request is executed, the one its bytes begin with; what is written back
is part of one frame, the answer to that request or a short error. If deadlines are noticed as they pass, then besides
the time the request takes the handler stays for the two timeouts at most. -/
theorem session_run (c : IpcTimeouts) (error : String → Msg) (t : ℕ) {events : List (Event Msg)} {s : Handler Msg}
    (hrun : Run (fun s e s' => s.next c error e = some s') (fun _ _ => True) (Handler.new c t) events s) :
    Outcome error events s ∧
      (Run (fun s e s' => s.next c error e = some s') (fun s e => prompt s e = true) (Handler.new c t) events s →
        s.held ≤ c.requestTimeout + s.spent + c.responseTimeout) := by
  have hrecorded : Recorded error events s :=
    hrun.invariant (recorded_of_waiting rfl rfl rfl rfl codec.ahead_new) fun _ _ _ _ h _ hnext =>
      h.step (moves_of_next hnext)
  refine ⟨⟨hrecorded.executed, hrecorded.written, fun msg hmsg => ?_⟩, fun hprompt => ?_⟩
  · rcases hrecorded.reply msg hmsg with ⟨hnone, text, rfl⟩ | hanswer
    · exact .inl ⟨hnone, _, rfl, utf8ByteSize_truncateDecodeError_le text⟩
    · exact .inr hanswer
  · have htimed : Timed c s := by
      refine hprompt.invariant (I := fun _ s => Timed c s) ?_ fun _ _ _ _ h hprompt hnext => h.step hprompt
        (moves_of_next hnext)
      simp [Timed, Handler.new]
    exact htimed.held_le

end Handling

namespace Sample

theorem u32ToBe_frameLen {l : Bytes} (h : l.length = 4) : u32ToBe (UInt32.ofNat (Control.frameLen l)) = l := by
  match l, h with
  | [a, b, c, d], _ =>
    have ha := a.toNat_lt
    have hb := b.toNat_lt
    have hc := c.toNat_lt
    have hd := d.toNat_lt
    have hlen : (UInt32.ofNat (Control.frameLen [a, b, c, d])).toNat =
        ((a.toNat * 256 + b.toNat) * 256 + c.toNat) * 256 + d.toNat := by
      simp only [Control.frameLen, byteAt, u32FromBe, List.getD_cons_zero, List.getD_cons_succ,
        UInt32.toNat_ofNat']
      omega
    rw [u32ToBe, hlen]
    refine List.cons_eq_cons.mpr ⟨?_, List.cons_eq_cons.mpr ⟨?_, List.cons_eq_cons.mpr ⟨?_,
      List.cons_eq_cons.mpr ⟨?_, rfl⟩⟩⟩⟩
    all_goals
      apply UInt8.toNat.inj
      simp only [UInt8.toNat_ofNat']
      omega

/-- Frames with a length of four bytes, the greatest first. -/
def frameFormat : Frames.Format UInt8 where
  width := 4
  limit := maxFrameLen
  encodeLen n := u32ToBe (UInt32.ofNat n)
  decodeLen := Control.frameLen
  length_encodeLen _ := rfl
  decode_encodeLen n hn := by
    have hlt : n < 2 ^ 32 := lt_of_le_of_lt hn (by decide)
    rw [Control.frameLen_u32ToBe, UInt32.toNat_ofNat_of_lt' hlt]
  encode_decodeLen _ h := u32ToBe_frameLen h

scoped instance framing : LengthDelimited := ⟨frameFormat.codec, rfl⟩

/-- One byte for a message. -/
scoped instance byteWire : Wire UInt8 where
  toVecNamed b := [b]
  fromSlice
    | [b] => some b
    | _ => none

def timeouts : IpcTimeouts := ⟨none, some 0⟩

/-- A client that sends a request of two bytes, which is no message, and two bytes more. -/
def garbage : List (Event UInt8) :=
  [.arrive [0, 0, 0], .tick 4, .poll false "", .arrive [2, 5, 5, 9, 9], .poll false "trailing bytes", .tick 7, .write 5]

end Sample

open Sample in
/-- The garbage is answered with an error, and the handler is gone after eleven seconds. -/
theorem session_run_garbage :
    ∃ s, Run (fun s e s' => Handler.next timeouts (fun _ => 0) s e = some s') (fun s e => prompt s e = true)
        (Handler.new timeouts 100) garbage s ∧
      s.executed = [] ∧ s.written = [0, 0, 0, 1, 0] ∧ s.held = 11 ∧ s.phase = .closed ∧
      Outcome (fun _ => 0) garbage s ∧ s.held ≤ 10 + s.spent + 10 := by
  refine Run.exists_of_exec_imp
    (fun s => s.executed = [] ∧ s.written = [0, 0, 0, 1, 0] ∧ s.held = 11 ∧ s.phase = .closed) (by decide +kernel)
    fun s hrun ⟨hexecuted, hwritten, hheld, hphase⟩ => ?_
  obtain ⟨houtcome, hheldLe⟩ := session_run timeouts (fun _ => 0) 100 (hrun.mono fun _ _ _ => trivial)
  exact ⟨hexecuted, hwritten, hheld, hphase, houtcome, hheldLe hrun⟩

/-! ### A client that asks and waits for the answer -/

section Exchange

variable [LengthDelimited] {Msg : Type} [Wire Msg]

/-- Nothing goes wrong on the way: the client does not hang up, no timeout expires, the socket takes what is
written. -/
def calm : Event Msg → Bool
  | .poll eof _ => !eof
  | .timeout | .writeError => false
  | _ => true

/-- Where the handler of a client that has sent nothing but `bytes`, the request `msg`, can be. -/
def Answering (msg : Msg) (bytes : Bytes) (events : List (Event Msg)) (s : Handler Msg) : Prop :=
  s.input <+: bytes →
    match s.phase with
    | .waiting _ => True
    | .handling req => req = msg
    | .replying _ _ => s.executed = [msg] ∧ ∃ resp, s.reply = some resp ∧ .respond resp ∈ events
    | .closed => s.executed = [msg] ∧ ∃ resp, .respond resp ∈ events ∧
        (encode resp = none ∧ s.written = [] ∨ encode resp = some s.written)

section Answer

variable {c : IpcTimeouts} {error : String → Msg} {events : List (Event Msg)} {s s' : Handler Msg} {e : Event Msg}
  {msg : Msg} {bytes : Bytes}

theorem answering_sendReply {resp : Msg} (hexecuted : s.executed = [msg]) (hwritten : s.written = [])
    (hmem : .respond resp ∈ events) : Answering msg bytes events (s.sendReply c resp) := by
  intro _
  unfold Handler.sendReply
  cases hbytes : encode resp with
  | none => exact ⟨hexecuted, resp, hmem, .inl ⟨hbytes, hwritten⟩⟩
  | some frame => exact ⟨hexecuted, resp, rfl, hmem⟩

theorem Answering.write (h : Answering msg bytes events s) (hrecorded : Recorded error events s) {left : Bytes}
    {deadline n : ℕ} (hphase : s.phase = .replying left deadline) :
    Answering msg bytes (events ++ [e]) (s.takeBytes left deadline n) := by
  intro hinput
  have h := h hinput
  rw [hphase] at h
  obtain ⟨hexecuted, resp, hreply, hmem⟩ := h
  have hmem := List.mem_append_left [e] hmem
  unfold Handler.takeBytes
  by_cases hlast : left.drop n = []
  · -- the last bytes go out, so what was written is the whole frame
    obtain ⟨resp', hreply', hbytes⟩ := hrecorded.replying left deadline hphase
    obtain rfl := Option.some.inj (hreply.symm.trans hreply')
    have hall : left.take n = left := by
      conv_rhs => rw [← List.take_append_drop n left, hlast, List.append_nil]
    rw [if_pos hlast]
    exact ⟨hexecuted, resp, hmem, .inr (by rw [hall]; exact hbytes)⟩
  · rw [if_neg hlast]
    exact ⟨hexecuted, resp, hreply, hmem⟩

theorem Answering.step (hrt : Wire.RoundTrips Msg) (hsend : encode msg = some bytes)
    (h : Answering msg bytes events s) (hrecorded : Recorded error events s) (hcalm : calm e = true)
    (hmove : Moves c error s e s') : Answering msg bytes (events ++ [e]) s' := by
  cases hmove with
  | idle hphase =>
    intro hinput
    have h := h hinput
    rw [hphase] at h
    obtain ⟨hexecuted, resp, hmem, hwritten⟩ := h
    exact ⟨hexecuted, resp, List.mem_append_left _ hmem, hwritten⟩
  | work hphase =>
    intro hinput
    have h := h hinput
    rw [hphase] at h
    exact h
  | stall hphase =>
    intro hinput
    have h := h hinput
    rw [hphase] at h
    obtain ⟨hexecuted, resp, hreply, hmem⟩ := h
    exact ⟨hexecuted, resp, hreply, List.mem_append_left _ hmem⟩
  | wait | arrive | again => exact fun _ => trivial
  | ask hphase hreq =>
    intro hinput
    obtain ⟨-, -, -, hahead⟩ := hrecorded.waiting _ hphase
    rw [hahead, decoded_of_isPrefix hrt hsend hinput] at hreq
    split at hreq
    · cases hreq
    · injection hreq with heq
      exact heq.symm
  | refuse hphase hwhy =>
    intro hinput
    obtain ⟨-, -, -, hahead⟩ := hrecorded.waiting _ hphase
    rcases hwhy with rfl | hfailed
    · cases hcalm
    · have hinput : s.input <+: bytes := hinput
      rw [hahead, decoded_of_isPrefix hrt hsend hinput] at hfailed
      split at hfailed <;> cases hfailed
  | respond hphase =>
    intro hinput
    have h := h hinput
    rw [hphase] at h
    obtain rfl : _ = msg := h
    obtain ⟨hexecuted, -, hwritten⟩ := hrecorded.handling _ hphase
    exact answering_sendReply hexecuted hwritten (by simp) hinput
  | write hphase => exact h.write hrecorded hphase
  | giveUp | abandon | writeError => cases hcalm

/-- Bytes of the reply go out until none is left, whatever sizes the socket takes them in. -/
theorem writes_close (c : IpcTimeouts) (error : String → Msg) {sizes : List ℕ} (hsizes : sizes ≠ []) {left : Bytes}
    {deadline : ℕ} (hphase : s.phase = .replying left deadline) (hsum : left.length ≤ sizes.sum) :
    ∃ k s', Run (fun s e s' => s.next c error e = some s') (fun _ e => calm e = true) s
      ((sizes.take k).map .write) s' ∧ s'.phase = .closed ∧ s'.written = s.written ++ left ∧
      s'.executed = s.executed := by
  induction sizes generalizing s left with
  | nil => exact absurd rfl hsizes
  | cons n sizes ih =>
    have hnext : s.next c error (.write n) = some (s.takeBytes left deadline n) := by
      simp only [Handler.next, hphase]
    by_cases hlast : left.drop n = []
    · have hall : left.take n = left := by
        conv_rhs => rw [← List.take_append_drop n left, hlast, List.append_nil]
      refine ⟨1, s.takeBytes left deadline n, .snoc .nil rfl hnext, ?_, ?_, rfl⟩
      · exact if_pos hlast
      · simp only [Handler.takeBytes, hall]
    · -- the rest goes out with the writes that follow
      have hrest : (left.drop n).length ≤ sizes.sum := by
        rw [List.sum_cons] at hsum
        rw [List.length_drop]
        omega
      have hpos := List.length_pos_of_ne_nil hlast
      have hne : sizes ≠ [] := by
        rintro rfl
        rw [List.sum_nil] at hrest
        omega
      have hphase' : (s.takeBytes left deadline n).phase = .replying (left.drop n) deadline := if_neg hlast
      obtain ⟨k, s', hrun, hclosed, hwritten, hkept⟩ := ih hne hphase' hrest
      refine ⟨k + 1, s', ?_, hclosed, ?_, hkept⟩
      · rw [List.take_succ_cons, List.map_cons]
        exact hrun.cons rfl hnext
      · rw [hwritten]
        simp only [Handler.takeBytes, List.append_assoc, List.take_append_drop]

end Answer

/-- What is known of the handler of a client that has sent part of the bytes of one request, or all of them. -/
structure Answered (c : IpcTimeouts) (error : String → Msg) (msg : Msg) (bytes : Bytes) (events : List (Event Msg))
    (s : Handler Msg) : Prop where
  /-- With the whole request there, a poll executes it. -/
  executes : ∀ deadline text, s.phase = .waiting deadline → s.input = bytes →
    ∃ s', s.next c error (.poll false text) = some s' ∧ s'.phase = .handling msg ∧ s'.executed = [msg]
  /-- What `handle_request` returns for it is sent, if it fits in a frame. -/
  sends : ∀ req, s.phase = .handling req → req = msg ∧ s.executed = [msg] ∧
    ∀ resp, ∃ s', s.next c error (.respond resp) = some s' ∧ s'.reply = some resp ∧
      (encode resp = none → s'.phase = .closed) ∧
      ∀ frame, encode resp = some frame → ∃ deadline, s'.phase = .replying frame deadline
  /-- The writes, in whatever sizes the socket takes, lead to the end with the whole frame sent. -/
  completes : ∀ left deadline, s.phase = .replying left deadline → ∀ sizes, sizes ≠ [] → left.length ≤ sizes.sum →
    ∃ resp k s', s.reply = some resp ∧ .respond resp ∈ events ∧
      Run (fun s e s' => s.next c error e = some s') (fun _ e => calm e = true) s ((sizes.take k).map .write) s' ∧
      s'.phase = .closed ∧ encode resp = some s'.written ∧ s'.executed = [msg]
  /-- At the end the request has been executed once, and the client reads the answer. -/
  closed : s.phase = .closed → s.executed = [msg] ∧ ∃ resp, .respond resp ∈ events ∧
    (maxFrameLen < (Wire.toVecNamed resp).length ∧ s.written = [] ∨
      ∀ reader : codec.Reader, codec.ahead reader = s.written → decoded (codec.poll reader).1 = .item resp)

/-- **Request and answer.** If the client has written one request and nothing else, in whatever pieces it arrives, and
nothing goes wrong on the way, then a poll executes that request as soon as it has arrived; what `handle_request`
returns is written, in whatever pieces, until all of it is; and what the client then reads, again in any pieces, is
that answer. Only an answer too large for a frame is not sent at all. -/
theorem request_answered (c : IpcTimeouts) (error : String → Msg) (t : ℕ) (hrt : Wire.RoundTrips Msg) {msg : Msg}
    {bytes : Bytes} (hsend : encode msg = some bytes) {events : List (Event Msg)} {s : Handler Msg}
    (hrun : Run (fun s e s' => s.next c error e = some s') (fun _ e => calm e = true) (Handler.new c t) events s)
    (hinput : s.input <+: bytes) : Answered c error msg bytes events s := by
  obtain ⟨hrecorded, hanswering⟩ : Recorded error events s ∧ Answering msg bytes events s := by
    refine hrun.invariant (I := fun events s => Recorded error events s ∧ Answering msg bytes events s)
      ⟨recorded_of_waiting rfl rfl rfl rfl codec.ahead_new, fun _ => trivial⟩ ?_
    rintro events s e s' ⟨hrecorded, hanswer⟩ hcalm hnext
    have hmove := moves_of_next hnext
    exact ⟨hrecorded.step hmove, hanswer.step hrt hsend hrecorded hcalm hmove⟩
  have hanswer := hanswering hinput
  refine ⟨?_, ?_, ?_, ?_⟩
  · intro deadline text hphase hall
    obtain ⟨hexecuted, -, -, hahead⟩ := hrecorded.waiting deadline hphase
    have hitem : (decoded (codec.poll s.reader).1 : Decoded Msg) = .item msg := by
      rw [codec.poll_fst, hahead, decoded_of_isPrefix hrt hsend hinput, hall, if_neg (lt_irrefl _)]
    refine ⟨s.pollRequest c error false text, by simp only [Handler.next, hphase], ?_, ?_⟩
    · simp only [Handler.pollRequest, hitem]
    · simp only [Handler.pollRequest, hitem, hexecuted, List.nil_append]
  · intro req hphase
    rw [hphase] at hanswer
    obtain rfl : req = msg := hanswer
    obtain ⟨hexecuted, -, -⟩ := hrecorded.handling req hphase
    refine ⟨rfl, hexecuted, fun resp => ⟨s.sendReply c resp, by simp only [Handler.next, hphase], rfl, ?_, ?_⟩⟩
    · intro hnone
      simp only [Handler.sendReply, hnone, Option.elim_none]
    · intro frame hframe
      exact ⟨s.now + c.responseTimeout, by simp only [Handler.sendReply, hframe, Option.elim_some]⟩
  · intro left deadline hphase sizes hsizes hsum
    rw [hphase] at hanswer
    obtain ⟨hexecuted, resp, hreply, hmem⟩ := hanswer
    obtain ⟨resp', hreply', hbytes⟩ := hrecorded.replying left deadline hphase
    obtain rfl := Option.some.inj (hreply.symm.trans hreply')
    obtain ⟨k, s', hrun', hclosed, hwritten, hkept⟩ := writes_close c error hsizes hphase hsum
    exact ⟨resp, k, s', hreply, hmem, hrun', hclosed, hwritten ▸ hbytes, hkept.trans hexecuted⟩
  · intro hclosed
    rw [hclosed] at hanswer
    obtain ⟨hexecuted, resp, hmem, ⟨hnone, hwritten⟩ | hwhole⟩ := hanswer
    · exact ⟨hexecuted, resp, hmem, .inl ⟨encode_eq_none_iff.mp hnone, hwritten⟩⟩
    · refine ⟨hexecuted, resp, hmem, .inr fun reader hreader => ?_⟩
      rw [codec.poll_fst, hreader, decoded_first_eq_item_iff, ← List.append_nil s.written]
      exact asks_of_encode hrt hwhole []

end Exchange

open Sample in
/-- The request arrives in two pieces. A poll then executes it, and its answer leaves in two pieces. -/
theorem request_answered_pieces :
    (∃ s s' : Handler UInt8, Run (fun s e s' => s.next timeouts (fun _ => 0) e = some s') (fun _ e => calm e = true)
        (Handler.new timeouts 100) [.arrive [0, 0], .poll false "", .arrive [0, 1, 42]] s ∧
      s.next timeouts (fun _ => 0) (.poll false "") = some s' ∧ s'.executed = [42]) ∧
    ∃ s : Handler UInt8, Run (fun s e s' => s.next timeouts (fun _ => 0) e = some s') (fun _ e => calm e = true)
        (Handler.new timeouts 100)
        [.arrive [0, 0], .poll false "", .arrive [0, 1, 42], .poll false "", .respond 7, .write 2, .write 3] s ∧
      s.written = [0, 0, 0, 1, 7] ∧ s.executed = [42] := by
  have hsend : encode (42 : UInt8) = some [0, 0, 0, 1, 42] := rfl
  constructor
  · obtain ⟨s, hrun, hinput, hphase⟩ : ∃ s : Handler UInt8,
        Run (fun s e s' => s.next timeouts (fun _ => 0) e = some s') (fun _ e => calm e = true)
          (Handler.new timeouts 100) [.arrive [0, 0], .poll false "", .arrive [0, 1, 42]] s ∧
        s.input = [0, 0, 0, 1, 42] ∧ s.phase = .waiting 110 := Run.exists_of_exec (by decide +kernel)
    have hanswered := request_answered timeouts (fun _ => 0) 100 (fun _ => rfl) hsend hrun (by rw [hinput])
    obtain ⟨s', hnext, -, hexecuted⟩ := hanswered.executes 110 "" hphase hinput
    exact ⟨s, s', hrun, hnext, hexecuted⟩
  · refine Run.exists_of_exec_imp
      (fun s => s.input = [0, 0, 0, 1, 42] ∧ s.written = [0, 0, 0, 1, 7] ∧ s.phase = .closed) (by decide +kernel)
      fun s hrun ⟨hinput, hwritten, hphase⟩ => ?_
    have hanswered := request_answered timeouts (fun _ => 0) 100 (fun _ => rfl) hsend hrun (by rw [hinput])
    exact ⟨hwritten, (hanswered.closed hphase).1⟩

end Tetron.Ipc.Session
