import Tetron.Addressing.Cidr
import Tetron.Bytes
import Tetron.Lib.LineReader
import Tetron.Lib.Run
import Tetron.Lib.Table

/-!
# The Veilid client

One actor owns the connection to the external Veilid daemon. Callers hold handles: a call puts a request on the
actor's command queue and waits for its result. The actor writes requests under ids of its own and matches the
daemon's replies by id; when the connection is lost it fails the calls it has written, and connects again.

`Client` is the actor with its connection, the queue, the routing context id the handles share, the tasks that hold
handles, and the number of handles there are. It also records what happened: which results calls received, which
requests were written on which connection, what the daemon sent on it, and which lines were handled. An `Event` is one
atomic step of any party, so a run of events is an interleaving of callers, actor and daemon.
-/

namespace Tetron.Veilid

/-! ### The wire -/

inductive Op where
  | getState
  /-- A request of a routing context. -/
  | appMessage (rcId : UInt32) (target message : String)
deriving DecidableEq

/-- The routing context a request names. -/
def Op.rcId? : Op → Option UInt32
  | .getState => none
  | .appMessage rcId _ _ => some rcId

structure Body where
  id : UInt32
  op : Op
deriving DecidableEq

structure Response (V : Type) where
  id : UInt32
  value : V
  error : Option String

/-- What the caller is given for a reply. -/
def Response.result {V : Type} (r : Response V) : Except String V :=
  match r.error with
  | some message => .error s!"veilid-transport: daemon returned an error: {message}"
  | none => .ok r.value

structure Update where
  kind : String
  sender : Option String
  message : Option String

inductive Incoming (V : Type) where
  | response (r : Response V)
  | update (u : Update)

/-- The formats of other crates: JSON lines whose values are of type `V`, base64 payloads, and node ids. -/
class Wire (V : Type) where
  parseIncoming : String → Option (Incoming V)
  b64Encode : Bytes → String
  b64Decode : String → Option Bytes
  parseNodeId : String → Option String

def reqGetState (id : UInt32) : Body := ⟨id, .getState⟩

def reqAppMessage (V : Type) [Wire V] (id rcId : UInt32) (target : String) (payload : Bytes) : Body :=
  ⟨id, .appMessage rcId target (Wire.b64Encode V payload)⟩

/-! ### Calls and the actor -/

/-- Who makes a call: a task of `send_fire_and_forget`, whose handle goes with the call, or an identity poll. -/
inductive Caller where
  | task
  | poll
deriving DecidableEq

/-- A call, by its number among all calls. -/
structure Call where
  number : ℕ
  caller : Caller
deriving DecidableEq

structure Command where
  call : Call
  body : Body
deriving DecidableEq

/-- A connection while it is served: which one it is, the routing context of its handshake, how many ids it has given
out, and what `serve_one_connection` keeps. -/
structure Conn where
  number : ℕ
  rcId : UInt32
  allocated : ℕ
  nextId : UInt32
  pending : HashTable UInt32 Call

def Conn.new (number : ℕ) (rcId : UInt32) : Conn := ⟨number, rcId, 0, 100, ∅⟩

/-- Where `actor_loop` is. -/
inductive Actor where
  | serving (conn : Conn)
  | reconnecting
  | stopped

def Actor.pending : Actor → List Call
  | .serving conn => conn.pending.values
  | .reconnecting => []
  | .stopped => []

/-- The ids given out on the connection that is served. -/
def Actor.allocated : Actor → ℕ
  | .serving conn => conn.allocated
  | .reconnecting => 0
  | .stopped => 0

/-- A request as it was written. -/
structure Written where
  conn : ℕ
  connRcId : UInt32
  call : Call
  body : Body
deriving DecidableEq

structure Client (V : Type) where
  /-- How many senders the command queue has. -/
  senders : ℕ
  /-- Handles of callers outside of the client. -/
  outside : ℕ
  /-- Identity poll tasks, each with a handle. -/
  polls : ℕ
  /-- Requests whose task has been spawned and has not run, each with a handle. -/
  built : List Body
  queue : List Command
  rcId : UInt32
  actor : Actor
  /-- The bytes of the connection that is served. -/
  reader : LineReader UInt8
  /-- The daemon has closed it. -/
  ended : Bool
  connections : ℕ
  issued : ℕ
  results : List (Call × Except String V)
  written : List Written
  /-- The bytes that arrived, with the connection they came on. -/
  sent : List (ℕ × Bytes)
  /-- The lines given to `handle_incoming_line`, with the connection they came from. -/
  handled : List (ℕ × String)
  inbound : List (String × Bytes)

/-- What becomes of a request the actor takes from the queue. -/
inductive Outcome where
  | encodeFailed (e : String)
  | writeFailed (e : String)
  | written

namespace Client

variable {V : Type}

/-- `spawn_actor` on the first connection: the actor keeps a handle of its own. -/
def spawnActor (rcId : UInt32) : Client V where
  senders := 2
  outside := 1
  polls := 0
  built := []
  queue := []
  rcId := rcId
  actor := .serving (.new 0 rcId)
  reader := .new
  ended := false
  connections := 1
  issued := 0
  results := []
  written := []
  sent := []
  handled := []
  inbound := []

/-! ### Callers -/

def isTask (call : Call) : ℕ := if call.caller = .task then 1 else 0

/-- The sum of `f` over some calls. -/
def weigh (f : Call → ℕ) (calls : List Call) : ℕ := (calls.map f).sum

/-- Calls without a result. -/
def waiting (c : Client V) : List Call := c.queue.map Command.call ++ c.actor.pending

/-- The calls are answered. A task drops its handle with its result. -/
def deliver (c : Client V) (calls : List Call) (result : Except String V) : Client V :=
  { c with
    results := c.results ++ calls.map fun call => (call, result)
    senders := c.senders - weigh isTask calls }

/-- `ClientHandle::call`. -/
def call (c : Client V) (caller : Caller) (body : Body) : Client V :=
  let call : Call := ⟨c.issued, caller⟩
  match c.actor with
  | .stopped => deliver { c with issued := c.issued + 1 } [call]
      (.error "veilid-transport: connection actor is gone")
  | _ => { c with issued := c.issued + 1, queue := c.queue ++ [⟨call, body⟩] }

/-- `poll_send`: the request is built with the id the handle reads now, and sent by a task. -/
def pollSend [Wire V] (c : Client V) (target : String) (payload : Bytes) : Client V :=
  { c with built := c.built ++ [reqAppMessage V 0 c.rcId target payload], senders := c.senders + 1 }

/-! ### The actor -/

inductive Recv where
  | message (cmd : Command)
  | pending
  | closed
deriving DecidableEq

/-- `cmd_rx.recv()`: closed once the queue is empty and has no sender left. -/
def recv (c : Client V) : Recv :=
  match c.queue with
  | cmd :: _ => .message cmd
  | [] => if c.senders = 0 then .closed else .pending

/-- The connection is lost: what was written on it fails. -/
def lose (c : Client V) (conn : Conn) : Client V :=
  { deliver c conn.pending.values (.error "veilid-transport: daemon disconnected") with actor := .reconnecting }

/-- The actor returns, and drops the replies it owes and its handle. -/
def shutdown (c : Client V) (conn : Conn) : Client V :=
  let c := deliver c conn.pending.values (.error "veilid-transport: connection actor dropped the request")
  { c with actor := .stopped, senders := c.senders - 1 }

/-- The calls that lose their place in the table when `id` is inserted. -/
def displaced (conn : Conn) (id : UInt32) : List Call := (conn.pending.get? id).toList

/-- The command branch of `serve_one_connection`, which gives up the read under way. -/
def serveCommand (c : Client V) (conn : Conn) (cmd : Command) (outcome : Outcome) : Client V :=
  let c := { c with reader := c.reader.cancel }
  let id := conn.nextId
  let conn := { conn with nextId := conn.nextId + 1, allocated := conn.allocated + 1 }
  let body := { cmd.body with id := id }
  match outcome with
  | .encodeFailed e =>
    { deliver c [cmd.call] (.error s!"veilid-transport: failed to encode request: {e}") with
      actor := .serving conn }
  | .writeFailed e => lose (deliver c [cmd.call] (.error s!"veilid-transport: write failed: {e}")) conn
  | .written =>
    { deliver c (displaced conn id) (.error "veilid-transport: connection actor dropped the request") with
      actor := .serving { conn with pending := conn.pending.insert id cmd.call }
      written := c.written ++ [⟨conn.number, conn.rcId, cmd.call, body⟩] }

/-- `str::trim`. -/
def trimText (text : String) : String := String.ofList (trim text.toList)

section Lines

variable [Wire V]

/-- An `AppMessage` push from a node with a readable id and payload. -/
def pushed (V : Type) [Wire V] (u : Update) : Option (String × Bytes) :=
  if u.kind = "AppMessage" then do
    let sender ← u.sender
    let message ← u.message
    let nodeId ← Wire.parseNodeId V sender
    let payload ← Wire.b64Decode V message
    return (nodeId, payload)
  else none

def handleIncomingLine (c : Client V) (conn : Conn) (line : String) : Client V :=
  let c := { c with handled := c.handled ++ [(conn.number, line)] }
  match Wire.parseIncoming (V := V) line with
  | none => c
  | some (.response r) =>
    match conn.pending.get? r.id with
    | some call =>
      { deliver c [call] r.result with
        actor := .serving { conn with pending := conn.pending.erase r.id } }
    | none => c
  | some (.update u) => { c with inbound := c.inbound ++ (pushed V u).toList }

/-- `read_line` returns `raw`; what is not UTF-8 is an error. -/
def serveLine (c : Client V) (conn : Conn) (raw : Bytes) : Client V :=
  match fromUtf8 raw with
  | none => lose c conn
  | some text => if (trimText text).isEmpty then c else handleIncomingLine c conn (trimText text)

def newline : UInt8 := 10

/-- The read branch of `serve_one_connection`: `read_line` is polled. At the end of the stream it returns what it has
collected, as a line without an end, or nothing. -/
def serveRead (c : Client V) (conn : Conn) : Client V :=
  match c.reader.poll newline with
  | (some raw, reader) => serveLine { c with reader := reader } conn raw
  | (none, reader) =>
    if c.ended then
      if reader.held = [] then lose { c with reader := reader } conn
      else serveLine { c with reader := reader.cancel } conn reader.held
    else { c with reader := reader }

end Lines

/-- `connect_and_handshake` succeeds: the new id is stored, and a task polls the identity with a handle of its own. -/
def reconnect (c : Client V) (rcId : UInt32) : Client V :=
  { c with
    rcId := rcId
    actor := .serving (.new c.connections rcId)
    reader := .new
    ended := false
    connections := c.connections + 1
    polls := c.polls + 1
    senders := c.senders + 1 }

end Client

/-! ### Steps -/

inductive Event where
  /-- A caller clones its handle. -/
  | cloneHandle
  /-- A caller drops a handle. -/
  | dropHandle
  /-- `identity_poll_loop` is spawned with a clone. -/
  | spawnPoll
  | pollSend (target : String) (payload : Bytes)
  /-- A task of `send_fire_and_forget` runs. -/
  | runTask (i : ℕ)
  /-- An identity poll asks for the state. It waits for the result before it asks again, which no step relies on. -/
  | pollCall
  /-- An identity poll returns, or is aborted while it waits. -/
  | pollEnds
  /-- `recv` gives the actor the next command. -/
  | command (outcome : Outcome)
  /-- `recv` tells the actor that all senders are gone. -/
  | allGone
  /-- Bytes of the daemon arrive. -/
  | arrive (piece : Bytes)
  /-- The daemon closes the connection. -/
  | close
  | read
  /-- `read_line` fails. -/
  | readError
  | reconnected (rcId : UInt32)
  | reconnectFails

def Event.isCommand : Event → Bool
  | .command _ => true
  | _ => false

namespace Client

variable {V : Type} [Wire V]

/-- The step of an event, if the event can happen. -/
def next (c : Client V) : Event → Option (Client V)
  | .cloneHandle =>
    if 0 < c.outside then some { c with outside := c.outside + 1, senders := c.senders + 1 } else none
  | .dropHandle =>
    if 0 < c.outside then some { c with outside := c.outside - 1, senders := c.senders - 1 } else none
  | .spawnPoll => if 0 < c.outside then some { c with polls := c.polls + 1, senders := c.senders + 1 } else none
  | .pollSend target payload => if 0 < c.outside then some (c.pollSend target payload) else none
  | .runTask i =>
    match c.built[i]? with
    | some body => some (call { c with built := c.built.eraseIdx i } .task body)
    | none => none
  | .pollCall => if 0 < c.polls then some (c.call .poll (reqGetState 0)) else none
  | .pollEnds => if 0 < c.polls then some { c with polls := c.polls - 1, senders := c.senders - 1 } else none
  | .command outcome =>
    match c.actor, c.queue with
    | .serving conn, cmd :: rest => some (serveCommand { c with queue := rest } conn cmd outcome)
    | _, _ => none
  | .allGone =>
    match c.actor with
    | .serving conn => if c.recv = .closed then some (c.shutdown conn) else none
    | _ => none
  | .arrive piece =>
    match c.actor with
    | .serving conn =>
      if c.ended then none
      else some { c with reader := c.reader.arrive piece, sent := c.sent ++ [(conn.number, piece)] }
    | _ => none
  | .close =>
    match c.actor with
    | .serving _ => some { c with ended := true }
    | _ => none
  | .read =>
    match c.actor with
    | .serving conn => some (c.serveRead conn)
    | _ => none
  | .readError =>
    match c.actor with
    | .serving conn => some (c.lose conn)
    | _ => none
  | .reconnected rcId =>
    match c.actor with
    | .reconnecting => some (c.reconnect rcId)
    | _ => none
  | .reconnectFails =>
    match c.actor with
    | .reconnecting => some c
    | _ => none

/-- What a step does, with what must hold for it. -/
inductive Effect (c : Client V) : Event → Client V → Prop
  | cloneHandle (h : 0 < c.outside) :
      Effect c .cloneHandle { c with outside := c.outside + 1, senders := c.senders + 1 }
  | dropHandle (h : 0 < c.outside) :
      Effect c .dropHandle { c with outside := c.outside - 1, senders := c.senders - 1 }
  | spawnPoll (h : 0 < c.outside) : Effect c .spawnPoll { c with polls := c.polls + 1, senders := c.senders + 1 }
  | pollSend {target : String} {payload : Bytes} (h : 0 < c.outside) :
      Effect c (.pollSend target payload) (c.pollSend target payload)
  | runTask {i : ℕ} {body : Body} (h : c.built[i]? = some body) :
      Effect c (.runTask i) (call { c with built := c.built.eraseIdx i } .task body)
  | pollCall (h : 0 < c.polls) : Effect c .pollCall (c.call .poll (reqGetState 0))
  | pollEnds (h : 0 < c.polls) : Effect c .pollEnds { c with polls := c.polls - 1, senders := c.senders - 1 }
  | command {outcome : Outcome} {conn : Conn} {cmd : Command} {rest : List Command} (hactor : c.actor = .serving conn)
      (hqueue : c.queue = cmd :: rest) :
      Effect c (.command outcome) (serveCommand { c with queue := rest } conn cmd outcome)
  | allGone {conn : Conn} (hactor : c.actor = .serving conn) (h : c.recv = .closed) :
      Effect c .allGone (c.shutdown conn)
  | arrive {piece : Bytes} {conn : Conn} (hactor : c.actor = .serving conn) (h : c.ended = false) :
      Effect c (.arrive piece)
        { c with reader := c.reader.arrive piece, sent := c.sent ++ [(conn.number, piece)] }
  | close {conn : Conn} (hactor : c.actor = .serving conn) : Effect c .close { c with ended := true }
  | read {conn : Conn} (hactor : c.actor = .serving conn) : Effect c .read (c.serveRead conn)
  | readError {conn : Conn} (hactor : c.actor = .serving conn) : Effect c .readError (c.lose conn)
  | reconnected {rcId : UInt32} (hactor : c.actor = .reconnecting) : Effect c (.reconnected rcId) (c.reconnect rcId)
  | reconnectFails (hactor : c.actor = .reconnecting) : Effect c .reconnectFails c

theorem effect_of_next {c c' : Client V} {e : Event} (h : c.next e = some c') : Effect c e c' := by
  cases e with
  | cloneHandle | dropHandle | spawnPoll | pollSend | pollCall | pollEnds =>
    simp only [next, Option.ite_none_right_eq_some, Option.some.injEq] at h
    obtain ⟨hguard, rfl⟩ := h
    constructor
    exact hguard
  | runTask i =>
    simp only [next] at h
    split at h
    · cases h
      exact .runTask ‹_›
    · cases h
  | command outcome =>
    simp only [next] at h
    split at h
    · cases h
      exact .command ‹_› ‹_›
    · cases h
  | allGone =>
    simp only [next] at h
    split at h
    · simp only [Option.ite_none_right_eq_some, Option.some.injEq] at h
      obtain ⟨hclosed, rfl⟩ := h
      exact .allGone ‹_› hclosed
    · cases h
  | arrive piece =>
    simp only [next] at h
    split at h
    · split at h
      · cases h
      · rename_i hopen
        cases h
        exact .arrive ‹_› (by simpa using hopen)
    · cases h
  | close | read | readError | reconnected | reconnectFails =>
    simp only [next] at h
    split at h
    · cases h
      constructor
      assumption
    · cases h

/-- The runs of a client whose actor was spawned with the routing context `rcId`, every step meeting `C`. -/
def Runs (C : Client V → Event → Prop) (rcId : UInt32) (events : List Event) (c : Client V) : Prop :=
  Run (fun c e c' => next c e = some c') C (spawnActor rcId) events c

end Client

/-! ### A daemon for examples -/

namespace Sample

inductive Value where
  | null
deriving DecidableEq

/-- The line `ok` answers the first request of a connection. -/
instance wire : Wire Value where
  parseIncoming line := if line = "ok" then some (.response ⟨100, .null, none⟩) else none
  b64Encode _ := ""
  b64Decode _ := some []
  parseNodeId s := some s

end Sample

end Tetron.Veilid
