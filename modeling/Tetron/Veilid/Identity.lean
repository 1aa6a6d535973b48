import Tetron.Bytes
import Tetron.Lib.Run

/-!
# The node's own Veilid identity

The identity belongs to the external Veilid daemon: a daemon that is started again has another one. The transport asks
for it with a task for each connection (`identity_poll_loop`), which keeps asking until the daemon knows its id or six
hundred attempts are over, and which ends when its connection does. What a task finds out goes into one cell, and two
others read it: one passes every new id on to the addresses the endpoint offers (`local_addrs`), the other waits for an
id and stores it for the rosters (`veilid_node_id` of the endpoint).

The cell is a `watch` channel: it keeps the last value and a version, and a reader that slept learns that there was a
change, not which ones. `identity_published` proves that no change is lost on the first reader: when it is at rest and
no task has an answer in hand, the endpoint offers the id reported last, in whatever order connections break, tasks of
several connections poll and readers run. The one condition is that a task does not sit on its answer until a later
connection has been answered. The second reader ends with the first id it sees. The rosters keep that id for as long as
the process lives, whatever the daemon's id becomes.
-/

namespace Tetron.Veilid.Identity

/-! ### Node ids and addresses -/

/-- `wire::b64_decode`. -/
class Base64 where
  decode : String → Option Bytes

def nodeIdPrefix : String := "VLD0:"

def nodeIdKeyLen : ℕ := 32

/-- `VEILID_TRANSPORT_ID`. -/
def veilidTransportId : UInt64 := 0x00007665696C6964

section Addresses

variable [Base64]

/-- What `NodeId::from_str` accepts. -/
def isNodeId (text : String) : Bool :=
  match text.toList.dropPrefix? nodeIdPrefix.toList with
  | none => false
  | some rest =>
    match Base64.decode (String.ofList rest) with
    | none => false
    | some key => key.length == nodeIdKeyLen

/-- `NodeId`: a text that has been accepted. -/
structure NodeId where
  text : String
  accepted : isNodeId text = true

/-- `NodeId::from_str`. -/
def NodeId.fromStr (text : String) : Option NodeId := if h : isNodeId text = true then some ⟨text, h⟩ else none

/-- `CustomAddr`. -/
structure CustomAddr where
  id : UInt64
  data : Bytes

/-- `node_id_to_custom_addr`. -/
def nodeIdToCustomAddr (nodeId : NodeId) : CustomAddr := ⟨veilidTransportId, nodeId.text.toUTF8.data.toList⟩

/-- `parse_custom_addr`. -/
def parseCustomAddr (addr : CustomAddr) : Option NodeId :=
  if addr.id = veilidTransportId then (fromUtf8 addr.data).bind NodeId.fromStr else none

/-- An address that is offered leads back to the id it was made of. -/
@[simp] theorem parseCustomAddr_nodeIdToCustomAddr (nodeId : NodeId) :
    parseCustomAddr (nodeIdToCustomAddr nodeId) = some nodeId := by
  simp only [parseCustomAddr, nodeIdToCustomAddr, if_true, fromUtf8_toUTF8, Option.bind_some, NodeId.fromStr]
  exact dif_pos nodeId.accepted

end Addresses

/-! ### Tasks -/

/-- `IDENTITY_POLL_ATTEMPTS`. -/
def identityPollAttempts : ℕ := 600

/-- An `identity_poll_loop`, with the attempts it has left after this one. -/
inductive PollLoop (Id : Type) where
  /-- The request is in the queue of the actor. -/
  | calling (left : ℕ)
  /-- The request was written on the connection. -/
  | written (left : ℕ)
  /-- The daemon's id is there, from a connection; `send_replace` is next. -/
  | answered (connection : ℕ) (id : Id)
  | sleeping (left : ℕ)
  | ended

/-- The loop of `build_with_addr` over the values of the cell. -/
inductive Forwarder (Id : Type) where
  | reading
  | setting (id : Id)
  /-- In `changed`. -/
  | waiting

/-- `wait_for_own_node_id`, and the store of its result. -/
inductive Waiter (Id : Type) where
  | reading
  | waiting
  | storing (id : Id)
  | done

structure Transport (Id Addr : Type) where
  /-- How many connections there were before this one. -/
  connection : ℕ
  connected : Bool
  loops : List (PollLoop Id)
  /-- The cell, with its version, and for the record the connection its value is from. -/
  value : Option Id
  version : ℕ
  valueFrom : Option ℕ
  forwarder : Forwarder Id
  forwarderSeen : ℕ
  localAddrs : List Addr
  waiter : Waiter Id
  waiterSeen : ℕ
  slot : Option Id
  /-- For the record: the last connection that was answered with an id. -/
  resolved : Option ℕ

inductive Event where
  /-- The connection breaks. -/
  | lost
  | reconnect
  /-- The actor writes the request of a task. -/
  | write (i : ℕ)
  /-- The daemon answers it, with its id or without. -/
  | answer (i : ℕ) (known : Bool)
  /-- The daemon answers it with an error. -/
  | refuse (i : ℕ)
  | wake (i : ℕ)
  | replace (i : ℕ)
  /-- The reader for the endpoint takes a step. -/
  | forward
  /-- The reader for the rosters takes a step. -/
  | wait

section System

variable {Id Addr : Type}

/-- A call fails with the connection it was written on, and its task ends. -/
def PollLoop.lose : PollLoop Id → PollLoop Id
  | .written _ => .ended
  | loop => loop

/-- After a reply without a usable id, or a sleep. -/
def PollLoop.again : ℕ → PollLoop Id
  | 0 => .ended
  | left + 1 => .calling left

namespace Transport

/-- `build_with_addr`. -/
def build : Transport Id Addr where
  connection := 0
  connected := true
  loops := [.again identityPollAttempts]
  value := none
  version := 0
  valueFrom := none
  forwarder := .reading
  forwarderSeen := 0
  localAddrs := []
  waiter := .reading
  waiterSeen := 0
  slot := none
  resolved := none

/-- One step. `report` is what the daemon at the other end of a connection says its id is, as far as it parses, and
`addr` the address of an id. -/
def next (report : ℕ → Option Id) (addr : Id → Addr) (t : Transport Id Addr) : Event → Option (Transport Id Addr)
  | .lost => if t.connected then some { t with connected := false, loops := t.loops.map .lose } else none
  | .reconnect =>
    if t.connected then none
    else some { t with
      connected := true
      connection := t.connection + 1
      loops := t.loops ++ [.again identityPollAttempts] }
  | .write i =>
    match t.loops[i]?, t.connected with
    | some (.calling left), true => some { t with loops := t.loops.set i (.written left) }
    | _, _ => none
  | .answer i known =>
    match t.loops[i]? with
    | some (.written left) =>
      match if known then report t.connection else none with
      | some id =>
        some { t with loops := t.loops.set i (.answered t.connection id), resolved := some t.connection }
      | none => some { t with loops := t.loops.set i (.sleeping left) }
    | _ => none
  | .refuse i =>
    match t.loops[i]? with
    | some (.written _) => some { t with loops := t.loops.set i .ended }
    | _ => none
  | .wake i =>
    match t.loops[i]? with
    | some (.sleeping left) => some { t with loops := t.loops.set i (.again left) }
    | _ => none
  | .replace i =>
    match t.loops[i]? with
    | some (.answered c id) =>
      some { t with
        loops := t.loops.set i .ended
        value := some id
        version := t.version + 1
        valueFrom := some c }
    | _ => none
  | .forward =>
    match t.forwarder with
    | .reading =>
      match t.value with
      | none => some { t with forwarder := .waiting, forwarderSeen := t.version }
      | some id => some { t with forwarder := .setting id, forwarderSeen := t.version }
    | .setting id => some { t with forwarder := .waiting, localAddrs := [addr id] }
    | .waiting => if t.forwarderSeen = t.version then none else some { t with forwarder := .reading }
  | .wait =>
    match t.waiter with
    | .reading =>
      match t.value with
      | none => some { t with waiter := .waiting, waiterSeen := t.version }
      | some id => some { t with waiter := .storing id, waiterSeen := t.version }
    | .waiting => if t.waiterSeen = t.version then none else some { t with waiter := .reading }
    | .storing id => some { t with waiter := .done, slot := some id }
    | .done => none

end Transport

/-! ### What a step does -/

/-- The answer a task has in hand. -/
def PollLoop.answer? : PollLoop Id → Option (ℕ × Id)
  | .answered c id => some (c, id)
  | _ => none

/-- A task has an answer in hand. -/
def Transport.InHand (t : Transport Id Addr) (c : ℕ) (id : Id) : Prop := .answered c id ∈ t.loops

variable {report : ℕ → Option Id} {addr : Id → Addr} {t t' : Transport Id Addr} {e : Event}

inductive Moves (report : ℕ → Option Id) (addr : Id → Addr) (t : Transport Id Addr) :
    Event → Transport Id Addr → Prop where
  | lost : Moves report addr t .lost { t with connected := false, loops := t.loops.map .lose }
  | reconnect : Moves report addr t .reconnect { t with
      connected := true
      connection := t.connection + 1
      loops := t.loops ++ [.again identityPollAttempts] }
  /-- A task goes on and has no answer, before and after. -/
  | polls {e : Event} (i : ℕ) (old new : PollLoop Id) (at_i : t.loops[i]? = some old) (before : old.answer? = none)
      (after : new.answer? = none) : Moves report addr t e { t with loops := t.loops.set i new }
  | answers (i : ℕ) (known : Bool) (id : Id) (old : PollLoop Id) (at_i : t.loops[i]? = some old)
      (before : old.answer? = none) (reported : report t.connection = some id) :
      Moves report addr t (.answer i known)
        { t with loops := t.loops.set i (.answered t.connection id), resolved := some t.connection }
  | replaces (i c : ℕ) (id : Id) (at_i : t.loops[i]? = some (.answered c id)) :
      Moves report addr t (.replace i)
        { t with loops := t.loops.set i .ended, value := some id, version := t.version + 1, valueFrom := some c }
  | readsNone (phase : t.forwarder = .reading) (empty : t.value = none) :
      Moves report addr t .forward { t with forwarder := .waiting, forwarderSeen := t.version }
  | readsSome (id : Id) (phase : t.forwarder = .reading) (read : t.value = some id) :
      Moves report addr t .forward { t with forwarder := .setting id, forwarderSeen := t.version }
  | sets (id : Id) (phase : t.forwarder = .setting id) :
      Moves report addr t .forward { t with forwarder := .waiting, localAddrs := [addr id] }
  | changed (phase : t.forwarder = .waiting) : Moves report addr t .forward { t with forwarder := .reading }
  /-- The reader for the rosters looks or waits. -/
  | waits (waiter : Waiter Id) (seen : ℕ) (notDone : t.waiter ≠ .done) (still : waiter ≠ .done)
      (read : ∀ id, waiter = .storing id → t.value = some id) :
      Moves report addr t .wait { t with waiter := waiter, waiterSeen := seen }
  | stores (id : Id) (phase : t.waiter = .storing id) :
      Moves report addr t .wait { t with waiter := .done, slot := some id }

theorem answer?_again (left : ℕ) : (PollLoop.again left : PollLoop Id).answer? = none := by
  cases left <;> rfl

theorem moves_of_forward (h : t.next report addr .forward = some t') : Moves report addr t .forward t' := by
  simp only [Transport.next] at h
  split at h
  · rename_i hphase
    split at h
    · rename_i hvalue
      obtain rfl := Option.some.inj h
      exact .readsNone hphase hvalue
    · rename_i id hvalue
      obtain rfl := Option.some.inj h
      exact .readsSome id hphase hvalue
  · rename_i id hphase
    obtain rfl := Option.some.inj h
    exact .sets id hphase
  · rename_i hphase
    split at h
    · cases h
    · obtain rfl := Option.some.inj h
      exact .changed hphase

theorem moves_of_wait (h : t.next report addr .wait = some t') : Moves report addr t .wait t' := by
  simp only [Transport.next] at h
  split at h
  · rename_i hphase
    split at h
    · obtain rfl := Option.some.inj h
      exact .waits .waiting t.version (by simp [hphase]) (by simp) (by simp)
    · rename_i id hvalue
      obtain rfl := Option.some.inj h
      exact .waits (.storing id) t.version (by simp [hphase]) (by simp) (by simp [hvalue])
  · rename_i hphase
    split at h
    · cases h
    · obtain rfl := Option.some.inj h
      exact .waits .reading t.waiterSeen (by simp [hphase]) (by simp) (by simp)
  · rename_i id hphase
    obtain rfl := Option.some.inj h
    exact .stores id hphase
  · cases h

theorem moves_of_next (h : t.next report addr e = some t') : Moves report addr t e t' := by
  cases e with
  | lost =>
    simp only [Transport.next] at h
    split at h
    · obtain rfl := Option.some.inj h
      exact .lost
    · cases h
  | reconnect =>
    simp only [Transport.next] at h
    split at h
    · cases h
    · obtain rfl := Option.some.inj h
      exact .reconnect
  | write i =>
    simp only [Transport.next] at h
    split at h
    · rename_i left hi _
      obtain rfl := Option.some.inj h
      exact .polls i (.calling left) (.written left) hi rfl rfl
    · cases h
  | answer i known =>
    simp only [Transport.next] at h
    split at h
    · rename_i left hi
      split at h
      · rename_i id hreport
        obtain rfl := Option.some.inj h
        cases known with
        | false => cases hreport
        | true => exact .answers i true id (.written left) hi rfl hreport
      · obtain rfl := Option.some.inj h
        exact .polls i (.written left) (.sleeping left) hi rfl rfl
    · cases h
  | refuse i =>
    simp only [Transport.next] at h
    split at h
    · rename_i left hi
      obtain rfl := Option.some.inj h
      exact .polls i (.written left) .ended hi rfl rfl
    · cases h
  | wake i =>
    simp only [Transport.next] at h
    split at h
    · rename_i left hi
      obtain rfl := Option.some.inj h
      exact .polls i (.sleeping left) (.again left) hi rfl (answer?_again left)
    · cases h
  | replace i =>
    simp only [Transport.next] at h
    split at h
    · rename_i c id hi
      obtain rfl := Option.some.inj h
      exact .replaces i c id hi
    · cases h
  | forward => exact moves_of_forward h
  | wait => exact moves_of_wait h

/-! ### Answers in hand -/

/-- Setting a task without an answer to one without leaves the answers in hand as they were. -/
theorem inHand_set {loops : List (PollLoop Id)} {i : ℕ} {old new : PollLoop Id} (hi : loops[i]? = some old)
    (hold : old.answer? = none) (hnew : new.answer? = none) {c : ℕ} {id : Id} :
    .answered c id ∈ loops.set i new ↔ .answered c id ∈ loops := by
  constructor
  · intro h
    rcases List.mem_or_eq_of_mem_set h with h | rfl
    · exact h
    · cases hnew
  · intro h
    obtain ⟨j, hj⟩ := List.getElem?_of_mem h
    have hne : i ≠ j := by
      rintro rfl
      obtain rfl := Option.some.inj (hi.symm.trans hj)
      cases hold
    exact List.mem_of_getElem? ((List.getElem?_set_ne hne).trans hj)

theorem inHand_lose {loops : List (PollLoop Id)} {c : ℕ} {id : Id} :
    .answered c id ∈ loops.map PollLoop.lose ↔ .answered c id ∈ loops := by
  rw [List.mem_map]
  constructor
  · rintro ⟨loop, hmem, hlose⟩
    cases loop <;> simp_all [PollLoop.lose]
  · intro h
    exact ⟨_, h, rfl⟩

theorem inHand_spawn {loops : List (PollLoop Id)} {left c : ℕ} {id : Id} :
    .answered c id ∈ loops ++ [.again left] ↔ .answered c id ∈ loops := by
  rw [List.mem_append, List.mem_singleton]
  constructor
  · rintro (h | h)
    · exact h
    · have hnone : (PollLoop.again left : PollLoop Id).answer? = none := answer?_again left
      rw [← h] at hnone
      cases hnone
  · exact .inl

/-- What is in hand after a step was so before, or is the answer just given; what was in hand stays so, or has just
replaced the value. -/
theorem inHand_step (hmoves : Moves report addr t e t') :
    ((∀ c id, t'.InHand c id ↔ t.InHand c id) ∧ t'.resolved = t.resolved ∧ t'.valueFrom = t.valueFrom) ∨
      (∃ i known id, e = .answer i known ∧ report t.connection = some id ∧ t'.resolved = some t.connection ∧
        t'.InHand t.connection id ∧
        ∀ c id', t'.InHand c id' → t.InHand c id' ∨ (c = t.connection ∧ id' = id)) ∨
      ∃ c id, t.InHand c id ∧ t'.valueFrom = some c ∧ t'.resolved = t.resolved ∧
        ∀ c' id', t'.InHand c' id' → t.InHand c' id' := by
  cases hmoves with
  | lost => exact .inl ⟨fun c id => inHand_lose, rfl, rfl⟩
  | reconnect => exact .inl ⟨fun c id => inHand_spawn, rfl, rfl⟩
  | polls i old new hi hold hnew => exact .inl ⟨fun c id => inHand_set hi hold hnew, rfl, rfl⟩
  | answers i known id old hi hold hreport =>
    refine .inr (.inl ⟨i, known, id, rfl, hreport, rfl, ?_, ?_⟩)
    · have hlt := (List.getElem?_eq_some_iff.mp hi).1
      exact List.mem_of_getElem? (List.getElem?_set_self hlt)
    · intro c id' h
      rcases List.mem_or_eq_of_mem_set h with h | h
      · exact .inl h
      · cases h
        exact .inr ⟨rfl, rfl⟩
  | replaces i c id hi =>
    refine .inr (.inr ⟨c, id, List.mem_of_getElem? hi, rfl, rfl, fun c' id' h => ?_⟩)
    rcases List.mem_or_eq_of_mem_set h with h | h
    · exact h
    · cases h
  | readsNone | readsSome | sets | changed | waits | stores => exact .inl ⟨fun _ _ => Iff.rfl, rfl, rfl⟩

/-! ### Invariants -/

/-- Ids come from the daemon. -/
structure Reported (report : ℕ → Option Id) (t : Transport Id Addr) : Prop where
  inHand : ∀ c id, t.InHand c id → report c = some id ∧ c ≤ t.connection
  value : t.value = t.valueFrom.bind report
  valueFrom : ∀ c, t.valueFrom = some c → c ≤ t.connection
  storing : ∀ id, t.waiter = .storing id → ∃ c ≤ t.connection, report c = some id
  slot : ∀ id, t.slot = some id → t.waiter = .done ∧ ∃ c ≤ t.connection, report c = some id

/-- A value that the reader for the endpoint has seen, it has passed on or is passing on. -/
structure Passed (addr : Id → Addr) (t : Transport Id Addr) : Prop where
  seen : t.forwarderSeen ≤ t.version
  empty : t.value = none → t.localAddrs = []
  setting : ∀ id, t.forwarder = .setting id → t.value ≠ none ∧ (t.forwarderSeen = t.version → t.value = some id)
  waiting : t.forwarder = .waiting → t.forwarderSeen = t.version → t.localAddrs = t.value.toList.map addr

theorem reported_build : Reported report (Transport.build : Transport Id Addr) where
  inHand c id h := by
    cases List.mem_singleton.mp h
  value := rfl
  valueFrom c h := by cases h
  storing id h := by cases h
  slot id h := by cases h

theorem passed_build : Passed addr (Transport.build : Transport Id Addr) where
  seen := Nat.le_refl 0
  empty _ := rfl
  setting id h := by cases h
  waiting h := by cases h

theorem Reported.step (h : Reported report t) (hmoves : Moves report addr t e t') : Reported report t' := by
  cases hmoves with
  | lost => exact ⟨fun c id hin => h.inHand c id (inHand_lose.mp hin), h.value, h.valueFrom, h.storing, h.slot⟩
  | reconnect =>
    refine ⟨fun c id hin => ?_, h.value, fun c hc => ?_, fun id hid => ?_, fun id hid => ?_⟩
    · obtain ⟨hreport, hle⟩ := h.inHand c id (inHand_spawn.mp hin)
      exact ⟨hreport, Nat.le_succ_of_le hle⟩
    · exact Nat.le_succ_of_le (h.valueFrom c hc)
    · obtain ⟨c, hle, hreport⟩ := h.storing id hid
      exact ⟨c, Nat.le_succ_of_le hle, hreport⟩
    · obtain ⟨hdone, c, hle, hreport⟩ := h.slot id hid
      exact ⟨hdone, c, Nat.le_succ_of_le hle, hreport⟩
  | polls i old new hi hold hnew =>
    exact ⟨fun c id hin => h.inHand c id ((inHand_set hi hold hnew).mp hin), h.value, h.valueFrom, h.storing, h.slot⟩
  | answers i known id old hi hold hreport =>
    refine ⟨fun c id' hin => ?_, h.value, h.valueFrom, h.storing, h.slot⟩
    rcases List.mem_or_eq_of_mem_set hin with hin | heq
    · exact h.inHand c id' hin
    · cases heq
      exact ⟨hreport, Nat.le_refl _⟩
  | replaces i c id hi =>
    obtain ⟨hreport, hle⟩ := h.inHand c id (List.mem_of_getElem? hi)
    refine ⟨fun c' id' hin => ?_, hreport.symm, fun c' hc' => ?_, h.storing, h.slot⟩
    · rcases List.mem_or_eq_of_mem_set hin with hin | heq
      · exact h.inHand c' id' hin
      · cases heq
    · cases hc'
      exact hle
  | readsNone | readsSome | sets | changed => exact ⟨h.inHand, h.value, h.valueFrom, h.storing, h.slot⟩
  | waits waiter seen hnot hstill hread =>
    refine ⟨h.inHand, h.value, h.valueFrom, fun id hid => ?_, fun id hid => ?_⟩
    · have hvalue := h.value.symm.trans (hread id hid)
      obtain ⟨c, hc, hreport⟩ := Option.bind_eq_some_iff.mp hvalue
      exact ⟨c, h.valueFrom c hc, hreport⟩
    · exact absurd (h.slot id hid).1 hnot
  | stores id hphase =>
    refine ⟨h.inHand, h.value, h.valueFrom, fun id' hid' => ?_, fun id' hid' => ?_⟩
    · cases hid'
    · obtain rfl := Option.some.inj hid'
      exact ⟨rfl, h.storing id hphase⟩

theorem Passed.step (h : Passed addr t) (hmoves : Moves report addr t e t') : Passed addr t' := by
  cases hmoves with
  | lost | reconnect | polls | answers | waits | stores => exact ⟨h.seen, h.empty, h.setting, h.waiting⟩
  | replaces i c id hi =>
    -- the reader has not seen this version
    have hunseen : t.forwarderSeen ≠ t.version + 1 := Nat.ne_of_lt (Nat.lt_succ_of_le h.seen)
    refine ⟨Nat.le_succ_of_le h.seen, fun hnone => ?_, fun id' hid' => ⟨?_, fun hseen => ?_⟩, fun _ hseen => ?_⟩
    · cases hnone
    · intro hnone
      cases hnone
    · exact absurd hseen hunseen
    · exact absurd hseen hunseen
  | readsNone hphase hvalue =>
    refine ⟨Nat.le_refl _, h.empty, fun id hid => ?_, fun _ _ => ?_⟩
    · cases hid
    · show t.localAddrs = t.value.toList.map addr
      rw [hvalue, h.empty hvalue]
      rfl
  | readsSome id hphase hvalue =>
    refine ⟨Nat.le_refl _, h.empty, fun id' hid' => ?_, fun hwaiting => ?_⟩
    · cases hid'
      exact ⟨fun hnone => absurd (hvalue.symm.trans hnone) (by simp), fun _ => hvalue⟩
    · cases hwaiting
  | sets id hphase =>
    obtain ⟨hsome, hvalue⟩ := h.setting id hphase
    refine ⟨h.seen, fun hnone => absurd hnone hsome, fun id' hid' => ?_, fun _ hseen => ?_⟩
    · cases hid'
    · show [addr id] = t.value.toList.map addr
      rw [hvalue hseen]
      rfl
  | changed hphase =>
    refine ⟨h.seen, h.empty, fun id hid => ?_, fun hwaiting => ?_⟩
    · cases hid
    · cases hwaiting

/-! ### The last answer -/

/-- No task still has an answer of an earlier connection in hand when the daemon answers. -/
def inTurn (t : Transport Id Addr) : Event → Bool
  | .answer _ _ => t.loops.all fun loop => loop.answer?.all fun answer => answer.1 == t.connection
  | _ => true

/-- The value is that of the last answer, or the last answer is in hand. -/
structure Latest (t : Transport Id Addr) : Prop where
  inHand : ∀ c id, t.InHand c id → t.resolved = some c
  fresh : t.valueFrom = t.resolved ∨ ∃ c id, t.InHand c id

theorem latest_build : Latest (Transport.build : Transport Id Addr) where
  inHand c id h := by
    cases List.mem_singleton.mp h
  fresh := .inl rfl

theorem Latest.step (h : Latest t) (hturn : inTurn t e = true) (hmoves : Moves report addr t e t') : Latest t' := by
  rcases inHand_step hmoves with ⟨hsame, hresolved, hfrom⟩ | ⟨i, known, id, rfl, -, hresolved, hin, hback⟩ |
    ⟨c, id, hin, hfrom, hresolved, hback⟩
  · refine ⟨fun c id hin => ?_, ?_⟩
    · rw [hresolved]
      exact h.inHand c id ((hsame c id).mp hin)
    · rw [hresolved, hfrom]
      rcases h.fresh with heq | ⟨c, id, hin⟩
      · exact .inl heq
      · exact .inr ⟨c, id, (hsame c id).mpr hin⟩
  · refine ⟨fun c id' hin' => ?_, .inr ⟨_, id, hin⟩⟩
    rw [hresolved]
    rcases hback c id' hin' with hbefore | ⟨rfl, -⟩
    · have hconnection := List.all_eq_true.mp hturn _ hbefore
      simp only [PollLoop.answer?, Option.all_some, beq_iff_eq] at hconnection
      rw [hconnection]
    · rfl
  · refine ⟨fun c' id' hin' => ?_, .inl ?_⟩
    · rw [hresolved]
      exact h.inHand c' id' (hback c' id' hin')
    · rw [hfrom, hresolved, h.inHand c id hin]

/-- What the rosters are given does not change. -/
theorem slot_step {id : Id} (h : Reported report t) (hslot : t.slot = some id) (hmoves : Moves report addr t e t') :
    t'.slot = some id := by
  cases hmoves with
  | stores id' hphase => exact absurd ((h.slot id hslot).1.symm.trans hphase) (by simp)
  | _ => exact hslot

end System

section Published

variable [Base64]

/-- **The endpoint follows the daemon, the rosters do not.** In every run in which a task does not sit on its answer
until a later connection has been answered: once no answer is in hand and the reader for the endpoint is at rest, the
endpoint's own addresses are that of the id reported last. What the rosters are given is an id the daemon reported on
some connection, and it stays the same in everything that can follow. -/
theorem identity_published (texts : ℕ → String) {events : List Event} {t : Transport NodeId CustomAddr}
    (hrun : Run (fun t e t' => t.next (fun c => NodeId.fromStr (texts c)) nodeIdToCustomAddr e = some t')
      (fun t e => inTurn t e = true) Transport.build events t) :
    (t.forwarder = .waiting → t.forwarderSeen = t.version → (∀ c id, ¬ t.InHand c id) →
      t.localAddrs.map parseCustomAddr = (t.resolved.bind fun c => NodeId.fromStr (texts c)).toList.map some) ∧
    ∀ id, t.slot = some id → (∃ c ≤ t.connection, NodeId.fromStr (texts c) = some id) ∧
      ∀ later t', Run (fun t e t' => t.next (fun c => NodeId.fromStr (texts c)) nodeIdToCustomAddr e = some t')
        (fun _ _ => True) t later t' → t'.slot = some id := by
  obtain ⟨hreported, hpassed, hlatest⟩ := hrun.invariant
    (I := fun _ t => Reported (fun c => NodeId.fromStr (texts c)) t ∧ Passed nodeIdToCustomAddr t ∧ Latest t)
    ⟨reported_build, passed_build, latest_build⟩ fun _ _ _ _ ⟨hreported, hpassed, hlatest⟩ hturn hnext =>
      ⟨hreported.step (moves_of_next hnext), hpassed.step (moves_of_next hnext),
        hlatest.step hturn (moves_of_next hnext)⟩
  refine ⟨fun hphase hseen hnone => ?_, fun id hslot => ⟨(hreported.slot id hslot).2, fun later t' hlater => ?_⟩⟩
  · have hfrom : t.valueFrom = t.resolved := by
      rcases hlatest.fresh with heq | ⟨c, id, hin⟩
      · exact heq
      · exact absurd hin (hnone c id)
    rw [hpassed.waiting hphase hseen, hreported.value, hfrom, List.map_map]
    exact List.map_congr_left fun id _ => parseCustomAddr_nodeIdToCustomAddr id
  · obtain ⟨-, hkept⟩ := hlater.invariant
      (I := fun _ t => Reported (fun c => NodeId.fromStr (texts c)) t ∧ t.slot = some id)
      ⟨hreported, hslot⟩ fun _ _ _ _ ⟨hreported, hslot⟩ _ hnext =>
        ⟨hreported.step (moves_of_next hnext), slot_step hreported hslot (moves_of_next hnext)⟩
    exact hkept

end Published

namespace Sample

/-- The URL-safe alphabet. -/
def alphabet : List Char := "ABCDEFGHIJKLMNOPQRSTUVWXYZabcdefghijklmnopqrstuvwxyz0123456789-_".toList

/-- Four characters of six bits are three bytes. At the end, bits that make no byte have to be zero. -/
def decodeSextets : List ℕ → Option Bytes
  | [] => some []
  | [_] => none
  | [a, b] => if b % 16 = 0 then some [UInt8.ofNat (a * 4 + b / 16)] else none
  | [a, b, c] =>
    if c % 4 = 0 then some [UInt8.ofNat (a * 4 + b / 16), UInt8.ofNat (b * 16 + c / 4)] else none
  | a :: b :: c :: d :: rest =>
    (decodeSextets rest).map
      ([UInt8.ofNat (a * 4 + b / 16), UInt8.ofNat (b * 16 + c / 4), UInt8.ofNat (c * 64 + d)] ++ ·)

/-- `URL_SAFE_NO_PAD`. -/
scoped instance base64 : Base64 where
  decode text := (text.toList.mapM alphabet.idxOf?).bind decodeSextets

/-- The daemon of the first connection is `VLD0:AA…A`, that of the second `VLD0:BB…A`, and so on. -/
def daemonId (c : ℕ) : String := nodeIdPrefix ++ String.ofList (List.replicate 42 (Char.ofNat (65 + c)) ++ ['A'])

/-- The daemon is started again after its id has been stored for the rosters. -/
theorem identity_published_restarted :
    ∃ t, Run (fun t e t' => t.next (fun c => NodeId.fromStr (daemonId c)) nodeIdToCustomAddr e = some t')
        (fun t e => inTurn t e = true) Transport.build
        [.wait, .write 0, .answer 0 false, .wake 0, .write 0, .answer 0 true, .replace 0, .wait, .wait, .wait, .forward,
          .forward, .lost, .reconnect, .write 1, .answer 1 true, .replace 1, .forward, .forward, .forward] t ∧
      t.slot.map NodeId.text = some (daemonId 0) ∧
      t.localAddrs.map CustomAddr.data = [(daemonId 1).toUTF8.data.toList] ∧
      ∀ later t', Run (fun t e t' => t.next (fun c => NodeId.fromStr (daemonId c)) nodeIdToCustomAddr e = some t')
        (fun _ _ => True) t later t' → t'.slot.map NodeId.text = some (daemonId 0) := by
  refine Run.exists_of_exec_imp (fun t => t.slot.map NodeId.text = some (daemonId 0) ∧
    t.localAddrs.map CustomAddr.data = [(daemonId 1).toUTF8.data.toList]) (by decide +kernel)
    fun t hrun ⟨hslot, haddrs⟩ => ?_
  refine ⟨hslot, haddrs, fun later t' hlater => ?_⟩
  obtain ⟨id, hid, htext⟩ := Option.map_eq_some_iff.mp hslot
  rw [((identity_published daemonId hrun).2 id hid).2 later t' hlater, Option.map_some, htext]

end Sample

end Tetron.Veilid.Identity
