import Tetron.Veilid.Handles
import Tetron.Veilid.Lines

/-!
# Calls and their results

The ids of a connection are all different as long as there are fewer than `2 ^ 32` of them, so the table leads every
reply to the call whose request carried its id, and a lost connection leaves no call behind (`call_results`). A reply
that is half read when a command is taken is lost all the same: its call goes on waiting for as long as the connection
lives (`reply_lost`).
-/

namespace Tetron.Veilid.Client

variable {V : Type}

/-! ### Replies find their calls -/

/-- The call has this number. -/
def isNumber (n : ℕ) (call : Call) : ℕ := if call.number = n then 1 else 0

/-- The id of request `i` of a connection. -/
def requestId (i : ℕ) : UInt32 := UInt32.ofNat (100 + i)

theorem requestId_inj {i j : ℕ} (hi : i < 2 ^ 32) (hj : j < 2 ^ 32) (h : requestId i = requestId j) : i = j := by
  have hmod := congrArg UInt32.toNat h
  simp only [requestId, UInt32.toNat_ofNat'] at hmod
  omega

theorem requestId_succ (i : ℕ) : requestId i + 1 = requestId (i + 1) := by
  apply UInt32.toNat.inj
  simp only [requestId, UInt32.toNat_add, UInt32.toNat_ofNat', UInt32.toNat_one]
  omega

/-- Every call has one place: the queue, the table, or the results. -/
def Once (c : Client V) : Prop := ∀ n, total (isNumber n) c = if n < c.issued then 1 else 0

theorem one_le_weigh {n : ℕ} {call : Call} {calls : List Call} (h : call ∈ calls) (hn : call.number = n) :
    1 ≤ weigh (isNumber n) calls := by
  have hle := le_weigh (f := isNumber n) h
  rwa [isNumber, if_pos hn] at hle

theorem Once.places_le {c : Client V} (h : Once c) (n : ℕ) :
    weigh (isNumber n) (c.queue.map Command.call) + weigh (isNumber n) c.actor.pending +
      weigh (isNumber n) (c.results.map Prod.fst) ≤ 1 := by
  have honce := h n
  rw [total, waiting, weigh_append] at honce
  rw [honce]
  split <;> omega

theorem mem_pending {c : Client V} {conn : Conn} {id : UInt32} {call : Call} (hserving : c.actor = .serving conn)
    (hget : conn.pending.get? id = some call) : call ∈ c.actor.pending := by
  rw [hserving]
  exact HashTable.mem_values_iff.mpr ⟨_, hget⟩

variable [Wire V]

theorem Once.next {c c' : Client V} {e : Event} (h : Once c) (hnext : c.next e = some c') : Once c' := by
  intro n
  rw [total_next _ hnext, h n, issued_next hnext]
  have hstarted : started c e = [] ∨ ∃ caller, started c e = [⟨c.issued, caller⟩] := by cases e <;> simp [started]
  obtain hnil | ⟨caller, hone⟩ := hstarted
  · rw [hnil]
    rfl
  · have hnumber : isNumber n ⟨c.issued, caller⟩ = if c.issued = n then 1 else 0 := rfl
    rw [hone, weigh_cons, weigh_nil, hnumber, List.length_singleton]
    split_ifs <;> omega

/-- The reply a result came from: a line handled on the connection of the request, with the id of the request. -/
def RepliedBy (c : Client V) (w : Written) (v : V) : Prop :=
  ∃ line r, (w.conn, line) ∈ c.handled ∧ Wire.parseIncoming line = some (.response r) ∧ r.id = w.body.id ∧
    r.error = none ∧ r.value = v

theorem RepliedBy.mono {c c' : Client V} {w : Written} {v : V} (h : RepliedBy c w v)
    (hhandled : ∀ x ∈ c.handled, x ∈ c'.handled) : RepliedBy c' w v := by
  obtain ⟨line, r, hline, hreply⟩ := h
  exact ⟨line, r, hhandled _ hline, hreply⟩

/-- What is known of the connection that is served: its requests carry its ids, and its table holds requests of it
under their ids. -/
structure Allocates (c : Client V) (conn : Conn) : Prop where
  current : conn.number + 1 = c.connections
  bound : conn.allocated < 2 ^ 32
  nextId : conn.nextId = requestId conn.allocated
  written : ∀ w ∈ c.written, w.conn = conn.number → ∃ i < conn.allocated, w.body.id = requestId i
  pending : ∀ id call, conn.pending.get? id = some call →
    ∃ w ∈ c.written, w.conn = conn.number ∧ w.body.id = id ∧ w.call = call

/-- What is known of the calls at any time. -/
structure Tracked (c : Client V) : Prop where
  once : Once c
  allocates : ∀ conn, c.actor = .serving conn → Allocates c conn
  written_lt : ∀ w ∈ c.written, w.conn < c.connections
  /-- A call is written once, and an id of a connection is used once. -/
  unique : ∀ w ∈ c.written, ∀ w' ∈ c.written,
    (w.call.number = w'.call.number ∨ w.conn = w'.conn ∧ w.body.id = w'.body.id) → w = w'
  /-- What was written has a result or waits on a live connection. -/
  settled : ∀ w ∈ c.written, (∃ r, (w.call, r) ∈ c.results) ∨
    ∃ conn, c.actor = .serving conn ∧ conn.number = w.conn ∧ conn.pending.get? w.body.id = some w.call
  replied : ∀ call v, (call, .ok v) ∈ c.results → ∃ w ∈ c.written, w.call = call ∧ RepliedBy c w v

namespace Tracked

variable {c c' : Client V} {conn : Conn}

theorem spawnActor (rcId : UInt32) : Tracked (Client.spawnActor rcId : Client V) where
  once n := by simp [total, waiting, Client.spawnActor, Actor.pending, Conn.new, HashTable.values]
  allocates conn h := by
    cases h
    exact ⟨rfl, Nat.two_pow_pos 32, rfl, fun w hw => (by cases hw), fun id call hget => (by cases hget)⟩
  written_lt w h := by cases h
  unique w h := by cases h
  settled w h := by cases h
  replied call v h := by cases h

theorem settled_of_serving (h : Tracked c) (hserving : c.actor = .serving conn) {w : Written} (hw : w ∈ c.written) :
    (∃ r, (w.call, r) ∈ c.results) ∨ conn.number = w.conn ∧ conn.pending.get? w.body.id = some w.call := by
  refine (h.settled w hw).imp_right fun ⟨conn', hserving', hwaits⟩ => ?_
  rw [hserving] at hserving'
  cases hserving'
  exact hwaits

/-- A step that writes nothing, and whose new results are errors. -/
theorem unwritten (h : Tracked c) (honce : Once c') (hallocates : ∀ conn, c'.actor = .serving conn → Allocates c' conn)
    (hconns : c'.connections = c.connections) (hwritten : c'.written = c.written)
    (hsettled : ∀ w ∈ c.written, (∃ r, (w.call, r) ∈ c'.results) ∨
      ∃ conn, c'.actor = .serving conn ∧ conn.number = w.conn ∧ conn.pending.get? w.body.id = some w.call)
    (hok : ∀ call v, (call, .ok v) ∈ c'.results → (call, .ok v) ∈ c.results)
    (hhandled : ∀ x ∈ c.handled, x ∈ c'.handled) : Tracked c' where
  once := honce
  allocates := hallocates
  written_lt := by
    rw [hwritten, hconns]
    exact h.written_lt
  unique := by
    rw [hwritten]
    exact h.unique
  settled := by
    rw [hwritten]
    exact hsettled
  replied call v hr := by
    obtain ⟨w, hw, hcall, hreplied⟩ := h.replied call v (hok call v hr)
    exact ⟨w, hwritten ▸ hw, hcall, hreplied.mono hhandled⟩

/-- A step that leaves the connection, what was written and the results alone. -/
theorem frame (h : Tracked c) (honce : Once c') (hactor : c'.actor = c.actor)
    (hconns : c'.connections = c.connections) (hwritten : c'.written = c.written) (hresults : c'.results = c.results)
    (hhandled : ∀ x ∈ c.handled, x ∈ c'.handled) : Tracked c' := by
  refine h.unwritten honce ?_ hconns hwritten ?_ ?_ hhandled
  · intro conn hserving
    rw [hactor] at hserving
    obtain ⟨hcurrent, hbound, hnext, hids, hpending⟩ := h.allocates conn hserving
    exact ⟨by rw [hconns, hcurrent], hbound, hnext, by rwa [hwritten], by rwa [hwritten]⟩
  · rw [hresults, hactor]
    exact h.settled
  · rw [hresults]
    exact fun _ _ hok => hok

/-- The connection is gone, and every call of its table has a result. -/
theorem hangUp (h : Tracked c) (hserving : c.actor = .serving conn) (honce : Once c')
    (hactor : ∀ conn, c'.actor ≠ .serving conn) (hconns : c'.connections = c.connections)
    (hwritten : c'.written = c.written) (hresults : ∀ x ∈ c.results, x ∈ c'.results)
    (hanswered : ∀ call ∈ conn.pending.values, ∃ r, (call, r) ∈ c'.results)
    (hok : ∀ call v, (call, .ok v) ∈ c'.results → (call, .ok v) ∈ c.results) (hhandled : c'.handled = c.handled) :
    Tracked c' := by
  refine h.unwritten honce (fun conn' h' => absurd h' (hactor conn')) hconns hwritten (fun w hw => .inl ?_) hok ?_
  · obtain ⟨r, hr⟩ | ⟨-, hget⟩ := h.settled_of_serving hserving hw
    · exact ⟨r, hresults _ hr⟩
    · exact hanswered _ (HashTable.mem_values_iff.mpr ⟨_, hget⟩)
  · rw [hhandled]
    exact fun _ hx => hx

/-- A call that waits in the queue has not been written. -/
theorem number_ne (h : Tracked c) {cmd : Command} {rest : List Command} (hqueue : c.queue = cmd :: rest)
    {w : Written} (hw : w ∈ c.written) : w.call.number ≠ cmd.call.number := by
  intro heq
  -- the call would have two places
  have hle := h.once.places_le cmd.call.number
  have hqueued : cmd.call ∈ c.queue.map Command.call := by
    rw [hqueue, List.map_cons]
    exact List.mem_cons_self
  have hqueue_le := one_le_weigh hqueued rfl
  obtain ⟨r, hr⟩ | ⟨conn, hserving, -, hget⟩ := h.settled w hw
  · have hresults_le := one_le_weigh (List.mem_map_of_mem (f := Prod.fst) hr) heq
    omega
  · have hpending_le := one_le_weigh (mem_pending hserving hget) heq
    omega

/-- The next id of a connection is a new one. -/
theorem fresh (h : Tracked c) (hserving : c.actor = .serving conn) {w : Written} (hw : w ∈ c.written)
    (hconn : w.conn = conn.number) : w.body.id ≠ conn.nextId := by
  intro heq
  obtain ⟨-, hbound, hnext, hids, -⟩ := h.allocates conn hserving
  obtain ⟨i, hi, hid⟩ := hids w hw hconn
  have := requestId_inj (hi.trans hbound) hbound (hid.symm.trans (heq.trans hnext))
  omega

theorem get?_nextId (h : Tracked c) (hserving : c.actor = .serving conn) : conn.pending.get? conn.nextId = none := by
  cases hget : conn.pending.get? conn.nextId with
  | none => rfl
  | some call =>
    obtain ⟨w, hw, hconn, hid, -⟩ := (h.allocates conn hserving).pending _ call hget
    exact absurd hid (h.fresh hserving hw hconn)

/-- An id is given out for a request that could not be encoded. -/
theorem skip (h : Tracked c) (hserving : c.actor = .serving conn) (hleft : conn.allocated + 1 < 2 ^ 32)
    (honce : Once c')
    (hactor : c'.actor = .serving { conn with nextId := conn.nextId + 1, allocated := conn.allocated + 1 })
    (hconns : c'.connections = c.connections) (hwritten : c'.written = c.written)
    (hresults : ∀ x ∈ c.results, x ∈ c'.results)
    (hok : ∀ call v, (call, .ok v) ∈ c'.results → (call, .ok v) ∈ c.results)
    (hhandled : c'.handled = c.handled) : Tracked c' := by
  obtain ⟨hcurrent, -, hnext, hids, hpending⟩ := h.allocates conn hserving
  refine h.unwritten honce ?_ hconns hwritten (fun w hw => ?_) hok (hhandled ▸ fun _ hx => hx)
  · intro conn' h'
    rw [hactor] at h'
    cases h'
    refine ⟨by rw [hconns, hcurrent], hleft, by rw [hnext, requestId_succ], ?_, by rwa [hwritten]⟩
    intro w hw hconn
    rw [hwritten] at hw
    obtain ⟨i, hi, hid⟩ := hids w hw hconn
    exact ⟨i, Nat.lt_succ_of_lt hi, hid⟩
  · obtain ⟨r, hr⟩ | hwaits := h.settled_of_serving hserving hw
    · exact .inl ⟨r, hresults _ hr⟩
    · exact .inr ⟨_, hactor, hwaits⟩

/-- The next request of the queue is written. -/
theorem write (h : Tracked c) (hserving : c.actor = .serving conn) (hleft : conn.allocated + 1 < 2 ^ 32)
    {cmd : Command} {rest : List Command} (hqueue : c.queue = cmd :: rest) {w : Written} (hconn : w.conn = conn.number)
    (hid : w.body.id = conn.nextId) (hcall : w.call = cmd.call) (honce : Once c')
    (hactor : c'.actor = .serving { conn with
      nextId := conn.nextId + 1
      allocated := conn.allocated + 1
      pending := conn.pending.insert conn.nextId cmd.call })
    (hconns : c'.connections = c.connections) (hwritten : c'.written = c.written ++ [w])
    (hresults : c'.results = c.results) (hhandled : c'.handled = c.handled) : Tracked c' := by
  obtain ⟨hcurrent, -, hnext, hids, hpending⟩ := h.allocates conn hserving
  have hmem (w' : Written) : w' ∈ c'.written ↔ w' ∈ c.written ∨ w' = w := by
    rw [hwritten, List.mem_append, List.mem_singleton]
  refine ⟨honce, ?_, ?_, ?_, ?_, ?_⟩
  · intro conn' h'
    rw [hactor] at h'
    cases h'
    refine ⟨by rw [hconns, hcurrent], hleft, by rw [hnext, requestId_succ], ?_, ?_⟩
    · intro w' hw' hconn'
      obtain hw' | rfl := (hmem w').mp hw'
      · obtain ⟨i, hi, hid'⟩ := hids w' hw' hconn'
        exact ⟨i, Nat.lt_succ_of_lt hi, hid'⟩
      · exact ⟨conn.allocated, Nat.lt_succ_self _, by rw [hid, hnext]⟩
    · intro id call hget
      obtain ⟨rfl, rfl⟩ | hget := HashTable.get?_of_insert hget
      · exact ⟨w, (hmem w).mpr (.inr rfl), hconn, hid, hcall⟩
      · obtain ⟨w', hw', hentry⟩ := hpending id call hget
        exact ⟨w', (hmem w').mpr (.inl hw'), hentry⟩
  · intro w' hw'
    rw [hconns]
    obtain hw' | rfl := (hmem w').mp hw'
    · exact h.written_lt w' hw'
    · omega
  · intro a ha b hb hsame
    -- a new request shares neither its call nor its id with an old one
    have hnew (a : Written) (ha : a ∈ c.written)
        (hsame : a.call.number = w.call.number ∨ a.conn = w.conn ∧ a.body.id = w.body.id) : False := by
      obtain hnumber | ⟨hconn', hid'⟩ := hsame
      · exact h.number_ne hqueue ha (hnumber.trans (congrArg Call.number hcall))
      · exact h.fresh hserving ha (hconn'.trans hconn) (hid'.trans hid)
    obtain ha | rfl := (hmem a).mp ha <;> obtain hb | rfl := (hmem b).mp hb
    · exact h.unique a ha b hb hsame
    · exact (hnew a ha hsame).elim
    · exact (hnew b hb (hsame.imp Eq.symm fun ⟨h₁, h₂⟩ => ⟨h₁.symm, h₂.symm⟩)).elim
    · rfl
  · intro w' hw'
    rw [hresults]
    obtain hw' | rfl := (hmem w').mp hw'
    · refine (h.settled_of_serving hserving hw').imp_right fun ⟨hconn', hget⟩ => ⟨_, hactor, hconn', ?_⟩
      rw [HashTable.get?_insert, if_neg (h.fresh hserving hw' hconn'.symm)]
      exact hget
    · refine .inr ⟨_, hactor, hconn.symm, ?_⟩
      rw [HashTable.get?_insert, if_pos hid, hcall]
  · intro call v hr
    rw [hresults] at hr
    obtain ⟨w', hw', hcall', hreplied⟩ := h.replied call v hr
    exact ⟨w', (hmem w').mpr (.inl hw'), hcall', hreplied.mono (hhandled ▸ fun _ hx => hx)⟩

/-- A reply with the id of an entry of the table is handled. -/
theorem reply (h : Tracked c) (hserving : c.actor = .serving conn) {line : String} {r : Response V} {call : Call}
    (hparse : Wire.parseIncoming line = some (.response r)) (hget : conn.pending.get? r.id = some call)
    (honce : Once c') (hactor : c'.actor = .serving { conn with pending := conn.pending.erase r.id })
    (hconns : c'.connections = c.connections) (hwritten : c'.written = c.written)
    (hresults : c'.results = c.results ++ [(call, r.result)])
    (hhandled : c'.handled = c.handled ++ [(conn.number, line)]) : Tracked c' := by
  obtain ⟨hcurrent, hbound, hnext, hids, hpending⟩ := h.allocates conn hserving
  refine ⟨honce, ?_, by rw [hwritten, hconns]; exact h.written_lt, by rw [hwritten]; exact h.unique, ?_, ?_⟩
  · intro conn' h'
    rw [hactor] at h'
    cases h'
    refine ⟨by rw [hconns, hcurrent], hbound, hnext, by rwa [hwritten], ?_⟩
    intro id call' hget'
    rw [hwritten]
    exact hpending id call' (HashTable.get?_of_erase hget')
  · intro w hw
    rw [hwritten] at hw
    rw [hresults]
    obtain ⟨r', hr'⟩ | ⟨hconn', hget'⟩ := h.settled_of_serving hserving hw
    · exact .inl ⟨r', List.mem_append_left _ hr'⟩
    · by_cases hid : w.body.id = r.id
      · rw [hid, hget] at hget'
        cases hget'
        exact .inl ⟨r.result, List.mem_append_right _ List.mem_cons_self⟩
      · refine .inr ⟨_, hactor, hconn', ?_⟩
        rw [HashTable.get?_erase, if_neg hid]
        exact hget'
  · intro call' v hr
    rw [hresults, List.mem_append, List.mem_singleton] at hr
    rw [hwritten]
    obtain hr | hr := hr
    · obtain ⟨w, hw, hcall, hreplied⟩ := h.replied call' v hr
      exact ⟨w, hw, hcall, hreplied.mono (hhandled ▸ fun _ hx => List.mem_append_left _ hx)⟩
    · obtain ⟨rfl, hvalue⟩ := Prod.mk.inj hr
      obtain ⟨w, hw, hconn, hid, hcall⟩ := hpending r.id _ hget
      have hnone : r.error = none ∧ r.value = v := by
        rw [Response.result] at hvalue
        split at hvalue
        · cases hvalue
        · rename_i herror
          cases hvalue
          exact ⟨herror, rfl⟩
      refine ⟨w, hw, hcall, line, r, ?_, hparse, hid.symm, hnone⟩
      rw [hhandled, hconn]
      exact List.mem_append_right _ List.mem_cons_self

theorem reconnect (h : Tracked c) (hactor : c.actor = .reconnecting) (rcId : UInt32)
    (honce : Once (c.reconnect rcId)) : Tracked (c.reconnect rcId) where
  once := honce
  allocates conn' h' := by
    cases h'
    refine ⟨rfl, Nat.two_pow_pos 32, rfl, fun w hw hconn => ?_, fun id call hget => by cases hget⟩
    exact absurd hconn (Nat.ne_of_lt (h.written_lt w hw))
  written_lt w hw := Nat.lt_succ_of_lt (h.written_lt w hw)
  unique := h.unique
  settled w hw := by
    obtain hr | ⟨conn', hserving, -⟩ := h.settled w hw
    · exact .inl hr
    · rw [hactor] at hserving
      cases hserving
  replied := h.replied

theorem handleIncomingLine (h : Tracked c) (hserving : c.actor = .serving conn) {line : String}
    (honce : Once (c.handleIncomingLine conn line)) : Tracked (c.handleIncomingLine conn line) := by
  have hhandled (x : ℕ × String) (hx : x ∈ c.handled) : x ∈ c.handled ++ [(conn.number, line)] :=
    List.mem_append_left _ hx
  revert honce
  rw [Client.handleIncomingLine]
  split
  · exact fun honce => h.frame honce rfl rfl rfl rfl hhandled
  · rename_i r hparse
    split
    · rename_i call hget
      exact fun honce => h.reply hserving hparse hget honce rfl rfl rfl rfl rfl
    · exact fun honce => h.frame honce rfl rfl rfl rfl hhandled
  · exact fun honce => h.frame honce rfl rfl rfl rfl hhandled

theorem lose (h : Tracked c) (hserving : c.actor = .serving conn) (honce : Once (c.lose conn)) :
    Tracked (c.lose conn) := by
  refine h.hangUp hserving honce (by simp [Client.lose]) rfl rfl ?_ ?_ ?_ rfl
  · exact fun x hx => List.mem_append_left _ hx
  · exact fun call hcall => ⟨_, List.mem_append_right _ (List.mem_map_of_mem hcall)⟩
  · intro call v hok
    simpa [Client.lose, deliver] using hok

theorem serveLine (h : Tracked c) (hserving : c.actor = .serving conn) {raw : Bytes}
    (honce : Once (c.serveLine conn raw)) : Tracked (c.serveLine conn raw) := by
  revert honce
  rw [Client.serveLine]
  split
  · exact h.lose hserving
  · split
    · exact fun _ => h
    · exact h.handleIncomingLine hserving

theorem serveRead (h : Tracked c) (hserving : c.actor = .serving conn) (honce : Once (c.serveRead conn)) :
    Tracked (c.serveRead conn) := by
  have hreader (reader : LineReader UInt8) : Tracked { c with reader := reader } :=
    h.frame h.once rfl rfl rfl rfl fun _ hx => hx
  revert honce
  rw [Client.serveRead]
  split
  · rename_i raw reader _
    exact (hreader reader).serveLine hserving
  · rename_i reader _
    split
    · split
      · exact (hreader reader).lose hserving
      · exact (hreader reader.cancel).serveLine hserving
    · exact fun _ => hreader reader

end Tracked

/-- A request is taken only while its connection has an id for it. -/
def IdsLeft (c : Client V) (e : Event) : Prop := e.isCommand = true → c.actor.allocated + 1 < 2 ^ 32

instance (c : Client V) (e : Event) : Decidable (IdsLeft c e) := inferInstanceAs (Decidable (_ → _))

namespace Tracked

variable {c c' : Client V} {conn : Conn}

theorem serveCommand (h : Tracked c) (hserving : c.actor = .serving conn) (hleft : conn.allocated + 1 < 2 ^ 32)
    {cmd : Command} {rest : List Command} (hqueue : c.queue = cmd :: rest) {outcome : Outcome}
    (honce : Once (Client.serveCommand { c with queue := rest } conn cmd outcome)) :
    Tracked (Client.serveCommand { c with queue := rest } conn cmd outcome) := by
  cases outcome with
  | encodeFailed e =>
    refine h.skip hserving hleft honce rfl rfl rfl (fun _ hx => List.mem_append_left _ hx) ?_ rfl
    intro call v hok
    simpa [Client.serveCommand, deliver] using hok
  | writeFailed e =>
    refine h.hangUp hserving honce (by simp [Client.serveCommand, Client.lose]) rfl rfl ?_ ?_ ?_ rfl
    · exact fun x hx => List.mem_append_left _ (List.mem_append_left _ hx)
    · exact fun call hcall => ⟨_, List.mem_append_right _ (List.mem_map_of_mem hcall)⟩
    · intro call v hok
      simpa [Client.serveCommand, Client.lose, deliver] using hok
  | written =>
    -- the id is new, so no call loses its place
    have hdisplaced : (Client.serveCommand { c with queue := rest } conn cmd .written).results = c.results := by
      simp [Client.serveCommand, deliver, displaced, h.get?_nextId hserving]
    exact h.write hserving hleft hqueue rfl rfl rfl honce rfl rfl rfl hdisplaced rfl

theorem next {e : Event} (h : Tracked c) (hbalanced : Balanced c) (hleft : IdsLeft c e) (hnext : c.next e = some c') :
    Tracked c' := by
  have honce := h.once.next hnext
  cases effect_of_next hnext with
  | cloneHandle | dropHandle | spawnPoll | pollSend | pollEnds | arrive | close | reconnectFails =>
    exact h.frame honce rfl rfl rfl rfl fun _ hx => hx
  | @runTask i body hbuilt =>
    rw [call_of_running (c := { c with built := c.built.eraseIdx i }) hbalanced.running] at honce ⊢
    exact h.frame honce rfl rfl rfl rfl fun _ hx => hx
  | pollCall hpolls =>
    rw [call_of_running hbalanced.running] at honce ⊢
    exact h.frame honce rfl rfl rfl rfl fun _ hx => hx
  | command hactor hqueue =>
    have hids := hleft rfl
    rw [hactor] at hids
    exact h.serveCommand hactor hids hqueue honce
  | allGone hactor hclosed => exact absurd hclosed hbalanced.recv_ne_closed
  | read hactor => exact h.serveRead hactor honce
  | readError hactor => exact h.lose hactor honce
  | reconnected hactor => exact h.reconnect hactor _ honce

theorem of_runs {rcId : UInt32} {events : List Event} (h : Runs IdsLeft rcId events c) : Tracked c :=
  (h.invariant (I := fun _ c => Balanced c ∧ Tracked c) ⟨.spawnActor rcId, .spawnActor rcId⟩
    fun _ _ _ _ ⟨hbalanced, htracked⟩ hleft hnext =>
      ⟨hbalanced.next hnext, htracked.next hbalanced hleft hnext⟩).2

/-- The id of an answered request is in no table. -/
theorem get?_of_answered (h : Tracked c) (hserving : c.actor = .serving conn) {w : Written} (hw : w ∈ c.written)
    (hconn : w.conn = conn.number) {r : Except String V} (hr : (w.call, r) ∈ c.results) :
    conn.pending.get? w.body.id = none := by
  cases hget : conn.pending.get? w.body.id with
  | none => rfl
  | some call =>
    obtain ⟨w', hw', hconn', hid', rfl⟩ := (h.allocates conn hserving).pending _ call hget
    obtain rfl := h.unique w' hw' w hw (.inr ⟨hconn'.trans hconn.symm, hid'⟩)
    -- the call would have two places
    have hle := h.once.places_le w'.call.number
    have hpending_le := one_le_weigh (mem_pending hserving hget) rfl
    have hresults_le : 1 ≤ weigh (isNumber w'.call.number) (c.results.map Prod.fst) :=
      one_le_weigh (List.mem_map_of_mem (f := Prod.fst) hr) rfl
    omega

end Tracked

/-- However a run has gone, it can go on until every call has its result. -/
theorem exists_settled {rcId : UInt32} {queue : List Command} : ∀ {events : List Event} {c : Client V},
    Runs IdsLeft rcId events c → c.actor = .reconnecting → c.queue = queue →
    ∃ (more : List Event) (c' : Client V), Runs IdsLeft rcId (events ++ more) c' ∧ c'.issued = c.issued ∧
      c'.waiting = [] := by
  induction queue with
  | nil =>
    intro events c hrun hactor hqueue
    refine ⟨[], c, by rwa [List.append_nil], rfl, ?_⟩
    rw [waiting, hqueue, hactor]
    rfl
  | cons cmd rest ih =>
    intro events c hrun hactor hqueue
    -- a new connection is lost over the next request
    have hconnected : c.next (.reconnected 0) = some (c.reconnect 0) := by rw [next, hactor]
    have hfailed : (c.reconnect 0).next (.command (.writeFailed "")) = some (serveCommand
        { c.reconnect 0 with queue := rest } (.new c.connections 0) cmd (.writeFailed "")) := by
      simp [next, reconnect, hqueue]
    have hids : IdsLeft (c.reconnect 0) (.command (.writeFailed "")) := fun _ => show 0 + 1 < 2 ^ 32 by decide
    have hrun' := (hrun.snoc (fun h => Bool.noConfusion h) hconnected).snoc hids hfailed
    obtain ⟨more, c', hmore, hissued, hwaiting⟩ := ih hrun' rfl rfl
    exact ⟨_, c', by simpa using hmore, hissued, hwaiting⟩

/-- A reply with the id of an entry of the table is the result of its call. -/
theorem results_of_get? {c : Client V} {conn : Conn} {line : String} {r : Response V} {call : Call}
    (hparse : Wire.parseIncoming line = some (.response r)) (hget : conn.pending.get? r.id = some call) :
    (c.handleIncomingLine conn line).results = c.results ++ [(call, r.result)] := by
  simp [handleIncomingLine, hparse, hget, deliver]

/-- A reply with another id is dropped. -/
theorem handleIncomingLine_of_get?_eq_none {c : Client V} {conn : Conn} {line : String} {r : Response V}
    (hparse : Wire.parseIncoming line = some (.response r)) (hget : conn.pending.get? r.id = none) :
    c.handleIncomingLine conn line = { c with handled := c.handled ++ [(conn.number, line)] } := by
  simp [handleIncomingLine, hparse, hget]

/-- **Calls and results.** In every run with fewer than `2 ^ 32` requests on a connection:
* a call waits in the queue, waits in the table of the live connection, or has one result;
* a value comes from a line handled on the connection of the call's request, with the id of that request, and this
  request is the only one of the call and the only one with its id;
* as long as no read is cut short, a line that is handled is a line the daemon sent on that connection, and every line
  it sent there has been handled once no complete one is left unread;
* a request that was written has its result, or its connection is still served;
* a reply for an entry of the table answers that entry's call, a reply for any other id changes no call, and the ids of
  answered calls are not in the table;
* no call is stuck: the run can go on until each call has its result. -/
theorem call_results {rcId : UInt32} {events : List Event} {c : Client V} (hrun : Runs IdsLeft rcId events c) :
    (∀ n < c.issued, weigh (isNumber n) (c.queue.map Command.call) + weigh (isNumber n) c.actor.pending +
      weigh (isNumber n) (c.results.map Prod.fst) = 1) ∧
    (∀ call v, (call, .ok v) ∈ c.results → ∃ w ∈ c.written, w.call = call ∧ RepliedBy c w v ∧
      ∀ w' ∈ c.written, (w'.call.number = call.number ∨ w'.conn = w.conn ∧ w'.body.id = w.body.id) → w' = w) ∧
    (Runs BetweenLines rcId events c → (∀ n line, (n, line) ∈ c.handled → line ∈ textLines (sentOn c n)) ∧
      ∀ conn, c.actor = .serving conn → newline ∉ c.reader.buffered →
        handledOn c conn.number = textLines (sentOn c conn.number)) ∧
    (∀ w ∈ c.written, (∃ r, (w.call, r) ∈ c.results) ∨
      ∃ conn, c.actor = .serving conn ∧ conn.number = w.conn ∧ conn.pending.get? w.body.id = some w.call) ∧
    (∀ conn, c.actor = .serving conn →
      (∀ line r, Wire.parseIncoming line = some (.response r) →
        (∀ call, conn.pending.get? r.id = some call →
          (c.handleIncomingLine conn line).results = c.results ++ [(call, r.result)]) ∧
        (conn.pending.get? r.id = none →
          c.handleIncomingLine conn line = { c with handled := c.handled ++ [(conn.number, line)] })) ∧
      ∀ w ∈ c.written, w.conn = conn.number → (∃ r, (w.call, r) ∈ c.results) →
        conn.pending.get? w.body.id = none) ∧
    ∃ (more : List Event) (c' : Client V), Runs IdsLeft rcId (events ++ more) c' ∧ c'.issued = c.issued ∧
      c'.waiting = [] := by
  have h := Tracked.of_runs hrun
  refine ⟨?_, ?_, fun hbetween => ?_, h.settled, ?_, ?_⟩
  · intro n hn
    rw [← weigh_append]
    exact (h.once n).trans (if_pos hn)
  · intro call v hr
    obtain ⟨w, hw, rfl, hreplied⟩ := h.replied call v hr
    exact ⟨w, hw, rfl, hreplied, fun w' hw' hsame => h.unique w' hw' w hw hsame⟩
  · have hfaithful := Faithful.of_runs hbetween
    exact ⟨fun n line => hfaithful.mem_textLines, fun conn hserving => hfaithful.handledOn_eq hserving⟩
  · intro conn hserving
    refine ⟨fun line r hparse => ⟨fun call => results_of_get? hparse, handleIncomingLine_of_get?_eq_none hparse⟩, ?_⟩
    rintro w hw hconn ⟨r, hr⟩
    exact h.get?_of_answered hserving hw hconn hr
  · cases hactor : c.actor with
    | serving conn =>
      have hlost : c.next .readError = some (c.lose conn) := by rw [next, hactor]
      obtain ⟨more, c', hmore, hissued, hwaiting⟩ :=
        exists_settled (hrun.snoc (fun h => Bool.noConfusion h) hlost) rfl rfl
      exact ⟨_, c', by simpa using hmore, hissued, hwaiting⟩
    | reconnecting => exact exists_settled hrun hactor rfl
    | stopped => exact absurd hactor (Balanced.of_runs hrun).running

/-- A message is sent and answered, the daemon sends its answer again, and the connection is lost with a second message
under way. -/
theorem call_results_sample : ∃ c : Client Sample.Value,
    Runs IdsLeft 2 [.pollSend "a" [1], .runTask 0, .command .written, .arrive [111, 107, 10, 111, 107, 10], .read,
      .read, .pollSend "b" [2], .runTask 0, .command .written, .readError] c ∧
    c.results = [(⟨0, .task⟩, .ok .null), (⟨1, .task⟩, .error "veilid-transport: daemon disconnected")] ∧
    ∃ w ∈ c.written, w.call = ⟨0, .task⟩ ∧ RepliedBy c w .null := by
  refine Run.exists_of_exec_imp (fun c => c.results = [(⟨0, .task⟩, .ok .null),
    (⟨1, .task⟩, .error "veilid-transport: daemon disconnected")]) (by decide +kernel) fun c hrun hresults => ?_
  obtain ⟨w, hw, hcall, hreplied, -⟩ := (call_results hrun).2.1 ⟨0, .task⟩ .null (by simp [hresults])
  exact ⟨hresults, w, hw, hcall, hreplied⟩

/-- The daemon answers the first message, and a second message is sent when the answer is half read: the answer is not
handled. The first message's call is still in the table, its connection lives, and nothing is left to be read on it. -/
theorem reply_lost : ∃ c : Client Sample.Value,
    Runs IdsLeft 2 [.pollSend "a" [1], .runTask 0, .command .written, .arrive [111], .read, .pollSend "b" [2],
      .runTask 0, .command .written, .arrive [107, 10], .read] c ∧
    (∃ w ∈ c.written, w.call = ⟨0, .task⟩ ∧ w.conn = 0 ∧ w.body.id = 100) ∧ textLines (sentOn c 0) = ["ok"] ∧
    Wire.parseIncoming "ok" = some (.response ⟨100, Sample.Value.null, none⟩) ∧ ⟨0, .task⟩ ∈ c.actor.pending ∧
    c.connections = 1 ∧ c.reader.buffered = [] ∧ c.results = [] := by
  refine Run.exists_of_exec_imp (fun c => (∃ w ∈ c.written, w.call = ⟨0, .task⟩ ∧ w.conn = 0 ∧ w.body.id = 100) ∧
    textLines (sentOn c 0) = ["ok"] ∧ ⟨0, .task⟩ ∈ c.actor.pending ∧ c.connections = 1 ∧ c.reader.buffered = [] ∧
    c.results = []) (by decide +kernel) fun c _ ⟨hwritten, hsent, hrest⟩ => ?_
  exact ⟨hwritten, hsent, rfl, hrest⟩

end Tetron.Veilid.Client
