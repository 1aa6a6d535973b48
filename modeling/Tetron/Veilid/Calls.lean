import Tetron.Veilid.Client

/-!
# Calls are conserved

A call waits in the queue, waits in the table of the connection it was written on, or has its result. No step loses a
call or answers one twice (`total_next`), and what the actor does with its connection leaves the callers and their
handles alone (`Quiet`).
-/

namespace Tetron.Veilid.Client

variable {V : Type}

/-! ### Where calls are -/

section Weigh

variable {f : Call → ℕ} {calls more : List Call} {c : Call}

@[simp] theorem weigh_nil : weigh f [] = 0 := rfl

@[simp] theorem weigh_cons : weigh f (c :: calls) = f c + weigh f calls := by
  simp [weigh]

@[simp] theorem weigh_append : weigh f (calls ++ more) = weigh f calls + weigh f more := by
  simp [weigh]

theorem weigh_perm (h : calls.Perm more) : weigh f calls = weigh f more := (h.map f).sum_eq

theorem le_weigh (h : c ∈ calls) : f c ≤ weigh f calls := List.le_sum_of_mem (List.mem_map_of_mem h)

/-- A new entry of the table, and what it displaces. -/
theorem weigh_insert (conn : Conn) (id : UInt32) (call : Call) :
    weigh f (conn.pending.insert id call).values + weigh f (displaced conn id) =
      weigh f conn.pending.values + f call := by
  rw [HashTable.values_insert, weigh_cons, displaced]
  cases hget : conn.pending.get? id with
  | none =>
    rw [weigh_perm (HashTable.erase_of_get?_eq_none hget)]
    simp [Nat.add_comm]
  | some old =>
    rw [weigh_perm (HashTable.values_erase hget)]
    simp only [Option.toList_some, weigh_cons, weigh_nil]
    omega

end Weigh

/-- The weight of all calls, with or without a result. -/
def total (f : Call → ℕ) (c : Client V) : ℕ := weigh f c.waiting + weigh f (c.results.map Prod.fst)

/-- The same, with the table of `conn` for that of the client. -/
def load (f : Call → ℕ) (c : Client V) (conn : Conn) : ℕ :=
  weigh f (c.queue.map Command.call) + weigh f conn.pending.values + weigh f (c.results.map Prod.fst)

section Total

variable (f : Call → ℕ) (c : Client V) (conn : Conn)

theorem total_of_serving {c : Client V} {conn : Conn} (h : c.actor = .serving conn) : total f c = load f c conn := by
  simp [total, load, waiting, h, Actor.pending]

theorem weigh_results_deliver (calls : List Call) (result : Except String V) :
    weigh f ((deliver c calls result).results.map Prod.fst) =
      weigh f (c.results.map Prod.fst) + weigh f calls := by
  simp [deliver, Function.comp_def]

theorem total_lose : total f (c.lose conn) = load f c conn := by
  have hresults := weigh_results_deliver f c conn.pending.values (.error "veilid-transport: daemon disconnected")
  simp only [total, load, lose, waiting, Actor.pending, List.append_nil]
  rw [hresults]
  simp only [deliver]
  omega

theorem total_shutdown : total f (c.shutdown conn) = load f c conn := by
  have hresults := weigh_results_deliver f c conn.pending.values
    (.error "veilid-transport: connection actor dropped the request")
  simp only [total, load, shutdown, waiting, Actor.pending, List.append_nil]
  rw [hresults]
  simp only [deliver]
  omega

theorem total_call (caller : Caller) (body : Body) :
    total f (c.call caller body) = total f c + f ⟨c.issued, caller⟩ := by
  rw [call]
  split
  · rename_i hstopped
    rw [total, weigh_results_deliver]
    simp only [deliver, waiting, weigh_cons, weigh_nil, total]
    omega
  · simp only [total, waiting, List.map_append, List.map_cons, List.map_nil, weigh_append, weigh_cons, weigh_nil]
    omega

theorem total_serveCommand (cmd : Command) (outcome : Outcome) :
    total f (c.serveCommand conn cmd outcome) = load f c conn + f cmd.call := by
  cases outcome with
  | encodeFailed e =>
    simp [serveCommand, total, load, deliver, waiting, Actor.pending]
    omega
  | writeFailed e =>
    rw [serveCommand, total_lose]
    simp [load, deliver]
    omega
  | written =>
    have hinsert := weigh_insert (f := f) conn conn.nextId cmd.call
    simp only [serveCommand, total, load, deliver, waiting, Actor.pending, displaced, List.map_append, List.map_map,
      Function.comp_def, List.map_id', weigh_append] at hinsert ⊢
    omega

variable [Wire V] {c conn}

theorem total_handleIncomingLine (h : c.actor = .serving conn) (line : String) :
    total f (c.handleIncomingLine conn line) = load f c conn := by
  have hsame := total_of_serving f h
  rw [handleIncomingLine]
  split
  · exact hsame
  · rename_i r _
    split
    · rename_i call hget
      have herase := weigh_perm (f := f) (HashTable.values_erase hget)
      rw [weigh_cons] at herase
      simp [total, load, deliver, waiting, Actor.pending, herase]
      omega
    · exact hsame
  · exact hsame

theorem total_serveLine (h : c.actor = .serving conn) (raw : Bytes) :
    total f (c.serveLine conn raw) = load f c conn := by
  rw [serveLine]
  split
  · exact total_lose f c conn
  · split
    · exact total_of_serving f h
    · exact total_handleIncomingLine f h _

theorem total_serveRead (h : c.actor = .serving conn) : total f (c.serveRead conn) = load f c conn := by
  have hsame := total_of_serving f h
  rw [serveRead]
  split
  · rename_i raw reader _
    exact total_serveLine f (c := { c with reader := reader }) h raw
  · rename_i reader _
    split
    · split
      · exact total_lose f { c with reader := reader } conn
      · exact total_serveLine f (c := { c with reader := reader.cancel }) h reader.held
    · exact hsame

/-- The call an event starts. -/
def started (c : Client V) : Event → List Call
  | .runTask _ => [⟨c.issued, .task⟩]
  | .pollCall => [⟨c.issued, .poll⟩]
  | _ => []

/-- **No step loses a call**: what a step takes from one place it puts in another. -/
theorem total_next {c' : Client V} {e : Event} (h : c.next e = some c') :
    total f c' = total f c + weigh f (started c e) := by
  cases effect_of_next h with
  | cloneHandle | dropHandle | spawnPoll | pollSend | pollEnds | arrive | close | reconnectFails => rfl
  | runTask hbuilt =>
    rw [total_call, started, weigh_cons, weigh_nil]
    rfl
  | pollCall hpolls =>
    rw [total_call, started, weigh_cons, weigh_nil]
    rfl
  | command hactor hqueue =>
    rw [total_serveCommand, total_of_serving f hactor]
    simp [load, hqueue, started]
    omega
  | allGone hactor hclosed => rw [total_shutdown, total_of_serving f hactor]; rfl
  | read hactor => rw [total_serveRead f hactor, total_of_serving f hactor]; rfl
  | readError hactor => rw [total_lose, total_of_serving f hactor]; rfl
  | reconnected hactor => simp [total, waiting, reconnect, hactor, Actor.pending, Conn.new, started]; rfl

end Total

/-! ### What the actor leaves alone -/

/-- The step is the actor's own: callers and their handles are as before, nothing is written, nothing is queued, and
the connection is the one before or none. -/
structure Quiet (c c' : Client V) : Prop where
  outside : c'.outside = c.outside
  built : c'.built = c.built
  polls : c'.polls = c.polls
  queue : c'.queue <:+ c.queue
  rcId : c'.rcId = c.rcId
  connections : c'.connections = c.connections
  issued : c'.issued = c.issued
  written : c'.written = c.written
  served : ∀ conn', c'.actor = .serving conn' →
    ∃ conn, c.actor = .serving conn ∧ conn'.number = conn.number ∧ conn'.rcId = conn.rcId

namespace Quiet

theorem lose (c : Client V) (conn : Conn) : Quiet c (c.lose conn) :=
  ⟨rfl, rfl, rfl, List.suffix_rfl, rfl, rfl, rfl, rfl, fun _ h => by cases h⟩

theorem withReader (c : Client V) (reader : LineReader UInt8) : Quiet c { c with reader := reader } :=
  ⟨rfl, rfl, rfl, List.suffix_rfl, rfl, rfl, rfl, rfl, fun conn h => ⟨conn, h, rfl, rfl⟩⟩

theorem trans {c c' c'' : Client V} (h : Quiet c c') (h' : Quiet c' c'') : Quiet c c'' where
  outside := h'.outside.trans h.outside
  built := h'.built.trans h.built
  polls := h'.polls.trans h.polls
  queue := h'.queue.trans h.queue
  rcId := h'.rcId.trans h.rcId
  connections := h'.connections.trans h.connections
  issued := h'.issued.trans h.issued
  written := h'.written.trans h.written
  served conn'' hactor'' := by
    obtain ⟨conn', hactor', hnumber', hrc'⟩ := h'.served conn'' hactor''
    obtain ⟨conn, hactor, hnumber, hrc⟩ := h.served conn' hactor'
    exact ⟨conn, hactor, hnumber'.trans hnumber, hrc'.trans hrc⟩

variable [Wire V] {c : Client V} {conn : Conn}

theorem handleIncomingLine (hactor : c.actor = .serving conn) (line : String) :
    Quiet c (c.handleIncomingLine conn line) := by
  have hserved (conn' : Conn) (h : c.actor = .serving conn') :
      ∃ conn, c.actor = .serving conn ∧ conn'.number = conn.number ∧ conn'.rcId = conn.rcId := ⟨conn', h, rfl, rfl⟩
  rw [Client.handleIncomingLine]
  split
  · exact ⟨rfl, rfl, rfl, List.suffix_rfl, rfl, rfl, rfl, rfl, hserved⟩
  · split
    · refine ⟨rfl, rfl, rfl, List.suffix_rfl, rfl, rfl, rfl, rfl, fun conn' h => ?_⟩
      cases h
      exact ⟨conn, hactor, rfl, rfl⟩
    · exact ⟨rfl, rfl, rfl, List.suffix_rfl, rfl, rfl, rfl, rfl, hserved⟩
  · exact ⟨rfl, rfl, rfl, List.suffix_rfl, rfl, rfl, rfl, rfl, hserved⟩

theorem serveLine (hactor : c.actor = .serving conn) (raw : Bytes) : Quiet c (c.serveLine conn raw) := by
  rw [Client.serveLine]
  split
  · exact lose c conn
  · split
    · exact withReader c c.reader
    · exact handleIncomingLine hactor _

theorem serveRead (hactor : c.actor = .serving conn) : Quiet c (c.serveRead conn) := by
  rw [Client.serveRead]
  split
  · rename_i raw reader _
    exact (withReader c reader).trans (serveLine (c := { c with reader := reader }) hactor raw)
  · rename_i reader _
    split
    · split
      · exact (withReader c reader).trans (lose _ conn)
      · refine (withReader c reader.cancel).trans ?_
        exact serveLine (c := { c with reader := reader.cancel }) hactor reader.held
    · exact withReader c reader

end Quiet

section Issued

theorem issued_call (c : Client V) (caller : Caller) (body : Body) : (c.call caller body).issued = c.issued + 1 := by
  rw [call]
  split <;> rfl

theorem issued_serveCommand (c : Client V) (conn : Conn) (cmd : Command) (outcome : Outcome) :
    (c.serveCommand conn cmd outcome).issued = c.issued := by
  cases outcome <;> rfl

theorem issued_next [Wire V] {c c' : Client V} {e : Event} (h : c.next e = some c') :
    c'.issued = c.issued + (started c e).length := by
  cases effect_of_next h with
  | cloneHandle | dropHandle | spawnPoll | pollSend | pollEnds | arrive | close | readError | reconnected
  | reconnectFails | allGone => rfl
  | runTask hbuilt => exact issued_call _ _ _
  | pollCall hpolls => exact issued_call _ _ _
  | command hactor hqueue => exact issued_serveCommand _ _ _ _
  | read hactor => exact (Quiet.serveRead hactor).issued

end Issued

end Tetron.Veilid.Client
