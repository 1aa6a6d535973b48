import Tetron.Veilid.Calls

/-!
# The handles of a client

`recv` reports the end of the queue once it has no sender. Each handle is a sender: those of callers, of tasks that
carry a request or wait for its result, of identity polls, and the one `spawn_actor` gives to the actor itself. The
actor keeps its own as long as it runs, so the count never reaches zero, the queue never ends, and the actor never
stops (`recv_pending`).
-/

namespace Tetron.Veilid.Client

variable {V : Type}

/-- The senders, with those that were dropped with a result. -/
def spent (c : Client V) : ℕ := c.senders + weigh isTask (c.results.map Prod.fst)

/-- Handles of callers, of tasks that have not run, and of polls. -/
def others (c : Client V) : ℕ := c.outside + c.built.length + c.polls

/-- The actor runs, and its handle is one more than those of all the others. -/
structure Balanced (c : Client V) : Prop where
  running : c.actor ≠ .stopped
  senders : c.senders = others c + weigh isTask c.waiting + 1

/-- The actor goes on, and drops no sender but those of the calls it answers. -/
structure Settles (c c' : Client V) : Prop where
  running : c'.actor ≠ .stopped
  spent : spent c' = spent c

theorem spent_deliver {c : Client V} {calls : List Call} (h : weigh isTask calls ≤ c.senders)
    (result : Except String V) : spent (deliver c calls result) = spent c := by
  rw [spent, weigh_results_deliver]
  simp only [deliver, spent]
  omega

/-- A call to a running actor. -/
theorem call_of_running {c : Client V} (h : c.actor ≠ .stopped) (caller : Caller) (body : Body) :
    c.call caller body = { c with issued := c.issued + 1, queue := c.queue ++ [⟨⟨c.issued, caller⟩, body⟩] } := by
  rw [call]
  split
  · exact absurd ‹_› h
  · rfl

theorem others_of_quiet {c c' : Client V} (h : Quiet c c') : others c' = others c := by
  rw [others, others, h.outside, h.built, h.polls]

namespace Settles

variable {c : Client V} {conn : Conn}

theorem lose (h : weigh isTask conn.pending.values ≤ c.senders) : Settles c (c.lose conn) :=
  ⟨by simp [Client.lose], spent_deliver h _⟩

theorem serveCommand {cmd : Command} (h : isTask cmd.call + weigh isTask conn.pending.values ≤ c.senders)
    (outcome : Outcome) : Settles c (c.serveCommand conn cmd outcome) := by
  have hcall : weigh isTask [cmd.call] ≤ c.senders := by
    rw [weigh_cons, weigh_nil]
    omega
  cases outcome with
  | encodeFailed e => exact ⟨by simp [Client.serveCommand], spent_deliver (c := { c with reader := _ }) hcall _⟩
  | writeFailed e =>
    have hlose : Settles (deliver { c with reader := c.reader.cancel } [cmd.call]
        (.error s!"veilid-transport: write failed: {e}")) (c.serveCommand conn cmd (.writeFailed e)) := by
      refine lose ?_
      simp only [deliver, weigh_cons, weigh_nil]
      omega
    exact ⟨hlose.running, hlose.spent.trans (spent_deliver (c := { c with reader := c.reader.cancel }) hcall _)⟩
  | written =>
    have hinsert := weigh_insert (f := isTask) conn conn.nextId cmd.call
    have hdisplaced : weigh isTask (displaced conn conn.nextId) ≤ c.senders := by omega
    exact ⟨by simp [Client.serveCommand], spent_deliver (c := { c with reader := c.reader.cancel }) hdisplaced _⟩

variable [Wire V]

theorem handleIncomingLine (hactor : c.actor = .serving conn) (h : weigh isTask conn.pending.values ≤ c.senders)
    (line : String) : Settles c (c.handleIncomingLine conn line) := by
  rw [Client.handleIncomingLine]
  split
  · exact ⟨by simp [hactor], rfl⟩
  · split
    · rename_i call hget
      have hcall : weigh isTask [call] ≤ c.senders := by
        rw [weigh_cons, weigh_nil]
        exact (le_weigh (HashTable.mem_values_iff.mpr ⟨_, hget⟩)).trans h
      exact ⟨by simp, spent_deliver (c := { c with handled := _ }) hcall _⟩
    · exact ⟨by simp [hactor], rfl⟩
  · exact ⟨by simp [hactor], rfl⟩

theorem serveLine (hactor : c.actor = .serving conn) (h : weigh isTask conn.pending.values ≤ c.senders) (raw : Bytes) :
    Settles c (c.serveLine conn raw) := by
  rw [Client.serveLine]
  split
  · exact lose h
  · split
    · exact ⟨by simp [hactor], rfl⟩
    · exact handleIncomingLine hactor h _

theorem serveRead (hactor : c.actor = .serving conn) (h : weigh isTask conn.pending.values ≤ c.senders) :
    Settles c (c.serveRead conn) := by
  have hline (reader : LineReader UInt8) (raw : Bytes) : Settles c (Client.serveLine { c with reader } conn raw) :=
    have hserve := serveLine (c := { c with reader }) hactor h raw
    ⟨hserve.running, hserve.spent⟩
  rw [Client.serveRead]
  split
  · exact hline _ _
  · split
    · split
      · exact ⟨by simp [Client.lose], spent_deliver (c := { c with reader := _ }) h _⟩
      · exact hline _ _
    · exact ⟨by simp [hactor], rfl⟩

end Settles

namespace Balanced

variable {c c' : Client V}

theorem spawnActor (rcId : UInt32) : Balanced (Client.spawnActor rcId : Client V) where
  running := by simp [Client.spawnActor]
  senders := by simp [Client.spawnActor, others, waiting, Actor.pending, Conn.new, HashTable.values]

/-- The senders reach for the calls of the table, and for the next command. -/
theorem pending_le (h : Balanced c) {conn : Conn} (hactor : c.actor = .serving conn) :
    weigh isTask (c.queue.map Command.call) + weigh isTask conn.pending.values ≤ c.senders := by
  rw [h.senders, waiting, weigh_append, hactor, Actor.pending]
  omega

theorem recv_ne_closed (h : Balanced c) : c.recv ≠ .closed := by
  have hsenders := h.senders
  rw [recv]
  split
  · simp
  · rw [if_neg (by omega)]
    simp

variable [Wire V] {e : Event}

/-- A step keeps the balance if it makes and drops as many senders as handles. -/
theorem keep (h : Balanced c) (hnext : c.next e = some c') (hrunning : c'.actor ≠ .stopped)
    (hspent : spent c' + others c = spent c + others c' + weigh isTask (started c e)) : Balanced c' where
  running := hrunning
  senders := by
    have htotal := total_next isTask hnext
    have hsenders := h.senders
    simp only [total, spent] at htotal hspent
    omega

/-- A step of the actor keeps the balance. -/
theorem settle (h : Balanced c) (hnext : c.next e = some c') (hstarted : started c e = [])
    (hothers : others c' = others c) (hsettles : Settles c c') : Balanced c' := by
  refine h.keep hnext hsettles.running ?_
  rw [hsettles.spent, hothers, hstarted, weigh_nil]
  rfl

theorem next (h : Balanced c) (hnext : c.next e = some c') : Balanced c' := by
  have hsenders := h.senders
  cases effect_of_next hnext with
  | cloneHandle hpos | dropHandle hpos | spawnPoll hpos | pollEnds hpos =>
    refine h.keep hnext h.running ?_
    simp only [spent, others, started, weigh_nil] at hsenders ⊢
    omega
  | pollSend hout =>
    refine h.keep hnext h.running ?_
    simp only [spent, others, Client.pollSend, started, weigh_nil, List.length_append, List.length_singleton]
    omega
  | arrive hactor hopen => exact h.settle hnext rfl rfl ⟨h.running, rfl⟩
  | close hactor => exact h.settle hnext rfl rfl ⟨h.running, rfl⟩
  | reconnectFails hactor => exact h.settle hnext rfl rfl ⟨h.running, rfl⟩
  | @runTask i body hbuilt =>
    obtain ⟨hlt, -⟩ := List.getElem?_eq_some_iff.mp hbuilt
    rw [call_of_running (c := { c with built := c.built.eraseIdx i }) h.running] at hnext ⊢
    refine h.keep hnext h.running ?_
    -- the handle of the task goes on with its call
    simp only [spent, others, started, weigh_cons, weigh_nil, isTask, List.length_eraseIdx_of_lt hlt, if_true]
    omega
  | pollCall hpolls =>
    rw [call_of_running h.running] at hnext ⊢
    exact h.keep hnext h.running rfl
  | @command outcome conn cmd rest hactor hqueue =>
    have hpending := h.pending_le hactor
    rw [hqueue, List.map_cons, weigh_cons] at hpending
    have hcalls : isTask cmd.call + weigh isTask conn.pending.values ≤ c.senders := by omega
    have hsettles := Settles.serveCommand (c := { c with queue := rest }) hcalls outcome
    exact h.settle hnext rfl (by cases outcome <;> rfl) ⟨hsettles.running, hsettles.spent⟩
  | allGone hactor hclosed => exact absurd hclosed h.recv_ne_closed
  | read hactor =>
    have hpending := h.pending_le hactor
    exact h.settle hnext rfl (others_of_quiet (.serveRead hactor)) (.serveRead hactor (by omega))
  | @readError conn hactor =>
    have hpending := h.pending_le hactor
    exact h.settle hnext rfl (others_of_quiet (.lose c conn)) (.lose (by omega))
  | reconnected hactor =>
    refine h.keep hnext (by simp [reconnect]) ?_
    simp only [spent, others, reconnect, started, weigh_nil]
    omega

/-- In every run the actor runs on, with a handle of its own. -/
theorem of_runs {C : Client V → Event → Prop} {rcId : UInt32} {events : List Event} (h : Runs C rcId events c) :
    Balanced c :=
  h.invariant (I := fun _ c => Balanced c) (.spawnActor rcId) fun _ _ _ _ hbalanced _ hnext => hbalanced.next hnext

end Balanced

/-- Callers have no handle: none of their own, and none in a task of `send_fire_and_forget`. -/
def Unused (c : Client V) : Prop := c.outside = 0 ∧ c.built = [] ∧ weigh isTask c.waiting = 0

instance (c : Client V) : Decidable (Unused c) := inferInstanceAs (Decidable (_ ∧ _ ∧ _))

/-- **The queue never ends**: in every run, whoever has handles, `recv` waits when the queue is empty. The actor has
not stopped and cannot; it serves its connection or makes a new one. -/
theorem recv_pending [Wire V] {C : Client V → Event → Prop} {rcId : UInt32} {events : List Event} {c : Client V}
    (hrun : Runs C rcId events c) (hqueue : c.queue = []) :
    c.recv = .pending ∧ c.next .allGone = none ∧ c.actor ≠ .stopped := by
  have h := Balanced.of_runs hrun
  refine ⟨?_, ?_, h.running⟩
  · have hsenders := h.senders
    rw [recv, hqueue]
    exact if_neg (by omega)
  · rw [next]
    split
    · rw [if_neg h.recv_ne_closed]
    · rfl

/-- The only caller drops its handle: no handle is in use, and the actor keeps the queue open. -/
theorem dropped_recv_pending : ∃ c : Client Sample.Value, Runs (fun _ _ => True) 2 [.dropHandle] c ∧
    c.Unused ∧ c.polls = 0 ∧ c.queue = [] ∧ c.recv = .pending ∧ c.senders = 1 :=
  Run.exists_of_exec (by decide +kernel)

/-- With the identity poll of a second connection under way, too. -/
theorem recv_pending_polling : ∃ c : Client Sample.Value,
    Runs (fun _ _ => True) 2 [.dropHandle, .readError, .reconnected 5] c ∧ c.Unused ∧ c.polls = 1 ∧
      c.recv = .pending ∧ c.next .allGone = none ∧ c.actor ≠ .stopped := by
  refine Run.exists_of_exec_imp (fun c => c.Unused ∧ c.polls = 1 ∧ c.queue = []) (by decide +kernel) fun c hrun hc => ?_
  obtain ⟨hunused, hpolls, hqueue⟩ := hc
  exact ⟨hunused, hpolls, recv_pending hrun hqueue⟩

end Tetron.Veilid.Client
