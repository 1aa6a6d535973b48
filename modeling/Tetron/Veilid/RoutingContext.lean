import Tetron.Veilid.Calls

/-!
# Routing contexts

A routing context belongs to the connection whose handshake made it. Requests are built with the id the handles read
then, and wait; the actor replaces only their request id when it writes them. A request that waits over a reconnect is
written with the id of a connection that is gone (`written_after_reconnect`), and nothing else goes wrong: as long as
every new connection finds only requests that fit it, all requests that are written fit their connection
(`written_fits`).
-/

namespace Tetron.Veilid.Client

variable {V : Type}

/-- The request names the routing context `rcId`, or none. -/
def Fits (rcId : UInt32) (body : Body) : Prop := ∀ rc ∈ body.op.rcId?, rc = rcId

instance (rcId : UInt32) (body : Body) : Decidable (Fits rcId body) := inferInstanceAs (Decidable (∀ rc ∈ _, rc = rcId))

/-- Requests that were built and are not written. -/
def unwritten (c : Client V) : List Body := c.built ++ c.queue.map Command.body

/-- Requests that wait when a connection is made name the routing context it has, or none. -/
def NoneStale (c : Client V) : Event → Prop
  | .reconnected rcId => ∀ body ∈ c.unwritten, Fits rcId body
  | _ => True

instance (c : Client V) : ∀ e, Decidable (NoneStale c e)
  | .reconnected rcId => inferInstanceAs (Decidable (∀ body ∈ c.unwritten, Fits rcId body))
  | .cloneHandle | .dropHandle | .spawnPoll | .pollSend _ _ | .runTask _ | .pollCall | .pollEnds | .command _ | .allGone
  | .arrive _ | .close | .read | .readError | .reconnectFails => .isTrue trivial

/-- The handles read the id of the connection, and requests fit it, before they are written and then. -/
structure Fitting (c : Client V) : Prop where
  current : ∀ conn, c.actor = .serving conn → conn.rcId = c.rcId
  unwritten : ∀ body ∈ c.unwritten, Fits c.rcId body
  written : ∀ w ∈ c.written, Fits w.connRcId w.body

theorem mem_unwritten_call {c : Client V} {caller : Caller} {body b : Body} (h : b ∈ (c.call caller body).unwritten) :
    b ∈ c.unwritten ∨ b = body := by
  rw [call] at h
  split at h
  · exact .inl h
  · simp only [unwritten, List.map_append, List.map_cons, List.map_nil, ← List.append_assoc] at h
    exact (List.mem_append.mp h).imp_right List.mem_singleton.mp

namespace Fitting

variable {c c' : Client V}

theorem spawnActor (rcId : UInt32) : Fitting (Client.spawnActor rcId : Client V) where
  current conn h := by cases h; rfl
  unwritten body h := by cases h
  written w h := by cases h

/-- The actor's own steps add no request. -/
theorem quiet (h : Fitting c) (hquiet : Quiet c c') : Fitting c' where
  current conn' h' := by
    obtain ⟨conn, hactor, -, hrc⟩ := hquiet.served conn' h'
    rw [hrc, hquiet.rcId]
    exact h.current conn hactor
  unwritten body hbody := by
    rw [hquiet.rcId]
    apply h.unwritten
    rw [Client.unwritten, hquiet.built] at hbody
    exact (List.mem_append.mp hbody).elim (List.mem_append_left _)
      fun hqueue => List.mem_append_right _ (List.map_subset _ hquiet.queue.subset hqueue)
  written := by
    rw [hquiet.written]
    exact h.written

/-- A call of a request that fits. -/
theorem call (h : Fitting c) {body : Body} (hbody : Fits c.rcId body) (caller : Caller) :
    Fitting (c.call caller body) := by
  have hsame : (c.call caller body).actor = c.actor ∧ (c.call caller body).rcId = c.rcId ∧
      (c.call caller body).written = c.written := by
    rw [Client.call]
    split <;> exact ⟨rfl, rfl, rfl⟩
  obtain ⟨hactor, hrc, hwritten⟩ := hsame
  refine ⟨?_, ?_, ?_⟩
  · rw [hactor, hrc]
    exact h.current
  · intro b hb
    rw [hrc]
    obtain hb | rfl := mem_unwritten_call hb
    · exact h.unwritten b hb
    · exact hbody
  · rw [hwritten]
    exact h.written

/-- The next request is written as it was built, up to its id. -/
theorem serveCommand (h : Fitting c) {conn : Conn} (hactor : c.actor = .serving conn) {cmd : Command}
    {rest : List Command} (hqueue : c.queue = cmd :: rest) (outcome : Outcome) :
    Fitting (Client.serveCommand { c with queue := rest } conn cmd outcome) := by
  have hrc := h.current conn hactor
  have hrest (body : Body) (hbody : body ∈ c.built ++ rest.map Command.body) : Fits c.rcId body := by
    apply h.unwritten
    rw [Client.unwritten, hqueue, List.map_cons]
    exact (List.mem_append.mp hbody).elim (List.mem_append_left _)
      fun hmem => List.mem_append_right _ (List.mem_cons_of_mem _ hmem)
  cases outcome with
  | encodeFailed e => exact ⟨fun conn' h' => by cases h'; exact hrc, hrest, h.written⟩
  | writeFailed e => exact ⟨fun conn' h' => Actor.noConfusion h', hrest, h.written⟩
  | written =>
    refine ⟨fun conn' h' => by cases h'; exact hrc, hrest, fun w hw => ?_⟩
    obtain hw | hw := List.mem_append.mp hw
    · exact h.written w hw
    · obtain rfl := List.mem_singleton.mp hw
      have hcmd : Fits c.rcId cmd.body := by
        apply h.unwritten
        rw [Client.unwritten, hqueue, List.map_cons]
        exact List.mem_append_right _ List.mem_cons_self
      rw [← hrc] at hcmd
      exact hcmd

variable [Wire V] {e : Event}

theorem next (h : Fitting c) (hstale : NoneStale c e) (hnext : c.next e = some c') : Fitting c' := by
  cases effect_of_next hnext with
  | cloneHandle | dropHandle | spawnPoll | pollEnds | arrive | close | reconnectFails =>
    exact ⟨h.current, h.unwritten, h.written⟩
  | pollSend hout =>
    refine ⟨h.current, fun body hbody => ?_, h.written⟩
    simp only [Client.unwritten, Client.pollSend, List.mem_append, List.mem_singleton] at hbody
    obtain (hbody | rfl) | hbody := hbody
    · exact h.unwritten body (List.mem_append_left _ hbody)
    · intro rc hrc
      exact (Option.mem_some.mp hrc).symm
    · exact h.unwritten body (List.mem_append_right _ hbody)
  | @runTask i body hbuilt =>
    have herased : Fitting { c with built := c.built.eraseIdx i } := by
      refine ⟨h.current, fun b hb => h.unwritten b ?_, h.written⟩
      exact (List.mem_append.mp hb).elim (fun hmem => List.mem_append_left _ (List.mem_of_mem_eraseIdx hmem))
        (List.mem_append_right _)
    exact herased.call (h.unwritten body (List.mem_append_left _ (List.mem_of_getElem? hbuilt))) .task
  | pollCall hpolls => exact h.call (fun rc hrc => by cases hrc) .poll
  | command hactor hqueue => exact h.serveCommand hactor hqueue _
  | allGone hactor hclosed => exact ⟨fun conn' h' => Actor.noConfusion h', h.unwritten, h.written⟩
  | read hactor => exact h.quiet (.serveRead hactor)
  | readError hactor => exact h.quiet (.lose c _)
  | reconnected hactor => exact ⟨fun conn' h' => by cases h'; rfl, hstale, h.written⟩

end Fitting

variable [Wire V]

/-- **Requests fit their connection**: in every run in which no request waits over a reconnect to another routing
context, every request that is written carries the routing context of the connection it is written on. -/
theorem written_fits {rcId : UInt32} {events : List Event} {c : Client V} (hrun : Runs NoneStale rcId events c) :
    ∀ w ∈ c.written, ∀ rc, w.body.op.rcId? = some rc → rc = w.connRcId := by
  have h : Fitting c := hrun.invariant (I := fun _ c => Fitting c) (.spawnActor rcId)
    fun _ _ _ _ hfitting hstale hnext => hfitting.next hstale hnext
  exact h.written

/-- A message is sent, the connection is lost, and another message is sent on the next one. -/
theorem written_fits_sample : ∃ c : Client Sample.Value,
    Runs NoneStale 2 [.pollSend "a" [1], .runTask 0, .command .written, .readError, .reconnected 5, .pollSend "b" [2],
      .runTask 0, .command .written] c ∧
    c.written.map (fun w => (w.conn, w.connRcId)) = [(0, 2), (1, 5)] ∧
    ∀ w ∈ c.written, ∀ rc, w.body.op.rcId? = some rc → rc = w.connRcId := by
  refine Run.exists_of_exec_imp (fun c => c.written.map (fun w => (w.conn, w.connRcId)) = [(0, 2), (1, 5)])
    (by decide +kernel) fun c hrun hwritten => ⟨hwritten, written_fits hrun⟩

/-- A message is queued, the connection is lost before the message is written, and the next connection has routing
context 5: the message is written on it for routing context 2. -/
theorem written_after_reconnect : ∃ c : Client Sample.Value,
    Runs (fun _ _ => True) 2
      [.pollSend "a" [1], .runTask 0, .readError, .reconnected 5, .command .written] c ∧
    c.written = [⟨1, 5, ⟨0, .task⟩, ⟨100, .appMessage 2 "a" ""⟩⟩] :=
  Run.exists_of_exec (by decide +kernel)

end Tetron.Veilid.Client
