import Tetron.Veilid.Calls

/-!
# The lines of a connection

`serve_one_connection` gives up the read under way whenever it takes a command, and what the read has collected is
lost: the rest of that line is then handled as a line of its own (`line_truncated`). A stream that ends within a line
has the same effect. Apart from that, reading is faithful: if commands are taken between lines and streams end between
lines, then the lines handled on a connection are the lines the daemon sent on it, in order (`handled_lines`).
-/

namespace Tetron.Veilid.Client

open LineReader (lines Aligned)

variable {V : Type}

/-- What `handle_incoming_line` is given for a line, if anything. -/
def lineText (raw : Bytes) : Option String :=
  (fromUtf8 raw).bind fun text => if (trimText text).isEmpty then none else some (trimText text)

/-- The texts of the complete lines of a stream. -/
def textLines (stream : Bytes) : List String := (lines newline stream).filterMap lineText

/-- What the daemon has sent on connection `n`. -/
def sentOn (c : Client V) (n : ℕ) : Bytes := c.sent.flatMap fun x => if x.1 = n then x.2 else []

/-- The lines handled on connection `n`. -/
def handledOn (c : Client V) (n : ℕ) : List String := c.handled.filterMap fun x => if x.1 = n then some x.2 else none

/-- Commands are taken while no line is half read, and the stream ends with a line. -/
def BetweenLines (c : Client V) : Event → Prop
  | .command _ => c.reader.held = []
  | .read => c.ended = true → newline ∉ c.reader.buffered → c.reader.held ++ c.reader.buffered = []
  | _ => True

instance (c : Client V) : ∀ e, Decidable (BetweenLines c e)
  | .command _ => inferInstanceAs (Decidable (c.reader.held = []))
  | .read => inferInstanceAs (Decidable (_ = true → newline ∉ c.reader.buffered → _ = []))
  | .cloneHandle | .dropHandle | .spawnPoll | .pollSend _ _ | .runTask _ | .pollCall | .pollEnds | .allGone | .arrive _
  | .close | .readError | .reconnected _ | .reconnectFails => .isTrue trivial

theorem textLines_prefix_append (stream more : Bytes) : textLines stream <+: textLines (stream ++ more) := by
  obtain ⟨rest, hrest⟩ := LineReader.lines_prefix_append newline stream more
  rw [textLines, textLines, ← hrest, List.filterMap_append]
  exact List.prefix_append _ _

/-- A line more. -/
theorem textLines_of_lines_eq {stream stream' raw : Bytes} (h : lines newline stream' = lines newline stream ++ [raw]) :
    textLines stream' = textLines stream ++ (lineText raw).toList := by
  rw [textLines, textLines, h, List.filterMap_append, List.filterMap_cons, List.filterMap_nil]
  cases lineText raw <;> rfl

/-- The connection that is served: its reader is in the line of the stream, and the lines it has taken are handled. -/
structure Reading (c : Client V) (conn : Conn) : Prop where
  current : conn.number + 1 = c.connections
  aligned : c.reader.Aligned newline
  stream : c.reader.taken ++ c.reader.buffered = sentOn c conn.number
  lines : handledOn c conn.number = textLines c.reader.taken

structure Faithful (c : Client V) : Prop where
  handled_lt : ∀ x ∈ c.handled, x.1 < c.connections
  sent_lt : ∀ x ∈ c.sent, x.1 < c.connections
  reading : ∀ conn, c.actor = .serving conn → Reading c conn
  complete : ∀ n, handledOn c n <+: textLines (sentOn c n)

theorem handleIncomingLine_lines [Wire V] (c : Client V) (conn : Conn) (line : String) :
    (c.handleIncomingLine conn line).handled = c.handled ++ [(conn.number, line)] ∧
      (c.handleIncomingLine conn line).sent = c.sent ∧ (c.handleIncomingLine conn line).reader = c.reader := by
  rw [handleIncomingLine]
  split
  · exact ⟨rfl, rfl, rfl⟩
  · split <;> exact ⟨rfl, rfl, rfl⟩
  · exact ⟨rfl, rfl, rfl⟩

namespace Faithful

variable {c c' : Client V} {conn : Conn}

theorem spawnActor (rcId : UInt32) : Faithful (Client.spawnActor rcId : Client V) where
  handled_lt x h := by cases h
  sent_lt x h := by cases h
  reading conn h := by
    cases h
    exact ⟨rfl, rfl, rfl, rfl⟩
  complete n := List.nil_prefix

/-- Nothing is sent and nothing is handled, and the reader is left alone while its connection is. -/
theorem same (h : Faithful c) (hhandled : c'.handled = c.handled) (hsent : c'.sent = c.sent)
    (hconns : c'.connections = c.connections) (hserved : ∀ conn', c'.actor = .serving conn' →
      c'.reader = c.reader ∧ ∃ conn, c.actor = .serving conn ∧ conn'.number = conn.number) : Faithful c' where
  handled_lt := by
    rw [hhandled, hconns]
    exact h.handled_lt
  sent_lt := by
    rw [hsent, hconns]
    exact h.sent_lt
  reading conn' h' := by
    obtain ⟨hreader, conn, hactor, hnumber⟩ := hserved conn' h'
    obtain ⟨hcurrent, haligned, hstream, hlines⟩ := h.reading conn hactor
    refine ⟨?_, ?_, ?_, ?_⟩
    · rw [hnumber, hconns, hcurrent]
    · rwa [hreader]
    · rw [hreader, hstream, hnumber, sentOn, sentOn, hsent]
    · rw [hreader, ← hlines, hnumber, handledOn, handledOn, hhandled]
  complete n := by
    rw [handledOn, sentOn, hhandled, hsent]
    exact h.complete n

/-- The reader takes more of the stream, and the texts of the lines it completes are handled. -/
theorem take (h : Faithful c) (hactor : c.actor = .serving conn) (haligned : c'.reader.Aligned newline)
    (hstream : c'.reader.taken ++ c'.reader.buffered = c.reader.taken ++ c.reader.buffered) {texts : List String}
    (hlines : textLines c'.reader.taken = textLines c.reader.taken ++ texts)
    (hhandled : c'.handled = c.handled ++ texts.map fun text => (conn.number, text)) (hsent : c'.sent = c.sent)
    (hconns : c'.connections = c.connections)
    (hserved : ∀ conn', c'.actor = .serving conn' → conn'.number = conn.number) : Faithful c' := by
  obtain ⟨hcurrent, -, hstream₀, hlines₀⟩ := h.reading conn hactor
  have hother (n : ℕ) (hn : conn.number ≠ n) : handledOn c' n = handledOn c n := by
    simp [handledOn, hhandled, List.filterMap_append, List.filterMap_map, hn]
  have hhere : handledOn c' conn.number = textLines c'.reader.taken := by
    rw [hlines, ← hlines₀, handledOn, hhandled, List.filterMap_append]
    simp [handledOn, List.filterMap_map]
  have hsentOn (n : ℕ) : sentOn c' n = sentOn c n := by rw [sentOn, sentOn, hsent]
  refine ⟨?_, ?_, ?_, ?_⟩
  · intro x hx
    rw [hhandled, List.mem_append, List.mem_map] at hx
    rw [hconns]
    obtain hx | ⟨text, -, rfl⟩ := hx
    · exact h.handled_lt x hx
    · exact hcurrent ▸ Nat.lt_succ_self _
  · rw [hsent, hconns]
    exact h.sent_lt
  · intro conn' h'
    have hnumber := hserved conn' h'
    refine ⟨by rw [hnumber, hconns, hcurrent], haligned, ?_, by rw [hnumber, hhere]⟩
    rw [hstream, hstream₀, hnumber, hsentOn]
  · intro n
    rw [hsentOn]
    by_cases hn : conn.number = n
    · rw [← hn, hhere, ← hstream₀, ← hstream]
      exact textLines_prefix_append _ _
    · rw [hother n hn]
      exact h.complete n

theorem arrive (h : Faithful c) (hactor : c.actor = .serving conn) (piece : Bytes) :
    Faithful { c with reader := c.reader.arrive piece, sent := c.sent ++ [(conn.number, piece)] } := by
  obtain ⟨hcurrent, haligned, hstream, hlines⟩ := h.reading conn hactor
  set c' : Client V := { c with reader := c.reader.arrive piece, sent := c.sent ++ [(conn.number, piece)] } with hc'
  have hsentOn (n : ℕ) : sentOn c' n = sentOn c n ++ if conn.number = n then piece else [] := by
    simp [sentOn, hc']
  refine ⟨h.handled_lt, ?_, ?_, ?_⟩
  · intro x hx
    obtain hx | hx := List.mem_append.mp hx
    · exact h.sent_lt x hx
    · obtain rfl := List.mem_singleton.mp hx
      exact hcurrent ▸ Nat.lt_succ_self _
  · intro conn' h'
    have hconn : conn = conn' := Actor.serving.inj (hactor.symm.trans h')
    subst hconn
    refine ⟨hcurrent, haligned, ?_, hlines⟩
    rw [hsentOn, if_pos rfl, ← hstream, List.append_assoc]
    rfl
  · intro n
    rw [hsentOn]
    exact (h.complete n).trans (textLines_prefix_append _ _)

theorem reconnect (h : Faithful c) (rcId : UInt32) : Faithful (c.reconnect rcId) where
  handled_lt x hx := Nat.lt_succ_of_lt (h.handled_lt x hx)
  sent_lt x hx := Nat.lt_succ_of_lt (h.sent_lt x hx)
  reading conn h' := by
    cases h'
    -- nothing has happened on the new connection
    have hsent : sentOn (c.reconnect rcId) c.connections = [] := by
      refine List.flatMap_eq_nil_iff.mpr fun x hx => if_neg (Nat.ne_of_lt (h.sent_lt x hx))
    have hhandled : handledOn (c.reconnect rcId) c.connections = [] := by
      refine List.filterMap_eq_nil_iff.mpr fun x hx => if_neg (Nat.ne_of_lt (h.handled_lt x hx))
    exact ⟨rfl, rfl, hsent.symm, hhandled⟩
  complete := h.complete

/-- A line that was handled was sent. -/
theorem mem_textLines (h : Faithful c) {n : ℕ} {line : String} (hline : (n, line) ∈ c.handled) :
    line ∈ textLines (sentOn c n) :=
  (h.complete n).subset (List.mem_filterMap.mpr ⟨_, hline, if_pos rfl⟩)

variable [Wire V]

theorem serveLine (h : Faithful c) (hactor : c.actor = .serving conn) {reader : LineReader UInt8} {raw : Bytes}
    (haligned : reader.Aligned newline)
    (hstream : reader.taken ++ reader.buffered = c.reader.taken ++ c.reader.buffered)
    (hlines : lines newline reader.taken = lines newline c.reader.taken ++ [raw]) :
    Faithful (Client.serveLine { c with reader := reader } conn raw) := by
  have htexts := textLines_of_lines_eq hlines
  have hnumber (conn' : Conn) (h' : c.actor = .serving conn') : conn'.number = conn.number := by
    rw [hactor] at h'
    cases h'
    rfl
  rw [lineText] at htexts
  rw [Client.serveLine]
  split
  · exact h.same rfl rfl rfl fun conn' h' => Actor.noConfusion h'
  · rename_i text hutf8
    rw [hutf8, Option.bind_some] at htexts
    split
    · rename_i hblank
      rw [if_pos hblank] at htexts
      exact h.take hactor haligned hstream htexts (List.append_nil _).symm rfl rfl hnumber
    · rename_i hblank
      rw [if_neg hblank] at htexts
      set c₁ : Client V := { c with reader := reader }
      have hquiet := Quiet.handleIncomingLine (c := c₁) hactor (trimText text)
      obtain ⟨hhandled, hsent, hreader⟩ := handleIncomingLine_lines c₁ conn (trimText text)
      have htexts' : textLines (c₁.handleIncomingLine conn (trimText text)).reader.taken =
          textLines c.reader.taken ++ [trimText text] := by
        rw [hreader]
        exact htexts
      refine h.take hactor (by rw [hreader]; exact haligned) (by rw [hreader]; exact hstream) htexts' hhandled hsent
        hquiet.connections fun conn' h' => ?_
      obtain ⟨conn₁, hactor₁, hnumber₁, -⟩ := hquiet.served conn' h'
      exact hnumber₁.trans (hnumber conn₁ hactor₁)

theorem serveRead (h : Faithful c) (hactor : c.actor = .serving conn) (hbetween : BetweenLines c .read) :
    Faithful (c.serveRead conn) := by
  have haligned := (h.reading conn hactor).aligned
  have hstream := LineReader.poll_taken newline c.reader
  rw [Client.serveRead]
  split
  · rename_i raw reader hpoll
    rw [hpoll] at hstream
    obtain ⟨hlines, haligned'⟩ := haligned.poll_some hpoll
    exact h.serveLine hactor haligned' hstream hlines
  · rename_i reader hpoll
    rw [hpoll] at hstream
    obtain ⟨hlines, haligned'⟩ := haligned.poll_none hpoll
    split
    · rename_i hended
      have hheld : reader.held = [] := by
        obtain ⟨_, _, -, -, hsome⟩ | ⟨hnot, hnone⟩ := c.reader.poll_cases newline
        · rw [hpoll] at hsome
          cases hsome
        · rw [hpoll] at hnone
          cases hnone
          exact hbetween hended hnot
      rw [if_pos hheld]
      exact h.same rfl rfl rfl fun conn' h' => Actor.noConfusion h'
    · have htexts : textLines reader.taken = textLines c.reader.taken ++ [] := by
        rw [textLines, hlines, List.append_nil, textLines]
      refine h.take hactor haligned' hstream htexts (List.append_nil _).symm rfl rfl fun conn' h' => ?_
      cases hactor.symm.trans h'
      rfl

theorem next {e : Event} (h : Faithful c) (hbetween : BetweenLines c e) (hnext : c.next e = some c') : Faithful c' := by
  have hsame (conn : Conn) (hactor : c.actor = .serving conn) :
      c.reader = c.reader ∧ ∃ conn', c.actor = .serving conn' ∧ conn.number = conn'.number :=
    ⟨rfl, conn, hactor, rfl⟩
  cases effect_of_next hnext with
  | cloneHandle | dropHandle | spawnPoll | pollSend | pollEnds | close | reconnectFails =>
    exact h.same rfl rfl rfl hsame
  | runTask hbuilt =>
    rw [call]
    split <;> exact h.same rfl rfl rfl hsame
  | pollCall hpolls =>
    rw [call]
    split <;> exact h.same rfl rfl rfl hsame
  | @command outcome conn cmd rest hactor hqueue =>
    -- the read that is given up has collected nothing
    have hcancel := LineReader.cancel_of_held hbetween
    cases outcome with
    | encodeFailed e =>
      refine h.same rfl rfl rfl fun conn' h' => ?_
      cases h'
      exact ⟨hcancel, conn, hactor, rfl⟩
    | writeFailed e => exact h.same rfl rfl rfl fun conn' h' => Actor.noConfusion h'
    | written =>
      refine h.same rfl rfl rfl fun conn' h' => ?_
      cases h'
      exact ⟨hcancel, conn, hactor, rfl⟩
  | allGone hactor hclosed => exact h.same rfl rfl rfl fun conn' h' => Actor.noConfusion h'
  | arrive hactor hopen => exact h.arrive hactor _
  | read hactor => exact h.serveRead hactor hbetween
  | readError hactor => exact h.same rfl rfl rfl fun conn' h' => Actor.noConfusion h'
  | reconnected hactor => exact h.reconnect _

theorem of_runs {rcId : UInt32} {events : List Event} (h : Runs BetweenLines rcId events c) : Faithful c :=
  h.invariant (I := fun _ c => Faithful c) (.spawnActor rcId)
    fun _ _ _ _ hfaithful hbetween hnext => hfaithful.next hbetween hnext

omit [Wire V] in
/-- What has not been read is no line. -/
theorem handledOn_eq {c : Client V} {conn : Conn} (h : Faithful c) (hactor : c.actor = .serving conn)
    (hnot : newline ∉ c.reader.buffered) : handledOn c conn.number = textLines (sentOn c conn.number) := by
  obtain ⟨-, -, hstream, hlines⟩ := h.reading conn hactor
  rw [hlines, ← hstream, textLines, textLines, LineReader.lines_append_of_notMem _ hnot]

end Faithful

variable [Wire V]

/-- **Lines are handled as they were sent.** In every run in which commands are taken between lines and streams end
between lines, the lines handled on a connection are the first lines the daemon sent on it, each as it was sent and in
order. On the connection that is served they are all of them, up to those that have not been read. -/
theorem handled_lines {rcId : UInt32} {events : List Event} {c : Client V} (hrun : Runs BetweenLines rcId events c) :
    (∀ n, handledOn c n <+: textLines (sentOn c n)) ∧
    ∀ conn, c.actor = .serving conn →
      c.reader.taken ++ c.reader.buffered = sentOn c conn.number ∧
      handledOn c conn.number = textLines c.reader.taken ∧
      (newline ∉ c.reader.buffered → handledOn c conn.number = textLines (sentOn c conn.number)) := by
  have h := Faithful.of_runs hrun
  refine ⟨h.complete, fun conn hactor => ?_⟩
  obtain ⟨-, -, hstream, hlines⟩ := h.reading conn hactor
  exact ⟨hstream, hlines, h.handledOn_eq hactor⟩

/-- A message goes out between two lines, the second of which arrives in two pieces. -/
theorem handled_lines_sample : ∃ c : Client Sample.Value,
    Runs BetweenLines 2 [.arrive [97, 98, 10], .read, .pollSend "a" [1], .runTask 0, .command .written, .arrive [99],
      .read, .arrive [100, 10], .read] c ∧
    handledOn c 0 = ["ab", "cd"] ∧ handledOn c 0 <+: textLines (sentOn c 0) := by
  refine Run.exists_of_exec_imp (fun c => handledOn c 0 = ["ab", "cd"]) (by decide +kernel) fun c hrun hhandled => ?_
  exact ⟨hhandled, (handled_lines hrun).1 0⟩

/-- The line `abc` arrives in two pieces, and a message goes out between them: the line `c` is handled. -/
theorem line_truncated : ∃ c : Client Sample.Value,
    Runs (fun _ _ => True) 2
      [.arrive [97, 98], .read, .pollSend "a" [1], .runTask 0, .command .written, .arrive [99, 10], .read] c ∧
    textLines (sentOn c 0) = ["abc"] ∧ handledOn c 0 = ["c"] :=
  Run.exists_of_exec (by decide +kernel)

end Tetron.Veilid.Client
