import Mathlib.Data.List.Basic
import Mathlib.Data.List.Infix

/-!
# Length-prefixed frames on a stream

A frame is a length of fixed width and a body of that length. A reader sees the stream in pieces, takes the length as
soon as it is there and waits for the body (`Reader.poll`). A length over the limit is refused.

What a reader still has to deliver is a stream again (`Reader.ahead`): the bytes it holds, behind the length it has
already taken. A poll is a function of that stream (`poll_fst`), so how the stream was cut into pieces, and how often
the reader was polled in between, does not show.

A program that takes its frames from elsewhere relies on these facts only. They are the fields of `Codec`, of which
`Format.codec` is an instance.
-/

namespace Frames

variable {β : Type*}

/-- How lengths are written. -/
structure Format (β : Type*) where
  width : ℕ
  limit : ℕ
  encodeLen : ℕ → List β
  decodeLen : List β → ℕ
  length_encodeLen : ∀ n, (encodeLen n).length = width
  decode_encodeLen : ∀ n ≤ limit, decodeLen (encodeLen n) = n
  encode_decodeLen : ∀ l, l.length = width → encodeLen (decodeLen l) = l

inductive Polled (β : Type*) where
  | frame (body : List β)
  | pending
  | oversize
deriving DecidableEq

namespace Format

variable (f : Format β)

def frame (body : List β) : List β := f.encodeLen body.length ++ body

/-- What a stream begins with. -/
def first (stream : List β) : Polled β :=
  if stream.length < f.width then .pending
  else if f.limit < f.decodeLen (stream.take f.width) then .oversize
  else if (stream.drop f.width).length < f.decodeLen (stream.take f.width) then .pending
  else .frame ((stream.drop f.width).take (f.decodeLen (stream.take f.width)))

variable {f} {stream more body : List β}

theorem length_frame (body : List β) : (f.frame body).length = f.width + body.length := by
  rw [frame, List.length_append, f.length_encodeLen]

theorem take_frame_append (body rest : List β) :
    (f.frame body ++ rest).take f.width = f.encodeLen body.length := by
  rw [frame, List.append_assoc, List.take_left' (f.length_encodeLen _)]

theorem drop_frame_append (body rest : List β) : (f.frame body ++ rest).drop f.width = body ++ rest := by
  rw [frame, List.append_assoc, List.drop_left' (f.length_encodeLen _)]

theorem first_frame_append (h : body.length ≤ f.limit) (rest : List β) :
    f.first (f.frame body ++ rest) = .frame body := by
  have hlen : ¬ (f.frame body ++ rest).length < f.width := by
    rw [List.length_append, length_frame]
    omega
  rw [first, if_neg hlen, take_frame_append, f.decode_encodeLen _ h, if_neg (by omega), drop_frame_append,
    if_neg (by simp), List.take_left' rfl]

/-- A stream that begins with a frame is that frame and the rest. -/
theorem eq_frame_append (h : f.first stream = .frame body) :
    body.length ≤ f.limit ∧ stream = f.frame body ++ stream.drop (f.width + body.length) := by
  unfold first at h
  split at h
  · cases h
  rename_i hwidth
  split at h
  · cases h
  rename_i hlimit
  split at h
  · cases h
  rename_i hbody
  have hbody' : (stream.drop f.width).take (f.decodeLen (stream.take f.width)) = body := by
    injection h
  have hlen : body.length = f.decodeLen (stream.take f.width) := by
    rw [← hbody', List.length_take]
    omega
  have hhead : f.encodeLen body.length = stream.take f.width := by
    rw [hlen, f.encode_decodeLen _ (by rw [List.length_take]; omega)]
  refine ⟨by omega, ?_⟩
  calc stream = stream.take f.width ++ stream.drop f.width := (List.take_append_drop _ _).symm
    _ = stream.take f.width ++ (body ++ (stream.drop f.width).drop body.length) := by
        conv_rhs => rw [← hbody', List.length_take_of_le (by omega), List.take_append_drop]
    _ = f.frame body ++ stream.drop (f.width + body.length) := by
        rw [frame, hhead, List.drop_drop, List.append_assoc]

/-- Part of a frame is waited on. -/
theorem first_of_lt (h : body.length ≤ f.limit) (hpart : stream <+: f.frame body)
    (hlt : stream.length < (f.frame body).length) : f.first stream = .pending := by
  obtain ⟨rest, hrest⟩ := hpart
  unfold first
  split
  · rfl
  · rename_i hwidth
    have htake : stream.take f.width = f.encodeLen body.length := by
      rw [← take_frame_append body [], List.append_nil, ← hrest, List.take_append_of_le_length (by omega)]
    rw [htake, f.decode_encodeLen _ h, if_neg (by omega), if_pos]
    rw [length_frame] at hlt
    rw [List.length_drop]
    omega

end Format

/-! ### The reader -/

/-- What a reader expects next. -/
inductive Expecting (f : Format β) where
  | head
  | body (n : ℕ) (fits : n ≤ f.limit)

structure Reader (f : Format β) where
  expecting : Expecting f
  buffered : List β

namespace Reader

variable {f : Format β}

def new (f : Format β) : Reader f := ⟨.head, []⟩

def arrive (r : Reader f) (piece : List β) : Reader f := { r with buffered := r.buffered ++ piece }

def pollBody (n : ℕ) (fits : n ≤ f.limit) (buffered : List β) : Polled β × Reader f :=
  if buffered.length < n then (.pending, ⟨.body n fits, buffered⟩)
  else (.frame (buffered.take n), ⟨.head, buffered.drop n⟩)

def poll (r : Reader f) : Polled β × Reader f :=
  match r.expecting with
  | .head =>
    if r.buffered.length < f.width then (.pending, r)
    else if fits : f.decodeLen (r.buffered.take f.width) ≤ f.limit then
      pollBody (f.decodeLen (r.buffered.take f.width)) fits (r.buffered.drop f.width)
    else (.oversize, r)
  | .body n fits => pollBody n fits r.buffered

/-- The stream from the start of the frame the reader is at. -/
def ahead (r : Reader f) : List β :=
  match r.expecting with
  | .head => r.buffered
  | .body n _ => f.encodeLen n ++ r.buffered

@[simp] theorem ahead_arrive (r : Reader f) (piece : List β) : (r.arrive piece).ahead = r.ahead ++ piece := by
  unfold ahead arrive
  cases r.expecting with
  | head => rfl
  | body n fits => exact (List.append_assoc _ _ _).symm

theorem first_body (n : ℕ) (fits : n ≤ f.limit) (buffered : List β) :
    f.first (f.encodeLen n ++ buffered) = if buffered.length < n then .pending else .frame (buffered.take n) := by
  have hlen : ¬ (f.encodeLen n ++ buffered).length < f.width := by
    rw [List.length_append, f.length_encodeLen]
    omega
  rw [Format.first, if_neg hlen, List.take_left' (f.length_encodeLen n), f.decode_encodeLen n fits,
    if_neg (by omega), List.drop_left' (f.length_encodeLen n)]

theorem pollBody_fst (n : ℕ) (fits : n ≤ f.limit) (buffered : List β) :
    (pollBody n fits buffered).1 = f.first (f.encodeLen n ++ buffered) := by
  rw [first_body n fits, pollBody]
  split <;> rfl

/-- **A poll depends on the stream alone**, not on the pieces it came in. -/
theorem poll_fst (r : Reader f) : r.poll.1 = f.first r.ahead := by
  unfold poll ahead
  cases r.expecting with
  | body n fits => exact pollBody_fst n fits r.buffered
  | head =>
    dsimp only
    split
    · rename_i hshort
      rw [Format.first, if_pos hshort]
    · rename_i hwidth
      split
      · rename_i fits
        rw [pollBody_fst, f.encode_decodeLen _ (by rw [List.length_take]; omega), List.take_append_drop]
      · rename_i hover
        rw [Format.first, if_neg hwidth, if_pos (not_le.mp hover)]

/-- A reader that waits has lost nothing. -/
theorem ahead_of_pending {r : Reader f} (h : r.poll.1 = .pending) : r.poll.2.ahead = r.ahead := by
  unfold poll ahead at *
  cases hexp : r.expecting with
  | body n fits =>
    simp only [hexp, pollBody] at h ⊢
    split at h
    · rename_i hshort
      simp only [hshort, if_true]
    · cases h
  | head =>
    simp only [hexp] at h ⊢
    split at h
    · rename_i hshort
      simp only [hshort, if_true, hexp]
    · rename_i hwidth
      split at h
      · rename_i fits
        simp only [hwidth, if_false, fits, dif_pos, pollBody] at h ⊢
        split at h
        · rename_i hshort
          simp only [hshort, if_true]
          rw [f.encode_decodeLen _ (by rw [List.length_take]; omega), List.take_append_drop]
        · cases h
      · cases h

end Reader

/-! ### What a program relies on -/

/-- A codec for frames: how they are written, and read from a stream that comes in pieces. `first` is what a stream
begins with, and `ahead` the stream from the start of the frame a reader is at. -/
structure Codec (β : Type*) where
  limit : ℕ
  Reader : Type
  new : Reader
  arrive : Reader → List β → Reader
  poll : Reader → Polled β × Reader
  encode : List β → Option (List β)
  first : List β → Polled β
  ahead : Reader → List β
  encode_eq_none_iff : ∀ body, encode body = none ↔ limit < body.length
  first_encode_append : ∀ body bytes rest, encode body = some bytes → first (bytes ++ rest) = .frame body
  exists_of_first : ∀ stream body, first stream = .frame body → ∃ bytes rest, encode body = some bytes ∧
    stream = bytes ++ rest
  first_of_lt : ∀ body bytes part, encode body = some bytes → part <+: bytes → part.length < bytes.length →
    first part = .pending
  ahead_new : ahead new = []
  ahead_arrive : ∀ r piece, ahead (arrive r piece) = ahead r ++ piece
  poll_fst : ∀ r, (poll r).1 = first (ahead r)
  ahead_of_pending : ∀ r, (poll r).1 = .pending → ahead (poll r).2 = ahead r

/-- The codec of a format. -/
def Format.codec {β : Type} (f : Format β) : Codec β where
  limit := f.limit
  Reader := Reader f
  new := Reader.new f
  arrive := Reader.arrive
  poll := Reader.poll
  encode body := if body.length ≤ f.limit then some (f.frame body) else none
  first := f.first
  ahead := Reader.ahead
  encode_eq_none_iff body := by simp
  first_encode_append body bytes rest h := by
    rw [Option.ite_none_right_eq_some, Option.some.injEq] at h
    rw [← h.2, first_frame_append h.1]
  exists_of_first stream body h := by
    obtain ⟨hlen, heq⟩ := eq_frame_append h
    exact ⟨f.frame body, _, if_pos hlen, heq⟩
  first_of_lt body bytes part h hpart hlt := by
    rw [Option.ite_none_right_eq_some, Option.some.injEq] at h
    exact first_of_lt h.1 (h.2.symm ▸ hpart) (h.2.symm ▸ hlt)
  ahead_new := rfl
  ahead_arrive := Reader.ahead_arrive
  poll_fst := Reader.poll_fst
  ahead_of_pending _ := Reader.ahead_of_pending

end Frames
