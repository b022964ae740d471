import MoqTransport.Error

/-!
The buffered reader of a transport stream. The transport hands the stream out
in pieces; `decode` runs the decoder of a message on what is buffered and, as
long as that asks for more bytes, appends pieces and starts over.

A decoder with the `Transfers` contract gives the same value and leaves the
same bytes for every cutting of the stream (`decode_transfers`).
-/

namespace MoqTransport.Session

open Streaming Coding

/-- What one read of a transport stream returns: at least one byte. -/
abbrev Piece := {bs : Bytes // bs ≠ []}

def joined (pieces : List Piece) : Bytes := pieces.flatMap Subtype.val

/-- The receiving half of a stream: the pieces it hands out one by one, and
whether it ends with a transport error instead of a clean finish. -/
structure RecvStream where
  pieces : List Piece
  failure : Option String
deriving DecidableEq

/-- A stream that hands out everything at once. -/
def wholeStream (bs : Bytes) : RecvStream :=
  ⟨if h : bs ≠ [] then [⟨bs, h⟩] else [], none⟩

theorem joined_wholeStream (bs : Bytes) : joined (wholeStream bs).pieces = bs := by
  unfold wholeStream joined
  split
  · simp
  · next h => simpa using h

structure Reader where
  stream : RecvStream
  buffer : Bytes
deriving DecidableEq

/-- An operation of the reader, which may stop the caller. -/
abbrev ReadM (α : Type) := StateT Reader (Except (Fault SessionError)) α

namespace Reader

def new (stream : RecvStream) : Reader := ⟨stream, []⟩

/-- The bytes still to come: those buffered, then those not yet handed out. -/
def pending (r : Reader) : Bytes := r.buffer ++ joined r.stream.pieces

/-- One attempt at the buffer: `wait` continues with the length to wait for
when the decoder asks for more. -/
def attempt {α : Type} (d : Decode α) (stream : RecvStream) (buffer : Bytes)
    (wait : Nat → Except (Fault SessionError) (α × Reader)) :
    Except (Fault SessionError) (α × Reader) :=
  match d buffer with
  | .ok (msg, rest) => .ok (msg, ⟨stream, rest⟩)
  | .error (.err (.more required)) => wait (buffer.length + required)
  | .error (.err e) => .error (.err (.decode e))
  | .error .panic => .error .panic

/-- Read in more data until `required` bytes are buffered, then try again.
At least one piece is read. -/
def readMore {α : Type} (d : Decode α) (failure : Option String) :
    List Piece → Bytes → Nat → Except (Fault SessionError) (α × Reader)
  | [], buffer, required =>
      match failure with
      | some message => .error (.err (.transport message))
      | none => .error (.err (.decode (.more (required - buffer.length))))
  | piece :: pieces, buffer, required =>
      if required ≤ (buffer ++ piece.val).length then
        attempt d ⟨pieces, failure⟩ (buffer ++ piece.val)
          (readMore d failure pieces (buffer ++ piece.val))
      else
        readMore d failure pieces (buffer ++ piece.val) required

def decode {α : Type} (d : Decode α) : ReadM α := fun r =>
  attempt d r.stream r.buffer (readMore d r.stream.failure r.stream.pieces r.buffer)

/-- `readMore` with the subtraction of the source, which panics on underflow. -/
def readMoreChecked {α : Type} (d : Decode α) (failure : Option String) :
    List Piece → Bytes → Nat → Except (Fault SessionError) (α × Reader)
  | [], buffer, required =>
      match failure with
      | some message => .error (.err (.transport message))
      | none =>
          if buffer.length ≤ required then
            .error (.err (.decode (.more (required - buffer.length))))
          else
            .error .panic
  | piece :: pieces, buffer, required =>
      if required ≤ (buffer ++ piece.val).length then
        attempt d ⟨pieces, failure⟩ (buffer ++ piece.val)
          (readMoreChecked d failure pieces (buffer ++ piece.val))
      else
        readMoreChecked d failure pieces (buffer ++ piece.val) required

def decodeChecked {α : Type} (d : Decode α) : ReadM α := fun r =>
  attempt d r.stream r.buffer (readMoreChecked d r.stream.failure r.stream.pieces r.buffer)

/-- Some bytes, at most `max` of them, or `none` at the end of the stream. -/
def readChunk (max : Nat) : ReadM (Option Bytes) := fun r =>
  if r.buffer ≠ [] then
    .ok (some (r.buffer.take max), { r with buffer := r.buffer.drop max })
  else
    match r.stream.pieces with
    | [] =>
        match r.stream.failure with
        | some message => .error (.err (.transport message))
        | none => .ok (none, r)
    | piece :: pieces =>
        if h : piece.val.drop max ≠ [] then
          .ok (some (piece.val.take max),
            { r with stream := { r.stream with pieces := ⟨piece.val.drop max, h⟩ :: pieces } })
        else
          .ok (some piece.val, { r with stream := { r.stream with pieces := pieces } })

/-- Whether the stream has ended; looking reads a piece into an empty
buffer. -/
def done : ReadM Bool := fun r =>
  if r.buffer ≠ [] then
    .ok (false, r)
  else
    match r.stream.pieces with
    | [] =>
        match r.stream.failure with
        | some message => .error (.err (.transport message))
        | none => .ok (true, r)
    | piece :: pieces => .ok (false, ⟨{ r.stream with pieces := pieces }, r.buffer ++ piece.val⟩)

/-- The receive loop of a control stream, for `n` messages. -/
def decodeMany {α : Type} (d : Decode α) : Nat → ReadM (List α)
  | 0 => pure []
  | n + 1 => do
      let msg ← decode d
      let msgs ← decodeMany d n
      pure (msg :: msgs)

/-- An attempt waits for no less than it has. -/
theorem attempt_congr {α : Type} (d : Decode α) (stream : RecvStream) {buffer : Bytes}
    {wait wait' : Nat → Except (Fault SessionError) (α × Reader)}
    (h : ∀ required, buffer.length ≤ required → wait required = wait' required) :
    attempt d stream buffer wait = attempt d stream buffer wait' := by
  unfold attempt
  split
  · rfl
  · exact h _ (Nat.le_add_right _ _)
  · rfl
  · rfl

theorem readMoreChecked_eq {α : Type} (d : Decode α) (failure : Option String)
    (pieces : List Piece) {buffer : Bytes} {required : Nat} (h : buffer.length ≤ required) :
    readMoreChecked d failure pieces buffer required =
      readMore d failure pieces buffer required := by
  induction pieces generalizing buffer required with
  | nil => simp only [readMoreChecked, readMore, if_pos h]
  | cons piece pieces ih =>
      unfold readMoreChecked readMore
      split
      · apply attempt_congr
        intro required hle
        exact ih hle
      · next hshort => exact ih (by omega)

/-- The length that is still missing never underflows. -/
theorem decodeChecked_eq {α : Type} (d : Decode α) (r : Reader) :
    decodeChecked d r = decode d r := by
  apply attempt_congr
  intro required hle
  exact readMoreChecked_eq d r.stream.failure r.stream.pieces hle

theorem pending_done {r r' : Reader} {b : Bool} (h : done r = .ok (b, r')) :
    r'.pending = r.pending := by
  obtain ⟨⟨pieces, failure⟩, buffer⟩ := r
  unfold done at h
  split at h
  · cases h
    rfl
  · cases pieces with
    | nil =>
        cases failure with
        | none =>
            cases h
            rfl
        | some message => cases h
    | cons piece pieces =>
        cases h
        simp [pending, joined]

/-- A chunk is a non-empty part of the stream, no longer than asked for. -/
theorem readChunk_eq_ok {r r' : Reader} {max : Nat} {data : Bytes} (hmax : 0 < max)
    (h : readChunk max r = .ok (some data, r')) :
    r.pending = data ++ r'.pending ∧ data ≠ [] ∧ data.length ≤ max ∧
      r'.stream.failure = r.stream.failure := by
  have htake {bs : Bytes} (hbs : bs ≠ []) : bs.take max ≠ [] := by
    intro hnil
    rcases List.take_eq_nil_iff.mp hnil with hzero | hempty
    · omega
    · exact hbs hempty
  obtain ⟨⟨pieces, failure⟩, buffer⟩ := r
  unfold readChunk at h
  split at h
  · next hbuffer =>
      cases h
      refine ⟨?_, htake hbuffer, by simp, rfl⟩
      simp only [pending]
      rw [← List.append_assoc, List.take_append_drop]
  · next hbuffer =>
      obtain rfl := not_not.mp hbuffer
      cases pieces with
      | nil => cases failure <;> cases h
      | cons piece pieces =>
          dsimp only at h
          split at h
          · cases h
            refine ⟨?_, htake piece.property, by simp, rfl⟩
            simp only [pending, joined, List.nil_append, List.flatMap_cons]
            rw [← List.append_assoc, List.take_append_drop]
          · next hrest =>
              cases h
              have hdrop := not_not.mp hrest
              have hlen := congrArg List.length hdrop
              rw [List.length_drop, List.length_nil] at hlen
              exact ⟨by simp [pending, joined], piece.property, by omega, rfl⟩

theorem readChunk_of_pending {r : Reader} (max : Nat) (h : r.pending ≠ []) :
    ∃ data r', readChunk max r = .ok (some data, r') := by
  obtain ⟨⟨pieces, failure⟩, buffer⟩ := r
  unfold readChunk
  split
  · exact ⟨_, _, rfl⟩
  · next hbuffer =>
      obtain rfl := not_not.mp hbuffer
      cases pieces with
      | nil => exact absurd rfl h
      | cons piece pieces =>
          dsimp only
          split
          · exact ⟨_, _, rfl⟩
          · exact ⟨_, _, rfl⟩

/-- A chunk of a payload that is still to come. -/
theorem readChunk_payload {r : Reader} {payload rest : Bytes} (hpayload : payload ≠ [])
    (hpending : r.pending = payload ++ rest) :
    ∃ data tail mid, readChunk payload.length r = .ok (some data, mid) ∧ payload = data ++ tail ∧
      data ≠ [] ∧ mid.pending = tail ++ rest ∧ mid.stream.failure = r.stream.failure := by
  obtain ⟨data, mid, hchunk⟩ := readChunk_of_pending payload.length (r := r)
    (by simp [hpending, hpayload])
  obtain ⟨hsplit, hdata, hle, hfailure⟩ := readChunk_eq_ok (List.length_pos_iff.mpr hpayload) hchunk
  have hsame : payload ++ rest = data ++ mid.pending := hpending.symm.trans hsplit
  have hdata' : data = payload.take data.length := by
    have htake := congrArg (List.take data.length) hsame
    rw [List.take_append_of_le_length hle, List.take_left] at htake
    exact htake.symm
  refine ⟨data, payload.drop data.length, mid, hchunk, ?_, hdata, ?_, hfailure⟩
  · nth_rewrite 1 [hdata']
    rw [List.take_append_drop]
  · have hdrop := congrArg (List.drop data.length) hsame
    rw [List.drop_append_of_le_length hle, List.drop_left] at hdrop
    exact hdrop.symm

theorem done_of_pending {r : Reader} (h : r.pending ≠ []) :
    ∃ r', done r = .ok (false, r') ∧ r'.pending = r.pending ∧
      r'.stream.failure = r.stream.failure := by
  obtain ⟨⟨pieces, failure⟩, buffer⟩ := r
  unfold done
  split
  · exact ⟨_, rfl, rfl, rfl⟩
  · next hbuffer =>
      obtain rfl := not_not.mp hbuffer
      cases pieces with
      | nil => exact absurd rfl h
      | cons piece pieces => exact ⟨_, rfl, by simp [pending, joined], rfl⟩

/-- How a loop that reads to the end of a stream ends. -/
def finish (failure : Option String) : Except (Fault SessionError) Unit :=
  match failure with
  | some message => .error (.err (.transport message))
  | none => .ok ()

theorem done_of_empty {r : Reader} (h : r.pending = []) :
    done r = (finish r.stream.failure).map fun _ => (true, r) := by
  obtain ⟨⟨pieces, failure⟩, buffer⟩ := r
  obtain ⟨rfl, hpieces⟩ := List.append_eq_nil_iff.mp h
  cases pieces with
  | nil => cases failure <;> rfl
  | cons piece pieces =>
      rw [joined, List.flatMap_cons, List.append_eq_nil_iff] at hpieces
      exact absurd hpieces.1 piece.property

theorem pending_attempt {α : Type} {d : Decode α} {k : Nat} (hd : Shrinks d k)
    (stream : RecvStream) {buffer : Bytes} {x : α} {r : Reader}
    {wait : Nat → Except (Fault SessionError) (α × Reader)}
    (hwait : ∀ required, wait required = .ok (x, r) →
      r.pending.length + k ≤ (buffer ++ joined stream.pieces).length)
    (h : attempt d stream buffer wait = .ok (x, r)) :
    r.pending.length + k ≤ (buffer ++ joined stream.pieces).length := by
  unfold attempt at h
  split at h
  · next msg rest hrun =>
      cases h
      have hshrink := hd _ _ _ hrun
      simp only [pending, List.length_append]
      omega
  · exact hwait _ h
  · cases h
  · cases h

/-- Reading a message uses up the bytes its decoder used. -/
theorem pending_decode {α : Type} {d : Decode α} {k : Nat} (hd : Shrinks d k) {r r' : Reader}
    {x : α} (h : decode d r = .ok (x, r')) : r'.pending.length + k ≤ r.pending.length := by
  refine pending_attempt hd r.stream ?_ h
  intro required hmore
  revert hmore
  generalize r.buffer = buffer
  induction r.stream.pieces generalizing buffer required with
  | nil =>
      intro hmore
      unfold readMore at hmore
      split at hmore <;> cases hmore
  | cons piece pieces ih =>
      intro hmore
      have hjoined : buffer ++ joined (piece :: pieces) =
          (buffer ++ piece.val) ++ joined pieces := by
        rw [joined, joined, List.flatMap_cons, List.append_assoc]
      rw [hjoined]
      unfold readMore at hmore
      split at hmore
      · exact pending_attempt hd ⟨pieces, r.stream.failure⟩
          (fun required hnext => ih required _ hnext) hmore
      · exact ih _ _ hmore

section Reassembly

variable {α : Type} {d : Decode α} {bs rest : Bytes} {x : α}

/-- A reader that returned `x` and has only `rest` left to hand out. -/
def Delivers (result : Except (Fault SessionError) (α × Reader)) (x : α) (rest : Bytes)
    (failure : Option String) : Prop :=
  ∃ r, result = .ok (x, r) ∧ r.pending = rest ∧ r.stream.failure = failure

/-- One attempt either has all of `bs` or is told to wait for a length that
the rest of `bs` reaches. -/
theorem attempt_transfers (h : Transfers d bs x) (stream : RecvStream) {buffer : Bytes}
    (hbytes : buffer ++ joined stream.pieces = bs ++ rest)
    {wait : Nat → Except (Fault SessionError) (α × Reader)}
    (hwait : ∀ required, buffer.length < required → required ≤ bs.length →
      Delivers (wait required) x rest stream.failure) :
    Delivers (attempt d stream buffer wait) x rest stream.failure := by
  rcases List.append_eq_append_iff.mp hbytes with ⟨back, hbs, hrest⟩ | ⟨extra, hbuffer, hrest⟩
  · by_cases hback : back = []
    · subst hback
      rw [List.append_nil] at hbs
      have hread := h.reads []
      rw [List.append_nil, hbs] at hread
      refine ⟨⟨stream, []⟩, ?_, ?_, rfl⟩
      · unfold attempt
        rw [hread]
      · simpa [pending] using hrest
    · obtain ⟨n, hpos, hle, hmore⟩ := h.asks buffer back hbs.symm hback
      have hattempt : attempt d stream buffer wait = wait (buffer.length + n) := by
        unfold attempt
        rw [hmore]
        rfl
      rw [hattempt]
      refine hwait _ (by omega) ?_
      rw [hbs, List.length_append]
      omega
  · refine ⟨⟨stream, extra⟩, ?_, hrest.symm, rfl⟩
    unfold attempt
    rw [hbuffer, h.reads extra]

theorem readMore_transfers (h : Transfers d bs x) (failure : Option String) (pieces : List Piece)
    {buffer : Bytes} {required : Nat} (hbytes : buffer ++ joined pieces = bs ++ rest)
    (hshort : buffer.length < required) (hle : required ≤ bs.length) :
    Delivers (readMore d failure pieces buffer required) x rest failure := by
  induction pieces generalizing buffer required with
  | nil =>
      have hlen := congrArg List.length hbytes
      simp only [joined, List.flatMap_nil, List.append_nil, List.length_append] at hlen
      omega
  | cons piece pieces ih =>
      have hnext : (buffer ++ piece.val) ++ joined pieces = bs ++ rest := by
        rw [← hbytes, joined, joined, List.flatMap_cons, List.append_assoc]
      unfold readMore
      split
      · exact attempt_transfers h ⟨pieces, failure⟩ hnext
          (fun _ hmore hfits => ih hnext hmore hfits)
      · next hwaiting => exact ih hnext (by omega) hle

/-- A decoder that is safe on a growing buffer returns the same value and
leaves the same bytes, however the stream is cut. -/
theorem decode_transfers (h : Transfers d bs x) {r : Reader} (hbytes : r.pending = bs ++ rest) :
    Delivers (decode d r) x rest r.stream.failure :=
  attempt_transfers h r.stream hbytes
    (fun _ hmore hfits => readMore_transfers h _ _ hbytes hmore hfits)

/-- Where the reader returns a value, the decoder returned it on some buffer. -/
theorem attempt_eq_ok {stream : RecvStream} {buffer : Bytes} {r : Reader}
    {wait : Nat → Except (Fault SessionError) (α × Reader)}
    (hwait : ∀ required, wait required = .ok (x, r) → ∃ buf rest, d buf = .ok (x, rest))
    (h : attempt d stream buffer wait = .ok (x, r)) : ∃ buf rest, d buf = .ok (x, rest) := by
  unfold attempt at h
  split at h
  · next msg rest hd =>
      cases h
      exact ⟨buffer, rest, hd⟩
  · exact hwait _ h
  · cases h
  · cases h

theorem decode_eq_ok {r r' : Reader} (h : decode d r = .ok (x, r')) :
    ∃ buf rest, d buf = .ok (x, rest) := by
  refine attempt_eq_ok ?_ h
  intro required hmore
  revert hmore
  generalize r.buffer = buffer
  induction r.stream.pieces generalizing buffer required with
  | nil =>
      intro hmore
      unfold readMore at hmore
      split at hmore <;> cases hmore
  | cons piece pieces ih =>
      intro hmore
      unfold readMore at hmore
      split at hmore
      · exact attempt_eq_ok (fun required hnext => ih required _ hnext) hmore
      · exact ih _ _ hmore

theorem decodeMany_transfers {xs : List α} {wires : List Bytes}
    (h : List.Forall₂ (fun x bs => Transfers d bs x) xs wires) {r : Reader}
    (hbytes : r.pending = wires.flatten ++ rest) :
    Delivers (decodeMany d xs.length r) xs rest r.stream.failure := by
  induction h generalizing r with
  | nil => exact ⟨r, rfl, by simpa using hbytes, rfl⟩
  | @cons x bs xs wires hx _ ih =>
      rw [List.flatten_cons, List.append_assoc] at hbytes
      obtain ⟨mid, hmid, hpending, hfailure⟩ := decode_transfers hx hbytes
      obtain ⟨last, hlast, hrest, hsame⟩ := ih hpending
      refine ⟨last, ?_, hrest, hsame.trans hfailure⟩
      rw [List.length_cons, decodeMany, bind_ok hmid, bind_ok hlast]
      rfl

theorem mem_decodeMany {n : Nat} {r r' : Reader} {xs : List α}
    (h : decodeMany d n r = .ok (xs, r')) : ∀ x ∈ xs, ∃ buf rest, d buf = .ok (x, rest) := by
  induction n generalizing r xs with
  | zero =>
      cases h
      simp
  | succ n ih =>
      obtain ⟨head, mid, hhead, h⟩ := bind_eq_ok h
      obtain ⟨tail, last, htail, h⟩ := bind_eq_ok h
      cases h
      intro x hx
      rcases List.mem_cons.mp hx with rfl | hx
      · exact decode_eq_ok hhead
      · exact ih htail x hx

end Reassembly

end Reader

/-- Lists that belong together, entry by entry. -/
theorem exists_of_forall₂ {α β : Type} {R : α → β → Prop} {xs : List α} {ys : List β}
    (h : List.Forall₂ R xs ys) {x : α} (hx : x ∈ xs) : ∃ y ∈ ys, R x y := by
  induction h with
  | nil => cases hx
  | cons hfirst _ ih =>
      rcases List.mem_cons.mp hx with rfl | hx
      · exact ⟨_, by simp, hfirst⟩
      · obtain ⟨y, hy, hrel⟩ := ih hx
        exact ⟨y, by simp [hy], hrel⟩

end MoqTransport.Session
