import MoqTransport.Lib.Decoder

/-!
A decoder that is rerun on a growing buffer. A try that asks for more bytes
parks the reader until so many are there; a try that succeeds leaves the rest
in the buffer for the next one.

If what arrives are wire forms that the decoder `Transfers`, one after the
other, a try gives the next item as soon as all of it is there, and a parked
reader waits for bytes of that item only (`Parked`). So nothing that has
arrived whole is held back, whatever the pieces are (`idle_of_parked`).
-/

namespace Streaming

/-- What is buffered, and the length to wait for. -/
structure Receiver where
  buffer : Bytes
  wait : Option Nat
deriving DecidableEq

namespace Receiver

def new : Receiver := ⟨[], none⟩

def append (r : Receiver) (piece : Bytes) : Receiver :=
  ⟨r.buffer ++ piece, r.wait.filter ((r.buffer ++ piece).length < ·)⟩

/-- What a try comes to. -/
inductive Attempt (ε α : Type) where
  | item (x : α) (rest : Receiver)
  | park (r : Receiver)
  | fault (f : Fault ε)

variable {ε α : Type}

/-- `more?` tells requests for more bytes from other errors. -/
def attempt (more? : ε → Option Nat) (d : Decoder ε α) (r : Receiver) : Attempt ε α :=
  match d r.buffer with
  | .ok (x, rest) => .item x ⟨rest, none⟩
  | .error (.err e) =>
      match more? e with
      | some required => .park { r with wait := some (r.buffer.length + required) }
      | none => .fault (.err e)
  | .error .panic => .fault .panic

variable [AsksMore ε]

/-- A parked reader has tried a front of the buffer, and not all it asked for
is there. -/
def Parked (d : Decoder ε α) (r : Receiver) : Prop :=
  ∀ required ∈ r.wait, r.buffer.length < required ∧ ∃ front k, front <+: r.buffer ∧
    d front = .error (.err (AsksMore.more k)) ∧ required = front.length + k

variable {more? : ε → Option Nat} (hmore : ∀ k, more? (AsksMore.more k) = some k)
variable {d : Decoder ε α} {r : Receiver}

omit [AsksMore ε] in
theorem buffer_append (r : Receiver) (piece : Bytes) :
    (r.append piece).buffer = r.buffer ++ piece := rfl

omit hmore in
theorem parked_of_ready (h : r.wait = none) : Parked d r := by
  intro required hwait
  rw [h] at hwait
  cases hwait

omit hmore in
theorem Parked.append (h : Parked d r) (piece : Bytes) : Parked d (r.append piece) := by
  intro required hwait
  obtain ⟨hwait, hlt⟩ := Option.mem_filter_iff.mp hwait
  obtain ⟨-, front, k, hfront, hd, hrequired⟩ := h required hwait
  exact ⟨of_decide_eq_true hlt, front, k, hfront.trans (List.prefix_append _ _), hd, hrequired⟩

variable {x : α} {bs rest : Bytes}

include hmore in
/-- A try on the bytes of an item gives the item if all of it is there, and
parks the reader if not. -/
theorem attempt_cases (h : Transfers d bs x) (hbuffer : r.buffer <+: bs ++ rest) :
    (∃ rest', r.buffer = bs ++ rest' ∧ r.attempt more? d = .item x ⟨rest', none⟩) ∨
    ∃ required, r.attempt more? d = .park { r with wait := some required } ∧
      Parked d { r with wait := some required } := by
  have hitem (rest' : Bytes) (hall : r.buffer = bs ++ rest') :
      r.attempt more? d = .item x ⟨rest', none⟩ := by
    simp only [attempt, hall, h.reads rest']
  rcases List.prefix_or_prefix_of_prefix hbuffer (List.prefix_append bs rest) with
    ⟨back, hback⟩ | ⟨rest', hrest'⟩
  · by_cases hnone : back = []
    · rw [hnone, List.append_nil] at hback
      have hall : r.buffer = bs ++ [] := by rw [List.append_nil, hback]
      exact .inl ⟨[], hall, hitem [] hall⟩
    · obtain ⟨k, hpos, -, hasks⟩ := h.asks r.buffer back hback hnone
      refine .inr ⟨r.buffer.length + k, ?_, ?_⟩
      · simp only [attempt, hasks, hmore]
      · rintro required ⟨⟩
        exact ⟨Nat.lt_add_of_pos_right hpos, r.buffer, k, List.prefix_refl _, hasks, rfl⟩
  · exact .inl ⟨rest', hrest'.symm, hitem rest' hrest'.symm⟩

include hmore in
/-- A reader that is parked on the bytes of an item has not got all of it. -/
theorem idle_of_parked (h : Transfers d bs x) (hparked : Parked d r) {required : Nat}
    (hwait : r.wait = some required) (hbuffer : r.buffer <+: bs ++ rest) :
    r.buffer.length < bs.length := by
  obtain ⟨hlt, front, k, hfront, hd, rfl⟩ := hparked required hwait
  -- What was tried is a part of the item only, and no more was asked for.
  rcases List.prefix_or_prefix_of_prefix (hfront.trans hbuffer) (List.prefix_append bs rest) with
    ⟨back, hback⟩ | ⟨rest', hrest'⟩
  · have hne : back ≠ [] := by
      rintro rfl
      have hread := h.reads []
      rw [← hback, List.append_nil, List.append_nil, hd] at hread
      cases hread
    obtain ⟨k', -, hle, hasks⟩ := h.asks front back hback hne
    rw [hasks] at hd
    have hsame := congrArg more? (Fault.err.inj (Except.error.inj hd))
    rw [hmore, hmore] at hsame
    have hk := Option.some.inj hsame
    have hlength := congrArg List.length hback
    rw [List.length_append] at hlength
    omega
  · rw [← hrest', h.reads rest'] at hd
    cases hd

/-! A stream of items, of which `tail` has not been read yet. -/

variable {β : Type} {wire : β → Bytes} {value : β → α} {xs : List β} {tail back : Bytes}

include hmore in
theorem attempt_stream (h : ∀ y ∈ xs, Transfers d (wire y) (value y)) {k : Nat} (hk : 0 < k)
    (hnil : d [] = .error (.err (AsksMore.more k))) (hback : xs = [] → back = [])
    (hall : r.buffer ++ tail = xs.flatMap wire ++ back) :
    (∃ y more rest, xs = y :: more ∧ r.attempt more? d = .item (value y) ⟨rest, none⟩ ∧
      rest ++ tail = more.flatMap wire ++ back) ∨
    ∃ required, r.attempt more? d = .park { r with wait := some required } ∧
      Parked d { r with wait := some required } := by
  cases xs with
  | nil =>
      rw [hback rfl] at hall
      obtain ⟨hbuffer, -⟩ := List.append_eq_nil_iff.mp hall
      refine .inr ⟨k, ?_, ?_⟩
      · simp [attempt, hbuffer, hnil, hmore]
      · rintro required ⟨⟩
        refine ⟨by rw [hbuffer]; exact hk, [], k, List.nil_prefix, hnil, ?_⟩
        rw [List.length_nil, Nat.zero_add]
  | cons y more =>
      have hy := h y (List.mem_cons_self ..)
      rw [List.flatMap_cons, List.append_assoc] at hall
      have hbuffer : r.buffer <+: wire y ++ (more.flatMap wire ++ back) :=
        hall ▸ List.prefix_append _ _
      rcases attempt_cases hmore hy hbuffer with ⟨rest, hrest, hitem⟩ | hpark
      · refine .inl ⟨y, more, rest, rfl, hitem, ?_⟩
        rw [hrest, List.append_assoc] at hall
        exact List.append_cancel_left hall
      · exact .inr hpark

include hmore in
/-- When all has been read and the reader waits, it has given all items. -/
theorem stream_of_parked (h : ∀ y ∈ xs, Transfers d (wire y) (value y)) (hparked : Parked d r)
    {required : Nat} (hwait : r.wait = some required) (hall : r.buffer = xs.flatMap wire) :
    xs = [] := by
  cases xs with
  | nil => rfl
  | cons y more =>
      rw [List.flatMap_cons] at hall
      have hbuffer : r.buffer <+: wire y ++ more.flatMap wire := ⟨[], by rw [List.append_nil, hall]⟩
      have hlt := idle_of_parked hmore (h y (List.mem_cons_self ..)) hparked hwait hbuffer
      rw [hall, List.length_append] at hlt
      omega

end Receiver

end Streaming
