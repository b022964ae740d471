import MoqTransport.Lib.Machine

/-!
One writer and any number of readers of a shared value. A reader may be cloned
at any time and then runs by itself; when the last one goes away the value is
dropped, and no reader comes back. What holds of the readers is proved for as
long as there is one.
-/

namespace Fanout

open Machine

variable {S W R A E : Type}

/-- The handle of a writer that may close the value before it goes away:
`closed` is the error it did that with. -/
inductive Writer (E W : Type) where
  | active (w : W)
  | leaving (closed : Option E)
  | gone (closed : Option E)
deriving DecidableEq

def Writer.closed {W : Type} : Writer E W → Option E
  | .active _ => none
  | .leaving closed => closed
  | .gone closed => closed

/-- The handle is consumed by `close`, whether that succeeds or not. -/
def Writer.close (err : E) (shared : S) : Except E S → Writer E W × S
  | .ok shared => (.leaving (some err), shared)
  | .error _ => (.leaving none, shared)

/-- What the writer and the readers do with the value. -/
structure Ops (S W R A : Type) where
  act : A → W → S → Option (W × S)
  look : S → R → R
  fork : R → R
  drop : S → S

/-- A reader keeps its place in the list; `none` is one that is gone. -/
structure State (S W R : Type) where
  shared : S
  writer : W
  readers : List (Option R)
deriving DecidableEq

inductive Act (A : Type) where
  | write (act : A)
  | read (i : Nat)
  | clone (i : Nat)
  | quit (i : Nat)
deriving DecidableEq

def State.reader (st : State S W R) (i : Nat) : Option R := st.readers[i]?.join

def step (ops : Ops S W R A) (st : State S W R) : Act A → Option (State S W R)
  | .write a => do
      let (writer, shared) ← ops.act a st.writer st.shared
      pure { st with shared, writer }
  | .read i => do
      let r ← st.reader i
      pure { st with readers := st.readers.set i (some (ops.look st.shared r)) }
  | .clone i => do
      let r ← st.reader i
      pure { st with readers := st.readers ++ [some (ops.fork r)] }
  | .quit i => do
      let _ ← st.reader i
      let readers := st.readers.set i none
      pure { st with
        shared := if readers.any Option.isSome then st.shared else ops.drop st.shared
        readers := readers }

theorem reader_eq_some_iff {st : State S W R} {i : Nat} {r : R} :
    st.reader i = some r ↔ st.readers[i]? = some (some r) := by
  simp [State.reader, Option.join_eq_some_iff]

/-- With a reader left, going away changes nothing but the list. -/
theorem any_isSome {st : State S W R} {i : Nat} {r : R} (hr : st.reader i = some r) :
    st.readers.any Option.isSome = true := by
  rw [List.any_eq_true]
  exact ⟨some r, List.mem_of_getElem? (reader_eq_some_iff.mp hr), rfl⟩

variable {ops : Ops S W R A} {st st' : State S W R}

theorem step_write {a : A} (h : step ops st (.write a) = some st') :
    ops.act a st.writer st.shared = some (st'.writer, st'.shared) ∧
      st'.readers = st.readers := by
  obtain ⟨⟨writer, shared⟩, hact, h⟩ := Option.bind_eq_some_iff.mp h
  obtain rfl := Option.some.inj h
  exact ⟨hact, rfl⟩

theorem step_read {i : Nat} (h : step ops st (.read i) = some st') :
    ∃ r, st.reader i = some r ∧
      st' = { st with readers := st.readers.set i (some (ops.look st.shared r)) } := by
  obtain ⟨r, hr, h⟩ := Option.bind_eq_some_iff.mp h
  exact ⟨r, hr, (Option.some.inj h).symm⟩

theorem step_clone {i : Nat} (h : step ops st (.clone i) = some st') :
    ∃ r, st.reader i = some r ∧
      st' = { st with readers := st.readers ++ [some (ops.fork r)] } := by
  obtain ⟨r, hr, h⟩ := Option.bind_eq_some_iff.mp h
  exact ⟨r, hr, (Option.some.inj h).symm⟩

/-- A reader that goes away and is not the last. -/
theorem step_quit {i j : Nat} {r : R} (h : step ops st (.quit i) = some st')
    (hr : st'.reader j = some r) : st' = { st with readers := st.readers.set i none } := by
  obtain ⟨old, -, h⟩ := Option.bind_eq_some_iff.mp h
  obtain rfl := Option.some.inj h
  have hleft : (st.readers.set i none).any Option.isSome = true := any_isSome hr
  simp only [hleft, if_true]

/-- Where a reader that is there after a step comes from. -/
theorem reader_step {act : Act A} (h : step ops st act = some st') {j : Nat} {r' : R}
    (hr' : st'.reader j = some r') :
    (∃ a, ops.act a st.writer st.shared = some (st'.writer, st'.shared) ∧
      st.reader j = some r') ∨
    st'.shared = st.shared ∧ st'.writer = st.writer ∧ ∃ i r, st.reader i = some r ∧
      (r' = r ∨ r' = ops.look st.shared r ∨ r' = ops.fork r) := by
  cases act with
  | write a =>
      obtain ⟨hact, hreaders⟩ := step_write h
      have hr : st.reader j = some r' := by rw [← hr', State.reader, State.reader, hreaders]
      exact .inl ⟨a, hact, hr⟩
  | read i =>
      obtain ⟨r, hr, rfl⟩ := step_read h
      rw [reader_eq_some_iff, getElem?_set_iff (reader_eq_some_iff.mp hr)] at hr'
      rcases hr' with ⟨rfl, hlook⟩ | ⟨-, hsame⟩
      · exact .inr ⟨rfl, rfl, i, r, hr, .inr (.inl (Option.some.inj hlook).symm)⟩
      · exact .inr ⟨rfl, rfl, j, r', reader_eq_some_iff.mpr hsame, .inl rfl⟩
  | clone i =>
      obtain ⟨r, hr, rfl⟩ := step_clone h
      rw [reader_eq_some_iff, getElem?_concat_iff] at hr'
      rcases hr' with hsame | ⟨-, hfork⟩
      · exact .inr ⟨rfl, rfl, j, r', reader_eq_some_iff.mpr hsame, .inl rfl⟩
      · exact .inr ⟨rfl, rfl, i, r, hr, .inr (.inr (Option.some.inj hfork).symm)⟩
  | quit i =>
      obtain ⟨old, hold, -⟩ := Option.bind_eq_some_iff.mp h
      obtain rfl := step_quit h hr'
      rw [reader_eq_some_iff, getElem?_set_iff (reader_eq_some_iff.mp hold)] at hr'
      rcases hr' with ⟨-, hgone⟩ | ⟨-, hsame⟩
      · cases hgone
      · exact .inr ⟨rfl, rfl, j, r', reader_eq_some_iff.mpr hsame, .inl rfl⟩

/-- What the writer keeps true of the value, and of the value and each
reader. -/
structure Keeps (ops : Ops S W R A) (Inv : S → W → Prop) (Rel : S → R → Prop) : Prop where
  act : ∀ {a w s w' s'}, Inv s w → ops.act a w s = some (w', s') → Inv s' w'
  rel : ∀ {a w s w' s' r}, Inv s w → ops.act a w s = some (w', s') → Rel s r → Rel s' r
  look : ∀ {s w r}, Inv s w → Rel s r → Rel s (ops.look s r)
  fork : ∀ {s w r}, Inv s w → Rel s r → Rel s (ops.fork r)

/-- A step keeps it of the readers that are there. -/
theorem Keeps.step {Inv : S → W → Prop} {Rel : S → R → Prop} (hkeeps : Keeps ops Inv Rel)
    {act : Act A} (hs : ∀ i r, st.reader i = some r → Inv st.shared st.writer ∧ Rel st.shared r)
    (h : step ops st act = some st') {i : Nat} {r : R} (hr : st'.reader i = some r) :
    Inv st'.shared st'.writer ∧ Rel st'.shared r := by
  rcases reader_step h hr with ⟨a, hact, hold⟩ | ⟨hshared, hwriter, j, old, hold, hcase⟩
  · obtain ⟨hinv, hrel⟩ := hs i r hold
    exact ⟨hkeeps.act hinv hact, hkeeps.rel hinv hact hrel⟩
  · obtain ⟨hinv, hrel⟩ := hs j old hold
    rw [hshared, hwriter]
    rcases hcase with rfl | rfl | rfl
    · exact ⟨hinv, hrel⟩
    · exact ⟨hinv, hkeeps.look hinv hrel⟩
    · exact ⟨hinv, hkeeps.fork hinv hrel⟩

/-- It holds for as long as there is a reader, when it holds of the first ones. -/
theorem Keeps.reachable {Inv : S → W → Prop} {Rel : S → R → Prop} (hkeeps : Keeps ops Inv Rel)
    {allowed : State S W R → Act A → Prop} {first : State S W R}
    (hfirst : ∀ i r, first.reader i = some r → Inv first.shared first.writer ∧ Rel first.shared r)
    (hs : Reachable (Fanout.step ops) allowed first st) {i : Nat} {r : R}
    (hr : st.reader i = some r) : Inv st.shared st.writer ∧ Rel st.shared r := by
  induction hs generalizing i r with
  | init => exact hfirst i r hr
  | step _ _ hstep ih => exact hkeeps.step (fun i r hr => ih hr) hstep hr

theorem reader_start {s : S} {w : W} {first r : R} {i : Nat}
    (hr : State.reader ⟨s, w, [some first]⟩ i = some r) : r = first := by
  have hmem := List.mem_of_getElem? (reader_eq_some_iff.mp hr)
  exact Option.some.inj (List.mem_singleton.mp hmem)

theorem Keeps.invariant {Inv : S → W → Prop} {Rel : S → R → Prop} (hkeeps : Keeps ops Inv Rel)
    {allowed : State S W R → Act A → Prop} {s : S} {w : W} {first : R} (hinv : Inv s w)
    (hrel : Rel s first) (hs : Reachable (Fanout.step ops) allowed ⟨s, w, [some first]⟩ st)
    {i : Nat} {r : R} (hr : st.reader i = some r) : Inv st.shared st.writer ∧ Rel st.shared r := by
  apply hkeeps.reachable _ hs hr
  intro i r hr
  obtain rfl := reader_start hr
  exact ⟨hinv, hrel⟩

/-! What one reader gets does not depend on the others. -/

/-- A step of the writer, or of the reader itself. -/
def Act.concerns (i : Nat) : Act A → Bool
  | .write _ => true
  | .read j => j == i
  | _ => false

/-- Two states that the reader cannot tell apart. -/
structure Alike (i : Nat) (st tw : State S W R) : Prop where
  shared : tw.shared = st.shared
  writer : tw.writer = st.writer
  reader : tw.reader i = st.reader i

theorem length_step {act : Act A} (h : step ops st act = some st') :
    st.readers.length ≤ st'.readers.length := by
  cases act with
  | write a => exact (congrArg List.length (step_write h).2).ge
  | read i =>
      obtain ⟨r, -, rfl⟩ := step_read h
      simp
  | clone i =>
      obtain ⟨r, -, rfl⟩ := step_clone h
      simp
  | quit i =>
      obtain ⟨r, -, h⟩ := Option.bind_eq_some_iff.mp h
      obtain rfl := Option.some.inj h
      simp

/-- A step of another reader changes nothing for this one, as long as it is
there. -/
theorem alike_other {act : Act A} (h : step ops st act = some st') {i : Nat} {r' : R}
    (hi : i < st.readers.length) (hr' : st'.reader i = some r')
    (hother : act.concerns i = false) : Alike i st' st := by
  cases act with
  | write a => cases hother
  | read j =>
      obtain ⟨r, -, rfl⟩ := step_read h
      have hne : j ≠ i := by simpa [Act.concerns] using hother
      exact ⟨rfl, rfl, by simp [State.reader, hne]⟩
  | clone j =>
      obtain ⟨r, -, rfl⟩ := step_clone h
      exact ⟨rfl, rfl, by simp [State.reader, List.getElem?_append_left hi]⟩
  | quit j =>
      obtain rfl := step_quit h hr'
      have hne : j ≠ i := by
        rintro rfl
        simp [State.reader, hi] at hr'
      exact ⟨rfl, rfl, by simp [State.reader, hne]⟩

/-- The writer and the reader itself do the same in both states. -/
theorem alike_step {act : Act A} (h : step ops st act = some st') {i : Nat}
    (hown : act.concerns i = true) {tw : State S W R} (halike : Alike i st tw) :
    ∃ tw', step ops tw act = some tw' ∧ Alike i st' tw' := by
  obtain ⟨hshared, hwriter, hreader⟩ := halike
  cases act with
  | write a =>
      obtain ⟨hact, hreaders⟩ := step_write h
      refine ⟨⟨st'.shared, st'.writer, tw.readers⟩, ?_, rfl, rfl, ?_⟩
      · simp only [step, hshared, hwriter, hact]
        rfl
      · rw [State.reader, State.reader, hreaders]
        exact hreader
  | read j =>
      obtain rfl : j = i := by simpa [Act.concerns] using hown
      obtain ⟨r, hr, rfl⟩ := step_read h
      have hr' : tw.reader j = some r := hreader.trans hr
      have hlt := (List.getElem?_eq_some_iff.mp (reader_eq_some_iff.mp hr)).1
      have hlt' := (List.getElem?_eq_some_iff.mp (reader_eq_some_iff.mp hr')).1
      refine ⟨{ tw with readers := tw.readers.set j (some (ops.look tw.shared r)) }, ?_,
        hshared, hwriter, ?_⟩
      · simp only [step, hr']
        rfl
      · simp [State.reader, hlt, hlt', hshared]
  | clone j => cases hown
  | quit j => cases hown

/-- A reader that is gone does not come back. -/
theorem reader_of_step {act : Act A} (h : step ops st act = some st') {i : Nat} {r' : R}
    (hi : i < st.readers.length) (hr' : st'.reader i = some r') :
    ∃ r, st.reader i = some r ∧ (r' = r ∨ r' = ops.look st.shared r) := by
  cases hown : act.concerns i with
  | false => exact ⟨r', (alike_other h hi hr' hown).reader.trans hr', .inl rfl⟩
  | true =>
      cases act with
      | write a =>
          rw [State.reader, (step_write h).2] at hr'
          exact ⟨r', hr', .inl rfl⟩
      | read j =>
          obtain rfl : j = i := by simpa [Act.concerns] using hown
          obtain ⟨r, hr, rfl⟩ := step_read h
          refine ⟨r, hr, .inr ?_⟩
          simpa [State.reader, hi] using hr'.symm
      | clone j => cases hown
      | quit j => cases hown

/-- What looking does not change is the same in a reader that is there from
the start, whatever becomes of its clones. -/
theorem reader_of_reachable {P : R → Prop} (hlook : ∀ s r, P r → P (ops.look s r))
    {allowed : State S W R → Act A → Prop} {first : State S W R}
    (hfirst : ∀ i r, first.reader i = some r → P r)
    (hs : Reachable (step ops) allowed first st) {i : Nat} (hi : i < first.readers.length) {r : R}
    (hr : st.reader i = some r) : P r := by
  have hall : first.readers.length ≤ st.readers.length ∧ ∀ r, st.reader i = some r → P r := by
    clear hr
    induction hs with
    | init => exact ⟨Nat.le_refl _, hfirst i⟩
    | step _ _ hstep ih =>
        obtain ⟨hlength, hkept⟩ := ih
        refine ⟨hlength.trans (length_step hstep), ?_⟩
        intro r' hr'
        obtain ⟨r, hr, rfl | rfl⟩ := reader_of_step hstep (hi.trans_le hlength) hr'
        · exact hkept r' hr
        · exact hlook _ r (hkept r hr)
  exact hall.2 r hr

theorem reader_of_run {as : List (Act A)} {allowed : State S W R → Act A → Prop}
    (hrun : Run (step ops) allowed st as st') {i : Nat} {r' : R} (hi : i < st.readers.length)
    (hr' : st'.reader i = some r') : ∃ r, st.reader i = some r := by
  induction hrun with
  | nil => exact ⟨r', hr'⟩
  | cons _ hstep _ ih =>
      obtain ⟨mid, hmid⟩ := ih (hi.trans_le (length_step hstep)) hr'
      obtain ⟨r, hr, -⟩ := reader_of_step hstep hi hmid
      exact ⟨r, hr⟩

/-- Without the steps of the other readers, a run brings the writer and the
reader to the same. -/
theorem alone_of_run {as : List (Act A)} {tw : State S W R}
    (hrun : Run (step ops) (fun _ _ => True) st as st') {i : Nat} {r' : R}
    (hi : i < st.readers.length) (hr' : st'.reader i = some r') (halike : Alike i st tw) :
    ∃ alone, Run (step ops) (fun _ _ => True) tw (as.filter (Act.concerns i)) alone ∧
      Alike i st' alone := by
  induction hrun generalizing tw with
  | nil => exact ⟨tw, .nil, halike⟩
  | @cons s mid last act as _ hstep hrest ih =>
      have hmid := hi.trans_le (length_step hstep)
      obtain ⟨r, hr⟩ := reader_of_run hrest hmid hr'
      cases hown : act.concerns i with
      | true =>
          obtain ⟨next, hnext, halike⟩ := alike_step hstep hown halike
          obtain ⟨alone, hrun, hend⟩ := ih hmid hr' halike
          rw [List.filter_cons_of_pos hown]
          exact ⟨alone, .cons trivial hnext hrun, hend⟩
      | false =>
          have hother := alike_other hstep hi hr hown
          rw [List.filter_cons_of_neg (by simp [hown])]
          apply ih hmid hr'
          exact ⟨halike.shared.trans hother.shared, halike.writer.trans hother.writer,
            halike.reader.trans hother.reader⟩

/-- A reader of a log that grows at its end, with what it has received since
it was cloned. -/
structure Cursor (T : Type) where
  start : Nat
  index : Nat
  received : List T
deriving DecidableEq

namespace Cursor

variable {T : Type}

def new : Cursor T := ⟨0, 0, []⟩

def clone (c : Cursor T) : Cursor T := ⟨c.index, c.index, []⟩

def read (log : List T) (c : Cursor T) : Cursor T :=
  match log[c.index]? with
  | some x => { c with index := c.index + 1, received := c.received ++ [x] }
  | none => c

/-- The reader has received the log from its start up to its index. -/
structure At (log : List T) (c : Cursor T) : Prop where
  start_le : c.start ≤ c.index
  index_le : c.index ≤ log.length
  received : c.received = (log.take c.index).drop c.start

variable {log log' : List T} {c : Cursor T}

theorem at_new : At log new := ⟨Nat.le_refl _, Nat.zero_le _, rfl⟩

theorem At.mono (h : At log c) (hgrow : log <+: log') : At log' c where
  start_le := h.start_le
  index_le := h.index_le.trans hgrow.length_le
  received := by
    obtain ⟨more, rfl⟩ := hgrow
    rw [List.take_append_of_le_length h.index_le]
    exact h.received

theorem At.clone (h : At log c) : At log c.clone where
  start_le := Nat.le_refl _
  index_le := h.index_le
  received := (List.drop_of_length_le (List.length_take_le c.index log)).symm

theorem At.read (h : At log c) : At log (c.read log) := by
  unfold Cursor.read
  cases hx : log[c.index]? with
  | none => exact h
  | some x =>
      obtain ⟨hlt, -⟩ := List.getElem?_eq_some_iff.mp hx
      constructor
      · exact Nat.le_succ_of_le h.start_le
      · exact hlt
      · rw [List.take_add_one, hx, Option.toList_some,
          List.drop_append_of_le_length (by simpa [h.index_le] using h.start_le), ← h.received]

/-- At the end of the log the reader has received all of it from its start. -/
theorem At.received_eq (h : At log c) (hend : log[c.index]? = none) :
    c.received = log.drop c.start := by
  rw [h.received, List.take_of_length_le (List.getElem?_eq_none_iff.mp hend)]

end Cursor

end Fanout
