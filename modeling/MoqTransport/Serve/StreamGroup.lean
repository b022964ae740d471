import MoqTransport.Lib.Fanout
import MoqTransport.Serve.Track

/-!
One group of a track in stream mode with its writer and all its readers. A
reader moves its index before it takes the object there, so it passes over the
first object and panics behind the last one: what it gets is what was written
exactly if it is never asked for anything while the group has an object
(`StreamGroupReader.faithful_iff`).
-/

namespace MoqTransport.Serve

open Machine Streaming

inductive StreamGroupAct where
  | create (size : Nat)
  | write (payload : Bytes)
  | close (err : ServeError)
  | drop
deriving DecidableEq

/-- The writer of a group, until it is closed and dropped. -/
abbrev StreamGroupHandle := Fanout.Writer ServeError StreamGroupWriter

/-- A reader of a group. A clone starts with what the reader it is made from
has. -/
structure StreamGroupReader where
  index : Nat
  /-- The objects received, by their position in the group. -/
  received : List Nat
  /-- The end it has seen, which is the error of the writer if there is
  one. -/
  ended : Option (Option ServeError)
  panicked : Bool
deriving DecidableEq

abbrev StreamGroupReaders := Fanout.State StreamGroupCell StreamGroupHandle StreamGroupReader

namespace StreamGroupWriter

/-- Add a new object to the group. The object's own writer goes away at the
end. -/
def write (w : StreamGroupWriter) (cell : StreamGroupCell) (payload : Bytes) :
    Except ServeError Unit × StreamGroupCell :=
  match w.create cell payload.length with
  | .error err => (.error err, cell)
  | .ok (handle, cell) =>
      let setObject (object : SubgroupObjectCell) (remain : Nat) : StreamGroupCell :=
        { cell with
          state := cell.state.update (·.setObject handle (StreamObject.dropWriter remain object)) }
      let object := cell.state.value.object handle
      match handle.write object payload with
      | (handle, .error err) => (.error err, setObject object handle.remain)
      | (handle, .ok object) => (.ok (), setObject object handle.remain)

def close (cell : StreamGroupCell) (err : ServeError) : Except ServeError StreamGroupCell := do
  let closed ← Watch.closeWith .cancel cell.state.value.closed cell.state.dropped err
  pure { cell with state := cell.state.update fun s => { s with closed := closed } }

end StreamGroupWriter

namespace StreamGroupCell

def objects (cell : StreamGroupCell) : List SubgroupObjectCell := cell.state.value.objects

/-- The group with one more object. -/
def push (cell : StreamGroupCell) (object : SubgroupObjectCell) : StreamGroupCell :=
  { cell with state := cell.state.update fun s => { s with objects := s.objects ++ [object] } }

@[simp]
theorem objects_push (cell : StreamGroupCell) (object : SubgroupObjectCell) :
    (cell.push object).objects = cell.objects ++ [object] := rfl

end StreamGroupCell

namespace StreamGroupWriter

/-- The object gets the id that the writer started with. -/
theorem create_live (w : StreamGroupWriter) {cell : StreamGroupCell}
    (hlive : cell.state.dropped = false) (size : Nat) :
    w.create cell size =
      .ok (⟨cell.objects.length, ⟨w.next, size, .object⟩, size⟩,
        cell.push (SubgroupObject.produce ⟨w.next, size, .object⟩)) := by
  simp [create, hlive, StreamGroupCell.push, StreamGroupCell.objects]

theorem write_live (w : StreamGroupWriter) {cell : StreamGroupCell}
    (hlive : cell.state.dropped = false) (payload : Bytes) :
    w.write cell payload = (.ok (), cell.push (.written w.next payload)) := by
  simp [write, w.create_live hlive, StreamGroupCell.push, StreamGroupCell.objects,
    SubgroupObjectWriter.write, SubgroupObject.produce, Watch.State.new, Watch.State.update,
    Watch.State.drop, SubgroupObjectCell.push, StreamObject.dropWriter,
    SubgroupObjectCell.written]

end StreamGroupWriter

namespace StreamGroupCell

def drop (cell : StreamGroupCell) : StreamGroupCell := { cell with state := cell.state.drop }

def act (a : StreamGroupAct) (handle : StreamGroupHandle) (cell : StreamGroupCell) :
    Option (StreamGroupHandle × StreamGroupCell) :=
  match a, handle with
  | .create size, .active w =>
      some (.active w, ((w.create cell size).toOption.map Prod.snd).getD cell)
  | .write payload, .active w => some (.active w, (w.write cell payload).2)
  | .close err, .active _ => some (Fanout.Writer.close err cell (StreamGroupWriter.close cell err))
  | .drop, .active _ => some (.gone none, cell.drop)
  | .drop, .leaving closed => some (.gone closed, cell.drop)
  | _, _ => none

end StreamGroupCell

namespace StreamGroupReader

def new : StreamGroupReader := ⟨0, [], none, false⟩

/-- `StreamGroupReader::next` with its effect on the reader. -/
def poll (cell : StreamGroupCell) (r : StreamGroupReader) :
    Watch.Poll (Except (Fault ServeError) (Option SubgroupObjectCell)) × StreamGroupReader :=
  let result := cell.next r.index
  match result with
  | .pending => (result, r)
  | .ready (.ok (some _)) =>
      (result, { r with index := r.index + 1, received := r.received ++ [r.index + 1] })
  | .ready (.ok none) => (result, { r with ended := some none })
  | .ready (.error (.err err)) => (result, { r with ended := some (some err) })
  | .ready (.error .panic) => (result, { r with index := r.index + 1, panicked := true })

end StreamGroupReader

namespace StreamGroupCell

def ops : Fanout.Ops StreamGroupCell StreamGroupHandle StreamGroupReader StreamGroupAct where
  act := act
  look cell r := (StreamGroupReader.poll cell r).2
  fork := id
  drop := drop

/-- A group as `StreamWriter::create` makes it. -/
def start (groupId : Nat) : StreamGroupReaders :=
  ⟨⟨groupId, .new ⟨[], none⟩⟩, .active ⟨0, groupId, 0⟩, [some .new]⟩

/-- A reader that panics does so with the lock held. -/
def poisoned (st : StreamGroupReaders) : Bool :=
  st.readers.any fun r => r.any (·.panicked)

/-- Nothing locks the state of the group any more once it is poisoned. -/
def step (st : StreamGroupReaders) (act : Fanout.Act StreamGroupAct) : Option StreamGroupReaders :=
  if poisoned st then none else Fanout.step ops st act

/-- Nothing is added to the group any more, and its readers see the end. -/
def Over (cell : StreamGroupCell) : Prop :=
  cell.state.value.closed.isSome ∨ cell.state.dropped = true

/-- As long as there is a reader, an active writer has an open group. -/
def Sound (cell : StreamGroupCell) (handle : StreamGroupHandle) : Prop :=
  ∀ w, handle = .active w → cell.state.value.closed = none ∧ cell.state.dropped = false

/-- What a step of the writer comes to. -/
inductive Acts (handle : StreamGroupHandle) (cell : StreamGroupCell) :
    StreamGroupHandle → StreamGroupCell → Prop where
  | push {w : StreamGroupWriter} {object : SubgroupObjectCell} (hactive : handle = .active w) :
      Acts handle cell handle (cell.push object)
  | close (err : ServeError) :
      Acts handle cell (.leaving (some err))
        { cell with state := cell.state.update fun s => { s with closed := some err } }
  | drop : Acts handle cell (.gone handle.closed) cell.drop

variable {handle handle' : StreamGroupHandle} {cell cell' : StreamGroupCell}

theorem acts_of_act {a : StreamGroupAct} (hs : cell.Sound handle)
    (h : act a handle cell = some (handle', cell')) : Acts handle cell handle' cell' := by
  unfold act at h
  split at h
  · next size w =>
      obtain ⟨-, hlive⟩ := hs w rfl
      rw [w.create_live hlive] at h
      obtain ⟨rfl, rfl⟩ := Prod.mk.inj (Option.some.inj h)
      exact .push rfl
  · next payload w =>
      obtain ⟨-, hlive⟩ := hs w rfl
      rw [w.write_live hlive] at h
      obtain ⟨rfl, rfl⟩ := Prod.mk.inj (Option.some.inj h)
      exact .push rfl
  · next err w =>
      obtain ⟨hopen, hlive⟩ := hs w rfl
      rw [StreamGroupWriter.close, hlive, hopen] at h
      obtain ⟨rfl, rfl⟩ := Prod.mk.inj (Option.some.inj h)
      exact .close err
  · obtain ⟨rfl, rfl⟩ := Prod.mk.inj (Option.some.inj h)
    exact .drop
  · obtain ⟨rfl, rfl⟩ := Prod.mk.inj (Option.some.inj h)
    exact .drop
  · cases h

theorem Acts.sound (h : Acts handle cell handle' cell') (hs : cell.Sound handle) :
    cell'.Sound handle' := by
  cases h with
  | push => exact hs
  | close err =>
      rintro w ⟨⟩
  | drop =>
      rintro w ⟨⟩

theorem Acts.past (h : Acts handle cell handle' cell') (hover : cell.Over) : cell'.Over := by
  cases h with
  | push => exact hover
  | close err => exact .inl rfl
  | drop => exact .inr rfl

/-- Only a group that is not over grows. -/
theorem Acts.objects_eq (h : Acts handle cell handle' cell') (hs : cell.Sound handle)
    (hover : cell.Over) : cell'.objects = cell.objects := by
  cases h with
  | @push w object hactive =>
      obtain ⟨hopen, hlive⟩ := hs w hactive
      rcases hover with hclosed | hdropped
      · simp [hopen] at hclosed
      · simp [hlive] at hdropped
  | close err => rfl
  | drop => rfl

end StreamGroupCell

namespace StreamGroupReader

/-- What holds of a reader in every run. -/
structure Tracked (cell : StreamGroupCell) (r : StreamGroupReader) : Prop where
  counted : r.panicked = false → r.index = r.received.length
  skipped : ∀ k ∈ r.received, 0 < k
  past : r.ended.isSome → cell.Over

/-- The reader has received the objects in the order they were created,
starting with the first, and all of them before it saw the end. -/
structure Faithful (cell : StreamGroupCell) (r : StreamGroupReader) : Prop where
  safe : r.panicked = false
  inOrder : r.received = List.range r.received.length
  whole : r.ended.isSome → r.received = List.range cell.objects.length

variable {cell : StreamGroupCell} {r : StreamGroupReader}

/-- A reader never receives the first object, so it has received nothing if
it has missed nothing. -/
theorem Faithful.received_eq_nil (h : r.Faithful cell) (htracked : r.Tracked cell) :
    r.received = [] := by
  cases hlength : r.received.length with
  | zero => exact List.length_eq_zero_iff.mp hlength
  | succ n =>
      have hmem : 0 ∈ r.received := by
        rw [h.inOrder, hlength]
        simp
      exact absurd (htracked.skipped 0 hmem) (Nat.lt_irrefl 0)

/-- What `next` does to the reader: with objects left it moves on or panics,
else it may see the end. -/
theorem poll_cases (cell : StreamGroupCell) (r : StreamGroupReader) :
    (r.index < cell.objects.length ∧
      ((poll cell r).2 =
          { r with index := r.index + 1, received := r.received ++ [r.index + 1] } ∨
        (poll cell r).2 = { r with index := r.index + 1, panicked := true })) ∨
    (cell.objects.length ≤ r.index ∧
      ((poll cell r).2 = r ∨ cell.Over ∧ ∃ seen, (poll cell r).2 = { r with ended := seen })) := by
  by_cases hlt : r.index < cell.objects.length
  · refine .inl ⟨hlt, ?_⟩
    have hlt' : r.index < cell.state.value.objects.length := hlt
    cases hobject : cell.state.value.objects[r.index + 1]? with
    | some object =>
        have hnext : cell.next r.index = .ready (.ok (some object)) := by
          rw [StreamGroupCell.next, if_pos hlt', hobject]
        simp [poll, hnext]
    | none =>
        have hnext : cell.next r.index = .ready (.error .panic) := by
          rw [StreamGroupCell.next, if_pos hlt', hobject]
        simp [poll, hnext]
  · refine .inr ⟨Nat.le_of_not_lt hlt, ?_⟩
    have hnext : cell.next r.index =
        orPanic (Watch.exhausted cell.state.value.closed cell.state.dropped) := by
      rw [StreamGroupCell.next, if_neg (show ¬r.index < cell.state.value.objects.length from hlt)]
    cases hclosed : cell.state.value.closed with
    | some err =>
        refine .inr ⟨.inl (by simp [hclosed]), some (some err), ?_⟩
        simp [poll, hnext, hclosed, Watch.exhausted, orPanic]
    | none =>
        cases hdropped : cell.state.dropped with
        | true =>
            refine .inr ⟨.inr hdropped, some none, ?_⟩
            simp [poll, hnext, hclosed, hdropped, Watch.exhausted, orPanic]
        | false =>
            refine .inl ?_
            simp [poll, hnext, hclosed, hdropped, Watch.exhausted, orPanic]

theorem Tracked.poll (h : r.Tracked cell) : (poll cell r).2.Tracked cell := by
  rcases poll_cases cell r with ⟨-, hmoves | hpanics⟩ | ⟨-, hsame | ⟨hover, seen, hends⟩⟩
  · rw [hmoves]
    constructor
    · intro hsafe
      simp [h.counted hsafe]
    · exact forall_mem_concat h.skipped (Nat.succ_pos _)
    · exact h.past
  · rw [hpanics]
    exact ⟨fun hsafe => Bool.noConfusion hsafe, h.skipped, h.past⟩
  · rw [hsame]
    exact h
  · rw [hends]
    exact ⟨h.counted, h.skipped, fun _ => hover⟩

/-- Asked with an object in the group, a reader misses it; asked before there
is one, it waits or sees the end. -/
theorem Faithful.poll_iff (h : r.Faithful cell) (htracked : r.Tracked cell) :
    (poll cell r).2.Faithful cell ↔ cell.objects = [] := by
  have hnone := h.received_eq_nil htracked
  have hindex : r.index = 0 := by rw [htracked.counted h.safe, hnone, List.length_nil]
  rcases poll_cases cell r with ⟨hlt, hcase⟩ | ⟨hle, hcase⟩
  · rw [hindex] at hlt
    have hsome : cell.objects ≠ [] := List.ne_nil_of_length_pos hlt
    refine iff_of_false ?_ hsome
    intro hfaithful
    rcases hcase with hmoves | hpanics
    · rw [hmoves] at hfaithful
      have hreceived := hfaithful.inOrder
      simp [hnone, hindex] at hreceived
    · rw [hpanics] at hfaithful
      cases hfaithful.safe
  · rw [hindex, Nat.le_zero] at hle
    refine iff_of_true ?_ (List.length_eq_zero_iff.mp hle)
    rcases hcase with hsame | ⟨-, seen, hends⟩
    · rw [hsame]
      exact h
    · rw [hends]
      refine ⟨h.safe, h.inOrder, fun _ => ?_⟩
      simp [hnone, hle]

end StreamGroupReader

namespace StreamGroupCell

theorem keeps : Fanout.Keeps ops Sound fun cell r => r.Tracked cell where
  act := fun hs h => (acts_of_act hs h).sound hs
  rel := by
    intro a handle cell handle' cell' r hs h hr
    exact ⟨hr.counted, hr.skipped, fun hended => (acts_of_act hs h).past (hr.past hended)⟩
  look := fun _ hr => hr.poll
  fork := fun _ hr => hr

/-- The steps of a group are those of a writer with its readers. -/
theorem fanout_step {st st' : StreamGroupReaders} {act : Fanout.Act StreamGroupAct}
    (h : step st act = some st') : Fanout.step ops st act = some st' := by
  unfold step at h
  split at h
  · cases h
  · exact h

/-- What holds in every run for as long as there is a reader. -/
def Inv (st : StreamGroupReaders) : Prop :=
  ∀ i r, st.reader i = some r → st.shared.Sound st.writer ∧ r.Tracked st.shared

/-- Every reader has been given what it should. -/
def Reads (st : StreamGroupReaders) : Prop :=
  ∀ i r, st.reader i = some r → r.Faithful st.shared

/-- No reader is asked for an object once the group has one. -/
def Unread (st : StreamGroupReaders) (act : Fanout.Act StreamGroupAct) : Prop :=
  ∀ i, act = .read i → st.shared.objects = []

theorem inv_start (groupId : Nat) : Inv (start groupId) := by
  intro i r hr
  obtain rfl := Fanout.reader_start hr
  refine ⟨?_, fun _ => rfl, ?_, ?_⟩
  · rintro w -
    exact ⟨rfl, rfl⟩
  · intro k hk
    cases hk
  · intro hended
    cases hended

theorem reads_start (groupId : Nat) : Reads (start groupId) := by
  intro i r hr
  obtain rfl := Fanout.reader_start hr
  exact ⟨rfl, rfl, fun _ => rfl⟩

variable {st st' : StreamGroupReaders} {act : Fanout.Act StreamGroupAct}

theorem inv_step (hinv : Inv st) (h : step st act = some st') : Inv st' :=
  fun _ _ hr => keeps.step hinv (fanout_step h) hr

theorem inv_of_run {acts : List (Fanout.Act StreamGroupAct)}
    (hrun : Run step (fun _ _ => True) st acts st') (hinv : Inv st) : Inv st' := by
  induction hrun with
  | nil => exact hinv
  | cons _ hstep _ ih => exact ih (inv_step hinv hstep)

theorem reads_step (hinv : Inv st) (hreads : Reads st) (h : step st act = some st') :
    Reads st' ↔ Unread st act := by
  replace h := fanout_step h
  constructor
  · rintro hreads' i rfl
    obtain ⟨r, hr, rfl⟩ := Fanout.step_read h
    obtain ⟨hlt, -⟩ := List.getElem?_eq_some_iff.mp (Fanout.reader_eq_some_iff.mp hr)
    have hpolled := hreads' i (StreamGroupReader.poll st.shared r).2
      (Fanout.reader_eq_some_iff.mpr (List.getElem?_set_self hlt))
    exact ((hreads i r hr).poll_iff (hinv i r hr).2).mp hpolled
  · intro hunread j r' hr'
    cases act with
    | write a =>
        obtain ⟨hact, hreaders⟩ := Fanout.step_write h
        have hr : st.reader j = some r' := by
          rw [Fanout.State.reader, hreaders] at hr'
          exact hr'
        obtain ⟨hsound, htracked⟩ := hinv j r' hr
        obtain ⟨hsafe, hinOrder, hwhole⟩ := hreads j r' hr
        refine ⟨hsafe, hinOrder, fun hended => ?_⟩
        rw [(acts_of_act hsound hact).objects_eq hsound (htracked.past hended)]
        exact hwhole hended
    | read i =>
        obtain ⟨r, hr, rfl⟩ := Fanout.step_read h
        rw [Fanout.reader_eq_some_iff, getElem?_set_iff (Fanout.reader_eq_some_iff.mp hr)] at hr'
        rcases hr' with ⟨rfl, hlook⟩ | ⟨-, hsame⟩
        · obtain rfl := Option.some.inj hlook
          exact ((hreads i r hr).poll_iff (hinv i r hr).2).mpr (hunread i rfl)
        · exact hreads j r' (Fanout.reader_eq_some_iff.mpr hsame)
    | clone i =>
        obtain ⟨r, hr, rfl⟩ := Fanout.step_clone h
        rw [Fanout.reader_eq_some_iff, getElem?_concat_iff] at hr'
        rcases hr' with hsame | ⟨-, hfork⟩
        · exact hreads j r' (Fanout.reader_eq_some_iff.mpr hsame)
        · obtain rfl := Option.some.inj hfork
          exact hreads i r hr
    | quit i =>
        obtain ⟨old, hold, -⟩ := Option.bind_eq_some_iff.mp h
        obtain rfl := Fanout.step_quit h hr'
        rw [Fanout.reader_eq_some_iff,
          getElem?_set_iff (Fanout.reader_eq_some_iff.mp hold)] at hr'
        rcases hr' with ⟨-, hgone⟩ | ⟨-, hsame⟩
        · cases hgone
        · exact hreads j r' (Fanout.reader_eq_some_iff.mpr hsame)

end StreamGroupCell

namespace StreamGroupReader

open StreamGroupCell

/-- All along a run no reader panics, and each receives the objects in their
order and before the end, exactly if none is asked for an object once there
is one: the first `next` that finds an object already misses it. -/
theorem faithful_iff (groupId : Nat) {acts : List (Fanout.Act StreamGroupAct)}
    {st : StreamGroupReaders} (hrun : Run step (fun _ _ => True) (start groupId) acts st) :
    (∀ bs mid, bs <+: acts → Run step (fun _ _ => True) (start groupId) bs mid →
      ∀ i r, mid.reader i = some r → r.Faithful mid.shared) ↔
      Run step Unread (start groupId) acts st := by
  rw [← Run.always_iff (P := fun st => Inv st ∧ Reads st) ?_ hrun
    ⟨inv_start groupId, reads_start groupId⟩]
  · constructor
    · intro hreads bs mid hbs hmid
      exact ⟨inv_of_run hmid (inv_start groupId), hreads bs mid hbs hmid⟩
    · intro hboth bs mid hbs hmid
      exact (hboth bs mid hbs hmid).2
  · rintro s s' a ⟨hinv, hreads⟩ hstep
    have hinv' := inv_step hinv hstep
    constructor
    · rintro ⟨-, hreads'⟩
      exact (reads_step hinv hreads hstep).mp hreads'
    · intro hunread
      exact ⟨hinv', (reads_step hinv hreads hstep).mpr hunread⟩

/-- A reader that waits for a group without objects, and a clone of it. -/
theorem faithful_iff_waiting :
    ∃ st, Run step (fun _ _ => True) (start 5)
        [.read 0, .clone 0, .write (.create 3), .write .drop] st ∧
      ∀ bs mid, bs <+: [.read 0, .clone 0, .write (.create 3), .write .drop] →
        Run step (fun _ _ => True) (start 5) bs mid →
          ∀ i r, mid.reader i = some r → r.Faithful mid.shared := by
  have hs : run step (fun _ _ => true) (start 5)
      [.read 0, .clone 0, .write (.create 3), .write .drop] =
        some ⟨⟨5, ⟨⟨[⟨⟨0, 3, .object⟩, ⟨⟨[], none⟩, false⟩⟩], none⟩, true⟩⟩, .gone none,
          [some .new, some .new]⟩ := by
    decide
  have hrun := run_of_eq (fun _ _ => true) (fun _ _ _ => trivial) hs
  refine ⟨_, hrun, (faithful_iff 5 hrun).mpr ?_⟩
  refine .cons ?_ rfl (.cons ?_ rfl (.cons ?_ rfl (.cons ?_ rfl .nil)))
  · rintro _ ⟨⟩
    rfl
  all_goals
    rintro _ ⟨⟩

/-- A group with one object: `next` panics on it. -/
theorem not_faithful_one_object :
    ¬ ∀ bs mid, bs <+: [.write (.write [7]), .read 0] →
      Run step (fun _ _ => True) (start 0) bs mid →
        ∀ i r, mid.reader i = some r → r.Faithful mid.shared := by
  intro hfaithful
  have hs : run step (fun _ _ => true) (start 0) [.write (.write [7]), .read 0] =
      some ⟨⟨0, ⟨⟨[.written 0 [7]], none⟩, false⟩⟩, .active ⟨0, 0, 0⟩,
        [some ⟨1, [], none, true⟩]⟩ := by
    decide
  have hrun := run_of_eq (fun _ _ => true) (fun _ _ _ => trivial) hs
  have hpanic := hfaithful _ _ List.prefix_rfl hrun 0 ⟨1, [], none, true⟩ rfl
  cases hpanic.safe

end StreamGroupReader

end MoqTransport.Serve
