import MoqTransport.Lib.Fanout
import MoqTransport.Serve.Growth

/-!
One subgroup with its writer and all its readers. The objects are a log that
grows at its end; every reader goes through it from where it was cloned, at
its own pace, and sees the end only behind the last object
(`SubgroupReader.fan_out`). The objects themselves are written meanwhile,
through handles that may outlive the subgroup's writer.
-/

namespace MoqTransport.Serve

open Machine Streaming

inductive SubgroupAct where
  | create (size : Nat)
  | write (payload : Bytes)
  | close (err : ServeError)
  | drop
  | writeObject (object : SubgroupObjectWriter) (chunk : Bytes)
  | closeObject (object : SubgroupObjectWriter) (err : ServeError)
  | dropObject (object : SubgroupObjectWriter)
deriving DecidableEq

/-- The writer of a subgroup, until it is closed and dropped. -/
abbrev SubgroupHandle := Fanout.Writer ServeError SubgroupWriter

/-- A reader with the objects it has received. -/
abbrev SubgroupCursor := Fanout.Cursor SubgroupObject

/-- `SubgroupReader::next` with its effect on the reader. -/
def SubgroupReader.poll (cell : SubgroupCell) (r : SubgroupCursor) :
    Watch.Poll (Except ServeError (Option SubgroupObjectCell)) × SubgroupCursor :=
  match cell.next r.index with
  | .ready (.ok (some object)) =>
      (.ready (.ok (some object)),
        { r with index := r.index + 1, received := r.received ++ [object.info] })
  | result => (result, r)

namespace SubgroupCell

def drop (cell : SubgroupCell) : SubgroupCell := { cell with state := cell.state.drop }

def act (a : SubgroupAct) (handle : SubgroupHandle) (cell : SubgroupCell) :
    Option (SubgroupHandle × SubgroupCell) :=
  match a, handle with
  | .create size, .active w =>
      let (w, result) := w.create cell size
      some (.active w, (result.toOption.map Prod.snd).getD cell)
  | .write payload, .active w =>
      let (w, _, cell) := w.write cell payload
      some (.active w, cell)
  | .close err, .active _ => some (Fanout.Writer.close err cell (SubgroupWriter.close cell err))
  | .drop, .active _ => some (.gone none, cell.drop)
  | .drop, .leaving closed => some (.gone closed, cell.drop)
  | .writeObject object chunk, _ =>
      (cell.changeObject object fun o => (object.write o chunk).2.toOption).map (handle, ·)
  | .closeObject object err, _ =>
      (cell.changeObject object fun o => (object.close o err).toOption).map (handle, ·)
  | .dropObject object, _ =>
      (cell.changeObject object fun o =>
        if o.state.dropped then none else some (o.dropWriter object.remain)).map (handle, ·)
  | _, _ => none

def ops : Fanout.Ops SubgroupCell SubgroupHandle SubgroupCursor SubgroupAct where
  act := act
  look cell r := (SubgroupReader.poll cell r).2
  fork := Fanout.Cursor.clone
  drop := drop

/-- A subgroup as `produce` returns it. -/
def start (info : Subgroup) : Fanout.State SubgroupCell SubgroupHandle SubgroupCursor :=
  ⟨info.produce, .active ⟨0, info, 0⟩, [some .new]⟩

/-- The objects created so far. -/
def log (cell : SubgroupCell) : List SubgroupObject := cell.state.value.objects.map (·.info)

@[simp]
theorem log_push (cell : SubgroupCell) (object : SubgroupObjectCell) :
    (cell.push object).log = cell.log ++ [object.info] := by
  simp [log, push, Watch.State.update]

end SubgroupCell

/-- The reader goes through the log. -/
theorem SubgroupReader.poll_eq_read (cell : SubgroupCell) (r : SubgroupCursor) :
    (poll cell r).2 = r.read cell.log := by
  unfold poll Fanout.Cursor.read
  cases hobject : cell.state.value.objects[r.index]? with
  | some object => simp [SubgroupCell.next_of_some hobject, SubgroupCell.log, hobject]
  | none =>
      have hlog : cell.log[r.index]? = none := by simp [SubgroupCell.log, hobject]
      rw [hlog]
      split
      · next object hnext =>
          rw [SubgroupCell.next_eq_some_iff, hobject] at hnext
          cases hnext
      · rfl

namespace SubgroupCell

/-- What holds of a subgroup while it has a reader. -/
structure Sound (cell : SubgroupCell) (handle : SubgroupHandle) : Prop where
  ids : cell.log.map (·.objectId) = List.range cell.log.length
  next : ∀ w, handle = .active w → w.next = cell.log.length
  live : (∀ closed, handle ≠ .gone closed) → cell.state.dropped = false
  closed : cell.state.value.closed = handle.closed

theorem sound_start (info : Subgroup) : (start info).shared.Sound (start info).writer where
  ids := rfl
  next := by
    rintro _ ⟨⟩
    rfl
  live := fun _ => rfl
  closed := rfl

/-- The objects are changed, but not which there are. -/
structure Kept (cell cell' : SubgroupCell) : Prop where
  log : cell'.log = cell.log
  closed : cell'.state.value.closed = cell.state.value.closed
  dropped : cell'.state.dropped = cell.state.dropped

theorem kept_changeObject {cell cell' : SubgroupCell} {handle : SubgroupObjectWriter}
    {f : SubgroupObjectCell → Option SubgroupObjectCell}
    (hf : ∀ o o', f o = some o' → o'.info = o.info)
    (h : cell.changeObject handle f = some cell') : Kept cell cell' := by
  obtain ⟨o, ho, h⟩ := Option.bind_eq_some_iff.mp h
  obtain ⟨o', ho', h⟩ := Option.bind_eq_some_iff.mp h
  obtain rfl := Option.some.inj h
  refine ⟨?_, rfl, rfl⟩
  change (cell.state.value.objects.set handle.index o').map (·.info) = cell.log
  have hinfo : cell.log[handle.index]? = some o'.info := by simp [log, ho, hf o o' ho']
  obtain ⟨hlt, hget⟩ := List.getElem?_eq_some_iff.mp hinfo
  rw [List.map_set, ← hget]
  exact List.set_getElem_self hlt

/-- What a step of a writer comes to. -/
inductive Acts (handle : SubgroupHandle) (cell : SubgroupCell) :
    SubgroupHandle → SubgroupCell → Prop where
  | push {w : SubgroupWriter} {object : SubgroupObjectCell} (hactive : handle = .active w)
      (hid : object.info.objectId = w.next) :
      Acts handle cell (.active { w with next := w.next + 1 }) (cell.push object)
  | close {w : SubgroupWriter} (hactive : handle = .active w) (err : ServeError) :
      Acts handle cell (.leaving (some err))
        { cell with state := cell.state.update fun s => { s with closed := some err } }
  | drop : Acts handle cell (.gone handle.closed) cell.drop
  | object {cell' : SubgroupCell} (hkept : Kept cell cell') : Acts handle cell handle cell'

theorem acts_of_change {handle handle' : SubgroupHandle} {cell cell' : SubgroupCell}
    {object : SubgroupObjectWriter} {f : SubgroupObjectCell → Option SubgroupObjectCell}
    (hf : ∀ o o', f o = some o' → o.Grows o')
    (h : (cell.changeObject object f).map (handle, ·) = some (handle', cell')) :
    Acts handle cell handle' cell' := by
  obtain ⟨changed, hchange, hpair⟩ := Option.map_eq_some_iff.mp h
  obtain ⟨rfl, rfl⟩ := Prod.mk.inj hpair
  exact .object (kept_changeObject (fun o o' ho => (hf o o' ho).info) hchange)

theorem acts_of_act {a : SubgroupAct} {handle handle' : SubgroupHandle}
    {cell cell' : SubgroupCell} (hs : cell.Sound handle)
    (h : act a handle cell = some (handle', cell')) : Acts handle cell handle' cell' := by
  unfold act at h
  split at h
  · next size w =>
      rw [w.create_live (hs.live (by simp))] at h
      obtain ⟨rfl, rfl⟩ := Prod.mk.inj (Option.some.inj h)
      exact .push rfl rfl
  · next payload w =>
      rw [w.write_live (hs.live (by simp))] at h
      obtain ⟨rfl, rfl⟩ := Prod.mk.inj (Option.some.inj h)
      exact .push rfl rfl
  · next err w =>
      have hlive := hs.live (by simp)
      have hopen : cell.state.value.closed = none := hs.closed
      rw [SubgroupWriter.close, hlive, hopen] at h
      obtain ⟨rfl, rfl⟩ := Prod.mk.inj (Option.some.inj h)
      exact .close rfl err
  · obtain ⟨rfl, rfl⟩ := Prod.mk.inj (Option.some.inj h)
    exact .drop
  · obtain ⟨rfl, rfl⟩ := Prod.mk.inj (Option.some.inj h)
    exact .drop
  · exact acts_of_change (fun o o' ho => SubgroupObjectCell.grows_write (eq_ok_of_toOption ho)) h
  · exact acts_of_change (fun o o' ho => SubgroupObjectCell.grows_close (eq_ok_of_toOption ho)) h
  · refine acts_of_change ?_ h
    intro o o' ho
    split at ho
    · cases ho
    · next hlive =>
        cases ho
        exact SubgroupObjectCell.grows_dropWriter hlive _
  · cases h

theorem Acts.sound {handle handle' : SubgroupHandle} {cell cell' : SubgroupCell}
    (h : Acts handle cell handle' cell') (hs : cell.Sound handle) : cell'.Sound handle' := by
  cases h with
  | @push w object hactive hid =>
      subst hactive
      have hnext := hs.next w rfl
      constructor
      · rw [log_push, List.map_append, hs.ids, List.length_append, List.length_singleton,
          List.range_succ]
        simp [hid, hnext]
      · rintro _ ⟨⟩
        simp [hnext]
      · intro _
        exact hs.live (by simp)
      · exact hs.closed
  | @close w hactive err =>
      subst hactive
      constructor
      · exact hs.ids
      · intro _ hactive
        cases hactive
      · intro _
        exact hs.live (by simp)
      · rfl
  | drop =>
      constructor
      · exact hs.ids
      · intro _ hactive
        cases hactive
      · intro hgone
        exact absurd rfl (hgone _)
      · exact hs.closed
  | object hkept =>
      constructor
      · rw [hkept.log]
        exact hs.ids
      · rw [hkept.log]
        exact hs.next
      · rw [hkept.dropped]
        exact hs.live
      · rw [hkept.closed]
        exact hs.closed

theorem Acts.log {handle handle' : SubgroupHandle} {cell cell' : SubgroupCell}
    (h : Acts handle cell handle' cell') : cell.log <+: cell'.log := by
  cases h with
  | push =>
      rw [log_push]
      exact List.prefix_append _ _
  | close => exact List.prefix_rfl
  | drop => exact List.prefix_rfl
  | object hkept => rw [hkept.log]

theorem keeps : Fanout.Keeps ops Sound fun cell r => Fanout.Cursor.At cell.log r where
  act := fun hs h => (acts_of_act hs h).sound hs
  rel := fun hs h hr => hr.mono (acts_of_act hs h).log
  look := by
    intro cell _ r _ hr
    change Fanout.Cursor.At cell.log (SubgroupReader.poll cell r).2
    rw [SubgroupReader.poll_eq_read]
    exact hr.read
  fork := fun _ hr => hr.clone

end SubgroupCell

namespace SubgroupReader

theorem objectId_of_log {cell : SubgroupCell} {handle : SubgroupHandle} (hs : cell.Sound handle)
    {k : Nat} {object : SubgroupObject} (h : cell.log[k]? = some object) :
    object.objectId = k := by
  have hid : (cell.log.map (·.objectId))[k]? = some object.objectId := by simp [h]
  rw [hs.ids] at hid
  obtain ⟨hlt, hk⟩ := List.getElem?_eq_some_iff.mp hid
  rw [← hk, List.getElem_range]

/-- Where there is no object, `next` returns what the writer has left. -/
theorem next_end {cell : SubgroupCell} {index : Nat}
    {result : Except ServeError (Option SubgroupObjectCell)}
    (h : cell.next index = .ready result) (hend : ∀ object, result ≠ .ok (some object)) :
    cell.log[index]? = none ∧
      Watch.exhausted cell.state.value.closed cell.state.dropped = .ready result := by
  cases hobject : cell.state.value.objects[index]? with
  | some object =>
      rw [SubgroupCell.next_of_some hobject] at h
      cases h
      exact absurd rfl (hend object)
  | none =>
      rw [SubgroupCell.next_of_none hobject] at h
      exact ⟨by simp [SubgroupCell.log, hobject], h⟩

/-- The writer is gone once the state is dropped, and was not closed. -/
theorem gone_of_dropped {cell : SubgroupCell} {handle : SubgroupHandle} (hs : cell.Sound handle)
    (hclosed : cell.state.value.closed = none) (hdropped : cell.state.dropped = true) :
    handle = .gone none := by
  have hlive := hs.live
  rw [hdropped] at hlive
  cases handle with
  | active w => exact absurd (hlive (by simp)) (by simp)
  | leaving closed => exact absurd (hlive (by simp)) (by simp)
  | gone closed =>
      have hnone : closed = none := hs.closed.symm.trans hclosed
      rw [hnone]

/-- Fan-out: every reader of a subgroup, cloned whenever it was, receives the
objects from its start onwards, all of them and each once; it sees the end
only behind the last one; and the other readers make no difference to it. -/
theorem fan_out (info : Subgroup) {st : Fanout.State SubgroupCell SubgroupHandle SubgroupCursor}
    (hs : Reachable (Fanout.step SubgroupCell.ops) (fun _ _ => True) (SubgroupCell.start info) st)
    {i : Nat} {r : SubgroupCursor} (hr : st.reader i = some r) :
    r.received = (st.shared.log.take r.index).drop r.start ∧
      (∀ k object, r.received[k]? = some object → object.objectId = r.start + k) ∧
      (r.index < st.shared.log.length → ∃ object,
        st.shared.next r.index = .ready (.ok (some object)) ∧
          object.info.objectId = r.index) ∧
      (∀ err, st.shared.next r.index = .ready (.error err) →
        r.received = st.shared.log.drop r.start ∧ st.writer.closed = some err) ∧
      (st.shared.next r.index = .ready (.ok none) →
        r.received = st.shared.log.drop r.start ∧ st.writer = .gone none) ∧
      ∀ acts st' r', Run (Fanout.step SubgroupCell.ops) (fun _ _ => True) st acts st' →
        st'.reader i = some r' →
        ∃ alone, Run (Fanout.step SubgroupCell.ops) (fun _ _ => True) st
            (acts.filter (Fanout.Act.concerns i)) alone ∧
          alone.shared = st'.shared ∧ alone.writer = st'.writer ∧ alone.reader i = some r' := by
  obtain ⟨hsound, hat⟩ :=
    SubgroupCell.keeps.invariant (SubgroupCell.sound_start info) Fanout.Cursor.at_new hs hr
  refine ⟨hat.received, ?_, ?_, ?_, ?_, ?_⟩
  · intro k object hk
    rw [hat.received, List.getElem?_drop, List.getElem?_take] at hk
    split at hk
    · exact objectId_of_log hsound hk
    · cases hk
  · intro hlt
    have hlt : r.index < st.shared.state.value.objects.length := by
      simpa [SubgroupCell.log] using hlt
    have hobject := List.getElem?_eq_getElem hlt
    refine ⟨_, SubgroupCell.next_of_some hobject, objectId_of_log hsound ?_⟩
    simp [SubgroupCell.log, hobject]
  · intro err herr
    obtain ⟨hend, hexhausted⟩ := next_end herr (by simp)
    have hclosed := Watch.exhausted_eq_error_iff.mp hexhausted
    exact ⟨hat.received_eq hend, hsound.closed.symm.trans hclosed⟩
  · intro hnone
    obtain ⟨hend, hexhausted⟩ := next_end hnone (by simp)
    obtain ⟨hclosed, hdropped⟩ := Watch.exhausted_eq_none_iff.mp hexhausted
    exact ⟨hat.received_eq hend, gone_of_dropped hsound hclosed hdropped⟩
  · intro acts st' r' hrun hr'
    have hi := (List.getElem?_eq_some_iff.mp (Fanout.reader_eq_some_iff.mp hr)).1
    obtain ⟨alone, halone, halike⟩ := Fanout.alone_of_run hrun hi hr' ⟨rfl, rfl, rfl⟩
    exact ⟨alone, halone, halike.shared, halike.writer, halike.reader.trans hr'⟩

/-- A reader is cloned after the first object and the writer is dropped. -/
theorem fan_out_clone :
    ∃ st r, Reachable (Fanout.step SubgroupCell.ops) (fun _ _ => True)
        (SubgroupCell.start ⟨0, 0, 127⟩) st ∧
      st.reader 1 = some r ∧ st.shared.next r.index = .ready (.ok none) ∧
      r.received = [⟨1, 2, .object⟩] ∧ r.received = st.shared.log.drop 1 ∧
      st.writer = .gone none := by
  have hrun : ∃ st r, run (Fanout.step SubgroupCell.ops) (fun _ _ => true)
      (SubgroupCell.start ⟨0, 0, 127⟩)
      [.write (.write [7]), .read 0, .clone 0, .write (.create 2), .read 1, .write .drop,
        .quit 0] = some st ∧
      st.reader 1 = some r ∧ r.start = 1 ∧ st.shared.next r.index = .ready (.ok none) ∧
      r.received = [⟨1, 2, .object⟩] := ⟨_, _, rfl, rfl, rfl, rfl, rfl⟩
  obtain ⟨st, r, hrun, hr, hstart, hend, hreceived⟩ := hrun
  have hs : Reachable (Fanout.step SubgroupCell.ops) (fun _ _ => True)
      (SubgroupCell.start ⟨0, 0, 127⟩) st := reachable_of_run _ (fun _ _ _ => trivial) hrun
  obtain ⟨hall, hgone⟩ := (fan_out _ hs hr).2.2.2.2.1 hend
  rw [hstart] at hall
  exact ⟨st, r, hs, hr, hend, hreceived, hall, hgone⟩

end SubgroupReader

end MoqTransport.Serve
