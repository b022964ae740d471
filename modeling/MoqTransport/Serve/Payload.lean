import MoqTransport.Lib.Fanout
import MoqTransport.Serve.Growth
import MoqTransport.Serve.Track

/-!
One object with its writer and its readers, in subgroup and in stream mode.
The end of an object is the end of its writer; that the writer went away too
early is noted by its destructor, before the state is dropped. So an object
that ends without an error is complete (`ObjectKind.complete_of_end`).
-/

namespace MoqTransport.Serve

open Machine Streaming

/-- Unlike the writer of a subgroup's object, that of a stream's may be closed
early. -/
def StreamObjectWriter.close (object : SubgroupObjectCell) (err : ServeError) :
    Except ServeError SubgroupObjectCell := do
  let closed ← Watch.closeWith .cancel object.state.value.closed object.state.dropped err
  pure { object with state := object.state.update fun s => { s with closed := closed } }

/-- The destructor of the writer. It runs before the state is dropped. -/
def SubgroupObjectWriter.destruct (remain : Nat) (object : SubgroupObjectCell) :
    SubgroupObjectCell :=
  if remain = 0 ∨ object.state.dropped then
    object
  else
    { object with state := object.state.update fun s => { s with closed := some .size } }

def StreamObjectWriter.destruct (remain : Nat) (object : SubgroupObjectCell) :
    SubgroupObjectCell :=
  if remain = 0 ∨ object.state.value.closed.isSome ∨ object.state.dropped then
    object
  else
    { object with state := object.state.update fun s => { s with closed := some .size } }

namespace SubgroupObjectCell

/-- A side of the object goes away. -/
def drop (object : SubgroupObjectCell) : SubgroupObjectCell :=
  { object with state := object.state.drop }

theorem dropWriter_eq (remain : Nat) (object : SubgroupObjectCell) :
    object.dropWriter remain = (SubgroupObjectWriter.destruct remain object).drop := by
  unfold dropWriter SubgroupObjectWriter.destruct
  split <;> rfl

theorem dropWriter_stream_eq (remain : Nat) (object : SubgroupObjectCell) :
    StreamObject.dropWriter remain object = (StreamObjectWriter.destruct remain object).drop := by
  unfold StreamObject.dropWriter StreamObjectWriter.destruct
  split <;> rfl

theorem index_lt_of_read {object : SubgroupObjectCell} {index : Nat} {chunk : Bytes}
    (h : object.read index = .ready (.ok (some chunk))) :
    index < object.state.value.chunks.length := by
  unfold read at h
  split at h
  · next _ hchunk => exact (List.getElem?_eq_some_iff.mp hchunk).1
  · exact absurd h Watch.exhausted_ne_some

/-- The loop of `read_all`, with the chunks it has so far. -/
def collect (object : SubgroupObjectCell) (index : Nat) (chunks : List Bytes) :
    Watch.Poll (Except ServeError Bytes) :=
  match h : object.read index with
  | .pending => .pending
  | .ready (.error err) => .ready (.error err)
  | .ready (.ok none) => .ready (.ok chunks.flatten)
  | .ready (.ok (some chunk)) =>
      have := index_lt_of_read h
      object.collect (index + 1) (chunks ++ [chunk])
termination_by object.state.value.chunks.length - index

/-- What `read` returns other than a chunk, it returns behind the last one. -/
theorem eq_length_of_read {object : SubgroupObjectCell} {index : Nat}
    (hle : index ≤ object.state.value.chunks.length)
    (h : ∀ chunk, object.read index ≠ .ready (.ok (some chunk))) :
    index = object.state.value.chunks.length := by
  by_contra hne
  have hlt : index < object.state.value.chunks.length := by omega
  exact h _ (read_of_some (List.getElem?_eq_getElem hlt))

/-- The loop takes all chunks, and ends as `read` does behind the last. -/
theorem collect_eq (object : SubgroupObjectCell) (index : Nat) (chunks : List Bytes)
    (hle : index ≤ object.state.value.chunks.length) :
    object.collect index chunks =
      match object.read object.state.value.chunks.length with
      | .pending => .pending
      | .ready (.error err) => .ready (.error err)
      | .ready (.ok _) =>
          .ready (.ok (chunks ++ object.state.value.chunks.drop index).flatten) := by
  fun_induction collect object index chunks with
  | case1 index chunks h =>
      rw [← eq_length_of_read hle (by simp [h]), h]
  | case2 index chunks err h =>
      rw [← eq_length_of_read hle (by simp [h]), h]
  | case3 index chunks h =>
      have hlength := eq_length_of_read hle (by simp [h])
      rw [← hlength, h, List.drop_of_length_le hlength.ge, List.append_nil]
  | case4 index chunks chunk h hlt ih =>
      rw [ih hlt]
      have hchunk : object.state.value.chunks[index] = chunk := by
        rw [read_of_some (List.getElem?_eq_getElem hlt)] at h
        simpa using h
      rw [List.drop_eq_getElem_cons hlt, hchunk, List.append_assoc]
      rfl

theorem read_length (object : SubgroupObjectCell) :
    object.read object.state.value.chunks.length =
      Watch.exhausted object.state.value.closed object.state.dropped :=
  read_of_none (List.getElem?_eq_none (Nat.le_refl _))

theorem eq_of_collect {object : SubgroupObjectCell} {index : Nat} {chunks : List Bytes}
    {bytes : Bytes} (hle : index ≤ object.state.value.chunks.length)
    (h : object.collect index chunks = .ready (.ok bytes)) :
    object.state.value.closed = none ∧ object.state.dropped = true ∧
      bytes = (chunks ++ object.state.value.chunks.drop index).flatten := by
  rw [collect_eq object index chunks hle, read_length] at h
  split at h
  · cases h
  · cases h
  · next result hresult =>
      obtain rfl : result = none := by
        cases result with
        | none => rfl
        | some chunk => exact absurd hresult Watch.exhausted_ne_some
      obtain ⟨hclosed, hdropped⟩ := Watch.exhausted_eq_none_iff.mp hresult
      cases h
      exact ⟨hclosed, hdropped, rfl⟩

theorem collect_of_closed {object : SubgroupObjectCell} {index : Nat} {err : ServeError}
    (hle : index ≤ object.state.value.chunks.length)
    (hclosed : object.state.value.closed = some err) (chunks : List Bytes) :
    object.collect index chunks = .ready (.error err) := by
  rw [collect_eq object index chunks hle, read_length, Watch.exhausted_eq_error_iff.mpr hclosed]

/-- A reader that starts afresh and is polled once. -/
theorem readAll_eq_collect (object : SubgroupObjectCell) :
    object.readAll = object.collect 0 [] := by
  rw [collect_eq object 0 [] (Nat.zero_le _)]
  rfl

end SubgroupObjectCell

/-- The two implementations of an object. -/
inductive ObjectKind where
  | subgroup
  | stream
deriving DecidableEq

/-- The writer of an object, until it is dropped. Closing it consumes it: the
destructor runs next, and then the state loses its writer. -/
inductive ObjectPhase where
  | active
  | leaving
  | destructed
  | gone
deriving DecidableEq

structure ObjectHandle where
  writer : SubgroupObjectWriter
  phase : ObjectPhase
deriving DecidableEq

inductive ObjectAct where
  | write (chunk : Bytes)
  | close (err : ServeError)
  | drop
  | destruct
  | release
deriving DecidableEq

namespace ObjectKind

def close (kind : ObjectKind) (w : SubgroupObjectWriter) (object : SubgroupObjectCell)
    (err : ServeError) : Except ServeError SubgroupObjectCell :=
  match kind with
  | .subgroup => w.close object err
  | .stream => StreamObjectWriter.close object err

def destruct (kind : ObjectKind) (remain : Nat) (object : SubgroupObjectCell) :
    SubgroupObjectCell :=
  match kind with
  | .subgroup => SubgroupObjectWriter.destruct remain object
  | .stream => StreamObjectWriter.destruct remain object

def act (kind : ObjectKind) (a : ObjectAct) (handle : ObjectHandle)
    (object : SubgroupObjectCell) : Option (ObjectHandle × SubgroupObjectCell) :=
  match a, handle.phase with
  | .write chunk, .active =>
      let (w, result) := handle.writer.write object chunk
      some (⟨w, .active⟩, result.toOption.getD object)
  | .close err, .active =>
      some (⟨handle.writer, .leaving⟩,
        (kind.close handle.writer object err).toOption.getD object)
  | .drop, .active => some (⟨handle.writer, .leaving⟩, object)
  | .destruct, .leaving =>
      some (⟨handle.writer, .destructed⟩, kind.destruct handle.writer.remain object)
  | .release, .destructed => some (⟨handle.writer, .gone⟩, object.drop)
  | _, _ => none

def ops (kind : ObjectKind) :
    Fanout.Ops SubgroupObjectCell ObjectHandle (Fanout.Cursor Bytes) ObjectAct where
  act := kind.act
  look object r := r.read object.state.value.chunks
  fork := Fanout.Cursor.clone
  drop := SubgroupObjectCell.drop

/-- An object as `produce` returns it. -/
def start (info : SubgroupObject) :
    Fanout.State SubgroupObjectCell ObjectHandle (Fanout.Cursor Bytes) :=
  ⟨info.produce, ⟨⟨0, info, info.size⟩, .active⟩, [some .new]⟩

/-- The bytes of an object that have been written. -/
def stored (object : SubgroupObjectCell) : Nat := object.state.value.chunks.flatten.length

theorem stored_push (object : SubgroupObjectCell) (chunk : Bytes) :
    stored (object.push chunk) = stored object + chunk.length := by
  simp only [stored, SubgroupObjectCell.push, Watch.State.update, List.flatten_append,
    List.length_append]
  simp

/-- What holds of an object while it has a reader. -/
structure Sound (info : SubgroupObject) (object : SubgroupObjectCell) (handle : ObjectHandle) :
    Prop where
  same : object.info = info
  size : stored object + handle.writer.remain = info.size
  live : handle.phase ≠ .gone → object.state.dropped = false
  gone : handle.phase = .gone → object.state.dropped = true
  short : handle.phase = .destructed ∨ handle.phase = .gone → handle.writer.remain ≠ 0 →
    object.state.value.closed ≠ none

variable {kind : ObjectKind} {info : SubgroupObject}

/-- What is written stays, and so does the other side. -/
structure Kept (object object' : SubgroupObjectCell) : Prop where
  info : object'.info = object.info
  chunks : object'.state.value.chunks = object.state.value.chunks
  dropped : object'.state.dropped = object.state.dropped

theorem kept_close (kind : ObjectKind) (w : SubgroupObjectWriter) (object : SubgroupObjectCell)
    (err : ServeError) : Kept object ((kind.close w object err).toOption.getD object) := by
  have hclose (object' : SubgroupObjectCell)
      (h : StreamObjectWriter.close object err = .ok object') : Kept object object' := by
    obtain ⟨-, -, rfl⟩ := Watch.eq_of_closeWith h
    exact ⟨rfl, rfl, rfl⟩
  cases hresult : kind.close w object err with
  | error refused => exact ⟨rfl, rfl, rfl⟩
  | ok object' =>
      apply hclose
      cases kind with
      | stream => exact hresult
      | subgroup =>
          simp only [close, SubgroupObjectWriter.close] at hresult
          split at hresult
          · cases hresult
          · exact hresult

theorem kept_destruct (kind : ObjectKind) (remain : Nat) (object : SubgroupObjectCell) :
    Kept object (kind.destruct remain object) := by
  cases kind with
  | subgroup =>
      change Kept object (SubgroupObjectWriter.destruct remain object)
      unfold SubgroupObjectWriter.destruct
      split <;> exact ⟨rfl, rfl, rfl⟩
  | stream =>
      change Kept object (StreamObjectWriter.destruct remain object)
      unfold StreamObjectWriter.destruct
      split <;> exact ⟨rfl, rfl, rfl⟩

/-- While there is a reader, the destructor of a short object leaves an
error. -/
theorem closed_destruct (kind : ObjectKind) {remain : Nat} {object : SubgroupObjectCell}
    (hremain : remain ≠ 0) (hlive : object.state.dropped = false) :
    (kind.destruct remain object).state.value.closed ≠ none := by
  cases kind with
  | subgroup => simp [destruct, SubgroupObjectWriter.destruct, hremain, hlive, Watch.State.update]
  | stream =>
      unfold destruct StreamObjectWriter.destruct
      cases hclosed : object.state.value.closed with
      | some err => simp [hclosed]
      | none => simp [hremain, hlive, Watch.State.update]

theorem write_refused {w : SubgroupObjectWriter} {object : SubgroupObjectCell} {chunk : Bytes}
    (h : chunk.length > w.remain) : w.write object chunk = (w, .error .size) := by
  rw [SubgroupObjectWriter.write, if_pos h]

theorem act_write_refused {handle : ObjectHandle} {object : SubgroupObjectCell} {chunk : Bytes}
    (h : chunk.length > handle.writer.remain) (hactive : handle.phase = .active) :
    kind.act (.write chunk) handle object = some (handle, object) := by
  obtain ⟨w, phase⟩ := handle
  obtain rfl : phase = .active := hactive
  simp only [act, write_refused h]
  rfl

theorem write_live {w : SubgroupObjectWriter} {object : SubgroupObjectCell} {chunk : Bytes}
    (h : ¬ chunk.length > w.remain) (hlive : object.state.dropped = false) :
    w.write object chunk =
      ({ w with remain := w.remain - chunk.length }, .ok (object.push chunk)) := by
  rw [SubgroupObjectWriter.write, if_neg h, if_neg (by simp [hlive])]

theorem sound_start : Sound info (start info).shared (start info).writer where
  same := rfl
  size := by simp [start, stored, SubgroupObject.produce, Watch.State.new]
  live := fun _ => rfl
  gone := by
    intro hgone
    cases hgone
  short := by
    rintro (hphase | hphase) <;> cases hphase

theorem Kept.stored {object object' : SubgroupObjectCell} (h : Kept object object') :
    stored object' = stored object := by
  rw [ObjectKind.stored, h.chunks, ObjectKind.stored]

/-- What a step of the writer comes to. -/
inductive Acts (kind : ObjectKind) (handle : ObjectHandle) (object : SubgroupObjectCell) :
    ObjectHandle → SubgroupObjectCell → Prop where
  | write (chunk : Bytes) (hactive : handle.phase = .active) :
      Acts kind handle object ⟨(handle.writer.write object chunk).1, .active⟩
        ((handle.writer.write object chunk).2.toOption.getD object)
  | leave {object' : SubgroupObjectCell} (hactive : handle.phase = .active)
      (hkept : Kept object object') : Acts kind handle object ⟨handle.writer, .leaving⟩ object'
  | destruct (hleaving : handle.phase = .leaving) :
      Acts kind handle object ⟨handle.writer, .destructed⟩
        (kind.destruct handle.writer.remain object)
  | release (hdestructed : handle.phase = .destructed) :
      Acts kind handle object ⟨handle.writer, .gone⟩ object.drop

theorem acts_of_act {a : ObjectAct} {handle handle' : ObjectHandle}
    {object object' : SubgroupObjectCell}
    (h : kind.act a handle object = some (handle', object')) :
    Acts kind handle object handle' object' := by
  unfold act at h
  split at h
  · next chunk hactive =>
      obtain ⟨rfl, rfl⟩ := Prod.mk.inj (Option.some.inj h)
      exact .write chunk hactive
  · next err hactive =>
      obtain ⟨rfl, rfl⟩ := Prod.mk.inj (Option.some.inj h)
      exact .leave hactive (kept_close kind _ object err)
  · next hactive =>
      obtain ⟨rfl, rfl⟩ := Prod.mk.inj (Option.some.inj h)
      exact .leave hactive ⟨rfl, rfl, rfl⟩
  · next hleaving =>
      obtain ⟨rfl, rfl⟩ := Prod.mk.inj (Option.some.inj h)
      exact .destruct hleaving
  · next hdestructed =>
      obtain ⟨rfl, rfl⟩ := Prod.mk.inj (Option.some.inj h)
      exact .release hdestructed
  · cases h

theorem Sound.write {handle : ObjectHandle} {object : SubgroupObjectCell}
    (hs : Sound info object handle) (hactive : handle.phase = .active) (chunk : Bytes) :
    Sound info ((handle.writer.write object chunk).2.toOption.getD object)
      ⟨(handle.writer.write object chunk).1, .active⟩ := by
  obtain ⟨writer, phase⟩ := handle
  obtain rfl : phase = .active := hactive
  by_cases hlong : chunk.length > writer.remain
  · rw [write_refused hlong]
    exact hs
  · rw [write_live hlong (hs.live (by simp))]
    constructor
    · exact hs.same
    · have hsize : stored object + writer.remain = info.size := hs.size
      change stored (object.push chunk) + (writer.remain - chunk.length) = info.size
      rw [stored_push]
      omega
    · exact hs.live
    · exact hs.gone
    · rintro (hphase | hphase) <;> cases hphase

theorem Acts.sound {handle handle' : ObjectHandle} {object object' : SubgroupObjectCell}
    (h : Acts kind handle object handle' object') (hs : Sound info object handle) :
    Sound info object' handle' := by
  cases h with
  | write chunk hactive => exact hs.write hactive chunk
  | leave hactive hkept =>
      constructor
      · exact hkept.info.trans hs.same
      · rw [hkept.stored]
        exact hs.size
      · intro _
        exact hkept.dropped.trans (hs.live (by simp [hactive]))
      · intro hgone
        cases hgone
      · rintro (hphase | hphase) <;> cases hphase
  | destruct hleaving =>
      have hkept := kept_destruct kind handle.writer.remain object
      have hlive := hs.live (by simp [hleaving])
      constructor
      · exact hkept.info.trans hs.same
      · rw [hkept.stored]
        exact hs.size
      · intro _
        exact hkept.dropped.trans hlive
      · intro hgone
        cases hgone
      · intro _ hremain
        exact closed_destruct kind hremain hlive
  | release hdestructed =>
      constructor
      · exact hs.same
      · exact hs.size
      · intro hphase
        exact absurd rfl hphase
      · intro _
        rfl
      · intro _
        exact hs.short (.inl hdestructed)

/-- Chunks are only added. -/
theorem Acts.chunks {handle handle' : ObjectHandle} {object object' : SubgroupObjectCell}
    (h : Acts kind handle object handle' object') :
    object.state.value.chunks <+: object'.state.value.chunks := by
  cases h with
  | write chunk =>
      cases hwrite : (handle.writer.write object chunk).2 with
      | error err => exact List.prefix_rfl
      | ok object' => exact (SubgroupObjectCell.grows_write hwrite).chunks
  | leave _ hkept =>
      rw [hkept.chunks]
  | destruct => rw [(kept_destruct kind _ object).chunks]
  | release => exact List.prefix_rfl

theorem keeps (kind : ObjectKind) (info : SubgroupObject) :
    Fanout.Keeps kind.ops (Sound info)
      fun object r => Fanout.Cursor.At object.state.value.chunks r where
  act := fun hs h => (acts_of_act h).sound hs
  rel := fun _ h hr => hr.mono (acts_of_act h).chunks
  look := fun _ hr => hr.read
  fork := fun _ hr => hr.clone

theorem read_eq_none {object : SubgroupObjectCell} {index : Nat}
    (h : object.read index = .ready (.ok none)) :
    object.state.value.chunks[index]? = none ∧ object.state.value.closed = none ∧
      object.state.dropped = true := by
  cases hchunk : object.state.value.chunks[index]? with
  | some chunk =>
      rw [SubgroupObjectCell.read_of_some hchunk] at h
      simp at h
  | none =>
      rw [SubgroupObjectCell.read_of_none hchunk, Watch.exhausted_eq_none_iff] at h
      exact ⟨rfl, h⟩

/-- An object without a writer that has no error is complete. -/
theorem Sound.complete {object : SubgroupObjectCell} {handle : ObjectHandle}
    (hs : Sound info object handle) (hclosed : object.state.value.closed = none)
    (hdropped : object.state.dropped = true) : stored object = info.size := by
  have hsize := hs.size
  have hgone : handle.phase = .gone := by
    by_contra hphase
    rw [hs.live hphase] at hdropped
    cases hdropped
  have hremain : handle.writer.remain = 0 := by
    by_contra hremain
    exact hs.short (.inr hgone) hremain hclosed
  omega

/-- A short object ends with an error. -/
theorem Sound.closed_of_short {object : SubgroupObjectCell} {handle : ObjectHandle}
    (hs : Sound info object handle) (hgone : handle.phase = .gone)
    (hshort : stored object < info.size) : ∃ err, object.state.value.closed = some err := by
  have hsize := hs.size
  have hremain : handle.writer.remain ≠ 0 := by omega
  exact Option.ne_none_iff_exists'.mp (hs.short (.inr hgone) hremain)

/-- What `read_all` returns, with what was read before it, is the object. -/
theorem Sound.size_of_collect {object : SubgroupObjectCell} {handle : ObjectHandle}
    (hs : Sound info object handle) {r : Fanout.Cursor Bytes}
    (hat : Fanout.Cursor.At object.state.value.chunks r) (hstart : r.start = 0)
    {before chunks : List Bytes} {bytes : Bytes} (hreceived : r.received = before ++ chunks)
    (hcollect : object.collect r.index chunks = .ready (.ok bytes)) :
    before.flatten.length + bytes.length = info.size := by
  obtain ⟨hclosed, hdropped, rfl⟩ := SubgroupObjectCell.eq_of_collect hat.index_le hcollect
  have hall : before ++ (chunks ++ object.state.value.chunks.drop r.index) =
      object.state.value.chunks := by
    rw [← List.append_assoc, ← hreceived, hat.received, hstart, List.drop_zero,
      List.take_append_drop]
  rw [← List.length_append, ← List.flatten_append, hall]
  exact hs.complete hclosed hdropped

/-- The end of an object, read without an error, comes after all its bytes.
The bytes stored and the bytes that remain are always its size, and a write of
more than remain stores nothing. -/
theorem complete_of_end (kind : ObjectKind) (info : SubgroupObject)
    {st : Fanout.State SubgroupObjectCell ObjectHandle (Fanout.Cursor Bytes)}
    (hs : Reachable (Fanout.step kind.ops) (fun _ _ => True) (start info) st) {i : Nat}
    {r : Fanout.Cursor Bytes} (hr : st.reader i = some r) :
    stored st.shared + st.writer.writer.remain = info.size ∧
      (∀ chunk, chunk.length > st.writer.writer.remain →
        st.writer.writer.write st.shared chunk = (st.writer.writer, .error .size) ∧
          (st.writer.phase = .active →
            kind.act (.write chunk) st.writer st.shared = some (st.writer, st.shared))) ∧
      (r.start = 0 → st.shared.read r.index = .ready (.ok none) →
        r.received.flatten.length = info.size) ∧
      (r.start = 0 → ∀ before chunks bytes, r.received = before ++ chunks →
        st.shared.collect r.index chunks = .ready (.ok bytes) →
        before.flatten.length + bytes.length = info.size) ∧
      (st.writer.phase = .gone → stored st.shared < info.size →
        (∀ chunks, ∃ err, st.shared.collect r.index chunks = .ready (.error err)) ∧
          (st.shared.read r.index ≠ .pending ∧ st.shared.read r.index ≠ .ready (.ok none))) := by
  obtain ⟨hsound, hat⟩ :=
    (keeps kind info).invariant sound_start Fanout.Cursor.at_new hs hr
  refine ⟨hsound.size, ?_, ?_, ?_, ?_⟩
  · intro chunk hlong
    exact ⟨write_refused hlong, act_write_refused hlong⟩
  · intro hstart hend
    obtain ⟨hchunk, hclosed, hdropped⟩ := read_eq_none hend
    rw [hat.received_eq hchunk, hstart, List.drop_zero]
    exact hsound.complete hclosed hdropped
  · intro hstart before chunks bytes hreceived hcollect
    exact hsound.size_of_collect hat hstart hreceived hcollect
  · intro hgone hshort
    obtain ⟨err, hclosed⟩ := hsound.closed_of_short hgone hshort
    refine ⟨?_, ?_, ?_⟩
    · intro chunks
      exact ⟨err, SubgroupObjectCell.collect_of_closed hat.index_le hclosed chunks⟩
    · cases hchunk : st.shared.state.value.chunks[r.index]? with
      | some chunk => simp [SubgroupObjectCell.read_of_some hchunk]
      | none =>
          rw [SubgroupObjectCell.read_of_none hchunk, Watch.exhausted_eq_error_iff.mpr hclosed]
          simp
    · intro hend
      rw [(read_eq_none hend).2.1] at hclosed
      cases hclosed

/-- Two bytes in two chunks, with a refused write in between. -/
theorem complete_of_end_chunks :
    ∃ st r, Reachable (Fanout.step ObjectKind.stream.ops) (fun _ _ => True)
        (start ⟨0, 2, .object⟩) st ∧
      st.reader 0 = some r ∧ st.shared.read r.index = .ready (.ok none) ∧
      r.received = [[1], [2]] ∧ r.received.flatten.length = 2 := by
  have hrun : ∃ st r, run (Fanout.step ObjectKind.stream.ops) (fun _ _ => true)
      (start ⟨0, 2, .object⟩)
      [.write (.write [1]), .read 0, .write (.write [2, 3]), .write (.write [2]), .clone 0,
        .read 0, .write .drop, .write .destruct, .write .release] = some st ∧
      st.reader 0 = some r ∧ r.start = 0 ∧ st.shared.read r.index = .ready (.ok none) ∧
      r.received = [[1], [2]] := ⟨_, _, rfl, rfl, rfl, rfl, rfl⟩
  obtain ⟨st, r, hrun, hr, hstart, hend, hreceived⟩ := hrun
  have hs : Reachable (Fanout.step ObjectKind.stream.ops) (fun _ _ => True)
      (start ⟨0, 2, .object⟩) st := reachable_of_run _ (fun _ _ _ => trivial) hrun
  exact ⟨st, r, hs, hr, hend, hreceived, (complete_of_end .stream _ hs hr).2.2.1 hstart hend⟩

end ObjectKind

end MoqTransport.Serve
