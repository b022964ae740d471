import MoqTransport.Session.Serving

/-!
Whether a subscription sends everything before it ends. The tasks outlive the
handle, but each of them records every object in the state it shares with the
handle's other half, and that half is removed when the handle is dropped: a
task that still has an object to announce then fails with `done`. If the
removal comes after the last announcement, every subgroup is sent completely
(`served_completely`).
-/

namespace MoqTransport.Session

open Streaming Coding Data Serve Machine

def objectHeader (info : Serve.SubgroupObject) : Data.SubgroupObject :=
  ⟨info.objectId, info.size, info.status⟩

/-- What a task sends for an object as it stands. -/
def objectWire (o : SubgroupObjectCell) : Bytes :=
  (objectHeader o.info).wire ++ o.state.value.chunks.flatten

def objectsWire (cell : SubgroupCell) (count : Nat) : Bytes :=
  (cell.state.value.objects.take count).flatMap objectWire

/-- Nothing in the subgroup keeps it from being sent: its ids and sizes can
be encoded, and neither it nor an object of it is closed with an error. -/
structure Sound (cell : SubgroupCell) : Prop where
  group : fitsVarInt cell.info.groupId
  subgroup : fitsVarInt cell.info.subgroupId
  closed : cell.state.value.closed = none
  objects : ∀ o ∈ cell.state.value.objects,
    (objectHeader o.info).Ok ∧ o.state.value.closed = none

theorem Sound.of_grows {cell cell' : SubgroupCell} (hgrows : cell.Grows cell')
    (hcell : Sound cell') : Sound cell := by
  refine ⟨hgrows.info ▸ hcell.group, hgrows.info ▸ hcell.subgroup, hgrows.closed hcell.closed, ?_⟩
  intro o ho
  obtain ⟨i, hi⟩ := List.mem_iff_getElem?.mp ho
  obtain ⟨o', hi', hgrow⟩ := hgrows.objects hi
  obtain ⟨hok, hclosed⟩ := hcell.objects o' (List.mem_of_getElem? hi')
  exact ⟨hgrow.info ▸ hok, hgrow.closed hclosed⟩

/-- The first `count` objects are complete and have been sent, and then
`rest`. -/
structure Sent (cell : SubgroupCell) (t : SubgroupTask) (count : Nat) (rest : Bytes) : Prop where
  settled : ∀ i < count, ∃ o, cell.state.value.objects[i]? = some o ∧ o.state.dropped = true
  stream : t.stream.sent = (Header.subgroup t.header).wire ++ objectsWire cell count ++ rest

theorem Sent.le_length {cell : SubgroupCell} {t : SubgroupTask} {count : Nat} {rest : Bytes}
    (h : Sent cell t count rest) : count ≤ cell.state.value.objects.length := by
  by_contra hlt
  obtain ⟨o, ho, -⟩ := h.settled cell.state.value.objects.length (by omega)
  simp at ho

/-- An object and its payload complete one more object. -/
theorem Sent.succ {cell : SubgroupCell} {t : SubgroupTask} {count : Nat} {o : SubgroupObjectCell}
    (h : Sent cell t count (objectWire o)) (ho : cell.state.value.objects[count]? = some o)
    (hdropped : o.state.dropped = true) : Sent cell t (count + 1) [] := by
  constructor
  · intro i hi
    rcases Nat.lt_or_eq_of_le (Nat.le_of_lt_succ hi) with hlt | rfl
    · exact h.settled i hlt
    · exact ⟨o, ho, hdropped⟩
  · have hmore : objectsWire cell (count + 1) = objectsWire cell count ++ objectWire o := by
      rw [objectsWire, objectsWire, List.take_add_one, ho]
      simp
    rw [hmore, h.stream]
    simp

/-- Objects whose writers are gone stay as they are. -/
theorem Sent.of_grows {cell cell' : SubgroupCell} (hgrows : cell.Grows cell') {t : SubgroupTask}
    {count : Nat} {rest : Bytes} (h : Sent cell t count rest) : Sent cell' t count rest := by
  have hsame (i) (hi : i < count) : ∃ o, cell.state.value.objects[i]? = some o ∧
      cell'.state.value.objects[i]? = some o ∧ o.state.dropped = true := by
    obtain ⟨o, ho, hdropped⟩ := h.settled i hi
    obtain ⟨o', ho', hgrow⟩ := hgrows.objects ho
    exact ⟨o, ho, hgrow.settled hdropped ▸ ho', hdropped⟩
  constructor
  · intro i hi
    obtain ⟨o, -, ho, hdropped⟩ := hsame i hi
    exact ⟨o, ho, hdropped⟩
  · have htake : cell'.state.value.objects.take count = cell.state.value.objects.take count := by
      apply List.ext_getElem?
      intro i
      rw [List.getElem?_take, List.getElem?_take]
      split
      · next hi =>
          obtain ⟨o, ho, ho', -⟩ := hsame i hi
          rw [ho, ho']
      · rfl
    rw [h.stream, objectsWire, objectsWire, htake]

/-- What a task has sent, by where it stands. -/
def Progress (cell : SubgroupCell) (t : SubgroupTask) : Prop :=
  match t.phase with
  | .opening | .header => t.reader.index = 0 ∧ t.stream = ⟨[], false⟩
  | .next => Sent cell t t.reader.index [] ∧ t.stream.finished = false
  | .object i info =>
      ∃ o, cell.state.value.objects[i]? = some o ∧ o.info = info ∧ t.reader.index = i + 1 ∧
        Sent cell t i [] ∧ t.stream.finished = false
  | .update i info =>
      ∃ o, cell.state.value.objects[i]? = some o ∧ o.info = info ∧ t.reader.index = i + 1 ∧
        Sent cell t i (objectHeader info).wire ∧ t.stream.finished = false
  | .payload i info chunk =>
      ∃ o, cell.state.value.objects[i]? = some o ∧ o.info = info ∧ t.reader.index = i + 1 ∧
        chunk ≤ o.state.value.chunks.length ∧
        Sent cell t i ((objectHeader info).wire ++ (o.state.value.chunks.take chunk).flatten) ∧
        t.stream.finished = false
  | .finish =>
      cell.state.dropped = true ∧ t.reader.index = cell.state.value.objects.length ∧
        Sent cell t t.reader.index [] ∧ t.stream.finished = false
  | .finished =>
      cell.state.dropped = true ∧ t.reader.index = cell.state.value.objects.length ∧
        Sent cell t t.reader.index [] ∧ t.stream.finished = true
  | .failed _ => False

/-- The task sends the subgroup under its own header. -/
structure OnTrack (id trackAlias : Nat) (cell : SubgroupCell) (t : SubgroupTask) : Prop where
  header : t.header =
    ⟨id, trackAlias, cell.info.groupId, cell.info.subgroupId, cell.info.priority⟩
  progress : Progress cell t

theorem Progress.of_grows {cell cell' : SubgroupCell} (hgrows : cell.Grows cell')
    {t : SubgroupTask} (h : Progress cell t) : Progress cell' t := by
  unfold Progress at h ⊢
  split at h
  · exact h
  · exact h
  · exact ⟨h.1.of_grows hgrows, h.2⟩
  · obtain ⟨o, ho, rfl, hindex, hsent, hfin⟩ := h
    obtain ⟨o', ho', hgrow⟩ := hgrows.objects ho
    exact ⟨o', ho', hgrow.info, hindex, hsent.of_grows hgrows, hfin⟩
  · obtain ⟨o, ho, rfl, hindex, hsent, hfin⟩ := h
    obtain ⟨o', ho', hgrow⟩ := hgrows.objects ho
    exact ⟨o', ho', hgrow.info, hindex, hsent.of_grows hgrows, hfin⟩
  · next chunk _ =>
    obtain ⟨o, ho, rfl, hindex, hle, hsent, hfin⟩ := h
    obtain ⟨o', ho', hgrow⟩ := hgrows.objects ho
    have htake : o'.state.value.chunks.take chunk = o.state.value.chunks.take chunk := by
      obtain ⟨more, hmore⟩ := hgrow.chunks
      rw [← hmore, List.take_append_of_le_length hle]
    exact ⟨o', ho', hgrow.info, hindex, hle.trans hgrow.chunks.length_le,
      htake ▸ hsent.of_grows hgrows, hfin⟩
  · exact ⟨(hgrows.settled h.1).1, h.2.1.trans (hgrows.settled h.1).2.symm,
      h.2.2.1.of_grows hgrows, h.2.2.2⟩
  · exact ⟨(hgrows.settled h.1).1, h.2.1.trans (hgrows.settled h.1).2.symm,
      h.2.2.1.of_grows hgrows, h.2.2.2⟩
  · exact h

/-- The task has announced every object the subgroup has. -/
structure Announced (cell : SubgroupCell) (t : SubgroupTask) : Prop where
  index : t.reader.index = cell.state.value.objects.length
  object : ∀ i info, t.phase ≠ .object i info
  update : ∀ i info, t.phase ≠ .update i info

namespace SubgroupTask

variable {cell : SubgroupCell} {t t' : SubgroupTask} {shared shared' : Shared}

theorem object_eq {i : Nat} {o : SubgroupObjectCell}
    (ho : cell.state.value.objects[i]? = some o) : object cell i o.info = o := by
  simp [object, ho]

theorem send_ok {e : Encode} {ok : Prop} {bs : Bytes} (he : Emits e ok bs) (hok : ok)
    (hlen : bs.length ≤ 2 ^ 63) (phase : TaskPhase) :
    t.send e phase = { t with
      phase := phase
      stream := { t.stream with sent := t.stream.sent ++ bs } } := by
  rw [send, encoded_eq he hok hlen]

theorem send_phase (e : Encode) (phase : TaskPhase) :
    (t.send e phase).phase = phase ∨ ∃ fault, (t.send e phase).phase = .failed fault := by
  unfold send
  split
  · exact .inl rfl
  · exact .inr ⟨_, rfl⟩

theorem send_keeps (e : Encode) (phase : TaskPhase) :
    (t.send e phase).reader = t.reader ∧ (t.send e phase).header = t.header := by
  unfold send
  split
  · exact ⟨rfl, rfl⟩
  · exact ⟨rfl, rfl⟩

/-- A task keeps its subgroup and its header. -/
theorem Steps.keeps (h : Steps cell t shared t' shared') :
    t'.reader.cell = t.reader.cell ∧ t'.header = t.header := by
  cases h with
  | header _ | object _ =>
      obtain ⟨hreader, hheader⟩ := send_keeps (t := t) _ _
      exact ⟨congrArg SubgroupReader.cell hreader, hheader⟩
  | _ => exact ⟨rfl, rfl⟩

/-- A task that has announced everything stays so. -/
theorem Steps.announced (hannounced : Announced cell t) (h : Steps cell t shared t' shared') :
    Announced cell t' := by
  cases h with
  | header _ =>
      refine ⟨(send_keeps (t := t) _ _).1.symm ▸ hannounced.index, ?_, ?_⟩ <;>
        rcases send_phase (t := t) (Header.subgroup t.header).encode .next with h | ⟨_, h⟩ <;>
          simp [h]
  | next _ ho => simp [hannounced.index] at ho
  | object h => exact absurd h (hannounced.object _ _)
  | _ => exact ⟨hannounced.index, by simp [fail], by simp [fail]⟩

/-- One step of a task keeps it on track, as long as the shared state takes
its updates. -/
theorem Steps.progress (hheader : (Header.subgroup t.header).Ok) (hsound : Sound cell)
    (hannounced : shared.dropped = true → Announced cell t) (hprogress : Progress cell t)
    (h : Steps cell t shared t' shared') : Progress cell t' := by
  have hobject {i : Nat} {o : SubgroupObjectCell}
      (ho : cell.state.value.objects[i]? = some o) := hsound.objects o (List.mem_of_getElem? ho)
  cases h with
  | opened hphase =>
      simp only [Progress, hphase] at hprogress
      exact hprogress
  | header hphase =>
      simp only [Progress, hphase] at hprogress
      rw [send_ok (Header.emits_encode _) hheader ((Header.wire_length_le _).trans (by decide))]
      refine ⟨⟨by simp [hprogress.1], ?_⟩, by simp [hprogress.2]⟩
      simp [hprogress, objectsWire]
  | next hphase ho =>
      simp only [Progress, hphase] at hprogress
      exact ⟨_, ho, rfl, rfl, ⟨hprogress.1.settled, hprogress.1.stream⟩, hprogress.2⟩
  | subgroupClosed _ hclosed => simp [hsound.closed] at hclosed
  | subgroupEnded hphase hend hdropped =>
      simp only [Progress, hphase] at hprogress
      have hall : t.reader.index = cell.state.value.objects.length :=
        Nat.le_antisymm hprogress.1.le_length (List.getElem?_eq_none_iff.mp hend)
      exact ⟨hdropped, hall, ⟨hprogress.1.settled, hprogress.1.stream⟩, hprogress.2⟩
  | @object i info hphase =>
      simp only [Progress, hphase] at hprogress
      obtain ⟨o, ho, rfl, hindex, hsent, hfin⟩ := hprogress
      change Progress cell (t.send (objectHeader o.info).encode _)
      rw [send_ok (Data.SubgroupObject.emits_encode _) (hobject ho).1
        ((Data.SubgroupObject.wire_length_le _).trans (by decide))]
      exact ⟨o, ho, rfl, hindex, ⟨hsent.settled, by simp [hsent.stream, objectHeader]⟩, hfin⟩
  | refused hphase hdropped => exact absurd hphase ((hannounced hdropped).update _ _)
  | update hphase _ =>
      simp only [Progress, hphase] at hprogress
      obtain ⟨o, ho, rfl, hindex, hsent, hfin⟩ := hprogress
      exact ⟨o, ho, rfl, hindex, by simp, ⟨hsent.settled, by simp [hsent.stream]⟩, hfin⟩
  | @chunk i c info data hphase hdata =>
      simp only [Progress, hphase] at hprogress
      obtain ⟨o, ho, rfl, hindex, hle, hsent, hfin⟩ := hprogress
      rw [object_eq ho] at hdata
      have htake : o.state.value.chunks.take (c + 1) = o.state.value.chunks.take c ++ [data] := by
        rw [List.take_add_one, hdata]
        rfl
      have hlt := (List.getElem?_eq_some_iff.mp hdata).1
      exact ⟨o, ho, rfl, hindex, hlt, ⟨hsent.settled, by simp [hsent.stream, htake]⟩, hfin⟩
  | objectClosed hphase hclosed =>
      simp only [Progress, hphase] at hprogress
      obtain ⟨o, ho, rfl, -⟩ := hprogress
      rw [object_eq ho] at hclosed
      simp [(hobject ho).2] at hclosed
  | @objectEnded i c info hphase hend _ hdropped =>
      simp only [Progress, hphase] at hprogress
      obtain ⟨o, ho, rfl, hindex, hle, hsent, hfin⟩ := hprogress
      rw [object_eq ho] at hend hdropped
      have hall : o.state.value.chunks.take c = o.state.value.chunks :=
        List.take_of_length_le (List.getElem?_eq_none_iff.mp hend)
      rw [hall] at hsent
      obtain ⟨hsettled, hstream⟩ := hsent.succ ho hdropped
      rw [← hindex] at hsettled hstream
      exact ⟨⟨hsettled, hstream⟩, hfin⟩
  | finish hphase =>
      simp only [Progress, hphase] at hprogress
      exact ⟨hprogress.1, hprogress.2.1, ⟨hprogress.2.2.1.settled, hprogress.2.2.1.stream⟩, rfl⟩

end SubgroupTask

theorem Announced.of_length {cell cell' : SubgroupCell} {t : SubgroupTask}
    (hlength : cell'.state.value.objects.length = cell.state.value.objects.length)
    (h : Announced cell t) : Announced cell' t :=
  ⟨h.index.trans hlength.symm, h.object, h.update⟩

namespace Serving

/-- Neither the peer nor the transport ends the subscription early. -/
def Undisturbed : ServeAct → Bool
  | .unsubscribe | .transportFailure _ _ => false
  | _ => true

/-- The `SubscribedRecv` is removed when every task has announced all
objects, and no object is created in a served subgroup after that. -/
def InTime (s : Serving) : ServeAct → Prop
  | .remove => ∀ t ∈ s.tasks, ∀ cell ∈ s.track.cells[t.reader.cell]?, Announced cell t
  | .writer (.createObject w _) => s.shared.dropped = true → ∀ t ∈ s.tasks, t.reader.cell ≠ w.cell
  | _ => True

/-- The runs in which nobody disturbs and the handle is dropped in time. -/
def Orderly (s : Serving) (act : ServeAct) : Prop := Undisturbed act = true ∧ InTime s act

/-- Every task is on track if its subgroup allows it, and needs no more
updates once they are refused. -/
structure OnTime (s : Serving) : Prop where
  id : fitsVarInt s.id
  trackAlias : fitsVarInt s.trackAlias
  unclosed : Unclosed s
  latest : s.track.LatestOk
  tasks : ∀ t ∈ s.tasks, ∃ cell, s.track.cells[t.reader.cell]? = some cell ∧
    (Sound cell → OnTrack s.id s.trackAlias cell t) ∧
    (s.shared.dropped = true → Announced cell t)

/-- The same, for the subgroup of a task. -/
theorem OnTime.task {s : Serving} (hs : OnTime s) {t : SubgroupTask} (ht : t ∈ s.tasks)
    {cell : SubgroupCell} (hcell : s.track.cells[t.reader.cell]? = some cell) :
    (Sound cell → OnTrack s.id s.trackAlias cell t) ∧
      (s.shared.dropped = true → Announced cell t) := by
  obtain ⟨c, hc, hon, hannounced⟩ := hs.tasks t ht
  obtain rfl : c = cell := by simpa [hc] using hcell
  exact ⟨hon, hannounced⟩

theorem onTime_init {id trackAlias : Nat} (hid : fitsVarInt id) (halias : fitsVarInt trackAlias) :
    OnTime (init id trackAlias) :=
  ⟨hid, halias, unclosed_init id trackAlias, by rintro reader ⟨⟩, by simp [init]⟩

theorem onTime_writer {s : Serving} {act : WriterAct} {track : Subgroups} (hs : OnTime s)
    (hact : InTime s (.writer act)) (h : act.apply s.track = some track)
    (hunclosed : Unclosed { s with track := track }) : OnTime { s with track := track } := by
  refine ⟨hs.id, hs.trackAlias, hunclosed, act.latestOk h hs.latest, ?_⟩
  intro t ht
  obtain ⟨cell, hcell, htrack, hannounced⟩ := hs.tasks t ht
  obtain ⟨cell', hcell', hgrows⟩ := act.grows h _ _ hcell
  refine ⟨cell', hcell', ?_, ?_⟩
  · intro hsound
    have hon := htrack (hsound.of_grows hgrows)
    exact ⟨by rw [hon.header, hgrows.info], hon.progress.of_grows hgrows⟩
  · intro hdropped
    refine (hannounced hdropped).of_length (act.length_objects h ?_ hcell hcell')
    rintro w size rfl
    exact (hact hdropped t ht).symm

theorem onTime_spawn {s : Serving} {subgroup : SubgroupReader} {handle : HandlePhase}
    (hs : OnTime s) (hlatest : s.track.state.value.latest = some subgroup)
    (hlive : s.shared.dropped = false)
    (hunclosed : Unclosed { s with
      tasks := s.tasks ++ [.spawn s.id s.trackAlias subgroup], handle := handle }) :
    OnTime { s with
      tasks := s.tasks ++ [.spawn s.id s.trackAlias subgroup], handle := handle } := by
  refine ⟨hs.id, hs.trackAlias, hunclosed, hs.latest, ?_⟩
  intro t ht
  rcases List.mem_append.mp ht with hold | hnew
  · exact hs.tasks t hold
  · obtain rfl := List.mem_singleton.mp hnew
    obtain ⟨cell, hcell, hinfo, hindex⟩ := hs.latest subgroup hlatest
    refine ⟨cell, hcell, fun _ => ⟨?_, hindex, rfl⟩, ?_⟩
    · simp only [SubgroupTask.spawn, hinfo]
    · intro hdropped
      simp [hlive] at hdropped

theorem onTime_task {s : Serving} {index : Nat} {t t' : SubgroupTask} {cell : SubgroupCell}
    {shared : Watch.State SubscribedState} (hs : OnTime s) (ht : s.tasks[index]? = some t)
    (hcell : s.track.cells[t.reader.cell]? = some cell)
    (hstep : SubgroupTask.Steps cell t s.shared t' shared)
    (hunclosed : Unclosed { s with tasks := s.tasks.set index t', shared := shared }) :
    OnTime { s with tasks := s.tasks.set index t', shared := shared } := by
  have hdropped : shared.dropped = s.shared.dropped := hstep.shared.1
  refine ⟨hs.id, hs.trackAlias, hunclosed, hs.latest, ?_⟩
  intro u hu
  rcases List.mem_or_eq_of_mem_set hu with hold | rfl
  · obtain ⟨c, hc, htrack, hannounced⟩ := hs.tasks u hold
    exact ⟨c, hc, htrack, fun h => hannounced (hdropped ▸ h)⟩
  · obtain ⟨htrack, hannounced⟩ := hs.task (List.mem_of_getElem? ht) hcell
    refine ⟨cell, by rw [hstep.keeps.1]; exact hcell, fun hsound => ?_,
      fun h => hstep.announced (hannounced (hdropped ▸ h))⟩
    have hon := htrack hsound
    have hheader : (Header.subgroup t.header).Ok := by
      rw [hon.header]
      exact ⟨hs.id, hs.trackAlias, hsound.group, hsound.subgroup⟩
    exact ⟨by rw [hstep.keeps.2, hon.header], hstep.progress hheader hsound hannounced hon.progress⟩

theorem onTime_step {s s' : Serving} {act : ServeAct} (hs : OnTime s) (hact : Orderly s act)
    (h : s.step act = some s') : OnTime s' := by
  obtain ⟨hundisturbed, hinTime⟩ := hact
  have hsubscribed : NoUnsubscribe s act := by
    rintro rfl
    cases hundisturbed
  have hunclosed := unclosed_step hs.unclosed hsubscribed h
  -- A step of the handle alone leaves the track and the tasks as they are.
  have hkept (htrack : s'.track = s.track) (htasks : s'.tasks = s.tasks) (hid : s'.id = s.id)
      (halias : s'.trackAlias = s.trackAlias)
      (hdropped : s'.shared.dropped = true → ∀ t ∈ s.tasks,
        ∀ cell ∈ s.track.cells[t.reader.cell]?, Announced cell t) : OnTime s' := by
    refine ⟨hid ▸ hs.id, halias ▸ hs.trackAlias, hunclosed, htrack ▸ hs.latest, ?_⟩
    intro t ht
    rw [htasks] at ht
    obtain ⟨cell, hcell, hon, -⟩ := hs.tasks t ht
    exact ⟨cell, htrack ▸ hcell, hid ▸ halias ▸ hon, fun h => hdropped h t ht cell hcell⟩
  have hsame (h : s.shared.dropped = true) (t) (ht : t ∈ s.tasks) (cell)
      (hcell : cell ∈ s.track.cells[t.reader.cell]?) : Announced cell t :=
    (hs.task ht hcell).2 h
  cases steps_of_step h with
  | writer htrack => exact onTime_writer hs hinTime htrack hunclosed
  | unsubscribe => cases hundisturbed
  | serve hhandle =>
      have hlive := hs.unclosed.live (by simp [hhandle]) (by simp [hhandle])
      rw [serve, if_neg (by simp [hlive])] at hkept ⊢
      exact hkept rfl rfl rfl rfl hsame
  | spawn hhandle _ hlatest =>
      exact onTime_spawn hs hlatest (hs.unclosed.live (by simp [hhandle]) (by simp [hhandle]))
        hunclosed
  | remove _ => exact hkept rfl rfl rfl rfl fun _ => hinTime
  | close _ hdropped => exact hkept rfl rfl rfl rfl fun h => hsame (hdropped ▸ h)
  | task ht hcell hstep => exact onTime_task hs ht hcell hstep hunclosed
  | transportFailure _ => cases hundisturbed
  | _ => exact hkept rfl rfl rfl rfl hsame

/-- All writers of the track have finished without an error. -/
structure WritersDone (track : Subgroups) : Prop where
  dropped : track.state.dropped = true
  closed : track.state.value.closed = none
  cells : ∀ cell ∈ track.cells, cell.state.dropped = true ∧ cell.state.value.closed = none ∧
    ∀ o ∈ cell.state.value.objects, o.Complete

/-- The subgroup has been written completely, and its writer dropped without
an error. -/
structure Written (cell : SubgroupCell) : Prop where
  dropped : cell.state.dropped = true
  closed : cell.state.value.closed = none
  objects : ∀ o ∈ cell.state.value.objects, o.Complete

theorem WritersDone.written {track : Subgroups} (hdone : WritersDone track) {cell : SubgroupCell}
    (hcell : cell ∈ track.cells) : Written cell :=
  ⟨(hdone.cells cell hcell).1, (hdone.cells cell hcell).2.1, (hdone.cells cell hcell).2.2⟩

/-- All ids and sizes of the track can be encoded. -/
def Encodable (track : Subgroups) : Prop :=
  ∀ cell ∈ track.cells, fitsVarInt cell.info.groupId ∧ fitsVarInt cell.info.subgroupId ∧
    ∀ o ∈ cell.state.value.objects, (objectHeader o.info).Ok

/-- The task has sent its subgroup: the header, and every object with its
payload. -/
def SentAll (s : Serving) (t : SubgroupTask) : Prop :=
  ∃ cell, s.track.cells[t.reader.cell]? = some cell ∧ t.phase = .finished ∧
    t.stream = ⟨streamWire
      ⟨s.id, s.trackAlias, cell.info.groupId, cell.info.subgroupId, cell.info.priority⟩
      (cell.state.value.objects.map SubgroupObjectCell.content), true⟩

/-- The handle is gone and every subgroup has been sent. -/
def Finished (s : Serving) : Prop := s.handle = .gone ∧ ∀ t ∈ s.tasks, SentAll s t

theorem sound_of_done {track : Subgroups} (hdone : WritersDone track) (hfits : Encodable track)
    {cell : SubgroupCell} (hcell : cell ∈ track.cells) : Sound cell := by
  obtain ⟨hgroup, hsubgroup, hobjects⟩ := hfits cell hcell
  obtain ⟨-, hclosed, hcomplete⟩ := hdone.cells cell hcell
  exact ⟨hgroup, hsubgroup, hclosed, fun o ho => ⟨hobjects o ho, (hcomplete o ho).closed⟩⟩

theorem objectWire_complete {o : SubgroupObjectCell} (ho : o.Complete) :
    objectWire o = o.content.wire := by
  rw [objectWire, objectHeader, ho.size]
  rfl

/-- A task on track that is finished has sent everything. -/
theorem sentAll_of_onTrack {s : Serving} {t : SubgroupTask} {cell : SubgroupCell}
    (hcell : s.track.cells[t.reader.cell]? = some cell)
    (hcomplete : ∀ o ∈ cell.state.value.objects, o.Complete)
    (hon : OnTrack s.id s.trackAlias cell t) (hphase : t.phase = .finished) : SentAll s t := by
  have hprogress := hon.progress
  simp only [Progress, hphase] at hprogress
  obtain ⟨-, hindex, hsent, hfinished⟩ := hprogress
  refine ⟨cell, hcell, hphase, ?_⟩
  have hobjects : objectsWire cell t.reader.index =
      (cell.state.value.objects.map SubgroupObjectCell.content).flatMap ObjectContent.wire := by
    rw [objectsWire, hindex, List.take_length, List.flatMap_map]
    exact List.flatMap_congr fun o ho => objectWire_complete (hcomplete o ho)
  have hbytes := hsent.stream
  rw [hobjects, hon.header, List.append_nil] at hbytes
  calc t.stream = ⟨t.stream.sent, t.stream.finished⟩ := rfl
    _ = _ := by
      rw [hbytes, hfinished]
      rfl

theorem changeObject_eq_none {cell : SubgroupCell}
    {f : SubgroupObjectCell → Option SubgroupObjectCell}
    (hf : ∀ o ∈ cell.state.value.objects, f o = none) (handle : SubgroupObjectWriter) :
    cell.changeObject handle f = none := by
  unfold SubgroupCell.changeObject
  cases ho : cell.state.value.objects[handle.index]? with
  | none => rfl
  | some o => simp [hf o (List.mem_of_getElem? ho)]

/-- An action on a subgroup or an object does nothing to a subgroup that is
written. -/
theorem apply_cell (act : WriterAct) :
    (∃ w info, act = .create w info) ∨ (∃ err, act = .close err) ∨ act = .drop ∨
      ∃ w f, (∀ track, act.apply track = track.changeCell w f) ∧
        ∀ cell, Written cell → f cell = none := by
  cases act with
  | create w info => exact .inl ⟨w, info, rfl⟩
  | close err => exact .inr (.inl ⟨err, rfl⟩)
  | drop => exact .inr (.inr (.inl rfl))
  | createObject w size =>
      refine .inr (.inr (.inr ⟨w, _, fun _ => rfl, ?_⟩))
      intro cell hcell
      simp [SubgroupWriter.create, hcell.dropped, Except.toOption]
  | closeSubgroup w err =>
      refine .inr (.inr (.inr ⟨w, _, fun _ => rfl, ?_⟩))
      intro cell hcell
      rw [SubgroupWriter.close, hcell.dropped]
      exact Watch.closeWith_dropped _ _ _ _
  | dropSubgroup w =>
      refine .inr (.inr (.inr ⟨w, _, fun _ => rfl, ?_⟩))
      intro cell hcell
      simp [hcell.dropped]
  | write w object chunk =>
      refine .inr (.inr (.inr ⟨w, _, fun _ => rfl, ?_⟩))
      intro cell hcell
      apply changeObject_eq_none
      intro o ho
      unfold SubgroupObjectWriter.write
      split <;> simp [(hcell.objects o ho).dropped, Except.toOption]
  | closeObject w object err =>
      refine .inr (.inr (.inr ⟨w, _, fun _ => rfl, ?_⟩))
      intro cell hcell
      apply changeObject_eq_none
      intro o ho
      rw [SubgroupObjectWriter.close, (hcell.objects o ho).dropped]
      split
      · rfl
      · exact Watch.closeWith_dropped _ _ _ _
  | dropObject w object =>
      refine .inr (.inr (.inr ⟨w, _, fun _ => rfl, ?_⟩))
      intro cell hcell
      apply changeObject_eq_none
      intro o ho
      simp [(hcell.objects o ho).dropped]

/-- Writers that are done do nothing more. -/
theorem apply_eq_none {track : Subgroups} (hdone : WritersDone track) (act : WriterAct) :
    act.apply track = none := by
  rcases apply_cell act with ⟨w, info, rfl⟩ | ⟨err, rfl⟩ | rfl | ⟨w, f, happly, hnone⟩
  · simp [WriterAct.apply, SubgroupsWriter.create, hdone.dropped, Except.toOption]
  · rw [WriterAct.apply, SubgroupsWriter.close, hdone.dropped]
    exact Watch.closeWith_dropped _ _ _ _
  · simp [WriterAct.apply, hdone.dropped]
  · rw [happly, Subgroups.changeCell]
    cases hcell : track.cells[w.cell]? with
    | none => rfl
    | some cell => simp [hnone cell (hdone.written (List.mem_of_getElem? hcell))]

/-- A bound on the steps a task needs for the objects from `index` on. -/
def objectsRank (cell : SubgroupCell) (index : Nat) : Nat :=
  ((cell.state.value.objects.drop index).map fun o => o.state.value.chunks.length + 4).sum

def phaseRank (cell : SubgroupCell) (t : SubgroupTask) : Nat :=
  let chunks (i : Nat) (info : Serve.SubgroupObject) : Nat :=
    (SubgroupTask.object cell i info).state.value.chunks.length
  match t.phase with
  | .opening => 4 + objectsRank cell t.reader.index
  | .header => 3 + objectsRank cell t.reader.index
  | .next => 2 + objectsRank cell t.reader.index
  | .object i info => 5 + chunks i info + objectsRank cell t.reader.index
  | .update i info => 4 + chunks i info + objectsRank cell t.reader.index
  | .payload i info chunk => 3 + (chunks i info - chunk) + objectsRank cell t.reader.index
  | .finish => 1
  | .finished | .failed _ => 0

theorem phaseRank_send {cell : SubgroupCell} {t : SubgroupTask} (e : Encode) {phase : TaskPhase}
    {bound : Nat} (hbound : phaseRank cell { t with phase := phase } < bound) :
    phaseRank cell (t.send e phase) < bound := by
  unfold SubgroupTask.send
  split
  · exact hbound
  · exact Nat.lt_of_le_of_lt (Nat.zero_le _) hbound

theorem phaseRank_lt {cell : SubgroupCell} {t t' : SubgroupTask}
    {shared shared' : Watch.State SubscribedState}
    (h : SubgroupTask.Steps cell t shared t' shared') : phaseRank cell t' < phaseRank cell t := by
  cases h with
  | opened hphase => simp [phaseRank, hphase]
  | header hphase => exact phaseRank_send _ (by simp [phaseRank, hphase])
  | @next o hphase ho =>
      have hrest : objectsRank cell t.reader.index =
          o.state.value.chunks.length + 4 + objectsRank cell (t.reader.index + 1) := by
        rw [objectsRank, List.drop_eq_getElem?_toList_append, ho]
        rfl
      simp only [phaseRank, hphase, SubgroupTask.object_eq ho, hrest]
      omega
  | object hphase =>
      refine phaseRank_send _ ?_
      simp only [phaseRank, hphase]
      omega
  | chunk hphase hdata =>
      have hlt := (List.getElem?_eq_some_iff.mp hdata).1
      simp only [phaseRank, hphase]
      omega
  | _ =>
      simp only [phaseRank, SubgroupTask.fail, *]
      omega

def taskRank (track : Subgroups) (t : SubgroupTask) : Nat :=
  match track.cells[t.reader.cell]? with
  | some cell => phaseRank cell t
  | none => 0

def handleRank (s : Serving) : Nat :=
  match s.handle with
  | .held => 7
  | .looping epoch _ => if epoch = s.track.state.value.epoch then 5 else 6
  | .closing _ => 4
  | .dropping => 3
  | .removing _ => 2
  | .pushing _ => 1
  | .gone => 0

/-- The handle's own steps come first: they may add tasks. -/
def rank (s : Serving) : Nat ×ₗ Nat :=
  toLex (handleRank s, (s.tasks.map (taskRank s.track)).sum)

/-- The machine after its writers are done. -/
structure Settled (s : Serving) : Prop where
  onTime : OnTime s
  done : WritersDone s.track
  fits : Encodable s.track

/-- Nothing keeps a task from its subgroup any more. -/
theorem Settled.onTrack {s : Serving} (hs : Settled s) {t : SubgroupTask} (ht : t ∈ s.tasks)
    {cell : SubgroupCell} (hcell : s.track.cells[t.reader.cell]? = some cell) :
    OnTrack s.id s.trackAlias cell t :=
  (hs.onTime.task ht hcell).1 (sound_of_done hs.done hs.fits (List.mem_of_getElem? hcell))

theorem settled_step {s s' : Serving} {act : ServeAct} (hs : Settled s) (hact : Orderly s act)
    (h : s.step act = some s') : Settled s' := by
  have htrack : s'.track = s.track := by
    cases steps_of_step h with
    | writer hwriter => simp [apply_eq_none hs.done] at hwriter
    | serve _ => unfold serve; split <;> rfl
    | _ => rfl
  exact ⟨onTime_step hs.onTime hact h, htrack ▸ hs.done, htrack ▸ hs.fits⟩

theorem rank_step {s s' : Serving} {act : ServeAct} (hs : Settled s) (hact : Orderly s act)
    (h : s.step act = some s') : rank s' < rank s := by
  have hhandle (hlt : handleRank s' < handleRank s) : rank s' < rank s :=
    Prod.Lex.toLex_lt_toLex.mpr (.inl hlt)
  cases steps_of_step h with
  | writer hwriter => simp [apply_eq_none hs.done] at hwriter
  | unsubscribe => cases hact.1
  | serve hheld =>
      refine hhandle ?_
      unfold serve
      split
      · simp [handleRank, hheld]
      · simp only [handleRank, hheld]
        split <;> omega
  | spawn hloop hepoch _ => exact hhandle (by simp [handleRank, hloop, hepoch])
  | ended hloop =>
      refine hhandle ?_
      simp only [handleRank, hloop]
      split <;> omega
  | retry _ hclosed => simp [hs.done.closed] at hclosed
  | closedErr _ hclosed => simp [hs.onTime.unclosed.closed] at hclosed
  | closedEnd hloop hdropped =>
      simp [hs.onTime.unclosed.live (by simp [hloop]) (by simp [hloop])] at hdropped
  | close hclosing _ => exact absurd hclosing (hs.onTime.unclosed.closing _)
  | drop hold | remove hold | push hold => exact hhandle (by simp [handleRank, hold])
  | @task index t t' cell shared ht hcell hstep =>
      refine Prod.Lex.toLex_lt_toLex.mpr (.inr ⟨rfl, sum_map_set_lt ht ?_⟩)
      simp only [taskRank, hstep.keeps.1, hcell]
      exact phaseRank_lt hstep
  | transportFailure _ => cases hact.1

/-- A task on track can go on until its subgroup, which is written, is sent. -/
theorem exists_next {cell : SubgroupCell} (hcell : Written cell) {t : SubgroupTask}
    (hprogress : Progress cell t) (hphase : t.phase ≠ .finished)
    (shared : Watch.State SubscribedState) :
    ∃ next, SubgroupTask.step cell (t, shared) = some next := by
  unfold SubgroupTask.step
  dsimp only
  unfold Progress at hprogress
  split
  · exact ⟨_, rfl⟩
  · exact ⟨_, rfl⟩
  · cases ho : cell.state.value.objects[t.reader.index]? with
    | some o =>
        rw [SubgroupCell.next_of_some ho]
        exact ⟨_, rfl⟩
    | none =>
        rw [SubgroupCell.next_ended ho hcell.closed hcell.dropped]
        exact ⟨_, rfl⟩
  · exact ⟨_, rfl⟩
  · split <;> exact ⟨_, rfl⟩
  · next i info chunk hpayload =>
      simp only [hpayload] at hprogress
      obtain ⟨o, ho, rfl, -⟩ := hprogress
      have hend := hcell.objects o (List.mem_of_getElem? ho)
      rw [SubgroupTask.object_eq ho]
      cases hdata : o.state.value.chunks[chunk]? with
      | some data =>
          rw [SubgroupObjectCell.read_of_some hdata]
          exact ⟨_, rfl⟩
      | none =>
          rw [SubgroupObjectCell.read_ended hdata hend.closed hend.dropped]
          exact ⟨_, rfl⟩
  · exact ⟨_, rfl⟩
  · next hfinished => exact absurd hfinished hphase
  · next hfailed => simp [hfailed] at hprogress

theorem step_task_eq {s : Serving} {index : Nat} {t t' : SubgroupTask} {cell : SubgroupCell}
    {shared : Watch.State SubscribedState} (ht : s.tasks[index]? = some t)
    (hcell : s.track.cells[t.reader.cell]? = some cell)
    (hnext : SubgroupTask.step cell (t, s.shared) = some (t', shared)) :
    s.step (.task index) = some { s with tasks := s.tasks.set index t', shared := shared } := by
  simp [step, task, ht, hcell, hnext]

theorem exists_task_step {s : Serving} (hs : Settled s) {t : SubgroupTask} (ht : t ∈ s.tasks)
    (hphase : t.phase ≠ .finished) : ∃ index s', s.step (.task index) = some s' := by
  obtain ⟨cell, hcell, -⟩ := hs.onTime.tasks t ht
  have hwritten := hs.done.written (List.mem_of_getElem? hcell)
  obtain ⟨next, hnext⟩ := exists_next hwritten (hs.onTrack ht hcell).progress hphase s.shared
  obtain ⟨index, hindex⟩ := List.mem_iff_getElem?.mp ht
  exact ⟨index, _, step_task_eq hindex hcell hnext⟩

/-- Until everything is finished, some step is possible. -/
theorem exists_step {s : Serving} (hs : Settled s) (hunfinished : ¬ Finished s) :
    ∃ act s', Orderly s act ∧ s.step act = some s' := by
  have htask (h : ∃ t ∈ s.tasks, t.phase ≠ .finished) :
      ∃ act s', Orderly s act ∧ s.step act = some s' := by
    obtain ⟨t, ht, hphase⟩ := h
    obtain ⟨index, s', hstep⟩ := exists_task_step hs ht hphase
    exact ⟨.task index, s', ⟨rfl, trivial⟩, hstep⟩
  have hown (act : ServeAct) (hact : Orderly s act) (hstep : (s.step act).isSome) :
      ∃ act s', Orderly s act ∧ s.step act = some s' := by
    obtain ⟨s', hs'⟩ := Option.isSome_iff_exists.mp hstep
    exact ⟨act, s', hact, hs'⟩
  cases hhandle : s.handle with
  | held => exact hown .serve ⟨rfl, trivial⟩ (by simp [step, hhandle])
  | looping epoch failures =>
      have hnext : (s.next epoch failures).isSome := by
        unfold next
        by_cases hepoch : epoch = s.track.state.value.epoch
        · rw [SubgroupsReader.next_eq_exhausted hepoch, hs.done.closed, hs.done.dropped]
          rfl
        · rw [SubgroupsReader.next_eq_latest hepoch]
          cases s.track.state.value.latest <;> rfl
      exact hown .next ⟨rfl, trivial⟩ (by simpa [step, hhandle] using hnext)
  | closing err => exact absurd hhandle (hs.onTime.unclosed.closing err)
  | dropping => exact hown .drop ⟨rfl, trivial⟩ (by simp [step, hhandle])
  | removing last =>
      by_cases hall : ∀ t ∈ s.tasks, t.phase = .finished
      · refine hown .remove ⟨rfl, ?_⟩ (by simp [step, hhandle])
        intro t ht cell hcell
        have hprogress := (hs.onTrack ht hcell).progress
        simp only [Progress, hall t ht] at hprogress
        exact ⟨hprogress.2.1, by simp [hall t ht], by simp [hall t ht]⟩
      · exact htask (by simpa using hall)
  | pushing last => exact hown .push ⟨rfl, trivial⟩ (by simp [step, hhandle])
  | gone =>
      refine htask (by_contra fun hall => hunfinished ⟨hhandle, ?_⟩)
      intro t ht
      have hphase : t.phase = .finished := by_contra fun hne => hall ⟨t, ht, hne⟩
      obtain ⟨cell, hcell, -⟩ := hs.onTime.tasks t ht
      obtain ⟨-, -, hcomplete⟩ := hs.done.cells cell (List.mem_of_getElem? hcell)
      exact sentAll_of_onTrack hcell hcomplete (hs.onTrack ht hcell) hphase

/-- In a run that nobody disturbs and in which the handle is dropped in time,
no task fails for a subgroup that can be sent, and once the writers are done
every subgroup is inevitably sent completely. -/
theorem served_completely (id trackAlias : Nat) (s : Serving) (hid : fitsVarInt id)
    (halias : fitsVarInt trackAlias) (hs : Reachable step Orderly (init id trackAlias) s) :
    (∀ t ∈ s.tasks, ∀ cell ∈ s.track.cells[t.reader.cell]?, Sound cell →
        ∀ fault, t.phase ≠ .failed fault) ∧
      (WritersDone s.track → Encodable s.track → Inevitably step Orderly Finished s) := by
  have honTime := hs.invariant (onTime_init hid halias) onTime_step
  constructor
  · intro t ht cell hcell hsound fault hfailed
    have hprogress := ((honTime.task ht hcell).1 hsound).progress
    simp [Progress, hfailed] at hprogress
  · intro hdone hfits
    exact inevitably_of_rank rank settled_step rank_step exists_step ⟨honTime, hdone, hfits⟩

/-- A subgroup with two objects, written completely, in pieces of which one is
empty. -/
def twoObjects : SubgroupCell :=
  ⟨⟨0, 0, 127⟩, ⟨⟨[⟨⟨0, 3, .object⟩, ⟨⟨[[7], [], [8, 9]], none⟩, true⟩⟩,
    ⟨⟨1, 2, .object⟩, ⟨⟨[[5], [6]], none⟩, true⟩⟩], none⟩, true⟩⟩

theorem done_twoObjects {track : Subgroups} (hcells : track.cells = [twoObjects])
    (hdropped : track.state.dropped = true) (hclosed : track.state.value.closed = none) :
    WritersDone track ∧ Encodable track := by
  have hfirst : (objectHeader ⟨0, 3, .object⟩).Ok := ⟨by decide, by decide⟩
  have hsecond : (objectHeader ⟨1, 2, .object⟩).Ok := ⟨by decide, by decide⟩
  refine ⟨⟨hdropped, hclosed, ?_⟩, ?_⟩
  · rw [hcells]
    simpa [twoObjects] using ⟨⟨rfl, rfl, rfl⟩, ⟨rfl, rfl, rfl⟩⟩
  · rw [Encodable, hcells]
    simpa [twoObjects] using ⟨hfirst, hsecond⟩

/-- The track is written and the loop has seen all of it; its only task has
not begun. -/
def writeAndLoop : List ServeAct :=
  let w : SubgroupWriter := ⟨0, ⟨0, 0, 127⟩, 0⟩
  let first : SubgroupObjectWriter := ⟨0, ⟨0, 3, .object⟩, 3⟩
  let second : SubgroupObjectWriter := ⟨1, ⟨1, 2, .object⟩, 2⟩
  [.writer (.create .new ⟨0, 0, 127⟩), .writer (.createObject w 3), .writer (.write w first [7]),
    .writer (.write w { first with remain := 2 } []),
    .writer (.createObject { w with next := 1 } 2), .writer (.write w second [5]),
    .writer (.write w { first with remain := 2 } [8, 9]),
    .writer (.dropObject w { first with remain := 0 }),
    .writer (.write w { second with remain := 1 } [6]),
    .writer (.dropObject w { second with remain := 0 }), .writer (.dropSubgroup w), .writer .drop,
    .serve, .next, .next]

/-- Before the removal every undisturbed step is in time. -/
def early (s : Serving) (act : ServeAct) : Bool :=
  Undisturbed act && act != .remove && !s.shared.dropped

theorem orderly_of_early (s : Serving) (act : ServeAct) (h : early s act = true) :
    Orderly s act := by
  simp only [early, Bool.and_eq_true, bne_iff_ne, Bool.not_eq_true'] at h
  refine ⟨h.1.1, ?_⟩
  unfold InTime
  split
  · exact absurd rfl h.1.2
  · intro hdropped
    simp [h.2] at hdropped
  · trivial

theorem served_completely_twoObjects :
    ∃ s, run step early (init 0 0) writeAndLoop = some s ∧ s.tasks.length = 1 ∧
      Inevitably step Orderly Finished s := by
  have hrun : ∃ s, run step early (init 0 0) writeAndLoop = some s ∧
      s.track.cells = [twoObjects] ∧ s.track.state.dropped = true ∧
      s.track.state.value.closed = none ∧ s.tasks.length = 1 :=
    ⟨_, rfl, rfl, rfl, rfl, rfl⟩
  obtain ⟨s, hs, hcells, hdropped, hclosed, htasks⟩ := hrun
  obtain ⟨hdone, hfits⟩ := done_twoObjects hcells hdropped hclosed
  exact ⟨s, hs, htasks, (served_completely 0 0 s (by decide) (by decide)
    (reachable_of_run early orderly_of_early hs)).2 hdone hfits⟩

/-- The handle is dropped right after the loop, and the task begins then: it
fails at its first object. -/
theorem truncated_twoObjects :
    ∃ s, Reachable step (fun _ act => Undisturbed act = true) (init 0 0) s ∧
      WritersDone s.track ∧ Encodable s.track ∧
      ∃ t ∈ s.tasks, t.phase = .failed (.err (.serve .done)) := by
  have hrun : ∃ s, run step (fun _ act => Undisturbed act) (init 0 0) (writeAndLoop ++
      [.drop, .remove, .push, .task 0, .task 0, .task 0, .task 0, .task 0]) = some s ∧
      s.track.cells = [twoObjects] ∧ s.track.state.dropped = true ∧
      s.track.state.value.closed = none ∧
      (s.tasks.map SubgroupTask.phase) = [.failed (.err (.serve .done))] :=
    ⟨_, rfl, rfl, rfl, rfl, rfl⟩
  obtain ⟨s, hs, hcells, hdropped, hclosed, hphase⟩ := hrun
  obtain ⟨hdone, hfits⟩ := done_twoObjects hcells hdropped hclosed
  obtain ⟨t, ht, hfailed⟩ := List.mem_map.mp (hphase ▸ List.mem_singleton_self _)
  exact ⟨s, reachable_of_run _ (fun _ _ h => h) hs, hdone, hfits, t, ht, hfailed⟩

end Serving

end MoqTransport.Session
