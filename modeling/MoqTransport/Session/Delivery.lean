import MoqTransport.Session.Arrival
import MoqTransport.Session.Completion

/-!
A subgroup from its writer to the readers of a peer. As long as the handle of
the subscription is kept, the task of a subgroup that has been written
completely is never stuck, finishes after a bounded number of its own steps,
and what it has sent gives the peer the same subgroup however the transport
cuts it (`delivered_completely`).
-/

namespace MoqTransport.Session

open Streaming Coding Data Serve Machine

/-- What a reader of the object gets from a chunk on, up to the end. -/
inductive ObjectYields (object : SubgroupObjectCell) : Nat → Bytes → Prop where
  | done {index : Nat} (h : object.read index = .ready (.ok none)) : ObjectYields object index []
  | chunk {index : Nat} {data rest : Bytes} (h : object.read index = .ready (.ok (some data)))
      (hrest : ObjectYields object (index + 1) rest) : ObjectYields object index (data ++ rest)

/-- What a reader of the subgroup gets from an object on, up to the end: the
ids, sizes and payloads. -/
inductive SubgroupYields (cell : SubgroupCell) : Nat → List (Nat × Nat × Bytes) → Prop where
  | done {index : Nat} (h : cell.next index = .ready (.ok none)) : SubgroupYields cell index []
  | object {index : Nat} {o : SubgroupObjectCell} {payload : Bytes}
      {rest : List (Nat × Nat × Bytes)} (h : cell.next index = .ready (.ok (some o)))
      (hpayload : ObjectYields o 0 payload) (hrest : SubgroupYields cell (index + 1) rest) :
      SubgroupYields cell index ((o.info.objectId, o.info.size, payload) :: rest)

/-- The list a subgroup was written with. -/
def objectList (cell : SubgroupCell) : List (Nat × Nat × Bytes) :=
  cell.state.value.objects.map fun o => (o.info.objectId, o.info.size, o.content.payload)

theorem eq_of_drop_eq_cons {α : Type} {l rest : List α} {index : Nat} {x : α}
    (h : l.drop index = x :: rest) : l[index]? = some x ∧ l.drop (index + 1) = rest := by
  constructor
  · rw [← List.head?_drop, h]
    rfl
  · rw [← List.tail_drop, h]
    rfl

theorem eq_none_of_drop_eq_nil {α : Type} {l : List α} {index : Nat} (h : l.drop index = []) :
    l[index]? = none :=
  List.getElem?_eq_none_iff.mpr (List.drop_eq_nil_iff.mp h)

theorem objectYields_complete {o : SubgroupObjectCell} (ho : o.Complete) :
    ObjectYields o 0 o.content.payload := by
  have hfrom (index : Nat) (chunks : List Bytes)
      (hrest : o.state.value.chunks.drop index = chunks) :
      ObjectYields o index chunks.flatten := by
    induction chunks generalizing index with
    | nil =>
        have hnone := eq_none_of_drop_eq_nil hrest
        exact .done (SubgroupObjectCell.read_ended hnone ho.closed ho.dropped)
    | cons data chunks ih =>
        obtain ⟨hdata, htail⟩ := eq_of_drop_eq_cons hrest
        rw [List.flatten_cons]
        exact .chunk (SubgroupObjectCell.read_of_some hdata) (ih (index + 1) htail)
  exact hfrom 0 _ rfl

theorem subgroupYields_objectList {cell : SubgroupCell} (hcell : Serving.Written cell) :
    SubgroupYields cell 0 (objectList cell) := by
  have hfrom (index : Nat) (objects : List SubgroupObjectCell)
      (hrest : cell.state.value.objects.drop index = objects) :
      SubgroupYields cell index
        (objects.map fun o => (o.info.objectId, o.info.size, o.content.payload)) := by
    induction objects generalizing index with
    | nil =>
        have hnone := eq_none_of_drop_eq_nil hrest
        exact .done (SubgroupCell.next_ended hnone hcell.closed hcell.dropped)
    | cons o objects ih =>
        obtain ⟨ho, htail⟩ := eq_of_drop_eq_cons hrest
        have hcomplete := hcell.objects o (List.mem_of_getElem? ho)
        exact .object (SubgroupCell.next_of_some ho) (objectYields_complete hcomplete)
          (ih (index + 1) htail)
  exact hfrom 0 _ rfl

/-- The objects are numbered as their writer counts them. -/
def Numbered (cell : SubgroupCell) : Prop :=
  ∀ (i : Nat) (o : SubgroupObjectCell), cell.state.value.objects[i]? = some o →
    o.info.objectId = i ∧ o.info.status = .object

/-- Objects that are numbered already keep their numbers. -/
theorem renumber_eq {next : Nat} {objects : List ObjectContent}
    (h : ∀ (i : Nat) (o : ObjectContent), objects[i]? = some o →
      o.objectId = next + i ∧ o.status = .object) :
    renumber next objects = objects := by
  induction objects generalizing next with
  | nil => rfl
  | cons o objects ih =>
      obtain ⟨hid, hstatus⟩ := h 0 o rfl
      rw [renumber, ih]
      · obtain ⟨objectId, status, payload⟩ := o
        obtain rfl : objectId = next := hid
        obtain rfl : status = .object := hstatus
        rfl
      · intro i o' ho'
        obtain ⟨hid', hstatus'⟩ := h (i + 1) o' ho'
        exact ⟨by omega, hstatus'⟩

theorem renumber_numbered {cell : SubgroupCell} (hcell : Numbered cell) :
    renumber 0 (cell.state.value.objects.map SubgroupObjectCell.content) =
      cell.state.value.objects.map SubgroupObjectCell.content := by
  apply renumber_eq
  intro i o ho
  rw [List.getElem?_map] at ho
  obtain ⟨o', ho', rfl⟩ := Option.map_eq_some_iff.mp ho
  obtain ⟨hid, hstatus⟩ := hcell i o' ho'
  exact ⟨by simpa [SubgroupObjectCell.content] using hid, hstatus⟩

/-- Complete objects are determined by their contents. -/
theorem objectList_eq {cell cell' : SubgroupCell} (hcell : Serving.Written cell)
    (hcell' : Serving.Written cell')
    (hsame : cell.state.value.objects.map SubgroupObjectCell.content =
      cell'.state.value.objects.map SubgroupObjectCell.content) :
    objectList cell = objectList cell' := by
  have hof {c : SubgroupCell} (hc : Serving.Written c) : objectList c =
      (c.state.value.objects.map SubgroupObjectCell.content).map
        fun o => (o.objectId, o.payload.length, o.payload) := by
    rw [List.map_map]
    apply List.map_congr_left
    intro o ho
    simp [(hc.objects o ho).size, SubgroupObjectCell.content]
  rw [hof hcell, hof hcell', hsame]

theorem Numbered.of_grows {cell cell' : SubgroupCell} (hcell : Numbered cell)
    (hgrows : cell.Grows cell')
    (hlength : cell'.state.value.objects.length = cell.state.value.objects.length) :
    Numbered cell' := by
  intro i o' ho'
  have hlt : i < cell.state.value.objects.length := by
    rw [← hlength]
    exact (List.getElem?_eq_some_iff.mp ho').1
  have ho := List.getElem?_eq_getElem hlt
  obtain ⟨o'', ho'', hgrow⟩ := hgrows.objects ho
  obtain rfl : o'' = o' := by simpa [ho''] using ho'
  rw [hgrow.info]
  exact hcell i _ ho

/-- The writer gives an object the number it has counted to. -/
theorem Numbered.create {cell : SubgroupCell} (hcell : Numbered cell) {w : SubgroupWriter}
    (hnext : w.next = cell.state.value.objects.length) {size : Nat}
    {created : SubgroupObjectWriter × SubgroupCell} (h : (w.create cell size).2 = .ok created) :
    Numbered created.2 := by
  unfold SubgroupWriter.create at h
  dsimp only at h
  split at h
  · cases h
  · cases h
    intro i o ho
    rcases getElem?_concat_iff.mp ho with hold | ⟨rfl, rfl⟩
    · exact hcell i o hold
    · exact ⟨hnext, rfl⟩

theorem numbered_append {cells : List SubgroupCell} (hcells : ∀ cell ∈ cells, Numbered cell)
    {new : SubgroupCell} (hnew : new.state.value.objects = []) :
    ∀ cell ∈ cells ++ [new], Numbered cell := by
  apply forall_mem_concat hcells
  intro i o ho
  simp [hnew] at ho

namespace Serving

/-- A subgroup has one writer, which has counted the objects it created. -/
def Counted (s : Serving) : ServeAct → Prop
  | .writer (.createObject w _) =>
      ∀ cell ∈ s.track.cells[w.cell]?, w.next = cell.state.value.objects.length
  | _ => True

/-- The runs in which nobody disturbs and the handle stays. -/
def HandleKept (s : Serving) (act : ServeAct) : Prop :=
  Undisturbed act = true ∧ act ≠ .remove ∧ Counted s act

structure Kept (s : Serving) : Prop where
  onTime : OnTime s
  live : s.shared.dropped = false
  numbered : ∀ cell ∈ s.track.cells, Numbered cell

/-- What the writers do to a subgroup that is there already. -/
theorem numbered_changed {s : Serving} {act : WriterAct} {track : Subgroups}
    (hs : ∀ cell ∈ s.track.cells, Numbered cell) (hcounted : Counted s (.writer act))
    (h : act.apply s.track = some track) {i : Nat} (hi : i < s.track.cells.length)
    {cell' : SubgroupCell} (hcell' : track.cells[i]? = some cell') : Numbered cell' := by
  have hcell := List.getElem?_eq_getElem hi
  have hnumbered := hs _ (List.getElem_mem hi)
  by_cases hcreate : ∃ w size, act = .createObject w size ∧ w.cell = i
  · obtain ⟨w, size, rfl, rfl⟩ := hcreate
    obtain ⟨c, hc, h⟩ := Option.bind_eq_some_iff.mp h
    obtain ⟨c', hc', h⟩ := Option.bind_eq_some_iff.mp h
    obtain ⟨created, hcreated, rfl⟩ := Option.map_eq_some_iff.mp hc'
    cases h
    obtain rfl : c = s.track.cells[w.cell] := by simpa [hcell] using hc.symm
    obtain rfl : created.2 = cell' := by simpa [Subgroups.setCell, hi] using hcell'
    exact hnumbered.create (hcounted _ hc) (eq_ok_of_toOption hcreated)
  · obtain ⟨c', hc', hgrows⟩ := act.grows h _ _ hcell
    obtain rfl : c' = cell' := by simpa [hc'] using hcell'
    refine hnumbered.of_grows hgrows (act.length_objects h ?_ hcell hc')
    intro w size hact hsame
    exact hcreate ⟨w, size, hact, hsame⟩

theorem numbered_writer {s : Serving} {act : WriterAct} {track : Subgroups}
    (hs : ∀ cell ∈ s.track.cells, Numbered cell) (hcounted : Counted s (.writer act))
    (h : act.apply s.track = some track) : ∀ cell ∈ track.cells, Numbered cell := by
  rcases apply_cell act with ⟨w, info, rfl⟩ | ⟨err, rfl⟩ | rfl | ⟨w, f, happly, -⟩
  · obtain ⟨created, hcreate, rfl⟩ := Option.map_eq_some_iff.mp h
    rcases SubgroupsWriter.create_cases (eq_ok_of_toOption hcreate) with heq | heq
    · rw [heq]
      exact numbered_append hs rfl
    · rw [heq]
      exact numbered_append hs rfl
  · obtain ⟨-, -, rfl⟩ := Watch.eq_of_closeWith (eq_ok_of_toOption h)
    exact hs
  · simp only [WriterAct.apply] at h
    split at h
    · cases h
    · cases h
      exact hs
  · have hlength : track.cells.length = s.track.cells.length := by
      rw [happly] at h
      obtain ⟨c, -, h⟩ := Option.bind_eq_some_iff.mp h
      obtain ⟨c', -, h⟩ := Option.bind_eq_some_iff.mp h
      cases h
      simp [Subgroups.setCell]
    intro cell' hmem
    obtain ⟨i, hi⟩ := List.mem_iff_getElem?.mp hmem
    exact numbered_changed hs hcounted h
      (hlength ▸ (List.getElem?_eq_some_iff.mp hi).1) hi

theorem kept_init {id trackAlias : Nat} (hid : fitsVarInt id) (halias : fitsVarInt trackAlias) :
    Kept (init id trackAlias) :=
  ⟨onTime_init hid halias, rfl, by simp [init, Subgroups.produce]⟩

theorem kept_step {s s' : Serving} {act : ServeAct} (hs : Kept s) (hact : HandleKept s act)
    (h : s.step act = some s') : Kept s' := by
  obtain ⟨hundisturbed, hremove, hcounted⟩ := hact
  have horderly : Orderly s act := by
    refine ⟨hundisturbed, ?_⟩
    unfold InTime
    split
    · exact absurd rfl hremove
    · intro hdropped
      simp [hs.live] at hdropped
    · trivial
  have honTime := onTime_step hs.onTime horderly h
  cases steps_of_step h with
  | writer htrack => exact ⟨honTime, hs.live, numbered_writer hs.numbered hcounted htrack⟩
  | unsubscribe => cases hundisturbed
  | serve _ =>
      unfold serve at honTime ⊢
      split at honTime
      · next hdropped => simp [hs.live] at hdropped
      · next hlive =>
          rw [if_neg hlive]
          exact ⟨honTime, hs.live, hs.numbered⟩
  | close _ hdropped => exact ⟨honTime, hdropped.trans hs.live, hs.numbered⟩
  | remove _ => exact absurd rfl hremove
  | task _ _ hstep => exact ⟨honTime, hstep.shared.1.trans hs.live, hs.numbered⟩
  | _ => exact ⟨honTime, hs.live, hs.numbered⟩

theorem ids_step {s s' : Serving} {act : ServeAct} (h : s.step act = some s') :
    s'.id = s.id ∧ s'.trackAlias = s.trackAlias := by
  cases steps_of_step h with
  | serve _ =>
      unfold serve
      split
      · exact ⟨rfl, rfl⟩
      · exact ⟨rfl, rfl⟩
  | _ => exact ⟨rfl, rfl⟩

/-- A subgroup that is written stays as it is. -/
theorem written_apply {track track' : Subgroups} {act : WriterAct}
    (h : act.apply track = some track') {i : Nat} {cell : SubgroupCell}
    (hcell : track.cells[i]? = some cell) (hwritten : Written cell) :
    track'.cells[i]? = some cell := by
  have hlt := (List.getElem?_eq_some_iff.mp hcell).1
  rcases apply_cell act with ⟨w, info, rfl⟩ | ⟨err, rfl⟩ | rfl | ⟨w, f, happly, hnone⟩
  · obtain ⟨created, hcreate, rfl⟩ := Option.map_eq_some_iff.mp h
    obtain ⟨new, happend⟩ := SubgroupsWriter.cells_create (eq_ok_of_toOption hcreate)
    rw [happend, List.getElem?_append_left hlt, hcell]
  · obtain ⟨-, -, rfl⟩ := Watch.eq_of_closeWith (eq_ok_of_toOption h)
    exact hcell
  · simp only [WriterAct.apply] at h
    split at h
    · cases h
    · cases h
      exact hcell
  · rw [happly] at h
    obtain ⟨c, hc, h⟩ := Option.bind_eq_some_iff.mp h
    obtain ⟨c', hc', h⟩ := Option.bind_eq_some_iff.mp h
    cases h
    have hne : w.cell ≠ i := by
      rintro rfl
      obtain rfl : c = cell := by simpa [hcell] using hc.symm
      rw [hnone c hwritten] at hc'
      cases hc'
    simpa [Subgroups.setCell, hne] using hcell

/-- The task at `i` serves the subgroup. -/
structure Serves (s : Serving) (i : Nat) (cell : SubgroupCell) (t : SubgroupTask) : Prop where
  task : s.tasks[i]? = some t
  cell : s.track.cells[t.reader.cell]? = some cell

/-- Only its own steps bring a task closer to its end, and no step takes it
further away. -/
theorem serves_step {s s' : Serving} {act : ServeAct} {i : Nat} {cell : SubgroupCell}
    {t : SubgroupTask} (hact : HandleKept s act) (h : s.step act = some s')
    (hserves : Serves s i cell t) (hwritten : Written cell) :
    ∃ t', Serves s' i cell t' ∧
      (if act = .task i then 1 else 0) + phaseRank cell t' ≤ phaseRank cell t := by
  cases steps_of_step h with
  | writer htrack =>
      exact ⟨t, ⟨hserves.task, written_apply htrack hserves.cell hwritten⟩, by simp⟩
  | serve _ =>
      refine ⟨t, ?_, by simp⟩
      unfold serve
      split
      · exact ⟨hserves.task, hserves.cell⟩
      · exact ⟨hserves.task, hserves.cell⟩
  | spawn _ _ _ =>
      have hlt := (List.getElem?_eq_some_iff.mp hserves.task).1
      refine ⟨t, ⟨?_, hserves.cell⟩, by simp⟩
      rw [List.getElem?_append_left hlt]
      exact hserves.task
  | @task index u u' c shared hu hc hstep =>
      by_cases hsame : index = i
      · subst hsame
        obtain rfl : u = t := by simpa [hu] using hserves.task
        obtain rfl : c = cell := by simpa [hc] using hserves.cell
        have hlt := (List.getElem?_eq_some_iff.mp hu).1
        have hrank := phaseRank_lt hstep
        refine ⟨u', ⟨List.getElem?_set_self hlt, by rw [hstep.keeps.1]; exact hc⟩, ?_⟩
        rw [if_pos rfl]
        omega
      · refine ⟨t, ⟨?_, hserves.cell⟩, by simp [hsame]⟩
        rw [List.getElem?_set_ne hsame]
        exact hserves.task
  | transportFailure _ => cases hact.1
  | _ => exact ⟨t, ⟨hserves.task, hserves.cell⟩, by simp⟩

theorem serves_run {s s' : Serving} {acts : List ServeAct} {i : Nat} {cell : SubgroupCell}
    {t : SubgroupTask} (hrun : Run step HandleKept s acts s') (hserves : Serves s i cell t)
    (hwritten : Written cell) :
    ∃ t', Serves s' i cell t' ∧ acts.count (.task i) + phaseRank cell t' ≤ phaseRank cell t := by
  induction hrun generalizing t with
  | nil => exact ⟨t, hserves, by simp⟩
  | @cons _ _ _ act acts hact hstep _ ih =>
      obtain ⟨mid, hmid, hfirst⟩ := serves_step hact hstep hserves hwritten
      obtain ⟨t', ht', hrest⟩ := ih hmid
      refine ⟨t', ht', ?_⟩
      simp only [List.count_cons, beq_iff_eq]
      omega

theorem phaseRank_pos {cell : SubgroupCell} {t : SubgroupTask} (hprogress : Progress cell t)
    (hphase : t.phase ≠ .finished) : 0 < phaseRank cell t := by
  unfold phaseRank
  dsimp only
  split
  · omega
  · omega
  · omega
  · omega
  · omega
  · omega
  · omega
  · next hfinished => exact absurd hfinished hphase
  · next hfailed =>
      simp only [Progress, hfailed] at hprogress

/-- The ids and sizes of the subgroup can be encoded. The objects are numbered
from zero. -/
structure SubgroupFits (cell : SubgroupCell) : Prop where
  group : fitsVarInt cell.info.groupId
  subgroup : fitsVarInt cell.info.subgroupId
  sizes : ∀ o ∈ cell.state.value.objects, fitsVarInt o.info.size
  count : cell.state.value.objects.length ≤ 2 ^ 62

theorem sound_of_fits {cell : SubgroupCell} (hwritten : Written cell) (hfits : SubgroupFits cell)
    (hnumbered : Numbered cell) : Sound cell := by
  refine ⟨hfits.group, hfits.subgroup, hwritten.closed, ?_⟩
  intro o ho
  refine ⟨⟨?_, hfits.sizes o ho⟩, (hwritten.objects o ho).closed⟩
  obtain ⟨i, hi⟩ := List.mem_iff_getElem?.mp ho
  have hlt := (List.getElem?_eq_some_iff.mp hi).1
  have hcount := hfits.count
  change fitsVarInt o.info.objectId
  rw [(hnumbered i o hi).1, fitsVarInt]
  omega

/-- What a sound subgroup puts on the wire can be read back. -/
theorem content_ok {cell : SubgroupCell} (hsound : Sound cell) (hwritten : Written cell)
    (hnumbered : Numbered cell) :
    ∀ o ∈ cell.state.value.objects.map SubgroupObjectCell.content, o.Ok := by
  intro o ho
  obtain ⟨object, hobject, rfl⟩ := List.mem_map.mp ho
  obtain ⟨i, hi⟩ := List.mem_iff_getElem?.mp hobject
  have hok := (hsound.objects object hobject).1
  refine ⟨⟨hok.1, ?_⟩, fun _ => (hnumbered i object hi).2⟩
  have hsize : fitsVarInt object.info.size := hok.2
  rw [(hwritten.objects object hobject).size] at hsize
  exact hsize

end Serving

/-- The peer's subscription takes subgroups, its track has a reader, and it has
seen none as new. -/
def ReadyFor (peer : Subscriber) (id : Nat) (info : Subgroup) : Prop :=
  ∃ recv, Live peer id recv ∧ Accepting recv ∧
    ∀ k ∈ newest recv (peer.shared id).track, k < info.key

/-- A reader of the peer's track gets the subgroup as it was written, and then
its end. -/
def Received (peer : Subscriber) (id : Nat) (cell : SubgroupCell) : Prop :=
  ∃ reader stored, (peer.shared id).track.subgroups.state.value.latest = some reader ∧
    (peer.shared id).track.subgroups.cells[reader.cell]? = some stored ∧
    reader.info = cell.info ∧ SubgroupYields stored reader.index (objectList cell)

/-- The bytes give every peer that is ready the subgroup, in whatever pieces
they arrive. -/
def Delivers (id : Nat) (cell : SubgroupCell) (sent : Bytes) : Prop :=
  ∀ peer stream, ReadyFor peer id cell.info → joined stream.pieces = sent →
    stream.failure = none →
    (peer.recvStream stream).1 = .ok () ∧ Received (peer.recvStream stream).2 id cell

theorem delivers_streamWire {id trackAlias : Nat} {cell : SubgroupCell} (hid : fitsVarInt id)
    (halias : fitsVarInt trackAlias) (hsound : Sound cell) (hwritten : Serving.Written cell)
    (hnumbered : Numbered cell) :
    Delivers id cell (streamWire
      ⟨id, trackAlias, cell.info.groupId, cell.info.subgroupId, cell.info.priority⟩
      (cell.state.value.objects.map SubgroupObjectCell.content)) := by
  rintro peer stream ⟨recv, hlive, haccepting, hnew⟩ hbytes hfailure
  obtain ⟨w, stored, hresult, -, hcontents, hcomplete, hlatest, hcells⟩ :=
    Subscriber.recvStream_above hlive haccepting rfl
      ⟨hid, halias, hsound.group, hsound.subgroup⟩
      (Serving.content_ok hsound hwritten hnumbered) hbytes hnew
  rw [hfailure] at hresult
  rw [renumber_numbered hnumbered] at hcontents
  have hstored : Serving.Written ⟨cell.info, ⟨⟨stored, none⟩, true⟩⟩ := ⟨rfl, rfl, hcomplete⟩
  refine ⟨hresult, _, ⟨cell.info, ⟨⟨stored, none⟩, true⟩⟩, hlatest, ?_, rfl, ?_⟩
  · rw [hcells]
    exact List.getElem?_concat_length
  · rw [objectList_eq hwritten hstored hcontents.symm]
    exact subgroupYields_objectList hstored

namespace Serving

/-- The task of a subgroup that has been written is never stuck and finishes
after a bounded number of its own steps, whatever else happens in between as
long as the handle is kept; and what it has sent then delivers the subgroup.
Nothing is subtracted from a shorter length on the way. -/
theorem delivered_completely (id trackAlias : Nat) (s s' : Serving) (acts : List ServeAct)
    (i : Nat) (t : SubgroupTask) (cell : SubgroupCell) (hid : fitsVarInt id)
    (halias : fitsVarInt trackAlias) (hs : Reachable step HandleKept (init id trackAlias) s)
    (hserves : Serves s i cell t) (hwritten : Written cell) (hfits : SubgroupFits cell)
    (hrun : Run step HandleKept s acts s') :
    (∃ t', Serves s' i cell t' ∧
      (t'.phase ≠ .finished →
        acts.count (.task i) < phaseRank cell t ∧ ∃ s'', s'.step (.task i) = some s'') ∧
      (t'.phase = .finished → Delivers id cell t'.stream.sent)) ∧
    ∀ (α : Type) (d : Decode α) (r : Reader), Reader.decodeChecked d r = Reader.decode d r := by
  refine ⟨?_, fun α => Reader.decodeChecked_eq⟩
  have hs' := hrun.reachable hs
  have hkept : Kept s' := hs'.invariant (kept_init hid halias) kept_step
  have hids : s'.id = id ∧ s'.trackAlias = trackAlias := by
    apply hs'.invariant ⟨rfl, rfl⟩
    intro s s' act hs _ h
    exact ⟨(ids_step h).1.trans hs.1, (ids_step h).2.trans hs.2⟩
  obtain ⟨t', hserves', hrank⟩ := serves_run hrun hserves hwritten
  have hnumbered := hkept.numbered cell (List.mem_of_getElem? hserves'.cell)
  have hsound := sound_of_fits hwritten hfits hnumbered
  have hon := (hkept.onTime.task (List.mem_of_getElem? hserves'.task) hserves'.cell).1 hsound
  refine ⟨t', hserves', ?_, ?_⟩
  · intro hphase
    have hpos := phaseRank_pos hon.progress hphase
    obtain ⟨next, hnext⟩ := exists_next hwritten hon.progress hphase s'.shared
    exact ⟨by omega, _, step_task_eq hserves'.task hserves'.cell hnext⟩
  · intro hphase
    obtain ⟨c, hc, -, hstream⟩ := sentAll_of_onTrack hserves'.cell hwritten.objects hon hphase
    obtain rfl : c = cell := by simpa [hc] using hserves'.cell
    rw [hstream, hids.1, hids.2]
    exact delivers_streamWire hid halias hsound hwritten hnumbered

def handleKept (s : Serving) (act : ServeAct) : Bool :=
  Undisturbed act && act != .remove &&
    match act with
    | .writer (.createObject w _) =>
        s.track.cells[w.cell]?.all fun cell => w.next = cell.state.value.objects.length
    | _ => true

theorem handleKept_of_eq (s : Serving) (act : ServeAct) (h : handleKept s act = true) :
    HandleKept s act := by
  simp only [handleKept, Bool.and_eq_true, bne_iff_ne] at h
  refine ⟨h.1.1, h.1.2, ?_⟩
  unfold Counted
  split
  · next w size =>
      intro cell hcell
      have hall := h.2
      dsimp only at hall
      rw [Option.mem_def.mp hcell] at hall
      simpa using hall
  · trivial

/-- Two objects in pieces, served to their ends. -/
theorem delivered_completely_twoObjects :
    ∃ s s' t', run step handleKept (init 0 0) writeAndLoop = some s ∧
      run step handleKept s (List.replicate 17 (.task 0)) = some s' ∧
      s'.tasks[0]? = some t' ∧ t'.phase = .finished ∧ Delivers 0 twoObjects t'.stream.sent := by
  have hrun : ∃ s s' t t', run step handleKept (init 0 0) writeAndLoop = some s ∧
      run step handleKept s (List.replicate 17 (.task 0)) = some s' ∧
      Serves s 0 twoObjects t ∧ s'.tasks[0]? = some t' ∧ t'.phase = .finished :=
    ⟨_, _, _, _, rfl, rfl, ⟨rfl, rfl⟩, rfl, rfl⟩
  obtain ⟨s, s', t, t', hs, hs', hserves, ht', hphase⟩ := hrun
  have hwritten : Written twoObjects :=
    ⟨rfl, rfl, by simpa [twoObjects] using ⟨⟨rfl, rfl, rfl⟩, ⟨rfl, rfl, rfl⟩⟩⟩
  have hfits : SubgroupFits twoObjects := by
    refine ⟨by decide, by decide, ?_, by decide⟩
    simp [twoObjects, fitsVarInt]
  obtain ⟨⟨u, hu, -, hdelivers⟩, -⟩ := delivered_completely 0 0 s s' _ 0 t twoObjects (by decide)
    (by decide) (reachable_of_run handleKept handleKept_of_eq hs) hserves hwritten hfits
    (run_of_eq handleKept handleKept_of_eq hs')
  obtain rfl : u = t' := by simpa [hu.task] using ht'
  exact ⟨s, s', u, hs, hs', ht', hphase, hdelivers hphase⟩

/-- A subgroup of a group whose id does not fit the wire. -/
def largeGroup : SubgroupCell := ⟨⟨2 ^ 62, 0, 127⟩, ⟨⟨[], none⟩, true⟩⟩

/-- Its header cannot be encoded: the task fails and a peer gets nothing. -/
theorem not_delivered_largeGroup :
    ∃ s t, Reachable step HandleKept (init 0 0) s ∧ Serves s 0 largeGroup t ∧
      Written largeGroup ∧ (∃ fault, t.phase = .failed fault) ∧
      ¬ Delivers 0 largeGroup t.stream.sent := by
  have hrun : ∃ s t, run step handleKept (init 0 0)
      [.writer (.create .new ⟨2 ^ 62, 0, 127⟩), .writer (.dropSubgroup ⟨0, ⟨2 ^ 62, 0, 127⟩, 0⟩),
        .serve, .next, .task 0, .task 0] = some s ∧ Serves s 0 largeGroup t ∧
      (∃ fault, t.phase = .failed fault) ∧ t.stream.sent = [] :=
    ⟨_, _, rfl, ⟨rfl, rfl⟩, ⟨_, rfl⟩, rfl⟩
  obtain ⟨s, t, hs, hserves, hfailed, hsent⟩ := hrun
  refine ⟨s, t, reachable_of_run handleKept handleKept_of_eq hs, hserves,
    ⟨rfl, rfl, by simp [largeGroup]⟩, hfailed, ?_⟩
  intro hdelivers
  have hready : ReadyFor (Subscriber.subscribed 0) 0 largeGroup.info :=
    ⟨_, Subscriber.live_subscribed 0, trivial, by simp [newest]⟩
  have hresult := (hdelivers (Subscriber.subscribed 0) ⟨[], none⟩ hready (by simp [hsent, joined])
    rfl).1
  cases hresult

end Serving

end MoqTransport.Session
