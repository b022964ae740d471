import Mathlib.Data.Prod.Lex
import MoqTransport.Data.Object
import MoqTransport.Watch.State

/-!
The cache of a track in subgroup mode. A track keeps the newest subgroup; a
subgroup keeps its objects, and an object the chunks of its payload. Writers
and readers refer to the shared states, which are gathered here in one record
for each track: `cells` lists every subgroup ever created, and a handle names
its subgroup by position.
-/

namespace MoqTransport.Serve

open Streaming Data

/-- The parameters of a subgroup, shared by its writer and its readers. -/
structure Subgroup where
  groupId : Nat
  subgroupId : Nat
  priority : UInt8
deriving DecidableEq

/-- Subgroups are ordered by group, then by subgroup. -/
def Subgroup.key (info : Subgroup) : Nat ×ₗ Nat := toLex (info.groupId, info.subgroupId)

structure SubgroupObject where
  objectId : Nat
  size : Nat
  status : ObjectStatus
deriving DecidableEq

structure SubgroupObjectState where
  chunks : List Bytes
  closed : Option ServeError
deriving DecidableEq

/-- An object and the state its writer and readers share. -/
structure SubgroupObjectCell where
  info : SubgroupObject
  state : Watch.State SubgroupObjectState
deriving DecidableEq

def SubgroupObject.produce (info : SubgroupObject) : SubgroupObjectCell :=
  ⟨info, .new ⟨[], none⟩⟩

structure SubgroupState where
  objects : List SubgroupObjectCell
  closed : Option ServeError
deriving DecidableEq

/-- A subgroup and the state its writer and readers share. -/
structure SubgroupCell where
  info : Subgroup
  state : Watch.State SubgroupState
deriving DecidableEq

def Subgroup.produce (info : Subgroup) : SubgroupCell := ⟨info, .new ⟨[], none⟩⟩

/-- A reader of the subgroup at position `cell`, about to read its object
`index`. -/
structure SubgroupReader where
  cell : Nat
  info : Subgroup
  index : Nat
deriving DecidableEq

structure SubgroupsState where
  latest : Option SubgroupReader
  /-- Updated each time `latest` changes. -/
  epoch : Nat
  closed : Option ServeError
deriving DecidableEq

/-- A track in subgroup mode. -/
structure Subgroups where
  cells : List SubgroupCell
  state : Watch.State SubgroupsState
deriving DecidableEq

def Subgroups.produce : Subgroups := ⟨[], .new ⟨none, 0, none⟩⟩

/-- Used to write the objects of one subgroup. -/
structure SubgroupWriter where
  cell : Nat
  info : Subgroup
  /-- The next object sequence number to use. -/
  next : Nat
deriving DecidableEq

structure SubgroupsWriter where
  next : Nat
  nextGroupId : Nat
  lastGroupId : Nat
deriving DecidableEq

def SubgroupsWriter.new : SubgroupsWriter := ⟨0, 0, 0⟩

namespace Subgroups

def cell (track : Subgroups) (handle : SubgroupWriter) : SubgroupCell :=
  track.cells.getD handle.cell handle.info.produce

def setCell (track : Subgroups) (handle : SubgroupWriter) (cell : SubgroupCell) : Subgroups :=
  { track with cells := track.cells.set handle.cell cell }

/-- The new subgroup becomes the latest. The reader of the one before leaves
the state; readers cloned from it live on. -/
def install (track : Subgroups) (info : Subgroup) : SubgroupWriter × Subgroups :=
  let cell := track.cells.length
  (⟨cell, info, 0⟩,
    { cells := track.cells ++ [info.produce]
      state := track.state.update fun s =>
        { s with latest := some ⟨cell, info, 0⟩, epoch := s.epoch + 1 } })

/-- The new subgroup has a writer, but its only reader is dropped at once. -/
def orphan (track : Subgroups) (info : Subgroup) : SubgroupWriter × Subgroups :=
  (⟨track.cells.length, info, 0⟩,
    { track with cells := track.cells ++ [{ info.produce with state := info.produce.state.drop }] })

end Subgroups

namespace SubgroupsWriter

def installed (w : SubgroupsWriter) (info : Subgroup) : SubgroupsWriter :=
  { w with
    next := info.subgroupId + 1
    nextGroupId := info.groupId + 1
    lastGroupId := info.groupId }

def create (w : SubgroupsWriter) (track : Subgroups) (info : Subgroup) :
    Except ServeError (SubgroupWriter × SubgroupsWriter × Subgroups) :=
  let install := .ok ((track.install info).1, w.installed info, (track.install info).2)
  let ignore := .ok ((track.orphan info).1, w, (track.orphan info).2)
  if track.state.dropped then
    .error .cancel
  else
    match track.state.value.latest with
    | some latest =>
        if info.groupId = latest.info.groupId then
          match compare info.subgroupId latest.info.subgroupId with
          | .lt => ignore
          | .eq => .error .duplicate
          | .gt => install
        else if info.groupId > latest.info.groupId then
          install
        else
          ignore
    | none => install

/-- A subgroup above the latest becomes the latest. -/
theorem create_newest (w : SubgroupsWriter) {track : Subgroups} {info : Subgroup}
    (hlive : track.state.dropped = false)
    (hnew : ∀ latest ∈ track.state.value.latest, latest.info.key < info.key) :
    w.create track info =
      .ok ((track.install info).1, w.installed info, (track.install info).2) := by
  unfold create
  rw [if_neg (by simp [hlive])]
  cases hlatest : track.state.value.latest with
  | none => rfl
  | some latest =>
      have hlt := Prod.Lex.lt_iff.mp (hnew latest hlatest)
      dsimp only
      rcases hlt with hgroup | ⟨hgroup, hsubgroup⟩
      · have hgroup : latest.info.groupId < info.groupId := hgroup
        rw [if_neg (by omega), if_pos hgroup]
      · have hsame : latest.info.groupId = info.groupId := hgroup
        have hless : latest.info.subgroupId < info.subgroupId := hsubgroup
        rw [if_pos hsame.symm, Nat.compare_eq_gt.mpr hless]

/-- A subgroup below the latest is an orphan. -/
theorem create_older (w : SubgroupsWriter) {track : Subgroups} {info : Subgroup}
    (hlive : track.state.dropped = false) {latest : SubgroupReader}
    (hlatest : track.state.value.latest = some latest) (holder : info.key < latest.info.key) :
    w.create track info = .ok ((track.orphan info).1, w, (track.orphan info).2) := by
  unfold create
  rw [if_neg (by simp [hlive]), hlatest]
  dsimp only
  rcases Prod.Lex.lt_iff.mp holder with hgroup | ⟨hgroup, hsubgroup⟩
  · have hgroup : info.groupId < latest.info.groupId := hgroup
    rw [if_neg (by omega), if_neg (by omega)]
  · have hsame : info.groupId = latest.info.groupId := hgroup
    have hlt : info.subgroupId < latest.info.subgroupId := hsubgroup
    rw [if_pos hsame, Nat.compare_eq_lt.mpr hlt]

/-- The latest subgroup is not created again. -/
theorem create_same (w : SubgroupsWriter) {track : Subgroups} {info : Subgroup}
    (hlive : track.state.dropped = false) {latest : SubgroupReader}
    (hlatest : track.state.value.latest = some latest) (hsame : info.key = latest.info.key) :
    w.create track info = .error .duplicate := by
  obtain ⟨hgroup, hsubgroup⟩ := Prod.mk.inj (toLex_inj.mp hsame)
  unfold create
  rw [if_neg (by simp [hlive]), hlatest]
  dsimp only
  rw [if_pos hgroup, Nat.compare_eq_eq.mpr hsubgroup]

/-- A subgroup at or below the latest is a duplicate or an orphan. -/
theorem create_stale (w : SubgroupsWriter) {track : Subgroups} {info : Subgroup}
    (hlive : track.state.dropped = false) {latest : SubgroupReader}
    (hlatest : track.state.value.latest = some latest) (hstale : info.key ≤ latest.info.key) :
    w.create track info = .error .duplicate ∨
      w.create track info = .ok ((track.orphan info).1, w, (track.orphan info).2) := by
  rcases lt_or_eq_of_le hstale with holder | hsame
  · exact .inr (create_older w hlive hlatest holder)
  · exact .inl (create_same w hlive hlatest hsame)

/-- What `create` can come to, by how the subgroup compares to the latest. -/
inductive Creates (w : SubgroupsWriter) (track : Subgroups) (info : Subgroup) :
    Except ServeError (SubgroupWriter × SubgroupsWriter × Subgroups) → Prop where
  | cancel (hdropped : track.state.dropped = true) : Creates w track info (.error .cancel)
  | newest (hlive : track.state.dropped = false)
      (hnew : ∀ latest ∈ track.state.value.latest, latest.info.key < info.key) :
      Creates w track info
        (.ok ((track.install info).1, w.installed info, (track.install info).2))
  | same {latest : SubgroupReader} (hlive : track.state.dropped = false)
      (hlatest : track.state.value.latest = some latest) (hsame : info.key = latest.info.key) :
      Creates w track info (.error .duplicate)
  | older {latest : SubgroupReader} (hlive : track.state.dropped = false)
      (hlatest : track.state.value.latest = some latest) (holder : info.key < latest.info.key) :
      Creates w track info (.ok ((track.orphan info).1, w, (track.orphan info).2))

theorem creates (w : SubgroupsWriter) (track : Subgroups) (info : Subgroup) :
    Creates w track info (w.create track info) := by
  cases hdropped : track.state.dropped with
  | true =>
      have hcancel : w.create track info = .error .cancel := by
        rw [create, if_pos hdropped]
      rw [hcancel]
      exact .cancel hdropped
  | false =>
      by_cases hnew : ∀ latest ∈ track.state.value.latest, latest.info.key < info.key
      · rw [create_newest w hdropped hnew]
        exact .newest hdropped hnew
      · push Not at hnew
        obtain ⟨latest, hlatest, hle⟩ := hnew
        rcases lt_or_eq_of_le hle with holder | hsame
        · rw [create_older w hdropped hlatest holder]
          exact .older hdropped hlatest holder
        · rw [create_same w hdropped hlatest hsame]
          exact .same hdropped hlatest hsame

/-- Exactly the latest subgroup is a duplicate. -/
theorem create_duplicate_iff (w : SubgroupsWriter) {track : Subgroups} {info : Subgroup}
    (hlive : track.state.dropped = false) :
    w.create track info = .error .duplicate ↔
      ∃ latest ∈ track.state.value.latest, latest.info.key = info.key := by
  constructor
  · intro hduplicate
    have hcreates := w.creates track info
    rw [hduplicate] at hcreates
    cases hcreates with
    | same _ hlatest hsame => exact ⟨_, hlatest, hsame.symm⟩
  · rintro ⟨latest, hlatest, hsame⟩
    exact create_same w hlive hlatest hsame.symm

def append (w : SubgroupsWriter) (track : Subgroups) (priority : UInt8) :
    Except ServeError (SubgroupWriter × SubgroupsWriter × Subgroups) :=
  w.create track ⟨w.nextGroupId, 0, priority⟩

def close (track : Subgroups) (err : ServeError) : Except ServeError Subgroups := do
  let closed ← Watch.closeWith .cancel track.state.value.closed track.state.dropped err
  pure { track with state := track.state.update fun s => { s with closed := closed } }

end SubgroupsWriter

/-- A reader of the track: the latest subgroup if it has changed since. -/
def SubgroupsReader.next (track : Subgroups) (epoch : Nat) :
    Watch.Poll (Except ServeError (Option SubgroupReader)) :=
  if epoch ≠ track.state.value.epoch then
    .ready (.ok track.state.value.latest)
  else
    Watch.exhausted track.state.value.closed track.state.dropped

namespace SubgroupsReader

/-- What `next` returns, by whether the reader has the newest subgroup. -/
theorem next_eq_latest {track : Subgroups} {epoch : Nat} (h : epoch ≠ track.state.value.epoch) :
    next track epoch = .ready (.ok track.state.value.latest) := by
  rw [next, if_pos h]

theorem next_eq_exhausted {track : Subgroups} {epoch : Nat}
    (h : epoch = track.state.value.epoch) :
    next track epoch = Watch.exhausted track.state.value.closed track.state.dropped := by
  rw [next, if_neg (not_not.mpr h)]

end SubgroupsReader

structure SubgroupObjectWriter where
  index : Nat
  info : SubgroupObject
  /-- The amount of promised data that has yet to be written. -/
  remain : Nat
deriving DecidableEq

namespace SubgroupWriter

/-- Write an object over multiple writes. The object gets the next id and
the status `object`, whatever the caller received. -/
def create (w : SubgroupWriter) (cell : SubgroupCell) (size : Nat) :
    SubgroupWriter × Except ServeError (SubgroupObjectWriter × SubgroupCell) :=
  let object : SubgroupObject := ⟨w.next, size, .object⟩
  ({ w with next := w.next + 1 },
    if cell.state.dropped then
      .error .cancel
    else
      .ok (⟨cell.state.value.objects.length, object, size⟩,
        { cell with
          state := cell.state.update fun s =>
            { s with objects := s.objects ++ [object.produce] } }))

def close (cell : SubgroupCell) (err : ServeError) : Except ServeError SubgroupCell := do
  let closed ← Watch.closeWith .cancel cell.state.value.closed cell.state.dropped err
  pure { cell with state := cell.state.update fun s => { s with closed := closed } }

end SubgroupWriter

namespace SubgroupState

def object (s : SubgroupState) (handle : SubgroupObjectWriter) : SubgroupObjectCell :=
  s.objects.getD handle.index handle.info.produce

def setObject (s : SubgroupState) (handle : SubgroupObjectWriter)
    (object : SubgroupObjectCell) : SubgroupState :=
  { s with objects := s.objects.set handle.index object }

@[simp]
theorem object_push (s : SubgroupState) (object : SubgroupObjectCell) (info : SubgroupObject)
    (remain : Nat) :
    { s with objects := s.objects ++ [object] }.object ⟨s.objects.length, info, remain⟩ =
      object := by
  simp [SubgroupState.object]

@[simp]
theorem setObject_push (s : SubgroupState) (object object' : SubgroupObjectCell)
    (info : SubgroupObject) (remain : Nat) :
    { s with objects := s.objects ++ [object] }.setObject ⟨s.objects.length, info, remain⟩
      object' = { s with objects := s.objects ++ [object'] } := by
  simp [SubgroupState.setObject]

end SubgroupState

namespace SubgroupCell

/-- A reader of the subgroup: its object `index` once it exists. -/
def next (cell : SubgroupCell) (index : Nat) :
    Watch.Poll (Except ServeError (Option SubgroupObjectCell)) :=
  match cell.state.value.objects[index]? with
  | some object => .ready (.ok (some object))
  | none => Watch.exhausted cell.state.value.closed cell.state.dropped

theorem next_of_some {cell : SubgroupCell} {index : Nat} {object : SubgroupObjectCell}
    (h : cell.state.value.objects[index]? = some object) :
    cell.next index = .ready (.ok (some object)) := by
  rw [next, h]

theorem next_of_none {cell : SubgroupCell} {index : Nat}
    (h : cell.state.value.objects[index]? = none) :
    cell.next index = Watch.exhausted cell.state.value.closed cell.state.dropped := by
  rw [next, h]

theorem next_eq_some_iff {cell : SubgroupCell} {index : Nat} {object : SubgroupObjectCell} :
    cell.next index = .ready (.ok (some object)) ↔
      cell.state.value.objects[index]? = some object := by
  constructor
  · intro h
    cases hobject : cell.state.value.objects[index]? with
    | some other =>
        rw [next_of_some hobject] at h
        simpa using h
    | none =>
        rw [next_of_none hobject] at h
        exact absurd h Watch.exhausted_ne_some
  · exact next_of_some

/-- Behind the last object of a subgroup that was written completely. -/
theorem next_ended {cell : SubgroupCell} {index : Nat}
    (h : cell.state.value.objects[index]? = none) (hclosed : cell.state.value.closed = none)
    (hdropped : cell.state.dropped = true) : cell.next index = .ready (.ok none) :=
  (next_of_none h).trans (Watch.exhausted_eq_none_iff.mpr ⟨hclosed, hdropped⟩)

end SubgroupCell

namespace SubgroupObjectCell

/-- `SubgroupObjectWriter::write` on the shared state. -/
def push (object : SubgroupObjectCell) (chunk : Bytes) : SubgroupObjectCell :=
  { object with state := object.state.update fun s => { s with chunks := s.chunks ++ [chunk] } }

/-- The writer goes away with `remain` bytes still promised. -/
def dropWriter (remain : Nat) (object : SubgroupObjectCell) : SubgroupObjectCell :=
  let state :=
    if remain = 0 ∨ object.state.dropped then
      object.state
    else
      object.state.update fun s => { s with closed := some .size }
  { object with state := state.drop }

/-- A reader of the object: its chunk `index` once it exists. -/
def read (object : SubgroupObjectCell) (index : Nat) :
    Watch.Poll (Except ServeError (Option Bytes)) :=
  match object.state.value.chunks[index]? with
  | some chunk => .ready (.ok (some chunk))
  | none => Watch.exhausted object.state.value.closed object.state.dropped

theorem read_of_some {object : SubgroupObjectCell} {index : Nat} {chunk : Bytes}
    (h : object.state.value.chunks[index]? = some chunk) :
    object.read index = .ready (.ok (some chunk)) := by
  rw [read, h]

theorem read_of_none {object : SubgroupObjectCell} {index : Nat}
    (h : object.state.value.chunks[index]? = none) :
    object.read index = Watch.exhausted object.state.value.closed object.state.dropped := by
  rw [read, h]

/-- Behind the last chunk of an object that was written completely. -/
theorem read_ended {object : SubgroupObjectCell} {index : Nat}
    (h : object.state.value.chunks[index]? = none) (hclosed : object.state.value.closed = none)
    (hdropped : object.state.dropped = true) : object.read index = .ready (.ok none) :=
  (read_of_none h).trans (Watch.exhausted_eq_none_iff.mpr ⟨hclosed, hdropped⟩)

/-- What a reader of the object gets, once its writer is done. -/
def content (object : SubgroupObjectCell) : ObjectContent :=
  ⟨object.info.objectId, object.info.status, object.state.value.chunks.flatten⟩

/-- The object has its promised size, and its readers see the end after
it. -/
structure Complete (object : SubgroupObjectCell) : Prop where
  size : object.info.size = object.content.payload.length
  closed : object.state.value.closed = none
  dropped : object.state.dropped = true

end SubgroupObjectCell

namespace SubgroupObjectWriter

/-- Write a new chunk of bytes, no more than promised. The object of a
writer is shared with its readers; whether they are gone is `dropped`. -/
def write (w : SubgroupObjectWriter) (object : SubgroupObjectCell) (chunk : Bytes) :
    SubgroupObjectWriter × Except ServeError SubgroupObjectCell :=
  if chunk.length > w.remain then
    (w, .error .size)
  else
    ({ w with remain := w.remain - chunk.length },
      if object.state.dropped then .error .cancel else .ok (object.push chunk))

/-- Close an object that has been written completely. -/
def close (w : SubgroupObjectWriter) (object : SubgroupObjectCell) (err : ServeError) :
    Except ServeError SubgroupObjectCell := do
  if w.remain ≠ 0 then
    throw .size
  let closed ← Watch.closeWith .cancel object.state.value.closed object.state.dropped err
  pure { object with state := object.state.update fun s => { s with closed := closed } }

end SubgroupObjectWriter

/-! Objects that are written and read in one call. -/

/-- An object after its payload was written and its writer dropped. -/
def SubgroupObjectCell.written (objectId : Nat) (payload : Bytes) : SubgroupObjectCell :=
  ⟨⟨objectId, payload.length, .object⟩, ⟨⟨[payload], none⟩, true⟩⟩

/-- The subgroup with one more object. -/
def SubgroupCell.push (cell : SubgroupCell) (object : SubgroupObjectCell) : SubgroupCell :=
  { cell with state := cell.state.update fun s => { s with objects := s.objects ++ [object] } }

namespace SubgroupWriter

/-- Create the next object with the given payload. The object's own writer
goes away at the end. -/
def write (w : SubgroupWriter) (cell : SubgroupCell) (payload : Bytes) :
    SubgroupWriter × Except ServeError Unit × SubgroupCell :=
  match w.create cell payload.length with
  | (w, .error err) => (w, .error err, cell)
  | (w, .ok (handle, cell)) =>
      let setObject (object : SubgroupObjectCell) (remain : Nat) : SubgroupCell :=
        { cell with state := cell.state.update (·.setObject handle (object.dropWriter remain)) }
      let object := cell.state.value.object handle
      match handle.write object payload with
      | (handle, .error err) => (w, .error err, setObject object handle.remain)
      | (handle, .ok object) => (w, .ok (), setObject object handle.remain)

/-- The next object is there for the readers before any of its bytes. -/
theorem create_live (w : SubgroupWriter) {cell : SubgroupCell} (hlive : cell.state.dropped = false)
    (size : Nat) :
    w.create cell size = ({ w with next := w.next + 1 },
      .ok (⟨cell.state.value.objects.length, ⟨w.next, size, .object⟩, size⟩,
        cell.push (SubgroupObject.produce ⟨w.next, size, .object⟩))) := by
  simp [create, hlive, SubgroupCell.push]

theorem write_live (w : SubgroupWriter) {cell : SubgroupCell} (hlive : cell.state.dropped = false)
    (payload : Bytes) :
    w.write cell payload =
      ({ w with next := w.next + 1 }, .ok (), cell.push (.written w.next payload)) := by
  simp [write, w.create_live hlive, SubgroupCell.push, SubgroupObjectWriter.write,
    SubgroupObject.produce, Watch.State.new, Watch.State.update, Watch.State.drop,
    SubgroupObjectCell.push, SubgroupObjectCell.dropWriter, SubgroupObjectCell.written]

end SubgroupWriter

/-- All chunks of an object, once nothing more will come. -/
def SubgroupObjectCell.readAll (object : SubgroupObjectCell) :
    Watch.Poll (Except ServeError Bytes) :=
  match object.read object.state.value.chunks.length with
  | .pending => .pending
  | .ready (.error err) => .ready (.error err)
  | .ready (.ok _) => .ready (.ok object.state.value.chunks.flatten)

theorem SubgroupObjectCell.readAll_written (objectId : Nat) (payload : Bytes) :
    (written objectId payload).readAll = .ready (.ok payload) := by
  simp [readAll, read, written, Watch.exhausted]

/-- The payload of the next object. The reader has passed the object before
its payload is complete. -/
def SubgroupReader.readNext (r : SubgroupReader) (cell : SubgroupCell) :
    Watch.Poll (Except ServeError (Option Bytes)) × SubgroupReader :=
  match cell.next r.index with
  | .pending => (.pending, r)
  | .ready (.error err) => (.ready (.error err), r)
  | .ready (.ok none) => (.ready (.ok none), r)
  | .ready (.ok (some object)) =>
      (match object.readAll with
        | .pending => .pending
        | .ready (.error err) => .ready (.error err)
        | .ready (.ok payload) => .ready (.ok (some payload)),
        { r with index := r.index + 1 })

end MoqTransport.Serve
