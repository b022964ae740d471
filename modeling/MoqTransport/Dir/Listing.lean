import Mathlib.Data.Finset.Card
import Mathlib.Data.List.Sort
import Mathlib.Data.String.Basic
import MoqTransport.Coding.Utf8
import MoqTransport.Lib.Machine
import MoqTransport.Serve.Track

/-!
The writer of a listing: a set of names, published as a track. The first
object of a subgroup is a snapshot of the set, the others are single changes.
A change is appended to the newest subgroup or starts a new one with another
snapshot, by their sizes. As long as the track has a reader no call fails but
for the name it is given (`Live.publish`), and of a listing its readers see no
more than its `log`.
-/

namespace MoqTransport.Dir

open Streaming Coding Serve Machine

/-- The elements of a hash set come in some order. -/
structure Iteration where
  order : Finset String → List String
  nodup : ∀ names, (order names).Nodup
  toFinset : ∀ names, (order names).toFinset = names

theorem Iteration.mem_order (iter : Iteration) {names : Finset String} {name : String} :
    name ∈ iter.order names ↔ name ∈ names := by
  rw [← List.mem_toFinset, iter.toFinset]

theorem insertionSort_congr {first second : List String} (h : first.Perm second) :
    first.insertionSort (· ≤ ·) = second.insertionSort (· ≤ ·) := by
  apply List.Perm.eq_of_pairwise' (List.pairwise_insertionSort (· ≤ ·) first)
    (List.pairwise_insertionSort (· ≤ ·) second)
  have hfirst := List.perm_insertionSort (· ≤ ·) first
  have hsecond := List.perm_insertionSort (· ≤ ·) second
  exact hfirst.trans (h.trans hsecond.symm)

/-- One such order. -/
def Iteration.sorted : Iteration where
  order names :=
    Quot.liftOn names.val (List.insertionSort (· ≤ ·)) fun _ _ h => insertionSort_congr h
  nodup := by
    rintro ⟨⟨names⟩, hnodup⟩
    exact (List.perm_insertionSort (· ≤ ·) names).nodup_iff.mpr hnodup
  toFinset := by
    rintro ⟨⟨names⟩, hnodup⟩
    ext name
    rw [List.mem_toFinset]
    exact (List.perm_insertionSort (· ≤ ·) names).mem_iff

structure ListingWriter where
  /-- There is a `TrackWriter`, and it has not been used. -/
  track : Bool
  subgroups : Option SubgroupsWriter
  subgroup : Option SubgroupWriter
  current : Finset String

def ListingWriter.new : ListingWriter := ⟨true, none, none, ∅⟩

/-- A writer, and what it shares with the readers of its track. -/
structure Listing where
  writer : ListingWriter
  track : Track

namespace Listing

def new : Listing := ⟨.new, .produce⟩

/-- The writer of the newest subgroup goes away. -/
def dropSubgroup (track : Subgroups) (w : SubgroupWriter) : Subgroups :=
  track.setCell w { track.cell w with state := (track.cell w).state.drop }

/-- The start of `snapshot`: the subgroups the writer has, or those of its
unused track. There is one or the other, or it panics. -/
def takeSubgroups (l : Listing) : Option (Except ServeError SubgroupsWriter × Listing) :=
  match l.writer.subgroups with
  | some subgroups => some (.ok subgroups, { l with writer := { l.writer with subgroups := none } })
  | none =>
      if l.writer.track then
        match TrackWriter.groups l.track with
        | .ok (subgroups, track) =>
            some (.ok subgroups, ⟨{ l.writer with track := false }, track⟩)
        | .error err =>
            some (.error err,
              ⟨{ l.writer with track := false }, TrackWriterMode.track.drop l.track⟩)
      else none

def snapshotPayload (names : List String) : Bytes :=
  names.flatMap fun name => Str.bytes name ++ [10]

/-- An error on the way loses the subgroups the writer had. -/
def snapshot (l : Listing) (iter : Iteration) :
    Option (Except ServeError SubgroupWriter × Listing) :=
  match l.takeSubgroups with
  | none => none
  | some (.error err, l) => some (.error err, l)
  | some (.ok subgroups, l) =>
      match subgroups.append l.track.subgroups 127 with
      | .error err => some (.error err, { l with
          track := TrackWriterMode.drop (.subgroups subgroups) l.track })
      | .ok (subgroup, subgroups, shared) =>
          let payload := snapshotPayload (iter.order l.writer.current)
          match subgroup.write (shared.cell subgroup) payload with
          | (subgroup, .error err, cell) => some (.error err, { l with
              track := TrackWriterMode.drop (.subgroups subgroups) { l.track with
                subgroups := dropSubgroup (shared.setCell subgroup cell) subgroup } })
          | (subgroup, .ok _, cell) =>
              some (.ok subgroup,
                ⟨{ l.writer with subgroups := some subgroups },
                  { l.track with subgroups := shared.setCell subgroup cell }⟩)

/-- A snapshot, in a subgroup that takes the place of the one before. -/
def replace (l : Listing) (iter : Iteration) : Option (Except ServeError Unit × Listing) :=
  match l.snapshot iter with
  | none => none
  | some (.error err, l) => some (.error err, l)
  | some (.ok subgroup, l) =>
      let shared :=
        match l.writer.subgroup with
        | some old => dropSubgroup l.track.subgroups old
        | none => l.track.subgroups
      some (.ok (), ⟨{ l.writer with subgroup := some subgroup },
        { l.track with subgroups := shared }⟩)

/-- One more object in the newest subgroup. -/
def delta (l : Listing) (subgroup : SubgroupWriter) (payload : Bytes) :
    Except ServeError Unit × Listing :=
  let (subgroup, result, cell) := subgroup.write (l.track.subgroups.cell subgroup) payload
  (result,
    ⟨{ l.writer with subgroup := some subgroup },
      { l.track with subgroups := l.track.subgroups.setCell subgroup cell }⟩)

/-- The second half of `insert` and `remove`: a delta if the newest subgroup
is small enough, and otherwise a snapshot. -/
def publish (l : Listing) (payload : Bytes) (iter : Iteration) :
    Option (Except ServeError Unit × Listing) :=
  match l.writer.subgroup with
  | some subgroup =>
      let size := (l.track.subgroups.cell subgroup).state.value.objects.length
      if l.writer.current.card < 2 * size then some (l.delta subgroup payload)
      else l.replace iter
  | none => l.replace iter

def withCurrent (l : Listing) (current : Finset String) : Listing :=
  { l with writer := { l.writer with current := current } }

def insert (l : Listing) (name : String) (iter : Iteration) :
    Option (Except ServeError Unit × Listing) :=
  if name ∈ l.writer.current then some (.error .duplicate, l)
  else (l.withCurrent (Insert.insert name l.writer.current)).publish (43 :: Str.bytes name) iter

def remove (l : Listing) (name : String) (iter : Iteration) :
    Option (Except ServeError Unit × Listing) :=
  if name ∈ l.writer.current then
    (l.withCurrent (l.writer.current.erase name)).publish (45 :: Str.bytes name) iter
  else some (.error .notFound, l)

/-- The payloads of a subgroup. -/
def payloads (cell : SubgroupCell) : List Bytes :=
  cell.state.value.objects.map fun object => object.state.value.chunks.flatten

/-- The payloads of all subgroups so far. -/
def log (l : Listing) : List (List Bytes) := l.track.subgroups.cells.map payloads

/-- Every object was written in one call, and the subgroup is not closed. -/
structure Whole (cell : SubgroupCell) : Prop where
  closed : cell.state.value.closed = none
  written : ∀ object ∈ cell.state.value.objects, ∃ id payload, object = .written id payload

/-- The listing has published its newest subgroup after the earlier ones. -/
structure Published (l : Listing) (w : SubgroupWriter) (ws : SubgroupsWriter)
    (earlier : List SubgroupCell) (newest : SubgroupCell) : Prop where
  subgroup : l.writer.subgroup = some w
  subgroups : l.writer.subgroups = some ws
  mode : l.track.state.value.mode = some .subgroups
  live : l.track.subgroups.state.dropped = false
  state : l.track.subgroups.state.value =
    ⟨some ⟨w.cell, w.info, 0⟩, l.track.subgroups.cells.length, none⟩
  cells : l.track.subgroups.cells = earlier ++ [newest]
  place : w.cell = earlier.length
  next : w.info.groupId < ws.nextGroupId
  undropped : newest.state.dropped = false
  whole : ∀ cell ∈ l.track.subgroups.cells, Whole cell

/-- The same, but the readers of the track may be gone. The one of the newest
subgroup is in the track's own state. -/
structure Writes (l : Listing) (w : SubgroupWriter) (ws : SubgroupsWriter)
    (earlier : List SubgroupCell) (newest : SubgroupCell) : Prop where
  subgroup : l.writer.subgroup = some w
  subgroups : l.writer.subgroups = some ws
  state : l.track.subgroups.state.value =
    ⟨some ⟨w.cell, w.info, 0⟩, l.track.subgroups.cells.length, none⟩
  cells : l.track.subgroups.cells = earlier ++ [newest]
  place : w.cell = earlier.length
  next : w.info.groupId < ws.nextGroupId
  undropped : newest.state.dropped = false
  whole : ∀ cell ∈ l.track.subgroups.cells, Whole cell

/-- Nothing is published yet. -/
structure Fresh (l : Listing) : Prop where
  produced : l.track = .produce
  track : l.writer.track = true
  subgroups : l.writer.subgroups = none
  subgroup : l.writer.subgroup = none

/-- There is no subgroup yet. -/
structure Waits (l : Listing) : Prop where
  subgroups : l.writer.subgroups = none
  subgroup : l.writer.subgroup = none
  cells : l.track.subgroups.cells = []
  latest : l.track.subgroups.state.value.latest = none

/-- The listing can go on. -/
def Live (l : Listing) : Prop := Fresh l ∨ ∃ w ws earlier newest, Published l w ws earlier newest

/-- What a call adds to the log. -/
def nextLog (log : List (List Bytes)) (size : Nat) (payload snapshot : Bytes) :
    List (List Bytes) :=
  match log.getLast? with
  | some newest =>
      if size < 2 * newest.length then log.dropLast ++ [newest ++ [payload]]
      else log ++ [[snapshot]]
  | none => [[snapshot]]

variable {l l' : Listing} {w : SubgroupWriter} {ws : SubgroupsWriter}
  {earlier : List SubgroupCell} {newest : SubgroupCell}

theorem live_new : Live new := .inl ⟨rfl, rfl, rfl, rfl⟩

theorem Live.withCurrent (h : Live l) (current : Finset String) : Live (l.withCurrent current) := by
  rcases h with h | ⟨w, ws, earlier, newest, h⟩
  · exact .inl { h with }
  · exact .inr ⟨w, ws, earlier, newest, { h with }⟩

theorem cell_concat {track : Subgroups} (hcells : track.cells = earlier ++ [newest])
    (hplace : w.cell = earlier.length) : track.cell w = newest := by
  simp [Subgroups.cell, hcells, hplace]

theorem setCell_concat {track : Subgroups} (hcells : track.cells = earlier ++ [newest])
    (hplace : w.cell = earlier.length) (cell : SubgroupCell) :
    track.setCell w cell = ⟨earlier ++ [cell], track.state⟩ := by
  simp [Subgroups.setCell, hcells, hplace]

theorem Published.writes (h : Published l w ws earlier newest) : Writes l w ws earlier newest :=
  { h with }

theorem Writes.cell (h : Writes l w ws earlier newest) : l.track.subgroups.cell w = newest :=
  cell_concat h.cells h.place

theorem Whole.push {cell : SubgroupCell} (h : Whole cell) (id : Nat) (payload : Bytes) :
    Whole (cell.push (.written id payload)) := by
  constructor
  · exact h.closed
  · intro object hobject
    rcases List.mem_append.mp hobject with hobject | hobject
    · exact h.written object hobject
    · exact ⟨id, payload, List.mem_singleton.mp hobject⟩

theorem Whole.drop {cell : SubgroupCell} (h : Whole cell) :
    Whole { cell with state := cell.state.drop } :=
  ⟨h.closed, h.written⟩

theorem whole_produce (info : Subgroup) : Whole info.produce :=
  ⟨rfl, fun _ h => absurd h List.not_mem_nil⟩

theorem payloads_push (cell : SubgroupCell) (id : Nat) (payload : Bytes) :
    payloads (cell.push (.written id payload)) = payloads cell ++ [payload] := by
  simp [payloads, SubgroupCell.push, Watch.State.update, SubgroupObjectCell.written]

theorem Writes.whole_earlier (h : Writes l w ws earlier newest) :
    ∀ cell ∈ earlier, Whole cell := by
  intro cell hcell
  apply h.whole
  rw [h.cells]
  exact List.mem_append_left _ hcell

theorem Writes.whole_newest (h : Writes l w ws earlier newest) : Whole newest := by
  apply h.whole
  rw [h.cells]
  exact List.mem_append_right _ (List.mem_singleton_self _)

theorem Writes.length (h : Writes l w ws earlier newest) :
    l.track.subgroups.cells.length = earlier.length + 1 := by
  rw [h.cells, List.length_append, List.length_singleton]

theorem Published.length (h : Published l w ws earlier newest) :
    l.track.subgroups.cells.length = earlier.length + 1 := h.writes.length

theorem Writes.log (h : Writes l w ws earlier newest) :
    l.log = earlier.map payloads ++ [payloads newest] := by
  rw [Listing.log, h.cells, List.map_append]
  rfl

theorem Published.log (h : Published l w ws earlier newest) :
    l.log = earlier.map payloads ++ [payloads newest] := h.writes.log

/-- The listing after a delta. -/
def appended (l : Listing) (w : SubgroupWriter) (earlier : List SubgroupCell)
    (newest : SubgroupCell) (payload : Bytes) : Listing :=
  ⟨{ l.writer with subgroup := some { w with next := w.next + 1 } },
    { l.track with
      subgroups := ⟨earlier ++ [newest.push (.written w.next payload)], l.track.subgroups.state⟩ }⟩

theorem Writes.delta (h : Writes l w ws earlier newest) (payload : Bytes) :
    l.delta w payload = (.ok (), l.appended w earlier newest payload) := by
  unfold Listing.delta
  rw [h.cell, w.write_live h.undropped payload]
  dsimp only
  rw [setCell_concat (w := { w with next := w.next + 1 }) h.cells h.place]
  rfl

theorem Writes.appended (h : Writes l w ws earlier newest) (payload : Bytes) :
    Writes (l.appended w earlier newest payload) { w with next := w.next + 1 } ws earlier
      (newest.push (.written w.next payload)) where
  subgroup := rfl
  subgroups := h.subgroups
  state := by
    rw [Listing.appended, h.state, h.length]
    simp
  cells := rfl
  place := h.place
  next := h.next
  undropped := h.undropped
  whole := forall_mem_concat h.whole_earlier (h.whole_newest.push _ _)

theorem Published.appended (h : Published l w ws earlier newest) (payload : Bytes) :
    Published (l.appended w earlier newest payload) { w with next := w.next + 1 } ws earlier
      (newest.push (.written w.next payload)) :=
  { h.writes.appended payload with
    mode := h.mode
    live := h.live }

/-- The subgroup a snapshot starts. -/
def snapshotInfo (ws : SubgroupsWriter) : Subgroup := ⟨ws.nextGroupId, 0, 127⟩

/-- The listing after a snapshot, before its writer is kept. -/
def snapshotted (l : Listing) (ws : SubgroupsWriter) (iter : Iteration) : Listing :=
  let payload := snapshotPayload (iter.order l.writer.current)
  let shared := (l.track.subgroups.install (snapshotInfo ws)).2
  ⟨{ l.writer with subgroups := some (ws.installed (snapshotInfo ws)) },
    { l.track with
      subgroups := ⟨l.track.subgroups.cells ++
        [(snapshotInfo ws).produce.push (.written 0 payload)], shared.state⟩ }⟩

theorem snapshot_eq {l' : Listing} (htake : l.takeSubgroups = some (.ok ws, l'))
    (hlive : l'.track.subgroups.state.dropped = false)
    (hnew : ∀ latest ∈ l'.track.subgroups.state.value.latest,
      latest.info.groupId < ws.nextGroupId) (iter : Iteration) :
    l.snapshot iter = some (.ok ⟨l'.track.subgroups.cells.length, snapshotInfo ws, 1⟩,
      l'.snapshotted ws iter) := by
  have happend : ws.append l'.track.subgroups 127 = .ok
      ((l'.track.subgroups.install (snapshotInfo ws)).1, ws.installed (snapshotInfo ws),
        (l'.track.subgroups.install (snapshotInfo ws)).2) := by
    apply ws.create_newest hlive
    intro latest hlatest
    exact Prod.Lex.lt_iff.mpr (.inl (hnew latest hlatest))
  have hcells : (l'.track.subgroups.install (snapshotInfo ws)).2.cells =
      l'.track.subgroups.cells ++ [(snapshotInfo ws).produce] := rfl
  unfold Listing.snapshot
  rw [htake]
  dsimp only
  rw [happend]
  dsimp only
  rw [cell_concat hcells rfl, SubgroupWriter.write_live _ rfl]
  dsimp only
  rw [setCell_concat hcells rfl]
  rfl

theorem Writes.takeSubgroups (h : Writes l w ws earlier newest) :
    l.takeSubgroups = some (.ok ws, { l with writer := { l.writer with subgroups := none } }) := by
  unfold Listing.takeSubgroups
  rw [h.subgroups]

/-- The listing after a snapshot in the place of a subgroup. -/
def replaced (l : Listing) (ws : SubgroupsWriter) (earlier : List SubgroupCell)
    (newest : SubgroupCell) (iter : Iteration) : Listing :=
  let l' := l.snapshotted ws iter
  ⟨{ l'.writer with subgroup := some ⟨earlier.length + 1, snapshotInfo ws, 1⟩ },
    { l'.track with
      subgroups := ⟨earlier ++ [{ newest with state := newest.state.drop }] ++
        [(snapshotInfo ws).produce.push
          (.written 0 (snapshotPayload (iter.order l.writer.current)))],
        l'.track.subgroups.state⟩ }⟩

theorem Writes.replace (h : Writes l w ws earlier newest)
    (hlive : l.track.subgroups.state.dropped = false) (iter : Iteration) :
    l.replace iter = some (.ok (), l.replaced ws earlier newest iter) := by
  have hsnapshot := snapshot_eq h.takeSubgroups hlive (by
    intro latest hlatest
    rw [h.state] at hlatest
    cases hlatest
    exact h.next) iter
  have hdrop (cell : SubgroupCell) (state : Watch.State SubgroupsState) :
      dropSubgroup ⟨l.track.subgroups.cells ++ [cell], state⟩ w =
        ⟨earlier ++ [{ newest with state := newest.state.drop }] ++ [cell], state⟩ := by
    simp [dropSubgroup, Subgroups.cell, Subgroups.setCell, h.cells, h.place]
  unfold Listing.replace
  rw [hsnapshot]
  simp only [snapshotted, h.subgroup, hdrop, replaced, h.length]

theorem Writes.replaced (h : Writes l w ws earlier newest) (iter : Iteration) :
    Writes (l.replaced ws earlier newest iter) ⟨earlier.length + 1, snapshotInfo ws, 1⟩
      (ws.installed (snapshotInfo ws)) (earlier ++ [{ newest with state := newest.state.drop }])
      ((snapshotInfo ws).produce.push
        (.written 0 (snapshotPayload (iter.order l.writer.current)))) where
  subgroup := rfl
  subgroups := rfl
  state := by
    simp [Listing.replaced, snapshotted, Subgroups.install, Watch.State.update, h.state, h.length]
  cells := rfl
  place := by simp
  next := Nat.lt_succ_self _
  undropped := rfl
  whole := forall_mem_concat (forall_mem_concat h.whole_earlier h.whole_newest.drop)
    ((whole_produce _).push _ _)

theorem Published.replaced (h : Published l w ws earlier newest) (iter : Iteration) :
    Published (l.replaced ws earlier newest iter) ⟨earlier.length + 1, snapshotInfo ws, 1⟩
      (ws.installed (snapshotInfo ws)) (earlier ++ [{ newest with state := newest.state.drop }])
      ((snapshotInfo ws).produce.push
        (.written 0 (snapshotPayload (iter.order l.writer.current)))) :=
  { h.writes.replaced iter with
    mode := h.mode
    live := h.live }

/-- The listing after its first snapshot. -/
def started (l : Listing) (iter : Iteration) : Listing :=
  ⟨{ l.writer with
      subgroups := some (SubgroupsWriter.new.installed (snapshotInfo .new))
      subgroup := some ⟨0, snapshotInfo .new, 1⟩ },
    { l.track with
      subgroups := ⟨[(snapshotInfo .new).produce.push
        (.written 0 (snapshotPayload (iter.order l.writer.current)))],
        ⟨⟨some ⟨0, snapshotInfo .new, 0⟩, 1, none⟩, false⟩⟩ }⟩

theorem replace_first {l' : Listing} (htake : l.takeSubgroups = some (.ok .new, l'))
    (hproduced : l'.track.subgroups = .produce) (hsubgroup : l'.writer.subgroup = none)
    (iter : Iteration) : l.replace iter = some (.ok (), l'.started iter) := by
  have hsnapshot := snapshot_eq htake (by rw [hproduced]; rfl) (by
    intro latest hlatest
    rw [hproduced] at hlatest
    cases hlatest) iter
  unfold Listing.replace
  rw [hsnapshot]
  simp only [snapshotted, hsubgroup, hproduced]
  rfl

theorem writes_started (l : Listing) (iter : Iteration) :
    Writes (l.started iter) ⟨0, snapshotInfo .new, 1⟩
      (SubgroupsWriter.new.installed (snapshotInfo .new)) []
      ((snapshotInfo .new).produce.push
        (.written 0 (snapshotPayload (iter.order l.writer.current)))) where
  subgroup := rfl
  subgroups := rfl
  state := rfl
  cells := rfl
  place := rfl
  next := Nat.lt_succ_self _
  undropped := rfl
  whole := forall_mem_concat (fun _ h => absurd h List.not_mem_nil) ((whole_produce _).push _ _)

/-- The first snapshot. -/
theorem Fresh.replace (h : Fresh l) (iter : Iteration) :
    ∃ l' w' newest', l.replace iter = some (.ok (), l') ∧
      Published l' w' (SubgroupsWriter.new.installed (snapshotInfo .new)) [] newest' := by
  have hgroups : TrackWriter.groups l.track = .ok (.new,
      { l.track with state := ⟨⟨some .subgroups, none⟩, true⟩ }) := by
    rw [h.produced]
    rfl
  have htake : l.takeSubgroups = some (.ok .new, ⟨{ l.writer with track := false },
      { l.track with state := ⟨⟨some .subgroups, none⟩, true⟩ }⟩) := by
    unfold takeSubgroups
    rw [h.subgroups, if_pos h.track, hgroups]
  have hproduced : l.track.subgroups = .produce := by rw [h.produced]; rfl
  have hpublished := writes_started ⟨{ l.writer with track := false },
    { l.track with state := ⟨⟨some .subgroups, none⟩, true⟩ }⟩ iter
  exact ⟨_, _, _, replace_first htake hproduced h.subgroup iter,
    { hpublished with
      mode := rfl
      live := rfl }⟩

theorem Fresh.log (h : Fresh l) : l.log = [] := by
  rw [Listing.log, h.produced]
  rfl

theorem takeSubgroups_of_snapshot {iter : Iteration}
    (h : l.snapshot iter = some (.ok w, l')) :
    ∃ ws mid, l.takeSubgroups = some (.ok ws, mid) ∧
      mid.track.subgroups.state.dropped = false := by
  unfold snapshot at h
  split at h
  · cases h
  · cases h
  · next ws mid htake =>
      refine ⟨ws, mid, htake, ?_⟩
      cases hdropped : mid.track.subgroups.state.dropped with
      | false => rfl
      | true =>
          rw [SubgroupsWriter.append, SubgroupsWriter.create, if_pos hdropped] at h
          cases h

theorem snapshot_of_replace {iter : Iteration} (h : l.replace iter = some (.ok (), l')) :
    ∃ w mid, l.snapshot iter = some (.ok w, mid) := by
  unfold replace at h
  split at h
  · cases h
  · cases h
  · next w mid hsnapshot => exact ⟨w, mid, hsnapshot⟩

/-- A snapshot succeeds only as long as the subgroups have a reader. -/
theorem Writes.live_of_replace (h : Writes l w ws earlier newest) {iter : Iteration}
    (hok : l.replace iter = some (.ok (), l')) : l.track.subgroups.state.dropped = false := by
  obtain ⟨w', mid, hsnapshot⟩ := snapshot_of_replace hok
  obtain ⟨ws', mid, htake, hlive⟩ := takeSubgroups_of_snapshot hsnapshot
  rw [h.takeSubgroups] at htake
  cases htake
  exact hlive

/-- The first snapshot succeeds only if the unused track has a reader. -/
theorem Waits.takeSubgroups (h : Waits l)
    (htake : l.takeSubgroups = some (.ok ws, l')) :
    ws = .new ∧ l'.track.subgroups = .produce ∧ l'.writer.subgroup = none ∧
      l'.writer.current = l.writer.current := by
  unfold Listing.takeSubgroups at htake
  rw [h.subgroups] at htake
  dsimp only at htake
  split at htake
  · unfold TrackWriter.groups TrackWriter.setMode at htake
    split at htake
    · next subgroups track hgroups =>
        cases htake
        split at hgroups
        · cases hgroups
        · cases hgroups
          exact ⟨rfl, rfl, h.subgroup, rfl⟩
    · cases htake
  · cases htake

/-- What a change publishes, if it succeeds. -/
theorem publish_cases (h : Waits l ∨ ∃ w ws earlier newest, Writes l w ws earlier newest)
    {payload : Bytes} {iter : Iteration} (hok : l.publish payload iter = some (.ok (), l')) :
    (∃ w ws earlier newest, Writes l' w ws earlier newest) ∧
      l'.writer.current = l.writer.current ∧
      l'.log = nextLog l.log l.writer.current.card payload
        (snapshotPayload (iter.order l.writer.current)) := by
  unfold Listing.publish at hok
  rcases h with h | ⟨w, ws, earlier, newest, h⟩
  · rw [h.subgroup] at hok
    obtain ⟨w, mid, hsnapshot⟩ := snapshot_of_replace hok
    obtain ⟨ws, mid, htake, -⟩ := takeSubgroups_of_snapshot hsnapshot
    obtain ⟨rfl, hproduced, hsubgroup, hcurrent⟩ := h.takeSubgroups htake
    rw [replace_first htake hproduced hsubgroup] at hok
    cases hok
    refine ⟨⟨_, _, _, _, writes_started mid iter⟩, hcurrent, ?_⟩
    have hlog : l.log = [] := by rw [log, h.cells]; rfl
    rw [(writes_started mid iter).log, payloads_push, hlog, hcurrent]
    rfl
  · rw [h.subgroup] at hok
    have hsize : (l.track.subgroups.cell w).state.value.objects.length =
        (payloads newest).length := by
      rw [h.cell, payloads, List.length_map]
    have hnext : nextLog l.log l.writer.current.card payload
        (snapshotPayload (iter.order l.writer.current)) =
        if l.writer.current.card < 2 * (payloads newest).length then
          earlier.map payloads ++ [payloads newest ++ [payload]]
        else l.log ++ [[snapshotPayload (iter.order l.writer.current)]] := by
      simp [nextLog, h.log]
    simp only [hsize] at hok
    rw [hnext]
    split at hok
    · next hsmall =>
        rw [h.delta payload] at hok
        cases hok
        refine ⟨⟨_, _, _, _, h.appended payload⟩, rfl, ?_⟩
        rw [(h.appended payload).log, payloads_push, if_pos hsmall]
    · next hlarge =>
        rw [h.replace (h.live_of_replace hok) iter] at hok
        cases hok
        refine ⟨⟨_, _, _, _, h.replaced iter⟩, rfl, ?_⟩
        rw [(h.replaced iter).log, payloads_push, h.log, List.map_append, if_neg hlarge]
        rfl

theorem Fresh.waits (h : Fresh l) : Waits l where
  subgroups := h.subgroups
  subgroup := h.subgroup
  cells := by rw [h.produced]; rfl
  latest := by rw [h.produced]; rfl

/-- A call publishes its change, and the set itself is as it left it. -/
theorem Live.publish (h : Live l) (payload : Bytes) (iter : Iteration) :
    ∃ l', l.publish payload iter = some (.ok (), l') ∧ Live l' ∧
      l'.writer.current = l.writer.current ∧
      l'.log = nextLog l.log l.writer.current.card payload
        (snapshotPayload (iter.order l.writer.current)) := by
  have hpublish : ∃ l', l.publish payload iter = some (.ok (), l') ∧ Live l' := by
    unfold Listing.publish
    rcases h with h | ⟨w, ws, earlier, newest, h⟩
    · obtain ⟨l', w', newest', hreplace, hpublished⟩ := h.replace iter
      rw [h.subgroup]
      exact ⟨l', hreplace, .inr ⟨_, _, _, _, hpublished⟩⟩
    · rw [h.subgroup]
      dsimp only
      split
      · exact ⟨_, congrArg some (h.writes.delta payload), .inr ⟨_, _, _, _, h.appended payload⟩⟩
      · exact ⟨_, h.writes.replace h.live iter, .inr ⟨_, _, _, _, h.replaced iter⟩⟩
  have hwrites : Waits l ∨ ∃ w ws earlier newest, Writes l w ws earlier newest := by
    rcases h with h | ⟨w, ws, earlier, newest, h⟩
    · exact .inl h.waits
    · exact .inr ⟨w, ws, earlier, newest, h.writes⟩
  obtain ⟨l', hok, hlive⟩ := hpublish
  obtain ⟨-, hcurrent, hlog⟩ := publish_cases hwrites hok
  exact ⟨l', hok, hlive, hcurrent, hlog⟩

theorem Live.insert (h : Live l) {name : String} (hname : name ∉ l.writer.current)
    (iter : Iteration) :
    ∃ l', l.insert name iter = some (.ok (), l') ∧ Live l' ∧
      l'.writer.current = Insert.insert name l.writer.current ∧
      l'.log = nextLog l.log (Insert.insert name l.writer.current).card (43 :: Str.bytes name)
        (snapshotPayload (iter.order (Insert.insert name l.writer.current))) := by
  unfold Listing.insert
  rw [if_neg hname]
  exact (h.withCurrent _).publish _ iter

theorem Live.remove (h : Live l) {name : String} (hname : name ∈ l.writer.current)
    (iter : Iteration) :
    ∃ l', l.remove name iter = some (.ok (), l') ∧ Live l' ∧
      l'.writer.current = l.writer.current.erase name ∧
      l'.log = nextLog l.log (l.writer.current.erase name).card (45 :: Str.bytes name)
        (snapshotPayload (iter.order (l.writer.current.erase name))) := by
  unfold Listing.remove
  rw [if_pos hname]
  exact (h.withCurrent _).publish _ iter

end Listing

end MoqTransport.Dir
