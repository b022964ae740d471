import MoqTransport.Serve.Subgroup

/-!
The other two modes of a track, and the track itself. The mode is chosen by
the first stream or datagram that arrives: the writer then moves out of the
track and into the mode, and readers find the matching reader in the track's
state.
-/

namespace MoqTransport.Serve

open Streaming Data

/-- A group of a track in stream mode. Its objects are kept like those of a
subgroup. -/
structure StreamGroupCell where
  groupId : Nat
  state : Watch.State SubgroupState
deriving DecidableEq

structure StreamState where
  /-- The latest group, by position, with its id. -/
  latest : Option (Nat × Nat)
  epoch : Nat
  closed : Option ServeError
deriving DecidableEq

/-- A track in stream mode. -/
structure Stream where
  priority : UInt8
  groups : List StreamGroupCell
  state : Watch.State StreamState
deriving DecidableEq

def Stream.produce (priority : UInt8) : Stream := ⟨priority, [], .new ⟨none, 0, none⟩⟩

structure StreamGroupWriter where
  cell : Nat
  groupId : Nat
  next : Nat
deriving DecidableEq

namespace Stream

def group (track : Stream) (handle : StreamGroupWriter) : StreamGroupCell :=
  track.groups.getD handle.cell ⟨handle.groupId, .new ⟨[], none⟩⟩

def setGroup (track : Stream) (handle : StreamGroupWriter) (group : StreamGroupCell) : Stream :=
  { track with groups := track.groups.set handle.cell group }

/-- The writer of a group goes away. -/
def dropGroup (track : Stream) (handle : StreamGroupWriter) : Stream :=
  track.setGroup handle { track.group handle with state := (track.group handle).state.drop }

end Stream

namespace StreamWriter

def create (track : Stream) (groupId : Nat) :
    Except ServeError (StreamGroupWriter × Stream) :=
  let cell := track.groups.length
  let install := .ok (⟨cell, groupId, 0⟩,
    { track with
      groups := track.groups ++ [⟨groupId, .new ⟨[], none⟩⟩]
      state := track.state.update fun s =>
        { s with latest := some (cell, groupId), epoch := s.epoch + 1 } })
  if track.state.dropped then
    .error .cancel
  else
    match track.state.value.latest with
    | some (_, latest) => if latest > groupId then .error .duplicate else install
    | none => install

def close (track : Stream) (err : ServeError) : Except ServeError Stream := do
  let closed ← Watch.closeWith .cancel track.state.value.closed track.state.dropped err
  pure { track with state := track.state.update fun s => { s with closed := closed } }

end StreamWriter

namespace StreamGroupWriter

/-- The object id of every object is the `next` the writer started with. -/
def create (w : StreamGroupWriter) (cell : StreamGroupCell) (size : Nat) :
    Except ServeError (SubgroupObjectWriter × StreamGroupCell) :=
  if cell.state.dropped then
    .error .cancel
  else
    let object : SubgroupObject := ⟨w.next, size, .object⟩
    .ok (⟨cell.state.value.objects.length, object, size⟩,
      { cell with
        state := cell.state.update fun s =>
          { s with objects := s.objects ++ [object.produce] } })

end StreamGroupWriter

/-- The writer of an object in stream mode goes away; unlike the one of a
subgroup it keeps an error that is already there. -/
def StreamObject.dropWriter (remain : Nat) (object : SubgroupObjectCell) : SubgroupObjectCell :=
  let state :=
    if remain = 0 ∨ object.state.value.closed.isSome ∨ object.state.dropped then
      object.state
    else
      object.state.update fun s => { s with closed := some .size }
  { object with state := state.drop }

/-- The answer of a reader that may also panic. -/
def orPanic {α : Type} :
    Watch.Poll (Except ServeError α) → Watch.Poll (Except (Fault ServeError) α)
  | .pending => .pending
  | .ready (.error err) => .ready (.error (.err err))
  | .ready (.ok result) => .ready (.ok result)

/-- A reader of the track: the latest group if it has changed since. -/
def StreamReader.next (track : Stream) (epoch : Nat) :
    Watch.Poll (Except (Fault ServeError) (Option (Nat × Nat))) :=
  if epoch ≠ track.state.value.epoch then
    match track.state.value.latest with
    | some group => .ready (.ok (some group))
    | none => .ready (.error .panic)
  else
    orPanic (Watch.exhausted track.state.value.closed track.state.dropped)

/-- A reader of the group. It moves its index before it takes the object. -/
def StreamGroupCell.next (cell : StreamGroupCell) (index : Nat) :
    Watch.Poll (Except (Fault ServeError) (Option SubgroupObjectCell)) :=
  if index < cell.state.value.objects.length then
    match cell.state.value.objects[index + 1]? with
    | some object => .ready (.ok (some object))
    | none => .ready (.error .panic)
  else
    orPanic (Watch.exhausted cell.state.value.closed cell.state.dropped)

/-- Static information about the datagram. -/
structure Datagram where
  groupId : Nat
  objectId : Nat
  priority : UInt8
  status : ObjectStatus
  payload : Bytes
deriving DecidableEq

structure DatagramsState where
  latest : Option Datagram
  /-- Increased each time the datagram changes. -/
  epoch : Nat
  closed : Option ServeError
deriving DecidableEq

namespace DatagramsWriter

def write (state : Watch.State DatagramsState) (datagram : Datagram) :
    Except ServeError (Watch.State DatagramsState) :=
  if state.dropped then
    .error .cancel
  else
    .ok (state.update fun s => { s with latest := some datagram, epoch := s.epoch + 1 })

def close (state : Watch.State DatagramsState) (err : ServeError) :
    Except ServeError (Watch.State DatagramsState) := do
  let closed ← Watch.closeWith .cancel state.value.closed state.dropped err
  pure (state.update fun s => { s with closed := closed })

end DatagramsWriter

/-- The latest datagram, if it has changed since. -/
def DatagramsReader.read (state : Watch.State DatagramsState) (epoch : Nat) :
    Watch.Poll (Except ServeError (Option Datagram)) :=
  if epoch < state.value.epoch then
    .ready (.ok state.value.latest)
  else
    Watch.exhausted state.value.closed state.dropped

inductive TrackReaderMode where
  | stream
  | subgroups
  | datagrams
deriving DecidableEq

structure TrackState where
  mode : Option TrackReaderMode
  closed : Option ServeError
deriving DecidableEq

/-- A track with the states of all its modes; `mode` says which of them a
reader has been given. -/
structure Track where
  state : Watch.State TrackState
  stream : Stream
  subgroups : Subgroups
  datagrams : Watch.State DatagramsState
deriving DecidableEq

def Track.produce : Track :=
  ⟨.new ⟨none, none⟩, .produce 0, .produce, .new ⟨none, 0, none⟩⟩

/-- The writing half of a track, before and after its mode is chosen. -/
inductive TrackWriterMode where
  | track
  | stream
  | subgroups (writer : SubgroupsWriter)
  | datagrams
deriving DecidableEq

namespace TrackWriter

/-- Publish the reader of a fresh mode; the track's own writer is consumed. -/
def setMode (track : Track) (mode : TrackReaderMode) : Except ServeError Track :=
  if track.state.dropped then
    .error .cancel
  else
    .ok { track with state := (track.state.update fun s => { s with mode := some mode }).drop }

def stream (track : Track) (priority : UInt8) : Except ServeError Track := do
  let track ← setMode track .stream
  pure { track with stream := .produce priority }

def groups (track : Track) : Except ServeError (SubgroupsWriter × Track) := do
  let track ← setMode track .subgroups
  pure (.new, { track with subgroups := .produce })

def datagrams (track : Track) : Except ServeError Track := do
  let track ← setMode track .datagrams
  pure { track with datagrams := .new ⟨none, 0, none⟩ }

def close (track : Track) (err : ServeError) : Except ServeError Track := do
  let closed ← Watch.closeWith .cancel track.state.value.closed track.state.dropped err
  pure { track with state := track.state.update fun s => { s with closed := closed } }

end TrackWriter

/-- The mode the writer has chosen. -/
def TrackReader.mode (track : Track) : Watch.Poll (Except ServeError TrackReaderMode) :=
  match track.state.value.mode, track.state.value.closed with
  | some mode, _ => .ready (.ok mode)
  | none, some err => .ready (.error err)
  | none, none => if track.state.dropped then .ready (.error .done) else .pending

/-- The largest group and object of a track: not known. -/
def TrackReader.latest (_ : Track) : Option (Nat × Nat) := none

namespace TrackWriterMode

/-- Close whichever writer the mode holds. -/
def close (writer : TrackWriterMode) (track : Track) (err : ServeError) :
    Except ServeError Track :=
  match writer with
  | .track => TrackWriter.close track err
  | .stream => do pure { track with stream := ← StreamWriter.close track.stream err }
  | .subgroups _ => do pure { track with subgroups := ← SubgroupsWriter.close track.subgroups err }
  | .datagrams => do pure { track with datagrams := ← DatagramsWriter.close track.datagrams err }

/-- The writer goes away; its readers see the end. -/
def drop (writer : TrackWriterMode) (track : Track) : Track :=
  match writer with
  | .track => { track with state := track.state.drop }
  | .stream => { track with stream := { track.stream with state := track.stream.state.drop } }
  | .subgroups _ =>
      { track with subgroups := { track.subgroups with state := track.subgroups.state.drop } }
  | .datagrams => { track with datagrams := track.datagrams.drop }

end TrackWriterMode

end MoqTransport.Serve
