import MoqTransport.Mp4.Atom
import MoqTransport.Serve.Subgroup

/-!
The publisher of a fragmented MP4 stream. Every track of the stream becomes a
track of the broadcast, every atom of a fragment an object; a group is begun
by the first fragment of a track, and by the next one after a keyframe of any
video track has ended the groups of all tracks.

What the publisher only passes on to the mp4 crate, and the catalog it prints,
are parameters. The readers of the broadcast stay: one that goes away can only
make a call fail.
-/

namespace MoqTransport.Mp4

open Streaming Serve

inductive BoxType where
  | ftyp
  | moov
  | moof
  | mdat
  | other
deriving DecidableEq

inductive TrackType where
  | video
  | audio
  | subtitle
deriving DecidableEq

/-- The sample entries of a track; of an MP4a entry whether it has an `esds`
box. -/
structure StsdBox where
  avc1 : Bool
  hev1 : Bool
  mp4a : Option Bool
  vp09 : Bool
deriving DecidableEq

structure TrakBox where
  trackId : UInt32
  /-- The handler type, or the error if it is not known. -/
  handlerType : Except String TrackType
  timescale : UInt32
  stsd : StsdBox
deriving DecidableEq

structure MoovBox where
  traks : List TrakBox
deriving DecidableEq

structure TrunBox where
  sampleCount : UInt32
  firstSampleFlags : Option UInt32
  sampleFlags : List UInt32
deriving DecidableEq

structure TrafBox where
  trackId : UInt32
  defaultSampleFlags : Option UInt32
  baseMediaDecodeTime : Option UInt64
  trun : Option TrunBox
deriving DecidableEq

structure MoofBox where
  trafs : List TrafBox
deriving DecidableEq

/-- What the mp4 crate reads from an atom, and the catalog of a broadcast as
JSON. -/
structure Formats where
  header : Bytes → Except String BoxType
  moov : Bytes → Except String MoovBox
  moof : Bytes → Except String MoofBox
  catalog : MoovBox → Bytes

structure Fragment where
  track : UInt32
  /-- The timestamp of the first sample, in timescale units. -/
  timestamp : UInt64
  keyframe : Bool
deriving DecidableEq

/-- A sample that depends on no other. -/
def TrunBox.sync (trun : TrunBox) (defaultFlags : UInt32) (i : Nat) : Bool :=
  let flags := (trun.sampleFlags[i]?).getD defaultFlags
  let flags := if i = 0 then trun.firstSampleFlags.getD flags else flags
  ((flags >>> 24) &&& 0x3 == 0x2) && !((flags >>> 16) &&& 0x1 == 0x1)

def sampleKeyframe : List TrafBox → Bool
  | [] => false
  | traf :: trafs =>
      match traf.trun with
      | none => false
      | some trun =>
          (List.range trun.sampleCount.toNat).any (trun.sync (traf.defaultSampleFlags.getD 0)) ||
            sampleKeyframe trafs

/-- A fragment of exactly one track; it has to have a decode time. -/
def Fragment.new (moof : MoofBox) : Except (Fault String) Fragment :=
  match moof.trafs with
  | [traf] =>
      match traf.baseMediaDecodeTime with
      | some timestamp => .ok ⟨traf.trackId, timestamp, sampleKeyframe moof.trafs⟩
      | none => .error .panic
  | _ => .error (.err "multiple tracks per moof atom")

/-- The writer of a track with all its groups. -/
structure Groups where
  writer : SubgroupsWriter
  shared : Subgroups
deriving DecidableEq

namespace Groups

def new : Groups := ⟨.new, .produce⟩

def append (groups : Groups) (priority : UInt8) : Except ServeError (SubgroupWriter × Groups) := do
  let (group, writer, shared) ← groups.writer.append groups.shared priority
  pure (group, ⟨writer, shared⟩)

def write (groups : Groups) (group : SubgroupWriter) (payload : Bytes) :
    Except ServeError (SubgroupWriter × Groups) :=
  match group.write (groups.shared.cell group) payload with
  | (group, .ok (), cell) =>
      .ok (group, { groups with shared := groups.shared.setCell group cell })
  | (_, .error err, _) => .error err

/-- The writer of a group goes away. -/
def drop (groups : Groups) (group : SubgroupWriter) : Groups :=
  let cell := groups.shared.cell group
  { groups with
    shared := groups.shared.setCell group { cell with state := cell.state.drop } }

/-- The payloads of all objects, group by group. -/
def payloads (groups : Groups) : List (List Bytes) :=
  groups.shared.cells.map fun cell =>
    cell.state.value.objects.map fun object => object.content.payload

end Groups

/-- A track of the broadcast with the group that is being written. -/
structure Track where
  track : Groups
  current : Option SubgroupWriter
  timescale : Nat
  handler : TrackType
deriving DecidableEq

namespace Track

def new (handler : TrackType) (timescale : Nat) : Track := ⟨.new, none, timescale, handler⟩

/-- An error with the context that replaces its text. -/
def orContext {α : Type} (context : String) (result : Except ServeError α) :
    Except (Fault String) α :=
  result.mapError fun _ => .err context

/-- Milliseconds since the start; dividing by zero panics. -/
def millis (fragment : Fragment) (timescale : Nat) : Except (Fault String) Nat :=
  if timescale = 0 then
    .error .panic
  else
    .ok (1000 * fragment.timestamp.toNat % 2 ^ 64 / timescale)

/-- Publish the moof of a fragment, in a new group if there is no current
one. -/
def header (track : Track) (raw : Bytes) (fragment : Fragment) : Except (Fault String) Track :=
  let context := "failed to publish moof"
  match track.current with
  | some current => do
      let (current, groups) ← orContext context (track.track.write current raw)
      pure { track with track := groups, current := some current }
  | none => do
      let timestamp ← millis fragment track.timescale
      if timestamp ≥ 2 ^ 32 then
        throw (.err context)
      let (segment, groups) ← orContext context (track.track.append 127)
      let (segment, groups) ← orContext context (groups.write segment raw)
      pure { track with track := groups, current := some segment }

def data (track : Track) (raw : Bytes) : Except (Fault String) Track :=
  let context := "failed to publish mdat"
  match track.current with
  | some current => do
      let (current, groups) ← orContext context (track.track.write current raw)
      pure { track with track := groups, current := some current }
  | none => .error (.err context)

def endGroup (track : Track) : Track :=
  match track.current with
  | some current => { track with track := track.track.drop current, current := none }
  | none => track

end Track

structure Media where
  tracks : UInt32 → Option Track
  /-- The names of the tracks, and whether all readers are gone. -/
  broadcast : Watch.State (List String)
  init : Groups
  catalog : Groups
  ftyp : Option Bytes
  moov : Option MoovBox
  /-- The track of a moof whose mdat has not come yet. -/
  current : Option UInt32

namespace Media

/-- A new track of the broadcast; one with the same name is replaced. -/
def create (broadcast : Watch.State (List String)) (name : String) :
    Except (Fault String) (Watch.State (List String)) :=
  if broadcast.dropped then
    .error (.err "broadcast closed")
  else
    .ok (broadcast.update fun names => if name ∈ names then names else names ++ [name])

def new (broadcast : Watch.State (List String)) : Except (Fault String) Media := do
  let broadcast ← create broadcast ".catalog"
  let broadcast ← create broadcast "0.mp4"
  pure ⟨fun _ => none, broadcast, .new, .new, none, none, none⟩

/-- A group with a single object. -/
def publishOnce (groups : Groups) (payload : Bytes) : Except (Fault String) Groups :=
  let result : Except ServeError Groups := do
    let (group, groups) ← groups.append 0
    let (group, groups) ← groups.write group payload
    pure (groups.drop group)
  result.mapError fun err => .err err.text

/-- The codecs that the catalog can describe. -/
def checkCodec (trak : TrakBox) : Except (Fault String) Unit :=
  if trak.stsd.avc1 then
    .ok ()
  else if trak.stsd.hev1 then
    .error (.err "HEVC not yet supported")
  else
    match trak.stsd.mp4a with
    | some true => .ok ()
    | some false => .error (.err "missing esds box for MP4a")
    | none =>
        if trak.stsd.vp09 then
          .error (.err "VP9 not yet supported")
        else
          .error (.err ("unknown codec for track: " ++ toString trak.trackId))

/-- The timescale of the first track with this id. -/
def trackTimescale (moov : MoovBox) (trackId : UInt32) : Except (Fault String) Nat :=
  match moov.traks.find? fun trak => trak.trackId == trackId with
  | some trak => .ok trak.timescale.toNat
  | none => .error .panic

/-- One round of the loop over the tracks of the moov box. -/
def setupTrack (moov : MoovBox) (m : Media) (trak : TrakBox) : Except (Fault String) Media := do
  let timescale ← trackTimescale moov trak.trackId
  let handler ← trak.handlerType.mapError .err
  checkCodec trak
  let broadcast ← create m.broadcast (toString trak.trackId ++ ".m4s")
  pure { m with
    broadcast := broadcast
    tracks := Function.update m.tracks trak.trackId (some (.new handler timescale)) }

def setup (f : Formats) (m : Media) (moov : MoovBox) (raw : Bytes) :
    Except (Fault String) Media := do
  let ftyp ←
    match m.ftyp with
    | some ftyp => pure ftyp
    | none => throw (.err "missing ftyp")
  let init ← publishOnce m.init (ftyp ++ raw)
  let m ← moov.traks.foldlM (setupTrack moov) { m with init := init }
  let catalog ← publishOnce m.catalog (f.catalog moov)
  pure { m with catalog := catalog }

/-- End the current groups of all tracks. -/
def reset (m : Media) : Media := { m with tracks := fun id => (m.tracks id).map Track.endGroup }

def findTrack (m : Media) (id : UInt32) : Except (Fault String) Track :=
  match m.tracks id with
  | some track => .ok track
  | none => .error (.err "failed to find track")

def setTrack (m : Media) (id : UInt32) (track : Track) : Media :=
  { m with tracks := Function.update m.tracks id (some track) }

/-- A keyframe of a video track ends the groups of all tracks. -/
def endGroups (m : Media) (fragment : Fragment) : Except (Fault String) Media :=
  if fragment.keyframe then do
    let track ← m.findTrack fragment.track
    pure (if track.handler = .video then m.reset else m)
  else
    .ok m

def parseMoof (f : Formats) (m : Media) (atom : Bytes) : Except (Fault String) Media := do
  let moof ← (f.moof atom).mapError .err
  let fragment ← Fragment.new moof
  let m ← m.endGroups fragment
  let track ← m.findTrack fragment.track
  if m.current.isSome then
    throw (.err "multiple moof atoms")
  let track ← track.header atom fragment
  pure { m.setTrack fragment.track track with current := some fragment.track }

def parseMdat (m : Media) (atom : Bytes) : Except (Fault String) Media :=
  match m.current with
  | none => .error (.err "missing moof")
  | some id => do
      let track ← m.findTrack id
      let track ← track.data atom
      pure { m.setTrack id track with current := none }

/-- `parse_atom` behind `next_atom`. -/
def parseAtom (f : Formats) (m : Media) (atom : Bytes) : Except (Fault String) Media := do
  match ← (f.header atom).mapError .err with
  | .ftyp => if m.ftyp.isSome then pure m else pure { m with ftyp := some atom }
  | .moov =>
      if m.moov.isSome then
        pure m
      else
        let moov ← (f.moov atom).mapError .err
        let m ← m.setup f moov atom
        pure { m with moov := some moov }
  | .moof => m.parseMoof f atom
  | .mdat => m.parseMdat atom
  | .other => pure m

end Media

namespace Groups

/-- The payloads of a group's objects. -/
def contents (cell : SubgroupCell) : List Bytes :=
  cell.state.value.objects.map fun object => object.content.payload

theorem contents_push (cell : SubgroupCell) (id : Nat) (payload : Bytes) :
    contents (cell.push (.written id payload)) = contents cell ++ [payload] := by
  simp [contents, SubgroupCell.push, Watch.State.update, SubgroupObjectCell.content,
    SubgroupObjectCell.written]

theorem write_ok {group group' : SubgroupWriter} {groups groups' : Groups} {payload : Bytes}
    {before : List SubgroupCell} {last : SubgroupCell}
    (hcells : groups.shared.cells = before ++ [last]) (hlast : group.cell = before.length)
    (h : groups.write group payload = .ok (group', groups')) :
    last.state.dropped = false ∧ group'.cell = group.cell ∧ groups'.writer = groups.writer ∧
      groups'.shared.cells = before ++ [last.push (.written group.next payload)] := by
  have hcell : groups.shared.cell group = last := by
    simp [Subgroups.cell, hcells, hlast]
  unfold write at h
  rw [hcell] at h
  cases hlive : last.state.dropped with
  | true => simp [SubgroupWriter.write, SubgroupWriter.create, hlive] at h
  | false =>
      rw [group.write_live hlive] at h
      obtain ⟨rfl, rfl⟩ := Prod.mk.inj (Except.ok.inj h)
      refine ⟨rfl, rfl, rfl, ?_⟩
      simp [Subgroups.setCell, hcells, hlast]

/-- A group that can be written to is the newest of the track. -/
theorem begin_ok {groups mid groups' : Groups} {segment group : SubgroupWriter} {priority : UInt8}
    {payload : Bytes} (happend : groups.append priority = .ok (segment, mid))
    (hwrite : mid.write segment payload = .ok (group, groups')) :
    group.cell = groups.shared.cells.length ∧
      groups'.writer.nextGroupId = groups.writer.nextGroupId + 1 ∧
      groups'.shared.cells = groups.shared.cells ++
        [(Subgroup.produce ⟨groups.writer.nextGroupId, 0, priority⟩).push
          (.written 0 payload)] := by
  obtain ⟨⟨w, writer, shared⟩, hcreate, hpair⟩ := ok_of_bind happend
  obtain ⟨rfl, rfl⟩ := Prod.mk.inj (Except.ok.inj hpair)
  have hcreates := groups.writer.creates groups.shared ⟨groups.writer.nextGroupId, 0, priority⟩
  change groups.writer.create groups.shared _ = _ at hcreate
  rw [hcreate] at hcreates
  cases hcreates with
  | newest hlive hnew =>
      obtain ⟨-, hcell, hwriter, hcells⟩ := write_ok rfl rfl hwrite
      exact ⟨hcell, by rw [hwriter]; rfl, hcells⟩
  | older hlive hlatest holder =>
      obtain ⟨hlive, -⟩ := write_ok rfl rfl hwrite
      cases hlive

end Groups

namespace Track

/-- The groups are numbered in their order, and the current one is the last. -/
structure Sound (track : Track) : Prop where
  next : track.track.writer.nextGroupId = track.track.shared.cells.length
  ids : track.track.shared.cells.map (·.info.groupId) =
    List.range track.track.shared.cells.length
  last : ∀ group, track.current = some group →
    group.cell + 1 = track.track.shared.cells.length

/-- Where the object of an atom goes. -/
inductive Publishes (track : Track) (raw : Bytes) (track' : Track) : Prop where
  | first (hnone : track.current = none)
      (hpayloads : track'.track.payloads = track.track.payloads ++ [[raw]])
  | next {before : List (List Bytes)} {last : List Bytes} (hsome : track.current.isSome)
      (hold : track.track.payloads = before ++ [last])
      (hnew : track'.track.payloads = before ++ [last ++ [raw]])

/-- What publishing an atom keeps and changes. -/
structure Grows (track : Track) (raw : Bytes) (track' : Track) : Prop where
  sound : track'.Sound
  current : track'.current.isSome
  handler : track'.handler = track.handler
  publishes : Publishes track raw track'

theorem sound_new (handler : TrackType) (timescale : Nat) : (new handler timescale).Sound where
  next := rfl
  ids := rfl
  last := by
    intro group h
    cases h

variable {track track' : Track} {raw : Bytes}

theorem payloads_append {groups : Groups} {before : List SubgroupCell} {last : SubgroupCell}
    (h : groups.shared.cells = before ++ [last]) :
    groups.payloads = before.map Groups.contents ++ [Groups.contents last] := by
  rw [Groups.payloads, h, List.map_append]
  rfl

/-- An atom for the current group. -/
theorem grows_of_write {current group : SubgroupWriter} {groups : Groups} (hs : track.Sound)
    (hcurrent : track.current = some current)
    (h : track.track.write current raw = .ok (group, groups)) :
    Grows track raw { track with track := groups, current := some group } := by
  have hlast := hs.last current hcurrent
  obtain ⟨before, last, hcells⟩ : ∃ before last, track.track.shared.cells = before ++ [last] := by
    rcases List.eq_nil_or_concat track.track.shared.cells with hnil | ⟨before, last, hcells⟩
    · rw [hnil] at hlast
      cases hlast
    · exact ⟨before, last, by rw [hcells, List.concat_eq_append]⟩
  have hlength : current.cell = before.length := by
    rw [hcells, List.length_append] at hlast
    exact Nat.succ.inj hlast
  obtain ⟨-, hcell, hwriter, hwritten⟩ := Groups.write_ok hcells hlength h
  have hsame : groups.shared.cells.length = track.track.shared.cells.length := by
    rw [hwritten, hcells, List.length_append, List.length_append]
    rfl
  refine ⟨⟨?_, ?_, ?_⟩, rfl, rfl, ?_⟩
  · change groups.writer.nextGroupId = groups.shared.cells.length
    rw [hwriter, hsame, hs.next]
  · change groups.shared.cells.map (·.info.groupId) = List.range groups.shared.cells.length
    rw [hsame, ← hs.ids, hwritten, hcells, List.map_append, List.map_append]
    rfl
  · rintro _ ⟨⟩
    change group.cell + 1 = groups.shared.cells.length
    rw [hcell, hsame, hlast]
  · refine .next (by rw [hcurrent]; rfl) (payloads_append hcells) ?_
    rw [payloads_append hwritten, Groups.contents_push]

/-- An atom that begins a group. -/
theorem grows_of_begin {segment group : SubgroupWriter} {mid groups : Groups}
    {priority : UInt8} (hs : track.Sound) (hcurrent : track.current = none)
    (happend : track.track.append priority = .ok (segment, mid))
    (hwrite : mid.write segment raw = .ok (group, groups)) :
    Grows track raw { track with track := groups, current := some group } := by
  obtain ⟨hcell, hnext, hcells⟩ := Groups.begin_ok happend hwrite
  have hlength : groups.shared.cells.length = track.track.shared.cells.length + 1 := by
    rw [hcells, List.length_append]
    rfl
  refine ⟨⟨?_, ?_, ?_⟩, rfl, rfl, ?_⟩
  · change groups.writer.nextGroupId = groups.shared.cells.length
    rw [hnext, hlength, hs.next]
  · change groups.shared.cells.map (·.info.groupId) = List.range groups.shared.cells.length
    rw [hlength, List.range_succ, ← hs.ids, hcells, List.map_append, ← hs.next]
    rfl
  · rintro _ ⟨⟩
    change group.cell + 1 = groups.shared.cells.length
    rw [hcell, hlength]
  · refine .first hcurrent ?_
    rw [payloads_append hcells, Groups.contents_push]
    rfl

theorem grows_of_header {fragment : Fragment} (hs : track.Sound)
    (h : track.header raw fragment = .ok track') : Grows track raw track' := by
  unfold header at h
  split at h
  · next current hcurrent =>
      obtain ⟨⟨group, groups⟩, hwrite, hpure⟩ := ok_of_bind h
      obtain rfl := Except.ok.inj hpure
      exact grows_of_write hs hcurrent (ok_of_mapError hwrite)
  · next hcurrent =>
      obtain ⟨timestamp, -, h⟩ := ok_of_bind h
      split at h
      · cases h
      · obtain ⟨⟨segment, mid⟩, happend, h⟩ := ok_of_bind h
        obtain ⟨⟨group, groups⟩, hwrite, hpure⟩ := ok_of_bind h
        obtain rfl := Except.ok.inj hpure
        exact grows_of_begin hs hcurrent (ok_of_mapError happend) (ok_of_mapError hwrite)

theorem grows_of_data (hs : track.Sound) (h : track.data raw = .ok track') :
    track.current.isSome ∧ Grows track raw track' := by
  unfold data at h
  split at h
  · next current hcurrent =>
      obtain ⟨⟨group, groups⟩, hwrite, hpure⟩ := ok_of_bind h
      obtain rfl := Except.ok.inj hpure
      exact ⟨by rw [hcurrent]; rfl, grows_of_write hs hcurrent (ok_of_mapError hwrite)⟩
  · cases h

/-- A writer that goes away changes nothing that is read off its group. -/
theorem map_drop {α : Type} (groups : Groups) (group : SubgroupWriter) (f : SubgroupCell → α)
    (hf : ∀ cell : SubgroupCell, f { cell with state := cell.state.drop } = f cell) :
    (groups.drop group).shared.cells.map f = groups.shared.cells.map f := by
  change (groups.shared.cells.set group.cell _).map f = _
  rw [List.map_set, hf]
  by_cases hlt : group.cell < groups.shared.cells.length
  · have hget : groups.shared.cells[group.cell]? = some (groups.shared.cell group) := by
      simp [Subgroups.cell, hlt]
    have hmap : (groups.shared.cells.map f)[group.cell]? = some (f (groups.shared.cell group)) := by
      rw [List.getElem?_map, hget]
      rfl
    obtain ⟨hlt', hself⟩ := List.getElem?_eq_some_iff.mp hmap
    rw [← hself, List.set_getElem_self]
  · exact List.set_eq_of_length_le (by simpa using hlt)

theorem endGroup_current (track : Track) : track.endGroup.current = none := by
  unfold endGroup
  split
  · rfl
  · next hnone => exact hnone

theorem endGroup_handler (track : Track) : track.endGroup.handler = track.handler := by
  unfold endGroup
  split <;> rfl

/-- Ending a group leaves what was published. -/
theorem endGroup_payloads (track : Track) :
    track.endGroup.track.payloads = track.track.payloads := by
  unfold endGroup
  split
  · exact map_drop track.track _ Groups.contents fun _ => rfl
  · rfl

theorem endGroup_sound (hs : track.Sound) : track.endGroup.Sound := by
  unfold endGroup
  split
  · next current hcurrent =>
      have hlength : (track.track.drop current).shared.cells.length =
          track.track.shared.cells.length := List.length_set
      refine ⟨hs.next.trans hlength.symm, ?_, ?_⟩
      · rw [hlength, ← hs.ids]
        exact map_drop track.track current (·.info.groupId) fun _ => rfl
      · intro group hgroup
        cases hgroup
  · exact hs

end Track

end MoqTransport.Mp4
