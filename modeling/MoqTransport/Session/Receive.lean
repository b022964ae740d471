import MoqTransport.Serve.Track
import MoqTransport.Session.Reader

/-!
Receiving the objects of one stream into the cache. Each loop reads an object
header, creates an object of the announced size and copies that many bytes of
payload. An early end or an error leaves what has arrived so far in the cache
and drops the writers.
-/

namespace MoqTransport.Session

set_option linter.unusedVariables false

open Streaming Data Serve

/-- The parameters a received header gives its subgroup. -/
def subgroupOf (h : SubgroupHeader) : Subgroup := ⟨h.groupId, h.subgroupId, h.publisherPriority⟩

/-- Copy `remain` bytes of payload to an object. Also returns the writer and
the object as the loop leaves them. -/
def recvPayload (writer : SubgroupObjectWriter) (object : SubgroupObjectCell) (remain : Nat)
    (r : Reader) :
    Except (Fault SessionError) Reader × SubgroupObjectWriter × SubgroupObjectCell :=
  if hremain : remain = 0 then
    (.ok r, writer, object)
  else
    match hchunk : Reader.readChunk remain r with
    | .error fault => (.error fault, writer, object)
    | .ok (none, _) => (.error (.err .wrongSize), writer, object)
    | .ok (some data, r') =>
        match writer.write object data with
        | (writer, .error e) => (.error (.err (.serve e)), writer, object)
        | (writer, .ok object) => recvPayload writer object (remain - data.length) r'
termination_by remain
decreasing_by
  have hdata := (Reader.readChunk_eq_ok (Nat.pos_of_ne_zero hremain) hchunk).2.1
  have hpos := List.length_pos_iff.mpr hdata
  omega

theorem pending_recvPayload {writer : SubgroupObjectWriter} {object : SubgroupObjectCell}
    {remain : Nat} {r r' : Reader} {rest : SubgroupObjectWriter × SubgroupObjectCell}
    (h : recvPayload writer object remain r = (.ok r', rest)) :
    r'.pending.length ≤ r.pending.length := by
  fun_induction recvPayload writer object remain r with
  | case1 =>
      cases h
      rfl
  | case2 | case3 | case4 => cases h
  | case5 writer object remain r hremain data mid hchunk writer' object' hwrite ih =>
      obtain ⟨hsplit, -⟩ := Reader.readChunk_eq_ok (Nat.pos_of_ne_zero hremain) hchunk
      have hlen := congrArg List.length hsplit
      rw [List.length_append] at hlen
      have hrest := ih h
      omega

/-- The payload is copied whole, in whatever chunks it is read. -/
theorem recvPayload_eq (payload : Bytes) {rest : Bytes} (writer : SubgroupObjectWriter)
    (object : SubgroupObjectCell) {r : Reader} (hpending : r.pending = payload ++ rest)
    (hwriter : writer.remain = payload.length) (hobject : object.state.dropped = false) :
    ∃ r' chunks, recvPayload writer object payload.length r =
        (.ok r', { writer with remain := 0 },
          { object with
            state := object.state.update fun s => { s with chunks := s.chunks ++ chunks } }) ∧
      chunks.flatten = payload ∧ r'.pending = rest ∧ r'.stream.failure = r.stream.failure := by
  induction hlen : payload.length using Nat.strongRecOn generalizing payload writer object r with
  | _ n ih =>
      subst hlen
      by_cases hzero : payload = []
      · subst hzero
        refine ⟨r, [], ?_, rfl, hpending, rfl⟩
        unfold recvPayload
        obtain ⟨index, info, remain⟩ := writer
        obtain rfl : remain = 0 := hwriter
        simp [Watch.State.update]
      · obtain ⟨data, tail, mid, hchunk, rfl, hdata, hmid, hfailure⟩ :=
          Reader.readChunk_payload hzero hpending
        rw [List.length_append] at hwriter
        have hdpos := List.length_pos_iff.mpr hdata
        obtain ⟨last, chunks, hrun, hflat, hrest, hsame⟩ := ih tail.length
          (by rw [List.length_append]; omega) tail
          { writer with remain := writer.remain - data.length } (object.push data) hmid
          (by simp only; omega) hobject rfl
        refine ⟨last, data :: chunks, ?_, by simp [hflat], hrest, hsame.trans hfailure⟩
        have hwrite : writer.write object data =
            ({ writer with remain := writer.remain - data.length }, .ok (object.push data)) := by
          unfold SubgroupObjectWriter.write
          rw [if_neg (by omega), if_neg (by simp [hobject])]
        have hrecv : recvPayload writer object (data ++ tail).length r =
            recvPayload { writer with remain := writer.remain - data.length }
              (object.push data) tail.length mid := by
          rw [recvPayload, dif_neg (by rw [List.length_append]; omega)]
          rw [hchunk]
          simp only [hwrite]
          simp
        rw [hrecv, hrun]
        simp [SubgroupObjectCell.push, Watch.State.update]

/-- The object as the payload loop left it, with its writer dropped. -/
def settleObject (cell : SubgroupCell) (writer : SubgroupObjectWriter)
    (object : SubgroupObjectCell) : SubgroupCell :=
  { cell with
    state := cell.state.update fun s => s.setObject writer (object.dropWriter writer.remain) }

/-- The loop over the objects of a subgroup stream. The id and the status an
object arrived with are not passed on. -/
def recvObjects (writer : SubgroupWriter) (cell : SubgroupCell) (r : Reader) :
    Except (Fault SessionError) Unit × SubgroupCell :=
  match hdone : Reader.done r with
  | .error fault => (.error fault, cell)
  | .ok (true, _) => (.ok (), cell)
  | .ok (false, r1) =>
      match hheader : Reader.decode Data.SubgroupObject.decode r1 with
      | .error fault => (.error fault, cell)
      | .ok (header, r2) =>
          match writer.create cell header.size with
          | (_, .error e) => (.error (.err (.serve e)), cell)
          | (writer, .ok (objectWriter, cell)) =>
              match hpayload : recvPayload objectWriter (cell.state.value.object objectWriter)
                  header.size r2 with
              | (.error fault, objectWriter, object) =>
                  (.error fault, settleObject cell objectWriter object)
              | (.ok r3, objectWriter, object) =>
                  recvObjects writer (settleObject cell objectWriter object) r3
termination_by r.pending.length
decreasing_by
  have hlook := Reader.pending_done hdone
  have hread := Reader.pending_decode Data.SubgroupObject.shrinks_decode hheader
  have hcopy := pending_recvPayload hpayload
  rw [← hlook]
  omega

/-- Receive a subgroup stream; the writer goes away at the end. -/
def recvSubgroup (writer : SubgroupWriter) (cell : SubgroupCell) (r : Reader) :
    Except (Fault SessionError) Unit × SubgroupCell :=
  let (result, cell) := recvObjects writer cell r
  (result, { cell with state := cell.state.drop })

/-- What the cache keeps of the objects of a stream: the payloads, under
fresh ids and one status. -/
def renumber : Nat → List ObjectContent → List ObjectContent
  | _, [] => []
  | next, o :: objects => ⟨next, .object, o.payload⟩ :: renumber (next + 1) objects

/-- A round of the loop in which nothing fails. -/
theorem recvObjects_round {writer writer' : SubgroupWriter} {cell cell' : SubgroupCell}
    {r r1 r2 r3 : Reader} {header : Data.SubgroupObject}
    {objectWriter objectWriter' : SubgroupObjectWriter} {object : SubgroupObjectCell}
    (hdone : Reader.done r = .ok (false, r1))
    (hheader : Reader.decode Data.SubgroupObject.decode r1 = .ok (header, r2))
    (hcreate : writer.create cell header.size = (writer', .ok (objectWriter, cell')))
    (hpayload : recvPayload objectWriter (cell'.state.value.object objectWriter) header.size r2 =
      (.ok r3, objectWriter', object)) :
    recvObjects writer cell r =
      recvObjects writer' (settleObject cell' objectWriter' object) r3 := by
  rw [recvObjects, hdone]
  dsimp only
  rw [hheader]
  dsimp only
  rw [hcreate]
  dsimp only
  rw [hpayload]

/-- One round of the loop, on an object that arrives whole. -/
theorem recvObjects_cons (writer : SubgroupWriter) {cell : SubgroupCell} {r : Reader}
    {o : ObjectContent} {rest : Bytes} (ho : o.Ok) (hpending : r.pending = o.wire ++ rest)
    (hcell : cell.state.dropped = false) :
    ∃ stored r', recvObjects writer cell r =
        recvObjects { writer with next := writer.next + 1 }
          { cell with
            state := cell.state.update fun s => { s with objects := s.objects ++ [stored] } } r' ∧
      stored.content = ⟨writer.next, .object, o.payload⟩ ∧ stored.Complete ∧
      r'.pending = rest ∧ r'.stream.failure = r.stream.failure := by
  rw [ObjectContent.wire, List.append_assoc] at hpending
  obtain ⟨r1, hdone, hpending1, hfailure1⟩ := Reader.done_of_pending (r := r)
    (by simp [hpending, Data.SubgroupObject.wire_ne_nil])
  rw [hpending] at hpending1
  obtain ⟨r2, hheader, hpending2, hfailure2⟩ :=
    Reader.decode_transfers (Data.SubgroupObject.transfers_decode ho.1 ho.2) hpending1
  let info : Serve.SubgroupObject := ⟨writer.next, o.payload.length, .object⟩
  obtain ⟨r3, chunks, hpayload, hflat, hpending3, hfailure3⟩ := recvPayload_eq o.payload
    ⟨cell.state.value.objects.length, info, o.payload.length⟩ info.produce hpending2 rfl rfl
  refine ⟨(⟨info, ⟨⟨[] ++ chunks, none⟩, false⟩⟩ : SubgroupObjectCell).dropWriter 0, r3,
    ?_, ?_, ?_, hpending3, hfailure3.trans (hfailure2.trans hfailure1)⟩
  · have hcreate : writer.create cell o.header.size =
        ({ writer with next := writer.next + 1 },
          .ok (⟨cell.state.value.objects.length, info, o.payload.length⟩,
            { cell with
              state := cell.state.update fun s =>
                { s with objects := s.objects ++ [info.produce] } })) := by
      simp [SubgroupWriter.create, hcell, info, ObjectContent.header]
    have hfresh : (cell.state.update fun s =>
        { s with objects := s.objects ++ [info.produce] }).value.object
          ⟨cell.state.value.objects.length, info, o.payload.length⟩ = info.produce :=
      SubgroupState.object_push _ _ _ _
    rw [recvObjects_round hdone hheader hcreate ((congrArg (recvPayload _ · _ _) hfresh).trans
      hpayload)]
    simp only [settleObject, Watch.State.update, SubgroupState.setObject_push]
    rfl
  · simp [SubgroupObjectCell.content, SubgroupObjectCell.dropWriter, Watch.State.drop, info, hflat]
  · constructor
    · simp [SubgroupObjectCell.content, SubgroupObjectCell.dropWriter, Watch.State.drop, info,
        hflat]
    · simp [SubgroupObjectCell.dropWriter, Watch.State.drop]
    · rfl

theorem recvObjects_nil {writer : SubgroupWriter} {cell : SubgroupCell} {r : Reader}
    (hpending : r.pending = []) :
    recvObjects writer cell r = (Reader.finish r.stream.failure, cell) := by
  have hdone := Reader.done_of_empty hpending
  cases hfailure : r.stream.failure with
  | none =>
      rw [hfailure] at hdone
      rw [recvObjects, hdone]
      rfl
  | some message =>
      rw [hfailure] at hdone
      rw [recvObjects, hdone]
      rfl

/-- The whole loop on a well-formed stream: every payload is stored. -/
theorem recvObjects_eq {objects : List ObjectContent} (hobjects : ∀ o ∈ objects, o.Ok)
    (writer : SubgroupWriter) (cell : SubgroupCell) {r : Reader}
    (hpending : r.pending = objects.flatMap ObjectContent.wire)
    (hcell : cell.state.dropped = false) :
    ∃ stored, recvObjects writer cell r = (Reader.finish r.stream.failure,
        { cell with
          state := cell.state.update fun s => { s with objects := s.objects ++ stored } }) ∧
      stored.map SubgroupObjectCell.content = renumber writer.next objects ∧
      ∀ o ∈ stored, o.Complete := by
  induction objects generalizing writer cell r with
  | nil =>
      refine ⟨[], ?_, rfl, by simp⟩
      rw [recvObjects_nil hpending]
      simp [Watch.State.update]
  | cons o objects ih =>
      obtain ⟨first, r', hround, hcontent, hcomplete, hpending', hfailure⟩ :=
        recvObjects_cons writer (hobjects o (by simp)) hpending hcell
      obtain ⟨stored, hrun, hcontents, hall⟩ := ih (fun o ho => hobjects o (by simp [ho]))
        { writer with next := writer.next + 1 }
        { cell with
          state := cell.state.update fun s => { s with objects := s.objects ++ [first] } }
        hpending' hcell
      refine ⟨first :: stored, ?_, ?_, List.forall_mem_cons.mpr ⟨hcomplete, hall⟩⟩
      · rw [hround, hrun, hfailure]
        simp [Watch.State.update]
      · rw [List.map_cons, hcontent, hcontents]
        rfl

/-- An orphaned subgroup refuses its first object. -/
theorem recvObjects_orphan {o : ObjectContent} {rest : Bytes} (ho : o.Ok)
    (writer : SubgroupWriter) {cell : SubgroupCell} {r : Reader}
    (hpending : r.pending = o.wire ++ rest) (hcell : cell.state.dropped = true) :
    recvObjects writer cell r = (.error (.err (.serve .cancel)), cell) := by
  rw [ObjectContent.wire, List.append_assoc] at hpending
  obtain ⟨r1, hdone, hpending1, -⟩ := Reader.done_of_pending (r := r)
    (by simp [hpending, Data.SubgroupObject.wire_ne_nil])
  rw [hpending] at hpending1
  obtain ⟨r2, hheader, -⟩ :=
    Reader.decode_transfers (Data.SubgroupObject.transfers_decode ho.1 ho.2) hpending1
  have hcreate : writer.create cell o.header.size =
      ({ writer with next := writer.next + 1 }, .error .cancel) := by
    simp [SubgroupWriter.create, hcell]
  rw [recvObjects, hdone]
  dsimp only
  rw [hheader]
  dsimp only
  rw [hcreate]

/-- The group an object of a track stream goes to: the one before if the id
is the same, else a new one. -/
def nextGroup (track : Stream) (prev : Option StreamGroupWriter) (groupId : Nat) :
    Except ServeError (StreamGroupWriter × Stream) :=
  match prev with
  | some group =>
      if group.groupId = groupId then .ok (group, track) else StreamWriter.create track groupId
  | none => StreamWriter.create track groupId

def dropPrev (track : Stream) (prev : Option StreamGroupWriter) : Stream :=
  prev.elim track track.dropGroup

def settleStreamObject (track : Stream) (group : StreamGroupWriter) (cell : StreamGroupCell)
    (writer : SubgroupObjectWriter) (object : SubgroupObjectCell) : Stream :=
  track.setGroup group { cell with
    state := cell.state.update fun s =>
      s.setObject writer (StreamObject.dropWriter writer.remain object) }

/-- The loop over the objects of a track stream. -/
def recvTrackObjects (track : Stream) (prev : Option StreamGroupWriter) (r : Reader) :
    Except (Fault SessionError) Unit × Stream :=
  match hdone : Reader.done r with
  | .error fault => (.error fault, dropPrev track prev)
  | .ok (true, _) => (.ok (), dropPrev track prev)
  | .ok (false, r1) =>
      match hheader : Reader.decode Data.TrackObject.decode r1 with
      | .error fault => (.error fault, dropPrev track prev)
      | .ok (chunk, r2) =>
          match nextGroup track prev chunk.groupId with
          | .error e => (.error (.err (.serve e)), dropPrev track prev)
          | .ok (group, track) =>
              match group.create (track.group group) chunk.size with
              | .error e => (.error (.err (.serve e)), dropPrev (track.dropGroup group) prev)
              | .ok (objectWriter, cell) =>
                  match hpayload : recvPayload objectWriter (cell.state.value.object objectWriter)
                      chunk.size r2 with
                  | (.error fault, objectWriter, object) =>
                      let track := settleStreamObject track group cell objectWriter object
                      (.error fault, dropPrev (track.dropGroup group) prev)
                  | (.ok r3, objectWriter, object) =>
                      let track := settleStreamObject track group cell objectWriter object
                      -- `prev` is overwritten, which drops the writer of an earlier group.
                      let track := if prev = some group then track else dropPrev track prev
                      recvTrackObjects track (some group) r3
termination_by r.pending.length
decreasing_by
  have hlook := Reader.pending_done hdone
  have hread := Reader.pending_decode Data.TrackObject.shrinks_decode hheader
  have hcopy := pending_recvPayload hpayload
  rw [← hlook]
  omega

def recvTrack (track : Stream) (r : Reader) : Except (Fault SessionError) Unit × Stream :=
  recvTrackObjects track none r

end MoqTransport.Session
