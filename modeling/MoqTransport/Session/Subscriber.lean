import Mathlib.Data.Finmap
import MoqTransport.Session.Receive

/-!
The receiving side of a session: the table of subscriptions and what arriving
streams and datagrams do to it. A subscription holds the writer of its track;
every operation takes the writer out and puts it back only where the source
does, so an error or a missing line leaves the subscription without one.

Streams are received one after another: the session's stream loop awaits each
before it accepts the next.
-/

namespace MoqTransport.Session

open Streaming Coding Data Serve

structure SubscribeState where
  ok : Bool
  closed : Option ServeError
deriving DecidableEq

/-- What the session and the application share of one subscription. -/
structure Subscription where
  track : Track
  state : Watch.State SubscribeState
deriving DecidableEq

/-- The session's half of a subscription. -/
structure SubscribeRecv where
  writer : Option TrackWriterMode
deriving DecidableEq

namespace SubscribeRecv

/-- Close the track and the subscription with an error; consumes the
session's half. -/
def error (recv : SubscribeRecv) (sub : Subscription) (err : ServeError) :
    Except ServeError Unit × Subscription :=
  let closed : Except ServeError Track :=
    match recv.writer with
    | some writer => (writer.close sub.track err).map writer.drop
    | none => .ok sub.track
  match closed with
  | .error e =>
      (.error e, ⟨recv.writer.elim sub.track (·.drop sub.track), sub.state.drop⟩)
  | .ok track =>
      match Watch.closeWith .cancel sub.state.value.closed sub.state.dropped err with
      | .error e => (.error e, ⟨track, sub.state.drop⟩)
      | .ok closed =>
          (.ok (), ⟨track, (sub.state.update fun s => { s with closed := closed }).drop⟩)

/-- A track stream arrives. -/
def track (recv : SubscribeRecv) (track : Track) (header : TrackHeader) :
    Except ServeError Unit × SubscribeRecv × Track :=
  match recv.writer with
  | none => (.error .done, recv, track)
  | some .track =>
      match TrackWriter.stream track header.publisherPriority with
      | .error e => (.error e, ⟨none⟩, TrackWriterMode.track.drop track)
      | .ok track => (.ok (), ⟨some .stream⟩, track)
  | some writer => (.error .mode, ⟨none⟩, writer.drop track)

/-- The writer a subgroup stream finds: the track turns into one of
subgroups if it has no mode yet. -/
def subgroupsWriter (writer : TrackWriterMode) (track : Track) :
    Except ServeError (SubgroupsWriter × Track) :=
  match writer with
  | .track => TrackWriter.groups track
  | .subgroups w => .ok (w, track)
  | _ => .error .mode

/-- A subgroup stream arrives. -/
def subgroup (recv : SubscribeRecv) (track : Track) (header : SubgroupHeader) :
    Except ServeError SubgroupWriter × SubscribeRecv × Track :=
  match recv.writer with
  | none => (.error .done, recv, track)
  | some writer =>
      match subgroupsWriter writer track with
      | .error e => (.error e, ⟨none⟩, writer.drop track)
      | .ok (w, track) =>
          match w.create track.subgroups (subgroupOf header) with
          | .error e => (.error e, ⟨none⟩, (TrackWriterMode.subgroups w).drop track)
          | .ok (handle, w, subgroups) =>
              (.ok handle, ⟨some (.subgroups w)⟩, { track with subgroups := subgroups })

/-- The writer a datagram finds. -/
def datagramsWriter (writer : TrackWriterMode) (track : Track) : Except ServeError Track :=
  match writer with
  | .track => TrackWriter.datagrams track
  | .datagrams => .ok track
  | _ => .error .mode

/-- A datagram arrives. The writer is taken out and never put back, so it is
dropped once the datagram is written. -/
def datagram (recv : SubscribeRecv) (track : Track) (datagram : Data.Datagram) :
    Except ServeError Unit × SubscribeRecv × Track :=
  match recv.writer with
  | none => (.error .done, recv, track)
  | some writer =>
      match datagramsWriter writer track with
      | .error e => (.error e, ⟨none⟩, writer.drop track)
      | .ok track =>
          match DatagramsWriter.write track.datagrams ⟨datagram.groupId, datagram.objectId,
              datagram.publisherPriority, datagram.objectStatus, datagram.payload⟩ with
          | .error e => (.error e, ⟨none⟩, TrackWriterMode.datagrams.drop track)
          | .ok datagrams =>
              (.ok (), ⟨none⟩, TrackWriterMode.datagrams.drop { track with datagrams := datagrams })

end SubscribeRecv

/-- The subscriptions of a session. `shared` holds the states behind the
handles of each id; a subscription that has been removed leaves them to the
application. -/
structure Subscriber where
  subscribes : Finmap (fun _ : Nat => SubscribeRecv)
  shared : Nat → Subscription

namespace Subscriber

/-- Write back a subscription and its track. -/
def put (s : Subscriber) (id : Nat) (recv : SubscribeRecv) (track : Track) : Subscriber where
  subscribes := s.subscribes.insert id recv
  shared := Function.update s.shared id { s.shared id with track := track }

def recvStreamInner (s : Subscriber) (reader : Reader) (header : Header) :
    Except (Fault SessionError) Unit × Subscriber :=
  let id := header.subscribeId
  match s.subscribes.lookup id with
  | none => (.error (.err (.serve .notFound)), s)
  | some recv =>
      match header with
      | .track h =>
          match recv.track (s.shared id).track h with
          | (.error e, recv, track) => (.error (.err (.serve e)), s.put id recv track)
          | (.ok (), recv, track) =>
              let (result, stream) := recvTrack track.stream reader
              (result, s.put id recv { track with stream := stream })
      | .subgroup h =>
          match recv.subgroup (s.shared id).track h with
          | (.error e, recv, track) => (.error (.err (.serve e)), s.put id recv track)
          | (.ok writer, recv, track) =>
              let (result, cell) := recvSubgroup writer (track.subgroups.cell writer) reader
              (result, s.put id recv
                { track with subgroups := track.subgroups.setCell writer cell })

/-- The subscription is closed with the error of its stream and forgotten. -/
def terminate (s : Subscriber) (id : Nat) (err : ServeError) :
    Except (Fault SessionError) Unit × Subscriber :=
  match s.subscribes.lookup id with
  | none => (.error (.err (.serve err)), s)
  | some recv =>
      let (result, sub) := recv.error (s.shared id) err
      let s : Subscriber := ⟨s.subscribes.erase id, Function.update s.shared id sub⟩
      match result with
      | .error e => (.error (.err (.serve e)), s)
      | .ok () => (.error (.err (.serve err)), s)

/-- A stream is accepted and read to its end. -/
def recvStream (s : Subscriber) (stream : RecvStream) :
    Except (Fault SessionError) Unit × Subscriber :=
  match Reader.decode Header.decode (Reader.new stream) with
  | .error fault => (.error fault, s)
  | .ok (header, reader) =>
      match s.recvStreamInner reader header with
      | (.error (.err (.serve err)), s) => s.terminate header.subscribeId err
      | (result, s) => (result, s)

/-- Streams accepted one after another. Their errors are logged. -/
def recvStreams (s : Subscriber) (streams : List RecvStream) : Subscriber :=
  streams.foldl (fun s stream => (s.recvStream stream).2) s

/-- A datagram arrives. One for an unknown subscription is ignored. -/
def recvDatagram (s : Subscriber) (bytes : Bytes) :
    Except (Fault SessionError) Unit × Subscriber :=
  match Data.Datagram.decode bytes with
  | .error (.err e) => (.error (.err (.decode e)), s)
  | .error .panic => (.error .panic, s)
  | .ok (datagram, _) =>
      let id := datagram.subscribeId
      match s.subscribes.lookup id with
      | none => (.ok (), s)
      | some recv =>
          let (result, recv, track) := recv.datagram (s.shared id).track datagram
          match result with
          | .error e => (.error (.err (.serve e)), s.put id recv track)
          | .ok () => (.ok (), s.put id recv track)

/-- The datagram loop of a session: the first error ends it. -/
def runDatagrams (s : Subscriber) : List Bytes → Except (Fault SessionError) Unit × Subscriber
  | [] => (.ok (), s)
  | bytes :: rest =>
      match s.recvDatagram bytes with
      | (.error fault, s) => (.error fault, s)
      | (.ok (), s) => runDatagrams s rest

@[simp]
theorem lookup_put (s : Subscriber) (id : Nat) (recv : SubscribeRecv) (track : Track) :
    (s.put id recv track).subscribes.lookup id = some recv :=
  Finmap.lookup_insert _

@[simp]
theorem track_put (s : Subscriber) (id : Nat) (recv : SubscribeRecv) (track : Track) :
    ((s.put id recv track).shared id).track = track := by
  simp [put]

/-- What receiving does to the table: subscriptions may go, and those that
stay keep the application's side. -/
structure Narrows (s s' : Subscriber) : Prop where
  mem : ∀ {i : Nat}, i ∈ s'.subscribes → i ∈ s.subscribes
  dropped : ∀ {i : Nat}, i ∈ s'.subscribes →
    (s'.shared i).state.dropped = (s.shared i).state.dropped

theorem Narrows.refl (s : Subscriber) : Narrows s s := ⟨id, fun _ => rfl⟩

theorem Narrows.trans {s s' s'' : Subscriber} (h : Narrows s s') (h' : Narrows s' s'') :
    Narrows s s'' where
  mem hmem := h.mem (h'.mem hmem)
  dropped hmem := (h'.dropped hmem).trans (h.dropped (h'.mem hmem))

theorem narrows_put {s : Subscriber} {id : Nat} (hmem : id ∈ s.subscribes) (recv : SubscribeRecv)
    (track : Track) : Narrows s (s.put id recv track) := by
  refine ⟨?_, ?_⟩
  · intro i hi
    rcases Finmap.mem_insert.mp hi with rfl | hold
    · exact hmem
    · exact hold
  · intro i _
    simp only [put, Function.update_apply]
    split
    · next heq => rw [heq]
    · rfl

theorem narrows_recvStreamInner (s : Subscriber) (reader : Reader) (header : Header) :
    Narrows s (s.recvStreamInner reader header).2 := by
  unfold recvStreamInner
  dsimp only
  split
  · exact .refl s
  · next recv hlookup =>
      have hmem := Finmap.mem_of_lookup_eq_some hlookup
      split
      · split <;> exact narrows_put hmem _ _
      · split <;> exact narrows_put hmem _ _

/-- The subscription is removed, with whatever its halves end up as. -/
theorem narrows_erase (s : Subscriber) (id : Nat) (sub : Subscription) :
    Narrows s ⟨s.subscribes.erase id, Function.update s.shared id sub⟩ := by
  refine ⟨?_, ?_⟩
  · intro i hi
    exact (Finmap.mem_erase.mp hi).2
  · intro i hi
    dsimp only
    rw [Function.update_of_ne (Finmap.mem_erase.mp hi).1]

theorem narrows_terminate (s : Subscriber) (id : Nat) (err : ServeError) :
    Narrows s (s.terminate id err).2 := by
  unfold terminate
  split
  · exact .refl s
  · dsimp only
    split <;> exact narrows_erase s id _

theorem narrows_recvStream (s : Subscriber) (stream : RecvStream) :
    Narrows s (s.recvStream stream).2 := by
  unfold recvStream
  split
  · exact .refl s
  · next header reader hdecode =>
      have hinner := narrows_recvStreamInner s reader header
      split
      · next s' err hrun =>
          rw [hrun] at hinner
          exact hinner.trans (narrows_terminate _ _ _)
      · next result s' _ hrun =>
          rw [hrun] at hinner
          exact hinner

theorem narrows_recvDatagram (s : Subscriber) (bytes : Bytes) :
    Narrows s (s.recvDatagram bytes).2 := by
  unfold recvDatagram
  split
  · exact .refl s
  · exact .refl s
  · dsimp only
    split
    · exact .refl s
    · next recv hlookup =>
        split <;> exact narrows_put (Finmap.mem_of_lookup_eq_some hlookup) _ _

end Subscriber

/-! Datagrams for one subscription. -/

/-- A datagram as its publisher encodes it. -/
structure WellFormed (id : Nat) (d : Data.Datagram) : Prop where
  addressed : d.subscribeId = id
  ok : d.Ok
  length : d.payloadLen = d.payload.length

/-- What the cache keeps of a datagram. -/
def cachedDatagram (d : Data.Datagram) : Serve.Datagram :=
  ⟨d.groupId, d.objectId, d.publisherPriority, d.objectStatus, d.payload⟩

/-- The subscription has the writer of its track, without a mode or in
datagram mode, and its reader is alive. -/
inductive TakesDatagrams (s : Subscriber) (id : Nat) : Prop
  | track (recv : s.subscribes.lookup id = some ⟨some .track⟩)
      (alive : (s.shared id).track.state.dropped = false)
  | datagrams (recv : s.subscribes.lookup id = some ⟨some .datagrams⟩)
      (alive : (s.shared id).track.datagrams.dropped = false)

theorem TakesDatagrams.writer {s : Subscriber} {id : Nat} (h : TakesDatagrams s id) :
    ∃ writer track, s.subscribes.lookup id = some ⟨some writer⟩ ∧
      SubscribeRecv.datagramsWriter writer (s.shared id).track = .ok track ∧
      track.datagrams.dropped = false := by
  cases h with
  | track hlookup halive =>
      have hmode : SubscribeRecv.datagramsWriter .track (s.shared id).track =
          .ok { (s.shared id).track with
            state := ((s.shared id).track.state.update fun state =>
              { state with mode := some .datagrams }).drop
            datagrams := .new ⟨none, 0, none⟩ } := by
        simp only [SubscribeRecv.datagramsWriter, TrackWriter.datagrams, TrackWriter.setMode,
          halive]
        rfl
      exact ⟨.track, _, hlookup, hmode, rfl⟩
  | datagrams hlookup halive => exact ⟨.datagrams, _, hlookup, rfl, halive⟩

theorem SubscribeRecv.datagram_eq {writer : TrackWriterMode} {track track' : Track}
    (hwriter : datagramsWriter writer track = .ok track')
    (halive : track'.datagrams.dropped = false) (d : Data.Datagram) :
    ∃ last, (⟨some writer⟩ : SubscribeRecv).datagram track d = (.ok (), ⟨none⟩, last) ∧
      last.datagrams.value.latest = some (cachedDatagram d) := by
  have hwrite : DatagramsWriter.write track'.datagrams (cachedDatagram d) =
      .ok (track'.datagrams.update fun s =>
        { s with latest := some (cachedDatagram d), epoch := s.epoch + 1 }) := by
    rw [DatagramsWriter.write, if_neg (by simp [halive])]
  unfold cachedDatagram at hwrite
  refine ⟨TrackWriterMode.datagrams.drop { track' with
    datagrams := track'.datagrams.update fun s =>
      { s with latest := some (cachedDatagram d), epoch := s.epoch + 1 } }, ?_, rfl⟩
  simp only [datagram, hwriter, hwrite]
  rfl

namespace Subscriber

/-- Every datagram is accepted, is what a reader sees next, and leaves a
writer for the one after it. -/
def AcceptsDatagrams (id : Nat) : Subscriber → List Data.Datagram → Prop
  | _, [] => True
  | s, d :: ds =>
      let (result, s') := s.recvDatagram d.wire
      result = .ok () ∧
        (s'.shared id).track.datagrams.value.latest = some (cachedDatagram d) ∧
        s'.subscribes.lookup id = some ⟨some .datagrams⟩ ∧
        AcceptsDatagrams id s' ds

/-- The first datagram is written, and the writer is gone. -/
theorem recvDatagram_first {s : Subscriber} {id : Nat} (hs : TakesDatagrams s id)
    {d : Data.Datagram} (hd : WellFormed id d) :
    ∃ track, s.recvDatagram d.wire = (.ok (), s.put id ⟨none⟩ track) ∧
      track.datagrams.value.latest = some (cachedDatagram d) := by
  obtain ⟨rfl, hok, hlen⟩ := hd
  obtain ⟨writer, track, hlookup, hwriter, halive⟩ := hs.writer
  have hdecode := Data.Datagram.decode_wire hok hlen
  obtain ⟨last, hrun, hlatest⟩ := SubscribeRecv.datagram_eq hwriter halive d
  refine ⟨last, ?_, hlatest⟩
  simp only [recvDatagram, hdecode, hlookup, hrun]

/-- Any later one is refused. -/
theorem recvDatagram_spent {s : Subscriber} {id : Nat}
    (hlookup : s.subscribes.lookup id = some ⟨none⟩) {d : Data.Datagram} (hd : WellFormed id d) :
    (s.recvDatagram d.wire).1 = .error (.err (.serve .done)) := by
  obtain ⟨rfl, hok, hlen⟩ := hd
  have hdecode := Data.Datagram.decode_wire hok hlen
  simp only [recvDatagram, hdecode, hlookup, SubscribeRecv.datagram]

/-- A subscription that can take a datagram takes a sequence of them as it
should only when the sequence is empty: the first one costs it its writer. -/
theorem acceptsDatagrams_iff (s : Subscriber) (id : Nat) (ds : List Data.Datagram)
    (hs : TakesDatagrams s id) (hds : ∀ d ∈ ds, WellFormed id d) :
    AcceptsDatagrams id s ds ↔ ds = [] := by
  constructor
  · intro haccepts
    cases ds with
    | nil => rfl
    | cons d ds =>
        obtain ⟨track, hrun, -⟩ := recvDatagram_first hs (hds d (by simp))
        unfold AcceptsDatagrams at haccepts
        rw [hrun] at haccepts
        have hwriter := haccepts.2.2.1
        rw [lookup_put] at hwriter
        cases hwriter
  · rintro rfl
    trivial

/-- A session right after it subscribed under `id`. -/
def subscribed (id : Nat) : Subscriber :=
  ⟨Finmap.singleton id ⟨some .track⟩, fun _ => ⟨Track.produce, .new ⟨false, none⟩⟩⟩

theorem takesDatagrams_subscribed (id : Nat) : TakesDatagrams (subscribed id) id :=
  .track Finmap.lookup_singleton_eq rfl

/-- An object of one byte, sent as a datagram. -/
def byteDatagram (id objectId : Nat) : Data.Datagram :=
  ⟨id, id, 0, objectId, 127, .object, 1, [7]⟩

theorem wellFormed_byteDatagram {id objectId : Nat} (hid : fitsVarInt id)
    (hobject : fitsVarInt objectId) : WellFormed id (byteDatagram id objectId) :=
  ⟨rfl, ⟨hid, hid, (by decide : fitsVarInt 0), hobject, (by decide : fitsVarInt 1)⟩, rfl⟩

theorem not_acceptsDatagrams_one :
    ¬ AcceptsDatagrams 4 (subscribed 4) [byteDatagram 4 0] := by
  rw [acceptsDatagrams_iff _ _ _ (takesDatagrams_subscribed 4)
    (by simpa using wellFormed_byteDatagram (by decide) (by decide))]
  simp

/-- Two datagrams end the datagram loop of the session. -/
theorem runDatagrams_two {s : Subscriber} {id : Nat} (hs : TakesDatagrams s id)
    {first second : Data.Datagram} (hfirst : WellFormed id first) (hsecond : WellFormed id second)
    (rest : List Bytes) :
    (s.runDatagrams (first.wire :: second.wire :: rest)).1 = .error (.err (.serve .done)) := by
  obtain ⟨track, hrun, -⟩ := recvDatagram_first hs hfirst
  have hspent := recvDatagram_spent (s.lookup_put id ⟨none⟩ track) hsecond
  rw [runDatagrams, hrun]
  dsimp only
  rw [runDatagrams]
  split
  · next fault s' hlast =>
      rw [hlast] at hspent
      exact hspent
  · next s' hlast =>
      rw [hlast] at hspent
      cases hspent

theorem runDatagrams_two_bytes :
    ((subscribed 4).runDatagrams [(byteDatagram 4 0).wire, (byteDatagram 4 1).wire]).1 =
      .error (.err (.serve .done)) :=
  runDatagrams_two (takesDatagrams_subscribed 4)
    (wellFormed_byteDatagram (by decide) (by decide))
    (wellFormed_byteDatagram (by decide) (by decide)) []

end Subscriber

end MoqTransport.Session
