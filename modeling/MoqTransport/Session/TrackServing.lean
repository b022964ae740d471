import MoqTransport.Session.Serving

/-!
Serving a subscription in whatever mode its track turns out to have. In
stream and in datagram mode the handle itself does the sending, one await
point at a time; in subgroup mode it goes over to the loop of `Serving`. What
the writers of the track do in the other two modes is left open: between two
steps the track may have changed in any way.
-/

namespace MoqTransport.Session

open Streaming Coding Data Serve Machine

/-- `Writer::encode` on a stream. -/
def SendStream.encode (stream : SendStream) (e : Encode) :
    Except (Fault SessionError) SendStream :=
  (encoded e).map fun bs => { stream with sent := stream.sent ++ bs }

/-- Where `serve_track` stands. -/
inductive TrackPhase where
  | opening
  | header
  | nextGroup
  | nextObject
  | update (position : Nat) (info : Serve.SubgroupObject)
  | object (position : Nat) (info : Serve.SubgroupObject)
  | payload (position : Nat) (info : Serve.SubgroupObject) (chunk : Nat)
  | finish
  | finished
  | failed (fault : Fault SessionError)
deriving DecidableEq

def TrackPhase.usesTransport : TrackPhase → Bool
  | .opening | .header | .object _ _ | .payload _ _ _ | .finish => true
  | _ => false

/-- A run of `serve_track`. -/
structure TrackTask where
  header : TrackHeader
  /-- The epoch of the reader of the track. -/
  epoch : Nat
  /-- The group that is read: its position, its id and the reader's index. -/
  group : Nat
  groupId : Nat
  index : Nat
  phase : TrackPhase
  stream : SendStream
deriving DecidableEq

namespace TrackTask

def spawn (id trackAlias : Nat) (priority : UInt8) : TrackTask where
  header := ⟨id, trackAlias, priority⟩
  epoch := 0
  group := 0
  groupId := 0
  index := 0
  phase := .opening
  stream := ⟨[], false⟩

def fail (t : TrackTask) (fault : Fault SessionError) : TrackTask :=
  { t with phase := .failed fault }

/-- A reader of the cache failed. -/
def failServe (t : TrackTask) : Fault ServeError → TrackTask
  | .err e => t.fail (.err (.serve e))
  | .panic => t.fail .panic

def send (t : TrackTask) (e : Encode) (phase : TrackPhase) : TrackTask :=
  match t.stream.encode e with
  | .ok stream => { t with phase := phase, stream := stream }
  | .error fault => t.fail fault

def objectHeader (t : TrackTask) (info : Serve.SubgroupObject) : Data.TrackObject :=
  ⟨t.groupId, info.objectId, info.size, info.status⟩

def cell (track : Stream) (t : TrackTask) : StreamGroupCell :=
  track.groups.getD t.group ⟨t.groupId, .new ⟨[], none⟩⟩

/-- Unlike a subgroup's task it records an object before it sends it. -/
def step (track : Stream) (t : TrackTask) (shared : Watch.State SubscribedState) :
    Option (TrackTask × Watch.State SubscribedState) :=
  match t.phase with
  | .opening => some ({ t with phase := .header }, shared)
  | .header => some (t.send (Header.track t.header).encode .nextGroup, shared)
  | .nextGroup =>
      match StreamReader.next track t.epoch with
      | .pending => none
      | .ready (.error fault) => some (t.failServe fault, shared)
      | .ready (.ok none) => some ({ t with phase := .finish }, shared)
      | .ready (.ok (some (group, groupId))) =>
          some ({ t with
            epoch := track.state.value.epoch
            group := group
            groupId := groupId
            index := 0
            phase := .nextObject }, shared)
  | .nextObject =>
      match (t.cell track).next t.index with
      | .pending => none
      | .ready (.error fault) => some (t.failServe fault, shared)
      | .ready (.ok none) => some ({ t with phase := .nextGroup }, shared)
      | .ready (.ok (some object)) =>
          some ({ t with index := t.index + 1, phase := .update (t.index + 1) object.info }, shared)
  | .update position info =>
      if shared.dropped then
        some (t.fail (.err (.serve .done)), shared)
      else
        some ({ t with phase := .object position info },
          shared.update (·.updateMaxGroupId t.groupId info.objectId))
  | .object position info =>
      some (t.send (t.objectHeader info).encode (.payload position info 0), shared)
  | .payload position info chunk =>
      match ((t.cell track).state.value.objects.getD position info.produce).read chunk with
      | .pending => none
      | .ready (.error e) => some (t.fail (.err (.serve e)), shared)
      | .ready (.ok none) => some ({ t with phase := .nextObject }, shared)
      | .ready (.ok (some data)) =>
          some ({ t with
            phase := .payload position info (chunk + 1)
            stream := { t.stream with sent := t.stream.sent ++ data } }, shared)
  | .finish =>
      some ({ t with phase := .finished, stream := { t.stream with finished := true } }, shared)
  | .finished => none
  | .failed _ => none

end TrackTask

/-- Where `serve_datagrams` stands. -/
inductive DatagramPhase where
  | reading
  | sending (d : Serve.Datagram)
  | opening (d : Serve.Datagram)
  | header (d : Serve.Datagram)
  | object (d : Serve.Datagram)
  | payload (d : Serve.Datagram)
  | finish (d : Serve.Datagram)
  | update (d : Serve.Datagram)
  | finished
  | failed (fault : Fault SessionError)
deriving DecidableEq

/-- What fails with the transport. A datagram it refuses is sent as a stream. -/
def DatagramPhase.usesTransport : DatagramPhase → Bool
  | .opening _ | .header _ | .object _ | .payload _ | .finish _ => true
  | _ => false

/-- A run of `serve_datagrams`; `stream` is the stream in place of the
current datagram. -/
structure DatagramTask where
  id : Nat
  trackAlias : Nat
  epoch : Nat
  useStreamFallback : Bool
  phase : DatagramPhase
  stream : SendStream
  out : Outbox
deriving DecidableEq

namespace DatagramTask

def spawn (id trackAlias : Nat) : DatagramTask where
  id := id
  trackAlias := trackAlias
  epoch := 0
  useStreamFallback := false
  phase := .reading
  stream := ⟨[], false⟩
  out := ⟨[], []⟩

def fail (t : DatagramTask) (fault : Fault SessionError) : DatagramTask :=
  { t with phase := .failed fault }

def send (t : DatagramTask) (e : Encode) (phase : DatagramPhase) : DatagramTask :=
  match t.stream.encode e with
  | .ok stream => { t with phase := phase, stream := stream }
  | .error fault => t.fail fault

def datagram (t : DatagramTask) (d : Serve.Datagram) : Data.Datagram :=
  ⟨t.id, t.trackAlias, d.groupId, d.objectId, d.priority, d.status, d.payload.length, d.payload⟩

def subgroupHeader (t : DatagramTask) (d : Serve.Datagram) : SubgroupHeader :=
  ⟨t.id, t.trackAlias, d.groupId, 0, d.priority⟩

def objectHeader (d : Serve.Datagram) : Data.SubgroupObject :=
  ⟨d.objectId, d.payload.length, d.status⟩

/-- `taken` says whether the transport takes a datagram that is sent in this
step. -/
def step (datagrams : Watch.State DatagramsState) (taken : Bool) (t : DatagramTask)
    (shared : Watch.State SubscribedState) :
    Option (DatagramTask × Watch.State SubscribedState) :=
  match t.phase with
  | .reading =>
      match DatagramsReader.read datagrams t.epoch with
      | .pending => none
      | .ready (.error e) => some (t.fail (.err (.serve e)), shared)
      | .ready (.ok none) => some ({ t with phase := .finished }, shared)
      | .ready (.ok (some d)) =>
          some ({ t with
            epoch := datagrams.value.epoch
            phase := if t.useStreamFallback then .opening d else .sending d }, shared)
  | .sending d =>
      match encoded (t.datagram d).encode with
      | .error fault => some (t.fail fault, shared)
      | .ok bytes =>
          if taken then
            some ({ t with
              phase := .update d
              out := { t.out with datagrams := t.out.datagrams ++ [bytes] } }, shared)
          else
            some ({ t with phase := .opening d, useStreamFallback := true }, shared)
  | .opening d => some ({ t with phase := .header d, stream := ⟨[], false⟩ }, shared)
  | .header d => some (t.send (Header.subgroup (t.subgroupHeader d)).encode (.object d), shared)
  | .object d => some (t.send (objectHeader d).encode (.payload d), shared)
  | .payload d =>
      some ({ t with
        phase := .finish d
        stream := { t.stream with sent := t.stream.sent ++ d.payload } }, shared)
  | .finish d =>
      some ({ t with
        phase := .update d
        out := { t.out with
          streams := t.out.streams ++ [{ t.stream with finished := true }] } }, shared)
  | .update d =>
      if shared.dropped then
        some (t.fail (.err (.serve .done)), shared)
      else
        some ({ t with phase := .reading },
          shared.update (·.updateMaxGroupId d.groupId d.objectId))
  | .finished => none
  | .failed _ => none

end DatagramTask

/-- What the handle does in `serve_inner` outside of the loop. -/
inductive Inner where
  | idle
  | waiting
  | track (t : TrackTask)
  | datagrams (t : DatagramTask)
deriving DecidableEq

/-- A subscription and the track it is served from; the track's subgroups
are those of `serving`. -/
structure TrackServing where
  state : Watch.State TrackState
  stream : Stream
  datagrams : Watch.State DatagramsState
  inner : Inner
  serving : Serving
deriving DecidableEq

inductive TrackServingAct where
  /-- The writers have changed the track. -/
  | writers (state : Watch.State TrackState) (stream : Stream)
      (datagrams : Watch.State DatagramsState)
  | serve
  | mode
  | inner (taken : Bool)
  | innerFailure (message : String)
  | return_
  | serving (act : ServeAct)
deriving DecidableEq

namespace TrackServing

/-- A subscription just received, for a track nothing has been written to. -/
def init (id trackAlias : Nat) : TrackServing where
  state := .new ⟨none, none⟩
  stream := .produce 0
  datagrams := .new ⟨none, 0, none⟩
  inner := .idle
  serving := .init id trackAlias

def track (s : TrackServing) : Track := ⟨s.state, s.stream, s.serving.track, s.datagrams⟩

def setHandle (s : TrackServing) (handle : HandlePhase) : TrackServing :=
  { s with inner := .idle, serving := { s.serving with handle := handle } }

/-- `serve_inner` up to the mode of the track. -/
def serve (s : TrackServing) : TrackServing :=
  let latest := TrackReader.latest s.track
  if s.serving.shared.dropped then
    s.setHandle (.closing (.ofSession (.serve .cancel)))
  else
    { s with
      inner := .waiting
      serving := { s.serving with
        shared := s.serving.shared.update fun state => { state with maxGroupId := latest }
        queue := s.serving.queue ++ [.subscribeOk
          { id := s.serving.id, expires := none, groupOrder := .descending, latest := latest }]
        ok := true } }

def mode (s : TrackServing) : Option TrackServing :=
  match TrackReader.mode s.track with
  | .pending => none
  | .ready (.error err) => some (s.setHandle (.closing (.ofSession (.serve err))))
  | .ready (.ok .stream) =>
      some { s with
        inner := .track (.spawn s.serving.id s.serving.trackAlias s.stream.priority) }
  | .ready (.ok .subgroups) => some (s.setHandle (.looping 0 0))
  | .ready (.ok .datagrams) =>
      some { s with inner := .datagrams (.spawn s.serving.id s.serving.trackAlias) }

/-- What a failure of `serve_inner` makes of the handle; a panic drops it. -/
def failed (s : TrackServing) : Fault SessionError → TrackServing
  | .err e => s.setHandle (.closing (.ofSession e))
  | .panic => s.setHandle .dropping

def setShared (s : TrackServing) (shared : Watch.State SubscribedState) : TrackServing :=
  { s with serving := { s.serving with shared := shared } }

def step (s : TrackServing) : TrackServingAct → Option TrackServing
  | .writers state stream datagrams =>
      some { s with state := state, stream := stream, datagrams := datagrams }
  | .serve => if s.inner = .idle ∧ s.serving.handle = .held then some s.serve else none
  | .mode => if s.inner = .waiting then s.mode else none
  | .inner taken =>
      match s.inner with
      | .track t =>
          (t.step s.stream s.serving.shared).map fun (t, shared) =>
            { s.setShared shared with inner := .track t }
      | .datagrams t =>
          (t.step s.datagrams taken s.serving.shared).map fun (t, shared) =>
            { s.setShared shared with inner := .datagrams t }
      | _ => none
  | .innerFailure message =>
      match s.inner with
      | .track t =>
          if t.phase.usesTransport then
            some { s with inner := .track (t.fail (.err (.transport message))) }
          else
            none
      | .datagrams t =>
          if t.phase.usesTransport then
            some { s with inner := .datagrams (t.fail (.err (.transport message))) }
          else
            none
      | _ => none
  | .return_ =>
      match s.inner with
      | .track t =>
          match t.phase with
          | .finished => some (s.setHandle .dropping)
          | .failed fault => some (s.failed fault)
          | _ => none
      | .datagrams t =>
          match t.phase with
          | .finished => some (s.setHandle .dropping)
          | .failed fault => some (s.failed fault)
          | _ => none
      | _ => none
  | .serving act =>
      if act = .serve then
        none
      else
        (s.serving.step act).map fun serving => { s with serving := serving }

end TrackServing

end MoqTransport.Session
