import Mathlib.Computability.StateTransition
import MoqTransport.Message.Message
import MoqTransport.Serve.Track

/-!
Serving a subscription. Every subgroup is sent on its own stream by a task of
its own; `SubgroupTask.step` is that task, one await point at a time, over
the subgroup it reads and the state it shares with the subscription's handle.
A task that finds nothing to read has no step.
-/

namespace MoqTransport.Session

open Streaming Coding Data Serve StateTransition

structure SubscribedState where
  maxGroupId : Option (Nat × Nat)
  closed : Option ServeError
deriving DecidableEq

namespace SubscribedState

def updateMaxGroupId (s : SubscribedState) (groupId objectId : Nat) : SubscribedState :=
  match s.maxGroupId with
  | some (maxGroup, maxObject) =>
      if groupId ≥ maxGroup ∧ objectId ≥ maxObject then
        { s with maxGroupId := some (groupId, objectId) }
      else
        s
  | none => s

/-- The message a handle sends when it is dropped: `ok` says whether it has
sent SUBSCRIBE_OK. -/
def terminal (s : SubscribedState) (id : Nat) (ok : Bool) : Message :=
  let err := s.closed.getD .done
  if ok then
    .subscribeDone { id := id, last := s.maxGroupId, code := err.code, reason := err.text }
  else
    .subscribeError { id := id, alias_ := 0, code := err.code, reason := err.text }

end SubscribedState

def SubscribedState.default : SubscribedState := ⟨none, none⟩

/-- `Subscribed::close`, before the handle is dropped. -/
def Subscribed.close (state : Watch.State SubscribedState) (err : ServeError) :
    Except ServeError (Watch.State SubscribedState) := do
  let closed ← Watch.closeWith .done state.value.closed state.dropped err
  pure (state.update fun s => { s with closed := closed })

/-- An UNSUBSCRIBE for the subscription. -/
def SubscribedRecv.recvUnsubscribe (state : Watch.State SubscribedState) :
    Except ServeError (Watch.State SubscribedState) :=
  match state.value.closed with
  | some err => .error err
  | none =>
      .ok (if state.dropped then state else state.update fun s => { s with closed := some .cancel })

/-- The sending half of a stream. The transport takes every write. -/
structure SendStream where
  sent : Bytes
  finished : Bool
deriving DecidableEq

/-- `Writer::encode`: the bytes of a message, put into a buffer first. -/
def encoded (e : Encode) : Except (Fault SessionError) Bytes :=
  match e bytesMut with
  | .ok ((), buffer) => .ok buffer.bytes
  | .error (.err e) => .error (.err (.encode e))
  | .error .panic => .error .panic

theorem encoded_eq {e : Encode} {ok : Prop} {bs : Bytes} (he : Emits e ok bs) (hok : ok)
    (hlen : bs.length ≤ 2 ^ 63) : encoded e = .ok bs := by
  have hroom : bs.length ≤ bytesMut.remainingMut := by
    simp only [bytesMut, BufMut.remainingMut, List.length_nil]
    omega
  unfold encoded
  rw [he.writes hok hroom]
  rfl

theorem encoded_error {e : Encode} {ok : Prop} {bs : Bytes} (he : Emits e ok bs) (hok : ¬ ok) :
    ∃ fault, encoded e = .error fault := by
  obtain ⟨fault, hfault⟩ := he.fails hok bytesMut
  unfold encoded
  rw [hfault]
  cases fault with
  | err e => exact ⟨_, rfl⟩
  | panic => exact ⟨_, rfl⟩

/-- Where a task stands. -/
inductive TaskPhase where
  | opening
  | header
  | next
  | object (index : Nat) (info : Serve.SubgroupObject)
  | update (index : Nat) (info : Serve.SubgroupObject)
  | payload (index : Nat) (info : Serve.SubgroupObject) (chunk : Nat)
  | finish
  | finished
  | failed (fault : Fault SessionError)
deriving DecidableEq

/-- The task is about to use the transport, and fails if that fails. -/
def TaskPhase.usesTransport : TaskPhase → Bool
  | .opening | .header | .object _ _ | .payload _ _ _ | .finish => true
  | .next | .update _ _ | .finished | .failed _ => false

/-- One spawned `serve_subgroup`. -/
structure SubgroupTask where
  header : SubgroupHeader
  reader : SubgroupReader
  phase : TaskPhase
  stream : SendStream
deriving DecidableEq

namespace SubgroupTask

/-- The task spawned for a subgroup of the subscription `id`. -/
def spawn (id trackAlias : Nat) (reader : SubgroupReader) : SubgroupTask where
  header := ⟨id, trackAlias, reader.info.groupId, reader.info.subgroupId, reader.info.priority⟩
  reader := reader
  phase := .opening
  stream := ⟨[], false⟩

def fail (t : SubgroupTask) (fault : Fault SessionError) : SubgroupTask :=
  { t with phase := .failed fault }

/-- Write a message to the stream, then go on. -/
def send (t : SubgroupTask) (e : Encode) (phase : TaskPhase) : SubgroupTask :=
  match encoded e with
  | .ok bs => { t with phase := phase, stream := { t.stream with sent := t.stream.sent ++ bs } }
  | .error fault => t.fail fault

/-- The object a task is reading. -/
def object (cell : SubgroupCell) (index : Nat) (info : Serve.SubgroupObject) :
    SubgroupObjectCell :=
  cell.state.value.objects.getD index info.produce

abbrev Shared := Watch.State SubscribedState

def step (cell : SubgroupCell) : SubgroupTask × Shared → Option (SubgroupTask × Shared)
  | (t, state) =>
      match t.phase with
      | .opening => some ({ t with phase := .header }, state)
      | .header => some (t.send (Header.subgroup t.header).encode .next, state)
      | .next =>
          match cell.next t.reader.index with
          | .pending => none
          | .ready (.error e) => some (t.fail (.err (.serve e)), state)
          | .ready (.ok none) => some ({ t with phase := .finish }, state)
          | .ready (.ok (some object)) =>
              some ({ t with
                phase := .object t.reader.index object.info
                reader := { t.reader with index := t.reader.index + 1 } }, state)
      | .object index info =>
          let header : Data.SubgroupObject := ⟨info.objectId, info.size, info.status⟩
          some (t.send header.encode (.update index info), state)
      | .update index info =>
          if state.dropped then
            some (t.fail (.err (.serve .done)), state)
          else
            some ({ t with phase := .payload index info 0 },
              state.update (·.updateMaxGroupId t.reader.info.groupId info.objectId))
      | .payload index info chunk =>
          match (object cell index info).read chunk with
          | .pending => none
          | .ready (.error e) => some (t.fail (.err (.serve e)), state)
          | .ready (.ok none) => some ({ t with phase := .next }, state)
          | .ready (.ok (some data)) =>
              some ({ t with
                phase := .payload index info (chunk + 1)
                stream := { t.stream with sent := t.stream.sent ++ data } }, state)
      | .finish =>
          some ({ t with phase := .finished, stream := { t.stream with finished := true } }, state)
      | .finished => none
      | .failed _ => none

/-- The steps of a task, one constructor for each thing it can do. -/
inductive Steps (cell : SubgroupCell) (t : SubgroupTask) (shared : Shared) :
    SubgroupTask → Shared → Prop where
  | opened (h : t.phase = .opening) : Steps cell t shared { t with phase := .header } shared
  | header (h : t.phase = .header) :
      Steps cell t shared (t.send (Header.subgroup t.header).encode .next) shared
  | next {o : SubgroupObjectCell} (h : t.phase = .next)
      (ho : cell.state.value.objects[t.reader.index]? = some o) :
      Steps cell t shared
        { t with
          phase := .object t.reader.index o.info
          reader := { t.reader with index := t.reader.index + 1 } } shared
  | subgroupClosed {e : ServeError} (h : t.phase = .next)
      (hclosed : cell.state.value.closed = some e) :
      Steps cell t shared (t.fail (.err (.serve e))) shared
  | subgroupEnded (h : t.phase = .next)
      (hend : cell.state.value.objects[t.reader.index]? = none)
      (hdropped : cell.state.dropped = true) :
      Steps cell t shared { t with phase := .finish } shared
  | object {index : Nat} {info : Serve.SubgroupObject} (h : t.phase = .object index info) :
      Steps cell t shared
        (t.send (⟨info.objectId, info.size, info.status⟩ : Data.SubgroupObject).encode
          (.update index info)) shared
  | refused {index : Nat} {info : Serve.SubgroupObject} (h : t.phase = .update index info)
      (hdropped : shared.dropped = true) :
      Steps cell t shared (t.fail (.err (.serve .done))) shared
  | update {index : Nat} {info : Serve.SubgroupObject} (h : t.phase = .update index info)
      (hlive : shared.dropped = false) :
      Steps cell t shared { t with phase := .payload index info 0 }
        (shared.update (·.updateMaxGroupId t.reader.info.groupId info.objectId))
  | chunk {index chunk : Nat} {info : Serve.SubgroupObject} {data : Bytes}
      (h : t.phase = .payload index info chunk)
      (hdata : (SubgroupTask.object cell index info).state.value.chunks[chunk]? = some data) :
      Steps cell t shared
        { t with
          phase := .payload index info (chunk + 1)
          stream := { t.stream with sent := t.stream.sent ++ data } } shared
  | objectClosed {index chunk : Nat} {info : Serve.SubgroupObject} {e : ServeError}
      (h : t.phase = .payload index info chunk)
      (hclosed : (SubgroupTask.object cell index info).state.value.closed = some e) :
      Steps cell t shared (t.fail (.err (.serve e))) shared
  | objectEnded {index chunk : Nat} {info : Serve.SubgroupObject}
      (h : t.phase = .payload index info chunk)
      (hend : (SubgroupTask.object cell index info).state.value.chunks[chunk]? = none)
      (hclosed : (SubgroupTask.object cell index info).state.value.closed = none)
      (hdropped : (SubgroupTask.object cell index info).state.dropped = true) :
      Steps cell t shared { t with phase := .next } shared
  | finish (h : t.phase = .finish) :
      Steps cell t shared
        { t with phase := .finished, stream := { t.stream with finished := true } } shared

theorem steps_of_step {cell : SubgroupCell} {t t' : SubgroupTask} {shared shared' : Shared}
    (h : step cell (t, shared) = some (t', shared')) : Steps cell t shared t' shared' := by
  unfold step at h
  dsimp only at h
  split at h
  · next hphase => cases h; exact .opened hphase
  · next hphase => cases h; exact .header hphase
  · next hphase =>
      unfold SubgroupCell.next Watch.exhausted at h
      cases ho : cell.state.value.objects[t.reader.index]? with
      | some o => rw [ho] at h; cases h; exact .next hphase ho
      | none =>
          rw [ho] at h
          cases hclosed : cell.state.value.closed with
          | some e => rw [hclosed] at h; cases h; exact .subgroupClosed hphase hclosed
          | none =>
              cases hdropped : cell.state.dropped with
              | false => simp [hclosed, hdropped] at h
              | true =>
                  rw [hclosed, hdropped] at h
                  cases h
                  exact .subgroupEnded hphase ho hdropped
  · next hphase => cases h; exact .object hphase
  · next hphase =>
      split at h
      · next hdropped => cases h; exact .refused hphase hdropped
      · next hlive => cases h; exact .update hphase (Bool.eq_false_iff.mpr hlive)
  · next index info chunk hphase =>
      unfold SubgroupObjectCell.read Watch.exhausted at h
      cases hdata : (SubgroupTask.object cell index info).state.value.chunks[chunk]? with
      | some data => rw [hdata] at h; cases h; exact .chunk hphase hdata
      | none =>
          rw [hdata] at h
          cases hclosed : (SubgroupTask.object cell index info).state.value.closed with
          | some e => rw [hclosed] at h; cases h; exact .objectClosed hphase hclosed
          | none =>
              cases hdropped : (SubgroupTask.object cell index info).state.dropped with
              | false => simp [hclosed, hdropped] at h
              | true =>
                  rw [hclosed, hdropped] at h
                  cases h
                  exact .objectEnded hphase hdata hclosed hdropped
  · next hphase => cases h; exact .finish hphase
  · cases h
  · cases h

theorem updateMaxGroupId_closed (s : SubscribedState) (groupId objectId : Nat) :
    (s.updateMaxGroupId groupId objectId).closed = s.closed := by
  unfold SubscribedState.updateMaxGroupId
  split
  · split <;> rfl
  · rfl

/-- A task changes the shared state only to record the newest object. -/
theorem Steps.shared {cell : SubgroupCell} {t t' : SubgroupTask} {shared shared' : Shared}
    (h : Steps cell t shared t' shared') :
    shared'.dropped = shared.dropped ∧ shared'.value.closed = shared.value.closed := by
  cases h with
  | update _ _ => exact ⟨rfl, updateMaxGroupId_closed _ _ _⟩
  | _ => exact ⟨rfl, rfl⟩

end SubgroupTask

/-- What serving a track in datagram mode has sent: datagrams, and streams
in their place. -/
structure Outbox where
  datagrams : List Bytes
  streams : List SendStream
deriving DecidableEq

/-- A datagram as the single object of subgroup 0 of its group. -/
def sendFallback (id trackAlias : Nat) (d : Serve.Datagram) :
    Except (Fault SessionError) Unit × SendStream :=
  let header : Header := .subgroup ⟨id, trackAlias, d.groupId, 0, d.priority⟩
  let object : Data.SubgroupObject := ⟨d.objectId, d.payload.length, d.status⟩
  match encoded header.encode with
  | .error fault => (.error fault, ⟨[], false⟩)
  | .ok headerBytes =>
      match encoded object.encode with
      | .error fault => (.error fault, ⟨headerBytes, false⟩)
      | .ok objectBytes => (.ok (), ⟨headerBytes ++ objectBytes ++ d.payload, true⟩)

/-- `serve_datagrams` on the datagrams it reads. `transport` says which of
them `send_datagram` takes; after the first it refuses, all are sent as
streams. -/
def serveDatagrams (transport : Bytes → Bool) (id trackAlias : Nat) :
    Bool → List Serve.Datagram → Watch.State SubscribedState → Outbox →
      Except (Fault SessionError) Unit × Watch.State SubscribedState × Outbox
  | _, [], state, out => (.ok (), state, out)
  | useStreamFallback, d :: ds, state, out =>
      let dg : Data.Datagram :=
        ⟨id, trackAlias, d.groupId, d.objectId, d.priority, d.status, d.payload.length, d.payload⟩
      let sent (useStreamFallback : Bool) (out : Outbox) :=
        if state.dropped then
          (.error (.err (.serve .done)), state, out)
        else
          serveDatagrams transport id trackAlias useStreamFallback ds
            (state.update (·.updateMaxGroupId d.groupId d.objectId)) out
      let fallback :=
        match sendFallback id trackAlias d with
        | (.error fault, stream) =>
            (.error fault, state, { out with streams := out.streams ++ [stream] })
        | (.ok (), stream) => sent true { out with streams := out.streams ++ [stream] }
      if useStreamFallback then
        fallback
      else
        match encoded dg.encode with
        | .error fault => (.error fault, state, out)
        | .ok bytes =>
            if transport bytes then
              sent false { out with datagrams := out.datagrams ++ [bytes] }
            else
              fallback

end MoqTransport.Session
