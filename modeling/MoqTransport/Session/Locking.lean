import MoqTransport.Lib.Locks
import MoqTransport.Session.Announced
import MoqTransport.Session.Subscribe
import MoqTransport.Session.Subscribed

/-!
What a session does to its tables, mutex by mutex. Each of the four tables has
a mutex of its own. A handle that is dropped sends a message, sending it takes
the entry of the handle out of a table, and the entry may be the last owner of
a state in which other handles wait, which are then dropped as well: all of
that happens where the drop stands, under whatever mutexes are held there.

A handle is a value, and is in one place at a time: in a queue, with the
application, or in what a thread has left to do. The states that two handles
share are lists, and a handle names its state by its position. The mutexes
inside these states and queues are each held for one operation, during which no
handle is dropped. The operations of the publisher presuppose that it lives;
of the subscriber's handles every owner counts, because the last one to go
closes the queue of announcements.
-/

namespace MoqTransport.Session.Locking

open Streaming Coding Data Serve Locks

/-- The mutexes around the tables of a session. -/
inductive Mutex where
  | announces
  | subscribed
  | announced
  | subscribes
deriving DecidableEq

structure Subscribed where
  state : Nat
  msg : Message.Subscribe
  ok : Bool
deriving DecidableEq

structure AnnounceState where
  subscribers : List Subscribed
  trackStatusesRequested : List Message.TrackStatusRequest
  ok : Bool
  closed : Option ServeError

/-- The state of an `Announce` and its `AnnounceRecv`, and how many of the two
are left. -/
structure AnnounceShared where
  state : Watch.State AnnounceState
  halves : Nat

structure Announce where
  state : Nat
  namespace_ : Tuple
deriving DecidableEq

structure Announced where
  state : Nat
  namespace_ : Tuple
  ok : Bool
  error : Option ServeError
deriving DecidableEq

/-- What the threads of a session share, and the handles that are not in the
hands of any. -/
structure Shared where
  announces : Finmap (fun _ : Tuple => Nat)
  announceStates : List AnnounceShared
  /-- The handles of the application that announces. -/
  announcing : List Announce
  subscribed : Finmap (fun _ : Nat => Nat)
  subscribedStates : List (Watch.State SubscribedState)
  unknown : Watch.Queue Subscribed
  /-- The local variables of `recv_subscribe`. -/
  routing : List Subscribed
  /-- The handles that are served, or that the application has taken. -/
  serving : List Subscribed
  announced : Finmap (fun _ : Tuple => Nat)
  announcedStates : List (Watch.State Unit)
  announcedQueue : Watch.Queue Announced
  accepted : List Announced
  subscriber : Subscriber
  subscribeNext : Nat
  /-- The calls of `subscribe` that wait. -/
  waiting : List Nat
  /-- The `Subscriber`s that no thread is using. -/
  subscribers : Nat
  /-- The owners of `announcedQueue`. -/
  owners : Nat
  outgoing : Watch.Queue Message

/-- Everything between two changes of what a mutex protects. -/
inductive Op where
  | recvAnnounceOk (namespace_ : Tuple)
  | takeAnnounce (namespace_ : Tuple) (err : ServeError)
  | recvError (announce : Nat) (err : ServeError)
  | dropAnnounceHalf (announce : Nat)
  | insertSubscribed (handle : Subscribed)
  | routeSubscribed (handle : Subscribed)
  | pushUnknown (handle : Subscribed)
  | recvUnsubscribe (id : Nat)
  | recvTrackStatusRequest (msg : Message.TrackStatusRequest)
  | announce (namespace_ : Tuple)
  | storeAnnounce (handle : Announce)
  | dropAnnounce (handle : Announce)
  | removeAnnounce (namespace_ : Tuple)
  | serve (handle : Subscribed) (latest : Option (Nat × Nat))
  | served (handle : Subscribed)
  | closeSubscribed (handle : Subscribed) (err : ServeError)
  | dropSubscribed (handle : Subscribed)
  | removeSubscribed (id : Nat)
  | dropSubscribedHalf (subscribed : Nat)
  | recvAnnounce (namespace_ : Tuple)
  | pushAnnounced (handle : Announced)
  | storeAnnounced (handle : Announced)
  | removeAnnounced (namespace_ : Tuple)
  | dropAnnouncedHalf (announced : Nat)
  | okAnnounced (handle : Announced)
  | keepAnnounced (handle : Announced)
  | closeAnnounced (handle : Announced) (err : ServeError)
  | dropAnnounced (handle : Announced)
  | dropAnnouncedFields (handle : Announced)
  | insertSubscribe (id : Nat) (track : Track)
  | waitSubscribe (id : Nat)
  | dropSubscribe (id : Nat)
  | dropSubscribeFields (id : Nat)
  | recvSubscribeOk (msg : Message.SubscribeOk)
  | recvSubscribeEnd (id code : Nat)
  | openStream (header : Header)
  | terminate (id : Nat) (err : ServeError)
  | recvDatagram (bytes : Bytes)
  /-- A thread is done with the `Subscriber` it uses. -/
  | giveBack
  | dropSubscriber
  | push (msg : Message)

abbrev Todo := Stack Mutex Op

/-- `Publisher::send_message`: a terminal message takes the entry of its handle
out of a table. -/
def publisherSend (msg : Message) : Todo :=
  match msg with
  | .subscribeDone m => [.lock .subscribed (.removeSubscribed m.id), .run (.push msg)]
  | .subscribeError m => [.lock .subscribed (.removeSubscribed m.id), .run (.push msg)]
  | .unannounce m => [.lock .announces (.removeAnnounce m.namespace_), .run (.push msg)]
  | _ => [.run (.push msg)]

/-- `Subscriber::send_message`. -/
def subscriberSend (msg : Message) : Todo :=
  match msg with
  | .announceCancel m => [.lock .announced (.removeAnnounced m.namespace_), .run (.push msg)]
  | .announceError m => [.lock .announced (.removeAnnounced m.namespace_), .run (.push msg)]
  | _ => [.run (.push msg)]

namespace AnnounceShared

def new : AnnounceShared := ⟨.new ⟨[], [], false, none⟩, 2⟩

def recvOk (c : AnnounceShared) : AnnounceShared :=
  if c.state.dropped then c else { c with state := c.state.update fun s => { s with ok := true } }

def recvError (c : AnnounceShared) (err : ServeError) : AnnounceShared :=
  match Watch.closeWith .done c.state.value.closed c.state.dropped err with
  | .ok closed => { c with state := c.state.update fun s => { s with closed := closed } }
  | .error _ => c

def recvTrackStatusRequested (c : AnnounceShared) (msg : Message.TrackStatusRequest) :
    AnnounceShared :=
  if c.state.dropped then
    c
  else
    { c with state := c.state.update fun s =>
      { s with trackStatusesRequested := s.trackStatusesRequested ++ [msg] } }

/-- One half goes away; after the last the handles in the queue are left. -/
def dropHalf (c : AnnounceShared) : AnnounceShared × List Subscribed :=
  let gone : AnnounceShared := { c with state := c.state.drop, halves := c.halves - 1 }
  if c.halves = 1 then
    ({ gone with state := gone.state.update fun s => { s with subscribers := [] } },
      c.state.value.subscribers)
  else
    (gone, [])

end AnnounceShared

/-- The message of an `Announced` that is dropped. -/
def Announced.lastMessage (h : Announced) : Message :=
  Announcements.terminal ⟨h.namespace_, h.ok, .held, none⟩ h.error

namespace Shared

def init : Shared where
  announces := ∅
  announceStates := []
  announcing := []
  subscribed := ∅
  subscribedStates := []
  unknown := .new []
  routing := []
  serving := []
  announced := ∅
  announcedStates := []
  announcedQueue := .new []
  accepted := []
  subscriber := ⟨∅, fun _ => ⟨.produce, .new ⟨false, none⟩⟩⟩
  subscribeNext := 0
  waiting := []
  subscribers := 1
  owners := 1
  outgoing := .new []

def setAnnounce (s : Shared) (a : Nat) (c : AnnounceShared) : Shared :=
  { s with announceStates := s.announceStates.set a c }

def setSubscribed (s : Shared) (i : Nat) (state : Watch.State SubscribedState) : Shared :=
  { s with subscribedStates := s.subscribedStates.set i state }

/-- `recv_subscribe`, up to the end of its first critical section. -/
def insertSubscribed (s : Shared) (h : Subscribed) : Shared :=
  match s.subscribed.lookup h.msg.id with
  | some _ => s
  | none => { s with
      subscribed := s.subscribed.insert h.msg.id h.state
      routing := h :: s.routing }

/-- The second one: an announcement of the namespace gets the handle. -/
def routeSubscribed (s : Shared) (h : Subscribed) : Shared × Todo :=
  if h ∈ s.routing then
    match s.announces.lookup h.msg.trackNamespace with
    | none => (s, [])
    | some a =>
        let s := { s with routing := s.routing.erase h }
        match s.announceStates[a]? with
        | none => (s, [])
        | some c =>
            if c.state.dropped then
              (s, [.run (.dropSubscribed h)])
            else
              (s.setAnnounce a { c with state := c.state.update fun state =>
                { state with subscribers := state.subscribers ++ [h] } }, [])
  else
    (s, [])

/-- The rest of it. -/
def pushUnknown (s : Shared) (h : Subscribed) : Shared × Todo :=
  if h ∈ s.routing then
    let s := { s with routing := s.routing.erase h }
    match s.unknown.push h with
    | .ok unknown => ({ s with unknown := unknown }, [])
    | .error h => (s, [.run (.closeSubscribed h .notFound)])
  else
    (s, [])

def recvUnsubscribe (s : Shared) (id : Nat) : Shared :=
  match s.subscribed.lookup id with
  | none => s
  | some i =>
      match s.subscribedStates[i]? with
      | none => s
      | some state =>
          match SubscribedRecv.recvUnsubscribe state with
          | .ok state => s.setSubscribed i state
          | .error _ => s

/-- A change to the announcement of a namespace. -/
def withAnnounce (s : Shared) (namespace_ : Tuple) (f : AnnounceShared → AnnounceShared) :
    Shared :=
  match s.announces.lookup namespace_ with
  | none => s
  | some a =>
      match s.announceStates[a]? with
      | none => s
      | some c => s.setAnnounce a (f c)

/-- The entry of a namespace is taken out, for something to be done to it. -/
def removeAnnounce (s : Shared) (namespace_ : Tuple) (todo : Nat → Todo) : Shared × Todo :=
  match s.announces.lookup namespace_ with
  | none => (s, [])
  | some a => ({ s with announces := s.announces.erase namespace_ }, todo a)

/-- An `Announce` or an `AnnounceRecv` goes away, and after both of them the
handles that wait in their queue. -/
def dropAnnounceHalf (s : Shared) (a : Nat) : Shared × Todo :=
  match s.announceStates[a]? with
  | none => (s, [])
  | some c =>
      (s.setAnnounce a c.dropHalf.1, c.dropHalf.2.map fun h => .run (.closeSubscribed h .notFound))

/-- `announce`, with the mutex held. -/
def announce (s : Shared) (namespace_ : Tuple) : Shared × Todo :=
  match s.announces.lookup namespace_ with
  | some _ => (s, [])
  | none =>
      let h : Announce := ⟨s.announceStates.length, namespace_⟩
      ({ s with announceStates := s.announceStates ++ [.new] },
        publisherSend (.announce { namespace_ := namespace_, params := ∅ }) ++
          [.run (.storeAnnounce h)])

/-- The destructor of `Announce`, and then its half of the state. -/
def dropAnnounce (s : Shared) (h : Announce) : Todo :=
  let closed := (s.announceStates[h.state]?).bind fun c => c.state.value.closed
  if closed.isSome then
    [.run (.dropAnnounceHalf h.state)]
  else
    publisherSend (.unannounce { namespace_ := h.namespace_ }) ++ [.run (.dropAnnounceHalf h.state)]

/-- The beginning of `serve_inner`. -/
def serve (s : Shared) (h : Subscribed) (latest : Option (Nat × Nat)) : Shared × Todo :=
  match s.subscribedStates[h.state]? with
  | none => (s, [])
  | some state =>
      if state.dropped then
        (s, [.run (.closeSubscribed h (.ofSession (.serve .cancel)))])
      else
        (s.setSubscribed h.state (state.update fun v => { v with maxGroupId := latest }),
          publisherSend (.subscribeOk
            { id := h.msg.id, expires := none, groupOrder := .descending, latest := latest }) ++
            [.run (.served { h with ok := true })])

def closeSubscribed (s : Shared) (h : Subscribed) (err : ServeError) : Shared :=
  match s.subscribedStates[h.state]? with
  | none => s
  | some state =>
      match Session.Subscribed.close state err with
      | .ok state => s.setSubscribed h.state state
      | .error _ => s

/-- The destructor of `Subscribed`, and then its half of the state. -/
def dropSubscribed (s : Shared) (h : Subscribed) : Todo :=
  match s.subscribedStates[h.state]? with
  | none => []
  | some state =>
      publisherSend (state.value.terminal h.msg.id h.ok) ++ [.run (.dropSubscribedHalf h.state)]

/-- `drop_subscribe`: the `SubscribedRecv` under the id goes away. -/
def removeSubscribed (s : Shared) (id : Nat) : Shared × Todo :=
  match s.subscribed.lookup id with
  | none => (s, [])
  | some i => ({ s with subscribed := s.subscribed.erase id }, [.run (.dropSubscribedHalf i)])

def dropSubscribedHalf (s : Shared) (i : Nat) : Shared :=
  { s with subscribedStates := s.subscribedStates.modify i Watch.State.drop }

/-- `recv_announce`, up to the new handle; it has a `Subscriber` of its own.
The one that the message came to is given back before the mutex is. -/
def recvAnnounce (s : Shared) (namespace_ : Tuple) : Shared × Todo :=
  match s.announced.lookup namespace_ with
  | some _ => (s, [.run .giveBack])
  | none =>
      let h : Announced := ⟨s.announcedStates.length, namespace_, false, none⟩
      ({ s with announcedStates := s.announcedStates ++ [.new ()], owners := s.owners + 1 },
        [.run (.pushAnnounced h), .run .giveBack])

/-- The handle that cannot be queued is dropped where it stands, and then its
other half. -/
def pushAnnounced (s : Shared) (h : Announced) : Shared × Todo :=
  match s.announcedQueue.push h with
  | .ok queue => ({ s with announcedQueue := queue }, [.run (.storeAnnounced h)])
  | .error h => (s, [.run (.closeAnnounced h .cancel), .run (.dropAnnouncedHalf h.state)])

/-- The `AnnouncedRecv` of a namespace goes away. -/
def removeAnnounced (s : Shared) (namespace_ : Tuple) : Shared × Todo :=
  match s.announced.lookup namespace_ with
  | none => (s, [])
  | some j =>
      ({ s with announced := s.announced.erase namespace_ }, [.run (.dropAnnouncedHalf j)])

def dropAnnouncedHalf (s : Shared) (j : Nat) : Shared :=
  { s with announcedStates := s.announcedStates.modify j Watch.State.drop }

def okAnnounced (s : Shared) (h : Announced) : Shared × Todo :=
  if h.ok then
    (s, [.run (.keepAnnounced h)])
  else
    (s, subscriberSend (.announceOk { namespace_ := h.namespace_ }) ++
      [.run (.keepAnnounced { h with ok := true })])

/-- A `Subscriber` goes away. The last one closes the queue of announcements
and drops the handles in it. -/
def dropSubscriber (s : Shared) : Shared × Todo :=
  if s.owners = 1 then
    ({ s with owners := 0, announcedQueue := ⟨[], true⟩ },
      s.announcedQueue.value.map fun h => .run (.dropAnnounced h))
  else
    ({ s with owners := s.owners - 1 }, [])

/-- The first critical section of `recv_stream_inner`. -/
def openStream (s : Shared) (header : Header) : Shared :=
  let id := header.subscribeId
  match s.subscriber.subscribes.lookup id with
  | none => s
  | some recv =>
      match header with
      | .track h =>
          let (_, recv, track) := recv.track (s.subscriber.shared id).track h
          { s with subscriber := s.subscriber.put id recv track }
      | .subgroup h =>
          let (_, recv, track) := recv.subgroup (s.subscriber.shared id).track h
          { s with subscriber := s.subscriber.put id recv track }

def push (s : Shared) (msg : Message) : Shared :=
  match s.outgoing.push msg with
  | .ok outgoing => { s with outgoing := outgoing }
  | .error _ => s

end Shared

def exec (s : Shared) : Op → Shared × Todo
  | .recvAnnounceOk ns => (s.withAnnounce ns AnnounceShared.recvOk, [])
  | .takeAnnounce ns err =>
      s.removeAnnounce ns fun a => [.run (.recvError a err), .run (.dropAnnounceHalf a)]
  | .recvError a err =>
      ({ s with announceStates := s.announceStates.modify a (·.recvError err) }, [])
  | .dropAnnounceHalf a => s.dropAnnounceHalf a
  | .insertSubscribed h => (s.insertSubscribed h, [])
  | .routeSubscribed h => s.routeSubscribed h
  | .pushUnknown h => s.pushUnknown h
  | .recvUnsubscribe id => (s.recvUnsubscribe id, [])
  | .recvTrackStatusRequest msg =>
      (s.withAnnounce msg.trackNamespace (·.recvTrackStatusRequested msg), [])
  | .announce ns => s.announce ns
  | .storeAnnounce h =>
      ({ s with
        announces := s.announces.insert h.namespace_ h.state
        announcing := h :: s.announcing }, [])
  | .dropAnnounce h => (s, s.dropAnnounce h)
  | .removeAnnounce ns => s.removeAnnounce ns fun a => [.run (.dropAnnounceHalf a)]
  | .serve h latest => s.serve h latest
  | .served h => ({ s with serving := h :: s.serving }, [])
  | .closeSubscribed h err => (s.closeSubscribed h err, [.run (.dropSubscribed h)])
  | .dropSubscribed h => (s, s.dropSubscribed h)
  | .removeSubscribed id => s.removeSubscribed id
  | .dropSubscribedHalf i => (s.dropSubscribedHalf i, [])
  | .recvAnnounce ns => s.recvAnnounce ns
  | .pushAnnounced h => s.pushAnnounced h
  | .storeAnnounced h => ({ s with announced := s.announced.insert h.namespace_ h.state }, [])
  | .removeAnnounced ns => s.removeAnnounced ns
  | .dropAnnouncedHalf j => (s.dropAnnouncedHalf j, [])
  | .okAnnounced h => s.okAnnounced h
  | .keepAnnounced h => ({ s with accepted := h :: s.accepted }, [])
  | .closeAnnounced h err => (s, [.run (.dropAnnounced { h with error := some err })])
  | .dropAnnounced h => (s, subscriberSend h.lastMessage ++ [.run (.dropAnnouncedFields h)])
  | .dropAnnouncedFields h => (s.dropAnnouncedHalf h.state).dropSubscriber
  | .insertSubscribe id track => ({ s with subscriber := s.subscriber.insert id track }, [])
  | .waitSubscribe id => ({ s with waiting := id :: s.waiting }, [])
  | .dropSubscribe id =>
      (s, subscriberSend (.unsubscribe { id := id }) ++ [.run (.dropSubscribeFields id)])
  | .dropSubscribeFields id => { s with subscriber := s.subscriber.leave id }.dropSubscriber
  | .recvSubscribeOk msg => ({ s with subscriber := (s.subscriber.recvSubscribeOk msg).2 }, [])
  | .recvSubscribeEnd id code =>
      ({ s with subscriber := (s.subscriber.recvSubscribeEnd id code).2 }, [])
  | .openStream header => (s.openStream header, [])
  | .terminate id err => ({ s with subscriber := (s.subscriber.terminate id err).2 }, [])
  | .recvDatagram bytes => ({ s with subscriber := (s.subscriber.recvDatagram bytes).2 }, [])
  | .giveBack => ({ s with subscribers := s.subscribers + 1 }, [])
  | .dropSubscriber => s.dropSubscriber
  | .push msg => (s.push msg, [])

/-- What a peer, an application or a task of the session may begin at any
time. -/
inductive Cmd where
  | receive (msg : Message)
  | announce (namespace_ : Tuple)
  | dropAnnounce (handle : Announce)
  /-- The application takes a subscription from an announcement. -/
  | popSubscribed (handle : Announce)
  | popTrackStatus (handle : Announce)
  | respond (msg : Message.TrackStatus)
  | popUnknown
  | serve (handle : Subscribed) (latest : Option (Nat × Nat))
  /-- A task of a subscription records an object. -/
  | update (subscribed groupId objectId : Nat)
  | closeSubscribed (handle : Subscribed) (err : ServeError)
  | dropSubscribed (handle : Subscribed)
  | accept
  | okAnnounced (handle : Announced)
  | closeAnnounced (handle : Announced) (err : ServeError)
  | dropAnnounced (handle : Announced)
  | subscribe (call : SubscribeCall)
  | dropSubscribe (id : Nat)
  /-- A stream arrives. -/
  | openStream (header : Header)
  /-- A stream has failed, when it was opened or later. -/
  | terminate (id : Nat) (err : ServeError)
  | recvDatagram (bytes : Bytes)
  | cloneSubscriber
  | dropSubscriber
  | send
  | closeOutgoing

namespace Shared

/-- A thread that uses one of the `Subscriber`s. -/
def borrowed (s : Shared) (todo : Todo) : Option (Shared × Todo) :=
  if s.subscribers = 0 then none else some ({ s with subscribers := s.subscribers - 1 }, todo)

/-- `recv_message` of the subscriber and of the publisher. What neither of
them implements ends the task. -/
def receive (s : Shared) (msg : Message) : Option (Shared × Todo) :=
  match msg with
  | .announce m => s.borrowed [.lock .announced (.recvAnnounce m.namespace_)]
  | .unannounce m =>
      s.borrowed [.lock .announced (.removeAnnounced m.namespace_), .run .giveBack]
  | .subscribeOk m => s.borrowed [.lock .subscribes (.recvSubscribeOk m), .run .giveBack]
  | .subscribeError m =>
      s.borrowed [.lock .subscribes (.recvSubscribeEnd m.id m.code), .run .giveBack]
  | .subscribeDone m =>
      s.borrowed [.lock .subscribes (.recvSubscribeEnd m.id m.code), .run .giveBack]
  | .maxSubscribeId _ => s.borrowed [.run .giveBack]
  | .trackStatus _ => s.borrowed [.run .giveBack]
  | .announceOk m => some (s, [.lock .announces (.recvAnnounceOk m.namespace_)])
  | .announceError m =>
      some (s, [.lock .announces (.takeAnnounce m.namespace_ (.closed m.errorCode))])
  | .announceCancel m => some (s, [.lock .announces (.takeAnnounce m.namespace_ .cancel)])
  | .subscribe m =>
      let h : Subscribed := ⟨s.subscribedStates.length, m, false⟩
      some ({ s with subscribedStates := s.subscribedStates ++ [.new .default] },
        [.lock .subscribed (.insertSubscribed h), .lock .announces (.routeSubscribed h),
          .run (.pushUnknown h)])
  | .unsubscribe m => some (s, [.lock .subscribed (.recvUnsubscribe m.id)])
  | .subscribeUpdate _ => some (s, [])
  | .trackStatusRequest m => some (s, [.lock .announces (.recvTrackStatusRequest m)])
  | _ => none

/-- The state of an announcement, for an application that still has its
handle. -/
def popAnnounce (s : Shared) (h : Announce) : Option AnnounceShared :=
  if h ∈ s.announcing then
    (s.announceStates[h.state]?).filter fun c => !c.state.dropped
  else
    none

def begin (s : Shared) : Cmd → Option (Shared × Todo)
  | .receive msg => s.receive msg
  | .announce ns => some (s, [.lock .announces (.announce ns)])
  | .dropAnnounce h =>
      if h ∈ s.announcing then
        some ({ s with announcing := s.announcing.erase h }, [.run (.dropAnnounce h)])
      else
        none
  | .popSubscribed h => do
      let c ← s.popAnnounce h
      match c.state.value.subscribers with
      | [] => none
      | first :: rest =>
          some ({ s.setAnnounce h.state { c with state := c.state.update fun state =>
            { state with subscribers := rest } } with serving := first :: s.serving }, [])
  | .popTrackStatus h => do
      let c ← s.popAnnounce h
      match c.state.value.trackStatusesRequested with
      | [] => none
      | _ :: rest =>
          some (s.setAnnounce h.state { c with state := c.state.update fun state =>
            { state with trackStatusesRequested := rest } }, [])
  | .respond msg => some (s, publisherSend (.trackStatus msg))
  | .popUnknown =>
      match s.unknown.pop with
      | (.ready (some h), unknown) =>
          some ({ s with unknown := unknown, serving := h :: s.serving }, [])
      | _ => none
  | .serve h latest =>
      if h ∈ s.serving then
        some ({ s with serving := s.serving.erase h }, [.run (.serve h latest)])
      else
        none
  | .update i groupId objectId => do
      let state ← s.subscribedStates[i]?
      if state.dropped then
        none
      else
        some (s.setSubscribed i (state.update (·.updateMaxGroupId groupId objectId)), [])
  | .closeSubscribed h err =>
      if h ∈ s.serving then
        some ({ s with serving := s.serving.erase h }, [.run (.closeSubscribed h err)])
      else
        none
  | .dropSubscribed h =>
      if h ∈ s.serving then
        some ({ s with serving := s.serving.erase h }, [.run (.dropSubscribed h)])
      else
        none
  | .accept =>
      if s.subscribers = 0 then
        none
      else
        match s.announcedQueue.pop with
        | (.ready (some h), queue) =>
            some ({ s with announcedQueue := queue, accepted := h :: s.accepted }, [])
        | _ => none
  | .okAnnounced h =>
      if h ∈ s.accepted then
        some ({ s with accepted := s.accepted.erase h }, [.run (.okAnnounced h)])
      else
        none
  | .closeAnnounced h err =>
      if h ∈ s.accepted then
        some ({ s with accepted := s.accepted.erase h }, [.run (.closeAnnounced h err)])
      else
        none
  | .dropAnnounced h =>
      if h ∈ s.accepted then
        some ({ s with accepted := s.accepted.erase h }, [.run (.dropAnnounced h)])
      else
        none
  | .subscribe call =>
      let id := s.subscribeNext
      let stored : Todo := [.lock .subscribes (.insertSubscribe id call.track),
        .run (.waitSubscribe id), .run .giveBack]
      { s with subscribeNext := id + 1, owners := s.owners + 1 }.borrowed
        (subscriberSend (.subscribe (call.message id)) ++ stored)
  | .dropSubscribe id =>
      if id ∈ s.waiting then
        some ({ s with waiting := s.waiting.erase id }, [.run (.dropSubscribe id)])
      else
        none
  | .openStream header => s.borrowed [.lock .subscribes (.openStream header), .run .giveBack]
  | .terminate id err => s.borrowed [.lock .subscribes (.terminate id err), .run .giveBack]
  | .recvDatagram bytes => s.borrowed [.lock .subscribes (.recvDatagram bytes), .run .giveBack]
  | .cloneSubscriber =>
      if s.subscribers = 0 then
        none
      else
        some ({ s with subscribers := s.subscribers + 1, owners := s.owners + 1 }, [])
  | .dropSubscriber => s.borrowed [.run .dropSubscriber]
  | .send =>
      match s.outgoing.pop with
      | (.ready (some _), outgoing) => some ({ s with outgoing := outgoing }, [])
      | _ => none
  | .closeOutgoing => some ({ s with outgoing := s.outgoing.drop }, [])

end Shared

/-- The threads of a session, with its tables. -/
def session : System Mutex Op Shared Cmd := ⟨exec, Shared.begin⟩

end MoqTransport.Session.Locking
