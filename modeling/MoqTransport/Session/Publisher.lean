import MoqTransport.Lib.Machine
import MoqTransport.Lib.Registry
import MoqTransport.Session.Subscribed

/-!
The subscriptions a publisher receives, from SUBSCRIBE to the last message.
A handle waits in the queue of an announcement or among the unknown ones, is
taken out, served or closed, and finally dropped; its drop makes the last
message, takes the entry of its id out of the table and queues the message,
one step after the other. Everything that can happen to handles and
announcements in between may happen in any order.

A queue is represented by the handles waiting in it, and any of them may be
the next one out. `outgoing` is all that was ever queued, each message of a
subscription with the handle it came from.
-/

namespace MoqTransport.Session

open Streaming Coding Machine

inductive SubscribedPlace where
  | unknown
  | announce (announce : Nat)
deriving DecidableEq

inductive SubscribedPhase where
  /-- Accepted by `recv_subscribe`, not yet in a queue. -/
  | routing
  | queued (place : SubscribedPlace)
  | held
  | serving
  | closing (err : ServeError)
  | dropping
  | removing (last : Message)
  | pushing (last : Message)
  | gone
deriving DecidableEq

/-- The `Subscribed` handle of one accepted SUBSCRIBE. -/
structure SubscribedHandle where
  msg : Message.Subscribe
  ok : Bool
  phase : SubscribedPhase
  shared : Watch.State SubscribedState

inductive AnnouncePhase where
  | held
  | unannouncing
  | pushing
  | gone
deriving DecidableEq

/-- An announcement: the state its `Announce` and its `AnnounceRecv` share,
and which of the two are still there. -/
structure AnnounceCell where
  namespace_ : Tuple
  ok : Bool
  closed : Option ServeError
  recv : Bool
  phase : AnnouncePhase

structure Publisher where
  announces : Finmap (fun _ : Tuple => Nat)
  subscribed : Finmap (fun _ : Nat => Nat)
  announcements : List AnnounceCell
  handles : List SubscribedHandle
  unknownOpen : Bool
  outgoing : List (Option Nat × Message)
  outgoingOpen : Bool

inductive PublisherAct where
  | subscribe (msg : Message.Subscribe)
  | route (handle : Nat)
  | unsubscribe (msg : Message.Unsubscribe)
  /-- The handle is taken out of its queue. -/
  | pop (handle : Nat)
  | serve (handle : Nat)
  /-- A task of the handle records an object. -/
  | update (handle groupId objectId : Nat)
  /-- `serve_inner` returns, or is dropped where it stands. -/
  | served (handle : Nat) (result : Except SessionError Unit)
  | close (handle : Nat) (err : ServeError)
  | discard (handle : Nat)
  | closed (handle : Nat)
  | drop (handle : Nat)
  | remove (handle : Nat)
  | push (handle : Nat)
  | announce (namespace_ : Tuple)
  | announceOk (msg : Message.AnnounceOk)
  | announceError (msg : Message.AnnounceError)
  | announceCancel (msg : Message.AnnounceCancel)
  | dropAnnounce (announce : Nat)
  | unannounce (announce : Nat)
  | unannounced (announce : Nat)
  | closeUnknown
  | closeOutgoing

namespace AnnounceCell

/-- One of the two halves is gone. -/
def dropped (c : AnnounceCell) : Bool := !c.recv || c.phase = .gone

end AnnounceCell

namespace Publisher

def init : Publisher := ⟨∅, ∅, [], [], true, [], true⟩

def setHandle (s : Publisher) (i : Nat) (h : SubscribedHandle) : Publisher :=
  { s with handles := s.handles.set i h }

def setAnnounce (s : Publisher) (a : Nat) (c : AnnounceCell) : Publisher :=
  { s with announcements := s.announcements.set a c }

/-- `outgoing.push`, with the handle the message is for. -/
def pushMessage (s : Publisher) (handle : Option Nat) (message : Message) : Publisher :=
  if s.outgoingOpen then { s with outgoing := s.outgoing ++ [(handle, message)] } else s

/-- `recv_subscribe`, up to the insertion. -/
def recvSubscribe (s : Publisher) (msg : Message.Subscribe) : Except SessionError Publisher :=
  match s.subscribed.lookup msg.id with
  | some _ => .error .duplicate
  | none => .ok { s with
      subscribed := s.subscribed.insert msg.id s.handles.length
      handles := s.handles ++ [⟨msg, false, .routing, .new .default⟩] }

/-- The rest of `recv_subscribe`: where the handle goes. -/
def route (s : Publisher) (h : SubscribedHandle) : SubscribedPhase :=
  match s.announces.lookup h.msg.trackNamespace with
  | some a =>
      match s.announcements[a]? with
      | some c => if c.dropped then .dropping else .queued (.announce a)
      | none => .dropping
  | none => if s.unknownOpen then .queued .unknown else .closing .notFound

/-- Whether a handle can be taken out of its queue. -/
def canPop (s : Publisher) : SubscribedPlace → Bool
  | .unknown => s.unknownOpen
  | .announce a =>
      match s.announcements[a]? with
      | some c => !c.dropped
      | none => false

/-- `drop_subscribe`: whatever is stored under the id goes. -/
def dropSubscribe (s : Publisher) (id : Nat) : Publisher :=
  match s.subscribed.lookup id with
  | none => s
  | some j =>
      { s with
        subscribed := s.subscribed.erase id
        handles := s.handles.modify j fun h => { h with shared := h.shared.drop } }

/-- Once both halves of an announcement are gone, the handles in its queue
are closed. -/
def release (s : Publisher) (a : Nat) (c : AnnounceCell) : Publisher :=
  if !c.recv && c.phase = .gone then
    { s with handles := s.handles.map fun h =>
        if h.phase = .queued (.announce a) then { h with phase := .closing .notFound } else h }
  else
    s

/-- Take the `AnnounceRecv` of a namespace out of the table and drop it,
after `f`. -/
def takeAnnounce (s : Publisher) (namespace_ : Tuple) (f : AnnounceCell → AnnounceCell) :
    Publisher :=
  match s.announces.lookup namespace_ with
  | none => s
  | some a =>
      let s := { s with announces := s.announces.erase namespace_ }
      match s.announcements[a]? with
      | none => s
      | some c =>
          let c := { f c with recv := false }
          (s.setAnnounce a c).release a c

/-- `AnnounceRecv::recv_error`, before the half is dropped. -/
def recvError (err : ServeError) (c : AnnounceCell) : AnnounceCell :=
  if c.closed = none ∧ c.dropped = false then { c with closed := some err } else c

def announce (s : Publisher) (namespace_ : Tuple) : Publisher :=
  match s.announces.lookup namespace_ with
  | some _ => s
  | none =>
      let s := s.pushMessage none (.announce { namespace_ := namespace_, params := ∅ })
      { s with
        announces := s.announces.insert namespace_ s.announcements.length
        announcements := s.announcements ++ [⟨namespace_, false, none, true, .held⟩] }

def recvAnnounceOk (s : Publisher) (msg : Message.AnnounceOk) : Publisher :=
  match s.announces.lookup msg.namespace_ with
  | none => s
  | some a =>
      match s.announcements[a]? with
      | none => s
      | some c => if c.dropped then s else s.setAnnounce a { c with ok := true }

/-- The handle sends SUBSCRIBE_OK and starts to serve. -/
def serve (s : Publisher) (i : Nat) (h : SubscribedHandle) : Publisher :=
  if h.shared.dropped then
    s.setHandle i { h with phase := .closing (.ofSession (.serve .cancel)) }
  else
    (s.setHandle i { h with
      ok := true
      phase := .serving
      shared := h.shared.update fun state => { state with maxGroupId := none } }).pushMessage
        (some i) (.subscribeOk
          { id := h.msg.id, expires := none, groupOrder := .descending, latest := none })

/-- `Subscribed::close` sets the error, if it is the first, and then the
handle is dropped. -/
def closed (h : SubscribedHandle) (err : ServeError) : SubscribedHandle :=
  match Subscribed.close h.shared err with
  | .ok shared => { h with shared := shared, phase := .dropping }
  | .error _ => { h with phase := .dropping }

/-- Where a handle goes without a message: `none` if the action is not one
it can take now. -/
def move (s : Publisher) (h : SubscribedHandle) : PublisherAct → Option SubscribedHandle
  | .route _ => if h.phase = .routing then some { h with phase := s.route h } else none
  | .pop _ =>
      match h.phase with
      | .queued place => if s.canPop place then some { h with phase := .held } else none
      | _ => none
  | .update _ groupId objectId =>
      if h.shared.dropped then
        none
      else
        some { h with shared := h.shared.update (·.updateMaxGroupId groupId objectId) }
  | .served _ (.ok ()) =>
      if h.phase = .serving then some { h with phase := .dropping } else none
  | .served _ (.error err) =>
      if h.phase = .serving then some { h with phase := .closing (.ofSession err) } else none
  | .close _ err => if h.phase = .held then some { h with phase := .closing err } else none
  | .discard _ => if h.phase = .held then some { h with phase := .dropping } else none
  | .closed _ =>
      match h.phase with
      | .closing err => some (closed h err)
      | _ => none
  | _ => none

/-- A step of an announcement that needs its handle in a phase. -/
def withAnnounce (s : Publisher) (a : Nat) (phase : AnnouncePhase)
    (f : AnnounceCell → Publisher) : Option Publisher :=
  match s.announcements[a]? with
  | some c => if c.phase = phase then some (f c) else none
  | none => none

/-- The `Announce` itself goes away. -/
def endAnnounce (s : Publisher) (a : Nat) (c : AnnounceCell) : Publisher :=
  (s.setAnnounce a { c with phase := .gone }).release a { c with phase := .gone }

def step (s : Publisher) (act : PublisherAct) : Option Publisher :=
  match act with
  | .subscribe msg =>
      match s.recvSubscribe msg with
      | .ok s => some s
      | .error _ => some s
  | .unsubscribe msg =>
      match s.subscribed.lookup msg.id with
      | none => some s
      | some i => some { s with handles := s.handles.modify i fun h =>
          match SubscribedRecv.recvUnsubscribe h.shared with
          | .ok shared => { h with shared := shared }
          | .error _ => h }
  | .route i | .pop i | .update i _ _ | .served i _ | .close i _ | .discard i | .closed i => do
      let h ← s.handles[i]?
      let h ← s.move h act
      some (s.setHandle i h)
  | .serve i => do
      let h ← s.handles[i]?
      if h.phase = .held then some (s.serve i h) else none
  | .drop i => do
      let h ← s.handles[i]?
      if h.phase = .dropping then
        some (s.setHandle i { h with phase := .removing (h.shared.value.terminal h.msg.id h.ok) })
      else
        none
  | .remove i => do
      let h ← s.handles[i]?
      match h.phase with
      | .removing last =>
          let s := s.dropSubscribe h.msg.id
          some { s with handles := s.handles.modify i fun h => { h with phase := .pushing last } }
      | _ => none
  | .push i => do
      let h ← s.handles[i]?
      match h.phase with
      | .pushing last => some ((s.setHandle i { h with phase := .gone }).pushMessage (some i) last)
      | _ => none
  | .announce namespace_ => some (s.announce namespace_)
  | .announceOk msg => some (s.recvAnnounceOk msg)
  | .announceError msg => some (s.takeAnnounce msg.namespace_ (recvError (.closed msg.errorCode)))
  | .announceCancel msg => some (s.takeAnnounce msg.namespace_ (recvError .cancel))
  | .dropAnnounce a => s.withAnnounce a .held fun c =>
      if c.closed.isSome then s.endAnnounce a c
      else s.setAnnounce a { c with phase := .unannouncing }
  | .unannounce a => s.withAnnounce a .unannouncing fun c =>
      (s.setAnnounce a { c with phase := .pushing }).takeAnnounce c.namespace_ id
  | .unannounced a => s.withAnnounce a .pushing fun c =>
      (s.pushMessage none (.unannounce { namespace_ := c.namespace_ })).endAnnounce a c
  | .closeUnknown => some { s with unknownOpen := false }
  | .closeOutgoing => some { s with outgoingOpen := false }

/-- The messages queued for a subscription. -/
def messagesOf (s : Publisher) (i : Nat) : List Message :=
  (s.outgoing.filter fun sent => sent.1 = some i).map Prod.snd

end Publisher

/-- The handle's entry is still in the table. -/
def SubscribedHandle.Registered (h : SubscribedHandle) : Prop :=
  (∀ last, h.phase ≠ .pushing last) ∧ h.phase ≠ .gone

/-- What is queued for one subscription: nothing, a SUBSCRIBE_OK and then at
most a SUBSCRIBE_DONE, or a SUBSCRIBE_ERROR alone. -/
inductive Exchange (id : Nat) : List Message → Prop where
  | nothing : Exchange id []
  | accepted {o : Message.SubscribeOk} (ho : o.id = id) : Exchange id [.subscribeOk o]
  | refused {e : Message.SubscribeError} (he : e.id = id) : Exchange id [.subscribeError e]
  | done {o : Message.SubscribeOk} {d : Message.SubscribeDone} (ho : o.id = id) (hd : d.id = id) :
      Exchange id [.subscribeOk o, .subscribeDone d]

namespace Publisher

/-- The life of the subscriptions: the table has exactly the ids of the
handles whose drop has not removed them, every accepted SUBSCRIBE gets its
messages in order and none after the last, and a SUBSCRIBE is refused only for
an id that is in use. -/
structure Lifecycle (s : Publisher) : Prop where
  keys : ∀ id, id ∈ s.subscribed ↔ ∃ (i : Nat) (h : SubscribedHandle),
    s.handles[i]? = some h ∧ h.msg.id = id ∧ h.Registered
  messages : ∀ (i : Nat) (h : SubscribedHandle), s.handles[i]? = some h →
    Exchange h.msg.id (s.messagesOf i)
  duplicate : ∀ msg, s.recvSubscribe msg = .error .duplicate →
    ∃ (i : Nat) (h : SubscribedHandle), s.handles[i]? = some h ∧ h.msg.id = msg.id ∧ h.Registered

end Publisher

end MoqTransport.Session
