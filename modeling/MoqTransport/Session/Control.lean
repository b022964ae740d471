import MoqTransport.Error
import MoqTransport.Lib.Framed
import MoqTransport.Lib.Machine
import MoqTransport.Message.Message
import MoqTransport.Session.Reader
import MoqTransport.Setup.Setup

/-!
A session's control stream, from SETUP to the last message. One side connects
and the other accepts; each downgrades its role to what the other's leaves.
Then two tasks work on the stream: one writes the messages that the handles
have queued, the other reads messages and hands them to the two halves of the
session.

A step is one of the two tasks up to its next await, or a handle that queues a
message. What a handler of a message returns comes with the step; its tables
are modelled elsewhere. Three fields are logs: what has been queued, what has
been taken from the queue, and what has been handled. The queue stays open: the
task that reads messages holds the halves of the session.

`Reader::decode` is modelled as a whole in `Session.Reader`; here it stops at
each await, and `decode_eq_drive` says that the two are the same.
-/

namespace MoqTransport

open Streaming Coding Setup

namespace Setup.Role

def isPublisher : Role → Bool
  | .publisher | .both => true
  | .subscriber => false

def isSubscriber : Role → Bool
  | .subscriber | .both => true
  | .publisher => false

/-- Returns true if two endpoints are compatible. -/
def isCompatible (self other : Role) : Bool :=
  self.isPublisher == other.isSubscriber && self.isSubscriber == other.isPublisher

end Setup.Role

namespace Message

/-- The messages of a publisher, which a subscriber handles. -/
def ofPublisher : Message → Bool
  | .announce _ | .unannounce _ | .subscribeOk _ | .subscribeError _ | .subscribeDone _
  | .maxSubscribeId _ | .trackStatus _ | .fetchOk _ | .fetchError _ => true
  | _ => false

/-- The messages of a subscriber, which a publisher handles. -/
def ofSubscriber : Message → Bool
  | .announceOk _ | .announceError _ | .announceCancel _ | .subscribe _ | .unsubscribe _
  | .subscribeUpdate _ | .trackStatusRequest _ | .subscribeNamespace _
  | .subscribeNamespaceOk _ | .subscribeNamespaceError _ | .unsubscribeNamespace _ | .fetch _
  | .fetchCancel _ => true
  | _ => false

end Message

namespace Session.Control

/-- What `connect` and `accept` return: the errors of a session and two that
only they have. -/
inductive ConnectError where
  | session (e : SessionError)
  | version (client server : Versions)
  | roleIncompatible (peer own : Role)
deriving DecidableEq

/-- Downgrade our role based on the peer's role. -/
def downgrade (role peer : Role) : Except ConnectError Role :=
  match peer with
  | .both => .ok role
  | .publisher =>
      match role with
      | .publisher => .error (.roleIncompatible peer role)
      | _ => .ok .subscriber
  | .subscriber =>
      match role with
      | .subscriber => .error (.roleIncompatible peer role)
      | _ => .ok .publisher

/-- The FETCH family is `todo!()`, and errors of the cache are only logged. -/
def Subscriber.recvMessage (m : Message) (result : Except SessionError Unit) :
    Except (Fault SessionError) Unit :=
  match m, result with
  | .fetchOk _, _ | .fetchError _, _ => .error .panic
  | _, .error (.serve _) => .ok ()
  | _, .error e => .error (.err e)
  | _, .ok () => .ok ()

/-- All errors are only logged. -/
def Publisher.recvMessage (m : Message) : Except (Fault SessionError) Unit :=
  match m with
  | .subscribeNamespace _ | .subscribeNamespaceOk _ | .subscribeNamespaceError _
  | .unsubscribeNamespace _ | .fetch _ | .fetchCancel _ => .error .panic
  | _ => .ok ()

/-- The half of the session that a message is for, if the session has it. -/
def dispatch (role : Role) (m : Message) (result : Except SessionError Unit) :
    Except (Fault SessionError) Unit :=
  if m.ofPublisher then
    if role.isSubscriber then Subscriber.recvMessage m result else .error (.err .roleViolation)
  else if m.ofSubscriber then
    if role.isPublisher then Publisher.recvMessage m else .error (.err .roleViolation)
  else .error .panic

/-- Where an end is. The session exists from `established` on, and its tasks
from `running` on. -/
inductive Phase where
  | greeting
  | expecting
  | answering (role : Role)
  | established (role : Role)
  | running (role : Role)
  | failed (e : ConnectError)
  | panicked
deriving DecidableEq

def Phase.ofFault : Fault SessionError → Phase
  | .err e => .failed (.session e)
  | .panic => .panicked

/-- What a spawned task ends with; a panic is reported as a closed session. -/
def taskError : Fault SessionError → SessionError
  | .err e => e
  | .panic => .closed

def encodeFault : Fault EncodeError → Fault SessionError
  | .err e => .err (.encode e)
  | .panic => .panic

def decodeFault : Fault DecodeError → Fault SessionError
  | .err e => .err (.decode e)
  | .panic => .panic

def more? : DecodeError → Option Nat
  | .more required => some required
  | _ => none

section

variable {α : Type}

/-- A try, unless the reader is parked. -/
def tryDecode (d : Decode α) (r : Receiver) : Receiver.Attempt DecodeError α :=
  if r.wait = none then r.attempt more? d else .park r

/-- A reader that takes the pieces of a stream while it is parked. -/
def drive (d : Decode α) (failure : Option String) :
    List Piece → Receiver → Except (Fault SessionError) (α × Reader)
  | [], r =>
      match tryDecode d r with
      | .item msg rest => .ok (msg, ⟨⟨[], failure⟩, rest.buffer⟩)
      | .fault f => .error (decodeFault f)
      | .park r =>
          match failure with
          | some message => .error (.err (.transport message))
          | none => .error (.err (.decode (.more (r.wait.getD 0 - r.buffer.length))))
  | piece :: pieces, r =>
      match tryDecode d r with
      | .item msg rest => .ok (msg, ⟨⟨piece :: pieces, failure⟩, rest.buffer⟩)
      | .fault f => .error (decodeFault f)
      | .park r => drive d failure pieces (r.append piece.val)

theorem tryDecode_of_park {d : Decode α} {r parked : Receiver}
    (h : tryDecode d r = .park parked) :
    parked.buffer = r.buffer ∧ parked.wait ≠ none := by
  unfold tryDecode at h
  split at h
  · unfold Receiver.attempt at h
    split at h
    · cases h
    · split at h
      · cases h
        exact ⟨rfl, by simp⟩
      · cases h
    · cases h
  · next hwait =>
      cases h
      exact ⟨rfl, hwait⟩

/-- A try, and then the pieces. -/
theorem drive_eq (d : Decode α) (failure : Option String) (pieces : List Piece) (r : Receiver) :
    drive d failure pieces r =
      match tryDecode d r with
      | .item msg rest => .ok (msg, ⟨⟨pieces, failure⟩, rest.buffer⟩)
      | .fault f => .error (decodeFault f)
      | .park parked => drive d failure pieces parked := by
  cases htry : tryDecode d r with
  | item msg rest => cases pieces <;> simp only [drive, htry]
  | fault f => cases pieces <;> simp only [drive, htry]
  | park parked =>
      have hparked : tryDecode d parked = .park parked :=
        if_neg (tryDecode_of_park htry).2
      cases pieces <;> simp only [drive, htry, hparked]

/-- A try of `Reader::decode`, which goes on with what is read next. -/
theorem attempt_eq_drive (d : Decode α) (failure : Option String) (pieces : List Piece)
    (buffer : Bytes) {wait : Nat → Except (Fault SessionError) (α × Reader)}
    (hwait : ∀ required, wait required = drive d failure pieces ⟨buffer, some required⟩) :
    Reader.attempt d ⟨pieces, failure⟩ buffer wait = drive d failure pieces ⟨buffer, none⟩ := by
  rw [drive_eq]
  simp only [Reader.attempt, tryDecode, if_true, Receiver.attempt]
  cases hd : d buffer with
  | ok p => rfl
  | error f =>
      cases f with
      | panic => rfl
      | err e =>
          cases e with
          | more required => exact hwait _
          | _ => rfl

theorem readMore_eq_drive (d : Decode α) (failure : Option String) (pieces : List Piece)
    (buffer : Bytes) (required : Nat) :
    Reader.readMore d failure pieces buffer required =
      drive d failure pieces ⟨buffer, some required⟩ := by
  induction pieces generalizing buffer required with
  | nil => rfl
  | cons piece pieces ih =>
      simp only [Reader.readMore, drive, tryDecode, reduceCtorEq, if_false, Receiver.append]
      split
      · next hthere =>
          have hready : (some required).filter ((buffer ++ piece.val).length < ·) = none := by
            simpa [Option.filter] using hthere
          rw [hready]
          exact attempt_eq_drive d failure pieces _ (ih _)
      · next hshort =>
          have hparked : (some required).filter ((buffer ++ piece.val).length < ·) =
              some required := by
            simpa [Option.filter] using hshort
          rw [hparked]
          exact ih _ _

/-- `Reader::decode` is a receiver that tries and takes pieces in turn. -/
theorem decode_eq_drive (d : Decode α) (r : Reader) :
    Reader.decode d r = drive d r.stream.failure r.stream.pieces ⟨r.buffer, none⟩ :=
  attempt_eq_drive d _ _ _ (readMore_eq_drive d _ _ _)

end

/-- One end. `writing` is what the writer still holds of a message, `wire` all
that the transport has taken, and `told` the role in the SETUP that was sent. -/
structure Peer where
  role : Role
  phase : Phase
  recver : Receiver
  writing : Bytes
  wire : Bytes
  queue : List Message
  recvError : Option SessionError
  sendError : Option SessionError
  told : Option Role
  pushed : List Message
  popped : List Message
  received : List Message

namespace Peer

/-- An end that waits for the SETUP of the client. -/
def accept (role : Role) : Peer where
  role
  phase := .expecting
  recver := .new
  writing := []
  wire := []
  queue := []
  recvError := none
  sendError := none
  told := none
  pushed := []
  popped := []
  received := []

def fault (p : Peer) (f : Fault SessionError) : Peer := { p with phase := .ofFault f }

/-- The writer takes a SETUP. -/
def greet (p : Peer) (phase : Phase) (role : Role) (setup : Encode) : Peer :=
  match setup bytesMut with
  | .ok ((), out) => { p with phase, writing := out.bytes, told := some role }
  | .error f => p.fault (encodeFault f)

/-- An end that sends the SETUP of the client. -/
def connect (ord : IterOrder) (role : Role) : Peer :=
  let client : Client := ⟨⟨[Version.draft07]⟩, role, ∅⟩
  (accept role).greet .greeting role (client.encode ord)

/-- The SETUP of the client is there. -/
def recvClient (p : Peer) (ord : IterOrder) (client : Client) : Peer :=
  if Version.draft07 ∉ client.versions.list then
    { p with phase := .failed (.version client.versions ⟨[Version.draft07]⟩) }
  else
    match downgrade p.role client.role with
    | .error e => { p with phase := .failed e }
    | .ok role =>
        let server : Server := ⟨Version.draft07, role, ∅⟩
        p.greet (.answering role) role (server.encode ord)

/-- The SETUP of the server is there. -/
def recvServer (p : Peer) (server : Server) : Peer :=
  match downgrade p.role server.role with
  | .error e => { p with phase := .failed e }
  | .ok role => { p with phase := .established role }

/-- A try to read the SETUP of the other end. -/
def attemptSetup (p : Peer) {α : Type} (d : Decode α) (recv : Peer → α → Peer) : Peer :=
  match p.recver.attempt more? d with
  | .item setup rest => recv { p with recver := rest } setup
  | .park recver => { p with recver }
  | .fault f => p.fault (decodeFault f)

/-- A try to read a message, which is handled at once. -/
def attemptMessage (p : Peer) (role : Role) (result : Except SessionError Unit) : Peer :=
  match p.recver.attempt more? Message.decode with
  | .item m rest =>
      match dispatch role m result with
      | .ok () => { p with recver := rest, received := p.received ++ [m] }
      | .error f => { p with recver := rest, recvError := some (taskError f) }
  | .park recver => { p with recver }
  | .fault f => { p with recvError := some (taskError (decodeFault f)) }

/-- The writer takes the next message. -/
def encodeMessage (p : Peer) (ord : IterOrder) (m : Message) (rest : List Message) : Peer :=
  match m.encode ord bytesMut with
  | .ok ((), out) => { p with queue := rest, writing := out.bytes, popped := p.popped ++ [m] }
  | .error f => { p with queue := rest, sendError := some (taskError (encodeFault f)) }

/-- The transport takes `n` bytes. What comes after the last byte of a SETUP
depends on who has sent it. -/
def written (p : Peer) (n : Nat) : Peer :=
  let q := { p with wire := p.wire ++ p.writing.take n, writing := p.writing.drop n }
  if q.writing ≠ [] then q
  else
    match p.phase with
    | .greeting => { q with phase := .expecting }
    | .answering role => { q with phase := .established role }
    | _ => q

/-- `result` is what the handler returns, if a message is read. -/
inductive Act where
  | write (n : Nat)
  | read (n : Nat)
  | attempt (result : Except SessionError Unit)
  | run
  | push (m : Message)
  | pop
  | recvLost (e : SessionError)
  | sendLost (e : SessionError)

/-- `unread` is what the other end has sent and this one has not read. -/
def step (p : Peer) (isServer : Bool) (ord : IterOrder) (unread : Bytes) : Act → Option Peer
  | .write n =>
      if 0 < n ∧ n ≤ p.writing.length then
        match p.phase with
        | .greeting | .answering _ => some (p.written n)
        | .running _ => if p.sendError = none then some (p.written n) else none
        | _ => none
      else none
  | .read n =>
      if 0 < n ∧ n ≤ unread.length ∧ p.recver.wait ≠ none then
        let q := { p with recver := p.recver.append (unread.take n) }
        match p.phase with
        | .expecting => some q
        | .running _ => if p.recvError = none then some q else none
        | _ => none
      else none
  | .attempt result =>
      if p.recver.wait = none then
        match p.phase with
        | .expecting =>
            if isServer then some (p.attemptSetup Client.decode fun q => q.recvClient ord)
            else some (p.attemptSetup Server.decode recvServer)
        | .running role =>
            if p.recvError = none then some (p.attemptMessage role result) else none
        | _ => none
      else none
  | .run =>
      match p.phase with
      | .established role => some { p with phase := .running role }
      | _ => none
  | .push m =>
      match p.phase with
      | .established _ | .running _ =>
          some { p with queue := p.queue ++ [m], pushed := p.pushed ++ [m] }
      | _ => none
  | .pop =>
      match p.phase, p.queue with
      | .running _, m :: rest =>
          if p.sendError = none ∧ p.writing = [] then some (p.encodeMessage ord m rest) else none
      | _, _ => none
  | .recvLost e =>
      match p.phase with
      | .expecting => some { p with phase := .failed (.session e) }
      | .running _ => if p.recvError = none then some { p with recvError := some e } else none
      | _ => none
  | .sendLost e =>
      match p.phase with
      | .greeting | .answering _ => some { p with phase := .failed (.session e) }
      | .running _ => if p.sendError = none then some { p with sendError := some e } else none
      | _ => none

end Peer

/-- The client is `false` and the server is `true`. -/
structure Link where
  ends : Bool → Peer
  taken : Bool → Nat

namespace Link

def new (ord : Bool → IterOrder) (role : Bool → Role) : Link where
  ends
    | false => .connect (ord false) (role false)
    | true => .accept (role true)
  taken _ := 0

def unread (l : Link) (b : Bool) : Bytes := (l.ends !b).wire.drop (l.taken b)

abbrev Act := Bool × Peer.Act

def step (ord : Bool → IterOrder) (l : Link) (a : Act) : Option Link :=
  ((l.ends a.1).step a.1 (ord a.1) (l.unread a.1) a.2).map fun p =>
    ⟨Function.update l.ends a.1 p,
      match a.2 with
      | .read n => Function.update l.taken a.1 (l.taken a.1 + n)
      | _ => l.taken⟩

end Link

end Session.Control

end MoqTransport
