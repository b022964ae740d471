import MoqTransport.Lib.Demux
import MoqTransport.Ws.Frame

/-!
One end of a WebTransport session over a WebSocket. A task owns the socket
and the tables of streams; streams and the session itself are handles that
reach it through queues. A step is what a handle does or one turn of the
task's loop. Of the arms of a `select!` that are ready any may be taken here;
the loop's `biased` only narrows that.

A handle keeps its place in its list for good. Three of the fields are logs
that the code does not have: what a stream has been given to send, what has
been routed to it, and what has been read from it.
-/

namespace MoqTransport.Ws

open Streaming
open Proto (VarInt)

/-- What a socket carries. -/
inductive Message where
  | binary (data : Bytes)
  | close
  | text
  | ping (data : Bytes)
  | pong (data : Bytes)
  | frame
deriving DecidableEq

/-- The stream frame in a message. -/
def Message.stream? : Message → Option Stream
  | .binary data =>
      match Frame.decode data with
      | .ok (.stream stream) => some stream
      | _ => none
  | _ => none

/-- How a bounded queue is found by a sender. The places that are reserved for
senders that wait are left out: here they are room for whoever looks next. -/
inductive Slot where
  | room
  | full
  | closed
deriving DecidableEq

/-- What a call on a stream puts into the queues of its session; `spawned` is
left to a task of its own. -/
structure Output where
  outbound : List Frame := []
  outboundPriority : List Frame := []
  spawned : List Frame := []
deriving DecidableEq

def codeOf (code : UInt32) : VarInt :=
  ⟨code.toNat, Nat.lt_trans code.toNat_lt (by decide)⟩

structure SendStream where
  id : StreamId
  inboundStopped : List StopSending
  closed : Option Error
  fin : Bool
  held : Bool
  written : List Stream
deriving DecidableEq

namespace SendStream

def new (id : StreamId) (held : Bool) : SendStream := ⟨id, [], none, false, held, []⟩

/-- A frame is handed over to be sent. -/
def give (s : SendStream) (frame : Stream) : SendStream :=
  { s with written := s.written ++ [frame] }

def recvStop (s : SendStream) (code : VarInt) : Error × SendStream × Output :=
  match s.closed with
  | some error => (error, s, {})
  | none =>
      (.streamStop code, { s with closed := some (.streamStop code) },
        { outboundPriority := [.resetStream ⟨s.id, code⟩] })

/-- The arms of the `select!` in `write_buf`. -/
inductive WriteArm where
  | send
  | stop

/-- `none` while the arm is not ready. -/
def writeBuf (s : SendStream) (slot : Slot) (data : Bytes) (arm : WriteArm) :
    Option (Except Error Nat × SendStream × Output) :=
  match s.closed with
  | some error => some (.error error, s, {})
  | none =>
      if s.fin then some (.error .streamClosed, s, {})
      else
        let frame : Stream := ⟨s.id, data, false⟩
        match arm, slot, s.inboundStopped with
        | .send, .room, _ => some (.ok data.length, s.give frame, { outbound := [.stream frame] })
        | .send, .closed, _ => some (.error .closed, s, {})
        | .send, .full, _ => none
        | .stop, _, stop :: stops =>
            let (error, s, output) := { s with inboundStopped := stops }.recvStop stop.code
            some (.error error, s, output)
        | .stop, _, [] => none

def reset (s : SendStream) (code : UInt32) : SendStream × Output :=
  if s.fin || s.closed.isSome then (s, {})
  else
    ({ s with closed := some (.streamReset (codeOf code)) },
      { outboundPriority := [.resetStream ⟨s.id, codeOf code⟩] })

/-- With no room a task is left to wait for it. -/
def finish (s : SendStream) (slot : Slot) : Except Error Unit × SendStream × Output :=
  match s.closed with
  | some error => (.error error, s, {})
  | none =>
      let frame : Stream := ⟨s.id, [], true⟩
      let s := { s.give frame with fin := true }
      match slot with
      | .room => (.ok (), s, { outbound := [.stream frame] })
      | _ => (.ok (), s, { spawned := [.stream frame] })

/-- The future of `closed` when a request to stop is there. -/
def onClosed (s : SendStream) : Option (Except Error Unit × SendStream × Output) :=
  match s.closed, s.inboundStopped with
  | some error, _ => some (.error error, s, {})
  | none, stop :: stops =>
      let (error, s, output) := { s with inboundStopped := stops }.recvStop stop.code
      some (.error error, s, output)
  | none, [] => none

/-- With no room the last frame is not sent at all. -/
def drop (s : SendStream) (slot : Slot) : SendStream × Output :=
  if !s.fin && s.closed.isNone then
    let frame : Stream := ⟨s.id, [], true⟩
    match slot with
    | .room =>
        ({ s.give frame with fin := true, held := false }, { outbound := [.stream frame] })
    | _ => ({ s with fin := true, held := false }, {})
  else ({ s with held := false }, {})

end SendStream

structure RecvStream where
  id : StreamId
  inboundData : List Stream
  inboundReset : List ResetStream
  buffer : Bytes
  closed : Option Error
  fin : Bool
  held : Bool
  status : Demux.Status
  routed : List Stream
  output : Bytes
deriving DecidableEq

namespace RecvStream

def new (id : StreamId) (held : Bool) (status : Demux.Status) : RecvStream :=
  ⟨id, [], [], [], none, false, held, status, [], []⟩

def channel (r : RecvStream) : Demux.Channel StreamId Stream := ⟨r.id, r.status, r.routed⟩

/-- The task has found the stream in its table. -/
def push (frame : Stream) (r : RecvStream) : RecvStream :=
  { r with
    inboundData := r.inboundData ++ [frame]
    status := Demux.Channel.after frame.fin
    routed := r.routed ++ [frame] }

def pushReset (reset : ResetStream) (r : RecvStream) : RecvStream :=
  { r with inboundReset := r.inboundReset ++ [reset], status := .dropped }

def recvReset (r : RecvStream) (code : VarInt) : Error × RecvStream :=
  match r.closed with
  | some error => (error, r)
  | none => (.streamReset code, { r with closed := some (.streamReset code) })

/-- The arms of the `select!` in `read_chunk`. -/
inductive ReadArm where
  | data
  | reset
  | else_

/-- One round of the loop in `read_chunk`: `inl` is what it returns, `inr` a
frame taken before the next round. `none` while the arm is not ready, and
where the assertion on the stream's id fails. -/
def readRound (r : RecvStream) (connected : Bool) (max : Nat) (arm : ReadArm) :
    Option (Except Error (Option Bytes) × RecvStream ⊕ RecvStream) :=
  if r.buffer ≠ [] then
    let toRead := min max r.buffer.length
    some (.inl (.ok (some (r.buffer.take toRead)),
      { r with buffer := r.buffer.drop toRead, output := r.output ++ r.buffer.take toRead }))
  else if r.fin then some (.inl (.ok none, r))
  else
    match r.closed with
    | some error => some (.inl (.error error, r))
    | none =>
        match arm, r.inboundData, r.inboundReset with
        | .data, frame :: frames, _ =>
            if frame.id = r.id then
              some (.inr { r with inboundData := frames, fin := frame.fin, buffer := frame.data })
            else none
        | .reset, _, reset :: resets =>
            let (error, r) := { r with inboundReset := resets }.recvReset reset.code
            some (.inl (.error error, r))
        | .else_, [], [] => if connected then none else some (.inl (.error .closed, r))
        | _, _, _ => none

/-- One round of the loop in `closed`. -/
def closedRound (r : RecvStream) (connected : Bool) (arm : ReadArm) :
    Option (Except Error Unit × RecvStream ⊕ RecvStream) :=
  match r.closed with
  | some error => some (.inl (.error error, r))
  | none =>
      if r.fin then some (.inl (.ok (), r))
      else
        match arm, r.buffer, r.inboundData, r.inboundReset with
        | .reset, _, _, reset :: resets =>
            let (error, r) := { r with inboundReset := resets }.recvReset reset.code
            some (.inl (.error error, r))
        | .data, [], frame :: frames, _ =>
            if frame.id = r.id then
              some (.inr { r with inboundData := frames, buffer := frame.data, fin := frame.fin })
            else none
        | .else_, _ :: _, _, [] => if connected then none else some (.inl (.error .closed, r))
        | .else_, [], [], [] => if connected then none else some (.inl (.error .closed, r))
        | _, _, _, _ => none

def stop (r : RecvStream) (code : UInt32) : RecvStream × Output :=
  ({ r with closed := some (.streamStop (codeOf code)) },
    { outboundPriority := [.stopSending ⟨r.id, codeOf code⟩] })

end RecvStream

/-- The calls on a stream that is written. -/
inductive SendOp where
  | write (data : Bytes) (arm : SendStream.WriteArm)
  | reset (code : UInt32)
  | finish
  | closed
  | drop

def SendOp.apply (s : SendStream) (slot : Slot) : SendOp → Option (SendStream × Output)
  | .write data arm => (s.writeBuf slot data arm).map Prod.snd
  | .reset code => some (s.reset code)
  | .finish => some (s.finish slot).2
  | .closed => s.onClosed.map Prod.snd
  | .drop => some (s.drop slot)

/-- The calls on a stream that is read. -/
inductive RecvOp where
  | read (max : Nat) (arm : RecvStream.ReadArm)
  | closed (arm : RecvStream.ReadArm)
  | stop (code : UInt32)

def RecvOp.apply (r : RecvStream) (connected : Bool) : RecvOp → Option (RecvStream × Output)
  | .read max arm => (r.readRound connected max arm).map fun
      | .inl (_, r) => (r, {})
      | .inr r => (r, {})
  | .closed arm => (r.closedRound connected arm).map fun
      | .inl (_, r) => (r, {})
      | .inr r => (r, {})
  | .stop code => some (r.stop code)

/-- A call that opens a stream and waits for room in a queue of the task. -/
inductive Opening where
  | uni (send : Nat)
  | bi (send recv : Nat)
deriving DecidableEq

def Opening.send : Opening → Nat
  | .uni send => send
  | .bi send _ => send

def Opening.recv? : Opening → Option Nat
  | .uni _ => none
  | .bi _ recv => some recv

structure Endpoint where
  isServer : Bool
  running : Bool
  outbound : List Frame
  outboundPriority : List Frame
  acceptBi : List (Nat × Nat)
  acceptUni : List Nat
  accepting : Bool
  opening : List Opening
  createUni : List (StreamId × Nat)
  createBi : List (StreamId × Nat × Nat)
  createUniId : Nat
  createBiId : Nat
  spawned : List Frame
  sendStreams : Finmap fun _ : StreamId => Nat
  recvStreams : Finmap fun _ : StreamId => Nat
  closed : Option Error
  sends : List SendStream
  recvs : List RecvStream
  sent : List Message
  events : List (Demux.Event StreamId Stream)

namespace Endpoint

def new (isServer : Bool) : Endpoint where
  isServer
  running := true
  outbound := []
  outboundPriority := []
  acceptBi := []
  acceptUni := []
  accepting := true
  opening := []
  createUni := []
  createBi := []
  createUniId := 0
  createBiId := 0
  spawned := []
  sendStreams := ∅
  recvStreams := ∅
  closed := none
  sends := []
  recvs := []
  sent := []
  events := []

/-- The room in the queues of accepted streams, and in the other bounded
ones. -/
def acceptCapacity : Nat := 1024

def capacity : Nat := 8

def slot (e : Endpoint) : Slot :=
  if !e.running then .closed
  else if e.outbound.length < capacity then .room
  else .full

def emit (e : Endpoint) (output : Output) : Endpoint :=
  { e with
    outbound := e.outbound ++ output.outbound
    outboundPriority := e.outboundPriority ++ output.outboundPriority
    spawned := e.spawned ++ output.spawned }

/-- The task's loop returns, and the session is closed with the error. The loop's
own subscription has ended with it, and `watch::Sender::send` changes nothing if
nobody subscribes: unless a call of `closed` waits, an error is kept here that
the source forgets. -/
def halt (e : Endpoint) (error : Error) : Endpoint :=
  { e with running := false, closed := some error }

/-- `recv_streams.remove`, with what was to be done to the stream before. -/
def removeRecv (e : Endpoint) (id : StreamId) (f : RecvStream → RecvStream) : Endpoint :=
  match e.recvStreams.lookup id with
  | some i =>
      { e with
        recvs := e.recvs.modify i f
        recvStreams := e.recvStreams.erase id
        events := e.events ++ [.close id] }
  | none => { e with events := e.events ++ [.close id] }

/-- The tables are brought up to date before a frame is sent. -/
def beforeSend (e : Endpoint) : Frame → Endpoint
  | .resetStream reset => { e with sendStreams := e.sendStreams.erase reset.id }
  | .stream stream =>
      if stream.fin then { e with sendStreams := e.sendStreams.erase stream.id } else e
  | .stopSending stop => e.removeRecv stop.id fun r => { r with status := .dropped }
  | .connectionClose _ => e

def sendFrame (e : Endpoint) (frame : Frame) : Endpoint :=
  let e := e.beforeSend frame
  { e with sent := e.sent ++ [.binary frame.encode] }

/-- A stream of the peer that the table does not have. -/
def arrive (e : Endpoint) (stream : Stream) : Endpoint :=
  { e with
    recvs := e.recvs ++ [(RecvStream.new stream.id false .routed).push stream]
    recvStreams :=
      if stream.fin then e.recvStreams else e.recvStreams.insert stream.id e.recvs.length
    events := e.events ++ [.item stream.id stream stream.fin] }

/-- `none` while the queue of accepted streams is full. -/
def recvFrame (e : Endpoint) : Frame → Option (Except Error Endpoint)
  | .stream stream =>
      if !stream.id.canRecv e.isServer then some (.error .invalidStreamId)
      else
        match e.recvStreams.lookup stream.id with
        | none =>
            if e.isServer = stream.id.serverInitiated then
              some (.ok { e with events := e.events ++ [.item stream.id stream stream.fin] })
            else if !e.accepting then some (.error .closed)
            else
              match stream.id.dir with
              | .uni =>
                  if e.acceptUni.length < acceptCapacity then
                    some (.ok { e.arrive stream with
                      acceptUni := e.acceptUni ++ [e.recvs.length] })
                  else none
              | .bi =>
                  if e.acceptBi.length < acceptCapacity then
                    some (.ok { e.arrive stream with
                      sendStreams := e.sendStreams.insert stream.id e.sends.length
                      sends := e.sends ++ [.new stream.id false]
                      acceptBi := e.acceptBi ++ [(e.sends.length, e.recvs.length)] })
                  else none
        | some i =>
            some (.ok { e with
              recvs := e.recvs.modify i (RecvStream.push stream)
              recvStreams := if stream.fin then e.recvStreams.erase stream.id else e.recvStreams
              events := e.events ++ [.item stream.id stream stream.fin] })
  | .resetStream reset =>
      if !reset.id.canRecv e.isServer then some (.error .invalidStreamId)
      else some (.ok (e.removeRecv reset.id (RecvStream.pushReset reset)))
  | .stopSending stop =>
      if !stop.id.canSend e.isServer then some (.error .invalidStreamId)
      else
        match e.sendStreams.lookup stop.id with
        | some i =>
            some (.ok { e with
              sends := e.sends.modify i fun s =>
                { s with inboundStopped := s.inboundStopped ++ [stop] } })
        | none => some (.ok e)
  | .connectionClose close =>
      some (.ok { e with closed := some (.connectionClosed close.code close.reason) })

/-- The arm of the loop that reads the socket. -/
def recvMessage (e : Endpoint) : Message → Option Endpoint
  | .binary data =>
      match Frame.decode data with
      | .error (.err error) => some (e.halt error)
      | .error .panic => none
      | .ok frame =>
          match e.recvFrame frame with
          | some (.ok e) => some e
          | some (.error error) => some (e.halt error)
          | none => none
  | .close => some (e.halt .closed)
  | .text => some (e.halt .noText)
  | .ping data => some { e with sent := e.sent ++ [.pong data] }
  | .pong _ => some (e.halt .noPong)
  | .frame => some (e.halt .noGenericFrames)

/-- The handle in a place goes away. -/
def dropSend (e : Endpoint) (i : Nat) : Option Endpoint := do
  let s ← e.sends[i]?
  let (s, output) := s.drop e.slot
  pure ({ e with sends := e.sends.set i s }.emit output)

/-- The number of the next stream is taken. A number that has no id panics in
the call, which is not a step. -/
def openUni (e : Endpoint) : Option Endpoint := do
  let id ← StreamId.new e.createUniId .uni e.isServer
  pure { e with
    createUniId := e.createUniId + 1
    sends := e.sends ++ [.new id false]
    opening := e.opening ++ [.uni e.sends.length] }

def openBi (e : Endpoint) : Option Endpoint := do
  let id ← StreamId.new e.createBiId .bi e.isServer
  pure { e with
    createBiId := e.createBiId + 1
    sends := e.sends ++ [.new id false]
    recvs := e.recvs ++ [.new id false .queued]
    opening := e.opening ++ [.bi e.sends.length e.recvs.length]
    events := e.events ++ [.make id] }

/-- A call that opens a stream goes away before there was room, or after the
task has ended. -/
def cancelOpen (e : Endpoint) (k : Nat) : Option Endpoint := do
  let opening ← e.opening[k]?
  { e with opening := e.opening.eraseIdx k }.dropSend opening.send

/-- A call that opens a stream finds room, and returns. -/
def create (e : Endpoint) (k : Nat) : Option Endpoint := do
  let opening ← e.opening[k]?
  let s ← e.sends[opening.send]?
  let held := { e with
    opening := e.opening.eraseIdx k
    sends := e.sends.set opening.send { s with held := true } }
  match opening with
  | .uni i =>
      if e.running ∧ e.createUni.length < capacity then
        pure { held with createUni := e.createUni ++ [(s.id, i)] }
      else none
  | .bi i j =>
      if e.running ∧ e.createBi.length < capacity then
        pure { held with
          createBi := e.createBi ++ [(s.id, i, j)]
          recvs := e.recvs.modify j fun r => { r with held := true } }
      else none

def hold (e : Endpoint) (i : Nat) : Endpoint :=
  { e with recvs := e.recvs.modify i fun r => { r with held := true } }

def acceptUniStream (e : Endpoint) : Option Endpoint :=
  match e.acceptUni with
  | i :: rest => if e.accepting then some ({ e with acceptUni := rest }.hold i) else none
  | [] => none

def acceptBiStream (e : Endpoint) : Option Endpoint :=
  match e.acceptBi with
  | (i, j) :: rest =>
      if e.accepting then
        some ({ e with
          acceptBi := rest
          sends := e.sends.modify i fun s => { s with held := true } }.hold j)
      else none
  | [] => none

/-- Streams that were never accepted go away with the session. -/
def discard (e : Endpoint) : Option Endpoint :=
  match e.acceptBi with
  | (i, _) :: rest => if e.accepting then none else { e with acceptBi := rest }.dropSend i
  | [] => none

/-- As in `halt`, the error is kept also where nobody subscribes: before the first
round of the loop, and after its return. -/
def close (e : Endpoint) (code : UInt32) (reason : String) : Endpoint :=
  { e with
    outboundPriority := e.outboundPriority ++ [.connectionClose ⟨codeOf code, reason⟩]
    closed := some (.connectionClosed (codeOf code) reason) }

/-- A task that was left to send a frame. -/
def runSpawned (e : Endpoint) (k : Nat) : Option Endpoint := do
  let frame ← e.spawned[k]?
  let rest := { e with spawned := e.spawned.eraseIdx k }
  match e.slot with
  | .room => pure { rest with outbound := e.outbound ++ [frame] }
  | .closed => pure rest
  | .full => none

/-- What handles do, and then the arms of the loop. -/
inductive Act where
  | send (i : Nat) (op : SendOp)
  | recv (i : Nat) (op : RecvOp)
  | openUni
  | openBi
  | cancelOpen (k : Nat)
  | create (k : Nat)
  | acceptUni
  | acceptBi
  | discard
  | dropSession
  | close (code : UInt32) (reason : String)
  | spawned (k : Nat)
  | message (m : Message)
  | createUni
  | createBi
  | priority
  | outbound
  | closed
  | lost

/-- The stream frame that arrives with an act. -/
def Act.stream? : Act → Option Stream
  | .message m => m.stream?
  | _ => none

/-- A call on a stream that its owner has. -/
def callSend (e : Endpoint) (i : Nat) (op : SendOp) : Option Endpoint := do
  let s ← e.sends[i]?
  if s.held then
    let (s, output) ← op.apply s e.slot
    pure ({ e with sends := e.sends.set i s }.emit output)
  else none

def callRecv (e : Endpoint) (i : Nat) (op : RecvOp) : Option Endpoint := do
  let r ← e.recvs[i]?
  if r.held then
    let (r, output) ← op.apply r (e.running && decide (r.status ≠ .dropped))
    pure ({ e with recvs := e.recvs.set i r }.emit output)
  else none

/-- One turn of the loop. -/
def turn (e : Endpoint) : Act → Option Endpoint
  | .message m => e.recvMessage m
  | .createUni =>
      match e.createUni with
      | (id, i) :: rest =>
          some { e with createUni := rest, sendStreams := e.sendStreams.insert id i }
      | [] => none
  | .createBi =>
      match e.createBi with
      | (id, i, j) :: rest =>
          some { e with
            createBi := rest
            sendStreams := e.sendStreams.insert id i
            recvStreams := e.recvStreams.insert id j
            recvs := e.recvs.modify j fun r => { r with status := .routed }
            events := e.events ++ [.register id j] }
      | [] => none
  | .priority =>
      match e.outboundPriority with
      | frame :: rest => some ({ e with outboundPriority := rest }.sendFrame frame)
      | [] => none
  | .outbound =>
      match e.outbound with
      | frame :: rest => some ({ e with outbound := rest }.sendFrame frame)
      | [] => none
  | .closed => e.closed.map e.halt
  | .lost => some (e.halt .closed)
  | _ => none

def step (e : Endpoint) : Act → Option Endpoint
  | .send i op => e.callSend i op
  | .recv i op => e.callRecv i op
  | .openUni => e.openUni
  | .openBi => e.openBi
  | .cancelOpen k => e.cancelOpen k
  | .create k => e.create k
  | .acceptUni => e.acceptUniStream
  | .acceptBi => e.acceptBiStream
  | .discard => e.discard
  | .dropSession => some { e with accepting := false }
  | .close code reason => some (e.close code reason)
  | .spawned k => e.runSpawned k
  | act => if e.running then e.turn act else none

end Endpoint

end MoqTransport.Ws
