import MoqTransport.Ws.Session

/-!
What the calls on a stream and the frames of the peer may do to one end of a
session, said once: every invariant is proved from these lemmas, and none of
the definitions is opened again.
-/

namespace MoqTransport.Ws

open Streaming Machine
open Proto (VarInt)

/-- A call hands nothing over, or one frame with data, or the last one. -/
inductive SendStream.Gives (s s' : SendStream) (output : Output) : Prop where
  | nothing (hwritten : s'.written = s.written) (hfin : s.fin = true → s'.fin = true)
      (houtbound : output.outbound = []) (hspawned : output.spawned = [])
  | data (data : Bytes) (hopen : s.fin = false) (hfin : s'.fin = false)
      (hwritten : s'.written = s.written ++ [⟨s.id, data, false⟩])
      (houtbound : output.outbound = [.stream ⟨s.id, data, false⟩])
      (hspawned : output.spawned = [])
  | last (hfin : s'.fin = true) (hwritten : s'.written = s.written ++ [⟨s.id, [], true⟩])
      (houtput : output.outbound = [.stream ⟨s.id, [], true⟩] ∧ output.spawned = [] ∨
        output.outbound = [] ∧ output.spawned = [.stream ⟨s.id, [], true⟩])

/-- What a call on a stream may do. -/
structure SendStream.Effect (s s' : SendStream) (output : Output) : Prop where
  id : s'.id = s.id
  priority : ∀ frame ∈ output.outboundPriority, ∃ code, frame = .resetStream ⟨s.id, code⟩
  gives : s.Gives s' output

namespace SendStream

variable {s s' : SendStream} {output : Output} {slot : Slot}

theorem effect_same (hid : s'.id = s.id) (hwritten : s'.written = s.written)
    (hfin : s.fin = true → s'.fin = true) : s.Effect s' {} :=
  ⟨hid, by simp, .nothing hwritten hfin rfl rfl⟩

theorem effect_recvStop (stops : List StopSending) (code : VarInt) :
    s.Effect ({ s with inboundStopped := stops }.recvStop code).2.1
      ({ s with inboundStopped := stops }.recvStop code).2.2 := by
  unfold recvStop
  dsimp only
  split
  · exact effect_same rfl rfl fun h => h
  · exact ⟨rfl, by simp, .nothing rfl (fun h => h) rfl rfl⟩

theorem effect_writeBuf {data : Bytes} {arm : WriteArm} {result : Except Error Nat}
    (h : s.writeBuf slot data arm = some (result, s', output)) : s.Effect s' output := by
  unfold writeBuf at h
  split at h
  · cases h
    exact effect_same rfl rfl fun h => h
  · split at h
    · cases h
      exact effect_same rfl rfl fun h => h
    · next hfin =>
        split at h
        · cases h
          exact ⟨rfl, by simp, .data data (by simpa using hfin) (by simpa [give] using hfin) rfl rfl
            rfl⟩
        · cases h
          exact effect_same rfl rfl fun h => h
        · cases h
        · next stop stops _ =>
            cases h
            exact effect_recvStop stops stop.code
        · cases h

theorem effect_reset (code : UInt32) : s.Effect (s.reset code).1 (s.reset code).2 := by
  unfold reset
  split
  · exact effect_same rfl rfl fun h => h
  · exact ⟨rfl, by simp, .nothing rfl (fun h => h) rfl rfl⟩

theorem effect_finish : s.Effect (s.finish slot).2.1 (s.finish slot).2.2 := by
  unfold finish
  split
  · exact effect_same rfl rfl fun h => h
  · cases slot with
    | room => exact ⟨rfl, by simp, .last rfl rfl (.inl ⟨rfl, rfl⟩)⟩
    | full => exact ⟨rfl, by simp, .last rfl rfl (.inr ⟨rfl, rfl⟩)⟩
    | closed => exact ⟨rfl, by simp, .last rfl rfl (.inr ⟨rfl, rfl⟩)⟩

theorem effect_onClosed {result : Except Error Unit}
    (h : s.onClosed = some (result, s', output)) : s.Effect s' output := by
  unfold onClosed at h
  split at h
  · cases h
    exact effect_same rfl rfl fun h => h
  · next stop stops _ _ =>
      cases h
      exact effect_recvStop stops stop.code
  · cases h

theorem effect_drop : s.Effect (s.drop slot).1 (s.drop slot).2 := by
  unfold drop
  split
  · cases slot with
    | room => exact ⟨rfl, by simp, .last rfl rfl (.inl ⟨rfl, rfl⟩)⟩
    | full => exact effect_same rfl rfl fun _ => rfl
    | closed => exact effect_same rfl rfl fun _ => rfl
  · exact effect_same rfl rfl fun h => h

end SendStream

theorem SendOp.effect {s s' : SendStream} {output : Output} {slot : Slot} {op : SendOp}
    (h : op.apply s slot = some (s', output)) : s.Effect s' output := by
  cases op with
  | write data arm =>
      obtain ⟨⟨result, s', output⟩, hw, heq⟩ := Option.map_eq_some_iff.mp h
      cases heq
      exact SendStream.effect_writeBuf hw
  | reset code =>
      have heq : s.reset code = (s', output) := Option.some.inj h
      have heffect := SendStream.effect_reset (s := s) code
      rwa [heq] at heffect
  | finish =>
      have heq : (s.finish slot).2 = (s', output) := Option.some.inj h
      have heffect : s.Effect (s.finish slot).2.1 (s.finish slot).2.2 := SendStream.effect_finish
      rwa [heq] at heffect
  | closed =>
      obtain ⟨⟨result, s', output⟩, hw, heq⟩ := Option.map_eq_some_iff.mp h
      cases heq
      exact SendStream.effect_onClosed hw
  | drop =>
      have heq : s.drop slot = (s', output) := Option.some.inj h
      have heffect : s.Effect (s.drop slot).1 (s.drop slot).2 := SendStream.effect_drop
      rwa [heq] at heffect

/-- What has been routed to a stream is what was read of it, the rest of the
last frame taken, and the frames that wait. -/
structure RecvStream.Reads (r : RecvStream) (taken : List Stream) : Prop where
  routed : r.routed = taken ++ r.inboundData
  bytes : r.output ++ r.buffer = taken.flatMap Stream.data
  fin : r.fin = taken.getLast?.any Stream.fin

/-- What a call on a stream that is read may do. -/
structure RecvStream.Effect (r r' : RecvStream) (output : Output) : Prop where
  channel : r'.channel = r.channel
  reads : ∀ taken, r.Reads taken → ∃ taken, r'.Reads taken
  outbound : output.outbound = []
  spawned : output.spawned = []
  priority : ∀ frame ∈ output.outboundPriority, ∃ code, frame = .stopSending ⟨r.id, code⟩

namespace RecvStream

variable {r r' : RecvStream} {output : Output}

theorem effect_same (hchannel : r'.channel = r.channel)
    (hreads : ∀ taken, r.Reads taken → ∃ taken, r'.Reads taken) : r.Effect r' {} :=
  ⟨hchannel, hreads, rfl, rfl, by simp⟩

/-- A frame is taken when the one before has been read. -/
theorem reads_take {taken : List Stream} {frame : Stream} {frames : List Stream}
    (h : r.Reads taken) (hframes : r.inboundData = frame :: frames) (hbuffer : r.buffer = []) :
    RecvStream.Reads { r with inboundData := frames, fin := frame.fin, buffer := frame.data }
      (taken ++ [frame]) where
  routed := by
    rw [h.routed, hframes]
    simp
  bytes := by
    have hbytes := h.bytes
    rw [hbuffer, List.append_nil] at hbytes
    simp [hbytes]
  fin := by simp

theorem effect_readRound {connected : Bool} {max : Nat} {arm : ReadArm}
    (h : (RecvOp.read max arm).apply r connected = some (r', output)) : r.Effect r' output := by
  obtain ⟨round, hround, heq⟩ := Option.map_eq_some_iff.mp h
  unfold readRound at hround
  split at hround
  · cases hround
    cases heq
    refine effect_same rfl fun taken hreads => ⟨taken, hreads.routed, ?_, hreads.fin⟩
    simp [← hreads.bytes]
  · next hbuffer =>
      have hempty : r.buffer = [] := by simpa using hbuffer
      split at hround
      · cases hround
        cases heq
        exact effect_same rfl fun taken hreads => ⟨taken, hreads⟩
      · split at hround
        · cases hround
          cases heq
          exact effect_same rfl fun taken hreads => ⟨taken, hreads⟩
        · next hclosed =>
            split at hround
            · next frame frames _ hframes =>
                split at hround
                · cases hround
                  cases heq
                  exact effect_same rfl fun taken hreads =>
                    ⟨_, reads_take hreads hframes hempty⟩
                · cases hround
            · simp only [recvReset, hclosed] at hround
              cases hround
              cases heq
              exact effect_same rfl fun taken hreads =>
                ⟨taken, hreads.routed, hreads.bytes, hreads.fin⟩
            · split at hround
              · cases hround
              · cases hround
                cases heq
                exact effect_same rfl fun taken hreads => ⟨taken, hreads⟩
            · cases hround

theorem effect_closedRound {connected : Bool} {arm : ReadArm}
    (h : (RecvOp.closed arm).apply r connected = some (r', output)) : r.Effect r' output := by
  obtain ⟨round, hround, heq⟩ := Option.map_eq_some_iff.mp h
  have hsame : r.Effect r {} := effect_same rfl fun taken hreads => ⟨taken, hreads⟩
  unfold closedRound at hround
  split at hround
  · cases hround
    cases heq
    exact hsame
  · next hclosed =>
      split at hround
      · cases hround
        cases heq
        exact hsame
      · split at hround
        · simp only [recvReset, hclosed] at hround
          cases hround
          cases heq
          exact effect_same rfl fun taken hreads =>
            ⟨taken, hreads.routed, hreads.bytes, hreads.fin⟩
        · next frame frames _ _ hbuffer hframes =>
            split at hround
            · cases hround
              cases heq
              exact effect_same rfl fun taken hreads => ⟨_, reads_take hreads hframes hbuffer⟩
            · cases hround
        · split at hround
          · cases hround
          · cases hround
            cases heq
            exact hsame
        · split at hround
          · cases hround
          · cases hround
            cases heq
            exact hsame
        · cases hround

theorem effect_stop (code : UInt32) : r.Effect (r.stop code).1 (r.stop code).2 :=
  ⟨rfl, fun taken hreads => ⟨taken, hreads.routed, hreads.bytes, hreads.fin⟩, rfl, rfl,
    by simp [stop]⟩

end RecvStream

theorem RecvOp.effect {r r' : RecvStream} {output : Output} {connected : Bool} {op : RecvOp}
    (h : op.apply r connected = some (r', output)) : r.Effect r' output := by
  cases op with
  | read max arm => exact RecvStream.effect_readRound h
  | closed arm => exact RecvStream.effect_closedRound h
  | stop code =>
      have heq : r.stop code = (r', output) := Option.some.inj h
      have heffect := RecvStream.effect_stop (r := r) code
      rwa [heq] at heffect

def Frame.stream? : Frame → Option Stream
  | .stream frame => some frame
  | _ => none

theorem Message.stream?_encode (frame : Frame) :
    Message.stream? (.binary frame.encode) = frame.stream? := by
  simp only [Message.stream?, Frame.decode_encode]
  cases frame <;> rfl

/-- A frame that an end may send; `P` holds of what the sessions are closed
with. -/
def Frame.Allowed (P : VarInt → String → Prop) (isServer : Bool) : Frame → Prop
  | .stream frame => frame.id.canSend isServer = true
  | .resetStream frame => frame.id.canSend isServer = true
  | .stopSending frame => frame.id.canRecv isServer = true
  | .connectionClose frame => P frame.code frame.reason

/-- The ends of a session that are not the fault of the protocol. -/
def Ending (P : VarInt → String → Prop) (error : Error) : Prop :=
  error = .closed ∨ ∃ code reason, error = .connectionClosed code reason ∧ P code reason

namespace Endpoint

/-- What the task does with a frame that it takes. -/
inductive Receives (e : Endpoint) : Frame → Endpoint → Prop where
  | ignored {stream : Stream} (hvacant : e.recvStreams.lookup stream.id = none)
      (hown : e.isServer = stream.id.serverInitiated) :
      Receives e (.stream stream)
        { e with events := e.events ++ [.item stream.id stream stream.fin] }
  | uni {stream : Stream} (hvacant : e.recvStreams.lookup stream.id = none)
      (hother : e.isServer ≠ stream.id.serverInitiated) (hdir : stream.id.dir = .uni) :
      Receives e (.stream stream)
        { e.arrive stream with acceptUni := e.acceptUni ++ [e.recvs.length] }
  | bi {stream : Stream} (hvacant : e.recvStreams.lookup stream.id = none)
      (hother : e.isServer ≠ stream.id.serverInitiated) (hdir : stream.id.dir = .bi) :
      Receives e (.stream stream)
        { e.arrive stream with
          sendStreams := e.sendStreams.insert stream.id e.sends.length
          sends := e.sends ++ [.new stream.id false]
          acceptBi := e.acceptBi ++ [(e.sends.length, e.recvs.length)] }
  | routed {stream : Stream} {i : Nat} (hlookup : e.recvStreams.lookup stream.id = some i) :
      Receives e (.stream stream)
        { e with
          recvs := e.recvs.modify i (RecvStream.push stream)
          recvStreams := if stream.fin then e.recvStreams.erase stream.id else e.recvStreams
          events := e.events ++ [.item stream.id stream stream.fin] }
  | reset {reset : ResetStream} :
      Receives e (.resetStream reset) (e.removeRecv reset.id (RecvStream.pushReset reset))
  | stop {stop : StopSending} {i : Nat} (hlookup : e.sendStreams.lookup stop.id = some i) :
      Receives e (.stopSending stop)
        { e with
          sends := e.sends.modify i fun s =>
            { s with inboundStopped := s.inboundStopped ++ [stop] } }
  | stopped {stop : StopSending} : Receives e (.stopSending stop) e
  | close {close : ConnectionClose} :
      Receives e (.connectionClose close)
        { e with closed := some (.connectionClosed close.code close.reason) }

theorem recvFrame_ok {e e' : Endpoint} {frame : Frame}
    (h : e.recvFrame frame = some (.ok e')) : e.Receives frame e' := by
  cases frame with
  | resetStream reset =>
      simp only [recvFrame] at h
      split at h
      · cases h
      · cases h
        exact .reset
  | stopSending stop =>
      simp only [recvFrame] at h
      split at h
      · cases h
      · split at h
        · next hlookup =>
            cases h
            exact .stop hlookup
        · cases h
          exact .stopped
  | connectionClose close =>
      cases h
      exact .close
  | stream stream =>
      simp only [recvFrame] at h
      split at h
      · cases h
      · split at h
        · next hvacant =>
            split at h
            · next hown =>
                cases h
                exact .ignored hvacant hown
            · next hother =>
                split at h
                · cases h
                · split at h
                  · next hdir =>
                      split at h
                      · cases h
                        exact .uni hvacant hother hdir
                      · cases h
                  · next hdir =>
                      split at h
                      · cases h
                        exact .bi hvacant hother hdir
                      · cases h
        · next hlookup =>
            cases h
            exact .routed hlookup

/-- A frame that the peer may send is only refused when nobody accepts its
stream any more. -/
theorem recvFrame_error {P : VarInt → String → Prop} {e : Endpoint} {frame : Frame} {error : Error}
    (h : e.recvFrame frame = some (.error error)) (hallowed : frame.Allowed P (!e.isServer)) :
    error = .closed ∧ e.accepting = false := by
  cases frame with
  | resetStream reset =>
      have hrecv : reset.id.canRecv e.isServer = true := by
        rw [← StreamId.canSend_not]
        exact hallowed
      simp [recvFrame, hrecv] at h
  | stopSending stop =>
      have hsend : stop.id.canSend e.isServer = true := by
        rw [← StreamId.canRecv_not]
        exact hallowed
      simp only [recvFrame, hsend, Bool.not_true, Bool.false_eq_true, if_false] at h
      split at h <;> cases h
  | connectionClose close => cases h
  | stream stream =>
      have hrecv : stream.id.canRecv e.isServer = true := by
        rw [← StreamId.canSend_not]
        exact hallowed
      simp only [recvFrame, hrecv, Bool.not_true, Bool.false_eq_true, if_false] at h
      split at h
      · split at h
        · cases h
        · split at h
          · next haccepting =>
              cases h
              exact ⟨rfl, by simpa using haccepting⟩
          · split at h <;> split at h <;> cases h
      · cases h

theorem dropSend_eq {e e' : Endpoint} {i : Nat} (h : e.dropSend i = some e') :
    ∃ s, e.sends[i]? = some s ∧
      e' = { e with sends := e.sends.set i (s.drop e.slot).1 }.emit (s.drop e.slot).2 := by
  obtain ⟨s, hs, h⟩ := Option.bind_eq_some_iff.mp h
  exact ⟨s, hs, (Option.some.inj h).symm⟩

theorem callSend_eq {e e' : Endpoint} {i : Nat} {op : SendOp} (h : e.callSend i op = some e') :
    ∃ s s' output, e.sends[i]? = some s ∧ s.held = true ∧
      op.apply s e.slot = some (s', output) ∧
      e' = { e with sends := e.sends.set i s' }.emit output := by
  obtain ⟨s, hs, h⟩ := Option.bind_eq_some_iff.mp h
  split at h
  · next hheld =>
      obtain ⟨⟨s', output⟩, hop, h⟩ := Option.bind_eq_some_iff.mp h
      exact ⟨s, s', output, hs, hheld, hop, (Option.some.inj h).symm⟩
  · cases h

theorem callRecv_eq {e e' : Endpoint} {i : Nat} {op : RecvOp} (h : e.callRecv i op = some e') :
    ∃ r r' output, e.recvs[i]? = some r ∧ r.Effect r' output ∧
      e' = { e with recvs := e.recvs.set i r' }.emit output := by
  obtain ⟨r, hr, h⟩ := Option.bind_eq_some_iff.mp h
  split at h
  · obtain ⟨⟨r', output⟩, hop, h⟩ := Option.bind_eq_some_iff.mp h
    exact ⟨r, r', output, hr, RecvOp.effect hop, (Option.some.inj h).symm⟩
  · cases h

theorem create_cases {e e' : Endpoint} {k : Nat} (h : e.create k = some e') :
    (∃ i s, e.opening[k]? = some (.uni i) ∧ e.sends[i]? = some s ∧
      e' = { e with
        opening := e.opening.eraseIdx k
        sends := e.sends.set i { s with held := true }
        createUni := e.createUni ++ [(s.id, i)] }) ∨
    ∃ i j s, e.opening[k]? = some (.bi i j) ∧ e.sends[i]? = some s ∧
      e' = { e with
        opening := e.opening.eraseIdx k
        sends := e.sends.set i { s with held := true }
        createBi := e.createBi ++ [(s.id, i, j)]
        recvs := e.recvs.modify j fun r => { r with held := true } } := by
  obtain ⟨opening, hopening, h⟩ := Option.bind_eq_some_iff.mp h
  obtain ⟨s, hs, h⟩ := Option.bind_eq_some_iff.mp h
  cases opening with
  | uni i =>
      dsimp only at h
      split at h
      · exact .inl ⟨i, s, hopening, hs, (Option.some.inj h).symm⟩
      · cases h
  | bi i j =>
      dsimp only at h
      split at h
      · exact .inr ⟨i, j, s, hopening, hs, (Option.some.inj h).symm⟩
      · cases h

/-- The acts of the task. -/
def Act.turns : Act → Bool
  | .message _ => true
  | .createUni => true
  | .createBi => true
  | .priority => true
  | .outbound => true
  | .closed => true
  | .lost => true
  | _ => false

theorem step_turn {e e' : Endpoint} {act : Act} (hact : act.turns = true)
    (h : e.step act = some e') : e.running = true ∧ e.turn act = some e' := by
  have hturn (h : (if e.running then e.turn act else none) = some e') :
      e.running = true ∧ e.turn act = some e' := by
    split at h
    · next hrunning => exact ⟨hrunning, h⟩
    · cases h
  cases act <;> first | exact hturn h | cases hact

theorem dropSend_task {e e' : Endpoint} {i : Nat} (h : e.dropSend i = some e') :
    e'.running = e.running ∧ e'.sent = e.sent := by
  obtain ⟨s, -, rfl⟩ := dropSend_eq h
  exact ⟨rfl, rfl⟩

/-- A handle does not touch what the task alone has. -/
theorem step_handle {e e' : Endpoint} {act : Act} (hact : act.turns = false)
    (h : e.step act = some e') : e'.running = e.running ∧ e'.sent = e.sent := by
  cases act with
  | send i op =>
      obtain ⟨s, s', output, -, -, -, rfl⟩ := callSend_eq h
      exact ⟨rfl, rfl⟩
  | recv i op =>
      obtain ⟨r, r', output, -, -, rfl⟩ := callRecv_eq h
      exact ⟨rfl, rfl⟩
  | openUni =>
      obtain ⟨id, -, h⟩ := Option.bind_eq_some_iff.mp h
      obtain rfl := Option.some.inj h
      exact ⟨rfl, rfl⟩
  | openBi =>
      obtain ⟨id, -, h⟩ := Option.bind_eq_some_iff.mp h
      obtain rfl := Option.some.inj h
      exact ⟨rfl, rfl⟩
  | cancelOpen k =>
      obtain ⟨opening, -, h⟩ := Option.bind_eq_some_iff.mp h
      exact dropSend_task (e := { e with opening := e.opening.eraseIdx k }) h
  | create k =>
      rcases create_cases h with ⟨i, s, -, -, rfl⟩ | ⟨i, j, s, -, -, rfl⟩
      · exact ⟨rfl, rfl⟩
      · exact ⟨rfl, rfl⟩
  | acceptUni =>
      simp only [step, acceptUniStream] at h
      split at h
      · split at h
        · obtain rfl := Option.some.inj h
          exact ⟨rfl, rfl⟩
        · cases h
      · cases h
  | acceptBi =>
      simp only [step, acceptBiStream] at h
      split at h
      · split at h
        · obtain rfl := Option.some.inj h
          exact ⟨rfl, rfl⟩
        · cases h
      · cases h
  | discard =>
      simp only [step, discard] at h
      split at h
      · next rest _ =>
          split at h
          · cases h
          · exact dropSend_task (e := { e with acceptBi := rest }) h
      · cases h
  | dropSession =>
      obtain rfl := Option.some.inj h
      exact ⟨rfl, rfl⟩
  | close code reason =>
      obtain rfl := Option.some.inj h
      exact ⟨rfl, rfl⟩
  | spawned k =>
      obtain ⟨frame, -, h⟩ := Option.bind_eq_some_iff.mp h
      split at h
      · obtain rfl := Option.some.inj h
        exact ⟨rfl, rfl⟩
      · obtain rfl := Option.some.inj h
        exact ⟨rfl, rfl⟩
      · cases h
  | _ => cases hact

/-- The message of a frame is that frame. -/
theorem recvMessage_encode (e : Endpoint) (frame : Frame) :
    e.recvMessage (.binary frame.encode) =
      match e.recvFrame frame with
      | some (.ok e) => some e
      | some (.error error) => some (e.halt error)
      | none => none := by
  cases hrecv : e.recvFrame frame with
  | none => simp [recvMessage, Frame.decode_encode, hrecv]
  | some result => cases result <;> simp [recvMessage, Frame.decode_encode, hrecv]

end Endpoint

end MoqTransport.Ws
