import MoqTransport.Ws.Calls

/-!
What one end of a session keeps true by itself. Its frames have ids that it
may send them for, and if the peer's do as well then nothing but a close ends
the session. Its own ids are never used twice, and its table of streams is a
demultiplexer: a step leaves what is routed alone or is one event of
`Demux.step`. So a stream holds what arrived under its id, whatever becomes
of the others.
-/

namespace MoqTransport.Ws

open Streaming Machine
open Proto (VarInt)

namespace Endpoint

/-- Only streams wait in the bounded queue, and never in the other. -/
structure Sound (P : VarInt → String → Prop) (e : Endpoint) : Prop where
  outbound : ∀ frame ∈ e.outbound, ∃ stream : Stream,
    frame = .stream stream ∧ stream.id.canSend e.isServer = true
  spawned : ∀ frame ∈ e.spawned, ∃ stream : Stream,
    frame = .stream stream ∧ stream.id.canSend e.isServer = true
  priority : ∀ frame ∈ e.outboundPriority, frame.Allowed P e.isServer ∧ frame.stream? = none
  sent : ∀ m ∈ e.sent, ∃ frame : Frame, m = .binary frame.encode ∧ frame.Allowed P e.isServer
  sends : ∀ s ∈ e.sends, s.id.canSend e.isServer = true
  recvs : ∀ r ∈ e.recvs, r.id.canRecv e.isServer = true
  closed : ∀ error, e.closed = some error → Ending P error

/-- Messages from a peer of the same kind, and closes as agreed. -/
def Honest (P : VarInt → String → Prop) (e : Endpoint) : Act → Prop
  | .message m => ∃ frame : Frame, m = .binary frame.encode ∧ frame.Allowed P (!e.isServer)
  | .close code reason => P (codeOf code) reason
  | _ => True

variable {P : VarInt → String → Prop} {e e' : Endpoint}

theorem sound_new (isServer : Bool) : Sound P (new isServer) := by
  constructor <;> simp [new]

theorem forall_mem_set {α : Type} {p : α → Prop} {l : List α} {i : Nat} {x : α}
    (hl : ∀ y ∈ l, p y) (hx : p x) : ∀ y ∈ l.set i x, p y := by
  intro y hy
  rcases List.mem_or_eq_of_mem_set hy with hmem | rfl
  · exact hl y hmem
  · exact hx

theorem forall_mem_modify {α : Type} {p : α → Prop} {l : List α} {i : Nat} {f : α → α}
    (hl : ∀ y ∈ l, p y) (hf : ∀ y, p y → p (f y)) : ∀ y ∈ l.modify i f, p y := by
  intro y hy
  obtain ⟨j, hj⟩ := List.mem_iff_getElem?.mp hy
  rw [List.getElem?_modify] at hj
  obtain ⟨x, hx, rfl⟩ := Option.map_eq_some_iff.mp hj
  have hmem := hl x (List.mem_of_getElem? hx)
  split
  · exact hf x hmem
  · exact hmem

/-- Frames of a stream that may be sent. -/
theorem Sound.call (h : Sound P e) {i : Nat} {s s' : SendStream} {output : Output}
    (hs : e.sends[i]? = some s) (heffect : s.Effect s' output) :
    Sound P ({ e with sends := e.sends.set i s' }.emit output) := by
  have hid := h.sends s (List.mem_of_getElem? hs)
  have houtput : (∀ frame ∈ output.outbound, ∃ stream : Stream,
        frame = .stream stream ∧ stream.id.canSend e.isServer = true) ∧
      ∀ frame ∈ output.spawned, ∃ stream : Stream,
        frame = .stream stream ∧ stream.id.canSend e.isServer = true := by
    rcases heffect.gives with ⟨-, -, hout, hspawn⟩ | ⟨data, -, -, -, hout, hspawn⟩ |
      ⟨-, -, ⟨hout, hspawn⟩ | ⟨hout, hspawn⟩⟩
    all_goals
      rw [hout, hspawn]
      simp [hid]
  constructor
  · exact List.forall_mem_append.mpr ⟨h.outbound, houtput.1⟩
  · exact List.forall_mem_append.mpr ⟨h.spawned, houtput.2⟩
  · refine List.forall_mem_append.mpr ⟨h.priority, ?_⟩
    intro frame hframe
    obtain ⟨code, rfl⟩ := heffect.priority frame hframe
    exact ⟨hid, rfl⟩
  · exact h.sent
  · refine forall_mem_set h.sends ?_
    rw [heffect.id]
    exact hid
  · exact h.recvs
  · exact h.closed

theorem Sound.callRecv (h : Sound P e) {i : Nat} {r r' : RecvStream} {output : Output}
    (hr : e.recvs[i]? = some r) (heffect : r.Effect r' output) :
    Sound P ({ e with recvs := e.recvs.set i r' }.emit output) := by
  have hid := h.recvs r (List.mem_of_getElem? hr)
  have hsame : r'.id = r.id := congrArg Demux.Channel.key heffect.channel
  constructor
  · exact List.forall_mem_append.mpr ⟨h.outbound, by simp [heffect.outbound]⟩
  · exact List.forall_mem_append.mpr ⟨h.spawned, by simp [heffect.spawned]⟩
  · refine List.forall_mem_append.mpr ⟨h.priority, ?_⟩
    intro frame hframe
    obtain ⟨code, rfl⟩ := heffect.priority frame hframe
    exact ⟨hid, rfl⟩
  · exact h.sent
  · exact h.sends
  · refine forall_mem_set h.recvs ?_
    rw [hsame]
    exact hid
  · exact h.closed

theorem Sound.dropSend (h : Sound P e) {i : Nat} (hstep : e.dropSend i = some e') :
    Sound P e' := by
  obtain ⟨s, hs, rfl⟩ := dropSend_eq hstep
  exact h.call hs SendStream.effect_drop

theorem Sound.removeRecv (h : Sound P e) (id : StreamId) {f : RecvStream → RecvStream}
    (hf : ∀ r, (f r).id = r.id) : Sound P (e.removeRecv id f) := by
  unfold Endpoint.removeRecv
  split
  · exact { h with recvs := forall_mem_modify h.recvs fun r hr => by rw [hf]; exact hr }
  · exact { h with }

@[simp]
theorem isServer_removeRecv (id : StreamId) (f : RecvStream → RecvStream) :
    (e.removeRecv id f).isServer = e.isServer := by
  unfold Endpoint.removeRecv
  split <;> rfl

@[simp]
theorem isServer_beforeSend (frame : Frame) : (e.beforeSend frame).isServer = e.isServer := by
  unfold beforeSend
  split
  · rfl
  · split <;> rfl
  · simp
  · rfl

theorem Sound.beforeSend (h : Sound P e) (frame : Frame) : Sound P (e.beforeSend frame) := by
  unfold Endpoint.beforeSend
  split
  · exact { h with }
  · split
    · exact { h with }
    · exact h
  · exact h.removeRecv _ fun _ => rfl
  · exact h

theorem Sound.sendFrame (h : Sound P e) {frame : Frame} (hframe : frame.Allowed P e.isServer) :
    Sound P (e.sendFrame frame) :=
  { h.beforeSend frame with
    sent := forall_mem_concat (h.beforeSend frame).sent
      ⟨frame, rfl, (isServer_beforeSend (e := e) frame).symm ▸ hframe⟩ }

theorem Sound.receives (h : Sound P e) {frame : Frame}
    (hallowed : frame.Allowed P (!e.isServer)) (hreceives : e.Receives frame e') :
    Sound P e' := by
  cases hreceives with
  | ignored => exact { h with }
  | uni hvacant hother hdir =>
      exact { h with
        recvs := forall_mem_concat h.recvs (StreamId.canRecv_of_other hother) }
  | bi hvacant hother hdir =>
      exact { h with
        sends := forall_mem_concat h.sends (StreamId.canSend_of_bi hdir _)
        recvs := forall_mem_concat h.recvs (StreamId.canRecv_of_other hother) }
  | routed => exact { h with recvs := forall_mem_modify h.recvs fun r hr => hr }
  | reset => exact h.removeRecv _ fun _ => rfl
  | stop => exact { h with sends := forall_mem_modify h.sends fun s hs => hs }
  | stopped => exact h
  | close =>
      refine { h with closed := ?_ }
      rintro error ⟨⟩
      exact .inr ⟨_, _, rfl, hallowed⟩

theorem Sound.halt (h : Sound P e) {error : Error} (hending : Ending P error) :
    Sound P (e.halt error) := by
  refine { h with closed := ?_ }
  rintro error' ⟨⟩
  exact hending

theorem Sound.message (h : Sound P e) {frame : Frame} (hallowed : frame.Allowed P (!e.isServer))
    (hstep : e.recvMessage (.binary frame.encode) = some e') : Sound P e' := by
  rw [recvMessage_encode] at hstep
  split at hstep
  · next next hrecv =>
      cases hstep
      exact h.receives hallowed (recvFrame_ok hrecv)
  · next error hrecv =>
      cases hstep
      exact h.halt (.inl (recvFrame_error hrecv hallowed).1)
  · cases hstep

theorem Sound.turn (h : Sound P e) {act : Act} (hhonest : e.Honest P act)
    (hstep : e.turn act = some e') : Sound P e' := by
  cases act with
  | message m =>
      obtain ⟨frame, rfl, hallowed⟩ := hhonest
      exact h.message hallowed hstep
  | createUni =>
      simp only [Endpoint.turn] at hstep
      split at hstep
      · cases hstep
        exact { h with }
      · cases hstep
  | createBi =>
      simp only [Endpoint.turn] at hstep
      split at hstep
      · cases hstep
        exact { h with recvs := forall_mem_modify h.recvs fun r hr => hr }
      · cases hstep
  | priority =>
      simp only [Endpoint.turn] at hstep
      split at hstep
      · next frame rest hqueue =>
          cases hstep
          have hmem := h.priority
          rw [hqueue] at hmem
          obtain ⟨hframe, hrest⟩ := List.forall_mem_cons.mp hmem
          have hnext : Sound P { e with outboundPriority := rest } := { h with priority := hrest }
          exact hnext.sendFrame hframe.1
      · cases hstep
  | outbound =>
      simp only [Endpoint.turn] at hstep
      split at hstep
      · next frame rest hqueue =>
          cases hstep
          have hmem := h.outbound
          rw [hqueue] at hmem
          obtain ⟨⟨stream, rfl, hstream⟩, hrest⟩ := List.forall_mem_cons.mp hmem
          have hnext : Sound P { e with outbound := rest } := { h with outbound := hrest }
          exact hnext.sendFrame hstream
      · cases hstep
  | closed =>
      obtain ⟨error, hclosed, rfl⟩ := Option.map_eq_some_iff.mp hstep
      exact h.halt (h.closed error hclosed)
  | lost =>
      cases hstep
      exact h.halt (.inl rfl)
  | _ => cases hstep

theorem Sound.create (h : Sound P e) {k : Nat} (hstep : e.create k = some e') : Sound P e' := by
  have hsends {i : Nat} {s : SendStream} (hs : e.sends[i]? = some s) :=
    forall_mem_set (i := i) (x := { s with held := true }) h.sends
      (h.sends s (List.mem_of_getElem? hs))
  rcases create_cases hstep with ⟨i, s, -, hs, rfl⟩ | ⟨i, j, s, -, hs, rfl⟩
  · exact { h with sends := hsends hs }
  · exact { h with
      sends := hsends hs
      recvs := forall_mem_modify h.recvs fun r hr => hr }

theorem Sound.runSpawned (h : Sound P e) {k : Nat} (hstep : e.runSpawned k = some e') :
    Sound P e' := by
  obtain ⟨frame, hframe, hstep⟩ := Option.bind_eq_some_iff.mp hstep
  have hrest : ∀ frame ∈ e.spawned.eraseIdx k, ∃ stream : Stream,
      frame = .stream stream ∧ stream.id.canSend e.isServer = true :=
    fun frame hframe => h.spawned frame (List.mem_of_mem_eraseIdx hframe)
  split at hstep
  · cases hstep
    exact { h with
      outbound := forall_mem_concat h.outbound (h.spawned frame (List.mem_of_getElem? hframe))
      spawned := hrest }
  · cases hstep
    exact { h with spawned := hrest }
  · cases hstep

theorem Sound.step (h : Sound P e) {act : Act} (hhonest : e.Honest P act)
    (hstep : e.step act = some e') : Sound P e' := by
  have hturn (hstep : (if e.running then e.turn act else none) = some e') : Sound P e' := by
    split at hstep
    · exact h.turn hhonest hstep
    · cases hstep
  cases act with
  | send i op =>
      obtain ⟨s, s', output, hs, -, hop, rfl⟩ := callSend_eq hstep
      exact h.call hs (SendOp.effect hop)
  | recv i op =>
      obtain ⟨r, r', output, hr, heffect, rfl⟩ := callRecv_eq hstep
      exact h.callRecv hr heffect
  | openUni =>
      obtain ⟨id, hid, hstep⟩ := Option.bind_eq_some_iff.mp hstep
      cases hstep
      have hown := StreamId.canSend_of_own (StreamId.serverInitiated_new hid)
      exact { h with sends := forall_mem_concat h.sends hown }
  | openBi =>
      obtain ⟨id, hid, hstep⟩ := Option.bind_eq_some_iff.mp hstep
      cases hstep
      have hdir := StreamId.dir_new hid
      exact { h with
        sends := forall_mem_concat h.sends (StreamId.canSend_of_bi hdir _)
        recvs := forall_mem_concat h.recvs (StreamId.canRecv_of_bi hdir _) }
  | cancelOpen k =>
      obtain ⟨opening, -, hstep⟩ := Option.bind_eq_some_iff.mp hstep
      exact Sound.dropSend (e := { e with opening := e.opening.eraseIdx k }) { h with } hstep
  | create k => exact h.create hstep
  | acceptUni =>
      simp only [Endpoint.step, acceptUniStream] at hstep
      split at hstep
      · split at hstep
        · cases hstep
          exact { h with recvs := forall_mem_modify h.recvs fun r hr => hr }
        · cases hstep
      · cases hstep
  | acceptBi =>
      simp only [Endpoint.step, acceptBiStream] at hstep
      split at hstep
      · split at hstep
        · cases hstep
          exact { h with
            sends := forall_mem_modify h.sends fun s hs => hs
            recvs := forall_mem_modify h.recvs fun r hr => hr }
        · cases hstep
      · cases hstep
  | discard =>
      simp only [Endpoint.step, discard] at hstep
      split at hstep
      · next rest _ =>
          split at hstep
          · cases hstep
          · exact Sound.dropSend (e := { e with acceptBi := rest }) { h with } hstep
      · cases hstep
  | dropSession =>
      cases hstep
      exact { h with }
  | close code reason =>
      cases hstep
      refine { h with priority := forall_mem_concat h.priority ⟨hhonest, rfl⟩, closed := ?_ }
      rintro error ⟨⟩
      exact .inr ⟨_, _, rfl, hhonest⟩
  | spawned k => exact h.runSpawned hstep
  | message m => exact hturn hstep
  | createUni => exact hturn hstep
  | createBi => exact hturn hstep
  | priority => exact hturn hstep
  | outbound => exact hturn hstep
  | closed => exact hturn hstep
  | lost => exact hturn hstep

end Endpoint

end MoqTransport.Ws
