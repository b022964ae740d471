import MoqTransport.Ws.Streams

/-!
What one end sends when no stream is reset or stopped and none is finished
twice. Then the frames of a stream are on their way in the order in which they
were written, the last one is the only one that may say so, and none of them
is sent before the task knows the stream.

A frame that would go out after that is the reason for the conditions: a reset
overtakes the data in the queue, and what follows it opens the stream once
more at the other end.
-/

namespace MoqTransport.Ws

open Streaming Machine
open Proto (VarInt)

/-- What a call gives while no stream has been reset, stopped or finished. -/
inductive SendStream.Writes (s s' : SendStream) (slot : Slot) (output : Output) : Prop where
  | nothing (hwritten : s'.written = s.written) (hfin : s.fin = true → s'.fin = true)
      (houtput : output = {})
  | data (data : Bytes) (hroom : slot = .room) (hopen : s.fin = false) (hfin : s'.fin = false)
      (hwritten : s'.written = s.written ++ [⟨s.id, data, false⟩])
      (houtput : output = { outbound := [.stream ⟨s.id, data, false⟩] })
  | last (hopen : s.fin = false) (hfin : s'.fin = true)
      (hwritten : s'.written = s.written ++ [⟨s.id, [], true⟩])
      (houtput : slot = .room ∧ output = { outbound := [.stream ⟨s.id, [], true⟩] } ∨
        output = { spawned := [.stream ⟨s.id, [], true⟩] })

/-- A call that keeps a stream quiet. -/
structure SendStream.Quietly (s s' : SendStream) (slot : Slot) (output : Output) : Prop where
  id : s'.id = s.id
  stopped : s'.inboundStopped = []
  closed : s'.closed = none
  writes : s.Writes s' slot output

namespace SendStream

variable {s s' : SendStream} {output : Output} {slot : Slot}

theorem quietly_drop (hstopped : s.inboundStopped = []) (hclosed : s.closed = none) :
    s.Quietly (s.drop slot).1 slot (s.drop slot).2 := by
  unfold drop
  by_cases hfin : s.fin = true
  · rw [if_neg (by simp [hfin])]
    exact ⟨rfl, hstopped, hclosed, .nothing rfl (fun h => h) rfl⟩
  · have hopen : s.fin = false := by simpa using hfin
    rw [if_pos (by simp [hopen, hclosed])]
    cases slot with
    | room => exact ⟨rfl, hstopped, hclosed, .last hopen rfl rfl (.inl ⟨rfl, rfl⟩)⟩
    | full => exact ⟨rfl, hstopped, hclosed, .nothing rfl (fun _ => rfl) rfl⟩
    | closed => exact ⟨rfl, hstopped, hclosed, .nothing rfl (fun _ => rfl) rfl⟩

theorem quietly_writeBuf {data : Bytes} {arm : WriteArm} {result : Except Error Nat}
    (hstopped : s.inboundStopped = []) (hclosed : s.closed = none)
    (h : s.writeBuf slot data arm = some (result, s', output)) : s.Quietly s' slot output := by
  simp only [writeBuf, hclosed, hstopped] at h
  split at h
  · cases h
    exact ⟨rfl, hstopped, hclosed, .nothing rfl (fun h => h) rfl⟩
  · next hfin =>
      have hopen : s.fin = false := by simpa using hfin
      split at h
      · cases h
        exact ⟨rfl, hstopped, hclosed, .data data rfl hopen hopen rfl rfl⟩
      · cases h
        exact ⟨rfl, hstopped, hclosed, .nothing rfl (fun h => h) rfl⟩
      · cases h
      · next heq => cases heq
      · cases h

end SendStream

/-- The calls after which a stream is still quiet: it is not reset, and not
finished again. -/
def SendOp.Orderly (s : SendStream) : SendOp → Prop
  | .reset _ => False
  | .finish => s.fin = false
  | _ => True

theorem SendOp.quietly {s s' : SendStream} {output : Output} {slot : Slot} {op : SendOp}
    (hstopped : s.inboundStopped = []) (hclosed : s.closed = none) (horderly : op.Orderly s)
    (h : op.apply s slot = some (s', output)) : s.Quietly s' slot output := by
  cases op with
  | write data arm =>
      obtain ⟨⟨result, s', output⟩, hw, heq⟩ := Option.map_eq_some_iff.mp h
      cases heq
      exact SendStream.quietly_writeBuf hstopped hclosed hw
  | reset code => exact horderly.elim
  | finish =>
      have hopen : s.fin = false := horderly
      simp only [apply, SendStream.finish, hclosed] at h
      cases slot with
      | room =>
          cases h
          exact ⟨rfl, hstopped, hclosed, .last hopen rfl rfl (.inl ⟨rfl, rfl⟩)⟩
      | full =>
          cases h
          exact ⟨rfl, hstopped, hclosed, .last hopen rfl rfl (.inr rfl)⟩
      | closed =>
          cases h
          exact ⟨rfl, hstopped, hclosed, .last hopen rfl rfl (.inr rfl)⟩
  | closed => simp [apply, SendStream.onClosed, hclosed, hstopped] at h
  | drop =>
      have heq : s.drop slot = (s', output) := Option.some.inj h
      have hdrop : s.Quietly (s.drop slot).1 slot (s.drop slot).2 :=
      SendStream.quietly_drop hstopped hclosed
      rwa [heq] at hdrop

namespace Endpoint

def sentStreams (e : Endpoint) : List Stream := e.sent.filterMap Message.stream?

/-- The stream frames that have been sent and are on their way out. -/
def flow (sent : List Message) (outbound spawned : List Frame) : List Stream :=
  sent.filterMap Message.stream? ++ outbound.filterMap Frame.stream? ++
    spawned.filterMap Frame.stream?

/-- The only stream of its id. -/
structure Only (sends : List SendStream) (i : Nat) (s : SendStream) : Prop where
  at_ : sends[i]? = some s
  only : ∀ (j : Nat) s', sends[j]? = some s' → s'.id = s.id → j = i

/-- What has been written on a stream is on its way, unless its end was given
up with the session. -/
structure OnTheWay (flow : List Stream) (spawned : List Frame) (running : Bool)
    (s : SendStream) : Prop where
  front : flow.filter (·.id = s.id) <+: s.written
  all : s.fin = false ∨ running = true → flow.filter (·.id = s.id) = s.written
  single : ((spawned.filterMap Frame.stream?).filter (·.id = s.id)).length ≤ 1
  unspawned : s.fin = false → (spawned.filterMap Frame.stream?).filter (·.id = s.id) = []

/-- A call that opens a stream has not returned, so nothing is written yet. -/
structure Unwritten (isServer : Bool) (s : SendStream) : Prop where
  held : s.held = false
  written : s.written = []
  fin : s.fin = false
  own : s.id.serverInitiated = isServer

/-- What may be on the wire. -/
def Plain (frame : Frame) : Prop :=
  (∃ stream, frame = .stream stream) ∨ ∃ close, frame = .connectionClose close

structure Tidy (e : Endpoint) : Prop where
  priority : ∀ frame ∈ e.outboundPriority, ∃ close, frame = .connectionClose close
  sent : ∀ m ∈ e.sent, ∃ frame : Frame, m = .binary frame.encode ∧ Plain frame
  quiet : ∀ s ∈ e.sends, s.inboundStopped = [] ∧ s.closed = none
  closes : ∀ ev ∈ e.events, ∀ id, ev ≠ .close id
  ends : ∀ s ∈ e.sends, Demux.Ends Stream.fin s.written
  open_ : ∀ s ∈ e.sends, s.fin = false → ∀ frame ∈ s.written, frame.fin = false
  onTheWay : ∀ i s, Only e.sends i s →
    OnTheWay (flow e.sent e.outbound e.spawned) e.spawned e.running s
  absent : ∀ id, id ∉ e.sends.map SendStream.id →
    (flow e.sent e.outbound e.spawned).filter (·.id = id) = []
  distinct : (e.opening.map Opening.send).Nodup
  opening : ∀ o ∈ e.opening, ∃ s, e.sends[o.send]? = some s ∧ Unwritten e.isServer s
  accepted : ∀ p ∈ e.acceptBi, ∃ s, e.sends[p.1]? = some s ∧ s.id.serverInitiated ≠ e.isServer
  unsent : ∀ entry ∈ e.createBi, (e.sent.filterMap Message.stream?).filter (·.id = entry.1) = []

/-- The acts of an end that reset and stop no stream and finish none twice. -/
def Quiet (e : Endpoint) : Act → Prop
  | .send i op => ∀ s, e.sends[i]? = some s → op.Orderly s
  | .recv _ (.stop _) => False
  | .message m => ∃ frame : Frame, m = .binary frame.encode ∧ Plain frame
  | _ => True

/-- The task sends no frame of a stream whose entry it has not yet taken from
the queue of `open_bi`. Its loop is `biased` and looks into that queue before it
looks for a frame to send, so this excludes one thing: between the two looks
another thread returns from `open_bi` and writes on the stream. The answer to
such a frame can arrive before the entry is taken, and `recv_frame` drops what
arrives under an own id that is not in its table. -/
def Registered (e : Endpoint) : Act → Prop
  | .outbound => ∀ stream, e.outbound.head? = some (.stream stream) →
      ∀ entry ∈ e.createBi, entry.1 ≠ stream.id
  | _ => True

def Orderly (e : Endpoint) (act : Act) : Prop := e.Quiet act ∧ e.Registered act

/-- Looks that nothing comes between. -/
theorem registered_of_biased {e : Endpoint} {act : Act}
    (hbiased : act = .outbound → e.createBi = []) : e.Registered act := by
  cases act with
  | outbound =>
      intro stream _ entry hentry
      rw [hbiased rfl] at hentry
      cases hentry
  | _ => trivial

variable {e e' : Endpoint}

theorem tidy_new (isServer : Bool) : (new isServer).Tidy := by
  constructor
  all_goals simp [new, flow]
  intro i s h
  simpa using h.at_

theorem filter_flow (sent : List Message) (outbound spawned : List Frame) (p : Stream → Bool) :
    (flow sent outbound spawned).filter p =
      (sent.filterMap Message.stream?).filter p ++ (outbound.filterMap Frame.stream?).filter p ++
        (spawned.filterMap Frame.stream?).filter p := by
  simp [flow]

theorem only_of_set {sends : List SendStream} {i j : Nat} {s s' t : SendStream}
    (hs : sends[i]? = some s) (hid : s'.id = s.id) (h : Only (sends.set i s') j t) :
    (j = i ∧ t = s' ∧ Only sends i s) ∨ (t.id ≠ s.id ∧ Only sends j t) := by
  have hold (k : Nat) (u : SendStream) (hu : sends[k]? = some u) :
      ∃ u', (sends.set i s')[k]? = some u' ∧ u'.id = u.id := by
    by_cases hk : i = k
    · subst hk
      obtain rfl : s = u := Option.some.inj (hs.symm.trans hu)
      exact ⟨s', List.getElem?_set_self (List.getElem?_eq_some_iff.mp hs).1, hid⟩
    · exact ⟨u, by rw [List.getElem?_set_ne hk, hu], rfl⟩
  have honly (k : Nat) (u : SendStream) (hu : sends[k]? = some u) (hut : u.id = t.id) : k = j := by
    obtain ⟨u', hu', huid⟩ := hold k u hu
    exact h.only k u' hu' (huid.trans hut)
  rcases (getElem?_set_iff hs).mp h.at_ with ⟨rfl, rfl⟩ | ⟨hne, ht⟩
  · exact .inl ⟨rfl, rfl, hs, fun k u hu hut => honly k u hu (hut.trans hid.symm)⟩
  · exact .inr ⟨fun heq => hne (honly i s hs heq.symm), ht, honly⟩

section

variable {sent : List Message} {outbound spawned : List Frame} {running : Bool}
variable {s s' : SendStream} {stream : Stream}

theorem OnTheWay.nothing (h : OnTheWay (flow sent outbound spawned) spawned running s)
    (hid : s'.id = s.id) (hwritten : s'.written = s.written) (hfin : s.fin = true → s'.fin = true) :
    OnTheWay (flow sent outbound spawned) spawned running s' := by
  have hopen (hs' : s'.fin = false) : s.fin = false := by
    cases hs : s.fin with
    | false => rfl
    | true => rw [hfin hs] at hs'; cases hs'
  constructor
  · rw [hid, hwritten]
    exact h.front
  · intro hcase
    rw [hid, hwritten]
    exact h.all (hcase.imp_left hopen)
  · rw [hid]
    exact h.single
  · intro hs'
    rw [hid]
    exact h.unspawned (hopen hs')

/-- A frame that goes into the queue comes after the frames written before. -/
theorem OnTheWay.queue (h : OnTheWay (flow sent outbound spawned) spawned running s)
    (hopen : s.fin = false) (hid : s'.id = s.id) (hstream : stream.id = s.id)
    (hwritten : s'.written = s.written ++ [stream]) :
    OnTheWay (flow sent (outbound ++ [.stream stream]) spawned) spawned running s' := by
  have hspawned := h.unspawned hopen
  have hall := h.all (.inl hopen)
  rw [filter_flow, hspawned, List.append_nil] at hall
  have heq : (flow sent (outbound ++ [.stream stream]) spawned).filter (·.id = s'.id) =
      s'.written := by
    rw [filter_flow, hid, hspawned, hwritten, ← hall]
    simp [Frame.stream?, hstream]
  refine ⟨heq ▸ List.prefix_refl _, fun _ => heq, ?_, fun _ => ?_⟩
  · rw [hid, hspawned]
    simp
  · rw [hid]
    exact hspawned

theorem OnTheWay.spawn (h : OnTheWay (flow sent outbound spawned) spawned running s)
    (hopen : s.fin = false) (hfin : s'.fin = true) (hid : s'.id = s.id)
    (hstream : stream.id = s.id) (hwritten : s'.written = s.written ++ [stream]) :
    OnTheWay (flow sent outbound (spawned ++ [.stream stream])) (spawned ++ [.stream stream])
      running s' := by
  have hspawned := h.unspawned hopen
  have hall := h.all (.inl hopen)
  have hnew : ((spawned ++ [Frame.stream stream]).filterMap Frame.stream?).filter (·.id = s'.id) =
      [stream] := by
    rw [List.filterMap_append, List.filter_append, hid, hspawned]
    simp [Frame.stream?, hstream]
  rw [filter_flow, hspawned, List.append_nil] at hall
  have heq : (flow sent outbound (spawned ++ [.stream stream])).filter (·.id = s'.id) =
      s'.written := by
    rw [filter_flow, hnew, hid, hwritten, ← hall]
  refine ⟨heq ▸ List.prefix_refl _, fun _ => heq, by rw [hnew]; simp, fun hopen' => ?_⟩
  rw [hfin] at hopen'
  cases hopen'

theorem filter_other (stream : Stream) (outbound : List Frame) {id : StreamId}
    (hne : stream.id ≠ id) :
    ((outbound ++ [Frame.stream stream]).filterMap Frame.stream?).filter (·.id = id) =
      (outbound.filterMap Frame.stream?).filter (·.id = id) := by
  simp [Frame.stream?, hne]

/-- A frame of another stream changes nothing. -/
theorem OnTheWay.other {flow flow' : List Stream} {spawned spawned' : List Frame}
    (h : OnTheWay flow spawned running s)
    (hflow : flow'.filter (·.id = s.id) = flow.filter (·.id = s.id))
    (hspawned : (spawned'.filterMap Frame.stream?).filter (·.id = s.id) =
      (spawned.filterMap Frame.stream?).filter (·.id = s.id)) :
    OnTheWay flow' spawned' running s := by
  constructor
  · rw [hflow]
    exact h.front
  · rw [hflow]
    exact h.all
  · rw [hspawned]
    exact h.single
  · rw [hspawned]
    exact h.unspawned

/-- What an end gives up when it stops. -/
theorem OnTheWay.halt {flow : List Stream} (h : OnTheWay flow spawned running s) :
    OnTheWay flow spawned false s :=
  ⟨h.front, fun hcase => h.all (hcase.imp_right fun hf => by cases hf), h.single, h.unspawned⟩

end

/-- What a call leaves of the queues, for the stream and for the others. -/
theorem Tidy.onTheWay_call (h : e.Tidy) {i : Nat} {s s' : SendStream} {output : Output}
    (hs : e.sends[i]? = some s) (hquiet : s.Quietly s' e.slot output) {j : Nat} {t : SendStream}
    (ht : Only (e.sends.set i s') j t) :
    OnTheWay (flow e.sent (e.outbound ++ output.outbound) (e.spawned ++ output.spawned))
      (e.spawned ++ output.spawned) e.running t := by
  rcases only_of_set hs hquiet.id ht with ⟨rfl, rfl, honly⟩ | ⟨hne, honly⟩
  · have hold := h.onTheWay j s honly
    rcases hquiet.writes with ⟨hwritten, hfin, rfl⟩ | ⟨data, -, hopen, hfin, hwritten, rfl⟩ |
      ⟨hopen, hfin, hwritten, ⟨-, rfl⟩ | rfl⟩
    · simpa using hold.nothing hquiet.id hwritten hfin
    · simpa using hold.queue hopen hquiet.id rfl hwritten
    · simpa using hold.queue hopen hquiet.id rfl hwritten
    · simpa using hold.spawn hopen hfin hquiet.id rfl hwritten
  · have hold := h.onTheWay j t honly
    have hother (data : Bytes) (fin : Bool) (frames : List Frame) :=
      filter_other ⟨s.id, data, fin⟩ frames (Ne.symm hne)
    rcases hquiet.writes with ⟨-, -, rfl⟩ | ⟨data, -, -, -, -, rfl⟩ | ⟨-, -, -, ⟨-, rfl⟩ | rfl⟩
    · simpa using hold
    · refine hold.other ?_ (by simp)
      simp only [filter_flow, hother, List.append_nil]
    · refine hold.other ?_ (by simp)
      simp only [filter_flow, hother, List.append_nil]
    · refine hold.other ?_ (hother _ _ _)
      simp only [filter_flow, hother, List.append_nil]

/-- A stream that is written is still a stream of its id, and a call that
opens another does not notice. -/
theorem Tidy.call (h : e.Tidy) {i : Nat} {s s' : SendStream} {output : Output}
    (hs : e.sends[i]? = some s) (hquiet : s.Quietly s' e.slot output)
    (hopening : ∀ o ∈ e.opening, o.send ≠ i) :
    ({ e with sends := e.sends.set i s' }.emit output).Tidy := by
  have hmem := List.mem_of_getElem? hs
  have hpriority : output.outboundPriority = [] := by
    rcases hquiet.writes with ⟨-, -, rfl⟩ | ⟨data, -, -, -, -, rfl⟩ | ⟨-, -, -, ⟨-, rfl⟩ | rfl⟩
    all_goals rfl
  refine { h with
    priority := ?_
    quiet := forall_mem_set h.quiet ⟨hquiet.stopped, hquiet.closed⟩
    ends := forall_mem_set h.ends ?_
    open_ := forall_mem_set h.open_ ?_
    onTheWay := fun j t ht => h.onTheWay_call hs hquiet ht
    absent := ?_
    opening := ?_
    accepted := ?_ }
  · change ∀ frame ∈ e.outboundPriority ++ output.outboundPriority, _
    rw [hpriority, List.append_nil]
    exact h.priority
  · rcases hquiet.writes with ⟨hwritten, -, -⟩ | ⟨data, -, hopen, -, hwritten, -⟩ |
      ⟨hopen, -, hwritten, -⟩
    · rw [hwritten]
      exact h.ends s hmem
    · rw [hwritten]
      exact Demux.ends_concat (h.open_ s hmem hopen) _
    · rw [hwritten]
      exact Demux.ends_concat (h.open_ s hmem hopen) _
  · intro hfin'
    rcases hquiet.writes with ⟨hwritten, hfin, -⟩ | ⟨data, -, hopen, -, hwritten, -⟩ |
      ⟨-, hfin, -, -⟩
    · rw [hwritten]
      refine h.open_ s hmem ?_
      cases hs : s.fin with
      | false => rfl
      | true => rw [hfin hs] at hfin'; cases hfin'
    · rw [hwritten]
      exact forall_mem_concat (h.open_ s hmem hopen) rfl
    · rw [hfin] at hfin'
      cases hfin'
  · intro id hid
    have hids : (e.sends.set i s').map SendStream.id = e.sends.map SendStream.id :=
      map_set_of_eq hs hquiet.id
    change id ∉ (e.sends.set i s').map SendStream.id at hid
    rw [hids] at hid
    have hne : s.id ≠ id := by
      rintro rfl
      exact hid (List.mem_map_of_mem hmem)
    have hold := h.absent id hid
    have hother (data : Bytes) (fin : Bool) (frames : List Frame) :=
      filter_other ⟨s.id, data, fin⟩ frames hne
    rw [filter_flow] at hold
    change (flow e.sent (e.outbound ++ output.outbound) (e.spawned ++ output.spawned)).filter _ = _
    rw [filter_flow]
    rcases hquiet.writes with ⟨-, -, rfl⟩ | ⟨data, -, -, -, -, rfl⟩ | ⟨-, -, -, ⟨-, rfl⟩ | rfl⟩
    · simpa using hold
    all_goals simpa only [hother, List.append_nil] using hold
  · intro o ho
    obtain ⟨t, ht, hunwritten⟩ := h.opening o ho
    refine ⟨t, ?_, hunwritten⟩
    exact (List.getElem?_set_ne (hopening o ho).symm).trans ht
  · intro p hp
    obtain ⟨t, ht, hother⟩ := h.accepted p hp
    by_cases hpi : i = p.1
    · refine ⟨s', ?_, ?_⟩
      · rw [← hpi]
        exact List.getElem?_set_self (List.getElem?_eq_some_iff.mp hs).1
      · obtain rfl : s = t := by
          rw [← hpi, hs] at ht
          exact Option.some.inj ht
        rw [hquiet.id]
        exact hother
    · exact ⟨t, (List.getElem?_set_ne hpi).trans ht, hother⟩

theorem Tidy.dropSend (h : e.Tidy) {i : Nat} (hstep : e.dropSend i = some e')
    (hopening : ∀ o ∈ e.opening, o.send ≠ i) : e'.Tidy := by
  obtain ⟨s, hs, rfl⟩ := dropSend_eq hstep
  obtain ⟨hstopped, hclosed⟩ := h.quiet s (List.mem_of_getElem? hs)
  exact h.call hs (SendStream.quietly_drop hstopped hclosed) hopening

/-- A stream that its owner has is not one that is being opened. -/
theorem Tidy.callSend (h : e.Tidy) {i : Nat} {op : SendOp} (hstep : e.callSend i op = some e')
    (horderly : ∀ s, e.sends[i]? = some s → op.Orderly s) : e'.Tidy := by
  obtain ⟨s, s', output, hs, hheld, hop, rfl⟩ := callSend_eq hstep
  obtain ⟨hstopped, hclosed⟩ := h.quiet s (List.mem_of_getElem? hs)
  refine h.call hs (SendOp.quietly hstopped hclosed (horderly s hs) hop) ?_
  rintro o ho rfl
  obtain ⟨t, ht, hunwritten⟩ := h.opening o ho
  obtain rfl : s = t := Option.some.inj (hs.symm.trans ht)
  rw [hunwritten.held] at hheld
  cases hheld

/-- A stream with nothing written joins the others. -/
theorem Tidy.onTheWay_new (h : e.Tidy) {id : StreamId} {j : Nat} {t : SendStream}
    (ht : Only (e.sends ++ [.new id false]) j t) :
    OnTheWay (flow e.sent e.outbound e.spawned) e.spawned e.running t := by
  rcases getElem?_concat_iff.mp ht.at_ with hold | ⟨hj, rfl⟩
  · exact h.onTheWay j t ⟨hold, fun k u hu => ht.only k u (getElem?_concat_iff.mpr (.inl hu))⟩
  · have hid : id ∉ e.sends.map SendStream.id := by
      intro hmem
      obtain ⟨u, hu, huid⟩ := List.mem_map.mp hmem
      obtain ⟨k, hk⟩ := List.mem_iff_getElem?.mp hu
      have hkj := ht.only k u (getElem?_concat_iff.mpr (.inl hk)) huid
      have hlt := (List.getElem?_eq_some_iff.mp hk).1
      omega
    have hnone := h.absent id hid
    have hspawned := hnone
    rw [filter_flow] at hspawned
    have hspawned := (List.append_eq_nil_iff.mp hspawned).2
    refine ⟨?_, fun _ => hnone, ?_, fun _ => hspawned⟩
    · change (flow e.sent e.outbound e.spawned).filter (·.id = id) <+: _
      rw [hnone]
      exact List.nil_prefix
    · change ((e.spawned.filterMap Frame.stream?).filter (·.id = id)).length ≤ 1
      rw [hspawned]
      simp

theorem Tidy.absent_new (h : e.Tidy) {id : StreamId} :
    ∀ id', id' ∉ (e.sends ++ [SendStream.new id false]).map SendStream.id →
      (flow e.sent e.outbound e.spawned).filter (·.id = id') = [] := by
  intro id' hid'
  refine h.absent id' fun hmem => hid' ?_
  rw [List.map_append]
  exact List.mem_append_left _ hmem

theorem getElem?_append_of_some {α : Type} {l : List α} {i : Nat} {x y : α}
    (h : l[i]? = some x) : (l ++ [y])[i]? = some x := getElem?_concat_iff.mpr (.inl h)

theorem Tidy.opening_lt (h : e.Tidy) {o : Opening} (ho : o ∈ e.opening) :
    o.send < e.sends.length := by
  obtain ⟨s, hs, -⟩ := h.opening o ho
  exact (List.getElem?_eq_some_iff.mp hs).1

/-- A stream is made for a call that opens it. -/
theorem Tidy.openSend (h : e.Tidy) {id : StreamId} (hid : id.serverInitiated = e.isServer)
    {o : Opening} (ho : o.send = e.sends.length) :
    { e with sends := e.sends ++ [SendStream.new id false], opening := e.opening ++ [o] }.Tidy where
  priority := h.priority
  sent := h.sent
  quiet := forall_mem_concat h.quiet ⟨rfl, rfl⟩
  closes := h.closes
  ends := forall_mem_concat h.ends (by simp [SendStream.new, Demux.Ends])
  open_ := forall_mem_concat h.open_ (by simp [SendStream.new])
  onTheWay := fun j t ht => h.onTheWay_new ht
  absent := h.absent_new
  distinct := by
    rw [List.map_append, List.map_singleton, List.nodup_append]
    refine ⟨h.distinct, List.nodup_singleton _, ?_⟩
    intro a ha b hb heq
    obtain ⟨o', ho', rfl⟩ := List.mem_map.mp ha
    obtain rfl := List.mem_singleton.mp hb
    have hlt := h.opening_lt ho'
    omega
  opening := by
    refine forall_mem_concat ?_ ⟨.new id false, by simp [ho], rfl, rfl, rfl, hid⟩
    intro o' ho'
    obtain ⟨s, hs, hunwritten⟩ := h.opening o' ho'
    exact ⟨s, getElem?_append_of_some hs, hunwritten⟩
  accepted := by
    intro p hp
    obtain ⟨s, hs, hother⟩ := h.accepted p hp
    exact ⟨s, getElem?_append_of_some hs, hother⟩
  unsent := h.unsent

/-- A call that opens a stream ends, and others go on. -/
theorem Tidy.leave (h : e.Tidy) (k : Nat) : { e with opening := e.opening.eraseIdx k }.Tidy :=
  { h with
    distinct := h.distinct.sublist ((List.eraseIdx_sublist e.opening k).map _)
    opening := fun o ho => h.opening o (List.mem_of_mem_eraseIdx ho) }

theorem Tidy.left_ne (h : e.Tidy) {k : Nat} {o : Opening} (hk : e.opening[k]? = some o) :
    ∀ o' ∈ e.opening.eraseIdx k, o'.send ≠ o.send := by
  obtain ⟨hlt, rfl⟩ := List.getElem?_eq_some_iff.mp hk
  have hperm := (List.getElem_cons_eraseIdx_perm hlt).map Opening.send
  have hnodup := hperm.nodup_iff.mpr h.distinct
  rw [List.map_cons, List.nodup_cons] at hnodup
  intro o' ho' heq
  exact hnodup.1 (heq ▸ List.mem_map_of_mem ho')

/-- The owner of a stream gets it. -/
theorem Tidy.hold (h : e.Tidy) {i : Nat} {s : SendStream} (hs : e.sends[i]? = some s)
    (hopening : ∀ o ∈ e.opening, o.send ≠ i) :
    { e with sends := e.sends.set i { s with held := true } }.Tidy := by
  obtain ⟨hstopped, hclosed⟩ := h.quiet s (List.mem_of_getElem? hs)
  have hquiet : s.Quietly { s with held := true } e.slot {} :=
    ⟨rfl, hstopped, hclosed, .nothing rfl (fun h => h) rfl⟩
  have hcall := h.call hs hquiet hopening
  simpa [emit] using hcall

theorem Tidy.create (h : e.Tidy) (hinv : e.Inv) {k : Nat} (hstep : e.create k = some e') :
    e'.Tidy := by
  rcases create_cases hstep with ⟨i, s, hk, hs, rfl⟩ | ⟨i, j, s, hk, hs, rfl⟩
  · exact { (h.leave k).hold hs (h.left_ne hk) with }
  · refine { (h.leave k).hold hs (h.left_ne hk) with unsent := ?_ }
    refine forall_mem_concat h.unsent ?_
    obtain ⟨t, ht, hunwritten⟩ := h.opening _ (List.mem_of_getElem? hk)
    obtain rfl : s = t := Option.some.inj (hs.symm.trans ht)
    have honly : Only e.sends i s := by
      refine ⟨hs, fun j' s' hs' hid => ?_⟩
      exact hinv.own.unique j' i s.id (by simp [tables, hs', hid]) (by simp [tables, hs])
        hunwritten.own
    have hfront := (h.onTheWay i s honly).front
    rw [hunwritten.written, List.prefix_nil, filter_flow, List.append_assoc] at hfront
    exact (List.append_eq_nil_iff.mp hfront).1

/-- The end of a stream leaves its own task for the queue, or is given up. -/
theorem OnTheWay.runSpawned {sent : List Message} {outbound spawned : List Frame} {running : Bool}
    {s : SendStream} {stream : Stream} {k : Nat}
    (h : OnTheWay (flow sent outbound spawned) spawned running s)
    (hk : spawned[k]? = some (.stream stream)) :
    OnTheWay (flow sent (outbound ++ [.stream stream]) (spawned.eraseIdx k))
        (spawned.eraseIdx k) running s ∧
      (running = false →
        OnTheWay (flow sent outbound (spawned.eraseIdx k)) (spawned.eraseIdx k) running s) := by
  obtain ⟨hlt, hget⟩ := List.getElem?_eq_some_iff.mp hk
  have hperm := List.getElem_cons_eraseIdx_perm hlt
  rw [hget] at hperm
  have hfilter := (hperm.filterMap Frame.stream?).filter (fun x : Stream => decide (x.id = s.id))
  by_cases hid : stream.id = s.id
  · -- It is the only one that waits for its stream.
    have hone : (spawned.filterMap Frame.stream?).filter (fun x => decide (x.id = s.id)) =
          [stream] ∧
        ((spawned.eraseIdx k).filterMap Frame.stream?).filter (fun x => decide (x.id = s.id)) =
          [] := by
      have hcons : ((Frame.stream stream :: spawned.eraseIdx k).filterMap Frame.stream?).filter
          (fun x => decide (x.id = s.id)) = stream ::
            ((spawned.eraseIdx k).filterMap Frame.stream?).filter
              (fun x => decide (x.id = s.id)) := by
        simp [Frame.stream?, hid]
      rw [hcons] at hfilter
      have hlength := hfilter.length_eq
      have hsingle := h.single
      rw [List.length_cons] at hlength
      have hnil : ((spawned.eraseIdx k).filterMap Frame.stream?).filter
          (fun x => decide (x.id = s.id)) = [] := List.eq_nil_of_length_eq_zero (by omega)
      rw [hnil] at hfilter
      exact ⟨List.singleton_perm.mp hfilter |>.symm, hnil⟩
    have hfin : s.fin = true := by
      cases hs : s.fin with
      | true => rfl
      | false =>
          have hnone := h.unspawned hs
          rw [hone.1] at hnone
          cases hnone
    have hsame : (flow sent (outbound ++ [.stream stream]) (spawned.eraseIdx k)).filter
        (·.id = s.id) = (flow sent outbound spawned).filter (·.id = s.id) := by
      rw [filter_flow, filter_flow, hone.1, hone.2]
      simp [Frame.stream?, hid]
    have hsingle : (((spawned.eraseIdx k).filterMap Frame.stream?).filter
        (fun x => decide (x.id = s.id))).length ≤ 1 := by simp [hone.2]
    constructor
    · exact ⟨hsame ▸ h.front, fun hcase => hsame ▸ h.all hcase, hsingle, fun _ => hone.2⟩
    · intro hrunning
      have hfront := h.front
      rw [filter_flow, hone.1] at hfront
      refine ⟨?_, ?_, hsingle, fun _ => hone.2⟩
      · rw [filter_flow, hone.2, List.append_nil]
        exact (List.prefix_append _ _).trans hfront
      · rintro (hopen | hrun)
        · rw [hfin] at hopen
          cases hopen
        · rw [hrunning] at hrun
          cases hrun
  · have hcons : ((Frame.stream stream :: spawned.eraseIdx k).filterMap Frame.stream?) =
        stream :: (spawned.eraseIdx k).filterMap Frame.stream? := rfl
    have hspawned : ((spawned.eraseIdx k).filterMap Frame.stream?).filter (·.id = s.id) =
        (spawned.filterMap Frame.stream?).filter (·.id = s.id) := by
      rw [List.eraseIdx_eq_take_drop_succ]
      conv_rhs => rw [← List.take_append_drop k spawned, ← List.getElem_cons_drop hlt, hget]
      simp [Frame.stream?, hid]
    constructor
    · refine h.other ?_ hspawned
      rw [filter_flow, filter_flow, hspawned, filter_other _ outbound hid]
    · intro _
      refine h.other ?_ hspawned
      rw [filter_flow, filter_flow, hspawned]

theorem filter_spawned {spawned : List Frame} {stream : Stream} {id : StreamId} {k : Nat}
    (hk : spawned[k]? = some (.stream stream))
    (hnone : (spawned.filterMap Frame.stream?).filter (·.id = id) = []) :
    stream.id ≠ id ∧ ((spawned.eraseIdx k).filterMap Frame.stream?).filter (·.id = id) = [] := by
  simp only [List.filter_eq_nil_iff, List.mem_filterMap, decide_eq_true_eq] at hnone ⊢
  constructor
  · exact hnone stream ⟨_, List.mem_of_getElem? hk, rfl⟩
  · rintro x ⟨frame, hframe, hx⟩
    exact hnone x ⟨frame, List.mem_of_mem_eraseIdx hframe, hx⟩

theorem Tidy.runSpawned (h : e.Tidy) (hsound : ∀ frame ∈ e.spawned, ∃ stream : Stream,
      frame = .stream stream) {k : Nat} (hstep : e.runSpawned k = some e') : e'.Tidy := by
  obtain ⟨frame, hframe, hstep⟩ := Option.bind_eq_some_iff.mp hstep
  obtain ⟨stream, rfl⟩ := hsound frame (List.mem_of_getElem? hframe)
  have habsent (id : StreamId) (hid : id ∉ e.sends.map SendStream.id) :
      (flow e.sent (e.outbound ++ [.stream stream]) (e.spawned.eraseIdx k)).filter (·.id = id) =
          [] ∧
        (flow e.sent e.outbound (e.spawned.eraseIdx k)).filter (·.id = id) = [] := by
    have hnone := h.absent id hid
    rw [filter_flow] at hnone
    obtain ⟨hfront, hspawned⟩ := List.append_eq_nil_iff.mp hnone
    obtain ⟨hne, hrest⟩ := filter_spawned hframe hspawned
    rw [filter_flow, filter_flow, hrest, filter_other _ e.outbound hne, List.append_nil]
    exact ⟨hfront, hfront⟩
  split at hstep
  · obtain rfl := Option.some.inj hstep
    exact { h with
      onTheWay := fun i s hs => ((h.onTheWay i s hs).runSpawned hframe).1
      absent := fun id hid => (habsent id hid).1 }
  · next hslot =>
      obtain rfl := Option.some.inj hstep
      have hrunning : e.running = false := by
        unfold slot at hslot
        split at hslot
        · next hnot => simpa using hnot
        · split at hslot <;> cases hslot
      exact { h with
        onTheWay := fun i s hs => ((h.onTheWay i s hs).runSpawned hframe).2 hrunning
        absent := fun id hid => (habsent id hid).2 }
  · cases hstep

theorem Tidy.halt (h : e.Tidy) (error : Error) : (e.halt error).Tidy :=
  { h with onTheWay := fun i s hs => (h.onTheWay i s hs).halt }

theorem Tidy.receives (h : e.Tidy) {frame : Frame} (hplain : Plain frame)
    (hreceives : e.Receives frame e') : e'.Tidy := by
  have hcloses {stream : Stream} : ∀ ev ∈ e.events ++
      [Demux.Event.item stream.id stream stream.fin], ∀ id, ev ≠ .close id :=
    forall_mem_concat h.closes (by simp)
  cases hreceives with
  | ignored => exact { h with closes := hcloses }
  | uni hvacant hother hdir => exact { h with closes := hcloses }
  | @bi stream hvacant hother hdir =>
      exact { h with
        closes := hcloses
        quiet := forall_mem_concat h.quiet ⟨rfl, rfl⟩
        ends := forall_mem_concat h.ends (by simp [SendStream.new, Demux.Ends])
        open_ := forall_mem_concat h.open_ (by simp [SendStream.new])
        onTheWay := fun j t ht => h.onTheWay_new ht
        absent := h.absent_new
        opening := fun o ho => by
          obtain ⟨s, hs, hunwritten⟩ := h.opening o ho
          exact ⟨s, getElem?_append_of_some hs, hunwritten⟩
        accepted := forall_mem_concat (fun p hp => by
            obtain ⟨s, hs, hid⟩ := h.accepted p hp
            exact ⟨s, getElem?_append_of_some hs, hid⟩)
          ⟨.new stream.id false, by simp, Ne.symm hother⟩ }
  | routed => exact { h with closes := hcloses }
  | reset => rcases hplain with ⟨_, heq⟩ | ⟨_, heq⟩ <;> cases heq
  | stop => rcases hplain with ⟨_, heq⟩ | ⟨_, heq⟩ <;> cases heq
  | stopped => exact h
  | close => exact { h with }

theorem Tidy.message (h : e.Tidy) {frame : Frame} (hplain : Plain frame)
    (hstep : e.recvMessage (.binary frame.encode) = some e') : e'.Tidy := by
  rw [recvMessage_encode] at hstep
  split at hstep
  · next hrecv =>
      obtain rfl := Option.some.inj hstep
      exact h.receives hplain (recvFrame_ok hrecv)
  · obtain rfl := Option.some.inj hstep
    exact h.halt _
  · cases hstep

theorem filterMap_concat_message (sent : List Message) (frame : Frame) :
    (sent ++ [Message.binary frame.encode]).filterMap Message.stream? =
      sent.filterMap Message.stream? ++ frame.stream?.toList := by
  rw [List.filterMap_append]
  congr 1
  cases hframe : frame.stream? with
  | none => exact List.filterMap_cons_none ((Message.stream?_encode frame).trans hframe)
  | some stream =>
      exact List.filterMap_cons_some ((Message.stream?_encode frame).trans hframe)

/-- A close is not a frame of a stream. -/
theorem Tidy.sendPriority (h : e.Tidy) {frame : Frame} {rest : List Frame}
    (hqueue : e.outboundPriority = frame :: rest) :
    ({ e with outboundPriority := rest }.sendFrame frame).Tidy := by
  have hmem := h.priority
  rw [hqueue] at hmem
  obtain ⟨⟨close, rfl⟩, hrest⟩ := List.forall_mem_cons.mp hmem
  have hsent : (e.sent ++ [Message.binary (Frame.connectionClose close).encode]).filterMap
      Message.stream? = e.sent.filterMap Message.stream? :=
    (filterMap_concat_message _ _).trans (List.append_nil _)
  have hflow : flow (e.sent ++ [Message.binary (Frame.connectionClose close).encode]) e.outbound
      e.spawned = flow e.sent e.outbound e.spawned := by
    rw [flow, hsent]
    rfl
  exact { h with
    priority := hrest
    sent := forall_mem_concat h.sent ⟨_, rfl, .inr ⟨close, rfl⟩⟩
    onTheWay := fun i s hs => by
      change OnTheWay (flow (e.sent ++ [Message.binary (Frame.connectionClose close).encode])
        e.outbound e.spawned) e.spawned e.running s
      rw [hflow]
      exact h.onTheWay i s hs
    absent := fun id hid => by
      change (flow (e.sent ++ [Message.binary (Frame.connectionClose close).encode]) e.outbound
        e.spawned).filter _ = _
      rw [hflow]
      exact h.absent id hid
    unsent := fun entry hentry => by
      change ((e.sent ++ [Message.binary (Frame.connectionClose close).encode]).filterMap
        Message.stream?).filter _ = _
      rw [hsent]
      exact h.unsent entry hentry }

/-- A frame leaves the queue for the socket. -/
theorem Tidy.sendOutbound (h : e.Tidy) {stream : Stream} {rest : List Frame}
    (hqueue : e.outbound = .stream stream :: rest)
    (hregistered : ∀ entry ∈ e.createBi, entry.1 ≠ stream.id) :
    ({ e with outbound := rest }.sendFrame (.stream stream)).Tidy := by
  have hsent : (e.sent ++ [Message.binary (Frame.stream stream).encode]).filterMap Message.stream? =
      e.sent.filterMap Message.stream? ++ [stream] := filterMap_concat_message _ _
  have hflow : flow (e.sent ++ [Message.binary (Frame.stream stream).encode]) rest e.spawned =
      flow e.sent e.outbound e.spawned := by
    rw [flow, hsent, flow, hqueue]
    simp [Frame.stream?]
  have hnext : { e with
      outbound := rest
      sent := e.sent ++ [Message.binary (Frame.stream stream).encode] }.Tidy :=
    { h with
      sent := forall_mem_concat h.sent ⟨_, rfl, .inl ⟨stream, rfl⟩⟩
      onTheWay := fun i s hs => by
        change OnTheWay (flow (e.sent ++ [Message.binary (Frame.stream stream).encode]) rest
          e.spawned) e.spawned e.running s
        rw [hflow]
        exact h.onTheWay i s hs
      absent := fun id hid => by
        change (flow (e.sent ++ [Message.binary (Frame.stream stream).encode]) rest
          e.spawned).filter _ = _
        rw [hflow]
        exact h.absent id hid
      unsent := fun entry hentry => by
        change ((e.sent ++ [Message.binary (Frame.stream stream).encode]).filterMap
          Message.stream?).filter _ = _
        rw [hsent, List.filter_append, h.unsent entry hentry]
        simp [Ne.symm (hregistered entry hentry)] }
  simp only [sendFrame, beforeSend]
  split
  · exact { hnext with }
  · exact hnext

theorem Tidy.turn (h : e.Tidy) (houtbound : ∀ frame ∈ e.outbound, ∃ stream : Stream,
      frame = .stream stream) {act : Act} (horderly : e.Orderly act)
    (hstep : e.turn act = some e') : e'.Tidy := by
  cases act with
  | message m =>
      obtain ⟨frame, rfl, hplain⟩ := horderly.1
      exact h.message hplain hstep
  | createUni =>
      simp only [Endpoint.turn] at hstep
      split at hstep
      · obtain rfl := Option.some.inj hstep
        exact { h with }
      · cases hstep
  | createBi =>
      simp only [Endpoint.turn] at hstep
      split at hstep
      · next id i j rest hqueue =>
          obtain rfl := Option.some.inj hstep
          refine { h with closes := forall_mem_concat h.closes (by simp), unsent := ?_ }
          intro entry hentry
          exact h.unsent entry (by rw [hqueue]; exact List.mem_cons_of_mem _ hentry)
      · cases hstep
  | priority =>
      simp only [Endpoint.turn] at hstep
      split at hstep
      · next frame rest hqueue =>
          obtain rfl := Option.some.inj hstep
          exact h.sendPriority hqueue
      · cases hstep
  | outbound =>
      simp only [Endpoint.turn] at hstep
      split at hstep
      · next frame rest hqueue =>
          obtain rfl := Option.some.inj hstep
          obtain ⟨stream, rfl⟩ := houtbound frame (by simp [hqueue])
          exact h.sendOutbound hqueue (horderly.2 stream (by simp [hqueue]))
      · cases hstep
  | closed =>
      obtain ⟨error, -, rfl⟩ := Option.map_eq_some_iff.mp hstep
      exact h.halt error
  | lost =>
      obtain rfl := Option.some.inj hstep
      exact h.halt .closed
  | _ => cases hstep

theorem RecvOp.quietly {r r' : RecvStream} {connected : Bool} {op : RecvOp} {output : Output}
    (hop : ∀ code, op ≠ .stop code) (h : op.apply r connected = some (r', output)) :
    output = {} := by
  cases op with
  | read max arm =>
      obtain ⟨round, -, heq⟩ := Option.map_eq_some_iff.mp h
      cases round <;> cases heq <;> rfl
  | closed arm =>
      obtain ⟨round, -, heq⟩ := Option.map_eq_some_iff.mp h
      cases round <;> cases heq <;> rfl
  | stop code => exact absurd rfl (hop code)

theorem Tidy.callRecv (h : e.Tidy) {i : Nat} {op : RecvOp} (hop : ∀ code, op ≠ .stop code)
    (hstep : e.callRecv i op = some e') : e'.Tidy := by
  obtain ⟨r, -, hstep⟩ := Option.bind_eq_some_iff.mp hstep
  split at hstep
  · obtain ⟨⟨r', output⟩, hcall, hstep⟩ := Option.bind_eq_some_iff.mp hstep
    obtain rfl := RecvOp.quietly hop hcall
    obtain rfl := Option.some.inj hstep
    simpa [emit] using { h with : Tidy { e with recvs := e.recvs.set i r' } }
  · cases hstep

/-- An accepted stream is not one that is being opened. -/
theorem Tidy.accepted_ne (h : e.Tidy) {p : Nat × Nat} (hp : p ∈ e.acceptBi) :
    ∀ o ∈ e.opening, o.send ≠ p.1 := by
  rintro o ho heq
  obtain ⟨s, hs, hunwritten⟩ := h.opening o ho
  obtain ⟨t, ht, hother⟩ := h.accepted p hp
  rw [heq, ht] at hs
  obtain rfl := Option.some.inj hs
  exact hother hunwritten.own

theorem Tidy.step (h : e.Tidy) (hinv : e.Inv)
    (houtbound : ∀ frame ∈ e.outbound, ∃ stream : Stream, frame = .stream stream)
    (hspawned : ∀ frame ∈ e.spawned, ∃ stream : Stream, frame = .stream stream) {act : Act}
    (horderly : e.Orderly act) (hstep : e.step act = some e') : e'.Tidy := by
  cases hact : act.turns with
  | true => exact h.turn houtbound horderly (step_turn hact hstep).2
  | false =>
      cases act with
      | send i op => exact h.callSend hstep horderly.1
      | recv i op =>
          refine h.callRecv ?_ hstep
          rintro code rfl
          exact horderly.1
      | openUni =>
          obtain ⟨id, hid, hstep⟩ := Option.bind_eq_some_iff.mp hstep
          obtain rfl := Option.some.inj hstep
          have hopen := h.openSend (StreamId.serverInitiated_new hid) (o := .uni e.sends.length) rfl
          exact { hopen with }
      | openBi =>
          obtain ⟨id, hid, hstep⟩ := Option.bind_eq_some_iff.mp hstep
          obtain rfl := Option.some.inj hstep
          exact { h.openSend (StreamId.serverInitiated_new hid)
              (o := .bi e.sends.length e.recvs.length) rfl with
            closes := forall_mem_concat h.closes (by simp) }
      | cancelOpen k =>
          obtain ⟨o, hk, hstep⟩ := Option.bind_eq_some_iff.mp hstep
          exact (h.leave k).dropSend hstep (h.left_ne hk)
      | create k => exact h.create hinv hstep
      | acceptUni =>
          simp only [Endpoint.step, acceptUniStream] at hstep
          split at hstep
          · split at hstep
            · obtain rfl := Option.some.inj hstep
              exact { h with }
            · cases hstep
          · cases hstep
      | acceptBi =>
          simp only [Endpoint.step, acceptBiStream] at hstep
          split at hstep
          · next i j rest hqueue =>
              split at hstep
              · obtain rfl := Option.some.inj hstep
                have hmem : (i, j) ∈ e.acceptBi := by simp [hqueue]
                obtain ⟨s, hs, -⟩ := h.accepted (i, j) hmem
                have hsends : e.sends.modify i (fun s => { s with held := true }) =
                    e.sends.set i { s with held := true } := by
                  rw [List.modify_eq_set_getElem?, show e.sends[i]? = some s from hs]
                  rfl
                have hhold := h.hold hs (h.accepted_ne hmem)
                rw [hsends]
                refine { hhold with accepted := fun p hp => hhold.accepted p ?_ }
                change p ∈ e.acceptBi
                rw [hqueue]
                exact List.mem_cons_of_mem _ hp
              · cases hstep
          · cases hstep
      | discard =>
          simp only [Endpoint.step, discard] at hstep
          split at hstep
          · next i j rest hqueue =>
              split at hstep
              · cases hstep
              · have hmem : (i, j) ∈ e.acceptBi := by simp [hqueue]
                have hrest : { e with acceptBi := rest }.Tidy :=
                  { h with accepted := fun p hp =>
                      h.accepted p (by rw [hqueue]; exact List.mem_cons_of_mem _ hp) }
                exact hrest.dropSend hstep (h.accepted_ne hmem)
          · cases hstep
      | dropSession =>
          obtain rfl := Option.some.inj hstep
          exact { h with }
      | close code reason =>
          obtain rfl := Option.some.inj hstep
          exact { h with priority := forall_mem_concat h.priority ⟨_, rfl⟩ }
      | spawned k => exact h.runSpawned hspawned hstep
      | _ => cases hact

end Endpoint

end MoqTransport.Ws
