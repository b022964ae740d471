import MoqTransport.Ws.Tables

/-!
What the streams of one end hold, in every run and with any peer. The table
of streams never mixes two of them up, so the assertion in `read_chunk` holds
whenever it is checked, and what is read is the data that arrived under the
stream's own id, in its order.
-/

namespace MoqTransport.Ws

open Streaming Machine

/-- A stream is filled with frames of its id, and read from its front. -/
structure RecvStream.Kept (r : RecvStream) : Prop where
  own : ∀ frame ∈ r.routed, frame.id = r.id
  reads : ∃ taken, r.Reads taken

namespace RecvStream

variable {r r' : RecvStream}

theorem kept_new (id : StreamId) (held : Bool) (status : Demux.Status) :
    (new id held status).Kept :=
  ⟨by simp [new], [], rfl, rfl, rfl⟩

theorem Kept.push (h : r.Kept) {stream : Stream} (hid : stream.id = r.id) :
    (r.push stream).Kept := by
  obtain ⟨taken, hreads⟩ := h.reads
  refine ⟨forall_mem_concat h.own hid, taken, ?_, hreads.bytes, hreads.fin⟩
  simp [RecvStream.push, hreads.routed]

theorem Kept.effect {output : Output} (h : r.Kept) (heffect : r.Effect r' output) : r'.Kept := by
  have hrouted : r'.routed = r.routed := congrArg Demux.Channel.items heffect.channel
  have hid : r'.id = r.id := congrArg Demux.Channel.key heffect.channel
  obtain ⟨taken, hreads⟩ := h.reads
  exact ⟨by rw [hrouted, hid]; exact h.own, heffect.reads taken hreads⟩

/-- What is read is the front of what has been routed. -/
theorem Kept.output_front (h : r.Kept) : r.output <+: r.routed.flatMap Stream.data := by
  obtain ⟨taken, hreads⟩ := h.reads
  refine ⟨r.buffer ++ r.inboundData.flatMap Stream.data, ?_⟩
  rw [hreads.routed, List.flatMap_append, ← hreads.bytes, List.append_assoc]

/-- The assertion on the ids of the frames that wait. -/
theorem Kept.waiting (h : r.Kept) : ∀ frame ∈ r.inboundData, frame.id = r.id := by
  obtain ⟨taken, hreads⟩ := h.reads
  intro frame hframe
  refine h.own frame ?_
  rw [hreads.routed]
  exact List.mem_append_right _ hframe

end RecvStream

namespace Endpoint

def Kept (e : Endpoint) : Prop := ∀ r ∈ e.recvs, r.Kept

variable {e e' : Endpoint}

theorem kept_modify (h : e.Kept) {i : Nat} {f : RecvStream → RecvStream}
    (hf : ∀ r : RecvStream, r.Kept → (f r).Kept) : ∀ r ∈ e.recvs.modify i f, r.Kept :=
  forall_mem_modify h hf

theorem Kept.removeRecv (h : e.Kept) (id : StreamId) {f : RecvStream → RecvStream}
    (hf : ∀ r : RecvStream, r.Kept → (f r).Kept) : (e.removeRecv id f).Kept := by
  unfold Endpoint.removeRecv
  split
  · exact kept_modify h hf
  · exact h

theorem kept_status {r : RecvStream} (h : r.Kept) (status : Demux.Status) :
    RecvStream.Kept { r with status } := by
  obtain ⟨taken, hreads⟩ := h.reads
  exact ⟨h.own, taken, hreads.routed, hreads.bytes, hreads.fin⟩

theorem kept_held {r : RecvStream} (h : r.Kept) (held : Bool) :
    RecvStream.Kept { r with held } := by
  obtain ⟨taken, hreads⟩ := h.reads
  exact ⟨h.own, taken, hreads.routed, hreads.bytes, hreads.fin⟩

theorem kept_pushReset {r : RecvStream} (h : r.Kept) (reset : ResetStream) :
    (r.pushReset reset).Kept := by
  obtain ⟨taken, hreads⟩ := h.reads
  exact ⟨h.own, taken, hreads.routed, hreads.bytes, hreads.fin⟩

theorem Kept.sendFrame (h : e.Kept) (frame : Frame) : (e.sendFrame frame).Kept := by
  change (e.beforeSend frame).Kept
  unfold beforeSend
  split
  · exact h
  · split
    · exact h
    · exact h
  · exact h.removeRecv _ fun r hr => kept_status hr _
  · exact h

/-- The table finds the stream of the id. -/
theorem Kept.receives (h : e.Kept) (hown : e.tables.Own) {frame : Frame}
    (hreceives : e.Receives frame e') : e'.Kept := by
  have harrive (stream : Stream) :
      ((RecvStream.new stream.id false .routed).push stream).Kept :=
    (RecvStream.kept_new stream.id false .routed).push rfl
  cases hreceives with
  | ignored => exact h
  | @uni stream => exact forall_mem_concat h (harrive stream)
  | @bi stream => exact forall_mem_concat h (harrive stream)
  | @routed stream i hlookup =>
      obtain ⟨c, hc, hkey, -⟩ := (hown.inv.table stream.id i).mp hlookup
      obtain ⟨r, hr, rfl⟩ := List.getElem?_map .. ▸ hc |> Option.map_eq_some_iff.mp
      intro r' hr'
      obtain ⟨j, hj⟩ := List.mem_iff_getElem?.mp hr'
      rw [List.getElem?_modify] at hj
      obtain ⟨x, hx, rfl⟩ := Option.map_eq_some_iff.mp hj
      have hkept := h x (List.mem_of_getElem? hx)
      split
      · next hij =>
          subst hij
          obtain rfl : r = x := Option.some.inj (hr.symm.trans hx)
          exact hkept.push hkey.symm
      · exact hkept
  | @reset reset => exact h.removeRecv _ fun r hr => kept_pushReset hr reset
  | stop => exact h
  | stopped => exact h
  | close => exact h

theorem Kept.turn (h : e.Kept) (hown : e.tables.Own) {act : Act} (hstep : e.turn act = some e') :
    e'.Kept := by
  cases act with
  | message m =>
      cases m with
      | binary data =>
          simp only [Endpoint.turn, recvMessage] at hstep
          split at hstep
          · obtain rfl := Option.some.inj hstep
            exact h
          · cases hstep
          · split at hstep
            · next hrecv =>
                obtain rfl := Option.some.inj hstep
                exact h.receives hown (recvFrame_ok hrecv)
            · obtain rfl := Option.some.inj hstep
              exact h
            · cases hstep
      | _ =>
          obtain rfl := Option.some.inj hstep
          exact h
  | createUni =>
      simp only [Endpoint.turn] at hstep
      split at hstep
      · obtain rfl := Option.some.inj hstep
        exact h
      · cases hstep
  | createBi =>
      simp only [Endpoint.turn] at hstep
      split at hstep
      · obtain rfl := Option.some.inj hstep
        exact kept_modify h fun r hr => kept_status hr _
      · cases hstep
  | priority =>
      simp only [Endpoint.turn] at hstep
      split at hstep
      · next frame rest _ =>
          obtain rfl := Option.some.inj hstep
          exact Kept.sendFrame (e := { e with outboundPriority := rest }) h frame
      · cases hstep
  | outbound =>
      simp only [Endpoint.turn] at hstep
      split at hstep
      · next frame rest _ =>
          obtain rfl := Option.some.inj hstep
          exact Kept.sendFrame (e := { e with outbound := rest }) h frame
      · cases hstep
  | closed =>
      obtain ⟨error, -, rfl⟩ := Option.map_eq_some_iff.mp hstep
      exact h
  | lost =>
      obtain rfl := Option.some.inj hstep
      exact h
  | _ => cases hstep

theorem Kept.dropSend (h : e.Kept) {i : Nat} (hstep : e.dropSend i = some e') : e'.Kept := by
  obtain ⟨s, -, rfl⟩ := dropSend_eq hstep
  exact h

theorem Kept.step (h : e.Kept) (hown : e.tables.Own) {act : Act} (hstep : e.step act = some e') :
    e'.Kept := by
  have hturn (hstep : (if e.running then e.turn act else none) = some e') : e'.Kept := by
    split at hstep
    · exact h.turn hown hstep
    · cases hstep
  cases act with
  | send i op =>
      obtain ⟨s, s', output, -, -, -, rfl⟩ := callSend_eq hstep
      exact h
  | recv i op =>
      obtain ⟨r, r', output, hr, heffect, rfl⟩ := callRecv_eq hstep
      exact forall_mem_set h ((h r (List.mem_of_getElem? hr)).effect heffect)
  | openUni =>
      obtain ⟨id, -, hstep⟩ := Option.bind_eq_some_iff.mp hstep
      obtain rfl := Option.some.inj hstep
      exact h
  | openBi =>
      obtain ⟨id, -, hstep⟩ := Option.bind_eq_some_iff.mp hstep
      obtain rfl := Option.some.inj hstep
      exact forall_mem_concat h (RecvStream.kept_new _ _ _)
  | cancelOpen k =>
      obtain ⟨opening, -, hstep⟩ := Option.bind_eq_some_iff.mp hstep
      exact Kept.dropSend (e := { e with opening := e.opening.eraseIdx k }) h hstep
  | create k =>
      rcases create_cases hstep with ⟨i, s, -, -, rfl⟩ | ⟨i, j, s, -, -, rfl⟩
      · exact h
      · exact kept_modify h fun r hr => kept_held hr _
  | acceptUni =>
      simp only [Endpoint.step, acceptUniStream] at hstep
      split at hstep
      · split at hstep
        · obtain rfl := Option.some.inj hstep
          exact kept_modify h fun r hr => kept_held hr _
        · cases hstep
      · cases hstep
  | acceptBi =>
      simp only [Endpoint.step, acceptBiStream] at hstep
      split at hstep
      · split at hstep
        · obtain rfl := Option.some.inj hstep
          exact kept_modify h fun r hr => kept_held hr _
        · cases hstep
      · cases hstep
  | discard =>
      simp only [Endpoint.step, discard] at hstep
      split at hstep
      · next rest _ =>
          split at hstep
          · cases hstep
          · exact Kept.dropSend (e := { e with acceptBi := rest }) h hstep
      · cases hstep
  | dropSession =>
      obtain rfl := Option.some.inj hstep
      exact h
  | close code reason =>
      obtain rfl := Option.some.inj hstep
      exact h
  | spawned k =>
      obtain ⟨frame, -, hstep⟩ := Option.bind_eq_some_iff.mp hstep
      split at hstep
      · obtain rfl := Option.some.inj hstep
        exact h
      · obtain rfl := Option.some.inj hstep
        exact h
      · cases hstep
  | message m => exact hturn hstep
  | createUni => exact hturn hstep
  | createBi => exact hturn hstep
  | priority => exact hturn hstep
  | outbound => exact hturn hstep
  | closed => exact hturn hstep
  | lost => exact hturn hstep

/-- What holds of an end whatever its peer sends. -/
structure Inv (e : Endpoint) : Prop where
  own : e.tables.Own
  traced : e.tables.Traced
  kept : e.Kept
  arrives : ∀ ev ∈ e.events, e.tables.fresh ev.key = true → ev.arrives = true
  keyed : ∀ ev ∈ e.events, ∀ stream ∈ ev.item?, ev = .item stream.id stream stream.fin

theorem inv_new (isServer : Bool) : (new isServer).Inv where
  own := Tables.own_new isServer
  traced := fun _ => rfl
  kept := by simp [Kept, new]
  arrives := by simp [new]
  keyed := by simp [new]

theorem Inv.step (h : e.Inv) {act : Act} (hstep : e.step act = some e') : e'.Inv where
  own := h.own.next (tables_step hstep)
  traced := h.traced.next h.own (tables_step hstep)
  kept := h.kept.step h.own hstep
  arrives := h.own.arrives_of_fresh (tables_step hstep) h.arrives
  keyed := Tables.keyed_next (tables_step hstep) h.keyed

theorem isServer_step {act : Act} (hstep : e.step act = some e') : e'.isServer = e.isServer :=
  Tables.isServer_next (tables_step hstep)

/-- A frame that is taken is logged. -/
theorem items_receives {stream : Stream} (h : e.Receives (.stream stream) e') :
    e'.tables.items = e.tables.items ++ [stream] := by
  cases h with
  | ignored => simp [Tables.items, tables, Demux.Event.item?]
  | uni => simp [Tables.items, tables, arrive, Demux.Event.item?]
  | bi => simp [Tables.items, tables, arrive, Demux.Event.item?]
  | routed => simp [Tables.items, tables, Demux.Event.item?]

theorem items_message {data : Bytes} {stream : Stream}
    (hdecode : Frame.decode data = .ok (.stream stream))
    (hstep : e.recvMessage (.binary data) = some e') :
    e'.tables.items = e.tables.items ++ [stream] ∨ e'.running = false := by
  simp only [recvMessage, hdecode] at hstep
  split at hstep
  · next hrecv =>
      obtain rfl := Option.some.inj hstep
      exact .inl (items_receives (recvFrame_ok hrecv))
  · obtain rfl := Option.some.inj hstep
    exact .inr rfl
  · cases hstep

/-- While the session runs, every stream frame that arrives is logged. -/
theorem items_step {act : Act} (hstep : e.step act = some e') :
    e'.tables.items = e.tables.items ++ act.stream?.toList ∨
      e'.running = false ∧ e'.tables.items = e.tables.items := by
  rcases Tables.items_next (tables_step hstep) with hitems | hsame
  · exact .inl hitems
  · cases harrived : act.stream? with
    | none => exact .inl (by simp [hsame])
    | some stream =>
        cases act with
        | message m =>
            cases m with
            | binary data =>
                have hdecode : Frame.decode data = .ok (.stream stream) := by
                  simp only [Act.stream?, Message.stream?] at harrived
                  split at harrived
                  · next heq =>
                      cases harrived
                      exact heq
                  · cases harrived
                simp only [step] at hstep
                split at hstep
                · rcases items_message hdecode hstep with hitems | hhalted
                  · exact .inl (by simpa using hitems)
                  · exact .inr ⟨hhalted, by rw [hsame]⟩
                · cases hstep
            | _ => cases harrived
        | _ => cases harrived

/-- The log of what has arrived, up to a frame that ended the session. -/
def Logged (e : Endpoint) (arrived : List Stream) : Prop :=
  e.tables.items = arrived ∨ e.running = false ∧ e.tables.items <+: arrived

theorem Logged.step {arrived : List Stream} (h : e.Logged arrived) {act : Act}
    (hstep : e.step act = some e') : e'.Logged (arrived ++ act.stream?.toList) := by
  rcases h with hitems | ⟨hhalted, hitems⟩
  · rcases items_step hstep with hnext | ⟨hhalted, hnext⟩
    · exact .inl (by rw [hnext, hitems])
    · exact .inr ⟨hhalted, by rw [hnext, hitems]; exact List.prefix_append _ _⟩
  · cases hact : act.turns with
    | true =>
        obtain ⟨hrunning, -⟩ := step_turn hact hstep
        rw [hhalted] at hrunning
        cases hrunning
    | false =>
        have hnone : act.stream? = none := by cases act <;> first | rfl | cases hact
        have hnext : e'.tables.items = e.tables.items := by
          rcases items_step hstep with hnext | ⟨-, hnext⟩
          · simpa [hnone] using hnext
          · exact hnext
        rw [hnone, Option.toList_none, List.append_nil]
        exact .inr ⟨(step_handle hact hstep).1.trans hhalted, hnext ▸ hitems⟩

theorem isServer_of_run {as : List Act} (hrun : Run step (fun _ _ => True) e as e') :
    e'.isServer = e.isServer := by
  induction hrun with
  | nil => rfl
  | cons _ hstep _ ih => exact ih.trans (isServer_step hstep)

theorem inv_of_run {as : List Act} {arrived : List Stream}
    (hrun : Run step (fun _ _ => True) e as e') (h : e.Inv) (hlog : e.Logged arrived) :
    e'.Inv ∧ e'.Logged (arrived ++ as.filterMap Act.stream?) := by
  induction hrun generalizing arrived with
  | nil => exact ⟨h, by simpa using hlog⟩
  | @cons s mid last act as _ hstep _ ih =>
      obtain ⟨hinv, hlogged⟩ := ih (h.step hstep) (hlog.step hstep)
      refine ⟨hinv, ?_⟩
      cases hact : act.stream? <;> simpa [hact] using hlogged

theorem lane_routed (id : StreamId) :
    (e.tables.demux.lane id).flatMap Demux.Channel.items =
      (e.recvs.filter (·.id = id)).flatMap RecvStream.routed := by
  simp only [Demux.State.lane, tables]
  rw [List.filter_map, List.flatMap_map]
  rfl

/-- Under an id of the peer the streams hold, one after the other, what has
arrived. -/
theorem Inv.items_of_fresh (h : e.Inv) {id : StreamId} (hid : e.isServer ≠ id.serverInitiated) :
    (e.recvs.filter (·.id = id)).flatMap RecvStream.routed =
      e.tables.items.filter (·.id = id) := by
  have hfresh : e.tables.fresh id = true := Tables.fresh_iff.mpr hid
  have harrives : ∀ ev ∈ e.events.filter (·.key = id), ev.arrives = true := by
    intro ev hev
    obtain ⟨hmem, hkey⟩ := List.mem_filter.mp hev
    refine h.arrives ev hmem ?_
    rw [of_decide_eq_true hkey]
    exact hfresh
  rw [← lane_routed, h.traced id, hfresh]
  exact (Demux.items_of_fresh harrives Demux.settled_nil).trans (Tables.items_filter h.keyed id)

/-- Whatever the peer sends: a stream is only given frames of its own id, what
is read of it is their data from the front, and the streams of one of the
peer's ids have been given, together and in order, the frames that arrived
under the id, up to one with which the session ended. -/
theorem demultiplexed {isServer : Bool} {as : List Act}
    (hrun : Run step (fun _ _ => True) (new isServer) as e) :
    (∀ r ∈ e.recvs, (∀ frame ∈ r.inboundData, frame.id = r.id) ∧
      (∀ frame ∈ r.routed, frame.id = r.id) ∧ r.output <+: r.routed.flatMap Stream.data) ∧
    ∀ id : StreamId, isServer ≠ id.serverInitiated →
      (e.recvs.filter (·.id = id)).flatMap RecvStream.routed <+:
        (as.filterMap Act.stream?).filter (·.id = id) ∧
      (e.running = true → (e.recvs.filter (·.id = id)).flatMap RecvStream.routed =
        (as.filterMap Act.stream?).filter (·.id = id)) := by
  have hlog : (new isServer).Logged [] := .inl rfl
  obtain ⟨hinv, hlogged⟩ := inv_of_run hrun (inv_new isServer) hlog
  rw [List.nil_append] at hlogged
  refine ⟨?_, ?_⟩
  · intro r hr
    have hkept := hinv.kept r hr
    exact ⟨hkept.waiting, hkept.own, hkept.output_front⟩
  · intro id hid
    have hserver : e.isServer = isServer := isServer_of_run hrun
    rw [hinv.items_of_fresh (by rw [hserver]; exact hid)]
    rcases hlogged with hitems | ⟨hhalted, hitems⟩
    · rw [hitems]
      exact ⟨List.prefix_refl _, fun _ => rfl⟩
    · refine ⟨hitems.filter _, fun hrunning => ?_⟩
      rw [hhalted] at hrunning
      cases hrunning

/-- The first stream in one direction that a client opens. -/
def firstUni : StreamId := ⟨2, by decide⟩

/-- After the last frame an id opens a second stream. -/
def reopened : List Act :=
  let message (data : Bytes) (fin : Bool) : Act :=
    .message (.binary (Frame.stream ⟨firstUni, data, fin⟩).encode)
  [message [1] false, message [] true, message [2] false]

theorem demultiplexed_reopened :
    ∃ e, Run step (fun _ _ => True) (new true) reopened e ∧ e.recvs.length = 2 ∧
      (e.recvs.filter (·.id = firstUni)).flatMap RecvStream.routed =
        (reopened.filterMap Act.stream?).filter (·.id = firstUni) := by
  have hrun : ∃ e, run step (fun _ _ => true) (new true) reopened = some e ∧
      e.recvs.length = 2 ∧ e.running = true := ⟨_, rfl, rfl, rfl⟩
  obtain ⟨e, he, hlength, hrunning⟩ := hrun
  have hall := run_of_eq (fun _ _ => true) (fun _ _ _ => trivial) he
  exact ⟨e, hall, hlength, ((demultiplexed hall).2 _ (by decide)).2 hrunning⟩

end Endpoint

end MoqTransport.Ws
