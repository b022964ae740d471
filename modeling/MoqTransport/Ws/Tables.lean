import MoqTransport.Ws.Endpoint

/-!
The tables of one end: which stream has which id, and what is routed where.
`tables_step` says all that a step can do to them; what a task does with its
own table of streams is an event of `Demux.step`. That the ids of an end are
never used twice makes its calls the ones that a demultiplexer allows, so in
every run, with any peer, what is routed to the streams of one id is decided
by what arrived under that id.
-/

namespace MoqTransport.Ws

open Streaming Machine
open Proto (VarInt)

structure Tables where
  isServer : Bool
  createUniId : Nat
  createBiId : Nat
  opening : List Opening
  createBi : List (StreamId × Nat × Nat)
  sendIds : List StreamId
  demux : Demux.State StreamId Stream
  events : List (Demux.Event StreamId Stream)

namespace Tables

/-- A stream of the peer opens by arriving. -/
def fresh (t : Tables) (id : StreamId) : Bool := t.isServer != id.serverInitiated

theorem fresh_iff {t : Tables} {id : StreamId} :
    t.fresh id = true ↔ t.isServer ≠ id.serverInitiated := bne_iff_ne

theorem not_fresh_iff {t : Tables} {id : StreamId} :
    t.fresh id = false ↔ t.isServer = id.serverInitiated := bne_eq_false_iff_eq

/-- A step with the stream frame that arrives in it, which may be refused. -/
inductive Next (t : Tables) : Option Stream → Tables → Prop where
  | same {arrived : Option Stream} : Next t arrived t
  | openUni {id : StreamId} (hid : StreamId.new t.createUniId .uni t.isServer = some id) :
      Next t none { t with
        createUniId := t.createUniId + 1
        sendIds := t.sendIds ++ [id]
        opening := t.opening ++ [.uni t.sendIds.length] }
  | openBi {id : StreamId} (hid : StreamId.new t.createBiId .bi t.isServer = some id) :
      Next t none { t with
        createBiId := t.createBiId + 1
        sendIds := t.sendIds ++ [id]
        demux := { t.demux with channels := t.demux.channels ++ [.make id] }
        opening := t.opening ++ [.bi t.sendIds.length t.demux.channels.length]
        events := t.events ++ [.make id] }
  | leave (k : Nat) : Next t none { t with opening := t.opening.eraseIdx k }
  | create {k i j : Nat} {id : StreamId} (hk : t.opening[k]? = some (.bi i j))
      (hid : t.sendIds[i]? = some id) :
      Next t none { t with
        opening := t.opening.eraseIdx k
        createBi := t.createBi ++ [(id, i, j)] }
  | register {i j : Nat} {id : StreamId} {rest : List (StreamId × Nat × Nat)}
      (hqueue : t.createBi = (id, i, j) :: rest) :
      Next t none { t with
        createBi := rest
        demux := ⟨t.demux.channels.modify j Demux.Channel.register, t.demux.table.insert id j⟩
        events := t.events ++ [.register id j] }
  | event (ev : Demux.Event StreamId Stream) {demux : Demux.State StreamId Stream}
      (harrives : ev.arrives = true)
      (hitem : ∀ stream ∈ ev.item?, ev = .item stream.id stream stream.fin)
      (hdemux : Demux.step t.fresh t.demux ev = some demux) :
      Next t ev.item? { t with demux, events := t.events ++ [ev] }
  | arrive {stream : Stream} {demux : Demux.State StreamId Stream}
      (hvacant : t.demux.table.lookup stream.id = none)
      (hother : t.isServer ≠ stream.id.serverInitiated)
      (hdemux : Demux.step t.fresh t.demux (.item stream.id stream stream.fin) = some demux) :
      Next t (some stream) { t with
        demux
        events := t.events ++ [.item stream.id stream stream.fin]
        sendIds := t.sendIds ++ [stream.id] }

end Tables

namespace Endpoint

def tables (e : Endpoint) : Tables where
  isServer := e.isServer
  createUniId := e.createUniId
  createBiId := e.createBiId
  opening := e.opening
  createBi := e.createBi
  sendIds := e.sends.map SendStream.id
  demux := ⟨e.recvs.map RecvStream.channel, e.recvStreams⟩
  events := e.events

theorem map_set_of_eq {α β : Type} {f : α → β} {l : List α} {i : Nat} {x x' : α}
    (hi : l[i]? = some x) (hx : f x' = f x) : (l.set i x').map f = l.map f := by
  obtain ⟨hlt, rfl⟩ := List.getElem?_eq_some_iff.mp hi
  rw [List.map_set, hx, ← List.getElem_map f (h := by simpa using hlt), List.set_getElem_self]

theorem map_modify {α β : Type} {f : α → β} {g : α → α} (g' : β → β)
    (hg : ∀ x, f (g x) = g' (f x)) (l : List α) (i : Nat) :
    (l.modify i g).map f = (l.map f).modify i g' := by
  apply List.ext_getElem?
  intro j
  rw [List.getElem?_map, List.getElem?_modify, List.getElem?_modify, List.getElem?_map]
  cases l[j]? with
  | none => rfl
  | some x => by_cases hij : i = j <;> simp [hij, hg]

theorem map_modify_of_eq {α β : Type} {f : α → β} {g : α → α} (hg : ∀ x, f (g x) = f x)
    (l : List α) (i : Nat) : (l.modify i g).map f = l.map f := by
  rw [map_modify (fun x => x) hg]
  exact List.modify_id i (l.map f)

variable {e e' : Endpoint}

theorem tables_call {i : Nat} {s s' : SendStream} {output : Output} (hs : e.sends[i]? = some s)
    (heffect : s.Effect s' output) :
    ({ e with sends := e.sends.set i s' }.emit output).tables = e.tables := by
  simp only [tables, emit, map_set_of_eq hs heffect.id]

theorem tables_dropSend {i : Nat} (hstep : e.dropSend i = some e') : e'.tables = e.tables := by
  obtain ⟨s, hs, rfl⟩ := dropSend_eq hstep
  exact tables_call hs SendStream.effect_drop

/-- What is done to a stream before it leaves the table. -/
theorem tables_removeRecv (id : StreamId) {f : RecvStream → RecvStream}
    (hf : ∀ r, (f r).channel = r.channel.close) :
    ∃ demux, Demux.step e.tables.fresh e.tables.demux (.close id) = some demux ∧
      (e.removeRecv id f).tables =
        { e.tables with demux, events := e.events ++ [.close id] } := by
  unfold removeRecv
  cases hlookup : e.recvStreams.lookup id with
  | none =>
      refine ⟨e.tables.demux, ?_, rfl⟩
      simp [Demux.step, tables, hlookup]
  | some i =>
      refine ⟨⟨e.tables.demux.channels.modify i Demux.Channel.close, e.recvStreams.erase id⟩,
        ?_, ?_⟩
      · simp [Demux.step, tables, hlookup]
      · simp only [tables, map_modify _ hf]

theorem tables_sendFrame (frame : Frame) :
    e.tables.Next none (e.sendFrame frame).tables := by
  change e.tables.Next none (e.beforeSend frame).tables
  cases frame with
  | resetStream reset => exact .same
  | stopSending stop =>
      obtain ⟨demux, hdemux, htables⟩ := tables_removeRecv (e := e) stop.id
        (f := fun r => { r with status := .dropped }) fun _ => rfl
      simp only [beforeSend, htables]
      exact .event (.close stop.id) rfl (by rintro _ ⟨⟩) hdemux
  | connectionClose close => exact .same
  | stream stream =>
      simp only [beforeSend]
      split
      · exact .same
      · exact .same

theorem push_channel (stream : Stream) (r : RecvStream) :
    (r.push stream).channel = r.channel.put stream stream.fin := rfl

/-- Under an id that the table does not have, a stream of the peer opens. -/
theorem demux_arrive {stream : Stream} (hvacant : e.recvStreams.lookup stream.id = none)
    (hother : e.isServer ≠ stream.id.serverInitiated) :
    Demux.step e.tables.fresh e.tables.demux (.item stream.id stream stream.fin) =
      some (e.arrive stream).tables.demux := by
  have hchannel : ((RecvStream.new stream.id false .routed).push stream).channel =
      .first stream.id stream stream.fin := rfl
  have hfresh : e.tables.fresh stream.id = true := Tables.fresh_iff.mpr hother
  have hlookup : e.tables.demux.table.lookup stream.id = none := hvacant
  simp only [Demux.step, hlookup, hfresh, if_true]
  simp [tables, arrive, hchannel]

theorem tables_receives {frame : Frame} (h : e.Receives frame e') :
    e.tables.Next frame.stream? e'.tables := by
  cases h with
  | @ignored stream hvacant hown =>
      refine .event (.item stream.id stream stream.fin) rfl (by rintro _ ⟨⟩; rfl) ?_
      have hfresh : e.tables.fresh stream.id = false := Tables.not_fresh_iff.mpr hown
      have hlookup : e.tables.demux.table.lookup stream.id = none := hvacant
      simp only [Demux.step, hlookup, hfresh, Bool.false_eq_true, if_false]
      rfl
  | @uni stream hvacant hother hdir =>
      exact .event (.item stream.id stream stream.fin) rfl (by rintro _ ⟨⟩; rfl)
        (demux_arrive hvacant hother)
  | bi hvacant hother hdir =>
      have hnext := Tables.Next.arrive (t := e.tables) hvacant hother (demux_arrive hvacant hother)
      simpa [tables, arrive, SendStream.new, Frame.stream?] using hnext
  | @routed stream i hlookup =>
      refine .event (.item stream.id stream stream.fin) rfl (by rintro _ ⟨⟩; rfl) ?_
      simp only [Demux.step, tables, hlookup, map_modify _ (push_channel stream)]
  | @reset reset =>
      obtain ⟨demux, hdemux, htables⟩ := tables_removeRecv (e := e) reset.id
        (f := RecvStream.pushReset reset) fun _ => rfl
      rw [htables]
      exact .event (.close reset.id) rfl (by rintro _ ⟨⟩) hdemux
  | @stop stop i hlookup =>
      have hids := map_modify_of_eq (f := SendStream.id)
        (g := fun s => { s with inboundStopped := s.inboundStopped ++ [stop] }) (fun _ => rfl)
        e.sends i
      simp only [tables, hids]
      exact .same
  | stopped => exact .same
  | close => exact .same

theorem tables_create {k : Nat} (hstep : e.create k = some e') :
    e.tables.Next none e'.tables := by
  have hids {i : Nat} {s : SendStream} (hs : e.sends[i]? = some s) :
      (e.sends.set i { s with held := true }).map SendStream.id = e.sends.map SendStream.id :=
    map_set_of_eq hs rfl
  rcases create_cases hstep with ⟨i, s, hk, hs, rfl⟩ | ⟨i, j, s, hk, hs, rfl⟩
  · simp only [tables, hids hs]
    exact .leave (t := e.tables) k
  · have hchannels := map_modify_of_eq (f := RecvStream.channel)
      (g := fun r => { r with held := true }) (fun _ => rfl) e.recvs j
    simp only [tables, hids hs, hchannels]
    exact .create (t := e.tables) hk (by simp [tables, hs])

theorem tables_turn {act : Act} (hstep : e.turn act = some e') :
    e.tables.Next act.stream? e'.tables := by
  cases act with
  | message m =>
      cases m with
      | binary data =>
          simp only [turn, recvMessage] at hstep
          split at hstep
          · obtain rfl := Option.some.inj hstep
            exact .same
          · cases hstep
          · next frame hdecode =>
              split at hstep
              · next hrecv =>
                  obtain rfl := Option.some.inj hstep
                  have hnext := tables_receives (recvFrame_ok hrecv)
                  have harrived : Act.stream? (.message (.binary data)) = frame.stream? := by
                    simp only [Act.stream?, Message.stream?, hdecode]
                    cases frame <;> rfl
                  rwa [harrived]
              · obtain rfl := Option.some.inj hstep
                exact .same
              · cases hstep
      | _ =>
          obtain rfl := Option.some.inj hstep
          exact .same
  | createUni =>
      simp only [turn] at hstep
      split at hstep
      · obtain rfl := Option.some.inj hstep
        exact .same
      · cases hstep
  | createBi =>
      simp only [turn] at hstep
      split at hstep
      · next id i j rest hqueue =>
          obtain rfl := Option.some.inj hstep
          have hchannels := map_modify (f := RecvStream.channel)
            (g := fun r => { r with status := .routed }) Demux.Channel.register (fun _ => rfl)
            e.recvs j
          simp only [tables, hchannels]
          exact .register (t := e.tables) hqueue
      · cases hstep
  | priority =>
      simp only [turn] at hstep
      split at hstep
      · next frame rest hqueue =>
          obtain rfl := Option.some.inj hstep
          exact tables_sendFrame (e := { e with outboundPriority := rest }) frame
      · cases hstep
  | outbound =>
      simp only [turn] at hstep
      split at hstep
      · next frame rest hqueue =>
          obtain rfl := Option.some.inj hstep
          exact tables_sendFrame (e := { e with outbound := rest }) frame
      · cases hstep
  | closed =>
      obtain ⟨error, -, rfl⟩ := Option.map_eq_some_iff.mp hstep
      exact .same
  | lost =>
      obtain rfl := Option.some.inj hstep
      exact .same
  | _ => cases hstep

theorem tables_step {act : Act} (hstep : e.step act = some e') :
    e.tables.Next act.stream? e'.tables := by
  have hturn (hstep : (if e.running then e.turn act else none) = some e') :
      e.tables.Next act.stream? e'.tables := by
    split at hstep
    · exact tables_turn hstep
    · cases hstep
  have hhold (j : Nat) := map_modify_of_eq (f := RecvStream.channel)
    (g := fun r => { r with held := true }) (fun _ => rfl) e.recvs j
  cases act with
  | send i op =>
      obtain ⟨s, s', output, hs, -, hop, rfl⟩ := callSend_eq hstep
      rw [tables_call hs (SendOp.effect hop)]
      exact .same
  | recv i op =>
      obtain ⟨r, r', output, hr, heffect, rfl⟩ := callRecv_eq hstep
      simp only [tables, emit, map_set_of_eq hr heffect.channel]
      exact .same
  | openUni =>
      obtain ⟨id, hid, hstep⟩ := Option.bind_eq_some_iff.mp hstep
      obtain rfl := Option.some.inj hstep
      have hnext := Tables.Next.openUni (t := e.tables) hid
      simpa [tables, SendStream.new, Act.stream?] using hnext
  | openBi =>
      obtain ⟨id, hid, hstep⟩ := Option.bind_eq_some_iff.mp hstep
      obtain rfl := Option.some.inj hstep
      have hnext := Tables.Next.openBi (t := e.tables) hid
      simpa [tables, SendStream.new, RecvStream.new, RecvStream.channel, Demux.Channel.make,
        Act.stream?] using hnext
  | cancelOpen k =>
      obtain ⟨opening, -, hstep⟩ := Option.bind_eq_some_iff.mp hstep
      rw [tables_dropSend hstep]
      exact .leave k
  | create k => exact tables_create hstep
  | acceptUni =>
      simp only [step, acceptUniStream] at hstep
      split at hstep
      · split at hstep
        · obtain rfl := Option.some.inj hstep
          simp only [tables, hold, hhold]
          exact .same
        · cases hstep
      · cases hstep
  | acceptBi =>
      simp only [step, acceptBiStream] at hstep
      split at hstep
      · next i j rest hqueue =>
          split at hstep
          · obtain rfl := Option.some.inj hstep
            have hids := map_modify_of_eq (f := SendStream.id)
              (g := fun s => { s with held := true }) (fun _ => rfl) e.sends i
            simp only [tables, hold, hhold, hids]
            exact .same
          · cases hstep
      · cases hstep
  | discard =>
      simp only [step, discard] at hstep
      split at hstep
      · split at hstep
        · cases hstep
        · rw [tables_dropSend hstep]
          exact .same
      · cases hstep
  | dropSession =>
      obtain rfl := Option.some.inj hstep
      exact .same
  | close code reason =>
      obtain rfl := Option.some.inj hstep
      exact .same
  | spawned k =>
      obtain ⟨frame, -, hstep⟩ := Option.bind_eq_some_iff.mp hstep
      split at hstep
      · obtain rfl := Option.some.inj hstep
        exact .same
      · obtain rfl := Option.some.inj hstep
        exact .same
      · cases hstep
  | message m => exact hturn hstep
  | createUni => exact hturn hstep
  | createBi => exact hturn hstep
  | priority => exact hturn hstep
  | outbound => exact hturn hstep
  | closed => exact hturn hstep
  | lost => exact hturn hstep

end Endpoint

namespace Tables

/-- The streams that are to be registered. -/
def waiting (t : Tables) : List Nat :=
  t.opening.filterMap Opening.recv? ++ t.createBi.map fun entry => entry.2.2

/-- Own ids come from the counters, each of them once. -/
structure Own (t : Tables) : Prop where
  inv : Demux.Inv t.fresh t.demux
  uni_le : t.createUniId ≤ 2 ^ 60
  bi_le : t.createBiId ≤ 2 ^ 60
  channels : ∀ c ∈ t.demux.channels, c.key.serverInitiated = t.isServer →
    ∃ n < t.createBiId, StreamId.new n .bi t.isServer = some c.key
  sends : ∀ id ∈ t.sendIds, id.serverInitiated = t.isServer →
    (∃ n < t.createUniId, StreamId.new n .uni t.isServer = some id) ∨
    ∃ n < t.createBiId, StreamId.new n .bi t.isServer = some id
  unique : ∀ (i j : Nat) id, t.sendIds[i]? = some id → t.sendIds[j]? = some id →
    id.serverInitiated = t.isServer → i = j
  waits : ∀ j ∈ t.waiting, ∃ c, t.demux.channels[j]? = some c ∧ c.status = .queued
  nodup : t.waiting.Nodup
  creating : ∀ entry ∈ t.createBi, ∃ c,
    t.demux.channels[entry.2.2]? = some c ∧ c.key = entry.1
  opening : ∀ i j, .bi i j ∈ t.opening → ∃ c,
    t.demux.channels[j]? = some c ∧ t.sendIds[i]? = some c.key

variable {t t' : Tables} {arrived : Option Stream}

theorem own_new (isServer : Bool) : Own (Endpoint.new isServer).tables := by
  have hinv : Demux.Inv (Endpoint.new isServer).tables.fresh
      (Demux.State.empty : Demux.State StreamId Stream) := Demux.inv_empty
  constructor
  · exact hinv
  all_goals simp [Endpoint.tables, Endpoint.new, waiting]

/-- A number that has an id is below the limit. -/
theorem lt_of_new {n : Nat} {dir : StreamDir} {isServer : Bool} {id : StreamId} (hn : n ≤ 2 ^ 60)
    (h : StreamId.new n dir isServer = some id) : n < 2 ^ 60 := by
  have hlt := (StreamId.new_eq_some_iff.mp h).1
  omega

/-- The next number has an id that no other number below it has. -/
theorem ne_of_new {n m : Nat} {dir dir' : StreamDir} {isServer : Bool} {id id' : StreamId}
    (hn : n ≤ 2 ^ 60) (hm : m ≤ 2 ^ 60) (hne : dir = dir' → m ≠ n)
    (h : StreamId.new n dir isServer = some id) (h' : StreamId.new m dir' isServer = some id') :
    id' ≠ id := by
  rintro rfl
  obtain ⟨heq, hdir, -⟩ := StreamId.new_injective (by omega) (by omega) h h'
  exact hne hdir heq.symm

theorem Own.fresh_uni (h : Own t) {id : StreamId}
    (hid : StreamId.new t.createUniId .uni t.isServer = some id) : id ∉ t.sendIds := by
  intro hmem
  have hle := h.uni_le
  have hle' := h.bi_le
  rcases h.sends id hmem (StreamId.serverInitiated_new hid) with ⟨n, hn, hnew⟩ | ⟨n, hn, hnew⟩
  · exact ne_of_new hle (by omega) (fun _ => by omega) hid hnew rfl
  · exact ne_of_new hle (by omega) (by simp) hid hnew rfl

theorem Own.fresh_bi (h : Own t) {id : StreamId}
    (hid : StreamId.new t.createBiId .bi t.isServer = some id) : id ∉ t.sendIds := by
  intro hmem
  have hle := h.uni_le
  have hle' := h.bi_le
  rcases h.sends id hmem (StreamId.serverInitiated_new hid) with ⟨n, hn, hnew⟩ | ⟨n, hn, hnew⟩
  · exact ne_of_new hle' (by omega) (by simp) hid hnew rfl
  · exact ne_of_new hle' (by omega) (fun _ => by omega) hid hnew rfl

theorem Own.fresh_channel (h : Own t) {id : StreamId}
    (hid : StreamId.new t.createBiId .bi t.isServer = some id) :
    ∀ c ∈ t.demux.channels, c.key ≠ id := by
  rintro c hc rfl
  have hle := h.bi_le
  obtain ⟨n, hn, hnew⟩ := h.channels c hc (StreamId.serverInitiated_new hid)
  exact ne_of_new hle (by omega) (fun _ => by omega) hid hnew rfl

theorem unique_concat {ids : List StreamId} {id : StreamId} {own : StreamId → Prop}
    (hids : ∀ (i j : Nat) id, ids[i]? = some id → ids[j]? = some id → own id → i = j)
    (hnew : own id → id ∉ ids) : ∀ (i j : Nat) id', (ids ++ [id])[i]? = some id' →
      (ids ++ [id])[j]? = some id' → own id' → i = j := by
  intro i j id' hi hj hown
  rcases getElem?_concat_iff.mp hi with hi | ⟨rfl, rfl⟩
  · rcases getElem?_concat_iff.mp hj with hj | ⟨rfl, rfl⟩
    · exact hids i j id' hi hj hown
    · exact absurd (List.mem_of_getElem? hi) (hnew hown)
  · rcases getElem?_concat_iff.mp hj with hj | ⟨rfl, -⟩
    · exact absurd (List.mem_of_getElem? hj) (hnew hown)
    · rfl

/-- A step of the demultiplexer leaves what waits alone. -/
theorem Own.arrives (h : Own t) (ev : Demux.Event StreamId Stream)
    {demux : Demux.State StreamId Stream} (harrives : ev.arrives = true)
    (hdemux : Demux.step t.fresh t.demux ev = some demux) :
    Own { t with demux, events := t.events ++ [ev] } := by
  have hkept {j : Nat} {c : Demux.Channel StreamId Stream} (hj : t.demux.channels[j]? = some c) :=
    Demux.channel_arrives h.inv harrives hdemux hj
  refine { h with
    inv := Demux.inv_step h.inv hdemux
    channels := ?_
    waits := ?_
    creating := ?_
    opening := ?_ }
  · intro c' hc' hown
    rcases Demux.key_arrives harrives hdemux hc' with ⟨c, hc, hkey⟩ | hfresh
    · rw [← hkey] at hown ⊢
      exact h.channels c hc hown
    · exact absurd hown.symm (fresh_iff.mp hfresh)
  · intro j hj
    obtain ⟨c, hc, hqueued⟩ := h.waits j hj
    obtain ⟨c', hc', -, hsame⟩ := hkept hc
    exact ⟨c', hc', by rw [hsame hqueued]; exact hqueued⟩
  · intro entry hentry
    obtain ⟨c, hc, hkey⟩ := h.creating entry hentry
    obtain ⟨c', hc', hkey', -⟩ := hkept hc
    exact ⟨c', hc', hkey'.trans hkey⟩
  · intro i j hij
    obtain ⟨c, hc, hid⟩ := h.opening i j hij
    obtain ⟨c', hc', hkey', -⟩ := hkept hc
    exact ⟨c', hc', by rw [hkey']; exact hid⟩

/-- What waits is registered as the demultiplexer allows it. -/
theorem Own.demux_register (h : Own t) {i j : Nat} {id : StreamId}
    {rest : List (StreamId × Nat × Nat)} (hqueue : t.createBi = (id, i, j) :: rest) :
    Demux.step t.fresh t.demux (.register id j) = some
      ⟨t.demux.channels.modify j Demux.Channel.register, t.demux.table.insert id j⟩ := by
  obtain ⟨c, hc, hkey⟩ := h.creating (id, i, j) (by simp [hqueue])
  obtain ⟨d, hd, hqueued⟩ := h.waits j (by simp [waiting, hqueue])
  obtain rfl : c = d := Option.some.inj (hc.symm.trans hd)
  have hset : t.demux.channels.modify j Demux.Channel.register =
      t.demux.channels.set j c.register := by
    rw [List.modify_eq_set_getElem?, hc]
    rfl
  simp only [Demux.step, hc]
  rw [if_pos ⟨hkey, hqueued⟩, hset]

theorem Own.demux_make (h : Own t) {id : StreamId}
    (hid : StreamId.new t.createBiId .bi t.isServer = some id) :
    Demux.step t.fresh t.demux (.make id) =
      some { t.demux with channels := t.demux.channels ++ [.make id] } := by
  have hfresh : t.fresh id = false := not_fresh_iff.mpr (StreamId.serverInitiated_new hid).symm
  have hnone : ¬ (t.fresh id = true ∨ ∃ c ∈ t.demux.channels, c.key = id) := by
    rintro (hf | ⟨c, hc, hkey⟩)
    · rw [hfresh] at hf
      cases hf
    · exact h.fresh_channel hid c hc hkey
  simp only [Demux.step]
  rw [if_neg hnone]

theorem Own.openUni (h : Own t) {id : StreamId}
    (hid : StreamId.new t.createUniId .uni t.isServer = some id) :
    Own { t with
      createUniId := t.createUniId + 1
      sendIds := t.sendIds ++ [id]
      opening := t.opening ++ [.uni t.sendIds.length] } := by
  have hlt := lt_of_new h.uni_le hid
  have hwaiting : ({ t with
      createUniId := t.createUniId + 1
      sendIds := t.sendIds ++ [id]
      opening := t.opening ++ [.uni t.sendIds.length] } : Tables).waiting = t.waiting := by
    simp [waiting, Opening.recv?]
  refine { h with
    uni_le := hlt
    sends := ?_
    unique := unique_concat h.unique fun _ => h.fresh_uni hid
    waits := by rw [hwaiting]; exact h.waits
    nodup := by rw [hwaiting]; exact h.nodup
    opening := ?_ }
  · refine forall_mem_concat ?_ fun _ => .inl ⟨t.createUniId, Nat.lt_succ_self _, hid⟩
    intro id' hid' hown
    rcases h.sends id' hid' hown with ⟨n, hn, hnew⟩ | hbi
    · exact .inl ⟨n, Nat.lt_succ_of_lt hn, hnew⟩
    · exact .inr hbi
  · intro i j hij
    obtain ⟨c, hc, hkey⟩ := h.opening i j (by simpa using hij)
    exact ⟨c, hc, getElem?_concat_iff.mpr (.inl hkey)⟩

theorem Own.openBi (h : Own t) {id : StreamId}
    (hid : StreamId.new t.createBiId .bi t.isServer = some id) :
    Own { t with
      createBiId := t.createBiId + 1
      sendIds := t.sendIds ++ [id]
      demux := { t.demux with channels := t.demux.channels ++ [.make id] }
      opening := t.opening ++ [.bi t.sendIds.length t.demux.channels.length]
      events := t.events ++ [.make id] } := by
  have hlt := lt_of_new h.bi_le hid
  have hold {j : Nat} {c : Demux.Channel StreamId Stream} (hj : t.demux.channels[j]? = some c) :
      (t.demux.channels ++ [.make id])[j]? = some c := getElem?_concat_iff.mpr (.inl hj)
  have hnew : (t.demux.channels ++ [.make id])[t.demux.channels.length]? =
      some (.make id : Demux.Channel StreamId Stream) := by simp
  have hwaiting : ({ t with
      createBiId := t.createBiId + 1
      sendIds := t.sendIds ++ [id]
      demux := { t.demux with channels := t.demux.channels ++ [.make id] }
      opening := t.opening ++ [.bi t.sendIds.length t.demux.channels.length]
      events := t.events ++ [.make id] } : Tables).waiting =
      t.opening.filterMap Opening.recv? ++
        t.demux.channels.length :: t.createBi.map fun x => x.2.2 := by
    simp [waiting, Opening.recv?]
  have hwaits (j : Nat) (hj : j ∈ t.waiting) : j < t.demux.channels.length := by
    obtain ⟨c, hc, -⟩ := h.waits j hj
    exact (List.getElem?_eq_some_iff.mp hc).1
  refine { h with
    inv := Demux.inv_step h.inv (h.demux_make hid)
    bi_le := hlt
    channels := ?_
    sends := ?_
    unique := unique_concat h.unique fun _ => h.fresh_bi hid
    waits := ?_
    nodup := ?_
    creating := ?_
    opening := ?_ }
  · refine forall_mem_concat ?_ fun _ => ⟨t.createBiId, Nat.lt_succ_self _, hid⟩
    intro c hc hown
    obtain ⟨n, hn, hnew⟩ := h.channels c hc hown
    exact ⟨n, Nat.lt_succ_of_lt hn, hnew⟩
  · refine forall_mem_concat ?_ fun _ => .inr ⟨t.createBiId, Nat.lt_succ_self _, hid⟩
    intro id' hid' hown
    rcases h.sends id' hid' hown with huni | ⟨n, hn, hnew⟩
    · exact .inl huni
    · exact .inr ⟨n, Nat.lt_succ_of_lt hn, hnew⟩
  · rw [hwaiting]
    intro j hj
    simp only [List.mem_append, List.mem_cons] at hj
    rcases hj with hj | rfl | hj
    · obtain ⟨c, hc, hqueued⟩ := h.waits j (by simp [waiting, hj])
      exact ⟨c, hold hc, hqueued⟩
    · exact ⟨_, hnew, rfl⟩
    · obtain ⟨c, hc, hqueued⟩ := h.waits j (by simp only [waiting, List.mem_append]; exact .inr hj)
      exact ⟨c, hold hc, hqueued⟩
  · rw [hwaiting, List.perm_middle.nodup_iff, List.nodup_cons]
    exact ⟨fun hmem => Nat.lt_irrefl _ (hwaits _ hmem), h.nodup⟩
  · intro entry hentry
    obtain ⟨c, hc, hkey⟩ := h.creating entry hentry
    exact ⟨c, hold hc, hkey⟩
  · intro i j hij
    rcases List.mem_append.mp hij with hij | hij
    · obtain ⟨c, hc, hkey⟩ := h.opening i j hij
      exact ⟨c, hold hc, getElem?_concat_iff.mpr (.inl hkey)⟩
    · simp only [List.mem_singleton, Opening.bi.injEq] at hij
      obtain ⟨rfl, rfl⟩ := hij
      exact ⟨_, hnew, by simp [Demux.Channel.make]⟩

theorem Own.leave (h : Own t) (k : Nat) : Own { t with opening := t.opening.eraseIdx k } := by
  have hsub : ({ t with opening := t.opening.eraseIdx k } : Tables).waiting.Sublist t.waiting :=
    ((List.eraseIdx_sublist t.opening k).filterMap Opening.recv?).append (List.Sublist.refl _)
  exact { h with
    waits := fun j hj => h.waits j (hsub.subset hj)
    nodup := h.nodup.sublist hsub
    opening := fun i j hij => h.opening i j (List.mem_of_mem_eraseIdx hij) }

theorem Own.create (h : Own t) {k i j : Nat} {id : StreamId} (hk : t.opening[k]? = some (.bi i j))
    (hid : t.sendIds[i]? = some id) :
    Own { t with
      opening := t.opening.eraseIdx k
      createBi := t.createBi ++ [(id, i, j)] } := by
  obtain ⟨hlt, hget⟩ := List.getElem?_eq_some_iff.mp hk
  have hopening : (t.opening.filterMap Opening.recv?).Perm
      (j :: (t.opening.eraseIdx k).filterMap Opening.recv?) := by
    have hperm := (List.getElem_cons_eraseIdx_perm hlt).symm.filterMap Opening.recv?
    have hrecv : (Opening.bi i j).recv? = some j := rfl
    rwa [hget, List.filterMap_cons_some hrecv] at hperm
  have hperm : t.waiting.Perm ({ t with
      opening := t.opening.eraseIdx k
      createBi := t.createBi ++ [(id, i, j)] } : Tables).waiting := by
    simp only [waiting, List.map_append, List.map_cons, List.map_nil, ← List.append_assoc]
    refine (hopening.append_right _).trans ?_
    exact (List.perm_append_singleton j _).symm
  refine { h with
    waits := fun j hj => h.waits j (hperm.mem_iff.mpr hj)
    nodup := hperm.nodup_iff.mp h.nodup
    creating := forall_mem_concat h.creating ?_
    opening := fun i j hij => h.opening i j (List.mem_of_mem_eraseIdx hij) }
  obtain ⟨c, hc, hkey⟩ := h.opening i j (List.mem_of_getElem? hk)
  exact ⟨c, hc, Option.some.inj (hkey.symm.trans hid)⟩

theorem Own.register (h : Own t) {i j : Nat} {id : StreamId}
    {rest : List (StreamId × Nat × Nat)} (hqueue : t.createBi = (id, i, j) :: rest) :
    Own { t with
      createBi := rest
      demux := ⟨t.demux.channels.modify j Demux.Channel.register, t.demux.table.insert id j⟩
      events := t.events ++ [.register id j] } := by
  have hwaiting : t.waiting.Perm (j :: ({ t with createBi := rest } : Tables).waiting) := by
    simp only [waiting, hqueue, List.map_cons]
    exact List.perm_middle
  have hnodup := List.nodup_cons.mp (hwaiting.nodup_iff.mp h.nodup)
  have hget {j' : Nat} {c : Demux.Channel StreamId Stream}
      (hj' : t.demux.channels[j']? = some c) :
      ∃ c', (t.demux.channels.modify j Demux.Channel.register)[j']? = some c' ∧
        c'.key = c.key ∧ (j ≠ j' → c' = c) := by
    rw [List.getElem?_modify, hj']
    by_cases hjj : j = j'
    · exact ⟨c.register, by simp [hjj], rfl, fun hne => absurd hjj hne⟩
    · exact ⟨c, by simp [hjj], rfl, fun _ => rfl⟩
  refine { h with
    inv := Demux.inv_step h.inv (h.demux_register hqueue)
    channels := ?_
    waits := ?_
    nodup := hnodup.2
    creating := ?_
    opening := ?_ }
  · intro c' hc' hown
    obtain ⟨j', hj'⟩ := List.mem_iff_getElem?.mp hc'
    rw [List.getElem?_modify] at hj'
    obtain ⟨c, hc, rfl⟩ := Option.map_eq_some_iff.mp hj'
    have hkey : (if j = j' then Demux.Channel.register c else c).key = c.key := by
      split <;> rfl
    rw [hkey] at hown ⊢
    exact h.channels c (List.mem_of_getElem? hc) hown
  · intro j' hj'
    obtain ⟨c, hc, hqueued⟩ := h.waits j' (hwaiting.mem_iff.mpr (List.mem_cons_of_mem _ hj'))
    obtain ⟨c', hc', -, hsame⟩ := hget hc
    refine ⟨c', hc', ?_⟩
    rw [hsame]
    · exact hqueued
    · rintro rfl
      exact hnodup.1 hj'
  · intro entry hentry
    obtain ⟨c, hc, hkey⟩ := h.creating entry (by rw [hqueue]; exact List.mem_cons_of_mem _ hentry)
    obtain ⟨c', hc', hkey', -⟩ := hget hc
    exact ⟨c', hc', hkey'.trans hkey⟩
  · intro i' j' hij
    obtain ⟨c, hc, hid⟩ := h.opening i' j' hij
    obtain ⟨c', hc', hkey', -⟩ := hget hc
    exact ⟨c', hc', by rw [hkey']; exact hid⟩

theorem Own.next (h : Own t) (hnext : t.Next arrived t') : Own t' := by
  cases hnext with
  | same => exact h
  | openUni hid => exact h.openUni hid
  | openBi hid => exact h.openBi hid
  | leave k => exact h.leave k
  | create hk hid => exact h.create hk hid
  | register hqueue => exact h.register hqueue
  | event ev harrives hitem hdemux => exact h.arrives ev harrives hdemux
  | @arrive stream demux hvacant hother hdemux =>
      have harrives := h.arrives (.item stream.id stream stream.fin) rfl hdemux
      refine { harrives with
        sends := forall_mem_concat h.sends fun hown => absurd hown.symm hother
        unique := unique_concat h.unique fun hown => absurd hown.symm hother
        opening := ?_ }
      intro i j hij
      obtain ⟨c, hc, hkey⟩ := harrives.opening i j hij
      exact ⟨c, hc, getElem?_concat_iff.mpr (.inl hkey)⟩

/-- The stream frames that have arrived and were not refused. -/
def items (t : Tables) : List Stream := t.events.filterMap Demux.Event.item?

theorem items_next (hnext : t.Next arrived t') :
    t'.items = t.items ++ arrived.toList ∨ t' = t := by
  cases hnext with
  | same => exact .inr rfl
  | openUni hid => exact .inl (by simp [items])
  | openBi hid => exact .inl (by simp [items, Demux.Event.item?])
  | leave k => exact .inl (by simp [items])
  | create hk hid => exact .inl (by simp [items])
  | register hqueue => exact .inl (by simp [items, Demux.Event.item?])
  | @event ev demux harrives hkey hdemux =>
      refine .inl ?_
      cases hitem : ev.item? <;> simp [items, hitem]
  | arrive hvacant hother hdemux => exact .inl (by simp [items, Demux.Event.item?])

/-- A frame arrives under its own id. -/
theorem keyed_next (hnext : t.Next arrived t')
    (hevents : ∀ ev ∈ t.events, ∀ stream ∈ ev.item?, ev = .item stream.id stream stream.fin) :
    ∀ ev ∈ t'.events, ∀ stream ∈ ev.item?, ev = .item stream.id stream stream.fin := by
  cases hnext with
  | same => exact hevents
  | openUni hid => exact hevents
  | openBi hid => exact forall_mem_concat hevents (by rintro _ ⟨⟩)
  | leave k => exact hevents
  | create hk hid => exact hevents
  | register hqueue => exact forall_mem_concat hevents (by rintro _ ⟨⟩)
  | event ev harrives hitem hdemux => exact forall_mem_concat hevents hitem
  | arrive hvacant hother hdemux => exact forall_mem_concat hevents (by rintro _ ⟨⟩; rfl)

/-- The frames that arrived under an id, among the events of the id. -/
theorem items_filter {events : List (Demux.Event StreamId Stream)}
    (hkeyed : ∀ ev ∈ events, ∀ stream ∈ ev.item?, ev = .item stream.id stream stream.fin)
    (id : StreamId) : (events.filter (·.key = id)).filterMap Demux.Event.item? =
      (events.filterMap Demux.Event.item?).filter (·.id = id) := by
  induction events with
  | nil => rfl
  | cons ev events ih =>
      obtain ⟨hev, hevents⟩ := List.forall_mem_cons.mp hkeyed
      cases hitem : ev.item? with
      | none =>
          rw [List.filterMap_cons_none hitem, ← ih hevents, List.filter_cons]
          split
          · exact List.filterMap_cons_none hitem
          · rfl
      | some stream =>
          have hkey : ev.key = stream.id := by
            rw [hev stream hitem]
            rfl
          rw [List.filterMap_cons_some hitem, List.filter_cons, List.filter_cons, hkey,
            ← ih hevents]
          split
          · exact List.filterMap_cons_some hitem
          · rfl

/-- Nothing but arriving happens under the ids of the peer. -/
theorem Own.arrives_of_fresh (h : Own t) (hnext : t.Next arrived t')
    (hevents : ∀ ev ∈ t.events, t.fresh ev.key = true → ev.arrives = true) :
    ∀ ev ∈ t'.events, t'.fresh ev.key = true → ev.arrives = true := by
  cases hnext with
  | same => exact hevents
  | openUni hid => exact hevents
  | openBi hid =>
      refine forall_mem_concat hevents fun hfresh => ?_
      exact absurd (StreamId.serverInitiated_new hid).symm (fresh_iff.mp hfresh)
  | leave k => exact hevents
  | create hk hid => exact hevents
  | @register i j id rest hqueue =>
      refine forall_mem_concat hevents fun hfresh => ?_
      obtain ⟨c, hc, hkey⟩ := h.creating (id, i, j) (by simp [hqueue])
      obtain ⟨d, hd, hqueued⟩ := h.waits j (by simp [waiting, hqueue])
      obtain rfl : c = d := Option.some.inj (hc.symm.trans hd)
      have hown := h.inv.queued c (List.mem_of_getElem? hc) hqueued
      rw [hkey] at hown
      exact absurd hfresh (by simpa [Demux.Event.key, fresh] using hown)
  | event ev harrives hitem hdemux => exact forall_mem_concat hevents fun _ => harrives
  | arrive hvacant hother hdemux => exact forall_mem_concat hevents fun _ => rfl

theorem isServer_next (hnext : t.Next arrived t') : t'.isServer = t.isServer := by
  cases hnext <;> rfl

/-- The streams of each id have what the events of that id give them. -/
def Traced (t : Tables) : Prop :=
  ∀ id, t.demux.lane id =
    (t.events.filter (·.key = id)).foldl (Demux.laneStep (t.fresh id)) []

theorem Traced.event (h : Traced t) (hown : Own t) {ev : Demux.Event StreamId Stream}
    {demux : Demux.State StreamId Stream} (hdemux : Demux.step t.fresh t.demux ev = some demux)
    (id : StreamId) : demux.lane id =
      ((t.events ++ [ev]).filter (·.key = id)).foldl (Demux.laneStep (t.fresh id)) [] := by
  rw [Demux.lane_step hown.inv hdemux, List.filter_append, List.foldl_append, ← h id]
  by_cases hid : ev.key = id
  · simp [hid]
  · simp [hid]

theorem Traced.next (h : Traced t) (hown : Own t) (hnext : t.Next arrived t') : Traced t' := by
  cases hnext with
  | same => exact h
  | openUni hid => exact h
  | openBi hid => exact fun id => h.event hown (hown.demux_make hid) id
  | leave k => exact h
  | create hk hid => exact h
  | register hqueue => exact fun id => h.event hown (hown.demux_register hqueue) id
  | event ev harrives hitem hdemux => exact fun id => h.event hown hdemux id
  | arrive hvacant hother hdemux => exact fun id => h.event hown hdemux id

/-- A stream of the peer that can be written was opened by one that is read. -/
def Counted (t : Tables) : Prop :=
  ∀ id, t.fresh id = true → t.sendIds.count id ≤ (t.demux.lane id).length

theorem Counted.next (h : Counted t) (hown : Own t) (hnext : t.Next arrived t') : Counted t' := by
  have hgrow {ev : Demux.Event StreamId Stream} {demux : Demux.State StreamId Stream}
      (hdemux : Demux.step t.fresh t.demux ev = some demux) (id : StreamId) :
      (t.demux.lane id).length ≤ (demux.lane id).length := by
    rw [Demux.lane_step hown.inv hdemux]
    split
    · exact Demux.length_laneStep _ _ _
    · exact Nat.le_refl _
  have hopened {id : StreamId} (hid : id.serverInitiated = t.isServer) {id' : StreamId}
      (hfresh : t.fresh id' = true) : (t.sendIds ++ [id]).count id' = t.sendIds.count id' := by
    have hne : id ≠ id' := by
      rintro rfl
      exact fresh_iff.mp hfresh hid.symm
    simp [List.count_append, hne]
  cases hnext with
  | same => exact h
  | openUni hid =>
      intro id' hfresh
      exact (hopened (StreamId.serverInitiated_new hid) hfresh).le.trans (h id' hfresh)
  | openBi hid =>
      intro id' hfresh
      exact (hopened (StreamId.serverInitiated_new hid) hfresh).le.trans
        ((h id' hfresh).trans (hgrow (hown.demux_make hid) id'))
  | leave k => exact h
  | create hk hid => exact h
  | register hqueue =>
      exact fun id hfresh => (h id hfresh).trans (hgrow (hown.demux_register hqueue) id)
  | event ev harrives hitem hdemux => exact fun id hfresh => (h id hfresh).trans (hgrow hdemux id)
  | @arrive stream demux hvacant hother hdemux =>
      intro id hfresh
      change (t.sendIds ++ [stream.id]).count id ≤ (demux.lane id).length
      rw [List.count_append]
      have hold := h id hfresh
      by_cases hid : stream.id = id
      · subst hid
        have hshut := Demux.any_routed_of_vacant hown.inv hvacant
        have hfresh : t.fresh stream.id = true := hfresh
        have hlane : demux.lane stream.id =
            t.demux.lane stream.id ++ [.first stream.id stream stream.fin] := by
          rw [Demux.lane_step hown.inv hdemux]
          simp only [Demux.Event.key, if_true, Demux.laneStep, hfresh]
          rw [if_neg (by simp [hshut])]
        rw [hlane]
        simpa using hold
      · have hmono := hgrow hdemux id
        have hnone : ([stream.id] : List StreamId).count id = 0 := by simp [hid]
        omega

/-- What has happened under an own id: the stream is made, registered, and
filled, in this order. -/
inductive Shape (id : StreamId) : List (Demux.Event StreamId Stream) → Prop where
  | unmade (xs : List Stream) : Shape id (Demux.arrivals id Stream.fin xs)
  | made (xs : List Stream) : Shape id (.make id :: Demux.arrivals id Stream.fin xs)
  | registered (j : Nat) (xs : List Stream) :
      Shape id (.make id :: .register id j :: Demux.arrivals id Stream.fin xs)

def Shaped (t : Tables) : Prop :=
  ∀ id, t.fresh id = false → Shape id (t.events.filter (·.key = id))

theorem Shape.item {id : StreamId} {events : List (Demux.Event StreamId Stream)}
    (h : Shape id events) (stream : Stream) :
    Shape id (events ++ [.item id stream stream.fin]) := by
  have hconcat (xs : List Stream) : Demux.arrivals id Stream.fin xs ++
      [.item id stream stream.fin] = Demux.arrivals id Stream.fin (xs ++ [stream]) := by
    simp [Demux.arrivals]
  cases h with
  | unmade xs =>
      rw [hconcat]
      exact .unmade _
  | made xs =>
      rw [List.cons_append, hconcat]
      exact .made _
  | registered j xs =>
      rw [List.cons_append, List.cons_append, hconcat]
      exact .registered j _

theorem filterMap_arrivals (id : StreamId) (xs : List Stream) :
    (Demux.arrivals id Stream.fin xs).filterMap Demux.Event.item? = xs := by
  induction xs with
  | nil => rfl
  | cons x xs ih =>
      have hitem : (Demux.Event.item id x x.fin).item? = some x := rfl
      rw [Demux.arrivals, List.map_cons, List.filterMap_cons_some hitem]
      exact congrArg (x :: ·) ih

theorem Shape.eq_of_items_nil {id : StreamId} {events : List (Demux.Event StreamId Stream)}
    (h : Shape id events) (hitems : events.filterMap Demux.Event.item? = []) :
    events = [] ∨ events = [.make id] ∨ ∃ j, events = [.make id, .register id j] := by
  cases h with
  | unmade xs =>
      rw [filterMap_arrivals] at hitems
      subst hitems
      exact .inl rfl
  | made xs =>
      rw [List.filterMap_cons_none rfl, filterMap_arrivals] at hitems
      subst hitems
      exact .inr (.inl rfl)
  | registered j xs =>
      rw [List.filterMap_cons_none rfl, List.filterMap_cons_none rfl,
        filterMap_arrivals] at hitems
      subst hitems
      exact .inr (.inr ⟨j, rfl⟩)

/-- Nothing arrives for a stream before it is registered. -/
def Patient (t : Tables) : Prop :=
  ∀ id, t.fresh id = false → (id ∉ t.sendIds ∨ ∃ entry ∈ t.createBi, entry.1 = id) →
    (t.events.filter (·.key = id)).filterMap Demux.Event.item? = []

theorem Shaped.next (h : Shaped t) (hown : Own t) (htraced : Traced t) (hpatient : Patient t)
    (hcloses : ∀ ev ∈ t'.events, ∀ id, ev ≠ .close id)
    (hnext : t.Next arrived t') : Shaped t' := by
  have hother (ev : Demux.Event StreamId Stream) {id : StreamId} (hid : ev.key ≠ id) :
      (t.events ++ [ev]).filter (·.key = id) = t.events.filter (·.key = id) := by
    simp [hid]
  have hsame (ev : Demux.Event StreamId Stream) :
      (t.events ++ [ev]).filter (·.key = ev.key) =
        t.events.filter (·.key = ev.key) ++ [ev] := by
    simp
  cases hnext with
  | same => exact h
  | openUni hid => exact h
  | @openBi id hid =>
      intro id' hfresh
      change Shape id' ((t.events ++ [Demux.Event.make id]).filter (·.key = id'))
      by_cases hne : id = id'
      · subst hne
        have hlane : t.demux.lane id = [] := by
          simp only [Demux.State.lane, List.filter_eq_nil_iff, decide_eq_true_eq]
          exact hown.fresh_channel hid
        have hfold := (htraced id).symm.trans hlane
        have hitems := hpatient id hfresh (.inl (hown.fresh_bi hid))
        refine (hsame (.make id)).symm ▸ ?_
        rcases (h id hfresh).eq_of_items_nil hitems with hold | hold | ⟨j, hold⟩
        · exact hold.symm ▸ .made []
        · rw [hold] at hfold
          cases hfold
        · rw [hold] at hfold
          cases hfold
      · exact (hother (.make id) hne).symm ▸ h id' hfresh
  | leave k => exact h
  | create hk hid => exact h
  | @register i j id rest hqueue =>
      intro id' hfresh
      change Shape id' ((t.events ++ [Demux.Event.register id j]).filter (·.key = id'))
      by_cases hne : id = id'
      · subst hne
        obtain ⟨c, hc, hkey⟩ := hown.creating (id, i, j) (by simp [hqueue])
        obtain ⟨d, hd, hqueued⟩ := hown.waits j (by simp [waiting, hqueue])
        obtain rfl : c = d := Option.some.inj (hc.symm.trans hd)
        have hmem : c ∈ t.demux.lane id := by
          simp only [Demux.State.lane, List.mem_filter, decide_eq_true_eq]
          exact ⟨List.mem_of_getElem? hc, hkey⟩
        rw [htraced id] at hmem
        have hitems := hpatient id hfresh (.inr ⟨(id, i, j), by rw [hqueue]; simp, rfl⟩)
        refine (hsame (.register id j)).symm ▸ ?_
        rcases (h id hfresh).eq_of_items_nil hitems with hold | hold | ⟨i', hold⟩
        · rw [hold] at hmem
          cases hmem
        · exact hold.symm ▸ .registered j []
        · rw [hold] at hmem
          obtain rfl := List.mem_singleton.mp hmem
          cases hqueued
      · exact (hother (.register id j) hne).symm ▸ h id' hfresh
  | @event ev demux harrives hitem hdemux =>
      intro id' hfresh
      change Shape id' ((t.events ++ [ev]).filter (·.key = id'))
      by_cases hne : ev.key = id'
      · subst hne
        refine (hsame ev).symm ▸ ?_
        cases ev with
        | make k => cases harrives
        | register k i => cases harrives
        | item k x last =>
            have hx := hitem x rfl
            rw [hx] at hfresh ⊢
            exact (h x.id hfresh).item x
        | close k => exact absurd rfl (hcloses (.close k) (by simp) k)
      · exact (hother ev hne).symm ▸ h id' hfresh
  | @arrive stream demux hvacant hother' hdemux =>
      intro id' hfresh
      have hne : stream.id ≠ id' := by
        rintro rfl
        exact hother' (not_fresh_iff.mp hfresh)
      change Shape id' ((t.events ++ [Demux.Event.item stream.id stream stream.fin]).filter
        (·.key = id'))
      exact (hother (.item stream.id stream stream.fin) hne).symm ▸ h id' hfresh

/-- An own stream of both directions is read, too. -/
def Twinned (t : Tables) : Prop :=
  ∀ id ∈ t.sendIds, t.fresh id = false → id.dir = .bi → ∃ c ∈ t.demux.channels, c.key = id

theorem Twinned.next (h : Twinned t) (hown : Own t) (hnext : t.Next arrived t') : Twinned t' := by
  have harrives {ev : Demux.Event StreamId Stream} {demux : Demux.State StreamId Stream}
      (hev : ev.arrives = true) (hdemux : Demux.step t.fresh t.demux ev = some demux)
      {id : StreamId} (hc : ∃ c ∈ t.demux.channels, c.key = id) :
      ∃ c ∈ demux.channels, c.key = id := by
    obtain ⟨c, hmem, hkey⟩ := hc
    obtain ⟨j, hj⟩ := List.mem_iff_getElem?.mp hmem
    obtain ⟨c', hc', hkey', -⟩ := Demux.channel_arrives hown.inv hev hdemux hj
    exact ⟨c', List.mem_of_getElem? hc', hkey'.trans hkey⟩
  cases hnext with
  | same => exact h
  | openUni hid =>
      refine forall_mem_concat h fun _ hdir => ?_
      rw [StreamId.dir_new hid] at hdir
      cases hdir
  | @openBi id hid =>
      refine forall_mem_concat (fun id' hid' hfresh hdir => ?_) fun _ _ => ?_
      · obtain ⟨c, hc, hkey⟩ := h id' hid' hfresh hdir
        exact ⟨c, List.mem_append_left _ hc, hkey⟩
      · exact ⟨.make id, List.mem_append_right _ (List.mem_singleton_self _), rfl⟩
  | leave k => exact h
  | create hk hid => exact h
  | @register i j id rest hqueue =>
      intro id' hid' hfresh hdir
      obtain ⟨c, hc, hkey⟩ := h id' hid' hfresh hdir
      obtain ⟨k, hk⟩ := List.mem_iff_getElem?.mp hc
      refine ⟨if j = k then c.register else c, List.mem_of_getElem? (i := k) ?_, ?_⟩
      · rw [List.getElem?_modify, hk]
        rfl
      · split
        · exact hkey
        · exact hkey
  | event ev hev hitem hdemux =>
      exact fun id hid hfresh hdir => harrives hev hdemux (h id hid hfresh hdir)
  | arrive hvacant hother hdemux =>
      refine forall_mem_concat (fun id hid hfresh hdir => ?_) fun hfresh _ => ?_
      · exact harrives rfl hdemux (h id hid hfresh hdir)
      · exact absurd (not_fresh_iff.mp hfresh) hother

/-- What the streams of an id come to if none is reset or stopped. -/
inductive Lane (t : Tables) (id : StreamId) : Prop where
  | none (hlane : t.demux.lane id = [])
      (hitems : t.fresh id = true → t.items.filter (·.id = id) = [])
  | queued (hlane : t.demux.lane id = [.make id])
  | filled (status : Demux.Status)
      (hlane : t.demux.lane id = [⟨id, status, t.items.filter (·.id = id)⟩])

theorem Lane.length_le_one {id : StreamId} (h : Lane t id) : (t.demux.lane id).length ≤ 1 := by
  cases h with
  | none hlane => simp [hlane]
  | queued hlane => simp [hlane]
  | filled status hlane => simp [hlane]

/-- Without a close, what happens under an id of the peer is that frames
arrive. -/
theorem events_of_fresh {events : List (Demux.Event StreamId Stream)} {id : StreamId}
    (harrives : ∀ ev ∈ events, ev.arrives = true)
    (hkeyed : ∀ ev ∈ events, ∀ stream ∈ ev.item?, ev = .item stream.id stream stream.fin)
    (hcloses : ∀ ev ∈ events, ∀ id, ev ≠ .close id) (hkey : ∀ ev ∈ events, ev.key = id) :
    events = Demux.arrivals id Stream.fin (events.filterMap Demux.Event.item?) := by
  induction events with
  | nil => rfl
  | cons ev events ih =>
      obtain ⟨hev, harrives⟩ := List.forall_mem_cons.mp harrives
      obtain ⟨hitem, hkeyed⟩ := List.forall_mem_cons.mp hkeyed
      obtain ⟨hclose, hcloses⟩ := List.forall_mem_cons.mp hcloses
      obtain ⟨hid, hkey⟩ := List.forall_mem_cons.mp hkey
      have hrest := ih harrives hkeyed hcloses hkey
      cases ev with
      | make k => cases hev
      | register k i => cases hev
      | close k => exact absurd rfl (hclose k)
      | item k x last =>
          have hx := hitem x rfl
          have hitem? : (Demux.Event.item k x last).item? = some x := rfl
          rw [List.filterMap_cons_some hitem?, Demux.arrivals, List.map_cons]
          obtain rfl : k = id := hid
          injection hx with _ _ hlast
          rw [hlast]
          exact congrArg (_ :: ·) hrest

theorem arrivals_of_fresh
    (harrives : ∀ ev ∈ t.events, t.fresh ev.key = true → ev.arrives = true)
    (hkeyed : ∀ ev ∈ t.events, ∀ stream ∈ ev.item?, ev = .item stream.id stream stream.fin)
    (hcloses : ∀ ev ∈ t.events, ∀ id, ev ≠ .close id) {id : StreamId}
    (hfresh : t.fresh id = true) : t.events.filter (·.key = id) =
      Demux.arrivals id Stream.fin (t.items.filter (·.id = id)) := by
  have hmem {ev : Demux.Event StreamId Stream} (hev : ev ∈ t.events.filter (·.key = id)) :
      ev ∈ t.events ∧ ev.key = id := by simpa using hev
  have hitems : (t.events.filter (·.key = id)).filterMap Demux.Event.item? =
      t.items.filter (·.id = id) := items_filter hkeyed id
  rw [← hitems]
  exact events_of_fresh
    (fun ev hev => harrives ev (hmem hev).1 (by rw [(hmem hev).2]; exact hfresh))
    (fun ev hev => hkeyed ev (hmem hev).1) (fun ev hev => hcloses ev (hmem hev).1)
    (fun ev hev => (hmem hev).2)

theorem lane_cases (htraced : Traced t) (hshaped : Shaped t)
    (harrives : ∀ ev ∈ t.events, t.fresh ev.key = true → ev.arrives = true)
    (hkeyed : ∀ ev ∈ t.events, ∀ stream ∈ ev.item?, ev = .item stream.id stream stream.fin)
    (hcloses : ∀ ev ∈ t.events, ∀ id, ev ≠ .close id) {id : StreamId}
    (hends : Demux.Ends Stream.fin (t.items.filter (·.id = id))) : Lane t id := by
  have hlane := htraced id
  cases hfresh : t.fresh id with
  | true =>
      rw [arrivals_of_fresh harrives hkeyed hcloses hfresh, hfresh] at hlane
      by_cases hnone : t.items.filter (·.id = id) = []
      · rw [hnone] at hlane
        exact .none hlane fun _ => hnone
      · rw [Demux.lane_of_fresh hends hnone] at hlane
        exact .filled _ hlane
  | false =>
      have hshape := hshaped id hfresh
      have hitems : (t.events.filter (·.key = id)).filterMap Demux.Event.item? =
          t.items.filter (·.id = id) := items_filter hkeyed id
      rw [hfresh] at hlane
      generalize t.events.filter (·.key = id) = events at hshape hitems hlane
      cases hshape with
      | unmade xs =>
          rw [Demux.lane_of_shut rfl] at hlane
          exact .none hlane fun hf => by rw [hfresh] at hf; cases hf
      | made xs =>
          rw [List.foldl_cons] at hlane
          exact .queued (hlane.trans (Demux.lane_of_shut rfl xs))
      | registered j xs =>
          rw [List.filterMap_cons_none rfl, List.filterMap_cons_none rfl,
            filterMap_arrivals] at hitems
          rw [List.foldl_cons, List.foldl_cons] at hlane
          subst hitems
          exact .filled _ (hlane.trans (Demux.lane_of_open hends false []))

end Tables

end MoqTransport.Ws
