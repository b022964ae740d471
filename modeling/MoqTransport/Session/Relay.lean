import MoqTransport.Session.Receive
import MoqTransport.Session.Subscribed

/-!
A subgroup stream relayed: received into the cache, then served from it. The
cache numbers the objects itself and gives all of them the status `object`,
so what comes out is `renumber 0` of what went in.
-/

namespace MoqTransport.Session

open Streaming Coding Data Serve StateTransition

namespace SubgroupTask

variable (cell : SubgroupCell) {t : SubgroupTask} (state : Shared)

/-- A task that has written `bs` more and is back at reading objects. -/
def wrote (t : SubgroupTask) (index : Nat) (bs : Bytes) : SubgroupTask :=
  { t with
    phase := .next
    reader := { t.reader with index := index }
    stream := { t.stream with sent := t.stream.sent ++ bs } }

theorem reaches_head {cell : SubgroupCell} {a b c : SubgroupTask × Shared}
    (h : step cell a = some b) (hrest : Reaches (step cell) b c) : Reaches (step cell) a c :=
  Relation.ReflTransGen.head (Option.mem_def.mpr h) hrest

/-- The chunks of a complete object are all written. -/
theorem reaches_payload {index c : Nat} {info : Serve.SubgroupObject}
    (hphase : t.phase = .payload index info c) (hcomplete : (object cell index info).Complete) :
    Reaches (step cell) (t, state) (t.wrote t.reader.index
      ((object cell index info).state.value.chunks.drop c).flatten, state) := by
  induction hlen : (object cell index info).state.value.chunks.length - c
    generalizing c t with
  | zero =>
      have hnone : (object cell index info).state.value.chunks[c]? = none :=
        List.getElem?_eq_none (by omega)
      refine .single ?_
      simp only [step, hphase,
        SubgroupObjectCell.read_ended hnone hcomplete.closed hcomplete.dropped]
      rw [List.drop_eq_nil_of_le (by omega)]
      simp [wrote]
  | succ n ih =>
      have hlt : c < (object cell index info).state.value.chunks.length := by omega
      have hsome := List.getElem?_eq_getElem hlt
      have hnext : step cell (t, state) = some ({ t with
          phase := .payload index info (c + 1)
          stream := { t.stream with
            sent := t.stream.sent ++ (object cell index info).state.value.chunks[c] } },
          state) := by
        simp only [step, hphase, SubgroupObjectCell.read, hsome]
      refine reaches_head hnext ?_
      have hrest := ih (t := { t with
          phase := .payload index info (c + 1)
          stream := { t.stream with
            sent := t.stream.sent ++ (object cell index info).state.value.chunks[c] } })
        (c := c + 1) rfl (by omega)
      rw [List.drop_eq_getElem_cons hlt, List.flatten_cons]
      simpa [wrote] using hrest

/-- One round of the loop over the objects: header, update and payload. -/
theorem reaches_object {o : SubgroupObjectCell} (hphase : t.phase = .next)
    (hobject : cell.state.value.objects[t.reader.index]? = some o) (hcomplete : o.Complete)
    (hok : o.content.header.Ok) (hlive : state.dropped = false) :
    Reaches (step cell) (t, state) (t.wrote (t.reader.index + 1) o.content.wire,
      state.update (·.updateMaxGroupId t.reader.info.groupId o.info.objectId)) := by
  have hheader :
      encoded (⟨o.info.objectId, o.info.size, o.info.status⟩ : Data.SubgroupObject).encode =
        .ok o.content.header.wire := by
    have hsame : (⟨o.info.objectId, o.info.size, o.info.status⟩ : Data.SubgroupObject) =
        o.content.header := by
      rw [hcomplete.size]
      rfl
    rw [hsame]
    exact encoded_eq (Data.SubgroupObject.emits_encode _) hok
      ((Data.SubgroupObject.wire_length_le _).trans (by decide))
  have hread : object cell t.reader.index o.info = o := by
    simp [object, hobject]
  -- Read the object, write its header, update the position, write the payload.
  let t1 : SubgroupTask := { t with
    phase := .object t.reader.index o.info
    reader := { t.reader with index := t.reader.index + 1 } }
  let t2 : SubgroupTask := { t1 with
    phase := .update t.reader.index o.info
    stream := { t.stream with sent := t.stream.sent ++ o.content.header.wire } }
  let t3 : SubgroupTask := { t2 with phase := .payload t.reader.index o.info 0 }
  let state' := state.update (·.updateMaxGroupId t.reader.info.groupId o.info.objectId)
  have hnext : step cell (t, state) = some (t1, state) := by
    simp only [step, hphase, SubgroupCell.next, hobject, t1]
  have hsend : step cell (t1, state) = some (t2, state) := by
    simp only [step, send, hheader, t1, t2]
  have hupdate : step cell (t2, state) = some (t3, state') := by
    simp [step, hlive, t1, t2, t3, state']
  have hpayload := reaches_payload cell (t := t3) state' rfl
    (hread.symm ▸ hcomplete)
  rw [hread, List.drop_zero] at hpayload
  have hlast : t3.wrote t3.reader.index o.state.value.chunks.flatten =
      t.wrote (t.reader.index + 1) o.content.wire := by
    simp [wrote, t1, t2, t3, ObjectContent.wire, SubgroupObjectCell.content]
  rw [hlast] at hpayload
  exact reaches_head hnext (reaches_head hsend (reaches_head hupdate hpayload))

/-- All objects of a subgroup whose writer is done are written, and the
stream is finished. -/
theorem reaches_finished (objects : List SubgroupObjectCell) (hphase : t.phase = .next)
    (hobjects : cell.state.value.objects.drop t.reader.index = objects)
    (hcomplete : ∀ o ∈ objects, o.Complete ∧ o.content.header.Ok)
    (hclosed : cell.state.value.closed = none) (hdropped : cell.state.dropped = true)
    (hlive : state.dropped = false) :
    ∃ last, Reaches (step cell) (t, state) last ∧ last.1.phase = .finished ∧
      last.1.stream = ⟨t.stream.sent ++ (objects.map SubgroupObjectCell.content).flatMap
        ObjectContent.wire, true⟩ := by
  induction objects generalizing t state with
  | nil =>
      have hnone : cell.state.value.objects[t.reader.index]? = none := by
        rw [List.getElem?_eq_none_iff]
        exact List.drop_eq_nil_iff.mp hobjects
      have hend : step cell (t, state) = some ({ t with phase := .finish }, state) := by
        simp only [step, hphase, SubgroupCell.next_ended hnone hclosed hdropped]
      exact ⟨_, reaches_head hend (reaches_head rfl .refl), rfl, by simp⟩
  | cons o objects ih =>
      have hget : cell.state.value.objects[t.reader.index]? = some o := by
        have hhead := congrArg List.head? hobjects
        rwa [List.head?_drop, List.head?_cons] at hhead
      have htail : cell.state.value.objects.drop (t.reader.index + 1) = objects := by
        rw [← List.drop_drop, hobjects]
        rfl
      obtain ⟨hfirst, hok⟩ := hcomplete o (by simp)
      have hround := reaches_object cell state hphase hget hfirst hok hlive
      obtain ⟨last, hlast, hphase', hstream⟩ := ih
        (t := t.wrote (t.reader.index + 1) o.content.wire)
        (state.update (·.updateMaxGroupId t.reader.info.groupId o.info.objectId))
        rfl htail (fun o ho => hcomplete o (by simp [ho])) hlive
      refine ⟨last, hround.trans hlast, hphase', ?_⟩
      rw [hstream]
      simp [wrote]

end SubgroupTask

/-- The subgroup in the cache after its stream has been received. -/
def cached (h : SubgroupHeader) (r : Reader) : SubgroupCell :=
  (recvSubgroup ⟨0, subgroupOf h, 0⟩ (subgroupOf h).produce r).2

/-- The header a subgroup is sent on with, in another subscription. -/
def readdress (id trackAlias : Nat) (h : SubgroupHeader) : SubgroupHeader :=
  { h with subscribeId := id, trackAlias := trackAlias }

/-- However the stream arrives and whoever it is served to, the stream sent
on has the header and the objects of the one received. -/
def RelaysFaithfully (h : SubgroupHeader) (objects : List ObjectContent) : Prop :=
  ∀ r : Reader, r.pending = objects.flatMap ObjectContent.wire → r.stream.failure = none →
    ∀ (id trackAlias : Nat) (state : SubgroupTask.Shared), fitsVarInt id → fitsVarInt trackAlias →
      state.dropped = false →
      ∃ last ∈ eval (SubgroupTask.step (cached h r))
          (SubgroupTask.spawn id trackAlias ⟨0, subgroupOf h, 0⟩, state),
        last.1.phase = .finished ∧
          last.1.stream = ⟨streamWire (readdress id trackAlias h) objects, true⟩

theorem renumber_ok {objects : List ObjectContent} {next : Nat} (hobjects : ∀ o ∈ objects, o.Ok)
    (hnext : next + objects.length ≤ 2 ^ 62) : ∀ o ∈ renumber next objects, o.Ok := by
  induction objects generalizing next with
  | nil => simp [renumber]
  | cons o objects ih =>
      rw [List.length_cons] at hnext
      have hsize : fitsVarInt o.payload.length := (hobjects o (by simp)).1.2
      have hfirst : (⟨next, .object, o.payload⟩ : ObjectContent).Ok :=
        ⟨⟨show next < 2 ^ 62 by omega, hsize⟩, fun _ => rfl⟩
      exact List.forall_mem_cons.mpr
        ⟨hfirst, ih (fun o ho => hobjects o (by simp [ho])) (by omega)⟩

/-- Renumbering changes nothing exactly when the ids already count up from
`next` and every status is `object`. -/
theorem renumber_eq_self {objects : List ObjectContent} {next : Nat} :
    renumber next objects = objects ↔
      objects.map ObjectContent.objectId = List.range' next objects.length ∧
        ∀ o ∈ objects, o.status = .object := by
  induction objects generalizing next with
  | nil => simp [renumber]
  | cons o objects ih =>
      obtain ⟨id, status, payload⟩ := o
      simp only [renumber, List.cons.injEq, ObjectContent.mk.injEq, ih, List.map_cons,
        List.length_cons, List.range'_succ, List.forall_mem_cons]
      constructor
      · rintro ⟨⟨rfl, rfl, -⟩, hids, hstatuses⟩
        exact ⟨⟨rfl, hids⟩, rfl, hstatuses⟩
      · rintro ⟨⟨rfl, hids⟩, rfl, hstatuses⟩
        exact ⟨⟨rfl, rfl, trivial⟩, hids, hstatuses⟩

/-- What the relay really sends: the objects as the cache numbers them. -/
theorem serve_cached {h : SubgroupHeader} {objects : List ObjectContent} (hh : h.Ok)
    (hobjects : ∀ o ∈ objects, o.Ok) (hlength : objects.length ≤ 2 ^ 62) {r : Reader}
    (hpending : r.pending = objects.flatMap ObjectContent.wire) {id trackAlias : Nat}
    (hid : fitsVarInt id) (halias : fitsVarInt trackAlias) (state : SubgroupTask.Shared)
    (hlive : state.dropped = false) :
    ∃ last ∈ eval (SubgroupTask.step (cached h r))
        (SubgroupTask.spawn id trackAlias ⟨0, subgroupOf h, 0⟩, state),
      last.1.phase = .finished ∧
        last.1.stream = ⟨streamWire (readdress id trackAlias h) (renumber 0 objects), true⟩ := by
  obtain ⟨stored, hrecv, hcontents, hcomplete⟩ := recvObjects_eq hobjects
    ⟨0, subgroupOf h, 0⟩ (subgroupOf h).produce hpending rfl
  have hcell : cached h r = ⟨subgroupOf h, ⟨⟨stored, none⟩, true⟩⟩ := by
    simp only [cached, recvSubgroup]
    rw [hrecv]
    rfl
  have hok : ∀ o ∈ stored, o.Complete ∧ o.content.header.Ok := by
    intro o ho
    have hmem : o.content ∈ renumber 0 objects := hcontents ▸ List.mem_map_of_mem ho
    exact ⟨hcomplete o ho, (renumber_ok hobjects (by omega) _ hmem).1⟩
  have hheader : encoded (Header.subgroup (readdress id trackAlias h)).encode =
      .ok (Header.subgroup (readdress id trackAlias h)).wire :=
    encoded_eq (Header.emits_encode _) ⟨hid, halias, hh.2.2⟩
      ((Header.wire_length_le _).trans (by decide))
  let t : SubgroupTask := SubgroupTask.spawn id trackAlias ⟨0, subgroupOf h, 0⟩
  let t1 : SubgroupTask := t.wrote 0 (Header.subgroup (readdress id trackAlias h)).wire
  have hsend : SubgroupTask.step (cached h r) ({ t with phase := .header }, state) =
      some (t1, state) := by
    have hsame : t.header = readdress id trackAlias h := rfl
    simp only [SubgroupTask.step, SubgroupTask.send, hsame, hheader]
    rfl
  obtain ⟨last, hlast, hphase, hstream⟩ := SubgroupTask.reaches_finished (cached h r)
    (t := t1) state stored rfl (by rw [hcell]; rfl) hok
    (by rw [hcell]) (by rw [hcell]) hlive
  have hterminal : SubgroupTask.step (cached h r) last = none := by
    obtain ⟨t', state'⟩ := last
    simp only [SubgroupTask.step, show t'.phase = .finished from hphase]
  refine ⟨last, mem_eval.mpr ⟨?_, hterminal⟩, hphase, ?_⟩
  · exact SubgroupTask.reaches_head rfl (SubgroupTask.reaches_head hsend hlast)
  · rw [hstream, hcontents]
    rfl

theorem length_le_of_increasing {ids : List Nat} (bound : Nat) (hincreasing : ids.Pairwise (· < ·))
    (hbound : ∀ id ∈ ids, id < bound) : ids.length ≤ bound := by
  have hnodup : ids.Nodup := hincreasing.imp fun hlt => Nat.ne_of_lt hlt
  have hsubset : ids ⊆ List.range bound := fun id hid => List.mem_range.mpr (hbound id hid)
  have hle := (List.subperm_of_subset hnodup hsubset).length_le
  rwa [List.length_range] at hle

/-- A stream that is relayed faithfully is its own renumbering: the task is
deterministic, so the stream it should send is the stream it sends. -/
theorem renumber_of_relaysFaithfully {h : SubgroupHeader} {objects : List ObjectContent}
    (hh : h.Ok) (hobjects : ∀ o ∈ objects, o.Ok) (hlength : objects.length ≤ 2 ^ 62)
    (hfaithful : RelaysFaithfully h objects) : renumber 0 objects = objects := by
  let r : Reader := Reader.new (wholeStream (objects.flatMap ObjectContent.wire))
  have hpending : r.pending = objects.flatMap ObjectContent.wire := joined_wholeStream _
  have hzero : fitsVarInt 0 := by decide
  obtain ⟨last, hmem, -, hstream⟩ :=
    hfaithful r hpending rfl 0 0 (.new ⟨none, none⟩) hzero hzero rfl
  obtain ⟨last', hmem', -, hstream'⟩ :=
    serve_cached hh hobjects hlength hpending hzero hzero (.new ⟨none, none⟩) rfl
  obtain rfl := Part.mem_unique hmem hmem'
  rw [hstream] at hstream'
  have hbytes := List.append_cancel_left (congrArg SendStream.sent hstream')
  exact (ObjectContent.eq_of_flatMap_wire hobjects (renumber_ok hobjects (by omega)) hbytes).symm

/-- A subgroup stream with increasing ids is relayed as it came exactly when
its ids are 0, 1, 2, … and every object has the status `object`. -/
theorem relaysFaithfully_iff (h : SubgroupHeader) (objects : List ObjectContent) (hh : h.Ok)
    (hobjects : ∀ o ∈ objects, o.Ok)
    (hincreasing : (objects.map ObjectContent.objectId).Pairwise (· < ·)) :
    RelaysFaithfully h objects ↔
      objects.map ObjectContent.objectId = List.range' 0 objects.length ∧
        ∀ o ∈ objects, o.status = .object := by
  have hlength : objects.length ≤ 2 ^ 62 := by
    have hle := length_le_of_increasing (2 ^ 62) hincreasing (by
      intro id hid
      obtain ⟨o, ho, rfl⟩ := List.mem_map.mp hid
      exact (hobjects o ho).1.1)
    rwa [List.length_map] at hle
  rw [← renumber_eq_self]
  constructor
  · exact renumber_of_relaysFaithfully hh hobjects hlength
  · intro hrenumber r hpending _ id trackAlias state hid halias hlive
    have hserve := serve_cached hh hobjects hlength hpending hid halias state hlive
    rwa [hrenumber] at hserve

/-- Two objects, numbered from zero. -/
theorem relaysFaithfully_numbered :
    RelaysFaithfully ⟨1, 1, 5, 0, 127⟩ [⟨0, .object, [7, 7]⟩, ⟨1, .object, []⟩] := by
  have hok : ∀ o ∈ ([⟨0, .object, [7, 7]⟩, ⟨1, .object, []⟩] : List ObjectContent), o.Ok := by
    simp [ObjectContent.Ok, ObjectContent.header, SubgroupObject.Ok, SubgroupObject.Canonical]
  refine (relaysFaithfully_iff _ _ ?_ hok (by decide)).mpr (by decide)
  simp [SubgroupHeader.Ok]

/-- An object and the end of its group, received with a gap in the ids: both
are sent on with a new id, the second as an ordinary object. -/
theorem not_relaysFaithfully_gap :
    ¬ RelaysFaithfully ⟨1, 1, 5, 0, 127⟩ [⟨3, .object, [7, 7]⟩, ⟨8, .endOfGroup, []⟩] := by
  intro hfaithful
  have hok : ∀ o ∈ ([⟨3, .object, [7, 7]⟩, ⟨8, .endOfGroup, []⟩] : List ObjectContent), o.Ok := by
    simp [ObjectContent.Ok, ObjectContent.header, SubgroupObject.Ok, SubgroupObject.Canonical]
  have hsame := renumber_of_relaysFaithfully (by simp [SubgroupHeader.Ok]) hok (by decide)
    hfaithful
  revert hsame
  decide

end MoqTransport.Session
