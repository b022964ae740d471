import MoqTransport.Session.Subscriber

/-!
Subgroup streams arriving for one subscription, in any order. A stream above
the newest one becomes the newest and is delivered whole. A stream at or
below it is not ignored: its subgroup is a duplicate, or an orphan whose first
object fails, and either error removes the subscription and closes its track.
So arrival is harmless exactly when it is in order (`harmless_iff`).
-/

namespace MoqTransport.Session

open Streaming Coding Data Serve

/-- A subgroup stream for the subscription `id`, with at least one object and
cut into pieces by the transport. -/
structure Arrival (id : Nat) where
  header : SubgroupHeader
  objects : List ObjectContent
  stream : RecvStream
  addressed : header.subscribeId = id
  header_ok : header.Ok
  objects_ok : ∀ o ∈ objects, o.Ok
  nonempty : objects ≠ []
  bytes : joined stream.pieces = streamWire header objects

def Arrival.key {id : Nat} (a : Arrival id) : Nat ×ₗ Nat := (subgroupOf a.header).key

/-- The track has not been closed with an error, in any mode. -/
structure NoError (track : Track) : Prop where
  state : track.state.value.closed = none
  stream : track.stream.state.value.closed = none
  subgroups : track.subgroups.state.value.closed = none
  datagrams : track.datagrams.value.closed = none

/-- The reader matching a writer has not been dropped. -/
def ReaderAlive (track : Track) : TrackWriterMode → Prop
  | .track => track.state.dropped = false
  | .stream => track.stream.state.dropped = false
  | .subgroups _ => track.subgroups.state.dropped = false
  | .datagrams => track.datagrams.dropped = false

/-- A subscription that is registered and whose track still has a reader. -/
structure Live (s : Subscriber) (id : Nat) (recv : SubscribeRecv) : Prop where
  registered : s.subscribes.lookup id = some recv
  alive : ∀ writer ∈ recv.writer, ReaderAlive (s.shared id).track writer
  noError : NoError (s.shared id).track

/-- The subscription takes subgroup streams: it has a writer, without a mode
or in subgroup mode. -/
def Accepting (recv : SubscribeRecv) : Prop :=
  match recv.writer with
  | some .track | some (.subgroups _) => True
  | _ => False

/-- The newest subgroup so far. -/
def newest (recv : SubscribeRecv) (track : Track) : Option (Nat ×ₗ Nat) :=
  match recv.writer with
  | some (.subgroups _) => track.subgroups.state.value.latest.map fun latest => latest.info.key
  | _ => none

/-- The subgroups received so far. -/
def received (recv : SubscribeRecv) (track : Track) : List SubgroupCell :=
  match recv.writer with
  | some (.subgroups _) => track.subgroups.cells
  | _ => []

/-- The subgroup in `cell` has everything its stream carried. -/
structure Holds {id : Nat} (cell : SubgroupCell) (a : Arrival id) : Prop where
  info : cell.info = subgroupOf a.header
  contents : cell.state.value.objects.map SubgroupObjectCell.content = renumber 0 a.objects
  complete : ∀ o ∈ cell.state.value.objects, o.Complete

namespace SubscribeRecv

/-- The writer an accepting subscription finds, and the subgroups behind it. -/
theorem subgroupsWriter_eq {recv : SubscribeRecv} {track : Track} (haccepting : Accepting recv)
    (halive : ∀ writer ∈ recv.writer, ReaderAlive track writer) (hnoError : NoError track) :
    ∃ writer w track', recv.writer = some writer ∧
      subgroupsWriter writer track = .ok (w, track') ∧
      track'.subgroups.state.dropped = false ∧ track'.subgroups.cells = received recv track ∧
      track'.subgroups.state.value.latest.map (fun latest => latest.info.key) =
        newest recv track ∧ NoError track' := by
  obtain ⟨writer⟩ := recv
  cases writer with
  | none => exact absurd haccepting not_false
  | some writer =>
      have halive := halive writer rfl
      cases writer with
      | track =>
          have hgroups : subgroupsWriter .track track = .ok (.new, { track with
              state := (track.state.update fun s => { s with mode := some .subgroups }).drop
              subgroups := .produce }) := by
            simp only [subgroupsWriter, TrackWriter.groups, TrackWriter.setMode,
              show track.state.dropped = false from halive]
            rfl
          exact ⟨.track, _, _, rfl, hgroups, rfl, rfl, rfl,
            hnoError.state, hnoError.stream, rfl, hnoError.datagrams⟩
      | stream => exact absurd haccepting not_false
      | subgroups w => exact ⟨_, w, track, rfl, rfl, halive, rfl, rfl, hnoError⟩
      | datagrams => exact absurd haccepting not_false

/-- A stream above the newest is given a writer of a fresh, visible
subgroup. -/
theorem subgroup_newest {recv : SubscribeRecv} {track : Track} {h : SubgroupHeader}
    (haccepting : Accepting recv)
    (halive : ∀ writer ∈ recv.writer, ReaderAlive track writer) (hnoError : NoError track)
    (hnew : ∀ k ∈ newest recv track, k < (subgroupOf h).key) :
    ∃ w track', recv.subgroup track h =
        (.ok ⟨(received recv track).length, subgroupOf h, 0⟩, ⟨some (.subgroups w)⟩, track') ∧
      track'.subgroups.state.dropped = false ∧
      track'.subgroups.cells = received recv track ++ [(subgroupOf h).produce] ∧
      track'.subgroups.state.value.latest =
        some ⟨(received recv track).length, subgroupOf h, 0⟩ ∧ NoError track' := by
  obtain ⟨writer, w, mid, hwriter, hmode, hlive, hcells, hlatest, hmid⟩ :=
    subgroupsWriter_eq haccepting halive hnoError
  have hnewest : ∀ latest ∈ mid.subgroups.state.value.latest,
      latest.info.key < (subgroupOf h).key := by
    intro latest hmem
    refine hnew latest.info.key ?_
    rw [← hlatest, hmem]
    rfl
  have hcreate := SubgroupsWriter.create_newest w hlive hnewest
  refine ⟨w.installed (subgroupOf h),
    { mid with subgroups := (mid.subgroups.install (subgroupOf h)).2 }, ?_, hlive, ?_, ?_,
    hmid.state, hmid.stream, hmid.subgroups, hmid.datagrams⟩
  · simp only [subgroup, hwriter, hmode, hcreate, Subgroups.install, ← hcells]
  · simp only [Subgroups.install, hcells]
  · simp only [Subgroups.install, Watch.State.update, hcells]

/-- A stream at or below the newest is refused, or given a writer that no
reader can see. -/
theorem subgroup_stale {recv : SubscribeRecv} {track : Track} {h : SubgroupHeader}
    (haccepting : Accepting recv)
    (halive : ∀ writer ∈ recv.writer, ReaderAlive track writer) (hnoError : NoError track)
    {k : Nat ×ₗ Nat} (hk : newest recv track = some k) (hstale : (subgroupOf h).key ≤ k) :
    (∃ e recv' track', recv.subgroup track h = (.error e, recv', track')) ∨
      ∃ handle recv' track', recv.subgroup track h = (.ok handle, recv', track') ∧
        (track'.subgroups.cell handle).state.dropped = true := by
  obtain ⟨writer, w, mid, hwriter, hmode, hlive, -, hlatest, -⟩ :=
    subgroupsWriter_eq haccepting halive hnoError
  rw [hk, Option.map_eq_some_iff] at hlatest
  obtain ⟨latest, hsome, rfl⟩ := hlatest
  rcases SubgroupsWriter.create_stale w hlive hsome hstale with
    hcreate | hcreate
  · refine .inl ⟨.duplicate, ⟨none⟩, (TrackWriterMode.subgroups w).drop mid, ?_⟩
    simp only [subgroup, hwriter, hmode, hcreate]
  · refine .inr ⟨(mid.subgroups.orphan (subgroupOf h)).1, ⟨some (.subgroups w)⟩,
      { mid with subgroups := (mid.subgroups.orphan (subgroupOf h)).2 }, ?_, ?_⟩
    · simp only [subgroup, hwriter, hmode, hcreate]
    · simp [Subgroups.cell, Subgroups.orphan, Watch.State.drop]

/-- A subscription in another mode, or without its writer, refuses the
stream. -/
theorem subgroup_refused {recv : SubscribeRecv} (haccepting : ¬ Accepting recv) (track : Track)
    (h : SubgroupHeader) :
    ∃ e recv' track', recv.subgroup track h = (.error e, recv', track') := by
  obtain ⟨writer⟩ := recv
  cases writer with
  | none => exact ⟨_, _, _, rfl⟩
  | some writer =>
      cases writer with
      | track => exact absurd trivial haccepting
      | stream => exact ⟨_, _, _, rfl⟩
      | subgroups w => exact absurd trivial haccepting
      | datagrams => exact ⟨_, _, _, rfl⟩

end SubscribeRecv

namespace Subscriber

theorem notMem_terminate (s : Subscriber) (id : Nat) (err : ServeError) :
    id ∉ (s.terminate id err).2.subscribes := by
  unfold terminate
  cases hlookup : s.subscribes.lookup id with
  | none => exact Finmap.lookup_eq_none.mp hlookup
  | some recv =>
      dsimp only
      split <;> simp [Finmap.mem_erase]

variable {s : Subscriber} {id : Nat} {recv : SubscribeRecv}

/-- The header of an arriving stream is read before anything else. -/
theorem decode_arrival (a : Arrival id) :
    ∃ reader, Reader.decode Header.decode (Reader.new a.stream) =
        .ok (.subgroup a.header, reader) ∧
      reader.pending = a.objects.flatMap ObjectContent.wire :=
  have ⟨reader, hdecode, hpending, _⟩ := Reader.decode_transfers
    (Header.transfers_decode (show (Header.subgroup a.header).Ok from a.header_ok))
    (r := Reader.new a.stream) a.bytes
  ⟨reader, hdecode, hpending⟩

/-- A serve error while receiving a stream removes its subscription. -/
theorem notMem_recvStream {a : Arrival id} {reader : Reader} {s' : Subscriber} {err : ServeError}
    (hdecode : Reader.decode Header.decode (Reader.new a.stream) = .ok (.subgroup a.header, reader))
    (hinner : s.recvStreamInner reader (.subgroup a.header) = (.error (.err (.serve err)), s')) :
    id ∉ (s.recvStream a.stream).2.subscribes := by
  simp only [recvStream, hdecode, hinner]
  have haddressed : (Header.subgroup a.header).subscribeId = id := a.addressed
  rw [haddressed]
  exact notMem_terminate s' id err

theorem recvStreamInner_refused {reader : Reader} {h : SubgroupHeader} {e : ServeError}
    {recv' : SubscribeRecv} {track' : Track}
    (hlookup : s.subscribes.lookup h.subscribeId = some recv)
    (hsubgroup : recv.subgroup (s.shared h.subscribeId).track h = (.error e, recv', track')) :
    s.recvStreamInner reader (.subgroup h) =
      (.error (.err (.serve e)), s.put h.subscribeId recv' track') := by
  simp only [recvStreamInner, Header.subscribeId, hlookup, hsubgroup]

theorem recvStreamInner_opened (reader : Reader) {h : SubgroupHeader} {handle : SubgroupWriter}
    {recv' : SubscribeRecv} {track' : Track}
    (hlookup : s.subscribes.lookup h.subscribeId = some recv)
    (hsubgroup : recv.subgroup (s.shared h.subscribeId).track h = (.ok handle, recv', track')) :
    s.recvStreamInner reader (.subgroup h) =
      ((recvSubgroup handle (track'.subgroups.cell handle) reader).1,
        s.put h.subscribeId recv' { track' with
          subgroups := track'.subgroups.setCell handle
            (recvSubgroup handle (track'.subgroups.cell handle) reader).2 }) := by
  simp only [recvStreamInner, Header.subscribeId, hlookup, hsubgroup]

/-- A stream the subscription does not accept, or that is not above the
newest one, removes the subscription. -/
theorem recvStream_stale (hs : Live s id recv) (a : Arrival id)
    (hstale : Accepting recv → ∃ k, newest recv (s.shared id).track = some k ∧ a.key ≤ k) :
    id ∉ (s.recvStream a.stream).2.subscribes := by
  obtain ⟨reader, hdecode, hpending⟩ := decode_arrival a
  obtain ⟨header, objects, stream, rfl, hheader, hobjects, hnonempty, hbytes⟩ := a
  by_cases haccepting : Accepting recv
  · obtain ⟨k, hk, hle⟩ := hstale haccepting
    rcases SubscribeRecv.subgroup_stale haccepting hs.alive hs.noError hk hle with
      ⟨e, recv', track', hsubgroup⟩ | ⟨handle, recv', track', hsubgroup, hdropped⟩
    · exact notMem_recvStream hdecode (recvStreamInner_refused hs.registered hsubgroup)
    · obtain ⟨o, rest, rfl⟩ := List.exists_cons_of_ne_nil hnonempty
      have horphan := recvObjects_orphan (hobjects o (by simp)) handle hpending hdropped
      have hinner := recvStreamInner_opened reader hs.registered hsubgroup
      simp only [recvSubgroup, horphan] at hinner
      exact notMem_recvStream hdecode hinner
  · obtain ⟨e, recv', track', hsubgroup⟩ := SubscribeRecv.subgroup_refused haccepting
      (s.shared header.subscribeId).track header
    exact notMem_recvStream hdecode (recvStreamInner_refused hs.registered hsubgroup)

theorem live_put (s : Subscriber) (id : Nat) {track : Track} {w : SubgroupsWriter}
    (hopen : track.subgroups.state.dropped = false) (hnoError : NoError track) :
    Live (s.put id ⟨some (.subgroups w)⟩ track) id ⟨some (.subgroups w)⟩ := by
  refine ⟨lookup_put _ _ _ _, ?_, ?_⟩
  · rintro writer ⟨⟩
    rw [track_put]
    exact hopen
  · rw [track_put]
    exact hnoError

/-- A stream above the newest one becomes the newest and is received whole,
however it is cut. -/
theorem recvStream_above (hs : Live s id recv) (haccepting : Accepting recv)
    {header : SubgroupHeader} {objects : List ObjectContent} {stream : RecvStream}
    (haddressed : header.subscribeId = id) (hheader : header.Ok)
    (hobjects : ∀ o ∈ objects, o.Ok) (hbytes : joined stream.pieces = streamWire header objects)
    (hnew : ∀ k ∈ newest recv (s.shared id).track, k < (subgroupOf header).key) :
    ∃ w stored, (s.recvStream stream).1 = Reader.finish stream.failure ∧
      Live (s.recvStream stream).2 id ⟨some (.subgroups w)⟩ ∧
      stored.map SubgroupObjectCell.content = renumber 0 objects ∧
      (∀ o ∈ stored, o.Complete) ∧
      ((s.recvStream stream).2.shared id).track.subgroups.state.value.latest =
        some ⟨(received recv (s.shared id).track).length, subgroupOf header, 0⟩ ∧
      ((s.recvStream stream).2.shared id).track.subgroups.cells =
        received recv (s.shared id).track ++ [⟨subgroupOf header, ⟨⟨stored, none⟩, true⟩⟩] := by
  subst haddressed
  obtain ⟨reader, hdecode, hpending, hfailure⟩ := Reader.decode_transfers
    (Header.transfers_decode (show (Header.subgroup header).Ok from hheader))
    (r := Reader.new stream) hbytes
  obtain ⟨w, track', hsubgroup, hlive, hcells, hlatest, hnoError⟩ :=
    SubscribeRecv.subgroup_newest haccepting hs.alive hs.noError hnew
  let handle : SubgroupWriter :=
    ⟨(received recv (s.shared header.subscribeId).track).length, subgroupOf header, 0⟩
  have hcell : track'.subgroups.cell handle = (subgroupOf header).produce := by
    simp [Subgroups.cell, hcells, handle]
  obtain ⟨stored, hrecv, hcontents, hcomplete⟩ := recvObjects_eq hobjects handle
    (subgroupOf header).produce hpending rfl
  let cell : SubgroupCell := ⟨subgroupOf header, ⟨⟨stored, none⟩, true⟩⟩
  have hrun : recvSubgroup handle (track'.subgroups.cell handle) reader =
      (Reader.finish stream.failure, cell) := by
    have hsame : reader.stream.failure = stream.failure := hfailure
    simp only [recvSubgroup, hcell]
    rw [hrecv, hsame]
    rfl
  have hopened : recv.subgroup (s.shared header.subscribeId).track header =
      (.ok handle, ⟨some (.subgroups w)⟩, track') := hsubgroup
  have hinner := recvStreamInner_opened reader hs.registered hopened
  rw [hrun] at hinner
  have hresult : s.recvStream stream = (Reader.finish stream.failure,
      s.put header.subscribeId ⟨some (.subgroups w)⟩
        { track' with subgroups := track'.subgroups.setCell handle cell }) := by
    cases hfailure : stream.failure with
    | none => simp only [recvStream, hdecode, hinner, hfailure, Reader.finish]
    | some message => simp only [recvStream, hdecode, hinner, hfailure, Reader.finish]
  have hset : (track'.subgroups.setCell handle cell).cells =
      received recv (s.shared header.subscribeId).track ++ [cell] := by
    simp [Subgroups.setCell, hcells, handle]
  refine ⟨w, stored, ?_, ?_, hcontents, hcomplete, ?_, ?_⟩
  · rw [hresult]
  · rw [hresult]
    exact live_put s _ hlive
      ⟨hnoError.state, hnoError.stream, hnoError.subgroups, hnoError.datagrams⟩
  · rw [hresult, track_put]
    exact hlatest
  · rw [hresult, track_put]
    exact hset

theorem recvStream_newest (hs : Live s id recv) (haccepting : Accepting recv) (a : Arrival id)
    (hnew : ∀ k ∈ newest recv (s.shared id).track, k < a.key) :
    ∃ w cell, Live (s.recvStream a.stream).2 id ⟨some (.subgroups w)⟩ ∧ Holds cell a ∧
      ((s.recvStream a.stream).2.shared id).track.subgroups.state.value.latest =
        some ⟨(received recv (s.shared id).track).length, subgroupOf a.header, 0⟩ ∧
      ((s.recvStream a.stream).2.shared id).track.subgroups.cells =
        received recv (s.shared id).track ++ [cell] := by
  obtain ⟨w, stored, -, hlive, hcontents, hcomplete, hlatest, hcells⟩ :=
    recvStream_above hs haccepting a.addressed a.header_ok a.objects_ok a.bytes hnew
  exact ⟨w, _, hlive, ⟨rfl, hcontents, hcomplete⟩, hlatest, hcells⟩

/-- A reader of the track gets the stream: its subgroup is the latest, with
all payloads in order. -/
def Delivered (s : Subscriber) (a : Arrival id) : Prop :=
  ∃ reader cell, (s.shared id).track.subgroups.state.value.latest = some reader ∧
    (s.shared id).track.subgroups.cells[reader.cell]? = some cell ∧
    cell.info = subgroupOf a.header ∧
    cell.state.value.objects.map (fun o => o.content.payload) =
      a.objects.map ObjectContent.payload ∧
    ∀ o ∈ cell.state.value.objects, o.Complete

/-- The newest subgroup a registered subscription has received. -/
def newestOf (s : Subscriber) (id : Nat) : Option (Nat ×ₗ Nat) :=
  (s.subscribes.lookup id).bind fun recv => newest recv (s.shared id).track

/-- After each stream the subscription is still there, its track is not
closed with an error, and the stream is delivered if it is the newest. -/
def Harmless (id : Nat) : Subscriber → List (Arrival id) → Prop
  | _, [] => True
  | s, a :: rest =>
      let s' := (s.recvStream a.stream).2
      id ∈ s'.subscribes ∧ NoError (s'.shared id).track ∧
        ((∀ k ∈ s.newestOf id, k < a.key) → s'.Delivered a) ∧ Harmless id s' rest

theorem payload_renumber (next : Nat) (objects : List ObjectContent) :
    (renumber next objects).map ObjectContent.payload = objects.map ObjectContent.payload := by
  induction objects generalizing next with
  | nil => rfl
  | cons o objects ih => rw [renumber, List.map_cons, List.map_cons, ih]

/-- A list above a floor is a first element above the floor and a list above
that. -/
theorem pairwise_above {K : Type} [Preorder K] {above : Option K} {k : K} {keys : List K} :
    (above.toList ++ k :: keys).Pairwise (· < ·) ↔
      (∀ b ∈ above, b < k) ∧ ((some k).toList ++ keys).Pairwise (· < ·) := by
  cases above with
  | none => simp
  | some b =>
      simp only [Option.toList_some, List.singleton_append, List.pairwise_cons, List.mem_cons,
        Option.mem_def, Option.some.injEq, forall_eq_or_imp]
      constructor
      · rintro ⟨⟨hlt, -⟩, hrest⟩
        exact ⟨fun _ hb => hb ▸ hlt, hrest⟩
      · rintro ⟨hlt, hrest⟩
        have hbk := hlt b rfl
        exact ⟨⟨hbk, fun c hc => hbk.trans (hrest.1 c hc)⟩, hrest⟩

/-- One stream is harmless to a live subscription exactly when it is
accepted and above the newest one; then the subscription lives on with this
stream as its newest. -/
theorem mem_recvStream_iff (hs : Live s id recv) (a : Arrival id) :
    id ∈ (s.recvStream a.stream).2.subscribes ↔
      Accepting recv ∧ ∀ k ∈ newest recv (s.shared id).track, k < a.key := by
  constructor
  · intro hmem
    by_contra hbad
    refine recvStream_stale hs a ?_ hmem
    intro haccepting
    have hsome : ∃ k ∈ newest recv (s.shared id).track, ¬ k < a.key := by
      by_contra hall
      exact hbad ⟨haccepting, fun k hk => by_contra fun hlt => hall ⟨k, hk, hlt⟩⟩
    obtain ⟨k, hk, hlt⟩ := hsome
    exact ⟨k, hk, not_lt.mp hlt⟩
  · rintro ⟨haccepting, hnew⟩
    obtain ⟨w, cell, hlive, -⟩ := recvStream_newest hs haccepting a hnew
    exact Finmap.mem_of_lookup_eq_some hlive.registered

theorem newest_recvStream (hs : Live s id recv) (haccepting : Accepting recv) (a : Arrival id)
    (hnew : ∀ k ∈ newest recv (s.shared id).track, k < a.key) :
    ∃ w, Live (s.recvStream a.stream).2 id ⟨some (.subgroups w)⟩ ∧
      newest ⟨some (.subgroups w)⟩ ((s.recvStream a.stream).2.shared id).track = some a.key ∧
      (s.recvStream a.stream).2.Delivered a := by
  obtain ⟨w, cell, hlive, hholds, hlatest, hcells⟩ := recvStream_newest hs haccepting a hnew
  refine ⟨w, hlive, ?_, _, cell, hlatest, ?_, hholds.info, ?_, hholds.complete⟩
  · simp only [newest, hlatest, Option.map_some]
    rfl
  · rw [hcells]
    simp
  · rw [← payload_renumber 0, ← hholds.contents, List.map_map]
    rfl

/-- Streams for a live subscription may arrive in this order without harm
exactly when there is none, or the subscription takes subgroup streams and
each of them is above all before it. -/
theorem harmless_iff (s : Subscriber) (id : Nat) (recv : SubscribeRecv)
    (arrivals : List (Arrival id)) (hs : Live s id recv) :
    Harmless id s arrivals ↔ arrivals = [] ∨ Accepting recv ∧
      ((newest recv (s.shared id).track).toList ++ arrivals.map Arrival.key).Pairwise (· < ·) := by
  induction arrivals generalizing s recv with
  | nil => simp [Harmless]
  | cons a rest ih =>
      simp only [reduceCtorEq, false_or]
      constructor
      · rintro ⟨hmem, -, -, hrest⟩
        obtain ⟨haccepting, hnew⟩ := (mem_recvStream_iff hs a).mp hmem
        obtain ⟨w, hlive, hnewest, -⟩ := newest_recvStream hs haccepting a hnew
        refine ⟨haccepting, pairwise_above.mpr ⟨hnew, ?_⟩⟩
        rcases (ih _ _ hlive).mp hrest with rfl | ⟨-, hpairs⟩
        · simp
        · rwa [hnewest] at hpairs
      · rintro ⟨haccepting, hpairs⟩
        obtain ⟨hnew, hrest⟩ := pairwise_above.mp hpairs
        obtain ⟨w, hlive, hnewest, hdelivered⟩ := newest_recvStream hs haccepting a hnew
        refine ⟨Finmap.mem_of_lookup_eq_some hlive.registered, hlive.noError,
          fun _ => hdelivered, (ih _ _ hlive).mpr (.inr ⟨trivial, ?_⟩)⟩
        rwa [hnewest]

/-- Receiving streams never adds a subscription. -/
theorem mem_of_mem_recvStreams {streams : List RecvStream}
    (hmem : id ∈ (s.recvStreams streams).subscribes) : id ∈ s.subscribes := by
  induction streams generalizing s with
  | nil => exact hmem
  | cons stream streams ih => exact (narrows_recvStream s stream).mem (ih hmem)

/-- A subscription that is still registered after some streams has received
every one of them whole, in increasing order. -/
theorem recvStreams_received (hs : Live s id recv) (haccepting : Accepting recv)
    {arrivals : List (Arrival id)}
    (hmem : id ∈ (s.recvStreams (arrivals.map Arrival.stream)).subscribes) :
    ((newest recv (s.shared id).track).toList ++ arrivals.map Arrival.key).Pairwise (· < ·) ∧
      ∃ cells, List.Forall₂ Holds cells arrivals ∧ (arrivals ≠ [] →
        ((s.recvStreams (arrivals.map Arrival.stream)).shared id).track.subgroups.cells =
          received recv (s.shared id).track ++ cells) := by
  induction arrivals generalizing s recv with
  | nil =>
      refine ⟨?_, [], .nil, fun hne => absurd rfl hne⟩
      cases newest recv (s.shared id).track <;> simp
  | cons a rest ih =>
      have hfirst := (mem_recvStream_iff hs a).mp (mem_of_mem_recvStreams hmem)
      obtain ⟨w, cell, hlive, hholds, hlatest, hcells⟩ :=
        recvStream_newest hs haccepting a hfirst.2
      obtain ⟨hpairs, cells, hall, hreceived⟩ := ih hlive trivial hmem
      have hnewest : newest ⟨some (.subgroups w)⟩ ((s.recvStream a.stream).2.shared id).track =
          some a.key := by
        simp only [newest, hlatest, Option.map_some]
        rfl
      rw [hnewest] at hpairs
      refine ⟨pairwise_above.mpr ⟨hfirst.2, hpairs⟩, cell :: cells, .cons hholds hall, ?_⟩
      intro _
      cases hall with
      | nil => exact hcells
      | cons _ _ =>
          refine (hreceived (by simp)).trans ?_
          simp only [received, hcells, List.append_assoc, List.singleton_append]

/-- Streams in increasing order leave the subscription registered. -/
theorem mem_recvStreams (hs : Live s id recv) (haccepting : Accepting recv)
    {arrivals : List (Arrival id)}
    (hpairs : ((newest recv (s.shared id).track).toList ++
      arrivals.map Arrival.key).Pairwise (· < ·)) :
    id ∈ (s.recvStreams (arrivals.map Arrival.stream)).subscribes := by
  induction arrivals generalizing s recv with
  | nil => exact Finmap.mem_of_lookup_eq_some hs.registered
  | cons a rest ih =>
      obtain ⟨hnew, hrest⟩ := pairwise_above.mp hpairs
      obtain ⟨w, hlive, hnewest, -⟩ := newest_recvStream hs haccepting a hnew
      refine ih hlive trivial ?_
      rwa [hnewest]

theorem live_subscribed (id : Nat) : Live (subscribed id) id ⟨some .track⟩ :=
  ⟨Finmap.lookup_singleton_eq, by rintro writer ⟨⟩; rfl, ⟨rfl, rfl, rfl, rfl⟩⟩

/-- A stream with one object of one byte. -/
def byteArrival (group : Nat) (hgroup : fitsVarInt group) : Arrival 4 where
  header := ⟨4, 4, group, 0, 127⟩
  objects := [⟨0, .object, [7]⟩]
  stream := wholeStream (streamWire ⟨4, 4, group, 0, 127⟩ [⟨0, .object, [7]⟩])
  addressed := rfl
  header_ok := ⟨(by decide : fitsVarInt 4), (by decide : fitsVarInt 4), hgroup,
    (by decide : fitsVarInt 0)⟩
  objects_ok := by
    simp [ObjectContent.Ok, ObjectContent.header, SubgroupObject.Ok, SubgroupObject.Canonical]
  nonempty := by simp
  bytes := joined_wholeStream _

theorem harmless_in_order :
    Harmless 4 (subscribed 4) [byteArrival 0 (by decide), byteArrival 1 (by decide)] :=
  (harmless_iff _ _ _ _ (live_subscribed 4)).mpr (.inr ⟨trivial, by decide⟩)

/-- Group 0 after group 1: the late stream removes the subscription. -/
theorem recvStreams_late :
    ([byteArrival 1 (by decide), byteArrival 0 (by decide)].map Arrival.key).Nodup ∧
      4 ∉ ((subscribed 4).recvStreams
        [(byteArrival 1 (by decide)).stream, (byteArrival 0 (by decide)).stream]).subscribes := by
  refine ⟨by decide, ?_⟩
  intro hmem
  obtain ⟨w, hlive, hnewest, -⟩ := newest_recvStream (live_subscribed 4) trivial
    (byteArrival 1 (by decide)) (by rintro k ⟨⟩)
  have hlate := ((mem_recvStream_iff hlive (byteArrival 0 (by decide))).mp hmem).2 _ hnewest
  revert hlate
  decide

end Subscriber

end MoqTransport.Session
