import MoqTransport.Session.Arrival
import MoqTransport.Session.Subscribed

/-!
Datagrams over a transport without datagrams. The publisher sends each one as
the only object of subgroup 0 of its group; the subscriber expects every
(group, subgroup) once and in order, and numbers the objects itself. The two
sides agree exactly on sequences with one object 0 in each of a series of
increasing groups (`losesNothing_iff`).
-/

namespace MoqTransport.Session

open Streaming Coding Data Serve

/-- A datagram as the wire keeps it: a status survives only without a
payload. -/
def onWire (d : Serve.Datagram) : ObjectContent :=
  ⟨d.objectId, if d.payload = [] then d.status else .object, d.payload⟩

def fallbackHeader (id trackAlias : Nat) (d : Serve.Datagram) : SubgroupHeader :=
  ⟨id, trackAlias, d.groupId, 0, d.priority⟩

/-- The ids and the length of the datagram can be encoded. -/
structure Fits (d : Serve.Datagram) : Prop where
  group : fitsVarInt d.groupId
  object : fitsVarInt d.objectId
  payload : fitsVarInt d.payload.length

theorem onWire_ok {d : Serve.Datagram} (hd : Fits d) : (onWire d).Ok := by
  refine ⟨⟨hd.object, hd.payload⟩, ?_⟩
  intro hsize
  have hpayload : d.payload ≠ [] := fun hnil => hsize (by simp [ObjectContent.header, onWire, hnil])
  simp [ObjectContent.header, onWire, hpayload]

/-- The status is left out of the bytes exactly where it is lost. -/
theorem onWire_wire (d : Serve.Datagram) :
    (⟨d.objectId, d.payload.length, d.status⟩ : Data.SubgroupObject).wire ++ d.payload =
      (onWire d).wire := by
  unfold onWire ObjectContent.wire ObjectContent.header Data.SubgroupObject.wire statusWire
  cases hpayload : d.payload with
  | nil => simp
  | cons b bs => simp

/-- The stream of a datagram that can be encoded. -/
def fallbackStream (id trackAlias : Nat) (d : Serve.Datagram) : SendStream :=
  ⟨streamWire (fallbackHeader id trackAlias d) [onWire d], true⟩

section Sender

variable {id trackAlias : Nat} (hid : fitsVarInt id) (halias : fitsVarInt trackAlias)

include hid halias

theorem sendFallback_fits {d : Serve.Datagram} (hd : Fits d) :
    sendFallback id trackAlias d = (.ok (), fallbackStream id trackAlias d) := by
  have hheader : encoded (Header.subgroup (fallbackHeader id trackAlias d)).encode =
      .ok (Header.subgroup (fallbackHeader id trackAlias d)).wire :=
    encoded_eq (Header.emits_encode _) ⟨hid, halias, hd.group, (by decide : fitsVarInt 0)⟩
      ((Header.wire_length_le _).trans (by decide))
  have hobject : encoded
      (⟨d.objectId, d.payload.length, d.status⟩ : Data.SubgroupObject).encode = .ok
      (⟨d.objectId, d.payload.length, d.status⟩ : Data.SubgroupObject).wire :=
    encoded_eq (Data.SubgroupObject.emits_encode _) ⟨hd.object, hd.payload⟩
      ((Data.SubgroupObject.wire_length_le _).trans (by decide))
  unfold fallbackHeader at hheader
  simp only [sendFallback, hheader, hobject]
  rw [List.append_assoc, onWire_wire]
  simp [fallbackStream, fallbackHeader, streamWire]

theorem sendFallback_unfit {d : Serve.Datagram} (hd : ¬ Fits d) :
    ∃ fault stream, sendFallback id trackAlias d = (.error fault, stream) ∧
      stream.finished = false := by
  by_cases hgroup : fitsVarInt d.groupId
  · have hheader : encoded (Header.subgroup (fallbackHeader id trackAlias d)).encode =
        .ok (Header.subgroup (fallbackHeader id trackAlias d)).wire :=
      encoded_eq (Header.emits_encode _) ⟨hid, halias, hgroup, (by decide : fitsVarInt 0)⟩
        ((Header.wire_length_le _).trans (by decide))
    obtain ⟨fault, hobject⟩ := encoded_error (Data.SubgroupObject.emits_encode
      ⟨d.objectId, d.payload.length, d.status⟩) (fun hok => hd ⟨hgroup, hok.1, hok.2⟩)
    unfold fallbackHeader at hheader
    refine ⟨fault, ⟨(Header.subgroup (fallbackHeader id trackAlias d)).wire, false⟩, ?_, rfl⟩
    simp only [sendFallback, hheader, hobject]
    rfl
  · obtain ⟨fault, hheader⟩ := encoded_error
      (Header.emits_encode (.subgroup (fallbackHeader id trackAlias d)))
      (fun hok => hgroup hok.2.2.1)
    unfold fallbackHeader at hheader
    refine ⟨fault, ⟨[], false⟩, ?_, rfl⟩
    simp only [sendFallback, hheader]

/-- The transport takes no datagram, so one that can be encoded becomes a
stream. -/
theorem serveDatagrams_cons {d : Serve.Datagram} (hd : Fits d) (useStreamFallback : Bool)
    (ds : List Serve.Datagram) {state : Watch.State SubscribedState}
    (hlive : state.dropped = false) (out : Outbox) :
    serveDatagrams (fun _ => false) id trackAlias useStreamFallback (d :: ds) state out =
      serveDatagrams (fun _ => false) id trackAlias true ds
        (state.update (·.updateMaxGroupId d.groupId d.objectId))
        { out with streams := out.streams ++ [fallbackStream id trackAlias d] } := by
  have hsend := sendFallback_fits hid halias hd
  have hdatagram : encoded (Data.Datagram.encode ⟨id, trackAlias, d.groupId, d.objectId,
      d.priority, d.status, d.payload.length, d.payload⟩) = .ok _ :=
    encoded_eq (Data.Datagram.emits_encode _) ⟨hid, halias, hd.group, hd.object, hd.payload⟩
      ((Data.Datagram.wire_length_le _).trans (by
        have hlen : d.payload.length < 2 ^ 62 := hd.payload
        simp only
        omega))
  cases useStreamFallback with
  | true => simp [serveDatagrams, hsend, hlive]
  | false => simp [serveDatagrams, hsend, hdatagram, hlive]

theorem serveDatagrams_fits {ds : List Serve.Datagram} (hds : ∀ d ∈ ds, Fits d)
    (useStreamFallback : Bool) {state : Watch.State SubscribedState}
    (hlive : state.dropped = false) (out : Outbox) :
    (serveDatagrams (fun _ => false) id trackAlias useStreamFallback ds state out).2.2.streams =
      out.streams ++ ds.map (fallbackStream id trackAlias) := by
  induction ds generalizing useStreamFallback state out with
  | nil => simp [serveDatagrams]
  | cons d ds ih =>
      have hlive' : (state.update (·.updateMaxGroupId d.groupId d.objectId)).dropped = false :=
        hlive
      rw [serveDatagrams_cons hid halias (hds d (by simp)) _ _ hlive,
        ih (fun d hd => hds d (by simp [hd])) true hlive']
      simp

/-- The first datagram that cannot be encoded ends the serving; what is sent
of it is not finished. -/
theorem serveDatagrams_unfit {sent : List Serve.Datagram} (hsent : ∀ d ∈ sent, Fits d)
    {d : Serve.Datagram} (hd : ¬ Fits d) (rest : List Serve.Datagram) (useStreamFallback : Bool)
    {state : Watch.State SubscribedState} (hlive : state.dropped = false) (out : Outbox) :
    ∃ cut : List SendStream, (∀ stream ∈ cut, stream.finished = false) ∧
      (serveDatagrams (fun _ => false) id trackAlias useStreamFallback (sent ++ d :: rest)
        state out).2.2.streams = out.streams ++ sent.map (fallbackStream id trackAlias) ++ cut := by
  induction sent generalizing useStreamFallback state out with
  | nil =>
      obtain ⟨fault, stream, hsend, hunfinished⟩ := sendFallback_unfit hid halias hd
      cases useStreamFallback with
      | true =>
          refine ⟨[stream], by simpa using hunfinished, ?_⟩
          simp [serveDatagrams, hsend]
      | false =>
          obtain ⟨fault', hdatagram⟩ := encoded_error (Data.Datagram.emits_encode ⟨id, trackAlias,
            d.groupId, d.objectId, d.priority, d.status, d.payload.length, d.payload⟩)
            (fun hok => hd ⟨hok.2.2.1, hok.2.2.2.1, hok.2.2.2.2⟩)
          refine ⟨[], by simp, ?_⟩
          simp [serveDatagrams, hdatagram]
  | cons first sent ih =>
      have hlive' : (state.update
          (·.updateMaxGroupId first.groupId first.objectId)).dropped = false := hlive
      rw [List.cons_append, serveDatagrams_cons hid halias (hsent first (by simp)) _ _ hlive]
      obtain ⟨cut, hcut, hstreams⟩ := ih (fun d hd => hsent d (by simp [hd])) true hlive'
        { out with streams := out.streams ++ [fallbackStream id trackAlias first] }
      refine ⟨cut, hcut, ?_⟩
      rw [hstreams]
      simp

end Sender

/-- A sent stream as the peer gets it: all of a finished one; of an
unfinished one a part, and then the reset. -/
def Carries (sent : SendStream) (stream : RecvStream) : Prop :=
  if sent.finished then
    joined stream.pieces = sent.sent ∧ stream.failure = none
  else
    joined stream.pieces <+: sent.sent ∧ stream.failure ≠ none

/-- The subscription has just been made. -/
structure Fresh (s : Subscriber) (id : Nat) : Prop where
  registered : s.subscribes.lookup id = some ⟨some .track⟩
  track : (s.shared id).track = Track.produce

/-- The track of the subscription has an object with the ids, the status and
the payload of the datagram. -/
def Contains (s : Subscriber) (id : Nat) (d : Serve.Datagram) : Prop :=
  ∃ cell ∈ (s.shared id).track.subgroups.cells, cell.info.groupId = d.groupId ∧
    ∃ o ∈ cell.state.value.objects,
      o.content = ⟨d.objectId, d.status, d.payload⟩ ∧ o.Complete

/-- Whichever way the streams arrive, in their order, the subscription stays
and its track has every datagram. -/
def LosesNothing (s : Subscriber) (id : Nat) (streams : List SendStream)
    (ds : List Serve.Datagram) : Prop :=
  ∀ arrivals, List.Forall₂ Carries streams arrivals →
    id ∈ (s.recvStreams arrivals).subscribes ∧ ∀ d ∈ ds, Contains (s.recvStreams arrivals) id d

theorem Fresh.live {s : Subscriber} {id : Nat} (h : Fresh s id) : Live s id ⟨some .track⟩ := by
  refine ⟨h.registered, ?_, ?_⟩
  · rintro writer ⟨⟩
    rw [h.track]
    rfl
  · rw [h.track]
    exact ⟨rfl, rfl, rfl, rfl⟩

section Receiver

variable {id trackAlias : Nat} (hid : fitsVarInt id) (halias : fitsVarInt trackAlias)

/-- The arrival is the stream of the datagram. -/
def IsFallback (trackAlias : Nat) (a : Arrival id) (d : Serve.Datagram) : Prop :=
  a.header = fallbackHeader id trackAlias d ∧ a.objects = [onWire d]

include hid halias in
theorem exists_arrivals {ds : List Serve.Datagram} (hds : ∀ d ∈ ds, Fits d)
    {streams : List RecvStream}
    (hstreams : List.Forall₂ Carries (ds.map (fallbackStream id trackAlias)) streams) :
    ∃ arrivals : List (Arrival id), arrivals.map Arrival.stream = streams ∧
      List.Forall₂ (IsFallback trackAlias) arrivals ds := by
  induction ds generalizing streams with
  | nil =>
      cases hstreams
      exact ⟨[], rfl, .nil⟩
  | cons d ds ih =>
      cases hstreams with
      | cons hcarries hrest =>
          have hd := hds d (by simp)
          obtain ⟨arrivals, hmap, hall⟩ := ih (fun d hd => hds d (by simp [hd])) hrest
          rw [Carries, if_pos (show (fallbackStream id trackAlias d).finished = true from rfl)]
            at hcarries
          refine ⟨⟨fallbackHeader id trackAlias d, [onWire d], _, rfl,
            ⟨hid, halias, hd.group, (by decide : fitsVarInt 0)⟩, by simpa using onWire_ok hd,
            by simp, hcarries.1⟩ :: arrivals, ?_, .cons ⟨rfl, rfl⟩ hall⟩
          rw [List.map_cons, hmap]

theorem keys_fallback {arrivals : List (Arrival id)} {ds : List Serve.Datagram}
    (h : List.Forall₂ (IsFallback trackAlias) arrivals ds) :
    arrivals.map Arrival.key = ds.map fun d => toLex (d.groupId, 0) := by
  induction h with
  | nil => rfl
  | cons hfirst _ ih =>
      rw [List.map_cons, List.map_cons, ih]
      congr 1
      rw [Arrival.key, hfirst.1]
      rfl

theorem pairwise_keys_iff (ds : List Serve.Datagram) :
    (ds.map fun d => toLex (d.groupId, 0)).Pairwise (· < ·) ↔
      (ds.map Serve.Datagram.groupId).Pairwise (· < ·) := by
  rw [List.pairwise_map, List.pairwise_map]
  have hiff (d d' : Serve.Datagram) :
      toLex (d.groupId, 0) < toLex (d'.groupId, 0) ↔ d.groupId < d'.groupId := by
    simp [Prod.Lex.toLex_lt_toLex]
  simp only [hiff]

/-- The subgroup has one object, number 0 with the status `object`, and the
payload of the datagram. -/
def HoldsDatagram (cell : SubgroupCell) (d : Serve.Datagram) : Prop :=
  cell.info.groupId = d.groupId ∧ ∃ o, cell.state.value.objects = [o] ∧
    o.content = ⟨0, .object, d.payload⟩ ∧ o.Complete

theorem Holds.datagram {a : Arrival id} {d : Serve.Datagram} (ha : IsFallback trackAlias a d)
    {cell : SubgroupCell} (hcell : Holds cell a) : HoldsDatagram cell d := by
  have hcontents := hcell.contents
  rw [ha.2] at hcontents
  obtain ⟨o, hobjects, ho⟩ := List.map_eq_singleton_iff.mp hcontents
  refine ⟨by rw [hcell.info, ha.1]; rfl, o, hobjects, ho, hcell.complete o (by simp [hobjects])⟩

theorem holdsDatagram_all {arrivals : List (Arrival id)} {cells : List SubgroupCell}
    {ds : List Serve.Datagram} (hcells : List.Forall₂ Holds cells arrivals)
    (hall : List.Forall₂ (IsFallback trackAlias) arrivals ds) :
    List.Forall₂ HoldsDatagram cells ds := by
  induction hall generalizing cells with
  | nil =>
      cases hcells
      exact .nil
  | cons hfirst _ ih =>
      cases hcells with
      | cons hcell hrest => exact .cons (hcell.datagram hfirst) (ih hrest)

variable {s : Subscriber} (hs : Fresh s id) {sent : List Serve.Datagram}
  (hsent : ∀ d ∈ sent, Fits d) {streams : List RecvStream}
  (hstreams : List.Forall₂ Carries (sent.map (fallbackStream id trackAlias)) streams)

include hid halias hs hsent hstreams in
/-- If the subscription is still there, the groups increased and the track
has one subgroup for each datagram. -/
theorem recvStreams_fallback (hmem : id ∈ (s.recvStreams streams).subscribes) :
    (sent.map Serve.Datagram.groupId).Pairwise (· < ·) ∧ List.Forall₂ HoldsDatagram
      ((s.recvStreams streams).shared id).track.subgroups.cells sent := by
  obtain ⟨arrivals, rfl, hall⟩ := exists_arrivals hid halias hsent hstreams
  obtain ⟨hpairs, cells, hholds, hcells⟩ :=
    Subscriber.recvStreams_received hs.live trivial hmem
  constructor
  · rw [← pairwise_keys_iff, ← keys_fallback hall]
    exact hpairs
  · have hdatagrams := holdsDatagram_all hholds hall
    cases hall with
    | nil =>
        change List.Forall₂ _ (s.shared id).track.subgroups.cells []
        rw [hs.track]
        exact .nil
    | cons _ _ =>
        rw [hcells (by simp)]
        exact hdatagrams

include hid halias hs hsent hstreams in
theorem mem_recvStreams_fallback (hgroups : (sent.map Serve.Datagram.groupId).Pairwise (· < ·)) :
    id ∈ (s.recvStreams streams).subscribes := by
  obtain ⟨arrivals, rfl, hall⟩ := exists_arrivals hid halias hsent hstreams
  refine Subscriber.mem_recvStreams hs.live trivial ?_
  change (arrivals.map Arrival.key).Pairwise (· < ·)
  rw [keys_fallback hall, pairwise_keys_iff]
  exact hgroups

end Receiver

/-- What the publisher sends of a sequence over a transport that takes no
datagram. -/
def fallbackStreams (id trackAlias : Nat) (ds : List Serve.Datagram)
    (state : Watch.State SubscribedState) : List SendStream :=
  (serveDatagrams (fun _ => false) id trackAlias false ds state ⟨[], []⟩).2.2.streams

/-- Everything up to the first datagram that cannot be encoded is sent. -/
theorem fallbackStreams_eq {id trackAlias : Nat} (hid : fitsVarInt id)
    (halias : fitsVarInt trackAlias) (ds : List Serve.Datagram)
    {state : Watch.State SubscribedState} (hlive : state.dropped = false) :
    ∃ sent cut, (∀ d ∈ sent, Fits d) ∧ (∀ stream ∈ cut, stream.finished = false) ∧
      fallbackStreams id trackAlias ds state = sent.map (fallbackStream id trackAlias) ++ cut ∧
      (sent = ds ∨ ∃ d ∈ ds, ¬ Fits d) := by
  by_cases hall : ∀ d ∈ ds, Fits d
  · refine ⟨ds, [], hall, by simp, ?_, .inl rfl⟩
    rw [fallbackStreams, serveDatagrams_fits hid halias hall false hlive]
    simp
  · -- Split the sequence at the first datagram that does not fit.
    have hsplit : ∃ sent d rest, ds = sent ++ d :: rest ∧ (∀ d ∈ sent, Fits d) ∧ ¬ Fits d := by
      clear hlive
      induction ds with
      | nil => exact absurd (by simp) hall
      | cons d ds ih =>
          by_cases hd : Fits d
          · have hrest : ¬ ∀ d ∈ ds, Fits d := fun hrest =>
              hall (List.forall_mem_cons.mpr ⟨hd, hrest⟩)
            obtain ⟨sent, bad, rest, rfl, hsent, hbad⟩ := ih hrest
            exact ⟨d :: sent, bad, rest, rfl, List.forall_mem_cons.mpr ⟨hd, hsent⟩, hbad⟩
          · exact ⟨[], d, ds, rfl, by simp, hd⟩
    obtain ⟨sent, d, rest, rfl, hsent, hd⟩ := hsplit
    obtain ⟨cut, hcut, hstreams⟩ :=
      serveDatagrams_unfit hid halias hsent hd rest false hlive ⟨[], []⟩
    exact ⟨sent, cut, hsent, hcut, by rw [fallbackStreams, hstreams]; simp, .inr ⟨d, by simp, hd⟩⟩

/-- The peer's view of sent streams: all pieces at once, or an immediate
reset. -/
def atOnce (sent : SendStream) : RecvStream :=
  if sent.finished then wholeStream sent.sent else ⟨[], some "reset"⟩

theorem carries_atOnce (streams : List SendStream) :
    List.Forall₂ Carries streams (streams.map atOnce) := by
  rw [List.forall₂_map_right_iff, List.forall₂_same]
  intro stream _
  unfold Carries atOnce
  cases stream.finished with
  | true => exact ⟨joined_wholeStream _, rfl⟩
  | false => simp [joined]

/-- A reset before the first byte changes nothing. -/
theorem recvStreams_cut (s : Subscriber) {cut : List SendStream}
    (hcut : ∀ stream ∈ cut, stream.finished = false) : s.recvStreams (cut.map atOnce) = s := by
  induction cut with
  | nil => rfl
  | cons stream cut ih =>
      have hreset : atOnce stream = ⟨[], some "reset"⟩ := by
        rw [atOnce, if_neg (by simp [hcut stream (by simp)])]
      have hfirst : (s.recvStream (atOnce stream)).2 = s := by
        rw [hreset]
        rfl
      rw [List.map_cons, Subscriber.recvStreams, List.foldl_cons, hfirst]
      exact ih fun stream hstream => hcut stream (by simp [hstream])

/-- The datagrams that survive: object 0 of their group, with the status
`object`. -/
structure Survives (d : Serve.Datagram) : Prop where
  object : d.objectId = 0
  status : d.status = .object
  group : fitsVarInt d.groupId
  payload : fitsVarInt d.payload.length

theorem Survives.fits {d : Serve.Datagram} (h : Survives d) : Fits d :=
  ⟨h.group, by rw [h.object]; decide, h.payload⟩

section Fallback

variable {id trackAlias : Nat} (hid : fitsVarInt id) (halias : fitsVarInt trackAlias)
  {s : Subscriber} (hs : Fresh s id) {ds : List Serve.Datagram}
  {state : Watch.State SubscribedState} (hlive : state.dropped = false)

include hid halias hs hlive in
theorem survives_of_losesNothing
    (h : LosesNothing s id (fallbackStreams id trackAlias ds state) ds) :
    (∀ d ∈ ds, Survives d) ∧ (ds.map Serve.Datagram.groupId).Pairwise (· < ·) := by
  obtain ⟨sent, cut, hsent, hcut, hstreams, hrest⟩ := fallbackStreams_eq hid halias ds hlive
  rw [hstreams] at h
  obtain ⟨hmem, hcontains⟩ := h _ (carries_atOnce _)
  -- The streams that were not finished are reset, and nothing is left of them.
  have hrun : s.recvStreams ((sent.map (fallbackStream id trackAlias) ++ cut).map atOnce) =
      s.recvStreams ((sent.map (fallbackStream id trackAlias)).map atOnce) := by
    rw [List.map_append]
    exact (List.foldl_append ..).trans (recvStreams_cut _ hcut)
  rw [hrun] at hmem hcontains
  obtain ⟨hgroups, hcells⟩ :=
    recvStreams_fallback hid halias hs hsent (carries_atOnce _) hmem
  have hsurvives (d) (hd : d ∈ ds) : Survives d := by
    obtain ⟨cell, hcell, hgroup, o, ho, hcontent, -⟩ := hcontains d hd
    obtain ⟨d', hd', hinfo, o', hobjects, hcontent', -⟩ :=
      exists_of_forall₂ hcells hcell
    obtain rfl : o = o' := by simpa [hobjects] using ho
    rw [hcontent, ObjectContent.mk.injEq] at hcontent'
    obtain ⟨hobject, hstatus, hpayload⟩ := hcontent'
    have hfits := hsent d' hd'
    exact ⟨hobject, hstatus, hgroup ▸ hinfo ▸ hfits.group, hpayload ▸ hfits.payload⟩
  refine ⟨hsurvives, ?_⟩
  rcases hrest with rfl | ⟨d, hd, hunfit⟩
  · exact hgroups
  · exact absurd (hsurvives d hd).fits hunfit

/-- Over a transport that takes no datagram a sequence arrives complete
exactly when every datagram is object 0 of its group with the status
`object`, the groups increase, and groups and lengths can be encoded. -/
theorem losesNothing_iff (id trackAlias : Nat) (ds : List Serve.Datagram) (s : Subscriber)
    (state : Watch.State SubscribedState) (hid : fitsVarInt id) (halias : fitsVarInt trackAlias)
    (hs : Fresh s id) (hlive : state.dropped = false) :
    LosesNothing s id (fallbackStreams id trackAlias ds state) ds ↔
      (∀ d ∈ ds, Survives d) ∧ (ds.map Serve.Datagram.groupId).Pairwise (· < ·) := by
  refine ⟨survives_of_losesNothing hid halias hs hlive, ?_⟩
  rintro ⟨hsurvives, hgroups⟩ streams hcarries
  have hfits (d) (hd : d ∈ ds) : Fits d := (hsurvives d hd).fits
  have hstreams : fallbackStreams id trackAlias ds state =
      ds.map (fallbackStream id trackAlias) := by
    rw [fallbackStreams, serveDatagrams_fits hid halias hfits false hlive]
    simp
  rw [hstreams] at hcarries
  have hmem := mem_recvStreams_fallback hid halias hs hfits hcarries hgroups
  obtain ⟨-, hcells⟩ := recvStreams_fallback hid halias hs hfits hcarries hmem
  refine ⟨hmem, ?_⟩
  intro d hd
  obtain ⟨cell, hcell, hinfo, o, hobjects, hcontent, hcomplete⟩ :=
    exists_of_forall₂ hcells.flip hd
  refine ⟨cell, hcell, hinfo, o, by simp [hobjects], ?_, hcomplete⟩
  rw [hcontent, (hsurvives d hd).object, (hsurvives d hd).status]

end Fallback

theorem fresh_subscribed (id : Nat) : Fresh (Subscriber.subscribed id) id :=
  ⟨Finmap.lookup_singleton_eq, rfl⟩

/-- A datagram with one byte. -/
def oneByte (group object : Nat) : Serve.Datagram := ⟨group, object, 127, .object, [7]⟩

theorem losesNothing_two_groups :
    LosesNothing (Subscriber.subscribed 4) 4
      (fallbackStreams 4 4 [oneByte 0 0, oneByte 1 0] (Watch.State.new ⟨none, none⟩))
      [oneByte 0 0, oneByte 1 0] :=
  (losesNothing_iff 4 4 _ _ _ (by decide) (by decide) (fresh_subscribed 4) rfl).mpr
    ⟨by simpa using ⟨⟨rfl, rfl, by decide, by decide⟩, ⟨rfl, rfl, by decide, by decide⟩⟩, by decide⟩

/-- Objects 0 and 1 of one group do not both arrive. -/
theorem not_losesNothing_one_group :
    ([oneByte 0 0, oneByte 0 1].map fun d => (d.groupId, d.objectId)).Nodup ∧
      ¬ LosesNothing (Subscriber.subscribed 4) 4
        (fallbackStreams 4 4 [oneByte 0 0, oneByte 0 1] (Watch.State.new ⟨none, none⟩))
        [oneByte 0 0, oneByte 0 1] := by
  refine ⟨by decide, ?_⟩
  intro h
  have hgroups := (survives_of_losesNothing (by decide) (by decide) (fresh_subscribed 4) rfl h).2
  revert hgroups
  decide

end MoqTransport.Session
