import MoqTransport.Session.Arrival
import MoqTransport.Session.Subscribe

/-!
What a subscription loses when something is rejected. A stream or a datagram
that its track cannot take costs it the writer, and with it the track
(`intact_iff`). A subscription the peer rejects first closes its track, and
reports the rejection only if that works (`reported_iff`).
-/

namespace MoqTransport.Session

open Streaming Coding Data Serve

/-- What arrives for a subscription. -/
inductive Incoming where
  | track (header : TrackHeader)
  | subgroup (header : SubgroupHeader)
  | datagram (datagram : Data.Datagram)

/-- The track of the writer does not take what arrives: it has another mode,
or already has the subgroup as its latest. -/
def Rejects (track : Track) : TrackWriterMode → Incoming → Prop
  | .track, _ => False
  | .subgroups _, .subgroup header =>
      ∃ latest ∈ track.subgroups.state.value.latest, latest.info.key = (subgroupOf header).key
  | .datagrams, .datagram _ => False
  | _, _ => True

namespace SubscribeRecv

def receive (recv : SubscribeRecv) (track : Track) :
    Incoming → Except ServeError Unit × SubscribeRecv × Track
  | .track header => recv.track track header
  | .subgroup header =>
      let (result, recv, track) := recv.subgroup track header
      (result.map fun _ => (), recv, track)
  | .datagram datagram => recv.datagram track datagram

/-- An error of the mode or of a duplicate changes nothing. -/
def Intact (recv : SubscribeRecv) (track : Track) (a : Incoming) : Prop :=
  (recv.receive track a).1 = .error .mode ∨ (recv.receive track a).1 = .error .duplicate →
    (recv.receive track a).2 = (recv, track)

variable {writer : TrackWriterMode} {track : Track} {a : Incoming}

/-- The writer of a rejected arrival is gone, and its track has ended. -/
theorem receive_rejected (halive : ReaderAlive track writer) (h : Rejects track writer a) :
    ∃ e, (e = .mode ∨ e = .duplicate) ∧
      (⟨some writer⟩ : SubscribeRecv).receive track a = (.error e, ⟨none⟩, writer.drop track) := by
  cases writer with
  | track => exact absurd h not_false
  | stream =>
      refine ⟨.mode, .inl rfl, ?_⟩
      cases a <;> rfl
  | subgroups w =>
      cases a with
      | subgroup header =>
          have hcreate := (w.create_duplicate_iff halive).mpr h
          refine ⟨.duplicate, .inr rfl, ?_⟩
          simp only [receive, subgroup, subgroupsWriter, hcreate]
          rfl
      | track header => exact ⟨.mode, .inl rfl, rfl⟩
      | datagram d => exact ⟨.mode, .inl rfl, rfl⟩
  | datagrams =>
      cases a with
      | datagram d => exact absurd h not_false
      | track header => exact ⟨.mode, .inl rfl, rfl⟩
      | subgroup header => exact ⟨.mode, .inl rfl, rfl⟩

/-- A track without a mode takes whatever comes first. -/
theorem receive_first (halive : track.state.dropped = false) :
    ((⟨some .track⟩ : SubscribeRecv).receive track a).1 = .ok () := by
  cases a with
  | track header =>
      simp only [receive, SubscribeRecv.track, TrackWriter.stream, TrackWriter.setMode, halive]
      rfl
  | subgroup header =>
      simp only [receive, subgroup, subgroupsWriter, TrackWriter.groups, TrackWriter.setMode,
        halive]
      rfl
  | datagram d =>
      simp only [receive, datagram, datagramsWriter, TrackWriter.datagrams, TrackWriter.setMode,
        halive]
      rfl

/-- What is not rejected is taken. -/
theorem receive_taken (halive : ReaderAlive track writer) (h : ¬ Rejects track writer a) :
    ((⟨some writer⟩ : SubscribeRecv).receive track a).1 = .ok () := by
  cases writer with
  | track => exact receive_first halive
  | stream => exact absurd trivial h
  | subgroups w =>
      cases a with
      | subgroup header =>
          have hcreates := w.creates track.subgroups (subgroupOf header)
          simp only [receive, subgroup, subgroupsWriter]
          generalize w.create track.subgroups (subgroupOf header) = created at hcreates
          cases hcreates with
          | cancel hdropped => exact absurd (halive.symm.trans hdropped) (by simp)
          | newest _ _ => rfl
          | same _ hlatest hsame => exact absurd ⟨_, hlatest, hsame.symm⟩ h
          | older _ _ _ => rfl
      | track header => exact absurd trivial h
      | datagram d => exact absurd trivial h
  | datagrams =>
      cases a with
      | datagram d =>
          have hlive : track.datagrams.dropped = false := halive
          simp only [receive, datagram, datagramsWriter, DatagramsWriter.write, hlive]
          rfl
      | track header => exact absurd trivial h
      | subgroup header => exact absurd trivial h

/-- A rejection leaves the writer as it was exactly if there is none: the
arrival suits the mode of the writer, and is not the latest subgroup again. -/
theorem intact_iff (recv : SubscribeRecv) (track : Track) (a : Incoming)
    (halive : ∀ writer ∈ recv.writer, ReaderAlive track writer) :
    recv.Intact track a ↔ ∀ writer ∈ recv.writer, ¬ Rejects track writer a := by
  obtain ⟨writer⟩ := recv
  cases writer with
  | none =>
      refine iff_of_true ?_ (by simp)
      intro _
      cases a <;> rfl
  | some writer =>
      have halive := halive writer rfl
      constructor
      · rintro hintact _ ⟨⟩ hrejects
        obtain ⟨e, he, hreceive⟩ := receive_rejected halive hrejects
        rw [Intact, hreceive] at hintact
        have hsame := hintact (by simpa using he)
        cases hsame
      · intro htakes herror
        rw [receive_taken halive (htakes writer rfl)] at herror
        rcases herror with herror | herror <;> cases herror

/-- The first subgroup of a track arrives, with a header that suits, and then a
datagram, which does not. -/
theorem intact_first :
    (⟨some .track⟩ : SubscribeRecv).Intact .produce (.subgroup ⟨4, 4, 0, 0, 127⟩) ∧
      ∃ recv track, (⟨some .track⟩ : SubscribeRecv).receive .produce
          (.subgroup ⟨4, 4, 0, 0, 127⟩) = (.ok (), recv, track) ∧
        ¬ recv.Intact track (.datagram ⟨4, 4, 1, 0, 127, .object, 1, [7]⟩) := by
  constructor
  · refine (intact_iff _ _ _ ?_).mpr ?_
    · rintro _ ⟨⟩
      rfl
    · rintro _ ⟨⟩
      exact not_false
  · refine ⟨_, _, rfl, ?_⟩
    rw [intact_iff _ _ _ (by rintro _ ⟨⟩; rfl)]
    intro htaken
    exact htaken _ rfl trivial

/-- A datagram for a track in subgroup mode: the next subgroup is refused, and
a reader that has seen the first sees the end. -/
theorem not_intact_datagram :
    ∃ recv track, (⟨some .track⟩ : SubscribeRecv).receive .produce
        (.subgroup ⟨4, 4, 0, 0, 127⟩) = (.ok (), recv, track) ∧
      track.subgroups.state.dropped = false ∧
      ¬ recv.Intact track (.datagram ⟨4, 4, 1, 0, 127, .object, 1, [7]⟩) ∧
      ∃ recv' track', recv.receive track (.datagram ⟨4, 4, 1, 0, 127, .object, 1, [7]⟩) =
          (.error .mode, recv', track') ∧
        (recv'.receive track' (.subgroup ⟨4, 4, 1, 0, 127⟩)).1 = .error .done ∧
        SubgroupsReader.next track'.subgroups 1 = .ready (.ok none) := by
  refine ⟨_, _, rfl, rfl, ?_, _, _, rfl, rfl, rfl⟩
  intro hintact
  have hsame := congrArg (fun res => res.1.writer) (hintact (.inl rfl))
  cases hsame

end SubscribeRecv

/-- The error the writer's mode is closed with. -/
def closedOf (track : Track) : TrackWriterMode → Option ServeError
  | .track => track.state.value.closed
  | .stream => track.stream.state.value.closed
  | .subgroups _ => track.subgroups.state.value.closed
  | .datagrams => track.datagrams.value.closed

/-- The writer can be closed with an error: it was not, and a reader is left
to see it. -/
structure Closable (track : Track) (writer : TrackWriterMode) : Prop where
  closed : closedOf track writer = none
  alive : ReaderAlive track writer

theorem exists_bind_pure_iff {α β : Type} {x : Except ServeError α} {f : α → β} :
    (∃ b, (x >>= fun a => pure (f a)) = .ok b) ↔ ∃ a, x = .ok a := by
  cases x with
  | error e => exact ⟨fun ⟨_, h⟩ => (by cases h), fun ⟨_, h⟩ => (by cases h)⟩
  | ok a => exact ⟨fun _ => ⟨a, rfl⟩, fun _ => ⟨f a, rfl⟩⟩

theorem exists_closeWith_iff {gone err : ServeError} {closed : Option ServeError}
    {dropped : Bool} :
    (∃ a, Watch.closeWith gone closed dropped err = .ok a) ↔ closed = none ∧ dropped = false := by
  constructor
  · rintro ⟨a, ha⟩
    cases closed with
    | some first => cases ha
    | none =>
        cases dropped with
        | true => cases ha
        | false => exact ⟨rfl, rfl⟩
  · rintro ⟨rfl, rfl⟩
    exact ⟨some err, rfl⟩

theorem exists_close_iff (track : Track) (writer : TrackWriterMode) (err : ServeError) :
    (∃ track', writer.close track err = .ok track') ↔ Closable track writer := by
  have hclosable {closed : Option ServeError} {dropped : Bool}
      (hclosed : closedOf track writer = closed)
      (halive : ReaderAlive track writer ↔ dropped = false) :
      (closed = none ∧ dropped = false) ↔ Closable track writer := by
    rw [← hclosed, ← halive]
    exact ⟨fun h => ⟨h.1, h.2⟩, fun h => ⟨h.closed, h.alive⟩⟩
  cases writer with
  | track =>
      rw [TrackWriterMode.close, TrackWriter.close, exists_bind_pure_iff, exists_closeWith_iff]
      exact hclosable rfl .rfl
  | stream =>
      rw [TrackWriterMode.close, exists_bind_pure_iff, StreamWriter.close, exists_bind_pure_iff,
        exists_closeWith_iff]
      exact hclosable rfl .rfl
  | subgroups w =>
      rw [TrackWriterMode.close, exists_bind_pure_iff, SubgroupsWriter.close, exists_bind_pure_iff,
        exists_closeWith_iff]
      exact hclosable rfl .rfl
  | datagrams =>
      rw [TrackWriterMode.close, exists_bind_pure_iff, DatagramsWriter.close, exists_bind_pure_iff,
        exists_closeWith_iff]
      exact hclosable rfl .rfl

/-- A call that waits has not been told anything. -/
theorem eq_of_pending {sub : Subscription} (h : sub.closed = .pending) :
    sub.state.value.closed = none ∧ sub.state.dropped = false := by
  unfold Subscription.closed at h
  cases hclosed : sub.state.value.closed with
  | some err => simp [hclosed] at h
  | none =>
      cases hdropped : sub.state.dropped with
      | true => simp [hclosed, hdropped] at h
      | false => exact ⟨rfl, rfl⟩

namespace SubscribeRecv

/-- The call that waits is told the error exactly if the track could be closed
with it, or there was nothing to close. -/
theorem closed_error_iff {recv : SubscribeRecv} {sub : Subscription}
    (hpending : sub.closed = .pending) (err : ServeError) :
    (recv.error sub err).2.closed = .ready (.error err) ↔
      ∀ writer ∈ recv.writer, Closable sub.track writer := by
  obtain ⟨hclosed, hdropped⟩ := eq_of_pending hpending
  obtain ⟨writer⟩ := recv
  cases writer with
  | none =>
      refine iff_of_true ?_ (by simp)
      simp [error, hclosed, hdropped, Watch.closeWith, Subscription.closed, Watch.State.update,
        Watch.State.drop]
  | some writer =>
      have hwriter : (∀ w ∈ some writer, Closable sub.track w) ↔ Closable sub.track writer := by
        simp
      rw [hwriter, ← exists_close_iff sub.track writer err]
      cases hclose : writer.close sub.track err with
      | ok track =>
          refine iff_of_true ?_ ⟨track, rfl⟩
          simp [error, hclose, Except.map, hclosed, hdropped, Watch.closeWith, Subscription.closed,
            Watch.State.update, Watch.State.drop]
      | error e =>
          refine iff_of_false ?_ (by simp)
          simp [error, hclose, Except.map, hclosed, Subscription.closed, Watch.State.drop]

end SubscribeRecv

namespace Subscriber

/-- The peer rejects a subscription that nothing has ended yet: the call of
`subscribe` is told so exactly if the track has lost its writer or still has a
reader. -/
theorem reported_iff (s : Subscriber) (id : Nat) (recv : SubscribeRecv)
    (hlookup : s.subscribes.lookup id = some recv) (hpending : (s.shared id).closed = .pending) :
    (∀ msg : Message.SubscribeError, msg.id = id →
      (((s.recvSubscribeError msg).2.shared id).closed = .ready (.error (.closed msg.code)) ↔
        ∀ writer ∈ recv.writer, Closable (s.shared id).track writer)) ∧
    ∀ msg : Message.SubscribeDone, msg.id = id →
      (((s.recvSubscribeDone msg).2.shared id).closed = .ready (.error (.closed msg.code)) ↔
        ∀ writer ∈ recv.writer, Closable (s.shared id).track writer) := by
  have hend (code : Nat) : (((s.recvSubscribeEnd id code).2.shared id).closed =
      .ready (.error (.closed code)) ↔
        ∀ writer ∈ recv.writer, Closable (s.shared id).track writer) := by
    simp only [recvSubscribeEnd, hlookup, Function.update_self]
    exact SubscribeRecv.closed_error_iff hpending _
  constructor
  · rintro msg rfl
    exact hend msg.code
  · rintro msg rfl
    exact hend msg.code

/-- The track has a reader. -/
theorem reported_subscribed :
    (((subscribed 4).recvSubscribeError ⟨4, 404, "not found", 4⟩).2.shared 4).closed =
      .ready (.error (.closed 404)) := by
  refine ((reported_iff (subscribed 4) 4 ⟨some .track⟩ Finmap.lookup_singleton_eq rfl).1
    ⟨4, 404, "not found", 4⟩ rfl).mpr ?_
  rintro _ ⟨⟩
  exact ⟨rfl, rfl⟩

/-- A track without a mode whose readers are gone. -/
def readerless : Track := { Track.produce with state := Track.produce.state.drop }

/-- The readers of the track go away while the call waits. -/
theorem not_reported_readerless :
    ∃ s : Subscriber, s = (subscribed 4).put 4 ⟨some .track⟩ readerless ∧
      s.subscribes.lookup 4 = some ⟨some .track⟩ ∧ (s.shared 4).closed = .pending ∧
      ((s.recvSubscribeError ⟨4, 404, "not found", 4⟩).2.shared 4).closed = .ready (.ok ()) ∧
      ((s.recvSubscribeDone ⟨4, 404, "not found", none⟩).2.shared 4).closed = .ready (.ok ()) := by
  refine ⟨_, rfl, lookup_put _ _ _ _, rfl, ?_, ?_⟩
  · simp only [recvSubscribeError, recvSubscribeEnd, lookup_put, Function.update_self]
    rfl
  · simp only [recvSubscribeDone, recvSubscribeEnd, lookup_put, Function.update_self]
    rfl

end Subscriber

end MoqTransport.Session
