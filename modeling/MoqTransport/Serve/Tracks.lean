import Mathlib.Data.Finmap
import MoqTransport.Lib.Machine
import MoqTransport.Serve.Track
import MoqTransport.Watch.Queue

/-!
A broadcast: readers ask for tracks by name, and a track that is not known
goes through a queue to whoever answers the requests. When the request side is
dropped it drains the queue, drops its handle of the queue, and closes what it
has drained, one step after the other. A request that is pushed between the
first two steps, or left in the queue by readers that are all gone, is neither
answered nor closed (`settled_iff`).
-/

namespace MoqTransport.Serve

open Machine

inductive RequestPhase where
  | held
  /-- The queue is drained but not closed yet. -/
  | drained (left : List Nat)
  | closing (left : List Nat)
  | gone
deriving DecidableEq

/-- Tracks that the drop has taken out of the queue and not closed yet. -/
def RequestPhase.left : RequestPhase → List Nat
  | .held | .gone => []
  | .drained left | .closing left => left

/-- A broadcast. A requested track is named by its position in `requested`. -/
structure Broadcast where
  tracks : Finmap (fun _ : String => Nat)
  requested : List Track
  queue : Watch.Queue Nat
  /-- What `next` has returned. -/
  returned : List Nat
  readers : Nat
  /-- The `TracksWriter` is still there. -/
  writer : Bool
  request : RequestPhase

inductive BroadcastAct where
  | subscribe (name : String)
  | cloneReader
  | dropReader
  /-- The destructors of the readers' side, after its last handle. -/
  | destroyReaders
  | dropWriter
  | next
  | drain
  /-- `close` drops its handle of the queue. -/
  | seal
  | close
  | finish

namespace Broadcast

def init : Broadcast := ⟨∅, [], .new [], [], 1, true, .held⟩

/-- The state shared with the writing side refuses changes. -/
def dropped (s : Broadcast) : Bool :=
  (s.readers = 0 && s.queue.dropped) || (!s.writer && s.request = .gone)

/-- `TracksReader::subscribe`. The lock of the tracks is held throughout. -/
def subscribe (s : Broadcast) (name : String) : Option Nat × Broadcast :=
  match s.tracks.lookup name with
  | some i => (some i, s)
  | none =>
      if s.dropped then
        (none, s)
      else
        match s.queue.push s.requested.length with
        | .error _ => (none, s)
        | .ok queue =>
            (some s.requested.length,
              { s with
                queue := queue
                requested := s.requested ++ [.produce]
                tracks := s.tracks.insert name s.requested.length })

/-- `TracksRequest::next`; a request that has to wait is not a step. -/
def next (s : Broadcast) : Option Broadcast :=
  match s.queue.pop with
  | (.pending, _) => none
  | (.ready (some i), queue) => some { s with queue := queue, returned := s.returned ++ [i] }
  | (.ready none, queue) => some { s with queue := queue }

/-- One round of the loop that closes what was drained. The result of `close`
is ignored, and the writer is dropped by it in any case. -/
def closeTrack (s : Broadcast) (i : Nat) : Broadcast :=
  { s with requested := s.requested.modify i fun track =>
      TrackWriterMode.track.drop ((TrackWriter.close track .notFound).toOption.getD track) }

def step (s : Broadcast) (act : BroadcastAct) : Option Broadcast :=
  match act, s.request with
  | .subscribe name, _ => if s.readers = 0 then none else some (s.subscribe name).2
  | .cloneReader, _ => if s.readers = 0 then none else some { s with readers := s.readers + 1 }
  | .dropReader, _ => if s.readers = 0 then none else some { s with readers := s.readers - 1 }
  | .destroyReaders, _ => if s.readers = 0 then some { s with queue := s.queue.drop } else none
  | .dropWriter, _ => some { s with writer := false }
  | .next, .held => s.next
  | .drain, .held =>
      some { s with queue := s.queue.drain.2, request := .drained s.queue.drain.1 }
  | .seal, .drained left => some { s with queue := s.queue.drop, request := .closing left }
  | .close, .closing (i :: left) => some { s.closeTrack i with request := .closing left }
  | .finish, .closing [] => some { s with request := .gone }
  | _, _ => none

/-- The track has been closed because nobody answers its request. -/
def ClosedNotFound (s : Broadcast) (i : Nat) : Prop :=
  ∃ track, s.requested[i]? = some track ∧ track.state.value.closed = some .notFound

/-- No request is stranded: each was returned or closed, and none is in the
queue. -/
structure Settled (s : Broadcast) : Prop where
  empty : s.queue.value = []
  answered : ∀ i < s.requested.length, i ∈ s.returned ∨ s.ClosedNotFound i

/-- Nothing is requested between the two halves of `close`, and the readers
do not go away while a request is waiting. -/
def Timely (s : Broadcast) : BroadcastAct → Prop
  | .subscribe name => (∃ left, s.request = .drained left) →
      name ∈ s.tracks ∨ s.dropped = true ∨ s.queue.dropped = true
  | .destroyReaders => s.queue.value = []
  | _ => True

/-- Where nobody takes requests out of the queue, there are none. -/
@[mk_iff]
structure Cleared (s : Broadcast) : Prop where
  request : s.request ≠ .held → s.queue.value = []
  queue : s.queue.dropped = true → s.queue.value = []

/-- Every request is somewhere, and can still be closed: the map holds a
reader of it. -/
structure Invariant (s : Broadcast) : Prop where
  accounted : ∀ i < s.requested.length,
    i ∈ s.returned ∨ i ∈ s.queue.value ∨ i ∈ s.request.left ∨ s.ClosedNotFound i
  sealed : s.request = .gone ∨ (∃ left, s.request = .closing left) → s.queue.dropped = true
  openTracks : ∀ track ∈ s.requested, track.state.value.closed = some .notFound ∨
    track.state.value.closed = none ∧ track.state.dropped = false

/-- What a request finds: a track that is there already or a side that is gone,
or room for a new track. -/
inductive Steps (s : Broadcast) : BroadcastAct → Broadcast → Prop where
  | answered {name : String}
      (h : name ∈ s.tracks ∨ s.dropped = true ∨ s.queue.dropped = true) :
      Steps s (.subscribe name) s
  | pushed {name : String} (hnew : name ∉ s.tracks) (hthere : s.dropped = false)
      (hopen : s.queue.dropped = false) :
      Steps s (.subscribe name)
        { s with
          queue := s.queue.update (· ++ [s.requested.length])
          requested := s.requested ++ [.produce]
          tracks := s.tracks.insert name s.requested.length }
  | handles {act : BroadcastAct} (n : Nat) (writer : Bool)
      (hact : act = .cloneReader ∨ act = .dropReader ∨ act = .dropWriter) :
      Steps s act { s with readers := n, writer := writer }
  | destroyed : Steps s .destroyReaders { s with queue := s.queue.drop }
  | returned {i : Nat} {rest : List Nat} (hheld : s.request = .held)
      (hvalue : s.queue.value = i :: rest) (hopen : s.queue.dropped = false) :
      Steps s .next
        { s with queue := s.queue.update fun _ => rest, returned := s.returned ++ [i] }
  | ended (hheld : s.request = .held) (hclosed : s.queue.dropped = true) : Steps s .next s
  | drained (hheld : s.request = .held) :
      Steps s .drain { s with queue := s.queue.drain.2, request := .drained s.queue.drain.1 }
  | sealed {left : List Nat} (hdrained : s.request = .drained left) :
      Steps s .seal { s with queue := s.queue.drop, request := .closing left }
  | closed {i : Nat} {left : List Nat} (hclosing : s.request = .closing (i :: left)) :
      Steps s .close { s.closeTrack i with request := .closing left }
  | finished (hclosing : s.request = .closing []) : Steps s .finish { s with request := .gone }

variable {s s' : Broadcast} {act : BroadcastAct}

theorem steps_subscribe (s : Broadcast) (name : String) :
    Steps s (.subscribe name) (s.subscribe name).2 := by
  unfold subscribe
  cases hfound : s.tracks.lookup name with
  | some i => exact .answered (.inl (Finmap.mem_of_lookup_eq_some hfound))
  | none =>
      have hnew : name ∉ s.tracks := Finmap.lookup_eq_none.mp hfound
      cases hthere : s.dropped with
      | true => exact .answered (.inr (.inl hthere))
      | false =>
          cases hopen : s.queue.dropped with
          | true =>
              simp only [Watch.Queue.push, hopen, if_true, Bool.false_eq_true, if_false]
              exact .answered (.inr (.inr hopen))
          | false =>
              simp only [Watch.Queue.push, hopen, Bool.false_eq_true, if_false]
              exact .pushed hnew hthere hopen

theorem steps_next (hheld : s.request = .held) (h : s.next = some s') : Steps s .next s' := by
  unfold next Watch.Queue.pop at h
  cases hvalue : s.queue.value with
  | nil =>
      rw [hvalue] at h
      cases hclosed : s.queue.dropped with
      | false => simp [hclosed] at h
      | true =>
          simp only [hclosed, if_true, Option.some.injEq] at h
          subst h
          exact .ended hheld hclosed
  | cons i rest =>
      rw [hvalue] at h
      cases hclosed : s.queue.dropped with
      | false =>
          simp only [hclosed, Bool.false_eq_true, if_false, Option.some.injEq] at h
          subst h
          exact .returned hheld hvalue hclosed
      | true =>
          simp only [hclosed, if_true, Option.some.injEq] at h
          subst h
          exact .ended hheld hclosed

theorem steps_of_step (h : s.step act = some s') : Steps s act s' := by
  unfold step at h
  split at h
  · next name =>
      split at h
      · cases h
      · cases h
        exact steps_subscribe s name
  · split at h
    · cases h
    · cases h
      exact .handles _ _ (.inl rfl)
  · split at h
    · cases h
    · cases h
      exact .handles _ _ (.inr (.inl rfl))
  · split at h
    · cases h
      exact .destroyed
    · cases h
  · cases h
    exact .handles _ _ (.inr (.inr rfl))
  · next hheld => exact steps_next hheld h
  · next hheld =>
      cases h
      exact .drained hheld
  · next hdrained =>
      cases h
      exact .sealed hdrained
  · next hclosing =>
      cases h
      exact .closed hclosing
  · next hclosing =>
      cases h
      exact .finished hclosing
  · cases h

theorem invariant_init : Invariant init := by
  refine ⟨?_, ?_, ?_⟩
  · intro i hi
    cases hi
  · rintro (hgone | ⟨left, hclosing⟩)
    · cases hgone
    · cases hclosing
  · intro track htrack
    cases htrack

/-- A track that can still be closed is closed by the drop. -/
theorem closed_drop_close {track : Track}
    (hopen : track.state.value.closed = some .notFound ∨
      track.state.value.closed = none ∧ track.state.dropped = false) :
    (TrackWriterMode.track.drop
      ((TrackWriter.close track .notFound).toOption.getD track)).state.value.closed =
        some .notFound := by
  rcases hopen with hclosed | ⟨hnone, hthere⟩
  · rw [TrackWriter.close, hclosed]
    exact hclosed
  · rw [TrackWriter.close, hnone, hthere]
    rfl

theorem ClosedNotFound.congr {i : Nat} (h : s.ClosedNotFound i)
    (hsame : s'.requested[i]? = s.requested[i]?) : s'.ClosedNotFound i := by
  obtain ⟨track, htrack, hclosed⟩ := h
  exact ⟨track, hsame.trans htrack, hclosed⟩

theorem closedNotFound_closeTrack (hs : Invariant s) {i j : Nat} (hj : j < s.requested.length)
    (h : j = i ∨ s.ClosedNotFound j) : (s.closeTrack i).ClosedNotFound j := by
  by_cases hij : i = j
  · subst hij
    have htrack := List.getElem?_eq_getElem hj
    refine ⟨_, ?_, closed_drop_close (hs.openTracks _ (List.getElem_mem hj))⟩
    simp [closeTrack, htrack]
  · apply (h.resolve_left (Ne.symm hij)).congr
    simp [closeTrack, hij]

/-- A new request is in the queue. -/
theorem Invariant.pushed (hs : Invariant s) (name : String) :
    Invariant { s with
      queue := s.queue.update (· ++ [s.requested.length])
      requested := s.requested ++ [.produce]
      tracks := s.tracks.insert name s.requested.length } where
  accounted := by
    intro i hi
    by_cases hnew : i = s.requested.length
    · exact .inr (.inl (by simp [Watch.State.update, hnew]))
    · have hold : i < s.requested.length := by
        simp only [List.length_append, List.length_singleton] at hi
        omega
      rcases hs.accounted i hold with hr | hq | hl | hc
      · exact .inl hr
      · exact .inr (.inl (by simp [Watch.State.update, hq]))
      · exact .inr (.inr (.inl hl))
      · exact .inr (.inr (.inr (hc.congr (List.getElem?_append_left hold))))
  sealed := hs.sealed
  openTracks := forall_mem_concat hs.openTracks (.inr ⟨rfl, rfl⟩)

/-- A request leaves the queue for whoever answers it. -/
theorem Invariant.returned (hs : Invariant s) {i : Nat} {rest : List Nat}
    (hvalue : s.queue.value = i :: rest) :
    Invariant { s with
      queue := s.queue.update fun _ => rest
      returned := s.returned ++ [i] } where
  accounted := by
    intro j hj
    rcases hs.accounted j hj with hr | hq | hl | hc
    · exact .inl (by simp [hr])
    · rw [hvalue, List.mem_cons] at hq
      rcases hq with rfl | hrest
      · exact .inl (by simp)
      · exact .inr (.inl hrest)
    · exact .inr (.inr (.inl hl))
    · exact .inr (.inr (.inr hc))
  sealed := hs.sealed
  openTracks := hs.openTracks

/-- What is in the queue is left to be closed. -/
theorem Invariant.drained (hs : Invariant s) (hheld : s.request = .held) :
    Invariant { s with queue := s.queue.drain.2, request := .drained s.queue.drain.1 } where
  accounted := by
    intro i hi
    rcases hs.accounted i hi with hr | hq | hl | hc
    · exact .inl hr
    · unfold Watch.Queue.drain
      split
      · exact .inr (.inl hq)
      · exact .inr (.inr (.inl hq))
    · rw [hheld] at hl
      cases hl
    · exact .inr (.inr (.inr hc))
  sealed := by
    rintro (hgone | ⟨left, hclosing⟩)
    · cases hgone
    · cases hclosing
  openTracks := hs.openTracks

/-- The first of those that are left is closed. -/
theorem Invariant.closed (hs : Invariant s) {i : Nat} {left : List Nat}
    (hclosing : s.request = .closing (i :: left)) :
    Invariant { s.closeTrack i with request := .closing left } where
  accounted := by
    intro j hj
    have hlen : j < s.requested.length := by simpa [closeTrack] using hj
    rcases hs.accounted j hlen with hr | hq | hl | hc
    · exact .inl hr
    · exact .inr (.inl hq)
    · rw [hclosing, RequestPhase.left, List.mem_cons] at hl
      rcases hl with hji | hrest
      · exact .inr (.inr (.inr (closedNotFound_closeTrack hs hlen (.inl hji))))
      · exact .inr (.inr (.inl hrest))
    · exact .inr (.inr (.inr (closedNotFound_closeTrack hs hlen (.inr hc))))
  sealed := fun _ => hs.sealed (.inr ⟨_, hclosing⟩)
  openTracks := by
    intro track htrack
    obtain ⟨j, hj⟩ := List.mem_iff_getElem?.mp htrack
    simp only [closeTrack, List.getElem?_modify] at hj
    obtain ⟨old, hold, rfl⟩ := Option.map_eq_some_iff.mp hj
    have hopen := hs.openTracks old (List.mem_of_getElem? hold)
    split
    · exact .inl (closed_drop_close hopen)
    · exact hopen

theorem invariant_step (hs : Invariant s) (h : s.step act = some s') : Invariant s' := by
  cases steps_of_step h with
  | answered _ => exact hs
  | handles n writer _ => exact ⟨hs.accounted, hs.sealed, hs.openTracks⟩
  | pushed => exact hs.pushed _
  | destroyed => exact ⟨hs.accounted, fun _ => rfl, hs.openTracks⟩
  | returned _ hvalue _ => exact hs.returned hvalue
  | ended _ _ => exact hs
  | drained hheld => exact hs.drained hheld
  | sealed hdrained =>
      refine ⟨?_, fun _ => rfl, hs.openTracks⟩
      intro i hi
      have haccounted := hs.accounted i hi
      rw [hdrained] at haccounted
      exact haccounted
  | closed hclosing => exact hs.closed hclosing
  | finished hclosing =>
      refine ⟨?_, fun _ => hs.sealed (.inr ⟨_, hclosing⟩), hs.openTracks⟩
      intro i hi
      have haccounted := hs.accounted i hi
      rw [hclosing] at haccounted
      exact haccounted

/-- A step leaves no request behind exactly if it is timely. -/
theorem cleared_step (hs : Invariant s) (h : s.step act = some s') :
    Cleared s' ↔ Cleared s ∧ Timely s act := by
  cases steps_of_step h with
  | answered hanswered => exact (and_iff_left fun _ => hanswered).symm
  | handles n writer hact =>
      rcases hact with rfl | rfl | rfl <;> simp [cleared_iff, Timely]
  | pushed hnew hthere hopen =>
      cases hrequest : s.request with
      | held => simp [cleared_iff, Timely, Watch.State.update, hrequest, hopen]
      | drained left =>
          simp [cleared_iff, Timely, Watch.State.update, hrequest, hopen, hnew, hthere]
      | closing left =>
          rw [hs.sealed (.inr ⟨left, hrequest⟩)] at hopen
          cases hopen
      | gone =>
          rw [hs.sealed (.inl hrequest)] at hopen
          cases hopen
  | destroyed =>
      simp only [cleared_iff, Timely, Watch.State.drop]
      tauto
  | returned hheld _ hopen => simp [cleared_iff, Timely, Watch.State.update, hheld, hopen]
  | ended _ _ => simp [Timely]
  | drained hheld =>
      cases hclosed : s.queue.dropped <;>
        simp [cleared_iff, Timely, Watch.Queue.drain, Watch.State.update, hheld, hclosed]
  | sealed hdrained =>
      simp only [cleared_iff, Timely, Watch.State.drop, hdrained]
      tauto
  | closed hclosing => simp [cleared_iff, Timely, closeTrack, hclosing]
  | finished hclosing => simp [cleared_iff, Timely, hclosing]

/-- Once the request side is gone, no request is stranded exactly if no step
of the run was untimely. -/
theorem settled_iff (acts : List BroadcastAct) (s : Broadcast)
    (hrun : Run step (fun _ _ => True) init acts s) (hgone : s.request = .gone) :
    Settled s ↔ Run step Timely init acts s := by
  have hinit : Cleared init := ⟨fun _ => rfl, fun _ => rfl⟩
  have hs : Invariant s := by
    have hreach := hrun.reachable .init
    exact hreach.invariant invariant_init fun hs _ h => invariant_step hs h
  have hcleared := hrun.iff_of_step invariant_step cleared_step invariant_init
  rw [and_iff_right hinit] at hcleared
  rw [← hcleared]
  constructor
  · intro hsettled
    exact ⟨fun _ => hsettled.empty, fun _ => hsettled.empty⟩
  · intro hcleared
    have hempty : s.queue.value = [] := hcleared.request (by simp [hgone])
    refine ⟨hempty, ?_⟩
    intro i hi
    rcases hs.accounted i hi with hr | hq | hl | hc
    · exact .inl hr
    · rw [hempty] at hq
      cases hq
    · rw [hgone] at hl
      cases hl
    · exact .inr hc

/-- One request is returned, and one is still in the queue when the request
side goes away. -/
theorem settled_inTime :
    ∃ s, run step (fun _ _ => true) init
        [.subscribe "a", .next, .subscribe "b", .drain, .seal, .close, .finish] = some s ∧
      Settled s ∧ Run step Timely init
        [.subscribe "a", .next, .subscribe "b", .drain, .seal, .close, .finish] s := by
  have hrun : ∃ s, run step (fun _ _ => true) init
      [.subscribe "a", .next, .subscribe "b", .drain, .seal, .close, .finish] = some s ∧
      s.request = .gone ∧ s.queue.value = [] ∧ s.returned = [0] ∧ s.requested.length = 2 ∧
      s.ClosedNotFound 1 := ⟨_, rfl, rfl, rfl, rfl, rfl, _, rfl, rfl⟩
  obtain ⟨s, hs, hgone, hempty, hreturned, hlength, hclosed⟩ := hrun
  have hany : Run step (fun _ _ => True) init _ s := run_of_eq _ (fun _ _ _ => trivial) hs
  have hsettled : Settled s := by
    refine ⟨hempty, ?_⟩
    intro i hi
    obtain rfl | rfl : i = 0 ∨ i = 1 := by omega
    · exact .inl (by simp [hreturned])
    · exact .inr hclosed
  exact ⟨s, hs, hsettled, (settled_iff _ s hany hgone).mp hsettled⟩

/-- A track is requested after the queue was drained and before it is closed:
it stays in the queue for good. -/
theorem not_settled_between :
    ∃ s, Run step (fun _ _ => True) init [.drain, .subscribe "a", .seal, .finish] s ∧
      s.request = .gone ∧ s.queue.value = [0] ∧ s.returned = [] ∧ ¬ s.ClosedNotFound 0 ∧
      ¬ Settled s := by
  refine ⟨_, run_of_eq (fun _ _ => true) (fun _ _ _ => trivial) rfl, rfl, rfl, rfl, ?_, ?_⟩
  · rintro ⟨track, htrack, hclosed⟩
    cases htrack
    cases hclosed
  · intro hsettled
    cases hsettled.empty

end Broadcast

end MoqTransport.Serve
