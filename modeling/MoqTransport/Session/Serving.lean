import MoqTransport.Lib.Machine
import MoqTransport.Serve.Growth
import MoqTransport.Session.Subscribed

/-!
Serving one subscription from a track in subgroup mode, as a machine: the
writers of the track, the loop of `serve_subgroups`, the tasks it spawns, and
the handle's way out, in any interleaving. Dropping the handle takes three
steps: the last message is made from the shared state, the `SubscribedRecv` is
removed (from then on the shared state refuses changes), and the message is
queued.

The loop counts errors of the track instead of returning them, so the message
never carries the code a track was closed with (`keepsCode_iff`).
-/

namespace MoqTransport.Session

open Streaming Coding Data Serve Machine

/-- Where the handle of the subscription is. -/
inductive HandlePhase where
  | held
  /-- In the loop: the reader's epoch and the consecutive failures. -/
  | looping (epoch failures : Nat)
  | closing (err : ServeError)
  | dropping
  | removing (last : Message)
  | pushing (last : Message)
  | gone
deriving DecidableEq

structure Serving where
  id : Nat
  trackAlias : Nat
  track : Subgroups
  shared : Watch.State SubscribedState
  ok : Bool
  handle : HandlePhase
  tasks : List SubgroupTask
  queue : List Message
deriving DecidableEq

inductive ServeAct where
  | writer (act : WriterAct)
  | unsubscribe
  | serve
  /-- The loop takes the branch of `subgroups.next()`. -/
  | next
  /-- The loop takes the branch of `closed()`. -/
  | closed
  | close
  | drop
  | remove
  | push
  | task (index : Nat)
  | transportFailure (index : Nat) (message : String)
deriving DecidableEq

namespace Serving

/-- A subscription just received, for a track nothing has been written to. -/
def init (id trackAlias : Nat) : Serving where
  id := id
  trackAlias := trackAlias
  track := .produce
  shared := .new .default
  ok := false
  handle := .held
  tasks := []
  queue := []

def maxConsecutiveFailures : Nat := 3

/-- `serve_inner` up to the loop; the latest group of a track is not known. -/
def serve (s : Serving) : Serving :=
  if s.shared.dropped then
    { s with handle := .closing (.ofSession (.serve .cancel)) }
  else
    { s with
      shared := s.shared.update fun state => { state with maxGroupId := none }
      queue := s.queue ++ [.subscribeOk
        { id := s.id, expires := none, groupOrder := .descending, latest := none }]
      ok := true
      handle := .looping 0 0 }

def next (s : Serving) (epoch failures : Nat) : Option Serving :=
  match SubgroupsReader.next s.track epoch with
  | .pending => none
  | .ready (.ok (some subgroup)) =>
      some { s with
        tasks := s.tasks ++ [.spawn s.id s.trackAlias subgroup]
        handle := .looping s.track.state.value.epoch 0 }
  | .ready (.ok none) => some { s with handle := .dropping }
  | .ready (.error _) =>
      if failures + 1 ≥ maxConsecutiveFailures then
        some { s with handle := .dropping }
      else
        some { s with handle := .looping epoch (failures + 1) }

/-- `Subscribed::closed`, and what the loop makes of it. -/
def closed (s : Serving) : Option Serving :=
  match s.shared.value.closed with
  | some err => some { s with handle := .closing (.ofSession (.serve err)) }
  | none => if s.shared.dropped then some { s with handle := .dropping } else none

/-- One step of the task at `index`, over the subgroup it reads. -/
def task (s : Serving) (index : Nat) : Option Serving := do
  let t ← s.tasks[index]?
  let cell ← s.track.cells[t.reader.cell]?
  let (t', shared) ← SubgroupTask.step cell (t, s.shared)
  pure { s with tasks := s.tasks.set index t', shared := shared }

def step (s : Serving) (act : ServeAct) : Option Serving :=
  match act, s.handle with
  | .writer act, _ => (act.apply s.track).map fun track => { s with track := track }
  | .unsubscribe, .gone => none
  | .unsubscribe, .pushing _ => none
  | .unsubscribe, _ =>
      (SubscribedRecv.recvUnsubscribe s.shared).toOption.map fun shared =>
        { s with shared := shared }
  | .serve, .held => some s.serve
  | .next, .looping epoch failures => s.next epoch failures
  | .closed, .looping _ _ => s.closed
  | .close, .closing err =>
      match Subscribed.close s.shared err with
      | .ok shared => some { s with shared := shared, handle := .dropping }
      | .error _ => some { s with handle := .dropping }
  | .drop, .dropping => some { s with handle := .removing (s.shared.value.terminal s.id s.ok) }
  | .remove, .removing last => some { s with shared := s.shared.drop, handle := .pushing last }
  | .push, .pushing last => some { s with queue := s.queue ++ [last], handle := .gone }
  | .task index, _ => s.task index
  | .transportFailure index message, _ => do
      let t ← s.tasks[index]?
      if t.phase.usesTransport then
        pure { s with tasks := s.tasks.set index (t.fail (.err (.transport message))) }
      else
        none
  | _, _ => none

/-- The steps of the machine, one constructor for each way it can change. -/
inductive Steps (s : Serving) : ServeAct → Serving → Prop where
  | writer {act : WriterAct} {track : Subgroups} (h : act.apply s.track = some track) :
      Steps s (.writer act) { s with track := track }
  | unsubscribe {shared : Watch.State SubscribedState} :
      Steps s .unsubscribe { s with shared := shared }
  | serve (h : s.handle = .held) : Steps s .serve s.serve
  | spawn {epoch failures : Nat} {subgroup : SubgroupReader}
      (h : s.handle = .looping epoch failures)
      (hepoch : epoch ≠ s.track.state.value.epoch)
      (hlatest : s.track.state.value.latest = some subgroup) :
      Steps s .next
        { s with
          tasks := s.tasks ++ [.spawn s.id s.trackAlias subgroup]
          handle := .looping s.track.state.value.epoch 0 }
  | ended {epoch failures : Nat} (h : s.handle = .looping epoch failures) :
      Steps s .next { s with handle := .dropping }
  | retry {epoch failures : Nat} {err : ServeError} (h : s.handle = .looping epoch failures)
      (hclosed : s.track.state.value.closed = some err) :
      Steps s .next { s with handle := .looping epoch (failures + 1) }
  | closedErr {epoch failures : Nat} {err : ServeError} (h : s.handle = .looping epoch failures)
      (hclosed : s.shared.value.closed = some err) :
      Steps s .closed { s with handle := .closing err }
  | closedEnd {epoch failures : Nat} (h : s.handle = .looping epoch failures)
      (hdropped : s.shared.dropped = true) : Steps s .closed { s with handle := .dropping }
  | close {err : ServeError} {shared : Watch.State SubscribedState} (h : s.handle = .closing err)
      (hdropped : shared.dropped = s.shared.dropped) :
      Steps s .close { s with shared := shared, handle := .dropping }
  | drop (h : s.handle = .dropping) :
      Steps s .drop { s with handle := .removing (s.shared.value.terminal s.id s.ok) }
  | remove {last : Message} (h : s.handle = .removing last) :
      Steps s .remove { s with shared := s.shared.drop, handle := .pushing last }
  | push {last : Message} (h : s.handle = .pushing last) :
      Steps s .push { s with queue := s.queue ++ [last], handle := .gone }
  | task {index : Nat} {t t' : SubgroupTask} {cell : SubgroupCell}
      {shared : Watch.State SubscribedState} (ht : s.tasks[index]? = some t)
      (hcell : s.track.cells[t.reader.cell]? = some cell)
      (hstep : SubgroupTask.Steps cell t s.shared t' shared) :
      Steps s (.task index) { s with tasks := s.tasks.set index t', shared := shared }
  | transportFailure {index : Nat} {message : String} {t : SubgroupTask}
      (ht : s.tasks[index]? = some t) :
      Steps s (.transportFailure index message)
        { s with tasks := s.tasks.set index (t.fail (.err (.transport message))) }

theorem steps_of_next {s s' : Serving} {epoch failures : Nat}
    (hhandle : s.handle = .looping epoch failures) (h : s.next epoch failures = some s') :
    Steps s .next s' := by
  unfold next at h
  by_cases hepoch : epoch ≠ s.track.state.value.epoch
  · rw [SubgroupsReader.next_eq_latest hepoch] at h
    cases hlatest : s.track.state.value.latest with
    | some subgroup => rw [hlatest] at h; cases h; exact .spawn hhandle hepoch hlatest
    | none => rw [hlatest] at h; cases h; exact .ended hhandle
  · rw [SubgroupsReader.next_eq_exhausted (not_not.mp hepoch)] at h
    unfold Watch.exhausted at h
    cases hclosed : s.track.state.value.closed with
    | some err =>
        rw [hclosed] at h
        dsimp only at h
        split at h
        · cases h; exact .ended hhandle
        · cases h; exact .retry hhandle hclosed
    | none =>
        cases hdropped : s.track.state.dropped with
        | false => simp [hclosed, hdropped] at h
        | true => rw [hclosed, hdropped] at h; cases h; exact .ended hhandle

theorem steps_of_task {s s' : Serving} {index : Nat} (h : s.task index = some s') :
    Steps s (.task index) s' := by
  obtain ⟨t, ht, h⟩ := Option.bind_eq_some_iff.mp h
  obtain ⟨cell, hcell, h⟩ := Option.bind_eq_some_iff.mp h
  obtain ⟨⟨t', shared⟩, hstep, h⟩ := Option.bind_eq_some_iff.mp h
  cases h
  exact .task ht hcell (SubgroupTask.steps_of_step hstep)

theorem steps_of_step {s s' : Serving} {act : ServeAct} (h : s.step act = some s') :
    Steps s act s' := by
  unfold step at h
  split at h
  · obtain ⟨track, htrack, rfl⟩ := Option.map_eq_some_iff.mp h
    exact .writer htrack
  · cases h
  · cases h
  · obtain ⟨shared, -, rfl⟩ := Option.map_eq_some_iff.mp h
    exact .unsubscribe
  · next hhandle => cases h; exact .serve hhandle
  · next hhandle => exact steps_of_next hhandle h
  · next hhandle =>
      unfold closed at h
      split at h
      · next err hclosed => cases h; exact .closedErr hhandle hclosed
      · split at h
        · next hdropped => cases h; exact .closedEnd hhandle hdropped
        · cases h
  · next err hhandle =>
      split at h
      · next shared hclose =>
          cases h
          obtain ⟨-, -, rfl⟩ := Watch.eq_of_closeWith hclose
          exact .close hhandle rfl
      · cases h; exact .close hhandle rfl
  · next hhandle => cases h; exact .drop hhandle
  · next hhandle => cases h; exact .remove hhandle
  · next hhandle => cases h; exact .push hhandle
  · exact steps_of_task h
  · obtain ⟨t, ht, h⟩ := Option.bind_eq_some_iff.mp h
    split at h
    · cases h; exact .transportFailure ht
    · cases h
  · cases h

/-- The application does not receive an UNSUBSCRIBE. -/
def NoUnsubscribe (_ : Serving) (act : ServeAct) : Prop := act ≠ .unsubscribe

instance (s : Serving) (act : ServeAct) : Decidable (NoUnsubscribe s act) :=
  inferInstanceAs (Decidable (act ≠ .unsubscribe))

/-- If the message is a SUBSCRIBE_DONE, it has the given code. -/
def DoneCode (code : Nat) (message : Message) : Prop :=
  ∀ m, message = .subscribeDone m → m.code = code

/-- Without an UNSUBSCRIBE nothing but the handle itself would close the
subscription, and it finds no reason to. -/
structure Unclosed (s : Serving) : Prop where
  closed : s.shared.value.closed = none
  dropped : s.shared.dropped = true → s.handle = .gone ∨ ∃ last, s.handle = .pushing last
  closing : ∀ err, s.handle ≠ .closing err
  removing : ∀ last, s.handle = .removing last → DoneCode 0 last
  pushing : ∀ last, s.handle = .pushing last → DoneCode 0 last
  queue : ∀ message ∈ s.queue, DoneCode 0 message

theorem unclosed_init (id trackAlias : Nat) : Unclosed (init id trackAlias) := by
  refine ⟨rfl, ?_, ?_, ?_, ?_, ?_⟩ <;> simp [init, Watch.State.new]

theorem doneCode_terminal {state : SubscribedState} (hclosed : state.closed = none) (id : Nat)
    (ok : Bool) : DoneCode 0 (state.terminal id ok) := by
  intro m hm
  cases ok with
  | true =>
      simp only [SubscribedState.terminal, hclosed] at hm
      cases hm
      rfl
  | false => cases hm

theorem Unclosed.live {s : Serving} (hs : Unclosed s) (hgone : s.handle ≠ .gone)
    (hpushing : ∀ last, s.handle ≠ .pushing last) : s.shared.dropped = false := by
  cases hdropped : s.shared.dropped with
  | false => rfl
  | true =>
      rcases hs.dropped hdropped with h | ⟨last, h⟩
      · exact absurd h hgone
      · exact absurd h (hpushing last)

theorem unclosed_step {s s' : Serving} {act : ServeAct} (hs : Unclosed s)
    (hact : NoUnsubscribe s act) (h : s.step act = some s') : Unclosed s' := by
  have hlooping {epoch failures : Nat} (h : s.handle = .looping epoch failures) :
      s.shared.dropped = false := hs.live (by simp [h]) (by simp [h])
  cases steps_of_step h with
  | writer _ => exact ⟨hs.closed, hs.dropped, hs.closing, hs.removing, hs.pushing, hs.queue⟩
  | unsubscribe => exact absurd rfl hact
  | serve hhandle =>
      have hlive := hs.live (by simp [hhandle]) (by simp [hhandle])
      rw [serve, if_neg (by simp [hlive])]
      refine ⟨hs.closed, by simp [Watch.State.update, hlive], by simp, by simp, by simp, ?_⟩
      exact forall_mem_concat hs.queue (by simp [DoneCode])
  | spawn hhandle _ _ | ended hhandle | retry hhandle _ =>
      exact ⟨hs.closed, by simp [hlooping hhandle], by simp, by simp, by simp, hs.queue⟩
  | closedErr _ hclosed => simp [hs.closed] at hclosed
  | closedEnd hhandle hdropped => simp [hlooping hhandle] at hdropped
  | close hhandle _ => exact absurd hhandle (hs.closing _)
  | drop hhandle =>
      have hlive := hs.live (by simp [hhandle]) (by simp [hhandle])
      refine ⟨hs.closed, by simp [hlive], by simp, ?_, by simp, hs.queue⟩
      rintro last ⟨⟩
      exact doneCode_terminal hs.closed _ _
  | remove hhandle =>
      refine ⟨hs.closed, fun _ => .inr ⟨_, rfl⟩, by simp, by simp, ?_, hs.queue⟩
      rintro last ⟨⟩
      exact hs.removing _ hhandle
  | push hhandle =>
      refine ⟨hs.closed, fun _ => .inl rfl, by simp, by simp, by simp, ?_⟩
      exact forall_mem_concat hs.queue (hs.pushing _ hhandle)
  | task _ _ hstep =>
      obtain ⟨hdropped, hclosed⟩ := hstep.shared
      exact ⟨hclosed.trans hs.closed, fun h => hs.dropped (hdropped ▸ h), hs.closing, hs.removing,
        hs.pushing, hs.queue⟩
  | transportFailure _ =>
      exact ⟨hs.closed, hs.dropped, hs.closing, hs.removing, hs.pushing, hs.queue⟩

/-- In every run without an UNSUBSCRIBE in which the track is closed with `e`,
every SUBSCRIBE_DONE has the code of `e`. -/
def KeepsCode (id trackAlias : Nat) (e : ServeError) : Prop :=
  ∀ s, Reachable step NoUnsubscribe (init id trackAlias) s →
    s.track.state.value.closed = some e →
      ∀ message ∈ s.queue, DoneCode e.code message

/-- The track is closed before anything is written to it; the loop gives up
after three errors. -/
def closedTrack (e : ServeError) : List ServeAct :=
  [.writer (.close e), .serve, .next, .next, .next, .drop, .remove, .push]

theorem run_closedTrack (id trackAlias : Nat) (e : ServeError) :
    ∃ s, run step (fun s act => decide (NoUnsubscribe s act)) (init id trackAlias)
        (closedTrack e) = some s ∧ s.track.state.value.closed = some e ∧
      .subscribeDone { id := id, last := none, code := 0, reason := "done" } ∈ s.queue :=
  ⟨_, rfl, rfl, List.mem_append_right _ (List.mem_singleton.mpr rfl)⟩

theorem code_eq_of_keepsCode {id trackAlias : Nat} {e : ServeError}
    (hkeeps : KeepsCode id trackAlias e) : e.code = 0 := by
  obtain ⟨s, hrun, hclosed, hdone⟩ := run_closedTrack id trackAlias e
  have hreach : Reachable step NoUnsubscribe (init id trackAlias) s :=
    reachable_of_run _ (fun _ _ h => of_decide_eq_true h) hrun
  exact (hkeeps s hreach hclosed _ hdone _ rfl).symm

/-- The code of the error survives exactly when it is the one sent for a
track that ends without an error. -/
theorem keepsCode_iff (id trackAlias : Nat) (e : ServeError) :
    KeepsCode id trackAlias e ↔ e.code = 0 := by
  refine ⟨code_eq_of_keepsCode, ?_⟩
  intro hcode s hs _ message hmem
  rw [hcode]
  exact (hs.invariant (unclosed_init id trackAlias) unclosed_step).queue message hmem

/-- A track closed as not found: the SUBSCRIBE_DONE says that it ended. -/
theorem not_keepsCode_notFound : ¬ KeepsCode 0 0 .notFound := fun hkeeps =>
  absurd (code_eq_of_keepsCode hkeeps) (by decide)

end Serving

end MoqTransport.Session
