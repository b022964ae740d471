import Mathlib.Data.Prod.Lex
import MoqTransport.Session.TrackServing

/-!
The position SUBSCRIBE_DONE reports. The shared state keeps a maximum only
once it has one, and `serve_inner` starts it with the latest position of the
track, which a track does not know. So no object is ever recorded and the
message never has a position (`last_eq_iff`).
-/

namespace MoqTransport.Session

open Streaming Coding Data Serve Machine

/-- The greatest of the positions, by group and then by object. -/
def lexMax (latest : Option (Nat × Nat)) (sent : List (Nat × Nat)) : Option (Nat × Nat) :=
  ((latest.toList ++ sent).map toLex).max?.map ofLex

theorem lexMax_none_eq_none_iff (sent : List (Nat × Nat)) :
    lexMax none sent = none ↔ sent = [] := by
  simp [lexMax]

theorem lexMax_singleton (latest position : Nat × Nat) :
    lexMax (some latest) [position] =
      some (if latest.1 < position.1 ∨ latest.1 = position.1 ∧ latest.2 ≤ position.2 then position
        else latest) := by
  have hmax : lexMax (some latest) [position] =
      some (ofLex (max (toLex latest) (toLex position))) := rfl
  rw [hmax, max_def]
  simp only [Prod.Lex.toLex_le_toLex]
  split <;> rfl

namespace SubscribedState

/-- Where nothing is recorded, nothing will be. -/
theorem maxGroupId_update {shared : Watch.State SubscribedState}
    (h : shared.value.maxGroupId = none) (groupId objectId : Nat) :
    (shared.update (·.updateMaxGroupId groupId objectId)).value.maxGroupId =
      shared.value.maxGroupId := by
  simp [Watch.State.update, updateMaxGroupId, h]

/-- A maximum that is there is kept right except by objects of later groups
whose number is below its own. -/
theorem updateMaxGroupId_eq_lexMax_iff {s : SubscribedState} {latest : Nat × Nat}
    (h : s.maxGroupId = some latest) (groupId objectId : Nat) :
    (s.updateMaxGroupId groupId objectId).maxGroupId = lexMax (some latest) [(groupId, objectId)] ↔
      ¬ (latest.1 < groupId ∧ objectId < latest.2) := by
  rw [lexMax_singleton, updateMaxGroupId, h]
  dsimp only
  by_cases hnewer : groupId ≥ latest.1 ∧ objectId ≥ latest.2
  · have hle : latest.1 < groupId ∨ latest.1 = groupId ∧ latest.2 ≤ objectId := by omega
    rw [if_pos hnewer, if_pos hle]
    exact iff_of_true rfl (by omega)
  · rw [if_neg hnewer, h]
    by_cases hle : latest.1 < groupId ∨ latest.1 = groupId ∧ latest.2 ≤ objectId
    · rw [if_pos hle]
      refine iff_of_false ?_ (by omega)
      intro heq
      obtain rfl := Option.some.inj heq
      exact hnewer ⟨Nat.le_refl _, Nat.le_refl _⟩
    · rw [if_neg hle]
      exact iff_of_true rfl (by omega)

end SubscribedState

/-- The position, if the header before it can be written. -/
def sentIf (e : Encode) (position : Nat × Nat) : List (Nat × Nat) :=
  match encoded e with
  | .ok _ => [position]
  | .error _ => []

/-- The objects whose headers the next step of the task sends. -/
def SubgroupTask.sends (t : SubgroupTask) : List (Nat × Nat) :=
  match t.phase with
  | .object _ info =>
      sentIf (⟨info.objectId, info.size, info.status⟩ : Data.SubgroupObject).encode
        (t.reader.info.groupId, info.objectId)
  | _ => []

theorem SubgroupTask.Steps.maxGroupId {cell : SubgroupCell} {t t' : SubgroupTask}
    {shared shared' : SubgroupTask.Shared} (h : SubgroupTask.Steps cell t shared t' shared')
    (hshared : shared.value.maxGroupId = none) :
    shared'.value.maxGroupId = shared.value.maxGroupId := by
  cases h with
  | update _ _ =>
      exact SubscribedState.maxGroupId_update hshared _ _
  | _ => rfl

def TrackTask.sends (t : TrackTask) : List (Nat × Nat) :=
  match t.phase with
  | .object _ info => sentIf (t.objectHeader info).encode (t.groupId, info.objectId)
  | _ => []

/-- A datagram has its position in itself; the stream in its place has an
object header. -/
def DatagramTask.sends (t : DatagramTask) (taken : Bool) : List (Nat × Nat) :=
  match t.phase with
  | .sending d => if taken then sentIf (t.datagram d).encode (d.groupId, d.objectId) else []
  | .object d => sentIf (DatagramTask.objectHeader d).encode (d.groupId, d.objectId)
  | _ => []

namespace Serving

/-- The SUBSCRIBE_DONE has been made. -/
def Made (s : Serving) (m : Message.SubscribeDone) : Prop :=
  s.handle = .removing (.subscribeDone m) ∨ s.handle = .pushing (.subscribeDone m) ∨
    .subscribeDone m ∈ s.queue

/-- Nothing has been recorded. -/
structure Unrecorded (s : Serving) : Prop where
  maxGroupId : s.shared.value.maxGroupId = none
  last : ∀ m, s.Made m → m.last = none

theorem unrecorded_init (id trackAlias : Nat) : Unrecorded (init id trackAlias) := by
  refine ⟨rfl, ?_⟩
  rintro m (h | h | h) <;> cases h

/-- Only the making of the last message can bring a new one. -/
theorem Unrecorded.of_handle {s s' : Serving} (hs : Unrecorded s)
    (hmax : s'.shared.value.maxGroupId = s.shared.value.maxGroupId) (hqueue : s'.queue = s.queue)
    (hremoving : ∀ last, s'.handle = .removing last → s.handle = .removing last)
    (hpushing : ∀ last, s'.handle = .pushing last → s.handle = .pushing last) : Unrecorded s' := by
  refine ⟨hmax.trans hs.maxGroupId, ?_⟩
  rintro m (h | h | h)
  · exact hs.last m (.inl (hremoving _ h))
  · exact hs.last m (.inr (.inl (hpushing _ h)))
  · exact hs.last m (.inr (.inr (hqueue ▸ h)))

theorem unsubscribe_maxGroupId {s s' : Serving} (h : s.step .unsubscribe = some s') :
    s'.shared.value.maxGroupId = s.shared.value.maxGroupId := by
  have hshared : SubscribedRecv.recvUnsubscribe s.shared = .ok s'.shared := by
    cases hhandle : s.handle with
    | gone => simp [step, hhandle] at h
    | pushing last => simp [step, hhandle] at h
    | _ =>
        simp only [step, hhandle] at h
        obtain ⟨shared, hrecv, rfl⟩ := Option.map_eq_some_iff.mp h
        exact eq_ok_of_toOption hrecv
  rw [SubscribedRecv.recvUnsubscribe] at hshared
  cases hclosed : s.shared.value.closed with
  | some err =>
      rw [hclosed] at hshared
      cases hshared
  | none =>
      rw [hclosed] at hshared
      rw [← Except.ok.inj hshared]
      split <;> rfl

theorem close_maxGroupId {s s' : Serving} (h : s.step .close = some s') :
    s'.shared.value.maxGroupId = s.shared.value.maxGroupId := by
  cases hhandle : s.handle with
  | closing err =>
      simp only [step, hhandle] at h
      split at h
      · next shared hclose =>
          cases h
          obtain ⟨-, -, rfl⟩ := Watch.eq_of_closeWith hclose
          rfl
      · cases h
        rfl
  | _ => simp [step, hhandle] at h

theorem unrecorded_step {s s' : Serving} {act : ServeAct} (hs : Unrecorded s)
    (h : s.step act = some s') : Unrecorded s' := by
  cases steps_of_step h with
  | writer _ => exact hs.of_handle rfl rfl (fun _ h => h) (fun _ h => h)
  | unsubscribe =>
      exact hs.of_handle (unsubscribe_maxGroupId h) rfl (fun _ h => h) (fun _ h => h)
  | serve hhandle =>
      unfold serve
      split
      · exact hs.of_handle rfl rfl (by simp) (by simp)
      · refine ⟨rfl, ?_⟩
        rintro m (h | h | h)
        · cases h
        · cases h
        · rcases List.mem_append.mp h with hold | hnew
          · exact hs.last m (.inr (.inr hold))
          · simp at hnew
  | spawn hhandle _ _ | ended hhandle | retry hhandle _ | closedErr hhandle _
  | closedEnd hhandle _ => exact hs.of_handle rfl rfl (by simp) (by simp)
  | close hhandle hdropped => exact hs.of_handle (close_maxGroupId h) rfl (by simp) (by simp)
  | drop hhandle =>
      refine ⟨hs.maxGroupId, ?_⟩
      rintro m (h | h | h)
      · simp only [HandlePhase.removing.injEq, SubscribedState.terminal] at h
        split at h
        · cases h
          exact hs.maxGroupId
        · cases h
      · cases h
      · exact hs.last m (.inr (.inr h))
  | remove hhandle =>
      refine ⟨hs.maxGroupId, ?_⟩
      rintro m (h | h | h)
      · cases h
      · cases h
        exact hs.last m (.inl hhandle)
      · exact hs.last m (.inr (.inr h))
  | push hhandle =>
      refine ⟨hs.maxGroupId, ?_⟩
      rintro m (h | h | h)
      · cases h
      · cases h
      · rcases List.mem_append.mp h with hold | hnew
        · exact hs.last m (.inr (.inr hold))
        · rw [List.mem_singleton] at hnew
          exact hs.last m (.inr (.inl (hnew ▸ hhandle)))
  | task _ _ hstep =>
      exact hs.of_handle (hstep.maxGroupId hs.maxGroupId) rfl (fun _ h => h) (fun _ h => h)
  | transportFailure _ => exact hs.of_handle rfl rfl (fun _ h => h) (fun _ h => h)

end Serving

theorem TrackTask.maxGroupId_step {track : Stream} {t t' : TrackTask}
    {shared shared' : Watch.State SubscribedState}
    (h : t.step track shared = some (t', shared')) (hshared : shared.value.maxGroupId = none) :
    shared'.value.maxGroupId = shared.value.maxGroupId := by
  cases hphase : t.phase with
  | nextGroup | nextObject | payload _ _ _ =>
      simp only [step, hphase] at h
      split at h <;> cases h <;> rfl
  | update position info =>
      simp only [step, hphase] at h
      split at h
      · cases h
        rfl
      · cases h
        exact SubscribedState.maxGroupId_update hshared _ _
  | _ =>
      simp only [step, hphase] at h
      cases h <;> rfl

theorem DatagramTask.maxGroupId_step {datagrams : Watch.State DatagramsState} {taken : Bool}
    {t t' : DatagramTask} {shared shared' : Watch.State SubscribedState}
    (h : t.step datagrams taken shared = some (t', shared'))
    (hshared : shared.value.maxGroupId = none) :
    shared'.value.maxGroupId = shared.value.maxGroupId := by
  cases hphase : t.phase with
  | reading =>
      simp only [step, hphase] at h
      split at h <;> cases h <;> rfl
  | sending d =>
      simp only [step, hphase] at h
      split at h
      · cases h
        rfl
      · split at h <;> cases h <;> rfl
  | update d =>
      simp only [step, hphase] at h
      split at h
      · cases h
        rfl
      · cases h
        exact SubscribedState.maxGroupId_update hshared _ _
  | _ =>
      simp only [step, hphase] at h
      cases h <;> rfl

namespace TrackServing

/-- The objects whose headers a step sends, in whichever mode. -/
def sends (s : TrackServing) : TrackServingAct → List (Nat × Nat)
  | .serving (.task index) => (s.serving.tasks[index]?).elim [] SubgroupTask.sends
  | .inner taken =>
      match s.inner with
      | .track t => t.sends
      | .datagrams t => t.sends taken
      | _ => []
  | _ => []

theorem unrecorded_setHandle {s : TrackServing} {handle : HandlePhase} (hs : s.serving.Unrecorded)
    (hremoving : ∀ last, handle ≠ .removing last) (hpushing : ∀ last, handle ≠ .pushing last) :
    (s.setHandle handle).serving.Unrecorded :=
  hs.of_handle rfl rfl (fun last h => absurd h (hremoving last))
    (fun last h => absurd h (hpushing last))

theorem unrecorded_failed {s : TrackServing} (hs : s.serving.Unrecorded)
    (fault : Fault SessionError) : (s.failed fault).serving.Unrecorded := by
  cases fault with
  | err e => exact unrecorded_setHandle hs (by simp) (by simp)
  | panic => exact unrecorded_setHandle hs (by simp) (by simp)

theorem unrecorded_serve {s : TrackServing} (hs : s.serving.Unrecorded)
    (hhandle : s.serving.handle = .held) : s.serve.serving.Unrecorded := by
  unfold serve
  dsimp only
  split
  · exact unrecorded_setHandle hs (by simp) (by simp)
  · refine ⟨rfl, ?_⟩
    rintro m (h | h | h)
    · simp [hhandle] at h
    · simp [hhandle] at h
    · rcases List.mem_append.mp h with hold | hnew
      · exact hs.last m (.inr (.inr hold))
      · simp at hnew

theorem unrecorded_step {s s' : TrackServing} {act : TrackServingAct}
    (hs : s.serving.Unrecorded) (h : s.step act = some s') : s'.serving.Unrecorded := by
  cases act with
  | writers state stream datagrams =>
      cases h
      exact hs
  | serve =>
      rw [step] at h
      split at h
      · next hheld =>
          cases h
          exact unrecorded_serve hs hheld.2
      · cases h
  | mode =>
      rw [step] at h
      split at h
      · unfold mode at h
        split at h <;> cases h
        · exact unrecorded_setHandle hs (by simp) (by simp)
        · exact hs
        · exact unrecorded_setHandle hs (by simp) (by simp)
        · exact hs
      · cases h
  | inner taken =>
      rw [step] at h
      split at h
      · obtain ⟨⟨t', shared⟩, hstep, rfl⟩ := Option.map_eq_some_iff.mp h
        exact hs.of_handle (TrackTask.maxGroupId_step hstep hs.maxGroupId) rfl (fun _ h => h)
          (fun _ h => h)
      · obtain ⟨⟨t', shared⟩, hstep, rfl⟩ := Option.map_eq_some_iff.mp h
        exact hs.of_handle (DatagramTask.maxGroupId_step hstep hs.maxGroupId) rfl (fun _ h => h)
          (fun _ h => h)
      · cases h
  | innerFailure message =>
      rw [step] at h
      split at h
      · split at h <;> cases h
        exact hs
      · split at h <;> cases h
        exact hs
      · cases h
  | return_ =>
      rw [step] at h
      split at h
      · split at h <;> cases h
        · exact unrecorded_setHandle hs (by simp) (by simp)
        · exact unrecorded_failed hs _
      · split at h <;> cases h
        · exact unrecorded_setHandle hs (by simp) (by simp)
        · exact unrecorded_failed hs _
      · cases h
  | serving act =>
      rw [step] at h
      split at h
      · cases h
      · obtain ⟨serving, hserving, rfl⟩ := Option.map_eq_some_iff.mp h
        exact Serving.unrecorded_step hs hserving

/-- The position of a SUBSCRIBE_DONE is that of the last object sent exactly
if nothing was sent. -/
theorem last_eq_iff (id trackAlias : Nat) (s : TrackServing) (as : List TrackServingAct)
    (m : Message.SubscribeDone) (hrun : Run step (fun _ _ => True) (init id trackAlias) as s)
    (hm : s.serving.Made m) :
    m.last = lexMax (TrackReader.latest s.track) (emitted step sends (init id trackAlias) as) ↔
      emitted step sends (init id trackAlias) as = [] := by
  have hs : s.serving.Unrecorded := by
    apply (hrun.reachable .init).invariant
    · exact Serving.unrecorded_init id trackAlias
    · intro s s' act hs _ hstep
      exact unrecorded_step hs hstep
  rw [hs.last m hm, ← lexMax_none_eq_none_iff]
  exact eq_comm

/-- The handle gets as far as the loop, and the track is in subgroup mode. -/
def startLoop : List TrackServingAct :=
  [.serve, .writers (.new ⟨some .subgroups, none⟩) (.produce 0) (.new ⟨none, 0, none⟩), .mode]

/-- The track ends before anything is written to it. -/
theorem last_eq_nothing :
    ∃ s as m, Run step (fun _ _ => True) (init 0 0) as s ∧ s.serving.Made m ∧
      m.last = lexMax (TrackReader.latest s.track) (emitted step sends (init 0 0) as) := by
  have hrun : ∃ s, run step (fun _ _ => true) (init 0 0)
      (startLoop ++ [.serving (.writer .drop), .serving .next, .serving .drop]) = some s ∧
      s.serving.handle = .removing (.subscribeDone ⟨0, 0, "done", none⟩) := ⟨_, rfl, rfl⟩
  obtain ⟨s, hs, hhandle⟩ := hrun
  have hrun : Run step (fun _ _ => True) (init 0 0) _ s := run_of_eq _ (fun _ _ _ => trivial) hs
  exact ⟨s, _, _, hrun, .inl hhandle, (last_eq_iff 0 0 s _ _ hrun (.inl hhandle)).mpr rfl⟩

/-- A subgroup with one object of one byte, and the track ends. -/
def writeOneObject : List TrackServingAct :=
  let w : SubgroupWriter := ⟨0, ⟨0, 0, 127⟩, 0⟩
  let object : SubgroupObjectWriter := ⟨0, ⟨0, 1, .object⟩, 1⟩
  [.create .new ⟨0, 0, 127⟩, .createObject w 1, .write w object [7],
    .dropObject w { object with remain := 0 }, .dropSubgroup w, .drop].map fun act =>
      .serving (.writer act)

/-- The task sends the object, and the message has no position. -/
theorem last_ne_oneObject :
    ∃ s as m, Run step (fun _ _ => True) (init 0 0) as s ∧ s.serving.Made m ∧
      emitted step sends (init 0 0) as = [(0, 0)] ∧ m.last = none ∧
      m.last ≠ lexMax (TrackReader.latest s.track) (emitted step sends (init 0 0) as) := by
  have hrun : ∃ s as, run step (fun _ _ => true) (init 0 0) as = some s ∧
      s.serving.handle = .removing (.subscribeDone ⟨0, 0, "done", none⟩) ∧
      emitted step sends (init 0 0) as = [(0, 0)] :=
    ⟨_, startLoop ++ writeOneObject ++ [.serving .next, .serving (.task 0), .serving (.task 0),
      .serving (.task 0), .serving (.task 0), .serving (.task 0), .serving .next, .serving .drop],
      rfl, rfl, rfl⟩
  obtain ⟨s, as, hs, hhandle, hsent⟩ := hrun
  have hrun : Run step (fun _ _ => True) (init 0 0) as s := run_of_eq _ (fun _ _ _ => trivial) hs
  refine ⟨s, as, _, hrun, .inl hhandle, hsent, rfl, ?_⟩
  rw [hsent]
  change none ≠ lexMax none [(0, 0)]
  decide

end TrackServing

end MoqTransport.Session
