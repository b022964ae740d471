import MoqTransport.Serve.Tracks

/-!
Several requests for one name of a broadcast. The map is looked up, the
request is queued and the map is filled under one lock, so between two calls
of the `TracksWriter` all readers share one track and one request
(`subscribe_once`). Nothing but the `TracksWriter` takes a track out of the
map again: one whose request has failed answers for its name from then on
(`retried_iff`).
-/

namespace MoqTransport.Serve

open Machine

/-- What is done with a `TrackWriter`; it is gone afterwards. -/
inductive HolderAct where
  | stream (priority : UInt8)
  | groups
  | datagrams
  | close (err : ServeError)
  | drop
deriving DecidableEq

def HolderAct.apply (track : Track) : HolderAct → Track
  | .stream priority =>
      (TrackWriter.stream track priority).toOption.getD (TrackWriterMode.track.drop track)
  | .groups =>
      ((TrackWriter.groups track).toOption.map Prod.snd).getD (TrackWriterMode.track.drop track)
  | .datagrams => (TrackWriter.datagrams track).toOption.getD (TrackWriterMode.track.drop track)
  | .close err => TrackWriterMode.track.drop ((TrackWriter.close track err).toOption.getD track)
  | .drop => TrackWriterMode.track.drop track

/-- A broadcast with its `TracksWriter`. The tracks it creates are listed with
the requested ones; `names` has the name of each. -/
structure Tracks where
  broadcast : Broadcast
  names : List String

inductive TracksAct where
  | create (name : String)
  | remove (name : String)
  | holder (i : Nat) (act : HolderAct)
  | broadcast (act : BroadcastAct)

namespace Tracks

def init : Tracks := ⟨.init, []⟩

/-- `TracksWriter::create`. A track of that name is overwritten. -/
def create (s : Tracks) (name : String) : Option Nat × Tracks :=
  if s.broadcast.dropped then
    (none, s)
  else
    (some s.broadcast.requested.length,
      { broadcast := { s.broadcast with
          requested := s.broadcast.requested ++ [.produce]
          tracks := s.broadcast.tracks.insert name s.broadcast.requested.length }
        names := s.names ++ [name] })

/-- `TracksWriter::remove`. -/
def remove (s : Tracks) (name : String) : Option Nat × Tracks :=
  if s.broadcast.dropped then
    (none, s)
  else
    (s.broadcast.tracks.lookup name,
      { s with broadcast := { s.broadcast with tracks := s.broadcast.tracks.erase name } })

/-- The name of a track that a step of the readers adds. -/
def named (s : Tracks) (act : BroadcastAct) (broadcast : Broadcast) : List String :=
  match act with
  | .subscribe name =>
      if broadcast.requested.length = s.broadcast.requested.length then s.names
      else s.names ++ [name]
  | _ => s.names

def step (s : Tracks) : TracksAct → Option Tracks
  | .create name => if s.broadcast.writer then some (s.create name).2 else none
  | .remove name => if s.broadcast.writer then some (s.remove name).2 else none
  | .holder i act => do
      let track ← s.broadcast.requested[i]?
      if track.state.dropped ∨ i ∈ s.broadcast.queue.value then
        none
      else
        some { s with broadcast := { s.broadcast with
          requested := s.broadcast.requested.set i (act.apply track) } }
  | .broadcast act =>
      (s.broadcast.step act).map fun broadcast => ⟨broadcast, s.named act broadcast⟩

/-- The `TracksWriter` leaves the name alone. -/
def Untouched (name : String) (_ : Tracks) (act : TracksAct) : Prop :=
  act ≠ .create name ∧ act ≠ .remove name

/-- What a call of `subscribe` for the name returns. -/
def answers (name : String) (s : Tracks) : TracksAct → List (Option Nat)
  | .broadcast (.subscribe asked) =>
      if asked = name then [(s.broadcast.subscribe name).1] else []
  | _ => []

/-- What a call of `subscribe` for the name adds to the queue. -/
def pushes (name : String) (s : Tracks) : TracksAct → List Nat
  | .broadcast (.subscribe asked) =>
      if asked = name then
        (s.broadcast.subscribe name).2.queue.value.drop s.broadcast.queue.value.length
      else []
  | _ => []

end Tracks

namespace Broadcast

/-- A track the map knows. -/
theorem subscribe_of_some {s : Broadcast} {name : String} {i : Nat}
    (h : s.tracks.lookup name = some i) : s.subscribe name = (some i, s) := by
  rw [subscribe, h]

/-- A new request for the name. -/
def requests (s : Broadcast) (name : String) : Broadcast :=
  { s with
    queue := s.queue.update (· ++ [s.requested.length])
    requested := s.requested ++ [.produce]
    tracks := s.tracks.insert name s.requested.length }

/-- A name the map does not know: the request is queued, or refused by a side
that is gone. -/
theorem subscribe_of_none {s : Broadcast} {name : String} (h : s.tracks.lookup name = none) :
    (s.dropped = true ∨ s.queue.dropped = true) ∧ s.subscribe name = (none, s) ∨
      s.dropped = false ∧ s.queue.dropped = false ∧
        s.subscribe name = (some s.requested.length, s.requests name) := by
  rw [subscribe, h]
  dsimp only
  cases hdropped : s.dropped with
  | true => exact .inl ⟨.inl rfl, rfl⟩
  | false =>
      cases hqueue : s.queue.dropped with
      | true => exact .inl ⟨.inr rfl, by simp [Watch.Queue.push, hqueue]⟩
      | false => exact .inr ⟨rfl, rfl, by simp [Watch.Queue.push, hqueue, requests]⟩

/-- The queue is closed only when the readers are gone or the request side
goes. -/
def KeptOpen (s : Broadcast) : Prop :=
  s.queue.dropped = true → s.readers = 0 ∨ s.request ≠ .held

/-- Only a new request changes the map and adds a track. -/
theorem tracks_step {s s' : Broadcast} {act : BroadcastAct} (h : s.step act = some s') :
    s'.tracks = s.tracks ∧ s'.requested.length = s.requested.length ∨
      ∃ name, act = .subscribe name ∧ name ∉ s.tracks ∧
        s'.tracks = s.tracks.insert name s.requested.length ∧
        s'.requested.length = s.requested.length + 1 := by
  cases steps_of_step h with
  | pushed hnew _ _ => exact .inr ⟨_, rfl, hnew, rfl, by simp⟩
  | closed _ => exact .inl ⟨rfl, by simp [closeTrack]⟩
  | _ => exact .inl ⟨rfl, rfl⟩

end Broadcast

namespace Tracks

variable {s s' : Tracks} {act : TracksAct} {name : String} {as : List TracksAct}

/-- Whoever leaves the name alone leaves its entry alone. -/
theorem lookup_step (h : s.step act = some s') (hact : Untouched name s act)
    (hother : act ≠ .broadcast (.subscribe name)) :
    s'.broadcast.tracks.lookup name = s.broadcast.tracks.lookup name := by
  cases act with
  | create other =>
      have hne : name ≠ other := by
        rintro rfl
        exact hact.1 rfl
      simp only [step, create] at h
      split at h
      · cases h
        split
        · rfl
        · exact Finmap.lookup_insert_of_ne _ hne
      · cases h
  | remove other =>
      have hne : name ≠ other := by
        rintro rfl
        exact hact.2 rfl
      simp only [step, remove] at h
      split at h
      · cases h
        split
        · rfl
        · exact Finmap.lookup_erase_ne hne
      · cases h
  | holder i act =>
      obtain ⟨track, -, h⟩ := Option.bind_eq_some_iff.mp h
      split at h
      · cases h
      · cases h
        rfl
  | broadcast act =>
      obtain ⟨broadcast, hstep, rfl⟩ := Option.map_eq_some_iff.mp h
      rcases Broadcast.tracks_step hstep with ⟨htracks, -⟩ | ⟨asked, rfl, -, htracks, -⟩
      · exact congrArg (Finmap.lookup name) htracks
      · have hne : name ≠ asked := by
          rintro rfl
          exact hother rfl
        exact (congrArg (Finmap.lookup name) htracks).trans (Finmap.lookup_insert_of_ne _ hne)

theorem broadcast_subscribe (h : s.step (.broadcast (.subscribe name)) = some s') :
    s.broadcast.readers ≠ 0 ∧ s'.broadcast = (s.broadcast.subscribe name).2 := by
  obtain ⟨broadcast, hstep, rfl⟩ := Option.map_eq_some_iff.mp h
  simp only [Broadcast.step] at hstep
  split at hstep
  · cases hstep
  · next hreaders =>
      cases hstep
      exact ⟨hreaders, rfl⟩

theorem answers_other (h : act ≠ .broadcast (.subscribe name)) : answers name s act = [] := by
  unfold answers
  split
  · next asked =>
      rw [if_neg]
      rintro rfl
      exact h rfl
  · rfl

theorem pushes_other (h : act ≠ .broadcast (.subscribe name)) : pushes name s act = [] := by
  unfold pushes
  split
  · next asked =>
      rw [if_neg]
      rintro rfl
      exact h rfl
  · rfl

/-- A name the map knows is answered by its track, and not requested. -/
theorem emitted_of_some {i : Nat} (hrun : Run step (Untouched name) s as s')
    (hi : s.broadcast.tracks.lookup name = some i) :
    (∀ answer ∈ emitted step (answers name) s as, answer = some i) ∧
      emitted step (pushes name) s as = [] := by
  induction hrun with
  | nil => exact ⟨by simp [emitted], rfl⟩
  | @cons s mid s' act as hact hstep _ ih =>
      rw [emitted_cons as hstep, emitted_cons as hstep]
      by_cases hasks : act = .broadcast (.subscribe name)
      · subst hasks
        have hsubscribe := Broadcast.subscribe_of_some hi
        have hmid := (broadcast_subscribe hstep).2
        rw [hsubscribe] at hmid
        obtain ⟨hanswers, hpushes⟩ := ih (by rw [hmid, hi])
        constructor
        · intro answer hanswer
          rcases List.mem_append.mp hanswer with hfirst | hrest
          · simpa [answers, hsubscribe] using hfirst
          · exact hanswers answer hrest
        · rw [hpushes]
          simp [pushes, hsubscribe]
      · rw [answers_other hasks, pushes_other hasks]
        exact ih ((lookup_step hstep hact hasks).trans hi)

/-- A name the map does not know is requested at most once, and the request
answers from then on. -/
theorem emitted_of_none (hrun : Run step (Untouched name) s as s')
    (hnone : s.broadcast.tracks.lookup name = none) :
    ∃ i, (∀ answer ∈ emitted step (answers name) s as, answer = none ∨ answer = some i) ∧
      (emitted step (pushes name) s as = [] ∨ emitted step (pushes name) s as = [i]) := by
  induction hrun with
  | nil => exact ⟨0, by simp [emitted], .inl rfl⟩
  | @cons s mid s' act as hact hstep hrest ih =>
      rw [emitted_cons as hstep, emitted_cons as hstep]
      by_cases hasks : act = .broadcast (.subscribe name)
      · subst hasks
        have hmid := (broadcast_subscribe hstep).2
        rcases Broadcast.subscribe_of_none hnone with ⟨-, hsubscribe⟩ | ⟨-, -, hsubscribe⟩
        · rw [hsubscribe] at hmid
          obtain ⟨i, hanswers, hpushes⟩ := ih (by rw [hmid, hnone])
          refine ⟨i, ?_, by simpa [pushes, hsubscribe] using hpushes⟩
          intro answer hanswer
          rcases List.mem_append.mp hanswer with hfirst | hmore
          · left
            simpa [answers, hsubscribe] using hfirst
          · exact hanswers answer hmore
        · rw [hsubscribe] at hmid
          have hi : mid.broadcast.tracks.lookup name = some s.broadcast.requested.length := by
            rw [hmid]
            exact Finmap.lookup_insert _
          obtain ⟨hanswers, hpushes⟩ := emitted_of_some hrest hi
          refine ⟨s.broadcast.requested.length, ?_, .inr ?_⟩
          · intro answer hanswer
            right
            rcases List.mem_append.mp hanswer with hfirst | hmore
            · simpa [answers, hsubscribe] using hfirst
            · exact hanswers answer hmore
          · rw [hpushes]
            simp [pushes, hsubscribe, Broadcast.requests, Watch.State.update]
      · rw [answers_other hasks, pushes_other hasks]
        exact ih ((lookup_step hstep hact hasks).trans hnone)

/-- While the `TracksWriter` leaves a name alone, every subscriber of the name
gets the same track, and it is requested at most once. A subscriber gets
nothing only if the request side or the writing side is gone and the name is
not known, and then nothing changes. -/
theorem subscribe_once (name : String) (s s' : Tracks) (as : List TracksAct)
    (hrun : Run step (Untouched name) s as s') :
    (∀ i j, some i ∈ emitted step (answers name) s as →
      some j ∈ emitted step (answers name) s as → i = j) ∧
    (emitted step (pushes name) s as).length ≤ 1 ∧
    ((s'.broadcast.subscribe name).1 = none →
      (s'.broadcast.queue.dropped = true ∨ s'.broadcast.dropped = true) ∧
        name ∉ s'.broadcast.tracks ∧ (s'.broadcast.subscribe name).2 = s'.broadcast) := by
  have hone : ∃ i, (∀ answer ∈ emitted step (answers name) s as, answer = none ∨ answer = some i) ∧
      (emitted step (pushes name) s as).length ≤ 1 := by
    cases hlookup : s.broadcast.tracks.lookup name with
    | some i =>
        obtain ⟨hanswers, hpushes⟩ := emitted_of_some hrun hlookup
        exact ⟨i, fun answer hanswer => .inr (hanswers answer hanswer), by simp [hpushes]⟩
    | none =>
        obtain ⟨i, hanswers, hpushes⟩ := emitted_of_none hrun hlookup
        refine ⟨i, hanswers, ?_⟩
        rcases hpushes with hpushes | hpushes <;> simp [hpushes]
  obtain ⟨i, hanswers, hpushes⟩ := hone
  refine ⟨?_, hpushes, ?_⟩
  · intro j k hj hk
    obtain rfl : j = i := by simpa using hanswers _ hj
    obtain rfl : k = j := by simpa using hanswers _ hk
    rfl
  · intro hnothing
    cases hlookup : s'.broadcast.tracks.lookup name with
    | some i =>
        rw [Broadcast.subscribe_of_some hlookup] at hnothing
        cases hnothing
    | none =>
        rcases Broadcast.subscribe_of_none hlookup with ⟨hgone, hsubscribe⟩ | ⟨-, -, hsubscribe⟩
        · exact ⟨hgone.symm, Finmap.lookup_eq_none.mp hlookup, by rw [hsubscribe]⟩
        · rw [hsubscribe] at hnothing
          cases hnothing

/-- Two readers ask for a track, and the request is taken in between. -/
theorem subscribe_once_two :
    ∃ s as, Run step (Untouched "a") init as s ∧
      emitted step (answers "a") init as = [some 0, some 0] ∧
      emitted step (pushes "a") init as = [0] ∧ (emitted step (pushes "a") init as).length ≤ 1 := by
  have hrun : ∃ s, Run step (Untouched "a") init
      [.broadcast (.subscribe "a"), .broadcast .cloneReader, .broadcast .next,
        .broadcast (.subscribe "a")] s :=
    ⟨_, .cons (by simp [Untouched]) rfl <| .cons (by simp [Untouched]) rfl <|
      .cons (by simp [Untouched]) rfl <| .cons (by simp [Untouched]) rfl .nil⟩
  obtain ⟨s, hrun⟩ := hrun
  exact ⟨s, _, hrun, rfl, rfl, (subscribe_once "a" init s _ hrun).2.1⟩

/-- The `TrackWriter` of a request for the name was handed out, and has been
closed or dropped without setting a mode. -/
def Failed (s : Tracks) (name : String) (i : Nat) : Prop :=
  i ∈ s.broadcast.returned ∧ s.names[i]? = some name ∧
    ∃ track, s.broadcast.requested[i]? = some track ∧ track.state.value.mode = none ∧
      track.state.dropped = true

/-- A reader asks again, and somebody is still there to answer requests. -/
structure Retry (s : Tracks) (name : String) : Prop where
  failed : ∃ i, Failed s name i
  readers : s.broadcast.readers ≠ 0
  request : s.broadcast.request = .held

/-- The answer is a request that has just been queued. -/
def Fresh (s : Tracks) (name : String) : Prop :=
  (s.broadcast.subscribe name).1 = some s.broadcast.requested.length ∧
    (s.broadcast.subscribe name).2.queue.value =
      s.broadcast.queue.value ++ [s.broadcast.requested.length]

/-- A retry queues a fresh request, if the name has no track by now that has
not failed. -/
def Retried (s : Tracks) (act : TracksAct) : Prop :=
  ∀ name, act = .broadcast (.subscribe name) → Retry s name →
    Fresh s name ∨ ∃ i, (s.broadcast.subscribe name).1 = some i ∧ ¬ Failed s name i

/-- At a retry the map does not have the dead track any more. -/
def Evicted (s : Tracks) (act : TracksAct) : Prop :=
  ∀ name, act = .broadcast (.subscribe name) → Retry s name →
    ∀ i, s.broadcast.tracks.lookup name = some i → ¬ Failed s name i

theorem keptOpen_step {s s' : Broadcast} {act : BroadcastAct} (hs : s.KeptOpen)
    (h : s.step act = some s') : s'.KeptOpen := by
  cases Broadcast.steps_of_step h with
  | answered _ => exact hs
  | pushed _ _ hopen =>
      intro hdropped
      exact absurd (hopen.symm.trans hdropped) (by simp)
  | handles n writer hact =>
      have hreaders (hsome : s.readers ≠ 0) : s.queue.dropped = true → s.request ≠ .held :=
        fun hdropped => (hs hdropped).resolve_left hsome
      rcases hact with rfl | rfl | rfl
      · simp only [Broadcast.step] at h
        split at h
        · cases h
        · next hsome => exact fun hdropped => .inr (hreaders hsome hdropped)
      · simp only [Broadcast.step] at h
        split at h
        · cases h
        · next hsome => exact fun hdropped => .inr (hreaders hsome hdropped)
      · cases h
        exact hs
  | destroyed =>
      simp only [Broadcast.step] at h
      split at h
      · next hnone => exact fun _ => .inl hnone
      · cases h
  | returned _ _ hopen =>
      intro hdropped
      exact absurd (hopen.symm.trans hdropped) (by simp)
  | ended _ _ => exact hs
  | drained _ | sealed _ => exact fun _ => .inr (by simp)
  | closed _ => exact fun _ => .inr (by simp)
  | finished _ => exact fun _ => .inr (by simp)

theorem keptOpen_tracks_step (hs : s.broadcast.KeptOpen) (h : s.step act = some s') :
    s'.broadcast.KeptOpen := by
  cases act with
  | create name =>
      simp only [step, create] at h
      split at h
      · cases h
        split
        · exact hs
        · exact hs
      · cases h
  | remove name =>
      simp only [step, remove] at h
      split at h
      · cases h
        split
        · exact hs
        · exact hs
      · cases h
  | holder i act =>
      obtain ⟨track, -, h⟩ := Option.bind_eq_some_iff.mp h
      split at h
      · cases h
      · cases h
        exact hs
  | broadcast act =>
      obtain ⟨broadcast, hstep, rfl⟩ := Option.map_eq_some_iff.mp h
      exact keptOpen_step hs hstep

theorem not_fresh_of_some {i : Nat} (hi : s.broadcast.tracks.lookup name = some i) :
    ¬ Fresh s name := by
  rintro ⟨-, hqueue⟩
  rw [Broadcast.subscribe_of_some hi] at hqueue
  simp at hqueue

theorem fresh_of_none (hs : s.broadcast.KeptOpen) (hretry : Retry s name)
    (hnone : s.broadcast.tracks.lookup name = none) : Fresh s name := by
  have hopen : s.broadcast.queue.dropped = false := by
    rw [Bool.eq_false_iff]
    intro hdropped
    rcases hs hdropped with hreaders | hrequest
    · exact hretry.readers hreaders
    · exact hrequest hretry.request
  have hthere : s.broadcast.dropped = false := by
    simp [Broadcast.dropped, hopen, hretry.request]
  rcases Broadcast.subscribe_of_none hnone with ⟨hgone, -⟩ | ⟨-, -, hsubscribe⟩
  · simp [hopen, hthere] at hgone
  · rw [Fresh, hsubscribe]
    exact ⟨rfl, rfl⟩

theorem retried_iff_evicted (hs : s.broadcast.KeptOpen) : Retried s act ↔ Evicted s act := by
  constructor
  · intro hretried name hact hretry i hi
    rcases hretried name hact hretry with hfresh | ⟨j, hj, hlive⟩
    · exact absurd hfresh (not_fresh_of_some hi)
    · rw [Broadcast.subscribe_of_some hi] at hj
      obtain rfl := Option.some.inj hj
      exact hlive
  · intro hevicted name hact hretry
    cases hlookup : s.broadcast.tracks.lookup name with
    | none => exact .inl (fresh_of_none hs hretry hlookup)
    | some i =>
        right
        exact ⟨i, by rw [Broadcast.subscribe_of_some hlookup], hevicted name hact hretry i hlookup⟩

/-- The `TracksWriter` is not used. -/
def WithoutWriter (_ : Tracks) (act : TracksAct) : Prop :=
  ∀ name, act ≠ .create name ∧ act ≠ .remove name

/-- Every track is the one the map has under its name. -/
structure Named (s : Tracks) : Prop where
  length : s.names.length = s.broadcast.requested.length
  lookup : ∀ i name, s.names[i]? = some name → s.broadcast.tracks.lookup name = some i

theorem named_step (hs : Named s) (hact : WithoutWriter s act) (h : s.step act = some s') :
    Named s' := by
  cases act with
  | create name => exact absurd rfl (hact name).1
  | remove name => exact absurd rfl (hact name).2
  | holder i act =>
      obtain ⟨track, -, h⟩ := Option.bind_eq_some_iff.mp h
      split at h
      · cases h
      · cases h
        exact ⟨by simp [hs.length], hs.lookup⟩
  | broadcast act =>
      obtain ⟨broadcast, hstep, rfl⟩ := Option.map_eq_some_iff.mp h
      rcases Broadcast.tracks_step hstep with
        ⟨htracks, hlength⟩ | ⟨asked, rfl, hnew, htracks, hlength⟩
      · have hnames : s.named act broadcast = s.names := by
          unfold named
          split
          · rw [if_pos hlength]
          · rfl
        refine ⟨?_, ?_⟩
        · rw [hnames, hs.length]
          exact hlength.symm
        · intro i name hi
          rw [hnames] at hi
          exact (congrArg (Finmap.lookup name) htracks).trans (hs.lookup i name hi)
      · have hnames : s.named (.subscribe asked) broadcast = s.names ++ [asked] := by
          rw [named, if_neg (by omega)]
        refine ⟨?_, ?_⟩
        · rw [hnames, List.length_append, List.length_singleton, hs.length]
          exact hlength.symm
        · intro i name hi
          rw [hnames] at hi
          rcases getElem?_concat_iff.mp hi with hold | ⟨rfl, rfl⟩
          · have hlookup := hs.lookup i name hold
            have hne : name ≠ asked := by
              rintro rfl
              exact hnew (Finmap.mem_of_lookup_eq_some hlookup)
            exact (congrArg (Finmap.lookup name) htracks).trans
              ((Finmap.lookup_insert_of_ne _ hne).trans hlookup)
          · rw [hs.length]
            exact (congrArg (Finmap.lookup asked) htracks).trans (Finmap.lookup_insert _)

theorem named_of_reachable (hs : Reachable step WithoutWriter init s) : Named s := by
  apply hs.invariant
  · exact ⟨rfl, by simp [init]⟩
  · intro s s' act hs hact h
    exact named_step hs hact h

/-- No retry of a run gets a dead track exactly if every dead track is taken
out of the map before. Without the `TracksWriter` none is: every retry gets the
dead track. -/
theorem retried_iff (as : List TracksAct) (s : Tracks) :
    (Run step Retried init as s ↔ Run step Evicted init as s) ∧
    (Run step WithoutWriter init as s → ∀ (name : String) (i : Nat), Failed s name i →
      s.broadcast.subscribe name = (some i, s.broadcast)) := by
  constructor
  · apply Run.congr keptOpen_tracks_step retried_iff_evicted
    intro hdropped
    cases hdropped
  · intro hrun name i hfailed
    exact Broadcast.subscribe_of_some
      ((named_of_reachable (hrun.reachable .init)).lookup i name hfailed.2.1)

/-- The peer refuses the track of the first request. -/
theorem not_retried_closed :
    ∃ s, Run step (fun _ _ => True) init
        [.broadcast (.subscribe "a"), .broadcast .next, .holder 0 (.close (.closed 404))] s ∧
      Failed s "a" 0 ∧ s.broadcast.subscribe "a" = (some 0, s.broadcast) ∧
      ¬ Retried s (.broadcast (.subscribe "a")) := by
  have hrun : ∃ s, run step (fun _ _ => true) init
      [.broadcast (.subscribe "a"), .broadcast .next, .holder 0 (.close (.closed 404))] = some s ∧
      Failed s "a" 0 ∧ s.broadcast.subscribe "a" = (some 0, s.broadcast) ∧
      s.broadcast.readers ≠ 0 ∧ s.broadcast.request = .held :=
    ⟨_, rfl, ⟨by decide, rfl, _, rfl, rfl, rfl⟩, rfl, by decide, rfl⟩
  obtain ⟨s, hs, hfailed, hsubscribe, hreaders, hrequest⟩ := hrun
  refine ⟨s, run_of_eq _ (fun _ _ _ => trivial) hs, hfailed, hsubscribe, ?_⟩
  intro hretried
  rcases hretried "a" rfl ⟨⟨0, hfailed⟩, hreaders, hrequest⟩ with ⟨-, hqueue⟩ | ⟨i, hi, hlive⟩
  · rw [hsubscribe] at hqueue
    simp at hqueue
  · rw [hsubscribe] at hi
    obtain rfl := Option.some.inj hi
    exact hlive hfailed

end Tracks

end MoqTransport.Serve
