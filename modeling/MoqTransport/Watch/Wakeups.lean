import MoqTransport.Lib.Machine
import MoqTransport.Watch.State

/-!
The shared state behind its mutex: the value, the registered wakers, the epoch
and the `dropped` flag. Waiting for a change takes three steps that other
tasks may come between: `modified` reads the epoch under the lock, a later
poll compares it and registers a waker, and a change raises the epoch and
wakes everyone registered. Every critical section is one step here.

`log` records what the tasks can observe, in order. `no_lost_wakeups` says
that the three steps fit together in every run. The other modules leave the
waiting out and work with a `State`; `refines` says that its steps are all that
a run does to the value and the flag.
-/

namespace MoqTransport.Watch

open Machine

/-- `epoch` counts the notifications in a `usize`; that it wraps after `2 ^ 64`
of them, back to what a future has seen, is left out. -/
structure StateInner (T W : Type) where
  value : T
  wakers : List W
  epoch : Nat
  dropped : Bool

namespace StateInner

variable {T W : Type}

def new (value : T) : StateInner T W := ⟨value, [], 0, false⟩

/-- The new waker takes the place of those that wake the same task. -/
def register (willWake : W → W → Bool) (s : StateInner T W) (waker : W) : StateInner T W :=
  { s with wakers := s.wakers.filter (fun existing => !willWake existing waker) ++ [waker] }

/-- The wakers that were registered are woken and forgotten. -/
def notify (s : StateInner T W) : StateInner T W := { s with epoch := s.epoch + 1, wakers := [] }

/-- What is left of the state without the waiting. -/
def view (s : StateInner T W) : State T := ⟨s.value, s.dropped⟩

end StateInner

inductive StateAct (T : Type) where
  | update (f : T → T)
  | drop

/-- What a lock of the state leads to: `lock_mut` gives nothing once a side is
gone. -/
def State.step {T : Type} (s : State T) : StateAct T → Option (State T)
  | .update f => if s.dropped then none else some (s.update f)
  | .drop => some s.drop

/-- The handles that share one `StateDrop`. Its destructor runs some time
after the last of them is gone. -/
structure Side where
  handles : Nat
  destroyed : Bool

inductive Event (W : Type) where
  /-- `modified` has made a future. -/
  | created (future : Nat)
  | polled (future : Nat) (waker : W) (ready : Bool)
  /-- A `StateMut` was released, or a side went away. -/
  | notified (woken : List W)

/-- The shared state, its handles and the futures made from it; a future is
the epoch it has seen. -/
structure Watched (T W : Type) where
  inner : StateInner T W
  sides : List Side
  futures : List Nat
  log : List (Event W)

inductive WatchAct (T W : Type) where
  /-- `lock`, and the release of the lock. -/
  | lock (side : Nat)
  | modified (side : Nat)
  /-- `lock_mut` or `into_mut`, a change of the value, and the release. -/
  | update (side : Nat) (f : T → T)
  | clone (side : Nat)
  | split (side : Nat)
  | drop (side : Nat)
  /-- The destructor of a `StateDrop`. -/
  | destroy (side : Nat)
  | poll (future : Nat) (waker : W)

namespace Watched

variable {T W : Type}

def init (value : T) : Watched T W := ⟨.new value, [⟨1, false⟩], [], []⟩

def record (s : Watched T W) (e : Event W) : Watched T W := { s with log := s.log ++ [e] }

/-- Change the inner state and notify. -/
def notifyWith (s : Watched T W) (f : StateInner T W → StateInner T W) : Watched T W :=
  { s with inner := (f s.inner).notify }.record (.notified s.inner.wakers)

/-- Something done with a handle of the side. -/
def withHandle (s : Watched T W) (i : Nat) (f : Side → Watched T W) : Option (Watched T W) :=
  match s.sides[i]? with
  | some side => if side.handles = 0 then none else some (f side)
  | none => none

def setSide (s : Watched T W) (i : Nat) (side : Side) : Watched T W :=
  { s with sides := s.sides.set i side }

/-- `StateChanged::poll`. -/
def poll (willWake : W → W → Bool) (s : Watched T W) (future epoch : Nat) (waker : W) :
    Watched T W :=
  if s.inner.epoch > epoch then
    s.record (.polled future waker true)
  else
    { s with inner := s.inner.register willWake waker }.record (.polled future waker false)

def step (willWake : W → W → Bool) (s : Watched T W) : WatchAct T W → Option (Watched T W)
  | .lock i => s.withHandle i fun _ => s
  | .modified i => s.withHandle i fun _ =>
      if s.inner.dropped then
        s
      else
        { s with futures := s.futures ++ [s.inner.epoch] }.record (.created s.futures.length)
  | .update i f => s.withHandle i fun _ =>
      if s.inner.dropped then s else s.notifyWith fun inner => { inner with value := f inner.value }
  | .clone i => s.withHandle i fun side => s.setSide i { side with handles := side.handles + 1 }
  | .split i => s.withHandle i fun _ => { s with sides := s.sides ++ [⟨1, false⟩] }
  | .drop i => s.withHandle i fun side => s.setSide i { side with handles := side.handles - 1 }
  | .destroy i =>
      match s.sides[i]? with
      | some side =>
          if side.handles = 0 ∧ side.destroyed = false then
            some ((s.setSide i { side with destroyed := true }).notifyWith
              fun inner => { inner with dropped := true })
          else
            none
      | none => none
  | .poll future waker =>
      match s.futures[future]? with
      | some epoch => some (s.poll willWake future epoch waker)
      | none => none

/-- The steps, by what they do to the state and to the log. -/
inductive Steps (willWake : W → W → Bool) (s : Watched T W) : Watched T W → Prop where
  | quiet {s' : Watched T W} (hinner : s'.inner = s.inner) (hfutures : s'.futures = s.futures)
      (hlog : s'.log = s.log) : Steps willWake s s'
  | created (hdropped : s.inner.dropped = false) : Steps willWake s
      ({ s with futures := s.futures ++ [s.inner.epoch] }.record (.created s.futures.length))
  | updated (f : T → T) (hdropped : s.inner.dropped = false) :
      Steps willWake s (s.notifyWith fun inner => { inner with value := f inner.value })
  | destroyed (i : Nat) (side : Side) : Steps willWake s
      ((s.setSide i side).notifyWith fun inner => { inner with dropped := true })
  | polled {future epoch : Nat} (waker : W) (hfuture : s.futures[future]? = some epoch) :
      Steps willWake s (s.poll willWake future epoch waker)

variable {willWake : W → W → Bool} {s s' : Watched T W}

theorem eq_of_withHandle {i : Nat} {f : Side → Watched T W} (h : s.withHandle i f = some s') :
    ∃ side, s' = f side := by
  unfold withHandle at h
  split at h
  · split at h
    · cases h
    · cases h
      exact ⟨_, rfl⟩
  · cases h

theorem steps_of_step {act : WatchAct T W} (h : s.step willWake act = some s') :
    Steps willWake s s' := by
  cases act with
  | lock i =>
      obtain ⟨-, rfl⟩ := eq_of_withHandle h
      exact .quiet rfl rfl rfl
  | modified i =>
      obtain ⟨-, rfl⟩ := eq_of_withHandle h
      split
      · exact .quiet rfl rfl rfl
      · next hdropped => exact .created (by simpa using hdropped)
  | update i f =>
      obtain ⟨-, rfl⟩ := eq_of_withHandle h
      split
      · exact .quiet rfl rfl rfl
      · next hdropped => exact .updated f (by simpa using hdropped)
  | clone i =>
      obtain ⟨side, rfl⟩ := eq_of_withHandle h
      exact .quiet rfl rfl rfl
  | split i =>
      obtain ⟨-, rfl⟩ := eq_of_withHandle h
      exact .quiet rfl rfl rfl
  | drop i =>
      obtain ⟨side, rfl⟩ := eq_of_withHandle h
      exact .quiet rfl rfl rfl
  | destroy i =>
      simp only [step] at h
      split at h
      · split at h
        · cases h
          exact .destroyed i _
        · cases h
      · cases h
  | poll future waker =>
      simp only [step] at h
      split at h
      · next hfuture =>
          cases h
          exact .polled waker hfuture
      · cases h

/-- Without the waiting, a step reads the state, changes its value while both
sides are there, or drops it. -/
theorem view_step {act : WatchAct T W} (h : s.step willWake act = some s') :
    s'.inner.view = s.inner.view ∨
      (s.inner.view.dropped = false ∧ ∃ f, s'.inner.view = s.inner.view.update f) ∨
      s'.inner.view = s.inner.view.drop := by
  cases steps_of_step h with
  | quiet hinner _ _ => exact .inl (by rw [hinner])
  | created _ => exact .inl rfl
  | updated f hdropped => exact .inr (.inl ⟨hdropped, f, rfl⟩)
  | destroyed i side => exact .inr (.inr rfl)
  | polled waker _ =>
      left
      unfold poll
      split
      · rfl
      · rfl

/-- Without the waiting, a run is one of the state alone. -/
theorem refines {acts : List (WatchAct T W)}
    (hrun : Run (step willWake) (fun _ _ => True) s acts s') :
    ∃ as, Run State.step (fun _ _ => True) s.inner.view as s'.inner.view := by
  induction hrun with
  | nil => exact ⟨[], .nil⟩
  | cons _ hstep _ ih =>
      obtain ⟨as, has⟩ := ih
      rcases view_step hstep with hsame | ⟨hdropped, f, hupdate⟩ | hdrop
      · exact ⟨as, hsame ▸ has⟩
      · refine ⟨.update f :: as, .cons trivial ?_ has⟩
        rw [State.step, if_neg (by simp [hdropped]), hupdate]
      · exact ⟨.drop :: as, .cons trivial (by rw [State.step, hdrop]) has⟩

end Watched

/-- A notification at a position of the log. -/
def NotifiedAt {W : Type} (log : List (Event W)) (k : Nat) : Prop :=
  ∃ woken, log[k]? = some (.notified woken)

/-- No wakeup is lost: a waker left behind by a pending poll is woken by the
first notification after it, and a poll is ready exactly if there was a
notification since `modified`. -/
structure NoLostWakeups {W K : Type} (task : W → K) (log : List (Event W)) : Prop where
  woken : ∀ {i j future : Nat} {waker : W} {woken : List W},
    log[i]? = some (.polled future waker false) → log[j]? = some (.notified woken) → i < j →
    (∀ k, i < k → k < j → ¬ NotifiedAt log k) → ∃ other ∈ woken, task other = task waker
  made : ∀ {j future : Nat} {waker : W} {ready : Bool},
    log[j]? = some (.polled future waker ready) → ∃ i < j, log[i]? = some (.created future)
  ready : ∀ {i j future : Nat} {waker : W} {ready : Bool},
    log[i]? = some (.created future) → log[j]? = some (.polled future waker ready) →
    (ready = true ↔ ∃ k, i < k ∧ k < j ∧ NotifiedAt log k)

theorem lt_of_getElem?_eq {α : Type} {l : List α} {y : α} {i : Nat} (h : l[i]? = some y) :
    i < l.length :=
  (List.getElem?_eq_some_iff.mp h).1

section

variable {W K : Type} {task : W → K} {log : List (Event W)} {e : Event W}

theorem NotifiedAt.lt_length {k : Nat} (h : NotifiedAt log k) : k < log.length := by
  obtain ⟨woken, hk⟩ := h
  exact lt_of_getElem?_eq hk

theorem notifiedAt_concat {k : Nat} :
    NotifiedAt (log ++ [e]) k ↔
      NotifiedAt log k ∨ k = log.length ∧ ∃ woken, e = .notified woken := by
  simp only [NotifiedAt, getElem?_concat_iff, exists_or, exists_and_left]

/-- Other events do not change where the notifications are. -/
theorem notifiedAt_concat_of_ne (he : ∀ woken, e ≠ .notified woken) :
    NotifiedAt (log ++ [e]) = NotifiedAt log := by
  funext k
  simp [notifiedAt_concat, he]

/-- Before the last event nothing changes. -/
theorem notifiedAt_concat_of_lt {k : Nat} (hk : k < log.length) :
    NotifiedAt (log ++ [e]) k ↔ NotifiedAt log k := by
  rw [notifiedAt_concat]
  constructor
  · rintro (h | ⟨rfl, -⟩)
    · exact h
    · omega
  · exact .inl

/-- One more event: what a notification, a poll and a new future have to
satisfy. -/
theorem NoLostWakeups.concat (h : NoLostWakeups task log)
    (hwoken : ∀ woken, e = .notified woken → ∀ (i future : Nat) (waker : W),
      log[i]? = some (.polled future waker false) → (∀ k, i < k → ¬ NotifiedAt log k) →
      ∃ other ∈ woken, task other = task waker)
    (hpolled : ∀ future waker ready, e = .polled future waker ready →
      (∃ i : Nat, log[i]? = some (.created future)) ∧
      ∀ i : Nat, log[i]? = some (.created future) →
        (ready = true ↔ ∃ k, i < k ∧ NotifiedAt log k))
    (hcreated : ∀ future, e = .created future → ∀ (j : Nat) waker ready,
      log[j]? ≠ some (.polled future waker ready)) :
    NoLostWakeups task (log ++ [e]) := by
  refine ⟨?_, ?_, ?_⟩
  · intro i j future waker woken hi hj hij hfirst
    have hi' : log[i]? = some (.polled future waker false) := by
      rcases getElem?_concat_iff.mp hi with hi | ⟨rfl, -⟩
      · exact hi
      · rcases getElem?_concat_iff.mp hj with hj | ⟨rfl, -⟩
        · have := lt_of_getElem?_eq hj
          omega
        · omega
    rcases getElem?_concat_iff.mp hj with hj | ⟨rfl, rfl⟩
    · have hlt := lt_of_getElem?_eq hj
      apply h.woken hi' hj hij
      intro k hik hkj hk
      exact hfirst k hik hkj ((notifiedAt_concat_of_lt (by omega)).mpr hk)
    · apply hwoken woken rfl i future waker hi'
      intro k hik hk
      exact hfirst k hik hk.lt_length (notifiedAt_concat.mpr (.inl hk))
  · intro j future waker ready hj
    rcases getElem?_concat_iff.mp hj with hj | ⟨rfl, rfl⟩
    · obtain ⟨i, hij, hi⟩ := h.made hj
      exact ⟨i, hij, getElem?_concat_iff.mpr (.inl hi)⟩
    · obtain ⟨⟨i, hi⟩, -⟩ := hpolled future waker ready rfl
      exact ⟨i, lt_of_getElem?_eq hi, getElem?_concat_iff.mpr (.inl hi)⟩
  · intro i j future waker ready hi hj
    rcases getElem?_concat_iff.mp hi with hmade | ⟨rfl, rfl⟩
    · rcases getElem?_concat_iff.mp hj with hj | ⟨rfl, rfl⟩
      · rw [h.ready hmade hj]
        have hlt := lt_of_getElem?_eq hj
        constructor
        · rintro ⟨k, hik, hkj, hk⟩
          exact ⟨k, hik, hkj, (notifiedAt_concat_of_lt (by omega)).mpr hk⟩
        · rintro ⟨k, hik, hkj, hk⟩
          exact ⟨k, hik, hkj, (notifiedAt_concat_of_lt (by omega)).mp hk⟩
      · rw [(hpolled future waker ready rfl).2 i hmade]
        constructor
        · rintro ⟨k, hik, hk⟩
          exact ⟨k, hik, hk.lt_length, notifiedAt_concat.mpr (.inl hk)⟩
        · rintro ⟨k, hik, hkj, hk⟩
          exact ⟨k, hik, (notifiedAt_concat_of_lt hkj).mp hk⟩
    · rcases getElem?_concat_iff.mp hj with hj | ⟨-, hcontra⟩
      · exact absurd hj (hcreated future rfl j waker ready)
      · cases hcontra

end

namespace Watched

variable {T W K : Type} {willWake : W → W → Bool} {task : W → K} {s s' : Watched T W}

/-- What ties the epochs and the wakers to the log. -/
structure Invariant (task : W → K) (s : Watched T W) : Prop where
  past : ∀ {future epoch : Nat}, s.futures[future]? = some epoch → epoch ≤ s.inner.epoch
  known : ∀ {future epoch : Nat}, s.futures[future]? = some epoch →
    ∃ i : Nat, s.log[i]? = some (.created future)
  created : ∀ {i future : Nat}, s.log[i]? = some (.created future) →
    ∃ epoch, s.futures[future]? = some epoch ∧
      (epoch < s.inner.epoch ↔ ∃ k, i < k ∧ NotifiedAt s.log k)
  waiting : ∀ {i future : Nat} {waker : W}, s.log[i]? = some (.polled future waker false) →
    (∀ k, i < k → ¬ NotifiedAt s.log k) → ∃ other ∈ s.inner.wakers, task other = task waker
  sound : NoLostWakeups task s.log

theorem invariant_init (value : T) : Invariant task (init value : Watched T W) := by
  refine ⟨?_, ?_, ?_, ?_, ?_, ?_, ?_⟩ <;> simp [init]

/-- A new future has seen the present epoch. -/
theorem invariant_created (hs : Invariant task s) :
    Invariant task
      ({ s with futures := s.futures ++ [s.inner.epoch] }.record (.created s.futures.length)) := by
  have hquiet : NotifiedAt (s.log ++ [.created s.futures.length]) = NotifiedAt s.log :=
    notifiedAt_concat_of_ne (by simp)
  refine ⟨?_, ?_, ?_, ?_, ?_⟩
  · intro future epoch hfuture
    rcases getElem?_concat_iff.mp hfuture with hold | ⟨-, rfl⟩
    · exact hs.past hold
    · exact Nat.le_refl _
  · intro future epoch hfuture
    rcases getElem?_concat_iff.mp hfuture with hold | ⟨rfl, -⟩
    · obtain ⟨i, hi⟩ := hs.known hold
      exact ⟨i, getElem?_concat_iff.mpr (.inl hi)⟩
    · exact ⟨s.log.length, getElem?_concat_iff.mpr (.inr ⟨rfl, rfl⟩)⟩
  · intro i future hi
    rcases getElem?_concat_iff.mp hi with hold | ⟨rfl, hnew⟩
    · obtain ⟨epoch, hepoch, hiff⟩ := hs.created hold
      exact ⟨epoch, getElem?_concat_iff.mpr (.inl hepoch), hquiet ▸ hiff⟩
    · cases hnew
      refine ⟨s.inner.epoch, getElem?_concat_iff.mpr (.inr ⟨rfl, rfl⟩), ?_⟩
      constructor
      · intro hlt
        exact absurd hlt (Nat.lt_irrefl _)
      · rintro ⟨k, hik, hk⟩
        have hk : NotifiedAt s.log k := hquiet ▸ hk
        exact absurd hk.lt_length (Nat.not_lt_of_lt hik)
  · intro i future waker hi hlast
    rcases getElem?_concat_iff.mp hi with hold | ⟨-, hnew⟩
    · exact hs.waiting hold (hquiet ▸ hlast)
    · cases hnew
  · apply hs.sound.concat
    · rintro woken ⟨⟩
    · rintro future waker ready ⟨⟩
    · rintro future ⟨⟩ j waker ready hj
      obtain ⟨i, -, hi⟩ := hs.sound.made hj
      obtain ⟨epoch, hepoch, -⟩ := hs.created hi
      exact absurd (lt_of_getElem?_eq hepoch) (Nat.lt_irrefl _)

/-- A notification makes every future ready, and the wakers it wakes are all
that were waiting. -/
theorem invariant_notified (hs : Invariant task s) (hfutures : s'.futures = s.futures)
    (hepoch : s'.inner.epoch = s.inner.epoch + 1)
    (hlog : s'.log = s.log ++ [.notified s.inner.wakers]) : Invariant task s' := by
  have hnow : NotifiedAt (s.log ++ [.notified s.inner.wakers]) s.log.length :=
    notifiedAt_concat.mpr (.inr ⟨rfl, _, rfl⟩)
  refine ⟨?_, ?_, ?_, ?_, ?_⟩
  · intro future epoch hfuture
    rw [hfutures] at hfuture
    have := hs.past hfuture
    omega
  · intro future epoch hfuture
    rw [hfutures] at hfuture
    obtain ⟨i, hi⟩ := hs.known hfuture
    rw [hlog]
    exact ⟨i, getElem?_concat_iff.mpr (.inl hi)⟩
  · intro i future hi
    rw [hlog] at hi
    rcases getElem?_concat_iff.mp hi with hold | ⟨-, hnew⟩
    · obtain ⟨epoch, hfuture, -⟩ := hs.created hold
      have hle := hs.past hfuture
      rw [hfutures, hlog, hepoch]
      refine ⟨epoch, hfuture, ?_⟩
      constructor
      · intro _
        exact ⟨s.log.length, lt_of_getElem?_eq hold, hnow⟩
      · intro _
        omega
    · cases hnew
  · intro i future waker hi hlast
    rw [hlog] at hi hlast
    rcases getElem?_concat_iff.mp hi with hold | ⟨-, hnew⟩
    · exact absurd hnow (hlast _ (lt_of_getElem?_eq hold))
    · cases hnew
  · rw [hlog]
    apply hs.sound.concat
    · rintro woken ⟨⟩ i future waker hi hlast
      exact hs.waiting hi hlast
    · rintro future waker ready ⟨⟩
    · rintro future ⟨⟩

/-- A poll is ready if the epoch has moved on; if not, its waker stays, and
only wakers of its own task make room for it. -/
theorem invariant_polled (hwake : ∀ a b, willWake a b = true → task a = task b)
    (hs : Invariant task s) {future epoch : Nat} (waker : W)
    (hfuture : s.futures[future]? = some epoch) :
    Invariant task (s.poll willWake future epoch waker) := by
  have hiff {i : Nat} (hi : s.log[i]? = some (.created future)) :
      epoch < s.inner.epoch ↔ ∃ k, i < k ∧ NotifiedAt s.log k := by
    obtain ⟨epoch', hfuture', hiff⟩ := hs.created hi
    obtain rfl : epoch = epoch' := by simpa [hfuture] using hfuture'
    exact hiff
  -- The log grows by the poll; the futures and the epoch stay.
  have hgrow (ready : Bool) (hready : ready = true ↔ epoch < s.inner.epoch)
      (inner : StateInner T W) (hepoch : inner.epoch = s.inner.epoch)
      (hwakers : ∀ other, (∃ old ∈ s.inner.wakers, task old = other) →
        ∃ new ∈ inner.wakers, task new = other)
      (hself : ready = false → ∃ new ∈ inner.wakers, task new = task waker) :
      Invariant task ({ s with inner := inner }.record (.polled future waker ready)) := by
    have hquiet : NotifiedAt (s.log ++ [.polled future waker ready]) = NotifiedAt s.log :=
      notifiedAt_concat_of_ne (by simp)
    refine ⟨?_, ?_, ?_, ?_, ?_⟩
    · intro future' epoch' hfuture'
      exact (hs.past hfuture').trans (Nat.le_of_eq hepoch.symm)
    · intro future' epoch' hfuture'
      obtain ⟨i, hi⟩ := hs.known hfuture'
      exact ⟨i, getElem?_concat_iff.mpr (.inl hi)⟩
    · intro i future' hi
      rcases getElem?_concat_iff.mp hi with hold | ⟨-, hnew⟩
      · obtain ⟨epoch', hfuture', hiff'⟩ := hs.created hold
        exact ⟨epoch', hfuture', hquiet ▸ hepoch ▸ hiff'⟩
      · cases hnew
    · intro i future' waker' hi hlast
      rcases getElem?_concat_iff.mp hi with hold | ⟨-, hnew⟩
      · exact hwakers _ (hs.waiting hold (hquiet ▸ hlast))
      · cases hnew
        exact hself rfl
    · apply hs.sound.concat
      · rintro woken ⟨⟩
      · rintro future' waker' ready' ⟨⟩
        exact ⟨hs.known hfuture, fun i hi => hready.trans (hiff hi)⟩
      · rintro future' ⟨⟩
  unfold poll
  split
  · next hlt => exact hgrow true (by simpa using hlt) s.inner rfl (fun _ h => h) (by simp)
  · next hge =>
      apply hgrow false (by simpa using hge) (s.inner.register willWake waker) rfl
      · rintro other ⟨old, hold, rfl⟩
        by_cases hsame : willWake old waker = true
        · exact ⟨waker, by simp [StateInner.register], (hwake old waker hsame).symm⟩
        · exact ⟨old, by simp [StateInner.register, hold, hsame], rfl⟩
      · intro _
        exact ⟨waker, by simp [StateInner.register], rfl⟩

theorem invariant_step (hwake : ∀ a b, willWake a b = true → task a = task b)
    (hs : Invariant task s) {act : WatchAct T W} (h : s.step willWake act = some s') :
    Invariant task s' := by
  cases steps_of_step h with
  | quiet hinner hfutures hlog =>
      obtain ⟨inner, sides, futures, log⟩ := s'
      subst hinner hfutures hlog
      exact ⟨hs.past, hs.known, hs.created, hs.waiting, hs.sound⟩
  | created _ => exact invariant_created hs
  | updated f _ => exact invariant_notified hs rfl rfl rfl
  | destroyed i side => exact invariant_notified hs rfl rfl rfl
  | polled waker hfuture => exact invariant_polled hwake hs waker hfuture

/-- In every run no wakeup is lost. A waker may be replaced by one that wakes
the same task, so it is its task that is woken. -/
theorem no_lost_wakeups (willWake : W → W → Bool) (task : W → K)
    (hwake : ∀ a b, willWake a b = true → task a = task b) (value : T) (s : Watched T W)
    (hs : Reachable (step willWake) (fun _ _ => True) (init value) s) :
    NoLostWakeups task s.log :=
  (hs.invariant (invariant_init value) fun hs _ h => invariant_step hwake hs h).sound

/-- A task waits, is woken by a change, and is told so. -/
theorem no_lost_wakeups_changed :
    ∃ s : Watched Nat Nat, run (step (· == ·)) (fun _ _ => true) (init 0)
        [.modified 0, .poll 0 7, .update 0 (· + 1), .poll 0 7] = some s ∧
      s.log[1]? = some (.polled 0 7 false) ∧ s.log[2]? = some (.notified [7]) ∧
      NoLostWakeups id s.log := by
  have hrun : ∃ s : Watched Nat Nat, run (step (· == ·)) (fun _ _ => true) (init 0)
      [.modified 0, .poll 0 7, .update 0 (· + 1), .poll 0 7] = some s ∧
      s.log[1]? = some (.polled 0 7 false) ∧ s.log[2]? = some (.notified [7]) :=
    ⟨_, rfl, rfl, rfl⟩
  obtain ⟨s, hs, hpolled, hnotified⟩ := hrun
  exact ⟨s, hs, hpolled, hnotified, no_lost_wakeups (· == ·) id (by simp) 0 s
    (reachable_of_run _ (fun _ _ _ => trivial) hs)⟩

end Watched

end MoqTransport.Watch
