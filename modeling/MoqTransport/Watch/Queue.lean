import MoqTransport.Lib.Machine
import MoqTransport.Watch.State

/-!
Queues over a shared state. The flag that closes a queue is the one that
refuses mutable access, and `pop` needs mutable access to take an item out:
items that are still queued when the last producer goes away are never
delivered (`delivered_iff`).
-/

namespace MoqTransport.Watch

open Machine

abbrev Queue (T : Type) := State (List T)

namespace Queue

variable {T : Type}

def push (queue : Queue T) (item : T) : Except T (Queue T) :=
  if queue.dropped then .error item else .ok (queue.update (· ++ [item]))

/-- The emptiness test comes first; an item is then taken out through a
mutable lock. -/
def pop (queue : Queue T) : Poll (Option T) × Queue T :=
  match queue.value with
  | item :: rest =>
      if queue.dropped then (.ready none, queue)
      else (.ready (some item), queue.update fun _ => rest)
  | [] => if queue.dropped then (.ready none, queue) else (.pending, queue)

/-- The first half of `close`; the second drops the handle. -/
def drain (queue : Queue T) : List T × Queue T :=
  if queue.dropped then ([], queue) else (queue.value, queue.update fun _ => [])

end Queue

/-- A queue split into a producer side with any number of handles and a
consumer that keeps popping. -/
structure SplitQueue (T : Type) where
  queue : Queue T
  producers : Nat
  /-- The items pushed and those popped so far. -/
  pushed : List T
  popped : List T
  /-- A pop has returned `None`. -/
  ended : Bool

inductive QueueAct (T : Type) where
  | push (item : T)
  | clone
  | drop
  /-- The destructor of the producer side, after its last handle. -/
  | destroy
  | pop

namespace SplitQueue

variable {T : Type}

def init : SplitQueue T := ⟨.new [], 1, [], [], false⟩

def push (s : SplitQueue T) (item : T) : SplitQueue T :=
  match s.queue.push item with
  | .ok queue => { s with queue := queue, pushed := s.pushed ++ [item] }
  | .error _ => s

/-- A pop that has to wait is not a step. -/
def pop (s : SplitQueue T) : Option (SplitQueue T) :=
  match s.queue.pop with
  | (.pending, _) => none
  | (.ready (some item), queue) => some { s with queue := queue, popped := s.popped ++ [item] }
  | (.ready none, queue) => some { s with queue := queue, ended := true }

def step (s : SplitQueue T) : QueueAct T → Option (SplitQueue T)
  | .push item => if s.producers = 0 then none else some (s.push item)
  | .clone => if s.producers = 0 then none else some { s with producers := s.producers + 1 }
  | .drop => if s.producers = 0 then none else some { s with producers := s.producers - 1 }
  | .destroy =>
      if s.producers = 0 ∧ s.queue.dropped = false then
        some { s with queue := s.queue.drop }
      else
        none
  | .pop => s.pop

/-- The producer side goes away only once everything has been popped. -/
def Drained (s : SplitQueue T) : QueueAct T → Prop
  | .destroy => s.queue.value = []
  | _ => True

/-- Nothing is left behind in a closed queue. -/
def Empty (s : SplitQueue T) : Prop := s.queue.dropped = true → s.queue.value = []

structure Invariant (s : SplitQueue T) : Prop where
  order : s.pushed = s.popped ++ s.queue.value
  closed : s.queue.dropped = true → s.producers = 0
  ended : s.ended = true → s.queue.dropped = true

/-- The steps of the queue: while it is open, and once it is closed. -/
inductive Steps (s : SplitQueue T) : QueueAct T → SplitQueue T → Prop where
  | pushed {item : T} (hopen : s.queue.dropped = false) :
      Steps s (.push item)
        { s with queue := s.queue.update (· ++ [item]), pushed := s.pushed ++ [item] }
  | refused {item : T} (hclosed : s.queue.dropped = true) : Steps s (.push item) s
  | producers {act : QueueAct T} (n : Nat) (hact : act = .clone ∨ act = .drop)
      (hsome : s.producers ≠ 0) : Steps s act { s with producers := n }
  | destroyed (hnone : s.producers = 0) (hopen : s.queue.dropped = false) :
      Steps s .destroy { s with queue := s.queue.drop }
  | popped {item : T} {rest : List T} (hvalue : s.queue.value = item :: rest)
      (hopen : s.queue.dropped = false) :
      Steps s .pop
        { s with queue := s.queue.update fun _ => rest, popped := s.popped ++ [item] }
  | ended (hclosed : s.queue.dropped = true) : Steps s .pop { s with ended := true }

variable {s s' : SplitQueue T} {act : QueueAct T}

theorem steps_of_step (h : s.step act = some s') : Steps s act s' := by
  cases act with
  | push item =>
      simp only [step] at h
      split at h
      · cases h
      · cases h
        unfold push Queue.push
        cases hdropped : s.queue.dropped with
        | false => exact .pushed hdropped
        | true => exact .refused hdropped
  | clone =>
      simp only [step] at h
      split at h
      · cases h
      · next hsome =>
          cases h
          exact .producers _ (.inl rfl) hsome
  | drop =>
      simp only [step] at h
      split at h
      · cases h
      · next hsome =>
          cases h
          exact .producers _ (.inr rfl) hsome
  | destroy =>
      simp only [step] at h
      split at h
      · next hgone =>
          cases h
          exact .destroyed hgone.1 hgone.2
      · cases h
  | pop =>
      simp only [step, pop, Queue.pop] at h
      cases hvalue : s.queue.value with
      | nil =>
          rw [hvalue] at h
          cases hdropped : s.queue.dropped with
          | false => simp [hdropped] at h
          | true =>
              simp only [hdropped, if_true, Option.some.injEq] at h
              subst h
              exact .ended hdropped
      | cons item rest =>
          rw [hvalue] at h
          cases hdropped : s.queue.dropped with
          | false =>
              simp only [hdropped, Bool.false_eq_true, if_false, Option.some.injEq] at h
              subst h
              exact .popped hvalue hdropped
          | true =>
              simp only [hdropped, if_true, Option.some.injEq] at h
              subst h
              exact .ended hdropped

theorem invariant_init : Invariant (init : SplitQueue T) :=
  ⟨rfl, by simp [init, State.new], by simp [init]⟩

theorem invariant_step (hs : Invariant s) (h : s.step act = some s') : Invariant s' := by
  cases steps_of_step h with
  | pushed hopen =>
      refine ⟨?_, hs.closed, hs.ended⟩
      simp [hs.order, State.update]
  | refused _ => exact hs
  | producers n _ hsome =>
      refine ⟨hs.order, ?_, hs.ended⟩
      intro hclosed
      exact absurd (hs.closed hclosed) hsome
  | destroyed hnone _ => exact ⟨hs.order, fun _ => hnone, fun _ => rfl⟩
  | popped hvalue hopen =>
      refine ⟨?_, hs.closed, hs.ended⟩
      simp [hs.order, hvalue, State.update]
  | ended hclosed => exact ⟨hs.order, hs.closed, fun _ => hclosed⟩

/-- A queue stays empty after its closing exactly if it was empty then. -/
theorem empty_step (h : s.step act = some s') :
    Empty s' ↔ Empty s ∧ Drained s act := by
  cases steps_of_step h with
  | pushed hopen => simp [Empty, Drained, State.update, hopen]
  | refused _ => simp [Drained]
  | producers n hact _ => rcases hact with rfl | rfl <;> simp [Empty, Drained]
  | destroyed _ hopen => simp [Empty, Drained, State.drop, hopen]
  | popped _ hopen => simp [Empty, Drained, State.update, hopen]
  | ended _ => simp [Empty, Drained]

/-- Once a pop has returned `None`, the items popped are those pushed, in
order, exactly if the queue was empty when its last producer went away. -/
theorem delivered_iff (acts : List (QueueAct T)) (s : SplitQueue T)
    (hrun : Run step (fun _ _ => True) init acts s) (hended : s.ended = true) :
    s.popped = s.pushed ↔ Run step Drained init acts s := by
  have hinit : Empty (init : SplitQueue T) := by
    intro hclosed
    cases hclosed
  have hs : Invariant s := by
    have hreach := hrun.reachable .init
    exact hreach.invariant invariant_init fun hs _ h => invariant_step hs h
  have hempty := hrun.iff_of_step invariant_step (fun _ h => empty_step h) invariant_init
  rw [and_iff_right hinit] at hempty
  rw [← hempty, hs.order]
  constructor
  · intro hall _
    simpa using hall.symm
  · intro hnothing
    simp [hnothing (hs.ended hended)]

/-- One item, popped before the producer goes away. -/
theorem delivered_inTime :
    ∃ s : SplitQueue Nat, run step (fun _ _ => true) init [.push 7, .pop, .drop, .destroy, .pop] =
        some s ∧ s.popped = [7] ∧
      Run step Drained init [.push 7, .pop, .drop, .destroy, .pop] s := by
  have hrun : ∃ s : SplitQueue Nat, run step (fun _ _ => true) init
      [.push 7, .pop, .drop, .destroy, .pop] = some s ∧ s.ended = true ∧ s.popped = [7] ∧
      s.pushed = [7] := ⟨_, rfl, rfl, rfl, rfl⟩
  obtain ⟨s, hs, hended, hpopped, hpushed⟩ := hrun
  refine ⟨s, hs, hpopped, ?_⟩
  have hany : Run step (fun _ _ => True) init _ s := run_of_eq _ (fun _ _ _ => trivial) hs
  exact (delivered_iff _ s hany hended).mp (hpopped.trans hpushed.symm)

/-- The producer pushes an item and goes away before it is popped: the pop
ends without it. -/
theorem not_delivered_dropped :
    ∃ s : SplitQueue Nat, Run step (fun _ _ => True) init [.push 7, .drop, .destroy, .pop] s ∧
      s.ended = true ∧ s.pushed = [7] ∧ s.popped = [] :=
  ⟨_, run_of_eq (fun _ _ => true) (fun _ _ _ => trivial) rfl, rfl, rfl, rfl⟩

end SplitQueue

end MoqTransport.Watch
