import Mathlib.Algebra.Order.BigOperators.Group.List
import Mathlib.Algebra.Order.Group.Nat
import Mathlib.Data.Set.Finite.Lemmas
import Mathlib.Data.Set.Finite.List
import MoqTransport.Lib.Machine

/-!
Threads that share a state and a set of mutexes. A thread is the stack of what
it has left to do. An operation changes the shared state in one go and may
leave further operations in its place, such as the destructors of what it has
removed; a critical section takes a mutex, runs an operation with all that
follows from it, and releases the mutex. Mutexes are not reentrant.

A thread that comes to a mutex it holds is stuck for good. A hierarchy gives
every mutex a level and every operation a floor, and an operation respects it
if what it leaves stays on or above its floor: then no thread takes a mutex it
holds (`Clear.not_selfDeadlock`), and as long as any thread has something to do
one of them can go on (`exists_tick`).
-/

namespace Locks

/-- The next thing to do: an operation, one under a mutex, or the end of a
critical section. -/
inductive Instr (L Op : Type) where
  | run (op : Op)
  | lock (l : L) (op : Op)
  | release (l : L)
deriving DecidableEq

abbrev Stack (L Op : Type) := List (Instr L Op)

structure System (L Op S C : Type) where
  /-- What an operation does, and what it leaves to be done. -/
  exec : S → Op → S × Stack L Op
  /-- How a command begins, if it is possible. -/
  begin : S → C → Option (S × Stack L Op)

structure Threads (L Op S : Type) where
  shared : S
  /-- What each thread has left to do. -/
  todo : List (Stack L Op)

inductive Act (C : Type) where
  | start (cmd : C)
  | tick (i : Nat)

variable {L Op S C : Type}

/-- The mutexes a thread holds: those it has still to release. -/
def held (stack : Stack L Op) : List L :=
  stack.filterMap fun i => match i with
    | .release l => some l
    | _ => none

theorem mem_held {stack : Stack L Op} {l : L} : l ∈ held stack ↔ .release l ∈ stack := by
  simp only [held, List.mem_filterMap]
  constructor
  · rintro ⟨i, hi, hl⟩
    cases i with
    | run op => cases hl
    | lock k op => cases hl
    | release k =>
        obtain rfl := Option.some.inj hl
        exact hi
  · intro hl
    exact ⟨_, hl, rfl⟩

/-- The thread is about to take a mutex that it holds itself. -/
def SelfDeadlock (stack : Stack L Op) : Prop :=
  ∃ l op rest, stack = .lock l op :: rest ∧ l ∈ held rest

section

variable [DecidableEq L] (sys : System L Op S C)

def step (t : Threads L Op S) : Act C → Option (Threads L Op S)
  | .start cmd => do
      let (shared, stack) ← sys.begin t.shared cmd
      some ⟨shared, t.todo ++ [stack]⟩
  | .tick i =>
      match t.todo[i]? with
      | some (.run op :: rest) =>
          let (shared, more) := sys.exec t.shared op
          some ⟨shared, t.todo.set i (more ++ rest)⟩
      | some (.lock l op :: rest) =>
          if t.todo.any fun stack => l ∈ held stack then
            none
          else
            some ⟨t.shared, t.todo.set i (.run op :: .release l :: rest)⟩
      | some (.release _ :: rest) => some ⟨t.shared, t.todo.set i rest⟩
      | _ => none

/-- What a step does: a thread begins, or the first one of a stack is done. -/
inductive Steps (t : Threads L Op S) : Act C → Threads L Op S → Prop where
  | start {cmd : C} {shared : S} {stack : Stack L Op}
      (hbegin : sys.begin t.shared cmd = some (shared, stack)) :
      Steps t (.start cmd) ⟨shared, t.todo ++ [stack]⟩
  | run {i : Nat} {op : Op} {rest : Stack L Op} (hi : t.todo[i]? = some (.run op :: rest)) :
      Steps t (.tick i) ⟨(sys.exec t.shared op).1,
        t.todo.set i ((sys.exec t.shared op).2 ++ rest)⟩
  | lock {i : Nat} {l : L} {op : Op} {rest : Stack L Op}
      (hi : t.todo[i]? = some (.lock l op :: rest))
      (hfree : ∀ stack ∈ t.todo, l ∉ held stack) :
      Steps t (.tick i) ⟨t.shared, t.todo.set i (.run op :: .release l :: rest)⟩
  | release {i : Nat} {l : L} {rest : Stack L Op}
      (hi : t.todo[i]? = some (.release l :: rest)) :
      Steps t (.tick i) ⟨t.shared, t.todo.set i rest⟩

variable {sys}

theorem steps_of_step {t t' : Threads L Op S} {act : Act C} (h : step sys t act = some t') :
    Steps sys t act t' := by
  cases act with
  | start cmd =>
      obtain ⟨⟨shared, stack⟩, hbegin, h⟩ := Option.bind_eq_some_iff.mp h
      cases h
      exact .start hbegin
  | tick i =>
      simp only [step] at h
      split at h
      · next op rest hi =>
          cases h
          exact .run hi
      · next l op rest hi =>
          split at h
          · cases h
          · next hfree =>
              cases h
              refine .lock hi ?_
              intro stack hstack hl
              exact hfree (List.any_eq_true.mpr ⟨stack, hstack, by simpa using hl⟩)
      · next l rest hi =>
          cases h
          exact .release hi
      · cases h

end

/-- A level for every mutex and a floor for every operation. -/
structure Hierarchy (L Op : Type) where
  level : L → Nat
  floor : Op → Nat

namespace Hierarchy

variable (H : Hierarchy L Op)

/-- What is left to do stays on or above `n`, and a critical section does its
work above its own mutex. -/
def Above (n : Nat) : Instr L Op → Prop
  | .run op => n ≤ H.floor op
  | .lock l op => n ≤ H.level l ∧ H.level l < H.floor op
  | .release _ => False

/-- With the mutex held, this may be done. -/
def Over (l : L) : Instr L Op → Prop
  | .release _ => True
  | i => H.Above (H.level l + 1) i

/-- Everything on the stack may be done with all mutexes held that are
released after it. -/
structure Clear (stack : Stack L Op) : Prop where
  ordered : stack.Pairwise fun i j => ∀ l, j = .release l → H.Over l i
  sections : ∀ l op, .lock l op ∈ stack → H.level l < H.floor op

variable {H}

theorem Above.mono {n m : Nat} {i : Instr L Op} (h : H.Above n i) (hle : m ≤ n) :
    H.Above m i := by
  cases i with
  | run op => exact hle.trans h
  | lock l op => exact ⟨hle.trans h.1, h.2⟩
  | release l => exact h

theorem Above.over {l : L} {i : Instr L Op} (h : H.Above (H.level l + 1) i) : H.Over l i := by
  cases i with
  | run op => exact h
  | lock k op => exact h
  | release k => trivial

theorem clear_of_above {stack : Stack L Op} {n : Nat} (h : ∀ i ∈ stack, H.Above n i) :
    H.Clear stack := by
  constructor
  · refine List.pairwise_iff_forall_sublist.mpr ?_
    rintro i j hsub l rfl
    exact False.elim (h (.release l) (hsub.subset (by simp)))
  · intro l op hlock
    exact (h _ hlock).2

theorem Clear.tail {i : Instr L Op} {stack : Stack L Op} (h : H.Clear (i :: stack)) :
    H.Clear stack :=
  ⟨h.ordered.of_cons, fun l op hlock => h.sections l op (List.mem_cons_of_mem _ hlock)⟩

theorem Clear.over {i : Instr L Op} {stack : Stack L Op} (h : H.Clear (i :: stack)) {l : L}
    (hl : l ∈ held stack) : H.Over l i :=
  List.rel_of_pairwise_cons h.ordered (mem_held.mp hl) l rfl

/-- What an operation leaves takes its place. -/
theorem Clear.run {op : Op} {rest more : Stack L Op} (h : H.Clear (.run op :: rest))
    (hmore : ∀ i ∈ more, H.Above (H.floor op) i) : H.Clear (more ++ rest) := by
  constructor
  · refine List.pairwise_append.mpr ⟨(clear_of_above hmore).ordered, h.tail.ordered, ?_⟩
    rintro i hi j hj l rfl
    have hfloor : H.level l + 1 ≤ H.floor op := h.over (mem_held.mpr hj)
    exact ((hmore i hi).mono hfloor).over
  · intro l op' hlock
    rcases List.mem_append.mp hlock with hnew | hold
    · exact (hmore _ hnew).2
    · exact h.tail.sections l op' hold

theorem Clear.enter {l : L} {op : Op} {rest : Stack L Op} (h : H.Clear (.lock l op :: rest)) :
    H.Clear (.run op :: .release l :: rest) := by
  have hlevel : H.level l < H.floor op := h.sections l op (by simp)
  constructor
  · refine .cons ?_ (.cons (fun _ _ _ _ => trivial) h.tail.ordered)
    intro j hj k hk
    rcases List.mem_cons.mp hj with rfl | hj
    · obtain rfl : l = k := by simpa using hk
      exact hlevel
    · have hbelow : H.level k + 1 ≤ H.level l := (h.over (mem_held.mpr (hk ▸ hj))).1
      exact (Nat.le_trans hbelow (Nat.le_of_lt hlevel) : H.level k + 1 ≤ H.floor op)
  · intro k op' hlock
    have hold : .lock k op' ∈ rest := by simpa using hlock
    exact h.tail.sections k op' hold

/-- A thread does not wait for itself. -/
theorem Clear.not_selfDeadlock {stack : Stack L Op} (h : H.Clear stack) :
    ¬ SelfDeadlock stack := by
  rintro ⟨l, op, rest, rfl, hl⟩
  have hlt : H.level l + 1 ≤ H.level l := (h.over hl).1
  omega

variable {sys : System L Op S C} {t t' : Threads L Op S} {act : Act C}

/-- All stacks stay clear if what the step adds respects the hierarchy. -/
theorem clear_step (hclear : ∀ stack ∈ t.todo, H.Clear stack) (h : Steps sys t act t')
    (hbegin : ∀ cmd shared stack, sys.begin t.shared cmd = some (shared, stack) →
      ∀ i ∈ stack, H.Above 0 i)
    (hexec : ∀ op rest, .run op :: rest ∈ t.todo →
      ∀ i ∈ (sys.exec t.shared op).2, H.Above (H.floor op) i) :
    ∀ stack ∈ t'.todo, H.Clear stack := by
  cases h with
  | start hcmd =>
      exact Machine.forall_mem_concat hclear (clear_of_above (hbegin _ _ _ hcmd))
  | run hi =>
      have hmem := List.mem_of_getElem? hi
      intro stack hstack
      rcases List.mem_or_eq_of_mem_set hstack with hold | rfl
      · exact hclear stack hold
      · exact (hclear _ hmem).run (hexec _ _ hmem)
  | lock hi _ =>
      intro stack hstack
      rcases List.mem_or_eq_of_mem_set hstack with hold | rfl
      · exact hclear stack hold
      · exact (hclear _ (List.mem_of_getElem? hi)).enter
  | release hi =>
      intro stack hstack
      rcases List.mem_or_eq_of_mem_set hstack with hold | rfl
      · exact hclear stack hold
      · exact (hclear _ (List.mem_of_getElem? hi)).tail

/-- The level of the mutex a thread is about to take. -/
def waitsAt (H : Hierarchy L Op) : Stack L Op → Nat
  | .lock l _ :: _ => H.level l
  | _ => 0

/-- A thread that cannot go on waits for a mutex that some thread holds. -/
theorem blocked_of_stuck [DecidableEq L] (hstuck : ∀ i t', step sys t (.tick i) ≠ some t')
    {stack : Stack L Op} (hstack : stack ∈ t.todo) (hne : stack ≠ []) :
    ∃ l op rest, stack = .lock l op :: rest ∧ ∃ other ∈ t.todo, l ∈ held other := by
  obtain ⟨i, hi⟩ := List.mem_iff_getElem?.mp hstack
  have hstep := hstuck i
  simp only [step, hi] at hstep
  cases stack with
  | nil => exact absurd rfl hne
  | cons first rest =>
      cases first with
      | run op => exact absurd rfl (hstep _)
      | release l => exact absurd rfl (hstep _)
      | lock l op =>
          refine ⟨l, op, rest, rfl, ?_⟩
          dsimp only at hstep
          split at hstep
          · next hany => simpa using List.any_eq_true.mp hany
          · exact absurd rfl (hstep _)

/-- As long as a thread has something to do, one of them can go on. -/
theorem exists_tick [DecidableEq L] (hclear : ∀ stack ∈ t.todo, H.Clear stack)
    (hbusy : ∃ stack ∈ t.todo, stack ≠ []) : ∃ i t', step sys t (.tick i) = some t' := by
  by_contra hnone
  have hstuck : ∀ i t', step sys t (.tick i) ≠ some t' := by
    intro i t' h
    exact hnone ⟨i, t', h⟩
  -- the thread whose mutex is the highest waits for one that waits higher
  have hfinite : {stack | stack ∈ t.todo ∧ stack ≠ []}.Finite :=
    (List.finite_toSet t.todo).subset fun _ h => h.1
  obtain ⟨stack, ⟨hstack, hne⟩, hmax⟩ := Set.exists_max_image _ (waitsAt H) hfinite hbusy
  obtain ⟨l, op, rest, rfl, other, hother, hl⟩ := blocked_of_stuck hstuck hstack hne
  have hsome : other ≠ [] := by
    rintro rfl
    simp [held] at hl
  obtain ⟨k, op', rest', rfl, -⟩ := blocked_of_stuck hstuck hother hsome
  have hrest : l ∈ held rest' := by
    rw [mem_held] at hl ⊢
    simpa using hl
  have hlt : H.level l + 1 ≤ H.level k := ((hclear _ hother).over hrest).1
  have hle : H.level k ≤ H.level l := hmax _ ⟨hother, hsome⟩
  omega

end Hierarchy

/-! What the threads have in hand: a weight for every operation, counted over
all stacks. -/

/-- The weight of a stack; the end of a critical section has none. -/
def weigh (weight : Op → Nat) (stack : Stack L Op) : Nat :=
  (stack.map fun i => match i with
    | .run op | .lock _ op => weight op
    | .release _ => 0).sum

def total (weight : Op → Nat) (todo : List (Stack L Op)) : Nat := (todo.map (weigh weight)).sum

section

variable {weight : Op → Nat}

@[simp]
theorem weigh_nil : weigh weight ([] : Stack L Op) = 0 := rfl

@[simp]
theorem weigh_run (op : Op) (rest : Stack L Op) :
    weigh weight (.run op :: rest) = weight op + weigh weight rest := rfl

@[simp]
theorem weigh_lock (l : L) (op : Op) (rest : Stack L Op) :
    weigh weight (.lock l op :: rest) = weight op + weigh weight rest := rfl

@[simp]
theorem weigh_release (l : L) (rest : Stack L Op) :
    weigh weight (.release l :: rest) = weigh weight rest := Nat.zero_add _

@[simp]
theorem weigh_append (front rest : Stack L Op) :
    weigh weight (front ++ rest) = weigh weight front + weigh weight rest := by
  simp [weigh]

theorem weigh_map {α : Type} {op : α → Op} {w : Nat} (hop : ∀ x, weight (op x) = w)
    (xs : List α) : weigh weight (xs.map fun x => (.run (op x) : Instr L Op)) = w * xs.length := by
  induction xs with
  | nil => rfl
  | cons x xs ih =>
      rw [List.map_cons, weigh_run, ih, hop, List.length_cons, Nat.mul_succ, Nat.add_comm]

theorem total_concat (todo : List (Stack L Op)) (stack : Stack L Op) :
    total weight (todo ++ [stack]) = total weight todo + weigh weight stack := by
  simp [total]

/-- A thread that goes on changes the total by what its own stack does. -/
theorem total_set {todo : List (Stack L Op)} {i : Nat} {old : Stack L Op}
    (hi : todo[i]? = some old) (new : Stack L Op) :
    total weight (todo.set i new) + weigh weight old = total weight todo + weigh weight new := by
  induction todo generalizing i with
  | nil => cases hi
  | cons first todo ih =>
      cases i with
      | zero =>
          obtain rfl : first = old := by simpa using hi
          simp only [total, List.set_cons_zero, List.map_cons, List.sum_cons]
          omega
      | succ i =>
          have hrest := ih (by simpa using hi)
          simp only [total, List.set_cons_succ, List.map_cons, List.sum_cons] at hrest ⊢
          omega

theorem weigh_le_total {todo : List (Stack L Op)} {stack : Stack L Op} (h : stack ∈ todo) :
    weigh weight stack ≤ total weight todo :=
  List.single_le_sum (fun _ _ => Nat.zero_le _) _ (List.mem_map_of_mem h)

end

end Locks
