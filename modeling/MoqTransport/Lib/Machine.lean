import Mathlib.Algebra.BigOperators.Group.List.Basic
import Mathlib.Algebra.GroupWithZero.Nat
import Mathlib.Order.WellFounded

/-!
Machines that take one labelled step at a time. A label that is not possible
in a state has no step. Runs may be restricted to labels `allowed` in the
states where they are taken; invariants are proved step by step, and what a
machine cannot avoid is proved with a rank that every step lowers.
-/

namespace Machine

variable {S A : Type} (step : S → A → Option S) (allowed : S → A → Prop)

/-- The states of the runs from `init`. -/
inductive Reachable (init : S) : S → Prop where
  | init : Reachable init init
  | step {s s' : S} {a : A} (hs : Reachable init s) (ha : allowed s a)
      (hstep : step s a = some s') : Reachable init s'

variable {step allowed}

theorem Reachable.invariant {Inv : S → Prop} {init : S} (hinit : Inv init)
    (hstep : ∀ {s s' a}, Inv s → allowed s a → step s a = some s' → Inv s') {s : S}
    (hs : Reachable step allowed init s) : Inv s := by
  induction hs with
  | init => exact hinit
  | step _ ha hnext ih => exact hstep ih ha hnext

variable (step allowed)

/-- A run with its labels. -/
inductive Run : S → List A → S → Prop where
  | nil {s : S} : Run s [] s
  | cons {s s' s'' : S} {a : A} {as : List A} (ha : allowed s a) (hstep : step s a = some s')
      (hrest : Run s' as s'') : Run s (a :: as) s''

variable {step allowed}

theorem Run.reachable {init s s' : S} {as : List A} (hrun : Run step allowed s as s')
    (hs : Reachable step allowed init s) : Reachable step allowed init s' := by
  induction hrun with
  | nil => exact hs
  | cons ha hstep _ ih => exact ih (.step hs ha hstep)

/-- The run with the given labels, if all of them are possible and pass the
check. -/
def run (step : S → A → Option S) (check : S → A → Bool) : S → List A → Option S
  | s, [] => some s
  | s, a :: as => if check s a then (step s a).bind (run step check · as) else none

theorem run_of_eq (check : S → A → Bool) (hcheck : ∀ s a, check s a → allowed s a) {s s' : S}
    {as : List A} (hrun : run step check s as = some s') : Run step allowed s as s' := by
  induction as generalizing s with
  | nil =>
      obtain rfl : s = s' := by simpa [run] using hrun
      exact .nil
  | cons a as ih =>
      rw [run] at hrun
      split at hrun
      · next ha =>
          obtain ⟨mid, hmid, hrest⟩ := Option.bind_eq_some_iff.mp hrun
          exact .cons (hcheck s a ha) hmid (ih hrest)
      · cases hrun

theorem reachable_of_run (check : S → A → Bool) (hcheck : ∀ s a, check s a → allowed s a)
    {init s : S} {as : List A} (hrun : run step check init as = some s) :
    Reachable step allowed init s :=
  (run_of_eq check hcheck hrun).reachable .init

/-- What the steps of a run put out, in their order. -/
def emitted {E : Type} (step : S → A → Option S) (emits : S → A → List E) : S → List A → List E
  | _, [] => []
  | s, a :: as => emits s a ++ ((step s a).elim [] fun s' => emitted step emits s' as)

theorem emitted_cons {E : Type} {emits : S → A → List E} {s s' : S} {a : A} (as : List A)
    (h : step s a = some s') :
    emitted step emits s (a :: as) = emits s a ++ emitted step emits s' as := by
  rw [emitted, h]
  rfl

/-- A property that holds after a step exactly if it held before and the
step was allowed, holds after a run exactly if all its steps were. -/
theorem Run.iff_of_step {Inv P : S → Prop}
    (hinv : ∀ {s s' a}, Inv s → step s a = some s' → Inv s')
    (hstep : ∀ {s s' a}, Inv s → step s a = some s' → (P s' ↔ P s ∧ allowed s a)) {s s' : S}
    {as : List A} (hrun : Run step (fun _ _ => True) s as s') (hs : Inv s) :
    P s' ↔ P s ∧ Run step allowed s as s' := by
  induction hrun with
  | nil => exact ⟨fun h => ⟨h, .nil⟩, fun h => h.1⟩
  | @cons s mid last a as _ hnext _ ih =>
      constructor
      · intro hlast
        obtain ⟨hmid, hrest⟩ := (ih (hinv hs hnext)).mp hlast
        obtain ⟨hP, ha⟩ := (hstep hs hnext).mp hmid
        exact ⟨hP, .cons ha hnext hrest⟩
      · rintro ⟨hP, _ | ⟨ha, hnext', hrest⟩⟩
        obtain rfl : mid = _ := Option.some.inj (hnext.symm.trans hnext')
        exact (ih (hinv hs hnext)).mpr ⟨(hstep hs hnext).mpr ⟨hP, ha⟩, hrest⟩

/-- A property that a step keeps exactly if it was allowed holds all along a
run exactly if all its steps were. -/
theorem Run.always_iff {P : S → Prop}
    (hstep : ∀ {s s' a}, P s → step s a = some s' → (P s' ↔ allowed s a)) {s s' : S}
    {as : List A} (hrun : Run step (fun _ _ => True) s as s') (hs : P s) :
    (∀ bs mid, bs <+: as → Run step (fun _ _ => True) s bs mid → P mid) ↔
      Run step allowed s as s' := by
  induction hrun with
  | nil =>
      constructor
      · intro _
        exact .nil
      · rintro _ bs mid hbs hmid
        obtain rfl := List.prefix_nil.mp hbs
        cases hmid
        exact hs
  | @cons s next last a as _ hnext _ ih =>
      constructor
      · intro halways
        have hP : P next :=
          halways [a] next (List.cons_prefix_cons.mpr ⟨rfl, List.nil_prefix⟩)
            (.cons trivial hnext .nil)
        refine .cons ((hstep hs hnext).mp hP) hnext ((ih hP).mp ?_)
        intro bs mid hbs hmid
        exact halways (a :: bs) mid (List.cons_prefix_cons.mpr ⟨rfl, hbs⟩)
          (.cons trivial hnext hmid)
      · rintro (_ | ⟨ha, hnext', hrest⟩) bs mid hbs hmid
        obtain rfl : next = _ := Option.some.inj (hnext.symm.trans hnext')
        have hP : P next := (hstep hs hnext).mpr ha
        cases hmid with
        | nil => exact hs
        | cons _ hfirst hmid =>
            obtain ⟨rfl, hrest'⟩ := List.cons_prefix_cons.mp hbs
            obtain rfl : next = _ := Option.some.inj (hnext.symm.trans hfirst)
            exact (ih hP).mpr hrest _ mid hrest' hmid

/-- Conditions that agree in every state of the runs allow the same runs. -/
theorem Run.congr {Inv : S → Prop} {other : S → A → Prop}
    (hinv : ∀ {s s' a}, Inv s → step s a = some s' → Inv s')
    (hiff : ∀ {s a}, Inv s → (allowed s a ↔ other s a)) {s s' : S} {as : List A} (hs : Inv s) :
    Run step allowed s as s' ↔ Run step other s as s' := by
  constructor
  · intro hrun
    induction hrun with
    | nil => exact .nil
    | cons ha hstep _ ih => exact .cons ((hiff hs).mp ha) hstep (ih (hinv hs hstep))
  · intro hrun
    induction hrun with
    | nil => exact .nil
    | cons ha hstep _ ih => exact .cons ((hiff hs).mpr ha) hstep (ih (hinv hs hstep))

variable (step allowed)

/-- Every run from the state gets to `P`: the state satisfies it, or some
step is possible and `P` is inevitable after each. -/
inductive Inevitably (P : S → Prop) : S → Prop where
  | now {s : S} (h : P s) : Inevitably P s
  | later {s : S} (hsome : ∃ a s', allowed s a ∧ step s a = some s')
      (hall : ∀ a s', allowed s a → step s a = some s' → Inevitably P s') : Inevitably P s

variable {step allowed}

theorem Inevitably.mono {P Q : S → Prop} {s : S} (h : Inevitably step allowed P s)
    (hPQ : ∀ s, P s → Q s) : Inevitably step allowed Q s := by
  induction h with
  | now h => exact .now (hPQ _ h)
  | later hsome _ ih => exact .later hsome ih

/-- An invariant, a rank that every step lowers, and a step wherever `P` does
not hold yet. -/
theorem inevitably_of_rank {R : Type} [Preorder R] [WellFoundedLT R] {Inv P : S → Prop}
    (rank : S → R)
    (hinv : ∀ {s s' a}, Inv s → allowed s a → step s a = some s' → Inv s')
    (hrank : ∀ {s s' a}, Inv s → allowed s a → step s a = some s' → rank s' < rank s)
    (hstep : ∀ {s}, Inv s → ¬ P s → ∃ a s', allowed s a ∧ step s a = some s') {s : S}
    (hs : Inv s) : Inevitably step allowed P s := by
  induction hr : rank s using WellFoundedLT.induction generalizing s with
  | _ r ih =>
      by_cases hP : P s
      · exact .now hP
      · refine .later (hstep hs hP) ?_
        intro a s' ha hnext
        exact ih (rank s') (hr ▸ hrank hs ha hnext) (hinv hs ha hnext) rfl

/-! The parts of a state, in a list that grows at its end. -/

theorem forall_mem_concat {α : Type} {p : α → Prop} {l : List α} {x : α} (hl : ∀ y ∈ l, p y)
    (hx : p x) : ∀ y ∈ l ++ [x], p y :=
  List.forall_mem_append.mpr ⟨hl, List.forall_mem_singleton.mpr hx⟩

theorem getElem?_concat_iff {α : Type} {l : List α} {x y : α} {i : Nat} :
    (l ++ [x])[i]? = some y ↔ l[i]? = some y ∨ i = l.length ∧ x = y := by
  rw [List.getElem?_append]
  grind

theorem getElem?_set_iff {α : Type} {l : List α} {i j : Nat} {x x' y : α} (hi : l[i]? = some x) :
    (l.set i x')[j]? = some y ↔ i = j ∧ x' = y ∨ i ≠ j ∧ l[j]? = some y := by
  obtain ⟨hlt, -⟩ := List.getElem?_eq_some_iff.mp hi
  rw [List.getElem?_set]
  grind

/-- The rank of a family falls when one member's does. -/
theorem sum_map_set_lt {T : Type} {rank : T → Nat} {ts : List T} {i : Nat} {t t' : T}
    (ht : ts[i]? = some t) (hlt : rank t' < rank t) :
    ((ts.set i t').map rank).sum < (ts.map rank).sum := by
  induction ts generalizing i with
  | nil => cases ht
  | cons first ts ih =>
      cases i with
      | zero =>
          obtain rfl : first = t := by simpa using ht
          simpa using hlt
      | succ i => simpa using ih (by simpa using ht)

end Machine
