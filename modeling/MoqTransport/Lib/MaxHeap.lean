import Mathlib.Data.Multiset.AddSub

/-!
A collection that gives back its greatest element first. Which of several
greatest ones that is depends on the implementation, so that the operations
come with what they do to the elements and no more.
-/

variable {H α : Type} {cmp : α → α → Ordering}

/-- An implementation, ordered by `cmp`. -/
structure MaxHeap (H α : Type) (cmp : α → α → Ordering) where
  empty : H
  push : H → α → H
  pop : H → Option (α × H)
  elems : H → Multiset α
  elems_empty : elems empty = 0
  elems_push : ∀ h x, elems (push h x) = x ::ₘ elems h
  elems_pop : ∀ {h x h'}, pop h = some (x, h') → elems h = x ::ₘ elems h'
  pop_greatest : ∀ {h x h'}, pop h = some (x, h') → ∀ y ∈ elems h, (cmp y x).isLE
  pop_none : ∀ {h}, pop h = none → elems h = 0

namespace MaxHeap

theorem elems_pushAll (heap : MaxHeap H α cmp) (h : H) (xs : List α) :
    heap.elems (xs.foldl heap.push h) = heap.elems h + xs := by
  induction xs generalizing h with
  | nil => simp
  | cons x xs ih =>
      rw [List.foldl_cons, ih, heap.elems_push, ← Multiset.cons_coe, Multiset.cons_add,
        Multiset.add_cons]

/-! The elements as a list, which is searched for the greatest. -/

def popMax (cmp : α → α → Ordering) : List α → Option (α × List α)
  | [] => none
  | x :: xs =>
      match popMax cmp xs with
      | none => some (x, [])
      | some (y, ys) => if (cmp y x).isLE then some (x, y :: ys) else some (y, x :: ys)

theorem popMax_none {xs : List α} (h : popMax cmp xs = none) : xs = [] := by
  cases xs with
  | nil => rfl
  | cons x xs =>
      unfold popMax at h
      split at h
      · cases h
      · split at h <;> cases h

theorem popMax_perm {xs rest : List α} {x : α} (h : popMax cmp xs = some (x, rest)) :
    xs.Perm (x :: rest) := by
  induction xs generalizing x rest with
  | nil => cases h
  | cons first xs ih =>
      unfold popMax at h
      split at h
      · next hrest =>
          cases h
          rw [popMax_none hrest]
      · next y ys hrest =>
          split at h
          · cases h
            exact (ih hrest).cons first
          · cases h
            exact ((ih hrest).cons first).trans (List.Perm.swap _ _ _)

theorem popMax_greatest [Std.TransCmp cmp] {xs rest : List α} {x : α}
    (h : popMax cmp xs = some (x, rest)) : ∀ y ∈ xs, (cmp y x).isLE := by
  induction xs generalizing x rest with
  | nil => cases h
  | cons first xs ih =>
      intro y hy
      unfold popMax at h
      split at h
      · next hrest =>
          cases h
          rw [popMax_none hrest] at hy
          rw [List.mem_singleton.mp hy]
          exact Std.ReflCmp.isLE_rfl
      · next greatest others hrest =>
          split at h
          · next hle =>
              cases h
              rcases List.mem_cons.mp hy with rfl | hy
              · exact Std.ReflCmp.isLE_rfl
              · exact Std.TransCmp.isLE_trans (ih hrest y hy) hle
          · next hgt =>
              cases h
              rcases List.mem_cons.mp hy with rfl | hy
              · have hlt := Std.OrientedCmp.lt_of_not_isLE hgt
                rw [hlt]
                rfl
              · exact ih hrest y hy

def searched (cmp : α → α → Ordering) [Std.TransCmp cmp] : MaxHeap (List α) α cmp where
  empty := []
  push xs x := x :: xs
  pop := popMax cmp
  elems xs := xs
  elems_empty := rfl
  elems_push _ _ := rfl
  elems_pop h := Multiset.coe_eq_coe.mpr (popMax_perm h)
  pop_greatest := popMax_greatest
  pop_none h := congrArg _ (popMax_none h)

end MaxHeap
