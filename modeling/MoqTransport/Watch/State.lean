import MoqTransport.Error

/-!
The state a writer side and a reader side share. A handle of either side may
lock it; once all handles of one side are gone it is `dropped`, which refuses
mutable access and ends every wait for a change.
-/

namespace MoqTransport.Watch

/-- The value, and whether all handles of one of the two sides are gone. -/
structure State (T : Type) where
  value : T
  dropped : Bool
deriving DecidableEq

namespace State

variable {T : Type}

def new (value : T) : State T := ⟨value, false⟩

/-- The last handle of a side goes away. -/
def drop (s : State T) : State T := { s with dropped := true }

/-- Change the value through a mutable lock. -/
def update (s : State T) (f : T → T) : State T := { s with value := f s.value }

end State

/-- What a waiting reader finds when it is polled. -/
inductive Poll (α : Type) where
  | pending
  | ready (result : α)
deriving DecidableEq

/-- The end of every reading loop, reached when there is nothing new: the
error the writer closed with, the end once a side is gone, or a wait. -/
def exhausted {α : Type} (closed : Option ServeError) (dropped : Bool) :
    Poll (Except ServeError (Option α)) :=
  match closed with
  | some err => .ready (.error err)
  | none => if dropped then .ready (.ok none) else .pending

theorem exhausted_ne_some {α : Type} {closed : Option ServeError} {dropped : Bool} {a : α} :
    exhausted closed dropped ≠ .ready (.ok (some a)) := by
  unfold exhausted
  cases closed with
  | some err => simp
  | none => cases dropped <;> simp

theorem exhausted_eq_none_iff {α : Type} {closed : Option ServeError} {dropped : Bool} :
    (exhausted closed dropped : Poll (Except ServeError (Option α))) = .ready (.ok none) ↔
      closed = none ∧ dropped = true := by
  unfold exhausted
  cases closed with
  | some err => simp
  | none => cases dropped <;> simp

theorem exhausted_eq_error_iff {α : Type} {closed : Option ServeError} {dropped : Bool}
    {err : ServeError} :
    (exhausted closed dropped : Poll (Except ServeError (Option α))) = .ready (.error err) ↔
      closed = some err := by
  unfold exhausted
  cases closed with
  | some first => simp
  | none => cases dropped <;> simp

/-- `close` of a writer: the first error stays, and a state whose other side
is gone answers with `gone`. -/
def closeWith (gone : ServeError) (closed : Option ServeError) (dropped : Bool)
    (err : ServeError) : Except ServeError (Option ServeError) :=
  match closed with
  | some first => .error first
  | none => if dropped then .error gone else .ok (some err)

/-- A close that succeeds was the first, and both sides are still there. -/
theorem eq_of_closeWith {α : Type} {gone err : ServeError} {closed : Option ServeError}
    {dropped : Bool} {f : Option ServeError → α} {a : α}
    (h : (closeWith gone closed dropped err >>= fun closed => pure (f closed)) = .ok a) :
    closed = none ∧ dropped = false ∧ a = f (some err) := by
  cases closed with
  | some first => cases h
  | none =>
      cases dropped with
      | true => cases h
      | false =>
          cases h
          exact ⟨rfl, rfl, rfl⟩

/-- Nothing is closed once a side is gone. -/
theorem closeWith_dropped {α : Type} (gone err : ServeError) (closed : Option ServeError)
    (f : Option ServeError → α) :
    (closeWith gone closed true err >>= fun closed => pure (f closed)).toOption = none := by
  cases closed with
  | some first => rfl
  | none => rfl

end MoqTransport.Watch
