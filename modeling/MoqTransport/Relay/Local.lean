import MoqTransport.Coding.Fields
import MoqTransport.Error
import MoqTransport.Lib.Machine

/-!
The tracks announced to a relay, by namespace. A registration removes its
entry when it is dropped, in whatever task and however late that is, and it
removes by namespace, not by entry. That this is its own entry rests on a
namespace having at most one live registration (`Invariant.unique`), which
`register` keeps by refusing the second.
-/

namespace MoqTransport.Relay

open Coding Machine

/-- The shared table. Of a reader only its namespace is looked at, so the
readers may be of any type `R`. -/
structure Locals (R : Type) where
  lookup : Finmap (fun _ : Tuple => R)

/-- Held by whoever registered, and dropped by them. -/
structure Registration where
  namespace_ : Tuple
deriving DecidableEq

namespace Locals

variable {R : Type}

def new : Locals R := ⟨∅⟩

def register (namespaceOf : R → Tuple) (locals : Locals R) (tracks : R) :
    Except ServeError Registration × Locals R :=
  match locals.lookup.lookup (namespaceOf tracks) with
  | none =>
      (.ok ⟨namespaceOf tracks⟩, ⟨locals.lookup.insert (namespaceOf tracks) tracks⟩)
  | some _ => (.error .duplicate, locals)

def route (locals : Locals R) (namespace_ : Tuple) : Option R := locals.lookup.lookup namespace_

/-- `Registration::drop`. -/
def drop (locals : Locals R) (registration : Registration) : Locals R :=
  ⟨locals.lookup.erase registration.namespace_⟩

end Locals

/-- A call of `register`: the reader that was passed, and what the caller
holds of the registration it got. -/
structure RegisterCall (R : Type) where
  tracks : R
  registration : Option Registration

/-- The table, and all calls made so far by any task. -/
structure Routing (R : Type) where
  locals : Locals R
  calls : List (RegisterCall R)

inductive RoutingAct (R : Type) where
  | register (tracks : R)
  | route (namespace_ : Tuple)
  | drop (call : Nat)

namespace Routing

variable {R : Type} (namespaceOf : R → Tuple)

def init : Routing R := ⟨.new, []⟩

def step (s : Routing R) : RoutingAct R → Option (Routing R)
  | .register tracks =>
      let result := s.locals.register namespaceOf tracks
      some ⟨result.2, s.calls ++ [⟨tracks, result.1.toOption⟩]⟩
  | .route _ => some s
  | .drop k => do
      let call ← s.calls[k]?
      let registration ← call.registration
      some ⟨s.locals.drop registration, s.calls.set k { call with registration := none }⟩

/-- The call `k` passed `tracks` and its registration for the namespace is
live. -/
def Live (s : Routing R) (k : Nat) (tracks : R) (ns : Tuple) : Prop :=
  s.calls[k]? = some ⟨tracks, some ⟨ns⟩⟩

/-- The table is the live registrations, and no namespace has two. -/
structure Invariant (s : Routing R) : Prop where
  named : ∀ k tracks ns, s.Live k tracks ns → namespaceOf tracks = ns
  unique : ∀ j k tracks tracks' ns, s.Live j tracks ns → s.Live k tracks' ns → j = k
  routes : ∀ ns tracks, s.locals.route ns = some tracks ↔ ∃ k, s.Live k tracks ns

variable {namespaceOf} {s s' : Routing R} {act : RoutingAct R}

theorem Invariant.route_of_live (h : Invariant namespaceOf s) {k : Nat} {tracks : R} {ns : Tuple}
    (hlive : s.Live k tracks ns) : s.locals.route ns = some tracks :=
  (h.routes ns tracks).mpr ⟨k, hlive⟩

/-- Registering where the namespace is vacant. -/
theorem Invariant.register (h : Invariant namespaceOf s) {tracks : R}
    (hvacant : s.locals.lookup.lookup (namespaceOf tracks) = none) :
    Invariant namespaceOf ⟨⟨s.locals.lookup.insert (namespaceOf tracks) tracks⟩,
      s.calls ++ [⟨tracks, some ⟨namespaceOf tracks⟩⟩]⟩ := by
  have hlive (k : Nat) (other : R) (ns : Tuple) :
      (⟨⟨s.locals.lookup.insert (namespaceOf tracks) tracks⟩,
        s.calls ++ [⟨tracks, some ⟨namespaceOf tracks⟩⟩]⟩ : Routing R).Live k other ns ↔
      s.Live k other ns ∨ k = s.calls.length ∧ tracks = other ∧ namespaceOf tracks = ns := by
    unfold Live
    rw [getElem?_concat_iff]
    simp
  have hfree (k : Nat) (other : R) : ¬ s.Live k other (namespaceOf tracks) := by
    intro hother
    have hroute := h.route_of_live hother
    rw [Locals.route, hvacant] at hroute
    cases hroute
  constructor
  · intro k other ns hk
    rcases (hlive k other ns).mp hk with hold | ⟨-, rfl, hns⟩
    · exact h.named k other ns hold
    · exact hns
  · intro j k other other' ns hj hk
    rcases (hlive j other ns).mp hj with hj | ⟨rfl, rfl, rfl⟩
    · rcases (hlive k other' ns).mp hk with hk | ⟨rfl, rfl, rfl⟩
      · exact h.unique j k other other' ns hj hk
      · exact absurd hj (hfree j other)
    · rcases (hlive k other' _).mp hk with hk | ⟨rfl, -, -⟩
      · exact absurd hk (hfree k other')
      · rfl
  · intro ns other
    simp only [hlive]
    by_cases hns : ns = namespaceOf tracks
    · subst hns
      rw [Locals.route, Finmap.lookup_insert]
      constructor
      · intro heq
        cases heq
        exact ⟨s.calls.length, .inr ⟨rfl, rfl, rfl⟩⟩
      · rintro ⟨k, hold | ⟨-, rfl, -⟩⟩
        · exact absurd hold (hfree k other)
        · rfl
    · rw [Locals.route, Finmap.lookup_insert_of_ne _ hns]
      constructor
      · intro hroute
        obtain ⟨k, hk⟩ := (h.routes ns other).mp hroute
        exact ⟨k, .inl hk⟩
      · rintro ⟨k, hold | ⟨-, -, heq⟩⟩
        · exact h.route_of_live hold
        · exact absurd heq.symm hns

/-- A refused registration. -/
theorem Invariant.refused (h : Invariant namespaceOf s) (tracks : R) :
    Invariant namespaceOf ⟨s.locals, s.calls ++ [⟨tracks, none⟩]⟩ := by
  have hlive (k : Nat) (other : R) (ns : Tuple) :
      (⟨s.locals, s.calls ++ [⟨tracks, none⟩]⟩ : Routing R).Live k other ns ↔
        s.Live k other ns := by
    unfold Live
    rw [getElem?_concat_iff]
    simp
  constructor
  · intro k other ns hk
    exact h.named k other ns ((hlive k other ns).mp hk)
  · intro j k other other' ns hj hk
    exact h.unique j k other other' ns ((hlive _ _ _).mp hj) ((hlive _ _ _).mp hk)
  · intro ns other
    simp only [hlive]
    exact h.routes ns other

/-- What is live after a drop is what was live before, but for the one
dropped. -/
theorem live_drop_iff {k : Nat} {tracks : R} {ns : Tuple} (hlive : s.Live k tracks ns)
    (locals : Locals R) (j : Nat) (other : R) (ns' : Tuple) :
    (⟨locals, s.calls.set k ⟨tracks, none⟩⟩ : Routing R).Live j other ns' ↔
      k ≠ j ∧ s.Live j other ns' := by
  unfold Live at hlive ⊢
  rw [getElem?_set_iff hlive]
  simp

theorem Invariant.drop (h : Invariant namespaceOf s) {k : Nat} {tracks : R} {ns : Tuple}
    (hlive : s.Live k tracks ns) :
    Invariant namespaceOf ⟨s.locals.drop ⟨ns⟩, s.calls.set k ⟨tracks, none⟩⟩ := by
  have hdrop := live_drop_iff hlive (s.locals.drop ⟨ns⟩)
  constructor
  · intro j other ns' hj
    exact h.named j other ns' ((hdrop j other ns').mp hj).2
  · intro i j other other' ns' hi hj
    exact h.unique i j other other' ns' ((hdrop _ _ _).mp hi).2 ((hdrop _ _ _).mp hj).2
  · intro ns' other
    simp only [hdrop]
    by_cases hns : ns' = ns
    · subst hns
      rw [Locals.route, Locals.drop, Finmap.lookup_erase]
      constructor
      · intro hnone
        cases hnone
      · rintro ⟨j, hne, hj⟩
        exact absurd (h.unique k j tracks other ns' hlive hj) hne
    · rw [Locals.route, Locals.drop, Finmap.lookup_erase_ne hns]
      constructor
      · intro hroute
        obtain ⟨j, hj⟩ := (h.routes ns' other).mp hroute
        refine ⟨j, ?_, hj⟩
        rintro rfl
        unfold Live at hlive hj
        rw [hlive] at hj
        cases hj
        exact hns rfl
      · rintro ⟨j, -, hj⟩
        exact h.route_of_live hj

/-- A drop is of a live registration. -/
theorem drop_cases {k : Nat} (hstep : step namespaceOf s (.drop k) = some s') :
    ∃ tracks ns, s.Live k tracks ns ∧
      s' = ⟨s.locals.drop ⟨ns⟩, s.calls.set k ⟨tracks, none⟩⟩ := by
  obtain ⟨call, hcall, hstep⟩ := Option.bind_eq_some_iff.mp hstep
  obtain ⟨registration, hregistration, hstep⟩ := Option.bind_eq_some_iff.mp hstep
  obtain ⟨tracks, held⟩ := call
  cases hregistration
  cases hstep
  exact ⟨tracks, registration.namespace_, hcall, rfl⟩

theorem invariant_step (h : Invariant namespaceOf s) (hstep : step namespaceOf s act = some s') :
    Invariant namespaceOf s' := by
  cases act with
  | register tracks =>
      simp only [step, Locals.register, Option.some.injEq] at hstep
      cases hlookup : s.locals.lookup.lookup (namespaceOf tracks) with
      | none =>
          rw [hlookup] at hstep
          subst hstep
          exact h.register hlookup
      | some other =>
          rw [hlookup] at hstep
          subst hstep
          exact h.refused tracks
  | route ns =>
      cases hstep
      exact h
  | drop k =>
      obtain ⟨tracks, ns, hlive, rfl⟩ := drop_cases hstep
      exact h.drop hlive

theorem invariant_init : Invariant namespaceOf (init : Routing R) := by
  constructor
  · intro k tracks ns hk
    cases hk
  · intro j k tracks tracks' ns hj
    cases hj
  · intro ns tracks
    constructor
    · intro hroute
      cases hroute
    · rintro ⟨k, hk⟩
      cases hk

theorem invariant_of_reachable
    (hs : Reachable (step namespaceOf) (fun _ _ => True) init s) : Invariant namespaceOf s :=
  hs.invariant invariant_init fun h _ hstep => invariant_step h hstep

/-- In every interleaving of calls and drops: the table has the namespaces of
the live registrations, `route` returns the reader that was registered, an
occupied namespace is refused, and a drop takes out its own entry and no
other. -/
theorem routing_table (hs : Reachable (step namespaceOf) (fun _ _ => True) init s) :
    (∀ ns, ns ∈ s.locals.lookup ↔ ∃ k tracks, s.Live k tracks ns) ∧
    (∀ ns tracks, s.locals.route ns = some tracks ↔ ∃ k, s.Live k tracks ns) ∧
    (∀ ns, s.locals.route ns = none ↔ ¬ ∃ k tracks, s.Live k tracks ns) ∧
    (∀ j k tracks tracks' ns, s.Live j tracks ns → s.Live k tracks' ns → j = k) ∧
    (∀ tracks, namespaceOf tracks ∈ s.locals.lookup →
      s.locals.register namespaceOf tracks = (.error .duplicate, s.locals)) ∧
    ∀ k s', step namespaceOf s (.drop k) = some s' →
      ∃ tracks ns, s.Live k tracks ns ∧ ns ∉ s'.locals.lookup ∧
        (∀ ns', ns' ≠ ns → s'.locals.route ns' = s.locals.route ns') ∧
        ∀ j tracks' ns', j ≠ k → s.Live j tracks' ns' → s'.locals.route ns' = some tracks' := by
  have h := invariant_of_reachable hs
  have hmem (ns : Tuple) : ns ∈ s.locals.lookup ↔ ∃ k tracks, s.Live k tracks ns := by
    rw [Finmap.mem_iff, exists_comm]
    exact exists_congr fun tracks => h.routes ns tracks
  refine ⟨hmem, h.routes, ?_, h.unique, ?_, ?_⟩
  · intro ns
    rw [← hmem]
    exact Finmap.lookup_eq_none
  · intro tracks hoccupied
    obtain ⟨other, hother⟩ := Finmap.mem_iff.mp hoccupied
    simp only [Locals.register, hother]
  · intro k s' hstep
    obtain ⟨tracks, ns, hlive, rfl⟩ := drop_cases hstep
    refine ⟨tracks, ns, hlive, Finmap.notMem_erase_self, ?_, ?_⟩
    · intro ns' hne
      exact Finmap.lookup_erase_ne hne
    · intro j tracks' ns' hne hj
      have hafter := (live_drop_iff hlive (s.locals.drop ⟨ns⟩) j tracks' ns').mpr ⟨hne.symm, hj⟩
      exact (h.drop hlive).route_of_live hafter

/-- Two readers of one namespace: the second is refused until the first is
dropped. -/
def live : Tuple := ⟨[⟨[108, 105, 118, 101]⟩]⟩

def takeover : List (RoutingAct (Tuple × Nat)) :=
  [.register (live, 1), .register (live, 2), .drop 0, .register (live, 3)]

def afterTakeover : Routing (Tuple × Nat) where
  locals := ⟨(((∅ : Finmap _).insert live (live, 1)).erase live).insert live (live, 3)⟩
  calls := [⟨(live, 1), none⟩, ⟨(live, 2), none⟩, ⟨(live, 3), some ⟨live⟩⟩]

theorem routing_table_takeover :
    Reachable (step Prod.fst) (fun _ _ => True) init afterTakeover ∧
      afterTakeover.locals.route live = some (live, 3) := by
  have hrun : run (step Prod.fst) (fun _ _ => true) init takeover = some afterTakeover := rfl
  have hreach : Reachable (step Prod.fst) (fun _ _ => True) init afterTakeover :=
    reachable_of_run _ (fun _ _ _ => trivial) hrun
  exact ⟨hreach, ((routing_table hreach).2.1 live (live, 3)).mpr ⟨2, rfl⟩⟩

end Routing

end MoqTransport.Relay
