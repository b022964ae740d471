import MoqTransport.Session.Announce

/-!
The announcements a relay receives, across all its sessions. Each is served by
a call of its own, which advertises the relay as the origin of the namespace,
registers the tracks locally, and forwards the announcement to another relay.
The advertising and the forwarding run in tasks that nothing ties to the call:
when it returns, its registration goes with it and the tasks stay. They mirror
the calls only if they end first (`mirrors_of_reachable`,
`advertised_of_reachable`).
-/

namespace MoqTransport.Relay

open Coding Session Machine

/-- Where a call of `serve` is. -/
inductive ServePhase where
  | settingOrigin
  | registering
  | accepting
  | serving
  | returned
deriving DecidableEq

/-- The spawned task that runs the `Refresh`. -/
inductive RefreshPhase where
  | none
  | running
  | ended
deriving DecidableEq

/-- The spawned task that forwards the announcement; `announce` is its place
among the announcements of the forward session. -/
inductive ForwardPhase where
  | none
  | spawned
  | announced (announce : Nat)
  | ended
deriving DecidableEq

/-- One call of `Consumer::serve`, with the tasks it spawns. -/
structure ServeCall where
  namespace_ : Tuple
  phase : ServePhase
  refresh : RefreshPhase
  forward : ForwardPhase
deriving DecidableEq

namespace ServeCall

/-- The call holds a `Registration`. -/
def Registered (call : ServeCall) : Prop := call.phase = .accepting ∨ call.phase = .serving

def Forwarding (call : ServeCall) : Prop :=
  call.forward = .spawned ∨ ∃ a, call.forward = .announced a

end ServeCall

/-- The consumers of a relay: whether it has an API and a forward session, the
calls of all its sessions, the local tracks by the call that registered them,
and the publisher of the forward session. -/
structure Consumers where
  api : Bool
  forwards : Bool
  calls : List ServeCall
  locals : Finmap (fun _ : Tuple => Nat)
  upstream : Publisher

inductive ConsumerAct where
  /-- A session hands over an announcement. -/
  | announced (namespace_ : Tuple)
  | setOrigin (call : Nat) (ok : Bool)
  | register (call : Nat)
  /-- `announce.ok()`, and the rest up to the loop. -/
  | accept (call : Nat) (ok : Bool)
  /-- The loop of `serve` ends. -/
  | closed (call : Nat)
  | refreshFailed (call : Nat)
  /-- The forwarding task calls `Publisher::announce`. -/
  | forward (call : Nat)
  /-- `Publisher::announce` returns. -/
  | forwarded (call : Nat)
  | upstream (act : PublisherAct)

namespace Consumers

def init (api forwards : Bool) : Consumers := ⟨api, forwards, [], ∅, .init⟩

def setCall (s : Consumers) (k : Nat) (call : ServeCall) : Consumers :=
  { s with calls := s.calls.set k call }

/-- The call returns and drops its registration. -/
def leave (s : Consumers) (k : Nat) (call : ServeCall) : Consumers :=
  { s.setCall k { call with phase := .returned } with locals := s.locals.erase call.namespace_ }

/-- A call in the given phase takes a step. -/
def withCall (s : Consumers) (k : Nat) (phase : ServePhase) (f : ServeCall → Consumers) :
    Option Consumers :=
  match s.calls[k]? with
  | some call => if call.phase = phase then some (f call) else none
  | none => none

/-- `Locals::register`. -/
def register (s : Consumers) (k : Nat) (call : ServeCall) : Consumers :=
  match s.locals.lookup call.namespace_ with
  | some _ => s.setCall k { call with phase := .returned }
  | none =>
      { s.setCall k { call with phase := .accepting } with
        locals := s.locals.insert call.namespace_ k }

def accept (s : Consumers) (k : Nat) (call : ServeCall) : Consumers :=
  s.setCall k { call with
    phase := .serving
    forward := if s.forwards then .spawned else call.forward }

/-- The forwarding task's `announce`: a namespace that is announced already is
a duplicate, and the task ends. -/
def announce (s : Consumers) (k : Nat) (call : ServeCall) : Consumers :=
  match s.upstream.announces.lookup call.namespace_ with
  | some _ => s.setCall k { call with forward := .ended }
  | none =>
      { s.setCall k { call with forward := .announced s.upstream.announcements.length } with
        upstream := s.upstream.announce call.namespace_ }

/-- What the forward session may do by itself. Its announcements are made by
the forwarding tasks, which give them up once they are closed. -/
def ownStep (s : Consumers) : PublisherAct → Bool
  | .announce _ => false
  | .dropAnnounce a =>
      match s.upstream.announcements[a]? with
      | some c => c.closed.isSome || c.dropped
      | none => false
  | _ => true

def step (s : Consumers) : ConsumerAct → Option Consumers
  | .announced ns =>
      let phase := if s.api then .settingOrigin else .registering
      some { s with calls := s.calls ++ [⟨ns, phase, .none, .none⟩] }
  | .setOrigin k true => s.withCall k .settingOrigin fun call =>
      s.setCall k { call with phase := .registering, refresh := .running }
  | .setOrigin k false => s.withCall k .settingOrigin fun call =>
      s.setCall k { call with phase := .returned }
  | .register k => s.withCall k .registering (s.register k)
  | .accept k true => s.withCall k .accepting (s.accept k)
  | .accept k false => s.withCall k .accepting (s.leave k)
  | .closed k => s.withCall k .serving (s.leave k)
  | .refreshFailed k => do
      let call ← s.calls[k]?
      if call.refresh = .running then some (s.setCall k { call with refresh := .ended }) else none
  | .forward k => do
      let call ← s.calls[k]?
      if call.forward = .spawned then some (s.announce k call) else none
  | .forwarded k => do
      let call ← s.calls[k]?
      match call.forward with
      | .announced a => do
          let c ← s.upstream.announcements[a]?
          if c.phase = .gone then some (s.setCall k { call with forward := .ended }) else none
      | _ => none
  | .upstream act =>
      if s.ownStep act then (s.upstream.step act).map fun u => { s with upstream := u } else none

/-- The call that returns in this step. -/
def returning (s : Consumers) : ConsumerAct → Option Nat
  | .setOrigin k false | .accept k false | .closed k => some k
  | .register k => do
      let call ← s.calls[k]?
      let _ ← s.locals.lookup call.namespace_
      pure k
  | _ => none

/-- A call returns only if it never spawned its forwarding task, or that task
has ended. -/
def ForwardDone (s : Consumers) (act : ConsumerAct) : Prop :=
  ∀ k call, s.returning act = some k → s.calls[k]? = some call → ¬ call.Forwarding

/-- A call returns only if it never spawned its refreshing task, or that task
has ended. -/
def RefreshDone (s : Consumers) (act : ConsumerAct) : Prop :=
  ∀ k call, s.returning act = some k → s.calls[k]? = some call → call.refresh ≠ .running

/-- The forwarded announcements mirror the local ones: what is announced
upstream is served by a call that has not returned, from its own tracks, and a
call that is about to forward finds its namespace free. -/
structure Mirrors (s : Consumers) : Prop where
  served : ∀ ns a, s.upstream.announces.lookup ns = some a →
    ∃ (k : Nat) (call : ServeCall), s.calls[k]? = some call ∧ call.namespace_ = ns ∧
      call.forward = .announced a ∧ call.phase ≠ .returned
  free : ∀ (k : Nat) (call : ServeCall), s.calls[k]? = some call → call.forward = .spawned →
    call.namespace_ ∉ s.upstream.announces

/-- The relay refreshes only namespaces that it still serves. -/
def Advertised (s : Consumers) : Prop :=
  ∀ (k : Nat) (call : ServeCall), s.calls[k]? = some call → call.refresh = .running →
    ∃ (j : Nat) (other : ServeCall), s.calls[j]? = some other ∧
      other.namespace_ = call.namespace_ ∧ other.phase ≠ .returned

structure Invariant (s : Consumers) : Prop where
  locals : Registry.Consistent ServeCall.namespace_ ServeCall.Registered s.locals s.calls
  announces : s.upstream.AnnouncesOk
  forwarding : ∀ {k : Nat} {call : ServeCall}, s.calls[k]? = some call → call.Forwarding →
    call.phase = .serving
  owner : ∀ {ns : Tuple} {a : Nat}, s.upstream.announces.lookup ns = some a →
    ∃ (k : Nat) (call : ServeCall), s.calls[k]? = some call ∧ call.namespace_ = ns ∧
      call.forward = .announced a

variable {s s' : Consumers} {act : ConsumerAct}

theorem eq_of_withCall {k : Nat} {phase : ServePhase} {f : ServeCall → Consumers}
    (h : s.withCall k phase f = some s') :
    ∃ call, s.calls[k]? = some call ∧ call.phase = phase ∧ s' = f call := by
  unfold withCall at h
  split at h
  · next call hcall =>
      split at h
      · next hphase => exact ⟨call, hcall, hphase, (Option.some.inj h).symm⟩
      · cases h
  · cases h

/-- What a step does. -/
inductive Steps (s : Consumers) : ConsumerAct → Consumers → Prop where
  | announced (ns : Tuple) (phase : ServePhase)
      (hphase : phase = .settingOrigin ∨ phase = .registering) :
      Steps s (.announced ns) { s with calls := s.calls ++ [⟨ns, phase, .none, .none⟩] }
  | originSet (k : Nat) (call : ServeCall) (hcall : s.calls[k]? = some call)
      (hphase : call.phase = .settingOrigin) : Steps s (.setOrigin k true)
        (s.setCall k { call with phase := .registering, refresh := .running })
  /-- The origin is refused, or the namespace is registered already. -/
  | refused (k : Nat) (call : ServeCall) {act : ConsumerAct} (hcall : s.calls[k]? = some call)
      (hphase : call.phase = .settingOrigin ∨ call.phase = .registering)
      (hreturning : s.returning act = some k) :
      Steps s act (s.setCall k { call with phase := .returned })
  | registered (k : Nat) (call : ServeCall) (hcall : s.calls[k]? = some call)
      (hphase : call.phase = .registering) (hlookup : s.locals.lookup call.namespace_ = none) :
      Steps s (.register k) { s.setCall k { call with phase := .accepting } with
        locals := s.locals.insert call.namespace_ k }
  | accepted (k : Nat) (call : ServeCall) (hcall : s.calls[k]? = some call)
      (hphase : call.phase = .accepting) : Steps s (.accept k true) (s.accept k call)
  | left (k : Nat) (call : ServeCall) {act : ConsumerAct} (hcall : s.calls[k]? = some call)
      (hregistered : call.Registered) (hreturning : s.returning act = some k) :
      Steps s act (s.leave k call)
  | refreshFailed (k : Nat) (call : ServeCall) (hcall : s.calls[k]? = some call) :
      Steps s (.refreshFailed k) (s.setCall k { call with refresh := .ended })
  | forward (k : Nat) (call : ServeCall) (hcall : s.calls[k]? = some call)
      (hspawned : call.forward = .spawned) : Steps s (.forward k) (s.announce k call)
  | forwarded (k a : Nat) (call : ServeCall) (c : AnnounceCell) (hcall : s.calls[k]? = some call)
      (hforward : call.forward = .announced a) (hc : s.upstream.announcements[a]? = some c)
      (hgone : c.phase = .gone) :
      Steps s (.forwarded k) (s.setCall k { call with forward := .ended })
  | upstream {act : PublisherAct} {u : Publisher} (hown : s.ownStep act)
      (hu : s.upstream.step act = some u) : Steps s (.upstream act) { s with upstream := u }

theorem steps_of_step (h : s.step act = some s') : Steps s act s' := by
  cases act with
  | announced ns =>
      cases h
      apply Steps.announced
      split
      · exact .inl rfl
      · exact .inr rfl
  | setOrigin k ok =>
      cases ok with
      | true =>
          obtain ⟨call, hcall, hphase, rfl⟩ := eq_of_withCall h
          exact .originSet k call hcall hphase
      | false =>
          obtain ⟨call, hcall, hphase, rfl⟩ := eq_of_withCall h
          exact .refused k call hcall (.inl hphase) rfl
  | register k =>
      obtain ⟨call, hcall, hphase, rfl⟩ := eq_of_withCall h
      unfold register
      cases hlookup : s.locals.lookup call.namespace_ with
      | some j => exact .refused k call hcall (.inr hphase) (by simp [returning, hcall, hlookup])
      | none => exact .registered k call hcall hphase hlookup
  | accept k ok =>
      cases ok with
      | true =>
          obtain ⟨call, hcall, hphase, rfl⟩ := eq_of_withCall h
          exact .accepted k call hcall hphase
      | false =>
          obtain ⟨call, hcall, hphase, rfl⟩ := eq_of_withCall h
          exact .left k call hcall (.inl hphase) rfl
  | closed k =>
      obtain ⟨call, hcall, hphase, rfl⟩ := eq_of_withCall h
      exact .left k call hcall (.inr hphase) rfl
  | refreshFailed k =>
      obtain ⟨call, hcall, h⟩ := Option.bind_eq_some_iff.mp h
      split at h
      · cases h
        exact .refreshFailed k call hcall
      · cases h
  | forward k =>
      obtain ⟨call, hcall, h⟩ := Option.bind_eq_some_iff.mp h
      split at h
      · next hspawned =>
          cases h
          exact .forward k call hcall hspawned
      · cases h
  | forwarded k =>
      obtain ⟨call, hcall, h⟩ := Option.bind_eq_some_iff.mp h
      split at h
      · next a hforward =>
          obtain ⟨c, hc, h⟩ := Option.bind_eq_some_iff.mp h
          split at h
          · next hgone =>
              cases h
              exact .forwarded k a call c hcall hforward hc hgone
          · cases h
      · cases h
  | upstream act =>
      simp only [step] at h
      split at h
      · next hown =>
          obtain ⟨u, hu, rfl⟩ := Option.map_eq_some_iff.mp h
          exact .upstream hown hu
      · cases h

/-- A call changes, with the table of local tracks as it says. -/
theorem invariant_setCall (hs : Invariant s) {k : Nat} {call : ServeCall}
    (hcall : s.calls[k]? = some call) (call' : ServeCall) (hns : call'.namespace_ = call.namespace_)
    {locals : Finmap fun _ : Tuple => Nat}
    (hlocals : Registry.Consistent ServeCall.namespace_ ServeCall.Registered locals
      (s.calls.set k call'))
    (hforwarding : call'.Forwarding → call'.phase = .serving)
    (howner : ∀ a, call.forward = .announced a → call'.forward = .announced a ∨
      ∀ ns, s.upstream.announces.lookup ns ≠ some a) :
    Invariant { s.setCall k call' with locals := locals } := by
  have hlt := (List.getElem?_eq_some_iff.mp hcall).1
  refine ⟨hlocals, hs.announces, ?_, ?_⟩
  · intro j other hother hforward
    rcases (getElem?_set_iff hcall).mp hother with ⟨-, rfl⟩ | ⟨-, hold⟩
    · exact hforwarding hforward
    · exact hs.forwarding hold hforward
  · intro ns a ha
    obtain ⟨j, other, hother, hname, hforward⟩ := hs.owner ha
    by_cases hj : k = j
    · subst hj
      obtain rfl : call = other := by simpa [hcall] using hother
      refine ⟨k, call', List.getElem?_set_self hlt, hns.trans hname, ?_⟩
      exact (howner a hforward).resolve_right fun hnone => hnone ns ha
    · exact ⟨j, other, (List.getElem?_set_ne hj).trans hother, hname, hforward⟩

theorem not_registered_returned (call : ServeCall) :
    ¬ { call with phase := .returned }.Registered := by
  rintro (h | h) <;> cases h

/-- The registration of a call goes with it. -/
theorem consistent_leave (hs : Invariant s) {k : Nat} {call : ServeCall}
    (hcall : s.calls[k]? = some call) (hregistered : call.Registered) :
    Registry.Consistent ServeCall.namespace_ ServeCall.Registered
      (s.locals.erase call.namespace_) (s.calls.set k { call with phase := .returned }) := by
  have hlookup := hs.locals.lookup hcall hregistered
  refine hs.locals.retire not_registered_returned ?_
  intro j
  by_cases hj : k = j
  · subst hj
    rw [List.getElem?_set_self (List.getElem?_eq_some_iff.mp hcall).1, hcall]
    simp [hlookup]
  · rw [List.getElem?_set_ne hj, hlookup]
    simp [hj]

theorem invariant_leave (hs : Invariant s) {k : Nat} {call : ServeCall}
    (hcall : s.calls[k]? = some call) (hregistered : call.Registered)
    (hdone : ¬ call.Forwarding) : Invariant (s.leave k call) :=
  invariant_setCall hs hcall { call with phase := .returned } rfl
    (consistent_leave hs hcall hregistered) (fun h => absurd h hdone) fun _ ha => .inl ha

/-- A call that holds no registration returns. -/
theorem invariant_return (hs : Invariant s) {k : Nat} {call : ServeCall}
    (hcall : s.calls[k]? = some call) (hfree : ¬ call.Registered) (hdone : ¬ call.Forwarding) :
    Invariant (s.setCall k { call with phase := .returned }) := by
  have hiff : { call with phase := .returned }.Registered ↔ call.Registered :=
    ⟨fun h => absurd h (not_registered_returned call), fun h => absurd h hfree⟩
  exact invariant_setCall hs hcall { call with phase := .returned } rfl
    (hs.locals.set hcall rfl hiff) (fun h => absurd h hdone) fun _ ha => .inl ha

theorem invariant_announce (hs : Invariant s) {k : Nat} {call : ServeCall}
    (hcall : s.calls[k]? = some call) (hspawned : call.forward = .spawned) :
    Invariant (s.announce k call) := by
  have hserving : call.phase = .serving := hs.forwarding hcall (.inl hspawned)
  have hmoved (forward : ForwardPhase) :
      Invariant (s.setCall k { call with forward := forward }) := by
    refine invariant_setCall hs hcall { call with forward := forward } rfl
      (hs.locals.set hcall rfl Iff.rfl) (fun _ => hserving) ?_
    intro a ha
    cases hspawned.symm.trans ha
  unfold announce
  cases hlookup : s.upstream.announces.lookup call.namespace_ with
  | some b => exact hmoved .ended
  | none =>
      have hnew := hmoved (.announced s.upstream.announcements.length)
      have hstep : s.upstream.step (.announce call.namespace_) =
          some (s.upstream.announce call.namespace_) := rfl
      refine ⟨hnew.locals, Publisher.announcesOk_step hs.announces hstep, hnew.forwarding, ?_⟩
      intro ns a ha
      cases Publisher.announceSteps_of_step hstep with
      | quiet hannounces _ => exact hnew.owner (hannounces ▸ ha)
      | changed _ hannounces _ _ _ => exact hnew.owner (hannounces ▸ ha)
      | taken gone hannounces _ => exact hnew.owner (hannounces ns a ha).2
      | announced _ hannounces _ =>
          have ha : (s.upstream.announces.insert call.namespace_
              s.upstream.announcements.length).lookup ns = some a := hannounces ▸ ha
          by_cases hns : ns = call.namespace_
          · subst hns
            rw [Finmap.lookup_insert] at ha
            cases ha
            exact ⟨k, _, List.getElem?_set_self (List.getElem?_eq_some_iff.mp hcall).1, rfl, rfl⟩
          · rw [Finmap.lookup_insert_of_ne _ hns] at ha
            exact hnew.owner ha

theorem invariant_init (api forwards : Bool) : Invariant (init api forwards) := by
  refine ⟨Registry.consistent_nil, ?_, ?_, ?_⟩
  · intro ns a ha
    simp [init, Publisher.init] at ha
  · intro k call hcall
    simp [init] at hcall
  · intro ns a ha
    simp [init, Publisher.init] at ha

theorem invariant_announced (hs : Invariant s) {call : ServeCall} (hfree : ¬ call.Registered)
    (hforward : call.forward = .none) : Invariant { s with calls := s.calls ++ [call] } := by
  refine ⟨hs.locals.append hfree, hs.announces, ?_, ?_⟩
  · intro k other hother hforwarding
    rcases getElem?_concat_iff.mp hother with hold | ⟨-, rfl⟩
    · exact hs.forwarding hold hforwarding
    · rcases hforwarding with h | ⟨a, h⟩ <;> cases hforward.symm.trans h
  · intro ns a ha
    obtain ⟨k, other, hother, hrest⟩ := hs.owner ha
    exact ⟨k, other, getElem?_concat_iff.mpr (.inl hother), hrest⟩

theorem invariant_step (hs : Invariant s) (hdone : ForwardDone s act)
    (h : s.step act = some s') : Invariant s' := by
  -- Before the loop a call forwards nothing.
  have hearly {k : Nat} {call : ServeCall} (hcall : s.calls[k]? = some call)
      (hphase : call.phase ≠ .serving) : ¬ call.Forwarding :=
    fun hforward => hphase (hs.forwarding hcall hforward)
  cases steps_of_step h with
  | announced ns phase hphase =>
      apply invariant_announced hs _ rfl
      rcases hphase with rfl | rfl <;> simp [ServeCall.Registered]
  | originSet k call hcall hphase =>
      have hnone := hearly hcall (by simp [hphase])
      refine invariant_setCall hs hcall
        { call with phase := .registering, refresh := .running } rfl
        (hs.locals.set hcall rfl ?_) (fun h => absurd h hnone) fun _ ha => .inl ha
      simp [ServeCall.Registered, hphase]
  | refused k call hcall hphase hreturning =>
      apply invariant_return hs hcall _ (hdone k call hreturning hcall)
      rcases hphase with hphase | hphase <;> simp [ServeCall.Registered, hphase]
  | registered k call hcall hphase hlookup =>
      let registered : ServeCall := { call with phase := .accepting }
      have hlive : registered.Registered := .inl rfl
      have hnone := hearly hcall (by simp [hphase])
      exact invariant_setCall hs hcall registered rfl (hs.locals.enlist hcall rfl hlive hlookup)
        (fun h => absurd h hnone) fun _ ha => .inl ha
  | accepted k call hcall hphase =>
      have hnone := hearly hcall (by simp [hphase])
      let accepted : ServeCall :=
        { call with phase := .serving, forward := if s.forwards then .spawned else call.forward }
      refine invariant_setCall hs hcall accepted rfl (hs.locals.set hcall rfl ?_)
        (fun _ => rfl) fun a ha => absurd (.inr ⟨a, ha⟩) hnone
      simp [ServeCall.Registered, accepted, hphase]
  | left k call hcall hregistered hreturning =>
      exact invariant_leave hs hcall hregistered (hdone k call hreturning hcall)
  | refreshFailed k call hcall =>
      have hforwarding : call.Forwarding → call.phase = .serving := hs.forwarding hcall
      exact invariant_setCall hs hcall { call with refresh := .ended } rfl
        (hs.locals.set hcall rfl Iff.rfl) hforwarding fun _ ha => .inl ha
  | forward k call hcall hspawned => exact invariant_announce hs hcall hspawned
  | forwarded k a call c hcall hforward hc hgone =>
      refine invariant_setCall hs hcall { call with forward := .ended } rfl
        (hs.locals.set hcall rfl Iff.rfl) ?_ ?_
      · rintro (h | ⟨b, h⟩) <;> cases h
      · intro b hb
        obtain rfl : a = b := by simpa [hforward] using hb
        right
        intro ns hns
        obtain ⟨c', hc', -, hoffered⟩ := hs.announces ns a hns
        obtain rfl : c = c' := by simpa [hc] using hc'
        rcases hoffered.phase with h | h <;> cases hgone.symm.trans h
  | upstream hown hu =>
      refine ⟨hs.locals, Publisher.announcesOk_step hs.announces hu, hs.forwarding, ?_⟩
      intro ns a ha
      refine hs.owner (Publisher.announces_step ?_ hu ha)
      rintro ns' rfl
      cases hown

/-- In every run in which calls return only after their forwarding tasks, what
is announced upstream mirrors the calls that have not returned. -/
theorem mirrors_of_reachable (api forwards : Bool) (s : Consumers)
    (hs : Reachable step ForwardDone (init api forwards) s) : Mirrors s := by
  have hinv : Invariant s := hs.invariant (invariant_init api forwards) invariant_step
  refine ⟨?_, ?_⟩
  · intro ns a ha
    obtain ⟨k, call, hcall, hns, hforward⟩ := hinv.owner ha
    refine ⟨k, call, hcall, hns, hforward, ?_⟩
    rw [hinv.forwarding hcall (.inr ⟨a, hforward⟩)]
    simp
  · intro k call hcall hspawned hmem
    obtain ⟨a, ha⟩ := Finmap.mem_iff.mp hmem
    obtain ⟨j, other, hother, hns, hforward⟩ := hinv.owner ha
    -- Both calls are registered under the namespace, so they are the same.
    have hk := hinv.locals.lookup hcall (.inr (hinv.forwarding hcall (.inl hspawned)))
    have hj := hinv.locals.lookup hother (.inr (hinv.forwarding hother (.inr ⟨a, hforward⟩)))
    rw [hns, hk] at hj
    obtain rfl := Option.some.inj hj
    obtain rfl : call = other := by simpa [hcall] using hother
    cases hspawned.symm.trans hforward

def forwardDone (s : Consumers) (act : ConsumerAct) : Bool :=
  (s.returning act).all fun k => s.calls[k]?.all fun call =>
    call.forward = .none || call.forward = .ended

theorem forwardDone_of_eq (s : Consumers) (act : ConsumerAct) (h : forwardDone s act = true) :
    ForwardDone s act := by
  intro k call hreturning hcall
  simp only [forwardDone, hreturning, hcall, Option.all_some, Bool.or_eq_true,
    decide_eq_true_eq] at h
  rintro (hforward | ⟨a, hforward⟩)
  · simp [hforward] at h
  · simp [hforward] at h

/-- The publisher of a namespace comes back after the forwarded announcement
was cancelled: it is forwarded again. -/
theorem mirrors_reannounced :
    ∃ s, run step forwardDone (init false true)
        [.announced ⟨[]⟩, .register 0, .accept 0 true, .forward 0,
          .upstream (.announceCancel ⟨⟨[]⟩, 0, ""⟩), .upstream (.dropAnnounce 0), .forwarded 0,
          .closed 0, .announced ⟨[]⟩, .register 1, .accept 1 true, .forward 1] = some s ∧
      s.upstream.announces.lookup ⟨[]⟩ = some 1 ∧ Mirrors s := by
  have hrun : ∃ s, run step forwardDone (init false true)
      [.announced ⟨[]⟩, .register 0, .accept 0 true, .forward 0,
        .upstream (.announceCancel ⟨⟨[]⟩, 0, ""⟩), .upstream (.dropAnnounce 0), .forwarded 0,
        .closed 0, .announced ⟨[]⟩, .register 1, .accept 1 true, .forward 1] = some s ∧
      s.upstream.announces.lookup ⟨[]⟩ = some 1 := ⟨_, rfl, rfl⟩
  obtain ⟨s, hs, hlookup⟩ := hrun
  exact ⟨s, hs, hlookup, mirrors_of_reachable false true s
    (reachable_of_run forwardDone forwardDone_of_eq hs)⟩

/-- The publisher of a namespace leaves and comes back: the announcement of its
first call is still there, and the second is refused as a duplicate. -/
theorem not_mirrors_left :
    ∃ s, Reachable step (fun _ _ => True) (init false true) s ∧
      s.upstream.announces.lookup ⟨[]⟩ = some 0 ∧
      s.calls = [⟨⟨[]⟩, .returned, .none, .announced 0⟩, ⟨⟨[]⟩, .serving, .none, .ended⟩] ∧
      ¬ Mirrors s := by
  have hrun : ∃ s, run step (fun _ _ => true) (init false true)
      [.announced ⟨[]⟩, .register 0, .accept 0 true, .forward 0, .closed 0, .announced ⟨[]⟩,
        .register 1, .accept 1 true, .forward 1] = some s ∧
      s.upstream.announces.lookup ⟨[]⟩ = some 0 ∧
      s.calls = [⟨⟨[]⟩, .returned, .none, .announced 0⟩, ⟨⟨[]⟩, .serving, .none, .ended⟩] :=
    ⟨_, rfl, rfl, rfl⟩
  obtain ⟨s, hs, hlookup, hcalls⟩ := hrun
  refine ⟨s, reachable_of_run _ (fun _ _ _ => trivial) hs, hlookup, hcalls, ?_⟩
  intro hmirrors
  obtain ⟨k, call, hcall, -, hforward, hphase⟩ := hmirrors.served _ _ hlookup
  rw [hcalls] at hcall
  rcases List.mem_cons.mp (List.mem_of_getElem? hcall) with rfl | hmem
  · exact hphase rfl
  · obtain rfl := List.mem_singleton.mp hmem
    cases hforward

/-- A running refresh belongs to a call that has not returned. -/
def Refreshing (calls : List ServeCall) : Prop :=
  ∀ (k : Nat) (call : ServeCall), calls[k]? = some call → call.refresh = .running →
    call.phase ≠ .returned

theorem refreshing_set {calls : List ServeCall} (hs : Refreshing calls) {k : Nat}
    {call call' : ServeCall} (hcall : calls[k]? = some call)
    (hcall' : call'.refresh = .running → call'.phase ≠ .returned) :
    Refreshing (calls.set k call') := by
  intro j other hother hrunning
  rcases (getElem?_set_iff hcall).mp hother with ⟨-, rfl⟩ | ⟨-, hold⟩
  · exact hcall' hrunning
  · exact hs j other hold hrunning

theorem refreshing_step (hs : Refreshing s.calls) (hdone : RefreshDone s act)
    (h : s.step act = some s') : Refreshing s'.calls := by
  cases steps_of_step h with
  | announced ns phase =>
      intro k call hcall hrunning
      rcases getElem?_concat_iff.mp hcall with hold | ⟨-, rfl⟩
      · exact hs k call hold hrunning
      · cases hrunning
  | originSet k call hcall => exact refreshing_set hs hcall (by simp)
  | refused k call hcall _ hreturning =>
      exact refreshing_set hs hcall fun h => absurd h (hdone k call hreturning hcall)
  | registered k call hcall => exact refreshing_set hs hcall (by simp)
  | accepted k call hcall => exact refreshing_set hs hcall (by simp)
  | left k call hcall _ hreturning =>
      exact refreshing_set hs hcall fun h => absurd h (hdone k call hreturning hcall)
  | refreshFailed k call hcall => exact refreshing_set hs hcall (by simp)
  | forward k call hcall =>
      unfold announce
      split
      · exact refreshing_set hs hcall (hs k call hcall)
      · exact refreshing_set hs hcall (hs k call hcall)
  | forwarded k a call c hcall => exact refreshing_set hs hcall (hs k call hcall)
  | upstream => exact hs

/-- In every run in which calls return only after their refreshing tasks, no
call is refreshed that has returned, and the relay refreshes only what it
serves. -/
theorem advertised_of_reachable (api forwards : Bool) (s : Consumers)
    (hs : Reachable step RefreshDone (init api forwards) s) :
    Refreshing s.calls ∧ Advertised s := by
  have hinit : Refreshing (init api forwards).calls := by
    intro k call hcall
    simp [init] at hcall
  have hrefreshing : Refreshing s.calls := by
    induction hs with
    | init => exact hinit
    | step _ hdone hstep ih => exact refreshing_step ih hdone hstep
  refine ⟨hrefreshing, ?_⟩
  intro k call hcall hrunning
  exact ⟨k, call, hcall, rfl, hrefreshing k call hcall hrunning⟩

def refreshDone (s : Consumers) (act : ConsumerAct) : Bool :=
  (s.returning act).all fun k => s.calls[k]?.all fun call => call.refresh ≠ .running

theorem refreshDone_of_eq (s : Consumers) (act : ConsumerAct) (h : refreshDone s act = true) :
    RefreshDone s act := by
  intro k call hreturning hcall
  simpa [refreshDone, hreturning, hcall] using h

/-- The refresh of a call fails before the call returns, and another call for
the namespace goes on. -/
theorem advertised_failed :
    ∃ s, run step refreshDone (init true false)
        [.announced ⟨[]⟩, .setOrigin 0 true, .refreshFailed 0, .register 0, .accept 0 true,
          .closed 0, .announced ⟨[]⟩, .setOrigin 1 true, .register 1] = some s ∧
      s.calls = [⟨⟨[]⟩, .returned, .ended, .none⟩, ⟨⟨[]⟩, .accepting, .running, .none⟩] ∧
      Refreshing s.calls ∧ Advertised s := by
  have hrun : ∃ s, run step refreshDone (init true false)
      [.announced ⟨[]⟩, .setOrigin 0 true, .refreshFailed 0, .register 0, .accept 0 true,
        .closed 0, .announced ⟨[]⟩, .setOrigin 1 true, .register 1] = some s ∧
      s.calls = [⟨⟨[]⟩, .returned, .ended, .none⟩, ⟨⟨[]⟩, .accepting, .running, .none⟩] :=
    ⟨_, rfl, rfl⟩
  obtain ⟨s, hs, hcalls⟩ := hrun
  exact ⟨s, hs, hcalls, advertised_of_reachable true false s
    (reachable_of_run refreshDone refreshDone_of_eq hs)⟩

/-- The announcement is closed and the call returns; its refresh runs on. -/
theorem not_advertised_closed :
    ∃ s, Reachable step (fun _ _ => True) (init true false) s ∧
      s.calls = [⟨⟨[]⟩, .returned, .running, .none⟩] ∧ ¬ Advertised s := by
  have hrun : ∃ s, run step (fun _ _ => true) (init true false)
      [.announced ⟨[]⟩, .setOrigin 0 true, .register 0, .accept 0 true, .closed 0] = some s ∧
      s.calls = [⟨⟨[]⟩, .returned, .running, .none⟩] := ⟨_, rfl, rfl⟩
  obtain ⟨s, hs, hcalls⟩ := hrun
  refine ⟨s, reachable_of_run _ (fun _ _ _ => trivial) hs, hcalls, ?_⟩
  intro hadvertised
  obtain ⟨j, other, hother, -, hphase⟩ := hadvertised 0 _ (by rw [hcalls]; rfl) rfl
  rw [hcalls] at hother
  obtain rfl := List.mem_singleton.mp (List.mem_of_getElem? hother)
  exact hphase rfl

end Consumers

end MoqTransport.Relay
