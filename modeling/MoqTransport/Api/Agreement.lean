import MoqTransport.Api.Origins

/-!
What concurrent `set_origin` requests agree on. The check and the write are two
commands, so any number of requests may find a namespace free before one of
them sets it. Redis lets one of them through, and the others find out when they
try.
-/

namespace MoqTransport.Api

open Expiring Machine

variable {Url : Type}

def ServerAct.request? : ServerAct Url → Option (Request Url)
  | .request r => some r
  | _ => none

namespace Server

/-- The step lets the entry of the namespace run out. -/
def Expires (s : Server Url) (act : ServerAct Url) (ns : String) : Prop :=
  ∃ d v, act = .tick d ∧ s.redis.get (originKey ns) = some v ∧
    (s.redis.tick d).get (originKey ns) = none

/-- The step neither deletes the entry of the namespace nor lets it run out. -/
def Undisturbed (ns : String) (s : Server Url) (act : ServerAct Url) : Prop :=
  ¬ Deletes s act ns ∧ ¬ Expires s act ns

/-- The request of the given index came in the run from the state. -/
def Carries (s : Server Url) (as : List (ServerAct Url)) (k : Nat) (r : Request Url) : Prop :=
  ∃ i, k = s.requests.length + i ∧ (as.filterMap ServerAct.request?)[i]? = some r

/-- Every command of the request was answered. -/
def Replied (as : List (ServerAct Url)) (k : Nat) : Prop :=
  ∀ outcome, .command k outcome ∈ as → outcome = .replied

/-- How far a `set_origin` request may be, and what it has found if it is
through. -/
inductive SetsOrigin (w : Wire Url) (redis : Store String String) (ns : String)
    (origin : Origin Url) : Handler Url → Prop where
  | received : SetsOrigin w redis ns origin (.received (.set ns origin))
  | setting : SetsOrigin w redis ns origin (.setting ns origin)
  | ok (h : redis.get (originKey ns) = some (w.toText origin)) :
      SetsOrigin w redis ns origin (.done .ok)
  | duplicate {v : String} (h : redis.get (originKey ns) = some v) :
      SetsOrigin w redis ns origin (.done (.error .duplicate))
  | redis : SetsOrigin w redis ns origin (.done (.error .redis))
  | gone : SetsOrigin w redis ns origin .gone

theorem SetsOrigin.mono {w : Wire Url} {redis redis' : Store String String} {ns : String}
    {origin : Origin Url} {handler : Handler Url} (h : SetsOrigin w redis ns origin handler)
    (hkept : ∀ v, redis.get (originKey ns) = some v → redis'.get (originKey ns) = some v) :
    SetsOrigin w redis' ns origin handler := by
  cases h with
  | received => exact .received
  | setting => exact .setting
  | ok hget => exact .ok (hkept _ hget)
  | duplicate hget => exact .duplicate (hkept _ hget)
  | redis => exact .redis
  | gone => exact .gone

variable [DecidableEq Url] {w : Wire Url} {s s' : Server Url} {act : ServerAct Url}
  {as : List (ServerAct Url)} {ns : String} {origin : Origin Url} {handler : Handler Url} {k : Nat}

/-- The value of a namespace does not change once it is set. -/
theorem get_step {v : String} (hact : Undisturbed ns s act) (h : s.step w act = some s')
    (hv : s.redis.get (originKey ns) = some v) : s'.redis.get (originKey ns) = some v := by
  rcases redis_step h with hr | ⟨d, rfl, hr⟩ | ⟨j, v', hr⟩ | ⟨ns', hdel, hr⟩ | ⟨j, hr⟩
  · rwa [hr]
  · rw [hr]
    have hsome : (s.redis.tick d).get (originKey ns) ≠ none := by
      intro hnone
      exact hact.2 ⟨d, v, rfl, hv, hnone⟩
    obtain ⟨v', hv'⟩ := Option.ne_none_iff_exists'.mp hsome
    rw [hv', ← hv, Store.get_of_tick hv']
  · rw [hr]
    exact Store.get_setNx_of_some hv
  · rw [hr, Store.get_del_of_ne, hv]
    intro hkey
    obtain rfl := originKey_injective hkey
    exact hact.1 hdel
  · rw [hr]
    exact Store.get_expire_of_some (by omega) hv

/-- A command and its answer take a request on. -/
theorem SetsOrigin.next {redis : Store String String} {res : Store String String × Handler Url}
    (h : SetsOrigin w redis ns origin handler) (hres : handler.next w redis = some res) :
    SetsOrigin w res.1 ns origin res.2 := by
  cases h with
  | received =>
      cases hres
      cases hget : redis.get (originKey ns) with
      | none =>
          simp only [setOrigin, hget]
          exact .setting
      | some current =>
          simp only [setOrigin, hget]
          split
          · next heq => exact .ok (by rw [hget, heq])
          · exact .duplicate hget
  | setting =>
      cases hres
      cases hnew : (redis.setNx (originKey ns) (w.toText origin) 600).2 with
      | true =>
          simp only [if_true]
          exact .ok (Store.get_setNx_self (by omega) hnew)
      | false =>
          obtain ⟨v, hv⟩ := Store.get_of_setNx hnew
          simp only [Bool.false_eq_true, if_false]
          exact .duplicate (Store.get_setNx_of_some hv)
  | ok _ => cases hres
  | duplicate _ => cases hres
  | redis => cases hres
  | gone => cases hres

theorem sets_step (hk : s.requests[k]? = some handler)
    (hsets : SetsOrigin w s.redis ns origin handler) (hact : Undisturbed ns s act)
    (h : s.step w act = some s') :
    ∃ handler', s'.requests[k]? = some handler' ∧ SetsOrigin w s'.redis ns origin handler' := by
  have hkept := fun v => get_step (v := v) hact h
  have hlt := (List.getElem?_eq_some_iff.mp hk).1
  by_cases hcommand : ∃ outcome, act = .command k outcome
  · obtain ⟨outcome, rfl⟩ := hcommand
    obtain ⟨handler', res, hhandler, hres, rfl⟩ := eq_of_command h
    obtain rfl : handler = handler' := Option.some.inj (hk.symm.trans hhandler)
    cases outcome with
    | replied => exact ⟨res.2, by simp [apply, hlt], hsets.next hres⟩
    | lost => exact ⟨_, by simp only [apply, List.getElem?_set_self hlt], .redis⟩
    | failed => exact ⟨_, by simp only [apply, List.getElem?_set_self hlt], .redis⟩
  · by_cases hhangUp : act = .hangUp k
    · subst hhangUp
      obtain ⟨-, -, -, rfl⟩ := eq_of_hangUp h
      exact ⟨.gone, by simp [hlt], .gone⟩
    · have hstays := getElem?_step h hk (fun outcome he => hcommand ⟨outcome, he⟩) hhangUp
      exact ⟨handler, hstays, hsets.mono hkept⟩

theorem get_run {v : String} (hrun : Run (step w) (Undisturbed ns) s as s')
    (hv : s.redis.get (originKey ns) = some v) : s'.redis.get (originKey ns) = some v := by
  induction hrun with
  | nil => exact hv
  | cons hact hstep _ ih => exact ih (get_step hact hstep hv)

theorem sets_run (hrun : Run (step w) (Undisturbed ns) s as s') (hk : s.requests[k]? = some handler)
    (hsets : SetsOrigin w s.redis ns origin handler) :
    ∃ handler', s'.requests[k]? = some handler' ∧ SetsOrigin w s'.redis ns origin handler' := by
  induction hrun generalizing handler with
  | nil => exact ⟨handler, hk, hsets⟩
  | cons hact hstep _ ih =>
      obtain ⟨mid, hmid, hsets⟩ := sets_step hk hsets hact hstep
      exact ih hmid hsets

theorem length_step (h : s.step w act = some s') :
    s'.requests.length = s.requests.length + (act.request?.toList).length := by
  cases act with
  | request r =>
      cases h
      simp [receive, ServerAct.request?]
  | command j outcome =>
      obtain ⟨-, res, -, -, rfl⟩ := eq_of_command h
      cases outcome <;> simp [apply, ServerAct.request?]
  | hangUp j =>
      obtain ⟨-, -, -, rfl⟩ := eq_of_hangUp h
      simp [ServerAct.request?]
  | tick d =>
      cases h
      rfl

/-- Where a `set_origin` request is that came in the run. -/
theorem sets_of_carries (hrun : Run (step w) (Undisturbed ns) s as s')
    (hcarries : Carries s as k (.set ns origin)) :
    ∃ handler, s'.requests[k]? = some handler ∧ SetsOrigin w s'.redis ns origin handler := by
  obtain ⟨i, rfl, hi⟩ := hcarries
  induction hrun generalizing i with
  | nil => cases hi
  | @cons s mid s' act as hact hstep hrest ih =>
      have hlength := length_step hstep
      cases hrequest : act.request? with
      | none =>
          rw [List.filterMap_cons_none hrequest] at hi
          have hsame : mid.requests.length = s.requests.length := by simpa [hrequest] using hlength
          rw [← hsame]
          exact ih i hi
      | some r =>
          rw [List.filterMap_cons_some hrequest] at hi
          have hmore : mid.requests.length = s.requests.length + 1 := by
            simpa [hrequest] using hlength
          cases i with
          | zero =>
              obtain rfl : r = .set ns origin := by simpa using hi
              have hmid : mid.requests[s.requests.length]? = some (.received (.set ns origin)) := by
                cases act with
                | request r' =>
                    cases hrequest
                    cases hstep
                    simp [receive]
                | command j outcome => cases hrequest
                | hangUp j => cases hrequest
                | tick d => cases hrequest
              exact sets_run hrest hmid .received
          | succ i =>
              have hindex : s.requests.length + (i + 1) = mid.requests.length + i := by omega
              rw [hindex]
              exact ih i (by simpa using hi)

omit [DecidableEq Url] in
theorem setOrigin_ne_redis {redis : Store String String} :
    Api.setOrigin w redis ns origin ≠ .done (.error .redis) := by
  unfold Api.setOrigin
  split
  · split <;> simp
  · simp

/-- A handler whose commands are answered does not report an error of redis. -/
theorem next_ne_redis {redis : Store String String} {res : Store String String × Handler Url}
    (hres : handler.next w redis = some res) : res.2 ≠ .done (.error .redis) := by
  cases handler with
  | received r =>
      cases r with
      | get ns =>
          cases hres
          simp only [getOrigin]
          split
          · simp
          · split <;> simp
      | set ns origin =>
          cases hres
          exact setOrigin_ne_redis
      | delete ns =>
          cases hres
          split <;> simp
      | patch ns origin =>
          cases hres
          simp only [patchOrigin]
          split
          · simp
          · split
            · simp
            · split <;> simp
  | setting ns origin =>
      cases hres
      split <;> simp
  | expiring ns =>
      cases hres
      split <;> simp
  | done response => cases hres
  | gone => cases hres

theorem redis_error_step (h : s.step w act = some s')
    (hk : s'.requests[k]? = some (.done (.error .redis))) :
    s.requests[k]? = some (.done (.error .redis)) ∨
      ∃ outcome, outcome ≠ .replied ∧ act = .command k outcome := by
  cases act with
  | request r =>
      cases h
      rcases getElem?_concat_iff.mp hk with hk | ⟨-, hreceived⟩
      · exact .inl hk
      · cases hreceived
  | command j outcome =>
      obtain ⟨handler, res, hhandler, hres, rfl⟩ := eq_of_command h
      cases outcome with
      | replied =>
          rcases (getElem?_set_iff hhandler).mp hk with ⟨-, hdone⟩ | ⟨-, hk⟩
          · exact absurd hdone (next_ne_redis hres)
          · exact .inl hk
      | lost =>
          rcases (getElem?_set_iff hhandler).mp hk with ⟨rfl, -⟩ | ⟨-, hk⟩
          · exact .inr ⟨.lost, by simp, rfl⟩
          · exact .inl hk
      | failed =>
          rcases (getElem?_set_iff hhandler).mp hk with ⟨rfl, -⟩ | ⟨-, hk⟩
          · exact .inr ⟨.failed, by simp, rfl⟩
          · exact .inl hk
  | hangUp j =>
      obtain ⟨handler, hhandler, -, rfl⟩ := eq_of_hangUp h
      rcases (getElem?_set_iff hhandler).mp hk with ⟨-, hgone⟩ | ⟨-, hk⟩
      · cases hgone
      · exact .inl hk
  | tick d =>
      cases h
      exact .inl hk

theorem not_replied_of_redis_error {allowed : Server Url → ServerAct Url → Prop}
    (hrun : Run (step w) allowed s as s') (hk : s'.requests[k]? = some (.done (.error .redis)))
    (hs : s.requests[k]? ≠ some (.done (.error .redis))) : ¬ Replied as k := by
  induction hrun with
  | nil => exact absurd hk hs
  | @cons s mid s' act as _ hstep _ ih =>
      intro hreplied
      by_cases hmid : mid.requests[k]? = some (.done (.error .redis))
      · rcases redis_error_step hstep hmid with hsame | ⟨outcome, hne, rfl⟩
        · exact hs hsame
        · exact hne (hreplied outcome (List.mem_cons_self ..))
      · exact ih hk hmid fun outcome hmem => hreplied outcome (List.mem_cons_of_mem _ hmem)

/-- A request that carries another origin than the stored one is one command
away from its answer, if it has not got it. -/
theorem SetsOrigin.duplicate_of_ne {redis : Store String String} {v : String}
    (h : SetsOrigin w redis ns origin handler) (hv : redis.get (originKey ns) = some v)
    (hne : v ≠ w.toText origin) (hfinished : handler.finished = false) :
    handler.next w redis = some (redis, .done (.error .duplicate)) := by
  cases h with
  | received => simp [Handler.next, setOrigin, hv, hne]
  | setting => simp [Handler.next, Store.setNx_of_get hv]
  | ok _ => cases hfinished
  | duplicate _ => cases hfinished
  | redis => cases hfinished
  | gone => cases hfinished

/-- While nothing deletes the entry of a namespace or lets it run out, the
`set_origin` requests for it agree: those that return Ok carried the origin
that is stored, and the others return Duplicate. -/
theorem set_origin_agrees (w : Wire Url) (ns : String) (s s' : Server Url)
    (as : List (ServerAct Url)) (hrun : Run (step w) (Undisturbed ns) s as s') :
    (∀ v, s.redis.get (originKey ns) = some v → s'.redis.get (originKey ns) = some v) ∧
    (∀ k origin, Carries s as k (.set ns origin) → s'.requests[k]? = some (.done .ok) →
      s'.redis.get (originKey ns) = some (w.toText origin)) ∧
    (∀ j k origin other, Carries s as j (.set ns origin) → Carries s as k (.set ns other) →
      s'.requests[j]? = some (.done .ok) → s'.requests[k]? = some (.done .ok) →
      origin = other) ∧
    (∀ k origin response, Carries s as k (.set ns origin) → Replied as k →
      s'.requests[k]? = some (.done response) →
      s'.redis.get (originKey ns) ≠ some (w.toText origin) →
      response = .error .duplicate) ∧
    ∀ k origin handler v, Carries s as k (.set ns origin) → s'.requests[k]? = some handler →
      handler.finished = false → s'.redis.get (originKey ns) = some v → v ≠ w.toText origin →
      handler.next w s'.redis = some (s'.redis, .done (.error .duplicate)) := by
  have hok : ∀ k origin, Carries s as k (.set ns origin) → s'.requests[k]? = some (.done .ok) →
      s'.redis.get (originKey ns) = some (w.toText origin) := by
    intro k origin hcarries hk
    obtain ⟨handler, hhandler, hsets⟩ := sets_of_carries hrun hcarries
    obtain rfl : handler = .done .ok := Option.some.inj (hhandler.symm.trans hk)
    cases hsets with
    | ok hget => exact hget
  refine ⟨fun v => get_run hrun, hok, ?_, ?_, ?_⟩
  · intro j k origin other hj hk hjok hkok
    have htext := Option.some.inj ((hok j origin hj hjok).symm.trans (hok k other hk hkok))
    have horigin : some origin = some other := by
      rw [← w.fromText_toText, ← w.fromText_toText other, htext]
    exact Option.some.inj horigin
  · intro k origin response hcarries hreplied hk hne
    obtain ⟨handler, hhandler, hsets⟩ := sets_of_carries hrun hcarries
    obtain rfl : handler = .done response := Option.some.inj (hhandler.symm.trans hk)
    cases hsets with
    | ok hget => exact absurd hget hne
    | duplicate _ => rfl
    | redis =>
        obtain ⟨i, rfl, -⟩ := hcarries
        exact absurd hreplied (not_replied_of_redis_error hrun hk (by simp))
  · intro k origin handler v hcarries hk hfinished hv hne
    obtain ⟨handler', hhandler, hsets⟩ := sets_of_carries hrun hcarries
    obtain rfl : handler' = handler := Option.some.inj (hhandler.symm.trans hk)
    exact hsets.duplicate_of_ne hv hne hfinished

omit [DecidableEq Url] in
theorem undisturbed_request {r : Request Url} : Undisturbed ns s (.request r) := by
  constructor
  · rintro ⟨j, outcome, hact, -⟩
    cases hact
  · rintro ⟨d, v, hact, -⟩
    cases hact

omit [DecidableEq Url] in
theorem undisturbed_command {outcome : Outcome} (handler : Handler Url)
    (hk : s.requests[k]? = some handler) (hdelete : handler ≠ .received (.delete ns)) :
    Undisturbed ns s (.command k outcome) := by
  constructor
  · rintro ⟨j, outcome, hact, -, hj⟩
    cases hact
    exact hdelete (Option.some.inj (hk.symm.trans hj))
  · rintro ⟨d, v, hact, -⟩
    cases hact

/-- Two relays find the namespace free, and the second is the first to set it. -/
theorem set_origin_agrees_two :
    ∃ s as, Run (step plainWire) (Undisturbed "/live") init as s ∧
      s.requests = [.done (.error .duplicate), .done .ok] ∧
      s.redis.get (originKey "/live") = some (quoted "https://b") := by
  have hrun : ∃ s, Run (step plainWire) (Undisturbed "/live") init
      [.request (.set "/live" ⟨"https://a"⟩), .request (.set "/live" ⟨"https://b"⟩),
        .command 0 .replied, .command 1 .replied, .command 1 .replied, .command 0 .replied] s ∧
      s.requests = [.done (.error .duplicate), .done .ok] :=
    ⟨_, .cons undisturbed_request rfl <| .cons undisturbed_request rfl <|
      .cons (undisturbed_command (.received (.set "/live" ⟨"https://a"⟩)) rfl (by simp)) rfl <|
      .cons (undisturbed_command (.received (.set "/live" ⟨"https://b"⟩)) rfl (by simp)) rfl <|
      .cons (undisturbed_command (.setting "/live" ⟨"https://b"⟩) rfl (by simp)) rfl <|
      .cons (undisturbed_command (.setting "/live" ⟨"https://a"⟩) rfl (by simp)) rfl .nil, rfl⟩
  obtain ⟨s, hrun, hrequests⟩ := hrun
  refine ⟨s, _, hrun, hrequests, ?_⟩
  apply (set_origin_agrees plainWire "/live" init s _ hrun).2.1 1 ⟨"https://b"⟩ ⟨1, rfl, rfl⟩
  rw [hrequests]
  rfl

end Server

end MoqTransport.Api
