import MoqTransport.Lib.Expiring
import MoqTransport.Lib.Machine

/-!
The registry of origins: an HTTP server that keeps, in redis, the origin of
each namespace. A handler sends its commands to redis one at a time, so the
commands of requests that are handled at the same time interleave. Entries
expire after ten minutes, and a relay that posts its origin again does not
extend the lease of the entry it finds (`kept_iff`).
-/

namespace MoqTransport.Api

open Expiring Machine

structure Origin (Url : Type) where
  url : Url
deriving DecidableEq

/-- What the two ends rely on: the JSON text of an origin, and the namespace
the server's router finds in the URL the client joins for a namespace, if
that can be joined. -/
structure Wire (Url : Type) where
  toText : Origin Url → String
  fromText : String → Option (Origin Url)
  fromText_toText : ∀ o, fromText (toText o) = some o
  join : String → Option String

inductive AppError where
  | redis
  | json
  | notFound
  | duplicate
deriving DecidableEq

def AppError.status : AppError → Nat
  | .redis => 500
  | .json => 500
  | .notFound => 404
  | .duplicate => 409

/-- What a handler answers. -/
inductive Response (Url : Type) where
  | ok
  | origin (origin : Origin Url)
  | error (err : AppError)
deriving DecidableEq

def Response.status {Url : Type} : Response Url → Nat
  | .error err => err.status
  | _ => 200

inductive Request (Url : Type) where
  | get (namespace_ : String)
  | set (namespace_ : String) (origin : Origin Url)
  | delete (namespace_ : String)
  | patch (namespace_ : String) (origin : Origin Url)

/-- A request on the server, by what its handler does next. -/
inductive Handler (Url : Type) where
  | received (request : Request Url)
  /-- `set_origin` has found nothing. -/
  | setting (namespace_ : String) (origin : Origin Url)
  /-- `patch_origin` has found what it expects. -/
  | expiring (namespace_ : String)
  | done (response : Response Url)
  /-- The connection is closed, and the handler with it. -/
  | gone

def Handler.finished {Url : Type} : Handler Url → Bool
  | .done _ => true
  | .gone => true
  | _ => false

def originKey (namespace_ : String) : String := "origin." ++ namespace_

theorem originKey_injective : Function.Injective originKey := by
  intro ns ns' h
  exact (String.append_right_inj "origin.").mp h

section Handlers

variable {Url : Type} (w : Wire Url) (redis : Store String String)

def getOrigin (ns : String) : Response Url :=
  match redis.get (originKey ns) with
  | none => .error .notFound
  | some payload =>
      match w.fromText payload with
      | none => .error .json
      | some origin => .origin origin

/-- `set_origin` up to the answer to `GET`. -/
def setOrigin (ns : String) (origin : Origin Url) : Handler Url :=
  match redis.get (originKey ns) with
  | some current => .done (if current = w.toText origin then .ok else .error .duplicate)
  | none => .setting ns origin

theorem get_of_setOrigin {w : Wire Url} {redis : Store String String} {ns : String}
    {origin : Origin Url} (h : setOrigin w redis ns origin = .done .ok) :
    redis.get (originKey ns) = some (w.toText origin) := by
  unfold setOrigin at h
  split at h
  · next current hcurrent =>
      split at h
      · next heq => rw [hcurrent, heq]
      · cases h
  · cases h

/-- `patch_origin` up to the answer to `GET`. -/
def patchOrigin [DecidableEq Url] (ns : String) (origin : Origin Url) : Handler Url :=
  match redis.get (originKey ns) with
  | none => .done (.error .notFound)
  | some payload =>
      match w.fromText payload with
      | none => .done (.error .json)
      | some expected =>
          if expected ≠ origin then .done (.error .duplicate) else .expiring ns

/-- The handler's next command, and what it does with the answer. -/
def Handler.next [DecidableEq Url] : Handler Url → Option (Store String String × Handler Url)
  | .received (.get ns) => some (redis, .done (getOrigin w redis ns))
  | .received (.set ns origin) => some (redis, Api.setOrigin w redis ns origin)
  | .setting ns origin =>
      let res := redis.setNx (originKey ns) (w.toText origin) 600
      some (res.1, .done (if res.2 then .ok else .error .duplicate))
  | .received (.delete ns) =>
      let res := redis.del (originKey ns)
      some (res.1, .done (if res.2 then .ok else .error .notFound))
  | .received (.patch ns origin) => some (redis, patchOrigin w redis ns origin)
  | .expiring ns =>
      let res := redis.expire (originKey ns) 600
      some (res.1, .done (if res.2 then .ok else .error .notFound))
  | .done _ => none
  | .gone => none

end Handlers

/-- How a command to redis goes: its answer comes, the connection fails after
the command was carried out, or before. -/
inductive Outcome where
  | replied
  | lost
  | failed
deriving DecidableEq

/-- The server: redis, and the requests in the order in which they came. -/
structure Server (Url : Type) where
  redis : Store String String
  requests : List (Handler Url)

inductive ServerAct (Url : Type) where
  | request (request : Request Url)
  | command (k : Nat) (outcome : Outcome)
  | hangUp (k : Nat)
  | tick (seconds : Nat)

namespace Server

variable {Url : Type} [DecidableEq Url] (w : Wire Url)

def receive (s : Server Url) (r : Request Url) : Server Url :=
  { s with requests := s.requests ++ [.received r] }

/-- The handler's command and its answer, as they go. -/
def apply (s : Server Url) (k : Nat) (res : Store String String × Handler Url) :
    Outcome → Server Url
  | .replied => ⟨res.1, s.requests.set k res.2⟩
  | .lost => ⟨res.1, s.requests.set k (.done (.error .redis))⟩
  | .failed => ⟨s.redis, s.requests.set k (.done (.error .redis))⟩

def step (s : Server Url) : ServerAct Url → Option (Server Url)
  | .request r => some (s.receive r)
  | .command k outcome => do
      let handler ← s.requests[k]?
      let res ← handler.next w s.redis
      some (s.apply k res outcome)
  | .hangUp k => do
      let handler ← s.requests[k]?
      if handler.finished then none else some { s with requests := s.requests.set k .gone }
  | .tick seconds => some { s with redis := s.redis.tick seconds }

/-- The step deletes the entry of the namespace. -/
def Deletes (s : Server Url) (act : ServerAct Url) (ns : String) : Prop :=
  ∃ k outcome, act = .command k outcome ∧ outcome ≠ .failed ∧
    s.requests[k]? = some (.received (.delete ns))

variable {w} {s s' : Server Url} {act : ServerAct Url}

theorem eq_of_command {k : Nat} {outcome : Outcome} (h : s.step w (.command k outcome) = some s') :
    ∃ handler res, s.requests[k]? = some handler ∧ handler.next w s.redis = some res ∧
      s' = s.apply k res outcome := by
  obtain ⟨handler, hhandler, h⟩ := Option.bind_eq_some_iff.mp h
  obtain ⟨res, hres, h⟩ := Option.bind_eq_some_iff.mp h
  cases h
  exact ⟨handler, res, hhandler, hres, rfl⟩

theorem eq_of_hangUp {k : Nat} (h : s.step w (.hangUp k) = some s') :
    ∃ handler, s.requests[k]? = some handler ∧ handler.finished = false ∧
      s' = { s with requests := s.requests.set k .gone } := by
  obtain ⟨handler, hhandler, h⟩ := Option.bind_eq_some_iff.mp h
  split at h
  · cases h
  · next hfinished =>
      cases h
      exact ⟨handler, hhandler, by simpa using hfinished, rfl⟩

/-- A request stays as it is until its own handler goes on or goes away. -/
theorem getElem?_step {k : Nat} {handler : Handler Url} (h : s.step w act = some s')
    (hk : s.requests[k]? = some handler) (hcommand : ∀ outcome, act ≠ .command k outcome)
    (hhangUp : act ≠ .hangUp k) : s'.requests[k]? = some handler := by
  cases act with
  | request r =>
      cases h
      rw [receive, List.getElem?_append_left (List.getElem?_eq_some_iff.mp hk).1, hk]
  | command j outcome =>
      obtain ⟨-, res, -, -, rfl⟩ := eq_of_command h
      have hne : j ≠ k := by
        rintro rfl
        exact hcommand outcome rfl
      cases outcome with
      | replied => simpa [apply, hne] using hk
      | lost => simpa [apply, hne] using hk
      | failed => simpa [apply, hne] using hk
  | hangUp j =>
      obtain ⟨-, -, -, rfl⟩ := eq_of_hangUp h
      have hne : j ≠ k := by
        rintro rfl
        exact hhangUp rfl
      simpa [hne] using hk
  | tick d =>
      cases h
      exact hk

/-- What the next command of a handler may be. -/
theorem redis_next {redis : Store String String} {handler : Handler Url}
    {res : Store String String × Handler Url} (h : handler.next w redis = some res) :
    res.1 = redis ∨ (∃ k v, res.1 = (redis.setNx k v 600).1) ∨
      (∃ ns, handler = .received (.delete ns) ∧ res.1 = (redis.del (originKey ns)).1) ∨
      ∃ k, res.1 = (redis.expire k 600).1 := by
  cases handler with
  | received r =>
      cases r with
      | get ns =>
          cases h
          exact .inl rfl
      | set ns origin =>
          cases h
          exact .inl rfl
      | delete ns =>
          cases h
          exact .inr (.inr (.inl ⟨ns, rfl, rfl⟩))
      | patch ns origin =>
          cases h
          exact .inl rfl
  | setting ns origin =>
      cases h
      exact .inr (.inl ⟨_, _, rfl⟩)
  | expiring ns =>
      cases h
      exact .inr (.inr (.inr ⟨_, rfl⟩))
  | done response => cases h
  | gone => cases h

/-- What a step may do to redis. -/
theorem redis_step (h : s.step w act = some s') :
    s'.redis = s.redis ∨ (∃ d, act = .tick d ∧ s'.redis = s.redis.tick d) ∨
      (∃ k v, s'.redis = (s.redis.setNx k v 600).1) ∨
      (∃ ns, Deletes s act ns ∧ s'.redis = (s.redis.del (originKey ns)).1) ∨
      ∃ k, s'.redis = (s.redis.expire k 600).1 := by
  cases act with
  | request r =>
      cases h
      exact .inl rfl
  | command k outcome =>
      obtain ⟨handler, res, hhandler, hres, rfl⟩ := eq_of_command h
      by_cases hfailed : outcome = .failed
      · subst hfailed
        exact .inl rfl
      · have hredis : (s.apply k res outcome).redis = res.1 := by
          cases outcome with
          | replied => rfl
          | lost => rfl
          | failed => exact absurd rfl hfailed
        rw [hredis]
        rcases redis_next hres with hsame | hset | ⟨ns, rfl, hdel⟩ | hexpire
        · exact .inl hsame
        · exact .inr (.inr (.inl hset))
        · exact .inr (.inr (.inr (.inl ⟨ns, ⟨k, outcome, rfl, hfailed, hhandler⟩, hdel⟩)))
        · exact .inr (.inr (.inr (.inr hexpire)))
  | hangUp k =>
      obtain ⟨handler, -, -, rfl⟩ := eq_of_hangUp h
      exact .inl rfl
  | tick d =>
      cases h
      exact .inr (.inl ⟨d, rfl, rfl⟩)

theorem now_le_step (h : s.step w act = some s') : s.redis.now ≤ s'.redis.now := by
  rcases redis_step h with hr | ⟨d, -, hr⟩ | ⟨k, v, hr⟩ | ⟨ns, -, hr⟩ | ⟨k, hr⟩
  all_goals simp [hr]

/-- A lease of at most ten minutes ends early only by a deletion. -/
theorem leased_step {ns v : String} {stop : Nat} (hs : s.redis.Leased (originKey ns) v stop)
    (hstop : stop ≤ s.redis.now + 600) (hdel : ¬ Deletes s act ns) (h : s.step w act = some s') :
    s'.redis.Leased (originKey ns) v stop := by
  rcases redis_step h with hr | ⟨d, -, hr⟩ | ⟨k, v', hr⟩ | ⟨ns', hdel', hr⟩ | ⟨k, hr⟩
  · rwa [hr]
  · rw [hr]
    exact hs.tick
  · rw [hr]
    exact hs.setNx
  · rw [hr]
    apply hs.del
    intro hkey
    obtain rfl := originKey_injective hkey
    exact hdel hdel'
  · rw [hr]
    exact hs.expire hstop

theorem leased_reachable {ns v : String} {stop : Nat} (hs : s.redis.Leased (originKey ns) v stop)
    (hstop : stop ≤ s.redis.now + 600)
    (hreach : Reachable (step w) (fun s act => ¬ Deletes s act ns) s s') :
    s'.redis.Leased (originKey ns) v stop := by
  have hinv : s'.redis.Leased (originKey ns) v stop ∧ stop ≤ s'.redis.now + 600 := by
    apply hreach.invariant ⟨hs, hstop⟩
    rintro s s' act ⟨hleased, hle⟩ hdel hstep
    have hnow := now_le_step hstep
    exact ⟨leased_step hleased hle hdel hstep, by omega⟩
  exact hinv.1

/-- Until it is deleted, `get_origin` returns the origin for ten minutes. -/
def Kept (w : Wire Url) (s : Server Url) (ns : String) (origin : Origin Url) : Prop :=
  ∀ s', Reachable (step w) (fun s act => ¬ Deletes s act ns) s s' →
    s'.redis.now < s.redis.now + 600 → getOrigin w s'.redis ns = .origin origin

theorem kept_of_leased {ns : String} {origin : Origin Url}
    (h : s.redis.Leased (originKey ns) (w.toText origin) (s.redis.now + 600)) :
    Kept w s ns origin := by
  intro s' hreach hnow
  have hget := (leased_reachable h (Nat.le_refl _) hreach).get hnow
  simp [getOrigin, hget, w.fromText_toText]

/-- Nobody has to do anything for an entry to expire. -/
theorem not_kept_of_lt {ns v : String} {d : Nat} {origin : Origin Url}
    (he : s.redis.entry (originKey ns) = some (v, d)) (hd : d < s.redis.now + 600) :
    ¬ Kept w s ns origin := by
  intro hkept
  have hlt := Store.lt_of_entry he
  have hreach : Reachable (step w) (fun s act => ¬ Deletes s act ns) s
      { s with redis := s.redis.tick (d - s.redis.now) } := by
    apply Reachable.step (a := .tick (d - s.redis.now)) .init _ rfl
    rintro ⟨k, outcome, hact, -⟩
    cases hact
  have hget : (s.redis.tick (d - s.redis.now)).get (originKey ns) = none := by
    rw [Store.get_eq_none_iff, Option.eq_none_iff_forall_ne_some]
    intro e he'
    obtain ⟨he', hlt'⟩ := Store.entry_tick.mp he'
    obtain rfl : (v, d) = e := Option.some.inj (he.symm.trans he')
    omega
  have hgot := hkept _ hreach (by simp only [Store.now_tick]; omega)
  simp [getOrigin, hget] at hgot

/-- A `set_origin` that answers Ok keeps the origin registered for the next
ten minutes exactly if it found no entry, or one that has them left. An entry
it finds is not touched. -/
theorem kept_iff (s s' : Server Url) (k : Nat) (ns : String) (origin : Origin Url)
    (handler : Handler Url) (hhandler : s.requests[k]? = some handler)
    (hset : handler = .received (.set ns origin) ∨ handler = .setting ns origin)
    (hstep : s.step w (.command k .replied) = some s')
    (hok : s'.requests[k]? = some (.done .ok)) :
    Kept w s' ns origin ↔
      ∀ e, s.redis.entry (originKey ns) = some e → s.redis.now + 600 ≤ e.2 := by
  obtain ⟨handler', res, hhandler', hres, rfl⟩ := eq_of_command hstep
  obtain rfl : handler = handler' := Option.some.inj (hhandler.symm.trans hhandler')
  have hdone : res.2 = .done .ok := by
    simpa [apply, (List.getElem?_eq_some_iff.mp hhandler).1] using hok
  rcases hset with rfl | rfl
  · cases hres
    obtain ⟨d, he⟩ := Store.get_eq_some_iff.mp (get_of_setOrigin hdone)
    constructor
    · intro hkept e he'
      obtain rfl : (w.toText origin, d) = e := Option.some.inj (he.symm.trans he')
      by_contra hlt
      exact not_kept_of_lt (s := s.apply k (s.redis, _) .replied) he (Nat.lt_of_not_le hlt) hkept
    · intro hlong
      exact kept_of_leased fun _ => ⟨d, hlong _ he, he⟩
  · cases hres
    have hnone : s.redis.entry (originKey ns) = none := by
      by_contra hsome
      simp [Store.snd_setNx, Option.isNone_iff_eq_none, hsome] at hdone
    constructor
    · intro _ e he
      simp [hnone] at he
    · intro _
      apply kept_of_leased
      intro _
      refine ⟨s.redis.now + 600, ?_, Store.entry_setNx_of_none hnone (by omega)⟩
      simp [apply]

/-- A server with nothing in redis and no requests. -/
def init : Server Url := ⟨⟨0, ∅⟩, []⟩

end Server

/-! Origins whose URLs have nothing to escape, in JSON. -/

def quoted (url : String) : String := "\x7b\"url\":\"" ++ url ++ "\"\x7d"

def unquoted (text : String) : String :=
  String.ofList ((text.toList.drop 8).take (text.length - 10))

theorem unquoted_quoted (url : String) : unquoted (quoted url) = url := by
  have hlength : (quoted url).length - 10 = url.toList.length := by
    have hopen : "\x7b\"url\":\"".length = 8 := rfl
    have hclose : "\"\x7d".length = 2 := rfl
    simp only [quoted, String.length_append, hopen, hclose, String.length_toList]
    omega
  rw [unquoted, hlength]
  simp [quoted, String.toList_append]

def plainWire : Wire String where
  toText o := quoted o.url
  fromText text := if quoted (unquoted text) = text then some ⟨unquoted text⟩ else none
  fromText_toText o := by simp [unquoted_quoted]
  join := some

namespace Server

/-- The first `set_origin` of a relay. -/
theorem kept_first :
    ∃ s s', run (step plainWire) (fun _ _ => true) init
        [.request (.set "/live" ⟨"https://a"⟩), .command 0 .replied] = some s ∧
      s.step plainWire (.command 0 .replied) = some s' ∧
      Kept plainWire s' "/live" ⟨"https://a"⟩ := by
  have hrun : ∃ s s', run (step plainWire) (fun _ _ => true) init
      [.request (.set "/live" ⟨"https://a"⟩), .command 0 .replied] = some s ∧
      s.requests[0]? = some (.setting "/live" ⟨"https://a"⟩) ∧
      s.redis.entry (originKey "/live") = none ∧
      s.step plainWire (.command 0 .replied) = some s' ∧
      s'.requests[0]? = some (.done .ok) := ⟨_, _, rfl, rfl, rfl, rfl, rfl⟩
  obtain ⟨s, s', hs, hhandler, hnone, hstep, hok⟩ := hrun
  refine ⟨s, s', hs, hstep, ?_⟩
  apply (kept_iff s s' 0 "/live" ⟨"https://a"⟩ _ hhandler (.inr rfl) hstep hok).mpr
  intro e he
  rw [hnone] at he
  cases he

/-- A relay sets its origin, and sets it again after five minutes. Five
minutes later it is not registered. -/
theorem not_kept_again :
    ∃ s s', run (step plainWire) (fun _ _ => true) init
        [.request (.set "/live" ⟨"https://a"⟩), .command 0 .replied, .command 0 .replied,
          .tick 300, .request (.set "/live" ⟨"https://a"⟩)] = some s ∧
      s.step plainWire (.command 1 .replied) = some s' ∧
      s'.requests[1]? = some (.done .ok) ∧ s'.redis.now = 300 ∧
      getOrigin plainWire (s'.redis.tick 300) "/live" = .error .notFound ∧
      ¬ Kept plainWire s' "/live" ⟨"https://a"⟩ := by
  have hrun : ∃ s s', run (step plainWire) (fun _ _ => true) init
      [.request (.set "/live" ⟨"https://a"⟩), .command 0 .replied, .command 0 .replied,
        .tick 300, .request (.set "/live" ⟨"https://a"⟩)] = some s ∧
      s.step plainWire (.command 1 .replied) = some s' ∧
      s'.requests[1]? = some (.done .ok) ∧ s'.redis.now = 300 ∧
      s'.redis.entry (originKey "/live") = some (quoted "https://a", 600) ∧
      getOrigin plainWire (s'.redis.tick 300) "/live" = .error .notFound :=
    ⟨_, _, rfl, rfl, rfl, rfl, by decide, rfl⟩
  obtain ⟨s, s', hs, hstep, hok, hnow, he, hget⟩ := hrun
  refine ⟨s, s', hs, hstep, hok, hnow, hget, ?_⟩
  exact not_kept_of_lt he (by omega)

end Server

end MoqTransport.Api
