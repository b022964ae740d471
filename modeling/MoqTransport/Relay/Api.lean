import MoqTransport.Api.Origins

/-!
A relay's call of `Api::set_origin`, on a server that other relays use at the
same time. The call makes a `Refresh` and posts the origin. If that fails the
`Refresh` is dropped, and its destructor deletes the origin of the namespace,
whoever set it: a call that fails leaves the registry as it was only where
there was nothing (`unchanged_iff`).
-/

namespace MoqTransport.Relay

open Expiring Machine Api

/-- Where the call is. Its requests are given by their places on the server. -/
inductive SetOriginPhase where
  /-- The URL cannot be joined, and nothing is sent. -/
  | refused
  | waiting (post : Nat)
  | registered
  /-- The `Refresh` is dropped, and its task is spawned. -/
  | failed (post : Nat)
  | deleting (post delete : Nat)
deriving DecidableEq

structure SetOrigin (Url : Type) where
  server : Server Url
  namespace_ : String
  phase : SetOriginPhase

inductive SetOriginAct (Url : Type) where
  | server (act : ServerAct Url)
  | answered
  /-- The POST fails without an answer. -/
  | unreachable
  /-- The destructor's task sends the DELETE. -/
  | delete

/-- `Response::error_for_status` of the HTTP client. -/
def errorForStatus {Url : Type} (response : Response Url) : Bool :=
  400 ≤ response.status && response.status < 600

namespace SetOrigin

variable {Url : Type} [DecidableEq Url] (w : Wire Url)

/-- `Api::set_origin` up to the POST. -/
def start (server : Server Url) (origin : Origin Url) (ns : String) : SetOrigin Url :=
  match w.join ns with
  | none => ⟨server, ns, .refused⟩
  | some path => ⟨server.receive (.set path origin), ns, .waiting server.requests.length⟩

def step (s : SetOrigin Url) : SetOriginAct Url → Option (SetOrigin Url)
  | .server act => (s.server.step w act).map fun server => { s with server }
  | .answered =>
      match s.phase with
      | .waiting post =>
          match s.server.requests[post]? with
          | some (.done response) =>
              let phase := if errorForStatus response then .failed post else .registered
              some { s with phase }
          | _ => none
      | _ => none
  | .unreachable =>
      match s.phase with
      | .waiting post => some { s with phase := .failed post }
      | _ => none
  | .delete =>
      match s.phase with
      | .failed post => (w.join s.namespace_).map fun path =>
          { s with
            server := s.server.receive (.delete path)
            phase := .deleting post s.server.requests.length }
      | _ => none

/-- The request is not being handled any more. -/
def processed (s : SetOrigin Url) (k : Nat) : Bool :=
  s.server.requests[k]?.any Handler.finished

/-- The call has failed, and all its requests have been processed. -/
def settled (s : SetOrigin Url) : Bool :=
  match s.phase with
  | .refused => true
  | .deleting post delete => s.processed post && s.processed delete
  | _ => false

/-- The DELETE is carried out, and not before the POST has been processed. -/
def inOrder (s : SetOrigin Url) (act : SetOriginAct Url) : Bool :=
  match s.phase, act with
  | .deleting post delete, .server (.command k outcome) =>
      k ≠ delete || outcome ≠ .failed && s.processed post
  | .deleting _ delete, .server (.hangUp k) => k ≠ delete
  | _, _ => true

/-- What is stored for the namespace. -/
def stored (server : Server Url) (ns : String) : Option String :=
  (w.join ns).bind fun path => server.redis.get (originKey path)

/-- The POST, once it is sent. -/
def post? (s : SetOrigin Url) : Option Nat :=
  match s.phase with
  | .waiting post => some post
  | .failed post => some post
  | .deleting post _ => some post
  | _ => none

/-- Only the POST may touch the namespace: other relays and the time leave it
alone, and the DELETE is not carried out, say because redis fails it. -/
def Spared (s : SetOrigin Url) (act : SetOriginAct Url) : Prop :=
  ∀ serverAct server, act = .server serverAct → s.server.step w serverAct = some server →
    (∃ post outcome, s.post? = some post ∧ serverAct = .command post outcome) ∨
      stored w server s.namespace_ = stored w s.server s.namespace_

variable {w} {s s' : SetOrigin Url} {act : SetOriginAct Url} {ns : String}

/-- Until the call has settled its DELETE is still to be carried out; then
nothing is stored. -/
structure Deleting (w : Wire Url) (ns : String) (s : SetOrigin Url) : Prop where
  namespace_ : s.namespace_ = ns
  refused : s.phase = .refused → w.join ns = none
  deleting : ∀ post delete, s.phase = .deleting post delete → ∃ path, w.join ns = some path ∧
    (s.server.requests[delete]? = some (.received (.delete path)) ∨
      s.settled ∧ s.server.redis.get (originKey path) = none)

omit [DecidableEq Url] in
theorem deleting_start (server : Server Url) (origin : Origin Url) :
    Deleting w ns (start w server origin ns) := by
  unfold start
  cases hjoin : w.join ns with
  | none => exact ⟨rfl, fun _ => hjoin, by simp⟩
  | some path => exact ⟨rfl, by simp, by simp⟩

/-- The server carries out the DELETE. -/
theorem deleted_command {post delete : Nat} {path : String} {outcome : Outcome}
    {server : Server Url} (hphase : s.phase = .deleting post delete)
    (hdelete : s.server.requests[delete]? = some (.received (.delete path)))
    (hfailed : outcome ≠ .failed) (hpost : s.processed post)
    (h : s.server.step w (.command delete outcome) = some server) :
    ({ s with server } : SetOrigin Url).settled ∧ server.redis.get (originKey path) = none := by
  obtain ⟨handler, res, hhandler, hres, rfl⟩ := Server.eq_of_command h
  obtain rfl : .received (.delete path) = handler := Option.some.inj (hdelete.symm.trans hhandler)
  have hne : delete ≠ post := by
    rintro rfl
    simp [processed, hdelete, Handler.finished] at hpost
  have hlt := (List.getElem?_eq_some_iff.mp hdelete).1
  cases hres
  cases outcome with
  | failed => exact absurd rfl hfailed
  | replied =>
      constructor
      · simpa [settled, hphase, processed, Server.apply, hne, hlt, Handler.finished] using hpost
      · simp [Server.apply, Store.get_eq_none_iff]
  | lost =>
      constructor
      · simpa [settled, hphase, processed, Server.apply, hne, hlt, Handler.finished] using hpost
      · simp [Server.apply, Store.get_eq_none_iff]

theorem deleting_server {post delete : Nat} {path : String} {act : ServerAct Url}
    {server : Server Url} (hphase : s.phase = .deleting post delete)
    (hdelete : s.server.requests[delete]? = some (.received (.delete path)))
    (horder : s.inOrder (.server act)) (h : s.server.step w act = some server) :
    server.requests[delete]? = some (.received (.delete path)) ∨
      ({ s with server } : SetOrigin Url).settled ∧
        server.redis.get (originKey path) = none := by
  by_cases hcommand : ∃ outcome, act = .command delete outcome
  · obtain ⟨outcome, rfl⟩ := hcommand
    have hcarried : outcome ≠ .failed ∧ s.processed post := by
      simpa [inOrder, hphase] using horder
    exact .inr (deleted_command hphase hdelete hcarried.1 hcarried.2 h)
  · left
    apply Server.getElem?_step h hdelete
    · intro outcome hact
      exact hcommand ⟨outcome, hact⟩
    · rintro rfl
      simp [inOrder, hphase] at horder

theorem deleting_step (hs : Deleting w ns s) (hunsettled : s.settled = false)
    (horder : s.inOrder act) (h : s.step w act = some s') : Deleting w ns s' := by
  cases act with
  | server act =>
      obtain ⟨server, hserver, rfl⟩ := Option.map_eq_some_iff.mp h
      refine ⟨hs.namespace_, hs.refused, ?_⟩
      intro post delete hphase
      obtain ⟨path, hjoin, hdelete | ⟨hsettled, -⟩⟩ := hs.deleting post delete hphase
      · exact ⟨path, hjoin, deleting_server hphase hdelete horder hserver⟩
      · rw [hunsettled] at hsettled
        cases hsettled
  | answered =>
      simp only [step] at h
      split at h
      · split at h
        · cases h
          refine ⟨hs.namespace_, ?_, ?_⟩
          · intro hphase
            dsimp only at hphase
            split at hphase <;> cases hphase
          · intro post delete hphase
            dsimp only at hphase
            split at hphase <;> cases hphase
        · cases h
      · cases h
  | unreachable =>
      simp only [step] at h
      split at h
      · cases h
        exact ⟨hs.namespace_, by simp, by simp⟩
      · cases h
  | delete =>
      simp only [step] at h
      split at h
      · obtain ⟨path, hjoin, rfl⟩ := Option.map_eq_some_iff.mp h
        rw [hs.namespace_] at hjoin
        refine ⟨hs.namespace_, by simp, ?_⟩
        intro post delete hphase
        cases hphase
        exact ⟨path, hjoin, .inl (by simp [Server.receive])⟩
      · cases h

omit [DecidableEq Url] in
theorem stored_of_settled (hs : Deleting w ns s) (hsettled : s.settled) :
    stored w s.server ns = none := by
  unfold settled at hsettled
  split at hsettled
  · next hphase => simp [stored, hs.refused hphase]
  · next post delete hphase =>
      obtain ⟨path, hjoin, hdelete | ⟨-, hnone⟩⟩ := hs.deleting post delete hphase
      · simp [processed, hdelete, Handler.finished] at hsettled
      · simp [stored, hjoin, hnone]
  · cases hsettled

omit [DecidableEq Url] in
theorem stored_congr {server server' : Server Url} (h : server'.redis = server.redis) :
    stored w server' ns = stored w server ns := by
  rw [stored, h, stored]

/-- Where something is stored, the POST of the call finds it and sets nothing. -/
structure Sparing (w : Wire Url) (ns : String) (value : String) (s : SetOrigin Url) : Prop where
  namespace_ : s.namespace_ = ns
  stored : stored w s.server ns = some value
  posted : ∀ post, s.post? = some post → ∃ path origin handler, w.join ns = some path ∧
    s.server.requests[post]? = some handler ∧
    (handler = .received (.set path origin) ∨ handler.finished)

omit [DecidableEq Url] in
theorem sparing_start {server : Server Url} {value : String} (origin : Origin Url)
    (h : stored w server ns = some value) : Sparing w ns value (start w server origin ns) := by
  unfold start
  cases hjoin : w.join ns with
  | none => exact ⟨rfl, h, by simp [post?]⟩
  | some path =>
      refine ⟨rfl, (stored_congr rfl).trans h, fun post hpost => ?_⟩
      cases hpost
      exact ⟨path, origin, _, hjoin, by simp [Server.receive], .inl rfl⟩

/-- What the POST's own command does where something is stored. -/
theorem sparing_command {value : String} {post : Nat} {outcome : Outcome}
    {server : Server Url} (hs : Sparing w ns value s) (hpost : s.post? = some post)
    (h : s.server.step w (.command post outcome) = some server) :
    Sparing w ns value { s with server } := by
  obtain ⟨path, origin, handler, hjoin, hhandler, hset⟩ := hs.posted post hpost
  obtain ⟨handler', res, hhandler', hres, rfl⟩ := Server.eq_of_command h
  obtain rfl : handler = handler' := Option.some.inj (hhandler.symm.trans hhandler')
  rcases hset with rfl | hfinished
  · have hget : s.server.redis.get (originKey path) = some value := by
      have hstored := hs.stored
      rwa [stored, hjoin] at hstored
    have hredis : res.1 = s.server.redis := by
      cases hres
      rfl
    have hdone : res.2.finished := by
      cases hres
      simp only [setOrigin, hget, Handler.finished]
    have hlt := (List.getElem?_eq_some_iff.mp hhandler).1
    have hkept : (s.server.apply post res outcome).redis = s.server.redis ∧
        ∃ handler, (s.server.apply post res outcome).requests[post]? = some handler ∧
          handler.finished := by
      cases outcome with
      | replied => exact ⟨hredis, res.2, by simp [Server.apply, hlt], hdone⟩
      | lost => exact ⟨hredis, .done (.error .redis), by simp [Server.apply, hlt], rfl⟩
      | failed => exact ⟨rfl, .done (.error .redis), by simp [Server.apply, hlt], rfl⟩
    obtain ⟨hsame, handler, hhandler, hfinished⟩ := hkept
    refine ⟨hs.namespace_, (stored_congr hsame).trans hs.stored, fun post' hpost' => ?_⟩
    obtain rfl : post = post' := Option.some.inj (hpost.symm.trans hpost')
    exact ⟨path, origin, handler, hjoin, hhandler, .inr hfinished⟩
  · cases handler with
    | done _ => cases hres
    | gone => cases hres
    | _ => cases hfinished

theorem sparing_step {value : String} (hs : Sparing w ns value s) (hspared : s.Spared w act)
    (h : s.step w act = some s') : Sparing w ns value s' := by
  cases act with
  | server act =>
      obtain ⟨server, hserver, rfl⟩ := Option.map_eq_some_iff.mp h
      rcases hspared act server rfl hserver with ⟨post, outcome, hpost, rfl⟩ | hsame
      · exact sparing_command hs hpost hserver
      · rw [hs.namespace_] at hsame
        by_cases hcommand : ∃ post outcome, s.post? = some post ∧ act = .command post outcome
        · obtain ⟨post, outcome, hpost, rfl⟩ := hcommand
          exact sparing_command hs hpost hserver
        refine ⟨hs.namespace_, hsame.trans hs.stored, fun post hpost => ?_⟩
        obtain ⟨path, origin, handler, hjoin, hhandler, hset⟩ := hs.posted post hpost
        by_cases hhangUp : act = .hangUp post
        · subst hhangUp
          obtain ⟨-, -, -, rfl⟩ := Server.eq_of_hangUp hserver
          have hlt := (List.getElem?_eq_some_iff.mp hhandler).1
          exact ⟨path, origin, .gone, hjoin, by simp [hlt], .inr rfl⟩
        · have hkept := Server.getElem?_step hserver hhandler
            (fun outcome hact => hcommand ⟨post, outcome, hpost, hact⟩) hhangUp
          exact ⟨path, origin, handler, hjoin, hkept, hset⟩
  | answered =>
      simp only [step] at h
      split at h
      · next post hphase =>
          split at h
          · next response _ =>
              cases h
              refine ⟨hs.namespace_, hs.stored, fun post' hpost' => ?_⟩
              apply hs.posted post'
              rw [post?, hphase]
              cases hstatus : errorForStatus response with
              | true => simpa [post?, hstatus] using hpost'
              | false => simp [post?, hstatus] at hpost'
          · cases h
      · cases h
  | unreachable =>
      simp only [step] at h
      split at h
      · next post hphase =>
          cases h
          refine ⟨hs.namespace_, hs.stored, fun post' hpost' => hs.posted post' ?_⟩
          rw [post?, hphase]
          exact hpost'
      · cases h
  | delete =>
      simp only [step] at h
      split at h
      · next post hphase =>
          obtain ⟨path', -, rfl⟩ := Option.map_eq_some_iff.mp h
          refine ⟨hs.namespace_, (stored_congr rfl).trans hs.stored, fun post' hpost' => ?_⟩
          have hpost : s.post? = some post' := by
            rw [post?, hphase]
            exact hpost'
          obtain ⟨path, origin, handler, hjoin, hhandler, hset⟩ := hs.posted post' hpost
          have hlt := (List.getElem?_eq_some_iff.mp hhandler).1
          refine ⟨path, origin, handler, hjoin, ?_, hset⟩
          rw [Server.receive, List.getElem?_append_left hlt, hhandler]
      · cases h

/-- A call that fails, with whatever other relays do meanwhile, leaves nothing
stored for the namespace, not even what another relay has set since the call
began: so it leaves what was stored as it was exactly if that was nothing. It is
the DELETE that does it. Where that is not carried out, say because redis fails
it, the call leaves what it found to those who change it. -/
theorem unchanged_iff (server : Server Url) (origin : Origin Url) (ns : String) :
    (∀ s : SetOrigin Url,
      Reachable (step w) (fun s act => s.settled = false ∧ s.inOrder act)
        (start w server origin ns) s → s.settled →
      stored w s.server ns = none ∧
        (stored w s.server ns = stored w server ns ↔ stored w server ns = none)) ∧
    ∀ s : SetOrigin Url, Reachable (step w) (Spared w) (start w server origin ns) s →
      stored w server ns ≠ none → stored w s.server ns = stored w server ns := by
  constructor
  · intro s hreach hsettled
    have hdeleting : Deleting w ns s := by
      apply hreach.invariant (deleting_start server origin)
      intro s s' act hs hallowed hstep
      exact deleting_step hs hallowed.1 hallowed.2 hstep
    have hnone := stored_of_settled hdeleting hsettled
    rw [hnone]
    exact ⟨rfl, eq_comm⟩
  · intro s hreach hsome
    obtain ⟨value, hvalue⟩ := Option.ne_none_iff_exists'.mp hsome
    have hsparing : Sparing w ns value s := by
      apply hreach.invariant (sparing_start origin hvalue)
      intro s s' act hs hallowed hstep
      exact sparing_step hs hallowed hstep
    rw [hsparing.stored, hvalue]

/-- Redis does not answer the POST, and nobody has the namespace. -/
theorem unchanged_vacant :
    ∃ s, run (step plainWire) (fun s act => !s.settled && s.inOrder act)
        (start plainWire .init ⟨"https://b"⟩ "/live")
        [.server (.command 0 .failed), .answered, .delete, .server (.command 1 .replied)] =
          some s ∧
      s.settled ∧ stored plainWire s.server "/live" = stored plainWire Server.init "/live" := by
  have hrun : ∃ s, run (step plainWire) (fun s act => !s.settled && s.inOrder act)
      (start plainWire .init ⟨"https://b"⟩ "/live")
      [.server (.command 0 .failed), .answered, .delete, .server (.command 1 .replied)] =
        some s ∧ s.settled := ⟨_, rfl, rfl⟩
  obtain ⟨s, hs, hsettled⟩ := hrun
  refine ⟨s, hs, hsettled, ?_⟩
  have hreach := reachable_of_run _ (fun s act h => by simpa using h) hs
  exact ((unchanged_iff .init ⟨"https://b"⟩ "/live").1 s hreach hsettled).2.mpr rfl

/-- Another relay has the namespace, the call is refused with a conflict, and
the other relay's origin is deleted. -/
theorem not_unchanged_conflict :
    ∃ server s, run (Server.step plainWire) (fun _ _ => true) .init
        [.request (.set "/live" ⟨"https://a"⟩), .command 0 .replied, .command 0 .replied] =
          some server ∧
      run (step plainWire) (fun s act => !s.settled && s.inOrder act)
        (start plainWire server ⟨"https://b"⟩ "/live")
        [.server (.command 1 .replied), .answered, .delete, .server (.command 2 .replied)] =
          some s ∧
      s.server.requests[1]? = some (.done (.error .duplicate)) ∧ s.settled ∧
      stored plainWire server "/live" = some (quoted "https://a") ∧
      stored plainWire s.server "/live" ≠ stored plainWire server "/live" := by
  have hrun : ∃ server s, run (Server.step plainWire) (fun _ _ => true) .init
        [.request (.set "/live" ⟨"https://a"⟩), .command 0 .replied, .command 0 .replied] =
          some server ∧
      run (step plainWire) (fun s act => !s.settled && s.inOrder act)
        (start plainWire server ⟨"https://b"⟩ "/live")
        [.server (.command 1 .replied), .answered, .delete, .server (.command 2 .replied)] =
          some s ∧
      s.server.requests[1]? = some (.done (.error .duplicate)) ∧ s.settled ∧
      stored plainWire server "/live" = some (quoted "https://a") ∧
      stored plainWire s.server "/live" = none := ⟨_, _, rfl, rfl, rfl, rfl, rfl, rfl⟩
  obtain ⟨server, s, hserver, hs, hconflict, hsettled, hbefore, hafter⟩ := hrun
  refine ⟨server, s, hserver, hs, hconflict, hsettled, hbefore, ?_⟩
  rw [hbefore, hafter]
  exact nofun

end SetOrigin

end MoqTransport.Relay
