import Mathlib.Data.Finmap
import MoqTransport.Lib.Machine
import MoqTransport.Watch.State

/-!
The connections of a relay to other relays, by their URL. `route` queues a
connection and enters it in the table, `run` takes it from the queue and runs
it, and after it has ended removes its URL. From its request to its removal a
connection has its URL to itself (`Invariant.nodup`): the entry stays in the
table all that time, and `route` returns it instead of queueing another.
-/

namespace MoqTransport.Relay

open Machine

section

variable (U : Type)

/-- The two ends of a `Remote`. They share a state, and `state` tells the
states apart. -/
structure RemoteProducer where
  url : U
  state : Nat
deriving DecidableEq

structure RemoteConsumer where
  url : U
  state : Nat
deriving DecidableEq

structure RemotesState where
  lookup : Finmap (fun _ : U => RemoteConsumer U)
  requested : List (RemoteProducer U)

/-- The shared state, and the futures of `RemotesProducer::run`. The producer
may be cloned, so these are of any number of calls. -/
structure Remotes where
  state : Watch.State (RemotesState U)
  tasks : List (RemoteProducer U)
  /-- The URLs of tasks that have ended, on the way to the lock. -/
  ended : List U
  /-- How many remotes have been made. -/
  made : Nat

inductive RemotesAct where
  /-- A consumer has its answer from the API and takes the lock. -/
  | route (origin : Option U)
  /-- `run` takes a request and makes a task of it. -/
  | next
  /-- A task ends, in whatever way. -/
  | finish (task : Nat)
  /-- `run` has the lock and removes the URL of an ended task. -/
  | remove (task : Nat)
  /-- `run` is dropped, and one of its tasks with it. -/
  | cancel (task : Nat)
  | cancelEnded (task : Nat)
  /-- The last producer or the last consumer goes away. -/
  | drop

end

variable {U : Type}

/-- The consumer of the same state. -/
def RemoteProducer.consumer (remote : RemoteProducer U) : RemoteConsumer U :=
  ⟨remote.url, remote.state⟩

namespace Remotes

variable [DecidableEq U]

def init : Remotes U := ⟨.new ⟨∅, []⟩, [], [], 0⟩

/-- `Remote::produce`, with the number of the new state. -/
def produce (url : U) (state : Nat) : RemoteProducer U × RemoteConsumer U :=
  (⟨url, state⟩, ⟨url, state⟩)

/-- `RemotesConsumer::route` from the lock on. -/
def route (s : Remotes U) (origin : Option U) : Option (RemoteConsumer U) × Remotes U :=
  match origin with
  | none => (none, s)
  | some url =>
      match s.state.value.lookup.lookup url with
      | some remote => (some remote, s)
      | none =>
          if s.state.dropped then (none, s)
          else
            let (writer, reader) := produce url s.made
            (some reader,
              { s with
                state := s.state.update fun v =>
                  ⟨v.lookup.insert url reader, v.requested ++ [writer]⟩
                made := s.made + 1 })

/-- `RemotesProducer::next`. -/
def next (s : Remotes U) : Watch.Poll (Option (RemoteProducer U)) × Watch.State (RemotesState U) :=
  match s.state.value.requested with
  | remote :: rest =>
      if s.state.dropped then (.ready none, s.state)
      else (.ready (some remote), s.state.update fun v => { v with requested := rest })
  | [] => (if s.state.dropped then .ready none else .pending, s.state)

/-- What `run` does with the URL of an ended task. -/
def remove (s : Remotes U) (url : U) : Watch.State (RemotesState U) :=
  if s.state.dropped then s.state
  else s.state.update fun v => { v with lookup := v.lookup.erase url }

def step (s : Remotes U) : RemotesAct U → Option (Remotes U)
  | .route origin => some (s.route origin).2
  | .next =>
      match s.next with
      | (.ready (some remote), state) =>
          some { s with state := state, tasks := s.tasks ++ [remote] }
      | _ => none
  | .finish i => s.tasks[i]?.map fun remote =>
      { s with tasks := s.tasks.eraseIdx i, ended := s.ended ++ [remote.url] }
  | .remove i => s.ended[i]?.map fun url =>
      { s with state := s.remove url, ended := s.ended.eraseIdx i }
  | .cancel i => some { s with tasks := s.tasks.eraseIdx i }
  | .cancelEnded i => some { s with ended := s.ended.eraseIdx i }
  | .drop => some { s with state := s.state.drop }

/-- The producers that are queued or running. -/
def producers (s : Remotes U) : List (RemoteProducer U) := s.state.value.requested ++ s.tasks

/-- The URLs that are queued, running, or ended and not yet removed. -/
def urls (s : Remotes U) : List U := s.producers.map (·.url) ++ s.ended

/-- A URL is in one place at a time, and in the table until it is removed. -/
structure Invariant (s : Remotes U) : Prop where
  nodup : s.urls.Nodup
  entered : ∀ remote ∈ s.producers,
    s.state.value.lookup.lookup remote.url = some remote.consumer
  ended : ∀ url ∈ s.ended, url ∈ s.state.value.lookup

variable {s s' : Remotes U} {act : RemotesAct U}

theorem Invariant.mem_lookup (h : Invariant s) {url : U} (hurl : url ∈ s.urls) :
    url ∈ s.state.value.lookup := by
  rcases List.mem_append.mp hurl with hurl | hurl
  · obtain ⟨remote, hremote, rfl⟩ := List.mem_map.mp hurl
    exact Finmap.mem_of_lookup_eq_some (h.entered remote hremote)
  · exact h.ended url hurl

/-- Taking something out keeps the invariant, as long as the table stays. -/
theorem Invariant.sublist (h : Invariant s)
    (hlookup : s'.state.value.lookup = s.state.value.lookup)
    (hproducers : s'.producers.Sublist s.producers) (hended : s'.ended.Sublist s.ended) :
    Invariant s' := by
  constructor
  · exact h.nodup.sublist ((hproducers.map _).append hended)
  · intro remote hremote
    rw [hlookup]
    exact h.entered remote (hproducers.subset hremote)
  · intro url hurl
    rw [hlookup]
    exact h.ended url (hended.subset hurl)

/-- Moving a producer on keeps it, too. -/
theorem Invariant.perm (h : Invariant s)
    (hlookup : s'.state.value.lookup = s.state.value.lookup)
    (hurls : s'.urls.Perm s.urls) (hproducers : s'.producers ⊆ s.producers) : Invariant s' := by
  constructor
  · exact hurls.nodup_iff.mpr h.nodup
  · intro remote hremote
    rw [hlookup]
    exact h.entered remote (hproducers hremote)
  · intro url hurl
    rw [hlookup]
    exact h.mem_lookup (hurls.subset (List.mem_append_right _ hurl))

theorem Invariant.route (h : Invariant s) (origin : Option U) : Invariant (s.route origin).2 := by
  unfold Remotes.route
  split
  · exact h
  · next url =>
      split
      · exact h
      · next hvacant =>
          split
          · exact h
          · have hnew : url ∉ s.urls := fun hurl =>
              absurd (h.mem_lookup hurl) (Finmap.lookup_eq_none.mp hvacant)
            constructor
            · have hperm : ((s.state.value.requested ++ [(produce url s.made).1] ++ s.tasks).map
                  RemoteProducer.url ++ s.ended).Perm (url :: s.urls) := by
                simp only [urls, producers, produce, List.map_append, List.map_cons,
                  List.append_assoc, List.singleton_append]
                exact List.perm_middle
              exact hperm.nodup_iff.mpr (List.nodup_cons.mpr ⟨hnew, h.nodup⟩)
            · intro remote hremote
              have hcases : remote = ⟨url, s.made⟩ ∨ remote ∈ s.producers := by
                simpa [producers, Watch.State.update, produce, or_assoc, or_left_comm]
                  using hremote
              rcases hcases with rfl | hold
              · exact Finmap.lookup_insert _
              · have hne : remote.url ≠ url := by
                  rintro rfl
                  exact hnew (List.mem_append_left _ (List.mem_map_of_mem hold))
                exact (Finmap.lookup_insert_of_ne _ hne).trans (h.entered remote hold)
            · intro other hother
              exact Finmap.mem_insert.mpr (.inr (h.ended other hother))

omit [DecidableEq U] in
theorem next_cases {remote : RemoteProducer U} {state : Watch.State (RemotesState U)}
    (h : s.next = (.ready (some remote), state)) :
    s.state.dropped = false ∧ ∃ rest, s.state.value.requested = remote :: rest ∧
      state = s.state.update fun v => { v with requested := rest } := by
  unfold Remotes.next at h
  split at h
  · next first rest hrequested =>
      split at h
      · cases h
      · next hdropped =>
          cases h
          exact ⟨by simpa using hdropped, rest, hrequested, rfl⟩
  · split at h
    · cases h
    · cases h

theorem Invariant.next (h : Invariant s) {remote : RemoteProducer U}
    {state : Watch.State (RemotesState U)} (hnext : s.next = (.ready (some remote), state)) :
    Invariant { s with state := state, tasks := s.tasks ++ [remote] } := by
  obtain ⟨-, rest, hrequested, rfl⟩ := next_cases hnext
  have hproducers : (rest ++ (s.tasks ++ [remote])).Perm s.producers := by
    rw [producers, hrequested, ← List.append_assoc]
    exact List.perm_append_singleton remote (rest ++ s.tasks)
  exact h.perm rfl ((hproducers.map _).append_right _) hproducers.subset

theorem Invariant.finish (h : Invariant s) {i : Nat} {remote : RemoteProducer U}
    (hremote : s.tasks[i]? = some remote) :
    Invariant { s with tasks := s.tasks.eraseIdx i, ended := s.ended ++ [remote.url] } := by
  obtain ⟨hlt, rfl⟩ := List.getElem?_eq_some_iff.mp hremote
  have hsplit : (s.tasks[i] :: s.tasks.eraseIdx i).Perm s.tasks :=
    List.getElem_cons_eraseIdx_perm hlt
  have hproducers : (s.tasks[i] :: (s.state.value.requested ++ s.tasks.eraseIdx i)).Perm
      s.producers :=
    (List.perm_middle.symm).trans (hsplit.append_left _)
  refine h.perm (by rfl) ?_ ?_
  · have hmoved : ((s.state.value.requested ++ s.tasks.eraseIdx i).map (·.url) ++
        (s.ended ++ [s.tasks[i].url])).Perm
        ((s.tasks[i] :: (s.state.value.requested ++ s.tasks.eraseIdx i)).map (·.url) ++
          s.ended) := by
      rw [← List.append_assoc]
      exact List.perm_append_singleton _ _
    exact hmoved.trans ((hproducers.map _).append_right _)
  · intro other hother
    exact hproducers.subset (List.mem_cons_of_mem _ hother)

/-- The URL of an ended task is no producer's. -/
theorem Invariant.url_ne (h : Invariant s) {i : Nat} {url : U} (hurl : s.ended[i]? = some url)
    {remote : RemoteProducer U} (hremote : remote ∈ s.producers) : remote.url ≠ url := by
  have hdisjoint := (List.nodup_append.mp h.nodup).2.2
  exact hdisjoint _ (List.mem_map_of_mem hremote) _ (List.mem_of_getElem? hurl)

theorem lookup_remove_of_ne {url other : U} (hne : other ≠ url) :
    (s.remove url).value.lookup.lookup other = s.state.value.lookup.lookup other := by
  unfold remove
  split
  · rfl
  · exact Finmap.lookup_erase_ne hne

theorem requested_remove (url : U) :
    (s.remove url).value.requested = s.state.value.requested := by
  unfold remove
  split
  · rfl
  · rfl

theorem Invariant.remove (h : Invariant s) {i : Nat} {url : U} (hurl : s.ended[i]? = some url) :
    Invariant { s with state := s.remove url, ended := s.ended.eraseIdx i } := by
  obtain ⟨hlt, rfl⟩ := List.getElem?_eq_some_iff.mp hurl
  have hproducers : (s.remove s.ended[i]).value.requested ++ s.tasks = s.producers := by
    rw [requested_remove, producers]
  constructor
  · rw [urls, Remotes.producers, hproducers]
    exact h.nodup.sublist ((List.eraseIdx_sublist _ _).append_left _)
  · intro remote hremote
    rw [Remotes.producers, hproducers] at hremote
    rw [lookup_remove_of_ne (h.url_ne hurl hremote)]
    exact h.entered remote hremote
  · intro url hother
    have hended : s.ended.Nodup := (List.nodup_append.mp h.nodup).2.1
    have hsplit : (s.ended[i] :: s.ended.eraseIdx i).Nodup :=
      (List.getElem_cons_eraseIdx_perm hlt).nodup_iff.mpr hended
    have hne : url ≠ s.ended[i] := by
      rintro rfl
      exact (List.nodup_cons.mp hsplit).1 hother
    obtain ⟨consumer, hconsumer⟩ :=
      Finmap.mem_iff.mp (h.ended url ((List.eraseIdx_sublist _ _).subset hother))
    exact Finmap.mem_of_lookup_eq_some ((lookup_remove_of_ne hne).trans hconsumer)

theorem invariant_step (h : Invariant s) (hstep : step s act = some s') : Invariant s' := by
  cases act with
  | route origin =>
      cases hstep
      exact h.route origin
  | next =>
      simp only [step] at hstep
      split at hstep
      · next remote state hnext =>
          cases hstep
          exact h.next hnext
      · cases hstep
  | finish i =>
      obtain ⟨remote, hremote, rfl⟩ := Option.map_eq_some_iff.mp hstep
      exact h.finish hremote
  | remove i =>
      obtain ⟨url, hurl, rfl⟩ := Option.map_eq_some_iff.mp hstep
      exact h.remove hurl
  | cancel i =>
      cases hstep
      exact h.sublist rfl ((List.eraseIdx_sublist _ _).append_left _) (.refl _)
  | cancelEnded i =>
      cases hstep
      exact h.sublist rfl (.refl _) (List.eraseIdx_sublist _ _)
  | drop =>
      cases hstep
      exact h.sublist rfl (.refl _) (.refl _)

theorem invariant_init : Invariant (init : Remotes U) := by
  constructor
  · exact List.nodup_nil
  · intro remote hremote
    cases hremote
  · intro url hurl
    cases hurl

theorem invariant_of_reachable (hs : Reachable step (fun _ _ => True) init s) : Invariant s :=
  hs.invariant invariant_init fun h _ hstep => invariant_step h hstep

/-- One connection for each URL, whatever the order of calls and tasks: at
most one producer of it is queued or running, the table has that producer's
consumer, and a removal takes out the entry of no such producer. -/
theorem one_connection (hs : Reachable step (fun _ _ => True) init s) :
    (∀ url, (s.producers.filter (·.url == url)).length ≤ 1) ∧
    (∀ remote ∈ s.producers,
      s.state.value.lookup.lookup remote.url = some remote.consumer) ∧
    ∀ i s', step s (.remove i) = some s' →
      s'.producers = s.producers ∧
      ∀ remote ∈ s.producers,
        s'.state.value.lookup.lookup remote.url = some remote.consumer := by
  have h := invariant_of_reachable hs
  refine ⟨?_, h.entered, ?_⟩
  · intro url
    have hnodup : (s.producers.map (·.url)).Nodup := (List.nodup_append.mp h.nodup).1
    have hcount := List.nodup_iff_count_le_one.mp hnodup url
    rw [List.count_eq_length_filter, List.filter_map, List.length_map] at hcount
    exact hcount
  · intro i s' hstep
    obtain ⟨url, hurl, rfl⟩ := Option.map_eq_some_iff.mp hstep
    refine ⟨?_, ?_⟩
    · rw [producers, requested_remove, producers]
    · intro remote hremote
      rw [lookup_remove_of_ne (h.url_ne hurl hremote)]
      exact h.entered remote hremote

/-- A connection ends, another route to it comes before its URL is removed,
and one comes after. -/
def reconnect : List (RemotesAct String) :=
  [.route (some "a"), .next, .finish 0, .route (some "a"), .remove 0, .route (some "a"), .next]

def reconnected : Remotes String where
  state := ⟨⟨(((∅ : Finmap _).insert "a" ⟨"a", 0⟩).erase "a").insert "a" ⟨"a", 1⟩, []⟩, false⟩
  tasks := [⟨"a", 1⟩]
  ended := []
  made := 2

theorem one_connection_reconnected :
    Reachable step (fun _ _ => True) init reconnected ∧
      reconnected.state.value.lookup.lookup "a" = some ⟨"a", 1⟩ := by
  have hrun : run step (fun _ _ => true) init reconnect = some reconnected := rfl
  have hreach : Reachable step (fun _ _ => True) init reconnected :=
    reachable_of_run _ (fun _ _ _ => trivial) hrun
  exact ⟨hreach, (one_connection hreach).2.1 ⟨"a", 1⟩ (List.mem_singleton_self _)⟩

end Remotes

end MoqTransport.Relay
