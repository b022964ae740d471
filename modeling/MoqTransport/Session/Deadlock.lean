import MoqTransport.Session.Locking

/-!
No thread of a session takes a mutex it holds (`no_selfDeadlock`). The mutexes
have an order: `announces` before `subscribed`, for the handles that wait in an
announcement, and `announced` and `subscribes` alone. One operation would break
it, a handle that cannot be queued and is dropped under `announced`; but the
queue of announcements is closed only by its last owner, and the handle in
question is one of them.
-/

namespace MoqTransport.Session.Locking

open Coding Locks Machine

/-- The order of the mutexes, and below which of them an operation may not be
run. -/
def hierarchy : Hierarchy Mutex Op where
  level
    | .announces => 0
    | .subscribed => 1
    | .announced => 2
    | .subscribes => 3
  floor
    | .dropAnnounce _ => 0
    | .takeAnnounce _ _ | .dropAnnounceHalf _ | .removeAnnounce _ => 1
    | .routeSubscribed _ | .pushUnknown _ | .serve _ _ | .closeSubscribed _ _
    | .dropSubscribed _ => 1
    | .okAnnounced _ | .closeAnnounced _ _ | .dropAnnounced _ | .dropAnnouncedFields _ => 2
    | .dropSubscribe _ | .dropSubscribeFields _ | .dropSubscriber => 2
    | _ => 4

/-- The `Subscriber`s that an operation uses or has in a handle. -/
def weight : Op → Nat
  | .recvAnnounce _ | .pushAnnounced _ | .okAnnounced _ | .keepAnnounced _ => 1
  | .closeAnnounced _ _ | .dropAnnounced _ | .dropAnnouncedFields _ => 1
  | .waitSubscribe _ | .dropSubscribe _ | .dropSubscribeFields _ => 1
  | .giveBack | .dropSubscriber => 1
  | _ => 0

namespace Shared

/-- The `Subscriber`s that are in no thread's hands. -/
def counted (s : Shared) : Nat :=
  s.subscribers + s.announcedQueue.value.length + s.accepted.length + s.waiting.length

/-- All that the owners of the queue of announcements depend on. -/
def owning (s : Shared) : Nat × Watch.Queue Announced × List Announced × List Nat × Nat :=
  (s.subscribers, s.announcedQueue, s.accepted, s.waiting, s.owners)

end Shared

/-- What a change with `w` `Subscriber`s in hand leaves: it stays on or above
`n`, every owner is counted, and the queue is closed only without any. -/
structure Keeps (n w : Nat) (s s' : Shared) (more : Todo) : Prop where
  above : ∀ i ∈ more, hierarchy.Above n i
  balance : s'.owners + s.counted + w = s.owners + s'.counted + weigh weight more
  closed : s'.announcedQueue.dropped = true → s'.owners = 0

/-- The owners of the queue are those that are counted, and it is open as long
as there is one. -/
structure Inv (t : Threads Mutex Op Shared) : Prop where
  clear : ∀ stack ∈ t.todo, hierarchy.Clear stack
  counted : t.shared.owners = t.shared.counted + total weight t.todo
  closed : t.shared.announcedQueue.dropped = true → t.shared.owners = 0

/-! What is left by sending a message. -/

theorem weigh_publisherSend (msg : Message) : weigh weight (publisherSend msg) = 0 := by
  cases msg <;> rfl

theorem weigh_subscriberSend (msg : Message) : weigh weight (subscriberSend msg) = 0 := by
  cases msg <;> rfl

theorem above_singleton {n : Nat} {op : Op} (hop : n ≤ hierarchy.floor op) :
    ∀ i ∈ ([.run op] : Todo), hierarchy.Above n i := by
  intro i hi
  obtain rfl := List.mem_singleton.mp hi
  exact hop

theorem above_push {n : Nat} (hn : n ≤ 4) (msg : Message) :
    ∀ i ∈ ([.run (.push msg)] : Todo), hierarchy.Above n i := above_singleton hn

/-- The last message of a subscription needs the mutex of its table. -/
theorem above_terminal {n : Nat} (hn : n ≤ 1) (state : SubscribedState) (id : Nat) (ok : Bool) :
    ∀ i ∈ publisherSend (state.terminal id ok), hierarchy.Above n i := by
  have hlock : hierarchy.Above n (.lock .subscribed (.removeSubscribed id)) :=
    ⟨hn, (by decide : 1 < 4)⟩
  unfold SubscribedState.terminal
  cases ok with
  | true => exact List.forall_mem_cons.mpr ⟨hlock, above_push (by omega) _⟩
  | false => exact List.forall_mem_cons.mpr ⟨hlock, above_push (by omega) _⟩

theorem above_unannounce (m : Message.Unannounce) :
    ∀ i ∈ publisherSend (.unannounce m), hierarchy.Above 0 i :=
  List.forall_mem_cons.mpr ⟨⟨le_rfl, (by decide : 0 < 1)⟩, above_push (by omega) _⟩

/-- No message of a subscriber needs more than the mutex of the
announcements. -/
theorem above_subscriberSend {n : Nat} (hn : n ≤ 2) (msg : Message) :
    ∀ i ∈ subscriberSend msg, hierarchy.Above n i := by
  have hlock (ns : Tuple) : hierarchy.Above n (.lock .announced (.removeAnnounced ns)) :=
    ⟨hn, (by decide : 2 < 4)⟩
  unfold subscriberSend
  split
  · exact List.forall_mem_cons.mpr ⟨hlock _, above_push (by omega) _⟩
  · exact List.forall_mem_cons.mpr ⟨hlock _, above_push (by omega) _⟩
  · exact above_push (by omega) _

/-- Something to be done after all of that. -/
theorem above_concat {n : Nat} {front : Todo} {op : Op} (hfront : ∀ i ∈ front, hierarchy.Above n i)
    (hop : n ≤ hierarchy.floor op) : ∀ i ∈ front ++ [.run op], hierarchy.Above n i :=
  forall_mem_concat hfront hop

theorem above_map {α : Type} {n : Nat} {op : α → Op} (hop : ∀ x, n ≤ hierarchy.floor (op x))
    (xs : List α) : ∀ i ∈ (xs.map fun x => .run (op x) : Todo), hierarchy.Above n i := by
  intro i hi
  obtain ⟨x, -, rfl⟩ := List.mem_map.mp hi
  exact hop x

section

variable {n w : Nat} {s s' : Shared} {more : Todo} {op : Op}

theorem above_nil : ∀ i ∈ ([] : Todo), hierarchy.Above n i :=
  fun _ hi => absurd hi List.not_mem_nil

theorem above_section {l : Mutex} {rest : Todo} (hop : hierarchy.level l < hierarchy.floor op)
    (hrest : ∀ i ∈ rest, hierarchy.Above 0 i) :
    ∀ i ∈ (.lock l op :: rest : Todo), hierarchy.Above 0 i :=
  List.forall_mem_cons.mpr ⟨⟨Nat.zero_le _, hop⟩, hrest⟩

theorem counted_congr (hsame : s'.owning = s.owning) : s'.counted = s.counted := by
  simp only [Shared.owning, Prod.mk.injEq] at hsame
  obtain ⟨hsubscribers, hqueue, haccepted, hwaiting, -⟩ := hsame
  rw [Shared.counted, Shared.counted, hsubscribers, hqueue, haccepted, hwaiting]

theorem queue_congr (hsame : s'.owning = s.owning) : s'.announcedQueue = s.announcedQueue :=
  congrArg (·.2.1) hsame

theorem owners_congr (hsame : s'.owning = s.owning) : s'.owners = s.owners :=
  congrArg (·.2.2.2.2) hsame

theorem Keeps.after {mid : Shared} (h : Keeps n w mid s' more) (hsame : mid.owning = s.owning) :
    Keeps n w s s' more := by
  refine ⟨h.above, ?_, h.closed⟩
  rw [← owners_congr hsame, ← counted_congr hsame]
  exact h.balance

/-! What changes none of the owners. -/

theorem owning_withAnnounce (s : Shared) (ns : Tuple) (f : AnnounceShared → AnnounceShared) :
    (s.withAnnounce ns f).owning = s.owning := by
  unfold Shared.withAnnounce
  split
  · rfl
  · split <;> rfl

theorem owning_insertSubscribed (s : Shared) (h : Subscribed) :
    (s.insertSubscribed h).owning = s.owning := by
  unfold Shared.insertSubscribed
  split <;> rfl

theorem owning_recvUnsubscribe (s : Shared) (id : Nat) :
    (s.recvUnsubscribe id).owning = s.owning := by
  unfold Shared.recvUnsubscribe
  split
  · rfl
  · split
    · rfl
    · split <;> rfl

theorem owning_closeSubscribed (s : Shared) (h : Subscribed) (err : ServeError) :
    (s.closeSubscribed h err).owning = s.owning := by
  unfold Shared.closeSubscribed
  split
  · rfl
  · split <;> rfl

theorem owning_openStream (s : Shared) (header : Data.Header) :
    (s.openStream header).owning = s.owning := by
  unfold Shared.openStream
  dsimp only
  split
  · rfl
  · split <;> rfl

theorem owning_push (s : Shared) (msg : Message) : (s.push msg).owning = s.owning := by
  unfold Shared.push
  split <;> rfl

/-! The queue of announcements. -/

theorem queue_of_pop {T : Type} {queue queue' : Watch.Queue T} {item : T}
    (h : queue.pop = (.ready (some item), queue')) :
    ∃ rest, queue.value = item :: rest ∧ queue' = queue.update fun _ => rest := by
  unfold Watch.Queue.pop at h
  split at h
  · next first rest hvalue =>
      split at h
      · cases h
      · cases h
        exact ⟨rest, hvalue, rfl⟩
  · split at h <;> cases h

/-- A handle can be queued while the queue is open. -/
theorem pushAnnounced_eq (hopen : s.announcedQueue.dropped = false) (h : Announced) :
    s.pushAnnounced h = ({ s with announcedQueue := s.announcedQueue.update (· ++ [h]) },
      [.run (.storeAnnounced h)]) := by
  unfold Shared.pushAnnounced Watch.Queue.push
  rw [hopen]
  rfl

theorem keeps_pushAnnounced (hopen : s.announcedQueue.dropped = false) (h : Announced) :
    Keeps 4 1 s (s.pushAnnounced h).1 (s.pushAnnounced h).2 := by
  rw [pushAnnounced_eq hopen]
  refine ⟨above_singleton le_rfl, ?_, ?_⟩
  · simp only [Shared.counted, Watch.State.update, List.length_append, List.length_singleton,
      weigh_run, weigh_nil]
    change s.owners + _ + 1 = s.owners + _ + (0 + 0)
    omega
  · simp [Watch.State.update, hopen]

variable (hclosed : s.announcedQueue.dropped = true → s.owners = 0)

include hclosed

/-- A change to anything else passes on what it has in hand. -/
theorem Keeps.quiet (hsame : s'.owning = s.owning) (hweigh : weigh weight more = w)
    (habove : ∀ i ∈ more, hierarchy.Above n i) : Keeps n w s s' more := by
  refine ⟨habove, ?_, ?_⟩
  · rw [owners_congr hsame, counted_congr hsame, hweigh]
  · rw [queue_congr hsame, owners_congr hsame]
    exact hclosed

theorem Keeps.silent (hsame : s'.owning = s.owning) : Keeps n 0 s s' [] :=
  .quiet hclosed hsame rfl above_nil

/-- The queue of announcements is open as long as there is an owner. -/
theorem dropped_eq_false (hpos : 1 ≤ s.owners) : s.announcedQueue.dropped = false := by
  by_contra hdropped
  have hnone : s.owners = 0 := hclosed (by simpa using hdropped)
  omega

theorem keeps_removeAnnounce (ns : Tuple) {todo : Nat → Todo}
    (hweigh : ∀ a, weigh weight (todo a) = 0)
    (habove : ∀ a, ∀ i ∈ todo a, hierarchy.Above n i) :
    Keeps n 0 s (s.removeAnnounce ns todo).1 (s.removeAnnounce ns todo).2 := by
  unfold Shared.removeAnnounce
  split
  · exact .silent hclosed rfl
  · exact .quiet hclosed rfl (hweigh _) (habove _)

/-- The handles of an announcement are closed under the mutexes it is dropped
under. -/
theorem keeps_dropAnnounceHalf (a : Nat) :
    Keeps 1 0 s (s.dropAnnounceHalf a).1 (s.dropAnnounceHalf a).2 := by
  have hfloor (h : Subscribed) : 1 ≤ hierarchy.floor (.closeSubscribed h .notFound) := le_rfl
  have hweight (h : Subscribed) : weight (.closeSubscribed h .notFound) = 0 := rfl
  unfold Shared.dropAnnounceHalf
  split
  · exact .silent hclosed rfl
  · refine .quiet hclosed rfl ?_ (above_map hfloor _)
    exact (weigh_map hweight _).trans (Nat.zero_mul _)

theorem keeps_routeSubscribed (h : Subscribed) :
    Keeps 1 0 s (s.routeSubscribed h).1 (s.routeSubscribed h).2 := by
  unfold Shared.routeSubscribed
  split
  · split
    · exact .silent hclosed rfl
    · dsimp only
      split
      · exact .silent hclosed rfl
      · split
        · exact .quiet hclosed rfl rfl (above_singleton le_rfl)
        · exact .silent hclosed rfl
  · exact .silent hclosed rfl

theorem keeps_pushUnknown (h : Subscribed) :
    Keeps 1 0 s (s.pushUnknown h).1 (s.pushUnknown h).2 := by
  unfold Shared.pushUnknown
  split
  · dsimp only
    split
    · exact .silent hclosed rfl
    · exact .quiet hclosed rfl rfl (above_singleton le_rfl)
  · exact .silent hclosed rfl

theorem keeps_announce (ns : Tuple) :
    Keeps 4 0 s (s.announce ns).1 (s.announce ns).2 := by
  unfold Shared.announce
  split
  · exact .silent hclosed rfl
  · exact .quiet hclosed rfl rfl (above_concat (above_push le_rfl _) le_rfl)

theorem keeps_dropAnnounce (h : Announce) : Keeps 0 0 s s (s.dropAnnounce h) := by
  unfold Shared.dropAnnounce
  dsimp only
  split
  · exact .quiet hclosed rfl rfl (above_singleton (Nat.zero_le _))
  · exact .quiet hclosed rfl rfl (above_concat (above_unannounce _) (Nat.zero_le _))

theorem keeps_serve (h : Subscribed) (latest : Option (Nat × Nat)) :
    Keeps 1 0 s (s.serve h latest).1 (s.serve h latest).2 := by
  unfold Shared.serve
  split
  · exact .silent hclosed rfl
  · split
    · exact .quiet hclosed rfl rfl (above_singleton le_rfl)
    · exact .quiet hclosed rfl rfl
        (above_concat (above_push (by omega) _) (by decide : 1 ≤ 4))

theorem keeps_dropSubscribed (h : Subscribed) : Keeps 1 0 s s (s.dropSubscribed h) := by
  unfold Shared.dropSubscribed
  split
  · exact .silent hclosed rfl
  · refine .quiet hclosed rfl ?_ (above_concat (above_terminal le_rfl _ _ _) (by decide : 1 ≤ 4))
    rw [weigh_append, weigh_publisherSend]
    rfl

theorem keeps_removeSubscribed (id : Nat) :
    Keeps 4 0 s (s.removeSubscribed id).1 (s.removeSubscribed id).2 := by
  unfold Shared.removeSubscribed
  split
  · exact .silent hclosed rfl
  · exact .quiet hclosed rfl rfl (above_singleton le_rfl)

theorem keeps_removeAnnounced (ns : Tuple) :
    Keeps 4 0 s (s.removeAnnounced ns).1 (s.removeAnnounced ns).2 := by
  unfold Shared.removeAnnounced
  split
  · exact .silent hclosed rfl
  · exact .quiet hclosed rfl rfl (above_singleton le_rfl)

theorem keeps_okAnnounced (h : Announced) :
    Keeps 2 1 s (s.okAnnounced h).1 (s.okAnnounced h).2 := by
  unfold Shared.okAnnounced
  split
  · exact .quiet hclosed rfl rfl (above_singleton (by decide : 2 ≤ 4))
  · exact .quiet hclosed rfl rfl
      (above_concat (above_subscriberSend le_rfl _) (by decide : 2 ≤ 4))

/-! The operations that change who owns the queue. -/

theorem keeps_recvAnnounce (hopen : s.announcedQueue.dropped = false) (ns : Tuple) :
    Keeps 4 1 s (s.recvAnnounce ns).1 (s.recvAnnounce ns).2 := by
  unfold Shared.recvAnnounce
  split
  · exact .quiet hclosed rfl rfl (above_singleton le_rfl)
  · refine ⟨above_concat (above_singleton le_rfl) le_rfl, ?_, ?_⟩
    · change s.owners + 1 + s.counted + 1 = s.owners + s.counted + 2
      omega
    · simp [hopen]

theorem keeps_dropSubscriber (hpos : 1 ≤ s.owners) :
    Keeps 2 1 s s.dropSubscriber.1 s.dropSubscriber.2 := by
  have hfloor (h : Announced) : 2 ≤ hierarchy.floor (.dropAnnounced h) := le_rfl
  have hweight (h : Announced) : weight (.dropAnnounced h) = 1 := rfl
  unfold Shared.dropSubscriber
  split
  · next hlast =>
      refine ⟨above_map hfloor _, ?_, fun _ => rfl⟩
      have hqueued : weigh weight (s.announcedQueue.value.map fun h =>
          (.run (.dropAnnounced h) : Instr Mutex Op)) = 1 * s.announcedQueue.value.length :=
        weigh_map hweight _
      simp only [hqueued, Shared.counted, List.length_nil]
      omega
  · next hmore =>
      refine ⟨above_nil, ?_, ?_⟩
      · change s.owners - 1 + s.counted + 1 = s.owners + s.counted + 0
        omega
      · intro hdropped
        have hnone : s.owners = 0 := hclosed hdropped
        omega

/-- Every operation does, with what it has in hand among the owners. -/
theorem keeps_exec (hhand : weight op ≤ s.owners) :
    Keeps (hierarchy.floor op) (weight op) s (exec s op).1 (exec s op).2 := by
  have hopen (hpos : 1 ≤ s.owners) : s.announcedQueue.dropped = false :=
    dropped_eq_false hclosed hpos
  cases op with
  | recvAnnounceOk ns => exact .silent hclosed (owning_withAnnounce s ns _)
  | takeAnnounce ns err =>
      exact keeps_removeAnnounce hclosed ns (fun _ => rfl) fun a =>
        above_concat (above_singleton (by decide : 1 ≤ 4)) le_rfl
  | recvError a err => exact .silent hclosed rfl
  | dropAnnounceHalf a => exact keeps_dropAnnounceHalf hclosed a
  | insertSubscribed h => exact .silent hclosed (owning_insertSubscribed s h)
  | routeSubscribed h => exact keeps_routeSubscribed hclosed h
  | pushUnknown h => exact keeps_pushUnknown hclosed h
  | recvUnsubscribe id => exact .silent hclosed (owning_recvUnsubscribe s id)
  | recvTrackStatusRequest msg => exact .silent hclosed (owning_withAnnounce s _ _)
  | announce ns => exact keeps_announce hclosed ns
  | storeAnnounce h => exact .silent hclosed rfl
  | dropAnnounce h => exact keeps_dropAnnounce hclosed h
  | removeAnnounce ns =>
      exact keeps_removeAnnounce hclosed ns (fun _ => rfl) fun a => above_singleton le_rfl
  | serve h latest => exact keeps_serve hclosed h latest
  | served h => exact .silent hclosed rfl
  | closeSubscribed h err =>
      exact .quiet hclosed (owning_closeSubscribed s h err) rfl (above_singleton le_rfl)
  | dropSubscribed h => exact keeps_dropSubscribed hclosed h
  | removeSubscribed id => exact keeps_removeSubscribed hclosed id
  | dropSubscribedHalf i => exact .silent hclosed rfl
  | recvAnnounce ns => exact keeps_recvAnnounce hclosed (hopen hhand) ns
  | pushAnnounced h => exact keeps_pushAnnounced (hopen hhand) h
  | storeAnnounced h => exact .silent hclosed rfl
  | removeAnnounced ns => exact keeps_removeAnnounced hclosed ns
  | dropAnnouncedHalf j => exact .silent hclosed rfl
  | okAnnounced h => exact keeps_okAnnounced hclosed h
  | keepAnnounced h =>
      refine ⟨above_nil, ?_, hclosed⟩
      simp only [exec, Shared.counted, List.length_cons, weigh_nil, weight]
      omega
  | closeAnnounced h err => exact .quiet hclosed rfl rfl (above_singleton le_rfl)
  | dropAnnounced h =>
      refine .quiet hclosed rfl ?_ (above_concat (above_subscriberSend le_rfl _) le_rfl)
      change weigh weight (subscriberSend _ ++ _) = 1
      rw [weigh_append, weigh_subscriberSend]
      rfl
  | dropAnnouncedFields h =>
      let mid : Shared := s.dropAnnouncedHalf h.state
      have hmid : Keeps 2 1 mid mid.dropSubscriber.1 mid.dropSubscriber.2 :=
        keeps_dropSubscriber hclosed hhand
      exact hmid.after rfl
  | insertSubscribe id track => exact .silent hclosed rfl
  | waitSubscribe id =>
      refine ⟨above_nil, ?_, hclosed⟩
      simp only [exec, Shared.counted, List.length_cons, weigh_nil, weight]
      omega
  | dropSubscribe id =>
      exact .quiet hclosed rfl rfl (above_concat (above_subscriberSend le_rfl _) le_rfl)
  | dropSubscribeFields id =>
      let mid : Shared := { s with subscriber := s.subscriber.leave id }
      have hmid : Keeps 2 1 mid mid.dropSubscriber.1 mid.dropSubscriber.2 :=
        keeps_dropSubscriber hclosed hhand
      exact hmid.after rfl
  | recvSubscribeOk msg => exact .silent hclosed rfl
  | recvSubscribeEnd id code => exact .silent hclosed rfl
  | openStream header => exact .silent hclosed (owning_openStream s header)
  | terminate id err => exact .silent hclosed rfl
  | recvDatagram bytes => exact .silent hclosed rfl
  | giveBack =>
      refine ⟨above_nil, ?_, hclosed⟩
      simp only [exec, Shared.counted, weigh_nil, weight]
      omega
  | dropSubscriber => exact keeps_dropSubscriber hclosed hhand
  | push msg => exact .silent hclosed (owning_push s msg)

/-! How threads begin. -/

/-- A thread that needs no `Subscriber`, with one critical section. -/
theorem keeps_section {l : Mutex} (hop : hierarchy.level l < hierarchy.floor op)
    (hweigh : weight op = 0) : Keeps 0 0 s s [.lock l op] := by
  refine .quiet hclosed rfl ?_ (above_section hop above_nil)
  rw [weigh_lock, hweigh]
  rfl

theorem keeps_borrowed {todo : Todo} (hweigh : weigh weight todo = 1)
    (habove : ∀ i ∈ todo, hierarchy.Above 0 i) (h : s.borrowed todo = some (s', more)) :
    Keeps 0 0 s s' more := by
  unfold Shared.borrowed at h
  split at h
  · cases h
  · next hsome =>
      cases h
      refine ⟨habove, ?_, hclosed⟩
      simp only [Shared.counted, hweigh]
      omega

theorem keeps_receive {msg : Message} (h : s.receive msg = some (s', more)) :
    Keeps 0 0 s s' more := by
  have hback : ∀ i ∈ ([.run .giveBack] : Todo), hierarchy.Above 0 i := above_singleton (by decide)
  cases msg with
  | announce m =>
      exact keeps_borrowed hclosed rfl (above_section (by simp [hierarchy]) above_nil) h
  | unannounce m => exact keeps_borrowed hclosed rfl (above_section (by simp [hierarchy]) hback) h
  | subscribeOk m => exact keeps_borrowed hclosed rfl (above_section (by simp [hierarchy]) hback) h
  | subscribeError m =>
      exact keeps_borrowed hclosed rfl (above_section (by simp [hierarchy]) hback) h
  | subscribeDone m =>
      exact keeps_borrowed hclosed rfl (above_section (by simp [hierarchy]) hback) h
  | maxSubscribeId m => exact keeps_borrowed hclosed rfl hback h
  | trackStatus m => exact keeps_borrowed hclosed rfl hback h
  | announceOk m =>
      cases h
      exact keeps_section hclosed (by simp [hierarchy]) rfl
  | announceError m =>
      cases h
      exact keeps_section hclosed (by simp [hierarchy]) rfl
  | announceCancel m =>
      cases h
      exact keeps_section hclosed (by simp [hierarchy]) rfl
  | subscribe m =>
      cases h
      exact .quiet hclosed rfl rfl (above_section (by simp [hierarchy])
        (above_section (by simp [hierarchy]) (above_singleton (Nat.zero_le _))))
  | unsubscribe m =>
      cases h
      exact keeps_section hclosed (by simp [hierarchy]) rfl
  | subscribeUpdate m =>
      cases h
      exact .silent hclosed rfl
  | trackStatusRequest m =>
      cases h
      exact keeps_section hclosed (by simp [hierarchy]) rfl
  | goAway m | subscribeNamespace m | subscribeNamespaceOk m | subscribeNamespaceError m
  | unsubscribeNamespace m | fetch m | fetchCancel m | fetchOk m | fetchError m => cases h

/-- An announcement goes from the queue to the application. -/
theorem keeps_accept (h : s.begin .accept = some (s', more)) : Keeps 0 0 s s' more := by
  simp only [Shared.begin] at h
  split at h
  · cases h
  · split at h
    · next handle queue hpop =>
        cases h
        obtain ⟨rest, hvalue, rfl⟩ := queue_of_pop hpop
        refine ⟨above_nil, ?_, hclosed⟩
        simp only [Shared.counted, Watch.State.update, hvalue, List.length_cons, weigh_nil]
        omega
    · cases h

/-- A handle of the publisher's application, taken to be worked on. -/
theorem keeps_taken {p : Prop} [Decidable p] {mid : Shared}
    (h : (if p then some (mid, ([.run op] : Todo)) else none) = some (s', more))
    (hsame : mid.owning = s.owning) (hweigh : weight op = 0) : Keeps 0 0 s s' more := by
  split at h
  · cases h
    refine .quiet hclosed hsame ?_ (above_singleton (Nat.zero_le _))
    rw [weigh_run, hweigh]
    rfl
  · cases h

/-- A handle of the subscriber's application. -/
theorem keeps_takenAnnounced {h : Announced} (hweigh : weight op = 1)
    (hbegin : (if h ∈ s.accepted then
        some ({ s with accepted := s.accepted.erase h }, ([.run op] : Todo))
      else none) = some (s', more)) : Keeps 0 0 s s' more := by
  split at hbegin
  · next hmem =>
      cases hbegin
      refine ⟨above_singleton (Nat.zero_le _), ?_, hclosed⟩
      have hlength := List.length_erase_of_mem hmem
      have hpos := List.length_pos_of_mem hmem
      simp only [Shared.counted, hlength, weigh_run, weigh_nil, hweigh]
      omega
  · cases hbegin

/-- A call of `subscribe` owns the queue until it returns. -/
theorem keeps_subscribe (hidle : s.subscribers ≤ s.owners) {call : SubscribeCall}
    (h : s.begin (.subscribe call) = some (s', more)) : Keeps 0 0 s s' more := by
  simp only [Shared.begin, Shared.borrowed] at h
  split at h
  · cases h
  · next hsome =>
      cases h
      refine ⟨?_, ?_, ?_⟩
      · exact List.forall_mem_append.mpr ⟨above_push (by omega) _,
          above_section (by simp [hierarchy]) (List.forall_mem_cons.mpr
            ⟨Nat.zero_le _, above_singleton (Nat.zero_le _)⟩)⟩
      · rw [weigh_append, weigh_subscriberSend]
        simp only [Shared.counted, weigh_lock, weigh_run, weigh_nil, weight]
        omega
      · intro hdropped
        have hnone := hclosed hdropped
        omega

theorem keeps_dropSubscribe {id : Nat} (h : s.begin (.dropSubscribe id) = some (s', more)) :
    Keeps 0 0 s s' more := by
  simp only [Shared.begin] at h
  split at h
  · next hmem =>
      cases h
      refine ⟨above_singleton (Nat.zero_le _), ?_, hclosed⟩
      have hlength := List.length_erase_of_mem hmem
      have hpos := List.length_pos_of_mem hmem
      simp only [Shared.counted, hlength, weigh_run, weigh_nil, weight]
      omega
  · cases h

theorem keeps_cloneSubscriber (hidle : s.subscribers ≤ s.owners)
    (h : s.begin .cloneSubscriber = some (s', more)) : Keeps 0 0 s s' more := by
  simp only [Shared.begin] at h
  split at h
  · cases h
  · next hsome =>
      cases h
      refine ⟨above_nil, ?_, ?_⟩
      · simp only [Shared.counted, weigh_nil]
        omega
      · intro hdropped
        have hnone := hclosed hdropped
        omega

theorem keeps_begin (hidle : s.subscribers ≤ s.owners) {cmd : Cmd}
    (h : s.begin cmd = some (s', more)) : Keeps 0 0 s s' more := by
  cases cmd with
  | receive msg => exact keeps_receive hclosed h
  | announce ns =>
      cases h
      exact keeps_section hclosed (by simp [hierarchy]) rfl
  | dropAnnounce handle => exact keeps_taken hclosed h rfl rfl
  | popSubscribed handle =>
      obtain ⟨c, -, h⟩ := Option.bind_eq_some_iff.mp h
      split at h
      · cases h
      · cases h
        exact .silent hclosed rfl
  | popTrackStatus handle =>
      obtain ⟨c, -, h⟩ := Option.bind_eq_some_iff.mp h
      split at h
      · cases h
      · cases h
        exact .silent hclosed rfl
  | respond msg =>
      cases h
      exact .quiet hclosed rfl rfl (above_push (by omega) _)
  | popUnknown =>
      simp only [Shared.begin] at h
      split at h
      · cases h
        exact .silent hclosed rfl
      · cases h
  | serve handle latest => exact keeps_taken hclosed h rfl rfl
  | update i groupId objectId =>
      obtain ⟨state, -, h⟩ := Option.bind_eq_some_iff.mp h
      split at h
      · cases h
      · cases h
        exact .silent hclosed rfl
  | closeSubscribed handle err => exact keeps_taken hclosed h rfl rfl
  | dropSubscribed handle => exact keeps_taken hclosed h rfl rfl
  | accept => exact keeps_accept hclosed h
  | okAnnounced handle => exact keeps_takenAnnounced hclosed rfl h
  | closeAnnounced handle err => exact keeps_takenAnnounced hclosed rfl h
  | dropAnnounced handle => exact keeps_takenAnnounced hclosed rfl h
  | subscribe call => exact keeps_subscribe hclosed hidle h
  | dropSubscribe id => exact keeps_dropSubscribe hclosed h
  | openStream header | terminate id err | recvDatagram bytes =>
      exact keeps_borrowed hclosed rfl (above_section (by simp [hierarchy])
        (above_singleton (Nat.zero_le _))) h
  | cloneSubscriber => exact keeps_cloneSubscriber hclosed hidle h
  | dropSubscriber => exact keeps_borrowed hclosed rfl (above_singleton (Nat.zero_le _)) h
  | send =>
      simp only [Shared.begin] at h
      split at h
      · cases h
        exact .silent hclosed rfl
      · cases h
  | closeOutgoing =>
      cases h
      exact .silent hclosed rfl

end

/-! Runs of the session. -/

variable {t t' : Threads Mutex Op Shared} {act : Act Cmd}

/-- What a thread works with is among the owners. -/
theorem Inv.hand (h : Inv t) {op : Op} {rest : Todo} (hmem : .run op :: rest ∈ t.todo) :
    weight op ≤ t.shared.owners := by
  have hstack : weigh weight (.run op :: rest) ≤ total weight t.todo := weigh_le_total hmem
  have howners := h.counted
  rw [weigh_run] at hstack
  omega

theorem Inv.idle (h : Inv t) : t.shared.subscribers ≤ t.shared.owners := by
  have howners := h.counted
  rw [Shared.counted] at howners
  omega

theorem inv_init : Inv ⟨Shared.init, []⟩ where
  clear := fun _ h => absurd h List.not_mem_nil
  counted := rfl
  closed := by
    intro h
    cases h

theorem inv_step (h : Inv t) (hstep : step session t act = some t') : Inv t' := by
  have hsteps := steps_of_step hstep
  have hclear : ∀ stack ∈ t'.todo, hierarchy.Clear stack := by
    refine Hierarchy.clear_step h.clear hsteps ?_ ?_
    · intro cmd shared stack hbegin
      exact (keeps_begin h.closed h.idle hbegin).above
    · intro op rest hmem
      exact (keeps_exec h.closed (h.hand hmem)).above
  have howners := h.counted
  cases hsteps with
  | start hbegin =>
      have hkeeps := keeps_begin h.closed h.idle hbegin
      refine ⟨hclear, ?_, hkeeps.closed⟩
      have hbalance := hkeeps.balance
      rw [total_concat]
      dsimp only
      omega
  | @run i op rest hi =>
      have hkeeps := keeps_exec h.closed (h.hand (List.mem_of_getElem? hi))
      refine ⟨hclear, ?_, hkeeps.closed⟩
      have hbalance := hkeeps.balance
      have htotal : total weight (t.todo.set i ((exec t.shared op).2 ++ rest)) +
          weigh weight (.run op :: rest) =
            total weight t.todo + weigh weight ((exec t.shared op).2 ++ rest) := total_set hi _
      rw [weigh_run, weigh_append] at htotal
      dsimp only [session]
      omega
  | @lock i l op rest hi _ =>
      refine ⟨hclear, ?_, h.closed⟩
      have htotal : total weight (t.todo.set i (.run op :: .release l :: rest)) +
          weigh weight (.lock l op :: rest) =
            total weight t.todo + weigh weight (.run op :: .release l :: rest) := total_set hi _
      rw [weigh_lock, weigh_run, weigh_release] at htotal
      dsimp only
      omega
  | @release i l rest hi =>
      refine ⟨hclear, ?_, h.closed⟩
      have htotal : total weight (t.todo.set i rest) + weigh weight (.release l :: rest) =
          total weight t.todo + weigh weight rest := total_set hi _
      rw [weigh_release] at htotal
      dsimp only
      omega

theorem inv_of_reachable
    (h : Reachable (step session) (fun _ _ => True) ⟨Shared.init, []⟩ t) : Inv t :=
  h.invariant inv_init fun hinv _ hstep => inv_step hinv hstep

/-- In no state that a session can reach is a thread about to take a mutex that
it holds, and the announcement that is being received can be queued. -/
theorem no_selfDeadlock (h : Reachable (step session) (fun _ _ => True) ⟨Shared.init, []⟩ t) :
    (∀ stack ∈ t.todo, ¬ SelfDeadlock stack) ∧
      ∀ handle rest, .run (.pushAnnounced handle) :: rest ∈ t.todo →
        ∃ queue, t.shared.announcedQueue.push handle = .ok queue := by
  have hinv := inv_of_reachable h
  constructor
  · intro stack hstack
    exact (hinv.clear stack hstack).not_selfDeadlock
  · intro handle rest hmem
    have hhand : 1 ≤ t.shared.owners := hinv.hand hmem
    have hopen : t.shared.announcedQueue.dropped = false := dropped_eq_false hinv.closed hhand
    exact ⟨_, by rw [Watch.Queue.push, hopen]; rfl⟩

def anySubscription : Message.Subscribe where
  id := 0
  trackAlias := 0
  trackNamespace := ⟨[]⟩
  trackName := ""
  subscriberPriority := 127
  groupOrder := .publisher
  filterType := .latestGroup
  start := none
  end_ := none
  params := ∅

/-- A subscription is routed to an announcement; the announcement is cancelled
while its handle is being dropped, and another one arrives. -/
def nestedDrop : List (Act Cmd) :=
  [.start (.announce ⟨[]⟩), .tick 0, .tick 0, .tick 0, .tick 0, .tick 0,
    .start (.receive (.subscribe anySubscription)), .tick 1, .tick 1, .tick 1, .tick 1, .tick 1,
    .tick 1, .tick 1,
    .start (.receive (.announceCancel ⟨⟨[]⟩, 0, ""⟩)), .tick 2, .tick 2, .tick 2,
    .start (.dropAnnounce ⟨0, ⟨[]⟩⟩), .tick 3, .tick 3, .tick 2, .tick 2, .tick 2,
    .start (.receive (.announce ⟨⟨[]⟩, ∅⟩)), .tick 4, .tick 4]

/-- The subscription is closed under `announces`, and about to be taken out of
`subscribed`. -/
theorem no_selfDeadlock_nestedDrop :
    ∃ t nested queued, Reachable (step session) (fun _ _ => True) ⟨Shared.init, []⟩ t ∧
      nested ∈ t.todo ∧ nested.head? = some (.lock .subscribed (.removeSubscribed 0)) ∧
      .announces ∈ held nested ∧ ¬ SelfDeadlock nested ∧
      .run (.pushAnnounced queued) ∈ t.todo.filterMap List.head? ∧
      ∃ queue, t.shared.announcedQueue.push queued = .ok queue := by
  have hrun : ∃ t nested queued rest,
      run (step session) (fun _ _ => true) ⟨Shared.init, []⟩ nestedDrop = some t ∧
      nested ∈ t.todo ∧ nested.head? = some (.lock .subscribed (.removeSubscribed 0)) ∧
      .announces ∈ held nested ∧ .run (.pushAnnounced queued) :: rest ∈ t.todo :=
    ⟨_, _, ⟨0, ⟨[]⟩, false, none⟩, _, rfl, .tail _ (.tail _ (.head _)), rfl, by decide,
      .tail _ (.tail _ (.tail _ (.tail _ (.head _))))⟩
  obtain ⟨t, nested, queued, rest, ht, hnested, hhead, hheld, hqueued⟩ := hrun
  have hreach : Reachable (step session) (fun _ _ => True) ⟨Shared.init, []⟩ t :=
    reachable_of_run _ (fun _ _ _ => trivial) ht
  obtain ⟨hfree, hpush⟩ := no_selfDeadlock hreach
  exact ⟨t, nested, queued, hreach, hnested, hhead, hheld, hfree nested hnested,
    List.mem_filterMap.mpr ⟨_, hqueued, rfl⟩, hpush queued rest hqueued⟩

/-- Nor do the threads wait for each other: as long as one of them has
something to do, one can go on. -/
theorem session_goes_on (h : Reachable (step session) (fun _ _ => True) ⟨Shared.init, []⟩ t)
    (hbusy : ∃ stack ∈ t.todo, stack ≠ []) :
    ∃ i t', step session t (.tick i) = some t' :=
  Hierarchy.exists_tick (inv_of_reachable h).clear hbusy

end MoqTransport.Session.Locking
