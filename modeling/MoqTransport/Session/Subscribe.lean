import MoqTransport.Lib.Machine
import MoqTransport.Message.Message
import MoqTransport.Session.Subscriber
import MoqTransport.Watch.Queue

/-!
Calls of `subscribe` on one session. A call takes an id, queues its SUBSCRIBE,
and only then puts its entry into the table of subscriptions; the task that
sends messages, the peer and the tasks that receive may all run between the two
steps. A reply that arrives there finds no entry and is lost (`found_iff`).
-/

namespace MoqTransport.Session

open Streaming Coding Data Serve Machine

/-- What `Subscribe::closed` finds when it is polled. -/
def Subscription.closed (sub : Subscription) : Watch.Poll (Except ServeError Unit) :=
  match sub.state.value.closed with
  | some err => .ready (.error err)
  | none => if sub.state.dropped then .ready (.ok ()) else .pending

namespace SubscribeRecv

/-- The subscription is accepted. -/
def ok (sub : Subscription) : Except ServeError Unit × Subscription :=
  if sub.state.value.ok then
    (.error .duplicate, sub)
  else if sub.state.dropped then
    (.ok (), sub)
  else
    (.ok (), { sub with state := sub.state.update fun s => { s with ok := true } })

end SubscribeRecv

namespace Subscriber

def recvSubscribeOk (s : Subscriber) (msg : Message.SubscribeOk) :
    Except SessionError Unit × Subscriber :=
  match s.subscribes.lookup msg.id with
  | none => (.ok (), s)
  | some _ =>
      let (result, sub) := SubscribeRecv.ok (s.shared msg.id)
      (result.mapError .serve, { s with shared := Function.update s.shared msg.id sub })

/-- The peer ends the subscription, before or after it was accepted. -/
def recvSubscribeEnd (s : Subscriber) (id code : Nat) : Except SessionError Unit × Subscriber :=
  match s.subscribes.lookup id with
  | none => (.ok (), s)
  | some recv =>
      let (result, sub) := recv.error (s.shared id) (.closed code)
      (result.mapError .serve, ⟨s.subscribes.erase id, Function.update s.shared id sub⟩)

def recvSubscribeError (s : Subscriber) (msg : Message.SubscribeError) :
    Except SessionError Unit × Subscriber :=
  s.recvSubscribeEnd msg.id msg.code

def recvSubscribeDone (s : Subscriber) (msg : Message.SubscribeDone) :
    Except SessionError Unit × Subscriber :=
  s.recvSubscribeEnd msg.id msg.code

/-- The entry of a new subscription to a track. -/
def insert (s : Subscriber) (id : Nat) (track : Track) : Subscriber :=
  ⟨s.subscribes.insert id ⟨some .track⟩,
    Function.update s.shared id ⟨track, .new ⟨false, none⟩⟩⟩

/-- The application's half goes away. -/
def leave (s : Subscriber) (id : Nat) : Subscriber :=
  { s with shared :=
      Function.update s.shared id { s.shared id with state := (s.shared id).state.drop } }

theorem narrows_recvSubscribeOk (s : Subscriber) (msg : Message.SubscribeOk) :
    Narrows s (s.recvSubscribeOk msg).2 := by
  unfold recvSubscribeOk
  split
  · exact .refl s
  · refine ⟨id, ?_⟩
    intro i _
    by_cases hi : i = msg.id
    · subst hi
      simp only [Function.update_self, SubscribeRecv.ok]
      split
      · rfl
      · split
        · rfl
        · rfl
    · simp only [Function.update_of_ne hi]

theorem narrows_recvSubscribeEnd (s : Subscriber) (id code : Nat) :
    Narrows s (s.recvSubscribeEnd id code).2 := by
  unfold recvSubscribeEnd
  split
  · exact .refl s
  · exact narrows_erase s id _

/-- A call that is still there learns that it was accepted. -/
theorem ok_recvSubscribeOk {s : Subscriber} {msg : Message.SubscribeOk}
    (hmem : msg.id ∈ s.subscribes) (hthere : (s.shared msg.id).state.dropped = false) :
    ((s.recvSubscribeOk msg).2.shared msg.id).state.value.ok = true := by
  obtain ⟨recv, hlookup⟩ := Finmap.mem_iff.mp hmem
  simp only [recvSubscribeOk, hlookup, Function.update_self, SubscribeRecv.ok, hthere]
  split
  · next hok => exact hok
  · rfl

end Subscriber

/-- The session's half is dropped, so nobody keeps waiting. -/
theorem SubscribeRecv.closed_error (recv : SubscribeRecv) (sub : Subscription) (err : ServeError) :
    (recv.error sub err).2.closed ≠ .pending := by
  have hdropped : (recv.error sub err).2.state.dropped = true := by
    unfold error
    dsimp only
    split
    · rfl
    · split
      · rfl
      · rfl
  unfold Subscription.closed
  rw [hdropped]
  split <;> simp

theorem Subscriber.closed_recvSubscribeEnd {s : Subscriber} {id : Nat} (code : Nat)
    (hmem : id ∈ s.subscribes) : ((s.recvSubscribeEnd id code).2.shared id).closed ≠ .pending := by
  obtain ⟨recv, hlookup⟩ := Finmap.mem_iff.mp hmem
  simp only [recvSubscribeEnd, hlookup, Function.update_self]
  exact recv.closed_error _ _

inductive CallPhase where
  | started
  | queued
  | waiting
  /-- The call has returned or was dropped while it waited. -/
  | left
deriving DecidableEq

/-- One call of `subscribe`, with the track it was given. -/
structure SubscribeCall where
  trackNamespace : Tuple
  trackName : String
  track : Track
  phase : CallPhase

/-- The message `Subscribe::new` sends. -/
def SubscribeCall.message (call : SubscribeCall) (id : Nat) : Message.Subscribe where
  id := id
  trackAlias := id
  trackNamespace := call.trackNamespace
  trackName := call.trackName
  subscriberPriority := 127
  groupOrder := .publisher
  filterType := .latestGroup
  start := some ⟨.latest 0, .absolute 0⟩
  end_ := some ⟨.none, .none⟩
  params := ∅

/-- The entry of the call is in the table, or has been. -/
def SubscribeCall.Inserted (call : SubscribeCall) : Prop :=
  call.phase = .waiting ∨ call.phase = .left

/-- The calls of a session; the id of a call is its position. -/
structure Subscribing where
  subscriber : Subscriber
  calls : List SubscribeCall
  outgoing : Watch.Queue Message
  wire : List Message
  /-- A stream has failed with the error, and its subscription is still to be
  terminated. -/
  failed : Option (Nat × ServeError)
  /-- Subscriptions that were removed, or that the peer has ended. -/
  ended : Finset Nat

inductive SubscribingAct where
  | start (trackNamespace : Tuple) (trackName : String) (track : Track)
  | queue (id : Nat)
  | insert (id : Nat)
  | leave (id : Nat)
  | send
  | closeOutgoing
  | recvOk (msg : Message.SubscribeOk)
  | recvError (msg : Message.SubscribeError)
  | recvDone (msg : Message.SubscribeDone)
  | recvStream (stream : RecvStream)
  /-- The end of `recv_stream` after an error. -/
  | terminate
  | recvDatagram (bytes : Bytes)

namespace Subscribing

def init : Subscribing :=
  ⟨⟨∅, fun _ => ⟨.produce, .new ⟨false, none⟩⟩⟩, [], .new [], [], none, ∅⟩

def setCall (s : Subscribing) (id : Nat) (call : SubscribeCall) : Subscribing :=
  { s with calls := s.calls.set id call }

/-- A message that cannot be queued any more is dropped. -/
def sendMessage (s : Subscribing) (msg : Message) : Subscribing :=
  match s.outgoing.push msg with
  | .ok outgoing => { s with outgoing := outgoing }
  | .error _ => s

/-- The SUBSCRIBE of the id has been sent. -/
def onWire (s : Subscribing) (id : Nat) : Bool :=
  s.wire.any fun
    | .subscribe m => m.id = id
    | _ => false

/-- The receiving side has changed the table; what it removed has ended. -/
def receive (s : Subscribing) (subscriber : Subscriber) : Subscribing :=
  { s with
    subscriber := subscriber
    ended := s.ended ∪ (s.subscriber.subscribes.keys \ subscriber.subscribes.keys) }

/-- The peer has ended a subscription it knows of. -/
def finish (s : Subscribing) (id : Nat) : Subscribing :=
  if s.onWire id then { s with ended := Insert.insert id s.ended } else s

/-- A call that is in the given phase takes its next step. -/
def withCall (s : Subscribing) (id : Nat) (phase : CallPhase)
    (f : SubscribeCall → Subscribing) : Option Subscribing :=
  match s.calls[id]? with
  | some call => if call.phase = phase then some (f call) else none
  | none => none

/-- A stream is received up to the end of `recv_stream_inner`. -/
def recvStream (s : Subscribing) (stream : RecvStream) : Subscribing :=
  match Reader.decode Header.decode (Reader.new stream) with
  | .error _ => s
  | .ok (header, reader) =>
      match s.subscriber.recvStreamInner reader header with
      | (.error (.err (.serve err)), subscriber) =>
          { s.receive subscriber with failed := some (header.subscribeId, err) }
      | (_, subscriber) => s.receive subscriber

def step (s : Subscribing) : SubscribingAct → Option Subscribing
  | .start ns name track => some { s with calls := s.calls ++ [⟨ns, name, track, .started⟩] }
  | .queue id => s.withCall id .started fun call =>
      (s.setCall id { call with phase := .queued }).sendMessage (.subscribe (call.message id))
  | .insert id => s.withCall id .queued fun call =>
      { s.setCall id { call with phase := .waiting } with
        subscriber := s.subscriber.insert id call.track }
  | .leave id => s.withCall id .waiting fun call =>
      { s.setCall id { call with phase := .left } with
        subscriber := s.subscriber.leave id }.sendMessage (.unsubscribe ⟨id⟩)
  | .send =>
      match s.outgoing.pop with
      | (.ready (some msg), outgoing) =>
          some { s with outgoing := outgoing, wire := s.wire ++ [msg] }
      | _ => none
  | .closeOutgoing => some { s with outgoing := s.outgoing.drop }
  | .recvOk msg => some (s.receive (s.subscriber.recvSubscribeOk msg).2)
  | .recvError msg => some ((s.receive (s.subscriber.recvSubscribeError msg).2).finish msg.id)
  | .recvDone msg => some ((s.receive (s.subscriber.recvSubscribeDone msg).2).finish msg.id)
  -- The streams of a session are received one after another.
  | .recvStream stream => if s.failed = none then some (s.recvStream stream) else none
  | .terminate =>
      match s.failed with
      | some (id, err) =>
          some { s.receive (s.subscriber.terminate id err).2 with failed := none }
      | none => none
  | .recvDatagram bytes => some (s.receive (s.subscriber.recvDatagram bytes).2)

/-- The subscription a received message or stream is for. -/
def repliesTo : SubscribingAct → Option Nat
  | .recvOk msg => some msg.id
  | .recvError msg => some msg.id
  | .recvDone msg => some msg.id
  | .recvStream stream =>
      match Reader.decode Header.decode (Reader.new stream) with
      | .error _ => none
      | .ok (header, _) => some header.subscribeId
  | _ => none

/-- The subscription is in use: its SUBSCRIBE was sent and it has not ended. -/
def InUse (s : Subscribing) (id : Nat) : Prop := s.onWire id = true ∧ id ∉ s.ended

/-- A waiting call learns of the reply. -/
def Heard (sub : Subscription) : SubscribingAct → Prop
  | .recvOk _ => sub.state.value.ok = true
  | .recvError _ | .recvDone _ => sub.closed ≠ .pending
  | _ => True

/-- A reply for a subscription in use finds its entry, and reaches the call
that waits. -/
def Found (s : Subscribing) (act : SubscribingAct) : Prop :=
  ∀ id, repliesTo act = some id → s.InUse id →
    id ∈ s.subscriber.subscribes ∧
      ∀ s' call, s.step act = some s' → s.calls[id]? = some call → call.phase = .waiting →
        Heard (s'.subscriber.shared id) act

/-- A reply for a subscription in use comes after the call has inserted its
entry. -/
def InTime (s : Subscribing) (act : SubscribingAct) : Prop :=
  ∀ id, repliesTo act = some id → s.InUse id → ∃ call, s.calls[id]? = some call ∧ call.Inserted

/-- The entries belong to calls that inserted them, and stay until they end. -/
structure Invariant (s : Subscribing) : Prop where
  inserted : ∀ {id : Nat}, id ∈ s.subscriber.subscribes →
    ∃ call, s.calls[id]? = some call ∧ call.Inserted
  kept : ∀ {id : Nat} {call : SubscribeCall}, s.calls[id]? = some call → call.Inserted →
    id ∈ s.subscriber.subscribes ∨ id ∈ s.ended
  there : ∀ {id : Nat} {call : SubscribeCall}, s.calls[id]? = some call → call.phase = .waiting →
    id ∈ s.subscriber.subscribes → (s.subscriber.shared id).state.dropped = false

variable {s s' : Subscribing} {act : SubscribingAct}

theorem eq_of_withCall {id : Nat} {phase : CallPhase} {f : SubscribeCall → Subscribing}
    (h : s.withCall id phase f = some s') :
    ∃ call, s.calls[id]? = some call ∧ call.phase = phase ∧ s' = f call := by
  unfold withCall at h
  split at h
  · next call hcall =>
      split at h
      · next hphase => exact ⟨call, hcall, hphase, (Option.some.inj h).symm⟩
      · cases h
  · cases h

/-- Messages are not what the invariant is about. -/
theorem invariant_congr (hs : Invariant s) (hsubscriber : s'.subscriber = s.subscriber)
    (hcalls : s'.calls = s.calls) (hended : s'.ended = s.ended) : Invariant s' := by
  obtain ⟨subscriber, calls, outgoing, wire, failed, ended⟩ := s'
  subst hsubscriber hcalls hended
  exact ⟨hs.inserted, hs.kept, hs.there⟩

theorem invariant_sendMessage (hs : Invariant s) (msg : Message) :
    Invariant (s.sendMessage msg) := by
  unfold sendMessage
  split
  · exact invariant_congr hs rfl rfl rfl
  · exact hs

theorem not_inserted {call : SubscribeCall} (h : call.phase = .started ∨ call.phase = .queued) :
    ¬ call.Inserted := by
  rintro (hw | hl)
  · rcases h with h | h <;> cases h.symm.trans hw
  · rcases h with h | h <;> cases h.symm.trans hl

/-- A call that has nothing in the table yet may move on. -/
theorem invariant_setCall (hs : Invariant s) {id : Nat} {call call' : SubscribeCall}
    (hcall : s.calls[id]? = some call) (hbefore : ¬ call.Inserted) (hafter : ¬ call'.Inserted) :
    Invariant (s.setCall id call') := by
  have hother {i : Nat} {c : SubscribeCall} (hi : (s.setCall id call').calls[i]? = some c)
      (hc : c.Inserted) : s.calls[i]? = some c := by
    rcases (getElem?_set_iff hcall).mp hi with ⟨-, rfl⟩ | ⟨-, hold⟩
    · exact absurd hc hafter
    · exact hold
  refine ⟨?_, ?_, ?_⟩
  · intro i hi
    obtain ⟨c, hc, hinserted⟩ := hs.inserted hi
    have hne : id ≠ i := by
      rintro rfl
      rw [hcall] at hc
      cases hc
      exact hbefore hinserted
    exact ⟨c, by rwa [setCall, List.getElem?_set_ne hne], hinserted⟩
  · intro i c hi hc
    exact hs.kept (hother hi hc) hc
  · intro i c hi hc
    exact hs.there (hother hi (.inl hc)) hc

theorem invariant_start (hs : Invariant s) {call : SubscribeCall} (hphase : call.phase = .started) :
    Invariant { s with calls := s.calls ++ [call] } := by
  have hold {i : Nat} {c : SubscribeCall} (hi : (s.calls ++ [call])[i]? = some c)
      (hc : c.Inserted) : s.calls[i]? = some c := by
    rcases getElem?_concat_iff.mp hi with hi | ⟨-, rfl⟩
    · exact hi
    · exact absurd hc (not_inserted (.inl hphase))
  refine ⟨?_, ?_, ?_⟩
  · intro i hi
    obtain ⟨c, hc, hinserted⟩ := hs.inserted hi
    exact ⟨c, getElem?_concat_iff.mpr (.inl hc), hinserted⟩
  · intro i c hi hc
    exact hs.kept (hold hi hc) hc
  · intro i c hi hc
    exact hs.there (hold hi (.inl hc)) hc

theorem invariant_insert (hs : Invariant s) {id : Nat} {call : SubscribeCall}
    (hcall : s.calls[id]? = some call) :
    Invariant { s.setCall id { call with phase := .waiting } with
      subscriber := s.subscriber.insert id call.track } := by
  have hself : (s.calls.set id { call with phase := .waiting })[id]? =
      some { call with phase := .waiting } :=
    List.getElem?_set_self (List.getElem?_eq_some_iff.mp hcall).1
  refine ⟨?_, ?_, ?_⟩
  · intro i hi
    by_cases hne : id = i
    · subst hne
      exact ⟨_, hself, .inl rfl⟩
    · rcases Finmap.mem_insert.mp hi with rfl | hold
      · exact absurd rfl hne
      · obtain ⟨c, hc, hinserted⟩ := hs.inserted hold
        exact ⟨c, (List.getElem?_set_ne hne).trans hc, hinserted⟩
  · intro i c hi hc
    rcases (getElem?_set_iff hcall).mp hi with ⟨rfl, -⟩ | ⟨-, hold⟩
    · exact .inl (Finmap.mem_insert.mpr (.inl rfl))
    · rcases hs.kept hold hc with hmem | hended
      · exact .inl (Finmap.mem_insert.mpr (.inr hmem))
      · exact .inr hended
  · intro i c hi hc hmem
    rcases (getElem?_set_iff hcall).mp hi with ⟨rfl, -⟩ | ⟨hne, hold⟩
    · simp [Subscriber.insert, Watch.State.new]
    · have hmem : i ∈ s.subscriber.subscribes :=
        (Finmap.mem_insert.mp hmem).resolve_left (Ne.symm hne)
      have hthere := hs.there hold hc hmem
      simpa [Subscriber.insert, Function.update_of_ne (Ne.symm hne)] using hthere

theorem invariant_leave (hs : Invariant s) {id : Nat} {call : SubscribeCall}
    (hcall : s.calls[id]? = some call) (hwaiting : call.phase = .waiting) :
    Invariant { s.setCall id { call with phase := .left } with
      subscriber := s.subscriber.leave id } := by
  have hself : (s.calls.set id { call with phase := .left })[id]? =
      some { call with phase := .left } :=
    List.getElem?_set_self (List.getElem?_eq_some_iff.mp hcall).1
  refine ⟨?_, ?_, ?_⟩
  · intro i hi
    by_cases hne : id = i
    · subst hne
      exact ⟨_, hself, .inr rfl⟩
    · obtain ⟨c, hc, hinserted⟩ := hs.inserted hi
      exact ⟨c, (List.getElem?_set_ne hne).trans hc, hinserted⟩
  · intro i c hi hc
    rcases (getElem?_set_iff hcall).mp hi with ⟨rfl, -⟩ | ⟨-, hold⟩
    · exact hs.kept hcall (.inl hwaiting)
    · exact hs.kept hold hc
  · intro i c hi hc hmem
    rcases (getElem?_set_iff hcall).mp hi with ⟨-, rfl⟩ | ⟨hne, hold⟩
    · cases hc
    · have hthere := hs.there hold hc hmem
      simpa [Subscriber.leave, Function.update_of_ne (Ne.symm hne)] using hthere

/-- Receiving only removes entries, and what it removes has ended. -/
theorem invariant_receive (hs : Invariant s) {subscriber : Subscriber}
    (h : s.subscriber.Narrows subscriber) : Invariant (s.receive subscriber) := by
  refine ⟨?_, ?_, ?_⟩
  · intro i hi
    exact hs.inserted (h.mem hi)
  · intro i c hi hc
    by_cases hmem : i ∈ subscriber.subscribes
    · exact .inl hmem
    · right
      rw [receive, Finset.mem_union, Finset.mem_sdiff, Finmap.mem_keys, Finmap.mem_keys]
      rcases hs.kept hi hc with hold | hended
      · exact .inr ⟨hold, hmem⟩
      · exact .inl hended
  · intro i c hi hc hmem
    exact (h.dropped hmem).trans (hs.there hi hc (h.mem hmem))

theorem invariant_finish (hs : Invariant s) (id : Nat) : Invariant (s.finish id) := by
  unfold finish
  split
  · refine ⟨hs.inserted, ?_, hs.there⟩
    intro i c hi hc
    rcases hs.kept hi hc with hmem | hended
    · exact .inl hmem
    · exact .inr (Finset.mem_insert_of_mem hended)
  · exact hs

theorem subscriber_finish (s : Subscribing) (id : Nat) :
    (s.finish id).subscriber = s.subscriber := by
  unfold finish
  split
  · rfl
  · rfl

theorem invariant_recvStream (hs : Invariant s) (stream : RecvStream) :
    Invariant (s.recvStream stream) := by
  unfold recvStream
  split
  · exact hs
  · next header reader _ =>
      have hnarrows := s.subscriber.narrows_recvStreamInner reader header
      split
      · next subscriber err hrun =>
          rw [hrun] at hnarrows
          exact invariant_congr (invariant_receive hs hnarrows) rfl rfl rfl
      · next result subscriber _ hrun =>
          rw [hrun] at hnarrows
          exact invariant_receive hs hnarrows

theorem invariant_init : Invariant init := by
  refine ⟨?_, ?_, ?_⟩
  · intro id hid
    exact absurd hid Finmap.notMem_empty
  · intro id call hcall
    cases hcall
  · intro id call hcall
    cases hcall

theorem invariant_step (hs : Invariant s) (h : s.step act = some s') : Invariant s' := by
  cases act with
  | start ns name track =>
      cases h
      exact invariant_start hs rfl
  | queue id =>
      obtain ⟨call, hcall, hphase, rfl⟩ := eq_of_withCall h
      apply invariant_sendMessage
      exact invariant_setCall hs hcall (not_inserted (.inl hphase)) (not_inserted (.inr rfl))
  | insert id =>
      obtain ⟨call, hcall, -, rfl⟩ := eq_of_withCall h
      exact invariant_insert hs hcall
  | leave id =>
      obtain ⟨call, hcall, hphase, rfl⟩ := eq_of_withCall h
      exact invariant_sendMessage (invariant_leave hs hcall hphase) _
  | send =>
      simp only [step] at h
      split at h
      · cases h
        exact invariant_congr hs rfl rfl rfl
      · cases h
  | closeOutgoing =>
      cases h
      exact invariant_congr hs rfl rfl rfl
  | recvOk msg =>
      cases h
      exact invariant_receive hs (s.subscriber.narrows_recvSubscribeOk msg)
  | recvError msg =>
      cases h
      exact invariant_finish
        (invariant_receive hs (s.subscriber.narrows_recvSubscribeEnd msg.id msg.code)) _
  | recvDone msg =>
      cases h
      exact invariant_finish
        (invariant_receive hs (s.subscriber.narrows_recvSubscribeEnd msg.id msg.code)) _
  | recvStream stream =>
      simp only [step] at h
      split at h
      · cases h
        exact invariant_recvStream hs stream
      · cases h
  | terminate =>
      simp only [step] at h
      split at h
      · next id err _ =>
          cases h
          exact invariant_congr (invariant_receive hs (s.subscriber.narrows_terminate id err))
            rfl rfl rfl
      · cases h
  | recvDatagram bytes =>
      cases h
      exact invariant_receive hs (s.subscriber.narrows_recvDatagram bytes)

/-- A reply that finds its entry is heard. -/
theorem heard_of_mem (hs : Invariant s) {id : Nat} (hreply : repliesTo act = some id)
    (hmem : id ∈ s.subscriber.subscribes) (h : s.step act = some s') {call : SubscribeCall}
    (hcall : s.calls[id]? = some call) (hwaiting : call.phase = .waiting) :
    Heard (s'.subscriber.shared id) act := by
  cases act with
  | recvOk msg =>
      cases hreply
      cases h
      exact Subscriber.ok_recvSubscribeOk hmem (hs.there hcall hwaiting hmem)
  | recvError msg =>
      cases hreply
      cases h
      rw [subscriber_finish]
      exact Subscriber.closed_recvSubscribeEnd msg.code hmem
  | recvDone msg =>
      cases hreply
      cases h
      rw [subscriber_finish]
      exact Subscriber.closed_recvSubscribeEnd msg.code hmem
  | recvStream stream => trivial
  | start | queue | insert | leave | send | closeOutgoing | terminate | recvDatagram =>
      cases hreply

/-- Entries stay until they end, so a reply finds its entry exactly if the
entry has been inserted. -/
theorem found_iff_inTime (hs : Invariant s) : Found s act ↔ InTime s act := by
  constructor
  · intro hfound id hreply huse
    exact hs.inserted (hfound id hreply huse).1
  · intro htime id hreply huse
    obtain ⟨call, hcall, hinserted⟩ := htime id hreply huse
    have hmem : id ∈ s.subscriber.subscribes :=
      (hs.kept hcall hinserted).resolve_right huse.2
    refine ⟨hmem, ?_⟩
    intro s' call' h hcall' hwaiting
    exact heard_of_mem hs hreply hmem h hcall' hwaiting

/-- No reply of a run is lost exactly if none comes between the sending of a
SUBSCRIBE and the insertion of its entry. -/
theorem found_iff (acts : List SubscribingAct) (s : Subscribing) :
    Run step Found init acts s ↔ Run step InTime init acts s :=
  Run.congr invariant_step found_iff_inTime invariant_init

/-- The peer refuses a subscription before the call has inserted its entry:
the call waits for good. -/
theorem not_found_early :
    ∃ s s' s'', Run step (fun _ _ => True) init [.start ⟨[]⟩ "a" .produce, .queue 0, .send] s ∧
      s.step (.recvError ⟨0, 404, "not found", 0⟩) = some s' ∧
      ¬ Found s (.recvError ⟨0, 404, "not found", 0⟩) ∧
      s'.step (.insert 0) = some s'' ∧ (s''.subscriber.shared 0).closed = .pending := by
  refine ⟨_, _, _, run_of_eq (fun _ _ => true) (fun _ _ _ => trivial) rfl, rfl, ?_, rfl, rfl⟩
  intro hfound
  have hmem := (hfound 0 rfl ⟨rfl, by decide⟩).1
  exact absurd hmem Finmap.notMem_empty

end Subscribing

end MoqTransport.Session
