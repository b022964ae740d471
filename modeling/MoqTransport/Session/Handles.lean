import MoqTransport.Session.Agreement
import MoqTransport.Session.Announce
import MoqTransport.Session.Announced
import MoqTransport.Session.Lifecycle
import MoqTransport.Session.Subscribe

/-!
What the handles of a session queue is what `Control.Proper` asks for. The
handles of a publisher, of the announcements it receives and of the
subscriptions it makes are modelled elsewhere, each with the messages it queues;
here their runs are connected to the control stream. Which answer the
application gives to a TRACK_STATUS_REQUEST no state decides.
-/

namespace MoqTransport.Session

open Streaming Coding Setup Machine
open Control (Sends)

namespace Publisher

variable {s s' : Publisher} {act : PublisherAct} {role : Role}

theorem outgoing_pushMessage {handle : Option Nat} {message : Message} :
    ∀ x ∈ (s.pushMessage handle message).outgoing, x ∈ s.outgoing ∨ x.2 = message := by
  intro x hx
  unfold pushMessage at hx
  split at hx
  · rcases List.mem_append.mp hx with hold | hnew
    · exact .inl hold
    · rw [List.mem_singleton.mp hnew]
      exact .inr rfl
  · exact .inl hx

theorem outgoing_release (a : Nat) (c : AnnounceCell) :
    (s.release a c).outgoing = s.outgoing := by
  unfold release
  split <;> rfl

theorem outgoing_endAnnounce (a : Nat) (c : AnnounceCell) :
    (s.endAnnounce a c).outgoing = s.outgoing :=
  outgoing_release a _

theorem outgoing_takeAnnounce (ns : Tuple) (f : AnnounceCell → AnnounceCell) :
    (s.takeAnnounce ns f).outgoing = s.outgoing := by
  unfold takeAnnounce
  split
  · rfl
  · dsimp only
    split
    · rfl
    · exact outgoing_release _ _

theorem outgoing_recvAnnounceOk (msg : Message.AnnounceOk) :
    (s.recvAnnounceOk msg).outgoing = s.outgoing := by
  unfold recvAnnounceOk
  split
  · rfl
  · split
    · rfl
    · split <;> rfl

theorem outgoing_recvSubscribe {msg : Message.Subscribe} (h : s.recvSubscribe msg = .ok s') :
    s'.outgoing = s.outgoing := by
  unfold recvSubscribe at h
  split at h
  · cases h
  · cases h
    rfl

theorem outgoing_dropSubscribe (id : Nat) : (s.dropSubscribe id).outgoing = s.outgoing := by
  unfold dropSubscribe
  split <;> rfl

/-- The last message of a handle that is going away. -/
theorem Invariant.sends_last (hs : Invariant s) (hrole : role.isPublisher = true) {i : Nat}
    {h : SubscribedHandle} {last : Message} (hi : s.handles[i]? = some h)
    (hphase : h.phase = .pushing last) : Sends role last := by
  have htold := hs.told i h hi
  rw [Told, hphase] at htold
  obtain ⟨-, hdone, herror⟩ := htold
  cases hok : h.ok with
  | true =>
      obtain ⟨d, rfl, -⟩ := hdone hok
      exact hrole
  | false =>
      obtain ⟨e, rfl, -⟩ := herror hok
      exact hrole

/-- What a step queues is a message of a publisher. -/
theorem outgoing_step (hs : Invariant s) (hrole : role.isPublisher = true)
    (h : s.step act = some s') : ∀ x ∈ s'.outgoing, x ∈ s.outgoing ∨ Sends role x.2 := by
  have hsame (houtgoing : s'.outgoing = s.outgoing) :
      ∀ x ∈ s'.outgoing, x ∈ s.outgoing ∨ Sends role x.2 := by
    intro x hx
    exact .inl (houtgoing ▸ hx)
  have hpush {t : Publisher} {handle : Option Nat} {message : Message}
      (ht : t.outgoing = s.outgoing) (hsends : Sends role message) :
      ∀ x ∈ (t.pushMessage handle message).outgoing, x ∈ s.outgoing ∨ Sends role x.2 := by
    intro x hx
    rcases outgoing_pushMessage x hx with hold | hnew
    · exact .inl (ht ▸ hold)
    · rw [hnew]
      exact .inr hsends
  cases act with
  | subscribe msg =>
      simp only [step] at h
      split at h
      · next hrecv =>
          cases h
          exact hsame (outgoing_recvSubscribe hrecv)
      · cases h
        exact hsame rfl
  | unsubscribe msg =>
      simp only [step] at h
      split at h
      · cases h
        exact hsame rfl
      · cases h
        exact hsame rfl
  | route i | pop i | update i _ _ | served i _ | close i _ | discard i | closed i =>
      obtain ⟨handle, -, h⟩ := Option.bind_eq_some_iff.mp h
      obtain ⟨handle', -, h⟩ := Option.bind_eq_some_iff.mp h
      cases h
      exact hsame rfl
  | serve i =>
      obtain ⟨handle, -, h⟩ := Option.bind_eq_some_iff.mp h
      split at h
      · cases h
        unfold serve
        split
        · exact fun x hx => .inl hx
        · exact hpush rfl ⟨hrole, rfl⟩
      · cases h
  | drop i =>
      obtain ⟨handle, -, h⟩ := Option.bind_eq_some_iff.mp h
      split at h
      · cases h
        exact hsame rfl
      · cases h
  | remove i =>
      obtain ⟨handle, -, h⟩ := Option.bind_eq_some_iff.mp h
      split at h
      · cases h
        exact hsame (outgoing_dropSubscribe handle.msg.id)
      · cases h
  | push i =>
      obtain ⟨handle, hi, h⟩ := Option.bind_eq_some_iff.mp h
      split at h
      · next hphase =>
          cases h
          exact hpush rfl (hs.sends_last hrole hi hphase)
      · cases h
  | announce ns =>
      cases h
      have hannounce : ∀ x ∈ (s.pushMessage none
          (.announce { namespace_ := ns, params := ∅ })).outgoing,
          x ∈ s.outgoing ∨ Sends role x.2 := hpush rfl hrole
      unfold announce
      split
      · exact fun x hx => .inl hx
      · exact hannounce
  | announceOk msg =>
      cases h
      exact hsame (outgoing_recvAnnounceOk msg)
  | announceError msg =>
      cases h
      exact hsame (outgoing_takeAnnounce _ _)
  | announceCancel msg =>
      cases h
      exact hsame (outgoing_takeAnnounce _ _)
  | dropAnnounce a =>
      obtain ⟨c, -, -, rfl⟩ := eq_of_withAnnounce h
      refine hsame ?_
      split
      · exact outgoing_endAnnounce a c
      · rfl
  | unannounce a =>
      obtain ⟨c, -, -, rfl⟩ := eq_of_withAnnounce h
      exact hsame (outgoing_takeAnnounce _ _)
  | unannounced a =>
      obtain ⟨c, -, -, rfl⟩ := eq_of_withAnnounce h
      have hunannounce : ∀ x ∈ (s.pushMessage none
          (.unannounce { namespace_ := c.namespace_ })).outgoing,
          x ∈ s.outgoing ∨ Sends role x.2 := hpush rfl hrole
      rw [outgoing_endAnnounce]
      exact hunannounce
  | closeUnknown =>
      cases h
      exact hsame rfl
  | closeOutgoing =>
      cases h
      exact hsame rfl

structure Queued (role : Role) (s : Publisher) : Prop where
  inv : Invariant s
  outgoing : ∀ x ∈ s.outgoing, Sends role x.2

theorem queued_step (hrole : role.isPublisher = true) (hs : Queued role s)
    (h : s.step act = some s') : Queued role s' where
  inv := invariant_step hs.inv h
  outgoing := by
    intro x hx
    rcases outgoing_step hs.inv hrole h x hx with hold | hnew
    · exact hs.outgoing x hold
    · exact hnew

theorem queued_of_reachable (hrole : role.isPublisher = true)
    (hs : Reachable step (fun _ _ => True) init s) : Queued role s :=
  hs.invariant ⟨invariant_init, by simp [init]⟩ fun hs _ hstep => queued_step hrole hs hstep

end Publisher

namespace Announcements

variable {s s' : Announcements} {act : AnnounceAct} {role : Role}

/-- What has been queued, and what handles that are going away will queue. -/
structure Queued (role : Role) (s : Announcements) : Prop where
  outgoing : ∀ m ∈ s.outgoing, Sends role m
  last : ∀ h ∈ s.handles, ∀ last, h.phase = .pushing last → Sends role last

theorem sends_terminal (hrole : role.isSubscriber = true) (h : AnnouncedHandle)
    (error : Option ServeError) : Sends role (terminal h error) := by
  unfold terminal
  dsimp only
  split
  · exact hrole
  · exact hrole

theorem Queued.takeOut (h : Queued role s) (ns : Tuple) (cause : AnnouncedEnd) :
    Queued role (s.takeOut ns cause) := by
  unfold Announcements.takeOut
  split
  · exact h
  · refine ⟨h.outgoing, fun handle hmem => ?_⟩
    obtain ⟨j, hj⟩ := List.mem_iff_getElem?.mp hmem
    rw [List.getElem?_modify] at hj
    obtain ⟨g, hg, rfl⟩ := Option.map_eq_some_iff.mp hj
    have hold := h.last g (List.mem_of_getElem? hg)
    split
    · exact hold
    · exact hold

theorem Queued.setHandle (h : Queued role s) (i : Nat) {g : AnnouncedHandle}
    (hg : ∀ last, g.phase = .pushing last → Sends role last) : Queued role (s.setHandle i g) where
  outgoing := h.outgoing
  last := by
    intro handle hmem
    rcases List.mem_or_eq_of_mem_set hmem with hold | rfl
    · exact h.last handle hold
    · exact hg

theorem Queued.concat (h : Queued role s) {m : Message} (hm : Sends role m) :
    Queued role { s with outgoing := s.outgoing ++ [m] } where
  outgoing := by
    intro m' hm'
    rcases List.mem_append.mp hm' with hold | hnew
    · exact h.outgoing m' hold
    · rw [List.mem_singleton.mp hnew]
      exact hm
  last := h.last

theorem queued_step (hrole : role.isSubscriber = true) (hs : Queued role s)
    (h : s.step act = some s') : Queued role s' := by
  cases act with
  | announce msg =>
      cases h
      unfold recvAnnounce
      split
      · exact hs
      · refine ⟨hs.outgoing, fun handle hmem => ?_⟩
        rcases List.mem_append.mp hmem with hold | hnew
        · exact hs.last handle hold
        · rw [List.mem_singleton.mp hnew]
          rintro last ⟨⟩
  | unannounce msg =>
      cases h
      exact hs.takeOut _ _
  | accept =>
      simp only [step] at h
      split at h
      · cases h
      · cases h
        refine ⟨hs.outgoing, fun handle hmem => ?_⟩
        obtain ⟨j, hj⟩ := List.mem_iff_getElem?.mp hmem
        rw [List.getElem?_modify] at hj
        obtain ⟨g, hg, rfl⟩ := Option.map_eq_some_iff.mp hj
        split
        · rintro last ⟨⟩
        · exact hs.last g (List.mem_of_getElem? hg)
  | ok i =>
      obtain ⟨handle, hi, h⟩ := Option.bind_eq_some_iff.mp h
      split at h
      · cases h
        have hkept := hs.setHandle i (g := { handle with ok := true })
          (hs.last handle (List.mem_of_getElem? hi))
        exact hkept.concat hrole
      · cases h
  | drop i error =>
      obtain ⟨handle, hi, h⟩ := Option.bind_eq_some_iff.mp h
      split at h
      · cases h
        refine (hs.setHandle i ?_).takeOut _ _
        rintro last ⟨⟩
        exact sends_terminal hrole handle error
      · cases h
  | push i =>
      obtain ⟨handle, hi, h⟩ := Option.bind_eq_some_iff.mp h
      split at h
      · next last hphase =>
          cases h
          have hkept := hs.setHandle i (g := { handle with phase := .gone }) (by rintro last ⟨⟩)
          exact hkept.concat (hs.last handle (List.mem_of_getElem? hi) last hphase)
      · cases h

theorem queued_of_reachable (hrole : role.isSubscriber = true)
    (hs : Reachable step (fun _ _ => True) init s) : Queued role s := by
  refine hs.invariant ?_ fun hs _ hstep => queued_step hrole hs hstep
  constructor <;> simp [init]

end Announcements

namespace Subscribing

variable {s s' : Subscribing} {act : SubscribingAct} {role : Role}

/-- What has been queued so far, sent or not. -/
def messages (s : Subscribing) : List Message := s.wire ++ s.outgoing.value

def Queued (role : Role) (s : Subscribing) : Prop := ∀ m ∈ s.messages, Sends role m

theorem messages_sendMessage (m : Message) :
    ∀ x ∈ (s.sendMessage m).messages, x ∈ s.messages ∨ x = m := by
  intro x hx
  unfold sendMessage at hx
  split at hx
  · next outgoing hpush =>
      unfold Watch.Queue.push at hpush
      split at hpush
      · cases hpush
      · cases hpush
        simp only [messages, Watch.State.update, List.mem_append, List.mem_singleton] at hx ⊢
        tauto
  · exact .inl hx

theorem messages_recvStream (stream : RecvStream) :
    (s.recvStream stream).messages = s.messages := by
  unfold recvStream
  split
  · rfl
  · split <;> rfl

theorem messages_finish (id : Nat) : (s.finish id).messages = s.messages := by
  unfold finish
  split <;> rfl

theorem messages_step (hrole : role.isSubscriber = true) (h : s.step act = some s') :
    ∀ m ∈ s'.messages, m ∈ s.messages ∨ Sends role m := by
  have hsame (hmessages : s'.messages = s.messages) :
      ∀ m ∈ s'.messages, m ∈ s.messages ∨ Sends role m := by
    intro m hm
    exact .inl (hmessages ▸ hm)
  have hpush {t : Subscribing} {message : Message} (ht : t.messages = s.messages)
      (hsends : Sends role message) :
      ∀ m ∈ (t.sendMessage message).messages, m ∈ s.messages ∨ Sends role m := by
    intro m hm
    rcases messages_sendMessage message m hm with hold | rfl
    · exact .inl (ht ▸ hold)
    · exact .inr hsends
  cases act with
  | start ns name track =>
      cases h
      exact hsame rfl
  | queue id =>
      obtain ⟨call, -, -, rfl⟩ := eq_of_withCall h
      exact hpush rfl ⟨hrole, rfl⟩
  | insert id =>
      obtain ⟨call, -, -, rfl⟩ := eq_of_withCall h
      exact hsame rfl
  | leave id =>
      obtain ⟨call, -, -, rfl⟩ := eq_of_withCall h
      exact hpush rfl hrole
  | send =>
      simp only [step] at h
      split at h
      · next m outgoing hpop =>
          cases h
          refine hsame ?_
          unfold Watch.Queue.pop at hpop
          split at hpop
          · next hvalue =>
              split at hpop
              · cases hpop
              · cases hpop
                simp [messages, Watch.State.update, hvalue]
          · split at hpop <;> cases hpop
      · cases h
  | closeOutgoing =>
      cases h
      exact hsame rfl
  | recvOk msg =>
      cases h
      exact hsame rfl
  | recvError msg =>
      cases h
      exact hsame (messages_finish msg.id)
  | recvDone msg =>
      cases h
      exact hsame (messages_finish msg.id)
  | recvStream stream =>
      obtain ⟨-, h⟩ := Option.ite_none_right_eq_some.mp h
      cases h
      exact hsame (messages_recvStream stream)
  | terminate =>
      simp only [step] at h
      split at h
      · cases h
        exact hsame rfl
      · cases h
  | recvDatagram bytes =>
      cases h
      exact hsame rfl

theorem queued_of_reachable (hrole : role.isSubscriber = true)
    (hs : Reachable step (fun _ _ => True) init s) : Queued role s := by
  refine hs.invariant ?_ ?_
  · simp [Queued, init, messages, Watch.State.new]
  · intro s s' act h _ hstep m hm
    rcases messages_step hrole hstep m hm with hold | hnew
    · exact h m hold
    · exact hnew

end Subscribing

namespace Control

/-- A message that a handle of a session with the role has queued in some
run. -/
inductive Queues (role : Role) : Message → Prop where
  | publisher {s : Publisher} {x : Option Nat × Message} (hrole : role.isPublisher = true)
      (hs : Reachable Publisher.step (fun _ _ => True) .init s) (hx : x ∈ s.outgoing) :
      Queues role x.2
  | trackStatus (hrole : role.isPublisher = true) (status : Message.TrackStatus) :
      Queues role (.trackStatus status)
  | announced {s : Announcements} {m : Message} (hrole : role.isSubscriber = true)
      (hs : Reachable Announcements.step (fun _ _ => True) .init s) (hm : m ∈ s.outgoing) :
      Queues role m
  | subscribe {s : Subscribing} {m : Message} (hrole : role.isSubscriber = true)
      (hs : Reachable Subscribing.step (fun _ _ => True) .init s) (hm : m ∈ s.messages) :
      Queues role m

theorem Queues.sends {role : Role} {m : Message} (h : Queues role m) : Sends role m := by
  cases h with
  | publisher hrole hs hx => exact (Publisher.queued_of_reachable hrole hs).outgoing _ hx
  | trackStatus hrole status => exact hrole
  | announced hrole hs hm => exact (Announcements.queued_of_reachable hrole hs).outgoing m hm
  | subscribe hrole hs hm => exact Subscribing.queued_of_reachable hrole hs m hm

/-- A session whose messages come from its handles is proper. -/
theorem proper_of_queues {p : Peer} {role : Role} (hrole : p.phase.role? = some role)
    (hqueues : ∀ m ∈ p.pushed, Queues role m) : Proper p :=
  fun m hm => ⟨role, hrole, (hqueues m hm).sends⟩

end Control

end MoqTransport.Session
