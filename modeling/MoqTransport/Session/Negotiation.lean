import MoqTransport.Session.Greeting

/-!
Two sessions over one control stream, in every interleaving of their tasks and
for every cutting of the stream. What an end tries to decode is what the other
has encoded: first the SETUP (`Incoming`), so the roles it computes fit those of
the other end, whatever is queued after that. Then, if the handles of the other
end queue messages of their halves, those that have an encoding come in order
(`Handled`), and each finds the half of the session that it is for.
-/

namespace MoqTransport.Session.Control

open Streaming Coding Setup Machine

/-- The role of the session, once it is there. -/
def Phase.role? : Phase → Option Role
  | .established role | .running role => some role
  | _ => none

/-- The SETUP of the end is being sent. -/
def Phase.greets (phase : Phase) : Prop := phase = .greeting ∨ ∃ role, phase = .answering role

/-- The SETUP of the other end has been read. -/
def Phase.streams (phase : Phase) : Prop := (∃ role, phase = .answering role) ∨ phase.role? ≠ none

/-- What handlers and the transport fail with is as agreed. -/
def Allowed (P : SessionError → Prop) (_ : Link) (a : Link.Act) : Prop :=
  match a.2 with
  | .attempt (.error e) => P e
  | .recvLost e => P e
  | .sendLost e => P e
  | _ => True

/-- How a handshake may fail: that the roles do not fit only the server sees. -/
def Ending (P : SessionError → Prop) (role : Bool → Role) (b : Bool) (e : ConnectError) : Prop :=
  (∃ s, e = .session s ∧ P s) ∨
    b = true ∧ role false = role true ∧ role true ≠ .both ∧
      e = .roleIncompatible (role false) (role true)

/-- A reader that waits for the SETUP of the other end has tried to read it. -/
def Expects (isServer : Bool) (r : Receiver) : Prop :=
  if isServer then Receiver.Parked Server.decode r else Receiver.Parked Client.decode r

/-- The handles have queued what the handles of such a session queue. -/
def Proper (p : Peer) : Prop :=
  ∀ m ∈ p.pushed, ∃ role, p.phase.role? = some role ∧ Sends role m

/-- The send task has ended over a message that has no encoding. -/
def Stuck (ord : IterOrder) (p : Peer) : Prop :=
  p.writing = [] ∧ ∃ m f, p.pushed = p.popped ++ m :: p.queue ∧
    m.encode ord bytesMut = .error f ∧ p.sendError = some (taskError (encodeFault f))

/-- What has been queued has been sent or is still in the queue. -/
def Queued (ord : IterOrder) (P : SessionError → Prop) (p : Peer) : Prop :=
  (p.pushed = p.popped ++ p.queue ∧ ∀ e ∈ p.sendError, P e) ∨ Stuck ord p

/-- What an end keeps by itself. -/
structure Local (ord : IterOrder) (P : SessionError → Prop) (p : Peer) : Prop where
  queued : Queued ord P p
  encodes : ∀ m ∈ p.popped, m.Ok ord
  early : p.phase.role? = none → p.pushed = [] ∧ p.received = []
  calm : p.phase = .expecting → p.writing = []
  greets : p.phase.greets → p.recver.wait = none ∧ p.writing ≠ []

/-- The roles as far as an end has computed them; `told` is what the server has
told. -/
def Agreed (P : SessionError → Prop) (role : Bool → Role) (told : Option Role) (b : Bool)
    (p : Peer) : Prop :=
  p.role = role b ∧ p.told = (if b then told else some (role b)) ∧
    match p.phase with
    | .greeting => b = false
    | .expecting => b = true → told = none
    | .answering r => b = true ∧ told = some r
    | .established r | .running r =>
        if b then told = some r else ∃ r', told = some r' ∧ downgrade (role b) r' = .ok r
    | .failed e => Ending P role b e
    | .panicked => False

/-- Of the messages that `w` has sent `r` has handled a front, and here is the
rest. -/
structure Handled (ord : IterOrder) (P : SessionError → Prop) (r w : Peer) (unread : Bytes) :
    Prop where
  received : r.received = (w.popped.take r.received.length).map Message.normal
  stream : r.phase.streams → r.recvError = none →
    r.recver.buffer ++ (unread ++ w.writing) =
      (w.popped.drop r.received.length).flatMap (Message.wire ord)
  parked : r.phase.role? ≠ none → Receiver.Parked Message.decode r.recver
  recvError : ∀ e ∈ r.recvError, P e

/-- What `w` has sent to `r`. -/
structure Incoming (ord : IterOrder) (P : SessionError → Prop) (isServer : Bool) (r w : Peer)
    (unread : Bytes) : Prop where
  setup : r.phase = .greeting ∨ r.phase = .expecting →
    r.recver.buffer ++ (unread ++ w.writing) =
      w.told.toList.flatMap (hello ord isServer) ++ w.popped.flatMap (Message.wire ord)
  expects : r.phase = .expecting → Expects isServer r.recver
  handled : Proper w → Handled ord P r w unread

structure Inv (ord : Bool → IterOrder) (P : SessionError → Prop) (role : Bool → Role) (l : Link) :
    Prop where
  peer : ∀ b, Local (ord b) P (l.ends b)
  told : ∀ r, (l.ends true).told = some r → downgrade (role true) (role false) = .ok r
  agreed : ∀ b, Agreed P role (l.ends true).told b (l.ends b)
  taken : ∀ b, l.taken b ≤ (l.ends !b).wire.length
  incoming : ∀ b, Incoming (ord !b) P (!b) (l.ends b) (l.ends !b) (l.unread b)

variable {ord : Bool → IterOrder} {P : SessionError → Prop} {role : Bool → Role}

theorem expects_of_ready {isServer : Bool} {r : Receiver} (h : r.wait = none) :
    Expects isServer r := by
  cases isServer
  · exact Receiver.parked_of_ready h
  · exact Receiver.parked_of_ready h

theorem Expects.append {isServer : Bool} {r : Receiver} (h : Expects isServer r)
    (piece : Bytes) : Expects isServer (r.append piece) := by
  cases isServer
  · exact Receiver.Parked.append h piece
  · exact Receiver.Parked.append h piece

theorem Phase.greets.role? {phase : Phase} (h : phase.greets) : phase.role? = none := by
  rcases h with rfl | ⟨r, rfl⟩ <;> rfl

theorem not_greets {phase : Phase} (hgreeting : phase ≠ .greeting)
    (hanswering : ∀ role, phase ≠ .answering role) : ¬ phase.greets := by
  rintro (h | ⟨role, h⟩)
  · exact hgreeting h
  · exact hanswering role h

theorem greet_eq {p : Peer} {phase : Phase} {r : Role} {setup : Encode} {bs : Bytes}
    (h : setup bytesMut = .ok ((), bytesMut.push bs)) :
    p.greet phase r setup = { p with phase, writing := bs, told := some r } := by
  simp only [Peer.greet, h]
  rfl

theorem connect_eq (ord : IterOrder) (r : Role) : Peer.connect ord r =
    { Peer.accept r with phase := .greeting, writing := hello ord false r, told := some r } :=
  greet_eq (encode_client ord r)

theorem inv_new : Inv ord P role (Link.new ord role) := by
  have hconnect := connect_eq (ord false) (role false)
  have hclient : (Link.new ord role).ends false = Peer.connect (ord false) (role false) := rfl
  have hserver : (Link.new ord role).ends true = Peer.accept (role true) := rfl
  have htaken (b : Bool) : (Link.new ord role).taken b = 0 := rfl
  constructor
  · intro b
    cases b
    · rw [hclient, hconnect]
      constructor <;> simp [Queued, Peer.accept, Receiver.new, hello_ne_nil]
    · rw [hserver]
      constructor <;> simp [Queued, Peer.accept, Receiver.new, Phase.greets]
  · intro r hr
    cases hr
  · intro b
    cases b
    · rw [hclient, hserver, hconnect]
      exact ⟨rfl, rfl, rfl⟩
    · rw [hserver]
      exact ⟨rfl, rfl, fun _ => rfl⟩
  · intro b
    rw [htaken]
    exact Nat.zero_le _
  · intro b
    cases b
    · rw [hclient, Bool.not_false, hserver, Link.unread, Bool.not_false, hserver, hconnect]
      refine ⟨?_, ?_, fun _ => ?_⟩
      · simp [Peer.accept, Receiver.new]
      · simp [Peer.accept]
      · constructor <;> simp [Peer.accept, Phase.role?, Phase.streams]
    · rw [hserver, Bool.not_true, hclient, Link.unread, Bool.not_true, hclient, hconnect]
      refine ⟨?_, ?_, fun _ => ?_⟩
      · simp [Peer.accept, Receiver.new]
      · exact fun _ => expects_of_ready rfl
      · constructor <;> simp [Peer.accept, Phase.role?, Phase.streams]

/-- The link after a step of one end. -/
def Link.set (l : Link) (b : Bool) (p : Peer) (n : Nat) : Link :=
  ⟨Function.update l.ends b p, Function.update l.taken b n⟩

section

variable (l : Link) (b : Bool) (p : Peer) (n : Nat)

@[simp]
theorem ends_set : (l.set b p n).ends b = p := Function.update_self ..

@[simp]
theorem ends_set_not : (l.set b p n).ends (!b) = l.ends !b :=
  Function.update_of_ne (by cases b <;> decide) ..

@[simp]
theorem taken_set : (l.set b p n).taken b = n := Function.update_self ..

@[simp]
theorem taken_set_not : (l.set b p n).taken (!b) = l.taken !b :=
  Function.update_of_ne (by cases b <;> decide) ..

@[simp]
theorem unread_set : (l.set b p n).unread b = (l.ends !b).wire.drop n := by
  rw [Link.unread, ends_set_not, taken_set]

@[simp]
theorem unread_set_not : (l.set b p n).unread (!b) = p.wire.drop (l.taken !b) := by
  rw [Link.unread, Bool.not_not, ends_set, taken_set_not]

theorem told_set : ((l.set b p n).ends true).told = if b then p.told else (l.ends true).told := by
  cases b
  · exact congrArg Peer.told (ends_set_not l false p n)
  · exact congrArg Peer.told (ends_set l true p n)

end

theorem forall_ends {q : Bool → Prop} {b : Bool} (hb : q b) (hother : q !b) (c : Bool) : q c := by
  cases b <;> cases c <;> assumption

variable {l l' : Link}

/-- How many bytes a step takes from the transport. -/
def Peer.Act.reads : Peer.Act → Nat
  | .read n => n
  | _ => 0

/-- A step of an end, and where it can be taken. -/
inductive Peer.Next (p : Peer) (isServer : Bool) (o : IterOrder) (unread : Bytes) :
    Peer.Act → Peer → Prop where
  | write {n : Nat} (hpos : 0 < n) (hn : n ≤ p.writing.length)
      (hphase : p.phase.greets ∨ ∃ r, p.phase = .running r ∧ p.sendError = none) :
      Next p isServer o unread (.write n) (p.written n)
  | read {n : Nat} (hpos : 0 < n) (hn : n ≤ unread.length) (hwait : p.recver.wait ≠ none)
      (hphase : p.phase = .expecting ∨ ∃ r, p.phase = .running r ∧ p.recvError = none) :
      Next p isServer o unread (.read n)
        { p with recver := p.recver.append (unread.take n) }
  | attemptClient {result : Except SessionError Unit} (hserver : isServer = true)
      (hphase : p.phase = .expecting) (hwait : p.recver.wait = none) :
      Next p isServer o unread (.attempt result)
        (p.attemptSetup Client.decode fun q => q.recvClient o)
  | attemptServer {result : Except SessionError Unit} (hclient : isServer = false)
      (hphase : p.phase = .expecting) (hwait : p.recver.wait = none) :
      Next p isServer o unread (.attempt result) (p.attemptSetup Server.decode Peer.recvServer)
  | attemptMessage {result : Except SessionError Unit} {r : Role} (hphase : p.phase = .running r)
      (herror : p.recvError = none) (hwait : p.recver.wait = none) :
      Next p isServer o unread (.attempt result) (p.attemptMessage r result)
  | run {r : Role} (hphase : p.phase = .established r) :
      Next p isServer o unread .run { p with phase := .running r }
  | push {m : Message} {r : Role} (hrole : p.phase.role? = some r) :
      Next p isServer o unread (.push m)
        { p with queue := p.queue ++ [m], pushed := p.pushed ++ [m] }
  | pop {m : Message} {rest : List Message} {r : Role} (hphase : p.phase = .running r)
      (hqueue : p.queue = m :: rest) (herror : p.sendError = none) (hwriting : p.writing = []) :
      Next p isServer o unread .pop (p.encodeMessage o m rest)
  | recvLostEarly {e : SessionError} (hphase : p.phase = .expecting) :
      Next p isServer o unread (.recvLost e) { p with phase := .failed (.session e) }
  | recvLost {e : SessionError} {r : Role} (hphase : p.phase = .running r)
      (herror : p.recvError = none) :
      Next p isServer o unread (.recvLost e) { p with recvError := some e }
  | sendLostEarly {e : SessionError} (hphase : p.phase.greets) :
      Next p isServer o unread (.sendLost e) { p with phase := .failed (.session e) }
  | sendLost {e : SessionError} {r : Role} (hphase : p.phase = .running r)
      (herror : p.sendError = none) :
      Next p isServer o unread (.sendLost e) { p with sendError := some e }

theorem Peer.next_of_step {p q : Peer} {isServer : Bool} {o : IterOrder} {unread : Bytes}
    {act : Peer.Act} (h : p.step isServer o unread act = some q) :
    Next p isServer o unread act q := by
  cases act with
  | write n =>
      obtain ⟨⟨hpos, hn⟩, h⟩ := Option.ite_none_right_eq_some.mp h
      split at h
      · next hphase =>
          cases h
          exact .write hpos hn (.inl (.inl hphase))
      · next r hphase =>
          cases h
          exact .write hpos hn (.inl (.inr ⟨r, hphase⟩))
      · next r hphase =>
          obtain ⟨herror, h⟩ := Option.ite_none_right_eq_some.mp h
          cases h
          exact .write hpos hn (.inr ⟨r, hphase, herror⟩)
      · cases h
  | read n =>
      obtain ⟨⟨hpos, hn, hwait⟩, h⟩ := Option.ite_none_right_eq_some.mp h
      split at h
      · next hphase =>
          cases h
          exact .read hpos hn hwait (.inl hphase)
      · next r hphase =>
          obtain ⟨herror, h⟩ := Option.ite_none_right_eq_some.mp h
          cases h
          exact .read hpos hn hwait (.inr ⟨r, hphase, herror⟩)
      · cases h
  | attempt result =>
      obtain ⟨hwait, h⟩ := Option.ite_none_right_eq_some.mp h
      split at h
      · next hphase =>
          cases isServer with
          | false =>
              cases h
              exact .attemptServer rfl hphase hwait
          | true =>
              cases h
              exact .attemptClient rfl hphase hwait
      · next hphase =>
          obtain ⟨herror, h⟩ := Option.ite_none_right_eq_some.mp h
          cases h
          exact .attemptMessage hphase herror hwait
      · cases h
  | run =>
      simp only [step] at h
      split at h
      · next hphase =>
          cases h
          exact .run hphase
      · cases h
  | push m =>
      simp only [step] at h
      split at h
      · next hphase =>
          cases h
          exact .push (by rw [hphase]; rfl)
      · next hphase =>
          cases h
          exact .push (by rw [hphase]; rfl)
      · cases h
  | pop =>
      simp only [step] at h
      split at h
      · next hphase hqueue =>
          obtain ⟨⟨herror, hwriting⟩, h⟩ := Option.ite_none_right_eq_some.mp h
          cases h
          exact .pop hphase hqueue herror hwriting
      · cases h
  | recvLost e =>
      simp only [step] at h
      split at h
      · next hphase =>
          cases h
          exact .recvLostEarly hphase
      · next hphase =>
          obtain ⟨herror, h⟩ := Option.ite_none_right_eq_some.mp h
          cases h
          exact .recvLost hphase herror
      · cases h
  | sendLost e =>
      simp only [step] at h
      split at h
      · next hphase =>
          cases h
          exact .sendLostEarly (.inl hphase)
      · next r hphase =>
          cases h
          exact .sendLostEarly (.inr ⟨r, hphase⟩)
      · next hphase =>
          obtain ⟨herror, h⟩ := Option.ite_none_right_eq_some.mp h
          cases h
          exact .sendLost hphase herror
      · cases h

theorem step_next {b : Bool} {act : Peer.Act} (h : l.step ord (b, act) = some l') :
    ∃ p, (l.ends b).Next b (ord b) (l.unread b) act p ∧
      l' = l.set b p (l.taken b + act.reads) := by
  obtain ⟨p, hp, rfl⟩ := Option.map_eq_some_iff.mp h
  refine ⟨p, Peer.next_of_step hp, ?_⟩
  cases act with
  | read n => rfl
  | _ =>
      have hsame : Function.update l.taken b (l.taken b) = l.taken := Function.update_eq_self ..
      simp only [Link.set, Peer.Act.reads, Nat.add_zero, hsame]

theorem Inv.set (h : Inv ord P role l) {b : Bool} {p : Peer} {n : Nat}
    (hlocal : Local (ord b) P p)
    (htold : b = true → ∀ r, p.told = some r → downgrade (role true) (role false) = .ok r)
    (hagreed : Agreed P role (if b then p.told else (l.ends true).told) b p)
    (hother : Agreed P role (if b then p.told else (l.ends true).told) (!b) (l.ends !b))
    (hwire : (l.ends b).wire <+: p.wire) (hn : n ≤ (l.ends !b).wire.length)
    (hin : Incoming (ord !b) P (!b) p (l.ends !b) ((l.ends !b).wire.drop n))
    (hout : Incoming (ord b) P b (l.ends !b) p (p.wire.drop (l.taken !b))) :
    Inv ord P role (l.set b p n) where
  peer := forall_ends (b := b) (by simpa using hlocal) (by simpa using h.peer !b)
  told := by
    rw [told_set]
    intro r hr
    cases b
    · exact h.told r hr
    · exact htold rfl r hr
  agreed := by
    rw [told_set]
    exact forall_ends (b := b) (by simpa using hagreed) (by simpa using hother)
  taken := by
    have htaken := h.taken !b
    rw [Bool.not_not] at htaken
    exact forall_ends (b := b) (by simpa using hn) (by simpa using htaken.trans hwire.length_le)
  incoming := forall_ends (b := b) (by simpa using hin) (by simpa using hout)

section

variable {o : IterOrder} {isServer : Bool} {r r' w w' : Peer} {unread unread' : Bytes}

theorem Proper.of_nil (hpushed : w.pushed = []) (_ : Proper w') : Proper w := by
  intro m hm
  rw [hpushed] at hm
  cases hm

theorem Proper.of_push {m : Message} (hphase : w'.phase.role? = w.phase.role?)
    (hpushed : w'.pushed = w.pushed ++ [m]) (h : Proper w') : Proper w := by
  intro m hm
  have hold := h m (by rw [hpushed]; exact List.mem_append_left _ hm)
  rwa [hphase] at hold

/-- Bytes go from the writer to the transport. -/
theorem Incoming.of_writer (h : Incoming o P isServer r w unread) (htold : w'.told = w.told)
    (hpopped : w'.popped = w.popped) (hproper : Proper w' → Proper w)
    (hbytes : unread' ++ w'.writing = unread ++ w.writing) :
    Incoming o P isServer r w' unread' where
  setup := by rw [htold, hpopped, hbytes]; exact h.setup
  expects := h.expects
  handled hw' :=
    have hhandled := h.handled (hproper hw')
    { received := by rw [hpopped]; exact hhandled.received
      stream := by rw [hpopped, hbytes]; exact hhandled.stream
      parked := hhandled.parked
      recvError := hhandled.recvError }

/-- The reader goes on to another phase. -/
theorem Incoming.of_reader (h : Incoming o P isServer r w unread)
    (hrecver : r'.recver = r.recver) (hreceived : r'.received = r.received)
    (herror : r'.recvError = r.recvError ∨ ∃ e, r'.recvError = some e ∧ P e)
    (hsetup : r'.phase = .greeting ∨ r'.phase = .expecting →
      r.phase = .greeting ∨ r.phase = .expecting)
    (hstream : r'.phase.streams → r.phase.streams)
    (hexpects : r'.phase = .expecting → r.phase = .expecting ∨ r.recver.wait = none)
    (hparked : r'.phase.role? ≠ none → r.phase.role? ≠ none ∨ r.recver.wait = none) :
    Incoming o P isServer r' w unread where
  setup := by rw [hrecver]; exact fun hphase => h.setup (hsetup hphase)
  expects := by
    rw [hrecver]
    intro hphase
    rcases hexpects hphase with hold | hwait
    · exact h.expects hold
    · exact expects_of_ready hwait
  handled hw := by
    have hhandled := h.handled hw
    constructor
    · rw [hreceived]
      exact hhandled.received
    · rw [hrecver, hreceived]
      intro hphase hnone
      refine hhandled.stream (hstream hphase) ?_
      rcases herror with hsame | ⟨e, he, -⟩
      · rw [← hsame]
        exact hnone
      · rw [he] at hnone
        cases hnone
    · rw [hrecver]
      intro hphase
      rcases hparked hphase with hold | hwait
      · exact hhandled.parked hold
      · exact Receiver.parked_of_ready hwait
    · intro e' he'
      rcases herror with hsame | ⟨e, he, hP⟩
      · exact hhandled.recvError e' (hsame ▸ he')
      · rw [he] at he'
        cases he'
        exact hP

end

theorem Queued.written {o : IterOrder} {p : Peer} (h : Queued o P p) (wire : Bytes) (n : Nat) :
    Queued o P { p with wire, writing := p.writing.drop n } := by
  rcases h with hqueued | ⟨hwriting, hstuck⟩
  · exact .inl hqueued
  · refine .inr ⟨?_, hstuck⟩
    change p.writing.drop n = []
    rw [hwriting, List.drop_nil]

theorem Local.queued_nil {o : IterOrder} {p : Peer} (h : Local o P p) (hpushed : p.pushed = []) :
    p.popped = [] ∧ p.queue = [] ∧ ∀ e ∈ p.sendError, P e := by
  rcases h.queued with ⟨hqueued, hsend⟩ | ⟨-, m, f, hstuck, -, -⟩
  · rw [hpushed] at hqueued
    obtain ⟨hpopped, hqueue⟩ := List.append_eq_nil_iff.mp hqueued.symm
    exact ⟨hpopped, hqueue, hsend⟩
  · rw [hpushed] at hstuck
    cases (List.append_eq_nil_iff.mp hstuck.symm).2

/-- A step that does not concern what is sent. -/
theorem Inv.set_quiet (h : Inv ord P role l) {b : Bool} {p : Peer} {n : Nat}
    (hlocal : Local (ord b) P p) (htold : p.told = (l.ends b).told)
    (hpopped : p.popped = (l.ends b).popped) (hwriting : p.writing = (l.ends b).writing)
    (hwire : p.wire = (l.ends b).wire) (hproper : Proper p → Proper (l.ends b))
    (hagreed : Agreed P role (l.ends true).told b p) (hn : n ≤ (l.ends !b).wire.length)
    (hin : Incoming (ord !b) P (!b) p (l.ends !b) ((l.ends !b).wire.drop n)) :
    Inv ord P role (l.set b p n) := by
  have hserver : (if b then p.told else (l.ends true).told) = (l.ends true).told := by
    cases b
    · rfl
    · exact htold
  have hincoming := h.incoming !b
  rw [Bool.not_not, Link.unread, Bool.not_not] at hincoming
  refine h.set hlocal ?_ (by rw [hserver]; exact hagreed) (by rw [hserver]; exact h.agreed !b)
    (hwire ▸ List.prefix_refl _) hn hin ?_
  · rintro rfl r hr
    exact h.told r (htold ▸ hr)
  · rw [hwire]
    exact hincoming.of_writer htold hpopped hproper (by rw [hwriting])

theorem written_cases (p : Peer) (n : Nat) :
    ((p.phase.greets → p.writing.drop n ≠ []) ∧ p.written n = { p with
      wire := p.wire ++ p.writing.take n
      writing := p.writing.drop n }) ∨
    (p.phase = .greeting ∧ p.writing.drop n = [] ∧ p.written n = { p with
      wire := p.wire ++ p.writing.take n
      writing := p.writing.drop n
      phase := .expecting }) ∨
    ∃ r, p.phase = .answering r ∧ p.written n = { p with
      wire := p.wire ++ p.writing.take n
      writing := p.writing.drop n
      phase := .established r } := by
  unfold Peer.written
  dsimp only
  split
  · next hsome => exact .inl ⟨fun _ => hsome, rfl⟩
  · next hnone =>
      split
      · next hphase => exact .inr (.inl ⟨hphase, not_not.mp hnone, rfl⟩)
      · next r hphase => exact .inr (.inr ⟨r, hphase, rfl⟩)
      · next hgreeting hanswering =>
          exact .inl ⟨fun hgreets => absurd hgreets (not_greets hgreeting hanswering), rfl⟩

theorem Inv.write (h : Inv ord P role l) {b : Bool} (n : Nat)
    (hphase : (l.ends b).phase ≠ .expecting) :
    Inv ord P role (l.set b ((l.ends b).written n) (l.taken b)) := by
  have hlocal := h.peer b
  have hagreed := h.agreed b
  have hin := h.incoming b
  have hout := h.incoming !b
  have htaken := h.taken !b
  rw [Bool.not_not] at hout htaken
  rw [Link.unread, Bool.not_not] at hout
  have hother := h.agreed !b
  have hbytes : ((l.ends b).wire ++ (l.ends b).writing.take n).drop (l.taken !b) ++
      (l.ends b).writing.drop n = (l.ends b).wire.drop (l.taken !b) ++ (l.ends b).writing := by
    rw [List.drop_append_of_le_length htaken, List.append_assoc, List.take_append_drop]
  have hserver : (if b then (l.ends b).told else (l.ends true).told) = (l.ends true).told := by
    cases b <;> rfl
  have htold : b = true → ∀ r, (l.ends b).told = some r →
      downgrade (role true) (role false) = .ok r := by
    rintro rfl r hr
    exact h.told r hr
  have hqueued := hlocal.queued.written ((l.ends b).wire ++ (l.ends b).writing.take n) n
  rcases written_cases (l.ends b) n with
    ⟨hsome, heq⟩ | ⟨hgreeting, hnone, heq⟩ | ⟨r, hanswering, heq⟩
  · rw [heq]
    refine h.set ?_ htold ?_ ?_ (List.prefix_append _ _) (h.taken b) ?_
      (hout.of_writer rfl rfl id hbytes)
    · exact { hlocal with
        queued := hqueued
        calm := fun hexpecting => absurd hexpecting hphase
        greets := fun hgreets => ⟨(hlocal.greets hgreets).1, hsome hgreets⟩ }
    · rw [hserver]
      exact hagreed
    · rw [hserver]
      exact hother
    · exact hin.of_reader rfl rfl (.inl rfl) id id .inl .inl
  · obtain ⟨hrole, htold', hclient⟩ := hagreed
    rw [hgreeting] at hclient
    obtain ⟨hpushed, hreceived⟩ := hlocal.early (by rw [hgreeting]; rfl)
    rw [heq]
    refine h.set ?_ htold ?_ ?_ (List.prefix_append _ _) (h.taken b) ?_
      (hout.of_writer rfl rfl (Proper.of_nil hpushed) hbytes)
    · exact { hlocal with
        queued := hqueued
        early := fun _ => ⟨hpushed, hreceived⟩
        calm := fun _ => hnone
        greets := fun hgreets => by simp [Phase.greets] at hgreets }
    · rw [hserver]
      exact ⟨hrole, htold', fun hb => by rw [hclient] at hb; cases hb⟩
    · rw [hserver]
      exact hother
    · exact hin.of_reader rfl rfl (.inl rfl) (fun _ => .inl hgreeting)
        (fun hstreams => by simp [Phase.streams, Phase.role?] at hstreams)
        (fun _ => .inr (hlocal.greets (.inl hgreeting)).1) fun hr => absurd rfl hr
  · obtain ⟨hrole, htold', hphase'⟩ := hagreed
    rw [hanswering] at hphase'
    obtain ⟨hb, hr⟩ := hphase'
    obtain ⟨hpushed, hreceived⟩ := hlocal.early (by rw [hanswering]; rfl)
    obtain ⟨hwait, -⟩ := hlocal.greets (.inr ⟨r, hanswering⟩)
    rw [heq]
    refine h.set ?_ htold ?_ ?_ (List.prefix_append _ _) (h.taken b) ?_
      (hout.of_writer rfl rfl (Proper.of_nil hpushed) hbytes)
    · exact { hlocal with
        queued := hqueued
        early := fun hnone => by cases hnone
        calm := fun hexpecting => by cases hexpecting
        greets := fun hgreets => by simp [Phase.greets] at hgreets }
    · rw [hserver]
      exact ⟨hrole, htold', (if_pos hb).mpr hr⟩
    · rw [hserver]
      exact hother
    · exact hin.of_reader rfl rfl (.inl rfl) (fun hphase => by rcases hphase with h | h <;> cases h)
        (fun _ => .inl ⟨r, hanswering⟩) (fun hp => by cases hp) fun _ => .inr hwait

theorem not_expecting_of_writes {p : Peer}
    (h : p.phase.greets ∨ ∃ r, p.phase = .running r ∧ p.sendError = none) :
    p.phase ≠ .expecting := by
  intro hphase
  rw [hphase] at h
  rcases h with (h | ⟨r, h⟩) | ⟨r, h, -⟩ <;> cases h

theorem not_greets_of_reads {phase : Phase} (h : phase = .expecting ∨ ∃ r, phase = .running r) :
    ¬ phase.greets := by
  rintro (rfl | ⟨role, rfl⟩)
  · rcases h with h | ⟨r, h⟩ <;> cases h
  · rcases h with h | ⟨r, h⟩ <;> cases h

theorem Inv.read (h : Inv ord P role l) {b : Bool} {n : Nat} (hn : n ≤ (l.unread b).length)
    (hphase : (l.ends b).phase = .expecting ∨ ∃ r, (l.ends b).phase = .running r) :
    Inv ord P role (l.set b
      { l.ends b with recver := (l.ends b).recver.append ((l.unread b).take n) }
      (l.taken b + n)) := by
  have hin := h.incoming b
  have hbytes : (l.ends b).recver.buffer ++ (l.unread b).take n ++
      (((l.ends !b).wire.drop (l.taken b + n)) ++ (l.ends !b).writing) =
      (l.ends b).recver.buffer ++ (l.unread b ++ (l.ends !b).writing) := by
    have hdrop : (l.ends !b).wire.drop (l.taken b + n) = (l.unread b).drop n := by
      rw [Link.unread, List.drop_drop]
    rw [hdrop, List.append_assoc, ← List.append_assoc ((l.unread b).take n),
      List.take_append_drop]
  refine h.set_quiet ?_ rfl rfl rfl rfl id (h.agreed b) ?_ ?_
  · exact { h.peer b with greets := fun hgreets => absurd hgreets (not_greets_of_reads hphase) }
  · have htaken := h.taken b
    rw [Link.unread, List.length_drop] at hn
    omega
  · exact {
      setup := fun hp => hbytes.trans (hin.setup hp)
      expects := fun hp => (hin.expects hp).append _
      handled := fun hproper =>
        have hhandled := hin.handled hproper
        { hhandled with
          stream := fun hp hnone => hbytes.trans (hhandled.stream hp hnone)
          parked := fun hp => (hhandled.parked hp).append _ } }

theorem Inv.run (h : Inv ord P role l) {b : Bool} {r : Role}
    (hphase : (l.ends b).phase = .established r) :
    Inv ord P role (l.set b { l.ends b with phase := .running r } (l.taken b)) := by
  obtain ⟨hrole, htold, hagreed⟩ := h.agreed b
  rw [hphase] at hagreed
  have hrole? : (l.ends b).phase.role? = some r := by rw [hphase]; rfl
  have hproper (hp : Proper { l.ends b with phase := .running r }) : Proper (l.ends b) := by
    intro m hm
    obtain ⟨r', hr', hsends⟩ := hp m hm
    exact ⟨r', hrole?.trans hr', hsends⟩
  refine h.set_quiet ?_ rfl rfl rfl rfl hproper ⟨hrole, htold, hagreed⟩ (h.taken b) ?_
  · exact { h.peer b with
      early := fun hnone => by cases hnone
      calm := fun hexpecting => by cases hexpecting
      greets := fun hgreets => by simp [Phase.greets] at hgreets }
  · refine (h.incoming b).of_reader rfl rfl (.inl rfl)
      (fun hp => by rcases hp with h | h <;> cases h) (fun _ => .inr ?_) (fun hp => by cases hp)
      fun _ => .inl ?_
    · rw [hrole?]
      exact Option.some_ne_none r
    · rw [hrole?]
      exact Option.some_ne_none r

theorem Inv.push (h : Inv ord P role l) {b : Bool} {r : Role} (m : Message)
    (hrole : (l.ends b).phase.role? = some r) :
    Inv ord P role (l.set b
      { l.ends b with queue := (l.ends b).queue ++ [m], pushed := (l.ends b).pushed ++ [m] }
      (l.taken b)) := by
  refine h.set_quiet ?_ rfl rfl rfl rfl (Proper.of_push rfl rfl) (h.agreed b) (h.taken b) ?_
  · exact { h.peer b with
      queued := by
        rcases (h.peer b).queued with ⟨hqueued, hsend⟩ | ⟨hwriting, m', f, hstuck, herror⟩
        · exact .inl ⟨by simp [hqueued], hsend⟩
        · exact .inr ⟨hwriting, m', f, by simp [hstuck], herror⟩
      early := fun hnone => by rw [hrole] at hnone; cases hnone }
  · exact (h.incoming b).of_reader rfl rfl (.inl rfl) id id .inl .inl

theorem not_greets_of_role? {phase : Phase} {r : Role} (h : phase.role? = some r) :
    ¬ phase.greets := by
  intro hgreets
  rw [hgreets.role?] at h
  cases h

/-- Either the writer takes the message, or the send task ends. -/
theorem encodeMessage_cases (o : IterOrder) (p : Peer) (m : Message) (rest : List Message) :
    (m.Ok o ∧ p.encodeMessage o m rest = { p with
      queue := rest
      writing := m.wire o
      popped := p.popped ++ [m] }) ∨
    ∃ f, m.encode o bytesMut = .error f ∧ p.encodeMessage o m rest = { p with
      queue := rest
      sendError := some (taskError (encodeFault f)) } := by
  by_cases hok : m.Ok o
  · refine .inl ⟨hok, ?_⟩
    simp only [Peer.encodeMessage, Message.encode_of_ok hok]
    rfl
  · obtain ⟨f, hf⟩ := (Message.emits_encode o m).fails hok bytesMut
    exact .inr ⟨f, hf, by simp only [Peer.encodeMessage, hf]⟩

theorem Inv.pop (h : Inv ord P role l) {b : Bool} {r : Role} {m : Message} {rest : List Message}
    (hrole : (l.ends b).phase.role? = some r) (hqueue : (l.ends b).queue = m :: rest)
    (hwriting : (l.ends b).writing = []) (hsend : (l.ends b).sendError = none) :
    Inv ord P role (l.set b ((l.ends b).encodeMessage (ord b) m rest) (l.taken b)) := by
  have hpushed : (l.ends b).pushed = (l.ends b).popped ++ m :: rest := by
    rcases (h.peer b).queued with ⟨hqueued, -⟩ | ⟨-, m', f, -, -, herror⟩
    · rw [hqueued, hqueue]
    · rw [hsend] at herror
      cases herror
  have hnot := not_greets_of_role? hrole
  have hserver : (if b then (l.ends b).told else (l.ends true).told) = (l.ends true).told := by
    cases b <;> rfl
  have hout := h.incoming !b
  rw [Link.unread, Bool.not_not] at hout
  have hin : Incoming (ord !b) P (!b) (l.ends b) (l.ends !b) (l.unread b) := h.incoming b
  rcases encodeMessage_cases (ord b) (l.ends b) m rest with ⟨hok, heq⟩ | ⟨f, hf, heq⟩
  · rw [heq]
    refine h.set ?_ ?_ ?_ ?_ (List.prefix_refl _) (h.taken b)
      (hin.of_reader rfl rfl (.inl rfl) id id .inl .inl) ?_
    · exact { h.peer b with
        queued := .inl ⟨by simp [hpushed], by simp [hsend]⟩
        encodes := forall_mem_concat (h.peer b).encodes hok
        calm := fun hexpecting => by rw [hexpecting] at hrole; cases hrole
        greets := fun hgreets => absurd hgreets hnot }
    · rintro rfl r' hr'
      exact h.told r' hr'
    · rw [hserver]
      exact h.agreed b
    · rw [hserver]
      exact h.agreed !b
    · refine ⟨fun hp => ?_, hout.expects, fun hproper => ?_⟩
      · have hold := hout.setup hp
        rw [hwriting, List.append_nil] at hold
        rw [List.flatMap_append, ← List.append_assoc, ← List.append_assoc, hold]
        simp
      · have hhandled := hout.handled hproper
        have hlength : (l.ends !b).received.length ≤ (l.ends b).popped.length := by
          have hreceived := congrArg List.length hhandled.received
          rw [List.length_map, List.length_take] at hreceived
          omega
        refine { hhandled with received := ?_, stream := fun hp hnone => ?_ }
        · rw [List.take_append_of_le_length hlength]
          exact hhandled.received
        · have hold := hhandled.stream hp hnone
          rw [hwriting, List.append_nil] at hold
          rw [List.drop_append_of_le_length hlength, List.flatMap_append, ← List.append_assoc,
            hold]
          simp
  · rw [heq]
    refine h.set_quiet ?_ rfl rfl rfl rfl id (h.agreed b) (h.taken b)
      (hin.of_reader rfl rfl (.inl rfl) id id .inl .inl)
    exact { h.peer b with queued := .inr ⟨hwriting, m, f, hpushed, hf, rfl⟩ }

theorem more_eq (k : Nat) : more? (AsksMore.more k) = some k := rfl

/-- An end that has told no role has sent nothing. -/
theorem Inv.popped_of_untold (h : Inv ord P role l) {b : Bool} (htold : (l.ends b).told = none) :
    (l.ends b).popped = [] := by
  obtain ⟨-, htold', hphase⟩ := h.agreed b
  cases b with
  | false =>
      rw [htold] at htold'
      cases htold'
  | true =>
      cases hrole : (l.ends true).phase.role? with
      | none =>
          exact ((h.peer true).queued_nil ((h.peer true).early hrole).1).1
      | some r =>
          unfold Phase.role? at hrole
          split at hrole
          · next heq =>
              rw [heq] at hphase
              cases htold.symm.trans hphase
          · next heq =>
              rw [heq] at hphase
              cases htold.symm.trans hphase
          · cases hrole

/-- What is read first is the SETUP, if it is there. -/
theorem Inv.attempt_setup (h : Inv ord P role l) {b : Bool} {α : Type} {d : Decode α}
    {mk : Role → α} (hd : ∀ r, Transfers d (hello (ord !b) (!b) r) (mk r))
    (hphase : (l.ends b).phase = .expecting) :
    (∃ r rest, (l.ends !b).told = some r ∧
      (l.ends b).recver.attempt more? d = .item (mk r) ⟨rest, none⟩ ∧
      rest ++ (l.unread b ++ (l.ends !b).writing) =
        (l.ends !b).popped.flatMap (Message.wire (ord !b))) ∨
    ∃ required, (l.ends b).recver.attempt more? d =
      .park { (l.ends b).recver with wait := some required } ∧
      Receiver.Parked d { (l.ends b).recver with wait := some required } := by
  obtain ⟨k, hk, -, hnil⟩ := (hd .both).asks [] _ rfl (hello_ne_nil _ _ _)
  have hback : (l.ends !b).told.toList = [] →
      (l.ends !b).popped.flatMap (Message.wire (ord !b)) = [] := by
    intro hnone
    rw [h.popped_of_untold (Option.toList_eq_nil_iff.mp hnone)]
    rfl
  rcases Receiver.attempt_stream more_eq (fun r _ => hd r) hk hnil hback
    ((h.incoming b).setup (.inr hphase)) with ⟨r, more, rest, htold, hitem, hrest⟩ | hpark
  · cases hone : (l.ends !b).told with
    | none =>
        rw [hone] at htold
        cases htold
    | some r' =>
        rw [hone] at htold
        cases htold
        exact .inl ⟨r, rest, rfl, hitem, hrest⟩
  · exact .inr hpark

theorem Local.popped_subset {o : IterOrder} {p : Peer} (h : Local o P p) :
    ∀ m ∈ p.popped, m ∈ p.pushed := by
  intro m hm
  rcases h.queued with ⟨hqueued, -⟩ | ⟨-, m', f, hstuck, -, -⟩
  · rw [hqueued]
    exact List.mem_append_left _ hm
  · rw [hstuck]
    exact List.mem_append_left _ hm

theorem Inv.transfers (h : Inv ord P role l) {b : Bool} (hproper : Proper (l.ends !b)) :
    ∀ m ∈ (l.ends !b).popped.drop (l.ends b).received.length,
      Transfers Message.decode (m.wire (ord !b)) m.normal := by
  intro m hm
  have hpopped := List.mem_of_mem_drop hm
  obtain ⟨r, -, hsends⟩ := hproper m ((h.peer !b).popped_subset m hpopped)
  exact hsends.transfers ((h.peer !b).encodes m hpopped)

/-- What is read after that is the next message. -/
theorem Inv.attempt_message (h : Inv ord P role l) {b : Bool} (hproper : Proper (l.ends !b))
    (hrole : (l.ends b).phase.role? ≠ none) (herror : (l.ends b).recvError = none) :
    (∃ m more rest, (l.ends !b).popped.drop (l.ends b).received.length = m :: more ∧
      (l.ends b).recver.attempt more? Message.decode = .item m.normal ⟨rest, none⟩ ∧
      rest ++ (l.unread b ++ (l.ends !b).writing) = more.flatMap (Message.wire (ord !b))) ∨
    ∃ required, (l.ends b).recver.attempt more? Message.decode =
      .park { (l.ends b).recver with wait := some required } ∧
      Receiver.Parked Message.decode { (l.ends b).recver with wait := some required } := by
  have hnil : Message.decode [] = .error (.err (AsksMore.more 1)) := rfl
  have hall := ((h.incoming b).handled hproper).stream (.inr hrole) herror
  rw [← List.append_nil (List.flatMap _ _)] at hall
  rcases Receiver.attempt_stream more_eq (h.transfers hproper) Nat.one_pos hnil (fun _ => rfl)
    hall with
    ⟨m, more, rest, hmore, hitem, hrest⟩ | hpark
  · rw [List.append_nil] at hrest
    exact .inl ⟨m, more, rest, hmore, hitem, hrest⟩
  · exact .inr hpark

theorem Inv.park (h : Inv ord P role l) {b : Bool} {required : Nat}
    (hphase : (l.ends b).phase = .expecting ∨ ∃ r, (l.ends b).phase = .running r)
    (hexpects : (l.ends b).phase = .expecting →
      Expects (!b) { (l.ends b).recver with wait := some required })
    (hparked : Proper (l.ends !b) → (l.ends b).phase.role? ≠ none →
      Receiver.Parked Message.decode { (l.ends b).recver with wait := some required }) :
    Inv ord P role (l.set b
      { l.ends b with recver := { (l.ends b).recver with wait := some required } }
      (l.taken b)) := by
  refine h.set_quiet ?_ rfl rfl rfl rfl id (h.agreed b) (h.taken b) ?_
  · exact { h.peer b with greets := fun hgreets => absurd hgreets (not_greets_of_reads hphase) }
  · exact { h.incoming b with
      expects := hexpects
      handled := fun hproper =>
        { (h.incoming b).handled hproper with parked := hparked hproper } }

theorem downgrade_error {r r' : Role} {e : ConnectError} (h : downgrade r r' = .error e) :
    r' = r ∧ r ≠ .both ∧ e = .roleIncompatible r' r := by
  cases r <;> cases r' <;> cases h <;> simp

/-- What the client makes of the role that it is told. -/
theorem downgrade_ok {client server r : Role} (h : downgrade server client = .ok r) :
    ∃ r', downgrade client r = .ok r' ∧ r.isCompatible r' = true ∧ r'.isCompatible r = true := by
  cases client <;> cases server <;> cases h <;> exact ⟨_, rfl, rfl, rfl⟩

theorem Inv.fail (h : Inv ord P role l) {b : Bool} {recver : Receiver} {e : ConnectError}
    (hrole : (l.ends b).phase.role? = none) (he : Ending P role b e) :
    Inv ord P role (l.set b { l.ends b with recver, phase := .failed e } (l.taken b)) := by
  obtain ⟨hpushed, hreceived⟩ := (h.peer b).early hrole
  obtain ⟨hown, htold, -⟩ := h.agreed b
  refine h.set_quiet ?_ rfl rfl rfl rfl (Proper.of_nil hpushed) ⟨hown, htold, he⟩ (h.taken b) ?_
  · exact { h.peer b with
      early := fun _ => ⟨hpushed, hreceived⟩
      calm := fun hexpecting => by cases hexpecting
      greets := fun hgreets => by simp [Phase.greets] at hgreets }
  · refine ⟨?_, (fun hp => by cases hp), fun hproper => ?_⟩
    · rintro (hp | hp) <;> cases hp
    · exact { (h.incoming b).handled hproper with
        stream := fun hp => by simp [Phase.streams, Phase.role?] at hp
        parked := fun hp => absurd rfl hp }

theorem Phase.cases_of_role? {phase : Phase} {r : Role} (h : phase.role? = some r) :
    phase = .established r ∨ phase = .running r := by
  cases phase <;> cases h
  · exact .inl rfl
  · exact .inr rfl

theorem Agreed.told_of_role? {told : Option Role} {b : Bool} {p : Peer} {r : Role}
    (h : Agreed P role told b p) (hr : p.phase.role? = some r) :
    if b then told = some r else ∃ r', told = some r' ∧ downgrade (role b) r' = .ok r := by
  obtain ⟨-, -, hphase⟩ := h
  rcases Phase.cases_of_role? hr with heq | heq <;> rwa [heq] at hphase

/-- Before the server has told its role the client has not read a SETUP. -/
theorem Agreed.untold {p : Peer} (h : Agreed P role none false p) :
    ¬ p.phase.streams ∧ ∀ told, Agreed P role told false p := by
  obtain ⟨hrole, htold, hphase⟩ := h
  constructor
  · rintro (⟨r, hr⟩ | hr)
    · rw [hr] at hphase
      cases hphase.1
    · obtain ⟨r, hr⟩ := Option.ne_none_iff_exists'.mp hr
      rcases Phase.cases_of_role? hr with heq | heq <;>
        · rw [heq] at hphase
          obtain ⟨r', hr', -⟩ := hphase
          cases hr'
  · refine fun told => ⟨hrole, htold, ?_⟩
    cases heq : p.phase <;> simp_all

/-- Two sessions have halves that fit. -/
theorem Inv.compatible (h : Inv ord P role l) {b : Bool} {r r' : Role}
    (hr : (l.ends b).phase.role? = some r) (hr' : (l.ends !b).phase.role? = some r') :
    r'.isCompatible r = true := by
  have hfit {client server : Role} (hclient : (l.ends false).phase.role? = some client)
      (hserver : (l.ends true).phase.role? = some server) :
      server.isCompatible client = true ∧ client.isCompatible server = true := by
    have htold : (l.ends true).told = some server := (h.agreed true).told_of_role? hserver
    obtain ⟨told, htold', hdowngrade⟩ := (h.agreed false).told_of_role? hclient
    obtain ⟨r', hr', hserver', hclient'⟩ := downgrade_ok (h.told server htold)
    obtain rfl : told = server := Option.some.inj (htold'.symm.trans htold)
    obtain rfl : r' = client := Except.ok.inj (hr'.symm.trans hdowngrade)
    exact ⟨hserver', hclient'⟩
  cases b
  · exact (hfit hr hr').1
  · exact (hfit hr' hr).2

/-- The SETUP has been taken from the buffer. -/
theorem Incoming.of_setup {o : IterOrder} {isServer : Bool} {r r' w : Peer}
    {unread rest : Bytes} (h : Incoming o P isServer r w unread)
    (hrest : rest ++ (unread ++ w.writing) = w.popped.flatMap (Message.wire o))
    (hempty : r.received = []) (hrecver : r'.recver = ⟨rest, none⟩)
    (hreceived : r'.received = r.received) (herror : r'.recvError = r.recvError)
    (hgreeting : r'.phase ≠ .greeting) (hexpecting : r'.phase ≠ .expecting) :
    Incoming o P isServer r' w unread where
  setup := by
    rintro (hp | hp)
    · exact absurd hp hgreeting
    · exact absurd hp hexpecting
  expects := fun hp => absurd hp hexpecting
  handled hproper := by
    have hhandled := h.handled hproper
    constructor
    · rw [hreceived]
      exact hhandled.received
    · intro _ _
      rw [hrecver, hreceived, hempty]
      exact hrest
    · exact fun _ => Receiver.parked_of_ready (by rw [hrecver])
    · rw [herror]
      exact hhandled.recvError

theorem recvClient_error {p : Peer} {o : IterOrder} {peer : Role} {e : ConnectError}
    (h : downgrade p.role peer = .error e) :
    p.recvClient o (clientSetup peer) = { p with phase := .failed e } := by
  simp [Peer.recvClient, clientSetup, h]

theorem recvClient_ok {p : Peer} {o : IterOrder} {peer r : Role}
    (h : downgrade p.role peer = .ok r) : p.recvClient o (clientSetup peer) =
      { p with phase := .answering r, writing := hello o true r, told := some r } := by
  rw [← greet_eq (encode_server o r)]
  simp [Peer.recvClient, clientSetup, serverSetup, h]

theorem recvServer_ok {p : Peer} {peer r : Role} (h : downgrade p.role peer = .ok r) :
    p.recvServer (serverSetup peer) = { p with phase := .established r } := by
  simp [Peer.recvServer, serverSetup, h]

theorem Inv.attempt_server (h : Inv ord P role l)
    (hphase : (l.ends true).phase = .expecting) :
    Inv ord P role (l.set true
      ((l.ends true).attemptSetup Client.decode fun q => q.recvClient (ord true))
      (l.taken true)) := by
  have hrole? : (l.ends true).phase.role? = none := by rw [hphase]; rfl
  obtain ⟨hpushed, hreceived⟩ := (h.peer true).early hrole?
  obtain ⟨hown, htold, huntold⟩ := h.agreed true
  rw [hphase] at huntold
  have hnone := huntold rfl
  have hclient := h.agreed false
  rw [hnone] at hclient
  obtain ⟨hstreams, hother⟩ := hclient.untold
  rcases h.attempt_setup (b := true) (transfers_client _) hphase with
    ⟨r, rest, hr, hitem, hrest⟩ | ⟨required, hpark, hparked⟩
  · obtain rfl : r = role false := by
      obtain ⟨-, hsame, -⟩ := hclient
      exact Option.some.inj (hr.symm.trans hsame)
    simp only [Peer.attemptSetup, hitem]
    cases hdowngrade : downgrade (role true) (role false) with
    | error e =>
        rw [recvClient_error (by rw [hown]; exact hdowngrade)]
        exact h.fail hrole? (.inr ⟨rfl, downgrade_error hdowngrade⟩)
    | ok r =>
        rw [recvClient_ok (by rw [hown]; exact hdowngrade)]
        have hout := h.incoming false
        rw [Link.unread, Bool.not_false] at hout
        obtain ⟨hpopped, hqueue, hsend⟩ := (h.peer true).queued_nil hpushed
        have hcalm := (h.peer true).calm hphase
        refine h.set ?_ ?_ ⟨hown, rfl, rfl, rfl⟩ (hother _) (List.prefix_refl _) (h.taken true)
          ((h.incoming true).of_setup hrest hreceived rfl rfl rfl (fun hp => by cases hp)
            fun hp => by cases hp) ?_
        · exact { h.peer true with
            queued := .inl ⟨by rw [hpushed, hpopped, hqueue]; rfl, hsend⟩
            early := fun _ => ⟨hpushed, hreceived⟩
            calm := fun hexpecting => by cases hexpecting
            greets := fun _ => ⟨rfl, hello_ne_nil (ord true) true r⟩ }
        · rintro - r' hr'
          obtain rfl := Option.some.inj hr'
          exact hdowngrade
        · refine ⟨fun hp => ?_, hout.expects, fun hproper => ?_⟩
          · have hold := hout.setup hp
            rw [hnone, hpopped, hcalm, List.append_nil] at hold
            have hall : (l.ends false).recver.buffer ++
                ((l.ends true).wire.drop (l.taken false) ++ hello (ord true) true r) =
                [r].flatMap (hello (ord true) true) ++
                  (l.ends true).popped.flatMap (Message.wire (ord true)) := by
              rw [← List.append_assoc, hold, hpopped]
              simp
            exact hall
          · exact { hout.handled (Proper.of_nil hpushed hproper) with
              stream := fun hp => absurd hp hstreams }
  · simp only [Peer.attemptSetup, hpark]
    exact h.park (.inl hphase) (fun _ => hparked) fun _ hp => absurd hrole? hp

theorem Inv.attempt_client (h : Inv ord P role l)
    (hphase : (l.ends false).phase = .expecting) :
    Inv ord P role (l.set false ((l.ends false).attemptSetup Server.decode Peer.recvServer)
      (l.taken false)) := by
  have hrole? : (l.ends false).phase.role? = none := by rw [hphase]; rfl
  obtain ⟨hpushed, hreceived⟩ := (h.peer false).early hrole?
  obtain ⟨hown, htold, -⟩ := h.agreed false
  rcases h.attempt_setup (b := false) (transfers_server _) hphase with
    ⟨r, rest, hr, hitem, hrest⟩ | ⟨required, hpark, hparked⟩
  · obtain ⟨r', hdowngrade, -⟩ := downgrade_ok (h.told r hr)
    simp only [Peer.attemptSetup, hitem]
    rw [recvServer_ok (by rw [hown]; exact hdowngrade)]
    refine h.set_quiet ?_ rfl rfl rfl rfl (Proper.of_nil hpushed)
      ⟨hown, htold, r, hr, hdowngrade⟩ (h.taken false) ?_
    · exact { h.peer false with
        early := fun hp => by cases hp
        calm := fun hexpecting => by cases hexpecting
        greets := fun hgreets => by simp [Phase.greets] at hgreets }
    · exact (h.incoming false).of_setup hrest hreceived rfl rfl rfl (fun hp => by cases hp)
        fun hp => by cases hp
  · simp only [Peer.attemptSetup, hpark]
    exact h.park (.inl hphase) (fun _ => hparked) fun _ hp => absurd hrole? hp

theorem attemptMessage_cases (p : Peer) (r : Role) (result : Except SessionError Unit) :
    ∃ recver received recvError,
      p.attemptMessage r result = { p with recver, received, recvError } := by
  unfold Peer.attemptMessage
  split
  · split
    · exact ⟨_, _, _, rfl⟩
    · exact ⟨_, _, _, rfl⟩
  · exact ⟨_, _, _, rfl⟩
  · exact ⟨_, _, _, rfl⟩

/-- A message of the other end's half is there, or not all of it. -/
theorem Inv.attempt_handled (h : Inv ord P role l) {b : Bool} (hproper : Proper (l.ends !b))
    {r : Role} (hrole : (l.ends b).phase.role? = some r) (herror : (l.ends b).recvError = none)
    {result : Except SessionError Unit} (hresult : ∀ e, result = .error e → P e) :
    Handled (ord !b) P ((l.ends b).attemptMessage r result) (l.ends !b) (l.unread b) := by
  have hrole? : (l.ends b).phase.role? ≠ none := by rw [hrole]; exact Option.some_ne_none r
  have hhandled := (h.incoming b).handled hproper
  rcases h.attempt_message hproper hrole? herror with
    ⟨m, more, rest, hmore, hitem, hrest⟩ | ⟨required, hpark, hparked⟩
  · have hmem : m ∈ (l.ends !b).popped := by
      refine List.mem_of_mem_drop (i := (l.ends b).received.length) ?_
      rw [hmore]
      exact List.mem_cons_self ..
    obtain ⟨r', hr', hsends⟩ := hproper m ((h.peer !b).popped_subset m hmem)
    simp only [Peer.attemptMessage, hitem]
    rcases hsends.dispatch (h.compatible hrole hr') result with hok | ⟨e, he, herr⟩
    · simp only [hok]
      have hsucc : (l.ends !b).popped.take ((l.ends b).received.length + 1) =
          (l.ends !b).popped.take (l.ends b).received.length ++ [m] := by
        rw [List.take_add, hmore]
        rfl
      have hdrop : (l.ends !b).popped.drop ((l.ends b).received.length + 1) = more := by
        rw [← List.drop_drop, hmore]
        rfl
      constructor
      · rw [List.length_append, List.length_singleton, hsucc, List.map_append,
          ← hhandled.received]
        rfl
      · intro _ _
        rw [List.length_append, List.length_singleton, hdrop]
        exact hrest
      · exact fun _ => Receiver.parked_of_ready rfl
      · exact hhandled.recvError
    · simp only [herr, taskError]
      constructor
      · exact hhandled.received
      · intro _ hnone
        cases hnone
      · exact fun _ => Receiver.parked_of_ready rfl
      · rintro e' ⟨⟩
        exact hresult e he
  · simp only [Peer.attemptMessage, hpark]
    exact { hhandled with parked := fun _ => hparked }

theorem Inv.attempt_running (h : Inv ord P role l) {b : Bool} {r : Role}
    (hphase : (l.ends b).phase = .running r) (herror : (l.ends b).recvError = none)
    {result : Except SessionError Unit} (hresult : ∀ e, result = .error e → P e) :
    Inv ord P role (l.set b ((l.ends b).attemptMessage r result) (l.taken b)) := by
  have hrole : (l.ends b).phase.role? = some r := by rw [hphase]; rfl
  have hnot := not_greets_of_role? hrole
  have hhandled (hproper : Proper (l.ends !b)) := h.attempt_handled hproper hrole herror hresult
  obtain ⟨recver, received, recvError, heq⟩ := attemptMessage_cases (l.ends b) r result
  rw [heq] at hhandled ⊢
  refine h.set_quiet ?_ rfl rfl rfl rfl id (h.agreed b) (h.taken b) ⟨?_, ?_, hhandled⟩
  · exact { h.peer b with
      early := fun hp => by rw [hrole] at hp; cases hp
      greets := fun hgreets => absurd hgreets hnot }
  · rintro (hp | hp) <;> cases hphase.symm.trans hp
  · intro hp
    cases hphase.symm.trans hp

theorem Inv.recvLost (h : Inv ord P role l) {b : Bool} {e : SessionError} (he : P e) :
    Inv ord P role (l.set b { l.ends b with recvError := some e } (l.taken b)) :=
  h.set_quiet { h.peer b with } rfl rfl rfl rfl id (h.agreed b) (h.taken b)
    ((h.incoming b).of_reader rfl rfl (.inr ⟨e, rfl, he⟩) id id .inl .inl)

theorem Inv.sendLost (h : Inv ord P role l) {b : Bool} {e : SessionError}
    (hsend : (l.ends b).sendError = none) (he : P e) :
    Inv ord P role (l.set b { l.ends b with sendError := some e } (l.taken b)) := by
  refine h.set_quiet ?_ rfl rfl rfl rfl id (h.agreed b) (h.taken b)
    ((h.incoming b).of_reader rfl rfl (.inl rfl) id id .inl .inl)
  refine { h.peer b with queued := ?_ }
  rcases (h.peer b).queued with ⟨hqueued, -⟩ | ⟨-, m, f, -, -, herror⟩
  · refine .inl ⟨hqueued, ?_⟩
    rintro e' ⟨⟩
    exact he
  · rw [hsend] at herror
    cases herror

theorem Inv.step (h : Inv ord P role l) {a : Link.Act} (hallowed : Allowed P l a)
    (hstep : l.step ord a = some l') : Inv ord P role l' := by
  obtain ⟨b, act⟩ := a
  obtain ⟨p, hp, rfl⟩ := step_next hstep
  cases hp with
  | write hpos hn hphase => exact h.write _ (not_expecting_of_writes hphase)
  | read hpos hn hwait hphase => exact h.read hn (hphase.imp_right fun ⟨r, hr, _⟩ => ⟨r, hr⟩)
  | attemptClient hserver hphase hwait =>
      subst hserver
      exact h.attempt_server hphase
  | attemptServer hclient hphase hwait =>
      subst hclient
      exact h.attempt_client hphase
  | attemptMessage hphase herror hwait =>
      refine h.attempt_running hphase herror ?_
      rintro e rfl
      exact hallowed
  | run hphase => exact h.run hphase
  | push hrole => exact h.push _ hrole
  | pop hphase hqueue herror hwriting =>
      exact h.pop (by rw [hphase]; rfl) hqueue hwriting herror
  | recvLostEarly hphase => exact h.fail (by rw [hphase]; rfl) (.inl ⟨_, rfl, hallowed⟩)
  | recvLost hphase herror => exact h.recvLost hallowed
  | sendLostEarly hphase => exact h.fail hphase.role? (.inl ⟨_, rfl, hallowed⟩)
  | sendLost hphase herror => exact h.sendLost herror hallowed

theorem inv_of_reachable
    (hl : Reachable (Link.step ord) (Allowed P) (Link.new ord role) l) : Inv ord P role l :=
  hl.invariant inv_new fun h hallowed hstep => h.step hallowed hstep

end MoqTransport.Session.Control
