import MoqTransport.Session.Negotiation

/-!
What two sessions can rely on. They never get halves that do not fit, and only
the server learns that there are none (`roles_agree`); the messages that one
end queues are handled by the other in their order, up to the first that has no
encoding (`handled_in_order`); and as long as neither a handler nor the transport
fails, both inevitably get to run and to handle all of these (`settles`). The
last is by a rank that every step lowers: a byte is worth most before it is
written, and less once it is on the way and once it is buffered.
-/

namespace MoqTransport.Session.Control

open Streaming Coding Setup Machine

variable {ord : Bool → IterOrder} {P : SessionError → Prop} {role : Bool → Role} {l l' : Link}

/-- The halves that are left of the two roles. -/
theorem downgrade_halves {own peer r : Role} (h : downgrade own peer = .ok r) :
    r.isPublisher = (own.isPublisher && peer.isSubscriber) ∧
      r.isSubscriber = (own.isSubscriber && peer.isPublisher) := by
  cases own <;> cases peer <;> cases h <;> exact ⟨rfl, rfl⟩

theorem downgrade_twice {client server told r : Role} (htold : downgrade server client = .ok told)
    (h : downgrade client told = .ok r) :
    r.isPublisher = (client.isPublisher && server.isSubscriber) ∧
      r.isSubscriber = (client.isSubscriber && server.isPublisher) := by
  cases client <;> cases server <;> cases htold <;> cases h <;> exact ⟨rfl, rfl⟩

theorem Inv.halves (h : Inv ord P role l) {b : Bool} {r : Role}
    (hr : (l.ends b).phase.role? = some r) :
    r.isPublisher = ((role b).isPublisher && (role !b).isSubscriber) ∧
      r.isSubscriber = ((role b).isSubscriber && (role !b).isPublisher) := by
  have htold := (h.agreed b).told_of_role? hr
  cases b with
  | false =>
      obtain ⟨told, htold, hdowngrade⟩ := htold
      exact downgrade_twice (h.told told htold) hdowngrade
  | true => exact downgrade_halves (h.told r htold)

/-- The tasks go on: nothing is queued, and nothing fails. -/
def Calm (_ : Link) (a : Link.Act) : Prop :=
  match a.2 with
  | .write _ | .read _ | .run | .pop => True
  | .attempt result => result = .ok ()
  | _ => False

/-- No error of a handler or of the transport. -/
def NoError (_ : SessionError) : Prop := False

theorem Calm.allowed {a : Link.Act} (h : Calm l a) : Allowed NoError l a := by
  obtain ⟨b, act⟩ := a
  cases act with
  | attempt result =>
      obtain rfl : result = .ok () := h
      trivial
  | push m => exact h.elim
  | recvLost e => exact h.elim
  | sendLost e => exact h.elim
  | _ => trivial

/-- As long as nothing fails, the handshake fails only because of the roles. -/
theorem Inv.not_failed (h : Inv ord NoError role l)
    (hroles : role false = role true → role true = .both) (b : Bool) (e : ConnectError) :
    (l.ends b).phase ≠ .failed e := by
  intro he
  obtain ⟨-, -, hphase⟩ := h.agreed b
  rw [he] at hphase
  rcases hphase with ⟨s, -, hs⟩ | ⟨-, hsame, hone, -⟩
  · exact hs
  · exact hone (hroles hsame)

theorem Inv.no_recvError (h : Inv ord NoError role l) {b : Bool} (hproper : Proper (l.ends !b)) :
    (l.ends b).recvError = none :=
  Option.eq_none_iff_forall_not_mem.mpr ((h.incoming b).handled hproper).recvError

/-- What has been sent, and what has become of the send task. -/
theorem Local.sent {o : IterOrder} {p : Peer} (h : Local o NoError p) :
    (p.sendError = none ∧ p.pushed = p.popped ++ p.queue) ∨
      (p.sendError ≠ none ∧ p.writing = [] ∧ p.popped = Message.sendable o p.pushed ∧
        Message.sendable o p.pushed ≠ p.pushed) := by
  rcases h.queued with ⟨hqueued, hnone⟩ | ⟨hwriting, m, f, hpushed, hf, herror⟩
  · exact .inl ⟨Option.eq_none_iff_forall_not_mem.mpr hnone, hqueued⟩
  · have hsendable : Message.sendable o p.pushed = p.popped := by
      rw [hpushed]
      exact Message.sendable_of_error h.encodes hf
    refine .inr ⟨by simp [herror], hwriting, hsendable.symm, ?_⟩
    rw [hsendable, hpushed]
    simp

/-! Where no task can go on, all has been handled. -/

/-- No step of a task is possible. -/
def Quiet (ord : Bool → IterOrder) (l : Link) : Prop :=
  ∀ b act, Calm l (b, act) → (l.ends b).step b (ord b) (l.unread b) act = none

theorem Quiet.phase (hquiet : Quiet ord l) (h : Inv ord NoError role l)
    (hroles : role false = role true → role true = .both) (b : Bool) :
    (l.ends b).phase = .expecting ∨ ∃ r, (l.ends b).phase = .running r := by
  obtain ⟨-, -, hagreed⟩ := h.agreed b
  have hwrite (hgreets : (l.ends b).phase.greets) : False := by
    obtain ⟨-, hwriting⟩ := (h.peer b).greets hgreets
    have hnone := hquiet b (.write 1) trivial
    rcases hgreets with hphase | ⟨r, hphase⟩
    · simp [Peer.step, hphase, Nat.one_le_iff_ne_zero, hwriting] at hnone
    · simp [Peer.step, hphase, Nat.one_le_iff_ne_zero, hwriting] at hnone
  cases hphase : (l.ends b).phase with
  | greeting => exact (hwrite (.inl hphase)).elim
  | expecting => exact .inl rfl
  | answering r => exact (hwrite (.inr ⟨r, hphase⟩)).elim
  | established r =>
      have hnone := hquiet b .run trivial
      simp [Peer.step, hphase] at hnone
  | running r => exact .inr ⟨r, rfl⟩
  | failed e => exact (h.not_failed hroles b e hphase).elim
  | panicked =>
      rw [hphase] at hagreed
      exact hagreed.elim

/-- The reader is parked, and nothing is on the way. -/
theorem Quiet.reader (hquiet : Quiet ord l) (h : Inv ord NoError role l)
    (hroles : role false = role true → role true = .both) {b : Bool}
    (hproper : Proper (l.ends !b)) :
    (∃ required, (l.ends b).recver.wait = some required) ∧ l.unread b = [] := by
  have herror := h.no_recvError hproper
  have hphase := hquiet.phase h hroles b
  have hwait : (l.ends b).recver.wait ≠ none := by
    intro hwait
    have hnone := hquiet b (.attempt (.ok ())) rfl
    rcases hphase with hphase | ⟨r, hphase⟩
    · cases b <;> simp [Peer.step, hwait, hphase] at hnone
    · simp [Peer.step, hwait, hphase, herror] at hnone
  refine ⟨Option.ne_none_iff_exists'.mp hwait, ?_⟩
  by_contra hunread
  have hpos := List.length_pos_iff.mpr hunread
  have hnone := hquiet b (.read (l.unread b).length) trivial
  rcases hphase with hphase | ⟨r, hphase⟩
  · simp [Peer.step, hwait, hphase, hpos] at hnone
  · simp [Peer.step, hwait, hphase, hpos, herror] at hnone

/-- All that can be sent has been written. -/
theorem Quiet.writer (hquiet : Quiet ord l) (h : Inv ord NoError role l)
    (hroles : role false = role true → role true = .both) (b : Bool) :
    (l.ends b).writing = [] ∧ (l.ends b).popped = Message.sendable (ord b) (l.ends b).pushed ∧
      ((l.ends b).sendError = none ↔
        Message.sendable (ord b) (l.ends b).pushed = (l.ends b).pushed) := by
  rcases (h.peer b).sent with ⟨herror, hqueued⟩ | ⟨herror, hwriting, hpopped, hne⟩
  · have hall (hpopped : (l.ends b).pushed = (l.ends b).popped) :
        Message.sendable (ord b) (l.ends b).pushed = (l.ends b).pushed := by
      rw [hpopped]
      exact Message.sendable_of_ok (h.peer b).encodes
    have hpopped : (l.ends b).writing = [] ∧ (l.ends b).pushed = (l.ends b).popped := by
      rcases hquiet.phase h hroles b with hphase | ⟨r, hphase⟩
      · obtain ⟨hpushed, -⟩ := (h.peer b).early (by rw [hphase]; rfl)
        obtain ⟨hpopped, -, -⟩ := (h.peer b).queued_nil hpushed
        exact ⟨(h.peer b).calm hphase, hpushed.trans hpopped.symm⟩
      · have hwriting : (l.ends b).writing = [] := by
          by_contra hwriting
          have hnone := hquiet b (.write 1) trivial
          simp [Peer.step, hphase, herror, Nat.one_le_iff_ne_zero, hwriting] at hnone
        refine ⟨hwriting, ?_⟩
        cases hqueue : (l.ends b).queue with
        | nil => rw [hqueued, hqueue, List.append_nil]
        | cons m rest =>
            have hnone := hquiet b .pop trivial
            simp [Peer.step, hphase, hqueue, herror, hwriting] at hnone
    exact ⟨hpopped.1, hpopped.2.symm.trans (hall hpopped.2).symm,
      fun _ => hall hpopped.2, fun _ => herror⟩
  · exact ⟨hwriting, hpopped, fun hnone => absurd hnone herror, fun hsame => absurd hsame hne⟩

/-- An end does not wait for a SETUP that has been sent. -/
theorem Quiet.not_expecting (hquiet : Quiet ord l) (h : Inv ord NoError role l)
    (hroles : role false = role true → role true = .both) {b : Bool}
    (hproper : Proper (l.ends !b)) {r : Role} (htold : (l.ends !b).told = some r) :
    (l.ends b).phase ≠ .expecting := by
  intro hphase
  obtain ⟨⟨required, hwait⟩, hunread⟩ := hquiet.reader h hroles hproper
  obtain ⟨hwriting, -⟩ := hquiet.writer h hroles !b
  have hall := (h.incoming b).setup (.inr hphase)
  rw [hunread, hwriting, htold, List.append_nil, List.append_nil] at hall
  have hbuffer : (l.ends b).recver.buffer =
      hello (ord !b) (!b) r ++ (l.ends !b).popped.flatMap (Message.wire (ord !b)) := by
    simpa using hall
  have hexpects := (h.incoming b).expects hphase
  have hlt : (l.ends b).recver.buffer.length < (hello (ord !b) (!b) r).length := by
    cases b with
    | false =>
        exact Receiver.idle_of_parked more_eq (transfers_server _ r) hexpects hwait
          (by rw [hbuffer])
    | true =>
        exact Receiver.idle_of_parked more_eq (transfers_client _ r) hexpects hwait
          (by rw [hbuffer])
  rw [hbuffer, List.length_append] at hlt
  omega

theorem Quiet.running (hquiet : Quiet ord l) (h : Inv ord NoError role l)
    (hroles : role false = role true → role true = .both) (hproper : ∀ b, Proper (l.ends b))
    (b : Bool) : ∃ r, (l.ends b).phase = .running r := by
  have hserver : ∃ r, (l.ends true).phase = .running r := by
    obtain ⟨-, htold, -⟩ := h.agreed false
    exact (hquiet.phase h hroles true).resolve_left
      (hquiet.not_expecting h hroles (b := true) (hproper false) htold)
  cases b with
  | true => exact hserver
  | false =>
      obtain ⟨r, hr⟩ := hserver
      obtain ⟨-, -, hphase⟩ := h.agreed true
      rw [hr] at hphase
      exact (hquiet.phase h hroles false).resolve_left
        (hquiet.not_expecting h hroles (b := false) (hproper true) hphase)

theorem Quiet.received (hquiet : Quiet ord l) (h : Inv ord NoError role l)
    (hroles : role false = role true → role true = .both) (hproper : ∀ b, Proper (l.ends b))
    (b : Bool) :
    (l.ends b).received =
      (Message.sendable (ord !b) (l.ends !b).pushed).map Message.normal := by
  have herror := h.no_recvError (hproper !b)
  obtain ⟨r, hphase⟩ := hquiet.running h hroles hproper b
  have hrole? : (l.ends b).phase.role? ≠ none := by
    rw [hphase]
    exact Option.some_ne_none r
  obtain ⟨⟨required, hwait⟩, hunread⟩ := hquiet.reader h hroles (hproper !b)
  obtain ⟨hwriting, hpopped, -⟩ := hquiet.writer h hroles !b
  have hhandled := (h.incoming b).handled (hproper !b)
  have hall := hhandled.stream (.inr hrole?) herror
  rw [hunread, hwriting, List.append_nil, List.append_nil] at hall
  have hrest := Receiver.stream_of_parked more_eq (h.transfers (hproper !b))
    (hhandled.parked hrole?) hwait hall
  rw [hhandled.received, ← hpopped, List.take_of_length_le (List.drop_eq_nil_iff.mp hrest)]

/-! Every step of a task lowers the rank. -/

def Phase.rank : Phase → Nat
  | .greeting => 4
  | .expecting => 3
  | .answering _ => 2
  | .established _ => 1
  | _ => 0

/-- The server's SETUP, before it is known which it will be. -/
def owed (ord : IterOrder) (isServer : Bool) (phase : Phase) : Nat :=
  if isServer ∧ phase = .expecting then
    ([.publisher, .subscriber, .both].map fun role => (hello ord true role).length).sum
  else 0

def Peer.rank (ord : IterOrder) (isServer : Bool) (p : Peer) : Nat :=
  p.phase.rank + 4 * (owed ord isServer p.phase + p.writing.length) +
    5 * (p.queue.map fun m => (m.wire ord).length).sum + p.recver.buffer.length +
    if p.recver.wait = none then 1 else 0

/-- An end with what is on the way to it. -/
def Link.rankAt (ord : Bool → IterOrder) (l : Link) (b : Bool) : Nat :=
  (l.ends b).rank (ord b) b + 3 * (l.unread b).length

def Link.rank (ord : Bool → IterOrder) (l : Link) : Nat := l.rankAt ord false + l.rankAt ord true

theorem rank_eq (l : Link) (b : Bool) : l.rank ord = l.rankAt ord b + l.rankAt ord !b := by
  cases b
  · rfl
  · exact Nat.add_comm _ _

/-- A step lowers the rank by what it takes from the end and from the bytes on
the way. -/
theorem rank_set_lt {b : Bool} {p : Peer} {n : Nat}
    (h : p.rank (ord b) b + 3 * ((l.ends !b).wire.drop n).length +
      3 * (p.wire.drop (l.taken !b)).length <
      (l.ends b).rank (ord b) b + 3 * ((l.ends !b).wire.drop (l.taken b)).length +
        3 * ((l.ends b).wire.drop (l.taken !b)).length) :
    (l.set b p n).rank ord < l.rank ord := by
  have hunread : l.unread (!b) = (l.ends b).wire.drop (l.taken !b) := by
    rw [Link.unread, Bool.not_not]
  rw [rank_eq _ b, rank_eq _ b]
  simp only [Link.rankAt, ends_set, ends_set_not, unread_set, unread_set_not, hunread]
  rw [Link.unread]
  omega

/-- A step that leaves the bytes on the way. -/
theorem rank_set_lt_of_peer {b : Bool} {p : Peer} (hwire : p.wire = (l.ends b).wire)
    (h : p.rank (ord b) b < (l.ends b).rank (ord b) b) :
    (l.set b p (l.taken b)).rank ord < l.rank ord := by
  refine rank_set_lt ?_
  rw [hwire]
  omega

theorem written_rank {o : IterOrder} {isServer : Bool} {p : Peer} {n : Nat}
    (hn : n ≤ p.writing.length) (hphase : p.phase ≠ .expecting)
    (hclient : p.phase = .greeting → isServer = false) :
    (p.written n).rank o isServer + 4 * n ≤ p.rank o isServer ∧
      (p.written n).wire = p.wire ++ p.writing.take n := by
  have howed (phase : Phase) (h : isServer = false ∨ phase ≠ .expecting) :
      owed o isServer phase = 0 := by
    rw [owed, if_neg]
    rintro ⟨hserver, hexpecting⟩
    rcases h with h | h
    · rw [h] at hserver
      cases hserver
    · exact h hexpecting
  rcases written_cases p n with ⟨-, heq⟩ | ⟨hgreeting, -, heq⟩ | ⟨r, hanswering, heq⟩
  · rw [heq]
    refine ⟨?_, rfl⟩
    simp only [Peer.rank, List.length_drop, howed p.phase (.inr hphase)]
    omega
  · rw [heq]
    refine ⟨?_, rfl⟩
    simp only [Peer.rank, List.length_drop, howed .expecting (.inl (hclient hgreeting)),
      hgreeting, Phase.rank]
    omega
  · rw [heq]
    refine ⟨?_, rfl⟩
    have hestablished : Phase.established r ≠ .expecting := by simp
    simp only [Peer.rank, List.length_drop, howed (.established r) (.inr hestablished),
      hanswering, Phase.rank]
    omega

theorem hello_length_le_owed (o : IterOrder) (r : Role) :
    (hello o true r).length ≤ owed o true .expecting := by
  simp only [owed, and_self, if_true, List.map_cons, List.map_nil, List.sum_cons, List.sum_nil]
  cases r <;> omega

theorem owed_of_ne {o : IterOrder} {isServer : Bool} {phase : Phase} (h : phase ≠ .expecting) :
    owed o isServer phase = 0 := if_neg fun hboth => h hboth.2

/-- Parking is a step down. -/
theorem parked_rank {o : IterOrder} {isServer : Bool} {p : Peer} {required : Nat}
    (hwait : p.recver.wait = none) :
    Peer.rank o isServer { p with recver := { p.recver with wait := some required } } <
      p.rank o isServer := by
  simp [Peer.rank, hwait]

/-- What has been taken from the buffer is not empty. -/
theorem Inv.setup_shorter (h : Inv ord P role l) {b : Bool} {r : Role} {rest : Bytes}
    (hphase : (l.ends b).phase = .expecting) (hr : (l.ends !b).told = some r)
    (hrest : rest ++ (l.unread b ++ (l.ends !b).writing) =
      (l.ends !b).popped.flatMap (Message.wire (ord !b))) :
    rest.length < (l.ends b).recver.buffer.length := by
  have hall := congrArg List.length ((h.incoming b).setup (.inr hphase))
  have hlength := congrArg List.length hrest
  have hpos := List.length_pos_iff.mpr (hello_ne_nil (ord !b) (!b) r)
  simp only [hr, List.length_append, Option.toList_some, List.flatMap_cons,
    List.flatMap_nil, List.length_nil] at hall hlength
  omega

theorem Inv.attempt_server_rank (h : Inv ord P role l)
    (hphase : (l.ends true).phase = .expecting) (hwait : (l.ends true).recver.wait = none) :
    ((l.ends true).attemptSetup Client.decode fun q => q.recvClient (ord true)).rank (ord true)
        true < (l.ends true).rank (ord true) true ∧
      ((l.ends true).attemptSetup Client.decode fun q => q.recvClient (ord true)).wire =
        (l.ends true).wire := by
  rcases h.attempt_setup (b := true) (transfers_client _) hphase with
    ⟨r, rest, hr, hitem, hrest⟩ | ⟨required, hpark, -⟩
  · have hshorter := h.setup_shorter hphase hr hrest
    have hcalm := (h.peer true).calm hphase
    simp only [Peer.attemptSetup, hitem]
    cases hdowngrade : downgrade (l.ends true).role r with
    | error e =>
        rw [recvClient_error (by exact hdowngrade)]
        refine ⟨?_, rfl⟩
        have howed : owed (ord true) true (.failed e) = 0 := owed_of_ne (by simp)
        simp only [Peer.rank, howed, hphase, Phase.rank, if_true]
        omega
    | ok told =>
        rw [recvClient_ok (by exact hdowngrade)]
        refine ⟨?_, rfl⟩
        have hle := hello_length_le_owed (ord true) told
        have howed : owed (ord true) true (.answering told) = 0 := owed_of_ne (by simp)
        simp only [Peer.rank, howed, hphase, Phase.rank, hcalm, List.length_nil, hwait, if_true]
        omega
  · simp only [Peer.attemptSetup, hpark]
    exact ⟨parked_rank hwait, trivial⟩

theorem Inv.attempt_client_rank (h : Inv ord P role l)
    (hphase : (l.ends false).phase = .expecting) (hwait : (l.ends false).recver.wait = none) :
    ((l.ends false).attemptSetup Server.decode Peer.recvServer).rank (ord false) false <
        (l.ends false).rank (ord false) false ∧
      ((l.ends false).attemptSetup Server.decode Peer.recvServer).wire =
        (l.ends false).wire := by
  rcases h.attempt_setup (b := false) (transfers_server _) hphase with
    ⟨r, rest, hr, hitem, hrest⟩ | ⟨required, hpark, -⟩
  · have hshorter := h.setup_shorter hphase hr hrest
    obtain ⟨hown, -, -⟩ := h.agreed false
    obtain ⟨r', hdowngrade, -⟩ := downgrade_ok (h.told r hr)
    simp only [Peer.attemptSetup, hitem]
    rw [recvServer_ok (by rw [hown]; exact hdowngrade)]
    refine ⟨?_, rfl⟩
    have howed : owed (ord false) false (.established r') = 0 := owed_of_ne (by simp)
    simp only [Peer.rank, howed, hphase, Phase.rank, hwait, if_true]
    omega
  · simp only [Peer.attemptSetup, hpark]
    exact ⟨parked_rank hwait, trivial⟩

theorem Inv.attempt_running_rank (h : Inv ord P role l) {b : Bool} {r : Role}
    (hproper : Proper (l.ends !b))
    (hphase : (l.ends b).phase = .running r) (herror : (l.ends b).recvError = none)
    (hwait : (l.ends b).recver.wait = none) :
    ((l.ends b).attemptMessage r (.ok ())).rank (ord b) b < (l.ends b).rank (ord b) b ∧
      ((l.ends b).attemptMessage r (.ok ())).wire = (l.ends b).wire := by
  have hrole? : (l.ends b).phase.role? ≠ none := by
    rw [hphase]
    exact Option.some_ne_none r
  rcases h.attempt_message hproper hrole? herror with
    ⟨m, more, rest, hmore, hitem, hrest⟩ | ⟨required, hpark, -⟩
  · have hall := congrArg List.length
      (((h.incoming b).handled hproper).stream (.inr hrole?) herror)
    have hlength := congrArg List.length hrest
    have hpos := wire_length_pos (ord !b) m
    rw [hmore] at hall
    simp only [List.length_append, List.flatMap_cons] at hall hlength
    have hshorter : rest.length < (l.ends b).recver.buffer.length := by omega
    simp only [Peer.attemptMessage, hitem]
    split
    · refine ⟨?_, rfl⟩
      simp only [Peer.rank, hwait, if_true]
      omega
    · refine ⟨?_, rfl⟩
      simp only [Peer.rank, hwait, if_true]
      omega
  · simp only [Peer.attemptMessage, hpark]
    exact ⟨parked_rank hwait, trivial⟩

theorem encode_rank (o : IterOrder) (isServer : Bool) {p : Peer} {m : Message}
    {rest : List Message} (hqueue : p.queue = m :: rest) (hwriting : p.writing = []) :
    (p.encodeMessage o m rest).rank o isServer < p.rank o isServer ∧
      (p.encodeMessage o m rest).wire = p.wire := by
  have hpos := wire_length_pos o m
  rcases encodeMessage_cases o p m rest with ⟨-, heq⟩ | ⟨f, -, heq⟩
  · rw [heq]
    refine ⟨?_, rfl⟩
    simp only [Peer.rank, hqueue, hwriting, List.length_nil, List.map_cons, List.sum_cons]
    omega
  · rw [heq]
    refine ⟨?_, rfl⟩
    simp only [Peer.rank, hqueue, List.map_cons, List.sum_cons]
    omega

theorem read_rank (o : IterOrder) (isServer : Bool) {p : Peer} (piece : Bytes)
    (hwait : p.recver.wait ≠ none) :
    Peer.rank o isServer { p with recver := p.recver.append piece } ≤
      p.rank o isServer + piece.length + 1 := by
  simp only [Peer.rank, Receiver.buffer_append, List.length_append, if_neg hwait]
  split <;> omega

/-- Every step of a task lowers the rank. -/
theorem rank_step (h : Inv ord NoError role l) (hproper : ∀ b, Proper (l.ends b))
    {a : Link.Act} (hcalm : Calm l a) (hstep : l.step ord a = some l') :
    l'.rank ord < l.rank ord := by
  obtain ⟨b, act⟩ := a
  obtain ⟨p, hp, rfl⟩ := step_next hstep
  cases hp with
  | write hpos hn hphase =>
      have htaken := h.taken !b
      rw [Bool.not_not] at htaken
      obtain ⟨-, -, hagreed⟩ := h.agreed b
      have hclient (hgreeting : (l.ends b).phase = .greeting) : b = false := by
        rw [hgreeting] at hagreed
        exact hagreed
      obtain ⟨hrank, hwire⟩ := written_rank (o := ord b) hn (not_expecting_of_writes hphase) hclient
      refine rank_set_lt ?_
      simp only [Peer.Act.reads, Nat.add_zero]
      rw [hwire, List.drop_append_of_le_length htaken, List.length_append,
        List.length_take_of_le hn]
      omega
  | @read n hpos hn hwait hphase =>
      have hrank := read_rank (ord b) b ((l.unread b).take n) hwait
      rw [List.length_take_of_le hn] at hrank
      refine rank_set_lt ?_
      rw [Link.unread, List.length_drop] at hn
      simp only [List.length_drop, Peer.Act.reads]
      omega
  | attemptClient hserver hphase hwait =>
      subst hserver
      obtain ⟨hrank, hwire⟩ := h.attempt_server_rank hphase hwait
      exact rank_set_lt_of_peer hwire hrank
  | attemptServer hclient hphase hwait =>
      subst hclient
      obtain ⟨hrank, hwire⟩ := h.attempt_client_rank hphase hwait
      exact rank_set_lt_of_peer hwire hrank
  | attemptMessage hphase herror hwait =>
      obtain rfl := hcalm
      obtain ⟨hrank, hwire⟩ := h.attempt_running_rank (hproper !b) hphase herror hwait
      exact rank_set_lt_of_peer hwire hrank
  | @run r hphase =>
      refine rank_set_lt_of_peer rfl ?_
      have howed (phase : Phase) (hne : phase ≠ .expecting) : owed (ord b) b phase = 0 :=
        owed_of_ne hne
      simp only [Peer.rank, hphase, howed (.running r) (by simp), howed (.established r) (by simp),
        Phase.rank]
      omega
  | pop hphase hqueue herror hwriting =>
      obtain ⟨hrank, hwire⟩ := encode_rank (ord b) b hqueue hwriting
      exact rank_set_lt_of_peer hwire hrank
  | push hrole => exact hcalm.elim
  | recvLostEarly hphase => exact hcalm.elim
  | recvLost hphase herror => exact hcalm.elim
  | sendLostEarly hphase => exact hcalm.elim
  | sendLost hphase herror => exact hcalm.elim

/-- The tasks leave what has been queued, and a session keeps its halves. -/
structure Kept (p q : Peer) : Prop where
  pushed : q.pushed = p.pushed
  role? : ∀ r, p.phase.role? = some r → q.phase.role? = some r

section

variable (p : Peer)

end

/-- Both sessions run, and each has handled what the other could send of what
it had queued. -/
def Settled (ord : Bool → IterOrder) (l : Link) : Prop :=
  ∀ b, (∃ r, (l.ends b).phase = .running r) ∧
    (l.ends b).received = (Message.sendable (ord !b) (l.ends !b).pushed).map Message.normal ∧
    (l.ends b).recvError = none ∧
    ((l.ends b).sendError = none ↔
      Message.sendable (ord b) (l.ends b).pushed = (l.ends b).pushed)

theorem exists_step (h : Inv ord NoError role l)
    (hroles : role false = role true → role true = .both) (hproper : ∀ b, Proper (l.ends b))
    (hsettled : ¬ Settled ord l) : ∃ a l', Calm l a ∧ l.step ord a = some l' := by
  by_contra hnone
  have hquiet : Quiet ord l := by
    intro b act hcalm
    by_contra hsome
    have hstep : l.step ord (b, act) ≠ none := by
      rw [Link.step, ne_eq, Option.map_eq_none_iff]
      exact hsome
    obtain ⟨l', hl'⟩ := Option.ne_none_iff_exists'.mp hstep
    exact hnone ⟨(b, act), l', hcalm, hl'⟩
  exact hsettled fun b => ⟨hquiet.running h hroles hproper b, hquiet.received h hroles hproper b,
    h.no_recvError (hproper !b), (hquiet.writer h hroles b).2.2⟩

end MoqTransport.Session.Control
