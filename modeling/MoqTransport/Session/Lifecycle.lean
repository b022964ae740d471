import MoqTransport.Session.Publisher

/-!
The invariant of the publisher's subscriptions. Most steps are quiet: they
move handles along without a message and without touching the table. What is
left is a SUBSCRIBE that is accepted, the SUBSCRIBE_OK, and the three steps of
a drop.
-/

namespace MoqTransport.Session

open Streaming Coding Machine

/-- The phases of a handle, as far as its messages are concerned. -/
inductive SubscribedStage where
  | waiting
  | active
  | removing (last : Message)
  | pushing (last : Message)
  | gone

def SubscribedPhase.stage : SubscribedPhase → SubscribedStage
  | .routing | .queued _ | .held => .waiting
  | .serving | .closing _ | .dropping => .active
  | .removing last => .removing last
  | .pushing last => .pushing last
  | .gone => .gone

theorem SubscribedHandle.registered_iff (h : SubscribedHandle) :
    h.Registered ↔ (∀ last, h.phase.stage ≠ .pushing last) ∧ h.phase.stage ≠ .gone := by
  unfold Registered
  cases h.phase <;> simp [SubscribedPhase.stage]

/-- The handle goes on without sending anything. -/
structure Moves (h h' : SubscribedHandle) : Prop where
  msg : h'.msg = h.msg
  ok : h'.ok = h.ok
  stage : h'.phase.stage = h.phase.stage ∨
    h.phase.stage = .waiting ∧ h'.phase.stage = .active

theorem Moves.refl (h : SubscribedHandle) : Moves h h := ⟨rfl, rfl, .inl rfl⟩

theorem Moves.trans {h h' h'' : SubscribedHandle} (hm : Moves h h') (hm' : Moves h' h'') :
    Moves h h'' := by
  refine ⟨hm'.msg.trans hm.msg, hm'.ok.trans hm.ok, ?_⟩
  rcases hm.stage with heq | ⟨hwaiting, hactive⟩
  · rw [← heq]
    exact hm'.stage
  · rcases hm'.stage with heq' | ⟨hwaiting', -⟩
    · exact .inr ⟨hwaiting, heq'.trans hactive⟩
    · rw [hactive] at hwaiting'
      cases hwaiting'

theorem Moves.registered {h h' : SubscribedHandle} (hm : Moves h h') :
    h'.Registered ↔ h.Registered := by
  rw [SubscribedHandle.registered_iff, SubscribedHandle.registered_iff]
  rcases hm.stage with heq | ⟨hwaiting, hactive⟩
  · rw [heq]
  · simp [hwaiting, hactive]

namespace Publisher

/-- Handles move along, and nothing else happens to the subscriptions. -/
structure Quiet (s s' : Publisher) : Prop where
  subscribed : s'.subscribed = s.subscribed
  length : s'.handles.length = s.handles.length
  handles : ∀ {i : Nat} {h : SubscribedHandle}, s.handles[i]? = some h →
    ∃ h', s'.handles[i]? = some h' ∧ Moves h h'
  messages : ∀ i, s'.messagesOf i = s.messagesOf i
  outgoingOpen : s'.outgoingOpen = true → s.outgoingOpen = true

/-- A step that does not touch the subscriptions. -/
theorem quiet_of_eq {s s' : Publisher} (hsubscribed : s'.subscribed = s.subscribed)
    (hhandles : s'.handles = s.handles) (houtgoing : s'.outgoing = s.outgoing)
    (hopen : s'.outgoingOpen = true → s.outgoingOpen = true) : Quiet s s' := by
  refine ⟨hsubscribed, by rw [hhandles], ?_, ?_, hopen⟩
  · intro i h hi
    exact ⟨h, by rw [hhandles, hi], .refl h⟩
  · intro i
    rw [messagesOf, messagesOf, houtgoing]

theorem Quiet.refl (s : Publisher) : Quiet s s := quiet_of_eq rfl rfl rfl id

theorem Quiet.trans {s s' s'' : Publisher} (hq : Quiet s s') (hq' : Quiet s' s'') :
    Quiet s s'' := by
  refine ⟨hq'.subscribed.trans hq.subscribed, hq'.length.trans hq.length, fun hi => ?_,
    fun i => (hq'.messages i).trans (hq.messages i), fun h => hq.outgoingOpen (hq'.outgoingOpen h)⟩
  obtain ⟨h', hi', hm⟩ := hq.handles hi
  obtain ⟨h'', hi'', hm'⟩ := hq'.handles hi'
  exact ⟨h'', hi'', hm.trans hm'⟩

/-- Handles that are changed one by one. -/
theorem quiet_of_handles {s : Publisher} {handles : List SubscribedHandle}
    (f : Nat → SubscribedHandle → SubscribedHandle)
    (hhandles : ∀ i : Nat, handles[i]? = (s.handles[i]?).map (f i))
    (hf : ∀ (i : Nat) h, s.handles[i]? = some h → Moves h (f i h)) :
    Quiet s { s with handles := handles } := by
  refine ⟨rfl, ?_, fun {i h} hi => ⟨f i h, by rw [hhandles, hi]; rfl, hf i h hi⟩, fun _ => rfl, id⟩
  refine le_antisymm ?_ ?_
  · rw [← List.getElem?_eq_none_iff]
    simp [hhandles]
  · rw [← List.getElem?_eq_none_iff]
    simpa using (hhandles handles.length).symm

theorem quiet_setHandle {s : Publisher} {i : Nat} {h h' : SubscribedHandle}
    (hi : s.handles[i]? = some h) (hm : Moves h h') : Quiet s (s.setHandle i h') := by
  refine quiet_of_handles (fun j g => if i = j then h' else g) ?_ ?_
  · intro j
    have hlt := (List.getElem?_eq_some_iff.mp hi).1
    by_cases hij : i = j
    · subst hij
      simp [hlt]
    · simp [hij]
  · intro j g hj
    by_cases hij : i = j
    · subst hij
      obtain rfl : h = g := by simpa [hi] using hj
      simpa using hm
    · simpa [hij] using .refl g

theorem quiet_setAnnounce (s : Publisher) (a : Nat) (c : AnnounceCell) :
    Quiet s (s.setAnnounce a c) :=
  quiet_of_eq rfl rfl rfl id

theorem quiet_release (s : Publisher) (a : Nat) (c : AnnounceCell) : Quiet s (s.release a c) := by
  unfold release
  split
  · refine quiet_of_handles (fun _ h => if h.phase = .queued (.announce a) then
      { h with phase := .closing .notFound } else h) (fun i => List.getElem?_map ..) fun i h _ => ?_
    split
    · next hphase => exact ⟨rfl, rfl, .inr ⟨by rw [hphase]; rfl, rfl⟩⟩
    · exact .refl h
  · exact .refl s

theorem quiet_takeAnnounce (s : Publisher) (namespace_ : Tuple) (f : AnnounceCell → AnnounceCell) :
    Quiet s (s.takeAnnounce namespace_ f) := by
  unfold takeAnnounce
  split
  · exact .refl s
  · next a _ =>
      have herase : Quiet s { s with announces := s.announces.erase namespace_ } :=
        quiet_of_eq rfl rfl rfl id
      dsimp only
      split
      · exact herase
      · exact herase.trans ((quiet_setAnnounce _ a _).trans (quiet_release _ a _))

theorem quiet_endAnnounce (s : Publisher) (a : Nat) (c : AnnounceCell) :
    Quiet s (s.endAnnounce a c) :=
  (quiet_setAnnounce s a _).trans (quiet_release _ a _)

theorem messagesOf_pushMessage (s : Publisher) (handle : Option Nat) (message : Message) (i : Nat) :
    (s.pushMessage handle message).messagesOf i =
      if s.outgoingOpen = true ∧ handle = some i then s.messagesOf i ++ [message]
      else s.messagesOf i := by
  unfold pushMessage
  by_cases hopen : s.outgoingOpen = true
  · by_cases hhandle : handle = some i
    · simp [hopen, hhandle, messagesOf]
    · simp [hopen, hhandle, messagesOf, List.filter_append]
  · simp [hopen]

theorem pushMessage_keeps (s : Publisher) (handle : Option Nat) (message : Message) :
    (s.pushMessage handle message).subscribed = s.subscribed ∧
      (s.pushMessage handle message).handles = s.handles ∧
      (s.pushMessage handle message).outgoingOpen = s.outgoingOpen := by
  unfold pushMessage
  split
  · exact ⟨rfl, rfl, rfl⟩
  · exact ⟨rfl, rfl, rfl⟩

/-- A message that is not for a subscription. -/
theorem quiet_pushMessage (s : Publisher) (message : Message) :
    Quiet s (s.pushMessage none message) := by
  obtain ⟨hsubscribed, hhandles, hopen⟩ := pushMessage_keeps s none message
  refine ⟨hsubscribed, by rw [hhandles], fun hi => ⟨_, by rw [hhandles]; exact hi, .refl _⟩,
    fun i => ?_, fun h => hopen ▸ h⟩
  simp [messagesOf_pushMessage]

theorem quiet_announce (s : Publisher) (namespace_ : Tuple) : Quiet s (s.announce namespace_) := by
  unfold announce
  split
  · exact .refl s
  · refine (quiet_pushMessage s (.announce { namespace_ := namespace_, params := ∅ })).trans ?_
    exact quiet_of_eq rfl rfl rfl id

theorem quiet_recvAnnounceOk (s : Publisher) (msg : Message.AnnounceOk) :
    Quiet s (s.recvAnnounceOk msg) := by
  unfold recvAnnounceOk
  split
  · exact .refl s
  · split
    · exact .refl s
    · split
      · exact .refl s
      · exact quiet_setAnnounce s _ _

theorem route_stage (s : Publisher) (h : SubscribedHandle) :
    (s.route h).stage = .waiting ∨ (s.route h).stage = .active := by
  unfold route
  split
  · split
    · split
      · exact .inr rfl
      · exact .inl rfl
    · exact .inr rfl
  · split
    · exact .inl rfl
    · exact .inr rfl

theorem moves_of_move {s : Publisher} {h h' : SubscribedHandle} {act : PublisherAct}
    (hmove : s.move h act = some h') : Moves h h' := by
  -- A move of the phase alone.
  have hphase {p p' : SubscribedPhase} (hp : h.phase = p)
      (hstage : p'.stage = p.stage ∨ p.stage = .waiting ∧ p'.stage = .active) :
      Moves h { h with phase := p' } := ⟨rfl, rfl, by rw [hp]; exact hstage⟩
  unfold move at hmove
  split at hmove
  · split at hmove
    · next hp =>
        cases hmove
        exact hphase hp ((route_stage s h).imp id fun hactive => ⟨rfl, hactive⟩)
    · cases hmove
  · split at hmove
    · next place hp =>
        split at hmove
        · cases hmove
          exact hphase hp (.inl rfl)
        · cases hmove
    · cases hmove
  · split at hmove
    · cases hmove
    · cases hmove
      exact ⟨rfl, rfl, .inl rfl⟩
  · split at hmove
    · next hp => cases hmove; exact hphase hp (.inl rfl)
    · cases hmove
  · split at hmove
    · next hp => cases hmove; exact hphase hp (.inl rfl)
    · cases hmove
  · split at hmove
    · next hp => cases hmove; exact hphase hp (.inr ⟨rfl, rfl⟩)
    · cases hmove
  · split at hmove
    · next hp => cases hmove; exact hphase hp (.inr ⟨rfl, rfl⟩)
    · cases hmove
  · split at hmove
    · next err hp =>
        cases hmove
        unfold closed
        split
        · exact ⟨rfl, rfl, .inl (by rw [hp]; rfl)⟩
        · exact hphase hp (.inl rfl)
    · cases hmove
  · cases hmove

/-- The steps of the publisher, by what they mean for the subscriptions. -/
inductive Steps (s : Publisher) : Publisher → Prop where
  | quiet {s' : Publisher} (hq : Quiet s s') : Steps s s'
  | subscribe {msg : Message.Subscribe} (hvacant : s.subscribed.lookup msg.id = none) :
      Steps s { s with
        subscribed := s.subscribed.insert msg.id s.handles.length
        handles := s.handles ++ [⟨msg, false, .routing, .new .default⟩] }
  | greet {i : Nat} {h h' : SubscribedHandle} {o : Message.SubscribeOk}
      (hi : s.handles[i]? = some h) (hphase : h.phase.stage = .waiting) (hmsg : h'.msg = h.msg)
      (hok : h'.ok = true) (hphase' : h'.phase.stage = .active) (ho : o.id = h.msg.id) :
      Steps s ((s.setHandle i h').pushMessage (some i) (.subscribeOk o))
  | drop {i : Nat} {h : SubscribedHandle} (hi : s.handles[i]? = some h)
      (hphase : h.phase.stage = .active) :
      Steps s (s.setHandle i
        { h with phase := .removing (h.shared.value.terminal h.msg.id h.ok) })
  | remove {i : Nat} {h : SubscribedHandle} {last : Message} (hi : s.handles[i]? = some h)
      (hphase : h.phase = .removing last) :
      Steps s { s.dropSubscribe h.msg.id with
        handles := (s.dropSubscribe h.msg.id).handles.modify i fun h =>
          { h with phase := .pushing last } }
  | push {i : Nat} {h : SubscribedHandle} {last : Message} (hi : s.handles[i]? = some h)
      (hphase : h.phase = .pushing last) :
      Steps s ((s.setHandle i { h with phase := .gone }).pushMessage (some i) last)

theorem quiet_withAnnounce {s s' : Publisher} {a : Nat} {phase : AnnouncePhase}
    {f : AnnounceCell → Publisher} (hf : ∀ c, Quiet s (f c))
    (h : s.withAnnounce a phase f = some s') : Quiet s s' := by
  unfold withAnnounce at h
  split at h
  · split at h
    · cases h
      exact hf _
    · cases h
  · cases h

theorem steps_of_move {s s' : Publisher} {i : Nat} {act : PublisherAct}
    (h : (do
      let h ← s.handles[i]?
      let h ← s.move h act
      some (s.setHandle i h)) = some s') : Steps s s' := by
  obtain ⟨handle, hi, h⟩ := Option.bind_eq_some_iff.mp h
  obtain ⟨handle', hmove, h⟩ := Option.bind_eq_some_iff.mp h
  cases h
  exact .quiet (quiet_setHandle hi (moves_of_move hmove))

theorem steps_of_step {s s' : Publisher} {act : PublisherAct} (h : s.step act = some s') :
    Steps s s' := by
  cases act with
  | subscribe msg =>
      simp only [step, recvSubscribe] at h
      cases hlookup : s.subscribed.lookup msg.id with
      | some i => rw [hlookup] at h; cases h; exact .quiet (.refl s)
      | none => rw [hlookup] at h; cases h; exact .subscribe hlookup
  | unsubscribe msg =>
      simp only [step] at h
      split at h
      · cases h
        exact .quiet (.refl s)
      · next i _ =>
          cases h
          refine .quiet (quiet_of_handles _ (fun j => List.getElem?_modify ..) fun j g _ => ?_)
          split
          · split <;> exact ⟨rfl, rfl, .inl rfl⟩
          · exact .refl g
  | route i => exact steps_of_move h
  | pop i => exact steps_of_move h
  | update i groupId objectId => exact steps_of_move h
  | served i result => exact steps_of_move h
  | close i err => exact steps_of_move h
  | discard i => exact steps_of_move h
  | closed i => exact steps_of_move h
  | serve i =>
      obtain ⟨handle, hi, h⟩ := Option.bind_eq_some_iff.mp h
      split at h
      · next hphase =>
          cases h
          unfold serve
          split
          · exact .quiet (quiet_setHandle hi ⟨rfl, rfl, .inr ⟨by rw [hphase]; rfl, rfl⟩⟩)
          · exact .greet hi (by rw [hphase]; rfl) rfl rfl rfl rfl
      · cases h
  | drop i =>
      obtain ⟨handle, hi, h⟩ := Option.bind_eq_some_iff.mp h
      split at h
      · next hphase => cases h; exact .drop hi (by rw [hphase]; rfl)
      · cases h
  | remove i =>
      obtain ⟨handle, hi, h⟩ := Option.bind_eq_some_iff.mp h
      split at h
      · next hphase => cases h; exact .remove hi hphase
      · cases h
  | push i =>
      obtain ⟨handle, hi, h⟩ := Option.bind_eq_some_iff.mp h
      split at h
      · next hphase => cases h; exact .push hi hphase
      · cases h
  | announce namespace_ => cases h; exact .quiet (quiet_announce s namespace_)
  | announceOk msg => cases h; exact .quiet (quiet_recvAnnounceOk s msg)
  | announceError msg => cases h; exact .quiet (quiet_takeAnnounce s _ _)
  | announceCancel msg => cases h; exact .quiet (quiet_takeAnnounce s _ _)
  | dropAnnounce a =>
      refine .quiet (quiet_withAnnounce ?_ h)
      intro c
      split
      · exact quiet_endAnnounce s a c
      · exact quiet_setAnnounce s a _
  | unannounce a =>
      exact .quiet (quiet_withAnnounce
        (fun c => (quiet_setAnnounce s a _).trans (quiet_takeAnnounce _ _ _)) h)
  | unannounced a =>
      exact .quiet (quiet_withAnnounce
        (fun c => (quiet_pushMessage s _).trans (quiet_endAnnounce _ a c)) h)
  | closeUnknown =>
      cases h
      exact .quiet (quiet_of_eq rfl rfl rfl id)
  | closeOutgoing =>
      cases h
      exact .quiet (quiet_of_eq rfl rfl rfl (by simp))

/-- The SUBSCRIBE_OK of a handle has been queued, if it has come so far and
the queue was open. -/
def Greeted (outgoingOpen : Bool) (messages : List Message) (h : SubscribedHandle) : Prop :=
  (h.ok = false ∧ messages = []) ∨
    (h.ok = true ∧ ((∃ o, messages = [.subscribeOk o] ∧ o.id = h.msg.id) ∨
      (outgoingOpen = false ∧ messages = [])))

def IsTerminal (h : SubscribedHandle) (last : Message) : Prop :=
  (h.ok = true → ∃ d, last = .subscribeDone d ∧ d.id = h.msg.id) ∧
    (h.ok = false → ∃ e, last = .subscribeError e ∧ e.id = h.msg.id)

/-- What has been queued for a handle, by where it stands. -/
def Told (outgoingOpen : Bool) (messages : List Message) (h : SubscribedHandle) : Prop :=
  match h.phase.stage with
  | .waiting => h.ok = false ∧ messages = []
  | .active => Greeted outgoingOpen messages h
  | .removing last | .pushing last => Greeted outgoingOpen messages h ∧ IsTerminal h last
  | .gone => Exchange h.msg.id messages

structure Invariant (s : Publisher) : Prop where
  table : Registry.Consistent (fun h : SubscribedHandle => h.msg.id) SubscribedHandle.Registered
    s.subscribed s.handles
  unused : ∀ i, s.handles.length ≤ i → s.messagesOf i = []
  told : ∀ (i : Nat) (h : SubscribedHandle), s.handles[i]? = some h →
    Told s.outgoingOpen (s.messagesOf i) h

theorem Greeted.mono {outgoingOpen outgoingOpen' : Bool} {messages : List Message}
    {h h' : SubscribedHandle} (hopen : outgoingOpen' = true → outgoingOpen = true)
    (hmsg : h'.msg = h.msg) (hok : h'.ok = h.ok) (hg : Greeted outgoingOpen messages h) :
    Greeted outgoingOpen' messages h' := by
  unfold Greeted at hg ⊢
  rw [hmsg, hok]
  refine hg.imp id fun ⟨hyes, hmessages⟩ => ⟨hyes, hmessages.imp id fun ⟨hclosed, hnil⟩ => ?_⟩
  refine ⟨?_, hnil⟩
  cases outgoingOpen' with
  | false => rfl
  | true => rw [hopen rfl] at hclosed; cases hclosed

theorem Told.moves {outgoingOpen outgoingOpen' : Bool} {messages : List Message}
    {h h' : SubscribedHandle} (hopen : outgoingOpen' = true → outgoingOpen = true)
    (hm : Moves h h') (ht : Told outgoingOpen messages h) : Told outgoingOpen' messages h' := by
  unfold Told at ht ⊢
  rcases hm.stage with heq | ⟨hwaiting, hactive⟩
  · rw [heq]
    split
    · next hstage => rw [hstage] at ht; exact ⟨hm.ok.trans ht.1, ht.2⟩
    · next hstage => rw [hstage] at ht; exact ht.mono hopen hm.msg hm.ok
    · next hstage =>
        rw [hstage] at ht
        exact ⟨ht.1.mono hopen hm.msg hm.ok, by rw [IsTerminal, hm.msg, hm.ok]; exact ht.2⟩
    · next hstage =>
        rw [hstage] at ht
        exact ⟨ht.1.mono hopen hm.msg hm.ok, by rw [IsTerminal, hm.msg, hm.ok]; exact ht.2⟩
    · next hstage => rw [hstage] at ht; rw [hm.msg]; exact ht
  · rw [hwaiting] at ht
    rw [hactive]
    exact .inl ⟨hm.ok.trans ht.1, ht.2⟩

theorem Greeted.exchange {outgoingOpen : Bool} {messages : List Message} {h : SubscribedHandle}
    (hg : Greeted outgoingOpen messages h) : Exchange h.msg.id messages := by
  rcases hg with ⟨-, rfl⟩ | ⟨-, ⟨o, rfl, ho⟩ | ⟨-, rfl⟩⟩
  · exact .nothing
  · exact .accepted ho
  · exact .nothing

theorem Told.exchange {outgoingOpen : Bool} {messages : List Message} {h : SubscribedHandle}
    (ht : Told outgoingOpen messages h) : Exchange h.msg.id messages := by
  unfold Told at ht
  split at ht
  · rw [ht.2]
    exact .nothing
  · exact ht.exchange
  · exact ht.1.exchange
  · exact ht.1.exchange
  · exact ht

/-- The last message completes what has been queued for the handle. -/
theorem Greeted.finish {messages : List Message} {h : SubscribedHandle} {last : Message}
    (hg : Greeted true messages h) (hlast : IsTerminal h last) :
    Exchange h.msg.id (messages ++ [last]) := by
  rcases hg with ⟨hok, rfl⟩ | ⟨hok, ⟨o, rfl, ho⟩ | ⟨hclosed, -⟩⟩
  · obtain ⟨e, rfl, he⟩ := hlast.2 hok
    exact .refused he
  · obtain ⟨d, rfl, hd⟩ := hlast.1 hok
    exact .done ho hd
  · cases hclosed

theorem isTerminal_terminal (h : SubscribedHandle) (state : SubscribedState)
    (phase : SubscribedPhase) :
    IsTerminal { h with phase := phase } (state.terminal h.msg.id h.ok) := by
  constructor
  · intro hok
    have hok : h.ok = true := hok
    exact ⟨_, by rw [SubscribedState.terminal, hok, if_pos rfl], rfl⟩
  · intro hok
    have hok : h.ok = false := hok
    exact ⟨_, by rw [SubscribedState.terminal, hok, if_neg (by decide)], rfl⟩

theorem invariant_init : Invariant init :=
  ⟨Registry.consistent_nil, fun _ _ => rfl, fun i h hi => by cases hi⟩

theorem invariant_quiet {s s' : Publisher} (hs : Invariant s) (hq : Quiet s s') : Invariant s' := by
  have hback {i : Nat} {h' : SubscribedHandle} (hi' : s'.handles[i]? = some h') :
      ∃ h, s.handles[i]? = some h ∧ Moves h h' := by
    have hlt := (List.getElem?_eq_some_iff.mp hi').1
    rw [hq.length] at hlt
    obtain ⟨g, hg, hm⟩ := hq.handles (List.getElem?_eq_getElem hlt)
    obtain rfl : g = h' := by simpa [hi'] using hg.symm
    exact ⟨_, List.getElem?_eq_getElem hlt, hm⟩
  refine ⟨?_, ?_, ?_⟩
  · rw [hq.subscribed]
    apply hs.table.congr
    intro i
    cases hi : s.handles[i]? with
    | none =>
        have hlen := List.getElem?_eq_none_iff.mp hi
        rw [← hq.length] at hlen
        rw [List.getElem?_eq_none_iff.mpr hlen]
    | some h =>
        obtain ⟨h', hi', hm⟩ := hq.handles hi
        rw [hi', Option.map_some, Option.map_some, hm.msg, propext hm.registered]
  · intro i hi
    rw [hq.messages, hs.unused i (hq.length ▸ hi)]
  · intro i h' hi'
    obtain ⟨h, hi, hm⟩ := hback hi'
    rw [hq.messages]
    exact (hs.told i h hi).moves hq.outgoingOpen hm

/-- One handle changes, and only messages for it are queued. -/
theorem invariant_change {s s' : Publisher} (hs : Invariant s) {i : Nat} {h h' : SubscribedHandle}
    (hi : s.handles[i]? = some h) (hhandles : s'.handles = s.handles.set i h')
    (hmsg : h'.msg = h.msg) (hregistered : h'.Registered ↔ h.Registered)
    (hsubscribed : s'.subscribed = s.subscribed) (hopen : s'.outgoingOpen = s.outgoingOpen)
    (hothers : ∀ j, j ≠ i → s'.messagesOf j = s.messagesOf j)
    (htold : Told s'.outgoingOpen (s'.messagesOf i) h') : Invariant s' := by
  have hlt := (List.getElem?_eq_some_iff.mp hi).1
  refine ⟨?_, ?_, ?_⟩
  · rw [hsubscribed, hhandles]
    exact hs.table.set hi (by rw [hmsg]) hregistered
  · intro j hj
    rw [hhandles, List.length_set] at hj
    rw [hothers j (by omega), hs.unused j hj]
  · intro j g hj
    rw [hhandles] at hj
    rcases (getElem?_set_iff hi).mp hj with ⟨rfl, rfl⟩ | ⟨hij, hold⟩
    · exact htold
    · rw [hothers j (Ne.symm hij), hopen]
      exact hs.told j g hold

/-- A message for a handle that changes with it. -/
theorem invariant_send {s : Publisher} (hs : Invariant s) {i : Nat} {h h' : SubscribedHandle}
    {message : Message} (hi : s.handles[i]? = some h) (hmsg : h'.msg = h.msg)
    (hregistered : h'.Registered ↔ h.Registered)
    (hopened : s.outgoingOpen = true → Told true (s.messagesOf i ++ [message]) h')
    (hclosed : s.outgoingOpen = false → Told false (s.messagesOf i) h') :
    Invariant ((s.setHandle i h').pushMessage (some i) message) := by
  obtain ⟨hsubscribed, hhandles, hopen⟩ := pushMessage_keeps (s.setHandle i h') (some i) message
  have hmessages (j : Nat) : ((s.setHandle i h').pushMessage (some i) message).messagesOf j =
      if s.outgoingOpen = true ∧ i = j then s.messagesOf j ++ [message] else s.messagesOf j := by
    rw [messagesOf_pushMessage]
    simp only [Option.some.injEq]
    rfl
  refine invariant_change hs hi hhandles hmsg hregistered hsubscribed hopen ?_ ?_
  · intro j hj
    rw [hmessages, if_neg (by simp [Ne.symm hj])]
  · rw [hmessages, hopen]
    change Told s.outgoingOpen _ h'
    cases hqueue : s.outgoingOpen with
    | true => simpa using hopened hqueue
    | false => simpa using hclosed hqueue

theorem invariant_subscribe {s : Publisher} (hs : Invariant s) {msg : Message.Subscribe}
    (hvacant : s.subscribed.lookup msg.id = none) :
    Invariant { s with
      subscribed := s.subscribed.insert msg.id s.handles.length
      handles := s.handles ++ [⟨msg, false, .routing, .new .default⟩] } := by
  have hregistered : SubscribedHandle.Registered ⟨msg, false, .routing, .new .default⟩ := by
    simp [SubscribedHandle.Registered]
  refine ⟨hs.table.register hvacant hregistered, ?_, ?_⟩
  · intro i hi
    exact hs.unused i (by simp at hi; omega)
  · intro i h hi
    rw [List.getElem?_append] at hi
    split at hi
    · exact hs.told i h hi
    · next hge =>
        obtain rfl : _ = h := by simpa using (List.getElem?_eq_some_iff.mp hi).2
        exact ⟨rfl, hs.unused i (by omega)⟩

/-- The drop of a handle takes its own entry out of the table. -/
theorem invariant_remove {s : Publisher} (hs : Invariant s) {i : Nat} {h : SubscribedHandle}
    {last : Message} (hi : s.handles[i]? = some h) (hphase : h.phase = .removing last) :
    Invariant { s.dropSubscribe h.msg.id with
      handles := (s.dropSubscribe h.msg.id).handles.modify i fun h =>
        { h with phase := .pushing last } } := by
  have hregistered : h.Registered := by simp [SubscribedHandle.Registered, hphase]
  have hlookup : s.subscribed.lookup h.msg.id = some i := hs.table.lookup hi hregistered
  let f (g : SubscribedHandle) : SubscribedHandle :=
    { g with shared := g.shared.drop, phase := .pushing last }
  have hentries (j : Nat) : ((s.dropSubscribe h.msg.id).handles.modify i fun h =>
      { h with phase := .pushing last })[j]? = (s.handles[j]?).map fun g =>
        if s.subscribed.lookup h.msg.id = some j then f g else g := by
    simp only [dropSubscribe, hlookup]
    rw [List.getElem?_modify, List.getElem?_modify]
    by_cases hij : i = j
    · subst hij
      simp [hi, f]
    · simp [hij]
  have hdropped : s.dropSubscribe h.msg.id = { s with
      subscribed := s.subscribed.erase h.msg.id
      handles := s.handles.modify i fun h => { h with shared := h.shared.drop } } := by
    simp only [dropSubscribe, hlookup]
  refine ⟨?_, ?_, ?_⟩
  · have htable := hs.table.retire (f := f) (fun g => by simp [SubscribedHandle.Registered, f])
      hentries
    rw [hdropped] at htable ⊢
    exact htable
  · intro j hj
    rw [List.length_modify, hdropped, List.length_modify] at hj
    rw [hdropped]
    exact hs.unused j hj
  · intro j g hj
    have hsame : Told s.outgoingOpen (s.messagesOf j) g := by
      change (((s.dropSubscribe h.msg.id).handles.modify i fun h =>
        { h with phase := .pushing last })[j]?) = some g at hj
      rw [hentries] at hj
      obtain ⟨g', hg', rfl⟩ := Option.map_eq_some_iff.mp hj
      have htold := hs.told j g' hg'
      split
      · next hj =>
          obtain rfl : i = j := by simpa [hlookup] using hj
          obtain rfl : h = g' := by simpa [hi] using hg'
          simp only [Told, hphase, SubscribedPhase.stage] at htold
          exact htold
      · exact htold
    rw [hdropped]
    exact hsame

theorem invariant_step {s s' : Publisher} {act : PublisherAct} (hs : Invariant s)
    (hstep : s.step act = some s') : Invariant s' := by
  cases steps_of_step hstep with
  | quiet hq => exact invariant_quiet hs hq
  | subscribe hvacant => exact invariant_subscribe hs hvacant
  | @greet i h h' o hi hphase hmsg hok hphase' ho =>
      have htold := hs.told i h hi
      simp only [Told, hphase] at htold
      obtain ⟨-, hnil⟩ := htold
      refine invariant_send hs hi hmsg ?_ ?_ ?_
      · rw [SubscribedHandle.registered_iff, SubscribedHandle.registered_iff, hphase, hphase']
        simp
      · intro _
        simp only [Told, hphase', hnil]
        exact .inr ⟨hok, .inl ⟨o, rfl, by rw [hmsg]; exact ho⟩⟩
      · intro hclosed
        simp only [Told, hphase', hnil]
        exact .inr ⟨hok, .inr ⟨rfl, rfl⟩⟩
  | @drop i h hi hphase =>
      have htold := hs.told i h hi
      simp only [Told, hphase] at htold
      refine invariant_change hs hi rfl rfl ?_ rfl rfl (fun _ _ => rfl)
        ⟨htold, isTerminal_terminal h _ _⟩
      rw [SubscribedHandle.registered_iff, SubscribedHandle.registered_iff, hphase]
      simp [SubscribedPhase.stage]
  | remove hi hphase => exact invariant_remove hs hi hphase
  | @push i h last hi hphase =>
      have htold := hs.told i h hi
      simp only [Told, hphase, SubscribedPhase.stage] at htold
      refine invariant_send hs hi rfl ?_ ?_ fun _ => htold.1.exchange
      · simp [SubscribedHandle.Registered, hphase]
      · intro hopen
        rw [hopen] at htold
        exact htold.1.finish htold.2

/-- Every run keeps the life of the subscriptions in order. -/
theorem lifecycle (s : Publisher) (hs : Reachable step (fun _ _ => True) init s) : Lifecycle s := by
  have hinv : Invariant s := hs.invariant invariant_init fun hs _ h => invariant_step hs h
  refine ⟨hinv.table.mem_iff, fun i h hi => (hinv.told i h hi).exchange, ?_⟩
  intro msg hmsg
  refine (hinv.table.mem_iff msg.id).mp ?_
  rw [recvSubscribe] at hmsg
  split at hmsg
  · next i hlookup => exact Finmap.mem_of_lookup_eq_some hlookup
  · cases hmsg

/-- A subscription that is served to its end, and then one with the same id
that the application closes. -/
def servedThenClosed : List PublisherAct :=
  let msg : Message.Subscribe :=
    { id := 4, trackAlias := 4, trackNamespace := ⟨[]⟩, trackName := "", subscriberPriority := 127,
      groupOrder := .publisher, filterType := .latestGroup, start := none, end_ := none,
      params := ∅ }
  [.subscribe msg, .route 0, .pop 0, .serve 0, .served 0 (.ok ()), .drop 0, .remove 0, .push 0,
    .subscribe msg, .route 1, .pop 1, .close 1 .notFound, .closed 1, .drop 1, .remove 1, .push 1]

theorem lifecycle_servedThenClosed :
    ∃ s, run step (fun _ _ => true) init servedThenClosed = some s ∧ s.outgoing.length = 3 ∧
      Lifecycle s := by
  have hrun : ∃ s, run step (fun _ _ => true) init servedThenClosed = some s ∧
      s.outgoing.length = 3 := ⟨_, rfl, rfl⟩
  obtain ⟨s, hs, hlength⟩ := hrun
  exact ⟨s, hs, hlength, lifecycle s (reachable_of_run _ (fun _ _ _ => trivial) hs)⟩

end Publisher

end MoqTransport.Session
