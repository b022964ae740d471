import MoqTransport.Ws.Link
import MoqTransport.Ws.Writing

/-!
What the two ends do for their streams when none is reset or stopped: each
stream has one end that writes and at most one that reads, and what is read is
what was written.

That nothing arrives for a stream before it is registered is an argument
around the link: whatever is sent back under an id answers a frame that was
sent under it, and that one was not sent before.
-/

namespace MoqTransport.Ws

open Streaming Machine
open Endpoint (Only)

namespace Endpoint

variable {e e' : Endpoint}

/-- What has been sent stays sent. -/
theorem sent_step {act : Act} (hstep : e.step act = some e') : e.sent <+: e'.sent := by
  have hremove (id : StreamId) (f : RecvStream → RecvStream) :
      (e.removeRecv id f).sent = e.sent := by
    unfold removeRecv
    split <;> rfl
  have hreceives {frame : Frame} (hreceives : e.Receives frame e') : e'.sent = e.sent := by
    cases hreceives with
    | @reset reset => exact hremove reset.id _
    | _ => rfl
  have hsend (f : Endpoint) (hf : f.sent = e.sent) (frame : Frame) :
      e.sent <+: (f.sendFrame frame).sent := by
    refine ⟨[.binary frame.encode], ?_⟩
    have hbefore : (f.beforeSend frame).sent = f.sent := by
      unfold beforeSend
      split
      · rfl
      · split <;> rfl
      · unfold removeRecv
        split <;> rfl
      · rfl
    change e.sent ++ _ = (f.beforeSend frame).sent ++ _
    rw [hbefore, hf]
  cases hact : act.turns with
  | false => exact (step_handle hact hstep).2 ▸ List.prefix_refl _
  | true =>
      obtain ⟨-, hturn⟩ := step_turn hact hstep
      cases act with
      | message m =>
          cases m with
          | binary data =>
              simp only [turn, recvMessage] at hturn
              split at hturn
              · obtain rfl := Option.some.inj hturn
                exact List.prefix_refl _
              · cases hturn
              · split at hturn
                · next hrecv =>
                    obtain rfl := Option.some.inj hturn
                    rw [hreceives (recvFrame_ok hrecv)]
                · obtain rfl := Option.some.inj hturn
                  exact List.prefix_refl _
                · cases hturn
          | ping data =>
              obtain rfl := Option.some.inj hturn
              exact List.prefix_append _ _
          | _ =>
              obtain rfl := Option.some.inj hturn
              exact List.prefix_refl _
      | createUni =>
          simp only [turn] at hturn
          split at hturn
          · obtain rfl := Option.some.inj hturn
            exact List.prefix_refl _
          · cases hturn
      | createBi =>
          simp only [turn] at hturn
          split at hturn
          · obtain rfl := Option.some.inj hturn
            exact List.prefix_refl _
          · cases hturn
      | priority =>
          simp only [turn] at hturn
          split at hturn
          · next frame rest _ =>
              obtain rfl := Option.some.inj hturn
              exact hsend { e with outboundPriority := rest } rfl frame
          · cases hturn
      | outbound =>
          simp only [turn] at hturn
          split at hturn
          · next frame rest _ =>
              obtain rfl := Option.some.inj hturn
              exact hsend { e with outbound := rest } rfl frame
          · cases hturn
      | closed =>
          obtain ⟨error, -, rfl⟩ := Option.map_eq_some_iff.mp hturn
          exact List.prefix_refl _
      | lost =>
          obtain rfl := Option.some.inj hturn
          exact List.prefix_refl _
      | _ => cases hact

/-- Nothing has been sent under an id that has no stream, or one that is still
to be registered. -/
theorem Tidy.sentStreams_eq_nil (h : e.Tidy) {id : StreamId}
    (hid : id ∉ e.sends.map SendStream.id ∨ ∃ entry ∈ e.createBi, entry.1 = id) :
    e.sentStreams.filter (·.id = id) = [] := by
  rcases hid with habsent | ⟨entry, hentry, rfl⟩
  · have hflow := h.absent id habsent
    rw [filter_flow, List.append_eq_nil_iff, List.append_eq_nil_iff] at hflow
    exact hflow.1.1
  · exact h.unsent entry hentry

/-- What has been sent under an id was written on its stream. -/
theorem Tidy.sentStreams_front (h : e.Tidy) {i : Nat} {s : SendStream} (hs : Only e.sends i s) :
    e.sentStreams.filter (·.id = s.id) <+: s.written := by
  refine List.IsPrefix.trans ?_ (h.onTheWay i s hs).front
  rw [filter_flow, List.append_assoc]
  exact List.prefix_append _ _

/-- With nothing left to be sent, all that was written has been sent. -/
theorem Tidy.sentStreams_eq (h : e.Tidy) {i : Nat} {s : SendStream} (hs : Only e.sends i s)
    (hrunning : e.running = true) (houtbound : e.outbound = []) (hspawned : e.spawned = []) :
    e.sentStreams.filter (·.id = s.id) = s.written := by
  have hall := (h.onTheWay i s hs).all (.inr hrunning)
  rw [filter_flow, houtbound, hspawned] at hall
  simpa [sentStreams] using hall

/-- The frames that have arrived were sent under the same ids. -/
theorem Logged.items_front {sent : List Message} {n : Nat}
    (h : e.Logged ((sent.take n).filterMap Message.stream?)) :
    e.tables.items <+: sent.filterMap Message.stream? := by
  have htaken : (sent.take n).filterMap Message.stream? <+: sent.filterMap Message.stream? :=
    (List.take_prefix n sent).filterMap _
  rcases h with hitems | ⟨-, hitems⟩
  · exact hitems ▸ htaken
  · exact hitems.trans htaken

end Endpoint

theorem eq_of_count_le_one {α : Type} [DecidableEq α] {xs : List α} {x : α} {i j : Nat}
    (h : xs.count x ≤ 1) (hi : xs[i]? = some x) (hj : xs[j]? = some x) : i = j := by
  induction xs generalizing i j with
  | nil => cases hi
  | cons y xs ih =>
      have hnone {k : Nat} (hy : y = x) (hk : xs[k]? = some x) : False := by
        have hpos := List.count_pos_iff.mpr (List.mem_of_getElem? hk)
        rw [hy, List.count_cons_self] at h
        omega
      cases i with
      | zero =>
          cases j with
          | zero => rfl
          | succ j => exact (hnone (Option.some.inj hi) hj).elim
      | succ i =>
          cases j with
          | zero => exact (hnone (Option.some.inj hj) hi).elim
          | succ j =>
              have hle := List.count_le_count_cons (a := x) (b := y) (l := xs)
              exact congrArg Nat.succ (ih (hle.trans h) hi hj)

namespace Link

/-- What is read has been sent by the other end. -/
def Quiet (l : Link) (a : Act) : Prop :=
  match a.2 with
  | .message _ => True
  | act => (l.ends a.1).Quiet act

/-- No stream is reset or stopped, none is finished twice, and the tasks know a
stream before they send its frames. -/
def Orderly (l : Link) (a : Act) : Prop :=
  Quiet l a ∧ (l.ends a.1).Registered a.2

def quiet (l : Link) (a : Act) : Bool :=
  match a.2 with
  | .send _ (.reset _) => false
  | .send i .finish => (l.ends a.1).sends[i]?.all (!·.fin)
  | .recv _ (.stop _) => false
  | _ => true

/-- A quiet act, with the loops of the tasks as if nothing came between their
looks into the queues. -/
def biased (l : Link) (a : Act) : Bool :=
  quiet l a && match a.2 with
    | .outbound => (l.ends a.1).createBi.isEmpty
    | _ => true

theorem quiet_of_check {l : Link} {a : Act} (h : quiet l a = true) : Quiet l a := by
  obtain ⟨b, act⟩ := a
  cases act with
  | send i op =>
      intro s hs
      cases op with
      | reset code => cases h
      | finish =>
          simp only [quiet, hs, Option.all_some, Bool.not_eq_true'] at h
          exact h
      | _ => trivial
  | recv i op =>
      cases op with
      | stop code => cases h
      | _ => trivial
  | _ => trivial

theorem orderly_of_biased {l : Link} {a : Act} (h : biased l a = true) : Orderly l a := by
  obtain ⟨hquiet, hbiased⟩ := Bool.and_eq_true_iff.mp h
  refine ⟨quiet_of_check hquiet, Endpoint.registered_of_biased fun hact => ?_⟩
  rw [hact] at hbiased
  exact List.isEmpty_iff.mp hbiased

structure Paired (l : Link) : Prop where
  sound : Sound (fun _ _ => True) l
  inv : ∀ b, (l.ends b).Inv
  tidy : ∀ b, (l.ends b).Tidy
  counted : ∀ b, (l.ends b).tables.Counted
  twinned : ∀ b, (l.ends b).tables.Twinned
  shaped : ∀ b, (l.ends b).tables.Shaped
  taken : ∀ b, l.taken b ≤ (l.ends !b).sent.length
  logged : ∀ b, (l.ends b).Logged
    (((l.ends !b).sent.take (l.taken b)).filterMap Message.stream?)

variable {l l' : Link}

theorem paired_new : Paired new where
  sound := sound_new
  inv := Endpoint.inv_new
  tidy := Endpoint.tidy_new
  counted := by simp [Tables.Counted, new, Endpoint.new, Endpoint.tables]
  twinned := by simp [Tables.Twinned, new, Endpoint.new, Endpoint.tables]
  shaped := fun b id _ => .unmade []
  taken := by simp [new]
  logged := fun b => .inl rfl

/-- What arrives under an own id answers what was sent under it. -/
theorem Paired.sent_of_items (h : Paired l) {b : Bool} {id : StreamId}
    (hid : (l.ends b).tables.fresh id = false)
    (hitems : (l.ends b).tables.items.filter (·.id = id) ≠ []) :
    (l.ends b).sentStreams.filter (·.id = id) ≠ [] := by
  have hside : (l.ends !b).tables.fresh id = true := by
    have hown := Tables.not_fresh_iff.mp hid
    refine Tables.fresh_iff.mpr ?_
    rw [← hown]
    change (l.ends !b).isServer ≠ (l.ends b).isServer
    rw [h.sound.side, h.sound.side]
    cases b <;> decide
  have hfront := (h.logged b).items_front.filter (·.id = id)
  have hsends : id ∈ (l.ends !b).tables.sendIds := by
    by_contra habsent
    have hnone := (h.tidy !b).sentStreams_eq_nil (.inl habsent)
    exact hitems (List.prefix_nil.mp (hnone ▸ hfront))
  -- The other end writes under the id because something has arrived there.
  have hlane : (l.ends !b).tables.demux.lane id ≠ [] := by
    have hcount := h.counted (!b) id hside
    have hpos := List.count_pos_iff.mpr hsends
    intro hlane
    rw [hlane, List.length_nil] at hcount
    omega
  have hback : (l.ends !b).tables.items.filter (·.id = id) ≠ [] := by
    intro hnone
    have hinv := h.inv !b
    have hevents := Tables.arrivals_of_fresh hinv.arrives hinv.keyed (h.tidy !b).closes hside
    rw [hinv.traced id, hevents, hnone] at hlane
    exact hlane rfl
  have hsent := (h.logged !b).items_front.filter (·.id = id)
  rw [Bool.not_not] at hsent
  intro hnone
  exact hback (List.prefix_nil.mp (hnone ▸ hsent))

theorem Paired.patient (h : Paired l) (b : Bool) : (l.ends b).tables.Patient := by
  intro id hfresh hid
  have hnone := (h.tidy b).sentStreams_eq_nil hid
  have hitems := mt (h.sent_of_items hfresh) (not_not_intro hnone)
  exact (Tables.items_filter (h.inv b).keyed id).trans (not_not.mp hitems)

/-- What an end has logged, when one of the two takes a step. -/
theorem Paired.logged_step (h : Paired l) {b : Bool} {act : Endpoint.Act} {e : Endpoint}
    (he : (l.ends b).step act = some e) (hends : l'.ends = Function.update l.ends b e)
    (htaken : (∃ m, act = .message m ∧ (l.ends !b).sent[l.taken b]? = some m ∧
        l'.taken = Function.update l.taken b (l.taken b + 1)) ∨
      (∀ m, act ≠ .message m) ∧ l'.taken = l.taken) (b' : Bool) :
    l'.taken b' ≤ (l'.ends !b').sent.length ∧
      (l'.ends b').Logged (((l'.ends !b').sent.take (l'.taken b')).filterMap Message.stream?) := by
  by_cases hb : b' = b
  · subst hb
    have hother : l'.ends (!b') = l.ends !b' := by
      rw [hends, Function.update_of_ne (by cases b' <;> decide)]
    have hself : l'.ends b' = e := by rw [hends, Function.update_self]
    rw [hother, hself]
    have hlogged := (h.logged b').step he
    rcases htaken with ⟨m, rfl, hm, htaken⟩ | ⟨hact, htaken⟩
    · obtain ⟨hlt, -⟩ := List.getElem?_eq_some_iff.mp hm
      rw [htaken, Function.update_self, List.take_add_one, hm]
      refine ⟨hlt, ?_⟩
      have hstream : Endpoint.Act.stream? (.message m) = m.stream? := rfl
      cases hm' : m.stream? <;> simpa [hstream, hm'] using hlogged
    · have hnone : act.stream? = none := by
        cases act with
        | message m => exact absurd rfl (hact m)
        | _ => rfl
      rw [htaken]
      exact ⟨h.taken b', by simpa [hnone] using hlogged⟩
  · have hself : l'.ends b' = l.ends b' := by rw [hends, Function.update_of_ne hb]
    obtain rfl : b = !b' := by cases b <;> cases b' <;> simp_all
    have hother : l'.ends (!b') = e := by rw [hends, Function.update_self]
    have hkept : l'.taken b' = l.taken b' := by
      rcases htaken with ⟨m, -, -, htaken⟩ | ⟨-, htaken⟩
      · rw [htaken, Function.update_of_ne hb]
      · rw [htaken]
    obtain ⟨more, hmore⟩ := Endpoint.sent_step he
    have hle := h.taken b'
    rw [hself, hother, hkept, ← hmore, List.take_append_of_le_length hle]
    refine ⟨?_, h.logged b'⟩
    rw [List.length_append]
    omega

theorem Paired.step (h : Paired l) {a : Act} (horderly : Orderly l a)
    (hstep : l.step a = some l') : Paired l' := by
  obtain ⟨b, act⟩ := a
  obtain ⟨e, he, hends, htaken⟩ := step_cases hstep
  have hcloses : ClosesWith (fun _ _ => True) l (b, act) := by
    cases act <;> trivial
  have hquiet : (l.ends b).Quiet act := by
    cases act with
    | message m =>
        rcases htaken with ⟨m', hm', hsent, -⟩ | ⟨hnot, -⟩
        · obtain rfl : m = m' := by simpa using hm'
          exact (h.tidy !b).sent m (List.mem_of_getElem? hsent)
        · exact absurd rfl (hnot m)
    | _ => exact horderly.1
  have hsound := h.sound.sound b
  have hplain {frames : List Frame} (hframes : ∀ frame ∈ frames, ∃ stream : Stream,
      frame = .stream stream ∧ stream.id.canSend (l.ends b).isServer = true) :
      ∀ frame ∈ frames, ∃ stream : Stream, frame = .stream stream := by
    intro frame hframe
    obtain ⟨stream, hstream, -⟩ := hframes frame hframe
    exact ⟨stream, hstream⟩
  have htidy := (h.tidy b).step (h.inv b) (hplain hsound.outbound) (hplain hsound.spawned)
    ⟨hquiet, horderly.2⟩ he
  have hnext := Endpoint.tables_step he
  have hboth {p : Endpoint → Prop} (he : p e) (hl : ∀ b, p (l.ends b)) (b' : Bool) :
      p (l'.ends b') := by
    rw [hends]
    by_cases hb : b' = b
    · subst hb
      rwa [Function.update_self]
    · rw [Function.update_of_ne hb]
      exact hl b'
  have hcounted := (h.counted b).next (h.inv b).own hnext
  have htwinned := (h.twinned b).next (h.inv b).own hnext
  have hshaped := (h.shaped b).next (h.inv b).own (h.inv b).traced (h.patient b) htidy.closes hnext
  exact {
    sound := h.sound.step hcloses hstep
    inv := hboth ((h.inv b).step he) h.inv
    tidy := hboth htidy h.tidy
    counted := hboth (p := fun e => e.tables.Counted) hcounted h.counted
    twinned := hboth (p := fun e => e.tables.Twinned) htwinned h.twinned
    shaped := hboth (p := fun e => e.tables.Shaped) hshaped h.shaped
    taken := fun b' => (h.logged_step he hends htaken b').1
    logged := fun b' => (h.logged_step he hends htaken b').2 }

theorem paired_of_reachable (hl : Reachable step Orderly new l) : Paired l :=
  hl.invariant paired_new fun h horderly hstep => h.step horderly hstep

/-- The frames that arrive under an id were written on its only stream. -/
theorem Paired.items_cases (h : Paired l) (b : Bool) {id : StreamId}
    (honly : ∀ i s, (l.ends !b).sends[i]? = some s → s.id = id → Only (l.ends !b).sends i s) :
    (l.ends b).tables.items.filter (·.id = id) = [] ∨ ∃ s ∈ (l.ends !b).sends, s.id = id ∧
      (l.ends b).tables.items.filter (·.id = id) <+: s.written := by
  have hfront := (h.logged b).items_front.filter (·.id = id)
  by_cases hid : id ∈ (l.ends !b).sends.map SendStream.id
  · obtain ⟨s, hmem, rfl⟩ := List.mem_map.mp hid
    obtain ⟨i, hi⟩ := List.mem_iff_getElem?.mp hmem
    have hsent := (h.tidy !b).sentStreams_front (honly i s hi rfl)
    exact .inr ⟨s, hmem, rfl, hfront.trans hsent⟩
  · have hnone := (h.tidy !b).sentStreams_eq_nil (.inl hid)
    exact .inl (List.prefix_nil.mp (hnone ▸ hfront))

theorem Paired.lane_of_only (h : Paired l) (b : Bool) {id : StreamId}
    (honly : ∀ i s, (l.ends !b).sends[i]? = some s → s.id = id → Only (l.ends !b).sends i s) :
    Tables.Lane (l.ends b).tables id := by
  have hinv := h.inv b
  refine Tables.lane_cases hinv.traced (h.shaped b) hinv.arrives hinv.keyed (h.tidy b).closes ?_
  rcases h.items_cases b honly with hnone | ⟨s, hs, -, hfront⟩
  · rw [hnone]
    intro front x back heq
    cases front <;> cases heq
  · exact ((h.tidy !b).ends s hs).of_front hfront

/-- An id that was opened here has one stream, and one that was opened by
the other end has no more than are read here. -/
theorem Paired.only (h : Paired l) (b : Bool) {i : Nat} {s : SendStream}
    (hs : (l.ends b).sends[i]? = some s) : Only (l.ends b).sends i s := by
  have hown (b : Bool) {i j : Nat} {s t : SendStream} (hs : (l.ends b).sends[i]? = some s)
      (ht : (l.ends b).sends[j]? = some t) (hid : t.id = s.id)
      (hside : s.id.serverInitiated = b) : j = i := by
    refine (h.inv b).own.unique j i s.id ?_ ?_ ?_
    · simp [Endpoint.tables, ht, hid]
    · simp [Endpoint.tables, hs]
    · exact hside.trans (h.sound.side b).symm
  refine ⟨hs, fun j t ht hid => ?_⟩
  by_cases hside : s.id.serverInitiated = b
  · exact hown b hs ht hid hside
  · have hlane : Tables.Lane (l.ends b).tables s.id := by
      refine h.lane_of_only b fun k u hu huid => ⟨hu, fun m v hv hvid => ?_⟩
      refine hown (!b) hu hv hvid ?_
      rw [huid]
      cases b <;> simpa using hside
    have hfresh : (l.ends b).tables.fresh s.id = true := by
      refine Tables.fresh_iff.mpr fun heq => hside ?_
      rw [← heq]
      exact h.sound.side b
    have hcount := h.counted b s.id hfresh
    refine eq_of_count_le_one (hcount.trans hlane.length_le_one) ?_ ?_
    · simp [Endpoint.tables, ht, hid]
    · simp [Endpoint.tables, hs]

theorem Paired.lane (h : Paired l) (b : Bool) (id : StreamId) :
    Tables.Lane (l.ends b).tables id :=
  h.lane_of_only b fun _ _ hs _ => h.only (!b) hs

/-- A stream that is read is the only one in the lane of its id. -/
theorem Paired.lane_of_mem (h : Paired l) {b : Bool} {r : RecvStream}
    (hr : r ∈ (l.ends b).recvs) :
    r.routed = [] ∨ r.routed = (l.ends b).tables.items.filter (·.id = r.id) := by
  have hmem : r.channel ∈ (l.ends b).tables.demux.lane r.id := by
    simp only [Demux.State.lane, List.mem_filter, decide_eq_true_eq]
    exact ⟨List.mem_map_of_mem hr, rfl⟩
  have hrouted : r.routed = r.channel.items := rfl
  rw [hrouted]
  cases h.lane b r.id with
  | none hlane =>
      rw [hlane] at hmem
      cases hmem
  | queued hlane =>
      rw [hlane] at hmem
      rw [List.mem_singleton.mp hmem]
      exact .inl rfl
  | filled status hlane =>
      rw [hlane] at hmem
      rw [List.mem_singleton.mp hmem]
      exact .inr rfl

/-- The last frame says that it is the last, and all has been taken with it. -/
theorem reads_all {r : RecvStream} {s : SendStream} {taken : List Stream} (hreads : r.Reads taken)
    (hfront : r.routed <+: s.written) (hends : Demux.Ends Stream.fin s.written)
    (hopen : s.fin = false → ∀ frame ∈ s.written, frame.fin = false) (hfin : r.fin = true) :
    s.fin = true ∧ r.output ++ r.buffer = s.written.flatMap Stream.data := by
  obtain ⟨more, hmore⟩ := hreads.routed ▸ hfront
  have hlast : taken.getLast?.any Stream.fin = true := hreads.fin ▸ hfin
  rcases List.eq_nil_or_concat' taken with rfl | ⟨front, frame, rfl⟩
  · cases hlast
  · have hframe : frame.fin = true := by simpa using hlast
    have hwritten : s.written = front ++ frame :: (r.inboundData ++ more) := by
      simp [← hmore]
    have hrest : r.inboundData ++ more = [] := by
      by_contra hne
      rw [hends front frame _ hwritten hne] at hframe
      cases hframe
    constructor
    · by_contra hs
      rw [hopen (by simpa using hs) frame (by simp [hwritten])] at hframe
      cases hframe
    · rw [hreads.bytes, hwritten, hrest]

/-- Two ends that reset and stop nothing, and whose tasks know a stream before
they send its frames: an end has one stream of each id, and what is read of it
is the data that the other end's stream of the id was given, from the front;
once its end is seen, that is all of the data. -/
theorem delivered (hl : Reachable step Orderly new l) (b : Bool) :
    ((l.ends b).sends.map SendStream.id).Nodup ∧ ((l.ends b).recvs.map RecvStream.id).Nodup ∧
    ∀ r ∈ (l.ends b).recvs, r.routed = [] ∧ r.output = [] ∨
      ∃ s ∈ (l.ends !b).sends, s.id = r.id ∧ r.routed <+: s.written ∧
        r.output <+: s.written.flatMap Stream.data ∧
        (r.fin = true → s.fin = true ∧ r.output ++ r.buffer = s.written.flatMap Stream.data) := by
  have h := paired_of_reachable hl
  refine ⟨?_, ?_, ?_⟩
  · refine List.nodup_iff_getElem?_ne_getElem?.mpr fun i j hij hj heq => ?_
    rw [List.length_map] at hj
    rw [List.getElem?_map, List.getElem?_map, List.getElem?_eq_getElem hj] at heq
    obtain ⟨s, hs, hid⟩ := Option.map_eq_some_iff.mp heq
    have hsame := (h.only b (List.getElem?_eq_getElem hj)).only i s hs hid
    omega
  · refine List.nodup_iff_count_le_one.mpr fun id => ?_
    have hlane : ((l.ends b).recvs.map RecvStream.id).count id =
        ((l.ends b).tables.demux.lane id).length := by
      rw [List.count, List.countP_eq_length_filter, List.filter_map, List.length_map,
        Demux.State.lane, Endpoint.tables, List.filter_map, List.length_map]
      rfl
    exact hlane.trans_le (h.lane b id).length_le_one
  · intro r hr
    have hkept := (h.inv b).kept r hr
    have hnone (hrouted : r.routed = []) : r.routed = [] ∧ r.output = [] := by
      have houtput := hkept.output_front
      rw [hrouted] at houtput
      exact ⟨hrouted, List.prefix_nil.mp houtput⟩
    rcases h.lane_of_mem hr with hrouted | hrouted
    · exact .inl (hnone hrouted)
    · rcases h.items_cases b (fun _ _ hs _ => h.only (!b) hs) with hitems | ⟨s, hs, hid, hfront⟩
      · exact .inl (hnone (hrouted.trans hitems))
      · rw [← hrouted] at hfront
        obtain ⟨taken, hreads⟩ := hkept.reads
        have hdata : r.routed.flatMap Stream.data <+: s.written.flatMap Stream.data := by
          obtain ⟨more, hmore⟩ := hfront
          exact ⟨more.flatMap Stream.data, by rw [← hmore, List.flatMap_append]⟩
        exact .inr ⟨s, hs, hid, hfront, hkept.output_front.trans hdata,
          reads_all hreads hfront ((h.tidy !b).ends s hs) ((h.tidy !b).open_ s hs)⟩

def firstBi : StreamId := ⟨0, by decide⟩

/-- The client asks on a stream in both directions, and reads the answer to its
end. -/
def askAndRead : List Act :=
  let message (data : Bytes) (fin : Bool) : Endpoint.Act :=
    .message (.binary (Frame.stream ⟨firstBi, data, fin⟩).encode)
  [(false, .openBi), (false, .create 0), (false, .createBi),
    (false, .send 0 (.write [1] .send)), (false, .outbound), (true, message [1] false),
    (true, .acceptBi), (true, .send 0 (.write [2, 3] .send)), (true, .outbound),
    (true, .send 0 .finish), (true, .outbound), (false, message [2, 3] false),
    (false, .recv 0 (.read 8 .data)), (false, .recv 0 (.read 8 .data)),
    (false, message [] true), (false, .recv 0 (.read 8 .data))]

theorem delivered_askAndRead :
    ∃ l, Reachable step Orderly new l ∧ ∃ r ∈ (l.ends false).recvs, r.output = [2, 3] ∧
      r.fin = true ∧ ∃ s ∈ (l.ends true).sends, s.id = r.id ∧ s.fin = true ∧
        r.output ++ r.buffer = s.written.flatMap Stream.data := by
  have hrun : ∃ l r, run step biased new askAndRead = some l ∧
      (l.ends false).recvs = [r] ∧ r.output = [2, 3] ∧ r.fin = true := ⟨_, _, rfl, rfl, rfl, rfl⟩
  obtain ⟨l, r, hl, hr, houtput, hfin⟩ := hrun
  have hreachable := reachable_of_run biased (fun _ _ => orderly_of_biased) hl
  have hmem : r ∈ (l.ends false).recvs := by simp [hr]
  obtain ⟨-, -, hall⟩ := delivered hreachable false
  rcases hall r hmem with ⟨-, hnone⟩ | ⟨s, hs, hid, -, -, hend⟩
  · rw [houtput] at hnone
    cases hnone
  · exact ⟨l, hreachable, r, hmem, houtput, hfin, s, hs, hid, hend hfin⟩

/-- The client's task sends a question before it takes the entry of the stream
from its queue. The first part of the answer finds no stream and is dropped, so
what is read is not from the front of what was written. -/
def askTooEarly : List Act :=
  let message (data : Bytes) : Endpoint.Act :=
    .message (.binary (Frame.stream ⟨firstBi, data, false⟩).encode)
  [(false, .openBi), (false, .create 0), (false, .send 0 (.write [1] .send)),
    (false, .outbound), (true, message [1]), (true, .acceptBi),
    (true, .send 0 (.write [2] .send)), (true, .outbound), (false, message [2]),
    (false, .createBi), (true, .send 0 (.write [3] .send)), (true, .outbound),
    (false, message [3]), (false, .recv 0 (.read 8 .data)), (false, .recv 0 (.read 8 .data))]

theorem not_delivered_askTooEarly :
    ∃ l, Reachable step Quiet new l ∧ ∃ r ∈ (l.ends false).recvs, r.output = [3] ∧
      ∀ s ∈ (l.ends true).sends, s.id = r.id → s.written.flatMap Stream.data = [2, 3] := by
  have hrun : ∃ l r s, run step quiet new askTooEarly = some l ∧ (l.ends false).recvs = [r] ∧
      r.output = [3] ∧ (l.ends true).sends = [s] ∧
      s.written.flatMap Stream.data = [2, 3] := ⟨_, _, _, rfl, rfl, rfl, rfl, rfl⟩
  obtain ⟨l, r, s, hl, hr, houtput, hs, hwritten⟩ := hrun
  refine ⟨l, reachable_of_run quiet (fun _ _ => quiet_of_check) hl, r, by simp [hr], houtput, ?_⟩
  rw [hs]
  intro t ht _
  rw [List.mem_singleton.mp ht]
  exact hwritten

/-- A stream for which something has arrived is not waiting to be registered. -/
theorem Paired.not_waiting (h : Paired l) {b : Bool} {j : Nat} {r : RecvStream}
    (hj : (l.ends b).recvs[j]? = some r) (hqueued : r.status = .queued)
    (hitems : (l.ends b).tables.items.filter (·.id = r.id) ≠ []) :
    j ∉ (l.ends b).tables.waiting := by
  have hown := (h.inv b).own
  have hchannel : (l.ends b).tables.demux.channels[j]? = some r.channel := by
    simp [Endpoint.tables, hj]
  have hfresh : (l.ends b).tables.fresh r.id = false :=
    hown.inv.queued r.channel (List.mem_of_getElem? hchannel) hqueued
  have hsent := h.sent_of_items hfresh hitems
  intro hwaiting
  rcases List.mem_append.mp hwaiting with hopening | hcreating
  · -- the call has not returned, so nothing has been written
    obtain ⟨o, ho, hrecv⟩ := List.mem_filterMap.mp hopening
    obtain ⟨s, hs, hunwritten⟩ := (h.tidy b).opening o ho
    cases o with
    | uni i => cases hrecv
    | bi i k =>
        obtain rfl : k = j := Option.some.inj hrecv
        obtain ⟨c, hc, hid⟩ := hown.opening i k ho
        obtain rfl : r.channel = c := Option.some.inj (hchannel.symm.trans hc)
        have hs : (l.ends b).sends[i]? = some s := hs
        have heq : s.id = r.id := by
          simpa [Endpoint.tables, hs, RecvStream.channel] using hid
        have hfront := (h.tidy b).sentStreams_front (h.only b hs)
        rw [hunwritten.written, heq] at hfront
        exact hsent (List.prefix_nil.mp hfront)
  · -- the task has not sent a frame of it
    obtain ⟨entry, hentry, rfl⟩ := List.mem_map.mp hcreating
    obtain ⟨c, hc, hkey⟩ := hown.creating entry hentry
    obtain rfl : r.channel = c := Option.some.inj (hchannel.symm.trans hc)
    exact hsent ((h.tidy b).sentStreams_eq_nil (.inr ⟨entry, hentry, hkey.symm⟩))

/-- When all that was written has been sent and has arrived, every stream that
was written is there to be read, with all of it, unless the call that opened
it here was given up before the task knew it: it is not in the table, and
neither in a call nor in the task's queue. -/
theorem nothing_lost (hl : Reachable step Orderly new l) {b : Bool}
    (hb : (l.ends b).running = true) (hother : (l.ends !b).running = true)
    (houtbound : (l.ends !b).outbound = []) (hspawned : (l.ends !b).spawned = [])
    (htaken : l.taken b = (l.ends !b).sent.length) {s : SendStream} (hs : s ∈ (l.ends !b).sends)
    (hwritten : s.written ≠ []) :
    ∃ (j : Nat) (r : RecvStream), (l.ends b).recvs[j]? = some r ∧ r.id = s.id ∧
      (r.routed = s.written ∨ r.status = .queued ∧ j ∉ (l.ends b).tables.waiting) := by
  have h := paired_of_reachable hl
  obtain ⟨i, hi⟩ := List.mem_iff_getElem?.mp hs
  have hsent := (h.tidy !b).sentStreams_eq (h.only (!b) hi) hother houtbound hspawned
  have hitems : (l.ends b).tables.items.filter (·.id = s.id) = s.written := by
    have hlogged := h.logged b
    rw [htaken, List.take_length] at hlogged
    rcases hlogged with hlogged | ⟨hhalted, -⟩
    · rw [hlogged]
      exact hsent
    · rw [hb] at hhalted
      cases hhalted
  have hmem {c : Demux.Channel StreamId Stream}
      (hc : c ∈ (l.ends b).tables.demux.lane s.id) :
      ∃ (j : Nat) (r : RecvStream), (l.ends b).recvs[j]? = some r ∧ r.channel = c ∧
        r.id = s.id := by
    simp only [Demux.State.lane, List.mem_filter, decide_eq_true_eq] at hc
    obtain ⟨r, hr, rfl⟩ := List.mem_map.mp hc.1
    obtain ⟨j, hj⟩ := List.mem_iff_getElem?.mp hr
    exact ⟨j, r, hj, rfl, hc.2⟩
  cases h.lane b s.id with
  | none hlane hnone =>
      exfalso
      cases hfresh : (l.ends b).tables.fresh s.id with
      | true => exact hwritten (hitems.symm.trans (hnone hfresh))
      | false =>
          have hback := h.sent_of_items hfresh (by rw [hitems]; exact hwritten)
          have hid : s.id ∈ (l.ends b).tables.sendIds := by
            by_contra habsent
            exact hback ((h.tidy b).sentStreams_eq_nil (.inl habsent))
          have hdir : s.id.dir = .bi := by
            have hown := Tables.not_fresh_iff.mp hfresh
            have hsend := (h.sound.sound !b).sends s hs
            rw [h.sound.side, StreamId.canSend] at hsend
            change (l.ends b).isServer = s.id.serverInitiated at hown
            rw [h.sound.side] at hown
            split at hsend
            · rw [← hown] at hsend
              cases b <;> cases hsend
            · next hdir => exact hdir
          obtain ⟨c, hc, hkey⟩ := h.twinned b s.id hid hfresh hdir
          have hlane' : c ∈ (l.ends b).tables.demux.lane s.id := by
            simp only [Demux.State.lane, List.mem_filter, decide_eq_true_eq]
            exact ⟨hc, hkey⟩
          rw [hlane] at hlane'
          cases hlane'
  | queued hlane =>
      obtain ⟨j, r, hj, hchannel, hid⟩ := hmem (hlane ▸ List.mem_singleton_self _)
      have hqueued : r.status = .queued := congrArg Demux.Channel.status hchannel
      have harrived : (l.ends b).tables.items.filter (·.id = r.id) ≠ [] := by
        rw [hid, hitems]
        exact hwritten
      exact ⟨j, r, hj, hid, .inr ⟨hqueued, h.not_waiting hj hqueued harrived⟩⟩
  | filled status hlane =>
      obtain ⟨j, r, hj, hchannel, hid⟩ := hmem (hlane ▸ List.mem_singleton_self _)
      exact ⟨j, r, hj, hid, .inl ((congrArg Demux.Channel.items hchannel).trans hitems)⟩

theorem nothing_lost_askAndRead :
    ∃ l, Reachable step Orderly new l ∧ ∃ s ∈ (l.ends true).sends, s.written.length = 2 ∧
      ∃ r ∈ (l.ends false).recvs, r.id = s.id ∧ r.routed = s.written := by
  have hrun : ∃ l s r, run step biased new askAndRead = some l ∧
      (l.ends false).running = true ∧ (l.ends true).running = true ∧
      (l.ends true).outbound = [] ∧ (l.ends true).spawned = [] ∧
      l.taken false = (l.ends true).sent.length ∧ (l.ends true).sends = [s] ∧
      s.written.length = 2 ∧ (l.ends false).recvs = [r] ∧ r.status ≠ .queued :=
    ⟨_, _, _, rfl, rfl, rfl, rfl, rfl, rfl, rfl, rfl, rfl, by decide⟩
  obtain ⟨l, s, r, hl, hclient, hserver, houtbound, hspawned, htaken, hs, hlength, hr,
    hstatus⟩ := hrun
  have hreachable := reachable_of_run biased (fun _ _ => orderly_of_biased) hl
  have hmem : s ∈ (l.ends true).sends := by simp [hs]
  have hwritten : s.written ≠ [] := by
    intro hnone
    rw [hnone] at hlength
    cases hlength
  obtain ⟨j, r', hj, hid, hall⟩ :=
    nothing_lost (b := false) hreachable hclient hserver houtbound hspawned htaken hmem hwritten
  obtain rfl : r' = r := by simpa [hr] using List.mem_of_getElem? hj
  refine ⟨l, hreachable, s, hmem, hlength, r', by simp [hr], hid, ?_⟩
  exact hall.resolve_right fun hqueued => hstatus hqueued.1

end Link

end MoqTransport.Ws
