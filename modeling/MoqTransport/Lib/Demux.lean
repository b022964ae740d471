import MoqTransport.Lib.Machine
import MoqTransport.Lib.Registry

/-!
Demultiplexers: items arrive under keys and are put into one channel for each
key, found through a table. A key that the table does not have gets a new
channel if it is `fresh`, and its item is dropped if not; for such a key a
channel can be made before anything arrives, and is registered later.

The table is an optimisation. `lane_step` says what it computes: every key has
its own channels, and what is put in them depends on the events of that key
alone.
-/

namespace Demux

open Machine

variable {K X : Type}

/-- Where the end that fills a channel is. -/
inductive Status where
  | queued
  | routed
  | dropped
deriving DecidableEq

@[ext]
structure Channel (K X : Type) where
  key : K
  status : Status
  items : List X
deriving DecidableEq

structure State (K X : Type) where
  channels : List (Channel K X)
  table : Finmap fun _ : K => Nat

def State.empty : State K X := ⟨[], ∅⟩

inductive Event (K X : Type) where
  | make (key : K)
  | register (key : K) (i : Nat)
  | item (key : K) (x : X) (last : Bool)
  | close (key : K)
deriving DecidableEq

def Event.key : Event K X → K
  | .make key => key
  | .register key _ => key
  | .item key _ _ => key
  | .close key => key

namespace Channel

def after (last : Bool) : Status := if last then .dropped else .routed

def make (key : K) : Channel K X := ⟨key, .queued, []⟩

def first (key : K) (x : X) (last : Bool) : Channel K X := ⟨key, after last, [x]⟩

def put (x : X) (last : Bool) (c : Channel K X) : Channel K X :=
  { c with items := c.items ++ [x], status := after last }

def register (c : Channel K X) : Channel K X := { c with status := .routed }

def close (c : Channel K X) : Channel K X := { c with status := .dropped }

/-- Do `f` to the channels in one place. -/
def whenAt (status : Status) (f : Channel K X → Channel K X) (c : Channel K X) : Channel K X :=
  if c.status = status then f c else c

end Channel

variable [DecidableEq K]

/-- `none` is a step that the owner of the demultiplexer does not take. -/
def step (fresh : K → Bool) (st : State K X) : Event K X → Option (State K X)
  | .make k =>
      if fresh k ∨ ∃ c ∈ st.channels, c.key = k then none
      else some { st with channels := st.channels ++ [.make k] }
  | .register k i =>
      match st.channels[i]? with
      | some c =>
          if c.key = k ∧ c.status = .queued then
            some ⟨st.channels.set i c.register, st.table.insert k i⟩
          else none
      | none => none
  | .item k x last =>
      match st.table.lookup k with
      | some i =>
          some ⟨st.channels.modify i (Channel.put x last),
            if last then st.table.erase k else st.table⟩
      | none =>
          if fresh k then
            some ⟨st.channels ++ [.first k x last],
              if last then st.table else st.table.insert k st.channels.length⟩
          else some st
  | .close k =>
      match st.table.lookup k with
      | some i => some ⟨st.channels.modify i Channel.close, st.table.erase k⟩
      | none => some st

/-- What an event does to the channels of its key, without a table. -/
def laneStep (fresh : Bool) (lane : List (Channel K X)) : Event K X → List (Channel K X)
  | .make k => lane ++ [.make k]
  | .register _ _ => lane.map (Channel.whenAt .queued Channel.register)
  | .item k x last =>
      if lane.any (·.status = .routed) then lane.map (Channel.whenAt .routed (Channel.put x last))
      else if fresh then lane ++ [.first k x last]
      else lane
  | .close _ => lane.map (Channel.whenAt .routed Channel.close)

/-- The channels of a key, in the order in which they were made. -/
def State.lane (st : State K X) (k : K) : List (Channel K X) :=
  st.channels.filter (·.key = k)

/-- The table has the routed channels, and a key that is not fresh has one
channel at most. -/
structure Inv (fresh : K → Bool) (st : State K X) : Prop where
  table : Registry.Consistent Channel.key (·.status = .routed) st.table st.channels
  queued : ∀ c ∈ st.channels, c.status = .queued → fresh c.key = false
  single : ∀ (i j : Nat) c d, st.channels[i]? = some c → st.channels[j]? = some d →
    c.key = d.key → fresh c.key = false → i = j

variable {fresh : K → Bool} {st st' : State K X}

theorem inv_empty : Inv fresh (State.empty : State K X) where
  table := Registry.consistent_nil
  queued := by simp [State.empty]
  single := by simp [State.empty]

/-- Through the table, one channel is changed; it is the one of its key that
is routed. -/
theorem modify_eq_map (h : Inv fresh st) {k : K} {i : Nat} (hi : st.table.lookup k = some i)
    (f : Channel K X → Channel K X) :
    st.channels.modify i f =
      st.channels.map fun c => if c.key = k then Channel.whenAt .routed f c else c := by
  apply List.ext_getElem?
  intro j
  rw [List.getElem?_modify, List.getElem?_map]
  cases hj : st.channels[j]? with
  | none => rfl
  | some c =>
      simp only [Option.map_eq_map, Option.map_some, Option.some.injEq]
      by_cases hij : i = j
      · subst hij
        obtain ⟨d, hd, hkey, hstatus⟩ := (h.table k i).mp hi
        obtain rfl : c = d := Option.some.inj (hj.symm.trans hd)
        rw [if_pos rfl, if_pos hkey, Channel.whenAt, if_pos hstatus]
      · rw [if_neg hij]
        by_cases hkey : c.key = k
        · rw [if_pos hkey, Channel.whenAt, if_neg]
          intro hstatus
          have hlookup := (h.table k j).mpr ⟨c, hj, hkey, hstatus⟩
          exact hij (Option.some.inj (hi.symm.trans hlookup))
        · rw [if_neg hkey]

theorem lane_map (channels : List (Channel K X)) (k k' : K) (g : Channel K X → Channel K X)
    (hg : ∀ c, (g c).key = c.key) :
    (channels.map fun c => if c.key = k then g c else c).filter (·.key = k') =
      if k' = k then (channels.filter (·.key = k')).map g
      else channels.filter (·.key = k') := by
  induction channels with
  | nil => simp
  | cons c channels ih =>
      rw [List.map_cons]
      by_cases hc : c.key = k
      · by_cases hk : k' = k
        · subst hk
          simp [hc, hg, ih]
        · simp [hc, hg, ih, Ne.symm hk]
      · by_cases hk : k' = k
        · subst hk
          simp [hc, ih]
        · simp [hc, List.filter_cons, ih, hk]

omit [DecidableEq K] in
theorem key_whenAt {f : Channel K X → Channel K X} (hf : ∀ c, (f c).key = c.key)
    (status : Status) (c : Channel K X) : (Channel.whenAt status f c).key = c.key := by
  unfold Channel.whenAt
  split
  · exact hf c
  · rfl

omit [DecidableEq K] in
theorem map_whenAt_of_none {lane : List (Channel K X)} {status : Status}
    {f : Channel K X → Channel K X} (h : lane.any (·.status = status) = false) :
    lane.map (Channel.whenAt status f) = lane := by
  simp only [List.any_eq_false, decide_eq_true_eq] at h
  calc
    lane.map (Channel.whenAt status f) = lane.map id :=
      List.map_congr_left fun c hc => if_neg (h c hc)
    _ = lane := List.map_id lane

/-- A key is in the table when one of its channels is routed. -/
theorem any_routed_iff (h : Inv fresh st) (k : K) :
    (st.lane k).any (·.status = .routed) = true ↔ ∃ i, st.table.lookup k = some i := by
  simp only [State.lane, List.any_eq_true, List.mem_filter, decide_eq_true_eq]
  constructor
  · rintro ⟨c, ⟨hmem, hkey⟩, hstatus⟩
    obtain ⟨i, hi⟩ := List.mem_iff_getElem?.mp hmem
    exact ⟨i, (h.table k i).mpr ⟨c, hi, hkey, hstatus⟩⟩
  · rintro ⟨i, hi⟩
    obtain ⟨c, hc, hkey, hstatus⟩ := (h.table k i).mp hi
    exact ⟨c, ⟨List.mem_of_getElem? hc, hkey⟩, hstatus⟩

theorem any_routed_of_vacant (h : Inv fresh st) {k : K} (hk : st.table.lookup k = none) :
    (st.lane k).any (·.status = .routed) = false := by
  rw [Bool.eq_false_iff]
  intro hsome
  obtain ⟨i, hi⟩ := (any_routed_iff h k).mp hsome
  rw [hk] at hi
  cases hi

/-- The only channel of its key is found by its place, too. -/
theorem set_eq_map (h : Inv fresh st) {i : Nat} {c : Channel K X} (hi : st.channels[i]? = some c)
    (hqueued : c.status = .queued) :
    st.channels.set i c.register = st.channels.map fun d =>
      if d.key = c.key then Channel.whenAt .queued Channel.register d else d := by
  have hfresh := h.queued c (List.mem_of_getElem? hi) hqueued
  apply List.ext_getElem?
  intro j
  rw [List.getElem?_map]
  by_cases hij : i = j
  · subst hij
    rw [List.getElem?_set_self (List.getElem?_eq_some_iff.mp hi).1, hi]
    simp [Channel.whenAt, hqueued]
  · rw [List.getElem?_set_ne hij]
    cases hj : st.channels[j]? with
    | none => rfl
    | some d =>
        have hkey : d.key ≠ c.key := fun hkey => hij (h.single i j c d hi hj hkey.symm hfresh)
        simp [hkey]

/-- A key with a channel that waits to be registered is not in the table. -/
theorem lookup_of_queued (h : Inv fresh st) {i : Nat} {c : Channel K X}
    (hi : st.channels[i]? = some c) (hqueued : c.status = .queued) :
    st.table.lookup c.key = none := by
  rw [Option.eq_none_iff_forall_not_mem]
  intro j hj
  obtain ⟨d, hd, hkey, hstatus⟩ := (h.table c.key j).mp hj
  have hfresh := h.queued c (List.mem_of_getElem? hi) hqueued
  obtain rfl := h.single i j c d hi hd hkey.symm hfresh
  obtain rfl : c = d := Option.some.inj (hi.symm.trans hd)
  rw [hqueued] at hstatus
  cases hstatus

theorem inv_map (h : Inv fresh st) {f : Channel K X → Channel K X} {i : Nat}
    {table : Finmap fun _ : K => Nat} (hkey : ∀ c, (f c).key = c.key)
    (hstatus : ∀ c, (f c).status ≠ .queued)
    (htable : Registry.Consistent Channel.key (·.status = .routed) table
      (st.channels.modify i f)) :
    Inv fresh ⟨st.channels.modify i f, table⟩ := by
  have hget (j : Nat) {c : Channel K X} (hj : (st.channels.modify i f)[j]? = some c) :
      ∃ d, st.channels[j]? = some d ∧ d.key = c.key ∧ (c = d ∨ c = f d) := by
    rw [List.getElem?_modify] at hj
    obtain ⟨d, hd, hc⟩ := Option.map_eq_some_iff.mp hj
    refine ⟨d, hd, ?_⟩
    split at hc
    · exact ⟨by rw [← hc, hkey], .inr hc.symm⟩
    · exact ⟨by rw [← hc], .inl hc.symm⟩
  constructor
  · exact htable
  · intro c hc hqueued
    obtain ⟨j, hj⟩ := List.mem_iff_getElem?.mp hc
    obtain ⟨d, hd, hdkey, rfl | rfl⟩ := hget j hj
    · exact h.queued c (List.mem_of_getElem? hd) hqueued
    · exact absurd hqueued (hstatus d)
  · intro j j' c c' hj hj' hcc hfresh
    obtain ⟨d, hd, hdkey, -⟩ := hget j hj
    obtain ⟨d', hd', hdkey', -⟩ := hget j' hj'
    refine h.single j j' d d' hd hd' ?_ (by rw [hdkey]; exact hfresh)
    rw [hdkey, hdkey', hcc]

theorem inv_append (h : Inv fresh st) {c : Channel K X} {table : Finmap fun _ : K => Nat}
    (htable : Registry.Consistent Channel.key (·.status = .routed) table (st.channels ++ [c]))
    (hqueued : c.status = .queued → fresh c.key = false)
    (hsingle : fresh c.key = false → ∀ d ∈ st.channels, d.key ≠ c.key) :
    Inv fresh ⟨st.channels ++ [c], table⟩ := by
  constructor
  · exact htable
  · exact forall_mem_concat h.queued hqueued
  · intro i j d e hi hj hkey hfresh
    rcases getElem?_concat_iff.mp hi with hi | ⟨rfl, rfl⟩
    · rcases getElem?_concat_iff.mp hj with hj | ⟨rfl, rfl⟩
      · exact h.single i j d e hi hj hkey hfresh
      · exact absurd hkey (hsingle (hkey ▸ hfresh) d (List.mem_of_getElem? hi))
    · rcases getElem?_concat_iff.mp hj with hj | ⟨rfl, rfl⟩
      · exact absurd hkey.symm (hsingle hfresh e (List.mem_of_getElem? hj))
      · rfl

/-- A channel that the table has is changed, or leaves the table. -/
theorem consistent_modify (h : Inv fresh st) {k : K} {i : Nat} (hi : st.table.lookup k = some i)
    {f : Channel K X → Channel K X} (hkey : ∀ c, (f c).key = c.key) :
    ((∀ c, (f c).status = .routed) →
      Registry.Consistent Channel.key (·.status = .routed) st.table (st.channels.modify i f)) ∧
    ((∀ c, (f c).status = .dropped) →
      Registry.Consistent Channel.key (·.status = .routed) (st.table.erase k)
        (st.channels.modify i f)) := by
  obtain ⟨c, hc, -, hstatus⟩ := (h.table k i).mp hi
  constructor
  · intro hrouted
    have hset : st.channels.modify i f = st.channels.set i (f c) := by
      rw [List.modify_eq_set_getElem?, hc]
      rfl
    rw [hset]
    exact h.table.set hc (hkey c) (by simp [hrouted, hstatus])
  · intro hdropped
    refine h.table.retire (f := f) (by simp [hdropped]) ?_
    intro j
    rw [List.getElem?_modify]
    cases st.channels[j]? with
    | none => rfl
    | some d => simp [hi]

theorem inv_step (h : Inv fresh st) {e : Event K X} (hstep : step fresh st e = some st') :
    Inv fresh st' := by
  cases e with
  | make k =>
      simp only [step] at hstep
      split at hstep
      · cases hstep
      · next hnew =>
          cases hstep
          push Not at hnew
          have hfresh : fresh k = false := by simpa using hnew.1
          exact inv_append h (h.table.append (by simp [Channel.make])) (fun _ => hfresh)
            fun _ => hnew.2
  | register k i =>
      simp only [step] at hstep
      cases hi : st.channels[i]? with
      | none => simp [hi] at hstep
      | some c =>
          simp only [hi] at hstep
          split at hstep
          · next hc =>
              obtain ⟨rfl, hqueued⟩ := hc
              cases hstep
              have hset : st.channels.set i c.register = st.channels.modify i Channel.register := by
                rw [List.modify_eq_set_getElem?, hi]
                rfl
              have hkey : c.register.key = c.key := rfl
              have htable := h.table.enlist hi hkey rfl (lookup_of_queued h hi hqueued)
              rw [hset] at htable ⊢
              exact inv_map h (fun _ => rfl) (fun c => by simp [Channel.register]) htable
          · cases hstep
  | item k x last =>
      simp only [step] at hstep
      cases hk : st.table.lookup k with
      | some i =>
          simp only [hk, Option.some.injEq] at hstep
          subst hstep
          have hboth := consistent_modify h hk (f := Channel.put x last) fun _ => rfl
          refine inv_map h (fun _ => rfl) (fun c => by cases last <;> simp [Channel.put,
            Channel.after]) ?_
          cases last with
          | false => exact hboth.1 fun _ => rfl
          | true => exact hboth.2 fun _ => rfl
      | none =>
          simp only [hk] at hstep
          split at hstep
          · next hfresh =>
              cases hstep
              refine inv_append h ?_ (fun hq => by cases last <;> simp [Channel.first,
                Channel.after] at hq) (fun hf => by simp [Channel.first, hfresh] at hf)
              cases last with
              | false => exact h.table.register (e := .first k x false) hk rfl
              | true => exact h.table.append (by simp [Channel.first, Channel.after])
          · cases hstep
            exact h
  | close k =>
      simp only [step] at hstep
      cases hk : st.table.lookup k with
      | some i =>
          simp only [hk, Option.some.injEq] at hstep
          subst hstep
          exact inv_map h (fun _ => rfl) (fun c => by simp [Channel.close])
            ((consistent_modify h hk (f := Channel.close) fun _ => rfl).2 fun _ => rfl)
      | none =>
          simp only [hk, Option.some.injEq] at hstep
          exact hstep ▸ h

/-- A step does to the channels of a key what the event alone says, and
nothing if it is of another key. -/
theorem lane_step (h : Inv fresh st) {e : Event K X} (hstep : step fresh st e = some st') (k : K) :
    st'.lane k = if e.key = k then laneStep (fresh k) (st.lane k) e else st.lane k := by
  have hmap (k' : K) (status : Status) (f : Channel K X → Channel K X)
      (hf : ∀ c, (f c).key = c.key) (table : Finmap fun _ : K => Nat) :
      State.lane ⟨st.channels.map fun c => if c.key = k' then Channel.whenAt status f c else c,
        table⟩ k =
      if k' = k then (st.lane k).map (Channel.whenAt status f) else st.lane k := by
    rw [State.lane, lane_map _ _ _ _ (key_whenAt hf status)]
    exact if_congr eq_comm rfl rfl
  cases e with
  | make k' =>
      simp only [step] at hstep
      split at hstep
      · cases hstep
      · cases hstep
        by_cases hk : k' = k
        · simp [State.lane, laneStep, Event.key, Channel.make, hk]
        · simp [State.lane, Event.key, Channel.make, hk]
  | register k' i =>
      simp only [step] at hstep
      cases hi : st.channels[i]? with
      | none => simp [hi] at hstep
      | some c =>
          simp only [hi] at hstep
          split at hstep
          · next hc =>
              obtain ⟨rfl, hqueued⟩ := hc
              cases hstep
              rw [set_eq_map h hi hqueued]
              exact hmap _ _ Channel.register (fun _ => rfl) _
          · cases hstep
  | item k' x last =>
      have hany := any_routed_iff h k'
      simp only [step] at hstep
      cases hk : st.table.lookup k' with
      | some i =>
          rw [hk] at hany
          simp only [hk, Option.some.injEq] at hstep
          subst hstep
          rw [modify_eq_map h hk, hmap _ _ (Channel.put x last) fun _ => rfl]
          by_cases hkk : k' = k
          · subst hkk
            simp [Event.key, laneStep, hany.mpr ⟨i, rfl⟩]
          · simp [Event.key, hkk]
      | none =>
          have hnone := any_routed_of_vacant h hk
          simp only [hk] at hstep
          split at hstep
          · next hfresh =>
              cases hstep
              by_cases hkk : k' = k
              · subst hkk
                simp only [Event.key, laneStep, hnone, hfresh, if_true]
                simp [State.lane, Channel.first]
              · simp [State.lane, Event.key, Channel.first, hkk]
          · next hfresh =>
              cases hstep
              by_cases hkk : k' = k
              · subst hkk
                simp [Event.key, laneStep, hnone, hfresh]
              · simp [Event.key, hkk]
  | close k' =>
      simp only [step] at hstep
      cases hk : st.table.lookup k' with
      | some i =>
          simp only [hk, Option.some.injEq] at hstep
          subst hstep
          rw [modify_eq_map h hk]
          exact hmap _ _ Channel.close (fun _ => rfl) _
      | none =>
          simp only [hk, Option.some.injEq] at hstep
          subst hstep
          by_cases hkk : k' = k
          · subst hkk
            simp [Event.key, laneStep, map_whenAt_of_none (any_routed_of_vacant h hk)]
          · simp [Event.key, hkk]

/-- Events of what arrives, and of nothing else. -/
def Event.arrives : Event K X → Bool
  | .item _ _ _ => true
  | .close _ => true
  | _ => false

/-- What arrives does one of three things: it changes the channel that the
table has, it opens a channel, or it is dropped. -/
theorem channels_cases {e : Event K X} (he : e.arrives = true)
    (hstep : step fresh st e = some st') :
    (∃ i f, st.table.lookup e.key = some i ∧ (∀ c, (f c : Channel K X).key = c.key) ∧
      st'.channels = st.channels.modify i f) ∨
    (∃ c, fresh c.key = true ∧ st'.channels = st.channels ++ [c]) ∨ st' = st := by
  cases e with
  | make k => cases he
  | register k i => cases he
  | item k x last =>
      simp only [step] at hstep
      split at hstep
      · next i hk =>
          obtain rfl := Option.some.inj hstep
          exact .inl ⟨i, Channel.put x last, hk, fun _ => rfl, rfl⟩
      · split at hstep
        · next hfresh =>
            obtain rfl := Option.some.inj hstep
            exact .inr (.inl ⟨.first k x last, hfresh, rfl⟩)
        · exact .inr (.inr (Option.some.inj hstep).symm)
  | close k =>
      simp only [step] at hstep
      split at hstep
      · next i hk =>
          obtain rfl := Option.some.inj hstep
          exact .inl ⟨i, Channel.close, hk, fun _ => rfl, rfl⟩
      · exact .inr (.inr (Option.some.inj hstep).symm)

/-- Channels stay where they are, and one that waits to be registered is left
alone. -/
theorem channel_arrives (h : Inv fresh st) {e : Event K X} (he : e.arrives = true)
    (hstep : step fresh st e = some st') {j : Nat} {c : Channel K X}
    (hj : st.channels[j]? = some c) :
    ∃ c', st'.channels[j]? = some c' ∧ c'.key = c.key ∧ (c.status = .queued → c' = c) := by
  rcases channels_cases he hstep with ⟨i, f, hi, hf, hchannels⟩ | ⟨d, -, hchannels⟩ | rfl
  · rw [hchannels, List.getElem?_modify, hj]
    by_cases hij : i = j
    · subst hij
      refine ⟨f c, by simp, hf c, ?_⟩
      intro hqueued
      obtain ⟨d, hd, -, hrouted⟩ := (h.table _ i).mp hi
      obtain rfl : c = d := Option.some.inj (hj.symm.trans hd)
      rw [hqueued] at hrouted
      cases hrouted
    · exact ⟨c, by simp [hij], rfl, fun _ => rfl⟩
  · refine ⟨c, ?_, rfl, fun _ => rfl⟩
    rw [hchannels]
    exact getElem?_concat_iff.mpr (.inl hj)
  · exact ⟨c, hj, rfl, fun _ => rfl⟩

/-- New channels are opened by what arrives under fresh keys. -/
theorem key_arrives {e : Event K X} (he : e.arrives = true)
    (hstep : step fresh st e = some st') {c' : Channel K X} (hc' : c' ∈ st'.channels) :
    (∃ c ∈ st.channels, c.key = c'.key) ∨ fresh c'.key = true := by
  rcases channels_cases he hstep with ⟨i, f, -, hf, hchannels⟩ | ⟨d, hd, hchannels⟩ | rfl
  · rw [hchannels] at hc'
    obtain ⟨j, hj⟩ := List.mem_iff_getElem?.mp hc'
    rw [List.getElem?_modify] at hj
    obtain ⟨c, hc, rfl⟩ := Option.map_eq_some_iff.mp hj
    refine .inl ⟨c, List.mem_of_getElem? hc, ?_⟩
    split
    · exact (hf c).symm
    · rfl
  · rw [hchannels] at hc'
    rcases List.mem_append.mp hc' with hmem | hmem
    · exact .inl ⟨c', hmem, rfl⟩
    · obtain rfl := List.mem_singleton.mp hmem
      exact .inr hd
  · exact .inl ⟨c', hc', rfl⟩

/-! What the channels of one key come to. -/

omit [DecidableEq K]

theorem map_whenAt_concat {lane : List (Channel K X)} {c : Channel K X} {status : Status}
    {f : Channel K X → Channel K X} (h : ∀ d ∈ lane, d.status ≠ status) :
    (lane ++ [c]).map (Channel.whenAt status f) = lane ++ [Channel.whenAt status f c] := by
  have hlane : lane.map (Channel.whenAt status f) = lane :=
    map_whenAt_of_none (by simpa using h)
  rw [List.map_append, hlane]
  rfl

def Event.item? : Event K X → Option X
  | .item _ x _ => some x
  | _ => none

/-- All channels are in use or have been, and all but the last have been
left. -/
structure Settled (lane : List (Channel K X)) : Prop where
  left : ∀ front c, lane = front ++ [c] → ∀ d ∈ front, d.status = .dropped
  used : ∀ c ∈ lane, c.status ≠ .queued

theorem settled_nil : Settled ([] : List (Channel K X)) := ⟨by simp, by simp⟩

theorem settled_concat {front : List (Channel K X)} {c : Channel K X}
    (hfront : ∀ d ∈ front, d.status = .dropped) (hc : c.status ≠ .queued) :
    Settled (front ++ [c]) where
  left := by
    intro front' c' heq
    obtain ⟨rfl, -⟩ := List.append_inj' heq rfl
    exact hfront
  used := forall_mem_concat (fun d hd => by simp [hfront d hd]) hc

theorem after_ne_queued (last : Bool) : Channel.after last ≠ .queued := by
  cases last <;> simp [Channel.after]

/-- In settled channels a change of the routed one is a change of the last. -/
theorem Settled.map_concat {front : List (Channel K X)} {c : Channel K X}
    (h : Settled (front ++ [c])) (f : Channel K X → Channel K X) :
    (front ++ [c]).map (Channel.whenAt .routed f) = front ++ [Channel.whenAt .routed f c] :=
  map_whenAt_concat fun d hd => by simp [h.left front c rfl d hd]

theorem Settled.closed {front : List (Channel K X)} {c : Channel K X} (h : Settled (front ++ [c]))
    (hrouted : c.status ≠ .routed) : ∀ d ∈ front ++ [c], d.status = .dropped := by
  refine forall_mem_concat (h.left front c rfl) ?_
  cases hc : c.status with
  | queued => exact absurd hc (h.used c (by simp))
  | routed => exact absurd hc hrouted
  | dropped => rfl

theorem settled_item {lane : List (Channel K X)} (h : Settled lane) (k : K) (x : X) (last : Bool) :
    Settled (laneStep true lane (.item k x last)) ∧
      (laneStep true lane (.item k x last)).flatMap Channel.items =
        lane.flatMap Channel.items ++ [x] := by
  rcases List.eq_nil_or_concat' lane with rfl | ⟨front, c, rfl⟩
  · have hnone : ∀ d ∈ ([] : List (Channel K X)), d.status = .dropped := by simp
    exact ⟨settled_concat hnone (after_ne_queued last), rfl⟩
  · by_cases hrouted : c.status = .routed
    · have hstep : laneStep true (front ++ [c]) (.item k x last) = front ++ [c.put x last] := by
        rw [laneStep, if_pos (by simp [hrouted]), h.map_concat, Channel.whenAt, if_pos hrouted]
      rw [hstep]
      exact ⟨settled_concat (h.left front c rfl) (after_ne_queued last), by simp [Channel.put]⟩
    · have hclosed := h.closed hrouted
      have hany : ¬ (front ++ [c]).any (·.status = .routed) = true := by
        simp only [List.any_eq_true, decide_eq_true_eq, not_exists, not_and]
        intro d hd
        simp [hclosed d hd]
      have hstep : laneStep true (front ++ [c]) (.item k x last) =
          front ++ [c] ++ [.first k x last] := by
        rw [laneStep, if_neg hany, if_pos rfl]
      rw [hstep]
      exact ⟨settled_concat hclosed (after_ne_queued last), by simp [Channel.first]⟩

theorem settled_close {lane : List (Channel K X)} (h : Settled lane) (fresh : Bool) (k : K) :
    Settled (laneStep fresh lane (.close k)) ∧
      (laneStep fresh lane (.close k)).flatMap Channel.items = lane.flatMap Channel.items := by
  rcases List.eq_nil_or_concat' lane with rfl | ⟨front, c, rfl⟩
  · exact ⟨h, rfl⟩
  · have hstep : laneStep fresh (front ++ [c]) (.close k) =
        front ++ [Channel.whenAt .routed Channel.close c] := h.map_concat _
    rw [hstep]
    unfold Channel.whenAt
    split
    · exact ⟨settled_concat (h.left front c rfl) (by simp [Channel.close]),
        by simp [Channel.close]⟩
    · exact ⟨h, rfl⟩

/-- Nothing that arrives under a fresh key is lost, and nothing changes
places: the channels of the key hold it one after the other. -/
theorem items_of_fresh {es : List (Event K X)} (hes : ∀ e ∈ es, e.arrives = true)
    {lane : List (Channel K X)} (h : Settled lane) :
    (es.foldl (laneStep true) lane).flatMap Channel.items =
      lane.flatMap Channel.items ++ es.filterMap Event.item? := by
  induction es generalizing lane with
  | nil => simp
  | cons e es ih =>
      have hrest := fun e he => hes e (List.mem_cons_of_mem _ he)
      rw [List.foldl_cons]
      cases e with
      | make k => cases hes _ (List.mem_cons_self ..)
      | register k i => cases hes _ (List.mem_cons_self ..)
      | item k x last =>
          obtain ⟨hnext, hitems⟩ := settled_item h k x last
          have hitem : (Event.item k x last).item? = some x := rfl
          rw [ih hrest hnext, hitems, List.filterMap_cons_some hitem]
          simp
      | close k =>
          obtain ⟨hnext, hitems⟩ := settled_close h true k
          rw [ih hrest hnext, hitems, List.filterMap_cons_none rfl]

/-- What arrives under one key, when nothing closes its channel. -/
def arrivals (key : K) (last : X → Bool) (xs : List X) : List (Event K X) :=
  xs.map fun x => .item key x (last x)

/-- Only the last of the items may be the last one of its channel. -/
def Ends (last : X → Bool) (xs : List X) : Prop :=
  ∀ front x back, xs = front ++ x :: back → back ≠ [] → last x = false

theorem Ends.of_front {last : X → Bool} {xs ys : List X} (h : Ends last ys) (hxs : xs <+: ys) :
    Ends last xs := by
  rintro front x back rfl hback
  obtain ⟨more, rfl⟩ := hxs
  exact h front x (back ++ more) (by simp) (by simp [hback])

theorem Ends.front {last : X → Bool} {xs : List X} {x : X} (h : Ends last (xs ++ [x])) :
    ∀ y ∈ xs, last y = false := by
  intro y hy
  obtain ⟨front, back, rfl⟩ := List.append_of_mem hy
  exact h front y (back ++ [x]) (by simp) (by simp)

theorem ends_concat {last : X → Bool} {xs : List X} (h : ∀ y ∈ xs, last y = false) (x : X) :
    Ends last (xs ++ [x]) := by
  rintro front y back heq hback
  obtain ⟨back, z, rfl⟩ := (List.eq_nil_or_concat' back).resolve_left hback
  have hxs : xs = front ++ y :: back := by
    rw [← List.cons_append, ← List.append_assoc] at heq
    exact (List.append_inj' heq rfl).1
  exact h y (by simp [hxs])

/-- An open channel takes all of it. -/
theorem lane_of_open {key : K} {last : X → Bool} {xs : List X} (hends : Ends last xs)
    (fresh : Bool) (done : List X) :
    (arrivals key last xs).foldl (laneStep fresh) [⟨key, .routed, done⟩] =
      [⟨key, Channel.after (xs.getLast?.any last), done ++ xs⟩] := by
  induction xs generalizing done with
  | nil => simp [arrivals, Channel.after]
  | cons x xs ih =>
      have hstep : laneStep fresh [(⟨key, .routed, done⟩ : Channel K X)] (.item key x (last x)) =
          [⟨key, Channel.after (last x), done ++ [x]⟩] := rfl
      rw [arrivals, List.map_cons, List.foldl_cons, hstep]
      cases xs with
      | nil => simp
      | cons y xs =>
          have hx : last x = false := hends [] x (y :: xs) rfl (by simp)
          have htail : Ends last (y :: xs) := by
            intro front z back heq hback
            exact hends (x :: front) z back (by rw [heq]; rfl) hback
          rw [hx]
          refine (ih htail (done ++ [x])).trans ?_
          simp [List.getLast?_cons_cons]

/-- Under a fresh key the first item opens the channel. -/
theorem lane_of_fresh {key : K} {last : X → Bool} {xs : List X} (hends : Ends last xs)
    (hne : xs ≠ []) :
    (arrivals key last xs).foldl (laneStep true) [] =
      [⟨key, Channel.after (xs.getLast?.any last), xs⟩] := by
  obtain ⟨x, xs, rfl⟩ := List.exists_cons_of_ne_nil hne
  have hstep : laneStep true ([] : List (Channel K X)) (.item key x (last x)) =
      [⟨key, Channel.after (last x), [x]⟩] := rfl
  rw [arrivals, List.map_cons, List.foldl_cons, hstep]
  cases xs with
  | nil => simp
  | cons y xs =>
      have hx : last x = false := hends [] x (y :: xs) rfl (by simp)
      have htail : Ends last (y :: xs) := by
        intro front z back heq hback
        exact hends (x :: front) z back (by rw [heq]; rfl) hback
      rw [hx]
      refine (lane_of_open htail true [x]).trans ?_
      simp [List.getLast?_cons_cons]

theorem length_laneStep (fresh : Bool) (lane : List (Channel K X)) (e : Event K X) :
    lane.length ≤ (laneStep fresh lane e).length := by
  cases e with
  | make k => simp [laneStep]
  | register k i => simp [laneStep]
  | item k x last =>
      simp only [laneStep]
      split
      · simp
      · split <;> simp
  | close k => simp [laneStep]

/-- What arrives is dropped where nothing is open. -/
theorem lane_of_shut {key : K} {last : X → Bool} {lane : List (Channel K X)}
    (h : lane.any (·.status = .routed) = false) (xs : List X) :
    (arrivals key last xs).foldl (laneStep false) lane = lane := by
  induction xs with
  | nil => rfl
  | cons x xs ih =>
      rw [arrivals, List.map_cons, List.foldl_cons]
      have hstep : laneStep false lane (.item key x (last x)) = lane := by
        simp only [laneStep]
        rw [if_neg (by simp [h]), if_neg (by simp)]
      rw [hstep]
      exact ih

end Demux
