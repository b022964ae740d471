import MoqTransport.Dir.Reader

/-!
A listing and a reader of it, and what the reader's caller makes of it: a set
into which the returned deltas are folded. All deltas fit. But a snapshot ends
each name with a newline, and the reader takes what is after the last one for
a name as well: the set of a reader that has caught up holds the empty name
besides (`replication_iff`).
-/

namespace MoqTransport.Dir

open Streaming Coding Serve Machine

/-- A listing, a reader of its track with the call of `next` that is under
way, and the set its caller has, unless a delta did not fit. -/
structure Replication where
  listing : Listing
  reader : ListingReader
  call : Option NextCall
  folded : Option (Finset String)

inductive ReplicationAct where
  | insert (name : String) (iter : Iteration)
  | remove (name : String) (iter : Iteration)
  | next
  | poll (act : NextAct)
  /-- The caller drops the call. -/
  | cancel

namespace Replication

def init : Replication := ⟨.new, .new, none, some ∅⟩

def settle (s : Replication) : NextOutcome × ListingReader → Replication
  | (.continues call, reader) => { s with reader := reader, call := some call }
  | (.returned (.ok (some delta)), reader) =>
      { s with
        reader := reader
        call := none
        folded := s.folded.bind (ListingDelta.apply · delta) }
  | (.returned _, reader) => { s with reader := reader, call := none }

def step (s : Replication) : ReplicationAct → Option Replication
  | .insert name iter => (s.listing.insert name iter).map fun r => { s with listing := r.2 }
  | .remove name iter => (s.listing.remove name iter).map fun r => { s with listing := r.2 }
  | .next =>
      match s.call with
      | none => some (s.settle s.reader.start)
      | some _ => none
  | .poll act => s.call.bind fun call =>
      (s.reader.poll s.listing.track call act).map s.settle
  | .cancel => s.call.map fun _ => { s with call := none }

/-- The names that are inserted are not empty and have no newline. -/
def Named (_ : Replication) : ReplicationAct → Prop
  | .insert name _ => name ≠ "" ∧ '\n' ∉ name.toList
  | _ => True

instance (s : Replication) (act : ReplicationAct) : Decidable (s.Named act) :=
  match act with
  | .insert name _ => inferInstanceAs (Decidable (name ≠ "" ∧ '\n' ∉ name.toList))
  | .remove _ _ | .next | .poll _ | .cancel => inferInstanceAs (Decidable True)

/-- The reader has consumed the newest subgroup. -/
def CaughtUp (s : Replication) : Prop :=
  ∃ newest r, s.listing.track.subgroups.state.value.latest = some newest ∧
    s.reader.subgroup = some r ∧ r.cell = newest.cell ∧
    s.listing.track.subgroups.cells[r.cell]?.map (·.state.value.objects.length) = some r.index ∧
    s.reader.deltas = []

/-- Every delta has fitted, and the set of a reader that has caught up is the
writer's. -/
def Replicates (s : Replication) : Prop :=
  ∃ names, s.folded = some names ∧ (s.CaughtUp → names = s.listing.writer.current)

/-- The log follows the writer, and the set with the queue of the reader
follows the log. -/
structure Invariant (s : Replication) : Prop where
  live : s.listing.Live
  replays : Replays s.listing.log s.listing.writer.current
  placed : s.reader.Placed s.listing.log
  idle : s.call ≠ none → s.reader.deltas = []
  folded : ∃ names set, s.folded = some names ∧
    ListingDelta.applyAll names s.reader.deltas = some set ∧
    s.reader.view s.listing.log = some set

variable {s s' : Replication} {act : ReplicationAct}

theorem invariant_init : Invariant init := by
  constructor
  · exact Listing.live_new
  · exact replays_nil
  · exact ListingReader.placed_new
  · intro hcall
    exact absurd rfl hcall
  · exact ⟨∅, ∅, rfl, rfl, rfl⟩

/-- A call of the writer that has published its change. -/
theorem Invariant.written (h : Invariant s) {l : Listing} (hlive : l.Live)
    (hgrows : ListingReader.Grows s.listing.log l.log)
    (hreplays : Replays l.log l.writer.current) : Invariant { s with listing := l } := by
  refine ⟨hlive, hreplays, h.placed.grow hgrows, h.idle, ?_⟩
  rw [h.placed.view_grow hgrows]
  exact h.folded

theorem Invariant.insert (h : Invariant s) {name : String} {iter : Iteration} (hne : name ≠ "")
    (hnewline : '\n' ∉ name.toList) (hstep : s.step (.insert name iter) = some s') :
    Invariant s' := by
  obtain ⟨⟨result, l⟩, hinsert, rfl⟩ := Option.map_eq_some_iff.mp hstep
  by_cases hname : name ∈ s.listing.writer.current
  · rw [Listing.insert, if_pos hname] at hinsert
    cases hinsert
    exact h
  · obtain ⟨l', hcall, hlive, hcurrent, hlog⟩ := h.live.insert hname iter
    rw [hcall] at hinsert
    cases hinsert
    apply h.written hlive
    · rw [hlog]
      exact ListingReader.grows_nextLog _ _ _ _
    · rw [hlog, hcurrent]
      exact h.replays.insert hname hne hnewline iter

theorem Invariant.remove (h : Invariant s) {name : String} {iter : Iteration}
    (hstep : s.step (.remove name iter) = some s') : Invariant s' := by
  obtain ⟨⟨result, l⟩, hremove, rfl⟩ := Option.map_eq_some_iff.mp hstep
  by_cases hname : name ∈ s.listing.writer.current
  · obtain ⟨l', hcall, hlive, hcurrent, hlog⟩ := h.live.remove hname iter
    rw [hcall] at hremove
    cases hremove
    apply h.written hlive
    · rw [hlog]
      exact ListingReader.grows_nextLog _ _ _ _
    · rw [hlog, hcurrent]
      exact h.replays.remove hname iter
  · rw [Listing.remove, if_neg hname] at hremove
    cases hremove
    exact h

/-- The first delta of a queue that fits. -/
theorem pop_cases {reader : ListingReader} {names set : Finset String}
    (h : ListingDelta.applyAll names reader.deltas = some set) :
    (reader.deltas = [] ∧ names = set ∧ reader.pop = (none, reader)) ∨
    ∃ delta rest names', reader.pop = (some delta, { reader with deltas := rest }) ∧
      delta.apply names = some names' ∧ ListingDelta.applyAll names' rest = some set := by
  obtain ⟨subgroups, subgroup, current, deltas⟩ := reader
  cases deltas with
  | nil =>
      cases h
      exact .inl ⟨rfl, rfl, rfl⟩
  | cons delta rest =>
      rw [ListingDelta.applyAll_cons] at h
      obtain ⟨names', hfirst, hrest⟩ := Option.bind_eq_some_iff.mp h
      exact .inr ⟨delta, rest, names', rfl, hfirst, hrest⟩

theorem bind_apply {folded : Option (Finset String)} {names names' : Finset String}
    {delta : ListingDelta} (hfolded : folded = some names)
    (hdelta : delta.apply names = some names') :
    folded.bind (ListingDelta.apply · delta) = some names' := by
  rw [hfolded]
  exact hdelta

theorem Invariant.next (h : Invariant s) (hstep : s.step .next = some s') : Invariant s' := by
  simp only [step] at hstep
  split at hstep
  · next hcall =>
      cases hstep
      obtain ⟨names, set, hfolded, hqueue, hview⟩ := h.folded
      rcases pop_cases hqueue with ⟨hempty, -, hpop⟩ | ⟨delta, rest, names', hpop, hfirst, hrest⟩
      · rw [ListingReader.start, hpop]
        exact ⟨h.live, h.replays, h.placed, fun _ => hempty, names, set, hfolded, hqueue, hview⟩
      · rw [ListingReader.start, hpop]
        exact ⟨h.live, h.replays, ⟨h.placed.opened, h.placed.place⟩, fun hcall => absurd rfl hcall,
          names', set, bind_apply hfolded hfirst, hrest, hview⟩
  · cases hstep

/-- During a call the set is what the reader has passed on. -/
theorem Invariant.folded_eq_view (h : Invariant s) (hcall : s.call ≠ none) :
    ∃ names, s.folded = some names ∧ s.reader.view s.listing.log = some names := by
  obtain ⟨names, set, hfolded, hqueue, hview⟩ := h.folded
  rw [h.idle hcall] at hqueue
  cases hqueue
  exact ⟨names, hfolded, hview⟩

/-- The flags of a call say nothing about the set. -/
theorem Invariant.continues (h : Invariant s) (hcall : s.call ≠ none) (call : Option NextCall) :
    Invariant { s with call := call } :=
  ⟨h.live, h.replays, h.placed, fun _ => h.idle hcall, h.folded⟩

theorem Invariant.mode (h : Invariant s) (hcall : s.call ≠ none) (hlog : s.listing.log ≠ [])
    (hnone : s.reader.subgroup = none) (call : NextCall) :
    Invariant { s with reader := { s.reader with subgroups := some 0 }, call := some call } := by
  refine ⟨h.live, h.replays, ⟨fun _ => hlog, ?_⟩, fun _ => h.idle hcall, h.folded⟩
  intro r hr
  rw [hnone] at hr
  cases hr

theorem Invariant.subgroup (h : Invariant s) (hcall : s.call ≠ none) {r : SubgroupReader}
    (hindex : r.index = 0) (hnewest : r.cell + 1 = s.listing.log.length)
    (hleaves : ∀ old, s.reader.subgroup = some old → old.cell + 1 ≠ s.listing.log.length)
    (call : NextCall) :
    Invariant { s with
      reader := { s.reader with
        subgroups := some s.listing.log.length
        subgroup := some r }
      call := some call } := by
  obtain ⟨names, hfolded, hview⟩ := h.folded_eq_view hcall
  have hcurrent := h.placed.view_eq_current h.replays hleaves
  have hempty := h.idle hcall
  refine ⟨h.live, h.replays, ⟨?_, ?_⟩, fun _ => hempty, names, names, hfolded, ?_, ?_⟩
  · intro _ hnil
    rw [hnil] at hnewest
    cases hnewest
  · intro other hother
    cases hother
    obtain ⟨subgroup, hsubgroup⟩ : ∃ subgroup, s.listing.log[r.cell]? = some subgroup :=
      ⟨_, List.getElem?_eq_getElem (by omega)⟩
    refine ⟨subgroup, hsubgroup, by omega, congrArg some hnewest.symm, ?_⟩
    intro hpos
    omega
  · rw [hempty]
    rfl
  · rw [ListingReader.view]
    simp only [hindex, if_true]
    exact hcurrent.symm.trans hview

/-- The reader goes to the newest subgroup. -/
theorem Invariant.takeSubgroup (h : Invariant s) (hcall : s.call ≠ none) {epoch : Nat}
    (hsubgroups : s.reader.subgroups = some epoch) {call : NextCall}
    {ended outcome : NextOutcome} {reader : ListingReader}
    (htake : s.reader.takeSubgroup s.listing.track epoch call ended = some (outcome, reader)) :
    Invariant (s.settle (outcome, reader)) := by
  have hlog : s.listing.log ≠ [] := by
    apply h.placed.opened
    rw [hsubgroups]
    exact Option.some_ne_none epoch
  obtain ⟨hne, r, hindex, hnewest, rfl, rfl⟩ :=
    ListingReader.takeSubgroup_cases h.live hlog htake
  apply h.subgroup hcall hindex hnewest
  intro old hold
  obtain ⟨subgroup, -, -, hepoch, -⟩ := h.placed.place old hold
  rw [hsubgroups] at hepoch
  cases hepoch
  exact hne

/-- The reader after its place has moved on by one. -/
def advanced (s : Replication) (r : SubgroupReader) : ListingReader :=
  { s.reader with subgroup := some { r with index := r.index + 1 } }

theorem view_advanced {s : Replication} {r : SubgroupReader} {subgroup : List Bytes}
    {payload : Bytes} (hsubgroup : s.listing.log[r.cell]? = some subgroup)
    (hpayload : subgroup[r.index]? = some payload) (reader : ListingReader)
    (hreader : reader.subgroup = some { r with index := r.index + 1 }) :
    reader.view s.listing.log = replay (subgroup.take r.index ++ [payload]) := by
  rw [ListingReader.view, hreader]
  simp only [Nat.succ_ne_zero, if_false, List.getD_eq_getElem?_getD, hsubgroup, Option.getD_some]
  rw [List.take_add_one, hpayload]
  rfl

/-- The reader stays placed when it moves on. -/
theorem Invariant.placed_advanced (h : Invariant s) {r : SubgroupReader}
    (hr : s.reader.subgroup = some r) {subgroup : List Bytes} {payload : Bytes}
    (hsubgroup : s.listing.log[r.cell]? = some subgroup)
    (hpayload : subgroup[r.index]? = some payload) {reader : ListingReader}
    (hreader : reader.subgroup = some { r with index := r.index + 1 })
    (hsubgroups : reader.subgroups = s.reader.subgroups)
    (hcurrent : subgroup.head?.map parseSnapshot = some reader.current) :
    reader.Placed s.listing.log := by
  obtain ⟨other, hother, -, hepoch, -⟩ := h.placed.place r hr
  constructor
  · rw [hsubgroups]
    exact h.placed.opened
  · intro moved hmoved
    rw [hreader] at hmoved
    cases hmoved
    have hlt := (List.getElem?_eq_some_iff.mp hpayload).1
    exact ⟨subgroup, hsubgroup, hlt, hsubgroups.trans hepoch, fun _ => hcurrent⟩

/-- The reader takes a snapshot. -/
theorem Invariant.snapshot (h : Invariant s) (hcall : s.call ≠ none) {r : SubgroupReader}
    (hr : s.reader.subgroup = some r) {subgroup : List Bytes} {payload : Bytes}
    (hsubgroup : s.listing.log[r.cell]? = some subgroup)
    (hpayload : subgroup[r.index]? = some payload) (hzero : r.index = 0) (call : NextCall)
    (iter : Iteration) :
    Invariant (s.settle ((s.advanced r).takePayload (r.index + 1) payload call iter)) := by
  have hhead : subgroup.head? = some payload := by
    rw [List.head?_eq_getElem?, ← hzero]
    exact hpayload
  have hne : payload ≠ [] := by
    rintro rfl
    exact h.replays.snapshots subgroup (List.mem_of_getElem? hsubgroup) hhead
  obtain ⟨names, hfolded, hview⟩ := h.folded_eq_view hcall
  have hnames : names = s.reader.current := by
    rw [ListingReader.view, hr] at hview
    simpa [hzero] using hview.symm
  let taken := (s.advanced r).takeSnapshot payload iter
  have hqueue : ListingDelta.applyAll names taken.deltas = some (parseSnapshot payload) := by
    rw [hnames]
    simp only [taken, ListingReader.takeSnapshot, advanced, h.idle hcall, List.nil_append]
    exact ListingDelta.applyAll_diff iter _ _
  have hplaced (deltas : List ListingDelta) :
      { taken with deltas := deltas }.Placed s.listing.log :=
    h.placed_advanced hr hsubgroup hpayload rfl rfl (by rw [hhead]; rfl)
  have hviewed (deltas : List ListingDelta) :
      { taken with deltas := deltas }.view s.listing.log = some (parseSnapshot payload) := by
    rw [view_advanced hsubgroup hpayload { taken with deltas := deltas } rfl, hzero]
    rfl
  rw [ListingReader.takePayload, if_neg hne, if_pos (by omega)]
  rcases pop_cases hqueue with ⟨hempty, -, hpop⟩ | ⟨delta, rest, names', hpop, hfirst, hrest⟩
  · rw [hpop]
    exact ⟨h.live, h.replays, hplaced taken.deltas, fun _ => hempty, names, _, hfolded, hqueue,
      hviewed taken.deltas⟩
  · rw [hpop]
    exact ⟨h.live, h.replays, hplaced rest, fun hcall => absurd rfl hcall, names', _,
      bind_apply hfolded hfirst, hrest, hviewed rest⟩

/-- A reader past the snapshot is in the newest subgroup, where the next delta
fits. -/
theorem Invariant.applyPayload (h : Invariant s) {r : SubgroupReader} {subgroup : List Bytes}
    {payload : Bytes} (hsubgroup : s.listing.log[r.cell]? = some subgroup)
    (hpayload : subgroup[r.index]? = some payload) (hpos : 0 < r.index) {names : Finset String}
    (hnames : replay (subgroup.take r.index) = some names) :
    ∃ names', applyPayload names payload = some names' := by
  have hlong := (List.getElem?_eq_some_iff.mp hpayload).1
  have hnewest : r.cell + 1 = s.listing.log.length := by
    by_contra hne
    have hlength := h.replays.length_eq_one hsubgroup hne
    omega
  have hlast : s.listing.log.getLast? = some subgroup := by
    rw [List.getLast?_eq_getElem?, ← hsubgroup]
    congr 1
    omega
  obtain ⟨names', hnames'⟩ :=
    replay_take_isSome (h.replays.newest subgroup hlast).1 (Nat.succ_pos r.index)
  have hne : subgroup.take r.index ≠ [] := by
    rw [← List.length_pos_iff, List.length_take]
    omega
  rw [List.take_add_one, hpayload, Option.toList_some, replay_concat hne, hnames] at hnames'
  exact ⟨names', hnames'⟩

/-- The reader passes a delta on. -/
theorem Invariant.delta (h : Invariant s) (hcall : s.call ≠ none) {r : SubgroupReader}
    (hr : s.reader.subgroup = some r) {subgroup : List Bytes} {payload : Bytes}
    (hsubgroup : s.listing.log[r.cell]? = some subgroup)
    (hpayload : subgroup[r.index]? = some payload) (hpos : 0 < r.index) (call : NextCall)
    (iter : Iteration) :
    Invariant (s.settle ((s.advanced r).takePayload (r.index + 1) payload call iter)) := by
  obtain ⟨names, hfolded, hview⟩ := h.folded_eq_view hcall
  have hreplay : replay (subgroup.take r.index) = some names := by
    rw [ListingReader.view, hr] at hview
    simpa [hpos.ne', List.getD_eq_getElem?_getD, hsubgroup] using hview
  obtain ⟨names', hnames'⟩ := h.applyPayload hsubgroup hpayload hpos hreplay
  have hne : subgroup.take r.index ≠ [] := by
    rintro hnil
    rw [hnil] at hreplay
    cases hreplay
  obtain ⟨other, hother, -, -, hsnapshot⟩ := h.placed.place r hr
  rw [hsubgroup] at hother
  cases hother
  rw [Dir.applyPayload] at hnames'
  split at hnames'
  · next delta hparse =>
      have hpayloadNe : payload ≠ [] := by
        rintro rfl
        cases hparse
      have hqueue : ListingDelta.applyAll names' (s.advanced r).deltas = some names' := by
        rw [show (s.advanced r).deltas = [] from h.idle hcall]
        rfl
      have hviewed : (s.advanced r).view s.listing.log = some names' := by
        rw [view_advanced hsubgroup hpayload (s.advanced r) rfl, replay_concat hne, hreplay,
          Option.bind_some, Dir.applyPayload, hparse]
        exact hnames'
      rw [ListingReader.takePayload, if_neg hpayloadNe, if_neg (by omega), hparse]
      exact ⟨h.live, h.replays, h.placed_advanced hr hsubgroup hpayload rfl rfl (hsnapshot hpos),
        fun hcall => absurd rfl hcall, names', names', bind_apply hfolded hnames', hqueue, hviewed⟩
  · cases hnames'

theorem Invariant.poll (h : Invariant s) {act : NextAct}
    (hstep : s.step (.poll act) = some s') : Invariant s' := by
  obtain ⟨call, hcall, hstep⟩ := Option.bind_eq_some_iff.mp hstep
  obtain ⟨⟨outcome, reader⟩, hpoll, rfl⟩ := Option.map_eq_some_iff.mp hstep
  have hsome : s.call ≠ none := by
    rw [hcall]
    exact Option.some_ne_none call
  cases act with
  | mode =>
      simp only [ListingReader.poll] at hpoll
      split at hpoll
      · next hsubgroups =>
          obtain ⟨rfl, rfl, hlog⟩ := ListingReader.takeMode_cases h.live hpoll
          apply h.mode hsome hlog
          by_contra hne
          obtain ⟨r, hr⟩ := Option.ne_none_iff_exists'.mp hne
          obtain ⟨subgroup, -, -, hepoch, -⟩ := h.placed.place r hr
          rw [hsubgroups] at hepoch
          cases hepoch
      · cases hpoll
  | first =>
      simp only [ListingReader.poll] at hpoll
      split at hpoll
      · next epoch hsubgroups _ => exact h.takeSubgroup hsome hsubgroups hpoll
      · cases hpoll
  | subgroups =>
      simp only [ListingReader.poll] at hpoll
      split at hpoll
      · next epoch old hsubgroups _ _ => exact h.takeSubgroup hsome hsubgroups hpoll
      · cases hpoll
  | object iter =>
      simp only [ListingReader.poll] at hpoll
      split at hpoll
      · next r hr hdone =>
          obtain ⟨subgroup, hsubgroup, -, hepoch, -⟩ := h.placed.place r hr
          have hlog := h.placed.opened (by rw [hepoch]; exact Option.some_ne_none _)
          rcases ListingReader.takeObject_cases h.live hlog hsubgroup hpoll with
            ⟨payload, hpayload, htake⟩ | ⟨rfl, rfl⟩
          · rw [← htake]
            rcases Nat.eq_zero_or_pos r.index with hzero | hpos
            · exact h.snapshot hsome hr hsubgroup hpayload hzero call iter
            · exact h.delta hsome hr hsubgroup hpayload hpos call iter
          · exact h.continues hsome _
      · cases hpoll
  | finish =>
      simp only [ListingReader.poll] at hpoll
      split at hpoll
      · cases hpoll
        exact h.continues hsome none
      · cases hpoll

theorem invariant_step (h : Invariant s) (hnamed : s.Named act) (hstep : s.step act = some s') :
    Invariant s' := by
  cases act with
  | insert name iter => exact h.insert hnamed.1 hnamed.2 hstep
  | remove name iter => exact h.remove hstep
  | next => exact h.next hstep
  | poll act => exact h.poll hstep
  | cancel =>
      obtain ⟨call, hcall, rfl⟩ := Option.map_eq_some_iff.mp hstep
      exact h.continues (by rw [hcall]; exact Option.some_ne_none call) none

theorem invariant_of_reachable (hs : Reachable step Named init s) : Invariant s :=
  hs.invariant invariant_init invariant_step

/-- A reader that has caught up has the writer's names, and the empty one. -/
theorem Invariant.caughtUp (h : Invariant s) (hcaughtUp : s.CaughtUp) :
    s.folded = some (Insert.insert "" s.listing.writer.current) := by
  obtain ⟨latest, r, hlatest, hr, hcell, hindex, hempty⟩ := hcaughtUp
  obtain ⟨names, set, hfolded, hqueue, hview⟩ := h.folded
  rw [hempty] at hqueue
  cases hqueue
  obtain ⟨cell, hget, hlength⟩ := Option.map_eq_some_iff.mp hindex
  have hsubgroup : s.listing.log[r.cell]? = some (Listing.payloads cell) := by
    rw [Listing.log, List.getElem?_map, hget]
    rfl
  have hlog : s.listing.log ≠ [] := List.ne_nil_of_mem (List.mem_of_getElem? hsubgroup)
  obtain ⟨w, ws, earlier, newest, hpublished⟩ := h.live.published hlog
  rw [hpublished.state] at hlatest
  cases hlatest
  have hlast : s.listing.log.getLast? = some (Listing.payloads cell) := by
    rw [List.getLast?_eq_getElem?, ← hsubgroup, Listing.length_log, hpublished.length, hcell,
      hpublished.place]
    rfl
  obtain ⟨hreplay, -⟩ := h.replays.newest _ hlast
  have hall : (Listing.payloads cell).length = r.index := (List.length_map _).trans hlength
  have hpos : r.index ≠ 0 := by
    intro hzero
    rw [List.length_eq_zero_iff.mp (hall.trans hzero)] at hreplay
    cases hreplay
  rw [ListingReader.view, hr] at hview
  simp only [if_neg hpos, List.getD_eq_getElem?_getD, hsubgroup, Option.getD_some] at hview
  rw [← hall, List.take_length, hreplay] at hview
  rw [hfolded, hview]

theorem Invariant.empty_notMem (h : Invariant s) : "" ∉ s.listing.writer.current :=
  fun hmem => (h.replays.names "" hmem).1 rfl

/-- Whatever the writer and the reader do and in which order, no delta adds a
name that is present or removes one that is absent. But once the reader has
caught up, the set is the writer's with the empty name besides, so that it is
never the writer's. -/
theorem replication_iff (hs : Reachable step Named init s) :
    (s.Replicates ↔ ¬ s.CaughtUp) ∧ s.folded ≠ none ∧
      (s.CaughtUp → s.folded = some (Insert.insert "" s.listing.writer.current)) := by
  have h := invariant_of_reachable hs
  obtain ⟨names, set, hfolded, -⟩ := h.folded
  refine ⟨⟨?_, ?_⟩, ?_, h.caughtUp⟩
  · rintro ⟨names', hnames', hequal⟩ hcaughtUp
    have hset := h.caughtUp hcaughtUp
    rw [hnames', hequal hcaughtUp] at hset
    apply h.empty_notMem
    rw [Option.some.inj hset]
    exact Finset.mem_insert_self _ _
  · intro hbehind
    exact ⟨names, hfolded, fun hcaughtUp => absurd hcaughtUp hbehind⟩
  · rw [hfolded]
    exact Option.some_ne_none names

/-- A name is inserted, and the reader is called until it has caught up. -/
def oneName : List ReplicationAct :=
  [.insert "a" .sorted, .next, .poll .mode, .poll .first, .poll (.object .sorted), .next]

def afterOneName : Replication :=
  (run step (fun s act => decide (s.Named act)) init oneName).get rfl

theorem reachable_afterOneName : Reachable step Named init afterOneName :=
  reachable_of_run (fun s act => decide (s.Named act)) (fun _ _ h => of_decide_eq_true h)
    (Option.some_get rfl).symm

theorem caughtUp_afterOneName : afterOneName.CaughtUp :=
  ⟨⟨0, ⟨0, 0, 127⟩, 0⟩, ⟨0, ⟨0, 0, 127⟩, 1⟩, rfl, rfl, rfl, rfl, rfl⟩

theorem replication_iff_oneName :
    ¬ afterOneName.Replicates ∧ afterOneName.folded = some {"", "a"} := by
  obtain ⟨hiff, -, hset⟩ := replication_iff reachable_afterOneName
  refine ⟨fun h => hiff.mp h caughtUp_afterOneName, (hset caughtUp_afterOneName).trans ?_⟩
  rfl

theorem oneName_not_replicated :
    ∃ s, Reachable step Named init s ∧ s.CaughtUp ∧ s.folded = some {"", "a"} ∧
      s.listing.writer.current = {"a"} ∧ ¬ s.Replicates := by
  have hfolded : afterOneName.folded = some {"", "a"} := by decide
  refine ⟨afterOneName, reachable_afterOneName, caughtUp_afterOneName, hfolded, rfl, ?_⟩
  rintro ⟨names, hnames, hequal⟩
  rw [hfolded, hequal caughtUp_afterOneName] at hnames
  revert hnames
  decide

end Replication

end MoqTransport.Dir
