import MoqTransport.Lib.Fanout
import MoqTransport.Lib.Latest
import MoqTransport.Serve.Subgroup

/-!
A track in subgroup mode with its writer and all its readers. The state they
share is a slot for the newest subgroup: a reader compares epochs, so it skips
what it has missed but never goes back (`SubgroupsReader.moves_forward`). The
writer keeps the newest ids outside of the state; they agree with it between
any two calls, so `append` always starts a group that becomes the newest
(`SubgroupsWriter.append_newest`).
-/

namespace MoqTransport.Serve

open Machine

/-- What a reader has received since it was cloned is kept apart from what
the readers it was cloned from had received by then. -/
structure SubgroupsReader where
  epoch : Nat
  inherited : List Subgroup
  received : List Subgroup
deriving DecidableEq

namespace SubgroupsReader

def new : SubgroupsReader := ⟨0, [], []⟩

def heard (r : SubgroupsReader) : List Subgroup := r.inherited ++ r.received

def clone (r : SubgroupsReader) : SubgroupsReader := ⟨r.epoch, r.heard, []⟩

/-- `next` with its effect on the reader. -/
def poll (track : Subgroups) (r : SubgroupsReader) :
    Watch.Poll (Except ServeError (Option SubgroupReader)) × SubgroupsReader :=
  (next track r.epoch,
    if r.epoch = track.state.value.epoch then
      r
    else
      { r with
        epoch := track.state.value.epoch
        received := r.received ++ (track.state.value.latest.map (·.info)).toList })

end SubgroupsReader

inductive SubgroupsAct where
  | create (info : Subgroup)
  | append (priority : UInt8)
  | close (err : ServeError)
  | drop
deriving DecidableEq

/-- The writer of a track, until it is closed and dropped. -/
abbrev SubgroupsHandle := Fanout.Writer ServeError SubgroupsWriter

namespace Subgroups

/-- The writer and the track after a call that may have failed. -/
def created? (w : SubgroupsWriter) (track : Subgroups) :
    Except ServeError (SubgroupWriter × SubgroupsWriter × Subgroups) → SubgroupsHandle × Subgroups
  | .ok (_, w, track) => (.active w, track)
  | .error _ => (.active w, track)

def drop (track : Subgroups) : Subgroups := { track with state := track.state.drop }

def act (a : SubgroupsAct) (handle : SubgroupsHandle) (track : Subgroups) :
    Option (SubgroupsHandle × Subgroups) :=
  match a, handle with
  | .create info, .active w => some (created? w track (w.create track info))
  | .append priority, .active w => some (created? w track (w.append track priority))
  | .close err, .active _ => some (Fanout.Writer.close err track (SubgroupsWriter.close track err))
  | .drop, .active _ => some (.gone none, track.drop)
  | .drop, .leaving closed => some (.gone closed, track.drop)
  | _, _ => none

def ops : Fanout.Ops Subgroups SubgroupsHandle SubgroupsReader SubgroupsAct where
  act := act
  look track r := (r.poll track).2
  fork := SubgroupsReader.clone
  drop := drop

/-- The track as `produce` returns it. -/
def start : Fanout.State Subgroups SubgroupsHandle SubgroupsReader :=
  ⟨.produce, .active .new, [some .new]⟩

/-- The subgroups created so far, also those that never were the latest. -/
def created (track : Subgroups) : List (Nat ×ₗ Nat) := track.cells.map (·.info.key)

/-! The track is a slot for the greatest subgroup, and its readers follow it. -/

def slot (track : Subgroups) : Latest.Slot (Nat ×ₗ Nat) :=
  ⟨track.state.value.latest.map (·.info.key), track.state.value.epoch⟩

theorem slot_install (track : Subgroups) (info : Subgroup) :
    (track.install info).2.slot = track.slot.publish info.key := rfl

theorem slot_orphan (track : Subgroups) (info : Subgroup) :
    (track.orphan info).2.slot = track.slot := rfl

@[simp]
theorem created_install (track : Subgroups) (info : Subgroup) :
    (track.install info).2.created = track.created ++ [info.key] := by
  simp [created, install, Subgroup.produce]

@[simp]
theorem created_orphan (track : Subgroups) (info : Subgroup) :
    (track.orphan info).2.created = track.created ++ [info.key] := by
  simp [created, orphan, Subgroup.produce]

theorem mem_slot {track : Subgroups} {latest : SubgroupReader}
    (hlatest : track.state.value.latest = some latest) :
    latest.info.key ∈ track.slot.latest := by
  rw [slot, hlatest]
  exact rfl

end Subgroups

def SubgroupsReader.follower (r : SubgroupsReader) : Latest.Follower (Nat ×ₗ Nat) :=
  ⟨r.epoch, r.heard.map Subgroup.key⟩

theorem SubgroupsReader.follower_poll (track : Subgroups) (r : SubgroupsReader) :
    (r.poll track).2.follower = r.follower.read track.slot := by
  unfold Latest.Follower.read
  change _ = if r.epoch = track.state.value.epoch then _ else _
  by_cases hcurrent : r.epoch = track.state.value.epoch
  · rw [if_pos hcurrent, poll, if_pos hcurrent]
  · rw [if_neg hcurrent, poll, if_neg hcurrent]
    cases hlatest : track.state.value.latest with
    | none => simp [follower, Subgroups.slot, hlatest, heard]
    | some latest => simp [follower, Subgroups.slot, hlatest, heard]

/-- The ids the writer keeps are those of the latest subgroup. -/
structure SubgroupsWriter.UpToDate (w : SubgroupsWriter) (track : Subgroups) : Prop where
  empty : track.state.value.latest = none → w = .new
  latest : ∀ latest ∈ track.state.value.latest, w.nextGroupId = latest.info.groupId + 1 ∧
    w.lastGroupId = latest.info.groupId ∧ w.next = latest.info.subgroupId + 1

/-- What holds of a track while it has a reader. -/
structure Subgroups.Sound (track : Subgroups) (handle : SubgroupsHandle) : Prop where
  holds : track.slot.Holds track.created
  epoch : track.state.value.epoch ≤ track.cells.length
  live : ∀ w, handle = .active w → track.state.dropped = false
  writer : ∀ w, handle = .active w → w.UpToDate track

namespace Subgroups

theorem sound_produce : Subgroups.produce.Sound (.active .new) where
  holds := by
    constructor
    · intro k hk
      cases hk
    · intro _
      rfl
    · exact ⟨fun _ => rfl, fun _ => rfl⟩
  epoch := Nat.le_refl _
  live := fun _ _ => rfl
  writer := by
    rintro _ ⟨⟩
    constructor
    · intro _
      rfl
    · intro latest hlatest
      cases hlatest

theorem lt_of_mem_slot {track : Subgroups} {info : Subgroup}
    (hnew : ∀ latest ∈ track.state.value.latest, latest.info.key < info.key) :
    ∀ k ∈ track.slot.latest, k < info.key := by
  intro k hk
  obtain ⟨latest, hlatest, rfl⟩ := Option.map_eq_some_iff.mp hk
  exact hnew latest hlatest

theorem Sound.create {track : Subgroups} {w : SubgroupsWriter} (hs : track.Sound (.active w))
    (info : Subgroup) :
    (created? w track (w.create track info)).2.Sound
      (created? w track (w.create track info)).1 := by
  have hcreates := w.creates track info
  generalize w.create track info = result at hcreates ⊢
  cases hcreates with
  | cancel => exact hs
  | same => exact hs
  | newest hlive hnew =>
      constructor
      · rw [created?, slot_install, created_install]
        exact hs.holds.publish (lt_of_mem_slot hnew)
      · simpa [created?, install, Watch.State.update] using hs.epoch
      · rintro _ ⟨⟩
        exact hlive
      · rintro _ ⟨⟩
        constructor
        · intro hnone
          cases hnone
        · rintro _ ⟨⟩
          exact ⟨rfl, rfl, rfl⟩
  | older hlive hlatest holder =>
      constructor
      · rw [created?, slot_orphan, created_orphan]
        exact hs.holds.older (mem_slot hlatest) holder.le
      · exact hs.epoch.trans (by simp [created?, orphan])
      · rintro _ ⟨⟩
        exact hlive
      · rintro _ ⟨⟩
        obtain ⟨hempty, hupToDate⟩ := hs.writer w rfl
        exact ⟨hempty, hupToDate⟩

/-- Closing and dropping change neither the slot nor the subgroups. -/
theorem Sound.leave {track track' : Subgroups} {handle handle' : SubgroupsHandle}
    (hs : track.Sound handle) (hslot : track'.slot = track.slot)
    (hcells : track'.cells = track.cells) (hleft : ∀ w, handle' ≠ .active w) :
    track'.Sound handle' where
  holds := by
    rw [hslot, created, hcells]
    exact hs.holds
  epoch := by
    have hepoch : track'.state.value.epoch = track.state.value.epoch :=
      congrArg Latest.Slot.version hslot
    rw [hepoch, hcells]
    exact hs.epoch
  live := fun w hw => absurd hw (hleft w)
  writer := fun w hw => absurd hw (hleft w)

/-- What a step of the writer comes to. -/
inductive Acts (handle : SubgroupsHandle) (track : Subgroups) :
    SubgroupsHandle → Subgroups → Prop where
  | create {w : SubgroupsWriter} (hactive : handle = .active w) (info : Subgroup) :
      Acts handle track (created? w track (w.create track info)).1
        (created? w track (w.create track info)).2
  | leave {handle' : SubgroupsHandle} {track' : Subgroups} (hslot : track'.slot = track.slot)
      (hcells : track'.cells = track.cells) (hleft : ∀ w, handle' ≠ .active w) :
      Acts handle track handle' track'

theorem acts_of_act {a : SubgroupsAct} {handle handle' : SubgroupsHandle}
    {track track' : Subgroups} (h : act a handle track = some (handle', track')) :
    Acts handle track handle' track' := by
  cases handle with
  | active w =>
      cases a with
      | create info =>
          obtain ⟨rfl, rfl⟩ := Prod.mk.inj (Option.some.inj h)
          exact .create rfl info
      | append priority =>
          obtain ⟨rfl, rfl⟩ := Prod.mk.inj (Option.some.inj h)
          exact .create rfl _
      | close err =>
          obtain ⟨rfl, rfl⟩ := Prod.mk.inj (Option.some.inj h)
          cases hclose : SubgroupsWriter.close track err with
          | error refused => exact .leave rfl rfl (by simp)
          | ok closed =>
              obtain ⟨-, -, rfl⟩ := Watch.eq_of_closeWith hclose
              exact .leave rfl rfl (by simp)
      | drop =>
          cases h
          exact .leave rfl rfl (by simp)
  | leaving closed =>
      cases a with
      | drop =>
          cases h
          exact .leave rfl rfl (by simp)
      | _ => cases h
  | gone closed => cases a <;> cases h

theorem Acts.sound {handle handle' : SubgroupsHandle} {track track' : Subgroups}
    (h : Acts handle track handle' track') (hs : track.Sound handle) : track'.Sound handle' := by
  cases h with
  | create hactive info =>
      subst hactive
      exact hs.create info
  | leave hslot hcells hleft => exact hs.leave hslot hcells hleft

/-- A reader keeps following the slot, whatever the writer does. -/
theorem Acts.follows {handle handle' : SubgroupsHandle} {track track' : Subgroups}
    (h : Acts handle track handle' track') (hs : track.Sound handle)
    {f : Latest.Follower (Nat ×ₗ Nat)} (hf : f.Follows track.slot) : f.Follows track'.slot := by
  cases h with
  | @create w hactive info =>
      have hcreates := w.creates track info
      generalize w.create track info = result at hcreates ⊢
      cases hcreates with
      | cancel => exact hf
      | same => exact hf
      | newest hlive hnew => exact hf.publish hs.holds (lt_of_mem_slot hnew)
      | older => exact hf
  | leave hslot =>
      rw [hslot]
      exact hf

theorem keeps : Fanout.Keeps ops Sound fun track r => r.follower.Follows track.slot where
  act := fun hs h => (acts_of_act h).sound hs
  rel := fun hs h hf => (acts_of_act h).follows hs hf
  look := by
    intro track _ r hs hf
    change (r.poll track).2.follower.Follows track.slot
    rw [r.follower_poll]
    exact hf.read hs.holds
  fork := by
    intro track _ r _ hf
    have hheard : r.clone.follower = r.follower := by
      simp [SubgroupsReader.follower, SubgroupsReader.clone, SubgroupsReader.heard]
    change r.clone.follower.Follows track.slot
    rw [hheard]
    exact hf

/-- In every reachable state a reader follows the slot. -/
theorem follows {st : Fanout.State Subgroups SubgroupsHandle SubgroupsReader}
    (hs : Reachable (Fanout.step ops) (fun _ _ => True) start st) {i : Nat} {r : SubgroupsReader}
    (hr : st.reader i = some r) :
    st.shared.Sound st.writer ∧ r.follower.Follows st.shared.slot := by
  have hfresh : SubgroupsReader.new.follower.Follows produce.slot := .fresh sound_produce.holds
  exact keeps.invariant sound_produce hfresh hs hr

end Subgroups

namespace SubgroupsReader

variable {track : Subgroups} {handle : SubgroupsHandle} {r : SubgroupsReader}

theorem isGreatest_of_next (hs : track.Sound handle) {sub : SubgroupReader}
    (h : next track r.epoch = .ready (.ok (some sub))) :
    IsGreatest {key | key ∈ track.created} sub.info.key := by
  by_cases hcurrent : r.epoch = track.state.value.epoch
  · rw [next_eq_exhausted hcurrent] at h
    exact absurd h Watch.exhausted_ne_some
  · rw [next_eq_latest hcurrent] at h
    exact hs.holds.greatest _ (Subgroups.mem_slot (by simpa using h))

/-- While the reader has not got the greatest subgroup, `next` returns it. -/
theorem exists_next (hs : track.Sound handle) (hf : r.follower.Follows track.slot)
    {key : Nat ×ₗ Nat} (hkey : IsGreatest {key | key ∈ track.created} key)
    (hnew : key ∉ r.heard.map Subgroup.key) :
    ∃ sub, next track r.epoch = .ready (.ok (some sub)) ∧ sub.info.key = key := by
  have hslot := hs.holds.latest_eq hkey
  have hbehind := mt (hf.mem_heard_iff hslot).mpr hnew
  obtain ⟨sub, hlatest, hsub⟩ := Option.map_eq_some_iff.mp hslot
  exact ⟨sub, (next_eq_latest hbehind).trans (by rw [hlatest]), hsub⟩

/-- A reader that sees the end has received the greatest subgroup. -/
theorem count_eq_one_of_end (hs : track.Sound handle) (hf : r.follower.Follows track.slot)
    {key : Nat ×ₗ Nat} (hkey : IsGreatest {key | key ∈ track.created} key)
    (hinherited : key ∉ r.inherited.map Subgroup.key)
    (hend : (∃ err, next track r.epoch = .ready (.error err)) ∨
      next track r.epoch = .ready (.ok none)) :
    (r.received.map Subgroup.key).count key = 1 := by
  have hslot := hs.holds.latest_eq hkey
  have hcurrent : r.epoch = track.state.value.epoch := by
    by_contra hbehind
    obtain ⟨sub, hlatest, -⟩ := Option.map_eq_some_iff.mp hslot
    rw [next_eq_latest hbehind, hlatest] at hend
    simp at hend
  have hnodup : (r.heard.map Subgroup.key).Nodup := hf.nodup_heard
  have hmem : key ∈ r.heard.map Subgroup.key := (hf.mem_heard_iff hslot).mpr hcurrent
  rw [heard, List.map_append] at hnodup hmem
  rcases List.mem_append.mp hmem with hold | hreceived
  · exact absurd hold hinherited
  · exact List.count_eq_one_of_mem hnodup.of_append_right hreceived

theorem create_duplicate_iff_isGreatest {w : SubgroupsWriter} (hs : track.Sound (.active w))
    (info : Subgroup) :
    w.create track info = .error .duplicate ↔
      IsGreatest {key | key ∈ track.created} info.key := by
  rw [w.create_duplicate_iff (hs.live w rfl), ← hs.holds.latest_eq_iff]
  exact Option.map_eq_some_iff.symm

/-- Only forward: every reader of a track, cloned whenever it was, receives
subgroups in increasing order, each the greatest there is. It sees the end
only after the greatest, which it has then received once. -/
theorem moves_forward {st : Fanout.State Subgroups SubgroupsHandle SubgroupsReader}
    (hs : Reachable (Fanout.step Subgroups.ops) (fun _ _ => True) Subgroups.start st) {i : Nat}
    {r : SubgroupsReader} (hr : st.reader i = some r) :
    r.heard.Pairwise (fun a b => a.key < b.key) ∧
      (∀ sub, next st.shared r.epoch = .ready (.ok (some sub)) →
        IsGreatest {key | key ∈ st.shared.created} sub.info.key) ∧
      (∀ key, IsGreatest {key | key ∈ st.shared.created} key → key ∉ r.heard.map Subgroup.key →
        ∃ sub, next st.shared r.epoch = .ready (.ok (some sub)) ∧ sub.info.key = key) ∧
      (∀ key, IsGreatest {key | key ∈ st.shared.created} key →
        key ∉ r.inherited.map Subgroup.key →
        (∃ err, next st.shared r.epoch = .ready (.error err)) ∨
          next st.shared r.epoch = .ready (.ok none) →
        (r.received.map Subgroup.key).count key = 1) ∧
      ∀ w info, st.writer = .active w →
        (w.create st.shared info = .error .duplicate ↔
          IsGreatest {key | key ∈ st.shared.created} info.key) := by
  obtain ⟨hsound, hfollows⟩ := Subgroups.follows hs hr
  refine ⟨List.pairwise_map.mp hfollows.increasing, ?_, ?_, ?_, ?_⟩
  · intro sub hsub
    exact isGreatest_of_next hsound hsub
  · intro key hkey hnew
    exact exists_next hsound hfollows hkey hnew
  · intro key hkey hinherited hend
    exact count_eq_one_of_end hsound hfollows hkey hinherited hend
  · intro w info hactive
    rw [hactive] at hsound
    exact create_duplicate_iff_isGreatest hsound info

/-- A reader is cloned between two subgroups, and an old one comes late. -/
theorem moves_forward_clone :
    ∃ st r sub, Reachable (Fanout.step Subgroups.ops) (fun _ _ => True) Subgroups.start st ∧
      st.reader 1 = some r ∧ r.heard.Pairwise (fun a b => a.key < b.key) ∧
      next st.shared r.epoch = .ready (.ok (some sub)) ∧
      IsGreatest {key | key ∈ st.shared.created} sub.info.key := by
  have hrun : ∃ st r sub, run (Fanout.step Subgroups.ops) (fun _ _ => true) Subgroups.start
      [.write (.create ⟨1, 0, 0⟩), .read 0, .clone 0, .write (.create ⟨1, 1, 0⟩),
        .write (.create ⟨0, 5, 0⟩)] = some st ∧
      st.reader 1 = some r ∧ next st.shared r.epoch = .ready (.ok (some sub)) :=
    ⟨_, _, _, rfl, rfl, rfl⟩
  obtain ⟨st, r, sub, hrun, hr, hnext⟩ := hrun
  have hs : Reachable (Fanout.step Subgroups.ops) (fun _ _ => True) Subgroups.start st :=
    reachable_of_run _ (fun _ _ _ => trivial) hrun
  obtain ⟨hincreasing, hgreatest, -⟩ := moves_forward hs hr
  exact ⟨st, r, sub, hs, hr, hincreasing, hnext, hgreatest sub hnext⟩

end SubgroupsReader

namespace Subgroups

theorem exists_cell {track : Subgroups} {handle : SubgroupsHandle} (hs : track.Sound handle)
    {latest : SubgroupReader} (hlatest : track.state.value.latest = some latest) :
    ∃ cell ∈ track.cells, cell.info.groupId = latest.info.groupId ∧
      cell.info.subgroupId = latest.info.subgroupId := by
  obtain ⟨hmem, -⟩ := hs.holds.greatest _ (mem_slot hlatest)
  obtain ⟨cell, hcell, hkey⟩ := List.mem_map.mp hmem
  exact ⟨cell, hcell, Prod.mk.inj (toLex_inj.mp hkey)⟩

theorem latest_eq_none_iff {track : Subgroups} {handle : SubgroupsHandle}
    (hs : track.Sound handle) : track.state.value.latest = none ↔ track.cells = [] := by
  constructor
  · intro hnone
    exact List.map_eq_nil_iff.mp (hs.holds.empty (by simp [slot, hnone]))
  · intro hempty
    cases hlatest : track.state.value.latest with
    | none => rfl
    | some latest =>
        obtain ⟨cell, hcell, -⟩ := exists_cell hs hlatest
        rw [hempty] at hcell
        cases hcell

/-- The latest subgroup has the greatest group. -/
theorem isGreatest_groupId {track : Subgroups} {handle : SubgroupsHandle}
    (hs : track.Sound handle) {latest : SubgroupReader}
    (hlatest : track.state.value.latest = some latest) :
    IsGreatest {groupId | ∃ cell ∈ track.cells, cell.info.groupId = groupId}
      latest.info.groupId := by
  constructor
  · obtain ⟨cell, hcell, hgroup, -⟩ := exists_cell hs hlatest
    exact ⟨cell, hcell, hgroup⟩
  · obtain ⟨-, hbound⟩ := hs.holds.greatest _ (mem_slot hlatest)
    rintro _ ⟨cell, hcell, rfl⟩
    exact Prod.Lex.monotone_fst _ _ (hbound (List.mem_map_of_mem hcell))

end Subgroups

namespace SubgroupsWriter

/-- The group of the next `append` is above the latest. -/
theorem append_eq {w : SubgroupsWriter} {track : Subgroups} (hlive : track.state.dropped = false)
    (hw : w.UpToDate track) (priority : UInt8) :
    w.append track priority = .ok ((track.install ⟨w.nextGroupId, 0, priority⟩).1,
      w.installed ⟨w.nextGroupId, 0, priority⟩,
      (track.install ⟨w.nextGroupId, 0, priority⟩).2) := by
  apply create_newest w hlive
  intro latest hlatest
  obtain ⟨hgroup, -⟩ := hw.latest latest hlatest
  apply Prod.Lex.lt_iff.mpr
  left
  change latest.info.groupId < w.nextGroupId
  omega

theorem nextGroupId_eq {track : Subgroups} {w : SubgroupsWriter} (hs : track.Sound (.active w))
    {groupId : Nat}
    (hgreatest :
      IsGreatest {groupId | ∃ cell ∈ track.cells, cell.info.groupId = groupId} groupId) :
    w.nextGroupId = groupId + 1 := by
  cases hlatest : track.state.value.latest with
  | none =>
      obtain ⟨cell, hcell, -⟩ := hgreatest.1
      rw [(Subgroups.latest_eq_none_iff hs).mp hlatest] at hcell
      cases hcell
  | some latest =>
      obtain ⟨hgroup, -⟩ := (hs.writer w rfl).latest latest hlatest
      rw [← (Subgroups.isGreatest_groupId hs hlatest).unique hgreatest]
      exact hgroup

/-- The ids the writer keeps are one above ids that have been created. -/
theorem in_range {track : Subgroups} {w : SubgroupsWriter} (hs : track.Sound (.active w))
    {bound : Nat}
    (hids : ∀ cell ∈ track.cells, cell.info.groupId < bound ∧ cell.info.subgroupId < bound) :
    w.nextGroupId ≤ bound ∧ w.lastGroupId ≤ bound ∧ w.next ≤ bound := by
  cases hlatest : track.state.value.latest with
  | none =>
      rw [(hs.writer w rfl).empty hlatest]
      exact ⟨Nat.zero_le _, Nat.zero_le _, Nat.zero_le _⟩
  | some latest =>
      obtain ⟨cell, hcell, hgroup, hsubgroup⟩ := Subgroups.exists_cell hs hlatest
      obtain ⟨hnextGroup, hlastGroup, hnext⟩ := (hs.writer w rfl).latest latest hlatest
      obtain ⟨hgroupBound, hsubgroupBound⟩ := hids cell hcell
      omega

/-- While the track has a reader, `append` starts the group after the greatest
one and makes it the latest, whatever was created before. The ids the writer
keeps are those of the latest and stay in range. -/
theorem append_newest {st : Fanout.State Subgroups SubgroupsHandle SubgroupsReader}
    (hs : Reachable (Fanout.step Subgroups.ops) (fun _ _ => True) Subgroups.start st) {i : Nat}
    {r : SubgroupsReader} (hr : st.reader i = some r) {w : SubgroupsWriter}
    (hw : st.writer = .active w)
    (hids : ∀ cell ∈ st.shared.cells,
      cell.info.groupId < 2 ^ 64 - 1 ∧ cell.info.subgroupId < 2 ^ 64 - 1) :
    (∀ priority, ∃ sub w' track', w.append st.shared priority = .ok (sub, w', track') ∧
      (∀ groupId,
        IsGreatest {groupId | ∃ cell ∈ st.shared.cells, cell.info.groupId = groupId} groupId →
        sub.info.groupId = groupId + 1) ∧
      (st.shared.cells = [] → sub.info.groupId = 0) ∧
      sub.info.subgroupId = 0 ∧ sub.info.priority = priority ∧
      track'.state.value.latest = some ⟨sub.cell, sub.info, 0⟩) ∧
      (∀ latest ∈ st.shared.state.value.latest, w.nextGroupId = latest.info.groupId + 1 ∧
        w.lastGroupId = latest.info.groupId ∧ w.next = latest.info.subgroupId + 1) ∧
      w.nextGroupId < 2 ^ 64 ∧ w.lastGroupId < 2 ^ 64 ∧ w.next < 2 ^ 64 ∧
      st.shared.state.value.epoch ≤ st.shared.cells.length := by
  obtain ⟨hsound, -⟩ := Subgroups.follows hs hr
  rw [hw] at hsound
  have hupToDate := hsound.writer w rfl
  refine ⟨?_, hupToDate.latest, ?_⟩
  · intro priority
    have happend := append_eq (hsound.live w rfl) hupToDate priority
    refine ⟨_, _, _, happend, ?_, ?_, rfl, rfl, rfl⟩
    · intro groupId hgreatest
      exact nextGroupId_eq hsound hgreatest
    · intro hempty
      rw [hupToDate.empty ((Subgroups.latest_eq_none_iff hsound).mpr hempty)]
      rfl
  · obtain ⟨hnextGroup, hlastGroup, hnext⟩ := in_range hsound hids
    have hepoch := hsound.epoch
    omega

/-- `append` after a subgroup that came late. -/
theorem append_newest_late :
    ∃ st, ∃ w : SubgroupsWriter, ∃ sub w' track',
      Reachable (Fanout.step Subgroups.ops) (fun _ _ => True) Subgroups.start st ∧
      w.append st.shared 127 = .ok (sub, w', track') ∧ sub.info = ⟨6, 0, 127⟩ ∧
      track'.state.value.latest = some ⟨sub.cell, sub.info, 0⟩ := by
  have hrun : ∃ st r w, run (Fanout.step Subgroups.ops) (fun _ _ => true) Subgroups.start
      [.write (.create ⟨5, 2, 0⟩), .write (.create ⟨4, 9, 0⟩)] = some st ∧
      st.reader 0 = some r ∧ st.writer = .active w ∧
      st.shared.cells = [⟨⟨5, 2, 0⟩, ⟨⟨[], none⟩, false⟩⟩, ⟨⟨4, 9, 0⟩, ⟨⟨[], none⟩, true⟩⟩] :=
    ⟨_, _, _, rfl, rfl, rfl, rfl⟩
  obtain ⟨st, r, w, hrun, hr, hw, hcells⟩ := hrun
  have hs : Reachable (Fanout.step Subgroups.ops) (fun _ _ => True) Subgroups.start st :=
    reachable_of_run _ (fun _ _ _ => trivial) hrun
  obtain ⟨sub, w', track', happend, hgroup, -, hsubgroup, hpriority, hlatest⟩ :=
    (append_newest hs hr hw (by rw [hcells]; decide)).1 127
  have hgreatest :
      IsGreatest {groupId | ∃ cell ∈ st.shared.cells, cell.info.groupId = groupId} 5 := by
    rw [hcells]
    constructor
    · exact ⟨_, List.mem_cons_self, rfl⟩
    · rintro _ ⟨cell, hcell, rfl⟩
      revert cell
      decide
  have hinfo : (⟨sub.info.groupId, sub.info.subgroupId, sub.info.priority⟩ : Subgroup) =
      ⟨6, 0, 127⟩ := by
    rw [hgroup 5 hgreatest, hsubgroup, hpriority]
  exact ⟨st, w, sub, w', track', hs, happend, hinfo, hlatest⟩

end SubgroupsWriter

end MoqTransport.Serve
