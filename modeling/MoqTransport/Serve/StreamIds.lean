import MoqTransport.Serve.StreamGroup

/-!
The ids of the objects of a track in stream mode. The writer refuses a group
below the latest, but not the latest again, and a group gives all its objects
the same id: ids are unique exactly if no group is created twice in a row and
none gets a second object (`StreamWriter.identified_iff`).
-/

namespace MoqTransport.Serve

open Machine Streaming

/-- Create the group behind the latest; the id wraps around at its width. -/
def StreamWriter.append (track : Stream) : Except ServeError (StreamGroupWriter × Stream) :=
  create track ((track.state.value.latest.map fun latest => (latest.2 + 1) % 2 ^ 64).getD 0)

/-- The calls on a stream's writer, and on the writers of its groups in the
order they were created. -/
inductive StreamCall where
  | create (groupId : Nat)
  | append
  | createObject (group size : Nat)
  | writeObject (group : Nat) (payload : Bytes)
deriving DecidableEq

structure StreamWriters where
  track : Stream
  groups : List StreamGroupWriter
deriving DecidableEq

namespace StreamWriters

def start (priority : UInt8) : StreamWriters := ⟨.produce priority, []⟩

def created (st : StreamWriters) :
    Except ServeError (StreamGroupWriter × Stream) → Option StreamWriters
  | .ok (group, track) => some ⟨track, st.groups ++ [group]⟩
  | .error _ => none

def setGroup (st : StreamWriters) (group : StreamGroupWriter) (cell : StreamGroupCell) :
    StreamWriters :=
  { st with track := st.track.setGroup group cell }

/-- A call that succeeds. -/
def step (st : StreamWriters) : StreamCall → Option StreamWriters
  | .create groupId => st.created (StreamWriter.create st.track groupId)
  | .append => st.created (StreamWriter.append st.track)
  | .createObject i size => do
      let group ← st.groups[i]?
      match group.create (st.track.group group) size with
      | .ok (_, cell) => some (st.setGroup group cell)
      | .error _ => none
  | .writeObject i payload => do
      let group ← st.groups[i]?
      match group.write (st.track.group group) payload with
      | (.ok _, cell) => some (st.setGroup group cell)
      | (.error _, _) => none

end StreamWriters

namespace Stream

/-- The group and object id of every object of the track. -/
def objectIds (track : Stream) : List (Nat × Nat) :=
  track.groups.flatMap fun group => group.objects.map fun object =>
    (group.groupId, object.info.objectId)

def groupIds (track : Stream) : List Nat := track.groups.map (·.groupId)

/-- No two objects have the same ids, those of a group increase, and no group
id was accepted twice. -/
structure Identified (track : Stream) : Prop where
  distinct : track.objectIds.Nodup
  increasing : ∀ group ∈ track.groups,
    (group.objects.map (·.info.objectId)).Pairwise (· < ·)
  refused : track.groupIds.Nodup

end Stream

namespace StreamWriters

/-- The group is not the latest again, and the object is the first of its
group. -/
def Fresh (st : StreamWriters) : StreamCall → Prop
  | .create groupId => ∀ latest ∈ st.track.state.value.latest, latest.2 ≠ groupId
  | .append => True
  | .createObject i _ | .writeObject i _ =>
      ∀ group, st.groups[i]? = some group → (st.track.group group).objects = []

/-- What the calls keep. -/
structure Inv (st : StreamWriters) : Prop where
  live : st.track.state.dropped = false
  writers : ∀ (i : Nat) (group : StreamGroupWriter), st.groups[i]? = some group →
    ∃ cell, st.track.groups[i]? = some cell ∧ group = ⟨i, cell.groupId, 0⟩
  cells : ∀ cell ∈ st.track.groups,
    cell.state.dropped = false ∧ ∀ object ∈ cell.objects, object.info.objectId = 0
  length : st.groups.length = st.track.groups.length
  newest : ∀ latest ∈ st.track.state.value.latest, latest.2 ∈ st.track.groupIds
  largest : ∀ groupId ∈ st.track.groupIds,
    ∃ latest ∈ st.track.state.value.latest, groupId ≤ latest.2

/-- What a call adds to the track. -/
inductive Adds (st : StreamWriters) : StreamCall → StreamWriters → Prop where
  | group {call : StreamCall} {groupId : Nat}
      (hlatest : ∀ latest ∈ st.track.state.value.latest, latest.2 ≤ groupId)
      (hfresh : st.Fresh call ↔ ∀ latest ∈ st.track.state.value.latest, latest.2 ≠ groupId) :
      Adds st call
        ⟨{ st.track with
            groups := st.track.groups ++ [⟨groupId, .new ⟨[], none⟩⟩]
            state := st.track.state.update fun s =>
              { s with latest := some (st.track.groups.length, groupId), epoch := s.epoch + 1 } },
          st.groups ++ [⟨st.track.groups.length, groupId, 0⟩]⟩
  | object {call : StreamCall} {i : Nat} {cell : StreamGroupCell} {object : SubgroupObjectCell}
      (hcell : st.track.groups[i]? = some cell) (hid : object.info.objectId = 0)
      (hfresh : st.Fresh call ↔ cell.objects = []) :
      Adds st call
        { st with track := { st.track with groups := st.track.groups.set i (cell.push object) } }

variable {st st' : StreamWriters} {call : StreamCall}

theorem create_ok {track track' : Stream} {groupId : Nat} {group : StreamGroupWriter}
    (h : StreamWriter.create track groupId = .ok (group, track')) :
    (∀ latest ∈ track.state.value.latest, latest.2 ≤ groupId) ∧
      group = ⟨track.groups.length, groupId, 0⟩ ∧
      track' = { track with
        groups := track.groups ++ [⟨groupId, .new ⟨[], none⟩⟩]
        state := track.state.update fun s =>
          { s with latest := some (track.groups.length, groupId), epoch := s.epoch + 1 } } := by
  unfold StreamWriter.create at h
  split at h
  · cases h
  · split at h
    · next cell latest hlatest =>
        split at h
        · cases h
        · next hle =>
            obtain ⟨rfl, rfl⟩ := Prod.mk.inj (Except.ok.inj h)
            refine ⟨?_, rfl, rfl⟩
            rintro _ hmem
            rw [hlatest] at hmem
            obtain rfl := Option.mem_some.mp hmem
            exact Nat.le_of_not_lt hle
    · next hnone =>
        obtain ⟨rfl, rfl⟩ := Prod.mk.inj (Except.ok.inj h)
        refine ⟨?_, rfl, rfl⟩
        intro latest hmem
        rw [hnone] at hmem
        cases hmem

/-- `append` never asks for the latest group again. -/
theorem append_ne (latest : Nat) : (latest + 1) % 2 ^ 64 ≠ latest := by
  omega

theorem created_ok {result : Except ServeError (StreamGroupWriter × Stream)}
    (h : st.created result = some st') :
    ∃ group track, result = .ok (group, track) ∧ st' = ⟨track, st.groups ++ [group]⟩ := by
  cases result with
  | error err => cases h
  | ok pair => exact ⟨pair.1, pair.2, rfl, (Option.some.inj h).symm⟩

theorem adds_of_step (hinv : st.Inv) (h : st.step call = some st') : st.Adds call st' := by
  cases call with
  | create groupId =>
      obtain ⟨group, track, hcreate, rfl⟩ := created_ok h
      obtain ⟨hlatest, rfl, rfl⟩ := create_ok hcreate
      exact .group hlatest Iff.rfl
  | append =>
      obtain ⟨group, track, hcreate, rfl⟩ := created_ok h
      obtain ⟨hlatest, rfl, rfl⟩ := create_ok hcreate
      refine .group hlatest (iff_of_true trivial ?_)
      intro latest hmem
      rw [Option.mem_def.mp hmem]
      exact (append_ne latest.2).symm
  | createObject i size =>
      obtain ⟨group, hgroup, h⟩ := Option.bind_eq_some_iff.mp h
      obtain ⟨cell, hcell, rfl⟩ := hinv.writers i group hgroup
      have hget : st.track.group ⟨i, cell.groupId, 0⟩ = cell := by
        simp [Stream.group, hcell]
      rw [hget, StreamGroupWriter.create_live _ (hinv.cells cell (List.mem_of_getElem? hcell)).1]
        at h
      obtain rfl := Option.some.inj h
      refine .object hcell rfl ?_
      simp [Fresh, hgroup, hget]
  | writeObject i payload =>
      obtain ⟨group, hgroup, h⟩ := Option.bind_eq_some_iff.mp h
      obtain ⟨cell, hcell, rfl⟩ := hinv.writers i group hgroup
      have hget : st.track.group ⟨i, cell.groupId, 0⟩ = cell := by
        simp [Stream.group, hcell]
      rw [hget, StreamGroupWriter.write_live _ (hinv.cells cell (List.mem_of_getElem? hcell)).1]
        at h
      obtain rfl := Option.some.inj h
      refine .object hcell rfl ?_
      simp [Fresh, hgroup, hget]

theorem inv_start (priority : UInt8) : (start priority).Inv where
  live := rfl
  writers := by
    intro i group h
    cases h
  cells := by
    intro cell h
    cases h
  length := rfl
  newest := by
    intro latest h
    cases h
  largest := by
    intro groupId h
    cases h

/-- An object leaves the ids of the groups as they are. -/
theorem groupIds_set {track : Stream} {i : Nat} {cell : StreamGroupCell}
    (hcell : track.groups[i]? = some cell) (object : SubgroupObjectCell) :
    { track with groups := track.groups.set i (cell.push object) }.groupIds =
      track.groupIds := by
  obtain ⟨hlt, rfl⟩ := List.getElem?_eq_some_iff.mp hcell
  change (track.groups.set i _).map (·.groupId) = track.groups.map (·.groupId)
  apply List.ext_getElem?
  intro j
  rw [List.getElem?_map, List.getElem?_map, List.getElem?_set]
  split
  · next hij =>
      subst hij
      simp [hlt, StreamGroupCell.push]
  · rfl

theorem Adds.inv (h : st.Adds call st') (hinv : st.Inv) : st'.Inv := by
  cases h with
  | @group groupId hlatest hfresh =>
      constructor
      · exact hinv.live
      · intro i group hgroup
        rcases getElem?_concat_iff.mp hgroup with hold | ⟨rfl, rfl⟩
        · obtain ⟨cell, hcell, heq⟩ := hinv.writers i group hold
          exact ⟨cell, getElem?_concat_iff.mpr (.inl hcell), heq⟩
        · exact ⟨_, getElem?_concat_iff.mpr (.inr ⟨hinv.length, rfl⟩), by rw [hinv.length]⟩
      · refine forall_mem_concat hinv.cells ⟨rfl, ?_⟩
        intro object hobject
        cases hobject
      · simp [hinv.length]
      · rintro _ ⟨⟩
        simp [Stream.groupIds]
      · intro old hold
        refine ⟨_, rfl, ?_⟩
        rw [Stream.groupIds, List.map_append] at hold
        rcases List.mem_append.mp hold with hold | hnew
        · obtain ⟨latest, hmem, hle⟩ := hinv.largest old hold
          exact hle.trans (hlatest latest hmem)
        · exact Nat.le_of_eq (List.mem_singleton.mp hnew)
  | @object i cell object hcell hid hfresh =>
      have hids := groupIds_set hcell object
      constructor
      · exact hinv.live
      · intro j group hgroup
        obtain ⟨old, hold, heq⟩ := hinv.writers j group hgroup
        by_cases hij : i = j
        · subst hij
          obtain rfl : old = cell := Option.some.inj (hold.symm.trans hcell)
          exact ⟨_, (getElem?_set_iff hcell).mpr (.inl ⟨rfl, rfl⟩), heq⟩
        · exact ⟨old, (getElem?_set_iff hcell).mpr (.inr ⟨hij, hold⟩), heq⟩
      · intro other hother
        rcases List.mem_or_eq_of_mem_set hother with hold | rfl
        · exact hinv.cells other hold
        · obtain ⟨hlive, hzero⟩ := hinv.cells cell (List.mem_of_getElem? hcell)
          exact ⟨hlive, forall_mem_concat hzero hid⟩
      · simp [hinv.length]
      · rw [hids]
        exact hinv.newest
      · rw [hids]
        exact hinv.largest

/-- With all ids the same, they increase along at most one object. -/
theorem pairwise_ids_iff {cell : StreamGroupCell}
    (hzero : ∀ object ∈ cell.objects, object.info.objectId = 0) :
    (cell.objects.map (·.info.objectId)).Pairwise (· < ·) ↔ cell.objects.length ≤ 1 := by
  have hids : cell.objects.map (·.info.objectId) = List.replicate cell.objects.length 0 := by
    rw [List.eq_replicate_iff]
    refine ⟨List.length_map _, ?_⟩
    intro id hid
    obtain ⟨object, hobject, rfl⟩ := List.mem_map.mp hid
    exact hzero object hobject
  rw [hids, List.pairwise_replicate]
  simp

/-- Distinct groups with one object each at most give distinct ids. -/
theorem objectIds_nodup {track : Stream} (hgroups : track.groupIds.Nodup)
    (hone : ∀ cell ∈ track.groups, cell.objects.length ≤ 1) : track.objectIds.Nodup := by
  rw [Stream.objectIds, List.nodup_flatMap]
  constructor
  · intro cell hcell
    cases hobjects : cell.objects with
    | nil => simp
    | cons object rest =>
        have hlength := hone cell hcell
        rw [hobjects, List.length_cons] at hlength
        obtain rfl := List.length_eq_zero_iff.mp (show rest.length = 0 by omega)
        simp
  · refine (List.pairwise_map.mp hgroups).imp ?_
    intro first second hne
    rw [Function.onFun, List.disjoint_left]
    rintro _ hfirst hsecond
    obtain ⟨o, -, rfl⟩ := List.mem_map.mp hfirst
    obtain ⟨o', -, heq⟩ := List.mem_map.mp hsecond
    exact hne (Prod.mk.inj heq).1.symm

/-- Ids are unique as long as each group has one object at most. -/
theorem identified_iff_of_inv (hinv : st.Inv) :
    st.track.Identified ↔ st.track.groupIds.Nodup ∧
      ∀ cell ∈ st.track.groups, cell.objects.length ≤ 1 := by
  constructor
  · intro h
    refine ⟨h.refused, ?_⟩
    intro cell hcell
    exact (pairwise_ids_iff (hinv.cells cell hcell).2).mp (h.increasing cell hcell)
  · rintro ⟨hgroups, hone⟩
    refine ⟨objectIds_nodup hgroups hone, ?_, hgroups⟩
    intro cell hcell
    exact (pairwise_ids_iff (hinv.cells cell hcell).2).mpr (hone cell hcell)

/-- A group id from the latest on is new exactly if it is not the latest. -/
theorem mem_groupIds_iff (hinv : st.Inv) {groupId : Nat}
    (hlatest : ∀ latest ∈ st.track.state.value.latest, latest.2 ≤ groupId) :
    groupId ∉ st.track.groupIds ↔ ∀ latest ∈ st.track.state.value.latest, latest.2 ≠ groupId := by
  constructor
  · rintro hnew latest hmem rfl
    exact hnew (hinv.newest latest hmem)
  · intro hne hold
    obtain ⟨latest, hmem, hle⟩ := hinv.largest groupId hold
    exact hne latest hmem (Nat.le_antisymm (hlatest latest hmem) hle)

theorem Adds.identified_step (h : st.Adds call st') (hinv : st.Inv) :
    st'.track.Identified ↔ st.track.Identified ∧ st.Fresh call := by
  rw [identified_iff_of_inv (h.inv hinv), identified_iff_of_inv hinv]
  cases h with
  | @group groupId hlatest hfresh =>
      rw [hfresh, ← mem_groupIds_iff hinv hlatest]
      have hids (cell : StreamGroupCell) : (st.track.groups ++ [cell]).map (·.groupId) =
          st.track.groupIds ++ [cell.groupId] := List.map_append
      rw [Stream.groupIds, hids, List.nodup_append_comm, List.singleton_append, List.nodup_cons]
      constructor
      · rintro ⟨⟨hnew, hnodup⟩, hone⟩
        exact ⟨⟨hnodup, fun cell hcell => hone cell (List.mem_append_left _ hcell)⟩, hnew⟩
      · rintro ⟨⟨hnodup, hone⟩, hnew⟩
        exact ⟨⟨hnew, hnodup⟩, forall_mem_concat hone (Nat.zero_le 1)⟩
  | @object i cell object hcell hid hfresh =>
      rw [hfresh, groupIds_set hcell object, and_assoc]
      refine and_congr_right fun _ => ?_
      have hmem := List.mem_of_getElem? hcell
      constructor
      · intro hone
        have hpushed := hone (cell.push object)
          (List.mem_of_getElem? ((getElem?_set_iff hcell).mpr (.inl ⟨rfl, rfl⟩)))
        rw [StreamGroupCell.objects_push, List.length_append, List.length_singleton] at hpushed
        have hempty : cell.objects.length = 0 := by omega
        refine ⟨?_, List.length_eq_zero_iff.mp hempty⟩
        intro other hother
        obtain ⟨j, hj⟩ := List.mem_iff_getElem?.mp hother
        by_cases hij : i = j
        · subst hij
          obtain rfl : cell = other := Option.some.inj (hcell.symm.trans hj)
          omega
        · exact hone other
            (List.mem_of_getElem? ((getElem?_set_iff hcell).mpr (.inr ⟨hij, hj⟩)))
      · rintro ⟨hone, hempty⟩ other hother
        rcases List.mem_or_eq_of_mem_set hother with hold | rfl
        · exact hone other hold
        · simp [hempty]

theorem identified_start (priority : UInt8) : (start priority).track.Identified := by
  rw [identified_iff_of_inv (inv_start priority)]
  refine ⟨List.nodup_nil, ?_⟩
  intro cell hcell
  cases hcell

theorem inv_of_run {calls : List StreamCall} (hrun : Run step (fun _ _ => True) st calls st')
    (hinv : st.Inv) : st'.Inv := by
  induction hrun with
  | nil => exact hinv
  | cons _ hstep _ ih => exact ih ((adds_of_step hinv hstep).inv hinv)

/-- A group before the latest is refused. -/
theorem create_used (hinv : st.Inv) {groupId : Nat} (hused : groupId ∈ st.track.groupIds)
    (hold : ∀ latest ∈ st.track.state.value.latest, latest.2 ≠ groupId) :
    StreamWriter.create st.track groupId = .error .duplicate := by
  obtain ⟨⟨cell, latest⟩, hmem, hle⟩ := hinv.largest groupId hused
  have hlt : groupId < latest := lt_of_le_of_ne hle (hold _ hmem).symm
  unfold StreamWriter.create
  rw [if_neg (by simp [hinv.live]), Option.mem_def.mp hmem]
  exact if_pos hlt

end StreamWriters

open StreamWriters in
/-- Over any sequence of calls that succeed, the ids are unique exactly if no
call creates the latest group again and none adds a second object to a group.
Every other group that was used is refused as a duplicate. -/
theorem StreamWriter.identified_iff (priority : UInt8) {calls : List StreamCall}
    {st : StreamWriters} (hrun : Run step (fun _ _ => True) (start priority) calls st) :
    (st.track.Identified ↔ Run step StreamWriters.Fresh (start priority) calls st) ∧
      ∀ groupId ∈ st.track.groupIds,
        (∀ latest ∈ st.track.state.value.latest, latest.2 ≠ groupId) →
          StreamWriter.create st.track groupId = .error .duplicate := by
  have hinv : ∀ {s s' : StreamWriters} {call}, s.Inv → s.step call = some s' → s'.Inv :=
    fun hs hstep => (adds_of_step hs hstep).inv hs
  have hiff : ∀ {s s' : StreamWriters} {call}, s.Inv → s.step call = some s' →
      (s'.track.Identified ↔ s.track.Identified ∧ s.Fresh call) :=
    fun hs hstep => (adds_of_step hs hstep).identified_step hs
  constructor
  · rw [Run.iff_of_step hinv hiff hrun (inv_start priority)]
    exact and_iff_right (identified_start priority)
  · intro groupId hused hold
    exact create_used (inv_of_run hrun (inv_start priority)) hused hold

open StreamWriters in
/-- Two groups with one object each. -/
theorem StreamWriter.identified_two_groups :
    ∃ st, Run step (fun _ _ => True) (start 0)
        [.create 3, .writeObject 0 [7], .append, .createObject 1 2] st ∧
      ((st.track.Identified ↔ Run step StreamWriters.Fresh (start 0)
          [.create 3, .writeObject 0 [7], .append, .createObject 1 2] st) ∧
        ∀ groupId ∈ st.track.groupIds,
          (∀ latest ∈ st.track.state.value.latest, latest.2 ≠ groupId) →
            StreamWriter.create st.track groupId = .error .duplicate) := by
  have hs : run step (fun _ _ => true) (start 0)
      [.create 3, .writeObject 0 [7], .append, .createObject 1 2] =
        some ⟨⟨0, [⟨3, ⟨⟨[.written 0 [7]], none⟩, false⟩⟩,
            ⟨4, ⟨⟨[SubgroupObject.produce ⟨0, 2, .object⟩], none⟩, false⟩⟩],
          ⟨⟨some (1, 4), 2, none⟩, false⟩⟩, [⟨0, 3, 0⟩, ⟨1, 4, 0⟩]⟩ := by
    decide
  have hrun := run_of_eq _ (fun _ _ _ => trivial) hs
  exact ⟨_, hrun, StreamWriter.identified_iff 0 hrun⟩

open StreamWriters in
/-- Two objects of one group have the same ids. -/
theorem StreamWriter.not_identified_two_objects :
    ¬ ∀ st, Run step (fun _ _ => True) (start 0)
      [.create 0, .writeObject 0 [1], .writeObject 0 [2]] st → st.track.Identified := by
  intro hidentified
  have hs : run step (fun _ _ => true) (start 0)
      [.create 0, .writeObject 0 [1], .writeObject 0 [2]] =
        some ⟨⟨0, [⟨0, ⟨⟨[.written 0 [1], .written 0 [2]], none⟩, false⟩⟩],
          ⟨⟨some (0, 0), 1, none⟩, false⟩⟩, [⟨0, 0, 0⟩]⟩ := by
    decide
  have hdistinct := (hidentified _ (run_of_eq _ (fun _ _ _ => trivial) hs)).distinct
  revert hdistinct
  decide

open StreamWriters in
/-- The latest group is accepted again. -/
example : (run step (fun _ _ => true) (start 0) [.create 0, .create 0]).isSome = true := by
  decide

end MoqTransport.Serve
