import MoqTransport.Serve.Subgroup

/-!
What writers can do to a track in subgroup mode while it is being read. An
operation that is refused is not a step. Handles are not tracked: an action
carries the handle it is taken with, so a run of the writers is any sequence
of actions. Whatever they do, a reader's past stays valid (`Subgroups.Grows`):
subgroups, objects and chunks are only added, and nothing is added to an
object or a subgroup whose writer is gone.
-/

namespace MoqTransport.Serve

open Streaming Data

inductive WriterAct where
  | create (w : SubgroupsWriter) (info : Subgroup)
  | close (err : ServeError)
  | drop
  | createObject (w : SubgroupWriter) (size : Nat)
  | closeSubgroup (w : SubgroupWriter) (err : ServeError)
  | dropSubgroup (w : SubgroupWriter)
  | write (w : SubgroupWriter) (object : SubgroupObjectWriter) (chunk : Bytes)
  | closeObject (w : SubgroupWriter) (object : SubgroupObjectWriter) (err : ServeError)
  | dropObject (w : SubgroupWriter) (object : SubgroupObjectWriter)
deriving DecidableEq

namespace Subgroups

/-- Change the subgroup of a handle. -/
def changeCell (track : Subgroups) (w : SubgroupWriter)
    (f : SubgroupCell → Option SubgroupCell) : Option Subgroups := do
  let cell ← track.cells[w.cell]?
  let cell ← f cell
  pure (track.setCell w cell)

end Subgroups

/-- Change the object of a handle. -/
def SubgroupCell.changeObject (cell : SubgroupCell) (handle : SubgroupObjectWriter)
    (f : SubgroupObjectCell → Option SubgroupObjectCell) : Option SubgroupCell := do
  let object ← cell.state.value.objects[handle.index]?
  let object ← f object
  pure { cell with state := cell.state.update fun s => s.setObject handle object }

def WriterAct.apply (track : Subgroups) : WriterAct → Option Subgroups
  | .create w info => (w.create track info).toOption.map fun created => created.2.2
  | .close err => (SubgroupsWriter.close track err).toOption
  | .drop =>
      if track.state.dropped then none else some { track with state := track.state.drop }
  | .createObject w size =>
      track.changeCell w fun cell => (w.create cell size).2.toOption.map Prod.snd
  | .closeSubgroup w err => track.changeCell w fun cell => (SubgroupWriter.close cell err).toOption
  | .dropSubgroup w =>
      track.changeCell w fun cell =>
        if cell.state.dropped then none else some { cell with state := cell.state.drop }
  | .write w object chunk =>
      track.changeCell w fun cell => cell.changeObject object fun o =>
        (object.write o chunk).2.toOption
  | .closeObject w object err =>
      track.changeCell w fun cell => cell.changeObject object fun o =>
        (object.close o err).toOption
  | .dropObject w object =>
      track.changeCell w fun cell => cell.changeObject object fun o =>
        if o.state.dropped then none else some (o.dropWriter object.remain)

/-- Everything a reader has seen of the object is still so. -/
structure SubgroupObjectCell.Grows (o o' : SubgroupObjectCell) : Prop where
  info : o'.info = o.info
  chunks : o.state.value.chunks <+: o'.state.value.chunks
  closed : o'.state.value.closed = none → o.state.value.closed = none
  settled : o.state.dropped = true → o' = o

theorem SubgroupObjectCell.Grows.refl (o : SubgroupObjectCell) : o.Grows o :=
  ⟨rfl, List.prefix_rfl, id, fun _ => rfl⟩

/-- Everything a reader has seen of the subgroup is still so. -/
structure SubgroupCell.Grows (cell cell' : SubgroupCell) : Prop where
  info : cell'.info = cell.info
  objects : ∀ {i : Nat} {o : SubgroupObjectCell}, cell.state.value.objects[i]? = some o →
    ∃ o', cell'.state.value.objects[i]? = some o' ∧ o.Grows o'
  closed : cell'.state.value.closed = none → cell.state.value.closed = none
  settled : cell.state.dropped = true → cell'.state.dropped = true ∧
    cell'.state.value.objects.length = cell.state.value.objects.length

theorem SubgroupCell.Grows.refl (cell : SubgroupCell) : cell.Grows cell :=
  ⟨rfl, fun hi => ⟨_, hi, .refl _⟩, id, fun h => ⟨h, rfl⟩⟩

/-- The subgroups stay where they are and grow. -/
def Subgroups.Grows (track track' : Subgroups) : Prop :=
  ∀ (i : Nat) (cell : SubgroupCell), track.cells[i]? = some cell →
    ∃ cell', track'.cells[i]? = some cell' ∧ cell.Grows cell'

theorem eq_ok_of_toOption {α : Type} {e : Except ServeError α} {a : α}
    (h : e.toOption = some a) : e = .ok a := by
  cases e with
  | error err => cases h
  | ok b =>
      cases h
      rfl

namespace SubgroupObjectCell

theorem grows_write {w : SubgroupObjectWriter} {o o' : SubgroupObjectCell} {chunk : Bytes}
    (h : (w.write o chunk).2 = .ok o') : o.Grows o' := by
  unfold SubgroupObjectWriter.write at h
  split at h
  · cases h
  · dsimp only at h
    split at h
    · cases h
    · next hlive =>
        cases h
        exact ⟨rfl, List.prefix_append _ _, id, fun hdropped => absurd hdropped hlive⟩

theorem grows_close {w : SubgroupObjectWriter} {o o' : SubgroupObjectCell} {err : ServeError}
    (h : w.close o err = .ok o') : o.Grows o' := by
  unfold SubgroupObjectWriter.close at h
  split at h
  · cases h
  · obtain ⟨hopen, hlive, rfl⟩ := Watch.eq_of_closeWith h
    exact ⟨rfl, List.prefix_rfl, fun _ => hopen, fun hdropped => by simp [hlive] at hdropped⟩

theorem grows_dropWriter {o : SubgroupObjectCell} (hlive : ¬ o.state.dropped = true)
    (remain : Nat) : o.Grows (o.dropWriter remain) := by
  unfold dropWriter
  refine ⟨rfl, ?_, ?_, fun hdropped => absurd hdropped hlive⟩
  · dsimp only [Watch.State.drop]
    split <;> exact List.prefix_rfl
  · dsimp only [Watch.State.drop]
    split
    · exact id
    · intro hclosed
      cases hclosed

end SubgroupObjectCell

namespace SubgroupCell

theorem grows_changeObject {cell cell' : SubgroupCell} {handle : SubgroupObjectWriter}
    {f : SubgroupObjectCell → Option SubgroupObjectCell}
    (hf : ∀ o o', f o = some o' → o.Grows o') (h : cell.changeObject handle f = some cell') :
    cell.Grows cell' := by
  obtain ⟨o, ho, h⟩ := Option.bind_eq_some_iff.mp h
  obtain ⟨o', ho', h⟩ := Option.bind_eq_some_iff.mp h
  cases h
  have hgrow := hf o o' ho'
  refine ⟨rfl, fun {i p} hi => ?_, id, fun hdropped => ⟨hdropped, by
    simp [Watch.State.update, SubgroupState.setObject]⟩⟩
  by_cases hsame : handle.index = i
  · subst hsame
    obtain rfl : p = o := by simpa [hi] using ho
    refine ⟨o', ?_, hgrow⟩
    have hlt := (List.getElem?_eq_some_iff.mp hi).1
    simp [Watch.State.update, SubgroupState.setObject, hlt]
  · exact ⟨p, by simpa [Watch.State.update, SubgroupState.setObject, hsame] using hi, .refl p⟩

theorem grows_create {w : SubgroupWriter} {cell : SubgroupCell} {size : Nat}
    {created : SubgroupObjectWriter × SubgroupCell} (h : (w.create cell size).2 = .ok created) :
    cell.Grows created.2 := by
  unfold SubgroupWriter.create at h
  dsimp only at h
  split at h
  · cases h
  · next hlive =>
      cases h
      refine ⟨rfl, fun {i o} hi => ⟨o, ?_, .refl o⟩, id, fun hdropped => absurd hdropped hlive⟩
      have hlt := (List.getElem?_eq_some_iff.mp hi).1
      simpa [Watch.State.update, List.getElem?_append_left hlt] using hi

theorem grows_close {cell cell' : SubgroupCell} {err : ServeError}
    (h : SubgroupWriter.close cell err = .ok cell') : cell.Grows cell' := by
  obtain ⟨hopen, -, rfl⟩ := Watch.eq_of_closeWith h
  exact ⟨rfl, fun hi => ⟨_, hi, .refl _⟩, fun _ => hopen, fun hdropped => ⟨hdropped, rfl⟩⟩

end SubgroupCell

/-- A subgroup that is not refused becomes the latest, or an orphan. -/
theorem SubgroupsWriter.create_cases {w : SubgroupsWriter} {track : Subgroups} {info : Subgroup}
    {created : SubgroupWriter × SubgroupsWriter × Subgroups}
    (h : w.create track info = .ok created) :
    created.2.2 = (track.install info).2 ∨ created.2.2 = (track.orphan info).2 := by
  unfold SubgroupsWriter.create at h
  split at h
  · cases h
  · split at h
    · split at h
      · split at h <;> cases h <;> simp
      · split at h <;> cases h <;> simp
    · cases h
      simp

theorem SubgroupsWriter.cells_create {w : SubgroupsWriter} {track : Subgroups} {info : Subgroup}
    {created : SubgroupWriter × SubgroupsWriter × Subgroups}
    (h : w.create track info = .ok created) :
    ∃ new, created.2.2.cells = track.cells ++ [new] := by
  rcases create_cases h with heq | heq
  · exact ⟨_, congrArg Subgroups.cells heq⟩
  · exact ⟨_, congrArg Subgroups.cells heq⟩

namespace Subgroups

theorem grows_changeCell {track track' : Subgroups} {w : SubgroupWriter}
    {f : SubgroupCell → Option SubgroupCell}
    (hf : ∀ cell cell', f cell = some cell' → cell.Grows cell')
    (h : track.changeCell w f = some track') : track.Grows track' := by
  obtain ⟨cell, hcell, h⟩ := Option.bind_eq_some_iff.mp h
  obtain ⟨cell', hcell', h⟩ := Option.bind_eq_some_iff.mp h
  cases h
  intro i c hi
  by_cases hsame : w.cell = i
  · subst hsame
    obtain rfl : c = cell := by simpa [hi] using hcell
    have hlt := (List.getElem?_eq_some_iff.mp hi).1
    exact ⟨cell', by simp [setCell, hlt], hf _ _ hcell'⟩
  · exact ⟨c, by simpa [setCell, hsame] using hi, .refl c⟩

theorem grows_append {track track' : Subgroups} {cell : SubgroupCell}
    (h : track'.cells = track.cells ++ [cell]) : track.Grows track' := by
  intro i c hi
  have hlt := (List.getElem?_eq_some_iff.mp hi).1
  exact ⟨c, by rw [h, List.getElem?_append_left hlt, hi], .refl c⟩

theorem grows_create {w : SubgroupsWriter} {track : Subgroups} {info : Subgroup}
    {created : SubgroupWriter × SubgroupsWriter × Subgroups}
    (h : w.create track info = .ok created) : track.Grows created.2.2 := by
  obtain ⟨new, happend⟩ := SubgroupsWriter.cells_create h
  exact grows_append happend

theorem Grows.refl (track : Subgroups) : track.Grows track :=
  fun _ cell hi => ⟨cell, hi, .refl cell⟩

end Subgroups

theorem WriterAct.grows {track track' : Subgroups} {act : WriterAct}
    (h : act.apply track = some track') : track.Grows track' := by
  cases act with
  | create w info =>
      obtain ⟨created, hcreate, rfl⟩ := Option.map_eq_some_iff.mp h
      exact Subgroups.grows_create (eq_ok_of_toOption hcreate)
  | close err =>
      obtain ⟨-, -, rfl⟩ := Watch.eq_of_closeWith (eq_ok_of_toOption h)
      exact .refl track
  | drop =>
      simp only [apply] at h
      split at h
      · cases h
      · cases h
        exact .refl track
  | createObject w size =>
      refine Subgroups.grows_changeCell ?_ h
      intro cell cell' hcell
      obtain ⟨created, hcreate, rfl⟩ := Option.map_eq_some_iff.mp hcell
      exact SubgroupCell.grows_create (eq_ok_of_toOption hcreate)
  | closeSubgroup w err =>
      exact Subgroups.grows_changeCell
        (fun cell cell' hcell => SubgroupCell.grows_close (eq_ok_of_toOption hcell)) h
  | dropSubgroup w =>
      refine Subgroups.grows_changeCell ?_ h
      intro cell cell' hcell
      split at hcell
      · cases hcell
      · cases hcell
        exact ⟨rfl, fun hi => ⟨_, hi, .refl _⟩, id, fun _ => ⟨rfl, rfl⟩⟩
  | write w object chunk =>
      refine Subgroups.grows_changeCell ?_ h
      intro cell cell'
      apply SubgroupCell.grows_changeObject
      intro o o' ho
      exact SubgroupObjectCell.grows_write (eq_ok_of_toOption ho)
  | closeObject w object err =>
      refine Subgroups.grows_changeCell ?_ h
      intro cell cell'
      apply SubgroupCell.grows_changeObject
      intro o o' ho
      exact SubgroupObjectCell.grows_close (eq_ok_of_toOption ho)
  | dropObject w object =>
      refine Subgroups.grows_changeCell ?_ h
      intro cell cell'
      apply SubgroupCell.grows_changeObject
      intro o o' ho
      split at ho
      · cases ho
      · next hlive =>
          cases ho
          exact SubgroupObjectCell.grows_dropWriter hlive _

/-- The latest reader stands at the start of its subgroup. -/
def Subgroups.LatestOk (track : Subgroups) : Prop :=
  ∀ reader, track.state.value.latest = some reader →
    ∃ cell, track.cells[reader.cell]? = some cell ∧ reader.info = cell.info ∧ reader.index = 0

theorem Subgroups.latestOk_of_grows {track track' : Subgroups} (hgrows : track.Grows track')
    (hlatest : track'.state.value.latest = track.state.value.latest) (h : track.LatestOk) :
    track'.LatestOk := by
  intro reader hreader
  obtain ⟨cell, hcell, hinfo, hindex⟩ := h reader (hlatest ▸ hreader)
  obtain ⟨cell', hcell', hgrow⟩ := hgrows _ _ hcell
  exact ⟨cell', hcell', hinfo.trans hgrow.info.symm, hindex⟩

theorem Subgroups.latestOk_install {track : Subgroups} (info : Subgroup) :
    (track.install info).2.LatestOk := by
  rintro reader ⟨⟩
  exact ⟨info.produce, by simp [install], rfl, rfl⟩

theorem SubgroupsWriter.latestOk_create {w : SubgroupsWriter} {track : Subgroups}
    {info : Subgroup} {created : SubgroupWriter × SubgroupsWriter × Subgroups}
    (h : w.create track info = .ok created) (hlatest : track.LatestOk) :
    created.2.2.LatestOk := by
  have hgrows := Subgroups.grows_create h
  rcases create_cases h with heq | heq
  · rw [heq]
    exact Subgroups.latestOk_install info
  · exact Subgroups.latestOk_of_grows hgrows (by rw [heq]; rfl) hlatest

theorem changeCell_state {track track' : Subgroups} {w : SubgroupWriter}
    {f : SubgroupCell → Option SubgroupCell} (h : track.changeCell w f = some track') :
    track'.state = track.state := by
  obtain ⟨cell, -, h⟩ := Option.bind_eq_some_iff.mp h
  obtain ⟨cell', -, h⟩ := Option.bind_eq_some_iff.mp h
  cases h
  rfl

theorem WriterAct.latestOk {track track' : Subgroups} {act : WriterAct}
    (h : act.apply track = some track') (hlatest : track.LatestOk) : track'.LatestOk := by
  have hgrows := act.grows h
  have hchanged (heq : track'.state = track.state) : track'.LatestOk :=
    Subgroups.latestOk_of_grows hgrows (by rw [heq]) hlatest
  cases act with
  | create w info =>
      obtain ⟨created, hcreate, rfl⟩ := Option.map_eq_some_iff.mp h
      exact SubgroupsWriter.latestOk_create (eq_ok_of_toOption hcreate) hlatest
  | close err =>
      obtain ⟨-, -, rfl⟩ := Watch.eq_of_closeWith (eq_ok_of_toOption h)
      exact hlatest
  | drop =>
      simp only [apply] at h
      split at h
      · cases h
      · cases h
        exact hlatest
  | _ => exact hchanged (changeCell_state h)

theorem length_changeCell {track track' : Subgroups} {w : SubgroupWriter}
    {f : SubgroupCell → Option SubgroupCell} {i : Nat} {cell cell' : SubgroupCell}
    (hf : w.cell = i → ∀ c c', f c = some c' →
      c'.state.value.objects.length = c.state.value.objects.length)
    (h : track.changeCell w f = some track') (hcell : track.cells[i]? = some cell)
    (hcell' : track'.cells[i]? = some cell') :
    cell'.state.value.objects.length = cell.state.value.objects.length := by
  obtain ⟨old, hold, h⟩ := Option.bind_eq_some_iff.mp h
  obtain ⟨new, hnew, h⟩ := Option.bind_eq_some_iff.mp h
  cases h
  have hlt := (List.getElem?_eq_some_iff.mp hcell).1
  by_cases hsame : w.cell = i
  · obtain rfl : cell = old := by simpa [hsame, hcell] using hold
    obtain rfl : new = cell' := by simpa [Subgroups.setCell, hsame, hlt] using hcell'
    exact hf hsame _ _ hnew
  · obtain rfl : cell = cell' := by simpa [Subgroups.setCell, hsame, hcell] using hcell'
    rfl

theorem length_changeObject {cell cell' : SubgroupCell} {handle : SubgroupObjectWriter}
    {f : SubgroupObjectCell → Option SubgroupObjectCell}
    (h : cell.changeObject handle f = some cell') :
    cell'.state.value.objects.length = cell.state.value.objects.length := by
  obtain ⟨o, -, h⟩ := Option.bind_eq_some_iff.mp h
  obtain ⟨o', -, h⟩ := Option.bind_eq_some_iff.mp h
  cases h
  simp [Watch.State.update, SubgroupState.setObject]

/-- Only creating an object adds one. -/
theorem WriterAct.length_objects {track track' : Subgroups} {act : WriterAct}
    (h : act.apply track = some track') {i : Nat}
    (hact : ∀ w size, act = .createObject w size → w.cell ≠ i) {cell cell' : SubgroupCell}
    (hcell : track.cells[i]? = some cell) (hcell' : track'.cells[i]? = some cell') :
    cell'.state.value.objects.length = cell.state.value.objects.length := by
  have hkept (hcells : track'.cells[i]? = track.cells[i]?) :
      cell'.state.value.objects.length = cell.state.value.objects.length := by
    obtain rfl : cell = cell' := by simpa [hcells, hcell] using hcell'
    rfl
  cases act with
  | create w info =>
      obtain ⟨created, hcreate, rfl⟩ := Option.map_eq_some_iff.mp h
      obtain ⟨new, happend⟩ := SubgroupsWriter.cells_create (eq_ok_of_toOption hcreate)
      have hlt := (List.getElem?_eq_some_iff.mp hcell).1
      exact hkept (by rw [happend, List.getElem?_append_left hlt])
  | close err =>
      obtain ⟨-, -, rfl⟩ := Watch.eq_of_closeWith (eq_ok_of_toOption h)
      exact hkept rfl
  | drop =>
      simp only [apply] at h
      split at h
      · cases h
      · cases h
        exact hkept rfl
  | createObject w size =>
      exact length_changeCell (fun hsame => absurd hsame (hact w size rfl)) h hcell hcell'
  | closeSubgroup w err =>
      refine length_changeCell ?_ h hcell hcell'
      intro _ c c' hc
      obtain ⟨-, -, rfl⟩ := Watch.eq_of_closeWith (eq_ok_of_toOption hc)
      rfl
  | dropSubgroup w =>
      refine length_changeCell ?_ h hcell hcell'
      intro _ c c' hc
      split at hc
      · cases hc
      · cases hc
        rfl
  | _ => exact length_changeCell (fun _ _ _ => length_changeObject) h hcell hcell'

end MoqTransport.Serve
