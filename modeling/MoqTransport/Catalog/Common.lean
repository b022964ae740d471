import Mathlib.Logic.Basic

/-!
The fields that the tracks of a catalog have in common. They are written once
for all tracks and taken out of each; a reader puts them back where a track
has none of its own. Of the namespace nothing is lost that way, of the other
fields only if all tracks agree on them (`CommonTrackFields.fromTracks_losesNothing_iff`).
-/

namespace MoqTransport.Catalog

inductive TrackPackaging where
  | cmaf
  | loc
deriving DecidableEq

structure Track where
  nameSpace : Option String
  name : String
  packaging : Option TrackPackaging
  renderGroup : Option UInt16
  altGroup : Option UInt16
deriving DecidableEq

structure CommonTrackFields where
  nameSpace : Option String
  packaging : Option TrackPackaging
  renderGroup : Option UInt16
  altGroup : Option UInt16
deriving DecidableEq

def Track.withCommon (common : CommonTrackFields) (track : Track) : Track :=
  { track with
    nameSpace := if track.nameSpace.isNone then common.nameSpace else track.nameSpace
    packaging := if track.packaging.isNone then common.packaging else track.packaging
    renderGroup := if track.renderGroup.isNone then common.renderGroup else track.renderGroup
    altGroup := if track.altGroup.isNone then common.altGroup else track.altGroup }

section Agree

variable {α : Type} [DecidableEq α]

/-- What is left of a common value when another track has `own`. -/
def agree (common own : Option α) : Option α := if own ≠ common then none else common

/-- A value that is left is the one that all have. -/
theorem foldl_agree_eq_some_iff {owns : List (Option α)} {common : Option α} {v : α} :
    owns.foldl agree common = some v ↔ common = some v ∧ ∀ own ∈ owns, own = some v := by
  induction owns generalizing common with
  | nil => simp
  | cons own owns ih =>
      rw [List.foldl_cons, ih, agree, List.forall_mem_cons, ← and_assoc]
      refine and_congr_left fun _ => ?_
      split
      · next hne =>
          refine iff_of_false (by simp) ?_
          rintro ⟨rfl, rfl⟩
          exact hne rfl
      · next hsame =>
          rw [Decidable.not_not.mp hsame, and_self]

end Agree

namespace CommonTrackFields

/-- The first loop of `from_tracks`. -/
def keep (common : CommonTrackFields) (track : Track) : CommonTrackFields where
  nameSpace := agree common.nameSpace track.nameSpace
  packaging := agree common.packaging track.packaging
  renderGroup := agree common.renderGroup track.renderGroup
  altGroup := agree common.altGroup track.altGroup

/-- The second loop. It looks at the common namespace, but at the other fields
of the track itself. -/
def strip (common : CommonTrackFields) (track : Track) : Track :=
  { track with
    nameSpace := if common.nameSpace.isSome then none else track.nameSpace
    packaging := if track.packaging.isSome then none else track.packaging
    renderGroup := if track.renderGroup.isSome then none else track.renderGroup
    altGroup := if track.altGroup.isSome then none else track.altGroup }

/-- The common fields, and the tracks without them. -/
def fromTracks : List Track → CommonTrackFields × List Track
  | [] => (⟨none, none, none, none⟩, [])
  | first :: rest =>
      let common := rest.foldl keep
        ⟨first.nameSpace, first.packaging, first.renderGroup, first.altGroup⟩
      (common, (first :: rest).map (strip common))

/-- The field is common exactly if all tracks have the same value for it. -/
def Shares {α : Type} (common : Option α) (owns : List (Option α)) : Prop :=
  ∀ v, common = some v ↔ ∀ own ∈ owns, own = some v

/-- The common fields are what the tracks share, and with them the tracks are
what they were. -/
structure LosesNothing (tracks : List Track) : Prop where
  restored : (fromTracks tracks).2.map (Track.withCommon (fromTracks tracks).1) = tracks
  nameSpace : Shares (fromTracks tracks).1.nameSpace (tracks.map (·.nameSpace))
  packaging : Shares (fromTracks tracks).1.packaging (tracks.map (·.packaging))
  renderGroup : Shares (fromTracks tracks).1.renderGroup (tracks.map (·.renderGroup))
  altGroup : Shares (fromTracks tracks).1.altGroup (tracks.map (·.altGroup))

/-- All tracks have the same value for a field, or none has one. -/
def Uniform {α : Type} (field : Track → Option α) (tracks : List Track) : Prop :=
  ∀ track ∈ tracks, ∀ other ∈ tracks, field track = field other

variable {α : Type}

/-- The first loop treats each field by itself. -/
theorem foldl_keep [DecidableEq α] (field : Track → Option α)
    (common : CommonTrackFields → Option α)
    (hkeep : ∀ c t, common (keep c t) = agree (common c) (field t)) (tracks : List Track)
    (c : CommonTrackFields) :
    common (tracks.foldl keep c) = (tracks.map field).foldl agree (common c) := by
  induction tracks generalizing c with
  | nil => rfl
  | cons track tracks ih => rw [List.foldl_cons, ih, hkeep, List.map_cons, List.foldl_cons]

/-- Every field of the result is what the tracks share of it. -/
theorem shares_fromTracks [DecidableEq α] (field : Track → Option α)
    (common : CommonTrackFields → Option α)
    (hkeep : ∀ c t, common (keep c t) = agree (common c) (field t))
    (hfirst : ∀ t, common ⟨t.nameSpace, t.packaging, t.renderGroup, t.altGroup⟩ = field t)
    {tracks : List Track} (hsome : tracks ≠ []) :
    Shares (common (fromTracks tracks).1) (tracks.map field) := by
  cases tracks with
  | nil => exact absurd rfl hsome
  | cons first rest =>
      intro v
      change common (rest.foldl keep _) = some v ↔ _
      rw [foldl_keep field common hkeep, foldl_agree_eq_some_iff, hfirst, List.map_cons,
        List.forall_mem_cons]

/-- A field that is taken out of every track comes back only if all agree. -/
theorem restored_iff {common : Option α} {field : Track → Option α} {tracks : List Track}
    (hshares : Shares common (tracks.map field)) :
    (∀ track ∈ tracks, common = field track) ↔ Uniform field tracks := by
  constructor
  · intro hall track htrack other hother
    exact (hall track htrack).symm.trans (hall other hother)
  · intro huniform track htrack
    cases hfield : field track with
    | some v =>
        apply (hshares v).mpr
        simp only [List.forall_mem_map]
        intro other hother
        exact (huniform other hother track htrack).trans hfield
    | none =>
        apply Option.eq_none_iff_forall_ne_some.mpr
        intro v hv
        have hown := (hshares v).mp hv (field track) (List.mem_map_of_mem htrack)
        rw [hfield] at hown
        cases hown

/-- A field that is taken out only where it is common always comes back. -/
theorem restored_of_shares {common own : Option α} {owns : List (Option α)}
    (hshares : Shares common owns) (hown : own ∈ owns) :
    (if (if common.isSome then none else own).isNone then common
      else if common.isSome then none else own) = own := by
  cases hcommon : common with
  | some v => simpa using ((hshares v).mp hcommon own hown).symm
  | none => cases own <;> simp

/-- What a track is after both. -/
theorem withCommon_strip {common : CommonTrackFields} {tracks : List Track} {track : Track}
    (hshares : Shares common.nameSpace (tracks.map (·.nameSpace))) (htrack : track ∈ tracks) :
    (strip common track).withCommon common = track ↔
      common.packaging = track.packaging ∧ common.renderGroup = track.renderGroup ∧
        common.altGroup = track.altGroup := by
  have hnone {β : Type} (own : Option β) : (if own.isSome then none else own) = none := by
    cases own <;> rfl
  have hspace := restored_of_shares hshares (List.mem_map_of_mem (f := (·.nameSpace)) htrack)
  obtain ⟨nameSpace, name, packaging, renderGroup, altGroup⟩ := track
  simp only [strip, Track.withCommon, hnone, Option.isNone_none, if_true, hspace,
    Track.mk.injEq, true_and]

theorem fromTracks_snd (tracks : List Track) :
    (fromTracks tracks).2 = tracks.map (strip (fromTracks tracks).1) := by
  cases tracks with
  | nil => rfl
  | cons first rest => rfl

/-- The tracks are restored one by one. -/
theorem restored_iff_forall (tracks : List Track) :
    (fromTracks tracks).2.map (Track.withCommon (fromTracks tracks).1) = tracks ↔
      ∀ track ∈ tracks,
        (strip (fromTracks tracks).1 track).withCommon (fromTracks tracks).1 = track := by
  have hself := List.map_inj_left (l := tracks) (g := id)
    (f := fun track => (strip (fromTracks tracks).1 track).withCommon (fromTracks tracks).1)
  rw [List.map_id] at hself
  rw [fromTracks_snd, List.map_map]
  exact hself

/-- The common fields are computed right for every list. They restore the
tracks exactly if all agree on the packaging, on the render group and on the
alternate group. -/
theorem fromTracks_losesNothing_iff {tracks : List Track} (hsome : tracks ≠ []) :
    LosesNothing tracks ↔
      Uniform (·.packaging) tracks ∧ Uniform (·.renderGroup) tracks ∧
        Uniform (·.altGroup) tracks := by
  have hspace := shares_fromTracks (·.nameSpace) (·.nameSpace) (fun _ _ => rfl) (fun _ => rfl) hsome
  have hpackaging :=
    shares_fromTracks (·.packaging) (·.packaging) (fun _ _ => rfl) (fun _ => rfl) hsome
  have hrender :=
    shares_fromTracks (·.renderGroup) (·.renderGroup) (fun _ _ => rfl) (fun _ => rfl) hsome
  have halt := shares_fromTracks (·.altGroup) (·.altGroup) (fun _ _ => rfl) (fun _ => rfl) hsome
  have hrestored :
      (fromTracks tracks).2.map (Track.withCommon (fromTracks tracks).1) = tracks ↔
        Uniform (·.packaging) tracks ∧ Uniform (·.renderGroup) tracks ∧
          Uniform (·.altGroup) tracks := by
    rw [restored_iff_forall, ← restored_iff hpackaging, ← restored_iff hrender,
      ← restored_iff halt, ← forall₂_and, ← forall₂_and]
    exact forall₂_congr fun track htrack => withCommon_strip hspace htrack
  constructor
  · intro h
    exact hrestored.mp h.restored
  · intro huniform
    exact ⟨hrestored.mpr huniform, hspace, hpackaging, hrender, halt⟩

/-- Two tracks that agree on all but the namespace. -/
def twoTracks : List Track :=
  [⟨some "a", "0.m4s", some .cmaf, some 1, none⟩, ⟨none, "1.m4s", some .cmaf, some 1, none⟩]

theorem fromTracks_losesNothing_twoTracks : LosesNothing twoTracks :=
  (fromTracks_losesNothing_iff (List.cons_ne_nil _ _)).mpr
    ⟨by simp [Uniform], by simp [Uniform], by simp [Uniform]⟩

/-- Two tracks with different render groups have none afterwards. -/
theorem not_fromTracks_losesNothing_renderGroups :
    ¬ LosesNothing [⟨none, "0.m4s", none, some 1, none⟩, ⟨none, "1.m4s", none, some 2, none⟩] := by
  intro h
  have hrestored := h.restored
  revert hrestored
  decide

end CommonTrackFields

end MoqTransport.Catalog
