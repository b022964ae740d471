import MoqTransport.Mp4.Fragments

/-!
Where a subscriber can join. A group of a video track should begin with a
keyframe, but a keyframe of any video track ends the groups of all: with more
than one of them a track may have to begin a group with whatever comes next
(`Media.decodable_iff`).
-/

namespace MoqTransport.Mp4

open Streaming Splitter Serve

def StartsWithKeyframe (f : Formats) (group : List Bytes) : Prop :=
  ∃ atom rest fragment, group = atom :: rest ∧ kind f atom = .moof fragment ∧
    fragment.keyframe = true

/-- Every group of a video track after the first starts with a keyframe. -/
def Track.Decodable (f : Formats) (track : Track) : Prop :=
  track.handler = .video → ∀ group ∈ track.track.payloads.tail, StartsWithKeyframe f group

def fragment? (f : Formats) (atom : Bytes) : Option Fragment :=
  match kind f atom with
  | .moof fragment => some fragment
  | _ => none

/-- The fragments of a stream, by the moofs. -/
def fragments (f : Formats) (atoms : List Bytes) : List Fragment := atoms.filterMap (fragment? f)

section Overtaken

variable {video : UInt32 → Prop} {id : UInt32} {before : List Fragment} {fr : Fragment}

/-- Since the last fragment of the track there was a keyframe of some video
track. -/
def Overtaken (video : UInt32 → Prop) (id : UInt32) (before : List Fragment) : Prop :=
  ∃ first prev mid, before = first ++ prev :: mid ∧ prev.track = id ∧
    (∀ fr ∈ mid, fr.track ≠ id) ∧ ∃ key ∈ mid, key.keyframe = true ∧ video key.track

/-- Only keyframes come on a video track that has been overtaken. -/
def Timely (video : UInt32 → Prop) (frs : List Fragment) : Prop :=
  ∀ before fr, before ++ [fr] <+: frs → video fr.track → fr.keyframe = false →
    ¬ Overtaken video fr.track before

theorem exists_last (h : ∃ prev ∈ before, prev.track = id) :
    ∃ first prev mid, before = first ++ prev :: mid ∧ prev.track = id ∧
      ∀ fr ∈ mid, fr.track ≠ id := by
  induction before using List.reverseRecOn with
  | nil =>
      obtain ⟨prev, hprev, -⟩ := h
      cases hprev
  | append_singleton before fr ih =>
      by_cases hfr : fr.track = id
      · refine ⟨before, fr, [], rfl, hfr, ?_⟩
        intro other hother
        cases hother
      · obtain ⟨prev, hprev, hid⟩ := h
        have hold : prev ∈ before := by
          rcases List.mem_append.mp hprev with hold | hlast
          · exact hold
          · rw [List.mem_singleton.mp hlast] at hid
            exact absurd hid hfr
        obtain ⟨first, last, mid, rfl, hlast, hmid⟩ := ih ⟨prev, hold, hid⟩
        exact ⟨first, last, mid ++ [fr], by simp, hlast, Machine.forall_mem_concat hmid hfr⟩

theorem Overtaken.exists_fragment (h : Overtaken video id before) :
    ∃ prev ∈ before, prev.track = id := by
  obtain ⟨first, prev, mid, rfl, hprev, -⟩ := h
  exact ⟨prev, by simp, hprev⟩

theorem overtaken_concat_iff :
    Overtaken video id (before ++ [fr]) ↔ fr.track ≠ id ∧ (Overtaken video id before ∨
      (fr.keyframe = true ∧ video fr.track) ∧ ∃ prev ∈ before, prev.track = id) := by
  constructor
  · rintro ⟨first, prev, mid, heq, hprev, hmid, key, hkey, hsync⟩
    rcases List.eq_nil_or_concat mid with rfl | ⟨mid, last, rfl⟩
    · cases hkey
    · rw [List.concat_eq_append] at heq hmid hkey
      have hsplit : before ++ [fr] = (first ++ prev :: mid) ++ [last] := by rw [heq]; simp
      obtain ⟨rfl, hlast⟩ := List.append_inj' hsplit rfl
      obtain rfl := List.singleton_inj.mp hlast
      have hother : ∀ other ∈ mid, other.track ≠ id :=
        fun other h => hmid other (List.mem_append_left _ h)
      refine ⟨hmid fr (by simp), ?_⟩
      rcases List.mem_append.mp hkey with hold | hnew
      · exact .inl ⟨first, prev, mid, rfl, hprev, hother, key, hold, hsync⟩
      · obtain rfl := List.mem_singleton.mp hnew
        exact .inr ⟨hsync, prev, by simp, hprev⟩
  · rintro ⟨hne, ⟨first, prev, mid, rfl, hprev, hmid, key, hkey, hsync⟩ | ⟨hsync, hsome⟩⟩
    · exact ⟨first, prev, mid ++ [fr], by simp, hprev, Machine.forall_mem_concat hmid hne,
        key, by simp [hkey], hsync⟩
    · obtain ⟨first, prev, mid, rfl, hprev, hmid⟩ := exists_last hsome
      exact ⟨first, prev, mid ++ [fr], by simp, hprev, Machine.forall_mem_concat hmid hne,
        fr, by simp, hsync⟩

theorem timely_concat_iff :
    Timely video (before ++ [fr]) ↔ Timely video before ∧
      (video fr.track → fr.keyframe = false → ¬ Overtaken video fr.track before) := by
  constructor
  · intro h
    refine ⟨?_, h before fr List.prefix_rfl⟩
    intro first other hother
    exact h first other (hother.trans (List.prefix_append _ _))
  · rintro ⟨hold, hnew⟩ first other hother
    rcases List.prefix_concat_iff.mp hother with heq | hprev
    · obtain ⟨rfl, hlast⟩ := List.append_inj' heq rfl
      obtain rfl := List.singleton_inj.mp hlast
      exact hnew
    · exact hold first other hprev

end Overtaken

section Groups

variable {f : Formats} {payloads before : List (List Bytes)} {last : List Bytes} {atom : Bytes}
  {fragment : Fragment}

/-- A new group counts unless it is the first. -/
theorem tail_first_iff (hkind : kind f atom = .moof fragment) :
    (∀ group ∈ (payloads ++ [[atom]]).tail, StartsWithKeyframe f group) ↔
      (∀ group ∈ payloads.tail, StartsWithKeyframe f group) ∧
        (payloads ≠ [] → fragment.keyframe = true) := by
  have hstarts : StartsWithKeyframe f [atom] ↔ fragment.keyframe = true := by
    constructor
    · rintro ⟨_, _, found, ⟨⟩, hfound, hkeyframe⟩
      obtain rfl := Kind.moof.inj (hkind.symm.trans hfound)
      exact hkeyframe
    · intro hkeyframe
      exact ⟨atom, [], fragment, rfl, hkind, hkeyframe⟩
  cases payloads with
  | nil => simp
  | cons first payloads =>
      rw [List.cons_append, List.tail_cons, List.tail_cons, List.forall_mem_append,
        List.forall_mem_singleton, hstarts]
      simp

/-- A group that goes on starts as it did. -/
theorem tail_next_iff (hlast : last ≠ []) :
    (∀ group ∈ (before ++ [last ++ [atom]]).tail, StartsWithKeyframe f group) ↔
      ∀ group ∈ (before ++ [last]).tail, StartsWithKeyframe f group := by
  have hstarts : StartsWithKeyframe f (last ++ [atom]) ↔ StartsWithKeyframe f last := by
    obtain ⟨first, rest, rfl⟩ := List.exists_cons_of_ne_nil hlast
    constructor
    · rintro ⟨_, _, fragment, ⟨⟩, hkind, hkeyframe⟩
      exact ⟨first, rest, fragment, rfl, hkind, hkeyframe⟩
    · rintro ⟨_, _, fragment, ⟨⟩, hkind, hkeyframe⟩
      exact ⟨first, rest ++ [atom], fragment, rfl, hkind, hkeyframe⟩
  cases before with
  | nil => simp
  | cons first before =>
      rw [List.cons_append, List.cons_append, List.tail_cons, List.tail_cons,
        List.forall_mem_append, List.forall_mem_append, List.forall_mem_singleton,
        List.forall_mem_singleton, hstarts]

end Groups

/-- A group is never empty. -/
theorem ne_nil_of_whole {f : Formats} {id : UInt32} {group : List Bytes}
    (h : Whole f id group ∨ Begun f id group) : group ≠ [] := by
  rcases h with ⟨pairs, hsome, -, rfl⟩ | ⟨before, moof, -, -, rfl⟩
  · obtain ⟨pair, pairs, rfl⟩ := List.exists_cons_of_ne_nil hsome
    simp
  · simp

namespace Track

variable {f : Formats} {track track' : Track} {atom : Bytes}

theorem Grows.payloads_ne_nil (h : Grows track atom track') : track'.track.payloads ≠ [] := by
  cases h.publishes with
  | first _ hnew =>
      rw [hnew]
      exact List.append_ne_nil_of_right_ne_nil _ (List.cons_ne_nil _ _)
  | next _ _ hnew =>
      rw [hnew]
      exact List.append_ne_nil_of_right_ne_nil _ (List.cons_ne_nil _ _)

theorem Grows.current_ne_none (h : Grows track atom track') : track'.current ≠ none :=
  Option.isSome_iff_ne_none.mp h.current

/-- A track that goes on with its group is as decodable as before. -/
theorem decodable_next_iff (hgrows : Grows track atom track') (hsome : track.current.isSome)
    (hgroups : ∀ group ∈ track.track.payloads, group ≠ []) :
    track'.Decodable f ↔ track.Decodable f := by
  unfold Decodable
  rw [hgrows.handler]
  refine imp_congr_right fun _ => ?_
  cases hgrows.publishes with
  | first hnone =>
      rw [hnone] at hsome
      cases hsome
  | @next before last _ hold hnew =>
      rw [hold, hnew]
      exact tail_next_iff (hgroups last (by rw [hold]; simp))

/-- A moof may begin a group. -/
theorem decodable_moof_iff {fragment : Fragment} (hgrows : Grows track atom track')
    (hkind : kind f atom = .moof fragment)
    (hgroups : ∀ group ∈ track.track.payloads, group ≠ []) :
    track'.Decodable f ↔ track.Decodable f ∧
      (track.handler = .video → track.current = none → track.track.payloads ≠ [] →
        fragment.keyframe = true) := by
  cases hcurrent : track.current with
  | some current =>
      rw [decodable_next_iff hgrows (by rw [hcurrent]; rfl) hgroups]
      simp
  | none =>
      unfold Decodable
      rw [hgrows.handler, ← imp_and]
      refine imp_congr_right fun _ => ?_
      cases hgrows.publishes with
      | first _ hpayloads =>
          rw [hpayloads, tail_first_iff hkind]
          simp
      | next hsome =>
          rw [hcurrent] at hsome
          cases hsome

end Track

namespace Media

variable {f : Formats} {m m' : Media} {sorted : Sorted} {frs : List Fragment} {atom : Bytes}

def Video (m : Media) (id : UInt32) : Prop :=
  ∃ track, m.tracks id = some track ∧ track.handler = .video

/-- A subscriber that joins at any group but the first can decode it. -/
def Decodable (f : Formats) (m : Media) : Prop :=
  ∀ id track, m.tracks id = some track → track.Decodable f

/-- Where the tracks stand after the fragments so far. -/
structure Follows (f : Formats) (frs : List Fragment) (m : Media) : Prop where
  fresh : m.moov = none → frs = []
  begun : ∀ id track, m.tracks id = some track →
    (track.track.payloads = [] ↔ ∀ fr ∈ frs, fr.track ≠ id)
  idle : ∀ id track, m.tracks id = some track → track.track.payloads ≠ [] →
    (track.current = none ↔ Overtaken m.Video id frs)
  decodable : Decodable f m ↔ Timely m.Video frs

/-- What the end of the groups leaves of a track. -/
structure Ended (reset : Prop) (old track : Track) : Prop where
  handler : track.handler = old.handler
  payloads : track.track.payloads = old.track.payloads
  current : track.current = none ↔ old.current = none ∨ reset

/-- The groups are ended by a keyframe of a video track. -/
theorem ended_of_endGroups {fragment : Fragment} {mid : Media}
    (h : m.endGroups fragment = .ok mid) :
    (∀ id track, mid.tracks id = some track → ∃ old, m.tracks id = some old ∧
        Ended (fragment.keyframe = true ∧ m.Video fragment.track) old track) ∧
      ∀ id old, m.tracks id = some old → ∃ track, mid.tracks id = some track ∧
        Ended (fragment.keyframe = true ∧ m.Video fragment.track) old track := by
  have hsame (hno : ¬(fragment.keyframe = true ∧ m.Video fragment.track)) (track : Track) :
      Ended (fragment.keyframe = true ∧ m.Video fragment.track) track track :=
    ⟨rfl, rfl, by simp [hno]⟩
  have hkeep (hno : ¬(fragment.keyframe = true ∧ m.Video fragment.track)) :
      (∀ id track, m.tracks id = some track → ∃ old, m.tracks id = some old ∧
          Ended (fragment.keyframe = true ∧ m.Video fragment.track) old track) ∧
        ∀ id old, m.tracks id = some old → ∃ track, m.tracks id = some track ∧
          Ended (fragment.keyframe = true ∧ m.Video fragment.track) old track :=
    ⟨fun _ track htrack => ⟨track, htrack, hsame hno track⟩,
      fun _ old hold => ⟨old, hold, hsame hno old⟩⟩
  unfold endGroups at h
  split at h
  · next hkeyframe =>
      obtain ⟨track, htrack, h⟩ := ok_of_bind h
      obtain rfl := Except.ok.inj h
      split
      · next hvideo =>
          have hreset : fragment.keyframe = true ∧ m.Video fragment.track :=
            ⟨hkeyframe, track, findTrack_ok htrack, hvideo⟩
          have hended (old : Track) :
              Ended (fragment.keyframe = true ∧ m.Video fragment.track) old old.endGroup :=
            ⟨old.endGroup_handler, old.endGroup_payloads,
              iff_of_true old.endGroup_current (.inr hreset)⟩
          constructor
          · intro id found hfound
            obtain ⟨old, hold, rfl⟩ := Option.map_eq_some_iff.mp hfound
            exact ⟨old, hold, hended old⟩
          · intro id old hold
            exact ⟨old.endGroup, Option.map_eq_some_iff.mpr ⟨old, hold, rfl⟩, hended old⟩
      · next hother =>
          apply hkeep
          rintro ⟨-, other, hfound, hvideo⟩
          obtain rfl := Option.some.inj ((findTrack_ok htrack).symm.trans hfound)
          exact hother hvideo
  · next hkeyframe =>
      obtain rfl := Except.ok.inj h
      exact hkeep fun hboth => hkeyframe hboth.1

theorem video_ended {fragment : Fragment} {mid : Media} (h : m.endGroups fragment = .ok mid) :
    mid.Video = m.Video := by
  obtain ⟨hback, hforth⟩ := ended_of_endGroups h
  funext id
  apply propext
  constructor
  · rintro ⟨track, htrack, hvideo⟩
    obtain ⟨old, hold, hended⟩ := hback id track htrack
    exact ⟨old, hold, hended.handler.symm.trans hvideo⟩
  · rintro ⟨old, hold, hvideo⟩
    obtain ⟨track, htrack, hended⟩ := hforth id old hold
    exact ⟨track, htrack, hended.handler.trans hvideo⟩

theorem decodable_ended {fragment : Fragment} {mid : Media}
    (h : m.endGroups fragment = .ok mid) : Decodable f mid ↔ Decodable f m := by
  obtain ⟨hback, hforth⟩ := ended_of_endGroups h
  constructor
  · intro hall id old hold
    obtain ⟨track, htrack, hended⟩ := hforth id old hold
    have htail := hall id track htrack
    unfold Track.Decodable at htail ⊢
    rwa [hended.handler, hended.payloads] at htail
  · intro hall id track htrack
    obtain ⟨old, hold, hended⟩ := hback id track htrack
    unfold Track.Decodable
    rw [hended.handler, hended.payloads]
    exact hall id old hold

/-- Writing to a track changes no handler. -/
theorem video_setTrack {id : UInt32} {track track' : Track} (htrack : m.tracks id = some track)
    (hhandler : track'.handler = track.handler) : (m.setTrack id track').Video = m.Video := by
  funext other
  apply propext
  constructor
  · rintro ⟨found, hfound, hvideo⟩
    rcases setTrack_tracks hfound with ⟨rfl, rfl⟩ | ⟨-, hsame⟩
    · exact ⟨track, htrack, hhandler.symm.trans hvideo⟩
    · exact ⟨found, hsame, hvideo⟩
  · rintro ⟨found, hfound, hvideo⟩
    by_cases hid : other = id
    · subst hid
      obtain rfl := Option.some.inj (htrack.symm.trans hfound)
      exact ⟨track', setTrack_same .., hhandler.trans hvideo⟩
    · exact ⟨found, (setTrack_of_ne hid track').trans hfound, hvideo⟩

theorem decodable_setTrack_iff {id : UInt32} {track track' : Track} {also : Prop}
    (htrack : m.tracks id = some track) (h : track'.Decodable f ↔ track.Decodable f ∧ also) :
    Decodable f (m.setTrack id track') ↔ Decodable f m ∧ also := by
  constructor
  · intro hall
    obtain ⟨hold, halso⟩ := h.mp (hall id track' (setTrack_same ..))
    refine ⟨?_, halso⟩
    intro other found hfound
    by_cases hid : other = id
    · subst hid
      obtain rfl := Option.some.inj (htrack.symm.trans hfound)
      exact hold
    · exact hall other found ((setTrack_of_ne hid track').trans hfound)
  · rintro ⟨hall, halso⟩ other found hfound
    rcases setTrack_tracks hfound with ⟨rfl, rfl⟩ | ⟨-, hsame⟩
    · exact h.mpr ⟨hall id track htrack, halso⟩
    · exact hall other found hsame

theorem Inv.groups (hinv : Inv f sorted m) {id : UInt32} {track : Track}
    (htrack : m.tracks id = some track) : ∀ group ∈ track.track.payloads, group ≠ [] := by
  intro group hgroup
  obtain ⟨i, hi⟩ := List.mem_iff_getElem?.mp hgroup
  rcases hinv.whole id track htrack i group hi with hwhole | ⟨-, -, hbegun⟩
  · exact ne_nil_of_whole (.inl hwhole)
  · exact ne_nil_of_whole (.inr hbegun)

/-- Before the first moof nothing has been published. -/
theorem follows_of_empty (hempty : ∀ id track, m.tracks id = some track →
    track.track.payloads = []) : Follows f [] m := by
  constructor
  · intro _
    rfl
  · intro id track htrack
    refine iff_of_true (hempty id track htrack) ?_
    intro fr hfr
    cases hfr
  · intro id track htrack hbegun
    exact absurd (hempty id track htrack) hbegun
  · refine iff_of_true ?_ ?_
    · intro id track htrack _ group hgroup
      rw [hempty id track htrack] at hgroup
      cases hgroup
    · intro before fr hbefore
      have hnil := List.prefix_nil.mp hbefore
      simp at hnil

theorem Follows.mdat {id : UInt32} {track track' : Track} (hinv : Inv f sorted m)
    (hfollows : Follows f frs m) (htrack : m.tracks id = some track)
    (hsome : track.current.isSome) (hgrows : Track.Grows track atom track') :
    Follows f frs { m.setTrack id track' with current := none } := by
  have hvideo := video_setTrack htrack hgrows.handler
  have hbegun : track.track.payloads ≠ [] := by
    cases hgrows.publishes with
    | first hnone =>
        rw [hnone] at hsome
        cases hsome
    | next _ hold =>
        rw [hold]
        exact List.append_ne_nil_of_right_ne_nil _ (List.cons_ne_nil _ _)
  constructor
  · exact hfollows.fresh
  · intro other found hfound
    rcases setTrack_tracks hfound with ⟨rfl, rfl⟩ | ⟨-, hsame⟩
    · exact iff_of_false hgrows.payloads_ne_nil
        (mt (hfollows.begun id track htrack).mpr hbegun)
    · exact hfollows.begun other found hsame
  · intro other found hfound hsomething
    change _ ↔ Overtaken (m.setTrack id track').Video other frs
    rw [hvideo]
    rcases setTrack_tracks hfound with ⟨rfl, rfl⟩ | ⟨-, hsame⟩
    · rw [← hfollows.idle id track htrack hbegun]
      exact iff_of_false hgrows.current_ne_none (Option.isSome_iff_ne_none.mp hsome)
    · exact hfollows.idle other found hsame hsomething
  · change Decodable f (m.setTrack id track') ↔ Timely (m.setTrack id track').Video frs
    rw [hvideo, ← hfollows.decodable]
    have hnext : track'.Decodable f ↔ track.Decodable f ∧ True := by
      rw [Track.decodable_next_iff hgrows hsome (hinv.groups htrack), and_true]
    rw [decodable_setTrack_iff htrack hnext, and_true]

/-- The keyframe that a new group needs is the one that `Timely` asks for. -/
theorem Follows.needs_keyframe_iff {fragment : Fragment} {old track : Track}
    (hfollows : Follows f frs m) (hold : m.tracks fragment.track = some old)
    (hended : Ended (fragment.keyframe = true ∧ m.Video fragment.track) old track) :
    (track.handler = .video → track.current = none → track.track.payloads ≠ [] →
        fragment.keyframe = true) ↔
      (m.Video fragment.track → fragment.keyframe = false →
        ¬ Overtaken m.Video fragment.track frs) := by
  constructor
  · rintro hneeds ⟨found, hfound, hhandler⟩ hplain hovertaken
    obtain rfl := Option.some.inj (hold.symm.trans hfound)
    have hbegun : old.track.payloads ≠ [] := by
      intro hnone
      obtain ⟨prev, hprev, hid⟩ := hovertaken.exists_fragment
      exact (hfollows.begun _ old hold).mp hnone prev hprev hid
    have hkeyframe := hneeds (hended.handler.trans hhandler)
      (hended.current.mpr (.inl ((hfollows.idle _ old hold hbegun).mpr hovertaken)))
      (by rwa [hended.payloads])
    rw [hplain] at hkeyframe
    cases hkeyframe
  · intro htimely hhandler hnone hbegun
    rw [hended.payloads] at hbegun
    rcases hended.current.mp hnone with hidle | hreset
    · by_contra hplain
      exact htimely ⟨old, hold, hended.handler.symm.trans hhandler⟩
        (Bool.eq_false_iff.mpr hplain) ((hfollows.idle _ old hold hbegun).mp hidle)
    · exact hreset.1

/-- Where a moof begins a group, its track is new or was overtaken. -/
theorem Follows.moof {fragment : Fragment} {mid : Media} {track track' : Track}
    (hinv : Inv f sorted m) (hfollows : Follows f frs m)
    (hended : m.endGroups fragment = .ok mid) (hkind : kind f atom = .moof fragment)
    (htrack : mid.tracks fragment.track = some track)
    (hgrows : Track.Grows track atom track') :
    Follows f (frs ++ [fragment])
      { mid.setTrack fragment.track track' with current := some fragment.track } := by
  obtain ⟨hback, -⟩ := ended_of_endGroups hended
  obtain ⟨old, hold, hown⟩ := hback _ track htrack
  have hvideo : (mid.setTrack fragment.track track').Video = m.Video :=
    (video_setTrack htrack hgrows.handler).trans (video_ended hended)
  have hgroups : ∀ group ∈ track.track.payloads, group ≠ [] := by
    rw [hown.payloads]
    exact hinv.groups hold
  constructor
  · intro hmoov
    exact absurd ((endGroups_moov hended).symm.trans hmoov) (hinv.moov_ne_none hold)
  · intro other found hfound
    rcases setTrack_tracks hfound with ⟨rfl, rfl⟩ | ⟨hne, hsame⟩
    · refine iff_of_false hgrows.payloads_ne_nil ?_
      intro hall
      exact hall fragment (by simp) rfl
    · obtain ⟨was, hwas, hother⟩ := hback other found hsame
      rw [hother.payloads, hfollows.begun other was hwas, List.forall_mem_append,
        List.forall_mem_singleton]
      exact (and_iff_left hne).symm
  · intro other found hfound hbegun
    change _ ↔ Overtaken (mid.setTrack fragment.track track').Video other (frs ++ [fragment])
    rw [hvideo, overtaken_concat_iff]
    rcases setTrack_tracks hfound with ⟨rfl, rfl⟩ | ⟨hne, hsame⟩
    · exact iff_of_false hgrows.current_ne_none (by simp)
    · obtain ⟨was, hwas, hother⟩ := hback other found hsame
      rw [hother.payloads] at hbegun
      have hsome : ∃ prev ∈ frs, prev.track = other := by
        have hnot := mt (hfollows.begun other was hwas).mpr hbegun
        push Not at hnot
        exact hnot
      rw [hother.current, hfollows.idle other was hwas hbegun]
      simp [hne, hsome]
  · change Decodable f (mid.setTrack fragment.track track') ↔
      Timely (mid.setTrack fragment.track track').Video (frs ++ [fragment])
    rw [hvideo, timely_concat_iff, ← hfollows.decodable, ← decodable_ended hended,
      ← hfollows.needs_keyframe_iff hold hown]
    exact decodable_setTrack_iff htrack (Track.decodable_moof_iff hgrows hkind hgroups)

theorem Follows.step (hinv : Inv f sorted m) (hfollows : Follows f frs m)
    (h : Steps f m atom m') : Follows f (frs ++ (fragment? f atom).toList) m' := by
  cases h with
  | skip hkind htracks hcurrent hmoov =>
      have hnone : fragment? f atom = none := by rw [fragment?, hkind]
      have hvideo : m'.Video = m.Video := by
        funext id
        rw [Video, htracks]
        rfl
      rw [hnone, Option.toList_none, List.append_nil]
      constructor
      · rw [hmoov]
        exact hfollows.fresh
      · rw [htracks]
        exact hfollows.begun
      · rw [htracks, hvideo]
        exact hfollows.idle
      · rw [hvideo, ← hfollows.decodable, Decodable, Decodable, htracks]
  | setup hkind hmoov htracks hcurrent hmoov' =>
      have hnone : fragment? f atom = none := by rw [fragment?, hkind]
      rw [hnone, Option.toList_none, List.append_nil, hfollows.fresh hmoov]
      have hnew (id : UInt32) (track : Track) (h : m'.tracks id = some track) :
          track.track.payloads = [] := by
        rcases htracks id track h with hold | ⟨handler, timescale, rfl⟩
        · cases ((hinv.fresh hmoov).1 id).symm.trans hold
        · rfl
      exact follows_of_empty hnew
  | @moof fragment mid track track' hkind hcurrent hended htrack hheader =>
      have hsome : fragment? f atom = some fragment := by rw [fragment?, hkind]
      have hmid := hinv.ended hcurrent hended
      have hgrows := Track.grows_of_header (hmid.sound _ _ htrack) hheader
      rw [hsome]
      exact hfollows.moof hinv hended hkind htrack hgrows
  | mdat hkind hcurrent htrack hdata =>
      have hnone : fragment? f atom = none := by rw [fragment?, hkind]
      obtain ⟨hsome, hgrows⟩ := Track.grows_of_data (hinv.sound _ _ htrack) hdata
      rw [hnone, Option.toList_none, List.append_nil]
      exact hfollows.mdat hinv htrack hsome hgrows

theorem follows_of_atoms {atoms : List Bytes} (hinv : Inv f sorted m)
    (hfollows : Follows f frs m) (h : atoms.foldlM (parseAtom f) m = .ok m') :
    Follows f (frs ++ fragments f atoms) m' := by
  induction atoms generalizing sorted frs m with
  | nil =>
      obtain rfl := Except.ok.inj h
      rw [fragments, List.filterMap_nil, List.append_nil]
      exact hfollows
  | cons atom atoms ih =>
      rw [List.foldlM_cons] at h
      obtain ⟨mid, hatom, hrest⟩ := ok_of_bind h
      have hsteps := steps_of_parseAtom hatom
      have hmore := ih (hinv.step hsteps) (hfollows.step hinv hsteps) hrest
      have hsplit : fragments f (atom :: atoms) =
          (fragment? f atom).toList ++ fragments f atoms := by
        cases hatom : fragment? f atom <;> simp [fragments, hatom]
      rwa [hsplit, ← List.append_assoc]

theorem follows_new (htracks : ∀ id, m.tracks id = none) : Follows f [] m := by
  apply follows_of_empty
  intro id track htrack
  cases (htracks id).symm.trans htrack

/-- Of a stream that is accepted, every group of a video track after the first
starts with a keyframe exactly if a video track that was overtaken by a
keyframe of another goes on with a keyframe of its own. -/
theorem decodable_iff (f : Formats) {broadcast : Watch.State (List String)} {start m : Media}
    {pieces : List Bytes} {rest : Bytes} (hnew : Media.new broadcast = .ok start)
    (hrun : start.run f [] pieces = .ok (m, rest)) :
    ∃ atoms, split nextAtom pieces.flatten = ⟨atoms, rest, none⟩ ∧
      (Decodable f m ↔ Timely m.Video (fragments f atoms)) := by
  obtain ⟨atoms, hsplit, hfold⟩ := atoms_of_run rfl hrun
  obtain ⟨hnone, hidle⟩ := new_ok hnew
  have hfollows := follows_of_atoms (inv_new hnone hidle) (follows_new hnone) hfold
  exact ⟨atoms, hsplit, hfollows.decodable⟩

/-- Two video tracks that take turns, each time with a keyframe first. -/
def inTurns : List Bytes :=
  [Sample.ftyp ++ Sample.moov [1, 2],
    Sample.moof 1 Sample.keyframe ++ Sample.mdat, Sample.moof 1 Sample.deltaFrame ++ Sample.mdat,
    Sample.moof 2 Sample.keyframe ++ Sample.mdat, Sample.moof 2 Sample.deltaFrame ++ Sample.mdat,
    Sample.moof 1 Sample.keyframe ++ Sample.mdat, Sample.moof 1 Sample.deltaFrame ++ Sample.mdat,
    Sample.moof 2 Sample.keyframe ++ Sample.mdat, Sample.moof 2 Sample.deltaFrame ++ Sample.mdat]

/-- Every group of both tracks starts with a keyframe. -/
theorem decodable_iff_inTurns :
    ∃ start m rest, Media.new (.new []) = .ok start ∧
      start.run Sample.formats [] inTurns = .ok (m, rest) ∧ Decodable Sample.formats m := by
  obtain ⟨start, m, rest, hnew, hrun, -⟩ := Sample.ok_of_publish inTurns (by decide +kernel)
  obtain ⟨atoms, hsplit, hiff⟩ := decodable_iff Sample.formats hnew hrun
  have hfragments : fragments Sample.formats (split nextAtom inTurns.flatten).items =
      [] ++ [⟨1, 0, true⟩] ++ [⟨1, 0, false⟩] ++ [⟨2, 0, true⟩] ++ [⟨2, 0, false⟩] ++
        [⟨1, 0, true⟩] ++ [⟨1, 0, false⟩] ++ [⟨2, 0, true⟩] ++ [⟨2, 0, false⟩] := by
    decide +kernel
  rw [hsplit] at hfragments
  have hnone : Timely m.Video [] := fun before fr h => by simp at h
  refine ⟨start, m, rest, hnew, hrun, hiff.mpr ?_⟩
  rw [hfragments]
  simp only [timely_concat_iff, overtaken_concat_iff]
  simp [hnone]

/-- Two video tracks whose keyframes do not come together. -/
def staggered : List Bytes :=
  [Sample.ftyp ++ Sample.moov [1, 2],
    Sample.moof 1 Sample.keyframe ++ Sample.mdat, Sample.moof 2 Sample.keyframe ++ Sample.mdat,
    Sample.moof 1 Sample.keyframe ++ Sample.mdat, Sample.moof 2 Sample.deltaFrame ++ Sample.mdat]

/-- The second group of the second track starts with a delta frame. -/
theorem not_decodable_staggered :
    ¬ ∀ start m rest, Media.new (.new []) = .ok start →
      start.run Sample.formats [] staggered = .ok (m, rest) → Decodable Sample.formats m := by
  intro hall
  have htrack : ((Sample.publish staggered).toOption.bind fun p =>
      (p.1.tracks 2).map fun track => (track.handler, track.track.payloads)) =
        some (.video, [[Sample.moof 2 Sample.keyframe, Sample.mdat],
          [Sample.moof 2 Sample.deltaFrame, Sample.mdat]]) := by
    decide +kernel
  obtain ⟨start, m, rest, hnew, hrun, hpublish⟩ :=
    Sample.ok_of_publish staggered (by decide +kernel)
  rw [hpublish] at htrack
  obtain ⟨track, hfound, hpair⟩ := Option.map_eq_some_iff.mp htrack
  obtain ⟨hvideo, hpayloads⟩ := Prod.mk.inj hpair
  have hdecodable := hall start m rest hnew hrun 2 track hfound hvideo
  rw [hpayloads] at hdecodable
  obtain ⟨_, _, fragment, ⟨⟩, hkind, hkeyframe⟩ := hdecodable _ (List.mem_singleton_self _)
  have hdelta : kind Sample.formats (Sample.moof 2 Sample.deltaFrame) = .moof ⟨2, 0, false⟩ := by
    decide +kernel
  rw [hdelta] at hkind
  obtain rfl := Kind.moof.inj hkind
  cases hkeyframe

end Media

end MoqTransport.Mp4
