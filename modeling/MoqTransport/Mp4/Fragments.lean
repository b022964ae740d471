import MoqTransport.Lib.Machine
import MoqTransport.Mp4.Publish

/-!
What the publisher makes of a whole stream. The atoms of a fragment, its moof
and its mdat, end up side by side in one group of the fragment's track, for
every stream that is accepted (`Media.published_whole`): a keyframe ends the
groups of all tracks, but only between two fragments.
-/

namespace MoqTransport.Mp4

open Streaming Splitter Serve

/-- What an atom is for the publisher. -/
inductive Kind where
  | moof (fragment : Fragment)
  | mdat
  | other
deriving DecidableEq

def kind (f : Formats) (atom : Bytes) : Kind :=
  match f.header atom with
  | .ok .moof =>
      match f.moof atom with
      | .ok moof =>
          match Fragment.new moof with
          | .ok fragment => .moof fragment
          | .error _ => .other
      | .error _ => .other
  | .ok .mdat => .mdat
  | _ => .other

/-- The atoms of the fragments with the tracks they belong to: an mdat to the
track of the moof before it. -/
structure Sorted where
  last : Option UInt32
  owned : List (UInt32 × Bytes)
deriving DecidableEq

namespace Sorted

def add (f : Formats) (sorted : Sorted) (atom : Bytes) : Sorted :=
  match kind f atom with
  | .moof fragment => ⟨some fragment.track, sorted.owned ++ [(fragment.track, atom)]⟩
  | .mdat => { sorted with owned := sorted.owned ++ sorted.last.toList.map (·, atom) }
  | .other => sorted

def ofAtoms (f : Formats) (atoms : List Bytes) : Sorted := atoms.foldl (add f) ⟨none, []⟩

/-- The atoms of one track, in their order. -/
def ofTrack (sorted : Sorted) (id : UInt32) : List Bytes :=
  (sorted.owned.filter fun p => p.1 == id).map Prod.snd

end Sorted

/-- Every moof is followed by an mdat before the next moof, and there is no
other mdat; `waiting` says whether an mdat is due. -/
def Alternates (f : Formats) : Bool → List Bytes → Prop
  | _, [] => True
  | waiting, atom :: atoms =>
      match kind f atom with
      | .moof _ => waiting = false ∧ Alternates f true atoms
      | .mdat => waiting = true ∧ Alternates f false atoms
      | .other => Alternates f waiting atoms

def IsMoof (f : Formats) (id : UInt32) (atom : Bytes) : Prop :=
  ∃ fragment, kind f atom = .moof fragment ∧ fragment.track = id

/-- Fragments of one track, at least one, with their moof and mdat side by
side. -/
def Whole (f : Formats) (id : UInt32) (group : List Bytes) : Prop :=
  ∃ pairs : List (Bytes × Bytes), pairs ≠ [] ∧
    (∀ pair ∈ pairs, IsMoof f id pair.1 ∧ kind f pair.2 = .mdat) ∧
    group = pairs.flatMap fun pair => [pair.1, pair.2]

/-- The same with a last moof whose mdat is due. -/
def Begun (f : Formats) (id : UInt32) (group : List Bytes) : Prop :=
  ∃ before moof, (before = [] ∨ Whole f id before) ∧ IsMoof f id moof ∧ group = before ++ [moof]

theorem Sorted.ofTrack_concat (last : Option UInt32) (owned : List (UInt32 × Bytes))
    (id other : UInt32) (atom : Bytes) :
    Sorted.ofTrack ⟨last, owned ++ [(id, atom)]⟩ other =
      Sorted.ofTrack ⟨last, owned⟩ other ++ if id = other then [atom] else [] := by
  simp only [Sorted.ofTrack, List.filter_append, List.map_append]
  congr 1
  by_cases hid : id = other
  · simp [hid]
  · simp [hid]

theorem Begun.whole {f : Formats} {id : UInt32} {atom : Bytes} {group : List Bytes}
    (h : Begun f id group) (hkind : kind f atom = .mdat) : Whole f id (group ++ [atom]) := by
  obtain ⟨before, moof, hbefore, hmoof, rfl⟩ := h
  rcases hbefore with rfl | ⟨pairs, hsome, hpairs, rfl⟩
  · exact ⟨[(moof, atom)], by simp, List.forall_mem_singleton.mpr ⟨hmoof, hkind⟩, rfl⟩
  · exact ⟨pairs ++ [(moof, atom)], by simp,
      Machine.forall_mem_concat hpairs ⟨hmoof, hkind⟩, by simp⟩

namespace Media

/-- `parse`: the atoms in the buffer, one after the other. -/
def parseFuel (f : Formats) : Nat → Media → Bytes → Except (Fault String) (Media × Bytes)
  | 0, m, buf => .ok (m, buf)
  | fuel + 1, m, buf => do
      match ← nextAtom buf with
      | none => pure (m, buf)
      | some (atom, rest) =>
          let m ← m.parseAtom f atom
          parseFuel f fuel m rest

def parse (f : Formats) (m : Media) (buf : Bytes) : Except (Fault String) (Media × Bytes) :=
  parseFuel f (buf.length + 1) m buf

/-- `run_media` on the pieces it reads. -/
def run (f : Formats) : Media → Bytes → List Bytes → Except (Fault String) (Media × Bytes)
  | m, buf, [] => .ok (m, buf)
  | m, buf, piece :: pieces => do
      let (m, buf) ← m.parse f (buf ++ piece)
      run f m buf pieces

variable {f : Formats} {m m' : Media} {buf rest atom : Bytes}

theorem splits_of_parse {fuel : Nat} (hfuel : buf.length < fuel)
    (h : parseFuel f fuel m buf = .ok (m', rest)) :
    ∃ atoms, Splits nextAtom buf ⟨atoms, rest, none⟩ ∧ atoms.foldlM (parseAtom f) m = .ok m' := by
  induction fuel generalizing m buf with
  | zero => exact absurd hfuel (Nat.not_lt_zero _)
  | succ fuel ih =>
      obtain ⟨next, hnext, h⟩ := ok_of_bind h
      cases next with
      | none =>
          obtain ⟨rfl, rfl⟩ := Prod.mk.inj (Except.ok.inj h)
          exact ⟨[], .stop hnext, rfl⟩
      | some found =>
          obtain ⟨atom, left⟩ := found
          obtain ⟨mid, hatom, h⟩ := ok_of_bind h
          have hshort := steady.shrinks hnext
          obtain ⟨atoms, hsplits, hfold⟩ := ih (by omega) h
          refine ⟨atom :: atoms, .item hnext hsplits, ?_⟩
          rw [List.foldlM_cons, hatom]
          exact hfold

/-- The media that are accepted in pieces are accepted atom by atom. -/
theorem atoms_of_run {pieces : List Bytes} (hidle : nextAtom buf = .ok none)
    (h : m.run f buf pieces = .ok (m', rest)) :
    ∃ atoms, split nextAtom (buf ++ pieces.flatten) = ⟨atoms, rest, none⟩ ∧
      atoms.foldlM (parseAtom f) m = .ok m' := by
  induction pieces generalizing m buf with
  | nil =>
      obtain ⟨rfl, rfl⟩ := Prod.mk.inj (Except.ok.inj h)
      refine ⟨[], ?_, rfl⟩
      rw [List.flatten_nil, List.append_nil]
      exact steady.split_idle hidle
  | cons piece pieces ih =>
      obtain ⟨⟨mid, left⟩, hparse, h⟩ := ok_of_bind h
      obtain ⟨first, hsplits, hfirst⟩ := splits_of_parse (Nat.lt_succ_self _) hparse
      obtain ⟨more, hmore, hfold⟩ := ih (hsplits.next_rest rfl) h
      have hsplit := (steady.splits (buf ++ piece)).unique hsplits
      refine ⟨first ++ more, ?_, ?_⟩
      · have hnone : (split nextAtom (buf ++ piece)).failed = none := by rw [hsplit]
        rw [List.flatten_cons, ← List.append_assoc, steady.split_append hnone, hsplit, hmore]
        rfl
      · rw [List.foldlM_append, hfirst]
        exact hfold

/-- What a step of the publisher does to its tracks. -/
inductive Steps (f : Formats) (m : Media) (atom : Bytes) : Media → Prop where
  | skip {m' : Media} (hkind : kind f atom = .other) (htracks : m'.tracks = m.tracks)
      (hcurrent : m'.current = m.current) (hmoov : m'.moov = m.moov) : Steps f m atom m'
  | setup {m' : Media} (hkind : kind f atom = .other) (hmoov : m.moov = none)
      (htracks : ∀ id track, m'.tracks id = some track → m.tracks id = some track ∨
        ∃ handler timescale, track = Track.new handler timescale)
      (hcurrent : m'.current = m.current) (hmoov' : m'.moov.isSome) : Steps f m atom m'
  | moof {fragment : Fragment} {mid : Media} {track track' : Track}
      (hkind : kind f atom = .moof fragment) (hcurrent : m.current = none)
      (hended : m.endGroups fragment = .ok mid) (htrack : mid.tracks fragment.track = some track)
      (hheader : track.header atom fragment = .ok track') :
      Steps f m atom { mid.setTrack fragment.track track' with current := some fragment.track }
  | mdat {id : UInt32} {track track' : Track} (hkind : kind f atom = .mdat)
      (hcurrent : m.current = some id) (htrack : m.tracks id = some track)
      (hdata : track.data atom = .ok track') :
      Steps f m atom { m.setTrack id track' with current := none }

theorem findTrack_ok {id : UInt32} {track : Track} (h : m.findTrack id = .ok track) :
    m.tracks id = some track := by
  unfold findTrack at h
  split at h
  · next found htrack =>
      obtain rfl := Except.ok.inj h
      exact htrack
  · cases h

/-- Setting up adds empty tracks. -/
theorem setupTrack_tracks {moov : MoovBox} {trak : TrakBox}
    (h : setupTrack moov m trak = .ok m') :
    m'.current = m.current ∧ ∀ id track, m'.tracks id = some track →
      m.tracks id = some track ∨ ∃ handler timescale, track = Track.new handler timescale := by
  obtain ⟨timescale, -, h⟩ := ok_of_bind h
  obtain ⟨handler, -, h⟩ := ok_of_bind h
  obtain ⟨-, -, h⟩ := ok_of_bind h
  obtain ⟨broadcast, -, h⟩ := ok_of_bind h
  obtain rfl := Except.ok.inj h
  refine ⟨rfl, ?_⟩
  intro id track htrack
  by_cases hid : id = trak.trackId
  · subst hid
    have hnew : some (Track.new handler timescale) = some track := by
      simpa using htrack
    exact .inr ⟨handler, timescale, (Option.some.inj hnew).symm⟩
  · have hold : m.tracks id = some track := by
      simpa [Function.update_of_ne hid] using htrack
    exact .inl hold

theorem setupTracks_tracks {moov : MoovBox} {traks : List TrakBox}
    (h : traks.foldlM (setupTrack moov) m = .ok m') :
    m'.current = m.current ∧ ∀ id track, m'.tracks id = some track →
      m.tracks id = some track ∨ ∃ handler timescale, track = Track.new handler timescale := by
  induction traks generalizing m with
  | nil =>
      obtain rfl := Except.ok.inj h
      exact ⟨rfl, fun id track htrack => .inl htrack⟩
  | cons trak traks ih =>
      rw [List.foldlM_cons] at h
      obtain ⟨mid, hfirst, hrest⟩ := ok_of_bind h
      obtain ⟨hcurrent, htracks⟩ := setupTrack_tracks hfirst
      obtain ⟨hcurrent', htracks'⟩ := ih hrest
      refine ⟨hcurrent'.trans hcurrent, ?_⟩
      intro id track htrack
      rcases htracks' id track htrack with hold | hnew
      · exact htracks id track hold
      · exact .inr hnew

/-- Ending groups touches the tracks only. -/
theorem endGroups_ok {fragment : Fragment} {mid : Media} (h : m.endGroups fragment = .ok mid) :
    mid = m ∨ mid = m.reset ∧ fragment.keyframe = true ∧
      ∃ track, m.tracks fragment.track = some track ∧ track.handler = .video := by
  unfold endGroups at h
  split at h
  · next hkeyframe =>
      obtain ⟨track, htrack, h⟩ := ok_of_bind h
      obtain rfl := Except.ok.inj h
      split
      · next hvideo => exact .inr ⟨rfl, hkeyframe, track, findTrack_ok htrack, hvideo⟩
      · exact .inl rfl
  · obtain rfl := Except.ok.inj h
    exact .inl rfl

theorem endGroups_current {fragment : Fragment} {mid : Media}
    (h : m.endGroups fragment = .ok mid) : mid.current = m.current := by
  rcases endGroups_ok h with rfl | ⟨rfl, -⟩
  · rfl
  · rfl

theorem endGroups_moov {fragment : Fragment} {mid : Media}
    (h : m.endGroups fragment = .ok mid) : mid.moov = m.moov := by
  rcases endGroups_ok h with rfl | ⟨rfl, -⟩
  · rfl
  · rfl

theorem setup_ok {moov : MoovBox} {raw : Bytes} (h : m.setup f moov raw = .ok m') :
    m'.current = m.current ∧ ∀ id track, m'.tracks id = some track →
      m.tracks id = some track ∨ ∃ handler timescale, track = Track.new handler timescale := by
  unfold setup at h
  cases hftyp : m.ftyp with
  | none =>
      rw [hftyp] at h
      cases h
  | some ftyp =>
      rw [hftyp] at h
      obtain ⟨_, -, h⟩ := ok_of_bind h
      obtain ⟨init, -, h⟩ := ok_of_bind h
      obtain ⟨mid, hloop, h⟩ := ok_of_bind h
      obtain ⟨catalog, -, h⟩ := ok_of_bind h
      obtain rfl := Except.ok.inj h
      have htracks := setupTracks_tracks hloop
      exact htracks

theorem steps_of_parseMoof (hheader : f.header atom = .ok .moof)
    (h : m.parseMoof f atom = .ok m') : Steps f m atom m' := by
  obtain ⟨moof, hmoof, h⟩ := ok_of_bind h
  obtain ⟨fragment, hfragment, h⟩ := ok_of_bind h
  obtain ⟨mid, hended, h⟩ := ok_of_bind h
  obtain ⟨track, htrack, h⟩ := ok_of_bind h
  have hkind : kind f atom = .moof fragment := by
    rw [kind, hheader, ok_of_mapError hmoof]
    simp only [hfragment]
  have hcurrent : mid.current = m.current := endGroups_current hended
  cases hwaiting : mid.current with
  | some id =>
      rw [hwaiting] at h
      cases h
  | none =>
      rw [hwaiting] at h
      obtain ⟨track', hwritten, h⟩ := ok_of_bind h
      obtain rfl := Except.ok.inj h
      exact .moof hkind (hcurrent.symm.trans hwaiting) hended (findTrack_ok htrack) hwritten

theorem steps_of_parseMdat (hheader : f.header atom = .ok .mdat)
    (h : m.parseMdat atom = .ok m') : Steps f m atom m' := by
  unfold parseMdat at h
  split at h
  · cases h
  · next id hcurrent =>
      obtain ⟨track, htrack, h⟩ := ok_of_bind h
      obtain ⟨track', hwritten, h⟩ := ok_of_bind h
      obtain rfl := Except.ok.inj h
      have hkind : kind f atom = .mdat := by rw [kind, hheader]
      exact .mdat hkind hcurrent (findTrack_ok htrack) hwritten

theorem steps_of_parseAtom (h : m.parseAtom f atom = .ok m') : Steps f m atom m' := by
  obtain ⟨box, hbox, h⟩ := ok_of_bind h
  have hheader := ok_of_mapError hbox
  cases box with
  | ftyp =>
      have hkind : kind f atom = .other := by rw [kind, hheader]
      dsimp only at h
      split at h
      · obtain rfl := Except.ok.inj h
        exact .skip hkind rfl rfl rfl
      · obtain rfl := Except.ok.inj h
        exact .skip hkind rfl rfl rfl
  | moov =>
      have hkind : kind f atom = .other := by rw [kind, hheader]
      dsimp only at h
      cases hmoov : m.moov with
      | some moov =>
          rw [hmoov] at h
          obtain rfl := Except.ok.inj h
          exact .skip hkind rfl rfl rfl
      | none =>
          rw [hmoov] at h
          obtain ⟨moov, -, h⟩ := ok_of_bind h
          obtain ⟨mid, hsetup, h⟩ := ok_of_bind h
          obtain rfl := Except.ok.inj h
          obtain ⟨hcurrent, htracks⟩ := setup_ok hsetup
          exact .setup hkind hmoov htracks hcurrent rfl
  | moof => exact steps_of_parseMoof hheader h
  | mdat => exact steps_of_parseMdat hheader h
  | other =>
      have hkind : kind f atom = .other := by rw [kind, hheader]
      obtain rfl := Except.ok.inj h
      exact .skip hkind rfl rfl rfl

/-- What the tracks are, for the atoms so far. -/
structure Inv (f : Formats) (sorted : Sorted) (m : Media) : Prop where
  fresh : m.moov = none → (∀ id, m.tracks id = none) ∧ sorted.owned = [] ∧ m.current = none
  sound : ∀ id track, m.tracks id = some track → track.Sound
  current : ∀ id, m.current = some id → sorted.last = some id
  due : ∀ id, m.current = some id → ∀ track, m.tracks id = some track →
    ∃ before last, track.track.payloads = before ++ [last] ∧ Begun f id last
  inOrder : ∀ id track, m.tracks id = some track →
    track.track.payloads.flatten = sorted.ofTrack id
  whole : ∀ id track, m.tracks id = some track → ∀ i group,
    track.track.payloads[i]? = some group → Whole f id group ∨
      m.current = some id ∧ i + 1 = track.track.payloads.length ∧ Begun f id group

variable {sorted : Sorted}

theorem new_ok {broadcast : Watch.State (List String)} (h : Media.new broadcast = .ok m) :
    (∀ id, m.tracks id = none) ∧ m.current = none := by
  obtain ⟨first, -, h⟩ := ok_of_bind h
  obtain ⟨second, -, h⟩ := ok_of_bind h
  obtain rfl := Except.ok.inj h
  exact ⟨fun _ => rfl, rfl⟩

/-- Before the first moof all tracks are new. -/
theorem inv_of_new (hfresh : m.moov = none → ∀ id, m.tracks id = none)
    (hnew : ∀ id track, m.tracks id = some track →
      ∃ handler timescale, track = Track.new handler timescale)
    (howned : sorted.owned = []) (hcurrent : m.current = none) : Inv f sorted m := by
  constructor
  · intro hmoov
    exact ⟨hfresh hmoov, howned, hcurrent⟩
  · intro id track htrack
    obtain ⟨handler, timescale, rfl⟩ := hnew id track htrack
    exact Track.sound_new handler timescale
  · intro id hid
    cases hcurrent.symm.trans hid
  · intro id hid
    cases hcurrent.symm.trans hid
  · intro id track htrack
    obtain ⟨handler, timescale, rfl⟩ := hnew id track htrack
    rw [Sorted.ofTrack, howned]
    rfl
  · intro id track htrack i group hgroup
    obtain ⟨handler, timescale, rfl⟩ := hnew id track htrack
    cases hgroup

theorem inv_new (htracks : ∀ id, m.tracks id = none) (hcurrent : m.current = none) :
    Inv f ⟨none, []⟩ m := by
  apply inv_of_new (fun _ => htracks) ?_ rfl hcurrent
  intro id track htrack
  cases (htracks id).symm.trans htrack

theorem Inv.of_eq (hinv : Inv f sorted m) (htracks : m'.tracks = m.tracks)
    (hcurrent : m'.current = m.current) (hmoov : m'.moov = m.moov) : Inv f sorted m' := by
  constructor
  · rw [hmoov, htracks, hcurrent]
    exact hinv.fresh
  · rw [htracks]
    exact hinv.sound
  · rw [hcurrent]
    exact hinv.current
  · rw [hcurrent, htracks]
    exact hinv.due
  · rw [htracks]
    exact hinv.inOrder
  · rw [hcurrent, htracks]
    exact hinv.whole

/-- Between fragments ending the groups changes nothing that was published. -/
theorem Inv.reset (hinv : Inv f sorted m) (hnone : m.current = none) : Inv f sorted m.reset := by
  have hold {id : UInt32} {track : Track} (h : m.reset.tracks id = some track) :
      ∃ old, m.tracks id = some old ∧ old.endGroup = track := Option.map_eq_some_iff.mp h
  constructor
  · intro hmoov
    obtain ⟨htracks, howned, hcurrent⟩ := hinv.fresh hmoov
    refine ⟨?_, howned, hcurrent⟩
    intro id
    change (m.tracks id).map Track.endGroup = none
    rw [htracks id]
    rfl
  · intro id track htrack
    obtain ⟨old, hold, rfl⟩ := hold htrack
    exact Track.endGroup_sound (hinv.sound id old hold)
  · exact hinv.current
  · intro id hid
    cases hnone.symm.trans hid
  · intro id track htrack
    obtain ⟨old, hold, rfl⟩ := hold htrack
    rw [Track.endGroup_payloads]
    exact hinv.inOrder id old hold
  · intro id track htrack
    obtain ⟨old, hold, rfl⟩ := hold htrack
    rw [Track.endGroup_payloads]
    exact hinv.whole id old hold

theorem Inv.ended {fragment : Fragment} {mid : Media} (hinv : Inv f sorted m)
    (hnone : m.current = none) (h : m.endGroups fragment = .ok mid) : Inv f sorted mid := by
  rcases endGroups_ok h with rfl | ⟨rfl, -⟩
  · exact hinv
  · exact hinv.reset hnone

/-- An atom that is published is the next one of its track, and of no other. -/
theorem flatten_publishes {track track' : Track} (h : Track.Publishes track atom track') :
    track'.track.payloads.flatten = track.track.payloads.flatten ++ [atom] := by
  cases h with
  | first _ hpayloads => rw [hpayloads, List.flatten_append, List.flatten_singleton]
  | next _ hold hnew =>
      rw [hold, hnew, List.flatten_append, List.flatten_append, List.flatten_singleton,
        List.flatten_singleton, List.append_assoc]

@[simp] theorem setTrack_same (m : Media) (id : UInt32) (track : Track) :
    (m.setTrack id track).tracks id = some track := Function.update_self ..

theorem setTrack_of_ne {id other : UInt32} (hne : other ≠ id) (track : Track) :
    (m.setTrack id track).tracks other = m.tracks other := Function.update_of_ne hne ..

theorem setTrack_tracks {id other : UInt32} {track track' : Track}
    (h : (m.setTrack id track').tracks other = some track) :
    id = other ∧ track = track' ∨ id ≠ other ∧ m.tracks other = some track := by
  by_cases hid : other = id
  · subst hid
    rw [setTrack_same] at h
    exact .inl ⟨rfl, (Option.some.inj h).symm⟩
  · rw [setTrack_of_ne hid] at h
    exact .inr ⟨fun heq => hid heq.symm, h⟩

section Grows

variable {id other : UInt32} {track track' found : Track}

theorem Inv.moov_ne_none (hinv : Inv f sorted m) (htrack : m.tracks id = some track) :
    m.moov ≠ none := by
  intro hmoov
  rw [(hinv.fresh hmoov).1] at htrack
  cases htrack

theorem Inv.sound_setTrack (hinv : Inv f sorted m) (hgrows : Track.Grows track atom track')
    (hfound : (m.setTrack id track').tracks other = some found) : found.Sound := by
  rcases setTrack_tracks hfound with ⟨rfl, rfl⟩ | ⟨-, hsame⟩
  · exact hgrows.sound
  · exact hinv.sound other found hsame

/-- The atom is the next one of the track that is written to. -/
theorem Inv.inOrder_setTrack (hinv : Inv f sorted m) (htrack : m.tracks id = some track)
    (hgrows : Track.Grows track atom track') (last : Option UInt32)
    (hfound : (m.setTrack id track').tracks other = some found) :
    found.track.payloads.flatten =
      Sorted.ofTrack ⟨last, sorted.owned ++ [(id, atom)]⟩ other := by
  rw [Sorted.ofTrack_concat]
  rcases setTrack_tracks hfound with ⟨rfl, rfl⟩ | ⟨hne, hsame⟩
  · rw [flatten_publishes hgrows.publishes, if_pos rfl, hinv.inOrder _ track htrack]
    rfl
  · rw [if_neg hne, List.append_nil, hinv.inOrder other found hsame]
    rfl

/-- The groups of a track that is not waiting for an mdat. -/
theorem Inv.whole_of_mem (hinv : Inv f sorted m) (hcurrent : m.current ≠ some id)
    (htrack : m.tracks id = some track) : ∀ group ∈ track.track.payloads, Whole f id group := by
  intro group hgroup
  obtain ⟨i, hi⟩ := List.mem_iff_getElem?.mp hgroup
  rcases hinv.whole id track htrack i group hi with hwhole | ⟨hwaits, -⟩
  · exact hwhole
  · exact absurd hwaits hcurrent

/-- A moof goes behind whole fragments, or into a group of its own. -/
theorem begun_of_publishes (h : Track.Publishes track atom track') (hmoof : IsMoof f id atom)
    (hwhole : ∀ group ∈ track.track.payloads, Whole f id group) :
    ∃ before last, track'.track.payloads = before ++ [last] ∧ Begun f id last ∧
      ∀ group ∈ before, Whole f id group := by
  cases h with
  | first _ hnew => exact ⟨_, _, hnew, ⟨[], atom, .inl rfl, hmoof, rfl⟩, hwhole⟩
  | @next before last _ hold hnew =>
      rw [hold, List.forall_mem_append, List.forall_mem_singleton] at hwhole
      exact ⟨_, _, hnew, ⟨last, atom, .inr hwhole.2, hmoof, rfl⟩, hwhole.1⟩

end Grows

theorem Inv.moof {fragment : Fragment} {track track' : Track} (hinv : Inv f sorted m)
    (hnone : m.current = none) (hkind : kind f atom = .moof fragment)
    (htrack : m.tracks fragment.track = some track)
    (hgrows : Track.Grows track atom track') :
    Inv f (sorted.add f atom)
      { m.setTrack fragment.track track' with current := some fragment.track } := by
  have hsorted : sorted.add f atom =
      ⟨some fragment.track, sorted.owned ++ [(fragment.track, atom)]⟩ := by
    simp only [Sorted.add, hkind]
  have hidle (id : UInt32) : m.current ≠ some id := by
    rw [hnone]
    exact (Option.some_ne_none id).symm
  obtain ⟨before, last, hpayloads, hbegun, hwhole⟩ := begun_of_publishes hgrows.publishes
    ⟨fragment, hkind, rfl⟩ (hinv.whole_of_mem (hidle _) htrack)
  rw [hsorted]
  constructor
  · intro hmoov
    exact absurd hmoov (hinv.moov_ne_none htrack)
  · intro other found hfound
    exact hinv.sound_setTrack hgrows hfound
  · rintro id ⟨⟩
    rfl
  · rintro id ⟨⟩ found hfound
    rcases setTrack_tracks hfound with ⟨-, rfl⟩ | ⟨hne, -⟩
    · exact ⟨before, last, hpayloads, hbegun⟩
    · exact absurd rfl hne
  · intro other found hfound
    exact hinv.inOrder_setTrack htrack hgrows _ hfound
  · intro other found hfound i group hgroup
    rcases setTrack_tracks hfound with ⟨rfl, rfl⟩ | ⟨-, hsame⟩
    · rw [hpayloads] at hgroup ⊢
      rcases Machine.getElem?_concat_iff.mp hgroup with hprev | ⟨rfl, rfl⟩
      · exact .inl (hwhole group (List.mem_of_getElem? hprev))
      · exact .inr ⟨rfl, by simp, hbegun⟩
    · exact .inl (hinv.whole_of_mem (hidle _) hsame group (List.mem_of_getElem? hgroup))

/-- An mdat completes the fragment of the moof before it. -/
theorem Inv.mdat {id : UInt32} {track track' : Track} (hinv : Inv f sorted m)
    (hcurrent : m.current = some id) (hkind : kind f atom = .mdat)
    (htrack : m.tracks id = some track) (hsome : track.current.isSome)
    (hgrows : Track.Grows track atom track') :
    Inv f (sorted.add f atom) { m.setTrack id track' with current := none } := by
  have hsorted : sorted.add f atom = ⟨some id, sorted.owned ++ [(id, atom)]⟩ := by
    simp only [Sorted.add, hkind, hinv.current id hcurrent]
    rfl
  obtain ⟨before, last, hpayloads, hbegun⟩ := hinv.due id hcurrent track htrack
  have hnew : track'.track.payloads = before ++ [last ++ [atom]] := by
    cases hgrows.publishes with
    | first hnone =>
        rw [hnone] at hsome
        cases hsome
    | next _ hold hnew =>
        obtain ⟨rfl, hlast⟩ := List.append_inj' (hold.symm.trans hpayloads) rfl
        obtain rfl := List.singleton_inj.mp hlast
        exact hnew
  rw [hsorted]
  constructor
  · intro hmoov
    exact absurd hmoov (hinv.moov_ne_none htrack)
  · intro other found hfound
    exact hinv.sound_setTrack hgrows hfound
  · intro other hother
    cases hother
  · intro other hother
    cases hother
  · intro other found hfound
    exact hinv.inOrder_setTrack htrack hgrows _ hfound
  · intro other found hfound i group hgroup
    left
    rcases setTrack_tracks hfound with ⟨rfl, rfl⟩ | ⟨hne, hsame⟩
    · rw [hnew] at hgroup
      rcases Machine.getElem?_concat_iff.mp hgroup with hprev | ⟨rfl, rfl⟩
      · have hold : track.track.payloads[i]? = some group := by
          rw [hpayloads]
          exact Machine.getElem?_concat_iff.mpr (.inl hprev)
        obtain ⟨hlt, -⟩ := List.getElem?_eq_some_iff.mp hprev
        rcases hinv.whole id track htrack i group hold with hwhole | ⟨-, hend, -⟩
        · exact hwhole
        · rw [hpayloads, List.length_append, List.length_singleton] at hend
          omega
      · exact hbegun.whole hkind
    · have hidle : m.current ≠ some other := by
        rw [hcurrent]
        exact fun heq => hne (Option.some.inj heq)
      exact hinv.whole_of_mem hidle hsame group (List.mem_of_getElem? hgroup)

theorem Inv.step (hinv : Inv f sorted m) (h : Steps f m atom m') :
    Inv f (sorted.add f atom) m' := by
  cases h with
  | skip hkind htracks hcurrent hmoov =>
      have hsorted : sorted.add f atom = sorted := by simp only [Sorted.add, hkind]
      rw [hsorted]
      exact hinv.of_eq htracks hcurrent hmoov
  | setup hkind hmoov htracks hcurrent hmoov' =>
      have hsorted : sorted.add f atom = sorted := by simp only [Sorted.add, hkind]
      obtain ⟨hnone, howned, hidle⟩ := hinv.fresh hmoov
      rw [hsorted]
      apply inv_of_new ?_ ?_ howned (hcurrent.trans hidle)
      · intro hmoov
        rw [hmoov] at hmoov'
        cases hmoov'
      · intro id track htrack
        rcases htracks id track htrack with hold | hnew
        · cases (hnone id).symm.trans hold
        · exact hnew
  | moof hkind hcurrent hended htrack hheader =>
      have hmid := hinv.ended hcurrent hended
      have hgrows := Track.grows_of_header (hmid.sound _ _ htrack) hheader
      exact hmid.moof ((endGroups_current hended).trans hcurrent) hkind htrack hgrows
  | mdat hkind hcurrent htrack hdata =>
      obtain ⟨hsome, hgrows⟩ := Track.grows_of_data (hinv.sound _ _ htrack) hdata
      exact hinv.mdat hcurrent hkind htrack hsome hgrows

theorem inv_of_atoms {atoms : List Bytes} (hinv : Inv f sorted m)
    (h : atoms.foldlM (parseAtom f) m = .ok m') : Inv f (atoms.foldl (Sorted.add f) sorted) m' := by
  induction atoms generalizing sorted m with
  | nil =>
      obtain rfl := Except.ok.inj h
      exact hinv
  | cons atom atoms ih =>
      rw [List.foldlM_cons] at h
      obtain ⟨mid, hatom, hrest⟩ := ok_of_bind h
      exact ih (hinv.step (steps_of_parseAtom hatom)) hrest

theorem alternates_of_atoms {atoms : List Bytes} (h : atoms.foldlM (parseAtom f) m = .ok m') :
    Alternates f m.current.isSome atoms := by
  induction atoms generalizing m with
  | nil => trivial
  | cons atom atoms ih =>
      rw [List.foldlM_cons] at h
      obtain ⟨mid, hatom, hrest⟩ := ok_of_bind h
      have hmore := ih hrest
      cases steps_of_parseAtom hatom with
      | skip hkind _ hcurrent _ =>
          simp only [Alternates, hkind]
          rwa [← hcurrent]
      | setup hkind _ _ hcurrent _ =>
          simp only [Alternates, hkind]
          rwa [← hcurrent]
      | moof hkind hcurrent _ _ _ =>
          simp only [Alternates, hkind, hcurrent]
          exact ⟨rfl, hmore⟩
      | mdat hkind hcurrent _ _ =>
          simp only [Alternates, hkind, hcurrent]
          exact ⟨rfl, hmore⟩

/-- Of a stream that is accepted, every track gets its own fragments in their
order, moof and mdat side by side in one group; only the last group of the
track that waits for an mdat ends with a moof. A stream with an mdat that has
no moof, or with two moofs in a row, is not accepted. -/
theorem published_whole (f : Formats) {broadcast : Watch.State (List String)} {start m : Media}
    {pieces : List Bytes} {rest : Bytes} (hnew : Media.new broadcast = .ok start)
    (hrun : start.run f [] pieces = .ok (m, rest)) :
    ∃ atoms, split nextAtom pieces.flatten = ⟨atoms, rest, none⟩ ∧ Alternates f false atoms ∧
      ∀ id track, m.tracks id = some track →
        track.track.payloads.flatten = (Sorted.ofAtoms f atoms).ofTrack id ∧
          track.track.shared.cells.map (·.info.groupId) =
            List.range track.track.payloads.length ∧
          ∀ i group, track.track.payloads[i]? = some group → Whole f id group ∨
            m.current = some id ∧ i + 1 = track.track.payloads.length ∧ Begun f id group := by
  obtain ⟨atoms, hsplit, hfold⟩ := atoms_of_run rfl hrun
  obtain ⟨hnone, hidle⟩ := new_ok hnew
  have hinv := inv_of_atoms (inv_new hnone hidle) hfold
  have halternates := alternates_of_atoms hfold
  rw [hidle] at halternates
  refine ⟨atoms, hsplit, halternates, ?_⟩
  intro id track htrack
  refine ⟨hinv.inOrder id track htrack, ?_, hinv.whole id track htrack⟩
  rw [(hinv.sound id track htrack).ids, Groups.payloads, List.length_map]

end Media

/-! A stream as an encoder writes it: H.264 tracks with one sample in each
fragment. -/

namespace Sample

def box (name payload : Bytes) : Bytes := toBeBytes 4 (payload.length + 8) ++ name ++ payload

def fullBox (name payload : Bytes) : Bytes := box name ([0, 0, 0, 0] ++ payload)

def zeros (n : Nat) : Bytes := List.replicate n 0

def word (n : Nat) : Bytes := toBeBytes 4 n

def matrix : Bytes :=
  word 0x10000 ++ zeros 12 ++ word 0x10000 ++ zeros 12 ++ word 0x40000000

def ftyp : Bytes := box [102, 116, 121, 112] ([105, 115, 111, 109] ++ word 0x200)

def mvhd : Bytes :=
  fullBox [109, 118, 104, 100]
    (zeros 8 ++ word 1000 ++ zeros 4 ++ word 0x10000 ++ [1, 0] ++ zeros 10 ++ matrix ++
      zeros 24 ++ word 3)

def avc1 : Bytes :=
  box [97, 118, 99, 49]
    (zeros 6 ++ [0, 1] ++ zeros 16 ++ [2, 128, 1, 104] ++ word 0x480000 ++ word 0x480000 ++
      zeros 4 ++ [0, 1] ++ zeros 32 ++ [0, 24, 255, 255] ++
      box [97, 118, 99, 67]
        [1, 66, 192, 30, 255, 225, 0, 4, 103, 66, 192, 30, 1, 0, 4, 104, 206, 56, 128])

def stbl : Bytes :=
  box [115, 116, 98, 108]
    (fullBox [115, 116, 115, 100] (word 1 ++ avc1) ++ fullBox [115, 116, 116, 115] (zeros 4) ++
      fullBox [115, 116, 115, 99] (zeros 4) ++ fullBox [115, 116, 115, 122] (zeros 8) ++
      fullBox [115, 116, 99, 111] (zeros 4))

def minf : Bytes :=
  box [109, 105, 110, 102]
    (fullBox [118, 109, 104, 100] (zeros 8) ++
      box [100, 105, 110, 102]
        (fullBox [100, 114, 101, 102] (word 1 ++ box [117, 114, 108, 32] (word 1))) ++
      stbl)

def trak (id : Nat) : Bytes :=
  box [116, 114, 97, 107]
    (fullBox [116, 107, 104, 100]
        (zeros 8 ++ word id ++ zeros 24 ++ matrix ++ word 0x2800000 ++ word 0x1680000) ++
      box [109, 100, 105, 97]
        (fullBox [109, 100, 104, 100] (zeros 8 ++ word 90000 ++ zeros 4 ++ [85, 196, 0, 0]) ++
          fullBox [104, 100, 108, 114] (zeros 4 ++ [118, 105, 100, 101] ++ zeros 13) ++ minf))

def moov (ids : List Nat) : Bytes := box [109, 111, 111, 118] (mvhd ++ ids.flatMap trak)

/-- A fragment of one sample, with the flags of that sample. -/
def moof (id flags : Nat) : Bytes :=
  box [109, 111, 111, 102]
    (fullBox [109, 102, 104, 100] (word 1) ++
      box [116, 114, 97, 102]
        (box [116, 102, 104, 100] ([0, 2, 0, 0] ++ word id) ++
          fullBox [116, 102, 100, 116] (word 0) ++
          box [116, 114, 117, 110] ([0, 0, 0, 4] ++ word 1 ++ word flags)))

/-- Depends on no other sample. -/
def keyframe : Nat := 0x2000000

def deltaFrame : Nat := 0x1010000

def mdat : Bytes := box [109, 100, 97, 116] [0, 0, 0, 2, 9, 240]

def trakBox (id : UInt32) : TrakBox := ⟨id, .ok .video, 90000, ⟨true, false, none, false⟩⟩

/-- The mp4 crate on these atoms. -/
def formats : Formats where
  header atom :=
    .ok (match (atom.drop 4).take 4 with
      | [102, 116, 121, 112] => .ftyp
      | [109, 111, 111, 118] => .moov
      | [109, 111, 111, 102] => .moof
      | [109, 100, 97, 116] => .mdat
      | _ => .other)
  moov atom :=
    if atom = moov [1] then .ok ⟨[trakBox 1]⟩
    else if atom = moov [1, 2] then .ok ⟨[trakBox 1, trakBox 2]⟩
    else .error "moov not found"
  moof atom :=
    if atom.length = 84 then
      .ok ⟨[⟨UInt32.ofNat (fromBeBytes ((atom.drop 44).take 4)), none, some 0,
        some ⟨1, some (UInt32.ofNat (fromBeBytes (atom.drop 80))), []⟩⟩]⟩
    else
      .error "mfhd not found"
  catalog _ := [123, 125]

def publish (pieces : List Bytes) : Except (Fault String) (Media × Bytes) := do
  let m ← Media.new (.new [])
  m.run formats [] pieces

theorem ok_of_publish (pieces : List Bytes) (h : (publish pieces).toOption.isSome = true) :
    ∃ start m rest, Media.new (.new []) = .ok start ∧
      start.run formats [] pieces = .ok (m, rest) ∧ publish pieces = .ok (m, rest) := by
  cases hpublish : publish pieces with
  | error fault =>
      rw [hpublish] at h
      cases h
  | ok p =>
      obtain ⟨start, hnew, hrun⟩ := ok_of_bind hpublish
      exact ⟨start, p.1, p.2, hnew, hrun, rfl⟩

/-- One video track with a fragment whose mdat arrives in two pieces, and a
moof that waits for its mdat. -/
def oneTrack : List Bytes :=
  [ftyp ++ moov [1], moof 1 keyframe ++ mdat.take 9, mdat.drop 9 ++ moof 1 deltaFrame]

end Sample

theorem Media.published_whole_oneTrack :
    ∃ start m rest, Media.new (.new []) = .ok start ∧
      start.run Sample.formats [] Sample.oneTrack = .ok (m, rest) ∧
      ((m.tracks 1).map fun track => track.track.payloads) =
        some [[Sample.moof 1 Sample.keyframe, Sample.mdat, Sample.moof 1 Sample.deltaFrame]] ∧
      ∃ atoms, split nextAtom Sample.oneTrack.flatten = ⟨atoms, rest, none⟩ ∧
        Alternates Sample.formats false atoms ∧
        ∀ id track, m.tracks id = some track →
          track.track.payloads.flatten = (Sorted.ofAtoms Sample.formats atoms).ofTrack id ∧
            track.track.shared.cells.map (·.info.groupId) =
              List.range track.track.payloads.length ∧
            ∀ i group, track.track.payloads[i]? = some group →
              Whole Sample.formats id group ∨
                m.current = some id ∧ i + 1 = track.track.payloads.length ∧
                  Begun Sample.formats id group := by
  have htrack : ((Sample.publish Sample.oneTrack).toOption.bind fun p =>
      (p.1.tracks 1).map fun track => track.track.payloads) =
        some [[Sample.moof 1 Sample.keyframe, Sample.mdat, Sample.moof 1 Sample.deltaFrame]] := by
    decide +kernel
  obtain ⟨start, m, rest, hnew, hrun, hpublish⟩ :=
    Sample.ok_of_publish Sample.oneTrack (by decide +kernel)
  rw [hpublish] at htrack
  exact ⟨start, m, rest, hnew, hrun, htrack, Media.published_whole Sample.formats hnew hrun⟩

end MoqTransport.Mp4
