import MoqTransport.Mp4.Fragments

/-!
The time of a fragment. A track computes it in `u64` arithmetic when it begins
a group, only to see whether the milliseconds fit 32 bits. The decode time and
the timescale are the file's, and nothing keeps a file from leaving out the
one, from making the other zero, or from making their product too large.

Integer overflow is a panic or a wrap, as the build has it. The other modules
have the wrapping build; here every operation is given for both.
-/

namespace MoqTransport.Mp4

open Streaming Serve

inductive Overflow where
  | panics
  | wraps
deriving DecidableEq

def mulU64 (overflow : Overflow) (x y : Nat) : Except (Fault String) Nat :=
  if x * y < 2 ^ 64 then
    .ok (x * y)
  else
    match overflow with
    | .panics => .error .panic
    | .wraps => .ok (x * y % 2 ^ 64)

def divU64 (x y : Nat) : Except (Fault String) Nat :=
  if y = 0 then .error .panic else .ok (x / y)

/-- Convert from timescale units to milliseconds. -/
def Fragment.timestampIn (overflow : Overflow) (fragment : Fragment) (timescale : Nat) :
    Except (Fault String) Nat := do
  let scaled ← mulU64 overflow 1000 fragment.timestamp.toNat
  divU64 scaled timescale

namespace Track

/-- The time of a fragment that begins a group has to fit 32 bits. -/
def checkTime (overflow : Overflow) (fragment : Fragment) (timescale : Nat) :
    Except (Fault String) Unit := do
  let timestamp ← fragment.timestampIn overflow timescale
  if timestamp ≥ 2 ^ 32 then
    throw (.err "failed to publish moof")

/-- `header` in a build of either kind. -/
def headerIn (overflow : Overflow) (track : Track) (raw : Bytes) (fragment : Fragment) :
    Except (Fault String) Track :=
  let context := "failed to publish moof"
  match track.current with
  | some current => do
      let (current, groups) ← orContext context (track.track.write current raw)
      pure { track with track := groups, current := some current }
  | none => do
      checkTime overflow fragment track.timescale
      let (segment, groups) ← orContext context (track.track.append 127)
      let (segment, groups) ← orContext context (groups.write segment raw)
      pure { track with track := groups, current := some segment }

/-- `header` without a look at the time. -/
def publish (track : Track) (raw : Bytes) : Except (Fault String) Track :=
  let context := "failed to publish moof"
  match track.current with
  | some current => do
      let (current, groups) ← orContext context (track.track.write current raw)
      pure { track with track := groups, current := some current }
  | none => do
      let (segment, groups) ← orContext context (track.track.append 127)
      let (segment, groups) ← orContext context (groups.write segment raw)
      pure { track with track := groups, current := some segment }

/-- `Fragment::new` and `header` on the moof of a fragment. -/
def process (overflow : Overflow) (track : Track) (raw : Bytes) (moof : MoofBox) :
    Except (Fault String) Track := do
  let fragment ← Fragment.new moof
  track.headerIn overflow raw fragment

end Track

theorem timestampIn_wraps (fragment : Fragment) (timescale : Nat) :
    fragment.timestampIn .wraps timescale = Track.millis fragment timescale := by
  have hmul : mulU64 .wraps 1000 fragment.timestamp.toNat =
      .ok (1000 * fragment.timestamp.toNat % 2 ^ 64) := by
    unfold mulU64
    split_ifs with hlt
    · rw [Nat.mod_eq_of_lt hlt]
    · rfl
  rw [Fragment.timestampIn, hmul]
  rfl

/-- The wrapping build is the one of the other modules. -/
theorem Track.headerIn_wraps (track : Track) (raw : Bytes) (fragment : Fragment) :
    track.headerIn .wraps raw fragment = track.header raw fragment := by
  unfold headerIn header checkTime
  rw [timestampIn_wraps]
  cases track.current with
  | some current => rfl
  | none =>
      cases millis fragment track.timescale with
      | error fault => rfl
      | ok timestamp =>
          by_cases hlarge : timestamp ≥ 2 ^ 32
          · simp only [bind, Except.bind, if_pos hlarge]
          · simp only [bind, Except.bind, if_neg hlarge]
            rfl

section

variable {overflow : Overflow} {track : Track} {raw : Bytes} {fragment : Fragment}

theorem timestampIn_exact (hscale : track.timescale ≠ 0)
    (hlt : 1000 * fragment.timestamp.toNat < 2 ^ 64) :
    fragment.timestampIn overflow track.timescale =
      .ok (1000 * fragment.timestamp.toNat / track.timescale) := by
  have hmul : mulU64 overflow 1000 fragment.timestamp.toNat =
      .ok (1000 * fragment.timestamp.toNat) := if_pos hlt
  rw [Fragment.timestampIn, hmul]
  exact if_neg hscale

/-- A time that fits 32 bits in milliseconds does not overflow on the way. -/
theorem no_overflow_of_fits {time timescale : Nat} (hscale : timescale ≤ 2 ^ 32)
    (hfits : 1000 * time / timescale < 2 ^ 32) (hpos : timescale ≠ 0) : 1000 * time < 2 ^ 64 := by
  have hlt : 1000 * time < 2 ^ 32 * timescale :=
    (Nat.div_lt_iff_lt_mul (Nat.pos_of_ne_zero hpos)).mp hfits
  calc 1000 * time < 2 ^ 32 * timescale := hlt
    _ ≤ 2 ^ 32 * 2 ^ 32 := Nat.mul_le_mul_left _ hscale
    _ = 2 ^ 64 := by norm_num

/-- The track that a timescale is looked up for is one of the file. -/
theorem trackTimescale_of_mem {moov : MoovBox} {trak : TrakBox} (h : trak ∈ moov.traks) :
    ∃ timescale, Media.trackTimescale moov trak.trackId = .ok timescale ∧ timescale < 2 ^ 32 := by
  unfold Media.trackTimescale
  cases hfind : moov.traks.find? fun other => other.trackId == trak.trackId with
  | some found => exact ⟨_, rfl, found.timescale.toNat_lt⟩
  | none =>
      have hne := List.find?_eq_none.mp hfind trak h
      simp at hne

namespace Track

theorem headerIn_some {current : SubgroupWriter} (h : track.current = some current) :
    track.headerIn overflow raw fragment = track.publish raw := by
  unfold headerIn publish
  rw [h]

theorem headerIn_none (h : track.current = none) :
    track.headerIn overflow raw fragment =
      (checkTime overflow fragment track.timescale >>= fun _ => track.publish raw) := by
  unfold headerIn publish
  rw [h]

/-- What fits is not refused. -/
theorem headerIn_fits (hscale : track.timescale ≠ 0)
    (hlt : 1000 * fragment.timestamp.toNat < 2 ^ 64)
    (hfits : 1000 * fragment.timestamp.toNat / track.timescale < 2 ^ 32) :
    track.headerIn overflow raw fragment = track.publish raw := by
  cases hcurrent : track.current with
  | some current => exact headerIn_some hcurrent
  | none =>
      have hcheck : checkTime overflow fragment track.timescale = .ok () := by
        rw [checkTime, timestampIn_exact hscale hlt]
        exact if_neg (not_le.mpr hfits)
      rw [headerIn_none hcurrent, hcheck]
      rfl

/-- The timescales of a file have 32 bits, so no time that fits is refused
for any of them but zero. -/
theorem headerIn_fits_of_scale (hscale : track.timescale ≤ 2 ^ 32)
    (hpos : track.timescale ≠ 0)
    (hfits : 1000 * fragment.timestamp.toNat / track.timescale < 2 ^ 32) :
    track.headerIn overflow raw fragment = track.publish raw :=
  headerIn_fits hpos (no_overflow_of_fits hscale hfits hpos) hfits

/-- Publishing a moof makes it an object of the track, or gives an error. -/
theorem publish_cases (hs : track.Sound) :
    (∃ track', track.publish raw = .ok track' ∧ Publishes track raw track') ∨
      ∃ text, track.publish raw = .error (.err text) := by
  unfold publish
  cases hcurrent : track.current with
  | some current =>
      dsimp only
      cases hwrite : track.track.write current raw with
      | error err => exact .inr ⟨_, rfl⟩
      | ok written =>
          obtain ⟨group, groups⟩ := written
          exact .inl ⟨_, rfl, (grows_of_write hs hcurrent hwrite).publishes⟩
  | none =>
      dsimp only
      cases happend : track.track.append 127 with
      | error err => exact .inr ⟨_, rfl⟩
      | ok appended =>
          obtain ⟨segment, mid⟩ := appended
          cases hwrite : mid.write segment raw with
          | error err =>
              refine .inr ⟨"failed to publish moof", ?_⟩
              simp only [orContext, Except.mapError, bind, Except.bind, hwrite]
          | ok written =>
              obtain ⟨group, groups⟩ := written
              refine .inl ⟨{ track with track := groups, current := some group }, ?_, ?_⟩
              · simp only [orContext, Except.mapError, bind, Except.bind, hwrite]
                rfl
              · exact (grows_of_begin hs hcurrent happend hwrite).publishes

end Track

end

/-- What is asked of the arithmetic on a fragment, with overflow a panic or
not. -/
structure TimingSafe (track : Track) (raw : Bytes) (moof : MoofBox) : Prop where
  total : ∀ overflow, (∃ track', track.process overflow raw moof = .ok track' ∧
    track.Publishes raw track') ∨ ∃ text, track.process overflow raw moof = .error (.err text)
  unrefused : ∀ overflow fragment, Fragment.new moof = .ok fragment → track.timescale ≠ 0 →
    1000 * fragment.timestamp.toNat / track.timescale < 2 ^ 32 →
    track.process overflow raw moof = track.publish raw

/-- A moof of one track has a decode time, and where that time is looked at
the timescale is not zero and the product does not overflow. -/
def Timed (track : Track) (moof : MoofBox) : Prop :=
  ∀ traf, moof.trafs = [traf] → ∃ time, traf.baseMediaDecodeTime = some time ∧
    (track.current.isSome ∨ track.timescale ≠ 0 ∧ 1000 * time.toNat < 2 ^ 64)

/-- A track as a moof may find it: after any atoms, with its group ended or
not. -/
def Arises (f : Formats) (track : Track) : Prop :=
  ∃ (broadcast : Watch.State (List String)) (start m : Media) (atoms : List Bytes) (id : UInt32)
    (found : Track), Media.new broadcast = .ok start ∧
      atoms.foldlM (Media.parseAtom f) start = .ok m ∧ m.tracks id = some found ∧
      (track = found ∨ track = found.endGroup)

theorem Arises.sound {f : Formats} {track : Track} (h : Arises f track) : track.Sound := by
  obtain ⟨broadcast, start, m, atoms, id, found, hnew, hfold, hfound, htrack⟩ := h
  obtain ⟨hnone, hidle⟩ := Media.new_ok hnew
  have hinv := Media.inv_of_atoms (Media.inv_new (f := f) hnone hidle) hfold
  have hs := hinv.sound id found hfound
  rcases htrack with rfl | rfl
  · exact hs
  · exact Track.endGroup_sound hs

section

variable {track : Track} {raw : Bytes} {moof : MoofBox}

/-- A moof of one track with a time, one without, and any other moof. -/
theorem Fragment.new_cases (moof : MoofBox) :
    (∃ traf fragment, moof.trafs = [traf] ∧
      traf.baseMediaDecodeTime = some fragment.timestamp ∧ Fragment.new moof = .ok fragment) ∨
    (∃ traf, moof.trafs = [traf] ∧ traf.baseMediaDecodeTime = none ∧
      Fragment.new moof = .error .panic) ∨
    (∀ traf, moof.trafs ≠ [traf]) ∧ ∃ text, Fragment.new moof = .error (.err text) := by
  unfold Fragment.new
  split
  · next traf hone =>
      cases htime : traf.baseMediaDecodeTime with
      | some time => exact .inl ⟨traf, _, hone, htime, rfl⟩
      | none => exact .inr (.inl ⟨traf, hone, htime, rfl⟩)
  · next hmany => exact .inr (.inr ⟨hmany, _, rfl⟩)

theorem Track.process_ok {overflow : Overflow} {fragment : Fragment}
    (h : Fragment.new moof = .ok fragment) :
    track.process overflow raw moof = track.headerIn overflow raw fragment := by
  rw [Track.process, h]
  rfl

/-- Several tracks in a moof are an error; without a time there is none. -/
theorem Track.process_error {overflow : Overflow} {fault : Fault String}
    (h : Fragment.new moof = .error fault) :
    track.process overflow raw moof = .error fault := by
  rw [Track.process, h]
  rfl

theorem timestampIn_panics {fragment : Fragment} {timescale : Nat}
    (h : timescale = 0 ∨ 2 ^ 64 ≤ 1000 * fragment.timestamp.toNat) :
    fragment.timestampIn .panics timescale = .error .panic := by
  by_cases hlt : 1000 * fragment.timestamp.toNat < 2 ^ 64
  · have hmul : mulU64 .panics 1000 fragment.timestamp.toNat =
        .ok (1000 * fragment.timestamp.toNat) := if_pos hlt
    have hzero : timescale = 0 := h.resolve_right (not_le.mpr hlt)
    rw [Fragment.timestampIn, hmul]
    exact if_pos hzero
  · have hmul : mulU64 .panics 1000 fragment.timestamp.toNat = .error .panic := if_neg hlt
    rw [Fragment.timestampIn, hmul]
    rfl

theorem TimingSafe.ne_panic (h : TimingSafe track raw moof) (overflow : Overflow) :
    track.process overflow raw moof ≠ .error .panic := by
  intro hpanic
  rcases h.total overflow with ⟨track', hok, -⟩ | ⟨text, herr⟩
  · rw [hpanic] at hok
    cases hok
  · rw [hpanic] at herr
    cases herr

theorem timed_of_safe (h : TimingSafe track raw moof) : Timed track moof := by
  intro traf hone
  rcases Fragment.new_cases moof with
    ⟨traf', fragment, hone', htime, hfragment⟩ | ⟨-, -, -, hpanic⟩ | ⟨hmany, -⟩
  · obtain rfl := List.singleton_inj.mp (hone.symm.trans hone')
    refine ⟨fragment.timestamp, htime, ?_⟩
    cases hcurrent : track.current with
    | some current => exact .inl rfl
    | none =>
        right
        by_contra hbad
        -- the build that panics on overflow tells all of them apart
        have hstop : fragment.timestampIn .panics track.timescale = .error .panic :=
          timestampIn_panics (by
            by_cases hzero : track.timescale = 0
            · exact .inl hzero
            · exact .inr (not_lt.mp fun hlt => hbad ⟨hzero, hlt⟩))
        apply h.ne_panic .panics
        rw [Track.process_ok hfragment, Track.headerIn_none hcurrent, Track.checkTime, hstop]
        rfl
  · exact absurd (Track.process_error hpanic) (h.ne_panic .wraps)
  · exact absurd hone (hmany traf)

/-- The time of a fragment for a track without a group, in range. -/
theorem process_in_range {fragment : Fragment} (overflow : Overflow) (hs : track.Sound)
    (hcurrent : track.current = none) (hfragment : Fragment.new moof = .ok fragment)
    (hscale : track.timescale ≠ 0) (hlt : 1000 * fragment.timestamp.toNat < 2 ^ 64) :
    (∃ track', track.process overflow raw moof = .ok track' ∧ track.Publishes raw track') ∨
      ∃ text, track.process overflow raw moof = .error (.err text) := by
  rw [Track.process_ok hfragment]
  by_cases hfits : 1000 * fragment.timestamp.toNat / track.timescale < 2 ^ 32
  · rw [Track.headerIn_fits hscale hlt hfits]
    exact Track.publish_cases hs
  · right
    refine ⟨"failed to publish moof", ?_⟩
    have hcheck : Track.checkTime overflow fragment track.timescale =
        .error (.err "failed to publish moof") := by
      rw [Track.checkTime, timestampIn_exact hscale hlt]
      exact if_pos (not_lt.mp hfits)
    rw [Track.headerIn_none hcurrent, hcheck]
    rfl

theorem safe_of_timed (hs : track.Sound) (h : Timed track moof) :
    TimingSafe track raw moof := by
  rcases Fragment.new_cases moof with
    ⟨traf, fragment, hone, htime, hfragment⟩ | ⟨traf, hone, htime, -⟩ | ⟨-, text, herr⟩
  · obtain ⟨time, htime', hrange⟩ := h traf hone
    obtain rfl := Option.some.inj (htime.symm.trans htime')
    cases hcurrent : track.current with
    | some current =>
        have hpublish (overflow : Overflow) :
            track.process overflow raw moof = track.publish raw := by
          rw [Track.process_ok hfragment, Track.headerIn_some hcurrent]
        constructor
        · intro overflow
          rw [hpublish]
          exact Track.publish_cases hs
        · intro overflow fragment' _ _ _
          exact hpublish overflow
    | none =>
        rw [hcurrent] at hrange
        obtain ⟨hscale, hlt⟩ := hrange.resolve_left Bool.false_ne_true
        constructor
        · intro overflow
          exact process_in_range overflow hs hcurrent hfragment hscale hlt
        · intro overflow fragment' hfragment' _ hfits
          obtain rfl := Except.ok.inj (hfragment.symm.trans hfragment')
          rw [Track.process_ok hfragment]
          exact Track.headerIn_fits hscale hlt hfits
  · obtain ⟨time, htime', -⟩ := h traf hone
    cases htime.symm.trans htime'
  · constructor
    · intro overflow
      exact .inr ⟨text, Track.process_error herr⟩
    · intro overflow fragment hfragment
      cases herr.symm.trans hfragment

end

/-- A fragment's times are handled without panic or overflow exactly if the
fragment has a time and, where it begins a group, the timescale is not zero
and the time in thousandths does not overflow. -/
theorem fragment_timing_iff {f : Formats} {track : Track} (h : Arises f track) (raw : Bytes)
    (moof : MoofBox) : TimingSafe track raw moof ↔ Timed track moof :=
  ⟨timed_of_safe, safe_of_timed h.sound⟩

namespace Sample

/-- The track 1 with a timescale of its own. -/
def trakAt (timescale : UInt32) : Bytes :=
  box [116, 114, 97, 107]
    (fullBox [116, 107, 104, 100]
        (zeros 8 ++ word 1 ++ zeros 24 ++ matrix ++ word 0x2800000 ++ word 0x1680000) ++
      box [109, 100, 105, 97]
        (fullBox [109, 100, 104, 100]
            (zeros 8 ++ word timescale.toNat ++ zeros 4 ++ [85, 196, 0, 0]) ++
          fullBox [104, 100, 108, 114] (zeros 4 ++ [118, 105, 100, 101] ++ zeros 13) ++ minf))

def moovAt (timescale : UInt32) : Bytes := box [109, 111, 111, 118] (mvhd ++ trakAt timescale)

/-- A keyframe with a 64-bit decode time, or without one. -/
def moofAt (time : Option UInt64) : Bytes :=
  let tfdt :=
    match time with
    | some time => box [116, 102, 100, 116] ([1, 0, 0, 0] ++ toBeBytes 8 time.toNat)
    | none => []
  box [109, 111, 111, 102]
    (fullBox [109, 102, 104, 100] (word 1) ++
      box [116, 114, 97, 102]
        (box [116, 102, 104, 100] ([0, 2, 0, 0] ++ word 1) ++ tfdt ++
          box [116, 114, 117, 110] ([0, 0, 0, 4] ++ word 1 ++ word keyframe)))

def moofBoxAt (time : Option UInt64) : MoofBox :=
  ⟨[⟨1, none, time, some ⟨1, some (UInt32.ofNat keyframe), []⟩⟩]⟩

/-- The mp4 crate on these atoms. -/
def timedFormats : Formats where
  header := formats.header
  moov atom :=
    if atom.length = 558 then
      .ok ⟨[{ trakBox 1 with
        timescale := UInt32.ofNat (fromBeBytes ((atom.drop 244).take 4)) }]⟩
    else
      .error "moov not found"
  moof atom :=
    if atom.length = 88 then
      .ok (moofBoxAt (some (UInt64.ofNat (fromBeBytes ((atom.drop 60).take 8)))))
    else if atom.length = 68 then
      .ok (moofBoxAt none)
    else
      .error "mfhd not found"
  catalog := formats.catalog

/-- A publisher behind the first two atoms of a file, and its track 1. -/
def firstMedia (timescale : UInt32) : Except (Fault String) Media := do
  let start ← Media.new (.new [])
  [ftyp, moovAt timescale].foldlM (Media.parseAtom timedFormats) start

def firstTrack (timescale : UInt32) : Option Track :=
  (firstMedia timescale).toOption.bind fun m => m.tracks 1

theorem arises_of_firstTrack {timescale : UInt32} {track : Track}
    (h : firstTrack timescale = some track) : Arises timedFormats track := by
  obtain ⟨m, hm, htrack⟩ := Option.bind_eq_some_iff.mp h
  cases hrun : firstMedia timescale with
  | error fault =>
      rw [hrun] at hm
      cases hm
  | ok m' =>
      rw [hrun] at hm
      obtain rfl := Option.some.inj hm
      obtain ⟨start, hnew, hfold⟩ := ok_of_bind hrun
      exact ⟨_, start, m', _, 1, track, hnew, hfold, htrack, .inl rfl⟩

/-- The first fragment of a file, as its track is asked to publish it. -/
def Fails (timescale : UInt32) (time : Option UInt64) : Prop :=
  ∃ track, firstTrack timescale = some track ∧ Arises timedFormats track ∧
    timedFormats.moof (moofAt time) = .ok (moofBoxAt time) ∧
    ¬ TimingSafe track (moofAt time) (moofBoxAt time)

theorem firstTrack_eq_zero : firstTrack 0 = some (.new .video 0) := by decide +kernel

theorem firstTrack_eq_thousand : firstTrack 1000 = some (.new .video 1000) := by decide +kernel

end Sample

/-- A timescale of zero, a moof without a decode time, and a decode time whose
thousandfold is too large. -/
theorem fragment_timing_fails :
    Sample.Fails 0 (some 0) ∧ Sample.Fails 1000 none ∧
      Sample.Fails 1000 (some (.ofNat (2 ^ 62))) := by
  have hzero := Sample.firstTrack_eq_zero
  have hthousand := Sample.firstTrack_eq_thousand
  refine ⟨⟨_, hzero, Sample.arises_of_firstTrack hzero, by decide +kernel, ?_⟩,
    ⟨_, hthousand, Sample.arises_of_firstTrack hthousand, by decide +kernel, ?_⟩,
    ⟨_, hthousand, Sample.arises_of_firstTrack hthousand, by decide +kernel, ?_⟩⟩
  · intro hsafe
    exact hsafe.ne_panic .wraps rfl
  · intro hsafe
    exact hsafe.ne_panic .wraps rfl
  · intro hsafe
    exact hsafe.ne_panic .panics (by decide +kernel)

/-- A file whose times are in range, at its first fragment. -/
theorem fragment_timing_iff_inRange :
    Arises Sample.timedFormats (.new .video 1000) ∧
      (TimingSafe (.new .video 1000) (Sample.moofAt (some 90)) (Sample.moofBoxAt (some 90)) ↔
        Timed (.new .video 1000) (Sample.moofBoxAt (some 90))) :=
  have harises := Sample.arises_of_firstTrack Sample.firstTrack_eq_thousand
  ⟨harises, fragment_timing_iff harises _ _⟩

end MoqTransport.Mp4
