import MoqTransport.Dir.Reader

/-!
The newest subgroup of a listing as an encoding of its set: the names of the
snapshot, each ended by a newline, and the changes since. It is kept by every
call that succeeds (`Encoded`), whatever becomes of the readers meanwhile; that
a snapshot is not empty follows from the rule that chooses between the two.
-/

namespace MoqTransport.Dir

open Streaming Coding Serve Machine

/-! What a subgroup says. -/

def readName (name : Bytes) : Option String := String.fromUTF8? ⟨name.toArray⟩

/-- A list of names that are each ended by a newline. -/
def readNames (payload : Bytes) : Option (Finset String) :=
  let names := payload.splitOn 10
  if names.getLast? = some [] then (names.dropLast.mapM readName).map List.toFinset else none

def readChange : Bytes → Option ListingDelta
  | 43 :: name => (readName name).map .add
  | 45 :: name => (readName name).map .rem
  | _ => none

def applyChange (names : Finset String) (payload : Bytes) : Option (Finset String) :=
  (readChange payload).bind (·.apply names)

def restore : List Bytes → Option (Finset String)
  | [] => none
  | snapshot :: changes => (readNames snapshot).bind (changes.foldlM applyChange)

theorem restore_concat {subgroup : List Bytes} (h : subgroup ≠ []) (payload : Bytes) :
    restore (subgroup ++ [payload]) = (restore subgroup).bind (applyChange · payload) := by
  cases subgroup with
  | nil => exact absurd rfl h
  | cons snapshot changes =>
      simp [restore, List.foldlM_append, Option.bind_assoc]

theorem readName_bytes (name : String) : readName (Str.bytes name) = some name :=
  Str.fromUTF8?_bytes name

theorem readNames_snapshotPayload {names : List String} (h : ∀ name ∈ names, '\n' ∉ name.toList) :
    readNames (Listing.snapshotPayload names) = some names.toFinset := by
  have hread : (names.map Str.bytes).mapM readName = some names := by
    induction names with
    | nil => rfl
    | cons name names ih =>
        have hrest := ih fun other hother => h other (List.mem_cons_of_mem _ hother)
        simp [readName_bytes, hrest]
  unfold readNames
  rw [splitOn_snapshotPayload names h]
  simp [hread]

/-- A subgroup that stands for a set, by how it came about. -/
inductive Encodes : List Bytes → Finset String → Prop where
  | snapshot {names : List String} (hplain : ∀ name ∈ names, '\n' ∉ name.toList)
      (hnames : names ≠ []) : Encodes [Listing.snapshotPayload names] names.toFinset
  | add {subgroup : List Bytes} {current : Finset String} {name : String}
      (h : Encodes subgroup current) (hname : name ∉ current) :
      Encodes (subgroup ++ [43 :: Str.bytes name]) (insert name current)
  | rem {subgroup : List Bytes} {current : Finset String} {name : String}
      (h : Encodes subgroup current) (hname : name ∈ current) :
      Encodes (subgroup ++ [45 :: Str.bytes name]) (current.erase name)

namespace Encodes

variable {subgroup : List Bytes} {current : Finset String}

theorem ne_nil (h : Encodes subgroup current) : subgroup ≠ [] := by
  cases h with
  | snapshot => exact List.cons_ne_nil _ _
  | add => exact List.append_ne_nil_of_right_ne_nil _ (List.cons_ne_nil _ _)
  | rem => exact List.append_ne_nil_of_right_ne_nil _ (List.cons_ne_nil _ _)

theorem payload_ne_nil (h : Encodes subgroup current) : ∀ payload ∈ subgroup, payload ≠ [] := by
  induction h with
  | snapshot _ hnames =>
      intro payload hpayload
      rw [List.mem_singleton.mp hpayload]
      exact snapshotPayload_ne_nil hnames
  | add _ _ ih => exact forall_mem_concat ih (List.cons_ne_nil _ _)
  | rem _ _ ih => exact forall_mem_concat ih (List.cons_ne_nil _ _)

theorem restore (h : Encodes subgroup current) : restore subgroup = some current := by
  induction h with
  | snapshot hplain _ =>
      rw [Dir.restore, readNames_snapshotPayload hplain]
      rfl
  | @add subgroup current name h hname ih =>
      rw [restore_concat h.ne_nil, ih, Option.bind_some, applyChange, readChange, readName_bytes,
        Option.map_some, Option.bind_some, ListingDelta.apply, if_neg hname]
  | @rem subgroup current name h hname ih =>
      rw [restore_concat h.ne_nil, ih, Option.bind_some, applyChange, readChange, readName_bytes,
        Option.map_some, Option.bind_some, ListingDelta.apply, if_pos hname]

/-- What holds of every payload behind the first and of the set before it,
holds again with one more payload that it holds of. -/
theorem behind_concat {P : Finset String → Bytes → Prop} {last : Bytes}
    (hrestore : Dir.restore subgroup = some current) (hlast : P current last)
    (hall : ∀ n payload, subgroup[n + 1]? = some payload →
      ∃ names, Dir.restore (subgroup.take (n + 1)) = some names ∧ P names payload) :
    ∀ n payload, (subgroup ++ [last])[n + 1]? = some payload →
      ∃ names, Dir.restore ((subgroup ++ [last]).take (n + 1)) = some names ∧
        P names payload := by
  intro n payload hpayload
  rcases getElem?_concat_iff.mp hpayload with hold | ⟨hlength, rfl⟩
  · have hlt := (List.getElem?_eq_some_iff.mp hold).1
    rw [List.take_append_of_le_length hlt.le]
    exact hall n payload hold
  · rw [hlength, List.take_left]
    exact ⟨current, hrestore, hlast⟩

theorem change (h : Encodes subgroup current) :
    ∀ n payload, subgroup[n + 1]? = some payload →
      ∃ names, Dir.restore (subgroup.take (n + 1)) = some names ∧
        ∃ name, payload = 43 :: Str.bytes name ∧ name ∉ names ∨
          payload = 45 :: Str.bytes name ∧ name ∈ names := by
  induction h with
  | snapshot _ _ =>
      intro n payload hpayload
      simp at hpayload
  | add h hname ih => exact behind_concat h.restore ⟨_, .inl ⟨rfl, hname⟩⟩ ih
  | rem h hname ih => exact behind_concat h.restore ⟨_, .inr ⟨rfl, hname⟩⟩ ih

end Encodes

/-- The log of a listing whose set is `current`. -/
structure Encoded (log : List (List Bytes)) (current : Finset String) : Prop where
  plain : ∀ name ∈ current, '\n' ∉ name.toList
  empty : log = [] → current = ∅
  newest : ∀ subgroup, log.getLast? = some subgroup → Encodes subgroup current
  all : ∀ subgroup ∈ log, ∃ names, Encodes subgroup names

namespace Encoded

variable {log : List (List Bytes)} {current : Finset String}

theorem nil : Encoded [] ∅ where
  plain := by
    intro name hname
    cases hname
  empty := fun _ => rfl
  newest := by
    intro subgroup hsubgroup
    cases hsubgroup
  all := by
    intro subgroup hsubgroup
    cases hsubgroup

/-- After a change the newest subgroup has it as well, or there is another one
with a snapshot. A subgroup is never empty, so the snapshot is of two names at
least, unless it is the first. -/
theorem change (h : Encoded log current) {current' : Finset String} {payload : Bytes}
    (hplain : ∀ name ∈ current', '\n' ∉ name.toList)
    (hencodes : ∀ subgroup, Encodes subgroup current → Encodes (subgroup ++ [payload]) current')
    (hfirst : log = [] → current'.Nonempty) (iter : Iteration) :
    Encoded (Listing.nextLog log current'.card payload
      (Listing.snapshotPayload (iter.order current'))) current' := by
  have hsnapshot (hnonempty : current'.Nonempty) :
      Encodes [Listing.snapshotPayload (iter.order current')] current' := by
    obtain ⟨name, hname⟩ := hnonempty
    have hencodes : Encodes _ (iter.order current').toFinset :=
      .snapshot (fun other hother => hplain other (iter.mem_order.mp hother))
        (List.ne_nil_of_mem (iter.mem_order.mpr hname))
    rwa [iter.toFinset] at hencodes
  have hnext (earlier : List (List Bytes)) (newest : List Bytes)
      (hearlier : ∀ subgroup ∈ earlier, ∃ names, Encodes subgroup names)
      (hnewest : Encodes newest current') : Encoded (earlier ++ [newest]) current' := by
    constructor
    · exact hplain
    · intro hnil
      simp at hnil
    · intro subgroup hsubgroup
      rw [List.getLast?_concat] at hsubgroup
      cases hsubgroup
      exact hnewest
    · exact forall_mem_concat hearlier ⟨current', hnewest⟩
  rcases List.eq_nil_or_concat' log with rfl | ⟨earlier, newest, rfl⟩
  · exact hnext [] _ (fun _ hmem => absurd hmem List.not_mem_nil) (hsnapshot (hfirst rfl))
  · have hnewest := h.newest newest List.getLast?_concat
    have hlength : 0 < newest.length := List.length_pos_iff.mpr hnewest.ne_nil
    unfold Listing.nextLog
    rw [List.getLast?_concat, List.dropLast_concat]
    dsimp only
    split
    · apply hnext _ _ _ (hencodes newest hnewest)
      intro subgroup hsubgroup
      exact h.all subgroup (List.mem_append_left _ hsubgroup)
    · exact hnext _ _ h.all (hsnapshot (Finset.card_pos.mp (by omega)))

theorem insert (h : Encoded log current) {name : String} (hname : name ∉ current)
    (hplain : '\n' ∉ name.toList) (iter : Iteration) :
    Encoded (Listing.nextLog log (Insert.insert name current).card (43 :: Str.bytes name)
      (Listing.snapshotPayload (iter.order (Insert.insert name current))))
      (Insert.insert name current) := by
  apply h.change
  · intro other hother
    rcases Finset.mem_insert.mp hother with rfl | hother
    · exact hplain
    · exact h.plain other hother
  · intro subgroup hsubgroup
    exact hsubgroup.add hname
  · intro _
    exact Finset.insert_nonempty _ _

theorem remove (h : Encoded log current) {name : String} (hname : name ∈ current)
    (iter : Iteration) :
    Encoded (Listing.nextLog log (current.erase name).card (45 :: Str.bytes name)
      (Listing.snapshotPayload (iter.order (current.erase name)))) (current.erase name) := by
  apply h.change
  · intro other hother
    exact h.plain other (Finset.mem_of_mem_erase hother)
  · intro subgroup hsubgroup
    exact hsubgroup.rem hname
  · intro hnil
    rw [h.empty hnil] at hname
    cases hname

end Encoded

/-- Readers that go away: all of the track, or all of its subgroups. -/
inductive Readers where
  | track
  | subgroups

inductive ListingAct where
  | insert (name : String) (iter : Iteration)
  | remove (name : String) (iter : Iteration)
  | leave (readers : Readers)

/-- The name of a call has no newline. -/
def ListingAct.Plain : ListingAct → Prop
  | .insert name _ => '\n' ∉ name.toList
  | .remove name _ => '\n' ∉ name.toList
  | .leave _ => True

namespace Listing

def leave (l : Listing) : Readers → Listing
  | .track => { l with track := { l.track with state := l.track.state.drop } }
  | .subgroups =>
      { l with track := { l.track with
          subgroups := { l.track.subgroups with state := l.track.subgroups.state.drop } } }

def succeeded : Option (Except ServeError Unit × Listing) → Option Listing
  | some (.ok (), l) => some l
  | _ => none

/-- The calls that succeed. -/
def step (l : Listing) : ListingAct → Option Listing
  | .insert name iter => succeeded (l.insert name iter)
  | .remove name iter => succeeded (l.remove name iter)
  | .leave readers => some (l.leave readers)

/-- The payloads of the newest subgroup. -/
def newest (l : Listing) : Option (List Bytes) :=
  l.track.subgroups.state.value.latest.bind fun latest => l.log[latest.cell]?

variable {l l' : Listing} {w : SubgroupWriter} {ws : SubgroupsWriter}
  {earlier : List SubgroupCell} {newest : SubgroupCell}

theorem succeeded_eq_some {result : Option (Except ServeError Unit × Listing)}
    (h : succeeded result = some l) : result = some (.ok (), l) := by
  unfold succeeded at h
  split at h
  · cases h
    rfl
  · cases h

/-- A listing whose log encodes its set. -/
structure Good (l : Listing) : Prop where
  place : Waits l ∨ ∃ w ws earlier newest, Writes l w ws earlier newest
  encoded : Encoded l.log l.writer.current

theorem good_new : Good new where
  place := .inl ⟨rfl, rfl, rfl, rfl⟩
  encoded := .nil

theorem Writes.newest_eq (h : Writes l w ws earlier newest) : l.newest = l.log.getLast? := by
  rw [Listing.newest, h.state, h.log, List.getLast?_concat]
  simp [h.place]

theorem Good.newest_eq (h : Good l) : l.newest = l.log.getLast? := by
  rcases h.place with hwaits | ⟨w, ws, earlier, newest, hwrites⟩
  · have hlog : l.log = [] := by rw [log, hwaits.cells]; rfl
    rw [Listing.newest, hwaits.latest, hlog]
    rfl
  · exact hwrites.newest_eq

/-- A call that succeeds has put its change into the set and the log. -/
theorem Good.publish (h : Good l) {current : Finset String} {payload : Bytes} {iter : Iteration}
    (hencoded : Encoded (nextLog l.log current.card payload (snapshotPayload (iter.order current)))
      current)
    (hok : (l.withCurrent current).publish payload iter = some (.ok (), l')) :
    Good l' ∧ l'.newest ≠ none := by
  have hplace : Waits (l.withCurrent current) ∨
      ∃ w ws earlier newest, Writes (l.withCurrent current) w ws earlier newest := by
    rcases h.place with hwaits | ⟨w, ws, earlier, newest, hwrites⟩
    · exact .inl { hwaits with }
    · exact .inr ⟨w, ws, earlier, newest, { hwrites with }⟩
  obtain ⟨⟨w, ws, earlier, newest, hwrites⟩, hcurrent, hlog⟩ := publish_cases hplace hok
  refine ⟨⟨.inr ⟨w, ws, earlier, newest, hwrites⟩, ?_⟩, ?_⟩
  · rw [hlog, hcurrent]
    exact hencoded
  · rw [hwrites.newest_eq, hwrites.log, List.getLast?_concat]
    exact Option.some_ne_none _

theorem Good.leave (h : Good l) (readers : Readers) : Good (l.leave readers) := by
  refine ⟨?_, ?_⟩
  · rcases h.place with hwaits | ⟨w, ws, earlier, newest, hwrites⟩
    · left
      cases readers with
      | track => exact { hwaits with }
      | subgroups => exact { hwaits with }
    · refine .inr ⟨w, ws, earlier, newest, ?_⟩
      cases readers with
      | track => exact { hwrites with }
      | subgroups => exact { hwrites with }
  · cases readers with
    | track => exact h.encoded
    | subgroups => exact h.encoded

/-- After a step all is well again, and there is a subgroup unless there was
none and only readers have gone away. -/
theorem Good.step (h : Good l) {a : ListingAct} (hplain : a.Plain) (hstep : step l a = some l') :
    Good l' ∧ (l'.newest = none → l.newest = none ∧ ∃ readers, a = .leave readers) := by
  cases a with
  | insert name iter =>
      have hok := succeeded_eq_some hstep
      unfold Listing.insert at hok
      split at hok
      · cases hok
      · next hname =>
          obtain ⟨hgood, hnewest⟩ := h.publish (h.encoded.insert hname hplain iter) hok
          exact ⟨hgood, fun hnone => absurd hnone hnewest⟩
  | remove name iter =>
      have hok := succeeded_eq_some hstep
      unfold Listing.remove at hok
      split at hok
      · next hname =>
          obtain ⟨hgood, hnewest⟩ := h.publish (h.encoded.remove hname iter) hok
          exact ⟨hgood, fun hnone => absurd hnone hnewest⟩
      · cases hok
  | leave readers =>
      obtain rfl := Option.some.inj hstep
      refine ⟨h.leave readers, ?_⟩
      intro hnone
      refine ⟨?_, readers, rfl⟩
      cases readers with
      | track => exact hnone
      | subgroups => exact hnone

theorem Good.run (h : Good l) {acts : List ListingAct}
    (hrun : Run Listing.step (fun _ a => a.Plain) l acts l') :
    Good l' ∧ (l'.newest = none → l.newest = none ∧ ∀ a ∈ acts, ∃ readers, a = .leave readers) := by
  induction hrun with
  | nil => exact ⟨h, fun hnone => ⟨hnone, fun a ha => absurd ha List.not_mem_nil⟩⟩
  | cons hplain hstep _ ih =>
      obtain ⟨hmid, hfirst⟩ := h.step hplain hstep
      obtain ⟨hgood, hrest⟩ := ih hmid
      refine ⟨hgood, ?_⟩
      intro hnone
      obtain ⟨hnone, hleave⟩ := hrest hnone
      obtain ⟨hnone, readers, rfl⟩ := hfirst hnone
      exact ⟨hnone, List.forall_mem_cons.mpr ⟨⟨readers, rfl⟩, hleave⟩⟩

/-- The newest subgroup of a listing says what its set is, as soon as there has
been a call. No payload of its log is empty; a change in it adds a name that is
absent before, or removes one that is present. -/
theorem newest_restores {acts : List ListingAct}
    (hrun : Run step (fun _ a => a.Plain) new acts l) :
    (l.newest = none → l.writer.current = ∅ ∧ ∀ a ∈ acts, ∃ readers, a = .leave readers) ∧
      (∀ subgroup, l.newest = some subgroup → restore subgroup = some l.writer.current) ∧
      ∀ subgroup ∈ l.log, (∀ payload ∈ subgroup, payload ≠ []) ∧
        ∀ n payload, subgroup[n + 1]? = some payload →
          ∃ names name, restore (subgroup.take (n + 1)) = some names ∧
            (payload = 43 :: Str.bytes name ∧ name ∉ names ∨
              payload = 45 :: Str.bytes name ∧ name ∈ names) := by
  obtain ⟨hgood, hnone⟩ := good_new.run hrun
  have hencoded := hgood.encoded
  rw [hgood.newest_eq] at hnone ⊢
  refine ⟨?_, ?_, ?_⟩
  · intro hnil
    exact ⟨hencoded.empty (List.getLast?_eq_none_iff.mp hnil), (hnone hnil).2⟩
  · intro subgroup hsubgroup
    exact (hencoded.newest subgroup hsubgroup).restore
  · intro subgroup hsubgroup
    obtain ⟨names, hencodes⟩ := hencoded.all subgroup hsubgroup
    refine ⟨hencodes.payload_ne_nil, ?_⟩
    intro n payload hpayload
    obtain ⟨names, hrestore, name, hchange⟩ := hencodes.change n payload hpayload
    exact ⟨names, name, hrestore, hchange⟩

/-- The readers go away, and the newest subgroup takes two more changes. -/
theorem newest_restores_changed :
    ∃ l, Run step (fun _ a => a.Plain) new
        [.insert "a" .sorted, .leave .subgroups, .remove "a" .sorted, .insert "b" .sorted] l ∧
      l.newest = some [[97, 10], [45, 97], [43, 98]] ∧
      restore [[97, 10], [45, 97], [43, 98]] = some l.writer.current := by
  have hrun : ∃ l, Run step (fun _ a => a.Plain) new
      [.insert "a" .sorted, .leave .subgroups, .remove "a" .sorted, .insert "b" .sorted] l ∧
      l.newest = some [[97, 10], [45, 97], [43, 98]] :=
    ⟨_, .cons (by simp [ListingAct.Plain]) rfl <| .cons trivial rfl <|
      .cons (by simp [ListingAct.Plain]) rfl <| .cons (by simp [ListingAct.Plain]) rfl .nil, rfl⟩
  obtain ⟨l, hrun, hnewest⟩ := hrun
  exact ⟨l, hrun, hnewest, (newest_restores hrun).2.1 _ hnewest⟩

end Listing

end MoqTransport.Dir
