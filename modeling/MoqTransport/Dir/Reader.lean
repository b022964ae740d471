import MoqTransport.Dir.Listing
import MoqTransport.Lib.Machine

/-!
The reader of a listing. The first payload of a subgroup is compared with the
last snapshot, and the differences are queued; the others are passed on as
deltas. The reader does not note those itself, but no snapshot comes after a
delta (`Replays.earlier`), so that the last snapshot is what it has passed on
whenever it goes to another subgroup (`Placed.view_eq_current`).
-/

namespace MoqTransport.Dir

open Streaming Coding Serve Machine

inductive ListingDelta where
  | add (name : String)
  | rem (name : String)
deriving DecidableEq

namespace ListingDelta

/-- Fold a delta into a set. A name that is present cannot be added, and one
that is absent cannot be removed. -/
def apply (names : Finset String) : ListingDelta → Option (Finset String)
  | .add name => if name ∈ names then none else some (insert name names)
  | .rem name => if name ∈ names then some (names.erase name) else none

def applyAll (names : Finset String) (deltas : List ListingDelta) : Option (Finset String) :=
  deltas.foldlM apply names

theorem applyAll_cons (names : Finset String) (delta : ListingDelta) (deltas : List ListingDelta) :
    applyAll names (delta :: deltas) = (apply names delta).bind (applyAll · deltas) :=
  List.foldlM_cons

theorem applyAll_append (names : Finset String) (first second : List ListingDelta) :
    applyAll names (first ++ second) = (applyAll names first).bind (applyAll · second) :=
  List.foldlM_append

theorem applyAll_add {names : Finset String} {added : List String} (hnodup : added.Nodup)
    (hnew : ∀ name ∈ added, name ∉ names) :
    applyAll names (added.map .add) = some (names ∪ added.toFinset) := by
  induction added generalizing names with
  | nil => simp [applyAll]
  | cons name added ih =>
      obtain ⟨hname, hnodup⟩ := List.nodup_cons.mp hnodup
      have hrest : ∀ other ∈ added, other ∉ insert name names := by
        intro other hother hmem
        rcases Finset.mem_insert.mp hmem with rfl | hmem
        · exact hname hother
        · exact hnew other (List.mem_cons_of_mem _ hother) hmem
      rw [List.map_cons, applyAll_cons, apply, if_neg (hnew name List.mem_cons_self),
        Option.bind_some, ih hnodup hrest, List.toFinset_cons, Finset.insert_union,
        Finset.union_insert]

theorem applyAll_rem {names : Finset String} {removed : List String} (hnodup : removed.Nodup)
    (hold : ∀ name ∈ removed, name ∈ names) :
    applyAll names (removed.map .rem) = some (names \ removed.toFinset) := by
  induction removed generalizing names with
  | nil => simp [applyAll]
  | cons name removed ih =>
      obtain ⟨hname, hnodup⟩ := List.nodup_cons.mp hnodup
      have hrest : ∀ other ∈ removed, other ∈ names.erase name := by
        intro other hother
        refine Finset.mem_erase.mpr ⟨?_, hold other (List.mem_cons_of_mem _ hother)⟩
        rintro rfl
        exact hname hother
      rw [List.map_cons, applyAll_cons, apply, if_pos (hold name List.mem_cons_self),
        Option.bind_some, ih hnodup hrest, List.toFinset_cons, Finset.sdiff_insert,
        Finset.erase_sdiff_comm]

/-- The diff of two sets leads from one to the other. -/
theorem applyAll_diff (iter : Iteration) (names set : Finset String) :
    applyAll names ((iter.order (set \ names)).map .add ++ (iter.order (names \ set)).map .rem) =
      some set := by
  rw [applyAll_append, applyAll_add (iter.nodup _), Option.bind_some, applyAll_rem (iter.nodup _),
    iter.toFinset, iter.toFinset]
  · congr 1
    ext name
    grind
  · intro name hname
    exact Finset.mem_union_left _ (Finset.mem_sdiff.mp (iter.mem_order.mp hname)).1
  · intro name hname
    exact (Finset.mem_sdiff.mp (iter.mem_order.mp hname)).2

end ListingDelta

/-- The errors of `next`, with the texts of those that are its own. -/
inductive ListingError where
  | serve (err : ServeError)
  | other (text : String)
  | invalidDelta (payload : Bytes)
deriving DecidableEq

structure ListingReader where
  /-- The epoch of the `SubgroupsReader`. -/
  subgroups : Option Nat
  subgroup : Option SubgroupReader
  current : Finset String
  deltas : List ListingDelta

/-- The flags of a call of `next`. -/
structure NextCall where
  subgroupDone : Bool
  subgroupsDone : Bool
deriving DecidableEq

/-- How far a call has come. -/
inductive NextOutcome where
  | continues (call : NextCall)
  | returned (result : Except ListingError (Option ListingDelta))

/-- What a call of `next` waits for. -/
inductive NextAct where
  | mode
  | first
  | subgroups
  | object (iter : Iteration)
  | finish

def parseSnapshot (payload : Bytes) : Finset String :=
  ((payload.splitOn 10).map Str.fromUtf8Lossy).toFinset

def parseDelta : Bytes → Except ListingError ListingDelta
  | 43 :: name => .ok (.add (Str.fromUtf8Lossy name))
  | 45 :: name => .ok (.rem (Str.fromUtf8Lossy name))
  | payload => .error (.invalidDelta payload)

namespace ListingReader

def new : ListingReader := ⟨none, none, ∅, []⟩

def pop (reader : ListingReader) : Option ListingDelta × ListingReader :=
  (reader.deltas.head?, { reader with deltas := reader.deltas.tail })

/-- The start of a call. -/
def start (reader : ListingReader) : NextOutcome × ListingReader :=
  match reader.pop with
  | (some delta, reader) => (.returned (.ok (some delta)), reader)
  | (none, reader) => (.continues ⟨false, false⟩, reader)

/-- `self.track.mode()`. -/
def takeMode (reader : ListingReader) (track : Track) (call : NextCall) :
    Option (NextOutcome × ListingReader) :=
  match TrackReader.mode track with
  | .pending => none
  | .ready (.ok .subgroups) => some (.continues call, { reader with subgroups := some 0 })
  | .ready (.ok _) => some (.returned (.error (.other "expected subgroups mode")), reader)
  | .ready (.error err) => some (.returned (.error (.serve err)), reader)

/-- Wait for a subgroup. Both places that do so agree but for what they make
of the end. -/
def takeSubgroup (reader : ListingReader) (track : Track) (epoch : Nat) (call : NextCall)
    (ended : NextOutcome) : Option (NextOutcome × ListingReader) :=
  match SubgroupsReader.next track.subgroups epoch with
  | .pending => none
  | .ready (.ok (some subgroup)) =>
      some (.continues { call with subgroupDone := false },
        { reader with
          subgroups := some track.subgroups.state.value.epoch
          subgroup := some subgroup })
  | .ready (.ok none) => some (ended, reader)
  | .ready (.error err) => some (.returned (.error (.serve err)), reader)

/-- The diff to a snapshot. -/
def takeSnapshot (reader : ListingReader) (payload : Bytes) (iter : Iteration) : ListingReader :=
  let set := parseSnapshot payload
  { reader with
    current := set
    deltas := reader.deltas ++ (iter.order (set \ reader.current)).map .add ++
      (iter.order (reader.current \ set)).map .rem }

/-- What the loop does with a payload, after which the reader is at `pos`. -/
def takePayload (reader : ListingReader) (pos : Nat) (payload : Bytes) (call : NextCall)
    (iter : Iteration) : NextOutcome × ListingReader :=
  if payload = [] then (.returned (.error (.other "empty payload")), reader)
  else if pos = 1 then
    match (reader.takeSnapshot payload iter).pop with
    | (some delta, reader) => (.returned (.ok (some delta)), reader)
    | (none, reader) => (.continues call, reader)
  else (.returned ((parseDelta payload).map some), reader)

/-- `self.subgroup.read_next()`. -/
def takeObject (reader : ListingReader) (track : Track) (subgroup : SubgroupReader)
    (call : NextCall) (iter : Iteration) : Option (NextOutcome × ListingReader) :=
  match subgroup.readNext (track.subgroups.cells.getD subgroup.cell subgroup.info.produce) with
  | (.pending, _) => none
  | (.ready (.ok none), _) => some (.continues { call with subgroupDone := true }, reader)
  | (.ready (.ok (some payload)), subgroup) =>
      some ({ reader with subgroup := some subgroup }.takePayload subgroup.index payload call iter)
  | (.ready (.error err), subgroup) =>
      some (.returned (.error (.serve err)), { reader with subgroup := some subgroup })

/-- A call goes on with what it was waiting for; what is not ready is no
step. The last two arms of `select!` are open until they are done. -/
def poll (reader : ListingReader) (track : Track) (call : NextCall) :
    NextAct → Option (NextOutcome × ListingReader)
  | .mode =>
      match reader.subgroups with
      | none => reader.takeMode track call
      | some _ => none
  | .first =>
      match reader.subgroups, reader.subgroup with
      | some epoch, none =>
          reader.takeSubgroup track epoch call (.returned (.error (.other "empty track")))
      | _, _ => none
  | .subgroups =>
      match reader.subgroups, reader.subgroup, call.subgroupsDone with
      | some epoch, some _, false =>
          reader.takeSubgroup track epoch call (.continues { call with subgroupsDone := true })
      | _, _, _ => none
  | .object iter =>
      match reader.subgroup, call.subgroupDone with
      | some subgroup, false => reader.takeObject track subgroup call iter
      | _, _ => none
  | .finish =>
      match reader.subgroup, call with
      | some _, ⟨true, true⟩ => some (.returned (.ok none), reader)
      | _, _ => none

end ListingReader

/-! What a reader makes of the log. -/

def applyPayload (names : Finset String) (payload : Bytes) : Option (Finset String) :=
  match parseDelta payload with
  | .ok delta => delta.apply names
  | .error _ => none

/-- The set after the payloads of a subgroup. -/
def replay : List Bytes → Option (Finset String)
  | [] => none
  | snapshot :: changes => changes.foldlM applyPayload (parseSnapshot snapshot)

/-- The log of a writer whose set is `current`. All subgroups but the newest
are a snapshot only: once there is a delta, its subgroup has more objects than
the set has names. -/
structure Replays (log : List (List Bytes)) (current : Finset String) : Prop where
  names : ∀ name ∈ current, name ≠ "" ∧ '\n' ∉ name.toList
  empty : log = [] → current = ∅
  newest : ∀ newest, log.getLast? = some newest → replay newest = some (insert "" current) ∧
    (newest.length = 1 ∨ current.card < newest.length)
  snapshots : ∀ subgroup ∈ log, subgroup.head? ≠ some []
  earlier : ∀ subgroup ∈ log.dropLast, subgroup.length = 1

theorem replays_nil : Replays [] ∅ := by
  constructor
  · intro name hname
    cases hname
  · intro _
    rfl
  · intro newest hnewest
    cases hnewest
  · intro subgroup hsubgroup
    cases hsubgroup
  · intro subgroup hsubgroup
    cases hsubgroup

theorem Replays.length_eq_one {log : List (List Bytes)} {current : Finset String}
    (h : Replays log current) {c : Nat} {subgroup : List Bytes}
    (hsubgroup : log[c]? = some subgroup) (hc : c + 1 ≠ log.length) : subgroup.length = 1 := by
  obtain ⟨hlt, rfl⟩ := List.getElem?_eq_some_iff.mp hsubgroup
  apply h.earlier
  rw [← List.getElem_dropLast (by rw [List.length_dropLast]; omega)]
  exact List.getElem_mem _

theorem splitOn_snapshotPayload (names : List String) (h : ∀ name ∈ names, '\n' ∉ name.toList) :
    (Listing.snapshotPayload names).splitOn 10 = names.map Str.bytes ++ [[]] := by
  induction names with
  | nil => rfl
  | cons name names ih =>
      have hbytes : ∀ b ∈ Str.bytes name, (b == 10) = false := by
        intro b hb
        rw [beq_eq_false_iff_ne]
        rintro rfl
        exact Str.newline_notMem_bytes (h name List.mem_cons_self) hb
      have hrest := ih fun other hother => h other (List.mem_cons_of_mem _ hother)
      rw [List.splitOn_eq_splitOnP] at hrest ⊢
      rw [Listing.snapshotPayload, List.flatMap_cons, List.append_assoc, List.singleton_append,
        List.splitOnP_append_cons_of_forall_mem hbytes 10 rfl]
      exact congrArg (Str.bytes name :: ·) hrest

/-- A snapshot is read as its names and the empty one. -/
theorem parseSnapshot_snapshotPayload (names : List String)
    (h : ∀ name ∈ names, '\n' ∉ name.toList) :
    parseSnapshot (Listing.snapshotPayload names) = insert "" names.toFinset := by
  have hmap : (names.map Str.bytes).map Str.fromUtf8Lossy = names := by
    rw [List.map_map]
    exact (List.map_congr_left fun name _ => Str.fromUtf8Lossy_bytes name).trans (List.map_id _)
  ext name
  rw [parseSnapshot, splitOn_snapshotPayload names h, List.map_append, hmap, List.mem_toFinset,
    List.mem_append, List.map_singleton, Str.fromUtf8Lossy_nil, List.mem_singleton,
    Finset.mem_insert, List.mem_toFinset]
  exact or_comm

theorem snapshotPayload_ne_nil {names : List String} (h : names ≠ []) :
    Listing.snapshotPayload names ≠ [] := by
  cases names with
  | nil => exact absurd rfl h
  | cons name names => simp [Listing.snapshotPayload]

theorem parseDelta_add (name : String) : parseDelta (43 :: Str.bytes name) = .ok (.add name) := by
  rw [parseDelta, Str.fromUtf8Lossy_bytes]

theorem parseDelta_rem (name : String) : parseDelta (45 :: Str.bytes name) = .ok (.rem name) := by
  rw [parseDelta, Str.fromUtf8Lossy_bytes]

theorem replay_concat {payloads : List Bytes} (h : payloads ≠ []) (payload : Bytes) :
    replay (payloads ++ [payload]) = (replay payloads).bind (applyPayload · payload) := by
  cases payloads with
  | nil => exact absurd rfl h
  | cons snapshot changes => simp [replay, List.foldlM_append]

/-- The log after a snapshot, where all before were snapshots. -/
theorem replays_snapshot {log : List (List Bytes)} {current : Finset String}
    (hnames : ∀ name ∈ current, name ≠ "" ∧ '\n' ∉ name.toList) (hcurrent : current.Nonempty)
    (hsnapshots : ∀ subgroup ∈ log, subgroup.head? ≠ some [])
    (hearlier : ∀ subgroup ∈ log, subgroup.length = 1) (iter : Iteration) :
    Replays (log ++ [[Listing.snapshotPayload (iter.order current)]]) current := by
  have hparse : parseSnapshot (Listing.snapshotPayload (iter.order current)) =
      insert "" current := by
    rw [parseSnapshot_snapshotPayload, iter.toFinset]
    intro name hname
    exact (hnames name (iter.mem_order.mp hname)).2
  have hne : Listing.snapshotPayload (iter.order current) ≠ [] := by
    obtain ⟨name, hname⟩ := hcurrent
    exact snapshotPayload_ne_nil (List.ne_nil_of_mem (iter.mem_order.mpr hname))
  constructor
  · exact hnames
  · intro hnil
    simp at hnil
  · intro newest hnewest
    rw [List.getLast?_concat] at hnewest
    cases hnewest
    exact ⟨congrArg some hparse, .inl rfl⟩
  · exact forall_mem_concat hsnapshots fun h => hne (Option.some.inj h)
  · rw [List.dropLast_concat]
    exact hearlier

/-- A call of the writer keeps its log in step with its set. -/
theorem Replays.change {log : List (List Bytes)} {current current' : Finset String}
    (h : Replays log current) {delta : ListingDelta} {payload : Bytes}
    (hparse : parseDelta payload = .ok delta)
    (hdelta : delta.apply (insert "" current) = some (insert "" current'))
    (hnames : ∀ name ∈ current', name ≠ "" ∧ '\n' ∉ name.toList)
    (hcard : current'.card ≤ current.card + 1) (hfirst : log = [] → current'.Nonempty)
    (iter : Iteration) :
    Replays (Listing.nextLog log current'.card payload
      (Listing.snapshotPayload (iter.order current'))) current' := by
  rcases List.eq_nil_or_concat' log with rfl | ⟨earlier, newest, rfl⟩
  · exact replays_snapshot hnames (hfirst rfl) (fun _ h => absurd h List.not_mem_nil)
      (fun _ h => absurd h List.not_mem_nil) iter
  · obtain ⟨hreplay, hsize⟩ := h.newest newest List.getLast?_concat
    have hne : newest ≠ [] := by
      rintro rfl
      cases hreplay
    have hlength : 0 < newest.length := List.length_pos_iff.mpr hne
    have hearlier := h.earlier
    rw [List.dropLast_concat] at hearlier
    have hsnapshots (subgroup : List Bytes) (hmem : subgroup ∈ earlier) :
        subgroup.head? ≠ some [] :=
      h.snapshots subgroup (List.mem_append_left _ hmem)
    have hhead : newest.head? ≠ some [] :=
      h.snapshots newest (List.mem_append_right _ (List.mem_singleton_self _))
    unfold Listing.nextLog
    rw [List.getLast?_concat, List.dropLast_concat]
    dsimp only
    split
    · next hsmall =>
        constructor
        · exact hnames
        · intro hnil
          simp at hnil
        · intro last hlast
          rw [List.getLast?_concat] at hlast
          cases hlast
          refine ⟨?_, .inr ?_⟩
          · rw [replay_concat hne, hreplay, Option.bind_some, applyPayload, hparse]
            exact hdelta
          · rw [List.length_append, List.length_singleton]
            omega
        · apply forall_mem_concat hsnapshots
          rwa [List.head?_append_of_ne_nil _ hne]
        · rw [List.dropLast_concat]
          exact hearlier
    · next hlarge =>
        apply replays_snapshot hnames
        · exact Finset.card_pos.mp (by omega)
        · exact h.snapshots
        · exact forall_mem_concat hearlier (by omega)

theorem Replays.insert {log : List (List Bytes)} {current : Finset String}
    (h : Replays log current) {name : String} (hname : name ∉ current) (hne : name ≠ "")
    (hnewline : '\n' ∉ name.toList) (iter : Iteration) :
    Replays (Listing.nextLog log (Insert.insert name current).card (43 :: Str.bytes name)
      (Listing.snapshotPayload (iter.order (Insert.insert name current))))
      (Insert.insert name current) := by
  apply h.change (parseDelta_add name)
  · rw [ListingDelta.apply, if_neg (by simp [hne, hname]), Finset.insert_comm]
  · intro other hother
    rcases Finset.mem_insert.mp hother with rfl | hother
    · exact ⟨hne, hnewline⟩
    · exact h.names other hother
  · exact Finset.card_insert_le _ _
  · intro _
    exact Finset.insert_nonempty _ _

theorem Replays.remove {log : List (List Bytes)} {current : Finset String}
    (h : Replays log current) {name : String} (hname : name ∈ current) (iter : Iteration) :
    Replays (Listing.nextLog log (current.erase name).card (45 :: Str.bytes name)
      (Listing.snapshotPayload (iter.order (current.erase name)))) (current.erase name) := by
  apply h.change (parseDelta_rem name)
  · rw [ListingDelta.apply, if_pos (Finset.mem_insert_of_mem hname),
      Finset.erase_insert_of_ne (h.names name hname).1.symm]
  · intro other hother
    exact h.names other (Finset.mem_of_mem_erase hother)
  · have hle := Finset.card_erase_le (s := current) (a := name)
    omega
  · intro hnil
    rw [h.empty hnil] at hname
    cases hname

theorem replay_take_isSome {subgroup : List Bytes} {names : Finset String}
    (h : replay subgroup = some names) {n : Nat} (hn : 0 < n) :
    ∃ mid, replay (subgroup.take n) = some mid := by
  cases subgroup with
  | nil => cases h
  | cons snapshot changes =>
      obtain ⟨m, rfl⟩ := Nat.exists_eq_succ_of_ne_zero hn.ne'
      rw [replay, ← List.take_append_drop m changes, List.foldlM_append] at h
      obtain ⟨mid, hmid, -⟩ := Option.bind_eq_some_iff.mp h
      exact ⟨mid, hmid⟩

namespace Listing

variable {l : Listing}

theorem length_log : l.log.length = l.track.subgroups.cells.length := List.length_map _

theorem Live.published (h : Live l) (hlog : l.log ≠ []) :
    ∃ w ws earlier newest, Published l w ws earlier newest := by
  rcases h with h | h
  · exact absurd h.log hlog
  · exact h

/-- Reading the next object of a subgroup, or its end. -/
theorem Whole.readNext {cell : SubgroupCell} (h : Whole cell) (r : SubgroupReader) :
    (∃ payload, (payloads cell)[r.index]? = some payload ∧
      r.readNext cell = (.ready (.ok (some payload)), { r with index := r.index + 1 })) ∨
    r.readNext cell = (.ready (.ok none), r) ∨ r.readNext cell = (.pending, r) := by
  cases hobject : cell.state.value.objects[r.index]? with
  | some object =>
      obtain ⟨id, payload, rfl⟩ := h.written object (List.mem_of_getElem? hobject)
      refine .inl ⟨payload, ?_, ?_⟩
      · simp [payloads, hobject, SubgroupObjectCell.written]
      · simp [SubgroupReader.readNext, SubgroupCell.next, hobject,
          SubgroupObjectCell.readAll_written]
  | none =>
      right
      cases hdropped : cell.state.dropped with
      | true =>
          left
          rw [SubgroupReader.readNext, SubgroupCell.next_ended hobject h.closed hdropped]
      | false =>
          right
          rw [SubgroupReader.readNext, SubgroupCell.next_of_none hobject, h.closed, hdropped]
          rfl

end Listing

namespace ListingReader

variable {l : Listing} {reader reader' : ListingReader} {call : NextCall} {outcome : NextOutcome}

/-- The set a reader has passed on, once its queue is empty. -/
def view (reader : ListingReader) (log : List (List Bytes)) : Option (Finset String) :=
  match reader.subgroup with
  | none => some reader.current
  | some r =>
      if r.index = 0 then some reader.current else replay ((log.getD r.cell []).take r.index)

/-- Where a reader is in the log. What it compares with is the snapshot of its
subgroup, as soon as it has read that. -/
structure Placed (reader : ListingReader) (log : List (List Bytes)) : Prop where
  opened : reader.subgroups ≠ none → log ≠ []
  place : ∀ r, reader.subgroup = some r → ∃ subgroup, log[r.cell]? = some subgroup ∧
    r.index ≤ subgroup.length ∧ reader.subgroups = some (r.cell + 1) ∧
    (0 < r.index → subgroup.head?.map parseSnapshot = some reader.current)

theorem placed_new : Placed new [] := by
  constructor
  · intro hopened
    exact absurd rfl hopened
  · intro r hr
    cases hr

theorem takeMode_cases (hlive : l.Live)
    (h : reader.takeMode l.track call = some (outcome, reader')) :
    outcome = .continues call ∧ reader' = { reader with subgroups := some 0 } ∧ l.log ≠ [] := by
  unfold takeMode at h
  rcases hlive with hfresh | ⟨w, ws, earlier, newest, hpublished⟩
  · have hmode : TrackReader.mode l.track = .pending := by
      rw [hfresh.produced]
      rfl
    rw [hmode] at h
    cases h
  · have hmode : TrackReader.mode l.track = .ready (.ok .subgroups) := by
      rw [TrackReader.mode, hpublished.mode]
    rw [hmode] at h
    cases h
    refine ⟨rfl, rfl, ?_⟩
    rw [hpublished.log]
    simp

theorem takeSubgroup_cases (hlive : l.Live) (hlog : l.log ≠ []) {epoch : Nat}
    {ended : NextOutcome}
    (h : reader.takeSubgroup l.track epoch call ended = some (outcome, reader')) :
    epoch ≠ l.log.length ∧ ∃ r : SubgroupReader, r.index = 0 ∧ r.cell + 1 = l.log.length ∧
      outcome = .continues { call with subgroupDone := false } ∧
      reader' = { reader with subgroups := some l.log.length, subgroup := some r } := by
  obtain ⟨w, ws, earlier, newest, hpublished⟩ := hlive.published hlog
  have hlength : l.log.length = earlier.length + 1 :=
    Listing.length_log.trans hpublished.length
  unfold takeSubgroup SubgroupsReader.next at h
  rw [hpublished.state, hpublished.live, ← Listing.length_log] at h
  by_cases hepoch : epoch = l.log.length
  · rw [if_neg (not_not.mpr hepoch)] at h
    cases h
  · rw [if_pos hepoch] at h
    cases h
    refine ⟨hepoch, ⟨w.cell, w.info, 0⟩, rfl, ?_, rfl, rfl⟩
    rw [hlength]
    exact congrArg (· + 1) hpublished.place

theorem takeObject_cases (hlive : l.Live) (hlog : l.log ≠ []) {r : SubgroupReader}
    {iter : Iteration} {subgroup : List Bytes} (hsubgroup : l.log[r.cell]? = some subgroup)
    (h : reader.takeObject l.track r call iter = some (outcome, reader')) :
    (∃ payload, subgroup[r.index]? = some payload ∧
      { reader with subgroup := some { r with index := r.index + 1 } }.takePayload (r.index + 1)
        payload call iter = (outcome, reader')) ∨
    (outcome = .continues { call with subgroupDone := true } ∧ reader' = reader) := by
  obtain ⟨w, ws, earlier, newest, hpublished⟩ := hlive.published hlog
  rw [Listing.log, List.getElem?_map] at hsubgroup
  obtain ⟨cell, hcell, rfl⟩ := Option.map_eq_some_iff.mp hsubgroup
  have hwhole := hpublished.whole cell (List.mem_of_getElem? hcell)
  unfold takeObject at h
  rw [List.getD_eq_getElem?_getD, hcell, Option.getD_some] at h
  rcases hwhole.readNext r with ⟨payload, hpayload, hread⟩ | hread | hread
  · rw [hread] at h
    exact .inl ⟨payload, hpayload, Option.some.inj h⟩
  · rw [hread] at h
    cases h
    exact .inr ⟨rfl, rfl⟩
  · rw [hread] at h
    cases h

/-- The log has grown. -/
structure Grows (log log' : List (List Bytes)) : Prop where
  nonempty : log' ≠ []
  subgroup : ∀ (c : Nat) (subgroup : List Bytes), log[c]? = some subgroup →
    ∃ extra, log'[c]? = some (subgroup ++ extra)

theorem grows_nextLog (log : List (List Bytes)) (size : Nat) (payload snapshot : Bytes) :
    Grows log (Listing.nextLog log size payload snapshot) := by
  rcases List.eq_nil_or_concat' log with rfl | ⟨earlier, newest, rfl⟩
  · refine ⟨List.cons_ne_nil _ _, ?_⟩
    intro c subgroup hc
    cases hc
  · unfold Listing.nextLog
    rw [List.getLast?_concat, List.dropLast_concat]
    dsimp only
    split
    · refine ⟨by simp, ?_⟩
      intro c subgroup hc
      rcases getElem?_concat_iff.mp hc with hc | ⟨rfl, rfl⟩
      · exact ⟨[], by rw [List.append_nil]; exact getElem?_concat_iff.mpr (.inl hc)⟩
      · exact ⟨[payload], List.getElem?_concat_length⟩
    · refine ⟨by simp, ?_⟩
      intro c subgroup hc
      exact ⟨[], by rw [List.append_nil]; exact getElem?_concat_iff.mpr (.inl hc)⟩

theorem Placed.grow {log log' : List (List Bytes)} (h : Placed reader log)
    (hgrows : Grows log log') : Placed reader log' := by
  refine ⟨fun _ => hgrows.nonempty, ?_⟩
  intro r hr
  obtain ⟨subgroup, hsubgroup, hindex, hepoch, hsnapshot⟩ := h.place r hr
  obtain ⟨extra, hextra⟩ := hgrows.subgroup r.cell subgroup hsubgroup
  refine ⟨subgroup ++ extra, hextra, ?_, hepoch, ?_⟩
  · rw [List.length_append]
    omega
  · intro hpos
    rw [List.head?_append_of_ne_nil _ (List.ne_nil_of_length_pos (by omega))]
    exact hsnapshot hpos

theorem Placed.view_grow {log log' : List (List Bytes)} (h : Placed reader log)
    (hgrows : Grows log log') : reader.view log' = reader.view log := by
  unfold view
  split
  · rfl
  · next r hr =>
      obtain ⟨subgroup, hsubgroup, hindex, -⟩ := h.place r hr
      obtain ⟨extra, hextra⟩ := hgrows.subgroup r.cell subgroup hsubgroup
      simp only [List.getD_eq_getElem?_getD, hsubgroup, hextra, Option.getD_some,
        List.take_append_of_le_length hindex]

/-- Before it goes to another subgroup, a reader has passed on what it
compares with: it leaves no subgroup that has a delta. -/
theorem Placed.view_eq_current {log : List (List Bytes)} {current : Finset String}
    (h : Placed reader log) (hlog : Replays log current)
    (hleaves : ∀ r, reader.subgroup = some r → r.cell + 1 ≠ log.length) :
    reader.view log = some reader.current := by
  unfold view
  split
  · rfl
  · next r hr =>
      obtain ⟨subgroup, hsubgroup, hindex, -, hsnapshot⟩ := h.place r hr
      split
      · rfl
      · next hpos =>
          have hlength := hlog.length_eq_one hsubgroup (hleaves r hr)
          obtain ⟨snapshot, rfl⟩ := List.length_eq_one_iff.mp hlength
          have hone : r.index = 1 := by
            rw [hlength] at hindex
            omega
          rw [List.getD_eq_getElem?_getD, hsubgroup, Option.getD_some, hone]
          exact hsnapshot (by omega)

end ListingReader

end MoqTransport.Dir
