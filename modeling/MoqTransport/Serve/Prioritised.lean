import Mathlib.Data.Prod.Lex
import Mathlib.Order.Bounds.Basic
import MoqTransport.Data.Object
import MoqTransport.Lib.Fanout
import MoqTransport.Lib.MaxHeap
import MoqTransport.Watch.State

/-!
A track in objects mode. It keeps the objects of the newest group only. A
reader puts those that are new to it into a heap, and takes the most important
one from there. Which ones are new it finds from the number of objects pushed
since, although some of them may be cleared by now (`Follows`).
-/

namespace MoqTransport.Serve

open Machine

/-- Parameters that can be specified by the user. -/
structure Object where
  groupId : Nat
  objectId : Nat
  priority : UInt8
deriving DecidableEq

structure ObjectInfo where
  groupId : Nat
  objectId : Nat
  priority : UInt8
  status : Data.ObjectStatus
deriving DecidableEq

/-- The writer and the readers of an object name it by its place among all
objects of the track. What is written to it is behind these handles. -/
structure ObjectReader where
  place : Nat
  info : ObjectInfo
deriving DecidableEq

namespace ObjectReader

/-- Priority order ascending, otherwise group descending, otherwise object
ascending: the greatest comes first. -/
def cmp (self other : ObjectReader) : Ordering :=
  ((compare other.info.priority self.info.priority).then
    (compare self.info.groupId other.info.groupId)).then
    (compare other.info.objectId self.info.objectId)

/-- Minimal in priority, then maximal in group, then minimal in object. -/
def Before (first second : ObjectReader) : Prop :=
  first.info.priority < second.info.priority ∨
    first.info.priority = second.info.priority ∧
      (second.info.groupId < first.info.groupId ∨
        second.info.groupId = first.info.groupId ∧ first.info.objectId ≤ second.info.objectId)

instance : Std.TransCmp cmp :=
  have : Std.TransCmp fun self other : ObjectReader =>
      compare other.info.priority self.info.priority :=
    @Std.TransCmp.opposite _ (compareOn fun o : ObjectReader => o.info.priority) inferInstance
  have : Std.TransCmp fun self other : ObjectReader =>
      compare self.info.groupId other.info.groupId :=
    inferInstanceAs (Std.TransCmp (compareOn fun o : ObjectReader => o.info.groupId))
  have : Std.TransCmp fun self other : ObjectReader =>
      compare other.info.objectId self.info.objectId :=
    @Std.TransCmp.opposite _ (compareOn fun o : ObjectReader => o.info.objectId) inferInstance
  inferInstanceAs (Std.TransCmp (compareLex (compareLex _ _) _))

theorem before_iff {first second : ObjectReader} :
    first.Before second ↔ (second.cmp first).isLE := by
  unfold Before cmp
  rw [Ordering.isLE_then_iff_or, Ordering.then_eq_lt, Ordering.then_eq_eq, Std.compare_eq_lt,
    Std.LawfulEqOrd.compare_eq_iff_eq, Std.compare_eq_lt, Std.LawfulEqOrd.compare_eq_iff_eq,
    Std.isLE_compare]
  tauto

end ObjectReader

/-- State shared between the writer and the readers. -/
structure ObjectsState where
  /-- The latest group. -/
  objects : List ObjectReader
  /-- Incremented each time an object is pushed. -/
  epoch : Nat
  closed : Option ServeError
deriving DecidableEq

/-- A track in objects mode; `created` lists every object, also those that did
not get into the state. -/
structure Objects where
  created : List ObjectInfo
  state : Watch.State ObjectsState
deriving DecidableEq

namespace Objects

def produce : Objects := ⟨[], .new ⟨[], 0, none⟩⟩

def push (track : Objects) (reader : ObjectReader) (objects : List ObjectReader) : Objects where
  created := track.created ++ [reader.info]
  state := track.state.update fun s =>
    { s with objects := objects ++ [reader], epoch := s.epoch + 1 }

def drop (track : Objects) : Objects := { track with state := track.state.drop }

end Objects

namespace ObjectsWriter

/-- `write` is a `create`, and one chunk for the object. -/
def create (track : Objects) (object : Object) : Except ServeError (ObjectReader × Objects) :=
  let info : ObjectInfo := ⟨object.groupId, object.objectId, object.priority, .object⟩
  let reader : ObjectReader := ⟨track.created.length, info⟩
  if track.state.dropped then
    .error .cancel
  else
    match track.state.value.objects.head? with
    | some first =>
        match compare info.groupId first.info.groupId with
        -- the object of an old group has a writer, but its only reader is dropped
        | .lt => .ok (reader, { track with created := track.created ++ [info] })
        | .gt => .ok (reader, track.push reader [])
        | .eq => .ok (reader, track.push reader track.state.value.objects)
    | none => .ok (reader, track.push reader track.state.value.objects)

def close (track : Objects) (err : ServeError) : Except ServeError Objects := do
  let closed ← Watch.closeWith .cancel track.state.value.closed track.state.dropped err
  pure { track with state := track.state.update fun s => { s with closed := closed } }

end ObjectsWriter

/-- A reader of the track, with the objects ready to be returned. -/
structure ObjectsReader (H : Type) where
  epoch : Nat
  pending : H
deriving DecidableEq

variable {H : Type}

namespace ObjectsReader

def new (heap : MaxHeap H ObjectReader ObjectReader.cmp) : ObjectsReader H := ⟨0, heap.empty⟩

/-- Where the new objects start. -/
def index (state : ObjectsState) (r : ObjectsReader H) : Nat :=
  state.objects.length - (state.epoch - r.epoch)

/-- Add all of the new objects from the current group to the heap. -/
def fetch (heap : MaxHeap H ObjectReader ObjectReader.cmp) (state : ObjectsState)
    (r : ObjectsReader H) : ObjectsReader H :=
  if r.epoch < state.epoch then
    ⟨state.epoch, (state.objects.drop (r.index state)).foldl heap.push r.pending⟩
  else r

def next (heap : MaxHeap H ObjectReader ObjectReader.cmp) (state : Watch.State ObjectsState)
    (r : ObjectsReader H) :
    Watch.Poll (Except ServeError (Option ObjectReader)) × ObjectsReader H :=
  let r := r.fetch heap state.value
  match heap.pop r.pending with
  | some (object, pending) => (.ready (.ok (some object)), { r with pending := pending })
  | none => (Watch.exhausted state.value.closed state.dropped, r)

/-- The largest group and object. -/
def latest (state : ObjectsState) : Option (Nat ×ₗ Nat) :=
  (state.objects.map fun o => toLex (o.info.groupId, o.info.objectId)).max?

end ObjectsReader

/-- A reader with the objects it has received, behind those that the readers it
is a clone of had received by then. -/
structure ObjectsCursor (H : Type) where
  reader : ObjectsReader H
  inherited : List ObjectReader
  received : List ObjectReader
deriving DecidableEq

namespace ObjectsCursor

def new (heap : MaxHeap H ObjectReader ObjectReader.cmp) : ObjectsCursor H := ⟨.new heap, [], []⟩

def clone (r : ObjectsCursor H) : ObjectsCursor H :=
  { r with inherited := r.inherited ++ r.received, received := [] }

/-- `ObjectsReader::next` with its effect on the reader. -/
def poll (heap : MaxHeap H ObjectReader ObjectReader.cmp) (track : Objects)
    (r : ObjectsCursor H) :
    Watch.Poll (Except ServeError (Option ObjectReader)) × ObjectsCursor H :=
  match r.reader.next heap track.state with
  | (.ready (.ok (some object)), reader) =>
      (.ready (.ok (some object)),
        { r with reader := reader, received := r.received ++ [object] })
  | (result, reader) => (result, { r with reader := reader })

/-- What it has received or is about to. -/
def known (heap : MaxHeap H ObjectReader ObjectReader.cmp) (r : ObjectsCursor H) :
    Multiset ObjectReader :=
  (r.inherited ++ r.received : List ObjectReader) + heap.elems r.reader.pending

end ObjectsCursor

inductive ObjectsAct where
  | create (object : Object)
  | close (err : ServeError)
  | drop
deriving DecidableEq

/-- The writer of a track in objects mode, until it is closed and dropped. -/
abbrev ObjectsHandle := Fanout.Writer ServeError Unit

namespace Objects

def act (a : ObjectsAct) (handle : ObjectsHandle) (track : Objects) :
    Option (ObjectsHandle × Objects) :=
  match a, handle with
  | .create object, .active w =>
      some (.active w, ((ObjectsWriter.create track object).toOption.map Prod.snd).getD track)
  | .close err, .active _ => some (Fanout.Writer.close err track (ObjectsWriter.close track err))
  | .drop, .active _ => some (.gone none, track.drop)
  | .drop, .leaving closed => some (.gone closed, track.drop)
  | _, _ => none

def ops (heap : MaxHeap H ObjectReader ObjectReader.cmp) :
    Fanout.Ops Objects ObjectsHandle (ObjectsCursor H) ObjectsAct where
  act := act
  look track r := (r.poll heap track).2
  fork := ObjectsCursor.clone
  drop := drop

/-- A track with its first readers: `produce` returns one, to be cloned. -/
def start (heap : MaxHeap H ObjectReader ObjectReader.cmp) (readers : Nat) :
    Fanout.State Objects ObjectsHandle (ObjectsCursor H) :=
  ⟨produce, .active (), List.replicate readers (some (.new heap))⟩

theorem reader_start {heap : MaxHeap H ObjectReader ObjectReader.cmp} {readers i : Nat}
    {r : ObjectsCursor H} (hr : (start heap readers).reader i = some r) : r = .new heap := by
  have hmem := List.mem_of_getElem? (Fanout.reader_eq_some_iff.mp hr)
  exact Option.some.inj (List.eq_of_mem_replicate hmem)

/-- An object of the track. -/
def Created (track : Objects) (o : ObjectReader) : Prop :=
  track.created[o.place]? = some o.info

/-- An object of its newest group. -/
def Newest (track : Objects) (o : ObjectReader) : Prop :=
  track.Created o ∧ ∀ info ∈ track.created, info.groupId ≤ o.info.groupId

/-- The state holds the newest group. -/
structure Sound (track : Objects) : Prop where
  newest : ∀ o, o ∈ track.state.value.objects ↔ track.Newest o
  nodup : track.state.value.objects.Nodup
  empty : track.state.value.objects = [] → track.created = []

theorem sound_produce : produce.Sound where
  newest := by
    intro o
    constructor
    · intro ho
      cases ho
    · intro ho
      cases ho.1
  nodup := List.nodup_nil
  empty := fun _ => rfl

/-- One more object, whether it gets into the state or not. -/
theorem created_concat {track track' : Objects} {reader o : ObjectReader}
    (hcreated : track'.created = track.created ++ [reader.info])
    (hplace : reader.place = track.created.length) :
    track'.Created o ↔ track.Created o ∨ o = reader := by
  unfold Created
  rw [hcreated, getElem?_concat_iff]
  constructor
  · rintro (hold | ⟨hlast, hinfo⟩)
    · exact .inl hold
    · right
      obtain ⟨place, info⟩ := o
      obtain rfl : place = reader.place := hlast.trans hplace.symm
      obtain rfl : reader.info = info := hinfo
      rfl
  · rintro (hold | rfl)
    · exact .inl hold
    · exact .inr ⟨hplace, rfl⟩

theorem not_created {track : Objects} {reader : ObjectReader}
    (hplace : reader.place = track.created.length) : ¬ track.Created reader := by
  simp [Created, hplace]

/-- What `create` comes to. -/
inductive Creates (track : Objects) : Objects → Prop where
  | older (reader : ObjectReader) (hplace : reader.place = track.created.length)
      {first : ObjectReader} (hfirst : track.Newest first)
      (holder : reader.info.groupId < first.info.groupId) :
      Creates track { track with created := track.created ++ [reader.info] }
  | same (reader : ObjectReader) (hplace : reader.place = track.created.length)
      (hsame : ∀ o, track.Newest o ↔ track.Created o ∧ o.info.groupId = reader.info.groupId)
      (hnewest : ∀ info ∈ track.created, info.groupId ≤ reader.info.groupId) :
      Creates track (track.push reader track.state.value.objects)
  | newer (reader : ObjectReader) (hplace : reader.place = track.created.length)
      (hnewer : ∀ info ∈ track.created, info.groupId < reader.info.groupId) :
      Creates track (track.push reader [])

theorem creates {track track' : Objects} {object : Object} {reader : ObjectReader}
    (hsound : track.Sound) (h : ObjectsWriter.create track object = .ok (reader, track')) :
    Creates track track' := by
  unfold ObjectsWriter.create at h
  dsimp only at h
  split at h
  · cases h
  · split at h
    · next first hhead =>
        have hfirst := (hsound.newest first).mp (List.mem_of_mem_head? hhead)
        split at h
        · next hless =>
            cases h
            refine .older ⟨_, ⟨_, _, _, _⟩⟩ rfl hfirst ?_
            exact Nat.compare_eq_lt.mp hless
        · next hgreater =>
            cases h
            refine .newer _ rfl ?_
            intro info hinfo
            exact (hfirst.2 info hinfo).trans_lt (Nat.compare_eq_gt.mp hgreater)
        · next hequal =>
            cases h
            have hequal := Nat.compare_eq_eq.mp hequal
            refine .same _ rfl ?_ ?_
            · intro o
              constructor
              · intro ho
                have hle := hfirst.2 o.info (List.mem_of_getElem? ho.1)
                have hge := ho.2 first.info (List.mem_of_getElem? hfirst.1)
                exact ⟨ho.1, (hle.antisymm hge).trans hequal.symm⟩
              · rintro ⟨ho, hgroup⟩
                refine ⟨ho, ?_⟩
                rw [hgroup, hequal]
                exact hfirst.2
            · rw [hequal]
              exact hfirst.2
    · next hhead =>
        cases h
        have hnil := List.head?_eq_none_iff.mp hhead
        rw [hnil]
        refine .newer _ rfl ?_
        rw [hsound.empty hnil]
        intro info hinfo
        cases hinfo

/-- The objects that stay, behind which the new one is put, are the older ones
of its group. -/
theorem Sound.push {track : Objects} {reader : ObjectReader} {objects : List ObjectReader}
    (hplace : reader.place = track.created.length)
    (hobjects : ∀ o, o ∈ objects ↔ track.Created o ∧ o.info.groupId = reader.info.groupId)
    (hnewest : ∀ info ∈ track.created, info.groupId ≤ reader.info.groupId)
    (hnodup : objects.Nodup) : (track.push reader objects).Sound := by
  have hcreated (o : ObjectReader) :
      (track.push reader objects).Created o ↔ track.Created o ∨ o = reader :=
    created_concat rfl hplace
  constructor
  · intro o
    change o ∈ objects ++ [reader] ↔ _ ∧ ∀ info ∈ track.created ++ [reader.info], _
    rw [hcreated, List.mem_append, hobjects, List.mem_singleton]
    constructor
    · rintro (⟨ho, hgroup⟩ | rfl)
      · rw [hgroup]
        exact ⟨.inl ho, List.forall_mem_append.mpr ⟨hnewest, by simp⟩⟩
      · exact ⟨.inr rfl, List.forall_mem_append.mpr ⟨hnewest, by simp⟩⟩
    · rintro ⟨ho | rfl, hall⟩
      · left
        have hge := hall reader.info (List.mem_append_right _ (List.mem_singleton_self _))
        exact ⟨ho, (hnewest o.info (List.mem_of_getElem? ho)).antisymm hge⟩
      · exact .inr rfl
  · apply List.nodup_append.mpr
    refine ⟨hnodup, List.nodup_singleton _, ?_⟩
    rintro o ho _ hlast rfl
    rw [List.mem_singleton.mp hlast] at ho
    exact not_created hplace ((hobjects reader).mp ho).1
  · intro hnil
    exact absurd hnil (List.append_ne_nil_of_right_ne_nil _ (List.cons_ne_nil _ _))

theorem Creates.sound {track track' : Objects} (h : Creates track track') (hsound : track.Sound) :
    track'.Sound := by
  cases h with
  | @older reader hplace first hfirst holder =>
      have hcreated (o : ObjectReader) :
          { track with created := track.created ++ [reader.info] }.Created o ↔
            track.Created o ∨ o = reader := created_concat rfl hplace
      constructor
      · intro o
        refine (hsound.newest o).trans ?_
        unfold Newest
        rw [hcreated, List.forall_mem_append, List.forall_mem_singleton]
        constructor
        · rintro ⟨ho, hall⟩
          have hle := hall first.info (List.mem_of_getElem? hfirst.1)
          exact ⟨.inl ho, hall, (holder.trans_le hle).le⟩
        · rintro ⟨ho | rfl, hall, -⟩
          · exact ⟨ho, hall⟩
          · have hle := hall first.info (List.mem_of_getElem? hfirst.1)
            omega
      · exact hsound.nodup
      · intro hnil
        have hmem := (hsound.newest first).mpr hfirst
        rw [hnil] at hmem
        cases hmem
  | same reader hplace hsame hnewest =>
      apply Sound.push hplace _ hnewest hsound.nodup
      intro o
      rw [hsound.newest, hsame]
  | newer reader hplace hnewer =>
      apply Sound.push hplace _ (fun info hinfo => (hnewer info hinfo).le) List.nodup_nil
      intro o
      constructor
      · intro ho
        cases ho
      · rintro ⟨ho, hgroup⟩
        have hlt := hnewer o.info (List.mem_of_getElem? ho)
        omega

theorem Sound.latest {track : Objects} (hsound : track.Sound) {key : Nat ×ₗ Nat} :
    ObjectsReader.latest track.state.value = some key ↔
      IsGreatest {k | ∃ o, track.Newest o ∧ toLex (o.info.groupId, o.info.objectId) = k} key := by
  rw [ObjectsReader.latest, List.max?_eq_some_iff]
  simp only [List.mem_map, hsound.newest]
  rfl

end Objects

namespace ObjectsReader

variable {heap : MaxHeap H ObjectReader ObjectReader.cmp} {state : ObjectsState}
  {r : ObjectsReader H}

theorem epoch_fetch (hle : r.epoch ≤ state.epoch) : (r.fetch heap state).epoch = state.epoch := by
  unfold fetch
  split
  · rfl
  · next hnot => exact hle.antisymm (Nat.not_lt.mp hnot)

theorem elems_fetch (hle : r.epoch ≤ state.epoch) :
    heap.elems (r.fetch heap state).pending =
      heap.elems r.pending + state.objects.drop (r.index state) := by
  unfold fetch
  split
  · exact heap.elems_pushAll _ _
  · next hnot =>
      have hdrop : state.objects.drop (r.index state) = [] := by
        apply List.drop_of_length_le
        unfold index
        omega
      rw [hdrop, Multiset.coe_nil, Multiset.add_zero]

end ObjectsReader

namespace ObjectsCursor

variable {heap : MaxHeap H ObjectReader ObjectReader.cmp} {track track' : Objects}
  {r : ObjectsCursor H}

/-- A call returns the greatest of what is pending, or that nothing is. -/
theorem poll_cases (heap : MaxHeap H ObjectReader ObjectReader.cmp) (track : Objects)
    (r : ObjectsCursor H) :
    (∃ object pending,
      heap.pop (r.reader.fetch heap track.state.value).pending = some (object, pending) ∧
      r.poll heap track = (.ready (.ok (some object)),
        { r with
          reader := ⟨(r.reader.fetch heap track.state.value).epoch, pending⟩
          received := r.received ++ [object] })) ∨
    r.poll heap track = (Watch.exhausted track.state.value.closed track.state.dropped,
      { r with reader := r.reader.fetch heap track.state.value }) := by
  unfold poll ObjectsReader.next
  dsimp only
  cases hpop : heap.pop (r.reader.fetch heap track.state.value).pending with
  | some popped =>
      obtain ⟨object, pending⟩ := popped
      exact .inl ⟨object, pending, rfl, rfl⟩
  | none =>
      right
      dsimp only
      split
      · next heq =>
          obtain ⟨hresult, -⟩ := Prod.mk.inj heq
          exact absurd hresult Watch.exhausted_ne_some
      · next heq =>
          obtain ⟨rfl, rfl⟩ := Prod.mk.inj heq
          rfl

/-- A reader knows the objects before its index, and none behind. -/
structure Follows (heap : MaxHeap H ObjectReader ObjectReader.cmp) (track : Objects)
    (r : ObjectsCursor H) : Prop where
  epoch : r.reader.epoch ≤ track.state.value.epoch
  created : ∀ o ∈ r.known heap, track.Created o
  nodup : (r.known heap).Nodup
  old : ∀ o ∈ track.state.value.objects.take (r.reader.index track.state.value), o ∈ r.known heap
  fresh : ∀ o ∈ track.state.value.objects.drop (r.reader.index track.state.value),
    o ∉ r.known heap

theorem known_new (heap : MaxHeap H ObjectReader ObjectReader.cmp) : (new heap).known heap = 0 := by
  simp [known, new, ObjectsReader.new, heap.elems_empty]

theorem follows_new (heap : MaxHeap H ObjectReader ObjectReader.cmp) :
    Follows heap .produce (new heap) := by
  constructor
  · exact Nat.le_refl 0
  · intro o ho
    rw [known_new] at ho
    exact absurd ho (Multiset.notMem_zero o)
  · rw [known_new]
    exact Multiset.nodup_zero
  · intro o ho
    cases ho
  · intro o ho
    cases ho

theorem known_clone (heap : MaxHeap H ObjectReader ObjectReader.cmp) (r : ObjectsCursor H) :
    r.clone.known heap = r.known heap := by
  simp [known, clone]

theorem Follows.clone (h : Follows heap track r) : Follows heap track r.clone := by
  constructor
  · exact h.epoch
  · rw [known_clone]
    exact h.created
  · rw [known_clone]
    exact h.nodup
  · rw [known_clone]
    exact h.old
  · rw [known_clone]
    exact h.fresh

theorem Follows.known_poll (h : Follows heap track r) :
    (r.poll heap track).2.known heap =
      r.known heap + track.state.value.objects.drop (r.reader.index track.state.value) := by
  have helems : heap.elems (r.reader.fetch heap track.state.value).pending = _ :=
    ObjectsReader.elems_fetch h.epoch
  rcases r.poll_cases heap track with ⟨object, pending, hpop, hpoll⟩ | hpoll
  · rw [heap.elems_pop hpop] at helems
    rw [hpoll]
    unfold known
    rw [Multiset.add_assoc, ← helems, ← List.append_assoc, ← Multiset.coe_add _ [object],
      Multiset.coe_singleton, Multiset.add_assoc, Multiset.singleton_add]
  · rw [hpoll]
    unfold known
    rw [helems, Multiset.add_assoc]

theorem Follows.epoch_poll (h : Follows heap track r) :
    (r.poll heap track).2.reader.epoch = track.state.value.epoch := by
  have hepoch : (r.reader.fetch heap track.state.value).epoch = track.state.value.epoch :=
    ObjectsReader.epoch_fetch h.epoch
  rcases r.poll_cases heap track with ⟨object, pending, -, hpoll⟩ | hpoll
  · rw [hpoll]
    exact hepoch
  · rw [hpoll]
    exact hepoch

/-- After a call the reader knows all objects of the group. -/
theorem Follows.mem_poll (h : Follows heap track r) {o : ObjectReader}
    (ho : o ∈ track.state.value.objects) : o ∈ (r.poll heap track).2.known heap := by
  rw [h.known_poll, Multiset.mem_add, Multiset.mem_coe]
  rw [← List.take_append_drop (r.reader.index track.state.value) track.state.value.objects,
    List.mem_append] at ho
  rcases ho with hold | hnew
  · exact .inl (h.old o hold)
  · exact .inr hnew

theorem Follows.poll (h : Follows heap track r) (hsound : track.Sound) :
    Follows heap track (r.poll heap track).2 := by
  have hindex : (r.poll heap track).2.reader.index track.state.value =
      track.state.value.objects.length := by
    rw [ObjectsReader.index, h.epoch_poll, Nat.sub_self, Nat.sub_zero]
  constructor
  · exact h.epoch_poll.le
  · rw [h.known_poll]
    intro o ho
    rcases Multiset.mem_add.mp ho with hold | hnew
    · exact h.created o hold
    · exact ((hsound.newest o).mp (List.mem_of_mem_drop hnew)).1
  · rw [h.known_poll, h.nodup.add_iff
      (Multiset.coe_nodup.mpr hsound.nodup.drop), Multiset.disjoint_right]
    intro o ho
    exact h.fresh o ho
  · intro o ho
    exact h.mem_poll (List.mem_of_mem_take ho)
  · rw [hindex, List.drop_length]
    intro o ho
    cases ho

/-- With one more object, which goes behind all others or is the first. -/
theorem Follows.push (h : Follows heap track r) {reader : ObjectReader}
    (hplace : reader.place = track.created.length) {objects : List ObjectReader}
    (hobjects : objects = track.state.value.objects ∨ objects = []) :
    Follows heap (track.push reader objects) r := by
  have hle := h.epoch
  have hindex : r.reader.index (track.push reader objects).state.value =
      objects.length - (track.state.value.epoch - r.reader.epoch) := by
    change (objects ++ [reader]).length - (track.state.value.epoch + 1 - r.reader.epoch) = _
    rw [List.length_append, List.length_singleton]
    omega
  have hsub : objects.length - (track.state.value.epoch - r.reader.epoch) ≤ objects.length :=
    Nat.sub_le _ _
  have hnew : reader ∉ r.known heap := fun hmem => Objects.not_created hplace (h.created _ hmem)
  constructor
  · exact Nat.le_succ_of_le hle
  · intro o ho
    exact (Objects.created_concat rfl hplace).mpr (.inl (h.created o ho))
  · exact h.nodup
  · rw [hindex]
    change ∀ o ∈ (objects ++ [reader]).take _, _
    rw [List.take_append_of_le_length hsub]
    rcases hobjects with rfl | rfl
    · exact h.old
    · intro o ho
      simp at ho
  · rw [hindex]
    change ∀ o ∈ (objects ++ [reader]).drop _, _
    rw [List.drop_append_of_le_length hsub, List.forall_mem_append, List.forall_mem_singleton]
    refine ⟨?_, hnew⟩
    rcases hobjects with rfl | rfl
    · exact h.fresh
    · intro o ho
      simp at ho

theorem Follows.create (h : Follows heap track r) (hcreates : Objects.Creates track track') :
    Follows heap track' r := by
  cases hcreates with
  | older reader hplace hfirst holder =>
      constructor
      · exact h.epoch
      · intro o ho
        exact (Objects.created_concat rfl hplace).mpr (.inl (h.created o ho))
      · exact h.nodup
      · exact h.old
      · exact h.fresh
  | same reader hplace hsame hnewest => exact h.push hplace (.inl rfl)
  | newer reader hplace hnewer => exact h.push hplace (.inr rfl)

end ObjectsCursor

namespace Objects

/-- What a step of the writer comes to. -/
inductive Acts (track : Objects) : Objects → Prop where
  | create {track' : Objects} (hcreates : Creates track track') : Acts track track'
  | state {track' : Objects} (hcreated : track'.created = track.created)
      (hobjects : track'.state.value.objects = track.state.value.objects)
      (hepoch : track'.state.value.epoch = track.state.value.epoch) : Acts track track'

theorem acts_of_act {a : ObjectsAct} {handle handle' : ObjectsHandle} {track track' : Objects}
    (hsound : track.Sound) (h : act a handle track = some (handle', track')) :
    Acts track track' := by
  unfold act at h
  split at h
  · next object w =>
      cases hcreate : ObjectsWriter.create track object with
      | ok made =>
          rw [hcreate] at h
          cases h
          exact .create (creates hsound hcreate)
      | error err =>
          rw [hcreate] at h
          cases h
          exact .state rfl rfl rfl
  · next err w =>
      cases hclose : ObjectsWriter.close track err with
      | ok closed =>
          rw [hclose] at h
          cases h
          obtain ⟨-, -, rfl⟩ := Watch.eq_of_closeWith hclose
          exact .state rfl rfl rfl
      | error _ =>
          rw [hclose] at h
          cases h
          exact .state rfl rfl rfl
  · cases h
    exact .state rfl rfl rfl
  · cases h
    exact .state rfl rfl rfl
  · cases h

theorem Acts.sound {track track' : Objects} (h : Acts track track') (hsound : track.Sound) :
    track'.Sound := by
  cases h with
  | create hcreates => exact hcreates.sound hsound
  | state hcreated hobjects hepoch =>
      constructor
      · intro o
        unfold Newest Created
        rw [hcreated, hobjects]
        exact hsound.newest o
      · rw [hobjects]
        exact hsound.nodup
      · rw [hcreated, hobjects]
        exact hsound.empty

theorem Acts.follows {heap : MaxHeap H ObjectReader ObjectReader.cmp} {track track' : Objects}
    {r : ObjectsCursor H} (h : Acts track track') (hr : r.Follows heap track) :
    r.Follows heap track' := by
  cases h with
  | create hcreates => exact hr.create hcreates
  | state hcreated hobjects hepoch =>
      have hindex : r.reader.index track'.state.value = r.reader.index track.state.value := by
        rw [ObjectsReader.index, ObjectsReader.index, hobjects, hepoch]
      constructor
      · rw [hepoch]
        exact hr.epoch
      · unfold Created
        rw [hcreated]
        exact hr.created
      · exact hr.nodup
      · rw [hindex, hobjects]
        exact hr.old
      · rw [hindex, hobjects]
        exact hr.fresh

theorem keeps (heap : MaxHeap H ObjectReader ObjectReader.cmp) :
    Fanout.Keeps (ops heap) (fun track _ => track.Sound)
      (fun track r => r.Follows heap track) where
  act := fun hs h => (acts_of_act hs h).sound hs
  rel := fun hs h hr => (acts_of_act hs h).follows hr
  look := fun hs hr => hr.poll hs
  fork := fun _ hr => hr.clone

end Objects

theorem ObjectsCursor.inherited_poll (heap : MaxHeap H ObjectReader ObjectReader.cmp)
    (track : Objects) (r : ObjectsCursor H) : (r.poll heap track).2.inherited = r.inherited := by
  rcases r.poll_cases heap track with ⟨object, pending, -, hpoll⟩ | hpoll
  · rw [hpoll]
  · rw [hpoll]

/-- Reading by priority: no object twice; after a call, all of what is the
newest group by then is received or pending; and what a call returns comes
before everything else that is pending. Only a later clone counts as received
what it has inherited. -/
theorem ObjectsReader.prioritised (heap : MaxHeap H ObjectReader ObjectReader.cmp) (readers : Nat)
    {st : Fanout.State Objects ObjectsHandle (ObjectsCursor H)}
    (hs : Reachable (Fanout.step (Objects.ops heap)) (fun _ _ => True)
      (Objects.start heap readers) st)
    {i : Nat} {r r' : ObjectsCursor H} (hr : st.reader i = some r)
    {result : Watch.Poll (Except ServeError (Option ObjectReader))}
    (hpoll : r.poll heap st.shared = (result, r')) :
    (i < readers → r'.inherited = []) ∧
      (r'.inherited ++ r'.received).Nodup ∧
      (∀ o, st.shared.Newest o →
        o ∈ r'.inherited ∨ o ∈ r'.received ∨ o ∈ heap.elems r'.reader.pending) ∧
      ∀ object, result = .ready (.ok (some object)) →
        ∀ o ∈ heap.elems r'.reader.pending, object.Before o := by
  obtain ⟨hsound, hfollows⟩ := (Objects.keeps heap).reachable (by
    intro i r hr
    obtain rfl := Objects.reader_start hr
    exact ⟨Objects.sound_produce, ObjectsCursor.follows_new heap⟩) hs hr
  obtain rfl : r' = (r.poll heap st.shared).2 := by rw [hpoll]
  refine ⟨?_, ?_, ?_, ?_⟩
  · intro hi
    rw [ObjectsCursor.inherited_poll]
    apply Fanout.reader_of_reachable (P := fun r : ObjectsCursor H => r.inherited = []) _ _ hs
      (by simpa [Objects.start] using hi) hr
    · intro track r hnil
      exact (ObjectsCursor.inherited_poll heap track r).trans hnil
    · intro i r hr
      obtain rfl := Objects.reader_start hr
      rfl
  · have hnodup := (hfollows.poll hsound).nodup
    exact Multiset.coe_nodup.mp (Multiset.nodup_of_le (Multiset.le_add_right _ _) hnodup)
  · intro o ho
    have hmem := hfollows.mem_poll ((hsound.newest o).mpr ho)
    rw [ObjectsCursor.known, Multiset.mem_add, Multiset.mem_coe, List.mem_append] at hmem
    exact or_assoc.mp hmem
  · rintro object rfl o ho
    rcases r.poll_cases heap st.shared with ⟨greatest, pending, hpop, hcase⟩ | hcase
    · rw [hcase] at hpoll ho
      cases hpoll
      apply ObjectReader.before_iff.mpr
      apply heap.pop_greatest hpop
      rw [heap.elems_pop hpop]
      exact Multiset.mem_cons_of_mem ho
    · rw [hcase] at hpoll
      exact absurd (Prod.mk.inj hpoll).1 Watch.exhausted_ne_some

/-- A reader that is behind by an object of a group that is gone and one of the
next: of the same priority, the one of the newer group comes first. -/
theorem ObjectsReader.prioritised_newer_group :
    ∃ st r r', Reachable (Fanout.step (Objects.ops (.searched ObjectReader.cmp)))
        (fun _ _ => True) (Objects.start (.searched ObjectReader.cmp) 2) st ∧
      st.reader 0 = some r ∧ r.received = [⟨1, ⟨1, 1, 1, .object⟩⟩] ∧
      r.poll (.searched ObjectReader.cmp) st.shared =
        (.ready (.ok (some ⟨3, ⟨2, 0, 5, .object⟩⟩)), r') ∧
      (r'.inherited = [] ∧ r'.received.Nodup) ∧
      (⟨0, ⟨1, 0, 5, .object⟩⟩ : ObjectReader) ∈ r'.reader.pending ∧
      ∀ o ∈ r'.reader.pending, (⟨3, ⟨2, 0, 5, .object⟩⟩ : ObjectReader).Before o := by
  have hrun : ∃ st r r', run (Fanout.step (Objects.ops (.searched ObjectReader.cmp)))
      (fun _ _ => true) (Objects.start (.searched ObjectReader.cmp) 2)
      [.write (.create ⟨1, 0, 5⟩), .write (.create ⟨1, 1, 1⟩), .read 0,
        .write (.create ⟨0, 7, 0⟩), .write (.create ⟨2, 0, 5⟩)] = some st ∧
      st.reader 0 = some r ∧ r.received = [⟨1, ⟨1, 1, 1, .object⟩⟩] ∧
      r.poll (.searched ObjectReader.cmp) st.shared =
        (.ready (.ok (some ⟨3, ⟨2, 0, 5, .object⟩⟩)), r') ∧
      r'.reader.pending = [⟨0, ⟨1, 0, 5, .object⟩⟩] := ⟨_, _, _, rfl, rfl, rfl, rfl, rfl⟩
  obtain ⟨st, r, r', hrun, hr, hreceived, hpoll, hpending⟩ := hrun
  have hs : Reachable (Fanout.step (Objects.ops (.searched ObjectReader.cmp))) (fun _ _ => True)
      (Objects.start (.searched ObjectReader.cmp) 2) st :=
    reachable_of_run _ (fun _ _ _ => trivial) hrun
  obtain ⟨hinherited, hnodup, -, hbefore⟩ :=
    prioritised (.searched ObjectReader.cmp) 2 hs hr hpoll
  have hnil := hinherited (by decide)
  rw [hnil] at hnodup
  refine ⟨st, r, r', hs, hr, hreceived, hpoll, ⟨hnil, hnodup⟩, ?_, hbefore _ rfl⟩
  rw [hpending]
  exact List.mem_singleton_self _

end MoqTransport.Serve
