import MoqTransport.Coding.Fields
import MoqTransport.Lib.Machine
import MoqTransport.Watch.State

/-!
The tracks a relay fetches from another. All readers of a track share a count;
the table of tracks refers to them weakly, and the last reader's destructor
removes the track from the table. Between the count reaching zero and the
destructor taking the lock the key may be subscribed to again, and the
destructor then removes the entry of the new track. Each key has one track at
a time exactly if no destructor runs that late (`deduplicated_iff`).
-/

namespace MoqTransport.Relay

open Coding Machine

/-- The readers of one track. -/
structure RemoteTrack where
  key : Tuple × String
  readers : Nat
  /-- `RemoteTrackDrop::drop` has been called and does not have the lock yet. -/
  dropping : Bool
deriving DecidableEq

/-- The weak entries and the queued writers, by the place of their track. -/
structure RemoteState where
  tracks : Finmap (fun _ : Tuple × String => Nat)
  requested : List Nat

/-- A `RemoteConsumer`: the shared state, and all tracks made so far. -/
structure Remote where
  state : Watch.State RemoteState
  made : List RemoteTrack

inductive RemoteAct where
  | subscribe (key : Tuple × String)
  | clone (track : Nat)
  | drop (track : Nat)
  /-- The destructor of the last reader takes the lock. -/
  | removed (track : Nat)
  /-- The producer takes a request. -/
  | next
  /-- The producer goes away. -/
  | dropProducer

namespace RemoteTrack

def clone (t : RemoteTrack) : RemoteTrack := { t with readers := t.readers + 1 }

def drop (t : RemoteTrack) : RemoteTrack :=
  { t with readers := t.readers - 1, dropping := t.readers = 1 }

end RemoteTrack

namespace Remote

def init : Remote := ⟨.new ⟨∅, []⟩, []⟩

/-- `RemoteTrackWeak::upgrade` of the entry of a key. -/
def upgrade (s : Remote) (key : Tuple × String) : Option Nat :=
  (s.state.value.tracks.lookup key).filter fun i => s.made[i]?.any fun t => 0 < t.readers

/-- The new track of a key, with one reader. -/
def insert (s : Remote) (key : Tuple × String) : Remote where
  state := s.state.update fun v =>
    ⟨v.tracks.insert key s.made.length, v.requested ++ [s.made.length]⟩
  made := s.made ++ [⟨key, 1, false⟩]

/-- `RemoteConsumer::subscribe`, with the track whose reader it returns. -/
def subscribe (s : Remote) (key : Tuple × String) : Option Nat × Remote :=
  match s.upgrade key with
  | some i => (some i, { s with made := s.made.modify i RemoteTrack.clone })
  | none =>
      if s.state.dropped then (none, s)
      else (some s.made.length, s.insert key)

/-- `RemoteTrackDrop::drop`. -/
def remove (s : Remote) (key : Tuple × String) : Watch.State RemoteState :=
  if s.state.dropped then s.state
  else s.state.update fun v => { v with tracks := v.tracks.erase key }

def step (s : Remote) : RemoteAct → Option Remote
  | .subscribe key => some (s.subscribe key).2
  | .clone i => s.made[i]?.bind fun t =>
      if 0 < t.readers then some { s with made := s.made.set i t.clone } else none
  | .drop i => s.made[i]?.bind fun t =>
      if 0 < t.readers then some { s with made := s.made.set i t.drop } else none
  | .removed i => s.made[i]?.bind fun t =>
      if t.dropping then
        some ⟨s.remove t.key, s.made.set i { t with dropping := false }⟩
      else none
  | .next =>
      if s.state.dropped then none
      else some { s with state := s.state.update fun v => { v with requested := v.requested.tail } }
  | .dropProducer => some { s with state := s.state.drop }

/-- While a track has a reader, a subscription to its key gets another, and
no writer is queued. -/
def Deduplicated (s : Remote) : Prop :=
  ∀ (i : Nat) (t : RemoteTrack), s.made[i]? = some t → 0 < t.readers →
    (s.subscribe t.key).1 = some i ∧
      (s.subscribe t.key).2.state.value.requested = s.state.value.requested

/-- A destructor removes an entry only while no track of its key has a
reader. -/
def ownEntry (s : Remote) : RemoteAct → Bool
  | .removed i => s.state.dropped || s.made[i]?.all fun old =>
      s.made.all fun t => t.key ≠ old.key || t.readers = 0
  | _ => true

/-- Every track with a reader is the one in the table. -/
def Entered (s : Remote) : Prop :=
  ∀ (i : Nat) (t : RemoteTrack), s.made[i]? = some t → 0 < t.readers →
    s.state.value.tracks.lookup t.key = some i

variable {s s' : Remote} {act : RemoteAct}

theorem upgrade_of_lookup {key : Tuple × String} {i : Nat} {t : RemoteTrack}
    (hlookup : s.state.value.tracks.lookup key = some i) (ht : s.made[i]? = some t)
    (hreaders : 0 < t.readers) : s.upgrade key = some i := by
  simp [upgrade, hlookup, ht, hreaders]

theorem lookup_of_upgrade {key : Tuple × String} {i : Nat} (h : s.upgrade key = some i) :
    s.state.value.tracks.lookup key = some i ∧ ∃ t, s.made[i]? = some t ∧ 0 < t.readers := by
  obtain ⟨hlookup, hany⟩ := Option.filter_eq_some_iff.mp h
  exact ⟨hlookup, by simpa [Option.any_eq_true] using hany⟩

/-- A subscription gets a track that has readers only from the table. -/
theorem deduplicated_iff_entered : Deduplicated s ↔ Entered s := by
  constructor
  · intro hs i t ht hreaders
    have hsub := (hs i t ht hreaders).1
    unfold subscribe at hsub
    split at hsub
    · next j hj =>
        cases hsub
        exact (lookup_of_upgrade hj).1
    · split at hsub
      · cases hsub
      · cases hsub
        simp at ht
  · intro hs i t ht hreaders
    have hupgrade := upgrade_of_lookup (hs i t ht hreaders) ht hreaders
    unfold subscribe
    rw [hupgrade]
    exact ⟨rfl, rfl⟩

/-- A track may change its count as long as it does not get readers anew. -/
theorem entered_set (hs : Entered s) {state : Watch.State RemoteState} {i : Nat}
    {t t' : RemoteTrack} (htracks : state.value.tracks = s.state.value.tracks)
    (ht : s.made[i]? = some t) (hkey : t'.key = t.key)
    (hreaders : 0 < t'.readers → 0 < t.readers) : Entered ⟨state, s.made.set i t'⟩ := by
  intro j u hu hpos
  rw [htracks]
  rcases (getElem?_set_iff ht).mp hu with ⟨rfl, rfl⟩ | ⟨-, hold⟩
  · rw [hkey]
    exact hs i t ht (hreaders hpos)
  · exact hs j u hold hpos

theorem entered_subscribe (hs : Entered s) (key : Tuple × String) :
    Entered (s.subscribe key).2 := by
  unfold subscribe
  split
  · next i hi =>
      obtain ⟨-, t, ht, hpos⟩ := lookup_of_upgrade hi
      have hset : s.made.modify i RemoteTrack.clone = s.made.set i t.clone := by
        simp [List.modify_eq_set_getElem?, ht]
      simp only [hset]
      exact entered_set hs rfl ht rfl fun _ => hpos
  · next hupgrade =>
      split
      · exact hs
      · intro i t ht hpos
        rcases getElem?_concat_iff.mp ht with hold | ⟨rfl, rfl⟩
        · have hlookup := hs i t hold hpos
          have hne : t.key ≠ key := by
            rintro rfl
            simp [upgrade_of_lookup hlookup hold hpos] at hupgrade
          simpa [insert, Watch.State.update, Finmap.lookup_insert_of_ne _ hne] using hlookup
        · simp [insert, Watch.State.update]

theorem ownEntry_removed {i : Nat} {t : RemoteTrack} (ht : s.made[i]? = some t)
    (hdropped : s.state.dropped = false) :
    s.ownEntry (.removed i) ↔
      ∀ (j : Nat) (u : RemoteTrack), s.made[j]? = some u → u.key = t.key → u.readers = 0 := by
  have hall : s.ownEntry (.removed i) ↔ ∀ u ∈ s.made, u.key = t.key → u.readers = 0 := by
    simp [ownEntry, hdropped, ht, Decidable.imp_iff_not_or]
  rw [hall]
  constructor
  · intro h j u hu
    exact h u (List.mem_of_getElem? hu)
  · intro h u hu
    obtain ⟨j, hj⟩ := List.mem_iff_getElem?.mp hu
    exact h j u hj

theorem entered_dropping {state : Watch.State RemoteState} {made : List RemoteTrack} {i : Nat}
    {t : RemoteTrack} (ht : made[i]? = some t) (dropping : Bool) :
    Entered ⟨state, made.set i { t with dropping }⟩ ↔ Entered ⟨state, made⟩ := by
  obtain ⟨hlt, hget⟩ := List.getElem?_eq_some_iff.mp ht
  constructor
  · intro hs
    have hback : (made.set i { t with dropping }).set i t = made := by
      rw [List.set_set, ← hget, List.set_getElem_self]
    rw [← hback]
    exact entered_set hs rfl (List.getElem?_set_self hlt) rfl id
  · intro hs
    exact entered_set hs rfl ht rfl id

/-- A destructor takes a track with readers out of the table exactly if there
is one of its key. -/
theorem entered_removed (hs : Entered s) {i : Nat} {t : RemoteTrack} (ht : s.made[i]? = some t) :
    Entered ⟨s.remove t.key, s.made⟩ ↔ s.ownEntry (.removed i) := by
  cases hdropped : s.state.dropped with
  | true =>
      have hremove : s.remove t.key = s.state := by simp [remove, hdropped]
      rw [hremove]
      exact iff_of_true hs (by simp [ownEntry, hdropped])
  | false =>
      have hremove : (s.remove t.key).value.tracks = s.state.value.tracks.erase t.key := by
        simp [remove, hdropped, Watch.State.update]
      rw [ownEntry_removed ht hdropped]
      constructor
      · intro hs' j u hu hkey
        by_contra hpos
        have hlookup := hs' j u hu (Nat.pos_of_ne_zero hpos)
        rw [hremove, hkey, Finmap.lookup_erase] at hlookup
        cases hlookup
      · intro hnone j u hu hpos
        have hne : u.key ≠ t.key := by
          intro hkey
          have hzero := hnone j u hu hkey
          omega
        rw [hremove, Finmap.lookup_erase_ne hne]
        exact hs j u hu hpos

theorem entered_step (hs : Entered s) (h : s.step act = some s') :
    Entered s' ↔ s.ownEntry act := by
  cases act with
  | subscribe key =>
      cases h
      exact iff_of_true (entered_subscribe hs key) rfl
  | clone i =>
      obtain ⟨t, ht, h⟩ := Option.bind_eq_some_iff.mp h
      split at h
      · next hpos =>
          cases h
          exact iff_of_true (entered_set hs rfl ht rfl fun _ => hpos) rfl
      · cases h
  | drop i =>
      obtain ⟨t, ht, h⟩ := Option.bind_eq_some_iff.mp h
      split at h
      · next hpos =>
          cases h
          exact iff_of_true (entered_set hs rfl ht rfl fun _ => hpos) rfl
      · cases h
  | removed i =>
      obtain ⟨t, ht, h⟩ := Option.bind_eq_some_iff.mp h
      split at h
      · cases h
        exact (entered_dropping ht false).trans (entered_removed hs ht)
      · cases h
  | next =>
      simp only [step] at h
      split at h
      · cases h
      · cases h
        exact iff_of_true hs rfl
  | dropProducer =>
      cases h
      exact iff_of_true hs rfl

theorem entered_init : Entered init := by
  intro i t ht
  simp [init] at ht

/-- All along a run each key has one track at a time, exactly if in the run
every destructor gets the lock before its key has a reader again. -/
theorem deduplicated_iff (as : List RemoteAct) (s : Remote)
    (hrun : Run step (fun _ _ => True) init as s) :
    (∀ bs mid, bs <+: as → Run step (fun _ _ => True) init bs mid → Deduplicated mid) ↔
      Run step (fun s act => s.ownEntry act) init as s := by
  simp only [deduplicated_iff_entered]
  exact hrun.always_iff entered_step entered_init

/-- The last reader goes away, with its destructor, before the key is
subscribed to again. -/
theorem deduplicated_inTime :
    ∃ s, run step ownEntry init
        [.subscribe (⟨[]⟩, "video"), .clone 0, .drop 0, .drop 0, .removed 0,
          .subscribe (⟨[]⟩, "video"), .subscribe (⟨[]⟩, "video")] = some s ∧
      s.made = [⟨(⟨[]⟩, "video"), 0, false⟩, ⟨(⟨[]⟩, "video"), 2, false⟩] ∧ Deduplicated s := by
  have hrun : ∃ s, run step ownEntry init
      [.subscribe (⟨[]⟩, "video"), .clone 0, .drop 0, .drop 0, .removed 0,
        .subscribe (⟨[]⟩, "video"), .subscribe (⟨[]⟩, "video")] = some s ∧
      s.made = [⟨(⟨[]⟩, "video"), 0, false⟩, ⟨(⟨[]⟩, "video"), 2, false⟩] := ⟨_, rfl, rfl⟩
  obtain ⟨s, hs, hmade⟩ := hrun
  have htrue : Run step (fun _ _ => True) init _ s := run_of_eq ownEntry (fun _ _ _ => trivial) hs
  have hown : Run step (fun s act => s.ownEntry act) init _ s :=
    run_of_eq ownEntry (fun _ _ h => h) hs
  exact ⟨s, hs, hmade, (deduplicated_iff _ s htrue).mpr hown _ s List.prefix_rfl htrue⟩

/-- The key is subscribed to again before the destructor of the last reader
takes the lock. Its new track has a reader and is not in the table, and the
next subscription queues a writer for a third. -/
theorem not_deduplicated_late :
    ∃ s, run step (fun _ _ => true) init
        [.subscribe (⟨[]⟩, "video"), .drop 0, .subscribe (⟨[]⟩, "video"), .removed 0] = some s ∧
      s.made = [⟨(⟨[]⟩, "video"), 0, false⟩, ⟨(⟨[]⟩, "video"), 1, false⟩] ∧
      s.state.value.requested = [0, 1] ∧ (s.subscribe (⟨[]⟩, "video")).1 = some 2 ∧
      (s.subscribe (⟨[]⟩, "video")).2.state.value.requested = [0, 1, 2] ∧ ¬ Deduplicated s := by
  have hrun : ∃ s, run step (fun _ _ => true) init
      [.subscribe (⟨[]⟩, "video"), .drop 0, .subscribe (⟨[]⟩, "video"), .removed 0] = some s ∧
      s.made = [⟨(⟨[]⟩, "video"), 0, false⟩, ⟨(⟨[]⟩, "video"), 1, false⟩] ∧
      s.state.value.requested = [0, 1] ∧ (s.subscribe (⟨[]⟩, "video")).1 = some 2 ∧
      (s.subscribe (⟨[]⟩, "video")).2.state.value.requested = [0, 1, 2] :=
    ⟨_, rfl, rfl, rfl, rfl, rfl⟩
  obtain ⟨s, hs, hmade, hrequested, hsub, hqueued⟩ := hrun
  refine ⟨s, hs, hmade, hrequested, hsub, hqueued, ?_⟩
  intro hdedup
  have hsame := (hdedup 1 ⟨(⟨[]⟩, "video"), 1, false⟩ (by rw [hmade]; rfl) Nat.one_pos).1
  rw [hsub] at hsame
  cases hsame

end Remote

end MoqTransport.Relay
