import MoqTransport.Error
import MoqTransport.Lib.Machine
import MoqTransport.Lib.Registry
import MoqTransport.Message.Message

/-!
Announcements received by a subscriber. A handle goes to the application, and
its other half into a table by namespace; an UNANNOUNCE takes that half out,
which closes the handle. When a handle is dropped it takes out whatever is
stored under its namespace, and that is not its own half if the namespace has
been announced again (`ownDropsOnly_iff`).

The queue of handles is never closed: every handle in it keeps it alive.
-/

namespace MoqTransport.Session

open Streaming Coding Machine

inductive AnnouncedPhase where
  | queued
  | held
  | pushing (last : Message)
  | gone
deriving DecidableEq

/-- What took the other half of a handle out of the table. -/
inductive AnnouncedEnd where
  | unannounced
  /-- A handle was dropped. -/
  | dropped (handle : Nat)
deriving DecidableEq

structure AnnouncedHandle where
  namespace_ : Tuple
  ok : Bool
  phase : AnnouncedPhase
  /-- The handle is reported closed once its other half is gone. -/
  ended : Option AnnouncedEnd
deriving DecidableEq

/-- The announcements of a session. A handle is named by its position; the
table says with which handle an entry was made. -/
structure Announcements where
  announced : Finmap (fun _ : Tuple => Nat)
  handles : List AnnouncedHandle
  queue : List Nat
  outgoing : List Message

inductive AnnounceAct where
  | announce (msg : Message.Announce)
  | unannounce (msg : Message.Unannounce)
  /-- The application takes a handle from the queue. -/
  | accept
  | ok (handle : Nat)
  /-- The application closes a handle with an error, or just drops it. -/
  | drop (handle : Nat) (error : Option ServeError)
  | push (handle : Nat)

namespace Announcements

def init : Announcements := ⟨∅, [], [], []⟩

def setHandle (s : Announcements) (i : Nat) (h : AnnouncedHandle) : Announcements :=
  { s with handles := s.handles.set i h }

def recvAnnounce (s : Announcements) (msg : Message.Announce) : Announcements :=
  match s.announced.lookup msg.namespace_ with
  | some _ => s
  | none =>
      { s with
        announced := s.announced.insert msg.namespace_ s.handles.length
        handles := s.handles ++ [⟨msg.namespace_, false, .queued, none⟩]
        queue := s.queue ++ [s.handles.length] }

/-- Take out what is stored under a namespace, and let its handle know. -/
def takeOut (s : Announcements) (namespace_ : Tuple) (cause : AnnouncedEnd) : Announcements :=
  match s.announced.lookup namespace_ with
  | none => s
  | some i =>
      { s with
        announced := s.announced.erase namespace_
        handles := s.handles.modify i fun h => { h with ended := some cause } }

/-- The last message of a handle. -/
def terminal (h : AnnouncedHandle) (error : Option ServeError) : Message :=
  let err := error.getD .done
  if h.ok then
    .announceCancel { namespace_ := h.namespace_, errorCode := 0, reasonPhrase := "" }
  else
    .announceError
      { namespace_ := h.namespace_, errorCode := err.code, reasonPhrase := err.text }

def step (s : Announcements) : AnnounceAct → Option Announcements
  | .announce msg => some (s.recvAnnounce msg)
  | .unannounce msg => some (s.takeOut msg.namespace_ .unannounced)
  | .accept =>
      match s.queue with
      | [] => none
      | i :: rest => some
          { s with queue := rest, handles := s.handles.modify i fun h => { h with phase := .held } }
  | .ok i => do
      let h ← s.handles[i]?
      if h.phase = .held ∧ h.ok = false then
        some { s.setHandle i { h with ok := true } with
          outgoing := s.outgoing ++ [.announceOk { namespace_ := h.namespace_ }] }
      else
        none
  | .drop i error => do
      let h ← s.handles[i]?
      if h.phase = .held then
        let s := s.setHandle i { h with phase := .pushing (terminal h error) }
        some (s.takeOut h.namespace_ (.dropped i))
      else
        none
  | .push i => do
      let h ← s.handles[i]?
      match h.phase with
      | .pushing last =>
          some { s.setHandle i { h with phase := .gone } with outgoing := s.outgoing ++ [last] }
      | _ => none

/-- Every handle that a drop has closed was closed by its own. -/
def OwnDropsOnly (s : Announcements) : Prop :=
  ∀ (i : Nat) (h : AnnouncedHandle) (handle : Nat), s.handles[i]? = some h →
    h.ended = some (.dropped handle) → handle = i

/-- Another announcement of the handle's namespace is registered. -/
def Superseded (s : Announcements) (i : Nat) : Prop :=
  ∃ h j h', s.handles[i]? = some h ∧ s.handles[j]? = some h' ∧ j ≠ i ∧
    h'.namespace_ = h.namespace_ ∧ h'.ended = none

/-- The table has exactly the handles that have not been closed. -/
def Registered (s : Announcements) : Prop :=
  Registry.Consistent AnnouncedHandle.namespace_ (fun h => h.ended = none) s.announced s.handles

/-- A handle is dropped only while no other announcement of its namespace is
registered. -/
def Timely (s : Announcements) : AnnounceAct → Prop
  | .drop i _ => ¬ Superseded s i
  | _ => True

/-- What the table and a reader of the handles' states can see. -/
structure SameView (s s' : Announcements) : Prop where
  announced : s'.announced = s.announced
  handles : ∀ i : Nat, (s'.handles[i]?).map (fun h => (h.namespace_, h.ended)) =
    (s.handles[i]?).map (fun h => (h.namespace_, h.ended))

theorem SameView.handle {s s' : Announcements} (hview : SameView s s') {i : Nat}
    {h : AnnouncedHandle} (hi : s.handles[i]? = some h) :
    ∃ h', s'.handles[i]? = some h' ∧ h'.namespace_ = h.namespace_ ∧ h'.ended = h.ended := by
  have hmap := hview.handles i
  rw [hi, Option.map_some, Option.map_eq_some_iff] at hmap
  obtain ⟨h', hi', heq⟩ := hmap
  exact ⟨h', hi', congrArg Prod.fst heq, congrArg Prod.snd heq⟩

theorem SameView.symm {s s' : Announcements} (hview : SameView s s') : SameView s' s :=
  ⟨hview.announced.symm, fun i => (hview.handles i).symm⟩

theorem sameView_setHandle {s : Announcements} {i : Nat} {h h' : AnnouncedHandle}
    (hi : s.handles[i]? = some h) (hnamespace : h'.namespace_ = h.namespace_)
    (hended : h'.ended = h.ended) (outgoing : List Message) :
    SameView s { s.setHandle i h' with outgoing := outgoing } := by
  refine ⟨rfl, ?_⟩
  intro j
  obtain ⟨hlt, rfl⟩ := List.getElem?_eq_some_iff.mp hi
  by_cases hsame : i = j
  · subst hsame
    simp [setHandle, hlt, hnamespace, hended]
  · simp [setHandle, hsame]

/-- The steps, by what becomes of the table. -/
inductive Steps (s : Announcements) : AnnounceAct → Announcements → Prop where
  | announce {msg : Message.Announce} : Steps s (.announce msg) (s.recvAnnounce msg)
  | unannounce {msg : Message.Unannounce} :
      Steps s (.unannounce msg) (s.takeOut msg.namespace_ .unannounced)
  | drop {i : Nat} {error : Option ServeError} {h : AnnouncedHandle} {mid : Announcements}
      (hi : s.handles[i]? = some h) (hview : SameView s mid) :
      Steps s (.drop i error) (mid.takeOut h.namespace_ (.dropped i))
  | other {act : AnnounceAct} {s' : Announcements} (hact : Timely s act) (hview : SameView s s') :
      Steps s act s'

theorem steps_of_step {s s' : Announcements} {act : AnnounceAct} (h : s.step act = some s') :
    Steps s act s' := by
  cases act with
  | announce msg => cases h; exact .announce
  | unannounce msg => cases h; exact .unannounce
  | accept =>
      simp only [step] at h
      split at h
      · cases h
      · next i rest hqueue =>
          cases h
          refine .other trivial ⟨rfl, ?_⟩
          intro j
          by_cases hsame : i = j
          · subst hsame
            simp [Function.comp_def]
          · simp [hsame]
  | ok i =>
      obtain ⟨handle, hi, h⟩ := Option.bind_eq_some_iff.mp h
      split at h
      · cases h
        exact .other trivial (sameView_setHandle hi (by rfl) (by rfl) _)
      · cases h
  | drop i error =>
      obtain ⟨handle, hi, h⟩ := Option.bind_eq_some_iff.mp h
      split at h
      · cases h
        exact .drop hi (sameView_setHandle hi (by rfl) (by rfl) s.outgoing)
      · cases h
  | push i =>
      obtain ⟨handle, hi, h⟩ := Option.bind_eq_some_iff.mp h
      split at h
      · cases h
        exact .other trivial (sameView_setHandle hi (by rfl) (by rfl) _)
      · cases h

theorem registered_sameView {s s' : Announcements} (hview : SameView s s') (hs : Registered s) :
    Registered s' := by
  rw [Registered, hview.announced]
  apply Registry.Consistent.congr hs
  intro i
  have hmap := congrArg (Option.map fun v => (v.1, v.2 = none)) (hview.handles i)
  simpa [Function.comp_def] using hmap

/-- What `takeOut` does: nothing, or it ends one registered handle. -/
theorem takeOut_handles {s : Announcements} (ns : Tuple) (cause : AnnouncedEnd) (j : Nat) :
    (s.takeOut ns cause).handles[j]? = (s.handles[j]?).map fun h =>
      if s.announced.lookup ns = some j then { h with ended := some cause } else h := by
  unfold takeOut
  split
  · next hnone => simp [hnone]
  · next i hsome =>
      rw [List.getElem?_modify]
      by_cases hij : i = j
      · simp [hsome, hij]
      · simp [hsome, hij]

theorem registered_takeOut {s : Announcements} (hs : Registered s) (ns : Tuple)
    (cause : AnnouncedEnd) : Registered (s.takeOut ns cause) := by
  cases hlookup : s.announced.lookup ns with
  | none =>
      have hsame : s.takeOut ns cause = s := by simp only [takeOut, hlookup]
      rwa [hsame]
  | some i =>
      have htable : (s.takeOut ns cause).announced = s.announced.erase ns := by
        simp only [takeOut, hlookup]
      rw [Registered, htable]
      exact hs.retire (f := fun h => { h with ended := some cause }) (by simp)
        (takeOut_handles ns cause)

theorem registered_recvAnnounce {s : Announcements} (hs : Registered s) (msg : Message.Announce) :
    Registered (s.recvAnnounce msg) := by
  unfold recvAnnounce
  split
  · exact hs
  · next hvacant =>
      exact hs.register (e := ⟨msg.namespace_, false, .queued, none⟩) hvacant rfl

theorem registered_step {s s' : Announcements} {act : AnnounceAct} (hs : Registered s)
    (h : s.step act = some s') : Registered s' := by
  cases steps_of_step h with
  | announce => exact registered_recvAnnounce hs _
  | unannounce => exact registered_takeOut hs _ _
  | drop _ hview => exact registered_takeOut (registered_sameView hview hs) _ _
  | other _ hview => exact registered_sameView hview hs

theorem ownDropsOnly_sameView {s s' : Announcements} (hview : SameView s s') :
    OwnDropsOnly s' ↔ OwnDropsOnly s := by
  constructor
  · intro hs i h handle hi hended
    obtain ⟨h', hi', -, hended'⟩ := hview.handle hi
    exact hs i h' handle hi' (hended'.trans hended)
  · intro hs i h handle hi hended
    obtain ⟨h', hi', -, hended'⟩ := hview.symm.handle hi
    exact hs i h' handle hi' (hended'.trans hended)

theorem ownDropsOnly_recvAnnounce {s : Announcements} (msg : Message.Announce) :
    OwnDropsOnly (s.recvAnnounce msg) ↔ OwnDropsOnly s := by
  unfold recvAnnounce
  split
  · rfl
  · constructor
    · intro hs i h handle hi hended
      have hlt := (List.getElem?_eq_some_iff.mp hi).1
      exact hs i h handle (by simpa [List.getElem?_append_left hlt] using hi) hended
    · intro hs i h handle hi hended
      rw [List.getElem?_append] at hi
      split at hi
      · exact hs i h handle hi hended
      · obtain rfl : _ = h := by simpa using (List.getElem?_eq_some_iff.mp hi).2
        cases hended

/-- Taking out an entry keeps what is wrong, and what is right unless a drop
ends another handle. -/
theorem ownDropsOnly_takeOut {s : Announcements} (hs : Registered s) (ns : Tuple)
    (cause : AnnouncedEnd) :
    OwnDropsOnly (s.takeOut ns cause) ↔ OwnDropsOnly s ∧
      ∀ j handle, s.announced.lookup ns = some j → cause = .dropped handle → handle = j := by
  constructor
  · intro hown
    refine ⟨fun i h handle hi hended => hown i h handle ?_ hended, ?_⟩
    · -- A handle that has ended is not registered, so it is not the one taken out.
      have hother : s.announced.lookup ns ≠ some i := by
        intro hj
        obtain ⟨h', hi', -, hnone⟩ := (hs ns i).mp hj
        obtain rfl : h = h' := by simpa [hi] using hi'
        simp [hended] at hnone
      rw [takeOut_handles, hi, Option.map_some, if_neg hother]
    · intro j handle hj hcause
      obtain ⟨h, hi, -, -⟩ := (hs ns j).mp hj
      refine hown j { h with ended := some cause } handle ?_ (congrArg some hcause)
      rw [takeOut_handles, hi, Option.map_some, if_pos hj]
  · rintro ⟨hown, hcause⟩ i h handle hi hended
    rw [takeOut_handles] at hi
    obtain ⟨h', hi', rfl⟩ := Option.map_eq_some_iff.mp hi
    split at hended
    · next hj => exact hcause i handle hj (Option.some.inj hended)
    · exact hown i h' handle hi' hended

/-- The drop of a handle ends its own registration or none, exactly when no
other announcement of the namespace is registered. -/
theorem own_iff_not_superseded {s : Announcements} (hs : Registered s) {i : Nat}
    {h : AnnouncedHandle} (hi : s.handles[i]? = some h) :
    (∀ j, s.announced.lookup h.namespace_ = some j → i = j) ↔ ¬ Superseded s i := by
  constructor
  · rintro hown ⟨h₀, j, h', hi₀, hj, hne, hns, hended⟩
    obtain rfl : h = h₀ := by simpa [hi] using hi₀
    exact hne (hown j ((hs _ j).mpr ⟨h', hj, hns, hended⟩)).symm
  · intro hcurrent j hj
    by_contra hne
    obtain ⟨h', hj', hns, hended⟩ := (hs _ j).mp hj
    exact hcurrent ⟨h, j, h', hi, hj', Ne.symm hne, hns, hended⟩

theorem ownDropsOnly_step {s s' : Announcements} {act : AnnounceAct} (hs : Registered s)
    (h : s.step act = some s') : OwnDropsOnly s' ↔ OwnDropsOnly s ∧ Timely s act := by
  cases steps_of_step h with
  | announce => simp [ownDropsOnly_recvAnnounce, Timely]
  | unannounce => simp [ownDropsOnly_takeOut hs, Timely]
  | @drop i error handle mid hi hview =>
      rw [ownDropsOnly_takeOut (registered_sameView hview hs), ownDropsOnly_sameView hview,
        hview.announced, Timely, ← own_iff_not_superseded hs hi]
      simp
  | other hact hview => simp [ownDropsOnly_sameView hview, hact]

theorem registered_init : Registered init := Registry.consistent_nil

/-- In a run from the start a drop has closed no other handle exactly when
each handle was dropped while no other announcement of its namespace was
registered. -/
theorem ownDropsOnly_iff (acts : List AnnounceAct) (s : Announcements)
    (hrun : Run step (fun _ _ => True) init acts s) :
    OwnDropsOnly s ↔ Run step Timely init acts s := by
  have hinit : OwnDropsOnly init := by
    intro i h handle hi
    cases hi
  rw [hrun.iff_of_step registered_step ownDropsOnly_step registered_init]
  exact and_iff_right hinit

/-- One announcement, accepted and dropped. -/
def announceOnce : List AnnounceAct :=
  [.announce ⟨⟨[]⟩, ∅⟩, .accept, .drop 0 none, .push 0]

theorem timely_announceOnce :
    ∃ s, Run step (fun _ _ => True) init announceOnce s ∧ Run step Timely init announceOnce s := by
  have hrun : ∃ s, run step (fun _ _ => true) init announceOnce = some s ∧
      s.handles.map AnnouncedHandle.ended = [some (.dropped 0)] := ⟨_, rfl, rfl⟩
  obtain ⟨s, hs, hended⟩ := hrun
  have hany : Run step (fun _ _ => True) init announceOnce s :=
    run_of_eq _ (fun _ _ _ => trivial) hs
  refine ⟨s, hany, (ownDropsOnly_iff _ _ hany).mp ?_⟩
  intro i h handle hi hdropped
  have hmap : (s.handles.map AnnouncedHandle.ended)[i]? = some (some (.dropped handle)) := by
    simp [hi, hdropped]
  rw [hended] at hmap
  cases i with
  | zero => simpa using hmap.symm
  | succ i => simp at hmap

/-- An UNANNOUNCE and a new ANNOUNCE come before the first handle is dropped:
the second is reported closed. -/
theorem not_ownDropsOnly_reannounced :
    ∃ s, Run step (fun _ _ => True) init [.announce ⟨⟨[]⟩, ∅⟩, .accept,
        .unannounce ⟨⟨[]⟩⟩, .announce ⟨⟨[]⟩, ∅⟩, .drop 0 none] s ∧
      s.handles.map AnnouncedHandle.ended = [some .unannounced, some (.dropped 0)] ∧
      ¬ OwnDropsOnly s :=
  ⟨_, run_of_eq (fun _ _ => true) (fun _ _ _ => trivial) rfl, rfl,
    fun hown => absurd (hown 1 _ 0 rfl rfl) (by decide)⟩

end Announcements

end MoqTransport.Session
