import Mathlib.Data.Finmap
import MoqTransport.Dir.Listing
import MoqTransport.Lib.Machine

/-!
The directory: announced paths, listed under what comes before their last dot.
Each such part has a listing and a track of the same name, made with the first
path under it and taken away with the last. A path is listed exactly as long
as its registration is held (`Directory.Invariant`): no write to a listing
fails while its track is in the map, and the map keeps it as long as the
listing has a name.
-/

namespace MoqTransport.Dir

open Coding Serve Machine

namespace Listing

/-- The reader that the tracks hold goes away. It was the only one; with it
goes the reader of the mode. -/
def dropReader (l : Listing) : Listing :=
  { l with
    track := { l.track with
      state := l.track.state.drop
      subgroups := { l.track.subgroups with state := l.track.subgroups.state.drop } } }

/-- The `ListingWriter` goes away. -/
def dropWriter (l : Listing) : Listing :=
  let track := if l.writer.track then TrackWriterMode.track.drop l.track else l.track
  let track :=
    match l.writer.subgroups with
    | some ws => TrackWriterMode.drop (.subgroups ws) track
    | none => track
  let track :=
    match l.writer.subgroup with
    | some w => { track with subgroups := dropSubgroup track.subgroups w }
    | none => track
  ⟨{ l.writer with track := false, subgroups := none, subgroup := none }, track⟩

end Listing

/-- The shared state of a `Listings` and its reader. The tracks and the
listings are named by their place among all that were made. -/
structure Listings where
  namespace_ : Tuple
  tracks : Watch.State (Finmap fun _ : String => Nat)
  active : Finmap fun _ : String => Nat
  made : List Listing

/-- Removes what it stands for when it is dropped. -/
structure Registration where
  prefix_ : String
  base : String
deriving DecidableEq

namespace Listings

def new (namespace_ : String) : Listings := ⟨.fromUtf8Path namespace_, .new ∅, ∅, []⟩

/-- `Listings::prefix`: what comes up to the last dot, and what after it. -/
def prefixOf (path : String) : String × String :=
  let reversed := path.toList.reverse
  (String.ofList (reversed.dropWhile (· ≠ '.')).reverse,
    String.ofList (reversed.takeWhile (· ≠ '.')).reverse)

example : [".", ".foo", "foo.", "foo", ".foo.bar"].map prefixOf =
    [(".", ""), (".", "foo"), ("foo.", ""), ("", "foo"), (".foo.", "bar")] := by decide

/-- The start of `register`: what the path is registered as, if it is in the
namespace. -/
def locate (namespace_ : Tuple) (path : String) : Option Registration :=
  let (prefix_, base) := prefixOf path
  let namespace_ := namespace_.toUtf8Path
  if namespace_.toList.isPrefixOf prefix_.toList then
    some ⟨String.ofList (prefix_.toList.drop namespace_.toList.length), base⟩
  else none

/-- `TracksWriter::create`. A track of that name is overwritten. -/
def create (s : Listings) (name : String) : Option (Nat × Listings) :=
  if s.tracks.dropped then none
  else
    let made :=
      match s.tracks.value.lookup name with
      | some old => s.made.modify old Listing.dropReader
      | none => s.made
    some (s.made.length,
      { s with
        tracks := s.tracks.update (·.insert name s.made.length)
        made := made ++ [.new] })

/-- `TracksWriter::remove`. -/
def removeTrack (s : Listings) (name : String) : Listings :=
  match s.tracks.dropped, s.tracks.value.lookup name with
  | false, some i =>
      { s with
        tracks := s.tracks.update (·.erase name)
        made := s.made.modify i Listing.dropReader }
  | _, _ => s

/-- Run a call on the listing at a place. -/
def onListing (s : Listings) (i : Nat)
    (call : Listing → Option (Except ServeError Unit × Listing)) :
    Option (Except ServeError Unit × Listings) := do
  let listing ← s.made[i]?
  let (result, listing) ← call listing
  some (result, { s with made := s.made.set i listing })

/-- The calls of `unwrap` panic: then there is no result. -/
def register (s : Listings) (path : String) (iter : Iteration) :
    Option (Except ServeError (Option Registration) × Listings) :=
  match locate s.namespace_ path with
  | none => some (.ok none, s)
  | some registration =>
      match s.active.lookup registration.prefix_ with
      | some i => do
          let (result, s) ← s.onListing i (·.insert registration.base iter)
          some (result.map fun _ => some registration, s)
      | none => do
          let (i, s) ← s.create registration.prefix_
          match ← s.onListing i (·.insert registration.base iter) with
          | (.error err, s) =>
              some (.error err, { s with made := s.made.modify i Listing.dropWriter })
          | (.ok _, s) =>
              some (.ok (some registration),
                { s with active := s.active.insert registration.prefix_ i })

def isEmpty (s : Listings) (i : Nat) : Bool :=
  s.made[i]?.all fun listing => listing.writer.current = ∅

/-- `Listings::remove`. -/
def remove (s : Listings) (registration : Registration) (iter : Iteration) :
    Option (Except ServeError Unit × Listings) :=
  match s.active.lookup registration.prefix_ with
  | none => some (.error .notFound, s)
  | some i => do
      match ← s.onListing i (·.remove registration.base iter) with
      | (.error err, s) => some (.error err, s)
      | (.ok _, s) =>
          if s.isEmpty i then
            let s := { s with
              active := s.active.erase registration.prefix_
              made := s.made.modify i Listing.dropWriter }
            some (.ok (), s.removeTrack registration.prefix_)
          else some (.ok (), s)

/-- The names listed under a prefix. -/
def names (s : Listings) (prefix_ : String) : Finset String :=
  match s.active.lookup prefix_ with
  | some i => (s.made[i]?.map fun listing => listing.writer.current).getD ∅
  | none => ∅

/-- The pair of a registration is listed. -/
def Lists (s : Listings) (registration : Registration) : Prop :=
  registration.base ∈ s.names registration.prefix_

/-- The reader is there, the tracks are those of the listings, and every
listing has a name and can be written. -/
structure Valid (s : Listings) : Prop where
  reader : s.tracks.dropped = false
  tracks : s.tracks.value = s.active
  listing : ∀ prefix_ i, s.active.lookup prefix_ = some i →
    ∃ l, s.made[i]? = some l ∧ l.Live ∧ l.writer.current.Nonempty
  distinct : ∀ p q i, s.active.lookup p = some i → s.active.lookup q = some i → p = q

variable {s : Listings} {path : String} {registration : Registration}

theorem valid_new (namespace_ : String) : Valid (new namespace_) := by
  constructor
  · rfl
  · rfl
  · intro prefix_ i hi
    cases hi
  · intro p q i hi
    cases hi

theorem names_eq {prefix_ : String} {i : Nat} {l : Listing}
    (hi : s.active.lookup prefix_ = some i) (hl : s.made[i]? = some l) :
    s.names prefix_ = l.writer.current := by
  simp [names, hi, hl]

theorem names_of_none {prefix_ : String} (h : s.active.lookup prefix_ = none) :
    s.names prefix_ = ∅ := by
  simp [names, h]

/-- What is listed under a prefix depends on its own listing only. -/
theorem names_congr {s' : Listings} {q : String}
    (hlookup : s'.active.lookup q = s.active.lookup q)
    (hmade : ∀ j, s.active.lookup q = some j → s'.made[j]? = s.made[j]?) :
    s'.names q = s.names q := by
  unfold names
  rw [hlookup]
  cases hj : s.active.lookup q with
  | none => rfl
  | some j => simp only [hmade j hj]

theorem Valid.mem_active_iff (h : Valid s) {prefix_ : String} :
    prefix_ ∈ s.active ↔ (s.names prefix_).Nonempty := by
  cases hi : s.active.lookup prefix_ with
  | none =>
      rw [names_of_none hi]
      simp [Finmap.lookup_eq_none.mp hi]
  | some i =>
      obtain ⟨l, hl, -, hnonempty⟩ := h.listing prefix_ i hi
      rw [names_eq hi hl]
      exact ⟨fun _ => hnonempty, fun _ => Finmap.mem_of_lookup_eq_some hi⟩

theorem Valid.lt_length (h : Valid s) {prefix_ : String} {i : Nat}
    (hi : s.active.lookup prefix_ = some i) : i < s.made.length := by
  obtain ⟨l, hl, -⟩ := h.listing prefix_ i hi
  exact (List.getElem?_eq_some_iff.mp hl).1

theorem Valid.ne_place (h : Valid s) {prefix_ q : String} {i j : Nat}
    (hi : s.active.lookup prefix_ = some i) (hj : s.active.lookup q = some j)
    (hne : q ≠ prefix_) : i ≠ j := by
  rintro rfl
  exact hne (h.distinct q prefix_ i hj hi)

/-- A call on the listing of a prefix. -/
theorem onListing_eq {i : Nat} {l l' : Listing} {result : Except ServeError Unit}
    (call : Listing → Option (Except ServeError Unit × Listing)) (hl : s.made[i]? = some l)
    (hcall : call l = some (result, l')) :
    s.onListing i call = some (result, { s with made := s.made.set i l' }) := by
  simp [onListing, hl, hcall]

/-- The listing of one prefix has changed. -/
theorem Valid.set (h : Valid s) {prefix_ : String} {i : Nat}
    (hi : s.active.lookup prefix_ = some i) {l' : Listing} (hlive : l'.Live)
    (hnonempty : l'.writer.current.Nonempty) :
    Valid { s with made := s.made.set i l' } := by
  constructor
  · exact h.reader
  · exact h.tracks
  · intro q j hj
    obtain ⟨l, hl, hlive', hnonempty'⟩ := h.listing q j hj
    by_cases hij : i = j
    · subst hij
      exact ⟨l', List.getElem?_set_self (h.lt_length hi), hlive, hnonempty⟩
    · exact ⟨l, (List.getElem?_set_ne hij).trans hl, hlive', hnonempty'⟩
  · exact h.distinct

theorem Valid.names_set (h : Valid s) {prefix_ : String} {i : Nat}
    (hi : s.active.lookup prefix_ = some i) (l' : Listing) (q : String) :
    { s with made := s.made.set i l' }.names q =
      if q = prefix_ then l'.writer.current else s.names q := by
  split
  · next heq =>
      subst heq
      exact names_eq hi (List.getElem?_set_self (h.lt_length hi))
  · next hne =>
      refine names_congr (by rfl) ?_
      intro j hj
      exact List.getElem?_set_ne (h.ne_place hi hj hne)

theorem register_outside (iter : Iteration) (h : locate s.namespace_ path = none) :
    s.register path iter = some (.ok none, s) := by
  rw [register, h]

theorem Valid.register_duplicate (h : Valid s) (iter : Iteration)
    (hlocate : locate s.namespace_ path = some registration)
    (hlisted : s.Lists registration) :
    s.register path iter = some (.error .duplicate, s) := by
  obtain ⟨i, hi⟩ := Finmap.mem_iff.mp (h.mem_active_iff.mpr ⟨_, hlisted⟩)
  obtain ⟨l, hl, -⟩ := h.listing _ i hi
  rw [Lists, names_eq hi hl] at hlisted
  have hcall : l.insert registration.base iter = some (.error .duplicate, l) := by
    rw [Listing.insert, if_pos hlisted]
  have hset : s.made.set i l = s.made := by
    obtain ⟨hlt, rfl⟩ := List.getElem?_eq_some_iff.mp hl
    exact List.set_getElem_self hlt
  have hon := onListing_eq (·.insert registration.base iter) hl hcall
  rw [hset] at hon
  simp [register, hlocate, hi, hon, Except.map]

/-- Another name under a prefix that has some. -/
theorem Valid.register_more (h : Valid s) (iter : Iteration)
    (hlocate : locate s.namespace_ path = some registration) {i : Nat}
    (hi : s.active.lookup registration.prefix_ = some i)
    (hnew : ¬ s.Lists registration) :
    ∃ s', s.register path iter = some (.ok (some registration), s') ∧ Valid s' ∧
      s'.namespace_ = s.namespace_ ∧
      ∀ q, s'.names q =
        if q = registration.prefix_ then insert registration.base (s.names q) else s.names q := by
  obtain ⟨l, hl, hlive, -⟩ := h.listing _ i hi
  rw [Lists, names_eq hi hl] at hnew
  obtain ⟨l', hcall, hlive', hcurrent, -⟩ := hlive.insert hnew iter
  have hon := onListing_eq (·.insert registration.base iter) hl hcall
  refine ⟨{ s with made := s.made.set i l' }, ?_, ?_, rfl, ?_⟩
  · simp [register, hlocate, hi, hon, Except.map]
  · apply h.set hi hlive'
    rw [hcurrent]
    exact Finset.insert_nonempty _ _
  · intro q
    rw [h.names_set hi, hcurrent]
    split
    · next heq => rw [heq, names_eq hi hl]
    · rfl

/-- The listing and the track of a new prefix. -/
def added (s : Listings) (prefix_ : String) (l : Listing) : Listings where
  namespace_ := s.namespace_
  tracks := s.tracks.update (·.insert prefix_ s.made.length)
  active := s.active.insert prefix_ s.made.length
  made := s.made ++ [l]

theorem lookup_added {prefix_ q : String} {l : Listing} {j : Nat} :
    (s.added prefix_ l).active.lookup q = some j ↔
      q = prefix_ ∧ s.made.length = j ∨ q ≠ prefix_ ∧ s.active.lookup q = some j := by
  by_cases hq : q = prefix_
  · subst hq
    simp [added]
  · simp [added, Finmap.lookup_insert_of_ne _ hq, hq]

theorem Valid.added (h : Valid s) (prefix_ : String) {l : Listing} (hlive : l.Live)
    (hnonempty : l.writer.current.Nonempty) : Valid (s.added prefix_ l) := by
  constructor
  · exact h.reader
  · exact congrArg (·.insert prefix_ s.made.length) h.tracks
  · intro q j hj
    rcases lookup_added.mp hj with ⟨rfl, rfl⟩ | ⟨-, hj⟩
    · exact ⟨l, List.getElem?_concat_length, hlive, hnonempty⟩
    · obtain ⟨l', hl', hrest⟩ := h.listing q j hj
      exact ⟨l', getElem?_concat_iff.mpr (.inl hl'), hrest⟩
  · intro p q j hp hq
    rcases lookup_added.mp hp with ⟨rfl, rfl⟩ | ⟨-, hpold⟩
    · rcases lookup_added.mp hq with ⟨rfl, -⟩ | ⟨-, hqold⟩
      · rfl
      · exact absurd (h.lt_length hqold) (Nat.lt_irrefl _)
    · rcases lookup_added.mp hq with ⟨rfl, rfl⟩ | ⟨-, hqold⟩
      · exact absurd (h.lt_length hpold) (Nat.lt_irrefl _)
      · exact h.distinct p q j hpold hqold

theorem Valid.names_added (h : Valid s) (prefix_ : String) (l : Listing) (q : String) :
    (s.added prefix_ l).names q = if q = prefix_ then l.writer.current else s.names q := by
  split
  · next heq =>
      subst heq
      exact names_eq (lookup_added.mpr (.inl ⟨rfl, rfl⟩)) List.getElem?_concat_length
  · next hne =>
      apply names_congr (Finmap.lookup_insert_of_ne _ hne)
      intro j hj
      exact List.getElem?_append_left (h.lt_length hj)

/-- The first name under a prefix. -/
theorem Valid.register_first (h : Valid s) (iter : Iteration)
    (hlocate : locate s.namespace_ path = some registration)
    (hnone : s.active.lookup registration.prefix_ = none) :
    ∃ s', s.register path iter = some (.ok (some registration), s') ∧ Valid s' ∧
      s'.namespace_ = s.namespace_ ∧
      ∀ q, s'.names q =
        if q = registration.prefix_ then insert registration.base (s.names q) else s.names q := by
  have hcreate : s.create registration.prefix_ = some (s.made.length,
      { s with
        tracks := s.tracks.update (·.insert registration.prefix_ s.made.length)
        made := s.made ++ [.new] }) := by
    simp [create, h.reader, h.tracks, hnone]
  obtain ⟨l', hcall, hlive, hcurrent, -⟩ :=
    Listing.live_new.insert (Finset.notMem_empty registration.base) iter
  have hon := onListing_eq
    (s := { s with
      tracks := s.tracks.update (·.insert registration.prefix_ s.made.length)
      made := s.made ++ [.new] })
    (·.insert registration.base iter) List.getElem?_concat_length hcall
  refine ⟨s.added registration.prefix_ l', ?_, ?_, rfl, ?_⟩
  · simp [Listings.register, hlocate, hnone, hcreate, hon, Listings.added]
  · apply h.added _ hlive
    rw [hcurrent]
    exact Finset.insert_nonempty _ _
  · intro q
    rw [h.names_added, hcurrent]
    split
    · next heq =>
        rw [heq, names_of_none hnone]
        rfl
    · rfl

theorem mem_ite_iff {p q name : String} {inside outside : Finset String} :
    name ∈ (if q = p then inside else outside) ↔
      (q = p ∧ name ∈ inside) ∨ q ≠ p ∧ name ∈ outside := by
  split
  · next heq => simp [heq]
  · next hne => simp [hne]

/-- A path that is not listed is registered, and nothing else changes. -/
theorem Valid.register (h : Valid s) (iter : Iteration)
    (hlocate : locate s.namespace_ path = some registration) (hnew : ¬ s.Lists registration) :
    ∃ s', s.register path iter = some (.ok (some registration), s') ∧ Valid s' ∧
      s'.namespace_ = s.namespace_ ∧
      ∀ other, s'.Lists other ↔ s.Lists other ∨ other = registration := by
  have hcases : ∃ s', s.register path iter = some (.ok (some registration), s') ∧ Valid s' ∧
      s'.namespace_ = s.namespace_ ∧
      ∀ q, s'.names q =
        if q = registration.prefix_ then insert registration.base (s.names q) else s.names q := by
    cases hi : s.active.lookup registration.prefix_ with
    | none => exact h.register_first iter hlocate hi
    | some i => exact h.register_more iter hlocate hi hnew
  obtain ⟨s', hregister, hvalid, hnamespace, hnames⟩ := hcases
  refine ⟨s', hregister, hvalid, hnamespace, ?_⟩
  rintro ⟨p, b⟩
  obtain ⟨p', b'⟩ := registration
  simp only [Lists, hnames, mem_ite_iff, Finset.mem_insert, Registration.mk.injEq]
  grind

/-- A listing and its track are taken away. -/
def removed (s : Listings) (prefix_ : String) (i : Nat) (l : Listing) : Listings where
  namespace_ := s.namespace_
  tracks := s.tracks.update (·.erase prefix_)
  active := s.active.erase prefix_
  made := s.made.set i l

theorem lookup_removed {prefix_ q : String} {i j : Nat} {l : Listing} :
    (s.removed prefix_ i l).active.lookup q = some j ↔
      q ≠ prefix_ ∧ s.active.lookup q = some j := by
  by_cases hq : q = prefix_
  · subst hq
    simp [removed]
  · simp [removed, Finmap.lookup_erase_ne hq, hq]

theorem Valid.removed (h : Valid s) {prefix_ : String} {i : Nat}
    (hi : s.active.lookup prefix_ = some i) (l : Listing) : Valid (s.removed prefix_ i l) := by
  constructor
  · exact h.reader
  · exact congrArg (·.erase prefix_) h.tracks
  · intro q j hj
    obtain ⟨hne, hj⟩ := lookup_removed.mp hj
    obtain ⟨l', hl', hrest⟩ := h.listing q j hj
    exact ⟨l', (List.getElem?_set_ne (h.ne_place hi hj hne)).trans hl', hrest⟩
  · intro p q j hp hq
    exact h.distinct p q j (lookup_removed.mp hp).2 (lookup_removed.mp hq).2

theorem Valid.names_removed (h : Valid s) {prefix_ : String} {i : Nat}
    (hi : s.active.lookup prefix_ = some i) (l : Listing) (q : String) :
    (s.removed prefix_ i l).names q = if q = prefix_ then ∅ else s.names q := by
  split
  · next heq =>
      subst heq
      exact names_of_none (Finmap.lookup_erase _ _)
  · next hne =>
      apply names_congr (Finmap.lookup_erase_ne hne)
      intro j hj
      exact List.getElem?_set_ne (h.ne_place hi hj hne)

theorem modify_set {α : Type} (xs : List α) (i : Nat) (x : α) (f : α → α) :
    (xs.set i x).modify i f = xs.set i (f x) := by
  apply List.ext_getElem?
  intro j
  simp only [List.getElem?_modify, List.getElem?_set]
  grind

theorem Valid.names_remove (h : Valid s) (iter : Iteration) (hlisted : s.Lists registration) :
    ∃ s', s.remove registration iter = some (.ok (), s') ∧ Valid s' ∧
      s'.namespace_ = s.namespace_ ∧
      ∀ q, s'.names q =
        if q = registration.prefix_ then (s.names q).erase registration.base else s.names q := by
  obtain ⟨i, hi⟩ := Finmap.mem_iff.mp (h.mem_active_iff.mpr ⟨_, hlisted⟩)
  obtain ⟨l, hl, hlive, -⟩ := h.listing _ i hi
  have hnames := names_eq hi hl
  rw [Lists, hnames] at hlisted
  obtain ⟨l', hcall, hlive', hcurrent, -⟩ := hlive.remove hlisted iter
  have hon := onListing_eq (·.remove registration.base iter) hl hcall
  have hget : (s.made.set i l')[i]? = some l' := List.getElem?_set_self (h.lt_length hi)
  by_cases hempty : l'.writer.current = ∅
  · refine ⟨s.removed registration.prefix_ i l'.dropWriter.dropReader, ?_, h.removed hi _, rfl, ?_⟩
    · simp [Listings.remove, hi, hon, isEmpty, hget, hempty, removeTrack, h.reader, h.tracks,
        modify_set, Listings.removed]
    · intro q
      rw [h.names_removed hi, ← hempty, hcurrent]
      split
      · next heq => rw [heq, hnames]
      · rfl
  · refine ⟨{ s with made := s.made.set i l' }, ?_,
      h.set hi hlive' (Finset.nonempty_iff_ne_empty.mpr hempty), rfl, ?_⟩
    · simp [Listings.remove, hi, hon, isEmpty, hget, hempty]
    · intro q
      rw [h.names_set hi, hcurrent]
      split
      · next heq => rw [heq, hnames]
      · rfl

/-- What is listed is removed, and nothing else. -/
theorem Valid.remove (h : Valid s) (iter : Iteration) (hlisted : s.Lists registration) :
    ∃ s', s.remove registration iter = some (.ok (), s') ∧ Valid s' ∧
      s'.namespace_ = s.namespace_ ∧
      ∀ other, s'.Lists other ↔ s.Lists other ∧ other ≠ registration := by
  obtain ⟨s', hremove, hvalid, hnamespace, hnames⟩ := h.names_remove iter hlisted
  refine ⟨s', hremove, hvalid, hnamespace, ?_⟩
  rintro ⟨p, b⟩
  obtain ⟨p', b'⟩ := registration
  simp only [Lists, hnames, mem_ite_iff, Finset.mem_erase, ne_eq, Registration.mk.injEq]
  grind

end Listings

/-- A directory, and the registrations that are held. -/
structure Directory where
  listings : Listings
  live : List Registration

inductive DirectoryAct where
  | register (path : String) (iter : Iteration)
  | drop (registration : Nat) (iter : Iteration)

namespace Directory

def init (namespace_ : String) : Directory := ⟨.new namespace_, []⟩

/-- A call that panics is no step. -/
def step (s : Directory) : DirectoryAct → Option Directory
  | .register path iter => do
      let (result, listings) ← s.listings.register path iter
      some ⟨listings, s.live ++ result.toOption.join.toList⟩
  | .drop k iter => do
      let registration ← s.live[k]?
      let (_, listings) ← s.listings.remove registration iter
      some ⟨listings, s.live.eraseIdx k⟩

/-- What is listed is what is registered. -/
structure Invariant (namespace_ : Tuple) (s : Directory) : Prop where
  valid : s.listings.Valid
  same : s.listings.namespace_ = namespace_
  nodup : s.live.Nodup
  listed : ∀ registration, registration ∈ s.live ↔ s.listings.Lists registration

variable {namespace_ : Tuple} {s s' : Directory} {act : DirectoryAct}

theorem invariant_init (namespace_ : String) :
    Invariant (.fromUtf8Path namespace_) (init namespace_) where
  valid := Listings.valid_new namespace_
  same := rfl
  nodup := List.nodup_nil
  listed registration := by
    rw [Listings.Lists, Listings.names_of_none rfl]
    exact iff_of_false List.not_mem_nil (Finset.notMem_empty _)

/-- What a call of `register` does. -/
theorem Invariant.register_cases (h : Invariant namespace_ s) (path : String) (iter : Iteration) :
    (Listings.locate namespace_ path = none ∧ s.step (.register path iter) = some s) ∨
    ∃ registration, Listings.locate namespace_ path = some registration ∧
      ((registration ∈ s.live ∧
          s.listings.register path iter = some (.error .duplicate, s.listings) ∧
          s.step (.register path iter) = some s) ∨
        registration ∉ s.live ∧ ∃ listings, listings.Valid ∧
          listings.namespace_ = namespace_ ∧
          s.step (.register path iter) = some ⟨listings, s.live ++ [registration]⟩ ∧
          ∀ other, listings.Lists other ↔ s.listings.Lists other ∨ other = registration) := by
  have hsame := h.same
  subst hsame
  cases hlocate : Listings.locate s.listings.namespace_ path with
  | none =>
      refine .inl ⟨rfl, ?_⟩
      simp [step, Listings.register_outside iter hlocate, Except.toOption]
  | some registration =>
      refine .inr ⟨registration, rfl, ?_⟩
      by_cases hlive : registration ∈ s.live
      · have hcall := h.valid.register_duplicate iter hlocate ((h.listed registration).mp hlive)
        refine .inl ⟨hlive, hcall, ?_⟩
        simp [step, hcall, Except.toOption]
      · obtain ⟨listings, hcall, hvalid, hnamespace, hlists⟩ := h.valid.register iter hlocate
          (fun hlisted => hlive ((h.listed registration).mpr hlisted))
        refine .inr ⟨hlive, listings, hvalid, hnamespace, ?_, hlists⟩
        simp [step, hcall, Except.toOption]

/-- A path that is not registered is. -/
theorem Invariant.register_new (h : Invariant namespace_ s) (path : String)
    (registration : Registration) (hlocate : Listings.locate namespace_ path = some registration)
    (iter : Iteration) (hnew : registration ∉ s.live) :
    ∃ listings, s.step (.register path iter) = some ⟨listings, s.live ++ [registration]⟩ := by
  rcases h.register_cases path iter with ⟨hnone, -⟩ | ⟨other, hsome, hcases⟩
  · rw [hlocate] at hnone
    cases hnone
  · obtain rfl := Option.some.inj (hlocate.symm.trans hsome)
    rcases hcases with ⟨hlive, -⟩ | ⟨-, listings, -, -, hstep, -⟩
    · exact absurd hlive hnew
    · exact ⟨listings, hstep⟩

/-- What the drop of a registration does. -/
theorem Invariant.drop_cases (h : Invariant namespace_ s) {k : Nat} {registration : Registration}
    (hk : s.live[k]? = some registration) (iter : Iteration) :
    ∃ listings, listings.Valid ∧ listings.namespace_ = namespace_ ∧
      s.step (.drop k iter) = some ⟨listings, s.live.eraseIdx k⟩ ∧
      ∀ other, listings.Lists other ↔ s.listings.Lists other ∧ other ≠ registration := by
  obtain ⟨listings, hcall, hvalid, hnamespace, hlists⟩ := h.valid.remove iter
    ((h.listed registration).mp (List.mem_of_getElem? hk))
  refine ⟨listings, hvalid, hnamespace.trans h.same, ?_, hlists⟩
  simp [step, hk, hcall]

/-- What is left after a drop. -/
theorem Invariant.mem_eraseIdx_iff (h : Invariant namespace_ s) {k : Nat}
    {registration : Registration} (hk : s.live[k]? = some registration) (other : Registration) :
    other ∈ s.live.eraseIdx k ↔ other ∈ s.live ∧ other ≠ registration := by
  obtain ⟨hlt, rfl⟩ := List.getElem?_eq_some_iff.mp hk
  have hperm : (s.live[k] :: s.live.eraseIdx k).Perm s.live := List.getElem_cons_eraseIdx_perm hlt
  have hnotMem : s.live[k] ∉ s.live.eraseIdx k :=
    (List.nodup_cons.mp (hperm.nodup_iff.mpr h.nodup)).1
  rw [← hperm.mem_iff, List.mem_cons]
  constructor
  · intro hother
    refine ⟨.inr hother, ?_⟩
    rintro rfl
    exact hnotMem hother
  · rintro ⟨rfl | hother, hne⟩
    · exact absurd rfl hne
    · exact hother

theorem invariant_step (h : Invariant namespace_ s) (hstep : s.step act = some s') :
    Invariant namespace_ s' := by
  cases act with
  | register path iter =>
      rcases h.register_cases path iter with ⟨-, hsame⟩ | ⟨registration, -, hcases⟩
      · rw [hsame] at hstep
        cases hstep
        exact h
      · rcases hcases with ⟨-, -, hsame⟩ | ⟨hnew, listings, hvalid, hnamespace, hnext, hlists⟩
        · rw [hsame] at hstep
          cases hstep
          exact h
        · rw [hnext] at hstep
          cases hstep
          refine ⟨hvalid, hnamespace, ?_, ?_⟩
          · exact List.nodup_append.mpr ⟨h.nodup, List.nodup_singleton _, by grind⟩
          · intro other
            rw [List.mem_append, List.mem_singleton, h.listed other, hlists]
  | drop k iter =>
      obtain ⟨registration, hk, -⟩ := Option.bind_eq_some_iff.mp hstep
      obtain ⟨listings, hvalid, hnamespace, hnext, hlists⟩ := h.drop_cases hk iter
      rw [hnext] at hstep
      cases hstep
      refine ⟨hvalid, hnamespace, h.nodup.sublist (List.eraseIdx_sublist _ _), ?_⟩
      intro other
      rw [h.mem_eraseIdx_iff hk, h.listed other, hlists]

theorem invariant_of_reachable {namespace_ : String}
    (hs : Reachable step (fun _ _ => True) (init namespace_) s) :
    Invariant (.fromUtf8Path namespace_) s :=
  hs.invariant (invariant_init namespace_) fun h _ hstep => invariant_step h hstep

/-- In every order of calls and drops: the listed pairs are those of the live
registrations, no listing is empty, the tracks have the names of the listings,
a path that is registered is refused and nothing changes, and a drop removes
its own pair. No call panics. -/
theorem listings_match {namespace_ : String}
    (hs : Reachable step (fun _ _ => True) (init namespace_) s) :
    (∀ registration, s.listings.Lists registration ↔ registration ∈ s.live) ∧
    s.live.Nodup ∧
    (∀ prefix_ ∈ s.listings.active, (s.listings.names prefix_).Nonempty) ∧
    (∀ prefix_, prefix_ ∈ s.listings.active ↔ prefix_ ∈ s.listings.tracks.value) ∧
    (∀ path registration iter,
      Listings.locate (.fromUtf8Path namespace_) path = some registration →
      registration ∈ s.live →
      s.listings.register path iter = some (.error .duplicate, s.listings)) ∧
    (∀ path iter, ∃ s', s.step (.register path iter) = some s') ∧
    ∀ k registration iter, s.live[k]? = some registration →
      ∃ s', s.step (.drop k iter) = some s' ∧
        ∀ other, s'.listings.Lists other ↔ s.listings.Lists other ∧ other ≠ registration := by
  have h := invariant_of_reachable hs
  refine ⟨fun registration => (h.listed registration).symm, h.nodup, ?_, ?_, ?_, ?_, ?_⟩
  · intro prefix_ hactive
    exact h.valid.mem_active_iff.mp hactive
  · intro prefix_
    rw [h.valid.tracks]
  · intro path registration iter hlocate hlive
    rw [← h.same] at hlocate
    exact h.valid.register_duplicate iter hlocate ((h.listed registration).mp hlive)
  · intro path iter
    rcases h.register_cases path iter with ⟨-, hstep⟩ | ⟨registration, -, hcases⟩
    · exact ⟨s, hstep⟩
    · rcases hcases with ⟨-, -, hstep⟩ | ⟨-, listings, -, -, hstep, -⟩
      · exact ⟨s, hstep⟩
      · exact ⟨_, hstep⟩
  · intro k registration iter hk
    obtain ⟨listings, -, -, hstep, hlists⟩ := h.drop_cases hk iter
    exact ⟨_, hstep, hlists⟩

/-- Two paths with one prefix are registered, and the first is dropped. -/
theorem listings_match_two :
    ∃ s, Run step (fun _ _ => True) (init "live")
        [.register "/live.room.cam" .sorted, .register "/live.room.mic" .sorted,
          .drop 0 .sorted] s ∧
      s.live = [⟨".room.", "mic"⟩] ∧ s.listings.Lists ⟨".room.", "mic"⟩ ∧
      ¬ s.listings.Lists ⟨".room.", "cam"⟩ := by
  have hinit := invariant_init "live"
  obtain ⟨first, hfirst⟩ :=
    hinit.register_new "/live.room.cam" ⟨".room.", "cam"⟩ rfl .sorted (by simp [init])
  have hone := invariant_step hinit hfirst
  obtain ⟨second, hsecond⟩ :=
    hone.register_new "/live.room.mic" ⟨".room.", "mic"⟩ rfl .sorted (by simp [init])
  have htwo := invariant_step hone hsecond
  obtain ⟨third, -, -, hthird, -⟩ := htwo.drop_cases (k := 0) rfl .sorted
  have hrun : Run step (fun _ _ => True) (init "live")
      [.register "/live.room.cam" .sorted, .register "/live.room.mic" .sorted,
        .drop 0 .sorted] _ :=
    .cons trivial hfirst (.cons trivial hsecond (.cons trivial hthird .nil))
  have hlists := (listings_match (hrun.reachable .init)).1
  refine ⟨_, hrun, rfl, (hlists _).mpr (List.mem_singleton_self _), ?_⟩
  rw [hlists]
  simp [init]

end Directory

end MoqTransport.Dir
