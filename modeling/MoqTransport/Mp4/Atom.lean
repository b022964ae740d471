import MoqTransport.Lib.Encoder
import MoqTransport.Lib.Splitter

/-!
MP4 atoms in a byte stream. The publisher splits what it has read so far into
atoms; the subscriber reads one atom from a stream. Both read the same header
by hand: a 32-bit size, or the size 1 and a 64-bit size behind the type.

The publisher looks for the 64-bit size without checking that it has arrived,
and panics on a buffer cut there (`nextAtom_faithful_iff`). The subscriber
loses the 64-bit size, and takes the end of its input for the end of the atom
(`readAtom_agrees_iff`).
-/

namespace MoqTransport.Mp4

open Streaming Splitter

/-- The first four bytes, as the 32-bit size of an atom. -/
def sizeWord (s : Bytes) : Nat := fromBeBytes (s.take 4)

/-- The eight bytes behind size and type, as the 64-bit size. -/
def extendedSize (s : Bytes) : Nat := fromBeBytes ((s.drop 8).take 8)

/-- The size that a complete header declares, if it is a possible one. -/
def boxSize (s : Bytes) : Option Nat :=
  if s.length < 8 then none
  else if sizeWord s = 1 then
    if s.length < 16 ∨ extendedSize s < 16 then none else some (extendedSize s)
  else if sizeWord s < 8 then none
  else some (sizeWord s)

/-- The size word announces a 64-bit size that has not arrived yet. -/
def CutHeader (s : Bytes) : Prop := 8 ≤ s.length ∧ s.length < 16 ∧ sizeWord s = 1

instance (s : Bytes) : Decidable (CutHeader s) := inferInstanceAs (Decidable (_ ∧ _ ∧ _))

/-- The size in the header, for a buffer with at least its first 8 bytes. -/
def atomSize (buf : Bytes) : Except (Fault String) Nat :=
  if sizeWord buf = 0 then
    .error (.err "TODO: unsupported EOF atom")
  else if sizeWord buf = 1 then
    if buf.length < 16 then
      .error .panic
    else if extendedSize buf < 16 then
      .error (.err ("impossible extended box size: " ++ toString (extendedSize buf)))
    else
      .ok (extendedSize buf)
  else if sizeWord buf ≤ 7 then
    .error (.err ("impossible box size: " ++ toString (sizeWord buf)))
  else
    .ok (sizeWord buf)

/-- Find the next full atom in the buffer, which is contiguous. -/
def nextAtom (buf : Bytes) : Except (Fault String) (Option (Bytes × Bytes)) :=
  if buf.length < 8 then
    .ok none
  else
    match atomSize buf with
    | .error fault => .error fault
    | .ok size =>
        if buf.length < size then .ok none else .ok (some (buf.take size, buf.drop size))

/-- What `read_to_end` appends to an atom, and what it leaves. -/
def readToEnd (raw rest : Bytes) (limit : Nat) : Bytes × Bytes :=
  (raw ++ rest.take limit, rest.drop limit)

/-- Read a full atom from a stream that ends after `s`. -/
def readAtom (s : Bytes) : Except String (Bytes × Bytes) :=
  let rest := s.drop 8
  if s.length < 8 then
    .error "early eof"
  else if sizeWord s = 0 then
    .ok (readToEnd (s.take 8) rest (2 ^ 64 - 1))
  else if sizeWord s = 1 then
    if rest.length < 8 then
      .error "early eof"
    else if extendedSize s < 16 then
      .error ("impossible extended box size: " ++ toString (extendedSize s))
    else
      .ok (readToEnd (s.take 8) (rest.drop 8) (extendedSize s - 16))
  else if sizeWord s ≤ 7 then
    .error ("impossible box size: " ++ toString (sizeWord s))
  else
    .ok (readToEnd (s.take 8) rest (sizeWord s - 8))

theorem sizeWord_append {s : Bytes} (h : 8 ≤ s.length) (t : Bytes) :
    sizeWord (s ++ t) = sizeWord s := by
  rw [sizeWord, sizeWord, List.take_append_of_le_length (by omega)]

theorem extendedSize_append {s : Bytes} (h : 16 ≤ s.length) (t : Bytes) :
    extendedSize (s ++ t) = extendedSize s := by
  rw [extendedSize, extendedSize, List.drop_append_of_le_length (by omega),
    List.take_append_of_le_length (by rw [List.length_drop]; omega)]

/-- A header says what it declares, what is impossible about it, or is cut. -/
theorem atomSize_append {buf : Bytes} {result : Except (Fault String) Nat} (h : 8 ≤ buf.length)
    (hresult : atomSize buf = result) (hpanic : result ≠ .error .panic) (t : Bytes) :
    atomSize (buf ++ t) = result := by
  subst hresult
  unfold atomSize at hpanic ⊢
  rw [sizeWord_append h]
  by_cases hextended : sizeWord buf = 1
  · have hlength : 16 ≤ buf.length := by
      by_contra hshort
      rw [if_neg (by omega), if_pos hextended, if_pos (by omega)] at hpanic
      exact hpanic rfl
    have hlength' : 16 ≤ (buf ++ t).length := by
      rw [List.length_append]
      omega
    rw [if_neg (by omega : ¬buf.length < 16), if_neg (by omega : ¬(buf ++ t).length < 16),
      extendedSize_append hlength]
  · rw [if_neg hextended, if_neg hextended]

theorem atomSize_eq_ok_iff {buf : Bytes} (h : 8 ≤ buf.length) {n : Nat} :
    atomSize buf = .ok n ↔ boxSize buf = some n := by
  unfold atomSize boxSize
  rw [if_neg (by omega : ¬buf.length < 8)]
  by_cases hextended : sizeWord buf = 1
  · rw [if_neg (by omega), if_pos hextended, if_pos hextended]
    by_cases hcut : buf.length < 16
    · simp [hcut]
    · by_cases hsmall : extendedSize buf < 16
      · simp [hcut, hsmall]
      · simp [hcut, hsmall]
  · rw [if_neg hextended, if_neg hextended]
    by_cases hzero : sizeWord buf = 0
    · simp [hzero]
    · by_cases hsmall : sizeWord buf ≤ 7
      · simp [hzero, hsmall, Nat.lt_succ_of_le hsmall]
      · simp [hzero, hsmall, Nat.lt_succ_iff]

theorem atomSize_panic_iff {buf : Bytes} :
    atomSize buf = .error .panic ↔ sizeWord buf = 1 ∧ buf.length < 16 := by
  unfold atomSize
  by_cases hextended : sizeWord buf = 1
  · rw [if_neg (by omega), if_pos hextended]
    by_cases hcut : buf.length < 16
    · simp [hcut, hextended]
    · by_cases hsmall : extendedSize buf < 16
      · simp [hcut, hsmall]
      · simp [hcut, hsmall]
  · rw [if_neg hextended]
    by_cases hzero : sizeWord buf = 0
    · simp [hzero]
    · by_cases hsmall : sizeWord buf ≤ 7
      · simp [hzero, hsmall, hextended]
      · simp [hzero, hsmall, hextended]

theorem boxSize_bounds {s : Bytes} {n : Nat} (h : boxSize s = some n) :
    8 ≤ s.length ∧ 8 ≤ n := by
  unfold boxSize at h
  split at h
  · cases h
  · next hlength =>
      refine ⟨Nat.le_of_not_lt hlength, ?_⟩
      split at h
      · split at h
        · cases h
        · next hlarge =>
            obtain rfl := Option.some.inj h
            omega
      · split at h
        · cases h
        · next hlarge =>
            obtain rfl := Option.some.inj h
            omega

theorem nextAtom_of_short {buf : Bytes} (h : buf.length < 8) : nextAtom buf = .ok none := by
  rw [nextAtom, if_pos h]

theorem nextAtom_of_error {buf : Bytes} {fault : Fault String} (h : 8 ≤ buf.length)
    (hsize : atomSize buf = .error fault) : nextAtom buf = .error fault := by
  rw [nextAtom, if_neg (by omega), hsize]

theorem nextAtom_of_size {buf : Bytes} {n : Nat} (h : boxSize buf = some n) :
    nextAtom buf =
      if buf.length < n then .ok none else .ok (some (buf.take n, buf.drop n)) := by
  obtain ⟨hlength, -⟩ := boxSize_bounds h
  rw [nextAtom, if_neg (by omega), (atomSize_eq_ok_iff hlength).mpr h]

/-- What `next_atom` can find at the front of a buffer. -/
inductive Front (buf : Bytes) : Except (Fault String) (Option (Bytes × Bytes)) → Prop where
  | short (h : buf.length < 8) : Front buf (.ok none)
  | fault {fault : Fault String} (h : 8 ≤ buf.length) (hsize : atomSize buf = .error fault) :
      Front buf (.error fault)
  | part {n : Nat} (hsize : boxSize buf = some n) (h : buf.length < n) : Front buf (.ok none)
  | atom {n : Nat} (hsize : boxSize buf = some n) (h : n ≤ buf.length) :
      Front buf (.ok (some (buf.take n, buf.drop n)))

theorem front (buf : Bytes) : Front buf (nextAtom buf) := by
  by_cases hshort : buf.length < 8
  · rw [nextAtom_of_short hshort]
    exact .short hshort
  · have hlength : 8 ≤ buf.length := Nat.le_of_not_lt hshort
    cases hsize : atomSize buf with
    | error fault =>
        rw [nextAtom_of_error hlength hsize]
        exact .fault hlength hsize
    | ok n =>
        have hbox := (atomSize_eq_ok_iff hlength).mp hsize
        rw [nextAtom_of_size hbox]
        split
        · next h => exact .part hbox h
        · next h => exact .atom hbox (Nat.le_of_not_lt h)

theorem nextAtom_eq_some_iff {buf atom rest : Bytes} :
    nextAtom buf = .ok (some (atom, rest)) ↔
      ∃ n, boxSize buf = some n ∧ n ≤ buf.length ∧ atom = buf.take n ∧ rest = buf.drop n := by
  constructor
  · intro h
    have hfront := front buf
    rw [h] at hfront
    cases hfront with
    | atom hsize hle => exact ⟨_, hsize, hle, rfl, rfl⟩
  · rintro ⟨n, hsize, hle, rfl, rfl⟩
    rw [nextAtom_of_size hsize, if_neg (by omega)]

theorem nextAtom_panic_iff {buf : Bytes} : nextAtom buf = .error .panic ↔ CutHeader buf := by
  constructor
  · intro h
    have hfront := front buf
    rw [h] at hfront
    cases hfront with
    | fault hlength hsize =>
        obtain ⟨hword, hcut⟩ := atomSize_panic_iff.mp hsize
        exact ⟨hlength, hcut, hword⟩
  · rintro ⟨hlength, hcut, hword⟩
    exact nextAtom_of_error hlength (atomSize_panic_iff.mpr ⟨hword, hcut⟩)

theorem boxSize_append {s : Bytes} {n : Nat} (h : boxSize s = some n) (t : Bytes) :
    boxSize (s ++ t) = some n := by
  obtain ⟨hlength, -⟩ := boxSize_bounds h
  have hlength' : 8 ≤ (s ++ t).length := by
    rw [List.length_append]
    omega
  rw [← atomSize_eq_ok_iff hlength'] 
  rw [← atomSize_eq_ok_iff hlength] at h
  exact atomSize_append hlength h (by simp) t

/-- What is found stays the same when more arrives, except for the panic. -/
theorem steady : Steady nextAtom (· ≠ .panic) where
  shrinks := by
    intro s atom rest h
    obtain ⟨n, hsize, hle, rfl, rfl⟩ := nextAtom_eq_some_iff.mp h
    obtain ⟨-, hpos⟩ := boxSize_bounds hsize
    rw [List.length_drop]
    omega
  item := by
    intro s atom rest h t
    obtain ⟨n, hsize, hle, rfl, rfl⟩ := nextAtom_eq_some_iff.mp h
    refine nextAtom_eq_some_iff.mpr ⟨n, boxSize_append hsize t, ?_, ?_, ?_⟩
    · rw [List.length_append]
      omega
    · rw [List.take_append_of_le_length hle]
    · rw [List.drop_append_of_le_length hle]
  fails := by
    intro s fault h hfinal t
    have hfront := front s
    rw [h] at hfront
    cases hfront with
    | fault hlength hsize =>
        refine nextAtom_of_error ?_ (atomSize_append hlength hsize (by simpa using hfinal) t)
        rw [List.length_append]
        omega

/-- An atom has the size that it declares. -/
theorem boxSize_take {s : Bytes} {n : Nat} (h : boxSize s = some n) (hle : n ≤ s.length) :
    boxSize (s.take n) = some n := by
  obtain ⟨-, hpos⟩ := boxSize_bounds h
  have hlength : (s.take n).length = n := by rw [List.length_take, Nat.min_eq_left hle]
  have hword : sizeWord (s.take n) = sizeWord s := by
    rw [← sizeWord_append (hpos.trans_eq hlength.symm) (s.drop n), List.take_append_drop]
  have hextended (hlarge : 16 ≤ n) : extendedSize (s.take n) = extendedSize s := by
    rw [← extendedSize_append (hlarge.trans_eq hlength.symm) (s.drop n), List.take_append_drop]
  unfold boxSize at h ⊢
  rw [hlength, hword]
  rw [if_neg (by omega : ¬s.length < 8)] at h
  rw [if_neg (by omega : ¬n < 8)]
  split at h
  · next hone =>
      split at h
      · cases h
      · next hsize =>
          obtain rfl := Option.some.inj h
          rw [if_pos hone, hextended (by omega), if_neg (by omega)]
  · next hone =>
      rw [if_neg hone]
      exact h

/-- One atom less, by the size it declares. -/
def Behind (s rest : Bytes) : Prop := ∃ n, boxSize s = some n ∧ n ≤ s.length ∧ rest = s.drop n

theorem cuts_iff_behind {s rest : Bytes} : Cuts nextAtom s rest ↔ Behind s rest := by
  constructor
  · rintro ⟨atom, h⟩
    obtain ⟨n, hsize, hle, -, hrest⟩ := nextAtom_eq_some_iff.mp h
    exact ⟨n, hsize, hle, hrest⟩
  · rintro ⟨n, hsize, hle, rfl⟩
    exact ⟨s.take n, nextAtom_eq_some_iff.mpr ⟨n, hsize, hle, rfl, rfl⟩⟩

/-- Splitting after every piece gives what splitting the whole gives, without
a panic, and nothing is lost. -/
structure Faithful (pieces : List Bytes) : Prop where
  total : (feed nextAtom [] pieces).failed ≠ some .panic
  same : feed nextAtom [] pieces = split nextAtom pieces.flatten
  sizes : ∀ atom ∈ (feed nextAtom [] pieces).items, boxSize atom = some atom.length
  whole : (feed nextAtom [] pieces).items.flatten ++ (feed nextAtom [] pieces).rest =
    pieces.flatten

theorem faithful_of_total {pieces : List Bytes}
    (htotal : (feed nextAtom [] pieces).failed ≠ some .panic) : Faithful pieces := by
  have hsame : feed nextAtom [] pieces = split nextAtom pieces.flatten := by
    apply steady.feed_eq rfl
    rintro _ hfailed rfl
    exact htotal hfailed
  have hsplits := steady.splits pieces.flatten
  refine ⟨htotal, hsame, ?_, ?_⟩
  · intro atom hatom
    rw [hsame] at hatom
    obtain ⟨buffer, rest, h⟩ := hsplits.mem_items hatom
    obtain ⟨n, hsize, hle, rfl, -⟩ := nextAtom_eq_some_iff.mp h
    rw [boxSize_take hsize hle, List.length_take, Nat.min_eq_left hle]
  · rw [hsame, ← List.flatMap_id']
    apply hsplits.flatten
    intro s atom rest h
    obtain ⟨n, -, -, rfl, rfl⟩ := nextAtom_eq_some_iff.mp h
    exact (List.take_append_drop n s).symm

/-- However the input is cut, the atoms are those of the whole, exactly if no
cut leaves 8 to 15 bytes of a header with a 64-bit size behind the complete
atoms before it. -/
theorem nextAtom_faithful_iff (pieces : List Bytes) :
    Faithful pieces ↔ ∀ begun, begun <+: pieces → ∀ rest,
      Relation.ReflTransGen Behind begun.flatten rest → ¬ CutHeader rest := by
  have hcuts : Cuts nextAtom = Behind := by
    funext s rest
    exact propext cuts_iff_behind
  have hpanics (begun : List Bytes) : (split nextAtom begun.flatten).failed = some .panic ↔
      ∃ rest, Relation.ReflTransGen Behind begun.flatten rest ∧ CutHeader rest := by
    rw [(steady.splits begun.flatten).failed_iff, hcuts]
    exact exists_congr fun rest => and_congr_right fun _ => nextAtom_panic_iff
  have hfinal : (∀ e, (feed nextAtom [] pieces).failed = some e → e ≠ .panic) ↔
      ∀ begun, begun <+: pieces → ∀ e, (split nextAtom begun.flatten).failed = some e →
        e ≠ .panic :=
    steady.feed_final_iff rfl
  constructor
  · intro h begun hbegun rest hrest hcut
    have hnone := hfinal.mp (by rintro _ hfailed rfl; exact h.total hfailed)
    exact hnone begun hbegun .panic ((hpanics begun).mpr ⟨rest, hrest, hcut⟩) rfl
  · intro hall
    apply faithful_of_total
    intro hpanic
    refine hfinal.mpr ?_ .panic hpanic rfl
    rintro begun hbegun _ hfailed rfl
    obtain ⟨rest, hrest, hcut⟩ := (hpanics begun).mp hfailed
    exact hall begun hbegun rest hrest hcut

/-- A box with a 64-bit size, cut behind its type. -/
theorem not_faithful_cut_header :
    ¬ Faithful [[0, 0, 0, 1, 109, 100, 97, 116], [0, 0, 0, 0, 0, 0, 0, 16]] := by
  intro h
  have hpanics : (feed nextAtom []
      [[0, 0, 0, 1, 109, 100, 97, 116], [0, 0, 0, 0, 0, 0, 0, 16]]).failed = some .panic := by
    decide
  exact h.total hpanics

/-- The input ends in its header, or before the size that the header
declares. -/
def Truncated (s : Bytes) : Prop :=
  s.length < 8 ∨ CutHeader s ∨ ∃ n, boxSize s = some n ∧ s.length < n

/-- The reader returns the atom that the publisher finds, and an error on input
that is too short for one. -/
structure Agrees (s : Bytes) : Prop where
  atom : ∀ atom rest, nextAtom s = .ok (some (atom, rest)) → readAtom s = .ok (atom, rest)
  truncated : Truncated s → ∃ err, readAtom s = .error err

theorem readAtom_of_short {s : Bytes} (h : s.length < 8 ∨ CutHeader s) :
    readAtom s = .error "early eof" := by
  unfold readAtom
  rcases h with hshort | ⟨hlength, hcut, hword⟩
  · rw [if_pos hshort]
  · rw [if_neg (by omega), if_neg (by omega), if_pos hword, if_pos]
    rw [List.length_drop]
    omega

/-- With a 32-bit size the reader takes what there is of the atom. -/
theorem readAtom_of_word {s : Bytes} {n : Nat} (hsize : boxSize s = some n)
    (hword : sizeWord s ≠ 1) : readAtom s = .ok (s.take n, s.drop n) := by
  obtain ⟨hlength, hpos⟩ := boxSize_bounds hsize
  obtain rfl : n = sizeWord s := by
    have hok := (atomSize_eq_ok_iff hlength).mpr hsize
    unfold atomSize at hok
    rw [if_neg hword] at hok
    split at hok
    · cases hok
    · split at hok
      · cases hok
      · exact (Except.ok.inj hok).symm
  unfold readAtom
  rw [if_neg (by omega), if_neg (by omega), if_neg hword, if_neg (by omega), readToEnd]
  rw [List.drop_drop, ← List.take_add, Nat.add_sub_cancel' hpos]

/-- With a 64-bit size the bytes of that size are missing. -/
theorem readAtom_of_extended {s : Bytes} {n : Nat} (hsize : boxSize s = some n)
    (hword : sizeWord s = 1) :
    16 ≤ n ∧ readAtom s = .ok (readToEnd (s.take 8) (s.drop 16) (n - 16)) := by
  obtain ⟨hlength, -⟩ := boxSize_bounds hsize
  unfold boxSize at hsize
  rw [if_neg (by omega), if_pos hword] at hsize
  split at hsize
  · cases hsize
  · next hlarge =>
      obtain rfl := Option.some.inj hsize
      push Not at hlarge
      refine ⟨hlarge.2, ?_⟩
      have hrest : 8 ≤ (s.drop 8).length := by
        rw [List.length_drop]
        omega
      unfold readAtom
      rw [if_neg (by omega), if_neg (by omega), if_pos hword, if_neg (by omega),
        if_neg (by omega), List.drop_drop]

/-- The reader agrees with the publisher exactly on input that does not begin
with a valid header, or that has a 32-bit size and is complete. -/
theorem readAtom_agrees_iff (s : Bytes) :
    Agrees s ↔ ∀ n, boxSize s = some n → sizeWord s ≠ 1 ∧ n ≤ s.length := by
  constructor
  · intro h n hsize
    have hle : n ≤ s.length := by
      by_contra hlt
      obtain ⟨err, herr⟩ := h.truncated (.inr (.inr ⟨n, hsize, Nat.lt_of_not_le hlt⟩))
      by_cases hword : sizeWord s = 1
      · rw [(readAtom_of_extended hsize hword).2] at herr
        cases herr
      · rw [readAtom_of_word hsize hword] at herr
        cases herr
    refine ⟨?_, hle⟩
    intro hword
    obtain ⟨hlarge, hread⟩ := readAtom_of_extended hsize hword
    have hsame := h.atom _ _ (nextAtom_eq_some_iff.mpr ⟨n, hsize, hle, rfl, rfl⟩)
    rw [hread] at hsame
    have hlength := congrArg List.length (Prod.mk.inj (Except.ok.inj hsame)).1
    simp only [List.length_append, List.length_take, List.length_drop] at hlength
    omega
  · intro h
    constructor
    · intro atom rest hatom
      obtain ⟨n, hsize, -, rfl, rfl⟩ := nextAtom_eq_some_iff.mp hatom
      exact readAtom_of_word hsize (h n hsize).1
    · rintro (hshort | hcut | ⟨n, hsize, hlt⟩)
      · exact ⟨_, readAtom_of_short (.inl hshort)⟩
      · exact ⟨_, readAtom_of_short (.inr hcut)⟩
      · exact absurd (h n hsize).2 (Nat.not_le_of_lt hlt)

/-- An empty box with a 64-bit size. -/
theorem not_agrees_extended :
    ¬ Agrees [0, 0, 0, 1, 109, 100, 97, 116, 0, 0, 0, 0, 0, 0, 0, 16] := by
  intro h
  have hnext : nextAtom [0, 0, 0, 1, 109, 100, 97, 116, 0, 0, 0, 0, 0, 0, 0, 16] =
      .ok (some ([0, 0, 0, 1, 109, 100, 97, 116, 0, 0, 0, 0, 0, 0, 0, 16], [])) := by
    decide
  have hread := h.atom _ _ hnext
  revert hread
  decide

/-- Half a box is returned like a whole one. -/
example : readAtom [0, 0, 0, 12, 109, 100, 97, 116, 7] =
    .ok ([0, 0, 0, 12, 109, 100, 97, 116, 7], []) := by
  decide

end MoqTransport.Mp4
