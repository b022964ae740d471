import Mathlib.Logic.Relation

/-!
Splitting a growing buffer into items. `next` looks for an item at the front of
the buffer: there is one, or not yet, or the buffer cannot be split. A buffer
that is fed piece by piece, and split after each piece as far as it goes, is
split like the whole (`Steady.feed_eq`), as long as what `next` says of a
buffer stays true of a longer one.
-/

namespace Splitter

variable {α I E : Type}

abbrev Next (α I E : Type) := List α → Except E (Option (I × List α))

/-- The items split off, what is left, and why it stopped there if that was a
failure. -/
structure Split (α I E : Type) where
  items : List I
  rest : List α
  failed : Option E
deriving DecidableEq

def Split.append (first second : Split α I E) : Split α I E :=
  ⟨first.items ++ second.items, second.rest, second.failed⟩

def splitFuel (next : Next α I E) : Nat → List α → Split α I E
  | 0, s => ⟨[], s, none⟩
  | fuel + 1, s =>
      match next s with
      | .error e => ⟨[], s, some e⟩
      | .ok none => ⟨[], s, none⟩
      | .ok (some (item, rest)) => Split.append ⟨[item], rest, none⟩ (splitFuel next fuel rest)

/-- Call `next` until it finds no more. Every item shortens the buffer. -/
def split (next : Next α I E) (s : List α) : Split α I E := splitFuel next (s.length + 1) s

/-- Append the pieces one after the other and split after each. What a failure
leaves comes before the pieces that were not appended. -/
def feed (next : Next α I E) : List α → List (List α) → Split α I E
  | s, [] => ⟨[], s, none⟩
  | s, piece :: pieces =>
      let first := split next (s ++ piece)
      match first.failed with
      | some _ => { first with rest := first.rest ++ pieces.flatten }
      | none => first.append (feed next first.rest pieces)

/-- The same as a derivation, one rule for each answer of `next`. -/
inductive Splits (next : Next α I E) : List α → Split α I E → Prop where
  | stop {s : List α} (h : next s = .ok none) : Splits next s ⟨[], s, none⟩
  | fail {s : List α} {e : E} (h : next s = .error e) : Splits next s ⟨[], s, some e⟩
  | item {s rest : List α} {item : I} {more : Split α I E}
      (h : next s = .ok (some (item, rest))) (hmore : Splits next rest more) :
      Splits next s (Split.append ⟨[item], rest, none⟩ more)

/-- What `next` says stays true when more is appended, except for failures that
are not `final`. -/
structure Steady (next : Next α I E) (final : E → Prop) : Prop where
  shrinks : ∀ {s item rest}, next s = .ok (some (item, rest)) → rest.length < s.length
  item : ∀ {s item rest}, next s = .ok (some (item, rest)) → ∀ t,
    next (s ++ t) = .ok (some (item, rest ++ t))
  fails : ∀ {s e}, next s = .error e → final e → ∀ t, next (s ++ t) = .error e

/-- One item less in the buffer. -/
def Cuts (next : Next α I E) (s rest : List α) : Prop := ∃ item, next s = .ok (some (item, rest))

variable {next : Next α I E} {s : List α} {result : Split α I E}

theorem feed_of_failed {piece : List α} {e : E} (h : (split next (s ++ piece)).failed = some e)
    (pieces : List (List α)) :
    feed next s (piece :: pieces) =
      { split next (s ++ piece) with
        rest := (split next (s ++ piece)).rest ++ pieces.flatten } := by
  simp only [feed, h]

theorem feed_of_none {piece : List α} (h : (split next (s ++ piece)).failed = none)
    (pieces : List (List α)) :
    feed next s (piece :: pieces) =
      (split next (s ++ piece)).append (feed next (split next (s ++ piece)).rest pieces) := by
  simp only [feed, h]

theorem Splits.unique {other : Split α I E} (h : Splits next s result)
    (hother : Splits next s other) : result = other := by
  induction h generalizing other with
  | stop hnext =>
      cases hother with
      | stop => rfl
      | fail h => cases hnext.symm.trans h
      | item h => cases hnext.symm.trans h
  | fail hnext =>
      cases hother with
      | stop h => cases hnext.symm.trans h
      | fail h =>
          cases hnext.symm.trans h
          rfl
      | item h => cases hnext.symm.trans h
  | item hnext _ ih =>
      cases hother with
      | stop h => cases hnext.symm.trans h
      | fail h => cases hnext.symm.trans h
      | item h hmore =>
          cases hnext.symm.trans h
          rw [ih hmore]

theorem Splits.next_rest (h : Splits next s result) (hnone : result.failed = none) :
    next result.rest = .ok none := by
  induction h with
  | stop hnext => exact hnext
  | fail => cases hnone
  | item _ _ ih => exact ih hnone

/-- Where a failure comes from. -/
theorem Splits.failed_iff {e : E} (h : Splits next s result) :
    result.failed = some e ↔
      ∃ rest, Relation.ReflTransGen (Cuts next) s rest ∧ next rest = .error e := by
  induction h with
  | @stop s hnext =>
      refine iff_of_false (by simp) ?_
      rintro ⟨rest, hcuts, herror⟩
      rcases hcuts.cases_head with rfl | ⟨mid, ⟨item, hitem⟩, -⟩
      · cases hnext.symm.trans herror
      · cases hnext.symm.trans hitem
  | @fail s first hnext =>
      constructor
      · rintro ⟨⟩
        exact ⟨s, .refl, hnext⟩
      · rintro ⟨rest, hcuts, herror⟩
        rcases hcuts.cases_head with rfl | ⟨mid, ⟨item, hitem⟩, -⟩
        · cases hnext.symm.trans herror
          rfl
        · cases hnext.symm.trans hitem
  | @item s rest item more hnext _ ih =>
      change more.failed = some e ↔ _
      rw [ih]
      constructor
      · rintro ⟨last, hcuts, herror⟩
        exact ⟨last, .head ⟨item, hnext⟩ hcuts, herror⟩
      · rintro ⟨last, hcuts, herror⟩
        rcases hcuts.cases_head with rfl | ⟨mid, ⟨item', hitem⟩, hcuts⟩
        · cases hnext.symm.trans herror
        · cases hnext.symm.trans hitem
          exact ⟨last, hcuts, herror⟩

/-- Items that are parts of the buffer make it up, with what is left. -/
theorem Splits.flatten {spell : I → List α}
    (hspell : ∀ {s item rest}, next s = .ok (some (item, rest)) → s = spell item ++ rest)
    (h : Splits next s result) : result.items.flatMap spell ++ result.rest = s := by
  induction h with
  | stop => rfl
  | fail => rfl
  | item hnext _ ih =>
      rw [Split.append, List.flatMap_append, List.append_assoc, ih, hspell hnext]
      simp

theorem Splits.mem_items {item : I} (h : Splits next s result) (hitem : item ∈ result.items) :
    ∃ buffer rest, next buffer = .ok (some (item, rest)) := by
  induction h with
  | stop => cases hitem
  | fail => cases hitem
  | item hnext _ ih =>
      rcases List.mem_cons.mp hitem with rfl | hmore
      · exact ⟨_, _, hnext⟩
      · exact ih hmore

section Steady

variable {final : E → Prop} (hsteady : Steady next final)
include hsteady

theorem Steady.splits_fuel {fuel : Nat} (hfuel : s.length < fuel) :
    Splits next s (splitFuel next fuel s) := by
  induction fuel generalizing s with
  | zero => exact absurd hfuel (Nat.not_lt_zero _)
  | succ fuel ih =>
      unfold splitFuel
      split
      · next e h => exact .fail h
      · next h => exact .stop h
      · next item rest h =>
          have hshort := hsteady.shrinks h
          exact .item h (ih (by omega))

theorem Steady.splits (s : List α) : Splits next s (split next s) :=
  hsteady.splits_fuel (Nat.lt_succ_self _)

theorem Steady.splits_append (h : Splits next s result) {t : List α} {more : Split α I E}
    (hnone : result.failed = none) (hmore : Splits next (result.rest ++ t) more) :
    Splits next (s ++ t) (result.append more) := by
  induction h with
  | stop => exact hmore
  | fail => cases hnone
  | item hnext _ ih => exact .item (hsteady.item hnext t) (ih hnone hmore)

theorem Steady.splits_failed {e : E} (h : Splits next s result) (hfailed : result.failed = some e)
    (hfinal : final e) (t : List α) :
    Splits next (s ++ t) { result with rest := result.rest ++ t } := by
  induction h with
  | stop => cases hfailed
  | fail hnext =>
      cases hfailed
      exact .fail (hsteady.fails hnext hfinal t)
  | item hnext _ ih => exact .item (hsteady.item hnext t) (ih hfailed)

theorem Steady.split_idle (hidle : next s = .ok none) : split next s = ⟨[], s, none⟩ :=
  (hsteady.splits s).unique (.stop hidle)

/-- Splitting goes on where it stopped. -/
theorem Steady.split_append (hnone : (split next s).failed = none) (t : List α) :
    split next (s ++ t) = (split next s).append (split next ((split next s).rest ++ t)) :=
  (hsteady.splits _).unique (hsteady.splits_append (hsteady.splits s) hnone (hsteady.splits _))

/-- After a final failure more input is left as it is. -/
theorem Steady.split_failed {e : E} (hfailed : (split next s).failed = some e) (hfinal : final e)
    (t : List α) :
    split next (s ++ t) = { split next s with rest := (split next s).rest ++ t } :=
  (hsteady.splits _).unique (hsteady.splits_failed (hsteady.splits s) hfailed hfinal t)

/-- A buffer that grows piece by piece is split like the whole. -/
theorem Steady.feed_eq {pieces : List (List α)} (hidle : next s = .ok none)
    (hfinal : ∀ e, (feed next s pieces).failed = some e → final e) :
    feed next s pieces = split next (s ++ pieces.flatten) := by
  induction pieces generalizing s with
  | nil =>
      rw [List.flatten_nil, List.append_nil, hsteady.split_idle hidle]
      rfl
  | cons piece pieces ih =>
      rw [List.flatten_cons, ← List.append_assoc]
      cases hfailed : (split next (s ++ piece)).failed with
      | some e =>
          rw [feed_of_failed hfailed] at hfinal ⊢
          exact (hsteady.split_failed hfailed (hfinal e hfailed) _).symm
      | none =>
          rw [feed_of_none hfailed] at hfinal ⊢
          rw [ih ((hsteady.splits _).next_rest hfailed) hfinal]
          exact (hsteady.split_append hfailed _).symm

/-- The feeding ends in a failure that is not final exactly if the pieces up to
some point do. -/
theorem Steady.feed_final_iff {pieces : List (List α)} (hidle : next s = .ok none) :
    (∀ e, (feed next s pieces).failed = some e → final e) ↔
      ∀ begun, begun <+: pieces → ∀ e,
        (split next (s ++ begun.flatten)).failed = some e → final e := by
  have hnil {s : List α} (hidle : next s = .ok none) (e : E) :
      (split next (s ++ [].flatten)).failed ≠ some e := by
    rw [List.flatten_nil, List.append_nil, hsteady.split_idle hidle]
    exact (Option.some_ne_none e).symm
  induction pieces generalizing s with
  | nil =>
      refine iff_of_true ?_ ?_
      · intro e h
        cases h
      · intro begun hbegun e h
        rw [List.prefix_nil.mp hbegun] at h
        exact absurd h (hnil hidle e)
  | cons piece pieces ih =>
      cases hfailed : (split next (s ++ piece)).failed with
      | some e =>
          rw [feed_of_failed hfailed]
          constructor
          · intro hfinal begun hbegun e' h
            cases begun with
            | nil => exact absurd h (hnil hidle e')
            | cons first begun =>
                obtain ⟨rfl, -⟩ := List.cons_prefix_cons.mp hbegun
                rw [List.flatten_cons, ← List.append_assoc,
                  hsteady.split_failed hfailed (hfinal e hfailed)] at h
                exact hfinal e' h
          · intro hall
            have hsingle := hall [piece] (List.cons_prefix_cons.mpr ⟨rfl, List.nil_prefix⟩)
            rw [List.flatten_singleton] at hsingle
            exact hsingle
      | none =>
          rw [feed_of_none hfailed]
          change (∀ e, (feed next _ pieces).failed = some e → final e) ↔ _
          refine (ih ((hsteady.splits _).next_rest hfailed)).trans ?_
          constructor
          · intro hall begun hbegun e h
            cases begun with
            | nil => exact absurd h (hnil hidle e)
            | cons first begun =>
                obtain ⟨rfl, hmore⟩ := List.cons_prefix_cons.mp hbegun
                rw [List.flatten_cons, ← List.append_assoc, hsteady.split_append hfailed] at h
                exact hall begun hmore e h
          · intro hall begun hbegun e h
            apply hall (piece :: begun) (List.cons_prefix_cons.mpr ⟨rfl, hbegun⟩) e
            rw [List.flatten_cons, ← List.append_assoc, hsteady.split_append hfailed]
            exact h

end Steady

end Splitter
