import Mathlib.Data.Finmap

/-!
Tables of entries that come and go. Entries are listed in the order in which
they were made; a table has, under its key, the position of each entry that
is still live. So at most one entry of a key is live at a time.
-/

namespace Registry

variable {K E : Type} [DecidableEq K] {key : E → K} {live : E → Prop}

/-- The table has exactly the live entries. -/
def Consistent (key : E → K) (live : E → Prop) (table : Finmap fun _ : K => Nat)
    (entries : List E) : Prop :=
  ∀ k i, table.lookup k = some i ↔ ∃ e, entries[i]? = some e ∧ key e = k ∧ live e

variable {table : Finmap fun _ : K => Nat} {entries entries' : List E}

theorem consistent_nil : Consistent key live ∅ [] := by
  intro k i
  simp

theorem Consistent.lookup (h : Consistent key live table entries) {i : Nat} {e : E}
    (hi : entries[i]? = some e) (hlive : live e) : table.lookup (key e) = some i :=
  (h (key e) i).mpr ⟨e, hi, rfl, hlive⟩

theorem Consistent.mem_iff (h : Consistent key live table entries) (k : K) :
    k ∈ table ↔ ∃ (i : Nat) (e : E), entries[i]? = some e ∧ key e = k ∧ live e := by
  rw [Finmap.mem_iff]
  exact exists_congr fun i => h k i

/-- Entries may change in everything but their key and whether they are
live. -/
theorem Consistent.congr (h : Consistent key live table entries)
    (hview : ∀ i : Nat, (entries'[i]?).map (fun e => (key e, live e)) =
      (entries[i]?).map fun e => (key e, live e)) : Consistent key live table entries' := by
  intro k i
  have hiff (es : List E) : (∃ e, es[i]? = some e ∧ key e = k ∧ live e) ↔
      ∃ v ∈ (es[i]?).map (fun e => (key e, live e)), v.1 = k ∧ v.2 := by
    simp
  rw [h k i, hiff entries', hiff entries, hview]

theorem Consistent.set (h : Consistent key live table entries) {j : Nat} {e e' : E}
    (hj : entries[j]? = some e) (hkey : key e' = key e) (hlive : live e' ↔ live e) :
    Consistent key live table (entries.set j e') := by
  apply h.congr
  intro i
  by_cases hi : j = i
  · subst hi
    rw [List.getElem?_set_self (List.getElem?_eq_some_iff.mp hj).1, hj]
    simp [hkey, hlive]
  · rw [List.getElem?_set_ne hi]

/-- A new entry may be made where its key is not in the table. -/
theorem Consistent.register (h : Consistent key live table entries) {e : E}
    (hvacant : table.lookup (key e) = none) (hlive : live e) :
    Consistent key live (table.insert (key e) entries.length) (entries ++ [e]) := by
  intro k i
  have hnew : (entries ++ [e])[i]? = if i = entries.length then some e else entries[i]? := by
    rw [List.getElem?_append]
    grind
  rw [hnew]
  by_cases hk : k = key e
  · subst hk
    rw [Finmap.lookup_insert]
    by_cases hi : i = entries.length
    · simp [hi, hlive]
    · have hnone := (h (key e) i).not.mp (by simp [hvacant])
      simpa [hi, Ne.symm hi] using hnone
  · rw [Finmap.lookup_insert_of_ne _ hk]
    by_cases hi : i = entries.length
    · have hold : table.lookup k ≠ some i := by
        intro hlookup
        obtain ⟨e', he', -⟩ := (h k i).mp hlookup
        simp [hi] at he'
      simpa [hi, Ne.symm hk] using hi ▸ hold
    · rw [if_neg hi]
      exact h k i

/-- A new entry that is not live leaves the table as it is. -/
theorem Consistent.append (h : Consistent key live table entries) {e : E} (hdead : ¬ live e) :
    Consistent key live table (entries ++ [e]) := by
  intro k i
  rw [h k i, List.getElem?_append]
  grind

/-- An entry that is there already may become live where its key is not in the
table. -/
theorem Consistent.enlist (h : Consistent key live table entries) {j : Nat} {e e' : E}
    (hj : entries[j]? = some e) (hkey : key e' = key e) (hlive : live e')
    (hvacant : table.lookup (key e) = none) :
    Consistent key live (table.insert (key e) j) (entries.set j e') := by
  intro k i
  have hlt := (List.getElem?_eq_some_iff.mp hj).1
  by_cases hi : i = j
  · subst hi
    rw [List.getElem?_set_self hlt]
    by_cases hk : k = key e
    · subst hk
      simp [hkey, hlive]
    · rw [Finmap.lookup_insert_of_ne _ hk]
      have hold : table.lookup k ≠ some i := by
        intro hlookup
        obtain ⟨e'', he'', rfl, -⟩ := (h k i).mp hlookup
        rw [hj] at he''
        cases he''
        exact hk rfl
      simpa [hkey, Ne.symm hk] using hold
  · rw [List.getElem?_set_ne (Ne.symm hi), ← h k i]
    by_cases hk : k = key e
    · subst hk
      simp [hvacant, Ne.symm hi]
    · rw [Finmap.lookup_insert_of_ne _ hk]

/-- The entry of a key is taken out of the table, and is no longer live. -/
theorem Consistent.retire (h : Consistent key live table entries) {k : K} {f : E → E}
    (hf : ∀ e, ¬ live (f e))
    (hentries : ∀ i : Nat, entries'[i]? =
      (entries[i]?).map fun e => if table.lookup k = some i then f e else e) :
    Consistent key live (table.erase k) entries' := by
  intro k' i
  rw [hentries]
  by_cases hi : table.lookup k = some i
  · obtain ⟨e, he, rfl, -⟩ := (h k i).mp hi
    have hgone : (table.erase (key e)).lookup k' ≠ some i := by
      intro hlookup
      by_cases hk : k' = key e
      · rw [hk, Finmap.lookup_erase] at hlookup
        cases hlookup
      · rw [Finmap.lookup_erase_ne hk] at hlookup
        obtain ⟨e', he', rfl, -⟩ := (h k' i).mp hlookup
        obtain rfl : e = e' := by simpa [he] using he'
        exact hk rfl
    simp [he, hi, hgone, hf]
  · have hsame : (entries[i]?).map (fun e => if table.lookup k = some i then f e else e) =
        entries[i]? := by
      simp [hi]
    rw [hsame, ← h k' i]
    by_cases hk : k' = k
    · subst hk
      simpa using hi
    · rw [Finmap.lookup_erase_ne hk]

end Registry
