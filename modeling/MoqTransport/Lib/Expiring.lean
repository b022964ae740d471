import Mathlib.Data.Finmap

/-!
Key-value stores whose entries expire, with the commands of such a store. An
entry counts only before its deadline, whether or not it has been removed. A
value is leased until some time if nothing but its removal can take it away
before.
-/

namespace Expiring

/-- The clock, and the entries with their deadlines. -/
structure Store (K V : Type) where
  now : Nat
  entries : Finmap fun _ : K => V × Nat

namespace Store

variable {K V : Type} [DecidableEq K]

/-- The value and the deadline of a key. -/
def entry (s : Store K V) (k : K) : Option (V × Nat) :=
  (s.entries.lookup k).filter fun e => s.now < e.2

def get (s : Store K V) (k : K) : Option V := (s.entry k).map Prod.fst

/-- Give a value to a key that has none. Says whether it did. -/
def setNx (s : Store K V) (k : K) (v : V) (ttl : Nat) : Store K V × Bool :=
  match s.entry k with
  | some _ => (s, false)
  | none => ({ s with entries := s.entries.insert k (v, s.now + ttl) }, true)

/-- Remove a key. Says whether there was a value. -/
def del (s : Store K V) (k : K) : Store K V × Bool :=
  ({ s with entries := s.entries.erase k }, (s.entry k).isSome)

/-- Set the deadline of a key. Says whether there was a value. -/
def expire (s : Store K V) (k : K) (ttl : Nat) : Store K V × Bool :=
  match s.entry k with
  | some (v, _) => ({ s with entries := s.entries.insert k (v, s.now + ttl) }, true)
  | none => (s, false)

def tick (s : Store K V) (d : Nat) : Store K V := { s with now := s.now + d }

variable {s : Store K V} {k k' : K} {v : V} {ttl : Nat}

@[simp] theorem now_setNx : (s.setNx k v ttl).1.now = s.now := by
  unfold setNx
  split <;> rfl

@[simp] theorem now_del : (s.del k).1.now = s.now := rfl

@[simp] theorem now_expire : (s.expire k ttl).1.now = s.now := by
  unfold expire
  split <;> rfl

omit [DecidableEq K] in
@[simp] theorem now_tick (d : Nat) : (s.tick d).now = s.now + d := rfl

theorem entry_setNx_of_ne (h : k' ≠ k) : (s.setNx k v ttl).1.entry k' = s.entry k' := by
  unfold setNx
  split
  · rfl
  · simp [entry, Finmap.lookup_insert_of_ne _ h]

theorem entry_setNx_of_some {e : V × Nat} (he : s.entry k' = some e) :
    (s.setNx k v ttl).1.entry k' = some e := by
  by_cases h : k' = k
  · subst h
    simp [setNx, he]
  · rw [entry_setNx_of_ne h, he]

theorem entry_setNx_of_none (he : s.entry k = none) (httl : 0 < ttl) :
    (s.setNx k v ttl).1.entry k = some (v, s.now + ttl) := by
  unfold setNx
  rw [he]
  simp [entry, Option.filter, httl]

theorem snd_setNx : (s.setNx k v ttl).2 = (s.entry k).isNone := by
  unfold setNx
  split <;> simp [*]

@[simp] theorem entry_del_self : (s.del k).1.entry k = none := by
  simp [del, entry]

theorem entry_del_of_ne (h : k' ≠ k) : (s.del k).1.entry k' = s.entry k' := by
  simp [del, entry, Finmap.lookup_erase_ne h]

theorem entry_expire_of_ne (h : k' ≠ k) : (s.expire k ttl).1.entry k' = s.entry k' := by
  unfold expire
  split
  · simp [entry, Finmap.lookup_insert_of_ne _ h]
  · rfl

theorem entry_expire_self {d : Nat} (he : s.entry k = some (v, d)) (httl : 0 < ttl) :
    (s.expire k ttl).1.entry k = some (v, s.now + ttl) := by
  unfold expire
  rw [he]
  simp [entry, Option.filter, httl]

theorem entry_eq_some_iff {e : V × Nat} :
    s.entry k = some e ↔ s.entries.lookup k = some e ∧ s.now < e.2 := by
  simp [entry, Option.filter_eq_some_iff]

theorem entry_tick {e : V × Nat} {d : Nat} :
    (s.tick d).entry k = some e ↔ s.entry k = some e ∧ s.now + d < e.2 := by
  rw [entry_eq_some_iff, entry_eq_some_iff, now_tick]
  constructor
  · rintro ⟨hlookup, hlt⟩
    exact ⟨⟨hlookup, by omega⟩, hlt⟩
  · rintro ⟨⟨hlookup, -⟩, hlt⟩
    exact ⟨hlookup, hlt⟩

theorem get_eq_none_iff : s.get k = none ↔ s.entry k = none := by
  simp [get]

theorem get_eq_some_iff : s.get k = some v ↔ ∃ d, s.entry k = some (v, d) := by
  simp [get]

theorem get_setNx_of_some {v' : V} (h : s.get k = some v) :
    (s.setNx k' v' ttl).1.get k = some v := by
  obtain ⟨d, he⟩ := get_eq_some_iff.mp h
  exact get_eq_some_iff.mpr ⟨d, entry_setNx_of_some he⟩

theorem get_setNx_self (httl : 0 < ttl) (h : (s.setNx k v ttl).2 = true) :
    (s.setNx k v ttl).1.get k = some v := by
  rw [snd_setNx, Option.isNone_iff_eq_none] at h
  exact get_eq_some_iff.mpr ⟨_, entry_setNx_of_none h httl⟩

theorem get_of_setNx (h : (s.setNx k v ttl).2 = false) : ∃ v', s.get k = some v' := by
  rw [snd_setNx, Option.isNone_eq_false_iff, Option.isSome_iff_exists] at h
  obtain ⟨e, he⟩ := h
  exact ⟨e.1, get_eq_some_iff.mpr ⟨e.2, he⟩⟩

theorem setNx_of_get {v' : V} (h : s.get k = some v') : s.setNx k v ttl = (s, false) := by
  obtain ⟨d, he⟩ := get_eq_some_iff.mp h
  simp [setNx, he]

theorem get_del_of_ne (h : k' ≠ k) : (s.del k).1.get k' = s.get k' := by
  rw [get, get, entry_del_of_ne h]

theorem get_expire_of_some (httl : 0 < ttl) (h : s.get k = some v) :
    (s.expire k' ttl).1.get k = some v := by
  obtain ⟨d, he⟩ := get_eq_some_iff.mp h
  by_cases hk : k = k'
  · subst hk
    exact get_eq_some_iff.mpr ⟨_, entry_expire_self he httl⟩
  · exact get_eq_some_iff.mpr ⟨d, by rw [entry_expire_of_ne hk, he]⟩

/-- Time changes no value. -/
theorem get_of_tick {d : Nat} (h : (s.tick d).get k = some v) : s.get k = some v := by
  obtain ⟨stop, he⟩ := get_eq_some_iff.mp h
  exact get_eq_some_iff.mpr ⟨stop, (entry_tick.mp he).1⟩

/-- An entry is there only before its deadline. -/
theorem lt_of_entry {d : Nat} (he : s.entry k = some (v, d)) : s.now < d :=
  (entry_eq_some_iff.mp he).2

/-- The key keeps the value until the given time, if it is not removed. -/
def Leased (s : Store K V) (k : K) (v : V) (stop : Nat) : Prop :=
  s.now < stop → ∃ d, stop ≤ d ∧ s.entry k = some (v, d)

variable {stop : Nat}

theorem Leased.get (h : s.Leased k v stop) (hnow : s.now < stop) : s.get k = some v := by
  obtain ⟨d, -, he⟩ := h hnow
  exact get_eq_some_iff.mpr ⟨d, he⟩

theorem Leased.setNx {v' : V} (h : s.Leased k v stop) :
    (s.setNx k' v' ttl).1.Leased k v stop := by
  intro hnow
  rw [now_setNx] at hnow
  obtain ⟨d, hd, he⟩ := h hnow
  exact ⟨d, hd, entry_setNx_of_some he⟩

theorem Leased.del (h : s.Leased k v stop) (hk : k ≠ k') :
    (s.del k').1.Leased k v stop := by
  intro hnow
  rw [entry_del_of_ne hk]
  exact h hnow

/-- A deadline may be moved as long as it stays behind the lease. -/
theorem Leased.expire (h : s.Leased k v stop) (httl : stop ≤ s.now + ttl) :
    (s.expire k' ttl).1.Leased k v stop := by
  intro hnow
  rw [now_expire] at hnow
  obtain ⟨d, hd, he⟩ := h hnow
  by_cases hk : k = k'
  · subst hk
    exact ⟨s.now + ttl, httl, entry_expire_self he (by omega)⟩
  · exact ⟨d, hd, by rw [entry_expire_of_ne hk, he]⟩

theorem Leased.tick {d : Nat} (h : s.Leased k v stop) : (s.tick d).Leased k v stop := by
  intro hnow
  rw [now_tick] at hnow
  obtain ⟨deadline, hd, he⟩ := h (by omega)
  exact ⟨deadline, hd, entry_tick.mpr ⟨he, by omega⟩⟩

end Store

end Expiring
