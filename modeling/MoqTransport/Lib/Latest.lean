import Mathlib.Data.List.Nodup
import Mathlib.Order.Bounds.Basic

/-!
A slot for the greatest value published so far, with a version that counts its
changes. Followers compare versions: one that is behind takes what the slot
holds and skips what it has missed. What a follower hears is strictly
increasing, and it is behind exactly while it has not heard the greatest.
-/

namespace Latest

variable {K : Type} [LinearOrder K]

structure Slot (K : Type) where
  latest : Option K
  version : Nat

/-- What a follower has heard, and the version of it. -/
structure Follower (K : Type) where
  version : Nat
  heard : List K

def Slot.publish (slot : Slot K) (k : K) : Slot K := ⟨some k, slot.version + 1⟩

def Follower.read (f : Follower K) (slot : Slot K) : Follower K :=
  if f.version = slot.version then f else ⟨slot.version, f.heard ++ slot.latest.toList⟩

/-- The slot holds the greatest of the published values. -/
structure Slot.Holds (slot : Slot K) (published : List K) : Prop where
  greatest : ∀ k ∈ slot.latest, IsGreatest {x | x ∈ published} k
  empty : slot.latest = none → published = []
  version : slot.version = 0 ↔ slot.latest = none

namespace Slot.Holds

variable {slot : Slot K} {published : List K} {k : K}

theorem publish (hslot : slot.Holds published) (hnew : ∀ latest ∈ slot.latest, latest < k) :
    (slot.publish k).Holds (published ++ [k]) where
  greatest := by
    rintro _ ⟨⟩
    constructor
    · simp
    · intro x hx
      rcases List.mem_append.mp hx with hold | hlast
      · cases hlatest : slot.latest with
        | none => simp [hslot.empty hlatest] at hold
        | some latest =>
            obtain ⟨-, hbound⟩ := hslot.greatest latest hlatest
            exact (hbound hold).trans (hnew latest hlatest).le
      · exact (List.mem_singleton.mp hlast).le
  empty := by
    intro hnone
    cases hnone
  version := by simp [Slot.publish]

/-- A value below the greatest does not reach the slot. -/
theorem older (hslot : slot.Holds published) {latest : K} (hlatest : latest ∈ slot.latest)
    (hle : k ≤ latest) : slot.Holds (published ++ [k]) where
  greatest := by
    intro x hx
    obtain rfl : x = latest := Option.mem_unique hx hlatest
    obtain ⟨hmem, hbound⟩ := hslot.greatest x hx
    constructor
    · exact List.mem_append_left _ hmem
    · intro y hy
      rcases List.mem_append.mp hy with hold | hlast
      · exact hbound hold
      · exact (List.mem_singleton.mp hlast).le.trans hle
  empty := by
    intro hnone
    rw [Option.mem_def, hnone] at hlatest
    cases hlatest
  version := hslot.version

theorem latest_eq (hslot : slot.Holds published) (hk : IsGreatest {x | x ∈ published} k) :
    slot.latest = some k := by
  cases hlatest : slot.latest with
  | none =>
      have hmem : k ∈ published := hk.1
      rw [hslot.empty hlatest] at hmem
      cases hmem
  | some latest => rw [(hslot.greatest latest hlatest).unique hk]

theorem latest_eq_iff (hslot : slot.Holds published) :
    slot.latest = some k ↔ IsGreatest {x | x ∈ published} k :=
  ⟨hslot.greatest k, hslot.latest_eq⟩

end Slot.Holds

/-- A follower that is behind has heard only what is below the latest; one
that is not has heard the latest last. -/
structure Follower.Follows (f : Follower K) (slot : Slot K) : Prop where
  increasing : f.heard.Pairwise (· < ·)
  version : f.version ≤ slot.version
  behind : f.version < slot.version → ∀ latest ∈ slot.latest, ∀ x ∈ f.heard, x < latest
  current : f.version = slot.version → f.heard.getLast? = slot.latest

namespace Follower.Follows

variable {f : Follower K} {slot : Slot K} {k : K}

theorem fresh {published : List K} (hslot : slot.Holds published) :
    Follower.Follows ⟨0, []⟩ slot where
  increasing := .nil
  version := Nat.zero_le _
  behind := by
    intro _ _ _ x hx
    cases hx
  current := by
    intro hzero
    rw [hslot.version.mp hzero.symm]
    rfl

theorem le_latest (hf : f.Follows slot) (hk : k ∈ slot.latest) {x : K} (hx : x ∈ f.heard) :
    x ≤ k := by
  rcases hf.version.lt_or_eq with hbehind | hcurrent
  · exact (hf.behind hbehind k hk x hx).le
  · have hlast : f.heard.getLast? = some k := (hf.current hcurrent).trans hk
    obtain ⟨before, hheard⟩ := List.getLast?_eq_some_iff.mp hlast
    have hincreasing := hf.increasing
    rw [hheard, List.pairwise_append] at hincreasing
    rw [hheard, List.mem_append] at hx
    rcases hx with hbefore | hsame
    · exact (hincreasing.2.2 x hbefore k (List.mem_singleton_self k)).le
    · exact (List.mem_singleton.mp hsame).le

/-- The follower is behind exactly while it has not heard the latest. -/
theorem mem_heard_iff (hf : f.Follows slot) (hk : k ∈ slot.latest) :
    k ∈ f.heard ↔ f.version = slot.version := by
  constructor
  · intro hmem
    rcases hf.version.lt_or_eq with hbehind | hcurrent
    · exact absurd (hf.behind hbehind k hk k hmem) (lt_irrefl k)
    · exact hcurrent
  · intro hcurrent
    exact List.mem_of_getLast? ((hf.current hcurrent).trans hk)

theorem publish {published : List K} (hf : f.Follows slot) (hslot : slot.Holds published)
    (hnew : ∀ latest ∈ slot.latest, latest < k) : f.Follows (slot.publish k) where
  increasing := hf.increasing
  version := hf.version.trans (Nat.le_succ _)
  behind := by
    rintro - _ ⟨⟩ x hx
    cases hlatest : slot.latest with
    | some latest => exact (hf.le_latest hlatest hx).trans_lt (hnew latest hlatest)
    | none =>
        -- nothing has been published, so the follower is not behind
        have hzero := hslot.version.mpr hlatest
        have hnone := (hf.current (Nat.le_antisymm hf.version (by omega))).trans hlatest
        rw [List.getLast?_eq_none_iff.mp hnone] at hx
        cases hx
  current := by
    intro hcurrent
    exact absurd (hcurrent ▸ hf.version) (Nat.not_succ_le_self _)

theorem read {published : List K} (hf : f.Follows slot) (hslot : slot.Holds published) :
    (f.read slot).Follows slot := by
  unfold Follower.read
  split
  · exact hf
  · next hne =>
      have hbehind := lt_of_le_of_ne hf.version hne
      have hsome : slot.latest ≠ none := by
        intro hnone
        rw [hslot.version.mpr hnone] at hbehind
        exact absurd hbehind (Nat.not_lt_zero _)
      obtain ⟨latest, hlatest⟩ := Option.ne_none_iff_exists'.mp hsome
      rw [hlatest]
      constructor
      · rw [List.pairwise_append]
        refine ⟨hf.increasing, List.pairwise_singleton _ _, ?_⟩
        intro x hx y hy
        obtain rfl := List.mem_singleton.mp hy
        exact hf.behind hbehind y hlatest x hx
      · exact le_rfl
      · intro hless
        exact absurd hless (lt_irrefl _)
      · intro _
        rw [hlatest]
        exact List.getLast?_concat

/-- Nothing is heard twice. -/
theorem nodup_heard (hf : f.Follows slot) : f.heard.Nodup := hf.increasing.imp ne_of_lt

end Follower.Follows

end Latest
