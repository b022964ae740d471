import Mathlib.Data.Finmap

/-!
Hash maps. What a map holds is a finite map; the order in which its entries
are visited is chosen once, for every map (`Order`). A map is built again from
its entries, in whatever order they are inserted (`ofPairs_perm`).
-/

namespace Hashed

variable {K V : Type} [DecidableEq K]

abbrev Map (K V : Type) := Finmap fun _ : K => V

/-- Later pairs replace earlier ones. -/
def insertAll (m : Map K V) (items : List (K × V)) : Map K V :=
  items.foldl (fun m item => m.insert item.1 item.2) m

def ofPairs (items : List (K × V)) : Map K V := insertAll ∅ items

def entry (item : K × V) : Sigma fun _ : K => V := ⟨item.1, item.2⟩

structure Order (K V : Type) where
  list : Map K V → List (K × V)
  entries : ∀ m, ((list m).map entry : Multiset (Sigma fun _ : K => V)) = m.entries

noncomputable instance : Inhabited (Order K V) where
  default :=
    { list m := m.entries.toList.map fun item => (item.1, item.2)
      entries m := by
        rw [List.map_map]
        exact (congrArg _ (List.map_id _)).trans (Multiset.coe_toList _) }

omit [DecidableEq K] in
theorem Order.mem_list_iff (ord : Order K V) (m : Map K V) (k : K) (v : V) :
    (k, v) ∈ ord.list m ↔ ⟨k, v⟩ ∈ m.entries := by
  rw [← ord.entries m, Multiset.mem_coe, List.mem_map]
  constructor
  · exact fun h => ⟨(k, v), h, rfl⟩
  · rintro ⟨⟨k', v'⟩, hmem, heq⟩
    cases heq
    exact hmem

omit [DecidableEq K] in
theorem Order.nodup_keys (ord : Order K V) (m : Map K V) :
    ((ord.list m).map Prod.fst).Nodup := by
  have hnodup := m.nodupKeys
  rw [← ord.entries m, Multiset.coe_nodupKeys, List.NodupKeys, List.keys, List.map_map] at hnodup
  exact hnodup

theorem lookup_insertAll {items : List (K × V)} (m : Map K V)
    (hnodup : (items.map Prod.fst).Nodup) (k : K) (v : V) :
    (insertAll m items).lookup k = some v ↔
      (k, v) ∈ items ∨ k ∉ items.map Prod.fst ∧ m.lookup k = some v := by
  induction items generalizing m with
  | nil => simp [insertAll]
  | cons item items ih =>
      obtain ⟨k', v'⟩ := item
      obtain ⟨hfresh, hnodup⟩ := List.nodup_cons.mp hnodup
      change (insertAll (m.insert k' v') items).lookup k = some v ↔ _
      rw [ih (m.insert k' v') hnodup]
      by_cases hk : k = k'
      · subst hk
        have hnot : (k, v) ∉ items := fun h => hfresh (List.mem_map.mpr ⟨(k, v), h, rfl⟩)
        simp [Finmap.lookup_insert, hfresh, hnot, eq_comm]
      · simp [Finmap.lookup_insert_of_ne _ hk, hk]

/-- Every pair is there to be looked up, if no key comes twice. -/
theorem lookup_ofPairs {items : List (K × V)} (hnodup : (items.map Prod.fst).Nodup) (k : K)
    (v : V) : (ofPairs items).lookup k = some v ↔ (k, v) ∈ items := by
  rw [ofPairs, lookup_insertAll ∅ hnodup]
  simp

/-- The entries of a map, inserted again in any order. -/
theorem ofPairs_perm (ord : Order K V) (m : Map K V) {items : List (K × V)}
    (h : items.Perm (ord.list m)) : ofPairs items = m := by
  have hnodup : (items.map Prod.fst).Nodup :=
    (h.map Prod.fst).nodup_iff.mpr (ord.nodup_keys m)
  refine Finmap.ext_lookup fun k => Option.ext fun v => ?_
  rw [lookup_ofPairs hnodup, h.mem_iff, ord.mem_list_iff, ← Finmap.mem_lookup_iff]
  rfl

end Hashed
