import Mathlib.Data.Set.Function
import MoqTransport.Coding.Utf8

/-!
The name a namespace has in the registry of origins: its fields, read as text,
behind a slash each. A slash within a field is not told from one between two
fields, nor a replaced byte from another. So what counts is the namespace that
is left when every field is taken apart (`Tuple.normal`): each namespace shares
its name with that one, and these have names of their own.
-/

namespace MoqTransport

open Coding

namespace Coding.Tuple

/-- The fields as text, taken apart at the slashes. -/
def parts (tuple : Tuple) : List (List Char) :=
  tuple.fields.flatMap fun field => (Str.fromUtf8Lossy field.value).toList.splitOn '/'

/-- Every field as `from_utf8_path` reads it. -/
def normal (tuple : Tuple) : Tuple :=
  ⟨tuple.fields.flatMap fun field => (fromUtf8Path (Str.fromUtf8Lossy field.value)).fields⟩

theorem fields_normal (tuple : Tuple) :
    tuple.normal.fields = tuple.parts.map fun part => .fromUtf8 (String.ofList part) := by
  rw [parts, List.map_flatMap]
  rfl

theorem lossy_fromUtf8 (s : String) : Str.fromUtf8Lossy (TupleField.fromUtf8 s).value = s :=
  Str.fromUtf8Lossy_bytes s

theorem fromUtf8_injective : Function.Injective TupleField.fromUtf8 :=
  Function.LeftInverse.injective (g := fun field : TupleField => Str.fromUtf8Lossy field.value)
    lossy_fromUtf8

theorem normal_eq_iff {a b : Tuple} : a.normal = b.normal ↔ a.parts = b.parts := by
  have hinjective : Function.Injective fun part : List Char =>
      TupleField.fromUtf8 (String.ofList part) :=
    fromUtf8_injective.comp fun _ _ h => String.ofList_injective h
  constructor
  · intro h
    have hfields := congrArg fields h
    rw [fields_normal, fields_normal] at hfields
    exact List.map_injective_iff.mpr hinjective hfields
  · intro h
    have hfields : a.normal.fields = b.normal.fields := by
      rw [fields_normal, fields_normal, h]
    exact congrArg Tuple.mk hfields

theorem toList_toUtf8Path (tuple : Tuple) :
    tuple.toUtf8Path.toList =
      tuple.fields.flatMap fun field => '/' :: (Str.fromUtf8Lossy field.value).toList := by
  have hfold (fields : List TupleField) (path : String) :
      (fields.foldl (fun path field => path ++ "/" ++ Str.fromUtf8Lossy field.value) path).toList =
        path.toList ++ fields.flatMap fun field =>
          '/' :: (Str.fromUtf8Lossy field.value).toList := by
    induction fields generalizing path with
    | nil => simp
    | cons field fields ih => simp [ih]
  exact hfold tuple.fields ""

/-- Taking the path apart gives the parts of the fields. -/
theorem splitOn_toUtf8Path (tuple : Tuple) :
    tuple.toUtf8Path.toList.splitOn '/' = [] :: tuple.parts := by
  have hsplit (fields : List TupleField) (chars : List Char) :
      (chars ++ fields.flatMap fun field =>
          '/' :: (Str.fromUtf8Lossy field.value).toList).splitOn '/' =
        chars.splitOn '/' ++ (Tuple.mk fields).parts := by
    induction fields generalizing chars with
    | nil => simp [parts]
    | cons field fields ih =>
        rw [List.flatMap_cons, List.cons_append, List.splitOn_append_cons_self, ih]
        rfl
  rw [toList_toUtf8Path]
  exact hsplit tuple.fields []

theorem toUtf8Path_eq_iff {a b : Tuple} : a.toUtf8Path = b.toUtf8Path ↔ a.normal = b.normal := by
  rw [normal_eq_iff]
  constructor
  · intro h
    have hsplit := congrArg (fun path : String => path.toList.splitOn '/') h
    rw [splitOn_toUtf8Path, splitOn_toUtf8Path] at hsplit
    exact List.tail_eq_of_cons_eq hsplit
  · intro h
    apply String.toList_injective
    have hjoin (tuple : Tuple) :
        ['/'].intercalate ([] :: tuple.parts) = tuple.toUtf8Path.toList := by
      rw [← splitOn_toUtf8Path, List.intercalate_splitOn]
    rw [← hjoin, ← hjoin, h]

theorem slash_notMem_of_mem_splitOn {chars part : List Char} (h : part ∈ chars.splitOn '/') :
    '/' ∉ part := by
  induction chars generalizing part with
  | nil =>
      rw [List.splitOn_nil, List.mem_singleton] at h
      rw [h]
      exact List.not_mem_nil
  | cons c chars ih =>
      rw [List.splitOn_cons_eq_if_modifyHead] at h
      split at h
      · rcases List.mem_cons.mp h with rfl | h
        · exact List.not_mem_nil
        · exact ih h
      · next hne =>
          cases hsplit : chars.splitOn '/' with
          | nil => exact absurd hsplit (List.splitOn_ne_nil '/' chars)
          | cons first rest =>
              rw [hsplit] at h ih
              rcases List.mem_cons.mp h with rfl | h
              · have hc : ¬ '/' = c := by simpa using Ne.symm (by simpa using hne)
                simpa [hc] using ih List.mem_cons_self
              · exact ih (List.mem_cons_of_mem _ h)

theorem plain_of_mem_normal {tuple : Tuple} {field : TupleField}
    (h : field ∈ tuple.normal.fields) : ∃ s : String, '/' ∉ s.toList ∧ field = .fromUtf8 s := by
  rw [fields_normal] at h
  obtain ⟨part, hpart, rfl⟩ := List.mem_map.mp h
  obtain ⟨source, -, hsplit⟩ := List.mem_flatMap.mp hpart
  refine ⟨String.ofList part, ?_, rfl⟩
  rw [String.toList_ofList]
  exact slash_notMem_of_mem_splitOn hsplit

/-- The namespaces that are left are those of text without a slash. -/
theorem normal_eq_self_iff {tuple : Tuple} :
    tuple.normal = tuple ↔
      ∀ field ∈ tuple.fields, ∃ s : String, '/' ∉ s.toList ∧ field = .fromUtf8 s := by
  constructor
  · intro h field hfield
    rw [← h] at hfield
    exact plain_of_mem_normal hfield
  · intro h
    have hfields : tuple.normal.fields = tuple.fields.flatMap fun field => [field] := by
      apply List.flatMap_congr
      intro field hfield
      obtain ⟨s, hslash, rfl⟩ := h field hfield
      rw [lossy_fromUtf8, fromUtf8Path, List.splitOn_eq_singleton hslash]
      simp
    rw [List.flatMap_singleton'] at hfields
    exact congrArg Tuple.mk hfields

theorem normal_normal (tuple : Tuple) : tuple.normal.normal = tuple.normal :=
  normal_eq_self_iff.mpr fun _ hfield => plain_of_mem_normal hfield

/-- Every namespace shares its path with its normal form. -/
theorem toUtf8Path_normal (tuple : Tuple) : tuple.normal.toUtf8Path = tuple.toUtf8Path :=
  toUtf8Path_eq_iff.mpr tuple.normal_normal

theorem injOn_toUtf8Path : Set.InjOn toUtf8Path {tuple | tuple.normal = tuple} := by
  intro a ha b hb h
  rw [← show a.normal = a from ha, ← show b.normal = b from hb]
  exact toUtf8Path_eq_iff.mp h

end Coding.Tuple

namespace Relay

/-- What `Consumer::serve` sets the origin of. -/
def Consumer.originName (announced : Tuple) : String := announced.toUtf8Path

/-- What `RemotesConsumer::route` gets the origin of. -/
def RemotesConsumer.originName (namespace_ : Tuple) : String := namespace_.toUtf8Path

/-- Two different namespaces never share an origin unless they have the same
normal form. Among namespaces with which their normal forms may be announced
too, different ones have different paths exactly if every field of them is text
without a slash. -/
theorem originName_distinct_iff (a b : Tuple) (S : Set Tuple) :
    ((a ≠ b → Consumer.originName a ≠ RemotesConsumer.originName b) ↔
      (a.normal = b.normal → a = b)) ∧
    ((∀ tuple ∈ S, tuple.normal ∈ S) →
      (S.InjOn Tuple.toUtf8Path ↔ ∀ tuple ∈ S, ∀ field ∈ tuple.fields,
        ∃ s : String, '/' ∉ s.toList ∧ field = .fromUtf8 s)) := by
  constructor
  · unfold Consumer.originName RemotesConsumer.originName
    rw [← Tuple.toUtf8Path_eq_iff]
    exact not_imp_not
  · intro hclosed
    constructor
    · intro hinj tuple htuple
      rw [← Tuple.normal_eq_self_iff]
      exact hinj (hclosed tuple htuple) htuple tuple.toUtf8Path_normal
    · intro hplain
      exact Tuple.injOn_toUtf8Path.mono fun tuple htuple =>
        Tuple.normal_eq_self_iff.mpr (hplain tuple htuple)

/-- A slash within a field, and between two fields. -/
theorem not_originName_distinct_slash :
    ¬ ∀ a b : Tuple, a ≠ b → Consumer.originName a ≠ RemotesConsumer.originName b := by
  intro hdistinct
  have hpath : (Tuple.mk [.fromUtf8 "a/b"]).toUtf8Path =
      (Tuple.mk [.fromUtf8 "a", .fromUtf8 "b"]).toUtf8Path := by
    simp only [Tuple.toUtf8Path, List.foldl_cons, List.foldl_nil, Tuple.lossy_fromUtf8]
    rfl
  exact hdistinct ⟨[.fromUtf8 "a/b"]⟩ ⟨[.fromUtf8 "a", .fromUtf8 "b"]⟩ (by simp) hpath

end Relay

end MoqTransport
