import Mathlib.Data.Finmap
import MoqTransport.Coding.VarInt

/-!
The codecs messages are built from: integers, bytes, strings, tuples and
parameter maps. Each has a `wire` function giving its bytes, one lemma
`emits_*` for its encoder and one lemma `transfers_*` for its decoder.

A hash map is a finite map here. Its iteration order is not part of the map:
encoders take an `IterOrder`, an arbitrary way to list the entries of every
map, and results hold for all of them.
-/

namespace MoqTransport.Coding

open Streaming

/-- Varint values, counts and lengths the wire can carry. -/
abbrev fitsVarInt (x : Nat) : Prop := x < 2 ^ 62

namespace U64

def encode (x : Nat) : Encode :=
  match VarInt.tryFrom x with
  | some v => v.encode
  | none => refuse .boundsExceeded

def decode : Decode Nat := VarInt.val <$> VarInt.decode

theorem emits_encode (x : Nat) : Emits (encode x) (fitsVarInt x) (VarInt.wire x) := by
  unfold encode VarInt.tryFrom
  by_cases h : x < 2 ^ 62
  · rw [dif_pos h]
    exact (VarInt.emits_encode ⟨x, h⟩).congr (iff_of_true trivial h) rfl
  · rw [dif_neg h]
    exact (emits_refuse _ _).congr (iff_of_false not_false h) rfl

theorem transfers_decode {x : Nat} (h : fitsVarInt x) :
    Transfers decode (VarInt.wire x) x :=
  (VarInt.transfers_decode ⟨x, h⟩).map VarInt.val

theorem shrinks_decode : Shrinks decode 1 := VarInt.shrinks_decode.map _

theorem delimits_decode : Delimits decode := VarInt.delimits_decode.map _

theorem fits_of_decode {r rest : Bytes} {x : Nat} (h : decode r = .ok (x, rest)) :
    fitsVarInt x := by
  obtain ⟨v, -, rfl⟩ := map_eq_ok h
  exact v.lt

/-- The only way to fail is to be shorter than the form the first byte
announces. -/
theorem decode_short {r : Bytes} (h : r.length < VarInt.formLength r) :
    ∃ n, 1 ≤ n ∧ decode r = .error (.err (.more n)) :=
  ⟨VarInt.formLength r - r.length, by omega, map_error _ (VarInt.decode_short h)⟩

theorem decode_long {r : Bytes} (h : VarInt.formLength r ≤ r.length) :
    ∃ x, decode r = .ok (x, r.drop (VarInt.formLength r)) := by
  obtain ⟨v, hv⟩ := VarInt.decode_long h
  exact ⟨v.val, map_ok _ hv⟩

theorem short_of_error {r : Bytes} {fault : Fault DecodeError} (h : decode r = .error fault) :
    r.length < VarInt.formLength r := by
  by_contra hlong
  obtain ⟨x, hx⟩ := decode_long (not_lt.mp hlong)
  rw [h] at hx
  cases hx

/-- A buffer that is short of its form can be completed, also to a number
other than zero. -/
theorem exists_completion {r : Bytes} (h : r.length < VarInt.formLength r) :
    ∃ tail x, 1 ≤ x ∧ decode (r ++ tail) = .ok (x, []) := by
  cases r with
  | nil => exact ⟨[1], 1, le_rfl, rfl⟩
  | cons b r =>
      have hform : VarInt.formLength (b :: r) = VarInt.formLength [b] := rfl
      rw [List.length_cons, hform] at h
      let fill : Bytes := List.replicate (VarInt.formLength [b] - r.length - 2) 0
      have hlen : (r ++ fill ++ [1]).length + 1 = VarInt.formLength [b] := by
        simp only [fill, List.length_append, List.length_replicate, List.length_singleton]
        omega
      obtain ⟨v, hv, hread⟩ := VarInt.reads_form hlen
      refine ⟨fill ++ [1], v.val, ?_, ?_⟩
      · rw [hv, ← List.cons_append, fromBeBytes, List.foldl_append]
        simp
      · have hall := hread []
        rw [List.append_nil, List.append_assoc] at hall
        exact map_ok _ hall

theorem completable_decode : Completable decode := by
  constructor
  · intro r n h
    obtain ⟨m, hm, herr⟩ := decode_short (short_of_error h)
    rw [h] at herr
    cases herr
    exact hm
  · rintro r ⟨n, h⟩
    obtain ⟨tail, x, -, hx⟩ := exists_completion (short_of_error h)
    exact ⟨tail, .inl ⟨x, hx⟩⟩

end U64

namespace Usize

def encode (x : Nat) : Encode := U64.encode x

def decode : Decode Nat := U64.decode

end Usize

namespace U8

def encode (x : UInt8) : Encode := put [x]

def decode : Decode UInt8 := do
  decodeRemaining 1
  getU8

theorem emits_encode (x : UInt8) : Emits (encode x) True [x] := emits_put [x]

theorem transfers_decode (x : UInt8) : Transfers decode [x] x :=
  Transfers.checked 1 rfl (reads_getU8 x)

theorem delimits_decode : Delimits decode := delimits_getU8

end U8

/-- A length and that many bytes. -/
def blobWire (bs : Bytes) : Bytes := VarInt.wire bs.length ++ bs

theorem emits_blob (bs : Bytes) :
    Emits (do Usize.encode bs.length; encodeRemaining bs.length; put bs)
      (fitsVarInt bs.length) (blobWire bs) :=
  ((U64.emits_encode bs.length).bind ((emits_put bs).checked _ le_rfl)).congr (by simp) rfl

/-- The decoders of length-prefixed bytes differ only in what they make of
the bytes. -/
theorem transfers_blob {α : Type} {f : Bytes → Decode α} {bs : Bytes} {x : α}
    (h : fitsVarInt bs.length) (hf : Transfers (f bs) [] x) :
    Transfers (do
        let size ← Usize.decode
        decodeRemaining size
        let buf ← copyToSlice size
        f buf.toList) (blobWire bs) x := by
  refine (U64.transfers_decode h).bind ?_
  have hcopy := Transfers.checked_bind (f := fun buf => f buf.toList) bs.length rfl
    (reads_copyToSlice bs bs.length rfl) hf
  rwa [List.append_nil] at hcopy

theorem delimits_blob {α : Type} {f : Bytes → Decode α} (hf : ∀ bs, Delimits (f bs)) :
    Delimits (do
        let size ← Usize.decode
        decodeRemaining size
        let buf ← copyToSlice size
        f buf.toList) :=
  U64.delimits_decode.bind fun _ => Delimits.copyToSlice_bind fun _ => hf _

theorem shrinks_blob {α : Type} {f : Bytes → Decode α} (hf : ∀ bs, Shrinks (f bs) 0) :
    Shrinks (do
        let size ← Usize.decode
        decodeRemaining size
        let buf ← copyToSlice size
        f buf.toList) 1 :=
  U64.shrinks_decode.bind fun size => (shrinks_decodeRemaining size).bind fun _ =>
    (shrinks_copyToSlice size).bind fun _ => hf _

/-- The size of the buffer that the decoders of length-prefixed bytes
allocate: it is read, and checked against the bytes at hand. -/
def allocation : Decode Nat := do
  let size ← Usize.decode
  decodeRemaining size
  pure size

theorem allocation_le {r rest : Bytes} {size : Nat} (h : allocation r = .ok (size, rest)) :
    size ≤ rest.length := by
  obtain ⟨_, mid, -, h⟩ := bind_eq_ok h
  obtain ⟨⟨⟩, mid', hcheck, h⟩ := bind_eq_ok h
  cases h
  obtain ⟨hle, rfl⟩ := decodeRemaining_eq_ok hcheck
  exact hle

/-- Every such buffer is allocated behind that check. -/
theorem blob_eq {α : Type} (f : Bytes → Decode α) :
    (do
        let size ← Usize.decode
        decodeRemaining size
        let buf ← copyToSlice size
        f buf.toList) = (do
        let size ← allocation
        let buf ← copyToSlice size
        f buf.toList) := by
  simp only [allocation, bind_assoc, pure_bind]

namespace Str

def bytes (s : String) : Bytes := s.toByteArray.data.toList

def encode (s : String) : Encode := do
  Usize.encode (bytes s).length
  encodeRemaining (bytes s).length
  put (bytes s)

/-- `String::from_utf8` on the bytes read. -/
def fromUtf8 (buf : Bytes) : Decode String :=
  match String.fromUTF8? ⟨buf.toArray⟩ with
  | some s => pure s
  | none => fail .invalidString

def decode : Decode String := do
  let size ← Usize.decode
  decodeRemaining size
  let buf ← copyToSlice size
  fromUtf8 buf.toList

def Ok (s : String) : Prop := fitsVarInt (bytes s).length

def wire (s : String) : Bytes := blobWire (bytes s)

theorem emits_encode (s : String) : Emits (encode s) (Ok s) (wire s) := emits_blob (bytes s)

theorem fromUTF8?_bytes (s : String) : String.fromUTF8? ⟨(bytes s).toArray⟩ = some s := by
  simp [bytes, String.fromUTF8?, s.isValidUTF8, String.fromUTF8]

theorem fromUtf8_bytes (s : String) : fromUtf8 (bytes s) = pure s := by
  rw [fromUtf8, fromUTF8?_bytes]

theorem transfers_decode {s : String} (h : Ok s) : Transfers decode (wire s) s := by
  refine transfers_blob h ?_
  rw [fromUtf8_bytes]
  exact Transfers.pure s

theorem decode_eq :
    decode = (do
      let size ← allocation
      let buf ← copyToSlice size
      fromUtf8 buf.toList) :=
  blob_eq fromUtf8

theorem delimits_decode : Delimits decode := by
  apply delimits_blob
  intro buf
  unfold fromUtf8
  split
  · exact Delimits.pure _
  · exact Delimits.fail _

end Str

structure TupleField where
  value : Bytes
deriving DecidableEq

namespace TupleField

def decode : Decode TupleField := do
  let size ← Usize.decode
  decodeRemaining size
  let buf ← copyToSlice size
  pure ⟨buf.toList⟩

def encode (field : TupleField) : Encode := do
  Usize.encode field.value.length
  encodeRemaining field.value.length
  put field.value

def wire (field : TupleField) : Bytes := blobWire field.value

theorem emits_encode (field : TupleField) :
    Emits field.encode (fitsVarInt field.value.length) field.wire :=
  emits_blob field.value

theorem transfers_decode {field : TupleField} (h : fitsVarInt field.value.length) :
    Transfers decode field.wire field :=
  transfers_blob (f := fun bs => pure (TupleField.mk bs)) h (Transfers.pure field)

theorem decode_eq :
    decode = (do
      let size ← allocation
      let buf ← copyToSlice size
      pure ⟨buf.toList⟩) :=
  blob_eq fun bs => pure (TupleField.mk bs)

theorem delimits_decode : Delimits decode :=
  delimits_blob (f := fun bs => pure (TupleField.mk bs)) fun _ => Delimits.pure _

theorem shrinks_decode : Shrinks decode 1 :=
  shrinks_blob (f := fun bs => pure (TupleField.mk bs)) fun _ => Shrinks.pure _

end TupleField

structure Tuple where
  fields : List TupleField
deriving DecidableEq

namespace Tuple

def decode : Decode Tuple := do
  let count ← U64.decode
  let fields ← iterate (fun fields => do
    let field ← TupleField.decode
    pure (fields ++ [field])) count []
  pure ⟨fields⟩

def encode (tuple : Tuple) : Encode := do
  Usize.encode tuple.fields.length
  each TupleField.encode tuple.fields

def Ok (tuple : Tuple) : Prop :=
  fitsVarInt tuple.fields.length ∧ ∀ field ∈ tuple.fields, fitsVarInt field.value.length

def wire (tuple : Tuple) : Bytes :=
  VarInt.wire tuple.fields.length ++ tuple.fields.flatMap TupleField.wire

theorem emits_encode (tuple : Tuple) : Emits tuple.encode tuple.Ok tuple.wire :=
  (U64.emits_encode _).bind (Emits.each tuple.fields TupleField.emits_encode)

theorem foldl_push {α : Type} (items done : List α) :
    items.foldl (fun acc item => acc ++ [item]) done = done ++ items := by
  induction items generalizing done with
  | nil => simp
  | cons item items ih => simp [ih]

theorem transfers_decode {tuple : Tuple} (h : tuple.Ok) :
    Transfers decode tuple.wire tuple := by
  have hloop := Transfers.iterate (ε := DecodeError)
    (fun fields => do
      let field ← TupleField.decode
      pure (fields ++ [field]))
    TupleField.wire (fun acc field => acc ++ [field]) tuple.fields ([] : List TupleField) (by
      intro done field rest hsplit
      have hfield : fitsVarInt field.value.length := h.2 field (by simp [hsplit])
      exact (TupleField.transfers_decode hfield).bind_pure _)
  rw [foldl_push, List.nil_append] at hloop
  refine (U64.transfers_decode h.1).bind ?_
  exact hloop.bind_pure Tuple.mk

/-- One round of the decoding loop. -/
def decodeField (fields : List TupleField) : Decode (List TupleField) := do
  let field ← TupleField.decode
  pure (fields ++ [field])

theorem decode_eq :
    decode = (do
      let count ← U64.decode
      let fields ← iterate decodeField count []
      pure ⟨fields⟩) := rfl

theorem shrinks_decodeField (fields : List TupleField) : Shrinks (decodeField fields) 1 :=
  TupleField.shrinks_decode.bind fun _ => Shrinks.pure _

theorem delimits_decode : Delimits decode := by
  rw [decode_eq]
  apply U64.delimits_decode.bind
  intro count
  apply Delimits.bind
  · apply Delimits.iterate
    intro fields
    exact TupleField.delimits_decode.bind fun _ => Delimits.pure _
  · intro fields
    exact Delimits.pure _

end Tuple

abbrev Params := Finmap (fun _ : Nat => Bytes)

/-- A choice of iteration order for every map. -/
structure IterOrder where
  list : Params → List (Sigma fun _ : Nat => Bytes)
  entries : ∀ params, (list params : Multiset (Sigma fun _ : Nat => Bytes)) = params.entries

namespace Params

/-- One round of the decoding loop. -/
def decodeEntry (params : Params) : Decode Params := do
  let kind ← U64.decode
  if kind ∈ params then
    fail .duplicateParameter
  else do
    let size ← Usize.decode
    decodeRemaining size
    let buf ← copyToSlice size
    pure (params.insert kind buf.toList)

def decode : Decode Params := do
  let count ← U64.decode
  iterate decodeEntry count ∅

def encodeEntry (entry : Sigma fun _ : Nat => Bytes) : Encode := do
  U64.encode entry.1
  Usize.encode entry.2.length
  encodeRemaining entry.2.length
  put entry.2

def encode (ord : IterOrder) (params : Params) : Encode := do
  Usize.encode (ord.list params).length
  each encodeEntry (ord.list params)

def Ok (params : Params) : Prop :=
  fitsVarInt params.entries.card ∧
    ∀ entry ∈ params.entries, fitsVarInt entry.1 ∧ fitsVarInt entry.2.length

def entryWire (entry : Sigma fun _ : Nat => Bytes) : Bytes :=
  VarInt.wire entry.1 ++ blobWire entry.2

def wire (ord : IterOrder) (params : Params) : Bytes :=
  VarInt.wire (ord.list params).length ++ (ord.list params).flatMap entryWire

theorem mem_list {ord : IterOrder} {params : Params} {entry : Sigma fun _ : Nat => Bytes} :
    entry ∈ ord.list params ↔ entry ∈ params.entries := by
  rw [← ord.entries params, Multiset.mem_coe]

theorem length_list (ord : IterOrder) (params : Params) :
    (ord.list params).length = params.entries.card := by
  rw [← ord.entries params, Multiset.coe_card]

theorem emits_encode (ord : IterOrder) (params : Params) :
    Emits (encode ord params) params.Ok (wire ord params) := by
  have hentry (entry : Sigma fun _ : Nat => Bytes) : Emits (encodeEntry entry)
      (fitsVarInt entry.1 ∧ fitsVarInt entry.2.length) (entryWire entry) :=
    (U64.emits_encode entry.1).bind (emits_blob entry.2)
  refine ((U64.emits_encode _).bind (Emits.each (ord.list params) hentry)).congr ?_ rfl
  simp only [Ok, length_list, mem_list]

/-- Inserting fresh keys one by one adds exactly these entries. -/
theorem entries_foldl_insert (items : List (Sigma fun _ : Nat => Bytes)) (acc : Params)
    (hnodup : items.NodupKeys) (hfresh : ∀ entry ∈ items, entry.1 ∉ acc) :
    (items.foldl (fun acc entry => acc.insert entry.1 entry.2) acc).entries =
      (items : Multiset (Sigma fun _ : Nat => Bytes)) + acc.entries := by
  induction items generalizing acc with
  | nil => simp
  | cons entry items ih =>
      obtain ⟨hhead, htail⟩ := List.nodupKeys_cons.mp hnodup
      rw [List.foldl_cons, ih _ htail ?_]
      · rw [Finmap.entries_insert_of_notMem (hfresh entry (by simp))]
        simp [← Multiset.cons_coe]
      · intro other hother
        rw [Finmap.mem_insert, not_or]
        refine ⟨fun heq => hhead ?_, hfresh other (by simp [hother])⟩
        exact heq ▸ List.mem_keys_of_mem hother

theorem mem_foldl_insert (items : List (Sigma fun _ : Nat => Bytes)) (acc : Params)
    (kind : Nat) :
    kind ∈ items.foldl (fun acc entry => acc.insert entry.1 entry.2) acc ↔
      kind ∈ items.keys ∨ kind ∈ acc := by
  induction items generalizing acc with
  | nil => simp
  | cons entry items ih =>
      rw [List.foldl_cons, ih, Finmap.mem_insert, List.keys_cons, List.mem_cons]
      tauto

theorem nodupKeys_list (ord : IterOrder) (params : Params) : (ord.list params).NodupKeys := by
  rw [← Multiset.coe_nodupKeys, ord.entries]
  exact params.nodupKeys

theorem foldl_list (ord : IterOrder) (params : Params) :
    (ord.list params).foldl (fun acc entry => acc.insert entry.1 entry.2) ∅ = params := by
  apply Finmap.ext
  rw [entries_foldl_insert _ _ (nodupKeys_list ord params) (fun _ _ => Finmap.notMem_empty),
    ord.entries]
  exact add_zero _

/-- A round of the loop accepts an entry with a fresh key. -/
theorem transfers_decodeEntry {acc : Params} {entry : Sigma fun _ : Nat => Bytes}
    (hfresh : entry.1 ∉ acc) (hkind : fitsVarInt entry.1) (hlen : fitsVarInt entry.2.length) :
    Transfers (decodeEntry acc) (entryWire entry) (acc.insert entry.1 entry.2) := by
  have hblob := transfers_blob (f := fun bs => pure (acc.insert entry.1 bs)) hlen
    (Transfers.pure (acc.insert entry.1 entry.2))
  unfold decodeEntry
  refine Transfers.bind (U64.transfers_decode hkind) ?_
  simpa only [hfresh, if_false] using hblob

theorem transfers_decode {params : Params} (ord : IterOrder) (h : params.Ok) :
    Transfers decode (wire ord params) params := by
  have hnodup := nodupKeys_list ord params
  have hloop := Transfers.iterate decodeEntry entryWire
    (fun acc entry => acc.insert entry.1 entry.2) (ord.list params) ∅ (by
      intro done entry rest hsplit
      have hlisted : entry ∈ ord.list params := by
        rw [hsplit]
        exact List.mem_append_right _ List.mem_cons_self
      obtain ⟨hkind, hlen⟩ := h.2 entry (mem_list.mp hlisted)
      refine transfers_decodeEntry ?_ hkind hlen
      rw [mem_foldl_insert, not_or]
      refine ⟨?_, Finmap.notMem_empty⟩
      intro hdone
      rw [hsplit, List.NodupKeys, List.keys, List.map_append, List.nodup_append] at hnodup
      exact hnodup.2.2 _ hdone _ (by simp) rfl)
  rw [foldl_list] at hloop
  refine (U64.transfers_decode ?_).bind hloop
  rw [length_list]
  exact h.1

/-- The value of an entry whose key is `kind`. -/
def decodeValue (params : Params) (kind : Nat) : Decode Params := do
  let size ← Usize.decode
  decodeRemaining size
  let buf ← copyToSlice size
  pure (params.insert kind buf.toList)

theorem decodeEntry_eq (params : Params) :
    decodeEntry params = (do
      let kind ← U64.decode
      if kind ∈ params then fail .duplicateParameter else decodeValue params kind) := rfl

theorem delimits_decodeValue (params : Params) (kind : Nat) :
    Delimits (decodeValue params kind) := by
  apply delimits_blob (f := fun bs => (pure (params.insert kind bs) : Decode Params))
  intro value
  exact Delimits.pure _

theorem shrinks_decodeValue (params : Params) (kind : Nat) :
    Shrinks (decodeValue params kind) 1 := by
  apply shrinks_blob (f := fun bs => (pure (params.insert kind bs) : Decode Params))
  intro value
  exact Shrinks.pure _

theorem delimits_decodeEntry (params : Params) : Delimits (decodeEntry params) := by
  rw [decodeEntry_eq]
  apply U64.delimits_decode.bind
  intro kind
  split
  · exact Delimits.fail _
  · exact delimits_decodeValue params kind

theorem shrinks_decodeEntry (params : Params) : Shrinks (decodeEntry params) 2 := by
  rw [decodeEntry_eq]
  apply U64.shrinks_decode.bind (k := 1)
  intro kind
  split
  · exact Shrinks.fail _ _
  · exact shrinks_decodeValue params kind

theorem delimits_decode : Delimits decode :=
  U64.delimits_decode.bind fun count => Delimits.iterate delimits_decodeEntry count ∅

/-- Store a value under a key, encoded into a `Vec` of its own. -/
def set (params : Params) (kind : Nat) (p : Encode) : Except (Fault EncodeError) Params :=
  match p vec with
  | .ok ((), value) => .ok (params.insert kind value.bytes)
  | .error fault => .error fault

def has (params : Params) (kind : Nat) : Bool := decide (kind ∈ params)

/-- Take a value out of the map and decode it. Its decoder sees the value
alone, and may leave some of it. -/
def get {α : Type} (p : Decode α) (params : Params) (kind : Nat) :
    Except (Fault DecodeError) (Option α × Params) :=
  match params.lookup kind with
  | some value =>
      match p value with
      | .ok (x, _) => .ok (some x, params.erase kind)
      | .error fault => .error fault
  | none => .ok (none, params)

end Params

end MoqTransport.Coding
