import MoqTransport.Proto.Qpack

/-!
Header lists: the part of QPACK that needs no dynamic table. A field is an
index into the static table, a name from it with a value, or a name with a
value. What is written here is read here (`decode_encode_fields`), and so is every
field section that another encoder writes without the dynamic table, in
whatever form, with Huffman codes or without (`decode_section`). No other
bytes do any harm (`decode_total`).
-/

namespace MoqTransport.Proto.Qpack

open Streaming

structure Headers where
  fields : Hashed.Map String String
deriving DecidableEq

namespace Headers

def empty : Headers := ⟨∅⟩

def get (headers : Headers) (name : String) : Option String := headers.fields.lookup name

def set (headers : Headers) (name value : String) : Headers :=
  ⟨headers.fields.insert name value⟩

def decodeIndex : Decoder DecodeError (String × String) := do
  let (_, index) ← decodePrefix 6
  StaticTable.get index

def decodeLiteralValue : Decoder DecodeError (String × String) := do
  let (_, name) ← decodePrefix 4
  let (name, _) ← StaticTable.get name
  let value ← decodeString 8
  let value ← fromUtf8 value
  pure (name, value)

def decodeLiteral : Decoder DecodeError (String × String) := do
  let name ← decodeString 4
  let name ← fromUtf8 name
  let value ← decodeString 8
  let value ← fromUtf8 value
  pure (name, value)

/-- The form of a line, by its first byte. -/
def decodeForm (peek : Nat) : Decoder DecodeError (String × String) :=
  -- Indexed line field from static table, from dynamic table
  if peek &&& 0b11000000 = 0b11000000 then decodeIndex
  else if peek &&& 0b11000000 = 0b10000000 then fail .dynamicEntry
  -- Indexed with literal name ref from static table, from dynamic table
  else if peek &&& 0b11010000 = 0b01010000 then decodeLiteralValue
  else if peek &&& 0b11010000 = 0b01000000 then fail .dynamicEntry
  -- Literal
  else if peek &&& 0b11100000 = 0b00100000 then decodeLiteral
  -- Indexed with post base, with post base name ref
  else if peek &&& 0b11110000 = 0b00010000 then fail .dynamicEntry
  else if peek &&& 0b11110000 = 0b00000000 then fail .dynamicEntry
  else fail .unknownEntry

/-- The first byte is read again by the form. -/
def decodeLine : Decoder DecodeError (String × String)
  | [] => .error .panic
  | peek :: rest => decodeForm peek.toNat (peek :: rest)

/-- `while buf.has_remaining()`; every line takes up a byte. -/
def decodeLines : Nat → Hashed.Map String String → Decoder DecodeError (Hashed.Map String String)
  | 0, _ => abort
  | fuel + 1, fields => do
      if (← remaining) = 0 then pure fields
      else do
        let (name, value) ← decodeLine
        decodeLines fuel (fields.insert name value)

def decode : Decoder DecodeError Headers := do
  -- We don't support dynamic entries so we can skip these.
  let _ ← decodePrefix 8
  let _ ← decodePrefix 7
  let size ← remaining
  let fields ← decodeLines (size + 1) ∅
  pure ⟨fields⟩

def encodeIndex (index : Nat) (buf : Bytes) : Bytes := encodePrefix 6 0b11 index buf

def encodeLiteralValue (name : Nat) (value : String) (buf : Bytes) : Bytes :=
  let value := Coding.Str.bytes value
  encodePrefix 7 0b0 value.length (encodePrefix 4 0b0101 name buf) ++ value

def encodeLiteral (name value : String) (buf : Bytes) : Bytes :=
  let name := Coding.Str.bytes name
  let value := Coding.Str.bytes value
  encodePrefix 7 0b0 value.length (encodePrefix 3 0b00100 name.length buf ++ name) ++ value

def encodeLine (buf : Bytes) (field : String × String) : Bytes :=
  match StaticTable.find field.1 field.2 with
  | some index => encodeIndex index buf
  | none =>
      match StaticTable.findName field.1 with
      | some index => encodeLiteralValue index field.2 buf
      | none => encodeLiteral field.1 field.2 buf

/-- `!key.starts_with(':')`. -/
def sortKey (field : String × String) : Bool := !(field.1.toList.head? == some ':')

/-- We must encode pseudo-headers first. -/
def sorted (ord : Hashed.Order String String) (headers : Headers) : List (String × String) :=
  (ord.list headers.fields).mergeSort fun a b => decide (sortKey a ≤ sortKey b)

def encode (ord : Hashed.Order String String) (headers : Headers) (buf : Bytes) : Bytes :=
  let buf := encodePrefix 8 0 0 buf
  let buf := encodePrefix 7 0 0 buf
  (sorted ord headers).foldl encodeLine buf

/-! What other encoders write. -/

/-- The lines for a field. The bit above the index or the name says whether it
may be indexed later. -/
inductive Line : String × String → Bytes → Prop where
  | indexed {field : String × String} {index : Nat}
      (hfield : predefinedHeaders[index]? = some field) : Line field (prefixWire 6 0b11 index)
  | nameRef {name value other : String} {index never : Nat} {wire : Bytes}
      (hname : predefinedHeaders[index]? = some (name, other)) (hnever : never ≤ 1)
      (hvalue : Text 7 0 (Coding.Str.bytes value) wire) :
      Line (name, value) (prefixWire 4 (0b0101 + 2 * never) index ++ wire)
  | literal {name value : String} {never : Nat} {front wire : Bytes} (hnever : never ≤ 1)
      (hname : Text 3 (0b0010 + never) (Coding.Str.bytes name) front)
      (hvalue : Text 7 0 (Coding.Str.bytes value) wire) : Line (name, value) (front ++ wire)

/-- The lines for a list of fields. -/
inductive Lines : List (String × String) → Bytes → Prop where
  | nil : Lines [] []
  | cons {field : String × String} {fields : List (String × String)} {line bs : Bytes}
      (hline : Line field line) (hlines : Lines fields bs) : Lines (field :: fields) (line ++ bs)

theorem index_lt {index : Nat} {field : String × String}
    (h : predefinedHeaders[index]? = some field) : index < 2 ^ 64 := by
  obtain ⟨hlt, -⟩ := List.getElem?_eq_some_iff.mp h
  exact hlt.trans (by decide)

theorem get_eq {index : Nat} {field : String × String}
    (h : predefinedHeaders[index]? = some field) : StaticTable.get index = pure field := by
  rw [StaticTable.get, h]

theorem form_indexed : ∀ n < 256, n / 2 ^ 6 = 3 → n &&& 0b11000000 = 0b11000000 := by
  decide +kernel

theorem form_nameRef : ∀ n < 256, n / 2 ^ 4 = 5 ∨ n / 2 ^ 4 = 7 →
    n &&& 0b11000000 ≠ 0b11000000 ∧ n &&& 0b11000000 ≠ 0b10000000 ∧
      n &&& 0b11010000 = 0b01010000 := by
  decide +kernel

theorem form_literal : ∀ n < 256, n / 2 ^ 4 = 2 ∨ n / 2 ^ 4 = 3 →
    n &&& 0b11000000 ≠ 0b11000000 ∧ n &&& 0b11000000 ≠ 0b10000000 ∧
      n &&& 0b11010000 ≠ 0b01010000 ∧ n &&& 0b11010000 ≠ 0b01000000 ∧
      n &&& 0b11100000 = 0b00100000 := by
  decide +kernel

theorem reads_value {name value : String} {wire : Bytes}
    (hvalue : Text 7 0 (Coding.Str.bytes value) wire) :
    Reads (do
      let value ← decodeString 8
      let value ← fromUtf8 value
      pure (name, value)) wire (name, value) := by
  intro rest
  rw [bind_ok (hvalue.reads (by decide) (by decide) rest), reads_fromUtf8]
  rfl

theorem decodeLine_cons {first : UInt8} {tail rest : Bytes}
    {d : Decoder DecodeError (String × String)} (hform : decodeForm first.toNat = d) :
    decodeLine (first :: tail ++ rest) = d (first :: tail ++ rest) := by
  rw [← hform]
  rfl

/-- Every form is recognized and read. -/
theorem Line.reads {field : String × String} {line : Bytes} (h : Line field line) :
    line ≠ [] ∧ Reads decodeLine line field := by
  cases h with
  | @indexed _ index hfield =>
      have hflags : 0b11 < 2 ^ (8 - 6) := by decide
      obtain ⟨first, tail, hcons, hfirst⟩ := prefixWire_cons index (by decide) hflags
      have hform : decodeForm first.toNat = decodeIndex := by
        rw [decodeForm, if_pos (form_indexed _ first.toNat_lt hfirst)]
      refine ⟨by rw [hcons]; exact List.cons_ne_nil _ _, fun rest => ?_⟩
      rw [hcons, decodeLine_cons hform, ← hcons, decodeIndex,
        bind_ok (reads_prefixWire (by decide) hflags (index_lt hfield) rest)]
      dsimp only
      rw [get_eq hfield]
      rfl
  | @nameRef name value other index never wire hname hnever hvalue =>
      have hflags : 0b0101 + 2 * never < 2 ^ (8 - 4) := by omega
      obtain ⟨first, tail, hcons, hfirst⟩ := prefixWire_cons index (by decide) hflags
      obtain ⟨hstatic, hdynamic, hname'⟩ := form_nameRef _ first.toNat_lt (by omega)
      have hform : decodeForm first.toNat = decodeLiteralValue := by
        rw [decodeForm, if_neg hstatic, if_neg hdynamic, if_pos hname']
      refine ⟨by rw [hcons]; exact List.cons_ne_nil _ _, fun rest => ?_⟩
      rw [List.append_assoc, hcons, decodeLine_cons hform, ← hcons, decodeLiteralValue,
        bind_ok (reads_prefixWire (by decide) hflags (index_lt hname) _)]
      dsimp only
      rw [get_eq hname, pure_bind]
      exact reads_value hvalue rest
  | @literal name value never front wire hnever hname hvalue =>
      have hflags : 2 * (0b0010 + never) + 1 < 2 ^ (8 - 3) := by omega
      obtain ⟨first, tail, hcons, hfirst⟩ := hname.cons (by decide) hflags
      obtain ⟨hstatic, hdynamic, href, hdynamic', hliteral⟩ :=
        form_literal _ first.toNat_lt (by omega)
      have hform : decodeForm first.toNat = decodeLiteral := by
        rw [decodeForm, if_neg hstatic, if_neg hdynamic, if_neg href, if_neg hdynamic',
          if_pos hliteral]
      refine ⟨by rw [hcons]; exact List.cons_ne_nil _ _, fun rest => ?_⟩
      rw [List.append_assoc, hcons, decodeLine_cons hform, ← hcons, decodeLiteral,
        bind_ok (hname.reads (by decide) hflags _), reads_fromUtf8, pure_bind]
      exact reads_value hvalue rest

theorem decodeLines_lines {fields : List (String × String)} {bs : Bytes} (h : Lines fields bs)
    {fuel : Nat} (hfuel : bs.length < fuel) (acc : Hashed.Map String String) :
    decodeLines fuel acc bs = .ok (Hashed.insertAll acc fields, []) := by
  induction h generalizing fuel acc with
  | nil =>
      obtain ⟨fuel, rfl⟩ := Nat.exists_eq_succ_of_ne_zero (Nat.ne_zero_of_lt hfuel)
      rfl
  | @cons field fields line bs hline _ ih =>
      obtain ⟨fuel, rfl⟩ := Nat.exists_eq_succ_of_ne_zero (Nat.ne_zero_of_lt hfuel)
      obtain ⟨hne, hreads⟩ := hline.reads
      have hpos := List.length_pos_iff.mpr hne
      rw [List.length_append] at hfuel
      have hsome : ¬ (line ++ bs).length = 0 := by
        rw [List.length_append]
        omega
      rw [decodeLines, bind_ok (remaining_eq _)]
      simp only [if_neg hsome]
      rw [bind_ok (hreads bs)]
      exact ih (by omega) _

theorem decode_lines {front back bs : Bytes} {x y : Nat × Nat} {fields : List (String × String)}
    (hfront : Reads (decodePrefix 8) front x) (hback : Reads (decodePrefix 7) back y)
    (hlines : Lines fields bs) :
    decode (front ++ (back ++ bs)) = .ok (⟨Hashed.ofPairs fields⟩, []) := by
  rw [decode, bind_ok (hfront _), bind_ok (hback _), bind_ok (remaining_eq _),
    bind_ok (decodeLines_lines hlines (Nat.lt_succ_self _) ∅)]
  rfl

def FieldFits (field : String × String) : Prop :=
  (Coding.Str.bytes field.1).length < 2 ^ 64 ∧ (Coding.Str.bytes field.2).length < 2 ^ 64

/-- The names and the values are in memory. -/
def Fits (headers : Headers) : Prop :=
  ∀ name value, headers.get name = some value → FieldFits (name, value)

theorem mem_of_lookup {K V : Type} [BEq K] [LawfulBEq K] {arms : List (K × V)} {key : K} {index : V}
    (h : arms.lookup key = some index) : (key, index) ∈ arms := by
  obtain ⟨before, after, rfl, -⟩ := List.lookup_eq_some_iff.mp h
  exact List.mem_append_right before (List.mem_cons_self ..)

theorem find_eq {name value : String} {index : Nat} (h : StaticTable.find name value = some index) :
    predefinedHeaders[index]? = some (name, value) :=
  StaticTable.find_arms _ (mem_of_lookup h)

theorem findName_eq {name : String} {index : Nat} (h : StaticTable.findName name = some index) :
    ∃ other, predefinedHeaders[index]? = some (name, other) := by
  have hname := StaticTable.find_name_arms _ (mem_of_lookup h)
  obtain ⟨⟨name', other⟩, hget, heq⟩ := Option.map_eq_some_iff.mp hname
  obtain rfl : name' = name := heq
  exact ⟨other, hget⟩

theorem exists_line {field : String × String} (h : FieldFits field) :
    ∃ line, Line field line ∧ ∀ buf, encodeLine buf field = buf ++ line := by
  obtain ⟨name, value⟩ := field
  obtain ⟨hname, hvalue⟩ := h
  unfold encodeLine
  dsimp only
  cases hfind : StaticTable.find name value with
  | some index =>
      exact ⟨_, .indexed (find_eq hfind), fun buf => encodePrefix_eq ..⟩
  | none =>
      cases hfindName : StaticTable.findName name with
      | some index =>
          obtain ⟨other, hget⟩ := findName_eq hfindName
          refine ⟨_, .nameRef hget (Nat.zero_le 1) (.plain hvalue), fun buf => ?_⟩
          simp only [encodeLiteralValue, encodePrefix_eq 7, encodePrefix_eq 4, List.append_assoc]
      | none =>
          refine ⟨_, .literal (Nat.zero_le 1) (.plain hname) (.plain hvalue), fun buf => ?_⟩
          simp only [encodeLiteral, encodePrefix_eq 7, encodePrefix_eq 3, List.append_assoc]

theorem exists_lines {fields : List (String × String)} (h : ∀ field ∈ fields, FieldFits field) :
    ∃ bs, Lines fields bs ∧ ∀ buf, fields.foldl encodeLine buf = buf ++ bs := by
  induction fields with
  | nil => exact ⟨[], .nil, fun buf => (List.append_nil buf).symm⟩
  | cons field fields ih =>
      obtain ⟨line, hline, hencode⟩ := exists_line (h field (List.mem_cons_self ..))
      obtain ⟨bs, hlines, hfold⟩ := ih fun f hf => h f (List.mem_cons_of_mem field hf)
      refine ⟨line ++ bs, .cons hline hlines, fun buf => ?_⟩
      rw [List.foldl_cons, hencode, hfold, List.append_assoc]

theorem perm_sorted (ord : Hashed.Order String String) (headers : Headers) :
    (sorted ord headers).Perm (ord.list headers.fields) :=
  List.mergeSort_perm _ _

theorem fits_sorted (ord : Hashed.Order String String) {headers : Headers} (h : Fits headers) :
    ∀ field ∈ sorted ord headers, FieldFits field := by
  rintro ⟨name, value⟩ hfield
  rw [(perm_sorted ord headers).mem_iff, ord.mem_list_iff] at hfield
  exact h name value (Finmap.mem_lookup_iff.mpr hfield)

theorem exists_split {α : Type} {key : α → Bool} {xs : List α}
    (h : xs.Pairwise fun a b => decide (key a ≤ key b)) :
    ∃ low high, xs = low ++ high ∧ (∀ x ∈ low, key x = false) ∧ ∀ x ∈ high, key x = true := by
  induction xs with
  | nil => exact ⟨[], [], rfl, by simp, by simp⟩
  | cons x xs ih =>
      obtain ⟨hle, hrest⟩ := List.pairwise_cons.mp h
      cases hx : key x with
      | true =>
          refine ⟨[], x :: xs, rfl, by simp, fun y hy => ?_⟩
          rcases List.mem_cons.mp hy with rfl | hy
          · exact hx
          · have hxy := of_decide_eq_true (hle y hy)
            rw [hx] at hxy
            exact hxy rfl
      | false =>
          obtain ⟨low, high, rfl, hlow, hhigh⟩ := ih hrest
          refine ⟨x :: low, high, rfl, fun y hy => ?_, hhigh⟩
          rcases List.mem_cons.mp hy with rfl | hy
          · exact hx
          · exact hlow y hy

theorem sorted_split (ord : Hashed.Order String String) (headers : Headers) :
    ∃ pseudo others, sorted ord headers = pseudo ++ others ∧
      (∀ field ∈ pseudo, sortKey field = false) ∧ ∀ field ∈ others, sortKey field = true := by
  refine exists_split (List.pairwise_mergeSort ?_ ?_ _)
  · intro a b c hab hbc
    exact decide_eq_true ((of_decide_eq_true hab).trans (of_decide_eq_true hbc))
  · intro a b
    rw [Bool.or_eq_true, decide_eq_true_eq, decide_eq_true_eq]
    exact le_total _ _

/-- All the pseudo-headers come before the others. -/
def PseudoFirst (bytes : Bytes) : Prop :=
  ∃ pseudo others bs cs, Lines pseudo bs ∧ Lines others cs ∧
    (∀ field ∈ pseudo, sortKey field = false) ∧ (∀ field ∈ others, sortKey field = true) ∧
    bytes = prefixWire 8 0 0 ++ (prefixWire 7 0 0 ++ (bs ++ cs))

/-- Headers are read back as they were, in whatever order the hash map gives
them out. -/
theorem decode_encode_fields (ord : Hashed.Order String String) {headers : Headers}
    (h : Fits headers) :
    decode (encode ord headers []) = .ok (headers, []) ∧ PseudoFirst (encode ord headers []) := by
  have hfits := fits_sorted ord h
  have hencode {bs : Bytes} (hfold : ∀ buf, (sorted ord headers).foldl encodeLine buf = buf ++ bs) :
      encode ord headers [] = prefixWire 8 0 0 ++ (prefixWire 7 0 0 ++ bs) := by
    rw [encode, hfold, encodePrefix_eq 7, List.append_assoc]
    rfl
  constructor
  · obtain ⟨bs, hlines, hfold⟩ := exists_lines hfits
    rw [hencode hfold, decode_lines (reads_prefixWire (by decide) (by decide) (by decide))
      (reads_prefixWire (by decide) (by decide) (by decide)) hlines,
      Hashed.ofPairs_perm ord headers.fields (perm_sorted ord headers)]
  · obtain ⟨pseudo, others, hsplit, hpseudo, hothers⟩ := sorted_split ord headers
    rw [hsplit] at hfits hencode
    obtain ⟨bs, hlines, hfold⟩ := exists_lines fun f hf => hfits f (List.mem_append_left _ hf)
    obtain ⟨cs, hlines', hfold'⟩ := exists_lines fun f hf => hfits f (List.mem_append_right _ hf)
    refine ⟨pseudo, others, bs, cs, hlines, hlines', hpseudo, hothers, hencode fun buf => ?_⟩
    rw [List.foldl_append, hfold, hfold', List.append_assoc]

theorem Fits.set {headers : Headers} (h : Fits headers) {name value : String}
    (hfield : FieldFits (name, value)) : Fits (headers.set name value) := by
  intro name' value' hget
  by_cases hname : name' = name
  · subst hname
    obtain rfl : value = value' := Option.some.inj ((Finmap.lookup_insert _).symm.trans hget)
    exact hfield
  · rw [get, Headers.set, Finmap.lookup_insert_of_ne _ hname] at hget
    exact h name' value' hget

/-- A field whose name is in the static table, one that is there with its value,
and one that is not there at all. -/
theorem decode_encode_request :
    decode (encode default (((empty.set "origin" "https://a").set "x-room" "1").set ":path" "/")
        []) = .ok (((empty.set "origin" "https://a").set "x-room" "1").set ":path" "/", []) ∧
      PseudoFirst (encode default
        (((empty.set "origin" "https://a").set "x-room" "1").set ":path" "/") []) := by
  have hempty : Fits empty := fun name value h => by simp [empty, get] at h
  have horigin : FieldFits ("origin", "https://a") := ⟨by decide, by decide⟩
  have hroom : FieldFits ("x-room", "1") := ⟨by decide, by decide⟩
  have hpath : FieldFits (":path", "/") := ⟨by decide, by decide⟩
  exact decode_encode_fields default (((hempty.set horigin).set hroom).set hpath)

/-! Whatever the other side sends, no read goes past the end of it. -/

theorem safe_decodeRest {limit value power : Nat} : Safe limit 1 (decodeRest value power) := by
  intro r hr
  induction r generalizing value power with
  | nil => exact .inl ⟨_, rfl⟩
  | cons byte rest ih =>
      rw [decodeRest]
      split
      · exact .inr ⟨_, _, rfl, Nat.le_refl _⟩
      · split
        · exact .inl ⟨_, rfl⟩
        · rcases ih (Nat.lt_of_succ_lt hr) with he | ⟨x, rest', hx, hlength⟩
          · exact .inl he
          · exact .inr ⟨x, rest', hx, Nat.le_succ_of_le hlength⟩

theorem safe_decodePrefix {limit size : Nat} : Safe limit 1 (decodePrefix size) := by
  intro r hr
  cases r with
  | nil => exact .inl ⟨_, rfl⟩
  | cons byte rest =>
      rw [decodePrefix]
      split
      · exact .inr ⟨_, _, rfl, Nat.le_refl _⟩
      · have hrest : Safe limit 1 (decodeRest (0xff >>> (8 - size)) 0) := safe_decodeRest
        rcases hrest rest (Nat.lt_of_succ_lt hr) with ⟨e, he⟩ | ⟨x, rest', hx, hlength⟩
        · exact .inl ⟨e, map_error _ he⟩
        · exact .inr ⟨_, rest', map_ok _ hx, Nat.le_succ_of_le hlength⟩

theorem safe_decodeHuffman {limit : Nat} {payload : Bytes} (h : payload.length < 2 ^ 28) :
    Safe limit 0 (decodeHuffman payload) := by
  intro r _
  unfold decodeHuffman
  split
  · exact .inr ⟨_, r, rfl, Nat.le_refl _⟩
  · exact .inl ⟨_, rfl⟩
  · next hpanic => exact absurd hpanic (Huffman.hpackDecode_ne_panic h)

theorem safe_decodeString {size : Nat} : Safe (2 ^ 28) 1 (decodeString size) := by
  intro r hr
  rw [decodeString, bind_ok (remaining_eq r)]
  by_cases hnone : r.length = 0
  · simp only [if_pos hnone]
    exact .inl ⟨_, rfl⟩
  simp only [if_neg hnone]
  rcases safe_decodePrefix r hr with ⟨e, he⟩ | ⟨⟨flags, len⟩, rest, hx, hlength⟩
  · exact .inl ⟨e, bind_error he⟩
  refine (bind_ok hx).symm ▸ ?_
  dsimp only
  rw [bind_ok (remaining_eq rest)]
  by_cases hshort : rest.length < len
  · simp only [if_pos hshort]
    exact .inl ⟨_, rfl⟩
  simp only [if_neg hshort]
  have htake : (rest.take len).length = len := by
    rw [List.length_take]
    omega
  have hcopy : (copyToSlice len : Decoder DecodeError _) (rest.take len ++ rest.drop len) = _ :=
    reads_copyToSlice (rest.take len) len htake (rest.drop len)
  rw [List.take_append_drop] at hcopy
  rw [bind_ok hcopy]
  have hdrop : (rest.drop len).length ≤ rest.length := by
    rw [List.length_drop]
    omega
  split
  · exact .inr ⟨_, _, rfl, by omega⟩
  · have hpayload : (rest.take len).length < 2 ^ 28 := by omega
    rcases safe_decodeHuffman hpayload (rest.drop len) (by omega : _ < 2 ^ 28) with
      he | ⟨x, rest', hx, hlength'⟩
    · exact .inl he
    · exact .inr ⟨x, rest', hx, by omega⟩

theorem safe_fromUtf8 {limit : Nat} (bs : Bytes) : Safe limit 0 (fromUtf8 bs) := by
  unfold fromUtf8
  split
  · exact .pure _
  · exact .fail _

theorem safe_get {limit : Nat} (index : Nat) : Safe limit 0 (StaticTable.get index) := by
  unfold StaticTable.get
  split
  · exact .pure _
  · exact .fail _

theorem safe_decodeForm (peek : Nat) : Safe (2 ^ 28) 1 (decodeForm peek) := by
  have hindex : Safe (2 ^ 28) 1 decodeIndex :=
    safe_decodePrefix.bind fun field => safe_get field.2
  have hvalue (name : String) : Safe (2 ^ 28) 1 (do
      let value ← decodeString 8
      let value ← fromUtf8 value
      pure (name, value)) :=
    safe_decodeString.bind fun bs => (safe_fromUtf8 bs).bind fun value => .pure (name, value)
  have hliteralValue : Safe (2 ^ 28) 1 decodeLiteralValue :=
    (safe_decodePrefix.bind fun field =>
      (safe_get field.2).bind fun entry => hvalue entry.1).mono (Nat.le_add_right 1 _)
  have hliteral : Safe (2 ^ 28) 1 decodeLiteral :=
    (safe_decodeString.bind fun bs => (safe_fromUtf8 bs).bind fun name => hvalue name).mono
      (Nat.le_add_right 1 _)
  unfold decodeForm
  split_ifs
  · exact hindex
  · exact .fail _
  · exact hliteralValue
  · exact .fail _
  · exact hliteral
  · exact .fail _
  · exact .fail _
  · exact .fail _

theorem decodeLines_ne_panic {fuel : Nat} {fields : Hashed.Map String String} {r : Bytes}
    (hfuel : r.length < fuel) (hr : r.length < 2 ^ 28) :
    decodeLines fuel fields r ≠ .error .panic := by
  induction fuel generalizing fields r with
  | zero => cases hfuel
  | succ fuel ih =>
      rw [decodeLines, bind_ok (remaining_eq r)]
      cases r with
      | nil =>
          intro hpanic
          cases hpanic
      | cons peek rest =>
          have hsome : ¬ (peek :: rest).length = 0 := Nat.succ_ne_zero _
          simp only [if_neg hsome]
          rcases safe_decodeForm peek.toNat (peek :: rest) hr with
            ⟨e, he⟩ | ⟨⟨name, value⟩, rest', hx, hlength⟩
          · have hline : decodeLine (peek :: rest) = .error (.err e) := he
            rw [bind_error hline]
            simp
          · have hline : decodeLine (peek :: rest) = .ok ((name, value), rest') := hx
            rw [bind_ok hline]
            exact ih (by omega) (by omega)

theorem decode_ne_panic {r : Bytes} (hr : r.length < 2 ^ 28) : decode r ≠ .error .panic := by
  unfold decode
  rcases safe_decodePrefix r hr with ⟨e, he⟩ | ⟨x, rest, hx, hlength⟩
  · rw [bind_error he]
    simp
  rw [bind_ok hx]
  rcases safe_decodePrefix rest (by omega : _ < 2 ^ 28) with ⟨e, he⟩ | ⟨y, rest', hy, hlength'⟩
  · rw [bind_error he]
    simp
  rw [bind_ok hy, bind_ok (remaining_eq rest')]
  cases hlines : decodeLines (rest'.length + 1) ∅ rest' with
  | ok out =>
      rw [bind_ok hlines]
      intro hpanic
      cases hpanic
  | error fault =>
      rw [bind_error hlines]
      intro hpanic
      cases hpanic
      exact decodeLines_ne_panic (Nat.lt_succ_self _) (by omega) hlines

theorem decodeLines_rest {fuel : Nat} {fields fields' : Hashed.Map String String}
    {r rest : Bytes} (h : decodeLines fuel fields r = .ok (fields', rest)) : rest = [] := by
  induction fuel generalizing fields r with
  | zero => cases h
  | succ fuel ih =>
      rw [decodeLines, bind_ok (remaining_eq r)] at h
      split at h
      · next hnone =>
          cases h
          exact List.length_eq_zero_iff.mp hnone
      · obtain ⟨⟨name, value⟩, mid, -, hmore⟩ := bind_eq_ok h
        exact ih hmore

/-- Whatever the bytes are, the decoder takes them all for a field section or
gives an error of its own: it neither panics nor goes on for ever. -/
theorem decode_total (r : Bytes) (hr : r.length < 2 ^ 28) :
    (∃ headers, decode r = .ok (headers, [])) ∨ ∃ e, decode r = .error (.err e) := by
  cases hdecode : decode r with
  | ok out =>
      obtain ⟨headers, rest⟩ := out
      obtain ⟨_, _, -, hback⟩ := bind_eq_ok hdecode
      obtain ⟨_, mid, -, hlines⟩ := bind_eq_ok hback
      rw [bind_ok (remaining_eq mid)] at hlines
      obtain ⟨fields, rest', hfields, hpure⟩ := bind_eq_ok hlines
      cases hpure
      obtain rfl := decodeLines_rest hfields
      exact .inl ⟨_, rfl⟩
  | error fault =>
      cases fault with
      | err e => exact .inr ⟨e, rfl⟩
      | panic => exact absurd hdecode (decode_ne_panic hr)

/-- An entry of the dynamic table. -/
theorem decode_total_dynamic :
    decode [0x00, 0x00, 0x80] = .error (.err .dynamicEntry) ∧
      ((∃ headers, decode [0x00, 0x00, 0x80] = .ok (headers, [])) ∨
        ∃ e, decode [0x00, 0x00, 0x80] = .error (.err e)) :=
  ⟨rfl, decode_total _ (by decide)⟩

end Headers

end MoqTransport.Proto.Qpack
