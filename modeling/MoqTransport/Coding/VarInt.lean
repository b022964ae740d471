import MoqTransport.Lib.Delimits
import MoqTransport.Lib.Encoder

/-!
The codec errors and the QUIC variable-length integer. All wire integers of
the protocol (`u64` and `usize`) go through `VarInt`, whose values are below
`2 ^ 62`; the two high bits of the first byte give the length of the form.

`u64` and `usize` values are natural numbers here. Neither codec computes
with them beyond the explicit truncations below, and both refuse values from
`2 ^ 62` on.
-/

namespace MoqTransport.Coding

open Streaming

inductive DecodeError where
  | more (needed : Nat)
  | invalidLength (expected got : Nat)
  | invalidString
  | invalidMessage (id : Nat)
  | invalidRole (role : Nat)
  | invalidSubscribeLocation
  | invalidFilterType
  | invalidGroupOrder
  | invalidObjectStatus
  | invalidTrackStatusCode
  | missingField
  | invalidValue
  | boundsExceeded
  | duplicateParameter
  | missingParameter
  | invalidParameter
deriving DecidableEq

inductive EncodeError where
  | more (needed : Nat)
  | boundsExceeded
  | invalidValue
  | missingField
deriving DecidableEq

instance : AsksMore DecodeError := ⟨.more⟩

instance : AsksMore EncodeError := ⟨.more⟩

abbrev Decode (α : Type) := Decoder DecodeError α

abbrev Encode := Encoder EncodeError Unit

/-- The growable writers of the source: a `Vec<u8>` may hold `isize::MAX`
bytes, a `BytesMut` `usize::MAX`. -/
def vec : BufMut := ⟨[], 2 ^ 63 - 1⟩

def bytesMut : BufMut := ⟨[], 2 ^ 64 - 1⟩

/-- An integer less than `2 ^ 62`. -/
@[ext]
structure VarInt where
  val : Nat
  lt : val < 2 ^ 62
deriving DecidableEq

namespace VarInt

def tryFrom (x : Nat) : Option VarInt :=
  if h : x < 2 ^ 62 then some ⟨x, h⟩ else none

theorem masked_lt (b : UInt8) : (b &&& 0b00111111).toNat < 64 := by
  rw [UInt8.toNat_and]
  exact Nat.lt_of_le_of_lt Nat.and_le_right (by decide)

theorem masked_be_lt (b : UInt8) (tail : Bytes) (hlen : tail.length ≤ 7) :
    fromBeBytes ((b &&& 0b00111111) :: tail) < 2 ^ 62 := by
  rw [fromBeBytes_cons]
  have hb := masked_lt b
  have htail := fromBeBytes_lt tail
  have hpow : 256 ^ tail.length ≤ 256 ^ 7 := Nat.pow_le_pow_right (by omega) hlen
  have hmul : (b &&& 0b00111111).toNat * 256 ^ tail.length ≤ 63 * 256 ^ tail.length :=
    Nat.mul_le_mul_right _ (by omega)
  omega

/-- The first byte without its length bits, followed by the other bytes of
the form, read as one big-endian number. -/
def ofBeBytes {n : Nat} (b : UInt8) (tail : List.Vector UInt8 n) (hn : n ≤ 7) : VarInt :=
  ⟨fromBeBytes ((b &&& 0b00111111) :: tail.toList),
    masked_be_lt b tail.toList (by simpa using hn)⟩

/-- What follows the first byte `b`, chosen by its two length bits. -/
def decodeForm (b : UInt8) : Decode VarInt :=
  match (b >>> 6).toNat with
  | 0b00 => pure (ofBeBytes b List.Vector.nil (by decide))
  | 0b01 => do
      decodeRemaining 1
      let tail ← copyToSlice 1
      pure (ofBeBytes b tail (by decide))
  | 0b10 => do
      decodeRemaining 3
      let tail ← copyToSlice 3
      pure (ofBeBytes b tail (by decide))
  | 0b11 => do
      decodeRemaining 7
      let tail ← copyToSlice 7
      pure (ofBeBytes b tail (by decide))
  | _ => abort

def decode : Decode VarInt := do
  decodeRemaining 1
  let b ← getU8
  decodeForm b

def encode (v : VarInt) : Encode :=
  let x := v.val
  if x < 2 ^ 6 then do
    encodeRemaining 1
    putBe 1 (x % 2 ^ 8)
  else if x < 2 ^ 14 then do
    encodeRemaining 2
    putBe 2 (0b01 <<< 14 ||| x % 2 ^ 16)
  else if x < 2 ^ 30 then do
    encodeRemaining 4
    putBe 4 (0b10 <<< 30 ||| x % 2 ^ 32)
  else if x < 2 ^ 62 then do
    encodeRemaining 8
    putBe 8 (0b11 <<< 62 ||| x)
  else
    refuse .boundsExceeded

/-- The bytes of `x`: the shortest of the four forms, with its length bits
on top. -/
def wire (x : Nat) : Bytes :=
  if x < 2 ^ 6 then toBeBytes 1 x
  else if x < 2 ^ 14 then toBeBytes 2 (1 * 2 ^ 14 + x)
  else if x < 2 ^ 30 then toBeBytes 4 (2 * 2 ^ 30 + x)
  else toBeBytes 8 (3 * 2 ^ 62 + x)

theorem wire_length_le (x : Nat) : (wire x).length ≤ 8 := by
  unfold wire
  split
  · simp
  · split
    · simp
    · split <;> simp

theorem wire_length_pos (x : Nat) : 1 ≤ (wire x).length := by
  unfold wire
  split
  · simp
  · split
    · simp
    · split <;> simp

theorem or_tag (tag bits x : Nat) (h : x < 2 ^ bits) :
    tag <<< bits ||| x = tag * 2 ^ bits + x := by
  rw [Nat.shiftLeft_eq, Nat.mul_comm, Nat.two_pow_add_eq_or_of_lt h]

theorem emits_encode (v : VarInt) : Emits v.encode True (wire v.val) := by
  obtain ⟨x, hx⟩ := v
  unfold encode wire
  dsimp only
  split
  · next h =>
      rw [Nat.mod_eq_of_lt (by omega)]
      exact (emits_put _).checked 1 (by simp)
  · split
    · next h =>
        rw [Nat.mod_eq_of_lt (by omega), or_tag _ _ _ h]
        exact (emits_put _).checked 2 (by simp)
    · split
      · next h =>
          rw [Nat.mod_eq_of_lt (by omega), or_tag _ _ _ h]
          exact (emits_put _).checked 4 (by simp)
      · rw [or_tag _ _ _ hx]
        exact (emits_put _).checked 8 (by simp)

theorem tag_byte (tag high : Nat) (htag : tag < 4) (hhigh : high < 64) :
    (UInt8.ofNat (tag * 64 + high) >>> 6).toNat = tag ∧
      (UInt8.ofNat (tag * 64 + high) &&& 0b00111111).toNat = high := by
  have hval : (UInt8.ofNat (tag * 64 + high)).toNat = tag * 64 + high :=
    UInt8.toNat_ofNat_of_lt (by simp [UInt8.size]; omega)
  constructor
  · rw [UInt8.toNat_shiftRight, hval]
    have hshift : (6 : UInt8).toNat % 8 = 6 := by decide
    rw [hshift, Nat.shiftRight_eq_div_pow]
    omega
  · rw [UInt8.toNat_and, hval]
    have hmask : (0b00111111 : UInt8).toNat = 2 ^ 6 - 1 := by decide
    rw [hmask, Nat.and_two_pow_sub_one_eq_mod]
    omega

/-- A form with `k` bytes after the first, seen as first byte and tail. -/
theorem form_eq (tag k x : Nat) :
    toBeBytes (k + 1) (tag * (64 * 256 ^ k) + x) =
      UInt8.ofNat (tag * 64 + x / 256 ^ k) :: toBeBytes k x := by
  have hdiv : (tag * (64 * 256 ^ k) + x) / 256 ^ k = tag * 64 + x / 256 ^ k := by
    have hcomm : tag * (64 * 256 ^ k) + x = x + tag * 64 * 256 ^ k := by ring
    rw [hcomm, Nat.add_mul_div_right _ _ (by positivity), Nat.add_comm]
  rw [toBeBytes, hdiv]
  congr 1
  rw [← toBeBytes_add_mul k x (tag * 64)]
  congr 1
  ring

/-- The value read back from a form. -/
theorem form_value (tag k x : Nat) (htag : tag < 4) (hx : x < 64 * 256 ^ k) :
    fromBeBytes ((UInt8.ofNat (tag * 64 + x / 256 ^ k) &&& 0b00111111) :: toBeBytes k x) = x := by
  have hhigh : x / 256 ^ k < 64 := (Nat.div_lt_iff_lt_mul (by positivity)).mpr hx
  rw [fromBeBytes_cons, (tag_byte tag _ htag hhigh).2, fromBeBytes_toBeBytes, toBeBytes_length]
  have hsplit := Nat.div_add_mod x (256 ^ k)
  rw [Nat.mul_comm] at hsplit
  exact hsplit

/-- After the first byte, a form of known length is a length check and a
copy. -/
theorem transfers_tail (tag k x : Nat) (hk : k ≤ 7) (htag : tag < 4)
    (hx : x < 64 * 256 ^ k) (hlt : x < 2 ^ 62) :
    Transfers (do
        decodeRemaining k
        let tail ← copyToSlice k
        pure (ofBeBytes (UInt8.ofNat (tag * 64 + x / 256 ^ k)) tail hk) : Decode VarInt)
      (toBeBytes k x) ⟨x, hlt⟩ := by
  have hlen : (toBeBytes k x).length = k := toBeBytes_length k x
  have hvalue : ofBeBytes (UInt8.ofNat (tag * 64 + x / 256 ^ k)) ⟨toBeBytes k x, hlen⟩ hk =
      ⟨x, hlt⟩ := VarInt.ext (form_value tag k x htag hx)
  have h := Transfers.checked_bind (f := fun tail => (pure (ofBeBytes
    (UInt8.ofNat (tag * 64 + x / 256 ^ k)) tail hk) : Decode VarInt)) k hlen
    (reads_copyToSlice _ k hlen) (Transfers.pure _)
  rwa [List.append_nil, hvalue] at h

/-- The first byte of a form in front of the rest of it. -/
theorem transfers_form (tag k x : Nat) (hlt : x < 2 ^ 62)
    (hrest : Transfers (decodeForm (UInt8.ofNat (tag * 64 + x / 256 ^ k))) (toBeBytes k x)
      ⟨x, hlt⟩) :
    Transfers decode (toBeBytes (k + 1) (tag * (64 * 256 ^ k) + x)) ⟨x, hlt⟩ := by
  rw [form_eq, ← List.singleton_append]
  exact Transfers.checked_bind 1 rfl (reads_getU8 _) hrest

theorem decodeForm_tag (tag k x : Nat) (htag : tag < 4) (hx : x < 64 * 256 ^ k) :
    (UInt8.ofNat (tag * 64 + x / 256 ^ k) >>> 6).toNat = tag :=
  (tag_byte tag _ htag ((Nat.div_lt_iff_lt_mul (by positivity)).mpr hx)).1

theorem transfers_decode (v : VarInt) : Transfers decode (wire v.val) v := by
  obtain ⟨x, hx⟩ := v
  unfold wire
  dsimp only
  split
  · next h =>
      have hform := transfers_form 0 0 x hx (by
        unfold decodeForm
        rw [decodeForm_tag 0 0 x (by omega) (by omega)]
        refine (Transfers.pure _).of_value (VarInt.ext ?_)
        exact form_value 0 0 x (by omega) (by omega))
      simpa using hform
  · split
    · next h =>
        refine transfers_form 1 1 x hx ?_
        unfold decodeForm
        rw [decodeForm_tag 1 1 x (by omega) (by omega)]
        exact transfers_tail 1 1 x (by omega) (by omega) (by omega) hx
    · split
      · next h =>
          refine transfers_form 2 3 x hx ?_
          unfold decodeForm
          rw [decodeForm_tag 2 3 x (by omega) (by omega)]
          exact transfers_tail 2 3 x (by omega) (by omega) (by omega) hx
      · refine transfers_form 3 7 x hx ?_
        unfold decodeForm
        rw [decodeForm_tag 3 7 x (by omega) (by omega)]
        exact transfers_tail 3 7 x (by omega) (by omega) (by omega) hx

theorem shrinks_decodeForm (b : UInt8) : Shrinks (decodeForm b) 0 := by
  have htail (k : Nat) (f : List.Vector UInt8 k → VarInt) :
      Shrinks (do decodeRemaining k; let tail ← copyToSlice k; pure (f tail) : Decode VarInt) 0 :=
    (shrinks_decodeRemaining k).bind fun _ =>
      (shrinks_copyToSlice k).bind fun _ => Shrinks.pure _
  unfold decodeForm
  split
  · exact Shrinks.pure _
  · exact htail 1 _
  · exact htail 3 _
  · exact htail 7 _
  · intro r x rest h
    cases h

theorem shrinks_decode : Shrinks decode 1 :=
  (shrinks_decodeRemaining 1).bind fun _ => shrinks_getU8.bind shrinks_decodeForm

/-- The two length bits have four values, so the last branch is dead. -/
theorem length_bits_lt (b : UInt8) : (b >>> 6).toNat < 4 := by
  have hb := b.toNat_lt
  have hshift : (6 : UInt8).toNat % 8 = 6 := by decide
  rw [UInt8.toNat_shiftRight, hshift, Nat.shiftRight_eq_div_pow]
  omega

theorem delimits_decodeForm (b : UInt8) : Delimits (decodeForm b) := by
  have htail (k : Nat) (f : List.Vector UInt8 k → VarInt) :
      Delimits (do decodeRemaining k; let tail ← copyToSlice k; pure (f tail) : Decode VarInt) :=
    Delimits.copyToSlice_bind fun _ => Delimits.pure _
  have hbits := length_bits_lt b
  unfold decodeForm
  split
  · exact Delimits.pure _
  · exact htail 1 _
  · exact htail 3 _
  · exact htail 7 _
  · next h0 h1 h2 h3 =>
      simp only [imp_false] at h0 h1 h2 h3
      omega

theorem delimits_decode : Delimits decode := Delimits.getU8_bind delimits_decodeForm

/-- The length of the form a buffer starts with; it takes one byte to tell. -/
def formLength : Bytes → Nat
  | [] => 1
  | b :: _ => 2 ^ (b >>> 6).toNat

theorem length_bits_cases (b : UInt8) :
    (b >>> 6).toNat = 0 ∨ (b >>> 6).toNat = 1 ∨ (b >>> 6).toNat = 2 ∨ (b >>> 6).toNat = 3 := by
  have hbits := length_bits_lt b
  omega

theorem formLength_bounds (r : Bytes) : 1 ≤ formLength r ∧ formLength r ≤ 8 := by
  cases r with
  | nil => exact ⟨by decide, by decide⟩
  | cons b r =>
      simp only [formLength]
      rcases length_bits_cases b with hb | hb | hb | hb
      all_goals
        rw [hb]
        decide

/-- A first byte with as many others as it announces is a form. -/
theorem reads_form {b : UInt8} {tail : Bytes} (hlen : tail.length + 1 = formLength [b]) :
    ∃ v : VarInt, v.val = fromBeBytes ((b &&& 0b00111111) :: tail) ∧
      Reads decode (b :: tail) v := by
  have hk : tail.length ≤ 7 := by
    have hbounds := formLength_bounds [b]
    omega
  refine ⟨⟨_, masked_be_lt b tail hk⟩, rfl, ?_⟩
  intro rest
  have hroom : 1 ≤ (b :: tail ++ rest).length := by simp
  have hget : (getU8 : Decode UInt8) (b :: tail ++ rest) = .ok (b, tail ++ rest) := rfl
  have htail (k : Nat) (hlen : tail.length = k) (hk : k ≤ 7) :
      (do
        decodeRemaining k
        let buf ← copyToSlice k
        pure (ofBeBytes b buf hk) : Decode VarInt) (tail ++ rest) =
      .ok (⟨fromBeBytes ((b &&& 0b00111111) :: tail), masked_be_lt b tail (by omega)⟩, rest) := by
    rw [bind_ok (decodeRemaining_of_le (by rw [List.length_append]; omega)),
      bind_ok (reads_copyToSlice tail k hlen rest)]
    rfl
  unfold decode
  rw [bind_ok (decodeRemaining_of_le hroom), bind_ok hget]
  unfold decodeForm
  simp only [formLength] at hlen
  rcases length_bits_cases b with hb | hb | hb | hb
  all_goals rw [hb] at hlen ⊢
  · obtain rfl : tail = [] := List.eq_nil_of_length_eq_zero (by omega)
    rfl
  · exact htail 1 (by omega) _
  · exact htail 3 (by omega) _
  · exact htail 7 (by omega) _

/-- A buffer shorter than its form asks for what is missing of it. -/
theorem decode_short {r : Bytes} (h : r.length < formLength r) :
    decode r = .error (.err (.more (formLength r - r.length))) := by
  have hcheck (k needed : Nat) (r : Bytes) (hneeded : needed = k - r.length)
      (hpos : 0 < needed) :
      (decodeRemaining k : Decode Unit) r = .error (.err (.more needed)) := by
    subst hneeded
    exact if_pos hpos
  cases r with
  | nil => exact bind_error (hcheck 1 _ [] rfl (by simp [formLength]))
  | cons b r =>
      have hroom : 1 ≤ (b :: r).length := by simp
      have hget : (getU8 : Decode UInt8) (b :: r) = .ok (b, r) := rfl
      unfold decode
      rw [bind_ok (decodeRemaining_of_le hroom), bind_ok hget]
      unfold decodeForm
      simp only [formLength, List.length_cons] at h ⊢
      rcases length_bits_cases b with hb | hb | hb | hb
      all_goals rw [hb] at h ⊢
      · omega
      · exact bind_error (hcheck 1 _ r (by omega) (by omega))
      · exact bind_error (hcheck 3 _ r (by omega) (by omega))
      · exact bind_error (hcheck 7 _ r (by omega) (by omega))

/-- A buffer as long as its form is read. -/
theorem decode_long {r : Bytes} (h : formLength r ≤ r.length) :
    ∃ v, decode r = .ok (v, r.drop (formLength r)) := by
  cases r with
  | nil => simp [formLength] at h
  | cons b r =>
      have hpos := (formLength_bounds (b :: r)).1
      obtain ⟨k, hk⟩ : ∃ k, formLength (b :: r) = k + 1 := ⟨formLength (b :: r) - 1, by omega⟩
      rw [hk, List.length_cons] at h
      have hlen : (r.take k).length + 1 = formLength [b] := by
        rw [List.length_take_of_le (by omega)]
        exact hk.symm
      obtain ⟨v, -, hv⟩ := reads_form hlen
      refine ⟨v, ?_⟩
      have hread := hv (r.drop k)
      rw [List.cons_append, List.take_append_drop] at hread
      rw [hk, List.drop_succ_cons]
      exact hread

end VarInt

end MoqTransport.Coding
