import MoqTransport.Coding.Fields
import MoqTransport.Lib.InPlace

/-!
The forms of a variable-length integer. A form is a first byte with as many
others as its two high bits announce, and it stands for the big-endian number
of its other bits. The decoder reads every form, however long it is for its
number; the encoder writes the shortest one. A form that is cut off makes the
decoder ask for exactly the bytes that are missing.

The integer encoders are also given with a writer that outlives an error, to
say what it holds then.
-/

namespace MoqTransport.Coding

open Streaming

namespace VarInt

structure Form where
  head : UInt8
  tail : Bytes
  announced : tail.length + 1 = formLength [head]

namespace Form

def bytes (form : Form) : Bytes := form.head :: form.tail

/-- All bits of the form but the two that give its length. -/
def value (form : Form) : Nat := fromBeBytes form.bytes % 2 ^ (8 * form.bytes.length - 2)

theorem length_eq (form : Form) : form.bytes.length = formLength form.bytes := form.announced

theorem length_cases (form : Form) :
    form.bytes.length = 1 ∨ form.bytes.length = 2 ∨ form.bytes.length = 4 ∨
      form.bytes.length = 8 := by
  rw [length_eq]
  simp only [bytes, formLength]
  rcases length_bits_cases form.head with hbits | hbits | hbits | hbits
  all_goals
    rw [hbits]
    decide

end Form

theorem mask_eq_mod (b : UInt8) : (b &&& 0b00111111).toNat = b.toNat % 64 := by
  have hmask : (0b00111111 : UInt8).toNat = 2 ^ 6 - 1 := by decide
  rw [UInt8.toNat_and, hmask, Nat.and_two_pow_sub_one_eq_mod]

/-- Masking the length bits of the first byte is taking the low bits of the
whole number. -/
theorem masked_be_eq_mod (b : UInt8) (tail : Bytes) :
    fromBeBytes ((b &&& 0b00111111) :: tail) =
      fromBeBytes (b :: tail) % 2 ^ (8 * (tail.length + 1) - 2) := by
  have htail := fromBeBytes_lt tail
  have hpow : 2 ^ (8 * (tail.length + 1) - 2) = 256 ^ tail.length * 64 := by
    have hexp : 8 * (tail.length + 1) - 2 = 8 * tail.length + 6 := by omega
    rw [hexp, Nat.pow_add, Nat.pow_mul]
  have hhigh : (b.toNat * 256 ^ tail.length + fromBeBytes tail) / 256 ^ tail.length = b.toNat := by
    rw [Nat.mul_comm, Nat.mul_add_div (by positivity), Nat.div_eq_of_lt htail, Nat.add_zero]
  have hlow : (b.toNat * 256 ^ tail.length + fromBeBytes tail) % 256 ^ tail.length =
      fromBeBytes tail := by
    rw [Nat.mul_comm, Nat.mul_add_mod, Nat.mod_eq_of_lt htail]
  rw [fromBeBytes_cons, fromBeBytes_cons, mask_eq_mod, hpow, Nat.mod_mul, hhigh, hlow]
  ring

namespace Form

/-- Every form is read, whatever follows. -/
theorem reads_decode (form : Form) :
    ∃ v : VarInt, v.val = form.value ∧ Reads decode form.bytes v := by
  obtain ⟨v, hv, hread⟩ := reads_form form.announced
  refine ⟨v, ?_, hread⟩
  rw [hv, masked_be_eq_mod]
  rfl

theorem value_lt (form : Form) : form.value < 2 ^ (8 * form.bytes.length - 2) :=
  Nat.mod_lt _ (by positivity)

/-- A number too large for the short forms has none of them. -/
theorem wire_length_le (form : Form) : (wire form.value).length ≤ form.bytes.length := by
  have hlt := form.value_lt
  unfold wire
  rcases form.length_cases with hlen | hlen | hlen | hlen
  all_goals
    rw [hlen] at hlt ⊢
    norm_num at hlt
    split_ifs <;> simp only [toBeBytes_length] <;> omega

/-- A form cut off behind its first byte asks for the rest of it. -/
theorem decode_cut (form : Form) {shown missing : Bytes} (hcut : shown ++ missing = form.bytes)
    (hshown : shown ≠ []) (hmissing : missing ≠ []) :
    decode shown = .error (.err (.more missing.length)) := by
  obtain ⟨b, shown, rfl⟩ := List.exists_cons_of_ne_nil hshown
  obtain rfl : b = form.head := (List.cons.inj hcut).1
  have htail : shown ++ missing = form.tail := (List.cons.inj hcut).2
  have hform : formLength (form.head :: shown) = shown.length + missing.length + 1 := by
    rw [← List.length_append, htail]
    exact form.announced.symm
  have hpos := List.length_pos_of_ne_nil hmissing
  rw [decode_short (by rw [hform, List.length_cons]; omega), hform, List.length_cons]
  congr 3
  omega

/-- The bytes the encoder writes are a form, neither cut off nor followed by
anything. -/
theorem exists_wire (v : VarInt) :
    ∃ form : Form, form.bytes = wire v.val ∧ form.value = v.val := by
  have hread := (transfers_decode v).reads []
  rw [List.append_nil] at hread
  obtain ⟨b, tail, hwire⟩ := List.exists_cons_of_length_pos (wire_length_pos v.val)
  rw [hwire] at hread
  have hlong : formLength (b :: tail) ≤ (b :: tail).length := by
    by_contra hshort
    rw [decode_short (not_le.mp hshort)] at hread
    cases hread
  have hdrop : (b :: tail).drop (formLength (b :: tail)) = [] := by
    obtain ⟨v', hv'⟩ := decode_long hlong
    rw [hread] at hv'
    exact (congrArg Prod.snd (Except.ok.inj hv')).symm
  have hform : tail.length + 1 = formLength [b] :=
    le_antisymm (List.drop_eq_nil_iff.mp hdrop) hlong
  obtain ⟨v', hv', hread'⟩ := reads_decode ⟨b, tail, hform⟩
  have hwhole : decode (b :: tail ++ []) = .ok (v, []) := by
    rw [List.append_nil]
    exact hread
  obtain ⟨rfl, -⟩ := hread'.unique hwhole
  exact ⟨⟨b, tail, hform⟩, hwire.symm, hv'.symm⟩

end Form

/-- `encode`, for a caller who keeps the writer. -/
def encodeInPlace (v : VarInt) : InPlace EncodeError Unit :=
  let x := v.val
  if x < 2 ^ 6 then do
    InPlace.encodeRemaining 1
    InPlace.putBe 1 (x % 2 ^ 8)
  else if x < 2 ^ 14 then do
    InPlace.encodeRemaining 2
    InPlace.putBe 2 (0b01 <<< 14 ||| x % 2 ^ 16)
  else if x < 2 ^ 30 then do
    InPlace.encodeRemaining 4
    InPlace.putBe 4 (0b10 <<< 30 ||| x % 2 ^ 32)
  else if x < 2 ^ 62 then do
    InPlace.encodeRemaining 8
    InPlace.putBe 8 (0b11 <<< 62 ||| x)
  else
    InPlace.refuse .boundsExceeded

theorem forget_encodeInPlace (v : VarInt) : InPlace.forget v.encodeInPlace = v.encode := by
  unfold encodeInPlace encode
  dsimp only
  split_ifs <;> simp only [InPlace.forget_bind, InPlace.forget_encodeRemaining,
    InPlace.forget_putBe, InPlace.forget_refuse]

theorem allOrNothing_encodeInPlace (v : VarInt) : InPlace.AllOrNothing v.encodeInPlace := by
  unfold encodeInPlace
  dsimp only
  split_ifs
  · exact (InPlace.allOrNothing_put _).checked 1
  · exact (InPlace.allOrNothing_put _).checked 2
  · exact (InPlace.allOrNothing_put _).checked 4
  · exact (InPlace.allOrNothing_put _).checked 8
  · exact InPlace.allOrNothing_refuse _

end VarInt

namespace U64

def encodeInPlace (x : Nat) : InPlace EncodeError Unit :=
  match VarInt.tryFrom x with
  | some v => v.encodeInPlace
  | none => InPlace.refuse .boundsExceeded

theorem forget_encodeInPlace (x : Nat) : InPlace.forget (encodeInPlace x) = encode x := by
  unfold encodeInPlace encode
  cases VarInt.tryFrom x with
  | none => rfl
  | some v => exact v.forget_encodeInPlace

/-- Whatever the error, nothing was written. -/
theorem allOrNothing_encodeInPlace (x : Nat) : InPlace.AllOrNothing (encodeInPlace x) := by
  unfold encodeInPlace
  cases VarInt.tryFrom x with
  | none => exact InPlace.allOrNothing_refuse _
  | some v => exact v.allOrNothing_encodeInPlace

theorem encodeInPlace_large {x : Nat} (h : 2 ^ 62 ≤ x) (w : BufMut) :
    encodeInPlace x w = (.error (.err .boundsExceeded), w) := by
  have hnone : VarInt.tryFrom x = none := dif_neg (not_lt.mpr h)
  unfold encodeInPlace
  rw [hnone]
  rfl

end U64

namespace Usize

def encodeInPlace (x : Nat) : InPlace EncodeError Unit :=
  match VarInt.tryFrom x with
  | some v => v.encodeInPlace
  | none => InPlace.refuse .boundsExceeded

theorem forget_encodeInPlace (x : Nat) : InPlace.forget (encodeInPlace x) = encode x :=
  U64.forget_encodeInPlace x

end Usize

/-- The encoder writes the shortest form of a number, and nothing for a
number that has none; the decoder reads every form, and asks for what a form
lacks. -/
theorem varint_codec_exact :
    (∀ v : VarInt, ∃ form : VarInt.Form, form.value = v.val ∧
      (∀ other : VarInt.Form, other.value = v.val → form.bytes.length ≤ other.bytes.length) ∧
      (∀ w : BufMut, form.bytes.length ≤ w.remainingMut →
        v.encode w = .ok ((), w.push form.bytes)) ∧
      ∀ suffix, VarInt.decode (form.bytes ++ suffix) = .ok (v, suffix)) ∧
    (∀ x, 2 ^ 62 ≤ x → ∀ w : BufMut,
      U64.encode x w = .error (.err .boundsExceeded) ∧
      Usize.encode x w = .error (.err .boundsExceeded) ∧
      U64.encodeInPlace x w = (.error (.err .boundsExceeded), w) ∧
      Usize.encodeInPlace x w = (.error (.err .boundsExceeded), w)) ∧
    (∀ form : VarInt.Form, form.bytes.length ∈ [1, 2, 4, 8] ∧
      ∀ rest, ∃ v : VarInt,
        v.val = fromBeBytes form.bytes % 2 ^ (8 * form.bytes.length - 2) ∧
        VarInt.decode (form.bytes ++ rest) = .ok (v, rest)) ∧
    ∀ (form : VarInt.Form) (shown missing : Bytes), shown ++ missing = form.bytes →
      shown ≠ [] → missing ≠ [] →
      VarInt.decode shown = .error (.err (.more missing.length)) := by
  refine ⟨?_, ?_, ?_, ?_⟩
  · intro v
    obtain ⟨form, hbytes, hvalue⟩ := VarInt.Form.exists_wire v
    refine ⟨form, hvalue, ?_, ?_, ?_⟩
    · intro other hother
      rw [hbytes, ← hother]
      exact other.wire_length_le
    · intro w hroom
      rw [hbytes] at hroom ⊢
      exact (VarInt.emits_encode v).writes trivial hroom
    · intro suffix
      rw [hbytes]
      exact (VarInt.transfers_decode v).reads suffix
  · intro x hx w
    have hlarge := U64.encodeInPlace_large hx w
    have hforget : U64.encode x w = .error (.err .boundsExceeded) := by
      rw [← U64.forget_encodeInPlace, InPlace.forget, hlarge]
    exact ⟨hforget, hforget, hlarge, hlarge⟩
  · intro form
    constructor
    · simpa using form.length_cases
    · intro rest
      obtain ⟨v, hv, hread⟩ := form.reads_decode
      exact ⟨v, hv, hread rest⟩
  · intro form shown missing hcut hshown hmissing
    exact form.decode_cut hcut hshown hmissing

/-- A number may come in a form longer than its own. -/
example : VarInt.decode [0b01000000, 5, 7] = .ok (⟨5, by decide⟩, [7]) := by rfl

end MoqTransport.Coding
