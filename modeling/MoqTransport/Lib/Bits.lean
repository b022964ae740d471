import Mathlib.Data.Nat.Bitwise
import MoqTransport.Lib.Encoder

/-!
Bytes as bits, the most significant bit of a byte first, and numbers that are
read off a window of them. A window may begin anywhere; where a shift by its
offset and a shift back cut it out of one machine word, `shift_window` says
which number is left.
-/

namespace Bits

open Streaming

/-- The `width` low bits of `n`. -/
def ofNat : Nat → Nat → List Bool
  | 0, _ => []
  | width + 1, n => n.testBit width :: ofNat width n

def toNat (bits : List Bool) : Nat := bits.foldl (fun acc bit => 2 * acc + bit.toNat) 0

def ofBytes (bs : Bytes) : List Bool := bs.flatMap fun b => ofNat 8 b.toNat

@[simp]
theorem length_ofNat (width n : Nat) : (ofNat width n).length = width := by
  induction width with
  | zero => rfl
  | succ width ih => rw [ofNat, List.length_cons, ih]

@[simp]
theorem length_ofBytes (bs : Bytes) : (ofBytes bs).length = 8 * bs.length := by
  induction bs with
  | nil => rfl
  | cons b bs ih =>
      rw [ofBytes, List.flatMap_cons, List.length_append, length_ofNat, ← ofBytes, ih,
        List.length_cons]
      omega

@[simp]
theorem ofBytes_append (bs cs : Bytes) : ofBytes (bs ++ cs) = ofBytes bs ++ ofBytes cs :=
  List.flatMap_append

@[simp]
theorem toNat_nil : toNat [] = 0 := rfl

private theorem foldl_bits (bits : List Bool) (acc : Nat) :
    bits.foldl (fun acc bit => 2 * acc + bit.toNat) acc =
      acc * 2 ^ bits.length + toNat bits := by
  induction bits generalizing acc with
  | nil => simp
  | cons bit bits ih =>
      rw [toNat, List.foldl_cons, List.foldl_cons, List.length_cons, ih, ih (2 * 0 + bit.toNat),
        Nat.pow_succ]
      ring

theorem toNat_cons (bit : Bool) (bits : List Bool) :
    toNat (bit :: bits) = bit.toNat * 2 ^ bits.length + toNat bits := by
  rw [toNat, List.foldl_cons, foldl_bits, Nat.mul_zero, Nat.zero_add]

theorem toNat_append (front back : List Bool) :
    toNat (front ++ back) = toNat front * 2 ^ back.length + toNat back := by
  rw [toNat, List.foldl_append, foldl_bits]
  rfl

theorem toNat_lt (bits : List Bool) : toNat bits < 2 ^ bits.length := by
  induction bits with
  | nil => simp
  | cons bit bits ih =>
      have hbit := Bool.toNat_le bit
      have hmul := Nat.mul_le_mul_right (2 ^ bits.length) hbit
      rw [toNat_cons, List.length_cons, Nat.pow_succ]
      omega

theorem toNat_ofNat (width n : Nat) : toNat (ofNat width n) = n % 2 ^ width := by
  induction width with
  | zero => simp [ofNat, Nat.mod_one]
  | succ width ih =>
      rw [ofNat, toNat_cons, length_ofNat, ih, Nat.toNat_testBit, Nat.mod_pow_succ]
      ring

theorem toNat_replicate_true (k : Nat) : toNat (List.replicate k true) = 2 ^ k - 1 := by
  induction k with
  | zero => rfl
  | succ k ih =>
      have hpos := Nat.two_pow_pos k
      rw [List.replicate_succ', toNat_append, ih, Nat.pow_succ]
      simp only [List.length_singleton, toNat, List.foldl_cons, List.foldl_nil, Bool.toNat_true]
      omega

/-- The number in a window, by division. -/
theorem toNat_window {bits : List Bool} {i n : Nat} (h : i + n ≤ bits.length) :
    toNat ((bits.drop i).take n) = toNat bits / 2 ^ (bits.length - i - n) % 2 ^ n := by
  have hlength : ((bits.drop i).take n).length = n := by
    rw [List.length_take, List.length_drop]
    omega
  have hback : (bits.drop (i + n)).length = bits.length - i - n := by
    rw [List.length_drop]
    omega
  have hsplit : bits = bits.take i ++ ((bits.drop i).take n ++ bits.drop (i + n)) := by
    rw [← List.drop_drop, List.take_append_drop, List.take_append_drop]
  have hlt := toNat_lt ((bits.drop i).take n)
  have hback_lt := toNat_lt (bits.drop (i + n))
  rw [hlength] at hlt
  rw [hback] at hback_lt
  have hvalue : toNat bits = (toNat (bits.take i) * 2 ^ n + toNat ((bits.drop i).take n)) *
      2 ^ (bits.length - i - n) + toNat (bits.drop (i + n)) := by
    conv_lhs => rw [hsplit]
    rw [toNat_append, toNat_append, List.length_append, hlength, hback, Nat.pow_add]
    ring
  rw [hvalue, Nat.add_comm, Nat.add_mul_div_right _ _ (Nat.two_pow_pos _),
    Nat.div_eq_of_lt hback_lt, Nat.zero_add, Nat.add_comm, Nat.add_mul_mod_self_right,
    Nat.mod_eq_of_lt hlt]

/-- Shifted up in a word of `width` bits and down again. -/
theorem shift_window {width o n : Nat} (h : o + n ≤ width) (x : Nat) :
    (x <<< o % 2 ^ width) >>> (width - n) = x / 2 ^ (width - o - n) % 2 ^ n := by
  obtain ⟨k, rfl⟩ := Nat.exists_eq_add_of_le h
  have hup : x <<< o % 2 ^ (o + n + k) = (x % 2 ^ (n + k)) * 2 ^ o := by
    rw [Nat.shiftLeft_eq, Nat.add_assoc, Nat.pow_add, Nat.mul_comm (2 ^ o), Nat.mul_mod_mul_right]
  have hshift : o + n + k - n = k + o := by omega
  have hdiv : o + n + k - o - n = k := by omega
  rw [hup, hshift, hdiv, Nat.shiftRight_eq_div_pow, Nat.pow_add 2 k o,
    Nat.mul_div_mul_right _ _ (Nat.two_pow_pos o), Nat.add_comm n k, Nat.pow_add,
    Nat.mod_mul_right_div_self]

theorem drop_ofBytes (bs : Bytes) (i o : Nat) :
    (ofBytes bs).drop (8 * i + o) = (ofBytes (bs.drop i)).drop o := by
  induction i generalizing bs with
  | zero => rw [Nat.mul_zero, Nat.zero_add, List.drop_zero]
  | succ i ih =>
      cases bs with
      | nil => simp [ofBytes]
      | cons b bs =>
          have hindex : 8 * (i + 1) + o = (ofNat 8 b.toNat).length + (8 * i + o) := by
            rw [length_ofNat]
            omega
          rw [List.drop_succ_cons, ← ih bs, hindex, ofBytes, List.flatMap_cons,
            List.drop_append]
          simp [ofBytes]

/-- A window within one byte. -/
theorem window_one {bs : Bytes} {i o n : Nat} {b : UInt8} (hb : bs[i]? = some b)
    (h : o + n ≤ 8) : toNat (((ofBytes bs).drop (8 * i + o)).take n) =
      (b.toNat <<< o % 2 ^ 8) >>> (8 - n) := by
  obtain ⟨hlt, rfl⟩ := List.getElem?_eq_some_iff.mp hb
  have hfront : ((ofBytes (bs.drop i)).drop o).take n =
      ((ofNat 8 bs[i].toNat).drop o).take n := by
    rw [List.drop_eq_getElem_cons hlt, ofBytes, List.flatMap_cons,
      List.drop_append_of_le_length (by rw [length_ofNat]; omega),
      List.take_append_of_le_length (by rw [List.length_drop, length_ofNat]; omega)]
  have hbyte : bs[i].toNat % 2 ^ 8 = bs[i].toNat := Nat.mod_eq_of_lt bs[i].toNat_lt
  rw [drop_ofBytes, hfront, toNat_window (by rw [length_ofNat]; exact h), length_ofNat,
    toNat_ofNat, hbyte, shift_window h]

/-- A window over two bytes. -/
theorem window_two {bs : Bytes} {i o n : Nat} {b c : UInt8} (hb : bs[i]? = some b)
    (hc : bs[i + 1]? = some c) (h : o + n ≤ 16) :
    toNat (((ofBytes bs).drop (8 * i + o)).take n) =
      ((b.toNat <<< 8 ||| c.toNat) <<< o % 2 ^ 16) >>> (16 - n) := by
  obtain ⟨hlt, rfl⟩ := List.getElem?_eq_some_iff.mp hb
  obtain ⟨hlt', rfl⟩ := List.getElem?_eq_some_iff.mp hc
  have hfront : ((ofBytes (bs.drop i)).drop o).take n =
      ((ofNat 8 bs[i].toNat ++ ofNat 8 bs[i + 1].toNat).drop o).take n := by
    rw [List.drop_eq_getElem_cons hlt, List.drop_eq_getElem_cons hlt', ofBytes,
      List.flatMap_cons, List.flatMap_cons, ← List.append_assoc,
      List.drop_append_of_le_length (by simp only [List.length_append, length_ofNat]; omega),
      List.take_append_of_le_length
        (by simp only [List.length_drop, List.length_append, length_ofNat]; omega)]
  have hlength : (ofNat 8 bs[i].toNat ++ ofNat 8 bs[i + 1].toNat).length = 16 := by simp
  have hbyte (x : UInt8) : x.toNat % 2 ^ 8 = x.toNat := Nat.mod_eq_of_lt x.toNat_lt
  have hvalue : toNat (ofNat 8 bs[i].toNat ++ ofNat 8 bs[i + 1].toNat) =
      bs[i].toNat <<< 8 ||| bs[i + 1].toNat := by
    rw [toNat_append, toNat_ofNat, toNat_ofNat, hbyte, hbyte, length_ofNat,
      ← Nat.shiftLeft_add_eq_or_of_lt bs[i + 1].toNat_lt, Nat.shiftLeft_eq]
  rw [drop_ofBytes, hfront, toNat_window (by rw [hlength]; exact h), hlength, hvalue,
    shift_window h]

/-- Only the low bits count. -/
theorem ofNat_congr {width n m : Nat} (h : ∀ i < width, n.testBit i = m.testBit i) :
    ofNat width n = ofNat width m := by
  induction width with
  | zero => rfl
  | succ width ih =>
      rw [ofNat, ofNat, h width (Nat.lt_succ_self width), ih fun i hi => h i (Nat.lt_succ_of_lt hi)]

theorem ofNat_toNat (bits : List Bool) : ofNat bits.length (toNat bits) = bits := by
  induction bits with
  | nil => rfl
  | cons bit bits ih =>
      have hlt := toNat_lt bits
      have hbit : (toNat (bit :: bits)).testBit bits.length = bit := by
        rw [toNat_cons, Nat.mul_comm, Nat.testBit_two_pow_mul_add _ hlt, if_neg (lt_irrefl _),
          Nat.sub_self]
        cases bit <;> rfl
      have hrest : ∀ i < bits.length,
          (toNat (bit :: bits)).testBit i = (toNat bits).testBit i := by
        intro i hi
        rw [toNat_cons, Nat.mul_comm, Nat.testBit_two_pow_mul_add _ hlt, if_pos hi]
      rw [List.length_cons, ofNat, hbit, ofNat_congr hrest, ih]

/-- Bits as bytes, the last one filled up with ones. -/
def pack : List Bool → Bytes
  | b7 :: b6 :: b5 :: b4 :: b3 :: b2 :: b1 :: b0 :: bits =>
      UInt8.ofNat (toNat [b7, b6, b5, b4, b3, b2, b1, b0]) :: pack bits
  | [] => []
  | bits => [UInt8.ofNat (toNat (bits ++ List.replicate (8 - bits.length) true))]

theorem ofBytes_singleton {bits : List Bool} (h : bits.length = 8) :
    ofBytes [UInt8.ofNat (toNat bits)] = bits := by
  have hlt := toNat_lt bits
  rw [h] at hlt
  have hbyte : (UInt8.ofNat (toNat bits)).toNat = toNat bits :=
    UInt8.toNat_ofNat_of_lt' hlt
  rw [ofBytes, List.flatMap_cons, List.flatMap_nil, List.append_nil, hbyte, ← h, ofNat_toNat]

theorem exists_ofBytes_pack (bits : List Bool) :
    ∃ k < 8, ofBytes (pack bits) = bits ++ List.replicate k true := by
  induction bits using pack.induct with
  | case1 b7 b6 b5 b4 b3 b2 b1 b0 bits ih =>
      obtain ⟨k, hk, hbits⟩ := ih
      refine ⟨k, hk, ?_⟩
      have hbyte : ofBytes [UInt8.ofNat (toNat [b7, b6, b5, b4, b3, b2, b1, b0])] =
          [b7, b6, b5, b4, b3, b2, b1, b0] := ofBytes_singleton rfl
      rw [pack, ← List.singleton_append, ofBytes_append, hbits, hbyte]
      rfl
  | case2 => exact ⟨0, by decide, rfl⟩
  | case3 bits hlong hne =>
      have hlt : bits.length < 8 := by
        rcases bits with
          _ | ⟨b7, _ | ⟨b6, _ | ⟨b5, _ | ⟨b4, _ | ⟨b3, _ | ⟨b2, _ | ⟨b1, _ | ⟨b0, bits⟩⟩⟩⟩⟩⟩⟩⟩
        case cons.cons.cons.cons.cons.cons.cons.cons => exact absurd rfl (hlong _ _ _ _ _ _ _ _ _)
        all_goals simp
      have hpos := List.length_pos_iff.mpr hne
      refine ⟨8 - bits.length, by omega, ?_⟩
      rw [pack.eq_3 bits hlong hne, ofBytes_singleton]
      rw [List.length_append, List.length_replicate]
      omega

end Bits
