import MoqTransport.Coding.VarInt

/-!
The variable-length integer of the WebTransport crates. It is written and
read in the same forms as the one of the messages, but by functions of its
own: what is cut short is an error without a length here.
-/

namespace MoqTransport.Proto

open Streaming

abbrev VarInt := Coding.VarInt

structure VarIntUnexpectedEnd where
deriving DecidableEq

/-- `if r.remaining() < required`. -/
def checkRemaining (required : Nat) : Decoder VarIntUnexpectedEnd Unit := fun r =>
  if r.length < required then .error (.err ⟨⟩) else .ok ((), r)

namespace VarInt

/-- The rest of one of the longer forms, after a check that it is there. -/
def decodeTail (b : UInt8) (n : Nat) (hn : n < 8) : Decoder VarIntUnexpectedEnd VarInt := do
  checkRemaining n
  let tail ← copyToSlice n
  pure (Coding.VarInt.ofBeBytes b tail (Nat.le_of_lt_succ hn))

/-- What follows the first byte `b`, chosen by its two length bits. -/
def decodeForm (b : UInt8) : Decoder VarIntUnexpectedEnd VarInt :=
  match (b >>> 6).toNat with
  | 0b00 => pure ⟨(b &&& 0b00111111).toNat, Nat.lt_trans (Coding.VarInt.masked_lt b) (by decide)⟩
  | 0b01 => decodeTail b 1 (by decide)
  | 0b10 => decodeTail b 3 (by decide)
  | 0b11 => decodeTail b 7 (by decide)
  | _ => abort

def decode : Decoder VarIntUnexpectedEnd VarInt := do
  checkRemaining 1
  let b ← getU8
  decodeForm b

/-- Onto the end of a buffer that grows. The type leaves no value for the
last, unreachable branch. -/
def encode (v : VarInt) (w : Bytes) : Bytes :=
  let x := v.val
  if x < 2 ^ 6 then w ++ toBeBytes 1 (x % 2 ^ 8)
  else if x < 2 ^ 14 then w ++ toBeBytes 2 (0b01 <<< 14 ||| x % 2 ^ 16)
  else if x < 2 ^ 30 then w ++ toBeBytes 4 (0b10 <<< 30 ||| x % 2 ^ 32)
  else w ++ toBeBytes 8 (0b11 <<< 62 ||| x)

theorem encode_eq (v : VarInt) (w : Bytes) : encode v w = w ++ Coding.VarInt.wire v.val := by
  have hv := v.lt
  unfold encode Coding.VarInt.wire
  dsimp only
  split
  · rw [Nat.mod_eq_of_lt (by omega)]
  · split
    · next h => rw [Nat.mod_eq_of_lt (by omega), Coding.VarInt.or_tag _ _ _ h]
    · split
      · next h => rw [Nat.mod_eq_of_lt (by omega), Coding.VarInt.or_tag _ _ _ h]
      · rw [Coding.VarInt.or_tag _ _ _ hv]

/-- An error of the other decoder, here. -/
def unexpectedEnd : Fault Coding.DecodeError → Fault VarIntUnexpectedEnd
  | .err _ => .err ⟨⟩
  | .panic => .panic

/-- The two decoders agree on every buffer. -/
theorem decode_eq (r : Bytes) : decode r = (Coding.VarInt.decode r).mapError unexpectedEnd := by
  have htail (k : Nat) (f : List.Vector UInt8 k → VarInt) (r : Bytes) :
      (do checkRemaining k; let tail ← copyToSlice k; pure (f tail) :
        Decoder VarIntUnexpectedEnd VarInt) r =
      ((do decodeRemaining k; let tail ← copyToSlice k; pure (f tail) :
        Coding.Decode VarInt) r).mapError unexpectedEnd := by
    by_cases hk : r.length < k
    · have hhere : checkRemaining k r = .error (.err ⟨⟩) := if_pos hk
      have hthere : (decodeRemaining k : Coding.Decode Unit) r =
          .error (.err (AsksMore.more (k - r.length))) := if_pos (by omega)
      rw [bind_error hhere, bind_error hthere]
      rfl
    · have hhere : checkRemaining k r = .ok ((), r) := if_neg hk
      have hcopy {ε : Type} : (copyToSlice k : Decoder ε _) r =
          .ok (⟨r.take k, by simp; omega⟩, r.drop k) := dif_pos (by omega)
      rw [bind_ok hhere, bind_ok (decodeRemaining_of_le (by omega)), bind_ok hcopy, bind_ok hcopy]
      rfl
  cases r with
  | nil => rfl
  | cons b r =>
      have hhere : checkRemaining 1 (b :: r) = .ok ((), b :: r) := if_neg (by simp)
      have hget {ε : Type} : (getU8 : Decoder ε UInt8) (b :: r) = .ok (b, r) := rfl
      unfold decode Coding.VarInt.decode
      rw [bind_ok hhere, bind_ok (decodeRemaining_of_le (by simp)), bind_ok hget, bind_ok hget]
      unfold decodeForm Coding.VarInt.decodeForm
      rcases Coding.VarInt.length_bits_cases b with hb | hb | hb | hb
      all_goals rw [hb]
      · have hone : Coding.VarInt.ofBeBytes b List.Vector.nil (by decide) =
            ⟨(b &&& 0b00111111).toNat, Nat.lt_trans (Coding.VarInt.masked_lt b) (by decide)⟩ := by
          ext
          simp [Coding.VarInt.ofBeBytes, fromBeBytes]
        rw [hone]
        rfl
      · exact htail 1 _ r
      · exact htail 3 _ r
      · exact htail 7 _ r

theorem reads_decode (v : VarInt) : Reads decode (Coding.VarInt.wire v.val) v := by
  intro rest
  rw [decode_eq, (Coding.VarInt.transfers_decode v).reads rest]
  rfl

end VarInt

end MoqTransport.Proto
