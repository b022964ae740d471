import MoqTransport.Coding.Fields

/-!
Text as bytes, in the places where the code does not insist on valid text:
what cannot be decoded is replaced, as `String::from_utf8_lossy` does it. The
bytes of a text come back as that text, and a byte below 128 is in them only
as a character of its own, so that splitting the bytes splits the text.
-/

namespace MoqTransport.Coding

open Streaming

namespace Str

def isContinuation (b : UInt8) : Bool := 0x80 ≤ b && b ≤ 0xbf

/-- The second byte of a character of three or four bytes, by its first. -/
def isSecond (first second : UInt8) : Bool :=
  if first = 0xe0 then 0xa0 ≤ second && second ≤ 0xbf
  else if first = 0xed then 0x80 ≤ second && second ≤ 0x9f
  else if first = 0xf0 then 0x90 ≤ second && second ≤ 0xbf
  else if first = 0xf4 then 0x80 ≤ second && second ≤ 0x8f
  else isContinuation second

/-- How many bytes one replacement character stands for: the longest start
of a character, or one byte. -/
def invalidLength : Bytes → Nat
  | first :: second :: rest =>
      if 0xe0 ≤ first && first ≤ 0xef && isSecond first second then 2
      else if 0xf0 ≤ first && first ≤ 0xf4 && isSecond first second then
        match rest with
        | third :: _ => if isContinuation third then 3 else 2
        | [] => 2
      else 1
  | _ => 1

/-- Decode character by character, replacing what is none. -/
def replaceInvalid : Nat → Bytes → List Char
  | 0, _ => []
  | _, [] => []
  | fuel + 1, buf =>
      match ByteArray.utf8DecodeChar? ⟨buf.toArray⟩ 0 with
      | some c => c :: replaceInvalid fuel (buf.drop c.utf8Size)
      | none => '\ufffd' :: replaceInvalid fuel (buf.drop (invalidLength buf))

/-- `String::from_utf8_lossy`. -/
def fromUtf8Lossy (buf : Bytes) : String :=
  match String.fromUTF8? ⟨buf.toArray⟩ with
  | some s => s
  | none => String.ofList (replaceInvalid buf.length buf)

theorem fromUtf8Lossy_bytes (s : String) : fromUtf8Lossy (bytes s) = s := by
  rw [fromUtf8Lossy, fromUTF8?_bytes]

theorem bytes_empty : bytes "" = [] := rfl

theorem fromUtf8Lossy_nil : fromUtf8Lossy [] = "" := by
  rw [← bytes_empty]
  exact fromUtf8Lossy_bytes ""

theorem ne_ofNat_of_lt {b : UInt8} (hb : b.toNat < 128) {n : Nat} (hlow : 128 ≤ n)
    (hhigh : n < 256) : b ≠ UInt8.ofNat n := by
  rintro rfl
  rw [UInt8.toNat_ofNat'] at hb
  omega

/-- A byte below 128 is the whole of its character. -/
theorem eq_of_mem_utf8EncodeChar {b : UInt8} (hb : b.toNat < 128) {c : Char}
    (h : b ∈ String.utf8EncodeChar c) : c.val.toNat = b.toNat := by
  have hne (n : Nat) (hlow : 128 ≤ n) (hhigh : n < 256) : b ≠ UInt8.ofNat n :=
    ne_ofNat_of_lt hb hlow hhigh
  unfold String.utf8EncodeChar at h
  dsimp only at h
  -- All bytes of a longer encoding have their highest bit set.
  split at h
  · next hsmall =>
      rw [List.mem_singleton.mp h, UInt8.toNat_ofNat']
      omega
  · split at h
    · simp only [List.mem_cons, List.not_mem_nil, or_false] at h
      rcases h with h | h
      · exact absurd h (hne _ (by omega) (by omega))
      · exact absurd h (hne _ (by omega) (by omega))
    · split at h
      · simp only [List.mem_cons, List.not_mem_nil, or_false] at h
        rcases h with h | h | h
        · exact absurd h (hne _ (by omega) (by omega))
        · exact absurd h (hne _ (by omega) (by omega))
        · exact absurd h (hne _ (by omega) (by omega))
      · simp only [List.mem_cons, List.not_mem_nil, or_false] at h
        rcases h with h | h | h | h
        · exact absurd h (hne _ (by omega) (by omega))
        · exact absurd h (hne _ (by omega) (by omega))
        · exact absurd h (hne _ (by omega) (by omega))
        · exact absurd h (hne _ (by omega) (by omega))

theorem mem_bytes_iff {s : String} {b : UInt8} :
    b ∈ bytes s ↔ ∃ c ∈ s.toList, b ∈ String.utf8EncodeChar c := by
  rw [bytes, ← String.utf8Encode_toList, List.utf8Encode]
  simp

/-- The bytes of a text without a newline have none. -/
theorem newline_notMem_bytes {s : String} (h : '\n' ∉ s.toList) : (10 : UInt8) ∉ bytes s := by
  intro hmem
  obtain ⟨c, hc, hbyte⟩ := mem_bytes_iff.mp hmem
  have hval : c.val.toNat = 10 := eq_of_mem_utf8EncodeChar (by decide) hbyte
  have hnewline : c = '\n' := Char.ext (UInt32.toNat_inj.mp hval)
  exact h (hnewline ▸ hc)

end Str

namespace TupleField

def fromUtf8 (path : String) : TupleField := ⟨Str.bytes path⟩

end TupleField

namespace Tuple

def fromUtf8Path (path : String) : Tuple :=
  ⟨(path.toList.splitOn '/').map fun part => .fromUtf8 (String.ofList part)⟩

def toUtf8Path (tuple : Tuple) : String :=
  tuple.fields.foldl (fun path field => path ++ "/" ++ Str.fromUtf8Lossy field.value) ""

end Tuple

end MoqTransport.Coding
