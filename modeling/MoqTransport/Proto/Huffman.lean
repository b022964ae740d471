import MoqTransport.Lib.Bits

/-!
The decoder of Huffman-coded header strings. It looks up as many bits as a
table has, and goes on with the next table where they are only the start of a
code; what is left at the end of the last byte must be ones. There is no
encoder: the other side is allowed to use the code, this one never does.

The tables are those of the source. What they spell is a code (`Code`), and a
string that is written in it, filled up with ones, is read back
(`hpackDecode_spell`). Positions are `u32` and wrap.
-/

namespace MoqTransport.Proto.Huffman

open Streaming

structure BitWindow where
  byte : Nat
  bit : Nat
  count : Nat
deriving DecidableEq

namespace BitWindow

def new : BitWindow := ⟨0, 0, 0⟩

def forwards (w : BitWindow) (step : Nat) : BitWindow :=
  let bit := (w.bit + w.count) % 2 ^ 32
  ⟨(w.byte + bit / 8) % 2 ^ 32, bit % 8, step⟩

def oppositeBitWindow (w : BitWindow) : BitWindow := ⟨w.byte, w.bit, 8 - w.bit % 8⟩

end BitWindow

inductive Error where
  | missingBits (w : BitWindow)
  | unhandled (w : BitWindow) (value : Nat)
deriving DecidableEq

/-- Read `len` bits from the `src` slice at the specified position. -/
def readBits (src : Bytes) (byteOffset bitOffset len : Nat) : Except (Fault Unit) Nat :=
  if len = 0 ∨ 8 < len ∨
      src.length % 2 ^ 32 * 8 % 2 ^ 32 <
        ((byteOffset * 8 % 2 ^ 32 + bitOffset) % 2 ^ 32 + len) % 2 ^ 32 then
    .error (.err ())
  else
    let byteOffset := (byteOffset + bitOffset / 8) % 2 ^ 32
    let bitOffset := bitOffset - bitOffset / 8 * 8
    if bitOffset + len ≤ 8 then
      match src[byteOffset]? with
      | some b => .ok ((b.toNat <<< bitOffset % 2 ^ 8) >>> (8 - len))
      | none => .error .panic
    else
      match src[byteOffset]?, src[byteOffset + 1]? with
      | some b, some c =>
          .ok (((b.toNat <<< 8 ||| c.toNat) <<< bitOffset % 2 ^ 16) >>> (16 - len) % 2 ^ 8)
      | _, _ => .error .panic

def checkEof (w : BitWindow) (input : Bytes) : Except (Fault Error) (Option Nat) :=
  match compare (w.byte + 1) input.length with
  -- Position is out-of-range
  | .gt => .ok none
  -- Position is on the last byte
  | .eq =>
      let side := w.oppositeBitWindow
      match readBits input side.byte side.bit side.count with
      | .error .panic => .error .panic
      | .error (.err ()) => .error (.err (.missingBits side))
      | .ok rest =>
          let eofFiller := (2 <<< (side.count - 1) % 2 ^ 16 - 1) % 2 ^ 8
          if rest &&& eofFiller = eofFiller then .ok none else .error (.err (.missingBits w))
  | .lt => .error (.err (.missingBits w))

def fetchValue (w : BitWindow) (input : Bytes) : Except (Fault Error) (Option Nat) :=
  match readBits input w.byte w.bit w.count with
  | .ok value => .ok (some value)
  | .error (.err ()) => checkEof w input
  | .error .panic => .error .panic

mutual

inductive HuffmanDecoder where
  | mk (lookup : Nat) (table : List DecodeValue)

inductive DecodeValue where
  | sub (d : HuffmanDecoder)
  | sym (x : UInt8)

end

abbrev Next := Except (Fault Error) (Option UInt8 × BitWindow)

mutual

def HuffmanDecoder.decodeNext (input : Bytes) : HuffmanDecoder → BitWindow → Next
  | .mk lookup table, w =>
      let w := w.forwards lookup
      match fetchValue w input with
      | .error fault => .error fault
      | .ok none => .ok (none, w)
      | .ok (some value) => tableNext input table value value w

/-- The entry at an index; `value` is the index for the error. -/
def tableNext (input : Bytes) : List DecodeValue → Nat → Nat → BitWindow → Next
  | [], _, value, w => .error (.err (.unhandled w value))
  | entry :: _, 0, _, w => entry.next input w
  | _ :: table, index + 1, value, w => tableNext input table index value w

def DecodeValue.next (input : Bytes) : DecodeValue → BitWindow → Next
  | .sym x, w => .ok (some x, w)
  | .sub d, w => d.decodeNext input w

end

/-! The tables, each after those that it refers to. -/

def general (lookup : Nat) (syms : List UInt8) (subs : List HuffmanDecoder) : HuffmanDecoder :=
  .mk lookup (syms.map .sym ++ subs.map .sub)

def twoFinal (first second : UInt8) : HuffmanDecoder := general 1 [first, second] []

def fourFinal (first second third fourth : UInt8) : HuffmanDecoder :=
  general 2 [first, second, third, fourth] []

def twoFinalSub (first : UInt8) (second : HuffmanDecoder) : HuffmanDecoder :=
  general 1 [first] [second]

def twoSub (first second : HuffmanDecoder) : HuffmanDecoder := general 1 [] [first, second]

def fourSub (first second third fourth : HuffmanDecoder) : HuffmanDecoder :=
  general 2 [] [first, second, third, fourth]

def end0_01010 : HuffmanDecoder := twoFinal 32 37
def end0_01011 : HuffmanDecoder := twoFinal 45 46
def end0_01100 : HuffmanDecoder := twoFinal 47 51
def end0_01101 : HuffmanDecoder := twoFinal 52 53
def end0_01110 : HuffmanDecoder := twoFinal 54 55
def end0_01111 : HuffmanDecoder := twoFinal 56 57
def end0_10000 : HuffmanDecoder := twoFinal 61 65
def end0_10001 : HuffmanDecoder := twoFinal 95 98
def end0_10010 : HuffmanDecoder := twoFinal 100 102
def end0_10011 : HuffmanDecoder := twoFinal 103 104
def end0_10100 : HuffmanDecoder := twoFinal 108 109
def end0_10101 : HuffmanDecoder := twoFinal 110 112
def end0_10110 : HuffmanDecoder := twoFinal 114 117
def end0_10111 : HuffmanDecoder := fourFinal 58 66 67 68
def end0_11000 : HuffmanDecoder := fourFinal 69 70 71 72
def end0_11001 : HuffmanDecoder := fourFinal 73 74 75 76
def end0_11010 : HuffmanDecoder := fourFinal 77 78 79 80
def end0_11011 : HuffmanDecoder := fourFinal 81 82 83 84
def end0_11100 : HuffmanDecoder := fourFinal 85 86 87 89
def end0_11101 : HuffmanDecoder := fourFinal 106 107 113 118
def end0_11110 : HuffmanDecoder := fourFinal 119 120 121 122
def end5_00 : HuffmanDecoder := twoFinal 38 42
def end5_01 : HuffmanDecoder := twoFinal 44 59
def end5_10 : HuffmanDecoder := twoFinal 88 90
def end7_0 : HuffmanDecoder := fourFinal 33 34 40 41
def end9A_1 : HuffmanDecoder := twoFinal 39 43
def end8_0 : HuffmanDecoder := twoFinalSub 63 end9A_1
def end9B_01 : HuffmanDecoder := twoFinal 35 62
def end9B_10 : HuffmanDecoder := fourFinal 0 36 64 91
def end13_10 : HuffmanDecoder := twoFinal 94 125
def end14_0 : HuffmanDecoder := twoFinal 60 96
def end19_0011 : HuffmanDecoder := twoFinal 128 130
def end19_0100 : HuffmanDecoder := twoFinal 131 162
def end19_0101 : HuffmanDecoder := twoFinal 184 194
def end19_0110 : HuffmanDecoder := twoFinal 224 226
def end19_0111 : HuffmanDecoder := fourFinal 153 161 167 172
def end19_1000 : HuffmanDecoder := fourFinal 176 177 179 209
def end19_1001 : HuffmanDecoder := fourFinal 216 217 227 229
def end19_1010_01 : HuffmanDecoder := twoFinal 129 132
def end19_1010_10 : HuffmanDecoder := twoFinal 133 134
def end19_1010_11 : HuffmanDecoder := twoFinal 136 146
def end19_1010 : HuffmanDecoder :=
  general 2 [230] [end19_1010_01, end19_1010_10, end19_1010_11]
def end19_1011 : HuffmanDecoder :=
  general 3 [154, 156, 160, 163, 164, 169, 170, 173] []
def end19_1100 : HuffmanDecoder :=
  general 3 [178, 181, 185, 186, 187, 189, 190, 196] []
def end23A_100 : HuffmanDecoder := twoFinal 1 135
def end23A_101 : HuffmanDecoder := twoFinal 137 138
def end23A_110 : HuffmanDecoder := twoFinal 139 140
def end23A_111 : HuffmanDecoder := twoFinal 141 143
def end19_1101 : HuffmanDecoder :=
  general 3 [198, 228, 232, 233] [end23A_100, end23A_101, end23A_110, end23A_111]
def end19_1110 : HuffmanDecoder :=
  general 4 [147, 149, 150, 151, 152, 155, 157, 158, 165, 166, 168, 174, 175, 180, 182, 183] []
def end23B_0101 : HuffmanDecoder := twoFinal 9 142
def end23B_0110 : HuffmanDecoder := twoFinal 144 145
def end23B_0111 : HuffmanDecoder := twoFinal 148 159
def end23B_1000 : HuffmanDecoder := twoFinal 171 206
def end23B_1001 : HuffmanDecoder := twoFinal 215 225
def end23B_1010 : HuffmanDecoder := twoFinal 236 237
def end23B_1011 : HuffmanDecoder := fourFinal 199 207 234 235
def end23B_1100 : HuffmanDecoder :=
  general 3 [192, 193, 200, 201, 202, 205, 210, 213] []
def end27A_111 : HuffmanDecoder := twoFinal 203 204
def end23B_1101 : HuffmanDecoder :=
  general 3 [218, 219, 238, 240, 242, 243, 255] [end27A_111]
def end23B_1110 : HuffmanDecoder :=
  general 4 [211, 212, 214, 221, 222, 223, 241, 244, 245, 246, 247, 248, 250, 251, 252, 253] []
def end27B_0001 : HuffmanDecoder := twoFinal 2 3
def end27B_0010 : HuffmanDecoder := twoFinal 4 5
def end27B_0011 : HuffmanDecoder := twoFinal 6 7
def end27B_0100 : HuffmanDecoder := twoFinal 8 11
def end27B_0101 : HuffmanDecoder := twoFinal 12 14
def end27B_0110 : HuffmanDecoder := twoFinal 15 16
def end27B_0111 : HuffmanDecoder := twoFinal 17 18
def end27B_1000 : HuffmanDecoder := twoFinal 19 20
def end27B_1001 : HuffmanDecoder := twoFinal 21 23
def end27B_1010 : HuffmanDecoder := twoFinal 24 25
def end27B_1011 : HuffmanDecoder := twoFinal 26 27
def end27B_1100 : HuffmanDecoder := twoFinal 28 29
def end27B_1101 : HuffmanDecoder := twoFinal 30 31
def end27B_1110 : HuffmanDecoder := twoFinal 127 220
def eof : HuffmanDecoder :=
  general 8 [] []
def end31_1 : HuffmanDecoder :=
  general 2 [10, 13, 22] [eof]
def end27B_1111 : HuffmanDecoder :=
  general 1 [249] [end31_1]
def end23B_1111 : HuffmanDecoder :=
  general 4 [254]
    [end27B_0001, end27B_0010, end27B_0011, end27B_0100, end27B_0101, end27B_0110, end27B_0111,
    end27B_1000, end27B_1001, end27B_1010, end27B_1011, end27B_1100, end27B_1101, end27B_1110,
    end27B_1111]
def end19_1111 : HuffmanDecoder :=
  general 4 [188, 191, 197, 231, 239]
    [end23B_0101, end23B_0110, end23B_0111, end23B_1000, end23B_1001, end23B_1010, end23B_1011,
    end23B_1100, end23B_1101, end23B_1110, end23B_1111]
def end15_1 : HuffmanDecoder :=
  general 4 [92, 195, 208]
    [end19_0011, end19_0100, end19_0101, end19_0110, end19_0111, end19_1000, end19_1001,
    end19_1010, end19_1011, end19_1100, end19_1101, end19_1110, end19_1111]
def end14_1 : HuffmanDecoder := twoFinalSub 123 end15_1
def end13_11 : HuffmanDecoder := twoSub end14_0 end14_1
def end9B_11 : HuffmanDecoder :=
  general 2 [93, 126] [end13_10, end13_11]
def end8_1 : HuffmanDecoder :=
  general 2 [124] [end9B_01, end9B_10, end9B_11]
def end7_1 : HuffmanDecoder := twoSub end8_0 end8_1
def end5_11 : HuffmanDecoder := twoSub end7_0 end7_1
def end0_11111 : HuffmanDecoder := fourSub end5_00 end5_01 end5_10 end5_11
def hpackString : HuffmanDecoder :=
  general 5 [48, 49, 50, 97, 99, 101, 105, 111, 115, 116]
    [end0_01010, end0_01011, end0_01100, end0_01101, end0_01110, end0_01111, end0_10000,
    end0_10001, end0_10010, end0_10011, end0_10100, end0_10101, end0_10110, end0_10111,
    end0_11000, end0_11001, end0_11010, end0_11011, end0_11100, end0_11101, end0_11110, end0_11111]

/-- `for byte in payload.hpack_decode()`; every byte takes up a bit. -/
def collect (input : Bytes) : Nat → BitWindow → Bytes → Except (Fault Error) Bytes
  | 0, _, _ => .error .panic
  | fuel + 1, w, decoded =>
      match hpackString.decodeNext input w with
      | .error fault => .error fault
      | .ok (none, _) => .ok decoded
      | .ok (some x, w) => collect input fuel w (decoded ++ [x])

def hpackDecode (input : Bytes) : Except (Fault Error) Bytes :=
  collect input (8 * input.length + 1) .new []

/-! Positions. -/

/-- The bits that have not been looked up. -/
def BitWindow.rest (w : BitWindow) (input : Bytes) : List Bool :=
  (Bits.ofBytes input).drop (8 * w.byte + (w.bit + w.count))

/-- What has been looked up is there, and no position wraps. -/
structure Within (w : BitWindow) (input : Bytes) : Prop where
  short : input.length < 2 ^ 28
  bit : w.bit < 8
  stop : 8 * w.byte + (w.bit + w.count) ≤ 8 * input.length

theorem within_new {input : Bytes} (h : input.length < 2 ^ 28) : Within .new input :=
  ⟨h, Nat.zero_lt_succ 7, Nat.zero_le _⟩

variable {input : Bytes} {w : BitWindow}

theorem length_rest (w : BitWindow) (input : Bytes) :
    (w.rest input).length = 8 * input.length - (8 * w.byte + (w.bit + w.count)) := by
  rw [BitWindow.rest, List.length_drop, Bits.length_ofBytes]

theorem readBits_eq {byteOffset bitOffset len : Nat} (hshort : input.length < 2 ^ 28)
    (hbit : bitOffset < 8) (hstart : 8 * byteOffset + bitOffset ≤ 8 * input.length) :
    readBits input byteOffset bitOffset len =
      if len = 0 ∨ 8 < len ∨ 8 * input.length < 8 * byteOffset + bitOffset + len then
        .error (.err ())
      else
        .ok (Bits.toNat (((Bits.ofBytes input).drop (8 * byteOffset + bitOffset)).take len)) := by
  by_cases hlen : len = 0 ∨ 8 < len
  · have hbits : len = 0 ∨ 8 < len ∨ 8 * input.length < 8 * byteOffset + bitOffset + len := by
      omega
    rw [readBits, if_pos (by omega), if_pos hbits]
  · have hlength : input.length % 2 ^ 32 * 8 % 2 ^ 32 = 8 * input.length := by omega
    have hstop : ((byteOffset * 8 % 2 ^ 32 + bitOffset) % 2 ^ 32 + len) % 2 ^ 32 =
        8 * byteOffset + bitOffset + len := by omega
    rw [readBits, hlength, hstop]
    split
    · rfl
    · next hfits =>
        have hbyte : (byteOffset + bitOffset / 8) % 2 ^ 32 = byteOffset := by omega
        have hoffset : bitOffset - bitOffset / 8 * 8 = bitOffset := by omega
        have hlt : byteOffset < input.length := by omega
        have hb := List.getElem?_eq_getElem hlt
        simp only [hbyte, hoffset, hb]
        split
        · next hone => rw [Bits.window_one hb hone]
        · next htwo =>
            have hlt' : byteOffset + 1 < input.length := by omega
            have hc := List.getElem?_eq_getElem hlt'
            simp only [hc]
            rw [← Bits.window_two hb hc (by omega), Nat.mod_eq_of_lt]
            have hwindow := Bits.toNat_lt
              (((Bits.ofBytes input).drop (8 * byteOffset + bitOffset)).take len)
            have hpow : 2 ^ (((Bits.ofBytes input).drop (8 * byteOffset + bitOffset)).take
                len).length ≤ 2 ^ 8 := by
              refine Nat.pow_le_pow_right Nat.two_pos ?_
              rw [List.length_take]
              omega
            omega

theorem Within.forwards_eq (h : Within w input) (step : Nat) : w.forwards step =
    ⟨w.byte + (w.bit + w.count) / 8, (w.bit + w.count) % 8, step⟩ := by
  obtain ⟨hshort, -, hstop⟩ := h
  have hbit : (w.bit + w.count) % 2 ^ 32 = w.bit + w.count := by omega
  have hbyte : (w.byte + (w.bit + w.count) / 8) % 2 ^ 32 = w.byte + (w.bit + w.count) / 8 := by
    omega
  simp only [BitWindow.forwards, hbit, hbyte]

/-- Where a window stands after the step to it. -/
theorem Within.forwards_start (h : Within w input) (step : Nat) :
    8 * (w.forwards step).byte + (w.forwards step).bit = 8 * w.byte + (w.bit + w.count) ∧
      (w.forwards step).bit < 8 ∧ (w.forwards step).count = step := by
  rw [h.forwards_eq]
  dsimp only
  omega

/-- A look-up that has enough bits. -/
theorem Within.fetch (h : Within w input) {step : Nat} (hpos : 0 < step) (hle : step ≤ 8)
    (hrest : step ≤ (w.rest input).length) :
    fetchValue (w.forwards step) input = .ok (some (Bits.toNat ((w.rest input).take step))) ∧
      Within (w.forwards step) input ∧
      (w.forwards step).rest input = (w.rest input).drop step := by
  obtain ⟨hstart, hbit, hcount⟩ := h.forwards_start step
  rw [length_rest] at hrest
  have hshort := h.short
  have hstop := h.stop
  refine ⟨?_, ⟨hshort, hbit, by omega⟩, ?_⟩
  · rw [fetchValue, readBits_eq hshort hbit (by omega), hcount, if_neg (by omega), hstart]
    rfl
  · rw [BitWindow.rest, BitWindow.rest, List.drop_drop, hcount]
    congr 1
    omega

/-- A look-up that has not. -/
theorem Within.fetch_short (h : Within w input) {step : Nat}
    (hstep : step = 0 ∨ 8 < step ∨ (w.rest input).length < step) :
    fetchValue (w.forwards step) input = checkEof (w.forwards step) input := by
  obtain ⟨hstart, hbit, hcount⟩ := h.forwards_start step
  rw [length_rest] at hstep
  have hshort := h.short
  have hstop := h.stop
  rw [fetchValue, readBits_eq hshort hbit (by omega), hcount, if_pos (by omega)]

/-- What is left of the last byte is all ones. -/
theorem Within.checkEof_ones (h : Within w input) {step k : Nat} (hk : k < 8)
    (hrest : w.rest input = List.replicate k true) :
    checkEof (w.forwards step) input = .ok none := by
  obtain ⟨hstart, hbit, hcount⟩ := h.forwards_start step
  have hlength := length_rest w input
  rw [hrest, List.length_replicate] at hlength
  have hshort := h.short
  have hstop := h.stop
  by_cases hzero : k = 0
  · have hgt : compare ((w.forwards step).byte + 1) input.length = .gt :=
      Nat.compare_eq_gt.mpr (by omega)
    rw [checkEof, hgt]
  · have heq : compare ((w.forwards step).byte + 1) input.length = .eq :=
      Nat.compare_eq_eq.mpr (by omega)
    have hside : 8 - (w.forwards step).bit % 8 = k := by omega
    have hread : readBits input (w.forwards step).byte (w.forwards step).bit k =
        .ok (2 ^ k - 1) := by
      have hones : ((Bits.ofBytes input).drop (8 * (w.forwards step).byte +
          (w.forwards step).bit)).take k = List.replicate k true := by
        rw [hstart]
        change (w.rest input).take k = _
        rw [hrest, List.take_of_length_le (by rw [List.length_replicate])]
      rw [readBits_eq hshort hbit (by omega), if_neg (by omega), hones,
        Bits.toNat_replicate_true]
    have hfiller : ∀ k < 8, k ≠ 0 → (2 <<< (k - 1) % 2 ^ 16 - 1) % 2 ^ 8 = 2 ^ k - 1 := by
      decide
    simp only [checkEof, heq, BitWindow.oppositeBitWindow, hside, hread, hfiller k hk hzero,
      Nat.and_self, if_true]

/-! What the tables spell. -/

/-- The table reads `x` off the bits. -/
inductive Code : HuffmanDecoder → List Bool → UInt8 → Prop where
  | sym {lookup i : Nat} {table : List DecodeValue} {x : UInt8} (hpos : 0 < lookup)
      (hle : lookup ≤ 8) (hi : i < 2 ^ lookup) (hentry : table[i]? = some (.sym x)) :
      Code (.mk lookup table) (Bits.ofNat lookup i) x
  | sub {lookup i : Nat} {table : List DecodeValue} {d : HuffmanDecoder} {bits : List Bool}
      {x : UInt8} (hpos : 0 < lookup) (hle : lookup ≤ 8) (hi : i < 2 ^ lookup)
      (hentry : table[i]? = some (.sub d)) (hcode : Code d bits x) :
      Code (.mk lookup table) (Bits.ofNat lookup i ++ bits) x

theorem tableNext_eq {table : List DecodeValue} {index value : Nat} {entry : DecodeValue}
    (h : table[index]? = some entry) :
    tableNext input table index value w = entry.next input w := by
  induction table generalizing index with
  | nil => cases h
  | cons first table ih =>
      cases index with
      | zero =>
          obtain rfl : first = entry := by simpa using h
          rfl
      | succ index => exact ih (by simpa using h)

/-- The step to the entry that the next bits select. -/
theorem Within.decodeNext_entry (h : Within w input) {lookup i : Nat}
    {table : List DecodeValue} {entry : DecodeValue} {more : List Bool} (hpos : 0 < lookup)
    (hle : lookup ≤ 8) (hi : i < 2 ^ lookup) (hentry : table[i]? = some entry)
    (hrest : w.rest input = Bits.ofNat lookup i ++ more) :
    (HuffmanDecoder.mk lookup table).decodeNext input w = entry.next input (w.forwards lookup) ∧
      Within (w.forwards lookup) input ∧ (w.forwards lookup).rest input = more := by
  obtain ⟨hfetch, hwithin, hmore⟩ := h.fetch hpos hle (by
    rw [hrest, List.length_append, Bits.length_ofNat]
    exact Nat.le_add_right _ _)
  rw [hrest, List.take_left' (Bits.length_ofNat lookup i), Bits.toNat_ofNat,
    Nat.mod_eq_of_lt hi] at hfetch
  rw [hrest, List.drop_left' (Bits.length_ofNat lookup i)] at hmore
  refine ⟨?_, hwithin, hmore⟩
  rw [HuffmanDecoder.decodeNext, hfetch]
  exact tableNext_eq hentry

theorem Code.decodeNext {d : HuffmanDecoder} {bits more : List Bool} {x : UInt8}
    (hcode : Code d bits x) (h : Within w input) (hrest : w.rest input = bits ++ more) :
    ∃ w', d.decodeNext input w = .ok (some x, w') ∧ Within w' input ∧ w'.rest input = more := by
  induction hcode generalizing w with
  | sym hpos hle hi hentry =>
      obtain ⟨hnext, hwithin, hmore⟩ := h.decodeNext_entry hpos hle hi hentry hrest
      exact ⟨_, hnext, hwithin, hmore⟩
  | sub hpos hle hi hentry _ ih =>
      rw [List.append_assoc] at hrest
      obtain ⟨hnext, hwithin, hmore⟩ := h.decodeNext_entry hpos hle hi hentry hrest
      obtain ⟨w', hnext', hwithin', hmore'⟩ := ih hwithin hmore
      exact ⟨w', hnext.trans hnext', hwithin', hmore'⟩

/-- `k` ones at the end are no symbol. -/
inductive Fills : HuffmanDecoder → Nat → Prop where
  | few {lookup k : Nat} {table : List DecodeValue} (h : k < lookup) : Fills (.mk lookup table) k
  | sub {lookup k : Nat} {table : List DecodeValue} {d : HuffmanDecoder} (hpos : 0 < lookup)
      (hle : lookup ≤ 8) (hentry : table[2 ^ lookup - 1]? = some (.sub d)) (hfills : Fills d k) :
      Fills (.mk lookup table) (lookup + k)

theorem ones_eq (k : Nat) : List.replicate k true = Bits.ofNat k (2 ^ k - 1) := by
  have hones := Bits.ofNat_toNat (List.replicate k true)
  rw [List.length_replicate, Bits.toNat_replicate_true] at hones
  exact hones.symm

theorem Fills.decodeNext {d : HuffmanDecoder} {k : Nat} (hfills : Fills d k) (hk : k < 8)
    (h : Within w input) (hrest : w.rest input = List.replicate k true) :
    ∃ w', d.decodeNext input w = .ok (none, w') := by
  induction hfills generalizing w with
  | @few lookup k table hfew =>
      have hshort : (w.rest input).length < lookup := by
        rw [hrest, List.length_replicate]
        exact hfew
      refine ⟨w.forwards lookup, ?_⟩
      rw [HuffmanDecoder.decodeNext, h.fetch_short (.inr (.inr hshort)),
        h.checkEof_ones hk hrest]
  | @sub lookup k table d hpos hle hentry _ ih =>
      rw [List.replicate_add, ones_eq lookup] at hrest
      have hi : 2 ^ lookup - 1 < 2 ^ lookup := Nat.sub_lt (Nat.two_pow_pos _) Nat.one_pos
      obtain ⟨hnext, hwithin, hmore⟩ := h.decodeNext_entry hpos hle hi hentry hrest
      obtain ⟨w', hnext'⟩ := ih (by omega) hwithin hmore
      exact ⟨w', hnext.trans hnext'⟩

/-- The codes of a table and of those below it, down to a depth. -/
def codes : Nat → HuffmanDecoder → List (List Bool × UInt8)
  | 0, _ => []
  | depth + 1, .mk lookup table =>
      if 0 < lookup ∧ lookup ≤ 8 ∧ table.length ≤ 2 ^ lookup then
        table.zipIdx.flatMap fun (entry, i) =>
          match entry with
          | .sym x => [(Bits.ofNat lookup i, x)]
          | .sub d => (codes depth d).map fun (bits, x) => (Bits.ofNat lookup i ++ bits, x)
      else []

theorem code_of_mem {depth : Nat} {d : HuffmanDecoder} {bits : List Bool} {x : UInt8}
    (h : (bits, x) ∈ codes depth d) : Code d bits x := by
  induction depth generalizing d bits with
  | zero => cases h
  | succ depth ih =>
      obtain ⟨lookup, table⟩ := d
      rw [codes] at h
      split at h
      · next hsize =>
          obtain ⟨hpos, hle, hlength⟩ := hsize
          obtain ⟨⟨entry, i⟩, hentry, hmem⟩ := List.mem_flatMap.mp h
          have hget := List.mem_zipIdx_iff_getElem?.mp hentry
          obtain ⟨hlt, -⟩ := List.getElem?_eq_some_iff.mp hget
          have hi : i < 2 ^ lookup := Nat.lt_of_lt_of_le hlt hlength
          cases entry with
          | sym y =>
              obtain ⟨rfl, rfl⟩ := Prod.mk.inj (List.mem_singleton.mp hmem)
              exact .sym hpos hle hi hget
          | sub d =>
              obtain ⟨⟨bits', y⟩, hcode, heq⟩ := List.mem_map.mp hmem
              obtain ⟨rfl, rfl⟩ := Prod.mk.inj heq
              exact .sub hpos hle hi hget (ih hcode)
      · cases h

/-- The code of a symbol. -/
def code (x : UInt8) : List Bool :=
  ((codes 13 hpackString).find? (·.2 = x)).elim [] Prod.fst

/-- The symbols as the bits of a number. -/
def symbols (cs : List (List Bool × UInt8)) : Nat :=
  cs.foldr (fun c seen => seen ||| 1 <<< c.2.toNat) 0

theorem symbols_hpackString : symbols (codes 13 hpackString) = 2 ^ 256 - 1 := by decide +kernel

theorem mem_of_symbols {cs : List (List Bool × UInt8)} {n : Nat}
    (h : (symbols cs).testBit n = true) : ∃ c ∈ cs, c.2.toNat = n := by
  induction cs with
  | nil => simp [symbols] at h
  | cons c cs ih =>
      rw [symbols, List.foldr_cons, Nat.testBit_or, Bool.or_eq_true] at h
      rcases h with hrest | hbit
      · obtain ⟨c', hc', hn⟩ := ih hrest
        exact ⟨c', List.mem_cons_of_mem c hc', hn⟩
      · rw [Nat.one_shiftLeft, Nat.testBit_two_pow] at hbit
        exact ⟨c, List.mem_cons_self .., of_decide_eq_true hbit⟩

theorem exists_code (x : UInt8) : ∃ c ∈ codes 13 hpackString, c.2 = x := by
  have hbit : (symbols (codes 13 hpackString)).testBit x.toNat = true := by
    rw [symbols_hpackString, Nat.testBit_two_pow_sub_one]
    exact decide_eq_true x.toNat_lt
  obtain ⟨c, hc, hsym⟩ := mem_of_symbols hbit
  exact ⟨c, hc, UInt8.toNat_inj.mp hsym⟩

theorem code_spec (x : UInt8) : Code hpackString (code x) x := by
  obtain ⟨c, hc, hsym⟩ := exists_code x
  cases hfind : (codes 13 hpackString).find? (·.2 = x) with
  | none =>
      have hnone := List.find?_eq_none.mp hfind c hc
      exact absurd (decide_eq_true hsym) hnone
  | some c' =>
      obtain ⟨bits, y⟩ := c'
      have hy := List.find?_some hfind
      obtain rfl : y = x := of_decide_eq_true hy
      rw [code, hfind]
      exact code_of_mem (List.mem_of_find?_eq_some hfind)

theorem code_ne_nil (x : UInt8) : code x ≠ [] := by
  intro hnil
  have hcode := code_spec x
  rw [hnil] at hcode
  generalize hbits : ([] : List Bool) = bits at hcode
  cases hcode with
  | sym hpos _ _ _ =>
      have hlength := congrArg List.length hbits
      rw [Bits.length_ofNat] at hlength
      exact absurd hlength.symm hpos.ne'
  | sub hpos _ _ _ _ =>
      have hlength := congrArg List.length hbits
      rw [List.length_append, Bits.length_ofNat, List.length_nil] at hlength
      omega

theorem fills (k : Nat) (hk : k < 8) : Fills hpackString k := by
  have h11 (k : Nat) (hk : k < 1) : Fills end5_11 k := .few hk
  have h11111 (k : Nat) (hk : k < 3) : Fills end0_11111 k := by
    rcases Nat.lt_or_ge k 2 with h | h
    · exact .few h
    · obtain ⟨k, rfl⟩ := Nat.exists_eq_add_of_le h
      exact .sub Nat.two_pos (by decide) rfl (h11 k (by omega))
  rcases Nat.lt_or_ge k 5 with h | h
  · exact .few h
  · obtain ⟨k, rfl⟩ := Nat.exists_eq_add_of_le h
    exact .sub (by decide) (by decide) rfl (h11111 k (by omega))

/-- A text in the code, filled up with ones. -/
def spell (s : Bytes) : Bytes := Bits.pack (s.flatMap code)

theorem collect_spelled {s decoded : Bytes} {k fuel : Nat} (h : Within w input) (hk : k < 8)
    (hrest : w.rest input = s.flatMap code ++ List.replicate k true) (hfuel : s.length < fuel) :
    collect input fuel w decoded = .ok (decoded ++ s) := by
  induction s generalizing w decoded fuel with
  | nil =>
      obtain ⟨fuel, rfl⟩ := Nat.exists_eq_succ_of_ne_zero (Nat.ne_zero_of_lt hfuel)
      obtain ⟨w', hnext⟩ := (fills k hk).decodeNext hk h hrest
      simp only [collect, hnext, List.append_nil]
  | cons x s ih =>
      obtain ⟨fuel, rfl⟩ := Nat.exists_eq_succ_of_ne_zero (Nat.ne_zero_of_lt hfuel)
      rw [List.flatMap_cons, List.append_assoc] at hrest
      obtain ⟨w', hnext, hwithin, hmore⟩ := (code_spec x).decodeNext h hrest
      simp only [collect, hnext]
      rw [ih hwithin hmore (Nat.lt_of_succ_lt_succ hfuel), List.append_assoc]
      rfl

theorem length_le_flatMap (s : Bytes) : s.length ≤ (s.flatMap code).length := by
  induction s with
  | nil => exact Nat.le_refl _
  | cons x s ih =>
      have hpos := List.length_pos_iff.mpr (code_ne_nil x)
      rw [List.flatMap_cons, List.length_append, List.length_cons]
      omega

/-- What is written in the code of the tables is read back, whatever the
bytes are. -/
theorem hpackDecode_spell (s : Bytes) (hshort : (spell s).length < 2 ^ 28) :
    hpackDecode (spell s) = .ok s := by
  obtain ⟨k, hk, hbits⟩ := Bits.exists_ofBytes_pack (s.flatMap code)
  have hlength := congrArg List.length hbits
  have hle := length_le_flatMap s
  rw [Bits.length_ofBytes, List.length_append] at hlength
  exact collect_spelled (within_new hshort) hk hbits (by rw [spell]; omega)

/-! On other strings the decoder stops with an error or early, and never looks
outside of the string. -/

theorem checkEof_cases (h : Within w input) (step : Nat) :
    checkEof (w.forwards step) input = .ok none ∨
      ∃ e, checkEof (w.forwards step) input = .error (.err e) := by
  obtain ⟨hstart, hbit, -⟩ := h.forwards_start step
  have hshort := h.short
  have hstop := h.stop
  have hread (len : Nat) : readBits input (w.forwards step).byte (w.forwards step).bit len ≠
      .error .panic := by
    rw [readBits_eq hshort hbit (by omega)]
    split <;> simp
  unfold checkEof
  split
  · exact .inl rfl
  · dsimp only [BitWindow.oppositeBitWindow]
    split
    · next hpanic => exact absurd hpanic (hread _)
    · exact .inr ⟨_, rfl⟩
    · split
      · exact .inl rfl
      · exact .inr ⟨_, rfl⟩
  · exact .inr ⟨_, rfl⟩

/-- What a step may come to that leaves fewer than `n` bits if it gives a
symbol. -/
def Steps (input : Bytes) (n : Nat) (next : Next) : Prop :=
  (∃ e, next = .error (.err e)) ∨ (∃ w', next = .ok (none, w')) ∨
    ∃ x w', next = .ok (some x, w') ∧ Within w' input ∧ (w'.rest input).length < n

theorem Steps.mono {n m : Nat} {next : Next} (h : Steps input n next) (hle : n ≤ m) :
    Steps input m next := by
  rcases h with he | hnone | ⟨x, w', hsome, hwithin, hlt⟩
  · exact .inl he
  · exact .inr (.inl hnone)
  · exact .inr (.inr ⟨x, w', hsome, hwithin, hlt.trans_le hle⟩)

mutual

theorem HuffmanDecoder.steps : ∀ (d : HuffmanDecoder) {w : BitWindow}, Within w input →
    Steps input (w.rest input).length (d.decodeNext input w)
  | .mk lookup table, w, h => by
      rw [HuffmanDecoder.decodeNext]
      by_cases hfew : lookup = 0 ∨ 8 < lookup ∨ (w.rest input).length < lookup
      · rw [h.fetch_short hfew]
        rcases checkEof_cases h lookup with hcheck | ⟨e, hcheck⟩
        · rw [hcheck]
          exact .inr (.inl ⟨_, rfl⟩)
        · rw [hcheck]
          exact .inl ⟨e, rfl⟩
      · have hpos : 0 < lookup := by omega
        obtain ⟨hfetch, hwithin, hrest⟩ := h.fetch hpos (by omega) (by omega)
        rw [hfetch]
        refine (tableSteps table _ _ hwithin).mono ?_
        rw [hrest, List.length_drop]
        omega

theorem tableSteps : ∀ (table : List DecodeValue) (index value : Nat) {w : BitWindow},
    Within w input → Steps input ((w.rest input).length + 1) (tableNext input table index value w)
  | [], _, _, _, _ => .inl ⟨_, rfl⟩
  | entry :: _, 0, _, _, h => entry.steps h
  | _ :: table, index + 1, value, _, h => tableSteps table index value h

theorem DecodeValue.steps : ∀ (entry : DecodeValue) {w : BitWindow}, Within w input →
    Steps input ((w.rest input).length + 1) (entry.next input w)
  | .sym x, w, h => .inr (.inr ⟨x, w, rfl, h, Nat.lt_succ_self _⟩)
  | .sub d, _, h => (d.steps h).mono (Nat.le_succ _)

end

theorem collect_ne_panic {fuel : Nat} {decoded : Bytes} (h : Within w input)
    (hfuel : (w.rest input).length < fuel) : collect input fuel w decoded ≠ .error .panic := by
  induction fuel generalizing w decoded with
  | zero => cases hfuel
  | succ fuel ih =>
      rcases hpackString.steps h with ⟨e, hnext⟩ | ⟨w', hnext⟩ | ⟨x, w', hnext, hwithin, hlt⟩
      · simp [collect, hnext]
      · simp [collect, hnext]
      · simp only [collect, hnext]
        exact ih hwithin (by omega)

theorem hpackDecode_ne_panic (hshort : input.length < 2 ^ 28) :
    hpackDecode input ≠ .error .panic := by
  refine collect_ne_panic (within_new hshort) ?_
  rw [length_rest]
  omega

/-! What is accepted is spelled. -/

/-- The bits that a step to a symbol takes up are a code of the symbol. -/
def Reading (w : BitWindow) (input : Bytes) (c : List Bool → Prop) (w' : BitWindow) : Prop :=
  ∃ bits, c bits ∧ Within w' input ∧ w.rest input = bits ++ w'.rest input

mutual

theorem HuffmanDecoder.sound : ∀ (d : HuffmanDecoder) {w w' : BitWindow} {x : UInt8},
    Within w input → d.decodeNext input w = .ok (some x, w') →
      Reading w input (Code d · x) w'
  | .mk lookup table, w, w', x, h, hnext => by
      rw [HuffmanDecoder.decodeNext] at hnext
      by_cases hfew : lookup = 0 ∨ 8 < lookup ∨ (w.rest input).length < lookup
      · rw [h.fetch_short hfew] at hnext
        rcases checkEof_cases h lookup with hcheck | ⟨e, hcheck⟩
        · rw [hcheck] at hnext
          cases hnext
        · rw [hcheck] at hnext
          cases hnext
      · have hpos : 0 < lookup := by omega
        have hle : lookup ≤ 8 := by omega
        obtain ⟨hfetch, hwithin, hrest⟩ := h.fetch hpos hle (by omega)
        rw [hfetch] at hnext
        have htake : ((w.rest input).take lookup).length = lookup := by
          rw [List.length_take]
          omega
        have hlt := Bits.toNat_lt ((w.rest input).take lookup)
        have hbits := Bits.ofNat_toNat ((w.rest input).take lookup)
        rw [htake] at hlt hbits
        obtain ⟨entry, more, hentry, hcase, hwithin', hmore⟩ := tableSound table hwithin hnext
        refine ⟨(w.rest input).take lookup ++ more, ?_, hwithin', ?_⟩
        · rw [← hbits]
          rcases hcase with ⟨rfl, rfl⟩ | ⟨d, rfl, hcode⟩
          · rw [List.append_nil]
            exact .sym hpos hle hlt hentry
          · exact .sub hpos hle hlt hentry hcode
        · rw [List.append_assoc, ← hmore, hrest, List.take_append_drop]

theorem tableSound : ∀ (table : List DecodeValue) {index value : Nat} {w w' : BitWindow}
    {x : UInt8}, Within w input → tableNext input table index value w = .ok (some x, w') →
      ∃ entry more, table[index]? = some entry ∧
        ((entry = .sym x ∧ more = []) ∨ ∃ d, entry = .sub d ∧ Code d more x) ∧
        Within w' input ∧ w.rest input = more ++ w'.rest input
  | [], _, _, _, _, _, _, hnext => by cases hnext
  | .sym y :: _, 0, _, _, _, _, h, hnext => by
      cases hnext
      exact ⟨_, [], rfl, .inl ⟨rfl, rfl⟩, h, rfl⟩
  | .sub d :: _, 0, _, _, _, _, h, hnext => by
      obtain ⟨more, hcode, hwithin, hmore⟩ := d.sound h hnext
      exact ⟨_, more, rfl, .inr ⟨d, rfl, hcode⟩, hwithin, hmore⟩
  | _ :: table, _ + 1, _, _, _, _, h, hnext => tableSound table h hnext

end

/-- No table below the depth has entries, and none has an entry that no bits
select. -/
def fits : Nat → HuffmanDecoder → Bool
  | 0, .mk _ table => table.isEmpty
  | depth + 1, .mk lookup table =>
      decide (table.length ≤ 2 ^ lookup) && table.all fun entry =>
        match entry with
        | .sym _ => true
        | .sub d => fits depth d

theorem mem_of_code {d : HuffmanDecoder} {bits : List Bool} {x : UInt8} (h : Code d bits x)
    {depth : Nat} (hfits : fits depth d = true) : (bits, x) ∈ codes depth d := by
  induction h generalizing depth with
  | @sym lookup i table x hpos hle hi hentry =>
      cases depth with
      | zero =>
          rw [List.isEmpty_iff.mp hfits] at hentry
          cases hentry
      | succ depth =>
          obtain ⟨hlength, -⟩ := (Bool.and_eq_true _ _).mp hfits
          rw [codes, if_pos ⟨hpos, hle, of_decide_eq_true hlength⟩]
          exact List.mem_flatMap.mpr ⟨(.sym x, i), List.mem_zipIdx_iff_getElem?.mpr hentry,
            List.mem_singleton_self _⟩
  | @sub lookup i table d bits x hpos hle hi hentry _ ih =>
      cases depth with
      | zero =>
          rw [List.isEmpty_iff.mp hfits] at hentry
          cases hentry
      | succ depth =>
          obtain ⟨hlength, hall⟩ := (Bool.and_eq_true _ _).mp hfits
          have hsub : fits depth d = true :=
            List.all_eq_true.mp hall (.sub d) (List.mem_of_getElem? hentry)
          rw [codes, if_pos ⟨hpos, hle, of_decide_eq_true hlength⟩]
          exact List.mem_flatMap.mpr ⟨(.sub d, i), List.mem_zipIdx_iff_getElem?.mpr hentry,
            List.mem_map.mpr ⟨(bits, x), ih hsub, rfl⟩⟩

theorem nodup_symbols : ((codes 13 hpackString).map fun c => c.2.toNat).Nodup := by
  decide +kernel

/-- No symbol has a second code. -/
theorem code_unique {bits : List Bool} {x : UInt8} (h : Code hpackString bits x) :
    bits = code x := by
  have hfits : fits 13 hpackString = true := by decide +kernel
  have heq := List.inj_on_of_nodup_map nodup_symbols (mem_of_code h hfits)
    (mem_of_code (code_spec x) hfits) rfl
  exact congrArg Prod.fst heq

theorem collect_sound {s decoded : Bytes} {fuel : Nat} (h : Within w input)
    (hcollect : collect input fuel w decoded = .ok s) :
    ∃ more tail, s = decoded ++ more ∧ w.rest input = more.flatMap code ++ tail ∧
      ∀ x, ¬ code x <+: tail := by
  induction fuel generalizing w decoded with
  | zero => cases hcollect
  | succ fuel ih =>
      rw [collect] at hcollect
      split at hcollect
      · cases hcollect
      · next hnone =>
          cases hcollect
          refine ⟨[], w.rest input, (List.append_nil _).symm, rfl, ?_⟩
          rintro x ⟨tail, htail⟩
          obtain ⟨w', hsome, -⟩ := (code_spec x).decodeNext h htail.symm
          rw [hnone] at hsome
          cases hsome
      · next x w' hsome =>
          obtain ⟨bits, hcode, hwithin, hrest⟩ := hpackString.sound h hsome
          obtain ⟨more, tail, hs, hmore, htail⟩ := ih hwithin hcollect
          refine ⟨x :: more, tail, ?_, ?_, htail⟩
          · rw [hs, List.append_assoc]
            rfl
          · rw [hrest, hmore, code_unique hcode, List.flatMap_cons, List.append_assoc]

/-- A string that the decoder accepts begins with the codes of what it returns,
and no further code follows. -/
theorem hpackDecode_sound {s : Bytes} (hshort : input.length < 2 ^ 28)
    (h : hpackDecode input = .ok s) :
    ∃ tail, Bits.ofBytes input = s.flatMap code ++ tail ∧ ∀ x, ¬ code x <+: tail := by
  obtain ⟨more, tail, rfl, hrest, htail⟩ := collect_sound (within_new hshort) h
  exact ⟨tail, hrest, htail⟩

/-- What is spelled is read back; what is accepted begins with the codes of what
is returned, as far as there are codes; and nothing outside of the string is
looked at. -/
theorem hpackDecode_exact (input : Bytes) (hshort : input.length < 2 ^ 28) :
    (∀ s, input = spell s → hpackDecode input = .ok s) ∧
    (∀ s, hpackDecode input = .ok s →
      ∃ tail, Bits.ofBytes input = s.flatMap code ++ tail ∧ ∀ x, ¬ code x <+: tail) ∧
    hpackDecode input ≠ .error .panic := by
  refine ⟨?_, fun s => hpackDecode_sound hshort, hpackDecode_ne_panic hshort⟩
  rintro s rfl
  exact hpackDecode_spell s hshort

theorem hpackDecode_exact_byte :
    spell [97] = [0x1f] ∧ hpackDecode [0x1f] = .ok [97] ∧ ∀ s, hpackDecode [0x1f] = .ok s →
      ∃ tail, Bits.ofBytes [0x1f] = s.flatMap code ++ tail ∧ ∀ x, ¬ code x <+: tail := by
  have hspell : spell [97] = [0x1f] := by decide +kernel
  obtain ⟨hread, hsound, -⟩ := hpackDecode_exact [0x1f] (by decide)
  exact ⟨hspell, hread [97] hspell.symm, hsound⟩

-- What is left may be the start of a code, if the last byte ends with a look-up.
example : hpackDecode [0xfe] = .ok [] := rfl

end MoqTransport.Proto.Huffman
