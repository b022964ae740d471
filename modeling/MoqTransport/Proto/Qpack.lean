import MoqTransport.Coding.Fields
import MoqTransport.Lib.Hashed
import MoqTransport.Proto.Huffman

/-!
The parts of QPACK: integers that begin within a byte, strings behind their
lengths, and the static table. Integers and strings are read back as they are
written, the strings also where another encoder used Huffman codes for them
(`Text.reads`).

`usize` has 64 bits and wraps. Buffers grow as they need to.
-/

namespace MoqTransport.Proto.Qpack

open Streaming

inductive DecodeError where
  | unexpectedEnd
  | boundsExceeded
  | dynamicEntry
  | unknownEntry
  | huffmanError (e : Huffman.Error)
  | utf8Error
deriving DecidableEq

/-! An integer that uses a fixed number of bits, otherwise a variable number of
bytes if it's too large. -/

def maxPower : Nat := 10 * 7

/-- The bytes after the first, seven bits each. -/
def decodeRest : Nat → Nat → Decoder DecodeError Nat
  | _, _, [] => .error (.err .unexpectedEnd)
  | value, power, byte :: rest =>
      let value := (value + (byte.toNat &&& 127) <<< power % 2 ^ 64) % 2 ^ 64
      let power := power + 7
      if byte.toNat &&& 128 = 0 then .ok (value, rest)
      else if maxPower ≤ power then .error (.err .boundsExceeded)
      else decodeRest value power rest

def decodePrefix (size : Nat) : Decoder DecodeError (Nat × Nat)
  | [] => .error (.err .unexpectedEnd)
  | byte :: rest =>
      let flags := byte.toNat >>> size % 2 ^ 8
      let mask := 0xff >>> (8 - size)
      let first := byte.toNat &&& mask
      if first < mask then .ok ((flags, first), rest)
      else (Prod.mk flags <$> decodeRest mask 0) rest

/-- At most ten bytes for 64 bits. -/
def encodeRest : Nat → Nat → Bytes
  | 0, _ => []
  | fuel + 1, remaining =>
      if 128 ≤ remaining then
        UInt8.ofNat (remaining % 128 + 128) :: encodeRest fuel (remaining / 128)
      else [UInt8.ofNat remaining]

def encodePrefix (size flags value : Nat) (buf : Bytes) : Bytes :=
  -- The low byte of the complement.
  let mask := 255 - 0xff <<< size % 2 ^ 8
  let flags := flags <<< size % 2 ^ 8
  if value < mask then buf ++ [UInt8.ofNat (flags ||| value)]
  else buf ++ UInt8.ofNat (mask ||| flags) :: encodeRest 10 (value - mask)

/-- `for byte in payload.hpack_decode()`, with `?`. -/
def decodeHuffman (payload : Bytes) : Decoder DecodeError Bytes := fun r =>
  match Huffman.hpackDecode payload with
  | .ok decoded => .ok (decoded, r)
  | .error (.err e) => .error (.err (.huffmanError e))
  | .error .panic => .error .panic

def decodeString (size : Nat) : Decoder DecodeError Bytes := do
  if (← remaining) = 0 then fail .unexpectedEnd
  let (flags, len) ← decodePrefix (size - 1)
  if (← remaining) < len then fail .unexpectedEnd
  let payload ← copyToSlice len
  if flags &&& 1 = 0 then pure payload.toList else decodeHuffman payload.toList

def fromUtf8 (bs : Bytes) : Decoder DecodeError String :=
  match String.fromUTF8? ⟨bs.toArray⟩ with
  | some s => pure s
  | none => fail .utf8Error

def predefinedHeaders : List (String × String) :=
  [(":authority", ""), (":path", "/"), ("age", "0"), ("content-disposition", ""),
   ("content-length", "0"), ("cookie", ""), ("date", ""), ("etag", ""), ("if-modified-since", ""),
   ("if-none-match", ""), ("last-modified", ""), ("link", ""), ("location", ""), ("referer", ""),
   ("set-cookie", ""), (":method", "CONNECT"), (":method", "DELETE"), (":method", "GET"),
   (":method", "HEAD"), (":method", "OPTIONS"), (":method", "POST"), (":method", "PUT"),
   (":scheme", "http"), (":scheme", "https"), (":status", "103"), (":status", "200"),
   (":status", "304"), (":status", "404"), (":status", "503"), ("accept", "*/*"),
   ("accept", "application/dns-message"), ("accept-encoding", "gzip, deflate, br"),
   ("accept-ranges", "bytes"), ("access-control-allow-headers", "cache-control"),
   ("access-control-allow-headers", "content-type"), ("access-control-allow-origin", "*"),
   ("cache-control", "max-age=0"), ("cache-control", "max-age=2592000"),
   ("cache-control", "max-age=604800"), ("cache-control", "no-cache"),
   ("cache-control", "no-store"), ("cache-control", "public, max-age=31536000"),
   ("content-encoding", "br"), ("content-encoding", "gzip"),
   ("content-type", "application/dns-message"), ("content-type", "application/javascript"),
   ("content-type", "application/json"), ("content-type", "application/x-www-form-urlencoded"),
   ("content-type", "image/gif"), ("content-type", "image/jpeg"), ("content-type", "image/png"),
   ("content-type", "text/css"), ("content-type", "text/html; charset=utf-8"),
   ("content-type", "text/plain"), ("content-type", "text/plain;charset=utf-8"),
   ("range", "bytes=0-"), ("strict-transport-security", "max-age=31536000"),
   ("strict-transport-security", "max-age=31536000; includesubdomains"),
   ("strict-transport-security", "max-age=31536000; includesubdomains; preload"),
   ("vary", "accept-encoding"), ("vary", "origin"), ("x-content-type-options", "nosniff"),
   ("x-xss-protection", "1; mode=block"), (":status", "100"), (":status", "204"),
   (":status", "206"), (":status", "302"), (":status", "400"), (":status", "403"),
   (":status", "421"), (":status", "425"), (":status", "500"), ("accept-language", ""),
   ("access-control-allow-credentials", "FALSE"), ("access-control-allow-credentials", "TRUE"),
   ("access-control-allow-headers", "*"), ("access-control-allow-methods", "get"),
   ("access-control-allow-methods", "get, post, options"),
   ("access-control-allow-methods", "options"), ("access-control-expose-headers", "content-length"),
   ("access-control-request-headers", "content-type"), ("access-control-request-method", "get"),
   ("access-control-request-method", "post"), ("alt-svc", "clear"), ("authorization", ""),
   ("content-security-policy", "script-src 'none'; object-src 'none'; base-uri 'none'"),
   ("early-data", "1"), ("expect-ct", ""), ("forwarded", ""), ("if-range", ""), ("origin", ""),
   ("purpose", "prefetch"), ("server", ""), ("timing-allow-origin", "*"),
   ("upgrade-insecure-requests", "1"), ("user-agent", ""), ("x-forwarded-for", ""),
   ("x-frame-options", "deny"), ("x-frame-options", "sameorigin")]

namespace StaticTable

/-- `find` by its arms. -/
def findArms : List ((String × String) × Nat) :=
  [((":authority", ""), 0), ((":path", "/"), 1), (("age", "0"), 2),
   (("content-disposition", ""), 3), (("content-length", "0"), 4), (("cookie", ""), 5),
   (("date", ""), 6), (("etag", ""), 7), (("if-modified-since", ""), 8), (("if-none-match", ""), 9),
   (("last-modified", ""), 10), (("link", ""), 11), (("location", ""), 12), (("referer", ""), 13),
   (("set-cookie", ""), 14), ((":method", "CONNECT"), 15), ((":method", "DELETE"), 16),
   ((":method", "GET"), 17), ((":method", "HEAD"), 18), ((":method", "OPTIONS"), 19),
   ((":method", "POST"), 20), ((":method", "PUT"), 21), ((":scheme", "http"), 22),
   ((":scheme", "https"), 23), ((":status", "103"), 24), ((":status", "200"), 25),
   ((":status", "304"), 26), ((":status", "404"), 27), ((":status", "503"), 28),
   (("accept", "*/*"), 29), (("accept", "application/dns-message"), 30),
   (("accept-encoding", "gzip, deflate, br"), 31), (("accept-ranges", "bytes"), 32),
   (("access-control-allow-headers", "cache-control"), 33),
   (("access-control-allow-headers", "content-type"), 34),
   (("access-control-allow-origin", "*"), 35), (("cache-control", "max-age=0"), 36),
   (("cache-control", "max-age=2592000"), 37), (("cache-control", "max-age=604800"), 38),
   (("cache-control", "no-cache"), 39), (("cache-control", "no-store"), 40),
   (("cache-control", "public, max-age=31536000"), 41), (("content-encoding", "br"), 42),
   (("content-encoding", "gzip"), 43), (("content-type", "application/dns-message"), 44),
   (("content-type", "application/javascript"), 45), (("content-type", "application/json"), 46),
   (("content-type", "application/x-www-form-urlencoded"), 47), (("content-type", "image/gif"), 48),
   (("content-type", "image/jpeg"), 49), (("content-type", "image/png"), 50),
   (("content-type", "text/css"), 51), (("content-type", "text/html; charset=utf-8"), 52),
   (("content-type", "text/plain"), 53), (("content-type", "text/plain;charset=utf-8"), 54),
   (("range", "bytes=0-"), 55), (("strict-transport-security", "max-age=31536000"), 56),
   (("strict-transport-security", "max-age=31536000; includesubdomains"), 57),
   (("strict-transport-security", "max-age=31536000; includesubdomains; preload"), 58),
   (("vary", "accept-encoding"), 59), (("vary", "origin"), 60),
   (("x-content-type-options", "nosniff"), 61), (("x-xss-protection", "1; mode=block"), 62),
   ((":status", "100"), 63), ((":status", "204"), 64), ((":status", "206"), 65),
   ((":status", "302"), 66), ((":status", "400"), 67), ((":status", "403"), 68),
   ((":status", "421"), 69), ((":status", "425"), 70), ((":status", "500"), 71),
   (("accept-language", ""), 72), (("access-control-allow-credentials", "FALSE"), 73),
   (("access-control-allow-credentials", "TRUE"), 74), (("access-control-allow-headers", "*"), 75),
   (("access-control-allow-methods", "get"), 76),
   (("access-control-allow-methods", "get, post, options"), 77),
   (("access-control-allow-methods", "options"), 78),
   (("access-control-expose-headers", "content-length"), 79),
   (("access-control-request-headers", "content-type"), 80),
   (("access-control-request-method", "get"), 81), (("access-control-request-method", "post"), 82),
   (("alt-svc", "clear"), 83), (("authorization", ""), 84),
   (("content-security-policy", "script-src 'none'; object-src 'none'; base-uri 'none'"), 85),
   (("early-data", "1"), 86), (("expect-ct", ""), 87), (("forwarded", ""), 88),
   (("if-range", ""), 89), (("origin", ""), 90), (("purpose", "prefetch"), 91),
   (("server", ""), 92), (("timing-allow-origin", "*"), 93),
   (("upgrade-insecure-requests", "1"), 94), (("user-agent", ""), 95),
   (("x-forwarded-for", ""), 96), (("x-frame-options", "deny"), 97),
   (("x-frame-options", "sameorigin"), 98)]

/-- `find_name` by its arms. -/
def findNameArms : List (String × Nat) :=
  [(":authority", 0), (":path", 1), ("age", 2), ("content-disposition", 3), ("content-length", 4),
   ("cookie", 5), ("date", 6), ("etag", 7), ("if-modified-since", 8), ("if-none-match", 9),
   ("last-modified", 10), ("link", 11), ("location", 12), ("referer", 13), ("set-cookie", 14),
   (":method", 15), (":scheme", 22), (":status", 24), ("accept", 29), ("accept-encoding", 31),
   ("accept-ranges", 32), ("access-control-allow-headers", 33), ("access-control-allow-origin", 35),
   ("cache-control", 36), ("content-encoding", 42), ("content-type", 44), ("range", 55),
   ("strict-transport-security", 56), ("vary", 59), ("x-content-type-options", 61),
   ("x-xss-protection", 62), ("accept-language", 72), ("access-control-allow-credentials", 73),
   ("access-control-allow-methods", 76), ("access-control-expose-headers", 79),
   ("access-control-request-headers", 80), ("access-control-request-method", 81), ("alt-svc", 83),
   ("authorization", 84), ("content-security-policy", 85), ("early-data", 86), ("expect-ct", 87),
   ("forwarded", 88), ("if-range", 89), ("origin", 90), ("purpose", 91), ("server", 92),
   ("timing-allow-origin", 93), ("upgrade-insecure-requests", 94), ("user-agent", 95),
   ("x-forwarded-for", 96), ("x-frame-options", 97)]

def get (index : Nat) : Decoder DecodeError (String × String) :=
  match predefinedHeaders[index]? with
  | some field => pure field
  | none => fail .unknownEntry

def find (name value : String) : Option Nat := findArms.lookup (name, value)

def findName (name : String) : Option Nat := findNameArms.lookup name

theorem find_arms : ∀ arm ∈ findArms, predefinedHeaders[arm.2]? = some arm.1 := by
  decide +kernel

theorem find_name_arms :
    ∀ arm ∈ findNameArms, predefinedHeaders[arm.2]?.map Prod.fst = some arm.1 := by
  decide +kernel

end StaticTable

/-! Integers are read as they are written. -/

def prefixWire (size flags value : Nat) : Bytes := encodePrefix size flags value []

theorem encodePrefix_eq (size flags value : Nat) (buf : Bytes) :
    encodePrefix size flags value buf = buf ++ prefixWire size flags value := by
  unfold prefixWire encodePrefix
  dsimp only
  split <;> rfl

theorem masks : ∀ size ≤ 8,
    0xff >>> (8 - size) = 2 ^ size - 1 ∧ 255 - 0xff <<< size % 2 ^ 8 = 2 ^ size - 1 := by
  decide

theorem continued : ∀ n < 128, (n + 128) &&& 127 = n ∧ (n + 128) &&& 128 ≠ 0 := by
  decide

theorem last_of : ∀ n < 128, n &&& 127 = n ∧ n &&& 128 = 0 := by
  decide

theorem decodeRest_encodeRest {fuel remaining value power : Nat} (rest : Bytes)
    (hpos : 0 < fuel) (hfuel : remaining < 128 ^ fuel)
    (hvalue : value + remaining * 2 ^ power < 2 ^ 64) (hpower : power + 7 * fuel ≤ maxPower) :
    decodeRest value power (encodeRest fuel remaining ++ rest) =
      .ok (value + remaining * 2 ^ power, rest) := by
  induction fuel generalizing remaining value power with
  | zero => cases hpos
  | succ fuel ih =>
      have hstep {n : Nat} (hn : n * 2 ^ power ≤ remaining * 2 ^ power) :
          (value + n <<< power % 2 ^ 64) % 2 ^ 64 = value + n * 2 ^ power := by
        rw [Nat.shiftLeft_eq, Nat.mod_eq_of_lt (by omega : n * 2 ^ power < 2 ^ 64)]
        exact Nat.mod_eq_of_lt (by omega)
      rw [encodeRest]
      split
      · next hmore =>
          have hlow : remaining % 128 < 128 := Nat.mod_lt _ (by decide)
          obtain ⟨hand, hcontinued⟩ := continued _ hlow
          have hbyte : (UInt8.ofNat (remaining % 128 + 128)).toNat = remaining % 128 + 128 :=
            UInt8.toNat_ofNat_of_lt' (by change _ < 256; omega)
          have hfuel' : remaining / 128 < 128 ^ fuel := by
            rw [Nat.pow_succ] at hfuel
            exact Nat.div_lt_of_lt_mul (by rw [Nat.mul_comm]; exact hfuel)
          have hpos' : 0 < fuel := by
            rw [Nat.pos_iff_ne_zero]
            rintro rfl
            omega
          have hsplit : remaining * 2 ^ power =
              remaining % 128 * 2 ^ power + remaining / 128 * 2 ^ (power + 7) := by
            have hdiv := Nat.mod_add_div remaining 128
            rw [Nat.pow_add]
            calc remaining * 2 ^ power
                _ = (remaining % 128 + 128 * (remaining / 128)) * 2 ^ power := by rw [hdiv]
                _ = _ := by ring
          have hpower' : ¬ maxPower ≤ power + 7 := by omega
          rw [List.cons_append, decodeRest]
          simp only [hbyte, hand, if_neg hcontinued, if_neg hpower']
          rw [hstep (Nat.mul_le_mul_right _ (Nat.mod_le _ _)),
            ih hpos' hfuel' (by omega) (by omega)]
          congr 2
          omega
      · next hlast =>
          obtain ⟨hand, hend⟩ := last_of remaining (by omega)
          have hbyte : (UInt8.ofNat remaining).toNat = remaining :=
            UInt8.toNat_ofNat_of_lt' (by change _ < 256; omega)
          rw [List.singleton_append, decodeRest]
          simp only [hbyte, hand, hend, if_true]
          rw [hstep (Nat.le_refl _)]

/-- The first byte of an integer. -/
theorem first_byte {size flags low : Nat} (hsize : size ≤ 8) (hflags : flags < 2 ^ (8 - size))
    (hlow : low < 2 ^ size) :
    (UInt8.ofNat (flags <<< size % 2 ^ 8 ||| low)).toNat = flags * 2 ^ size + low := by
  have hpow : 2 ^ (8 - size) * 2 ^ size = 2 ^ 8 := by
    rw [← Nat.pow_add, Nat.sub_add_cancel hsize]
  have hmul : (flags + 1) * 2 ^ size ≤ 2 ^ 8 := by
    rw [← hpow]
    exact Nat.mul_le_mul_right _ hflags
  rw [Nat.add_mul, Nat.one_mul] at hmul
  have hlt : flags * 2 ^ size + low < 2 ^ 8 := by omega
  have hshift : flags <<< size % 2 ^ 8 = flags <<< size := by
    rw [Nat.shiftLeft_eq]
    exact Nat.mod_eq_of_lt (by omega)
  rw [hshift, ← Nat.shiftLeft_add_eq_or_of_lt hlow, Nat.shiftLeft_eq]
  exact UInt8.toNat_ofNat_of_lt' hlt

/-- The flags and the low bits, taken apart again. -/
theorem first_fields {size low : Nat} (flags : Nat) (hlow : low < 2 ^ size) :
    (flags * 2 ^ size + low) / 2 ^ size = flags ∧ (flags * 2 ^ size + low) % 2 ^ size = low := by
  constructor
  · rw [Nat.add_comm, Nat.add_mul_div_right _ _ (Nat.two_pow_pos size), Nat.div_eq_of_lt hlow,
      Nat.zero_add]
  · rw [Nat.add_comm, Nat.add_mul_mod_self_right, Nat.mod_eq_of_lt hlow]

/-- The first byte holds the flags and as much of the value as fits; the rest
is behind it. -/
theorem prefixWire_eq {size flags : Nat} (value : Nat) (hsize : size ≤ 8)
    (hflags : flags < 2 ^ (8 - size)) :
    ∃ first : UInt8, first.toNat = flags * 2 ^ size + min value (2 ^ size - 1) ∧
      prefixWire size flags value = first ::
        if value < 2 ^ size - 1 then [] else encodeRest 10 (value - (2 ^ size - 1)) := by
  obtain ⟨-, hmask⟩ := masks size hsize
  have htwo : 0 < 2 ^ size := Nat.two_pow_pos size
  unfold prefixWire encodePrefix
  dsimp only
  rw [hmask]
  split
  · next hsmall =>
      rw [Nat.min_eq_left hsmall.le]
      exact ⟨_, first_byte hsize hflags (by omega), rfl⟩
  · next hlarge =>
      rw [Nat.min_eq_right (Nat.le_of_not_lt hlarge), Nat.or_comm]
      exact ⟨_, first_byte hsize hflags (by omega), rfl⟩

theorem reads_prefixWire {size flags value : Nat} (hsize : size ≤ 8)
    (hflags : flags < 2 ^ (8 - size)) (hvalue : value < 2 ^ 64) :
    Reads (decodePrefix size) (prefixWire size flags value) (flags, value) := by
  intro rest
  obtain ⟨hmask, -⟩ := masks size hsize
  obtain ⟨first, hfirst, hwire⟩ := prefixWire_eq value hsize hflags
  have htwo : 0 < 2 ^ size := Nat.two_pow_pos size
  have hlow : min value (2 ^ size - 1) < 2 ^ size := by omega
  obtain ⟨htop, hbottom⟩ := first_fields flags hlow
  rw [← hfirst] at htop hbottom
  have hfits : flags < 2 ^ 8 :=
    hflags.trans_le (Nat.pow_le_pow_right Nat.two_pos (Nat.sub_le 8 size))
  rw [hwire, List.cons_append, decodePrefix, hmask]
  simp only [Nat.shiftRight_eq_div_pow, Nat.and_two_pow_sub_one_eq_mod, htop, hbottom,
    Nat.mod_eq_of_lt hfits]
  by_cases hsmall : value < 2 ^ size - 1
  · rw [Nat.min_eq_left hsmall.le, if_pos hsmall, if_pos hsmall, List.nil_append]
  · rw [Nat.min_eq_right (Nat.le_of_not_lt hsmall), if_neg (Nat.lt_irrefl _), if_neg hsmall]
    have hall : decodeRest (2 ^ size - 1) 0 (encodeRest 10 (value - (2 ^ size - 1)) ++ rest) =
        .ok (2 ^ size - 1 + (value - (2 ^ size - 1)) * 2 ^ 0, rest) :=
      decodeRest_encodeRest rest (by decide) (by omega) (by omega) (by decide)
    rw [map_ok _ hall]
    congr 3
    omega

/-- The flags are the top bits of the first byte. -/
theorem prefixWire_cons {size flags : Nat} (value : Nat) (hsize : size ≤ 8)
    (hflags : flags < 2 ^ (8 - size)) :
    ∃ first tail, prefixWire size flags value = first :: tail ∧ first.toNat / 2 ^ size = flags := by
  obtain ⟨first, hfirst, hwire⟩ := prefixWire_eq value hsize hflags
  have htwo : 0 < 2 ^ size := Nat.two_pow_pos size
  have hlow : min value (2 ^ size - 1) < 2 ^ size := by omega
  exact ⟨first, _, hwire, by rw [hfirst, (first_fields flags hlow).1]⟩

/-! Strings, as they are or with Huffman codes. -/

/-- The forms of a string behind a length of `size` bits and `flags`. -/
inductive Text (size flags : Nat) : Bytes → Bytes → Prop where
  | plain {bs : Bytes} (h : bs.length < 2 ^ 64) :
      Text size flags bs (prefixWire size (2 * flags) bs.length ++ bs)
  | huffman {bs : Bytes} (h : (Huffman.spell bs).length < 2 ^ 28) :
      Text size flags bs
        (prefixWire size (2 * flags + 1) (Huffman.spell bs).length ++ Huffman.spell bs)

variable {size flags : Nat} {bs wire : Bytes}

theorem Text.cons (h : Text size flags bs wire) (hsize : size < 8)
    (hflags : 2 * flags + 1 < 2 ^ (8 - size)) :
    ∃ first tail, wire = first :: tail ∧ first.toNat / 2 ^ (size + 1) = flags := by
  have htop {n huffman : Nat} (hle : huffman ≤ 1) (hn : n / 2 ^ size = 2 * flags + huffman) :
      n / 2 ^ (size + 1) = flags := by
    rw [Nat.pow_succ, ← Nat.div_div_eq_div_mul, hn]
    omega
  cases h with
  | plain h =>
      have hflags' : 2 * flags < 2 ^ (8 - size) := by omega
      obtain ⟨first, tail, heq, hfirst⟩ := prefixWire_cons bs.length hsize.le hflags'
      exact ⟨first, tail ++ bs, by rw [heq]; rfl, htop (Nat.zero_le 1) hfirst⟩
  | huffman h =>
      obtain ⟨first, tail, heq, hfirst⟩ :=
        prefixWire_cons (Huffman.spell bs).length hsize.le hflags
      exact ⟨first, tail ++ Huffman.spell bs, by rw [heq]; rfl, htop (Nat.le_refl 1) hfirst⟩

theorem decodeHuffman_spell (h : (Huffman.spell bs).length < 2 ^ 28) (rest : Bytes) :
    decodeHuffman (Huffman.spell bs) rest = .ok (bs, rest) := by
  rw [decodeHuffman, Huffman.hpackDecode_spell bs h]

/-- Both forms are read. -/
theorem Text.reads (h : Text size flags bs wire) (hsize : size < 8)
    (hflags : 2 * flags + 1 < 2 ^ (8 - size)) : Reads (decodeString (size + 1)) wire bs := by
  intro rest
  obtain ⟨first, tail, hcons, -⟩ := h.cons hsize hflags
  have hsome : ¬ (wire ++ rest).length = 0 := by
    rw [hcons]
    exact Nat.succ_ne_zero _
  rw [decodeString, bind_ok (remaining_eq _)]
  simp only [if_neg hsome, Nat.add_sub_cancel]
  cases h with
  | plain h =>
      have hlen : ¬ (bs ++ rest).length < bs.length := by
        rw [List.length_append]
        omega
      have hplain : 2 * flags &&& 1 = 0 := by
        rw [Nat.and_one_is_mod]
        omega
      rw [List.append_assoc]
      refine (bind_ok (reads_prefixWire hsize.le (by omega) h _)).trans ?_
      rw [bind_ok (remaining_eq _)]
      simp only [if_neg hlen]
      refine (bind_ok (reads_copyToSlice bs bs.length rfl rest)).trans ?_
      simp only [hplain, if_true]
      rfl
  | huffman h =>
      have hlen : ¬ (Huffman.spell bs ++ rest).length < (Huffman.spell bs).length := by
        rw [List.length_append]
        omega
      have hhuffman : ¬ (2 * flags + 1) &&& 1 = 0 := by
        rw [Nat.and_one_is_mod]
        omega
      rw [List.append_assoc]
      refine (bind_ok (reads_prefixWire hsize.le hflags (by omega) _)).trans ?_
      rw [bind_ok (remaining_eq _)]
      simp only [if_neg hlen]
      refine (bind_ok (reads_copyToSlice _ _ rfl rest)).trans ?_
      simp only [if_neg hhuffman]
      exact decodeHuffman_spell h rest

theorem reads_fromUtf8 (s : String) : fromUtf8 (Coding.Str.bytes s) = pure s := by
  rw [fromUtf8, Coding.Str.fromUTF8?_bytes]

end MoqTransport.Proto.Qpack
