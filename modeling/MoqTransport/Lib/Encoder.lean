import Mathlib.Tactic.Positivity
import Mathlib.Tactic.Ring
import MoqTransport.Lib.Decoder

/-!
Encoders append to a growable buffer with a size limit. `Emits e ok bs` says
everything about one encoder: it succeeds exactly when its argument satisfies
`ok` and `bs` fits, and then it has appended `bs`. Like `Transfers` it is
closed under sequencing, so the specification of a record is assembled from
those of its fields. Fixed-width integers are written as big-endian byte
strings.
-/

namespace Streaming

/-- A writer and the largest length it may grow to. -/
structure BufMut where
  bytes : Bytes
  limit : Nat
deriving DecidableEq

def BufMut.remainingMut (w : BufMut) : Nat := w.limit - w.bytes.length

def BufMut.push (w : BufMut) (bs : Bytes) : BufMut :=
  { w with bytes := w.bytes ++ bs }

abbrev Encoder (ε α : Type) := StateT BufMut (Except (Fault ε)) α

/-- The `width` low bytes of `v`, most significant first. -/
def toBeBytes : Nat → Nat → Bytes
  | 0, _ => []
  | width + 1, v => UInt8.ofNat (v / 256 ^ width) :: toBeBytes width v

def fromBeBytes (bs : Bytes) : Nat :=
  bs.foldl (fun acc b => acc * 256 + b.toNat) 0

@[simp]
theorem toBeBytes_length (width v : Nat) : (toBeBytes width v).length = width := by
  induction width with
  | zero => rfl
  | succ width ih => simp [toBeBytes, ih]

private theorem foldl_be (bs : Bytes) (acc : Nat) :
    bs.foldl (fun acc b => acc * 256 + b.toNat) acc =
      acc * 256 ^ bs.length + fromBeBytes bs := by
  induction bs generalizing acc with
  | nil => simp [fromBeBytes]
  | cons b bs ih =>
      simp only [fromBeBytes, List.foldl_cons, List.length_cons]
      rw [ih, ih (0 * 256 + b.toNat), Nat.pow_succ]
      ring

theorem fromBeBytes_cons (b : UInt8) (bs : Bytes) :
    fromBeBytes (b :: bs) = b.toNat * 256 ^ bs.length + fromBeBytes bs := by
  rw [fromBeBytes, List.foldl_cons, foldl_be]
  simp

theorem fromBeBytes_lt (bs : Bytes) : fromBeBytes bs < 256 ^ bs.length := by
  induction bs with
  | nil => simp [fromBeBytes]
  | cons b bs ih =>
      rw [fromBeBytes_cons, List.length_cons, Nat.pow_succ]
      have hb : b.toNat + 1 ≤ 256 := b.toNat_lt
      have hmul := Nat.mul_le_mul_right (256 ^ bs.length) hb
      rw [Nat.add_mul] at hmul
      omega

theorem fromBeBytes_toBeBytes (width v : Nat) :
    fromBeBytes (toBeBytes width v) = v % 256 ^ width := by
  induction width with
  | zero => simp [toBeBytes, fromBeBytes, Nat.mod_one]
  | succ width ih =>
      have hbyte : (UInt8.ofNat (v / 256 ^ width)).toNat = v / 256 ^ width % 256 :=
        UInt8.toNat_ofNat'
      rw [toBeBytes, fromBeBytes_cons, ih, toBeBytes_length, hbyte, Nat.pow_succ, Nat.mod_mul]
      ring

/-- Bits above the byte range do not show. -/
theorem toBeBytes_add_mul (width v k : Nat) :
    toBeBytes width (k * 256 ^ width + v) = toBeBytes width v := by
  induction width generalizing k with
  | zero => rfl
  | succ width ih =>
      have hsplit : k * 256 ^ (width + 1) + v = (k * 256) * 256 ^ width + v := by
        rw [Nat.pow_succ]
        ring
      rw [toBeBytes, toBeBytes, hsplit, ih]
      congr 1
      apply UInt8.toNat_inj.mp
      have hdiv : (k * 256 * 256 ^ width + v) / 256 ^ width = k * 256 + v / 256 ^ width := by
        rw [Nat.add_comm, Nat.add_mul_div_right _ _ (by positivity), Nat.add_comm]
      rw [UInt8.toNat_ofNat', UInt8.toNat_ofNat', hdiv]
      omega

section

variable {ε : Type}

def refuse (e : ε) : Encoder ε Unit := fun _ => .error (.err e)

/-- Append bytes; a writer without room aborts. -/
def put (bs : Bytes) : Encoder ε Unit := fun w =>
  if bs.length ≤ w.remainingMut then .ok ((), w.push bs) else .error .panic

/-- Append the `width` low bytes of `v`, most significant first. -/
def putBe (width v : Nat) : Encoder ε Unit := put (toBeBytes width v)

/-- Check that the writer has room for `required` bytes. -/
def encodeRemaining [AsksMore ε] (required : Nat) : Encoder ε Unit := fun w =>
  let needed := required - w.remainingMut
  if needed > 0 then .error (.err (AsksMore.more needed)) else .ok ((), w)

/-- A loop over a list, one write for each item. -/
def each {ι : Type} (write : ι → Encoder ε Unit) : List ι → Encoder ε Unit
  | [] => pure ()
  | item :: items => do
      write item
      each write items

structure Emits (e : Encoder ε Unit) (ok : Prop) (bs : Bytes) : Prop where
  iff : ∀ w w', e w = .ok ((), w') ↔ ok ∧ bs.length ≤ w.remainingMut ∧ w' = w.push bs

theorem Emits.writes {e : Encoder ε Unit} {ok : Prop} {bs : Bytes} (h : Emits e ok bs)
    (hok : ok) {w : BufMut} (hroom : bs.length ≤ w.remainingMut) :
    e w = .ok ((), w.push bs) :=
  (h.iff w (w.push bs)).mpr ⟨hok, hroom, rfl⟩

/-- An encoder that is not allowed to succeed stops somewhere. -/
theorem Emits.fails {e : Encoder ε Unit} {ok : Prop} {bs : Bytes} (h : Emits e ok bs)
    (hok : ¬ ok) (w : BufMut) : ∃ fault, e w = .error fault := by
  cases he : e w with
  | error fault => exact ⟨fault, rfl⟩
  | ok p =>
      obtain ⟨⟨⟩, w'⟩ := p
      exact absurd ((h.iff w w').mp he).1 hok

theorem Emits.congr {e : Encoder ε Unit} {ok ok' : Prop} {bs bs' : Bytes} (h : Emits e ok bs)
    (hok : ok ↔ ok') (hbs : bs = bs') : Emits e ok' bs' := by
  subst hbs
  exact ⟨fun w w' => by rw [h.iff, hok]⟩

theorem encode_bind_eq_ok {e : Encoder ε Unit} {f : Unit → Encoder ε Unit} {w w' : BufMut} :
    (e >>= f) w = .ok ((), w') ↔ ∃ mid, e w = .ok ((), mid) ∧ f () mid = .ok ((), w') := by
  change (e w >>= fun p => f p.1 p.2) = _ ↔ _
  cases he : e w with
  | error fault =>
      constructor
      · intro h
        cases h
      · rintro ⟨mid, hmid, -⟩
        cases hmid
  | ok p =>
      obtain ⟨⟨⟩, mid⟩ := p
      constructor
      · intro h
        exact ⟨mid, rfl, h⟩
      · rintro ⟨mid', hmid, h⟩
        cases hmid
        exact h

theorem Emits.skip : Emits (pure () : Encoder ε Unit) True [] := by
  constructor
  intro w w'
  change Except.ok ((), w) = _ ↔ _
  have hpush : w.push [] = w := by simp [BufMut.push]
  rw [hpush]
  simp [eq_comm]

theorem Emits.bind {e : Encoder ε Unit} {f : Unit → Encoder ε Unit} {p q : Prop} {bs cs : Bytes}
    (he : Emits e p bs) (hf : Emits (f ()) q cs) :
    Emits (e >>= f) (p ∧ q) (bs ++ cs) := by
  constructor
  intro w w'
  rw [encode_bind_eq_ok]
  constructor
  · rintro ⟨mid, hmid, hw'⟩
    obtain ⟨hp, hbs, rfl⟩ := (he.iff _ _).mp hmid
    obtain ⟨hq, hcs, rfl⟩ := (hf.iff _ _).mp hw'
    refine ⟨⟨hp, hq⟩, ?_, by simp [BufMut.push]⟩
    simp only [BufMut.remainingMut, BufMut.push, List.length_append] at hbs hcs ⊢
    omega
  · rintro ⟨⟨hp, hq⟩, hroom, rfl⟩
    simp only [BufMut.remainingMut, List.length_append] at hroom
    refine ⟨w.push bs, he.writes hp ?_, ?_⟩
    · simp only [BufMut.remainingMut]
      omega
    · rw [hf.iff]
      refine ⟨hq, ?_, by simp [BufMut.push]⟩
      simp only [BufMut.remainingMut, BufMut.push, List.length_append]
      omega

theorem Emits.each {ι : Type} {write : ι → Encoder ε Unit} {ok : ι → Prop} {wire : ι → Bytes}
    (items : List ι) (h : ∀ item, Emits (write item) (ok item) (wire item)) :
    Emits (Streaming.each write items) (∀ item ∈ items, ok item) (items.flatMap wire) := by
  induction items with
  | nil => exact Emits.skip.congr (by simp) rfl
  | cons item items ih => exact ((h item).bind ih).congr (by simp) rfl

theorem emits_put (bs : Bytes) : Emits (put bs : Encoder ε Unit) True bs := by
  constructor
  intro w w'
  unfold put
  split
  · next hroom => simp [hroom, eq_comm]
  · next hroom => simp [hroom]

theorem emits_refuse (e : ε) (bs : Bytes) : Emits (refuse e) False bs :=
  ⟨fun w w' => by simp [refuse]⟩

/-- A capacity check in front of a write of that size changes nothing about
when the write succeeds. -/
theorem Emits.checked [AsksMore ε] {e : Encoder ε Unit} {ok : Prop} {bs : Bytes} (n : Nat)
    (hn : n ≤ bs.length) (h : Emits e ok bs) :
    Emits (do encodeRemaining n; e) ok bs := by
  constructor
  intro w w'
  rw [encode_bind_eq_ok, ← h.iff]
  constructor
  · rintro ⟨mid, hmid, hw'⟩
    simp only [encodeRemaining] at hmid
    split at hmid
    · cases hmid
    · cases hmid
      exact hw'
  · intro hw'
    have hroom := ((h.iff _ _).mp hw').2.1
    refine ⟨w, ?_, hw'⟩
    simp only [encodeRemaining]
    rw [if_neg (by omega)]

end

end Streaming
