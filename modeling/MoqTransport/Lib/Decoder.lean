import Mathlib.Data.List.Basic
import Mathlib.Data.List.Flatten
import Mathlib.Data.Vector.Basic

/-!
Decoders over a byte buffer that may hold only the beginning of their input.
A decoder consumes a prefix of the buffer, or stops with an error of its own
type `ε`, or panics by reading past the end. One error of `ε` is
distinguished: `more n`, a request for `n` further bytes.

`Transfers d bs x` is the contract of a decoder that is safe to rerun on a
growing buffer: it reads `x` off `bs` whatever follows, and on every strict
prefix of `bs` it asks for at least one and at most the missing bytes. The
contract is closed under sequencing and bounded iteration.
-/

namespace Streaming

abbrev Bytes := List UInt8

/-- How a fallible operation stops early: with an error value, or by
aborting the thread. -/
inductive Fault (ε : Type) where
  | err (e : ε)
  | panic
deriving DecidableEq

/-- Error types with a request for more input. -/
class AsksMore (ε : Type) where
  more : Nat → ε

abbrev Decoder (ε α : Type) := StateT Bytes (Except (Fault ε)) α

section

variable {ε α β σ : Type}

def fail (e : ε) : Decoder ε α := fun _ => .error (.err e)

def abort : Decoder ε α := fun _ => .error .panic

/-- One byte off the front; an empty buffer aborts. -/
def getU8 : Decoder ε UInt8
  | [] => .error .panic
  | b :: rest => .ok (b, rest)

/-- Fill a slice of `n` bytes; a shorter buffer aborts. -/
def copyToSlice (n : Nat) : Decoder ε (List.Vector UInt8 n) := fun r =>
  if h : n ≤ r.length then
    .ok (⟨r.take n, by simp [h]⟩, r.drop n)
  else
    .error .panic

def remaining : Decoder ε Nat := fun r => .ok (r.length, r)

theorem remaining_eq (r : Bytes) : (remaining : Decoder ε Nat) r = .ok (r.length, r) := rfl

/-- A counted loop with an accumulator. -/
def iterate (step : σ → Decoder ε σ) : Nat → σ → Decoder ε σ
  | 0, acc => pure acc
  | n + 1, acc => do
      let next ← step acc
      iterate step n next

/-- `d` reads exactly `bs` and returns `x`, whatever follows. -/
def Reads (d : Decoder ε α) (bs : Bytes) (x : α) : Prop :=
  ∀ rest, d (bs ++ rest) = .ok (x, rest)

/-- Sequencing in a state monad with errors, for any state and error type. -/
theorem bind_ok {S E : Type} {d : StateT S (Except E) α} {f : α → StateT S (Except E) β}
    {r rest : S} {x : α} (h : d r = .ok (x, rest)) : (d >>= f) r = f x rest := by
  change (d r >>= fun p => f p.1 p.2) = _
  rw [h]
  rfl

theorem bind_error {S E : Type} {d : StateT S (Except E) α} {f : α → StateT S (Except E) β}
    {r : S} {e : E} (h : d r = .error e) : (d >>= f) r = .error e := by
  change (d r >>= fun p => f p.1 p.2) = _
  rw [h]
  rfl

/-- Inversion of a successful sequence. -/
theorem bind_eq_ok {S E : Type} {d : StateT S (Except E) α} {f : α → StateT S (Except E) β}
    {r rest : S} {y : β} (h : (d >>= f) r = .ok (y, rest)) :
    ∃ x mid, d r = .ok (x, mid) ∧ f x mid = .ok (y, rest) := by
  cases hd : d r with
  | error e => rw [bind_error hd] at h; cases h
  | ok p =>
      obtain ⟨x, mid⟩ := p
      exact ⟨x, mid, rfl, (bind_ok hd).symm.trans h⟩

/-- The same without a state. -/
theorem ok_of_bind {E : Type} {x : Except E α} {f : α → Except E β} {b : β}
    (h : (x >>= f) = .ok b) : ∃ a, x = .ok a ∧ f a = .ok b := by
  cases x with
  | error e => cases h
  | ok a => exact ⟨a, rfl, h⟩

theorem ok_of_mapError {E E' : Type} {x : Except E α} {f : E → E'} {a : α}
    (h : x.mapError f = .ok a) : x = .ok a := by
  cases x with
  | error e => cases h
  | ok a => exact congrArg Except.ok (Except.ok.inj h)

/-- Inversion of a failed sequence. -/
theorem bind_eq_error {S E : Type} {d : StateT S (Except E) α} {f : α → StateT S (Except E) β}
    {r : S} {e : E} (h : (d >>= f) r = .error e) :
    d r = .error e ∨ ∃ x mid, d r = .ok (x, mid) ∧ f x mid = .error e := by
  cases hd : d r with
  | error e' =>
      rw [bind_error hd] at h
      cases h
      exact .inl rfl
  | ok p =>
      obtain ⟨x, mid⟩ := p
      exact .inr ⟨x, mid, rfl, (bind_ok hd).symm.trans h⟩

theorem map_eq_ok {d : Decoder ε α} {f : α → β} {r rest : Bytes} {y : β}
    (h : (f <$> d) r = .ok (y, rest)) : ∃ x, d r = .ok (x, rest) ∧ f x = y := by
  obtain ⟨x, mid, hd, hf⟩ := bind_eq_ok (f := fun x => (Pure.pure (f x) : Decoder ε β)) h
  cases hf
  exact ⟨x, hd, rfl⟩

theorem map_error {d : Decoder ε α} (f : α → β) {r : Bytes} {e : Fault ε}
    (h : d r = .error e) : (f <$> d) r = .error e :=
  bind_error (f := fun x => (Pure.pure (f x) : Decoder ε β)) h

theorem map_ok {d : Decoder ε α} (f : α → β) {r rest : Bytes} {x : α}
    (h : d r = .ok (x, rest)) : (f <$> d) r = .ok (f x, rest) :=
  bind_ok (f := fun x => (Pure.pure (f x) : Decoder ε β)) h

theorem Reads.pure (x : α) : Reads (Pure.pure x : Decoder ε α) [] x :=
  fun _ => rfl

theorem Reads.bind {d : Decoder ε α} {f : α → Decoder ε β} {bs cs : Bytes} {x : α} {y : β}
    (hd : Reads d bs x) (hf : Reads (f x) cs y) : Reads (d >>= f) (bs ++ cs) y := by
  intro rest
  rw [List.append_assoc, bind_ok (hd (cs ++ rest))]
  exact hf rest

theorem Reads.map {d : Decoder ε α} {bs : Bytes} {x : α} (f : α → β) (hd : Reads d bs x) :
    Reads (f <$> d) bs (f x) := by
  intro rest
  exact map_ok f (hd rest)

/-- Two readings of one buffer agree. -/
theorem Reads.unique {d : Decoder ε α} {bs cs : Bytes} {x y : α}
    (hx : Reads d bs x) {rest : Bytes} (hy : d (bs ++ cs) = .ok (y, rest)) :
    y = x ∧ rest = cs := by
  rw [hx cs] at hy
  cases hy
  exact ⟨rfl, rfl⟩

/-- A successful run of `d` uses up at least `k` bytes, whatever the
buffer. -/
def Shrinks (d : Decoder ε α) (k : Nat) : Prop :=
  ∀ r x rest, d r = .ok (x, rest) → rest.length + k ≤ r.length

theorem Shrinks.pure (x : α) : Shrinks (Pure.pure x : Decoder ε α) 0 := by
  intro r y rest h
  cases h
  rfl

theorem Shrinks.fail (e : ε) (k : Nat) : Shrinks (Streaming.fail e : Decoder ε α) k := by
  intro r x rest h
  cases h

theorem Shrinks.bind {d : Decoder ε α} {f : α → Decoder ε β} {j k : Nat}
    (hd : Shrinks d j) (hf : ∀ x, Shrinks (f x) k) : Shrinks (d >>= f) (j + k) := by
  intro r y rest h
  obtain ⟨x, mid, hx, hy⟩ := bind_eq_ok h
  have hfirst := hd r x mid hx
  have hsecond := hf x mid y rest hy
  omega

theorem Shrinks.map {d : Decoder ε α} {k : Nat} (f : α → β) (hd : Shrinks d k) :
    Shrinks (f <$> d) k := by
  intro r y rest h
  obtain ⟨x, hx, -⟩ := map_eq_ok h
  exact hd r x rest hx

theorem shrinks_getU8 : Shrinks (getU8 : Decoder ε UInt8) 1 := by
  intro r x rest h
  cases r with
  | nil => cases h
  | cons b r =>
      cases h
      rfl

theorem shrinks_copyToSlice (n : Nat) : Shrinks (copyToSlice n : Decoder ε _) 0 := by
  intro r x rest h
  unfold copyToSlice at h
  split at h
  · cases h
    simp
  · cases h

theorem reads_getU8 (b : UInt8) : Reads (getU8 : Decoder ε UInt8) [b] b :=
  fun _ => rfl

theorem reads_copyToSlice (bs : Bytes) (n : Nat) (hn : bs.length = n) :
    Reads (copyToSlice n : Decoder ε _) bs ⟨bs, hn⟩ := by
  intro rest
  subst hn
  unfold copyToSlice
  rw [dif_pos (by simp)]
  congr 1
  refine Prod.ext (Subtype.ext ?_) ?_
  · simp
  · simp

/-- A buffer of less than `limit` bytes is an error, or `k` bytes of it are
used up at least. -/
def Safe (limit k : Nat) (d : Decoder ε α) : Prop :=
  ∀ r : Bytes, r.length < limit → (∃ e, d r = .error (.err e)) ∨
    ∃ x rest, d r = .ok (x, rest) ∧ rest.length + k ≤ r.length

theorem Safe.mono {d : Decoder ε α} {j k limit : Nat} (h : Safe limit j d) (hle : k ≤ j) :
    Safe limit k d := by
  intro r hr
  rcases h r hr with he | ⟨x, rest, hx, hlength⟩
  · exact .inl he
  · exact .inr ⟨x, rest, hx, by omega⟩

theorem Safe.pure {limit : Nat} (x : α) : Safe limit 0 (Pure.pure x : Decoder ε α) :=
  fun r _ => .inr ⟨x, r, rfl, Nat.le_refl _⟩

theorem Safe.fail {k limit : Nat} (e : ε) : Safe limit k (Streaming.fail e : Decoder ε α) :=
  fun _ _ => .inl ⟨e, rfl⟩

theorem Safe.bind {d : Decoder ε α} {f : α → Decoder ε β} {j k limit : Nat}
    (hd : Safe limit j d) (hf : ∀ x, Safe limit k (f x)) :
    Safe limit (j + k) (d >>= f) := by
  intro r hr
  rcases hd r hr with ⟨e, he⟩ | ⟨x, mid, hx, hlength⟩
  · exact .inl ⟨e, bind_error he⟩
  · rw [bind_ok hx]
    rcases hf x mid (by omega) with he | ⟨y, rest, hy, hlength'⟩
    · exact .inl he
    · exact .inr ⟨y, rest, hy, by omega⟩

variable [AsksMore ε]

/-- Every strict prefix of `bs` makes `d` ask for bytes, at least one and no
more than are missing. -/
def Asks (d : Decoder ε α) (bs : Bytes) : Prop :=
  ∀ front back, front ++ back = bs → back ≠ [] →
    ∃ n, 1 ≤ n ∧ n ≤ back.length ∧ d front = .error (.err (AsksMore.more n))

/-- The contract of a decoder that may be rerun from scratch on a growing
buffer. -/
structure Transfers (d : Decoder ε α) (bs : Bytes) (x : α) : Prop where
  reads : Reads d bs x
  asks : Asks d bs

/-- Check that `required` bytes are present, and ask for the rest if not. -/
def decodeRemaining (required : Nat) : Decoder ε Unit := fun r =>
  let needed := required - r.length
  if needed > 0 then .error (.err (AsksMore.more needed)) else .ok ((), r)

theorem shrinks_decodeRemaining (n : Nat) :
    Shrinks (decodeRemaining n : Decoder ε Unit) 0 := by
  intro r x rest h
  simp only [decodeRemaining] at h
  split at h
  · cases h
  · cases h
    rfl

/-- A length check passes exactly when the bytes are there. -/
theorem decodeRemaining_eq_ok {n : Nat} {r rest : Bytes}
    (h : (decodeRemaining n : Decoder ε Unit) r = .ok ((), rest)) : n ≤ r.length ∧ rest = r := by
  simp only [decodeRemaining] at h
  split at h
  · cases h
  · cases h
    exact ⟨by omega, rfl⟩

theorem decodeRemaining_of_le {n : Nat} {r : Bytes} (h : n ≤ r.length) :
    (decodeRemaining n : Decoder ε Unit) r = .ok ((), r) := by
  simp only [decodeRemaining]
  rw [if_neg (by omega)]

theorem asks_nil (d : Decoder ε α) : Asks d [] := by
  intro front back happend hback
  rw [List.append_eq_nil_iff] at happend
  exact absurd happend.2 hback

theorem Transfers.pure (x : α) : Transfers (Pure.pure x : Decoder ε α) [] x :=
  ⟨Reads.pure x, asks_nil _⟩

/-- Sequencing: a prefix that stops inside the first part is answered by the
first decoder, any other by the second on what is left. -/
theorem Transfers.bind {d : Decoder ε α} {f : α → Decoder ε β} {bs cs : Bytes} {x : α} {y : β}
    (hd : Transfers d bs x) (hf : Transfers (f x) cs y) :
    Transfers (d >>= f) (bs ++ cs) y := by
  refine ⟨hd.reads.bind hf.reads, ?_⟩
  intro front back happend hback
  rcases List.append_eq_append_iff.mp happend with ⟨mid, hbs, hmid⟩ | ⟨mid, hfront, hcs⟩
  · cases mid with
    | nil =>
        -- The cut falls exactly between the two parts.
        rw [List.append_nil] at hbs
        obtain ⟨n, hn, hle, herr⟩ := hf.asks [] back hmid hback
        have hfirst : d front = .ok (x, []) := by
          have hread := hd.reads []
          rwa [List.append_nil, hbs] at hread
        exact ⟨n, hn, hle, (bind_ok hfirst).trans herr⟩
    | cons b mid =>
        obtain ⟨n, hn, hle, herr⟩ := hd.asks front (b :: mid) hbs.symm (by simp)
        refine ⟨n, hn, ?_, bind_error herr⟩
        rw [hmid, List.length_append]
        omega
  · obtain ⟨n, hn, hle, herr⟩ := hf.asks mid back hcs.symm hback
    refine ⟨n, hn, hle, ?_⟩
    rw [hfront, bind_ok (hd.reads mid)]
    exact herr

/-- A decoder followed by a test of the value read. -/
theorem Transfers.bind_nil {d : Decoder ε α} {f : α → Decoder ε β} {bs : Bytes} {x : α} {y : β}
    (hd : Transfers d bs x) (hf : Transfers (f x) [] y) : Transfers (d >>= f) bs y := by
  have h := hd.bind hf
  rwa [List.append_nil] at h

/-- A decoder followed by a pure function. -/
theorem Transfers.bind_pure {d : Decoder ε α} {bs : Bytes} {x : α} (f : α → β)
    (hd : Transfers d bs x) : Transfers (do let y ← d; Pure.pure (f y)) bs (f x) :=
  hd.bind_nil (Transfers.pure (f x))

theorem Transfers.map {d : Decoder ε α} {bs : Bytes} {x : α} (f : α → β)
    (hd : Transfers d bs x) : Transfers (f <$> d) bs (f x) :=
  hd.bind_pure f

theorem Transfers.of_value {d : Decoder ε α} {bs : Bytes} {x y : α}
    (hd : Transfers d bs x) (h : x = y) : Transfers d bs y :=
  h ▸ hd

/-- A length check in front of a read of that many bytes. -/
theorem Transfers.checked {d : Decoder ε α} {bs : Bytes} {x : α} (n : Nat)
    (hn : bs.length = n) (hd : Reads d bs x) :
    Transfers (do decodeRemaining n; d) bs x := by
  constructor
  · intro rest
    have hroom : (decodeRemaining n : Decoder ε Unit) (bs ++ rest) = .ok ((), bs ++ rest) := by
      simp [decodeRemaining, hn]
    rw [bind_ok hroom]
    exact hd rest
  · intro front back happend hback
    have hlen : front.length + back.length = n := by
      rw [← hn, ← happend, List.length_append]
    have hpos : 0 < back.length := List.length_pos_iff.mpr hback
    refine ⟨n - front.length, by omega, by omega, bind_error ?_⟩
    simp only [decodeRemaining]
    rw [if_pos (by omega)]

/-- The same check in front of the first read of a longer decoder. -/
theorem Transfers.checked_bind {d : Decoder ε α} {f : α → Decoder ε β} {bs cs : Bytes}
    {x : α} {y : β} (n : Nat) (hn : bs.length = n) (hd : Reads d bs x)
    (hf : Transfers (f x) cs y) :
    Transfers (do decodeRemaining n; let x ← d; f x) (bs ++ cs) y := by
  have h := (Transfers.checked n hn hd).bind hf
  rwa [bind_assoc] at h

/-- A counted loop that reads one item of `items` in each round. -/
theorem Transfers.iterate {ι : Type} (step : σ → Decoder ε σ) (wire : ι → Bytes)
    (update : σ → ι → σ) (items : List ι) (acc : σ)
    (hstep : ∀ done item rest, items = done ++ item :: rest →
      Transfers (step (done.foldl update acc)) (wire item)
        (update (done.foldl update acc) item)) :
    Transfers (Streaming.iterate step items.length acc) (items.flatMap wire)
      (items.foldl update acc) := by
  induction items generalizing acc with
  | nil => exact Transfers.pure acc
  | cons item items ih =>
      have hhead := hstep [] item items rfl
      refine hhead.bind (ih (update acc item) ?_)
      intro done next rest hsplit
      exact hstep (item :: done) next rest (by rw [hsplit]; rfl)

end

end Streaming
