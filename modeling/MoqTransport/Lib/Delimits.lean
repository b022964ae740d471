import MoqTransport.Lib.Decoder

/-!
Decoders on bytes nobody encoded. `Delimits d` says that the decoder never
reads past the end and that where it stops is decided by the bytes in front;
`rounds_le` bounds its loops by the input, not by their counts. `Completable d`
says that it asks for bytes only where bytes can help. Both are closed under
sequencing and bounded iteration.
-/

namespace Streaming

section

variable {ε α β σ : Type}

/-- How many rounds of a counted loop are started. -/
def rounds (step : σ → Decoder ε σ) : Nat → σ → Bytes → Nat
  | 0, _, _ => 0
  | n + 1, acc, r =>
      match step acc r with
      | .ok (next, rest) => rounds step n next rest + 1
      | .error _ => 1

/-- A loop whose rounds all use up input runs out of input before it runs out
of count. -/
theorem rounds_le {step : σ → Decoder ε σ} (hstep : ∀ acc, Shrinks (step acc) 1) (n : Nat)
    (acc : σ) (r : Bytes) : rounds step n acc r ≤ r.length + 1 := by
  induction n generalizing acc r with
  | zero => exact Nat.zero_le _
  | succ n ih =>
      unfold rounds
      split
      · next next rest hok =>
          have hrest := hstep acc r next rest hok
          have hmore := ih next rest
          omega
      · omega

/-- A decoder that never aborts, and whose successful runs depend only on the
bytes they use up. -/
structure Delimits (d : Decoder ε α) : Prop where
  total : ∀ r, d r ≠ .error .panic
  consumed : ∀ r x rest, d r = .ok (x, rest) → ∃ bs, r = bs ++ rest ∧ Reads d bs x

theorem Delimits.pure (x : α) : Delimits (Pure.pure x : Decoder ε α) := by
  constructor
  · intro r h
    cases h
  · intro r y rest h
    cases h
    exact ⟨[], rfl, Reads.pure x⟩

theorem Delimits.fail (e : ε) : Delimits (Streaming.fail e : Decoder ε α) := by
  constructor
  · intro r h
    cases h
  · intro r x rest h
    cases h

theorem Delimits.bind {d : Decoder ε α} {f : α → Decoder ε β} (hd : Delimits d)
    (hf : ∀ x, Delimits (f x)) : Delimits (d >>= f) := by
  constructor
  · intro r h
    cases hr : d r with
    | error e =>
        rw [bind_error hr] at h
        cases h
        exact hd.total r hr
    | ok p =>
        obtain ⟨x, mid⟩ := p
        rw [bind_ok hr] at h
        exact (hf x).total mid h
  · intro r y rest h
    obtain ⟨x, mid, hx, hy⟩ := bind_eq_ok h
    obtain ⟨bs, rfl, hbs⟩ := hd.consumed r x mid hx
    obtain ⟨cs, rfl, hcs⟩ := (hf x).consumed mid y rest hy
    exact ⟨bs ++ cs, (List.append_assoc bs cs rest).symm, hbs.bind hcs⟩

theorem Delimits.map {d : Decoder ε α} (f : α → β) (hd : Delimits d) : Delimits (f <$> d) :=
  hd.bind (f := fun x => (Pure.pure (f x) : Decoder ε β)) fun x => Delimits.pure (f x)

theorem Delimits.iterate {step : σ → Decoder ε σ} (hstep : ∀ acc, Delimits (step acc)) (n : Nat)
    (acc : σ) : Delimits (Streaming.iterate step n acc) := by
  induction n generalizing acc with
  | zero => exact Delimits.pure acc
  | succ n ih => exact (hstep acc).bind ih

/-- A test of the buffer length that the decoder behind it would pass
anyway. -/
theorem Delimits.atLeast {d : Decoder ε α} {k : Nat} (e : ε) (hd : Delimits d)
    (hshrinks : Shrinks d k) :
    Delimits (do let n ← remaining; if n < k then Streaming.fail e else d) := by
  have hrun (r : Bytes) : (do let n ← remaining; if n < k then Streaming.fail e else d) r =
      if r.length < k then .error (.err e) else d r := by
    rw [bind_ok (remaining_eq r)]
    split <;> rfl
  constructor
  · intro r h
    rw [hrun] at h
    split at h
    · cases h
    · exact hd.total r h
  · intro r x rest h
    rw [hrun] at h
    split at h
    · cases h
    · have hlen := hshrinks r x rest h
      obtain ⟨bs, rfl, hbs⟩ := hd.consumed r x rest h
      refine ⟨bs, rfl, ?_⟩
      intro after
      rw [List.length_append] at hlen
      rw [hrun, if_neg (by rw [List.length_append]; omega)]
      exact hbs after

/-- Whatever a decoder leaves is the end of what it was given. -/
theorem Delimits.suffix {d : Decoder ε α} (hd : Delimits d) {r rest : Bytes} {x : α}
    (h : d r = .ok (x, rest)) : rest <:+ r := by
  obtain ⟨bs, rfl, -⟩ := hd.consumed r x rest h
  exact List.suffix_append bs rest

/-- A longer buffer does not change what was accepted. -/
theorem Delimits.append {d : Decoder ε α} (hd : Delimits d) {r rest : Bytes} {x : α}
    (h : d r = .ok (x, rest)) (ext : Bytes) : d (r ++ ext) = .ok (x, rest ++ ext) := by
  obtain ⟨bs, rfl, hbs⟩ := hd.consumed r x rest h
  rw [List.append_assoc]
  exact hbs (rest ++ ext)

variable [AsksMore ε]

/-- A checked read: the check is what keeps the read from aborting. -/
theorem Delimits.checked {d : Decoder ε α} {n : Nat}
    (hd : ∀ r, n ≤ r.length → ∃ bs rest x, r = bs ++ rest ∧ bs.length = n ∧ Reads d bs x) :
    Delimits (do decodeRemaining n; d) := by
  have hrun (r : Bytes) : (∃ e, (do decodeRemaining n; d) r = .error (.err e)) ∨
      ∃ bs rest x, r = bs ++ rest ∧ bs.length = n ∧ Reads d bs x := by
    by_cases hlen : n ≤ r.length
    · exact .inr (hd r hlen)
    · left
      refine ⟨AsksMore.more (n - r.length), bind_error ?_⟩
      simp only [decodeRemaining]
      rw [if_pos (by omega)]
  have hpass (bs after : Bytes) (hbs : bs.length = n) :
      (do decodeRemaining n; d) (bs ++ after) = d (bs ++ after) :=
    bind_ok (decodeRemaining_of_le (by rw [List.length_append]; omega))
  constructor
  · intro r h
    rcases hrun r with ⟨e, he⟩ | ⟨bs, rest, x, rfl, hbs, hreads⟩
    · rw [he] at h
      cases h
    · rw [hpass bs rest hbs, hreads rest] at h
      cases h
  · intro r y rest' h
    rcases hrun r with ⟨e, he⟩ | ⟨bs, rest, x, rfl, hbs, hreads⟩
    · rw [he] at h
      cases h
    · rw [hpass bs rest hbs, hreads rest] at h
      cases h
      refine ⟨bs, rfl, ?_⟩
      intro after
      rw [hpass bs after hbs]
      exact hreads after

theorem delimits_getU8 : Delimits (do decodeRemaining 1; getU8 : Decoder ε UInt8) := by
  apply Delimits.checked
  intro r hlen
  cases r with
  | nil => simp at hlen
  | cons b r => exact ⟨[b], r, b, rfl, rfl, reads_getU8 b⟩

theorem delimits_copyToSlice (n : Nat) :
    Delimits (do decodeRemaining n; copyToSlice n : Decoder ε (List.Vector UInt8 n)) := by
  apply Delimits.checked
  intro r hlen
  have htake : (r.take n).length = n := by simp [hlen]
  exact ⟨r.take n, r.drop n, _, (List.take_append_drop n r).symm, htake,
    reads_copyToSlice _ n htake⟩

theorem Delimits.getU8_bind {f : UInt8 → Decoder ε α} (hf : ∀ b, Delimits (f b)) :
    Delimits (do decodeRemaining 1; let b ← getU8; f b) := by
  have h := delimits_getU8.bind hf
  rwa [bind_assoc] at h

theorem Delimits.copyToSlice_bind {n : Nat} {f : List.Vector UInt8 n → Decoder ε α}
    (hf : ∀ buf, Delimits (f buf)) :
    Delimits (do decodeRemaining n; let buf ← copyToSlice n; f buf) := by
  have h := (delimits_copyToSlice n).bind hf
  rwa [bind_assoc] at h

/-- The decoder asks for more bytes on this buffer. -/
def Waits (d : Decoder ε α) (r : Bytes) : Prop :=
  ∃ n, d r = .error (.err (AsksMore.more n))

/-- The decoder asks for at least one byte, and only where bytes can help:
some continuation is accepted to its end, or refused. -/
structure Completable (d : Decoder ε α) : Prop where
  asks : ∀ r n, d r = .error (.err (AsksMore.more n)) → 1 ≤ n
  completes : ∀ r, Waits d r → ∃ ext, (∃ x, d (r ++ ext) = .ok (x, [])) ∨
    ∃ e, d (r ++ ext) = .error (.err e) ∧ ¬ Waits d (r ++ ext)

theorem Completable.pure (x : α) : Completable (Pure.pure x : Decoder ε α) := by
  constructor
  · intro r n h
    cases h
  · rintro r ⟨n, h⟩
    cases h

theorem Completable.fail {e : ε} (he : ∀ n, e ≠ AsksMore.more n) :
    Completable (Streaming.fail e : Decoder ε α) := by
  have hnever (r : Bytes) (n : Nat) :
      (Streaming.fail e : Decoder ε α) r ≠ .error (.err (AsksMore.more n)) := by
    intro h
    exact he n (Fault.err.inj (Except.error.inj h))
  constructor
  · intro r n h
    exact absurd h (hnever r n)
  · rintro r ⟨n, h⟩
    exact absurd h (hnever r n)

theorem waits_bind_of_error {d : Decoder ε α} {f : α → Decoder ε β} {r : Bytes} (h : Waits d r) :
    Waits (d >>= f) r := by
  obtain ⟨n, hn⟩ := h
  exact ⟨n, bind_error hn⟩

/-- A sequence stops where its first part stops. -/
theorem waits_bind_error_iff {d : Decoder ε α} {f : α → Decoder ε β} {r : Bytes} {e : Fault ε}
    (h : d r = .error e) : Waits (d >>= f) r ↔ Waits d r := by
  unfold Waits
  rw [bind_error h, h]
  simp only [Except.error.injEq]

theorem waits_bind_ok_iff {d : Decoder ε α} {f : α → Decoder ε β} {r rest : Bytes} {x : α}
    (h : d r = .ok (x, rest)) : Waits (d >>= f) r ↔ Waits (f x) rest := by
  unfold Waits
  rw [bind_ok h]

theorem Completable.bind {d : Decoder ε α} {f : α → Decoder ε β} (hd : Delimits d)
    (hcd : Completable d) (hf : ∀ x, Delimits (f x)) (hcf : ∀ x, Completable (f x)) :
    Completable (d >>= f) := by
  -- Once the first part is accepted, the second is completed behind it.
  have hsecond (r rest : Bytes) (x : α) (hok : d r = .ok (x, rest)) (hwaits : Waits (f x) rest) :
      ∃ ext, (∃ y, (d >>= f) (r ++ ext) = .ok (y, [])) ∨
        ∃ e, (d >>= f) (r ++ ext) = .error (.err e) ∧ ¬ Waits (d >>= f) (r ++ ext) := by
    obtain ⟨ext, hext⟩ := (hcf x).completes rest hwaits
    refine ⟨ext, ?_⟩
    rw [bind_ok (hd.append hok ext), waits_bind_ok_iff (hd.append hok ext)]
    exact hext
  constructor
  · intro r n h
    cases hr : d r with
    | error e =>
        rw [bind_error hr] at h
        cases h
        exact hcd.asks r n hr
    | ok p =>
        obtain ⟨x, rest⟩ := p
        rw [bind_ok hr] at h
        exact (hcf x).asks rest n h
  · intro r hwaits
    cases hr : d r with
    | ok p =>
        obtain ⟨x, rest⟩ := p
        exact hsecond r rest x hr ((waits_bind_ok_iff hr).mp hwaits)
    | error e =>
        obtain ⟨ext, ⟨x, hok⟩ | ⟨e, herr, hnot⟩⟩ :=
          hcd.completes r ((waits_bind_error_iff hr).mp hwaits)
        · cases hfx : f x [] with
          | ok p =>
              obtain ⟨y, left⟩ := p
              have hnil : left = [] := List.suffix_nil.mp ((hf x).suffix hfx)
              subst hnil
              exact ⟨ext, .inl ⟨y, (bind_ok hok).trans hfx⟩⟩
          | error fault =>
              by_cases hmore : Waits (f x) []
              · obtain ⟨ext', hext'⟩ := hsecond (r ++ ext) [] x hok hmore
                exact ⟨ext ++ ext', by rwa [← List.append_assoc]⟩
              · cases fault with
                | panic => exact absurd hfx ((hf x).total [])
                | err e =>
                    exact ⟨ext, .inr ⟨e, (bind_ok hok).trans hfx,
                      by rwa [waits_bind_ok_iff hok]⟩⟩
        · refine ⟨ext, .inr ⟨e, bind_error herr, ?_⟩⟩
          rwa [waits_bind_error_iff herr]

theorem Completable.map {d : Decoder ε α} (f : α → β) (hd : Delimits d) (hcd : Completable d) :
    Completable (f <$> d) :=
  Completable.bind (f := fun x => (Pure.pure (f x) : Decoder ε β)) hd hcd
    (fun x => Delimits.pure (f x)) fun x => Completable.pure (f x)

theorem Completable.iterate {step : σ → Decoder ε σ} (hstep : ∀ acc, Delimits (step acc))
    (hcstep : ∀ acc, Completable (step acc)) (n : Nat) (acc : σ) :
    Completable (Streaming.iterate step n acc) := by
  induction n generalizing acc with
  | zero => exact Completable.pure acc
  | succ n ih =>
      exact Completable.bind (hstep acc) (hcstep acc) (Delimits.iterate hstep n) ih

end

end Streaming
