import MoqTransport.Lib.Decoder

/-!
A decoder that is run again from the start each time a piece arrives, until it
succeeds or fails with an error that more input cannot mend. What the last
piece holds behind the message is read and thrown away.

If every start of a message is an error of the other kind (`Retries`), the
message is read however it is cut (`rerun_whole`).
-/

namespace Streaming

section

variable {ε ε' α β : Type}

def mapErr (f : ε → ε') (d : Decoder ε α) : Decoder ε' α := fun r =>
  match d r with
  | .ok out => .ok out
  | .error (.err e) => .error (.err (f e))
  | .error .panic => .error .panic

/-- Only the next bytes are there: `Buf::take`. -/
def take (limit : Nat) (d : Decoder ε α) : Decoder ε α := fun r =>
  match d (r.take limit) with
  | .ok (x, rest) => .ok (x, rest ++ r.drop limit)
  | .error fault => .error fault

/-- `stop` is the error at the end of the stream, which an empty read stands for
and here the end of the list. The result comes with the pieces that have not
been read. -/
def rerun (retry : ε → Bool) (stop : ε) (d : Decoder ε α) :
    Bytes → List Bytes → Except (Fault ε) α × List Bytes
  | _, [] => (.error (.err stop), [])
  | buf, piece :: pieces =>
      match d (buf ++ piece) with
      | .ok (x, _) => (.ok x, pieces)
      | .error .panic => (.error .panic, pieces)
      | .error (.err e) =>
          if retry e then rerun retry stop d (buf ++ piece) pieces else (.error (.err e), pieces)

/-- What is cut off is an error, and worth another try. -/
def Retries (retry : ε → Bool) (d : Decoder ε α) (bs : Bytes) : Prop :=
  ∀ front back, front ++ back = bs → back ≠ [] → ∃ e, d front = .error (.err e) ∧ retry e = true

variable {retry : ε → Bool} {d : Decoder ε α} {f : α → Decoder ε β} {bs cs : Bytes} {x : α} {y : β}

theorem mapErr_ok {f : ε → ε'} {r rest : Bytes} (h : d r = .ok (x, rest)) :
    mapErr f d r = .ok (x, rest) := by
  simp only [mapErr, h]

theorem mapErr_error {f : ε → ε'} {r : Bytes} {e : ε} (h : d r = .error (.err e)) :
    mapErr f d r = .error (.err (f e)) := by
  simp only [mapErr, h]

theorem Reads.mapErr (f : ε → ε') (h : Reads d bs x) : Reads (mapErr f d) bs x :=
  fun rest => mapErr_ok (h rest)

theorem Retries.mapErr {f : ε → ε'} {retry' : ε' → Bool} (h : Retries retry d bs)
    (hretry : ∀ e, retry e = true → retry' (f e) = true) : Retries retry' (mapErr f d) bs := by
  intro front back hsplit hback
  obtain ⟨e, he, hagain⟩ := h front back hsplit hback
  exact ⟨f e, mapErr_error he, hretry e hagain⟩

theorem Retries.map (h : Retries retry d bs) (f : α → β) : Retries retry (f <$> d) bs := by
  intro front back hsplit hback
  obtain ⟨e, he, hagain⟩ := h front back hsplit hback
  exact ⟨e, map_error f he, hagain⟩

/-- A try that fails so fails whatever would come after it. -/
theorem Retries.bind_left (h : Retries retry d bs) (f : α → Decoder ε β) :
    Retries retry (d >>= f) bs := by
  intro front back hsplit hback
  obtain ⟨e, he, hagain⟩ := h front back hsplit hback
  exact ⟨e, bind_error he, hagain⟩

theorem Retries.bind (hreads : Reads d bs x) (hretries : Retries retry d bs)
    (h : Retries retry (f x) cs) : Retries retry (d >>= f) (bs ++ cs) := by
  intro front back hsplit hback
  rcases List.append_eq_append_iff.mp hsplit with ⟨mid, hbs, hmid⟩ | ⟨mid, rfl, hcs⟩
  · by_cases hnone : mid = []
    · subst hnone
      rw [List.append_nil] at hbs
      obtain ⟨e, he, hagain⟩ := h [] back hmid hback
      refine ⟨e, ?_, hagain⟩
      have hfront := hreads []
      rw [List.append_nil, hbs] at hfront
      rw [bind_ok hfront, he]
    · obtain ⟨e, he, hagain⟩ := hretries front mid hbs.symm hnone
      exact ⟨e, bind_error he, hagain⟩
  · obtain ⟨e, he, hagain⟩ := h mid back hcs.symm hback
    exact ⟨e, by rw [bind_ok (hreads mid), he], hagain⟩

theorem take_eq (rest : Bytes) (h : d bs = .ok (x, [])) :
    take bs.length d (bs ++ rest) = .ok (x, rest) := by
  rw [take, List.take_left, List.drop_left, h]
  rfl

/-- What a decoder comes to on a message, whatever follows. -/
def Results (d : Decoder ε α) (bs : Bytes) (out : Except (Fault ε) α) : Prop :=
  ∀ rest, (d (bs ++ rest)).map Prod.fst = out

theorem Reads.results (h : Reads d bs x) : Results d bs (.ok x) := by
  intro rest
  rw [h rest]
  rfl

/-- The byte number `n` is in the piece before `after`. -/
def Reaches (n : Nat) (pieces after : List Bytes) : Prop :=
  ∃ before last, pieces = before ++ last :: after ∧ before.flatten.length < n ∧
    n ≤ before.flatten.length + last.length

variable {stop : ε} {out : Except (Fault ε) α}

/-- A step of the loop that is the last. -/
theorem rerun_last {buf piece : Bytes} {pieces : List Bytes}
    (hfinal : ∀ e, out = .error (.err e) → retry e = false)
    (h : (d (buf ++ piece)).map Prod.fst = out) :
    rerun retry stop d buf (piece :: pieces) = (out, pieces) := by
  subst h
  rw [rerun]
  cases hd : d (buf ++ piece) with
  | ok result => rfl
  | error fault =>
      cases fault with
      | panic => rfl
      | err e =>
          have hstop := hfinal e (by rw [hd]; rfl)
          simp only [hstop]
          rfl

/-- The message is read as soon as the last of it is there. -/
theorem rerun_whole (hresults : Results d bs out) (hretries : Retries retry d bs)
    (hfinal : ∀ e, out = .error (.err e) → retry e = false) {buf rest : Bytes}
    {pieces : List Bytes} (hpieces : buf ++ pieces.flatten = bs ++ rest)
    (hbuf : buf.length < bs.length) :
    ∃ after, Reaches (bs.length - buf.length) pieces after ∧
      rerun retry stop d buf pieces = (out, after) := by
  induction pieces generalizing buf with
  | nil =>
      have hlength := congrArg List.length hpieces
      rw [List.flatten_nil, List.append_nil, List.length_append] at hlength
      omega
  | cons piece pieces ih =>
      rw [List.flatten_cons, ← List.append_assoc] at hpieces
      rcases Nat.lt_or_ge (buf ++ piece).length bs.length with hshort | hlong
      · have hfront : buf ++ piece <+: bs :=
          List.prefix_of_prefix_length_le ⟨_, hpieces⟩ (List.prefix_append bs rest) hshort.le
        obtain ⟨back, hback⟩ := hfront
        have hne : back ≠ [] := by
          rintro rfl
          rw [List.append_nil] at hback
          rw [hback] at hshort
          exact Nat.lt_irrefl _ hshort
        obtain ⟨e, he, hagain⟩ := hretries _ back hback hne
        obtain ⟨after, ⟨before, last, rfl, hbefore, hlast⟩, hrerun⟩ := ih hpieces hshort
        rw [List.length_append] at hshort hbefore hlast
        refine ⟨after, ⟨piece :: before, last, rfl, ?_, ?_⟩, ?_⟩
        · rw [List.flatten_cons, List.length_append]
          omega
        · rw [List.flatten_cons, List.length_append]
          omega
        · simp only [rerun, he, hagain, if_true, hrerun]
      · have hall : bs <+: buf ++ piece :=
          List.prefix_of_prefix_length_le (List.prefix_append bs rest) ⟨_, hpieces⟩ hlong
        obtain ⟨more, hmore⟩ := hall
        rw [List.length_append] at hlong
        refine ⟨pieces, ⟨[], piece, rfl, ?_, ?_⟩, rerun_last hfinal ?_⟩
        · rw [List.flatten_nil, List.length_nil]
          omega
        · rw [List.flatten_nil, List.length_nil]
          omega
        · rw [← hmore]
          exact hresults more

/-- The loop from the start. -/
theorem rerun_pieces (hresults : Results d bs out) (hretries : Retries retry d bs)
    (hfinal : ∀ e, out = .error (.err e) → retry e = false) {rest : Bytes} {pieces : List Bytes}
    (hpieces : pieces.flatten = bs ++ rest) (hne : bs ≠ []) :
    ∃ after, Reaches bs.length pieces after ∧ rerun retry stop d [] pieces = (out, after) := by
  have hbuf : ([] : Bytes).length < bs.length := List.length_pos_iff.mpr hne
  have hstart : [] ++ pieces.flatten = bs ++ rest := hpieces
  exact rerun_whole hresults hretries hfinal hstart hbuf

/-- A stream that ends within the message. -/
theorem rerun_cut (hretries : Retries retry d bs) {buf back : Bytes} {pieces : List Bytes}
    (hpieces : buf ++ pieces.flatten ++ back = bs) (hback : back ≠ []) :
    rerun retry stop d buf pieces = (.error (.err stop), []) := by
  induction pieces generalizing buf with
  | nil => rfl
  | cons piece pieces ih =>
      rw [List.flatten_cons, ← List.append_assoc] at hpieces
      have hne : pieces.flatten ++ back ≠ [] := List.append_ne_nil_of_right_ne_nil _ hback
      rw [List.append_assoc] at hpieces
      obtain ⟨e, he, hagain⟩ := hretries _ _ hpieces hne
      rw [← List.append_assoc] at hpieces
      simp only [rerun, he, hagain, if_true, ih hpieces]

end

end Streaming
