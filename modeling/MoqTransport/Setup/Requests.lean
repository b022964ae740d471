import MoqTransport.Session.Reader
import MoqTransport.Setup.Setup

/-!
What a setup decoder asks for. The outer fields ask for bytes of the buffer,
but the role is decoded from a parameter value that is already complete, and
its request for more is passed on as if the buffer could grant it. `Stuck`
follows the parameters of an unfinished buffer and says when every way to
finish them ends there; a reader that holds such a buffer reads on to the end
of the stream.
-/

namespace MoqTransport.Setup

open Streaming Coding Session

/-- The role is there, in fewer bytes than its first byte announces. -/
def CutRole (params : Params) : Prop :=
  ∃ value, params.lookup 0 = some value ∧ value.length < VarInt.formLength value

theorem not_cutRole_empty : ¬ CutRole ∅ := by
  rintro ⟨value, hvalue, -⟩
  cases hvalue

theorem cutRole_insert {params : Params} {kind : Nat} (hkind : kind ≠ 0) (value : Bytes) :
    CutRole (params.insert kind value) ↔ CutRole params := by
  unfold CutRole
  rw [Finmap.lookup_insert_of_ne _ hkind.symm]

theorem cutRole_insert_zero {params : Params} {value : Bytes} :
    CutRole (params.insert 0 value) ↔ value.length < VarInt.formLength value := by
  unfold CutRole
  rw [Finmap.lookup_insert]
  simp

/-- A number that is there in full is a role, or is refused by its value. -/
theorem role_decode_long {value : Bytes} (h : VarInt.formLength value ≤ value.length) (n : Nat) :
    Role.decode value ≠ .error (.err (.more n)) := by
  obtain ⟨v, hv⟩ := U64.decode_long h
  intro herr
  rw [Role.decode, bind_ok hv] at herr
  split at herr
  all_goals cases herr

/-- The role is asked for on exactly the parameters that cut it short; any
others come to a decision. -/
theorem takeRole_cases (params : Params) (r : Bytes) :
    (CutRole params ∧ ∃ n, 1 ≤ n ∧ takeRole params r = .error (.err (.more n))) ∨
      ¬ CutRole params ∧ ∀ n, takeRole params r ≠ .error (.err (.more n)) := by
  cases hvalue : params.lookup 0 with
  | none =>
      refine .inr ⟨?_, ?_⟩
      · rintro ⟨value, hsome, -⟩
        rw [hvalue] at hsome
        cases hsome
      · intro n h
        simp only [takeRole, Params.get, hvalue] at h
        cases h
  | some value =>
      by_cases hlen : value.length < VarInt.formLength value
      · obtain ⟨n, hn, herr⟩ := U64.decode_short hlen
        have hrole : Role.decode value = .error (.err (.more n)) := bind_error herr
        refine .inl ⟨⟨value, hvalue, hlen⟩, n, hn, ?_⟩
        simp only [takeRole, Params.get, hvalue, hrole]
      · refine .inr ⟨?_, ?_⟩
        · rintro ⟨other, hother, hshort⟩
          rw [hvalue] at hother
          cases hother
          exact hlen hshort
        · intro n h
          simp only [takeRole, Params.get, hvalue] at h
          cases hrole : Role.decode value with
          | error fault =>
              rw [hrole] at h
              cases h
              exact role_decode_long (not_lt.mp hlen) n hrole
          | ok found =>
              rw [hrole] at h
              dsimp only at h
              split at h
              · cases h
              · cases h

theorem takeRole_waits_iff (params : Params) (r : Bytes) :
    Waits (takeRole params) r ↔ CutRole params := by
  rcases takeRole_cases params r with ⟨hcut, n, -, herr⟩ | ⟨hcut, hnever⟩
  · exact iff_of_true ⟨n, herr⟩ hcut
  · exact iff_of_false (fun ⟨n, h⟩ => hnever n h) hcut

theorem takeRole_asks {params : Params} {r : Bytes} {n : Nat}
    (h : takeRole params r = .error (.err (.more n))) : 1 ≤ n := by
  rcases takeRole_cases params r with ⟨-, m, hm, herr⟩ | ⟨-, hnever⟩
  · rw [h] at herr
    cases herr
    exact hm
  · exact absurd h (hnever n)

/-- The rest of a setup message, with `n` parameters still to come. -/
def decodeRest {β : Type} (mk : Role → Params → β) (n : Nat) (params : Params) : Decode β := do
  let params ← iterate Params.decodeEntry n params
  let found ← takeRole params
  pure (mk found.1 found.2)

theorem decodeSetup_eq {α β : Type} (typ : Nat) (body : Decode α) (mk : α → Role → Params → β) :
    decodeSetup typ body mk = (do
      let x ← decodeHeader typ body
      let count ← U64.decode
      decodeRest (mk x) count ∅) := by
  simp only [decodeSetup, decodeRest, Params.decode, bind_assoc]

theorem decodeRest_succ {β : Type} (mk : Role → Params → β) (n : Nat) (params : Params) :
    decodeRest mk (n + 1) params = (do
      let kind ← U64.decode
      if kind ∈ params then fail .duplicateParameter
      else do
        let params ← Params.decodeValue params kind
        decodeRest mk n params) := by
  simp only [decodeRest, iterate, Params.decodeEntry_eq, bind_assoc]
  congr 1
  funext kind
  split
  · rfl
  · rfl

section

variable {β : Type} (mk : Role → Params → β)

theorem waits_rest_zero (params : Params) (r : Bytes) :
    Waits (decodeRest mk 0 params) r ↔ CutRole params := by
  have hrest : decodeRest mk 0 params =
      (do let found ← takeRole params; pure (mk found.1 found.2)) := by
    simp only [decodeRest, iterate, pure_bind]
  rw [hrest, ← takeRole_waits_iff params r]
  cases hrole : takeRole params r with
  | error fault => exact waits_bind_error_iff hrole
  | ok out =>
      obtain ⟨found, left⟩ := out
      rw [waits_bind_ok_iff hrole]
      refine iff_of_false ?_ ?_
      · rintro ⟨n, h⟩
        cases h
      · rintro ⟨n, h⟩
        rw [hrole] at h
        cases h

/-- A number that is not there yet is waited for. -/
theorem waits_u64 {γ : Type} (f : Nat → Decode γ) {r : Bytes} {fault : Fault DecodeError}
    (h : U64.decode r = .error fault) : Waits (U64.decode >>= f) r := by
  obtain ⟨n, -, herr⟩ := U64.decode_short (U64.short_of_error h)
  exact ⟨n, bind_error herr⟩

theorem decodeValue_complete {params : Params} {kind size : Nat} {r rest : Bytes}
    (hsize : U64.decode r = .ok (size, rest)) (hlen : size ≤ rest.length) :
    Params.decodeValue params kind r =
      .ok (params.insert kind (rest.take size), rest.drop size) := by
  have htake : (rest.take size).length = size := List.length_take_of_le hlen
  have hcopy := reads_copyToSlice (ε := DecodeError) (rest.take size) size htake (rest.drop size)
  rw [List.take_append_drop] at hcopy
  unfold Params.decodeValue Usize.decode
  rw [bind_ok hsize, bind_ok (decodeRemaining_of_le hlen), bind_ok hcopy]
  rfl

theorem waits_value {params : Params} {kind size : Nat} {r rest : Bytes}
    (hsize : U64.decode r = .ok (size, rest)) (hlen : rest.length < size) :
    Waits (Params.decodeValue params kind) r := by
  unfold Params.decodeValue Usize.decode
  rw [waits_bind_ok_iff hsize]
  refine ⟨size - rest.length, bind_error ?_⟩
  simp only [decodeRemaining]
  rw [if_pos (by omega)]

end

/-- The value of the entry under way: `last` says that no other entry comes
behind it, and `later` is about what does. -/
def StuckValue (later : Params → Bytes → Prop) (last : Prop) (params : Params) (kind : Nat)
    (r : Bytes) : Prop :=
  match U64.decode r with
  | .error _ => last ∧ kind ≠ 0 ∧ CutRole params
  | .ok (size, rest) =>
      if size ≤ rest.length then later (params.insert kind (rest.take size)) (rest.drop size)
      else last ∧ if kind = 0 then size < VarInt.formLength rest else CutRole params

/-- With `n` parameters still to come, every way to complete the buffer ends
with a role that is cut short. A key still to be chosen could repeat an earlier
one and be refused, so all keys must be there, or be out of reach of those
that are. -/
def Stuck : Nat → Params → Bytes → Prop
  | 0, params, _ => CutRole params
  | n + 1, params, r =>
      match U64.decode r with
      | .error _ => n = 0 ∧ CutRole params ∧
          ∀ tail kind rest, U64.decode (r ++ tail) = .ok (kind, rest) → kind ∉ params
      | .ok (kind, rest) => kind ∉ params ∧ StuckValue (Stuck n) (n = 0) params kind rest

section

variable {β : Type} (mk : Role → Params → β)

/-- Behind the last key, a role that was cut short before stays so. -/
theorem waits_last {params : Params} {kind : Nat} (hkind : kind ≠ 0) (hcut : CutRole params)
    (r : Bytes) :
    Waits (do let params ← Params.decodeValue params kind; decodeRest mk 0 params) r := by
  cases hsize : U64.decode r with
  | error fault => exact waits_bind_of_error (waits_u64 _ hsize)
  | ok out =>
      obtain ⟨size, rest⟩ := out
      by_cases hlen : size ≤ rest.length
      · rw [waits_bind_ok_iff (decodeValue_complete hsize hlen), waits_rest_zero,
          cutRole_insert hkind]
        exact hcut
      · exact waits_bind_of_error (waits_value hsize (not_le.mp hlen))

/-- The first byte of a value decides its form, also before the rest is
there. -/
theorem formLength_take {rest : Bytes} {size : Nat} (hlen : rest.length < size)
    (hcut : size < VarInt.formLength rest) (tail : Bytes) :
    VarInt.formLength ((rest ++ tail).take size) = VarInt.formLength rest := by
  cases rest with
  | nil =>
      simp only [VarInt.formLength, List.length_nil] at hlen hcut
      omega
  | cons b rest =>
      obtain ⟨m, rfl⟩ : ∃ m, size = m + 1 := ⟨size - 1, by omega⟩
      rfl

theorem waits_of_stuckValue {n kind : Nat} {params : Params} {r : Bytes}
    (ih : ∀ params r, Stuck n params r → ∀ tail, Waits (decodeRest mk n params) (r ++ tail))
    (h : StuckValue (Stuck n) (n = 0) params kind r) (tail : Bytes) :
    Waits (do let params ← Params.decodeValue params kind; decodeRest mk n params) (r ++ tail) := by
  unfold StuckValue at h
  cases hsize : U64.decode r with
  | error fault =>
      rw [hsize] at h
      obtain ⟨rfl, hkind, hcut⟩ := h
      exact waits_last mk hkind hcut _
  | ok out =>
      obtain ⟨size, rest⟩ := out
      have hsize' := U64.delimits_decode.append hsize tail
      rw [hsize] at h
      dsimp only at h
      split at h
      · next hlen =>
          have hlen' : size ≤ (rest ++ tail).length := by
            rw [List.length_append]
            omega
          rw [waits_bind_ok_iff (decodeValue_complete hsize' hlen'),
            List.take_append_of_le_length hlen, List.drop_append_of_le_length hlen]
          exact ih _ _ h tail
      · next hlen =>
          obtain ⟨rfl, h⟩ := h
          split at h
          · next hkind =>
              subst hkind
              by_cases hlen' : size ≤ (rest ++ tail).length
              · rw [waits_bind_ok_iff (decodeValue_complete hsize' hlen'), waits_rest_zero,
                  cutRole_insert_zero, List.length_take_of_le hlen',
                  formLength_take (not_le.mp hlen) h]
                exact h
              · exact waits_bind_of_error (waits_value hsize' (not_le.mp hlen'))
          · next hkind => exact waits_last mk hkind h _

/-- A stuck buffer is waited on whatever arrives. -/
theorem waits_of_stuck {n : Nat} {params : Params} {r : Bytes} (h : Stuck n params r)
    (tail : Bytes) : Waits (decodeRest mk n params) (r ++ tail) := by
  induction n generalizing params r tail with
  | zero => exact (waits_rest_zero mk params _).mpr h
  | succ n ih =>
      rw [decodeRest_succ]
      unfold Stuck at h
      cases hkind : U64.decode r with
      | error fault =>
          rw [hkind] at h
          obtain ⟨rfl, hcut, hfresh⟩ := h
          cases hnext : U64.decode (r ++ tail) with
          | error fault => exact waits_u64 _ hnext
          | ok out =>
              obtain ⟨kind, rest⟩ := out
              have hnew := hfresh tail kind rest hnext
              have hne : kind ≠ 0 := by
                rintro rfl
                obtain ⟨value, hvalue, -⟩ := hcut
                exact hnew (Finmap.mem_of_lookup_eq_some hvalue)
              rw [waits_bind_ok_iff hnext, if_neg hnew]
              exact waits_last mk hne hcut rest
      | ok out =>
          obtain ⟨kind, rest⟩ := out
          rw [hkind] at h
          obtain ⟨hnew, hvalue⟩ := h
          rw [waits_bind_ok_iff (U64.delimits_decode.append hkind tail), if_neg hnew]
          exact waits_of_stuckValue mk (fun params r hstuck tail => ih hstuck tail) hvalue tail

theorem decodeValue_exact {params : Params} {kind : Nat} {r value rest : Bytes}
    (hsize : U64.decode r = .ok (value.length, value ++ rest)) :
    Params.decodeValue params kind r = .ok (params.insert kind value, rest) := by
  have hlen : value.length ≤ (value ++ rest).length := by simp
  rw [decodeValue_complete hsize hlen, List.take_left, List.drop_left]

/-- Behind a complete entry the buffer can be brought to an answer: by
repeating its key if another one is due, else by the role itself. -/
theorem answered_behind {n kind : Nat} {params : Params} (hkind : fitsVarInt kind)
    (hmem : kind ∈ params) (hlast : n = 0 → ¬ CutRole params) :
    ∃ tail, ¬ Waits (decodeRest mk n params) tail := by
  cases n with
  | zero => exact ⟨[], by rw [waits_rest_zero]; exact hlast rfl⟩
  | succ n =>
      refine ⟨VarInt.wire kind ++ [], ?_⟩
      rw [decodeRest_succ, waits_bind_ok_iff ((U64.transfers_decode hkind).reads []), if_pos hmem]
      rintro ⟨m, h⟩
      cases h

/-- Zeros make a number of one byte. -/
theorem formLength_zeros {size : Nat} (h : 1 ≤ size) :
    VarInt.formLength (List.replicate size 0) = 1 := by
  obtain ⟨m, rfl⟩ : ∃ m, size = m + 1 := ⟨size - 1, by omega⟩
  rfl

/-- An entry that is filled up to a value that is not a cut role, or not the
last, can be answered. -/
theorem answered_fill {n kind : Nat} {params : Params} {r : Bytes} (hkind : fitsVarInt kind)
    (fill value : Bytes)
    (hsize : ∀ tail, U64.decode (r ++ (fill ++ tail)) = .ok (value.length, value ++ tail))
    (hlast : n = 0 → ¬ CutRole (params.insert kind value)) :
    ∃ tail, ¬ Waits (do let params ← Params.decodeValue params kind; decodeRest mk n params)
      (r ++ tail) := by
  have hmem : kind ∈ params.insert kind value := Finmap.mem_insert.mpr (.inl rfl)
  obtain ⟨tail, htail⟩ := answered_behind mk hkind hmem hlast
  refine ⟨fill ++ tail, ?_⟩
  rwa [waits_bind_ok_iff (decodeValue_exact (hsize tail))]

/-- A length that is cut off is completed, and the value is all zeros. -/
theorem answered_cutSize {n kind : Nat} {params : Params} {r : Bytes} {fault : Fault DecodeError}
    (hkind : fitsVarInt kind) (hsize : U64.decode r = .error fault)
    (h : ¬ (n = 0 ∧ kind ≠ 0 ∧ CutRole params)) :
    ∃ tail, ¬ Waits (do let params ← Params.decodeValue params kind; decodeRest mk n params)
      (r ++ tail) := by
  obtain ⟨digits, size, hpos, hdone⟩ := U64.exists_completion (U64.short_of_error hsize)
  apply answered_fill mk hkind (digits ++ List.replicate size 0) (List.replicate size 0)
  · intro tail
    have hmore := U64.delimits_decode.append hdone (List.replicate size 0 ++ tail)
    rw [List.length_replicate]
    simpa only [List.append_assoc, List.nil_append] using hmore
  · intro hzero
    by_cases hrole : kind = 0
    · subst hrole
      rw [cutRole_insert_zero, formLength_zeros hpos, List.length_replicate]
      omega
    · rw [cutRole_insert hrole]
      exact fun hcut => h ⟨hzero, hrole, hcut⟩

/-- A value that is cut off is filled up with zeros. -/
theorem answered_cutValue {n kind size : Nat} {params : Params} {r rest : Bytes}
    (hkind : fitsVarInt kind) (hsize : U64.decode r = .ok (size, rest))
    (hlen : rest.length < size)
    (h : ¬ (n = 0 ∧ if kind = 0 then size < VarInt.formLength rest else CutRole params)) :
    ∃ tail, ¬ Waits (do let params ← Params.decodeValue params kind; decodeRest mk n params)
      (r ++ tail) := by
  have hvalue : (rest ++ List.replicate (size - rest.length) 0).length = size := by
    rw [List.length_append, List.length_replicate]
    omega
  apply answered_fill mk hkind (List.replicate (size - rest.length) 0)
    (rest ++ List.replicate (size - rest.length) 0)
  · intro tail
    have hmore := U64.delimits_decode.append hsize (List.replicate (size - rest.length) 0 ++ tail)
    rw [hvalue, List.append_assoc]
    exact hmore
  · intro hzero
    by_cases hrole : kind = 0
    · rw [if_pos hrole] at h
      subst hrole
      rw [cutRole_insert_zero, hvalue]
      intro hcut
      apply h
      refine ⟨hzero, ?_⟩
      cases rest with
      | nil =>
          rw [List.nil_append, List.length_nil, formLength_zeros (by simp at hlen; omega)] at hcut
          exact hcut
      | cons b rest => exact hcut
    · rw [if_neg hrole] at h
      rw [cutRole_insert hrole]
      exact fun hcut => h ⟨hzero, hcut⟩

/-- The entry under way can be completed. -/
theorem answered_value {n kind : Nat} {params : Params} {r : Bytes} (hkind : fitsVarInt kind)
    (ih : ∀ params r, ¬ Stuck n params r → ∃ tail, ¬ Waits (decodeRest mk n params) (r ++ tail))
    (h : ¬ StuckValue (Stuck n) (n = 0) params kind r) :
    ∃ tail, ¬ Waits (do let params ← Params.decodeValue params kind; decodeRest mk n params)
      (r ++ tail) := by
  unfold StuckValue at h
  cases hsize : U64.decode r with
  | error fault =>
      rw [hsize] at h
      exact answered_cutSize mk hkind hsize h
  | ok out =>
      obtain ⟨size, rest⟩ := out
      rw [hsize] at h
      dsimp only at h
      split at h
      · next hlen =>
          obtain ⟨tail, htail⟩ := ih _ _ h
          refine ⟨tail, ?_⟩
          have hlen' : size ≤ (rest ++ tail).length := by
            rw [List.length_append]
            omega
          rwa [waits_bind_ok_iff
              (decodeValue_complete (U64.delimits_decode.append hsize tail) hlen'),
            List.take_append_of_le_length hlen, List.drop_append_of_le_length hlen]
      · next hlen => exact answered_cutValue mk hkind hsize (not_le.mp hlen) h

/-- Any other buffer can be brought to an answer. -/
theorem answered_of_not_stuck {n : Nat} {params : Params} {r : Bytes} (h : ¬ Stuck n params r) :
    ∃ tail, ¬ Waits (decodeRest mk n params) (r ++ tail) := by
  induction n generalizing params r with
  | zero => exact ⟨[], by rw [waits_rest_zero]; exact h⟩
  | succ n ih =>
      have hrefused (r rest : Bytes) (kind : Nat) (hkind : U64.decode r = .ok (kind, rest))
          (hmem : kind ∈ params) : ¬ Waits (decodeRest mk (n + 1) params) r := by
        rw [decodeRest_succ, waits_bind_ok_iff hkind, if_pos hmem]
        rintro ⟨m, h⟩
        cases h
      -- Once the key is there, the entry is completed behind it.
      have hentry (r rest : Bytes) (kind : Nat) (hkind : U64.decode r = .ok (kind, rest))
          (hnew : kind ∉ params) (hvalue : ¬ StuckValue (Stuck n) (n = 0) params kind rest) :
          ∃ tail, ¬ Waits (decodeRest mk (n + 1) params) (r ++ tail) := by
        obtain ⟨tail, htail⟩ := answered_value mk (U64.fits_of_decode hkind)
          (fun params r hstuck => ih hstuck) hvalue
        refine ⟨tail, ?_⟩
        rwa [decodeRest_succ, waits_bind_ok_iff (U64.delimits_decode.append hkind tail),
          if_neg hnew]
      unfold Stuck at h
      cases hkind : U64.decode r with
      | ok out =>
          obtain ⟨kind, rest⟩ := out
          rw [hkind] at h
          by_cases hmem : kind ∈ params
          · exact ⟨[], by rw [List.append_nil]; exact hrefused r rest kind hkind hmem⟩
          · exact hentry r rest kind hkind hmem fun hvalue => h ⟨hmem, hvalue⟩
      | error fault =>
          rw [hkind] at h
          by_cases hrepeat : ∃ tail kind rest, U64.decode (r ++ tail) = .ok (kind, rest) ∧
              kind ∈ params
          · obtain ⟨tail, kind, rest, hnext, hmem⟩ := hrepeat
            exact ⟨tail, hrefused _ rest kind hnext hmem⟩
          · have hfresh (tail : Bytes) (kind : Nat) (rest : Bytes)
                (hnext : U64.decode (r ++ tail) = .ok (kind, rest)) : kind ∉ params :=
              fun hmem => hrepeat ⟨tail, kind, rest, hnext, hmem⟩
            obtain ⟨digits, kind, -, hdone⟩ := U64.exists_completion (U64.short_of_error hkind)
            have hvalue : ¬ StuckValue (Stuck n) (n = 0) params kind [] := by
              rintro ⟨hzero, -, hcut⟩
              exact h ⟨hzero, hcut, hfresh⟩
            obtain ⟨tail, htail⟩ := hentry (r ++ digits) [] kind hdone (hfresh digits kind [] hdone)
              hvalue
            exact ⟨digits ++ tail, by rwa [← List.append_assoc]⟩

end

theorem completable_versions : Completable Versions.decode := by
  have hround (vs : List Version) : Completable (Versions.decodeVersion vs) :=
    Completable.bind Version.delimits_decode
      (Completable.map Version.mk U64.delimits_decode U64.completable_decode)
      (fun _ => Delimits.pure _) fun _ => Completable.pure _
  refine Completable.bind U64.delimits_decode U64.completable_decode (fun count => ?_)
    fun count => ?_
  · exact (Delimits.iterate Versions.delimits_decodeVersion count []).bind fun _ => Delimits.pure _
  · exact Completable.bind (Delimits.iterate Versions.delimits_decodeVersion count [])
      (Completable.iterate Versions.delimits_decodeVersion hround count [])
      (fun _ => Delimits.pure _) fun _ => Completable.pure _

theorem completable_header {α : Type} (typ : Nat) {body : Decode α} (hbody : Delimits body)
    (hcbody : Completable body) : Completable (decodeHeader typ body) := by
  refine Completable.bind U64.delimits_decode U64.completable_decode (fun t => ?_) fun t => ?_
  · split
    · exact Delimits.fail _
    · exact U64.delimits_decode.bind fun _ => hbody
  · split
    · exact Completable.fail nofun
    · exact Completable.bind U64.delimits_decode U64.completable_decode (fun _ => hbody)
        fun _ => hcbody

theorem decodeValue_asks {params : Params} {kind k : Nat} {r : Bytes}
    (h : Params.decodeValue params kind r = .error (.err (.more k))) : 1 ≤ k := by
  cases hsize : U64.decode r with
  | error fault =>
      have hfault : Params.decodeValue params kind r = .error fault := bind_error hsize
      rw [h] at hfault
      cases hfault
      exact U64.completable_decode.asks r k hsize
  | ok out =>
      obtain ⟨size, rest⟩ := out
      by_cases hlen : size ≤ rest.length
      · rw [decodeValue_complete hsize hlen] at h
        cases h
      · rw [Params.decodeValue, Usize.decode, bind_ok hsize] at h
        rcases bind_eq_error h with h | ⟨⟨⟩, rest', hcheck, -⟩
        · simp only [decodeRemaining] at h
          rw [if_pos (by omega)] at h
          cases h
          omega
        · exact absurd (decodeRemaining_eq_ok hcheck).1 hlen

theorem decodeRest_asks {β : Type} (mk : Role → Params → β) {n k : Nat} {params : Params}
    {r : Bytes} (h : decodeRest mk n params r = .error (.err (.more k))) : 1 ≤ k := by
  induction n generalizing params r with
  | zero =>
      rcases bind_eq_error h with h | ⟨params', mid, -, h⟩
      · cases h
      · rcases bind_eq_error h with h | ⟨found, mid', -, h⟩
        · exact takeRole_asks h
        · cases h
  | succ n ih =>
      rw [decodeRest_succ] at h
      rcases bind_eq_error h with h | ⟨kind, mid, -, h⟩
      · exact U64.completable_decode.asks r k h
      · split at h
        · cases h
        · rcases bind_eq_error h with h | ⟨params', mid', -, h⟩
          · exact decodeValue_asks h
          · exact ih h

/-- A setup message with everything up to the number of its parameters, and
stuck among these. -/
def StuckSetup {α : Type} (typ : Nat) (body : Decode α) (b : Bytes) : Prop :=
  ∃ x mid count rest, decodeHeader typ body b = .ok (x, mid) ∧
    U64.decode mid = .ok (count, rest) ∧ Stuck count ∅ rest

/-- A request for bytes that bytes can meet. -/
def AsksHelp {α : Type} (d : Decode α) (b : Bytes) : Prop :=
  ∀ n, d b = .error (.err (.more n)) →
    1 ≤ n ∧ ∃ ext, ∀ k, d (b ++ ext) ≠ .error (.err (.more k))

section

variable {α β : Type} {typ : Nat} {body : Decode α} (mk : α → Role → Params → β)

theorem waits_of_stuckSetup (hbody : Delimits body) {b : Bytes} (h : StuckSetup typ body b)
    (tail : Bytes) : Waits (decodeSetup typ body mk) (b ++ tail) := by
  obtain ⟨x, mid, count, rest, hheader, hcount, hstuck⟩ := h
  rw [decodeSetup_eq, waits_bind_ok_iff ((delimits_header typ hbody).append hheader tail),
    waits_bind_ok_iff (U64.delimits_decode.append hcount tail)]
  exact waits_of_stuck (mk x) hstuck tail

theorem decodeSetup_asks (hbody : Delimits body) (hcbody : Completable body) {b : Bytes} {n : Nat}
    (h : decodeSetup typ body mk b = .error (.err (.more n))) : 1 ≤ n := by
  rw [decodeSetup_eq] at h
  rcases bind_eq_error h with h | ⟨x, mid, -, h⟩
  · exact (completable_header typ hbody hcbody).asks b n h
  · rcases bind_eq_error h with h | ⟨count, rest, -, h⟩
    · exact U64.completable_decode.asks mid n h
    · exact decodeRest_asks (mk x) h

/-- Wherever the message is cut, unless it is stuck, some continuation is
answered. -/
theorem answered_of_not_stuckSetup (hbody : Delimits body) (hcbody : Completable body) {b : Bytes}
    (h : ¬ StuckSetup typ body b) : ∃ ext, ¬ Waits (decodeSetup typ body mk) (b ++ ext) := by
  rw [decodeSetup_eq]
  -- Behind a complete header: the number of parameters, and then these.
  have hbehind (b mid : Bytes) (x : α) (hheader : decodeHeader typ body b = .ok (x, mid))
      (hfree : ∀ count rest, U64.decode mid = .ok (count, rest) → ¬ Stuck count ∅ rest) :
      ∃ ext, ¬ Waits (do
        let x ← decodeHeader typ body
        let count ← U64.decode
        decodeRest (mk x) count ∅) (b ++ ext) := by
    have hrun (ext : Bytes) := waits_bind_ok_iff (f := fun x => (do
      let count ← U64.decode
      decodeRest (mk x) count ∅ : Decode β)) ((delimits_header typ hbody).append hheader ext)
    cases hcount : U64.decode mid with
    | ok out =>
        obtain ⟨count, rest⟩ := out
        obtain ⟨ext, hext⟩ := answered_of_not_stuck (mk x) (hfree count rest hcount)
        refine ⟨ext, ?_⟩
        rwa [hrun, waits_bind_ok_iff (U64.delimits_decode.append hcount ext)]
    | error fault =>
        obtain ⟨digits, count, hpos, hdone⟩ := U64.exists_completion (U64.short_of_error hcount)
        have hempty : ¬ Stuck count ∅ [] := by
          obtain ⟨m, rfl⟩ : ∃ m, count = m + 1 := ⟨count - 1, by omega⟩
          rintro ⟨-, hcut, -⟩
          exact not_cutRole_empty hcut
        obtain ⟨ext, hext⟩ := answered_of_not_stuck (mk x) hempty
        refine ⟨digits ++ ext, ?_⟩
        rwa [hrun, ← List.append_assoc, waits_bind_ok_iff (U64.delimits_decode.append hdone ext)]
  cases hheader : decodeHeader typ body b with
  | ok out =>
      obtain ⟨x, mid⟩ := out
      refine hbehind b mid x hheader ?_
      intro count rest hcount hstuck
      exact h ⟨x, mid, count, rest, hheader, hcount, hstuck⟩
  | error fault =>
      by_cases hwaits : Waits (decodeHeader typ body) b
      · obtain ⟨ext, ⟨x, hok⟩ | ⟨e, herr, hnot⟩⟩ :=
          (completable_header typ hbody hcbody).completes b hwaits
        · obtain ⟨ext', hext'⟩ := hbehind (b ++ ext) [] x hok (fun count rest hnil => by cases hnil)
          exact ⟨ext ++ ext', by rwa [← List.append_assoc]⟩
        · exact ⟨ext, by rwa [waits_bind_error_iff herr]⟩
      · refine ⟨[], ?_⟩
        rwa [List.append_nil, waits_bind_error_iff hheader]

theorem asksHelp_iff (hbody : Delimits body) (hcbody : Completable body) (b : Bytes) :
    AsksHelp (decodeSetup typ body mk) b ↔ ¬ StuckSetup typ body b := by
  constructor
  · intro hhelp hstuck
    have hwaits := waits_of_stuckSetup mk hbody hstuck
    obtain ⟨n, hn⟩ := hwaits []
    rw [List.append_nil] at hn
    obtain ⟨-, ext, hext⟩ := hhelp n hn
    obtain ⟨k, hk⟩ := hwaits ext
    exact hext k hk
  · intro hfree n hn
    obtain ⟨ext, hext⟩ := answered_of_not_stuckSetup mk hbody hcbody hfree
    exact ⟨decodeSetup_asks mk hbody hcbody hn, ext, fun k hk => hext ⟨k, hk⟩⟩

end

/-- A reader that is waited on whatever arrives reads to the end of the
stream, however long it is. -/
theorem readMore_waits {α : Type} {d : Decode α} {failure : Option String} {pieces : List Piece}
    {buffer : Bytes} (h : ∀ tail, Waits d (buffer ++ tail)) (required : Nat) :
    (∃ message, failure = some message ∧
        Reader.readMore d failure pieces buffer required = .error (.err (.transport message))) ∨
      failure = none ∧
        ∃ k, Reader.readMore d failure pieces buffer required =
          .error (.err (.decode (.more k))) := by
  induction pieces generalizing buffer required with
  | nil =>
      cases failure with
      | none => exact .inr ⟨rfl, _, rfl⟩
      | some message => exact .inl ⟨message, rfl, rfl⟩
  | cons piece pieces ih =>
      have hnext (tail : Bytes) : Waits d (buffer ++ piece.val ++ tail) := by
        rw [List.append_assoc]
        exact h (piece.val ++ tail)
      unfold Reader.readMore
      split
      · obtain ⟨n, hn⟩ := hnext []
        rw [List.append_nil] at hn
        have hn' : d (buffer ++ piece.val) = .error (.err (.more n)) := hn
        simp only [Reader.attempt, hn']
        exact ih hnext _
      · exact ih hnext required

theorem reader_waits {α : Type} {d : Decode α} {buffer : Bytes}
    (h : ∀ tail, Waits d (buffer ++ tail)) (stream : RecvStream) :
    (∃ message, stream.failure = some message ∧
        Reader.decode d ⟨stream, buffer⟩ = .error (.err (.transport message))) ∨
      stream.failure = none ∧
        ∃ k, Reader.decode d ⟨stream, buffer⟩ = .error (.err (.decode (.more k))) := by
  obtain ⟨n, hn⟩ := h []
  rw [List.append_nil] at hn
  have hn' : d buffer = .error (.err (.more n)) := hn
  simp only [Reader.decode, Reader.attempt, hn']
  exact readMore_waits h _

/-- A setup decoder asks for bytes that can help exactly on the buffers that
are not stuck; on a stuck one the reader never comes back before the stream
ends. -/
theorem setup_asks_help_iff (b : Bytes) :
    (AsksHelp Client.decode b ↔ ¬ StuckSetup 0x40 Versions.decode b) ∧
    (AsksHelp Server.decode b ↔ ¬ StuckSetup 0x41 Version.decode b) ∧
    (StuckSetup 0x40 Versions.decode b → ∀ stream : RecvStream,
      (∃ message, stream.failure = some message ∧
        Reader.decode Client.decode ⟨stream, b⟩ = .error (.err (.transport message))) ∨
      stream.failure = none ∧
        ∃ k, Reader.decode Client.decode ⟨stream, b⟩ = .error (.err (.decode (.more k)))) ∧
    (StuckSetup 0x41 Version.decode b → ∀ stream : RecvStream,
      (∃ message, stream.failure = some message ∧
        Reader.decode Server.decode ⟨stream, b⟩ = .error (.err (.transport message))) ∨
      stream.failure = none ∧
        ∃ k, Reader.decode Server.decode ⟨stream, b⟩ = .error (.err (.decode (.more k)))) := by
  have hversion : Completable Version.decode :=
    Completable.map Version.mk U64.delimits_decode U64.completable_decode
  refine ⟨?_, ?_, ?_, ?_⟩
  · exact asksHelp_iff Client.mk Versions.delimits_decode completable_versions b
  · exact asksHelp_iff Server.mk Version.delimits_decode hversion b
  · intro hstuck stream
    exact reader_waits (waits_of_stuckSetup Client.mk Versions.delimits_decode hstuck) stream
  · intro hstuck stream
    exact reader_waits (waits_of_stuckSetup Server.mk Version.delimits_decode hstuck) stream

/-- A complete client setup whose role has no bytes. -/
def emptyRole : Bytes := [0x40, 0x40, 5, 1, 7, 1, 0, 0]

theorem stuck_emptyRole : StuckSetup 0x40 Versions.decode emptyRole := by
  refine ⟨⟨[⟨7⟩]⟩, [1, 0, 0], 1, [0, 0], rfl, rfl, ?_⟩
  exact ⟨Finmap.notMem_empty, [], Finmap.lookup_insert _, by decide⟩

/-- Appending anything to it is of no use, and waiting goes on for ever. -/
theorem setup_asks_help_iff_emptyRole :
    ¬ AsksHelp Client.decode emptyRole ∧
      ∃ k, Reader.decode Client.decode ⟨wholeStream [1, 2, 3], emptyRole⟩ =
        .error (.err (.decode (.more k))) := by
  obtain ⟨client, -, reader, -⟩ := setup_asks_help_iff emptyRole
  refine ⟨fun hhelp => client.mp hhelp stuck_emptyRole, ?_⟩
  rcases reader stuck_emptyRole (wholeStream [1, 2, 3]) with ⟨_, hfailure, -⟩ | ⟨-, k, hk⟩
  · cases hfailure
  · exact ⟨k, hk⟩

theorem emptyRole_unanswered :
    ¬ ∀ (b : Bytes) (n : Nat), Client.decode b = .error (.err (.more n)) →
      1 ≤ n ∧ ∃ ext, ∀ k, Client.decode (b ++ ext) ≠ .error (.err (.more k)) := by
  intro hclaim
  have hmore : Client.decode emptyRole = .error (.err (.more 1)) := rfl
  obtain ⟨-, ext, hext⟩ := hclaim emptyRole 1 hmore
  obtain ⟨k, hk⟩ := waits_of_stuckSetup Client.mk Versions.delimits_decode stuck_emptyRole ext
  exact hext k hk

end MoqTransport.Setup
