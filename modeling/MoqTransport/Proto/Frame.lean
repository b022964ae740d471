import MoqTransport.Coding.Forms
import MoqTransport.Lib.Rerun
import MoqTransport.Proto.VarInt

/-!
The types that HTTP/3 puts in front of streams and frames. Some of the numbers
stand for nothing (`isGrease`); a frame of such a type is skipped with all that
is in it (`Frame.read_wire`).

A frame is read only if the whole of it is there, and what is then read is its
payload. `usize` has 64 bits.
-/

namespace MoqTransport.Proto

open Streaming

namespace VarInt

def fromU32 (x : Nat) : VarInt := ⟨x % 2 ^ 32, (Nat.mod_lt x (by decide)).trans (by decide)⟩

/-- A form of the number, the shortest or another. -/
def Spells (v : VarInt) (bs : Bytes) : Prop :=
  ∃ form : Coding.VarInt.Form, form.bytes = bs ∧ form.value = v.val

theorem spells_wire (v : VarInt) : Spells v (Coding.VarInt.wire v.val) :=
  Coding.VarInt.Form.exists_wire v

variable {v : VarInt} {bs : Bytes}

theorem Spells.reads (h : Spells v bs) : Reads decode bs v := by
  obtain ⟨form, rfl, hvalue⟩ := h
  obtain ⟨v', hv', hread⟩ := form.reads_decode
  obtain rfl : v' = v := Coding.VarInt.ext (hv'.trans hvalue)
  intro rest
  rw [decode_eq, hread rest]
  rfl

theorem Spells.retries (h : Spells v bs) : Retries (fun _ => true) decode bs := by
  obtain ⟨form, rfl, -⟩ := h
  intro front back hsplit hback
  refine ⟨⟨⟩, ?_, rfl⟩
  cases front with
  | nil => rfl
  | cons b front =>
      rw [decode_eq, form.decode_cut hsplit (List.cons_ne_nil b front) hback]
      rfl

theorem Spells.ne_nil (h : Spells v bs) : bs ≠ [] := by
  obtain ⟨form, rfl, -⟩ := h
  exact List.cons_ne_nil _ _

end VarInt

/-- `val >= 0x21`, every `0x1f` from there on. -/
def isGrease (val : Nat) : Bool :=
  if val < 0x21 then false else decide ((val - 0x21) % 0x1f = 0)

structure Frame where
  val : VarInt
deriving DecidableEq

structure StreamUni where
  val : VarInt
deriving DecidableEq

namespace StreamUni

def control : StreamUni := ⟨VarInt.fromU32 0x00⟩

def decode : Decoder VarIntUnexpectedEnd StreamUni := StreamUni.mk <$> VarInt.decode

def encode (typ : StreamUni) (buf : Bytes) : Bytes := VarInt.encode typ.val buf

end StreamUni

namespace Frame

def headers : Frame := ⟨VarInt.fromU32 0x01⟩

def settings : Frame := ⟨VarInt.fromU32 0x04⟩

def isGrease (frame : Frame) : Bool := Proto.isGrease frame.val.val

def decode : Decoder VarIntUnexpectedEnd Frame := Frame.mk <$> VarInt.decode

def encode (frame : Frame) (buf : Bytes) : Bytes := VarInt.encode frame.val buf

/-- The type of a frame and the limit of its payload. A frame takes up a byte. -/
def readFrom : Nat → Decoder VarIntUnexpectedEnd (Frame × Nat)
  | 0 => abort
  | fuel + 1 => do
      let typ ← decode
      let size ← VarInt.decode
      checkRemaining size.val
      -- Try again if this is a GREASE frame we need to ignore
      if typ.isGrease then do
        let _ ← copyToSlice size.val
        readFrom fuel
      else pure (typ, size.val)

def read : Decoder VarIntUnexpectedEnd (Frame × Nat) := do
  let size ← remaining
  readFrom (size + 1)

/-! What is read. -/

/-- A frame, with its type and its length in any form. -/
inductive Wire (frame : Frame) (payload : Bytes) : Bytes → Prop where
  | mk {size : VarInt} {front back : Bytes} (htyp : VarInt.Spells frame.val front)
      (hsize : VarInt.Spells size back) (hlength : payload.length = size.val) :
      Wire frame payload (front ++ (back ++ payload))

/-- Any number of frames to ignore. -/
inductive Grease : Bytes → Prop where
  | nil : Grease []
  | cons {frame : Frame} {payload wire bs : Bytes} (hgrease : frame.isGrease = true)
      (hwire : Wire frame payload wire) (hbs : Grease bs) : Grease (wire ++ bs)

variable {frame : Frame} {payload wire grease : Bytes}

theorem checkRemaining_eq (payload rest : Bytes) :
    checkRemaining payload.length (payload ++ rest) = .ok ((), payload ++ rest) := by
  rw [checkRemaining, if_neg (by rw [List.length_append]; omega)]

theorem retries_checkRemaining {α : Type} (d : Decoder VarIntUnexpectedEnd α) :
    Retries (fun _ => true) (do checkRemaining payload.length; d) payload := by
  intro front back hsplit hback
  have hlength := congrArg List.length hsplit
  have hpos := List.length_pos_iff.mpr hback
  rw [List.length_append] at hlength
  have hshort : checkRemaining payload.length front = .error (.err ⟨⟩) := if_pos (by omega)
  exact ⟨⟨⟩, bind_error hshort, rfl⟩

theorem reads_typ {typ : Frame} {bs : Bytes} (h : VarInt.Spells typ.val bs) :
    Reads decode bs typ :=
  h.reads.map Frame.mk

theorem retries_typ {typ : Frame} {bs : Bytes} (h : VarInt.Spells typ.val bs) :
    Retries (fun _ => true) decode bs :=
  h.retries.map Frame.mk

/-- Frames to ignore are skipped, and the first other one is there. -/
theorem readFrom_wire (hgrease : Grease grease) (hwire : Wire frame payload wire)
    (hframe : frame.isGrease = false) {fuel : Nat} (hfuel : (grease ++ wire).length < fuel)
    (rest : Bytes) :
    readFrom fuel (grease ++ wire ++ rest) = .ok ((frame, payload.length), payload ++ rest) := by
  induction hgrease generalizing fuel with
  | nil =>
      obtain ⟨fuel, rfl⟩ := Nat.exists_eq_succ_of_ne_zero (Nat.ne_zero_of_lt hfuel)
      obtain ⟨htyp, hsize, hlength⟩ := hwire
      rw [List.nil_append, List.append_assoc, List.append_assoc, readFrom,
        bind_ok (reads_typ htyp _), bind_ok (hsize.reads _), ← hlength,
        bind_ok (checkRemaining_eq payload rest), hframe]
      rfl
  | @cons ignored skipped front bs hignored hfront _ ih =>
      obtain ⟨fuel, rfl⟩ := Nat.exists_eq_succ_of_ne_zero (Nat.ne_zero_of_lt hfuel)
      obtain ⟨htyp, hsize, hlength⟩ := hfront
      have hne := List.length_pos_iff.mpr htyp.ne_nil
      simp only [List.append_assoc]
      rw [readFrom, bind_ok (reads_typ htyp _), bind_ok (hsize.reads _), ← hlength,
        bind_ok (checkRemaining_eq skipped _), hignored, if_pos rfl,
        bind_ok (reads_copyToSlice skipped _ rfl _), ← List.append_assoc]
      simp only [List.length_append] at hfuel
      exact ih (by rw [List.length_append]; omega)

/-- What is cut off anywhere is cut off. -/
theorem retries_readFrom (hgrease : Grease grease)
    (hwire : Wire frame payload wire) {fuel : Nat} (hfuel : (grease ++ wire).length < fuel) :
    Retries (fun _ => true) (readFrom fuel) (grease ++ wire) := by
  induction hgrease generalizing fuel with
  | nil =>
      obtain ⟨fuel, rfl⟩ := Nat.exists_eq_succ_of_ne_zero (Nat.ne_zero_of_lt hfuel)
      obtain ⟨htyp, hsize, hlength⟩ := hwire
      rw [List.nil_append]
      refine Retries.bind (reads_typ htyp) (retries_typ htyp)
        (Retries.bind hsize.reads hsize.retries ?_)
      rw [← hlength]
      exact retries_checkRemaining _
  | @cons ignored skipped front bs hignored hfront _ ih =>
      obtain ⟨fuel, rfl⟩ := Nat.exists_eq_succ_of_ne_zero (Nat.ne_zero_of_lt hfuel)
      obtain ⟨htyp, hsize, hlength⟩ := hfront
      have hne := List.length_pos_iff.mpr htyp.ne_nil
      simp only [List.append_assoc]
      refine Retries.bind (reads_typ htyp) (retries_typ htyp)
        (Retries.bind hsize.reads hsize.retries ?_)
      rw [← hlength, hignored]
      have hskip : Reads (do
          checkRemaining skipped.length
          copyToSlice skipped.length) skipped ⟨skipped, rfl⟩ := by
        intro rest
        rw [bind_ok (checkRemaining_eq skipped rest), reads_copyToSlice skipped _ rfl]
      simp only [List.length_append] at hfuel
      have hrest : Retries (fun _ => true) (readFrom fuel) (bs ++ wire) :=
        ih (by rw [List.length_append]; omega)
      have hall : Retries (fun _ => true) ((do
          checkRemaining skipped.length
          copyToSlice skipped.length) >>= fun _ => readFrom fuel) (skipped ++ (bs ++ wire)) :=
        Retries.bind hskip (retries_checkRemaining _) hrest
      rwa [bind_assoc] at hall

theorem shrinks_varInt : Shrinks VarInt.decode 1 := by
  intro r v rest h
  rw [VarInt.decode_eq] at h
  exact Coding.VarInt.shrinks_decode r v rest (ok_of_mapError h)

/-- The fuel does not matter, if it is enough. -/
theorem readFrom_congr {fuel fuel' : Nat} {r : Bytes} (h : r.length < fuel)
    (h' : r.length < fuel') : readFrom fuel r = readFrom fuel' r := by
  induction fuel generalizing fuel' r with
  | zero => cases h
  | succ fuel ih =>
      obtain ⟨fuel', rfl⟩ := Nat.exists_eq_succ_of_ne_zero (Nat.ne_zero_of_lt h')
      rw [readFrom, readFrom]
      cases htyp : decode r with
      | error e => rw [bind_error htyp, bind_error htyp]
      | ok out =>
          obtain ⟨typ, r₁⟩ := out
          have hfirst := (shrinks_varInt.map Frame.mk) r typ r₁ htyp
          rw [bind_ok htyp, bind_ok htyp]
          cases hsize : VarInt.decode r₁ with
          | error e => rw [bind_error hsize, bind_error hsize]
          | ok out =>
              obtain ⟨size, r₂⟩ := out
              have hsecond := shrinks_varInt r₁ size r₂ hsize
              rw [bind_ok hsize, bind_ok hsize]
              by_cases hshort : r₂.length < size.val
              · have hcheck : checkRemaining size.val r₂ = .error (.err ⟨⟩) := if_pos hshort
                rw [bind_error hcheck, bind_error hcheck]
              · have hcheck : checkRemaining size.val r₂ = .ok ((), r₂) := if_neg hshort
                rw [bind_ok hcheck, bind_ok hcheck]
                split
                · have hcopy : (copyToSlice size.val : Decoder VarIntUnexpectedEnd _) r₂ = _ :=
                    dif_pos (Nat.not_lt.mp hshort)
                  rw [bind_ok hcopy, bind_ok hcopy]
                  exact ih (by rw [List.length_drop]; omega) (by rw [List.length_drop]; omega)
                · rfl

theorem read_eq {fuel : Nat} {r : Bytes} (h : r.length < fuel) : read r = readFrom fuel r :=
  readFrom_congr (Nat.lt_succ_self _) h

theorem read_wire (hgrease : Grease grease) (hwire : Wire frame payload wire)
    (hframe : frame.isGrease = false) (rest : Bytes) :
    read (grease ++ wire ++ rest) = .ok ((frame, payload.length), payload ++ rest) := by
  have hle := (List.prefix_append (grease ++ wire) rest).length_le
  rw [read_eq (Nat.lt_succ_self _)]
  exact readFrom_wire hgrease hwire hframe (Nat.lt_succ_of_le hle) rest

theorem retries_read (hgrease : Grease grease)
    (hwire : Wire frame payload wire) : Retries (fun _ => true) read (grease ++ wire) := by
  intro front back hsplit hback
  have hlength := congrArg List.length hsplit
  rw [List.length_append] at hlength
  have hfuel : front.length < (grease ++ wire).length + 1 := by omega
  rw [read_eq hfuel]
  exact retries_readFrom hgrease hwire (Nat.lt_succ_self _) front back hsplit hback

/-! What the readers of requests and settings begin with. -/

section Payload

variable {ε α : Type} {f : VarIntUnexpectedEnd → ε} {g : Frame → ε} {d : Decoder ε α}

theorem reads_payload {x : α} (hgrease : Grease grease) (hwire : Wire frame payload wire)
    (hframe : frame.isGrease = false) (hd : d payload = .ok (x, [])) :
    Reads (do
      let (typ, limit) ← mapErr f read
      if typ ≠ frame then fail (g typ)
      take limit d) (grease ++ wire) x := by
  intro rest
  rw [bind_ok (mapErr_ok (read_wire hgrease hwire hframe rest))]
  simp only [ne_eq, not_true_eq_false, if_false]
  exact take_eq rest hd

theorem retries_payload {retry : ε → Bool} (hretry : ∀ e, retry (f e) = true)
    (hgrease : Grease grease) (hwire : Wire frame payload wire) :
    Retries retry (do
      let (typ, limit) ← mapErr f read
      if typ ≠ frame then fail (g typ)
      take limit d) (grease ++ wire) :=
  ((retries_read hgrease hwire).mapErr fun e _ => hretry e).bind_left _

end Payload

/-- What this side writes. -/
theorem wire_encode (frame : Frame) {payload : Bytes} (h : payload.length < 2 ^ 32) :
    Wire frame payload
      (VarInt.encode (VarInt.fromU32 payload.length) (frame.encode []) ++ payload) := by
  rw [VarInt.encode_eq, encode, VarInt.encode_eq, List.nil_append, List.append_assoc]
  exact .mk (VarInt.spells_wire _) (VarInt.spells_wire _) (Nat.mod_eq_of_lt h).symm

end Frame

end MoqTransport.Proto
