import MoqTransport.Lib.Encoder

/-!
Encoders with a writer that outlives a failure. An `Encoder` that stops gives
only its fault, which is all that a caller who drops the writer can see. Here
the writer is returned as well, and `forget` leads back to the other kind.
-/

namespace Streaming

abbrev InPlace (ε α : Type) := ExceptT (Fault ε) (StateM BufMut) α

namespace InPlace

variable {ε α β : Type}

def refuse (e : ε) : InPlace ε Unit := fun w => (.error (.err e), w)

def put (bs : Bytes) : InPlace ε Unit := fun w =>
  if bs.length ≤ w.remainingMut then (.ok (), w.push bs) else (.error .panic, w)

def putBe (width v : Nat) : InPlace ε Unit := put (toBeBytes width v)

def encodeRemaining [AsksMore ε] (required : Nat) : InPlace ε Unit := fun w =>
  let needed := required - w.remainingMut
  if needed > 0 then (.error (.err (AsksMore.more needed)), w) else (.ok (), w)

/-- The encoder as seen by a caller who does not keep the writer. -/
def forget (e : InPlace ε α) : Encoder ε α := fun w =>
  match e w with
  | (.ok x, w') => .ok (x, w')
  | (.error fault, _) => .error fault

theorem bind_eq (e : InPlace ε α) (f : α → InPlace ε β) (w : BufMut) :
    (e >>= f) w = match e w with
      | (.ok x, w') => f x w'
      | (.error fault, w') => (.error fault, w') := by
  change (let p := e w; ExceptT.bindCont f p.1 p.2) = _
  rcases e w with ⟨fault | x, w'⟩
  · rfl
  · rfl

theorem forget_bind (e : InPlace ε α) (f : α → InPlace ε β) :
    forget (e >>= f) = forget e >>= fun x => forget (f x) := by
  funext w
  have hseq : (forget e >>= fun x => forget (f x)) w =
      (forget e w >>= fun p => forget (f p.1) p.2) := rfl
  rw [hseq]
  simp only [forget, bind_eq]
  rcases e w with ⟨fault | x, w'⟩
  · rfl
  · rfl

@[simp]
theorem forget_refuse (e : ε) : forget (refuse e) = Streaming.refuse e := rfl

@[simp]
theorem forget_put (bs : Bytes) : forget (put bs : InPlace ε Unit) = Streaming.put bs := by
  funext w
  simp only [forget, put, Streaming.put]
  split_ifs <;> rfl

@[simp]
theorem forget_putBe (width v : Nat) :
    forget (putBe width v : InPlace ε Unit) = Streaming.putBe width v :=
  forget_put _

@[simp]
theorem forget_encodeRemaining [AsksMore ε] (required : Nat) :
    forget (encodeRemaining required : InPlace ε Unit) = Streaming.encodeRemaining required := by
  funext w
  simp only [forget, encodeRemaining, Streaming.encodeRemaining]
  split_ifs <;> rfl

/-- The writer of a run that fails holds what it held before. -/
def AllOrNothing (e : InPlace ε α) : Prop :=
  ∀ w w' fault, e w = (.error fault, w') → w' = w

theorem allOrNothing_refuse (e : ε) : AllOrNothing (refuse e) := by
  intro w w' fault h
  cases h
  rfl

theorem allOrNothing_put (bs : Bytes) : AllOrNothing (put bs : InPlace ε Unit) := by
  intro w w' fault h
  simp only [put] at h
  split_ifs at h
  · cases h
  · cases h
    rfl

/-- A check in front of a write leaves it whole: the check itself never
writes. -/
theorem AllOrNothing.checked [AsksMore ε] {e : InPlace ε Unit} (he : AllOrNothing e)
    (required : Nat) : AllOrNothing (do encodeRemaining required; e) := by
  intro w w' fault h
  rw [bind_eq] at h
  simp only [encodeRemaining] at h
  split_ifs at h with hroom
  · cases h
    rfl
  · exact he w w' fault h

end InPlace

end Streaming
