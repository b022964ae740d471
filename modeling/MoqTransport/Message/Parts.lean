import MoqTransport.Coding.Fields

/-!
The enumerations and location pairs that control messages carry: group order,
filter type, track status code, subscribe locations and optional position
pairs.
-/

namespace MoqTransport.Message

open Streaming Coding

inductive GroupOrder where
  | publisher
  | ascending
  | descending
deriving DecidableEq

namespace GroupOrder

def code : GroupOrder → UInt8
  | .publisher => 0x0
  | .ascending => 0x1
  | .descending => 0x2

def encode (order : GroupOrder) : Encode := U8.encode order.code

def decode : Decode GroupOrder := do
  let code ← U8.decode
  match code with
  | 0x0 => pure .publisher
  | 0x1 => pure .ascending
  | 0x2 => pure .descending
  | _ => fail .invalidGroupOrder

def wire (order : GroupOrder) : Bytes := [order.code]

theorem emits_encode (order : GroupOrder) : Emits order.encode True order.wire :=
  U8.emits_encode order.code

theorem transfers_decode (order : GroupOrder) : Transfers decode order.wire order := by
  refine (U8.transfers_decode order.code).bind_nil ?_
  cases order <;> exact Transfers.pure _

theorem delimits_decode : Delimits decode := by
  apply U8.delimits_decode.bind
  intro code
  split
  all_goals first
    | exact Delimits.pure _
    | exact Delimits.fail _

end GroupOrder

inductive FilterType where
  | latestGroup
  | latestObject
  | absoluteStart
  | absoluteRange
deriving DecidableEq

namespace FilterType

def code : FilterType → Nat
  | .latestGroup => 0x1
  | .latestObject => 0x2
  | .absoluteStart => 0x3
  | .absoluteRange => 0x4

def encode (filter : FilterType) : Encode := U64.encode filter.code

def decode : Decode FilterType := do
  let code ← U64.decode
  match code with
  | 0x01 => pure .latestGroup
  | 0x02 => pure .latestObject
  | 0x03 => pure .absoluteStart
  | 0x04 => pure .absoluteRange
  | _ => fail .invalidFilterType

def wire (filter : FilterType) : Bytes := VarInt.wire filter.code

theorem code_fits (filter : FilterType) : fitsVarInt filter.code := by
  cases filter <;> decide

theorem emits_encode (filter : FilterType) : Emits filter.encode True filter.wire :=
  (U64.emits_encode filter.code).congr (iff_true_intro filter.code_fits) rfl

theorem transfers_decode (filter : FilterType) : Transfers decode filter.wire filter := by
  refine (U64.transfers_decode filter.code_fits).bind_nil ?_
  cases filter <;> exact Transfers.pure _

theorem delimits_decode : Delimits decode := by
  apply U64.delimits_decode.bind
  intro code
  split
  all_goals first
    | exact Delimits.pure _
    | exact Delimits.fail _

end FilterType

inductive TrackStatusCode where
  | inProgress
  | doesNotExist
  | notYetBegun
  | finished
  | relay
deriving DecidableEq

namespace TrackStatusCode

def code : TrackStatusCode → Nat
  | .inProgress => 0x00
  | .doesNotExist => 0x01
  | .notYetBegun => 0x02
  | .finished => 0x03
  | .relay => 0x04

def encode (status : TrackStatusCode) : Encode := U64.encode status.code

def decode : Decode TrackStatusCode := do
  let code ← U64.decode
  match code with
  | 0x00 => pure .inProgress
  | 0x01 => pure .doesNotExist
  | 0x02 => pure .notYetBegun
  | 0x03 => pure .finished
  | 0x04 => pure .relay
  | _ => fail .invalidTrackStatusCode

def wire (status : TrackStatusCode) : Bytes := VarInt.wire status.code

theorem code_fits (status : TrackStatusCode) : fitsVarInt status.code := by
  cases status <;> decide

theorem emits_encode (status : TrackStatusCode) : Emits status.encode True status.wire :=
  (U64.emits_encode status.code).congr (iff_true_intro status.code_fits) rfl

theorem transfers_decode (status : TrackStatusCode) :
    Transfers decode status.wire status := by
  refine (U64.transfers_decode status.code_fits).bind_nil ?_
  cases status <;> exact Transfers.pure _

theorem delimits_decode : Delimits decode := by
  apply U64.delimits_decode.bind
  intro code
  split
  all_goals first
    | exact Delimits.pure _
    | exact Delimits.fail _

end TrackStatusCode

/-- Where a subscription should begin or end, relative to the current cache. -/
inductive SubscribeLocation where
  | none
  | absolute (value : Nat)
  | latest (value : Nat)
  | future (value : Nat)
deriving DecidableEq

namespace SubscribeLocation

def id : SubscribeLocation → Nat
  | .none => 0
  | .absolute _ => 1
  | .latest _ => 2
  | .future _ => 3

def decode : Decode SubscribeLocation := do
  let kind ← U64.decode
  match kind with
  | 0 => pure .none
  | 1 => do let value ← U64.decode; pure (.absolute value)
  | 2 => do let value ← U64.decode; pure (.latest value)
  | 3 => do let value ← U64.decode; pure (.future value)
  | _ => fail .invalidSubscribeLocation

def encode (location : SubscribeLocation) : Encode := do
  U64.encode location.id
  match location with
  | .none => pure ()
  | .absolute value => U64.encode value
  | .latest value => U64.encode value
  | .future value => U64.encode value

def Ok : SubscribeLocation → Prop
  | .none => True
  | .absolute value | .latest value | .future value => fitsVarInt value

def wire : SubscribeLocation → Bytes
  | .none => VarInt.wire 0
  | .absolute value => VarInt.wire 1 ++ VarInt.wire value
  | .latest value => VarInt.wire 2 ++ VarInt.wire value
  | .future value => VarInt.wire 3 ++ VarInt.wire value

theorem emits_encode (location : SubscribeLocation) :
    Emits location.encode location.Ok location.wire := by
  have hkind (kind : Nat) (h : fitsVarInt kind) : Emits (U64.encode kind) True (VarInt.wire kind) :=
    (U64.emits_encode kind).congr (iff_true_intro h) rfl
  cases location with
  | none => exact ((hkind 0 (by decide)).bind Emits.skip).congr (by simp [Ok]) (by simp [wire])
  | absolute value =>
      exact ((hkind 1 (by decide)).bind (U64.emits_encode value)).congr (by simp [Ok]) rfl
  | latest value =>
      exact ((hkind 2 (by decide)).bind (U64.emits_encode value)).congr (by simp [Ok]) rfl
  | future value =>
      exact ((hkind 3 (by decide)).bind (U64.emits_encode value)).congr (by simp [Ok]) rfl

theorem transfers_decode {location : SubscribeLocation} (h : location.Ok) :
    Transfers decode location.wire location := by
  have hkind (kind : Nat) (hk : kind < 4) : Transfers U64.decode (VarInt.wire kind) kind :=
    U64.transfers_decode (by simp only [fitsVarInt]; omega)
  cases location with
  | none => exact (hkind 0 (by omega)).bind_nil (Transfers.pure _)
  | absolute value =>
      exact (hkind 1 (by omega)).bind ((U64.transfers_decode h).bind_pure _)
  | latest value =>
      exact (hkind 2 (by omega)).bind ((U64.transfers_decode h).bind_pure _)
  | future value =>
      exact (hkind 3 (by omega)).bind ((U64.transfers_decode h).bind_pure _)

theorem delimits_decode : Delimits decode := by
  have hvalue (f : Nat → SubscribeLocation) :
      Delimits (do let value ← U64.decode; pure (f value) : Decode SubscribeLocation) :=
    U64.delimits_decode.bind fun _ => Delimits.pure _
  apply U64.delimits_decode.bind
  intro kind
  split
  · exact Delimits.pure _
  · exact hvalue _
  · exact hvalue _
  · exact hvalue _
  · exact Delimits.fail _

theorem shrinks_decode : Shrinks decode 1 := by
  have hvalue (f : Nat → SubscribeLocation) :
      Shrinks (do let value ← U64.decode; pure (f value) : Decode SubscribeLocation) 0 := by
    intro r x rest h
    have hlt := U64.shrinks_decode.map f r x rest h
    omega
  apply U64.shrinks_decode.bind (k := 0)
  intro kind
  split
  · exact Shrinks.pure _
  · exact hvalue _
  · exact hvalue _
  · exact hvalue _
  · exact Shrinks.fail _ _

/-- A location takes at least one byte. -/
theorem wire_length_pos (location : SubscribeLocation) : 1 ≤ location.wire.length := by
  have hkind (kind : Nat) (rest : Bytes) : 1 ≤ (VarInt.wire kind ++ rest).length := by
    have hpos := VarInt.wire_length_pos kind
    rw [List.length_append]
    omega
  cases location with
  | none => exact VarInt.wire_length_pos 0
  | absolute value => exact hkind 1 _
  | latest value => exact hkind 2 _
  | future value => exact hkind 3 _

end SubscribeLocation

structure SubscribePair where
  group : SubscribeLocation
  object : SubscribeLocation
deriving DecidableEq

namespace SubscribePair

def decode : Decode SubscribePair := do
  let group ← SubscribeLocation.decode
  let object ← SubscribeLocation.decode
  pure { group, object }

def encode (pair : SubscribePair) : Encode := do
  pair.group.encode
  pair.object.encode

def Ok (pair : SubscribePair) : Prop := pair.group.Ok ∧ pair.object.Ok

def wire (pair : SubscribePair) : Bytes := pair.group.wire ++ pair.object.wire

/-- An object without a group is not a location. -/
def Valid (pair : SubscribePair) : Prop :=
  ¬ (pair.group = .none ∧ pair.object ≠ .none)

instance (pair : SubscribePair) : Decidable pair.Valid := by
  unfold Valid
  infer_instance

theorem emits_encode (pair : SubscribePair) : Emits pair.encode pair.Ok pair.wire :=
  (SubscribeLocation.emits_encode _).bind (SubscribeLocation.emits_encode _)

theorem transfers_decode {pair : SubscribePair} (h : pair.Ok) :
    Transfers decode pair.wire pair :=
  (SubscribeLocation.transfers_decode h.1).bind
    ((SubscribeLocation.transfers_decode h.2).bind_pure _)

theorem wire_length_pos (pair : SubscribePair) : 2 ≤ pair.wire.length := by
  have hgroup := pair.group.wire_length_pos
  have hobject := pair.object.wire_length_pos
  rw [wire, List.length_append]
  omega

theorem delimits_decode : Delimits decode :=
  SubscribeLocation.delimits_decode.bind fun _ => SubscribeLocation.delimits_decode.bind fun _ =>
    Delimits.pure _

theorem shrinks_decode : Shrinks decode 2 :=
  SubscribeLocation.shrinks_decode.bind fun _ => SubscribeLocation.shrinks_decode.bind fun _ =>
    Shrinks.pure _

end SubscribePair

/-- An optional (group, object) position: a flag byte, then the two ids. -/
def decodePosition : Decode (Option (Nat × Nat)) := do
  decodeRemaining 1
  let flag ← getU8
  match flag with
  | 0 => pure none
  | 1 => do
      let group ← U64.decode
      let object ← U64.decode
      pure (some (group, object))
  | _ => fail .invalidValue

def encodePosition (position : Option (Nat × Nat)) : Encode := do
  encodeRemaining 1
  match position with
  | some (group, object) => do
      put [1]
      U64.encode group
      U64.encode object
  | none => put [0]

def positionOk : Option (Nat × Nat) → Prop
  | some (group, object) => fitsVarInt group ∧ fitsVarInt object
  | none => True

def positionWire : Option (Nat × Nat) → Bytes
  | some (group, object) => [1] ++ (VarInt.wire group ++ VarInt.wire object)
  | none => [0]

theorem emits_position (position : Option (Nat × Nat)) :
    Emits (encodePosition position) (positionOk position) (positionWire position) := by
  cases position with
  | none => exact (emits_put [0]).checked 1 le_rfl
  | some ids =>
      refine Emits.checked 1 (by simp [positionWire]) ?_
      refine Emits.congr (Emits.bind (emits_put [1])
        (Emits.bind (U64.emits_encode ids.1) (U64.emits_encode ids.2))) ?_ rfl
      simp [positionOk]

theorem transfers_position {position : Option (Nat × Nat)} (h : positionOk position) :
    Transfers decodePosition (positionWire position) position := by
  cases position with
  | none =>
      have hnone : Transfers (pure none : Decode (Option (Nat × Nat))) [] none :=
        Transfers.pure none
      exact Transfers.checked_bind 1 rfl (reads_getU8 0) hnone
  | some ids =>
      refine Transfers.checked_bind 1 rfl (reads_getU8 1) ?_
      exact (U64.transfers_decode h.1).bind ((U64.transfers_decode h.2).bind_pure _)

theorem delimits_position : Delimits decodePosition := by
  apply Delimits.getU8_bind
  intro flag
  split
  · exact Delimits.pure _
  · exact U64.delimits_decode.bind fun _ => U64.delimits_decode.bind fun _ => Delimits.pure _
  · exact Delimits.fail _

end MoqTransport.Message
