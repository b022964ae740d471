import MoqTransport.Message.Parts

/-!
The SUBSCRIBE family. The start and end of a subscription are on the wire
only for the absolute filters, and the decoder of the absolute range tests
the buffer length before it reads them: a buffer that stops short there is
answered with `missingField`, not with a request for more bytes. So an
absolute range is read back from its bytes (`reads_decode`) without being
safe to decode from a growing buffer (`decode_cut_range`).
-/

namespace MoqTransport.Message

open Streaming Coding

/-- Sent by the subscriber to request all future objects for the given track. -/
structure Subscribe where
  id : Nat
  trackAlias : Nat
  trackNamespace : Tuple
  trackName : String
  subscriberPriority : UInt8
  groupOrder : GroupOrder
  filterType : FilterType
  start : Option SubscribePair
  end_ : Option SubscribePair
  params : Params
deriving DecidableEq

namespace Subscribe

/-- The filter-dependent fields: the start and end pairs. -/
def decodeRange (filter : FilterType) :
    Decode (Option SubscribePair × Option SubscribePair) :=
  match filter with
  | .absoluteStart => do
      let remain ← remaining
      if remain < 2 then
        fail .missingField
      else do
        let start ← SubscribePair.decode
        pure (some start, none)
  | .absoluteRange => do
      let remain ← remaining
      if remain < 4 then
        fail .missingField
      else do
        let start ← SubscribePair.decode
        let end_ ← SubscribePair.decode
        pure (some start, some end_)
  | _ => pure (none, none)

/-- You can't have an object without a group. -/
def checkPair : Option SubscribePair → Decode Unit
  | some pair =>
      if pair.group = .none ∧ pair.object ≠ .none then
        fail .invalidSubscribeLocation
      else
        pure ()
  | none => pure ()

/-- The fields in front of the pairs. -/
def decodeHead : Decode Subscribe := do
  let id ← U64.decode
  let trackAlias ← U64.decode
  let trackNamespace ← Tuple.decode
  let trackName ← Str.decode
  let subscriberPriority ← U8.decode
  let groupOrder ← GroupOrder.decode
  let filterType ← FilterType.decode
  pure { id, trackAlias, trackNamespace, trackName, subscriberPriority, groupOrder,
         filterType, start := none, end_ := none, params := ∅ }

/-- The rest of the message, after its first seven fields. -/
def decodeTail (head : Subscribe) : Decode Subscribe := do
  let range ← decodeRange head.filterType
  checkPair range.1
  checkPair range.2
  let params ← Params.decode
  pure { head with start := range.1, end_ := range.2, params := params }

def decode : Decode Subscribe := do
  let head ← decodeHead
  decodeTail head

def encodeOption : Option SubscribePair → Encode
  | some pair => pair.encode
  | none => pure ()

def encodeRange (filter : FilterType) (start end_ : Option SubscribePair) : Encode :=
  if filter = .absoluteStart ∨ filter = .absoluteRange then
    if start.isNone ∨ end_.isNone then
      refuse .missingField
    else do
      encodeOption start
      encodeOption end_
  else
    pure ()

def encode (ord : IterOrder) (m : Subscribe) : Encode := do
  U64.encode m.id
  U64.encode m.trackAlias
  m.trackNamespace.encode
  Str.encode m.trackName
  U8.encode m.subscriberPriority
  m.groupOrder.encode
  m.filterType.encode
  encodeRange m.filterType m.start m.end_
  Params.encode ord m.params

/-- The encoder accepts the pairs: absolute filters need both. -/
def rangeOk (filter : FilterType) (start end_ : Option SubscribePair) : Prop :=
  match filter with
  | .absoluteStart | .absoluteRange =>
      ∃ first last, start = some first ∧ end_ = some last ∧ first.Ok ∧ last.Ok
  | _ => True

def Ok (m : Subscribe) : Prop :=
  fitsVarInt m.id ∧ fitsVarInt m.trackAlias ∧ m.trackNamespace.Ok ∧ Str.Ok m.trackName ∧
    rangeOk m.filterType m.start m.end_ ∧ m.params.Ok

def optionWire : Option SubscribePair → Bytes
  | some pair => pair.wire
  | none => []

def rangeWire (filter : FilterType) (start end_ : Option SubscribePair) : Bytes :=
  match filter with
  | .absoluteStart | .absoluteRange => optionWire start ++ optionWire end_
  | _ => []

/-- The fields in front of the pairs. -/
def headWire (m : Subscribe) : Bytes :=
  VarInt.wire m.id ++ VarInt.wire m.trackAlias ++ m.trackNamespace.wire ++
    Str.wire m.trackName ++ [m.subscriberPriority] ++ m.groupOrder.wire ++ m.filterType.wire

def wire (ord : IterOrder) (m : Subscribe) : Bytes :=
  m.headWire ++ rangeWire m.filterType m.start m.end_ ++ Params.wire ord m.params

theorem emits_range (filter : FilterType) (start end_ : Option SubscribePair) :
    Emits (encodeRange filter start end_) (rangeOk filter start end_)
      (rangeWire filter start end_) := by
  have habsolute : Emits (if start.isNone ∨ end_.isNone then refuse .missingField else do
      encodeOption start
      encodeOption end_)
      (∃ first last, start = some first ∧ end_ = some last ∧ first.Ok ∧ last.Ok)
      (optionWire start ++ optionWire end_) := by
    cases start with
    | none => exact (emits_refuse _ _).congr (by simp) rfl
    | some first =>
        cases end_ with
        | none => exact (emits_refuse _ _).congr (by simp) rfl
        | some last =>
            exact ((SubscribePair.emits_encode first).bind
              (SubscribePair.emits_encode last)).congr (by simp) rfl
  cases filter with
  | latestGroup => exact Emits.skip
  | latestObject => exact Emits.skip
  | absoluteStart => exact habsolute
  | absoluteRange => exact habsolute

theorem emits_encode (ord : IterOrder) (m : Subscribe) :
    Emits (m.encode ord) m.Ok (m.wire ord) := by
  unfold encode
  refine Emits.congr (Emits.bind (U64.emits_encode _) (Emits.bind (U64.emits_encode _)
    (Emits.bind (Tuple.emits_encode _) (Emits.bind (Str.emits_encode _)
    (Emits.bind (U8.emits_encode _) (Emits.bind (GroupOrder.emits_encode _)
    (Emits.bind (FilterType.emits_encode _) (Emits.bind (emits_range _ _ _)
    (Params.emits_encode ord _))))))))) ?_ ?_
  · simp only [Ok, true_and]
  · simp only [wire, headWire, List.append_assoc]

/-- The pairs present are the ones the filter calls for, and none names an
object without a group. -/
def rangeCanonical (filter : FilterType) (start end_ : Option SubscribePair) : Prop :=
  match filter with
  | .absoluteStart => ∃ first, start = some first ∧ end_ = none ∧ first.Valid
  | .absoluteRange =>
      ∃ first last, start = some first ∧ end_ = some last ∧ first.Valid ∧ last.Valid
  | _ => start = none ∧ end_ = none

/-- What a decoded message looks like. -/
def Canonical (m : Subscribe) : Prop := rangeCanonical m.filterType m.start m.end_

theorem checkPair_valid {pair : SubscribePair} (h : pair.Valid) :
    checkPair (some pair) = pure () := by
  unfold checkPair
  exact if_neg h

theorem checkPair_eq_ok {pair : SubscribePair} {r rest : Bytes}
    (h : checkPair (some pair) r = .ok ((), rest)) : pair.Valid := by
  by_contra hbad
  rw [SubscribePair.Valid, not_not] at hbad
  simp only [checkPair, if_pos hbad] at h
  cases h

/-- The pairs that come out of the decoder and pass both checks. -/
theorem range_canonical {filter : FilterType} {r mid rest rest' : Bytes}
    {range : Option SubscribePair × Option SubscribePair}
    (hrange : decodeRange filter r = .ok (range, mid))
    (hstart : checkPair range.1 mid = .ok ((), rest))
    (hend : checkPair range.2 rest = .ok ((), rest')) :
    rangeCanonical filter range.1 range.2 := by
  cases filter with
  | latestGroup => cases hrange; exact ⟨rfl, rfl⟩
  | latestObject => cases hrange; exact ⟨rfl, rfl⟩
  | absoluteStart =>
      obtain ⟨remain, _, -, hrange⟩ := bind_eq_ok hrange
      split at hrange
      · cases hrange
      · obtain ⟨first, _, -, hrange⟩ := bind_eq_ok hrange
        cases hrange
        exact ⟨first, rfl, rfl, checkPair_eq_ok hstart⟩
  | absoluteRange =>
      obtain ⟨remain, _, -, hrange⟩ := bind_eq_ok hrange
      split at hrange
      · cases hrange
      · obtain ⟨first, _, -, hrange⟩ := bind_eq_ok hrange
        obtain ⟨last, _, -, hrange⟩ := bind_eq_ok hrange
        cases hrange
        exact ⟨first, last, rfl, rfl, checkPair_eq_ok hstart, checkPair_eq_ok hend⟩

theorem canonical_of_decode {m : Subscribe} {r rest : Bytes} (h : decode r = .ok (m, rest)) :
    m.Canonical := by
  obtain ⟨head, _, -, h⟩ := bind_eq_ok h
  obtain ⟨range, _, hrange, h⟩ := bind_eq_ok h
  obtain ⟨⟨⟩, _, hstart, h⟩ := bind_eq_ok h
  obtain ⟨⟨⟩, _, hend, h⟩ := bind_eq_ok h
  obtain ⟨params, _, -, h⟩ := bind_eq_ok h
  cases h
  exact range_canonical hrange hstart hend

/-- A message as it is after its first seven fields. -/
def head (m : Subscribe) : Subscribe := { m with start := none, end_ := none, params := ∅ }

theorem transfers_head {m : Subscribe} (h : m.Ok) : Transfers decodeHead m.headWire m.head := by
  obtain ⟨hid, halias, hns, hname, -, -⟩ := h
  simp only [headWire, List.append_assoc]
  exact (U64.transfers_decode hid).bind ((U64.transfers_decode halias).bind
    ((Tuple.transfers_decode hns).bind ((Str.transfers_decode hname).bind
    ((U8.transfers_decode _).bind ((GroupOrder.transfers_decode _).bind
    ((FilterType.transfers_decode _).bind_pure _))))))

/-- Without an absolute filter nothing stands between the filter and the
parameters. -/
theorem transfers_decode (ord : IterOrder) {m : Subscribe} (h : m.Ok) (hcanonical : m.Canonical)
    (hfilter : m.filterType ≠ .absoluteStart ∧ m.filterType ≠ .absoluteRange) :
    Transfers decode (m.wire ord) m := by
  have hhead := transfers_head h
  have hparams := Params.transfers_decode ord h.2.2.2.2.2
  obtain ⟨id, trackAlias, ns, name, priority, order, filter, start, end_, params⟩ := m
  have htail : ∀ latest, (latest = FilterType.latestGroup ∨ latest = .latestObject) →
      Transfers (decodeTail ⟨id, trackAlias, ns, name, priority, order, latest, none, none, ∅⟩)
        (Params.wire ord params)
        ⟨id, trackAlias, ns, name, priority, order, latest, none, none, params⟩ := by
    rintro latest (rfl | rfl)
    · exact hparams.bind_pure _
    · exact hparams.bind_pure _
  cases filter with
  | latestGroup =>
      obtain ⟨rfl, rfl⟩ := hcanonical
      simp only [wire, rangeWire, List.append_nil]
      exact hhead.bind (htail _ (.inl rfl))
  | latestObject =>
      obtain ⟨rfl, rfl⟩ := hcanonical
      simp only [wire, rangeWire, List.append_nil]
      exact hhead.bind (htail _ (.inr rfl))
  | absoluteStart => exact absurd rfl hfilter.1
  | absoluteRange => exact absurd rfl hfilter.2

/-- An absolute range is read back whole. -/
theorem reads_range {first last : SubscribePair} (hfirst : first.Ok) (hlast : last.Ok) :
    Reads (decodeRange .absoluteRange) (first.wire ++ last.wire) (some first, some last) := by
  have hpairs : Transfers (do
      let start ← SubscribePair.decode
      let end_ ← SubscribePair.decode
      pure (some start, some end_)) (first.wire ++ last.wire) (some first, some last) :=
    (SubscribePair.transfers_decode hfirst).bind
      ((SubscribePair.transfers_decode hlast).bind_pure _)
  intro rest
  have hlen : ¬ (first.wire ++ last.wire ++ rest).length < 4 := by
    have h1 := first.wire_length_pos
    have h2 := last.wire_length_pos
    simp only [List.length_append]
    omega
  simp only [decodeRange]
  rw [bind_ok (remaining_eq _), if_neg hlen]
  exact hpairs.reads rest

/-- Every message that encodes and that a decoder can return, except one with
an absolute start, is read back from its bytes. -/
theorem reads_decode (ord : IterOrder) {m : Subscribe} (h : m.Ok) (hcanonical : m.Canonical)
    (hfilter : m.filterType ≠ .absoluteStart) : Reads decode (m.wire ord) m := by
  by_cases hrange : m.filterType = .absoluteRange
  · have hhead := (transfers_head h).reads
    have hparams := (Params.transfers_decode ord h.2.2.2.2.2).reads
    obtain ⟨id, trackAlias, ns, name, priority, order, filter, start, end_, params⟩ := m
    cases hrange
    obtain ⟨first, last, hstart, hend, hfirst, hlast⟩ := hcanonical
    obtain ⟨_, _, hstart', hend', hfirst', hlast'⟩ := h.2.2.2.2.1
    cases hstart
    cases hend
    cases hstart'
    cases hend'
    rw [wire, List.append_assoc]
    refine hhead.bind ((reads_range hfirst' hlast').bind ?_)
    intro rest
    dsimp only
    rw [checkPair_valid hfirst, checkPair_valid hlast, pure_bind, pure_bind,
      bind_ok (hparams rest)]
    rfl
  · exact (transfers_decode ord h hcanonical ⟨hfilter, hrange⟩).reads

/-- An absolute range cut after its filter type, with fewer than four bytes
present, is refused although more bytes would complete it. -/
theorem decode_cut_range {m : Subscribe} (h : m.Ok) (hrange : m.filterType = .absoluteRange)
    (front : Bytes) (hfront : front.length < 4) :
    decode (m.headWire ++ front) = .error (.err .missingField) := by
  unfold decode
  rw [bind_ok ((transfers_head h).reads front)]
  refine bind_error ?_
  have hfilter : m.head.filterType = .absoluteRange := hrange
  rw [hfilter]
  simp only [decodeRange]
  rw [bind_ok (remaining_eq front), if_pos hfront]
  rfl

theorem delimits_head : Delimits decodeHead :=
  U64.delimits_decode.bind fun _ => U64.delimits_decode.bind fun _ =>
    Tuple.delimits_decode.bind fun _ => Str.delimits_decode.bind fun _ =>
    U8.delimits_decode.bind fun _ => GroupOrder.delimits_decode.bind fun _ =>
    FilterType.delimits_decode.bind fun _ => Delimits.pure _

/-- The tests of the buffer length ask for no more than the pairs take up. -/
theorem delimits_range (filter : FilterType) : Delimits (decodeRange filter) := by
  cases filter with
  | latestGroup => exact Delimits.pure _
  | latestObject => exact Delimits.pure _
  | absoluteStart =>
      apply Delimits.atLeast
      · exact SubscribePair.delimits_decode.bind fun _ => Delimits.pure _
      · exact SubscribePair.shrinks_decode.bind fun _ => Shrinks.pure _
  | absoluteRange =>
      apply Delimits.atLeast
      · exact SubscribePair.delimits_decode.bind fun _ =>
          SubscribePair.delimits_decode.bind fun _ => Delimits.pure _
      · exact SubscribePair.shrinks_decode.bind fun _ => SubscribePair.shrinks_decode.bind fun _ =>
          Shrinks.pure _

theorem delimits_checkPair (pair : Option SubscribePair) : Delimits (checkPair pair) := by
  cases pair with
  | none => exact Delimits.pure _
  | some pair =>
      simp only [checkPair]
      split
      · exact Delimits.fail _
      · exact Delimits.pure _

theorem delimits_decode : Delimits decode := by
  apply delimits_head.bind
  intro head
  apply (delimits_range head.filterType).bind
  intro range
  apply (delimits_checkPair range.1).bind
  intro _
  apply (delimits_checkPair range.2).bind
  intro _
  exact Params.delimits_decode.bind fun _ => Delimits.pure _

end Subscribe

/-- Sent by the subscriber to change a subscription. It has the fields of
`Subscribe`, and its codec is the same. -/
structure SubscribeUpdate extends Subscribe
deriving DecidableEq

namespace SubscribeUpdate

def decode : Decode SubscribeUpdate := SubscribeUpdate.mk <$> Subscribe.decode

def encode (ord : IterOrder) (m : SubscribeUpdate) : Encode := m.toSubscribe.encode ord

end SubscribeUpdate

/-- Sent by the subscriber to terminate a Subscribe. -/
structure Unsubscribe where
  id : Nat
deriving DecidableEq

namespace Unsubscribe

def decode : Decode Unsubscribe := Unsubscribe.mk <$> U64.decode

def encode (m : Unsubscribe) : Encode := U64.encode m.id

end Unsubscribe

/-- Sent by the publisher to accept a Subscribe. -/
structure SubscribeOk where
  id : Nat
  expires : Option Nat
  groupOrder : GroupOrder
  latest : Option (Nat × Nat)
deriving DecidableEq

namespace SubscribeOk

def decode : Decode SubscribeOk := do
  let id ← U64.decode
  let expires ← U64.decode
  let groupOrder ← GroupOrder.decode
  let latest ← decodePosition
  -- The parameters are skipped as a single byte.
  let _ ← U8.decode
  pure { id, expires := if expires = 0 then none else some expires, groupOrder, latest }

def encode (m : SubscribeOk) : Encode := do
  U64.encode m.id
  U64.encode (m.expires.getD 0)
  m.groupOrder.encode
  encodePosition m.latest
  put [0]

def Ok (m : SubscribeOk) : Prop :=
  fitsVarInt m.id ∧ fitsVarInt (m.expires.getD 0) ∧ positionOk m.latest

def wire (m : SubscribeOk) : Bytes :=
  VarInt.wire m.id ++ VarInt.wire (m.expires.getD 0) ++ m.groupOrder.wire ++
    positionWire m.latest ++ [0]

/-- No expiry is written as zero, so zero cannot be an expiry. -/
def Canonical (m : SubscribeOk) : Prop := m.expires ≠ some 0

theorem emits_encode (m : SubscribeOk) : Emits m.encode m.Ok m.wire := by
  unfold encode
  refine Emits.congr (Emits.bind (U64.emits_encode _) (Emits.bind (U64.emits_encode _)
    (Emits.bind (GroupOrder.emits_encode _) (Emits.bind (emits_position _)
    (emits_put [0]))))) ?_ ?_
  · simp only [Ok, true_and, and_true]
  · simp only [wire, List.append_assoc]

theorem expires_getD {expires : Option Nat} (h : expires ≠ some 0) :
    (if expires.getD 0 = 0 then none else some (expires.getD 0)) = expires := by
  cases expires with
  | none => rfl
  | some value =>
      have hpos : value ≠ 0 := fun hzero => h (hzero ▸ rfl)
      simp [hpos]

theorem transfers_decode {m : SubscribeOk} (h : m.Ok) (hcanonical : m.Canonical) :
    Transfers decode m.wire m := by
  obtain ⟨hid, hexpires, hlatest⟩ := h
  simp only [wire, List.append_assoc]
  refine (U64.transfers_decode hid).bind ((U64.transfers_decode hexpires).bind
    ((GroupOrder.transfers_decode _).bind ((transfers_position hlatest).bind
    ((U8.transfers_decode 0).bind_nil ?_))))
  rw [expires_getD hcanonical]
  exact Transfers.pure m

theorem canonical_of_decode {m : SubscribeOk} {r rest : Bytes} (h : decode r = .ok (m, rest)) :
    m.Canonical := by
  unfold decode at h
  obtain ⟨id, _, -, h⟩ := bind_eq_ok h
  obtain ⟨expires, _, -, h⟩ := bind_eq_ok h
  obtain ⟨order, _, -, h⟩ := bind_eq_ok h
  obtain ⟨latest, _, -, h⟩ := bind_eq_ok h
  obtain ⟨skipped, _, -, h⟩ := bind_eq_ok h
  cases h
  intro hzero
  dsimp only at hzero
  split at hzero
  · cases hzero
  · cases hzero
    contradiction

theorem delimits_decode : Delimits decode :=
  U64.delimits_decode.bind fun _ => U64.delimits_decode.bind fun _ =>
    GroupOrder.delimits_decode.bind fun _ => delimits_position.bind fun _ =>
    U8.delimits_decode.bind fun _ => Delimits.pure _

end SubscribeOk

/-- Sent by the publisher to reject a Subscribe. -/
structure SubscribeError where
  id : Nat
  code : Nat
  reason : String
  alias_ : Nat
deriving DecidableEq

namespace SubscribeError

def decode : Decode SubscribeError := do
  let id ← U64.decode
  let code ← U64.decode
  let reason ← Str.decode
  let alias_ ← U64.decode
  pure { id, code, reason, alias_ }

def encode (m : SubscribeError) : Encode := do
  U64.encode m.id
  U64.encode m.code
  Str.encode m.reason
  U64.encode m.alias_

def Ok (m : SubscribeError) : Prop :=
  fitsVarInt m.id ∧ fitsVarInt m.code ∧ Str.Ok m.reason ∧ fitsVarInt m.alias_

def wire (m : SubscribeError) : Bytes :=
  VarInt.wire m.id ++ (VarInt.wire m.code ++ (Str.wire m.reason ++ VarInt.wire m.alias_))

theorem emits_encode (m : SubscribeError) : Emits m.encode m.Ok m.wire :=
  Emits.bind (U64.emits_encode _) (Emits.bind (U64.emits_encode _)
    (Emits.bind (Str.emits_encode _) (U64.emits_encode _)))

theorem transfers_decode {m : SubscribeError} (h : m.Ok) : Transfers decode m.wire m :=
  (U64.transfers_decode h.1).bind ((U64.transfers_decode h.2.1).bind
    ((Str.transfers_decode h.2.2.1).bind ((U64.transfers_decode h.2.2.2).bind_pure _)))

theorem delimits_decode : Delimits decode :=
  U64.delimits_decode.bind fun _ => U64.delimits_decode.bind fun _ =>
    Str.delimits_decode.bind fun _ => U64.delimits_decode.bind fun _ => Delimits.pure _

end SubscribeError

/-- Sent by the publisher to cleanly terminate a Subscribe. -/
structure SubscribeDone where
  id : Nat
  code : Nat
  reason : String
  last : Option (Nat × Nat)
deriving DecidableEq

namespace SubscribeDone

def decode : Decode SubscribeDone := do
  let id ← U64.decode
  let code ← U64.decode
  let reason ← Str.decode
  let last ← decodePosition
  pure { id, code, reason, last }

def encode (m : SubscribeDone) : Encode := do
  U64.encode m.id
  U64.encode m.code
  Str.encode m.reason
  encodePosition m.last

def Ok (m : SubscribeDone) : Prop :=
  fitsVarInt m.id ∧ fitsVarInt m.code ∧ Str.Ok m.reason ∧ positionOk m.last

def wire (m : SubscribeDone) : Bytes :=
  VarInt.wire m.id ++ (VarInt.wire m.code ++ (Str.wire m.reason ++ positionWire m.last))

theorem emits_encode (m : SubscribeDone) : Emits m.encode m.Ok m.wire :=
  Emits.bind (U64.emits_encode _) (Emits.bind (U64.emits_encode _)
    (Emits.bind (Str.emits_encode _) (emits_position _)))

theorem transfers_decode {m : SubscribeDone} (h : m.Ok) : Transfers decode m.wire m :=
  (U64.transfers_decode h.1).bind ((U64.transfers_decode h.2.1).bind
    ((Str.transfers_decode h.2.2.1).bind ((transfers_position h.2.2.2).bind_pure _)))

theorem delimits_decode : Delimits decode :=
  U64.delimits_decode.bind fun _ => U64.delimits_decode.bind fun _ =>
    Str.delimits_decode.bind fun _ => delimits_position.bind fun _ => Delimits.pure _

end SubscribeDone

end MoqTransport.Message
