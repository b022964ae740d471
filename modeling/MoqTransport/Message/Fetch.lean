import MoqTransport.Message.Parts

/-!
The FETCH family, the track status exchange, and the single-field messages.
-/

namespace MoqTransport.Message

open Streaming Coding

/-- Sent by the subscriber to request a range of already published objects. -/
structure Fetch where
  id : Nat
  trackNamespace : Tuple
  trackName : String
  subscriberPriority : UInt8
  groupOrder : GroupOrder
  startGroup : Nat
  startObject : Nat
  endGroup : Nat
  endObject : Nat
  params : Params
deriving DecidableEq

namespace Fetch

def decode : Decode Fetch := do
  let id ← U64.decode
  let trackNamespace ← Tuple.decode
  let trackName ← Str.decode
  let subscriberPriority ← U8.decode
  let groupOrder ← GroupOrder.decode
  let startGroup ← U64.decode
  let startObject ← U64.decode
  let endGroup ← U64.decode
  let endObject ← U64.decode
  let params ← Params.decode
  pure { id, trackNamespace, trackName, subscriberPriority, groupOrder, startGroup,
         startObject, endGroup, endObject, params }

def encode (ord : IterOrder) (m : Fetch) : Encode := do
  U64.encode m.id
  m.trackNamespace.encode
  Str.encode m.trackName
  U8.encode m.subscriberPriority
  m.groupOrder.encode
  U64.encode m.startGroup
  U64.encode m.startObject
  U64.encode m.endGroup
  U64.encode m.endObject
  Params.encode ord m.params

def Ok (m : Fetch) : Prop :=
  fitsVarInt m.id ∧ m.trackNamespace.Ok ∧ Str.Ok m.trackName ∧ fitsVarInt m.startGroup ∧
    fitsVarInt m.startObject ∧ fitsVarInt m.endGroup ∧ fitsVarInt m.endObject ∧ m.params.Ok

def wire (ord : IterOrder) (m : Fetch) : Bytes :=
  VarInt.wire m.id ++ m.trackNamespace.wire ++ Str.wire m.trackName ++
    [m.subscriberPriority] ++ m.groupOrder.wire ++ VarInt.wire m.startGroup ++
    VarInt.wire m.startObject ++ VarInt.wire m.endGroup ++ VarInt.wire m.endObject ++
    Params.wire ord m.params

theorem emits_encode (ord : IterOrder) (m : Fetch) :
    Emits (m.encode ord) m.Ok (m.wire ord) := by
  unfold encode
  refine Emits.congr (Emits.bind (U64.emits_encode _) (Emits.bind (Tuple.emits_encode _)
    (Emits.bind (Str.emits_encode _) (Emits.bind (U8.emits_encode _)
    (Emits.bind (GroupOrder.emits_encode _) (Emits.bind (U64.emits_encode _)
    (Emits.bind (U64.emits_encode _) (Emits.bind (U64.emits_encode _)
    (Emits.bind (U64.emits_encode _) (Params.emits_encode ord _)))))))))) ?_ ?_
  · simp only [Ok, true_and]
  · simp only [wire, List.append_assoc]

theorem transfers_decode (ord : IterOrder) {m : Fetch} (h : m.Ok) :
    Transfers decode (m.wire ord) m := by
  obtain ⟨hid, hns, hname, hsg, hso, heg, heo, hparams⟩ := h
  simp only [wire, List.append_assoc]
  exact (U64.transfers_decode hid).bind ((Tuple.transfers_decode hns).bind
    ((Str.transfers_decode hname).bind ((U8.transfers_decode _).bind
    ((GroupOrder.transfers_decode _).bind ((U64.transfers_decode hsg).bind
    ((U64.transfers_decode hso).bind ((U64.transfers_decode heg).bind
    ((U64.transfers_decode heo).bind ((Params.transfers_decode ord hparams).bind_pure _)))))))))

theorem delimits_decode : Delimits decode :=
  U64.delimits_decode.bind fun _ => Tuple.delimits_decode.bind fun _ =>
    Str.delimits_decode.bind fun _ => U8.delimits_decode.bind fun _ =>
    GroupOrder.delimits_decode.bind fun _ => U64.delimits_decode.bind fun _ =>
    U64.delimits_decode.bind fun _ => U64.delimits_decode.bind fun _ =>
    U64.delimits_decode.bind fun _ => Params.delimits_decode.bind fun _ => Delimits.pure _

end Fetch

/-- The subscriber is no longer interested in a fetch. -/
structure FetchCancel where
  id : Nat
deriving DecidableEq

namespace FetchCancel

def decode : Decode FetchCancel := FetchCancel.mk <$> U64.decode

def encode (m : FetchCancel) : Encode := U64.encode m.id

end FetchCancel

/-- Sent by the publisher in response to a successful fetch. -/
structure FetchOk where
  id : Nat
  groupOrder : UInt8
  endOfTrack : UInt8
  largestGroupId : Nat
  largestObjectId : Nat
  params : Params
deriving DecidableEq

namespace FetchOk

def decode : Decode FetchOk := do
  let id ← U64.decode
  let groupOrder ← U8.decode
  let endOfTrack ← U8.decode
  let largestGroupId ← U64.decode
  let largestObjectId ← U64.decode
  let params ← Params.decode
  pure { id, groupOrder, endOfTrack, largestGroupId, largestObjectId, params }

def encode (ord : IterOrder) (m : FetchOk) : Encode := do
  U64.encode m.id
  U8.encode m.groupOrder
  U8.encode m.endOfTrack
  U64.encode m.largestGroupId
  U64.encode m.largestObjectId
  Params.encode ord m.params

def Ok (m : FetchOk) : Prop :=
  fitsVarInt m.id ∧ fitsVarInt m.largestGroupId ∧ fitsVarInt m.largestObjectId ∧ m.params.Ok

def wire (ord : IterOrder) (m : FetchOk) : Bytes :=
  VarInt.wire m.id ++ [m.groupOrder] ++ [m.endOfTrack] ++ VarInt.wire m.largestGroupId ++
    VarInt.wire m.largestObjectId ++ Params.wire ord m.params

theorem emits_encode (ord : IterOrder) (m : FetchOk) :
    Emits (m.encode ord) m.Ok (m.wire ord) := by
  unfold encode
  refine Emits.congr (Emits.bind (U64.emits_encode _) (Emits.bind (U8.emits_encode _)
    (Emits.bind (U8.emits_encode _) (Emits.bind (U64.emits_encode _)
    (Emits.bind (U64.emits_encode _) (Params.emits_encode ord _)))))) ?_ ?_
  · simp only [Ok, true_and]
  · simp only [wire, List.append_assoc]

theorem transfers_decode (ord : IterOrder) {m : FetchOk} (h : m.Ok) :
    Transfers decode (m.wire ord) m := by
  obtain ⟨hid, hgroup, hobject, hparams⟩ := h
  simp only [wire, List.append_assoc]
  exact (U64.transfers_decode hid).bind ((U8.transfers_decode _).bind
    ((U8.transfers_decode _).bind ((U64.transfers_decode hgroup).bind
    ((U64.transfers_decode hobject).bind ((Params.transfers_decode ord hparams).bind_pure _)))))

theorem delimits_decode : Delimits decode :=
  U64.delimits_decode.bind fun _ => U8.delimits_decode.bind fun _ =>
    U8.delimits_decode.bind fun _ => U64.delimits_decode.bind fun _ =>
    U64.delimits_decode.bind fun _ => Params.delimits_decode.bind fun _ => Delimits.pure _

end FetchOk

structure FetchError where
  id : Nat
  code : Nat
  reason : String
deriving DecidableEq

namespace FetchError

def decode : Decode FetchError := do
  let id ← U64.decode
  let code ← U64.decode
  let reason ← Str.decode
  pure { id, code, reason }

def encode (m : FetchError) : Encode := do
  U64.encode m.id
  U64.encode m.code
  Str.encode m.reason

def Ok (m : FetchError) : Prop := fitsVarInt m.id ∧ fitsVarInt m.code ∧ Str.Ok m.reason

def wire (m : FetchError) : Bytes :=
  VarInt.wire m.id ++ (VarInt.wire m.code ++ Str.wire m.reason)

theorem emits_encode (m : FetchError) : Emits m.encode m.Ok m.wire :=
  Emits.bind (U64.emits_encode _) (Emits.bind (U64.emits_encode _) (Str.emits_encode _))

theorem transfers_decode {m : FetchError} (h : m.Ok) : Transfers decode m.wire m :=
  (U64.transfers_decode h.1).bind
    ((U64.transfers_decode h.2.1).bind ((Str.transfers_decode h.2.2).bind_pure _))

theorem delimits_decode : Delimits decode :=
  U64.delimits_decode.bind fun _ => U64.delimits_decode.bind fun _ =>
    Str.delimits_decode.bind fun _ => Delimits.pure _

end FetchError

structure TrackStatusRequest where
  trackNamespace : Tuple
  trackName : String
deriving DecidableEq

namespace TrackStatusRequest

def decode : Decode TrackStatusRequest := do
  let trackNamespace ← Tuple.decode
  let trackName ← Str.decode
  pure { trackNamespace, trackName }

def encode (m : TrackStatusRequest) : Encode := do
  m.trackNamespace.encode
  Str.encode m.trackName

def Ok (m : TrackStatusRequest) : Prop := m.trackNamespace.Ok ∧ Str.Ok m.trackName

def wire (m : TrackStatusRequest) : Bytes := m.trackNamespace.wire ++ Str.wire m.trackName

theorem emits_encode (m : TrackStatusRequest) : Emits m.encode m.Ok m.wire :=
  (Tuple.emits_encode _).bind (Str.emits_encode _)

theorem transfers_decode {m : TrackStatusRequest} (h : m.Ok) : Transfers decode m.wire m :=
  (Tuple.transfers_decode h.1).bind ((Str.transfers_decode h.2).bind_pure _)

theorem delimits_decode : Delimits decode :=
  Tuple.delimits_decode.bind fun _ => Str.delimits_decode.bind fun _ => Delimits.pure _

end TrackStatusRequest

structure TrackStatus where
  trackNamespace : Tuple
  trackName : String
  statusCode : TrackStatusCode
  lastGroupId : Nat
  lastObjectId : Nat
deriving DecidableEq

namespace TrackStatus

def decode : Decode TrackStatus := do
  let trackNamespace ← Tuple.decode
  let trackName ← Str.decode
  let statusCode ← TrackStatusCode.decode
  let lastGroupId ← U64.decode
  let lastObjectId ← U64.decode
  pure { trackNamespace, trackName, statusCode, lastGroupId, lastObjectId }

def encode (m : TrackStatus) : Encode := do
  m.trackNamespace.encode
  Str.encode m.trackName
  m.statusCode.encode
  U64.encode m.lastGroupId
  U64.encode m.lastObjectId

def Ok (m : TrackStatus) : Prop :=
  m.trackNamespace.Ok ∧ Str.Ok m.trackName ∧ fitsVarInt m.lastGroupId ∧ fitsVarInt m.lastObjectId

def wire (m : TrackStatus) : Bytes :=
  m.trackNamespace.wire ++ Str.wire m.trackName ++ m.statusCode.wire ++
    VarInt.wire m.lastGroupId ++ VarInt.wire m.lastObjectId

theorem emits_encode (m : TrackStatus) : Emits m.encode m.Ok m.wire := by
  unfold encode
  refine Emits.congr (Emits.bind (Tuple.emits_encode _) (Emits.bind (Str.emits_encode _)
    (Emits.bind (TrackStatusCode.emits_encode _) (Emits.bind (U64.emits_encode _)
    (U64.emits_encode _))))) ?_ ?_
  · simp only [Ok, true_and]
  · simp only [wire, List.append_assoc]

theorem transfers_decode {m : TrackStatus} (h : m.Ok) : Transfers decode m.wire m := by
  obtain ⟨hns, hname, hgroup, hobject⟩ := h
  simp only [wire, List.append_assoc]
  exact (Tuple.transfers_decode hns).bind ((Str.transfers_decode hname).bind
    ((TrackStatusCode.transfers_decode _).bind ((U64.transfers_decode hgroup).bind
    ((U64.transfers_decode hobject).bind_pure _))))

theorem delimits_decode : Delimits decode :=
  Tuple.delimits_decode.bind fun _ => Str.delimits_decode.bind fun _ =>
    TrackStatusCode.delimits_decode.bind fun _ => U64.delimits_decode.bind fun _ =>
    U64.delimits_decode.bind fun _ => Delimits.pure _

end TrackStatus

/-- Sent by the server to indicate that the client should connect elsewhere. -/
structure GoAway where
  url : String
deriving DecidableEq

namespace GoAway

def decode : Decode GoAway := GoAway.mk <$> Str.decode

def encode (m : GoAway) : Encode := Str.encode m.url

end GoAway

/-- Sent by the publisher to update the largest allowed subscription id. -/
structure MaxSubscribeId where
  id : Nat
deriving DecidableEq

namespace MaxSubscribeId

def decode : Decode MaxSubscribeId := MaxSubscribeId.mk <$> U64.decode

def encode (m : MaxSubscribeId) : Encode := U64.encode m.id

end MaxSubscribeId

end MoqTransport.Message
