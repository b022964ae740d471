import MoqTransport.Coding.Fields

/-!
The data plane: the header that starts a unidirectional stream, the object
headers inside it, and the self-contained datagram. An object of size zero
carries its status on the wire; any other object has status `object`, so a
size and a different status together do not survive the wire (`Canonical`).
-/

namespace MoqTransport.Data

open Streaming Coding

inductive ObjectStatus where
  | object
  | objectDoesNotExist
  | endOfGroup
  | endOfTrack
  | endOfSubgroup
deriving DecidableEq

namespace ObjectStatus

def code : ObjectStatus → Nat
  | .object => 0x0
  | .objectDoesNotExist => 0x1
  | .endOfGroup => 0x3
  | .endOfTrack => 0x4
  | .endOfSubgroup => 0x5

def decode : Decode ObjectStatus := do
  let code ← U64.decode
  match code with
  | 0x0 => pure .object
  | 0x1 => pure .objectDoesNotExist
  | 0x3 => pure .endOfGroup
  | 0x4 => pure .endOfTrack
  | 0x5 => pure .endOfSubgroup
  | _ => fail .invalidObjectStatus

def encode (status : ObjectStatus) : Encode := U64.encode status.code

def wire (status : ObjectStatus) : Bytes := VarInt.wire status.code

theorem code_fits (status : ObjectStatus) : fitsVarInt status.code := by
  cases status <;> decide

theorem emits_encode (status : ObjectStatus) : Emits status.encode True status.wire :=
  (U64.emits_encode status.code).congr (iff_true_intro status.code_fits) rfl

theorem transfers_decode (status : ObjectStatus) : Transfers decode status.wire status := by
  refine (U64.transfers_decode status.code_fits).bind_nil ?_
  cases status <;> exact Transfers.pure _

theorem shrinks_decode : Shrinks decode 1 := by
  apply U64.shrinks_decode.bind (k := 0)
  intro code
  split
  all_goals first
    | exact Shrinks.pure _
    | exact Shrinks.fail _ _

theorem delimits_decode : Delimits decode := by
  apply U64.delimits_decode.bind
  intro code
  split
  all_goals first
    | exact Delimits.pure _
    | exact Delimits.fail _

end ObjectStatus

structure TrackHeader where
  subscribeId : Nat
  trackAlias : Nat
  publisherPriority : UInt8
deriving DecidableEq

namespace TrackHeader

def decode : Decode TrackHeader := do
  let subscribeId ← U64.decode
  let trackAlias ← U64.decode
  let publisherPriority ← U8.decode
  pure { subscribeId, trackAlias, publisherPriority }

def encode (h : TrackHeader) : Encode := do
  U64.encode h.subscribeId
  U64.encode h.trackAlias
  U8.encode h.publisherPriority

def Ok (h : TrackHeader) : Prop := fitsVarInt h.subscribeId ∧ fitsVarInt h.trackAlias

def wire (h : TrackHeader) : Bytes :=
  VarInt.wire h.subscribeId ++ (VarInt.wire h.trackAlias ++ [h.publisherPriority])

theorem emits_encode (h : TrackHeader) : Emits h.encode h.Ok h.wire := by
  refine Emits.congr (Emits.bind (U64.emits_encode _) (Emits.bind (U64.emits_encode _)
    (U8.emits_encode _))) ?_ rfl
  simp only [Ok, and_true]

theorem transfers_decode {h : TrackHeader} (hok : h.Ok) : Transfers decode h.wire h :=
  (U64.transfers_decode hok.1).bind ((U64.transfers_decode hok.2).bind
    ((U8.transfers_decode _).bind_pure _))

theorem delimits_decode : Delimits decode :=
  U64.delimits_decode.bind fun _ => U64.delimits_decode.bind fun _ =>
    U8.delimits_decode.bind fun _ => Delimits.pure _

end TrackHeader

structure SubgroupHeader where
  subscribeId : Nat
  trackAlias : Nat
  groupId : Nat
  subgroupId : Nat
  publisherPriority : UInt8
deriving DecidableEq

namespace SubgroupHeader

def decode : Decode SubgroupHeader := do
  let subscribeId ← U64.decode
  let trackAlias ← U64.decode
  let groupId ← U64.decode
  let subgroupId ← U64.decode
  let publisherPriority ← U8.decode
  pure { subscribeId, trackAlias, groupId, subgroupId, publisherPriority }

def encode (h : SubgroupHeader) : Encode := do
  U64.encode h.subscribeId
  U64.encode h.trackAlias
  U64.encode h.groupId
  U64.encode h.subgroupId
  U8.encode h.publisherPriority

def Ok (h : SubgroupHeader) : Prop :=
  fitsVarInt h.subscribeId ∧ fitsVarInt h.trackAlias ∧ fitsVarInt h.groupId ∧
    fitsVarInt h.subgroupId

def wire (h : SubgroupHeader) : Bytes :=
  VarInt.wire h.subscribeId ++ (VarInt.wire h.trackAlias ++ (VarInt.wire h.groupId ++
    (VarInt.wire h.subgroupId ++ [h.publisherPriority])))

theorem emits_encode (h : SubgroupHeader) : Emits h.encode h.Ok h.wire := by
  refine Emits.congr (Emits.bind (U64.emits_encode _) (Emits.bind (U64.emits_encode _)
    (Emits.bind (U64.emits_encode _) (Emits.bind (U64.emits_encode _)
    (U8.emits_encode _))))) ?_ rfl
  simp only [Ok, and_true]

theorem transfers_decode {h : SubgroupHeader} (hok : h.Ok) : Transfers decode h.wire h :=
  (U64.transfers_decode hok.1).bind ((U64.transfers_decode hok.2.1).bind
    ((U64.transfers_decode hok.2.2.1).bind ((U64.transfers_decode hok.2.2.2).bind
    ((U8.transfers_decode _).bind_pure _))))

theorem delimits_decode : Delimits decode :=
  U64.delimits_decode.bind fun _ => U64.delimits_decode.bind fun _ =>
    U64.delimits_decode.bind fun _ => U64.delimits_decode.bind fun _ =>
    U8.delimits_decode.bind fun _ => Delimits.pure _

end SubgroupHeader

/-- All supported stream types. -/
inductive Header where
  | track (h : TrackHeader)
  | subgroup (h : SubgroupHeader)
deriving DecidableEq

namespace Header

def id : Header → Nat
  | .track _ => 0x2
  | .subgroup _ => 0x4

def subscribeId : Header → Nat
  | .track h => h.subscribeId
  | .subgroup h => h.subscribeId

def decode : Decode Header := do
  let t ← U64.decode
  match t with
  | 0x2 => .track <$> TrackHeader.decode
  | 0x4 => .subgroup <$> SubgroupHeader.decode
  | _ => fail (.invalidMessage t)

def encode (header : Header) : Encode := do
  U64.encode header.id
  match header with
  | .track h => h.encode
  | .subgroup h => h.encode

def Ok : Header → Prop
  | .track h => h.Ok
  | .subgroup h => h.Ok

def wire : Header → Bytes
  | .track h => VarInt.wire 0x2 ++ h.wire
  | .subgroup h => VarInt.wire 0x4 ++ h.wire

theorem emits_encode (header : Header) : Emits header.encode header.Ok header.wire := by
  have hid (id : Nat) (h : fitsVarInt id) : Emits (U64.encode id) True (VarInt.wire id) :=
    (U64.emits_encode id).congr (iff_true_intro h) rfl
  cases header with
  | track h => exact ((hid 0x2 (by decide)).bind h.emits_encode).congr (by simp [Ok]) rfl
  | subgroup h => exact ((hid 0x4 (by decide)).bind h.emits_encode).congr (by simp [Ok]) rfl

theorem transfers_decode {header : Header} (hok : header.Ok) :
    Transfers decode header.wire header := by
  cases header with
  | track h =>
      exact (U64.transfers_decode (by decide)).bind ((TrackHeader.transfers_decode hok).map _)
  | subgroup h =>
      exact (U64.transfers_decode (by decide)).bind ((SubgroupHeader.transfers_decode hok).map _)

theorem wire_length_le (header : Header) : header.wire.length ≤ 50 := by
  cases header with
  | track h =>
      have hid := VarInt.wire_length_le 0x2
      have hsubscribe := VarInt.wire_length_le h.subscribeId
      have halias := VarInt.wire_length_le h.trackAlias
      simp only [wire, TrackHeader.wire, List.length_append, List.length_singleton]
      omega
  | subgroup h =>
      have hid := VarInt.wire_length_le 0x4
      have hsubscribe := VarInt.wire_length_le h.subscribeId
      have halias := VarInt.wire_length_le h.trackAlias
      have hgroup := VarInt.wire_length_le h.groupId
      have hsubgroup := VarInt.wire_length_le h.subgroupId
      simp only [wire, SubgroupHeader.wire, List.length_append, List.length_singleton]
      omega

theorem delimits_decode : Delimits decode := by
  apply U64.delimits_decode.bind
  intro t
  split
  · exact TrackHeader.delimits_decode.map _
  · exact SubgroupHeader.delimits_decode.map _
  · exact Delimits.fail _

end Header

/-- The status of an object, sent explicitly only for size zero. -/
def decodeStatus (size : Nat) : Decode ObjectStatus :=
  if size = 0 then ObjectStatus.decode else pure .object

def encodeStatus (size : Nat) (status : ObjectStatus) : Encode :=
  if size = 0 then status.encode else pure ()

def statusWire (size : Nat) (status : ObjectStatus) : Bytes :=
  if size = 0 then status.wire else []

theorem emits_status (size : Nat) (status : ObjectStatus) :
    Emits (encodeStatus size status) True (statusWire size status) := by
  unfold encodeStatus statusWire
  split
  · exact status.emits_encode
  · exact Emits.skip

theorem transfers_status {size : Nat} {status : ObjectStatus}
    (h : size ≠ 0 → status = .object) :
    Transfers (decodeStatus size) (statusWire size status) status := by
  unfold decodeStatus statusWire
  split
  · exact status.transfers_decode
  · next hsize =>
      rw [h hsize]
      exact Transfers.pure _

theorem statusWire_length_le (size : Nat) (status : ObjectStatus) :
    (statusWire size status).length ≤ 8 := by
  unfold statusWire
  split
  · exact VarInt.wire_length_le _
  · simp

theorem shrinks_decodeStatus (size : Nat) : Shrinks (decodeStatus size) 0 := by
  unfold decodeStatus
  split
  · intro r x rest h
    have hlt := ObjectStatus.shrinks_decode r x rest h
    omega
  · exact Shrinks.pure _

theorem delimits_decodeStatus (size : Nat) : Delimits (decodeStatus size) := by
  unfold decodeStatus
  split
  · exact ObjectStatus.delimits_decode
  · exact Delimits.pure _

structure TrackObject where
  groupId : Nat
  objectId : Nat
  size : Nat
  status : ObjectStatus
deriving DecidableEq

namespace TrackObject

def decode : Decode TrackObject := do
  let groupId ← U64.decode
  let objectId ← U64.decode
  let size ← Usize.decode
  let status ← decodeStatus size
  pure { groupId, objectId, size, status }

def encode (o : TrackObject) : Encode := do
  U64.encode o.groupId
  U64.encode o.objectId
  Usize.encode o.size
  encodeStatus o.size o.status

def Ok (o : TrackObject) : Prop :=
  fitsVarInt o.groupId ∧ fitsVarInt o.objectId ∧ fitsVarInt o.size

/-- A status other than `object` needs size zero. -/
def Canonical (o : TrackObject) : Prop := o.size ≠ 0 → o.status = .object

def wire (o : TrackObject) : Bytes :=
  VarInt.wire o.groupId ++ (VarInt.wire o.objectId ++ (VarInt.wire o.size ++
    statusWire o.size o.status))

theorem emits_encode (o : TrackObject) : Emits o.encode o.Ok o.wire := by
  refine Emits.congr (Emits.bind (U64.emits_encode _) (Emits.bind (U64.emits_encode _)
    (Emits.bind (U64.emits_encode _) (emits_status _ _)))) ?_ rfl
  simp only [Ok, and_true]

theorem transfers_decode {o : TrackObject} (hok : o.Ok) (hcanonical : o.Canonical) :
    Transfers decode o.wire o :=
  (U64.transfers_decode hok.1).bind ((U64.transfers_decode hok.2.1).bind
    ((U64.transfers_decode hok.2.2).bind ((transfers_status hcanonical).bind_pure _)))

theorem wire_length_le (o : TrackObject) : o.wire.length ≤ 32 := by
  have hgroup := VarInt.wire_length_le o.groupId
  have hobject := VarInt.wire_length_le o.objectId
  have hsize := VarInt.wire_length_le o.size
  have hstatus := statusWire_length_le o.size o.status
  simp only [wire, List.length_append]
  omega

/-- An object header takes up at least three bytes. -/
theorem shrinks_decode : Shrinks decode 3 :=
  U64.shrinks_decode.bind fun _ => U64.shrinks_decode.bind fun _ =>
    U64.shrinks_decode.bind fun _ => (shrinks_decodeStatus _).bind fun _ => Shrinks.pure _

theorem delimits_decode : Delimits decode :=
  U64.delimits_decode.bind fun _ => U64.delimits_decode.bind fun _ =>
    U64.delimits_decode.bind fun _ => (delimits_decodeStatus _).bind fun _ => Delimits.pure _

end TrackObject

structure SubgroupObject where
  objectId : Nat
  size : Nat
  status : ObjectStatus
deriving DecidableEq

namespace SubgroupObject

def decode : Decode SubgroupObject := do
  let objectId ← U64.decode
  let size ← Usize.decode
  let status ← decodeStatus size
  pure { objectId, size, status }

def encode (o : SubgroupObject) : Encode := do
  U64.encode o.objectId
  Usize.encode o.size
  encodeStatus o.size o.status

def Ok (o : SubgroupObject) : Prop := fitsVarInt o.objectId ∧ fitsVarInt o.size

/-- A status other than `object` needs size zero. -/
def Canonical (o : SubgroupObject) : Prop := o.size ≠ 0 → o.status = .object

def wire (o : SubgroupObject) : Bytes :=
  VarInt.wire o.objectId ++ (VarInt.wire o.size ++ statusWire o.size o.status)

theorem emits_encode (o : SubgroupObject) : Emits o.encode o.Ok o.wire := by
  refine Emits.congr (Emits.bind (U64.emits_encode _) (Emits.bind (U64.emits_encode _)
    (emits_status _ _))) ?_ rfl
  simp only [Ok, and_true]

theorem transfers_decode {o : SubgroupObject} (hok : o.Ok) (hcanonical : o.Canonical) :
    Transfers decode o.wire o :=
  (U64.transfers_decode hok.1).bind ((U64.transfers_decode hok.2).bind
    ((transfers_status hcanonical).bind_pure _))

theorem shrinks_decode : Shrinks decode 2 :=
  U64.shrinks_decode.bind fun _ => U64.shrinks_decode.bind fun _ =>
    (shrinks_decodeStatus _).bind fun _ => Shrinks.pure _

theorem wire_length_le (o : SubgroupObject) : o.wire.length ≤ 24 := by
  have hobject := VarInt.wire_length_le o.objectId
  have hsize := VarInt.wire_length_le o.size
  have hstatus := statusWire_length_le o.size o.status
  simp only [wire, List.length_append]
  omega

theorem delimits_decode : Delimits decode :=
  U64.delimits_decode.bind fun _ => U64.delimits_decode.bind fun _ =>
    (delimits_decodeStatus _).bind fun _ => Delimits.pure _

theorem wire_ne_nil (o : SubgroupObject) : o.wire ≠ [] := by
  intro hnil
  have hpos := VarInt.wire_length_pos o.objectId
  have hlen := congrArg List.length hnil
  simp only [wire, List.length_append, List.length_nil] at hlen
  omega

end SubgroupObject

/-- An object with its payload, as a subgroup stream carries it. -/
structure ObjectContent where
  objectId : Nat
  status : ObjectStatus
  payload : Bytes
deriving DecidableEq

namespace ObjectContent

def header (o : ObjectContent) : SubgroupObject := ⟨o.objectId, o.payload.length, o.status⟩

/-- The header fits the wire and keeps its status there. -/
def Ok (o : ObjectContent) : Prop := o.header.Ok ∧ o.header.Canonical

def wire (o : ObjectContent) : Bytes := o.header.wire ++ o.payload

/-- The bytes of a list of objects determine it. -/
theorem eq_of_flatMap_wire {as bs : List ObjectContent} (has : ∀ a ∈ as, a.Ok)
    (hbs : ∀ b ∈ bs, b.Ok) (h : as.flatMap wire = bs.flatMap wire) : as = bs := by
  have hne (o : ObjectContent) (rest : Bytes) : o.wire ++ rest ≠ [] := by
    simp [wire, o.header.wire_ne_nil]
  induction as generalizing bs with
  | nil =>
      cases bs with
      | nil => rfl
      | cons b bs => exact absurd h.symm (hne b _)
  | cons a as ih =>
      cases bs with
      | nil => exact absurd h (hne a _)
      | cons b bs =>
          rw [List.flatMap_cons, List.flatMap_cons, wire, wire, List.append_assoc,
            List.append_assoc] at h
          have ha := has a (by simp)
          have hb := hbs b (by simp)
          -- Both sides decode to their own header.
          have hread := (SubgroupObject.transfers_decode ha.1 ha.2).reads
            (a.payload ++ as.flatMap wire)
          rw [h] at hread
          obtain ⟨hheader, hrest⟩ :=
            (SubgroupObject.transfers_decode hb.1 hb.2).reads.unique hread
          have hlen : a.payload.length = b.payload.length := congrArg SubgroupObject.size hheader
          obtain ⟨hpayload, htail⟩ := List.append_inj hrest hlen
          have htails := ih (fun o ho => has o (by simp [ho])) (fun o ho => hbs o (by simp [ho]))
            htail
          have hid : a.objectId = b.objectId := congrArg SubgroupObject.objectId hheader
          have hstatus : a.status = b.status := congrArg SubgroupObject.status hheader
          obtain ⟨aid, astatus, apayload⟩ := a
          obtain ⟨bid, bstatus, bpayload⟩ := b
          obtain rfl : aid = bid := hid
          obtain rfl : astatus = bstatus := hstatus
          obtain rfl : apayload = bpayload := hpayload
          rw [htails]

end ObjectContent

/-- The bytes of a subgroup stream. -/
def streamWire (h : SubgroupHeader) (objects : List ObjectContent) : Bytes :=
  (Header.subgroup h).wire ++ objects.flatMap ObjectContent.wire

/-- The header of an object that travels without a stream header. -/
structure ObjectHeader where
  subscribeId : Nat
  trackAlias : Nat
  groupId : Nat
  objectId : Nat
  publisherPriority : UInt8
  objectStatus : ObjectStatus
deriving DecidableEq

namespace ObjectHeader

def decode : Decode ObjectHeader := do
  let subscribeId ← U64.decode
  let trackAlias ← U64.decode
  let groupId ← U64.decode
  let objectId ← U64.decode
  let publisherPriority ← U8.decode
  let objectStatus ← ObjectStatus.decode
  pure { subscribeId, trackAlias, groupId, objectId, publisherPriority, objectStatus }

def encode (h : ObjectHeader) : Encode := do
  U64.encode h.subscribeId
  U64.encode h.trackAlias
  U64.encode h.groupId
  U64.encode h.objectId
  U8.encode h.publisherPriority
  h.objectStatus.encode

def Ok (h : ObjectHeader) : Prop :=
  fitsVarInt h.subscribeId ∧ fitsVarInt h.trackAlias ∧ fitsVarInt h.groupId ∧
    fitsVarInt h.objectId

def wire (h : ObjectHeader) : Bytes :=
  VarInt.wire h.subscribeId ++ (VarInt.wire h.trackAlias ++ (VarInt.wire h.groupId ++
    (VarInt.wire h.objectId ++ ([h.publisherPriority] ++ h.objectStatus.wire))))

theorem emits_encode (h : ObjectHeader) : Emits h.encode h.Ok h.wire := by
  refine Emits.congr (Emits.bind (U64.emits_encode _) (Emits.bind (U64.emits_encode _)
    (Emits.bind (U64.emits_encode _) (Emits.bind (U64.emits_encode _)
    (Emits.bind (U8.emits_encode _) (ObjectStatus.emits_encode _)))))) ?_ rfl
  simp only [Ok, and_true]

theorem transfers_decode {h : ObjectHeader} (hok : h.Ok) : Transfers decode h.wire h :=
  (U64.transfers_decode hok.1).bind ((U64.transfers_decode hok.2.1).bind
    ((U64.transfers_decode hok.2.2.1).bind ((U64.transfers_decode hok.2.2.2).bind
    ((U8.transfers_decode _).bind (h.objectStatus.transfers_decode.bind_pure _)))))

theorem wire_length_le (h : ObjectHeader) : h.wire.length ≤ 41 := by
  have hsubscribe := VarInt.wire_length_le h.subscribeId
  have halias := VarInt.wire_length_le h.trackAlias
  have hgroup := VarInt.wire_length_le h.groupId
  have hobject := VarInt.wire_length_le h.objectId
  have hstatus := VarInt.wire_length_le h.objectStatus.code
  simp only [wire, ObjectStatus.wire, List.length_append, List.length_singleton]
  omega

end ObjectHeader

structure Datagram where
  subscribeId : Nat
  trackAlias : Nat
  groupId : Nat
  objectId : Nat
  publisherPriority : UInt8
  objectStatus : ObjectStatus
  payloadLen : Nat
  payload : Bytes
deriving DecidableEq

namespace Datagram

/-- The payload is everything left, and its announced length must agree. -/
def decode : Decode Datagram := do
  let subscribeId ← U64.decode
  let trackAlias ← U64.decode
  let groupId ← U64.decode
  let objectId ← U64.decode
  let publisherPriority ← U8.decode
  let objectStatus ← ObjectStatus.decode
  let payloadLen ← U64.decode
  let remain ← remaining
  if payloadLen ≠ remain then
    fail (.invalidLength payloadLen remain)
  else do
    let payload ← copyToSlice remain
    pure { subscribeId, trackAlias, groupId, objectId, publisherPriority, objectStatus,
           payloadLen, payload := payload.toList }

def encode (d : Datagram) : Encode := do
  U64.encode d.subscribeId
  U64.encode d.trackAlias
  U64.encode d.groupId
  U64.encode d.objectId
  U8.encode d.publisherPriority
  d.objectStatus.encode
  U64.encode d.payloadLen
  encodeRemaining d.payload.length
  put d.payload

def Ok (d : Datagram) : Prop :=
  fitsVarInt d.subscribeId ∧ fitsVarInt d.trackAlias ∧ fitsVarInt d.groupId ∧
    fitsVarInt d.objectId ∧ fitsVarInt d.payloadLen

/-- The fields in front of the payload. -/
def headWire (d : Datagram) : Bytes :=
  VarInt.wire d.subscribeId ++ (VarInt.wire d.trackAlias ++ (VarInt.wire d.groupId ++
    (VarInt.wire d.objectId ++ ([d.publisherPriority] ++ (d.objectStatus.wire ++
    VarInt.wire d.payloadLen)))))

def wire (d : Datagram) : Bytes := d.headWire ++ d.payload

theorem emits_encode (d : Datagram) : Emits d.encode d.Ok d.wire := by
  refine Emits.congr (Emits.bind (U64.emits_encode _) (Emits.bind (U64.emits_encode _)
    (Emits.bind (U64.emits_encode _) (Emits.bind (U64.emits_encode _)
    (Emits.bind (U8.emits_encode _) (Emits.bind (ObjectStatus.emits_encode _)
    (Emits.bind (U64.emits_encode _) ((emits_put d.payload).checked _ le_rfl)))))))) ?_ ?_
  · simp only [Ok, true_and, and_true]
  · simp only [wire, headWire, List.append_assoc]

theorem wire_length_le (d : Datagram) : d.wire.length ≤ 57 + d.payload.length := by
  have hsubscribe := VarInt.wire_length_le d.subscribeId
  have halias := VarInt.wire_length_le d.trackAlias
  have hgroup := VarInt.wire_length_le d.groupId
  have hobject := VarInt.wire_length_le d.objectId
  have hstatus := VarInt.wire_length_le d.objectStatus.code
  have hlen := VarInt.wire_length_le d.payloadLen
  simp only [wire, headWire, ObjectStatus.wire, List.length_append, List.length_singleton]
  omega

/-- The fields in front of the payload. -/
def decodeHead : Decode Datagram := do
  let subscribeId ← U64.decode
  let trackAlias ← U64.decode
  let groupId ← U64.decode
  let objectId ← U64.decode
  let publisherPriority ← U8.decode
  let objectStatus ← ObjectStatus.decode
  let payloadLen ← U64.decode
  pure { subscribeId, trackAlias, groupId, objectId, publisherPriority, objectStatus,
         payloadLen, payload := [] }

/-- The payload is copied only when it is all that is left. -/
def decodePayload (head : Datagram) : Decode Datagram := do
  let remain ← remaining
  if head.payloadLen ≠ remain then
    fail (.invalidLength head.payloadLen remain)
  else do
    let payload ← copyToSlice remain
    pure { head with payload := payload.toList }

theorem decode_eq : decode = (do let head ← decodeHead; decodePayload head) := by
  simp only [decode, decodeHead, decodePayload, bind_assoc, pure_bind]

theorem delimits_head : Delimits decodeHead :=
  U64.delimits_decode.bind fun _ => U64.delimits_decode.bind fun _ =>
    U64.delimits_decode.bind fun _ => U64.delimits_decode.bind fun _ =>
    U8.delimits_decode.bind fun _ => ObjectStatus.delimits_decode.bind fun _ =>
    U64.delimits_decode.bind fun _ => Delimits.pure _

theorem decodePayload_run (head : Datagram) (r : Bytes) :
    decodePayload head r =
      if head.payloadLen = r.length then .ok ({ head with payload := r }, [])
      else .error (.err (.invalidLength head.payloadLen r.length)) := by
  unfold decodePayload
  rw [bind_ok (remaining_eq r)]
  by_cases hlen : head.payloadLen = r.length
  · have hcopy := reads_copyToSlice (ε := DecodeError) r r.length rfl []
    rw [List.append_nil] at hcopy
    rw [if_neg (not_not.mpr hlen), if_pos hlen, bind_ok hcopy]
    rfl
  · rw [if_pos hlen, if_neg hlen]
    rfl

theorem transfers_head {d : Datagram} (hok : d.Ok) :
    Transfers decodeHead d.headWire { d with payload := [] } := by
  obtain ⟨hsubscribe, halias, hgroup, hobject, hpayload⟩ := hok
  exact (U64.transfers_decode hsubscribe).bind ((U64.transfers_decode halias).bind
    ((U64.transfers_decode hgroup).bind ((U64.transfers_decode hobject).bind
    ((U8.transfers_decode _).bind (d.objectStatus.transfers_decode.bind
    ((U64.transfers_decode hpayload).bind_pure _))))))

/-- Everything in front of the payload is read; what the decoder then does
depends only on whether the rest has the announced length. -/
theorem decode_headWire {d : Datagram} (hok : d.Ok) (payload : Bytes) :
    decode (d.headWire ++ payload) =
      if d.payloadLen = payload.length then
        .ok ({ d with payload := payload }, [])
      else
        .error (.err (.invalidLength d.payloadLen payload.length)) := by
  rw [decode_eq, bind_ok ((transfers_head hok).reads payload), decodePayload_run]

/-- A datagram is its own frame: nothing may follow the payload. -/
theorem decode_wire {d : Datagram} (hok : d.Ok) (hlen : d.payloadLen = d.payload.length) :
    decode d.wire = .ok (d, []) := by
  rw [wire, decode_headWire hok, if_pos hlen]

end Datagram

/-- A value that the codec carries over a stream: it encodes, the bytes
followed by anything give it back and leave what followed, and every strict
prefix of them asks for at least one and at most the missing bytes. -/
def Carried {α : Type} (encode : Encode) (decode : Decode α) (v : α) : Prop :=
  ∃ out, encode bytesMut = .ok ((), out) ∧
    (∀ s, decode (out.bytes ++ s) = .ok (v, s)) ∧
    ∀ front back, front ++ back = out.bytes → back ≠ [] →
      ∃ n, 1 ≤ n ∧ n ≤ back.length ∧ decode front = .error (.err (.more n))

theorem carried {α : Type} {encode : Encode} {decode : Decode α} {ok : Prop} {bs : Bytes} {v : α}
    (hemits : Emits encode ok bs) (hok : ok) (hlen : bs.length ≤ 50)
    (htransfers : Transfers decode bs v) : Carried encode decode v := by
  have hroom : bs.length ≤ bytesMut.remainingMut := by
    simp only [bytesMut, BufMut.remainingMut, List.length_nil]
    omega
  exact ⟨bytesMut.push bs, hemits.writes hok hroom, htransfers.reads, htransfers.asks⟩

/-- The data plane: stream headers and object headers are carried, and a
datagram is read back from exactly its own bytes. A datagram whose payload
has grown or shrunk on the way is refused. -/
theorem data_plane_codec :
    (∀ h : Header, h.Ok → Carried h.encode Header.decode h) ∧
    (∀ o : TrackObject, o.Ok → o.Canonical → Carried o.encode TrackObject.decode o) ∧
    (∀ o : SubgroupObject, o.Ok → o.Canonical → Carried o.encode SubgroupObject.decode o) ∧
    (∀ h : ObjectHeader, h.Ok → Carried h.encode ObjectHeader.decode h) ∧
    ∀ d : Datagram, d.payloadLen = d.payload.length →
      (d.Ok → ∃ out, d.encode bytesMut = .ok ((), out)) ∧
      ∀ out, d.encode bytesMut = .ok ((), out) →
        Datagram.decode out.bytes = .ok (d, []) ∧
        ∃ head, out.bytes = head ++ d.payload ∧
          ∀ payload : Bytes, payload.length ≠ d.payload.length →
            Datagram.decode (head ++ payload) =
              .error (.err (.invalidLength d.payload.length payload.length)) := by
  refine ⟨?_, ?_, ?_, ?_, ?_⟩
  · intro h hok
    exact carried h.emits_encode hok h.wire_length_le (Header.transfers_decode hok)
  · intro o hok hcanonical
    have hlen := o.wire_length_le
    exact carried o.emits_encode hok (by omega) (TrackObject.transfers_decode hok hcanonical)
  · intro o hok hcanonical
    have hlen := o.wire_length_le
    exact carried o.emits_encode hok (by omega) (SubgroupObject.transfers_decode hok hcanonical)
  · intro h hok
    have hlen := h.wire_length_le
    exact carried h.emits_encode hok (by omega) (ObjectHeader.transfers_decode hok)
  · intro d hpayload
    constructor
    · intro hok
      have hlen := d.wire_length_le
      have hfits : d.payloadLen < 2 ^ 62 := hok.2.2.2.2
      have hroom : d.wire.length ≤ bytesMut.remainingMut := by
        simp only [bytesMut, BufMut.remainingMut, List.length_nil]
        omega
      exact ⟨_, d.emits_encode.writes hok hroom⟩
    · intro out hout
      obtain ⟨hok, -, rfl⟩ := (d.emits_encode.iff _ _).mp hout
      refine ⟨Datagram.decode_wire hok hpayload, d.headWire, rfl, ?_⟩
      intro payload hne
      rw [Datagram.decode_headWire hok, if_neg (by omega), hpayload]

/-- A datagram with two bytes of payload. -/
def twoByteDatagram : Datagram :=
  { subscribeId := 1, trackAlias := 2, groupId := 3, objectId := 4, publisherPriority := 127
    objectStatus := .object, payloadLen := 2, payload := [10, 11] }

theorem data_plane_codec_samples :
    Carried (Header.track ⟨1, 2, 127⟩).encode Header.decode (.track ⟨1, 2, 127⟩) ∧
      Carried (⟨3, 4, 9, .object⟩ : TrackObject).encode TrackObject.decode ⟨3, 4, 9, .object⟩ ∧
      Carried (⟨5, 0, .endOfGroup⟩ : SubgroupObject).encode SubgroupObject.decode
        ⟨5, 0, .endOfGroup⟩ ∧
      Carried (⟨1, 2, 3, 4, 127, .endOfTrack⟩ : ObjectHeader).encode ObjectHeader.decode
        ⟨1, 2, 3, 4, 127, .endOfTrack⟩ ∧
      ∃ out, twoByteDatagram.encode bytesMut = .ok ((), out) := by
  obtain ⟨header, track, subgroup, object, datagram⟩ := data_plane_codec
  refine ⟨header _ ⟨by decide, by decide⟩, track _ ⟨by decide, by decide, by decide⟩ ?_,
    subgroup _ ⟨by decide, by decide⟩ ?_, object _ ⟨by decide, by decide, by decide, by decide⟩,
    (datagram twoByteDatagram rfl).1 ⟨by decide, by decide, by decide, by decide, by decide⟩⟩
  · intro _
    rfl
  · intro hsize
    exact absurd rfl hsize

end MoqTransport.Data
