import MoqTransport.Message.Announce
import MoqTransport.Message.Fetch
import MoqTransport.Message.Subscribe

/-!
The control message: a type, a length and a body. The encoder writes the body
to a buffer first to learn its length and unwraps the result; the decoder
reads the length and ignores it.

`round_trip` is the contract of the control stream for one message. The
values it covers are those with `Ok` (everything fits a varint, absolute
filters have both pairs) and `Canonical` (what a decoder can return); a
message with an absolute start is never both.
-/

namespace MoqTransport

open Streaming Coding

namespace Message

/-- Encode into a fresh `Vec` and unwrap. -/
def unwrapVec (body : Encode) : Encoder EncodeError Bytes := fun w =>
  match body vec with
  | .ok ((), buf) => .ok (buf.bytes, w)
  | .error _ => .error .panic

theorem emits_unwrapVec {body : Encode} {f : Bytes → Encode} {p q : Prop} {bs cs : Bytes}
    (hbody : Emits body p bs) (hf : Emits (f bs) q cs) :
    Emits (unwrapVec body >>= f) ((p ∧ bs.length ≤ vec.remainingMut) ∧ q) cs := by
  constructor
  intro w w'
  change (unwrapVec body w >>= fun pair => f pair.1 pair.2) = _ ↔ _
  by_cases hok : p ∧ bs.length ≤ vec.remainingMut
  · have hrun : unwrapVec body w = .ok (bs, w) := by
      simp only [unwrapVec, hbody.writes hok.1 hok.2]
      simp [vec, BufMut.push]
    rw [hrun]
    exact (hf.iff w w').trans (by simp [hok])
  · have hrun : unwrapVec body w = .error .panic := by
      unfold unwrapVec
      cases hvec : body vec with
      | error fault => rfl
      | ok out =>
          obtain ⟨⟨⟩, buf⟩ := out
          obtain ⟨hp, hroom, -⟩ := (hbody.iff vec buf).mp hvec
          exact absurd ⟨hp, hroom⟩ hok
    rw [hrun]
    constructor
    · intro h
      cases h
    · rintro ⟨h, -⟩
      exact absurd h.1 hok

end Message

/-- All supported message types. -/
inductive Message where
  | subscribeUpdate (m : Message.SubscribeUpdate)
  | subscribe (m : Message.Subscribe)
  | unsubscribe (m : Message.Unsubscribe)
  | subscribeOk (m : Message.SubscribeOk)
  | subscribeError (m : Message.SubscribeError)
  | subscribeDone (m : Message.SubscribeDone)
  | maxSubscribeId (m : Message.MaxSubscribeId)
  | announce (m : Message.Announce)
  | unannounce (m : Message.Unannounce)
  | announceOk (m : Message.AnnounceOk)
  | announceError (m : Message.AnnounceError)
  | announceCancel (m : Message.AnnounceCancel)
  | trackStatusRequest (m : Message.TrackStatusRequest)
  | trackStatus (m : Message.TrackStatus)
  | goAway (m : Message.GoAway)
  | subscribeNamespace (m : Message.SubscribeNamespace)
  | subscribeNamespaceOk (m : Message.SubscribeNamespaceOk)
  | subscribeNamespaceError (m : Message.SubscribeNamespaceError)
  | unsubscribeNamespace (m : Message.UnsubscribeNamespace)
  | fetch (m : Message.Fetch)
  | fetchCancel (m : Message.FetchCancel)
  | fetchOk (m : Message.FetchOk)
  | fetchError (m : Message.FetchError)
deriving DecidableEq

namespace Message

/-- Each message is prefixed with its varint type. -/
def id : Message → Nat
  | .subscribeUpdate _ => 0x2
  | .subscribe _ => 0x3
  | .unsubscribe _ => 0xa
  | .subscribeOk _ => 0x4
  | .subscribeError _ => 0x5
  | .subscribeDone _ => 0xb
  | .maxSubscribeId _ => 0x15
  | .announce _ => 0x6
  | .unannounce _ => 0x9
  | .announceOk _ => 0x7
  | .announceError _ => 0x8
  | .announceCancel _ => 0xc
  | .trackStatusRequest _ => 0xd
  | .trackStatus _ => 0xe
  | .goAway _ => 0x10
  | .subscribeNamespace _ => 0x11
  | .subscribeNamespaceOk _ => 0x12
  | .subscribeNamespaceError _ => 0x13
  | .unsubscribeNamespace _ => 0x14
  | .fetch _ => 0x16
  | .fetchCancel _ => 0x17
  | .fetchOk _ => 0x18
  | .fetchError _ => 0x19

def encodeBody (ord : IterOrder) : Message → Encode
  | .subscribeUpdate m => m.encode ord
  | .subscribe m => m.encode ord
  | .unsubscribe m => m.encode
  | .subscribeOk m => m.encode
  | .subscribeError m => m.encode
  | .subscribeDone m => m.encode
  | .maxSubscribeId m => m.encode
  | .announce m => m.encode ord
  | .unannounce m => m.encode
  | .announceOk m => m.encode
  | .announceError m => m.encode
  | .announceCancel m => m.encode
  | .trackStatusRequest m => m.encode
  | .trackStatus m => m.encode
  | .goAway m => m.encode
  | .subscribeNamespace m => m.encode ord
  | .subscribeNamespaceOk m => m.encode
  | .subscribeNamespaceError m => m.encode
  | .unsubscribeNamespace m => m.encode
  | .fetch m => m.encode ord
  | .fetchCancel m => m.encode
  | .fetchOk m => m.encode ord
  | .fetchError m => m.encode

def encode (ord : IterOrder) (m : Message) : Encode := do
  U64.encode m.id
  let buf ← unwrapVec (m.encodeBody ord)
  U64.encode buf.length
  put buf

def decodeBody (t : Nat) : Decode Message :=
  match t with
  | 0x2 => .subscribeUpdate <$> SubscribeUpdate.decode
  | 0x3 => .subscribe <$> Subscribe.decode
  | 0xa => .unsubscribe <$> Unsubscribe.decode
  | 0x4 => .subscribeOk <$> SubscribeOk.decode
  | 0x5 => .subscribeError <$> SubscribeError.decode
  | 0xb => .subscribeDone <$> SubscribeDone.decode
  | 0x15 => .maxSubscribeId <$> MaxSubscribeId.decode
  | 0x6 => .announce <$> Announce.decode
  | 0x9 => .unannounce <$> Unannounce.decode
  | 0x7 => .announceOk <$> AnnounceOk.decode
  | 0x8 => .announceError <$> AnnounceError.decode
  | 0xc => .announceCancel <$> AnnounceCancel.decode
  | 0xd => .trackStatusRequest <$> TrackStatusRequest.decode
  | 0xe => .trackStatus <$> TrackStatus.decode
  | 0x10 => .goAway <$> GoAway.decode
  | 0x11 => .subscribeNamespace <$> SubscribeNamespace.decode
  | 0x12 => .subscribeNamespaceOk <$> SubscribeNamespaceOk.decode
  | 0x13 => .subscribeNamespaceError <$> SubscribeNamespaceError.decode
  | 0x14 => .unsubscribeNamespace <$> UnsubscribeNamespace.decode
  | 0x16 => .fetch <$> Fetch.decode
  | 0x17 => .fetchCancel <$> FetchCancel.decode
  | 0x18 => .fetchOk <$> FetchOk.decode
  | 0x19 => .fetchError <$> FetchError.decode
  | _ => fail (.invalidMessage t)

def decode : Decode Message := do
  let t ← U64.decode
  -- The length of the message is not checked.
  let _len ← U64.decode
  decodeBody t

/-- The body encoder succeeds. -/
def bodyOk : Message → Prop
  | .subscribeUpdate m => m.toSubscribe.Ok
  | .subscribe m => m.Ok
  | .unsubscribe m => fitsVarInt m.id
  | .subscribeOk m => m.Ok
  | .subscribeError m => m.Ok
  | .subscribeDone m => m.Ok
  | .maxSubscribeId m => fitsVarInt m.id
  | .announce m => m.Ok
  | .unannounce m => m.namespace_.Ok
  | .announceOk m => m.namespace_.Ok
  | .announceError m => m.Ok
  | .announceCancel m => m.Ok
  | .trackStatusRequest m => m.Ok
  | .trackStatus m => m.Ok
  | .goAway m => Str.Ok m.url
  | .subscribeNamespace m => m.Ok
  | .subscribeNamespaceOk m => m.namespacePrefix.Ok
  | .subscribeNamespaceError m => m.Ok
  | .unsubscribeNamespace m => m.namespacePrefix.Ok
  | .fetch m => m.Ok
  | .fetchCancel m => fitsVarInt m.id
  | .fetchOk m => m.Ok
  | .fetchError m => m.Ok

def bodyWire (ord : IterOrder) : Message → Bytes
  | .subscribeUpdate m => m.toSubscribe.wire ord
  | .subscribe m => m.wire ord
  | .unsubscribe m => VarInt.wire m.id
  | .subscribeOk m => m.wire
  | .subscribeError m => m.wire
  | .subscribeDone m => m.wire
  | .maxSubscribeId m => VarInt.wire m.id
  | .announce m => m.wire ord
  | .unannounce m => m.namespace_.wire
  | .announceOk m => m.namespace_.wire
  | .announceError m => m.wire
  | .announceCancel m => m.wire
  | .trackStatusRequest m => m.wire
  | .trackStatus m => m.wire
  | .goAway m => Str.wire m.url
  | .subscribeNamespace m => m.wire ord
  | .subscribeNamespaceOk m => m.namespacePrefix.wire
  | .subscribeNamespaceError m => m.wire
  | .unsubscribeNamespace m => m.namespacePrefix.wire
  | .fetch m => m.wire ord
  | .fetchCancel m => VarInt.wire m.id
  | .fetchOk m => m.wire ord
  | .fetchError m => m.wire

/-- Every integer and every encoded length fits a varint, and the fields the
encoder insists on are present. -/
def Ok (ord : IterOrder) (m : Message) : Prop :=
  m.bodyOk ∧ fitsVarInt (m.bodyWire ord).length

def frameWire (ord : IterOrder) (m : Message) : Bytes :=
  VarInt.wire m.id ++ VarInt.wire (m.bodyWire ord).length

def wire (ord : IterOrder) (m : Message) : Bytes := m.frameWire ord ++ m.bodyWire ord

/-- What a decoder can return. -/
def Canonical : Message → Prop
  | .subscribeUpdate m => m.toSubscribe.Canonical
  | .subscribe m => m.Canonical
  | .subscribeOk m => m.Canonical
  | _ => True

/-- The filter of a SUBSCRIBE or SUBSCRIBE_UPDATE. -/
def filter? : Message → Option FilterType
  | .subscribeUpdate m => some m.filterType
  | .subscribe m => some m.filterType
  | _ => none

theorem id_fits (m : Message) : fitsVarInt m.id := by
  cases m <;> simp [id]

theorem emits_body (ord : IterOrder) (m : Message) :
    Emits (m.encodeBody ord) m.bodyOk (m.bodyWire ord) := by
  cases m with
  | subscribeUpdate m => exact Subscribe.emits_encode ord _
  | subscribe m => exact Subscribe.emits_encode ord m
  | unsubscribe m => exact U64.emits_encode _
  | subscribeOk m => exact SubscribeOk.emits_encode m
  | subscribeError m => exact SubscribeError.emits_encode m
  | subscribeDone m => exact SubscribeDone.emits_encode m
  | maxSubscribeId m => exact U64.emits_encode _
  | announce m => exact emits_offer ord _ _
  | unannounce m => exact Tuple.emits_encode _
  | announceOk m => exact Tuple.emits_encode _
  | announceError m => exact emits_rejection _ _ _
  | announceCancel m => exact emits_rejection _ _ _
  | trackStatusRequest m => exact TrackStatusRequest.emits_encode m
  | trackStatus m => exact TrackStatus.emits_encode m
  | goAway m => exact Str.emits_encode _
  | subscribeNamespace m => exact emits_offer ord _ _
  | subscribeNamespaceOk m => exact Tuple.emits_encode _
  | subscribeNamespaceError m => exact emits_rejection _ _ _
  | unsubscribeNamespace m => exact Tuple.emits_encode _
  | fetch m => exact Fetch.emits_encode ord m
  | fetchCancel m => exact U64.emits_encode _
  | fetchOk m => exact FetchOk.emits_encode ord m
  | fetchError m => exact FetchError.emits_encode m

/-- The encoder succeeds exactly on the messages with `Ok`, into any writer
with room, and never panics on one of them. -/
theorem emits_encode (ord : IterOrder) (m : Message) :
    Emits (m.encode ord) (m.Ok ord) (m.wire ord) := by
  have hframe : Emits (do U64.encode (m.bodyWire ord).length; put (m.bodyWire ord))
      (fitsVarInt (m.bodyWire ord).length)
      (VarInt.wire (m.bodyWire ord).length ++ m.bodyWire ord) :=
    ((U64.emits_encode _).bind (emits_put _)).congr (by simp) rfl
  refine ((U64.emits_encode m.id).bind (emits_unwrapVec (emits_body ord m) hframe)).congr ?_ ?_
  · have hroom : fitsVarInt (m.bodyWire ord).length →
        (m.bodyWire ord).length ≤ vec.remainingMut := by
      intro h
      simp only [vec, BufMut.remainingMut, List.length_nil]
      omega
    simp only [Ok, m.id_fits, true_and]
    tauto
  · simp only [wire, frameWire, List.append_assoc]

theorem transfers_body (ord : IterOrder) {m : Message} (h : m.bodyOk) (hcanonical : m.Canonical)
    (hfilter : m.filter? ≠ some .absoluteStart ∧ m.filter? ≠ some .absoluteRange) :
    Transfers (decodeBody m.id) (m.bodyWire ord) m := by
  cases m with
  | subscribeUpdate m =>
      have hfilter : m.filterType ≠ .absoluteStart ∧ m.filterType ≠ .absoluteRange := by
        simpa [filter?] using hfilter
      exact ((Subscribe.transfers_decode ord h hcanonical hfilter).map SubscribeUpdate.mk).map _
  | subscribe m =>
      have hfilter : m.filterType ≠ .absoluteStart ∧ m.filterType ≠ .absoluteRange := by
        simpa [filter?] using hfilter
      exact (Subscribe.transfers_decode ord h hcanonical hfilter).map _
  | unsubscribe m => exact ((U64.transfers_decode h).map Unsubscribe.mk).map _
  | subscribeOk m => exact (SubscribeOk.transfers_decode h hcanonical).map _
  | subscribeError m => exact (SubscribeError.transfers_decode h).map _
  | subscribeDone m => exact (SubscribeDone.transfers_decode h).map _
  | maxSubscribeId m => exact ((U64.transfers_decode h).map MaxSubscribeId.mk).map _
  | announce m => exact (transfers_offer Announce.mk ord h).map _
  | unannounce m => exact ((Tuple.transfers_decode h).map Unannounce.mk).map _
  | announceOk m => exact ((Tuple.transfers_decode h).map AnnounceOk.mk).map _
  | announceError m => exact (transfers_rejection AnnounceError.mk h).map _
  | announceCancel m => exact (transfers_rejection AnnounceCancel.mk h).map _
  | trackStatusRequest m => exact (TrackStatusRequest.transfers_decode h).map _
  | trackStatus m => exact (TrackStatus.transfers_decode h).map _
  | goAway m => exact ((Str.transfers_decode h).map GoAway.mk).map _
  | subscribeNamespace m => exact (transfers_offer SubscribeNamespace.mk ord h).map _
  | subscribeNamespaceOk m => exact ((Tuple.transfers_decode h).map SubscribeNamespaceOk.mk).map _
  | subscribeNamespaceError m => exact (transfers_rejection SubscribeNamespaceError.mk h).map _
  | unsubscribeNamespace m => exact ((Tuple.transfers_decode h).map UnsubscribeNamespace.mk).map _
  | fetch m => exact (Fetch.transfers_decode ord h).map _
  | fetchCancel m => exact ((U64.transfers_decode h).map FetchCancel.mk).map _
  | fetchOk m => exact (FetchOk.transfers_decode ord h).map _
  | fetchError m => exact (FetchError.transfers_decode h).map _

theorem reads_body (ord : IterOrder) {m : Message} (h : m.bodyOk) (hcanonical : m.Canonical)
    (hfilter : m.filter? ≠ some .absoluteStart) :
    Reads (decodeBody m.id) (m.bodyWire ord) m := by
  by_cases hrange : m.filter? = some .absoluteRange
  · cases m with
    | subscribeUpdate m =>
        have hfilter : m.filterType ≠ .absoluteStart := by simpa [filter?] using hfilter
        exact ((Subscribe.reads_decode ord h hcanonical hfilter).map SubscribeUpdate.mk).map _
    | subscribe m =>
        have hfilter : m.filterType ≠ .absoluteStart := by simpa [filter?] using hfilter
        exact (Subscribe.reads_decode ord h hcanonical hfilter).map _
    | _ => cases hrange
  · exact (transfers_body ord h hcanonical ⟨hfilter, hrange⟩).reads

/-- The type and the length are read before any body. -/
theorem transfers_frame (ord : IterOrder) {m : Message} (h : m.Ok ord) {f : Nat → Decode Message}
    {bs : Bytes} {x : Message} (hbody : Transfers (f m.id) bs x) :
    Transfers (do let t ← U64.decode; let _len ← U64.decode; f t) (m.frameWire ord ++ bs) x := by
  rw [frameWire, List.append_assoc]
  exact (U64.transfers_decode m.id_fits).bind ((U64.transfers_decode h.2).bind hbody)

theorem decode_frame (ord : IterOrder) {m : Message} (h : m.Ok ord) (rest : Bytes) :
    decode (m.frameWire ord ++ rest) = decodeBody m.id rest := by
  unfold decode
  rw [frameWire, List.append_assoc, bind_ok ((U64.transfers_decode m.id_fits).reads _),
    bind_ok ((U64.transfers_decode h.2).reads _)]

/-- A message without an absolute filter may be decoded from a growing
buffer. -/
theorem transfers_decode (ord : IterOrder) {m : Message} (h : m.Ok ord) (hcanonical : m.Canonical)
    (hfilter : m.filter? ≠ some .absoluteStart ∧ m.filter? ≠ some .absoluteRange) :
    Transfers decode (m.wire ord) m :=
  transfers_frame ord h (transfers_body ord h.1 hcanonical hfilter)

theorem reads_decode (ord : IterOrder) {m : Message} (h : m.Ok ord) (hcanonical : m.Canonical)
    (hfilter : m.filter? ≠ some .absoluteStart) : Reads decode (m.wire ord) m := by
  intro rest
  rw [wire, List.append_assoc, decode_frame ord h]
  exact reads_body ord h.1 hcanonical hfilter rest

theorem canonical_of_decode {m : Message} {r rest : Bytes} (h : decode r = .ok (m, rest)) :
    m.Canonical := by
  obtain ⟨t, _, -, h⟩ := bind_eq_ok h
  obtain ⟨len, _, -, h⟩ := bind_eq_ok h
  unfold decodeBody at h
  split at h
  · obtain ⟨update, hupdate, rfl⟩ := map_eq_ok h
    obtain ⟨body, hbody, rfl⟩ := map_eq_ok hupdate
    exact Subscribe.canonical_of_decode hbody
  · obtain ⟨body, hbody, rfl⟩ := map_eq_ok h
    exact Subscribe.canonical_of_decode hbody
  · obtain ⟨body, -, rfl⟩ := map_eq_ok h
    trivial
  · obtain ⟨body, hbody, rfl⟩ := map_eq_ok h
    exact SubscribeOk.canonical_of_decode hbody
  all_goals first
    | (obtain ⟨body, -, rfl⟩ := map_eq_ok h; trivial)
    | cases h

/-- What the decoder returns for an absolute start has no end, and the encoder
insists on one. -/
theorem not_ok_of_absoluteStart {m : Subscribe} (hcanonical : m.Canonical)
    (hfilter : m.filterType = .absoluteStart) : ¬ m.Ok := by
  intro hok
  have hrange := hok.2.2.2.2.1
  unfold Subscribe.Canonical at hcanonical
  rw [hfilter] at hrange hcanonical
  obtain ⟨_, _, -, hsome, -⟩ := hrange
  obtain ⟨_, -, hnone, -⟩ := hcanonical
  rw [hsome] at hnone
  cases hnone

/-- So a message with an absolute start is never both. -/
theorem filter_ne_absoluteStart (ord : IterOrder) {m : Message} (h : m.Ok ord)
    (hcanonical : m.Canonical) : m.filter? ≠ some .absoluteStart := by
  cases m with
  | subscribeUpdate m =>
      simp only [filter?, ne_eq, Option.some.injEq]
      exact fun hfilter => not_ok_of_absoluteStart hcanonical hfilter h.1
  | subscribe m =>
      simp only [filter?, ne_eq, Option.some.injEq]
      exact fun hfilter => not_ok_of_absoluteStart hcanonical hfilter h.1
  | _ => simp [filter?]

theorem wire_length (ord : IterOrder) {m : Message} (h : m.Ok ord) :
    (m.wire ord).length ≤ bytesMut.remainingMut := by
  have hid := VarInt.wire_length_le m.id
  have hlen := VarInt.wire_length_le (m.bodyWire ord).length
  have hbody : (m.bodyWire ord).length < 2 ^ 62 := h.2
  simp only [wire, frameWire, List.length_append, bytesMut, BufMut.remainingMut, List.length_nil]
  omega

/-- Every message of every type, with its integers and lengths in range and
its optional fields as a decoder would return them, is encoded without a
panic, and decoding the bytes followed by anything gives it back and leaves
what followed, for every iteration order of the parameter map. -/
theorem round_trip (ord : IterOrder) (m : Message) (hok : m.Ok ord) (hcanonical : m.Canonical) :
    ∃ out, m.encode ord bytesMut = .ok ((), out) ∧
      ∀ rest, decode (out.bytes ++ rest) = .ok (m, rest) := by
  refine ⟨bytesMut.push (m.wire ord), (emits_encode ord m).writes hok (wire_length ord hok), ?_⟩
  exact reads_decode ord hok hcanonical (filter_ne_absoluteStart ord hok hcanonical)

/-- A SUBSCRIBE for a range of the track, with no parameters. -/
def rangeSubscribe : Message :=
  .subscribe {
    id := 7, trackAlias := 7, trackNamespace := ⟨[⟨[108, 105, 118, 101]⟩]⟩, trackName := "cam"
    subscriberPriority := 127, groupOrder := .publisher, filterType := .absoluteRange
    start := some ⟨.absolute 3, .absolute 0⟩, end_ := some ⟨.absolute 9, .none⟩, params := ∅ }

theorem rangeSubscribe_ok (ord : IterOrder) : rangeSubscribe.Ok ord := by
  have hentries : (∅ : Params).entries = 0 := rfl
  have hlist : ord.list ∅ = [] := (Multiset.coe_eq_zero _).mp (ord.entries ∅)
  have hname : Str.Ok "cam" := by
    unfold Str.Ok
    decide
  have hpairs : (⟨.absolute 3, .absolute 0⟩ : SubscribePair).Ok ∧
      (⟨.absolute 9, .none⟩ : SubscribePair).Ok := by
    simp [SubscribePair.Ok, SubscribeLocation.Ok]
  have hparams : (∅ : Params).Ok := by
    simp [Params.Ok, hentries]
  refine ⟨⟨by decide, by decide, ⟨by decide, by simp⟩, hname, ?_, hparams⟩, ?_⟩
  · exact ⟨_, _, rfl, rfl, hpairs⟩
  · simp only [bodyWire, rangeSubscribe, Subscribe.wire, Params.wire, hlist]
    decide

theorem rangeSubscribe_canonical : rangeSubscribe.Canonical :=
  ⟨_, _, rfl, rfl, by decide, by decide⟩

/-- Entries in whatever order the multiset of entries is listed in. -/
noncomputable def anyOrder : IterOrder :=
  ⟨fun params => params.entries.toList, fun params => Multiset.coe_toList params.entries⟩

theorem round_trip_rangeSubscribe :
    ∃ out, rangeSubscribe.encode anyOrder bytesMut = .ok ((), out) ∧
      ∀ rest, decode (out.bytes ++ rest) = .ok (rangeSubscribe, rest) :=
  round_trip anyOrder rangeSubscribe (rangeSubscribe_ok anyOrder) rangeSubscribe_canonical

/-- A body that does not encode takes the whole encoder down: its error is
unwrapped, not returned. -/
theorem encode_panics (ord : IterOrder) {m : Message} (h : ¬ m.bodyOk) :
    m.encode ord bytesMut = .error .panic := by
  have hroom : (VarInt.wire m.id).length ≤ bytesMut.remainingMut := by
    have hid := VarInt.wire_length_le m.id
    simp only [bytesMut, BufMut.remainingMut, List.length_nil]
    omega
  have hunwrap (w : BufMut) : unwrapVec (m.encodeBody ord) w = .error .panic := by
    obtain ⟨fault, hfault⟩ := (emits_body ord m).fails h vec
    unfold unwrapVec
    rw [hfault]
  unfold encode
  rw [bind_ok ((U64.emits_encode m.id).writes m.id_fits hroom)]
  exact bind_error (hunwrap _)

/-- The start is all that is read back of an absolute start: its end is taken
for the parameters. -/
theorem end_ne_of_absoluteStart (ord : IterOrder) {m m' : Subscribe} {limit : Nat} {out : BufMut}
    {rest : Bytes} (hfilter : m.filterType = .absoluteStart)
    (hencode : m.encode ord ⟨[], limit⟩ = .ok ((), out))
    (hdecode : Subscribe.decode out.bytes = .ok (m', rest)) : m'.end_ ≠ m.end_ := by
  obtain ⟨hok, -, rfl⟩ := ((Subscribe.emits_encode ord m).iff _ _).mp hencode
  have hrange := hok.2.2.2.2.1
  rw [hfilter] at hrange
  obtain ⟨first, last, -, hend, -⟩ := hrange
  have hkept : m'.filterType = m.filterType := by
    unfold Subscribe.decode at hdecode
    rw [BufMut.push, List.nil_append, Subscribe.wire, List.append_assoc,
      bind_ok ((Subscribe.transfers_head hok).reads _)] at hdecode
    obtain ⟨range, _, -, hdecode⟩ := bind_eq_ok hdecode
    obtain ⟨⟨⟩, _, -, hdecode⟩ := bind_eq_ok hdecode
    obtain ⟨⟨⟩, _, -, hdecode⟩ := bind_eq_ok hdecode
    obtain ⟨params, _, -, hdecode⟩ := bind_eq_ok hdecode
    cases hdecode
    rfl
  have hcanonical := Subscribe.canonical_of_decode hdecode
  unfold Subscribe.Canonical at hcanonical
  rw [hkept, hfilter] at hcanonical
  obtain ⟨_, -, hnone, -⟩ := hcanonical
  rw [hnone, hend]
  exact (Option.some_ne_none last).symm

/-- No subscription with an absolute start survives the codec. One that was
decoded panics when it is encoded again; one that encodes is not read back
with its start, end and parameters. -/
theorem absoluteStart_never_relayed (ord : IterOrder) :
    (∀ r m rest, Subscribe.decode r = .ok (m, rest) → m.filterType = .absoluteStart →
      (Message.subscribe m).encode ord bytesMut = .error .panic) ∧
    (∀ r m rest, SubscribeUpdate.decode r = .ok (m, rest) → m.filterType = .absoluteStart →
      (Message.subscribeUpdate m).encode ord bytesMut = .error .panic) ∧
    (∀ (m : Subscribe) limit out, m.filterType = .absoluteStart →
      m.encode ord ⟨[], limit⟩ = .ok ((), out) →
      ¬ ∃ m', Subscribe.decode out.bytes = .ok (m', []) ∧ m'.start = m.start ∧
        m'.end_ = m.end_ ∧ m'.params = m.params) ∧
    (∀ (m : SubscribeUpdate) limit out, m.filterType = .absoluteStart →
      m.encode ord ⟨[], limit⟩ = .ok ((), out) →
      ¬ ∃ m', SubscribeUpdate.decode out.bytes = .ok (m', []) ∧ m'.start = m.start ∧
        m'.end_ = m.end_ ∧ m'.params = m.params) := by
  refine ⟨?_, ?_, ?_, ?_⟩
  · intro r m rest hdecode hfilter
    apply encode_panics
    exact not_ok_of_absoluteStart (Subscribe.canonical_of_decode hdecode) hfilter
  · intro r m rest hdecode hfilter
    obtain ⟨body, hbody, rfl⟩ := map_eq_ok hdecode
    apply encode_panics
    exact not_ok_of_absoluteStart (Subscribe.canonical_of_decode hbody) hfilter
  · rintro m limit out hfilter hencode ⟨m', hdecode, -, hend, -⟩
    exact end_ne_of_absoluteStart ord hfilter hencode hdecode hend
  · rintro m limit out hfilter hencode ⟨m', hdecode, -, hend, -⟩
    obtain ⟨body, hbody, rfl⟩ := map_eq_ok hdecode
    exact end_ne_of_absoluteStart ord hfilter hencode hbody hend

/-- A SUBSCRIBE from group 3 on, with no parameters. -/
def startSubscribe : Subscribe where
  id := 7
  trackAlias := 7
  trackNamespace := ⟨[⟨[108, 105, 118, 101]⟩]⟩
  trackName := "cam"
  subscriberPriority := 127
  groupOrder := .publisher
  filterType := .absoluteStart
  start := some ⟨.absolute 3, .absolute 0⟩
  end_ := none
  params := ∅

def startSubscribeBytes : Bytes :=
  [7, 7, 1, 4, 108, 105, 118, 101, 3, 99, 97, 109, 127, 0, 3, 1, 3, 1, 0, 0]

theorem decode_startSubscribeBytes :
    Subscribe.decode startSubscribeBytes = .ok (startSubscribe, []) := by
  rfl

theorem startSubscribe_panics :
    (Message.subscribe startSubscribe).encode anyOrder bytesMut = .error .panic :=
  (absoluteStart_never_relayed anyOrder).1 startSubscribeBytes startSubscribe []
    decode_startSubscribeBytes rfl

/-- So no SUBSCRIBE for a fixed start survives a relay. -/
theorem absoluteStart_not_relayable :
    ¬ ∀ (ord : IterOrder) (r : Bytes) (m : Subscribe) (rest : Bytes),
      Subscribe.decode r = .ok (m, rest) → m.filterType = .absoluteStart →
      ∃ out, (Message.subscribe m).encode ord bytesMut = .ok ((), out) ∧
        decode out.bytes = .ok (.subscribe m, []) := by
  intro h
  obtain ⟨out, hout, -⟩ := h anyOrder startSubscribeBytes startSubscribe []
    decode_startSubscribeBytes rfl
  have hpanic : (Message.subscribe startSubscribe).encode anyOrder bytesMut = .error .panic := by
    apply encode_panics
    exact not_ok_of_absoluteStart ⟨_, rfl, rfl, by decide⟩ rfl
  rw [hpanic] at hout
  cases hout

end Message

end MoqTransport
