import MoqTransport.Message.Message
import MoqTransport.Session.Reader

/-!
The control stream: encoded messages one after another, cut by the transport
wherever it likes and reassembled by the reader. Reassembly depends on every
message decoder answering every truncated message with a request for more
bytes. `reassembles_iff` says for which lists of messages that works: an
absolute range breaks it, because its decoder reports a missing field when
fewer than four bytes follow the filter type.
-/

namespace MoqTransport.Session

open Streaming Coding Message

/-- The bytes `Message::encode` writes for a message. -/
def Encodes (ord : IterOrder) (m : Message) (bs : Bytes) : Prop :=
  ∃ out, m.encode ord bytesMut = .ok ((), out) ∧ out.bytes = bs

theorem encodes_iff {ord : IterOrder} {m : Message} {bs : Bytes} :
    Encodes ord m bs ↔ m.Ok ord ∧ bs = m.wire ord := by
  constructor
  · rintro ⟨out, hout, rfl⟩
    obtain ⟨hok, -, rfl⟩ := ((Message.emits_encode ord m).iff _ _).mp hout
    exact ⟨hok, by simp [BufMut.push, bytesMut]⟩
  · rintro ⟨hok, rfl⟩
    exact ⟨_, (Message.emits_encode ord m).writes hok (wire_length ord hok),
      by simp [BufMut.push, bytesMut]⟩

/-- Reading is independent of how the stream is cut: every cutting gives the
messages back, and every truncated message makes the decoder ask for bytes
that are missing. -/
def Reassembles (ms : List Message) (wires : List Bytes) : Prop :=
  (∀ stream : RecvStream, joined stream.pieces = wires.flatten →
    ∃ r, Reader.decodeMany Message.decode ms.length (Reader.new stream) = .ok (ms, r)) ∧
  ∀ bs ∈ wires, Asks Message.decode bs

/-- The two variants with a filter, cut right after it. -/
theorem decode_cut_range (ord : IterOrder) {m : Message} (hok : m.Ok ord)
    (hrange : m.filter? = some .absoluteRange) :
    ∃ front back, front ++ back = m.wire ord ∧ back ≠ [] ∧
      Message.decode front = .error (.err .missingField) := by
  have hcut (s : Subscribe) (hs : s.Ok) (hfilter : s.filterType = .absoluteRange) :
      ∃ back, s.headWire ++ back = s.wire ord ∧ back ≠ [] ∧
        Subscribe.decode s.headWire = .error (.err .missingField) := by
    refine ⟨_, (List.append_assoc _ _ _).symm, ?_, ?_⟩
    · obtain ⟨first, last, hstart, -, -⟩ := hfilter ▸ hs.2.2.2.2.1
      rw [hfilter, hstart]
      have hpos := first.wire_length_pos
      intro hnil
      have hlen := congrArg List.length hnil
      simp only [Subscribe.rangeWire, Subscribe.optionWire, List.length_append,
        List.length_nil] at hlen
      omega
    · have h := Subscribe.decode_cut_range hs hfilter [] (by decide)
      rwa [List.append_nil] at h
  have hframe (front back : Bytes) (hwire : front ++ back = m.bodyWire ord)
      (hback : back ≠ []) (hdecode : decodeBody m.id front = .error (.err .missingField)) :
      ∃ front back, front ++ back = m.wire ord ∧ back ≠ [] ∧
        Message.decode front = .error (.err .missingField) := by
    refine ⟨m.frameWire ord ++ front, back, ?_, hback, ?_⟩
    · rw [List.append_assoc, hwire, Message.wire]
    · rw [decode_frame ord hok]
      exact hdecode
  cases m with
  | subscribeUpdate s =>
      obtain ⟨back, hwire, hback, hdecode⟩ := hcut s.toSubscribe hok.1 (Option.some.inj hrange)
      exact hframe _ back hwire hback (map_error _ (map_error _ hdecode))
  | subscribe s =>
      obtain ⟨back, hwire, hback, hdecode⟩ := hcut s hok.1 (Option.some.inj hrange)
      exact hframe _ back hwire hback (map_error _ hdecode)
  | _ => cases hrange

/-- A list of encodable messages survives every cutting of its bytes exactly
when each of them is one that a decoder can return and none asks for an
absolute range. The parameters of each message may have been listed in another
order. -/
theorem reassembles_iff (ms : List Message) (wires : List Bytes)
    (hencoded : List.Forall₂ (fun m bs => ∃ ord, Encodes ord m bs) ms wires) :
    Reassembles ms wires ↔ ∀ m ∈ ms, m.Canonical ∧ m.filter? ≠ some .absoluteRange := by
  constructor
  · rintro ⟨hread, hasks⟩ m hm
    constructor
    · obtain ⟨r, hr⟩ := hread _ (joined_wholeStream _)
      obtain ⟨buf, rest, hdecode⟩ := Reader.mem_decodeMany hr m hm
      exact canonical_of_decode hdecode
    · intro hrange
      obtain ⟨bs, hbs, ord, hm⟩ := exists_of_forall₂ hencoded hm
      obtain ⟨hok, rfl⟩ := encodes_iff.mp hm
      obtain ⟨front, back, happend, hback, herr⟩ := decode_cut_range ord hok hrange
      obtain ⟨n, -, -, hmore⟩ := hasks _ hbs front back happend hback
      rw [herr] at hmore
      cases hmore
  · intro hms
    have hall : List.Forall₂ (fun m bs => Transfers Message.decode bs m) ms wires := by
      refine ((List.forall₂_and_left _ _).mpr ⟨hms, hencoded⟩).imp ?_
      rintro m bs ⟨⟨hcanonical, hrange⟩, ord, hm⟩
      obtain ⟨hok, rfl⟩ := encodes_iff.mp hm
      exact transfers_decode ord hok hcanonical
        ⟨filter_ne_absoluteStart ord hok hcanonical, hrange⟩
    constructor
    · intro stream hbytes
      have hpending : (Reader.new stream).pending = wires.flatten ++ [] := by
        rw [List.append_nil]
        exact hbytes
      obtain ⟨r, hr, -⟩ := Reader.decodeMany_transfers hall hpending
      exact ⟨r, hr⟩
    · intro bs hbs
      obtain ⟨m, -, htransfers⟩ := exists_of_forall₂ hall.flip hbs
      exact htransfers.asks

theorem reassembles_iff_unsubscribe :
    Reassembles [.unsubscribe ⟨3⟩, .goAway ⟨""⟩]
      [VarInt.wire 0xa ++ VarInt.wire 1 ++ VarInt.wire 3,
        VarInt.wire 0x10 ++ VarInt.wire 1 ++ VarInt.wire 0] := by
  have hencodes : List.Forall₂ (fun m bs => ∃ ord, Encodes ord m bs)
      [.unsubscribe ⟨3⟩, .goAway ⟨""⟩]
      [VarInt.wire 0xa ++ VarInt.wire 1 ++ VarInt.wire 3,
        VarInt.wire 0x10 ++ VarInt.wire 1 ++ VarInt.wire 0] := by
    refine .cons ⟨anyOrder, encodes_iff.mpr ⟨⟨?_, ?_⟩, rfl⟩⟩
      (.cons ⟨anyOrder, encodes_iff.mpr ⟨⟨?_, ?_⟩, rfl⟩⟩ .nil)
    · simp [bodyOk]
    · simp [bodyWire, VarInt.wire]
    · unfold bodyOk Str.Ok
      decide
    · unfold bodyWire
      decide
  refine (reassembles_iff _ _ hencodes).mpr ?_
  simp [Canonical, filter?]

theorem decode_nil : Message.decode [] = .error (.err (.more 1)) := rfl

/-- The SUBSCRIBE for a range, delivered in two pieces: the receive loop
stops with a missing field instead of reading the second piece. -/
theorem rangeSubscribe_two_pieces :
    ∃ bs first second, Encodes anyOrder rangeSubscribe bs ∧ joined [first, second] = bs ∧
      Reader.decodeMany Message.decode 1 (Reader.new ⟨[first, second], none⟩) =
        .error (.err (.decode .missingField)) := by
  have hok := rangeSubscribe_ok anyOrder
  obtain ⟨front, back, happend, hback, herr⟩ := decode_cut_range anyOrder hok rfl
  have hfront : front ≠ [] := by
    rintro rfl
    rw [decode_nil] at herr
    cases herr
  refine ⟨_, ⟨front, hfront⟩, ⟨back, hback⟩, encodes_iff.mpr ⟨hok, rfl⟩, ?_, ?_⟩
  · simpa [joined] using happend
  · refine bind_error ?_
    have hpos : 1 ≤ front.length := List.length_pos_iff.mpr hfront
    -- The empty buffer asks for one byte, the first piece brings it.
    simp only [Reader.decode, Reader.attempt, Reader.new, decode_nil, Reader.readMore,
      List.nil_append, List.length_nil, Nat.zero_add]
    rw [if_pos hpos, herr]

end MoqTransport.Session
