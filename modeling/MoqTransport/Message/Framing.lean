import MoqTransport.Message.Message

/-!
The declared length of a control message. The decoder reads it and then lets
the body decide where the message ends, so the two may disagree. `aligned_iff`
says when they do: the payload goes on after a complete body, or it is the
beginning of a body that the bytes behind it complete.
-/

namespace MoqTransport.Message

open Streaming Coding

theorem delimits_body (t : Nat) : Delimits (decodeBody t) := by
  unfold decodeBody
  split
  · exact (Subscribe.delimits_decode.map SubscribeUpdate.mk).map _
  · exact Subscribe.delimits_decode.map _
  · exact (U64.delimits_decode.map Unsubscribe.mk).map _
  · exact SubscribeOk.delimits_decode.map _
  · exact SubscribeError.delimits_decode.map _
  · exact SubscribeDone.delimits_decode.map _
  · exact (U64.delimits_decode.map MaxSubscribeId.mk).map _
  · exact (delimits_offer Announce.mk).map _
  · exact (Tuple.delimits_decode.map Unannounce.mk).map _
  · exact (Tuple.delimits_decode.map AnnounceOk.mk).map _
  · exact (delimits_rejection AnnounceError.mk).map _
  · exact (delimits_rejection AnnounceCancel.mk).map _
  · exact TrackStatusRequest.delimits_decode.map _
  · exact TrackStatus.delimits_decode.map _
  · exact (Str.delimits_decode.map GoAway.mk).map _
  · exact (delimits_offer SubscribeNamespace.mk).map _
  · exact (Tuple.delimits_decode.map SubscribeNamespaceOk.mk).map _
  · exact (delimits_rejection SubscribeNamespaceError.mk).map _
  · exact (Tuple.delimits_decode.map UnsubscribeNamespace.mk).map _
  · exact Fetch.delimits_decode.map _
  · exact (U64.delimits_decode.map FetchCancel.mk).map _
  · exact FetchOk.delimits_decode.map _
  · exact FetchError.delimits_decode.map _
  · exact Delimits.fail _

theorem delimits_decode : Delimits decode :=
  U64.delimits_decode.bind fun t => U64.delimits_decode.bind fun _ => delimits_body t

/-- A message type and a declared length, each in any of its varint forms. -/
def IsHead (head : Bytes) (t len : Nat) : Prop :=
  ∃ type length, head = type ++ length ∧ Reads U64.decode type t ∧ Reads U64.decode length len

/-- The bytes are exactly one body of type `t`: its decoder accepts them on
their own and leaves nothing. -/
def IsBody (t : Nat) (bs : Bytes) : Prop := ∃ m, decodeBody t bs = .ok (m, [])

theorem IsBody.reads {t : Nat} {bs : Bytes} (h : IsBody t bs) :
    ∃ m, Reads (decodeBody t) bs m := by
  obtain ⟨m, hm⟩ := h
  obtain ⟨cs, rfl, hcs⟩ := (delimits_body t).consumed bs m [] hm
  rw [List.append_nil]
  exact ⟨m, hcs⟩

/-- Only the type has a say in how the rest is decoded. -/
theorem decode_head {head : Bytes} {t len : Nat} (h : IsHead head t len) (r : Bytes) :
    decode (head ++ r) = decodeBody t r := by
  obtain ⟨type, length, rfl, htype, hlength⟩ := h
  unfold decode
  rw [List.append_assoc, bind_ok (htype _), bind_ok (hlength _)]

/-- An accepted message starts with exactly one body. -/
theorem body_of_decode {head r rest : Bytes} {t len : Nat} {m : Message} (h : IsHead head t len)
    (hdecode : decode (head ++ r) = .ok (m, rest)) : ∃ body, r = body ++ rest ∧ IsBody t body := by
  rw [decode_head h] at hdecode
  obtain ⟨body, rfl, hbody⟩ := (delimits_body t).consumed r m rest hdecode
  refine ⟨body, rfl, m, ?_⟩
  have halone := hbody []
  rwa [List.append_nil] at halone

theorem decode_body {head body : Bytes} {t len : Nat} (h : IsHead head t len)
    (hbody : IsBody t body) (rest : Bytes) :
    ∃ m, decode (head ++ (body ++ rest)) = .ok (m, rest) := by
  obtain ⟨m, hm⟩ := hbody.reads
  exact ⟨m, (decode_head h _).trans (hm rest)⟩

/-- An accepted message ends where its declared length says, exactly when the
payload neither continues behind a complete body nor needs bytes of the next
message to become one. -/
theorem aligned_iff {head payload : Bytes} {t : Nat} (hhead : IsHead head t payload.length)
    (suffix : Bytes) :
    (∀ m rest, decode (head ++ (payload ++ suffix)) = .ok (m, rest) → rest = suffix) ↔
      (¬ ∃ body extra, payload = body ++ extra ∧ extra ≠ [] ∧ IsBody t body) ∧
      ¬ ∃ taken left, suffix = taken ++ left ∧ taken ≠ [] ∧ IsBody t (payload ++ taken) := by
  constructor
  · intro haligned
    constructor
    · rintro ⟨body, extra, rfl, hextra, hbody⟩
      obtain ⟨m, hm⟩ := decode_body hhead hbody (extra ++ suffix)
      have hrest := haligned m (extra ++ suffix) (by rwa [List.append_assoc])
      exact hextra (List.append_left_eq_self.mp hrest)
    · rintro ⟨taken, left, rfl, htaken, hbody⟩
      obtain ⟨m, hm⟩ := decode_body hhead hbody left
      have hrest := haligned m left (by rwa [List.append_assoc] at hm)
      exact htaken (List.append_left_eq_self.mp hrest.symm)
  · rintro ⟨hlong, hshort⟩ m rest hdecode
    obtain ⟨body, happend, hbody⟩ := body_of_decode hhead hdecode
    rcases List.append_eq_append_iff.mp happend with ⟨taken, rfl, hsuffix⟩ | ⟨extra, rfl, hrest⟩
    · cases taken with
      | nil => exact hsuffix.symm
      | cons b taken => exact absurd ⟨b :: taken, rest, hsuffix, by simp, hbody⟩ hshort
    · cases extra with
      | nil => exact hrest
      | cons b extra => exact absurd ⟨body, b :: extra, rfl, by simp, hbody⟩ hlong

/-- The payload of a SUBSCRIBE_OK with one parameter, of key 2. -/
def okPayload : Bytes := [0, 0, 1, 0, 1, 2, 1, 7]

theorem okPayload_head : IsHead [4, 8] 4 okPayload.length :=
  ⟨VarInt.wire 4, VarInt.wire 8, by decide, (U64.transfers_decode (by decide)).reads,
    (U64.transfers_decode (by decide)).reads⟩

/-- The body ends with the number of parameters. -/
theorem aligned_iff_okPayload :
    IsHead [4, 8] 4 okPayload.length ∧
      ¬ ∀ m rest, decode ([4, 8] ++ (okPayload ++ [])) = .ok (m, rest) → rest = [] := by
  refine ⟨okPayload_head, fun haligned => ?_⟩
  have hbody : IsBody 4 [0, 0, 1, 0, 1] := ⟨.subscribeOk ⟨0, none, .ascending, none⟩, rfl⟩
  exact ((aligned_iff okPayload_head []).mp haligned).1
    ⟨[0, 0, 1, 0, 1], [2, 1, 7], rfl, by decide, hbody⟩

theorem okPayload_misaligned :
    ¬ ∀ (head payload suffix : Bytes) (t : Nat) (m : Message) (rest : Bytes),
      IsHead head t payload.length → decode (head ++ (payload ++ suffix)) = .ok (m, rest) →
      rest = suffix := by
  intro haligned
  have hdecode : decode ([4, 8] ++ (okPayload ++ [10, 1, 7])) =
      .ok (.subscribeOk ⟨0, none, .ascending, none⟩, [2, 1, 7, 10, 1, 7]) := rfl
  have hrest := haligned [4, 8] okPayload [10, 1, 7] 4 _ _ okPayload_head hdecode
  cases hrest

end MoqTransport.Message
