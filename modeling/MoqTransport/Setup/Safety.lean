import MoqTransport.Data.Object
import MoqTransport.Message.Framing
import MoqTransport.Setup.Setup

/-!
The decoders on arbitrary input. A buffer read past its end aborts the whole
thread, and counts and sizes are numbers of up to 62 bits that the peer
chooses; neither may hurt. Everything a session decodes is delimited, except
the datagram, which takes the whole buffer.
-/

namespace MoqTransport.Setup

open Streaming Coding

/-- Whatever the buffer holds, the decoder returns a value and the end of the
buffer, or an error. It never reads past the end. -/
def Safe {α : Type} (d : Decode α) : Prop :=
  ∀ r, (∃ x rest, d r = .ok (x, rest) ∧ rest <:+ r) ∨ ∃ e, d r = .error (.err e)

theorem safe_of_delimits {α : Type} {d : Decode α} (h : Delimits d) : Safe d := by
  intro r
  cases hr : d r with
  | ok out =>
      obtain ⟨x, rest⟩ := out
      exact .inl ⟨x, rest, rfl, h.suffix hr⟩
  | error fault =>
      cases fault with
      | err e => exact .inr ⟨e, rfl⟩
      | panic => exact absurd hr (h.total r)

theorem safe_datagram : Safe Data.Datagram.decode := by
  intro r
  rw [Data.Datagram.decode_eq]
  cases hr : Data.Datagram.decodeHead r with
  | ok out =>
      obtain ⟨head, payload⟩ := out
      rw [bind_ok hr, Data.Datagram.decodePayload_run]
      split
      · exact .inl ⟨_, [], rfl, List.nil_suffix⟩
      · exact .inr ⟨_, rfl⟩
  | error fault =>
      cases fault with
      | err e => exact .inr ⟨e, bind_error hr⟩
      | panic => exact absurd hr (Data.Datagram.delimits_head.total r)

/-- The payload is what was left of the buffer. -/
theorem payload_le {r rest : Bytes} {d : Data.Datagram}
    (h : Data.Datagram.decode r = .ok (d, rest)) : d.payload.length ≤ r.length := by
  rw [Data.Datagram.decode_eq] at h
  obtain ⟨head, payload, hhead, h⟩ := bind_eq_ok h
  rw [Data.Datagram.decodePayload_run] at h
  split at h
  · cases h
    exact (Data.Datagram.delimits_head.suffix hhead).length_le
  · cases h

/-- The decoders never read past the buffer. A buffer for a value of announced
size is allocated only once that many bytes are there, and a loop over an
announced number of elements ends with the input, whatever the number. -/
theorem decoders_safe :
    Safe Message.decode ∧ Safe Client.decode ∧ Safe Server.decode ∧ Safe Data.Header.decode ∧
    Safe Data.TrackObject.decode ∧ Safe Data.SubgroupObject.decode ∧ Safe Data.Datagram.decode ∧
    (∀ r size rest, allocation r = .ok (size, rest) → size ≤ rest.length) ∧
    (∀ r d rest, Data.Datagram.decode r = .ok (d, rest) → d.payload.length ≤ r.length) ∧
    (∀ count fields r, rounds Tuple.decodeField count fields r ≤ r.length + 1) ∧
    (∀ count params r, rounds Params.decodeEntry count params r ≤ r.length + 1) ∧
    ∀ count vs r, rounds Versions.decodeVersion count vs r ≤ r.length + 1 := by
  refine ⟨?_, ?_, ?_, ?_, ?_, ?_, safe_datagram, ?_, ?_, ?_, ?_, ?_⟩
  · exact safe_of_delimits Message.delimits_decode
  · exact safe_of_delimits (delimits_setup 0x40 Versions.delimits_decode Client.mk)
  · exact safe_of_delimits (delimits_setup 0x41 Version.delimits_decode Server.mk)
  · exact safe_of_delimits Data.Header.delimits_decode
  · exact safe_of_delimits Data.TrackObject.delimits_decode
  · exact safe_of_delimits Data.SubgroupObject.delimits_decode
  · intro r size rest h
    exact allocation_le h
  · intro r d rest h
    exact payload_le h
  · intro count fields r
    exact rounds_le Tuple.shrinks_decodeField count fields r
  · intro count params r
    refine rounds_le (fun params => ?_) count params r
    intro r x rest h
    have hlen := Params.shrinks_decodeEntry params r x rest h
    omega
  · intro count vs r
    exact rounds_le Versions.shrinks_decodeVersion count vs r

/-- Three bytes announce a value of two. -/
theorem decoders_safe_allocation : allocation [2, 7, 7] = .ok (2, [7, 7]) ∧ 2 ≤ [7, 7].length :=
  ⟨rfl, decoders_safe.2.2.2.2.2.2.2.1 [2, 7, 7] 2 [7, 7] rfl⟩

/-- A tuple of `2 ^ 62 - 1` fields is given up in the round that finds no
input. -/
example : rounds Tuple.decodeField (2 ^ 62 - 1) [] [1, 7, 0] = 3 := by rfl

end MoqTransport.Setup
