import Mathlib.Data.Nat.Bitwise
import MoqTransport.Coding.Utf8
import MoqTransport.Proto.VarInt

/-!
The frames of a WebTransport session over a WebSocket: one frame in each
binary message, without the offsets and lengths of QUIC. A stream number
says who opened the stream and whether both sides write to it.
-/

namespace MoqTransport.Ws

open Streaming
open Proto (VarInt VarIntUnexpectedEnd)

inductive Error where
  | invalidFrameType (type : UInt8)
  | noText
  | noPong
  | noGenericFrames
  | invalidStreamId
  | streamClosed
  | connectionClosed (code : VarInt) (reason : String)
  | streamReset (code : VarInt)
  | streamStop (code : VarInt)
  | short
  | closed
deriving DecidableEq

def Error.ofUnexpectedEnd : VarIntUnexpectedEnd → Error := fun _ => .short

inductive StreamDir where
  | bi
  | uni
deriving DecidableEq

structure StreamId where
  val : VarInt
deriving DecidableEq

namespace StreamId

/-- No id is left for a number from `2 ^ 60` on: the conversion panics. -/
def new (id : Nat) (dir : StreamDir) (isServer : Bool) : Option StreamId :=
  let streamId := id <<< 2 % 2 ^ 64
  let streamId := if dir = .uni then streamId ||| 0x02 else streamId
  let streamId := if isServer then streamId ||| 0x01 else streamId
  (Coding.VarInt.tryFrom streamId).map StreamId.mk

def dir (id : StreamId) : StreamDir :=
  if id.val.val &&& 0x02 ≠ 0 then .uni else .bi

def serverInitiated (id : StreamId) : Bool := id.val.val &&& 0x01 ≠ 0

def canRecv (id : StreamId) (isServer : Bool) : Bool :=
  match id.dir with
  | .uni => id.serverInitiated != isServer
  | .bi => true

def canSend (id : StreamId) (isServer : Bool) : Bool :=
  match id.dir with
  | .uni => id.serverInitiated == isServer
  | .bi => true

/-- What one side may write to the other may read. -/
theorem canRecv_not (id : StreamId) (isServer : Bool) :
    id.canRecv (!isServer) = id.canSend isServer := by
  unfold canRecv canSend
  cases id.dir with
  | bi => rfl
  | uni => cases id.serverInitiated <;> cases isServer <;> rfl

theorem canSend_not (id : StreamId) (isServer : Bool) :
    id.canSend (!isServer) = id.canRecv isServer := by
  rw [← canRecv_not, Bool.not_not]

theorem canRecv_of_bi {id : StreamId} (h : id.dir = .bi) (isServer : Bool) :
    id.canRecv isServer = true := by
  rw [canRecv, h]

theorem canSend_of_bi {id : StreamId} (h : id.dir = .bi) (isServer : Bool) :
    id.canSend isServer = true := by
  rw [canSend, h]

theorem canSend_of_own {id : StreamId} {isServer : Bool} (h : id.serverInitiated = isServer) :
    id.canSend isServer = true := by
  unfold canSend
  split
  · rw [h, beq_self_eq_true]
  · rfl

theorem canRecv_of_other {id : StreamId} {isServer : Bool} (h : isServer ≠ id.serverInitiated) :
    id.canRecv isServer = true := by
  unfold canRecv
  split
  · simpa [bne_iff_ne] using h.symm
  · rfl

theorem testBit_two {x : Nat} : x &&& 0x02 ≠ 0 ↔ x / 2 % 2 = 1 := by
  rw [show (0x02 : Nat) = 2 ^ 1 from rfl, Nat.and_two_pow, Nat.testBit_eq_decide_div_mod_eq]
  simp

theorem testBit_one {x : Nat} : x &&& 0x01 ≠ 0 ↔ x % 2 = 1 := by
  rw [Nat.and_one_is_mod]
  omega

/-- The two low bits of a number that is a multiple of four otherwise. -/
theorem or_bits (id : Nat) (uni server : Bool) :
    (let x := if uni then 4 * id ||| 0x02 else 4 * id
     if server then x ||| 0x01 else x) = 4 * id + 2 * uni.toNat + server.toNat := by
  have htwo : 4 * id ||| 0x02 = 4 * id + 2 :=
    (Nat.two_pow_add_eq_or_of_lt (i := 2) (b := 2) (by decide) id).symm
  have hone (y : Nat) : 2 * y ||| 0x01 = 2 * y + 1 :=
    (Nat.two_pow_add_eq_or_of_lt (i := 1) (b := 1) (by decide) y).symm
  have hbare := hone (2 * id)
  have hboth := hone (2 * id + 1)
  rw [show 2 * (2 * id) = 4 * id by ring] at hbare
  rw [show 2 * (2 * id + 1) = 4 * id + 2 by ring] at hboth
  cases uni <;> cases server <;> simp [htwo, hbare, hboth]

/-- The numbers below `2 ^ 60` have ids, and their bits read back. The shift
has lost the two high bits. -/
theorem new_eq_some_iff {n : Nat} {dir : StreamDir} {isServer : Bool} {id : StreamId} :
    new n dir isServer = some id ↔ n % 2 ^ 62 < 2 ^ 60 ∧
      id.val.val = 4 * (n % 2 ^ 62) + 2 * (decide (dir = .uni)).toNat + isServer.toNat := by
  have hshift : n <<< 2 % 2 ^ 64 = 4 * (n % 2 ^ 62) := by
    rw [Nat.shiftLeft_eq]
    omega
  have hbits := or_bits (n % 2 ^ 62) (decide (dir = .uni)) isServer
  have huni := Bool.toNat_le (decide (dir = .uni))
  have hserver := Bool.toNat_le isServer
  simp only [decide_eq_true_eq] at hbits
  obtain ⟨⟨x, hx⟩⟩ := id
  unfold new
  simp only [hshift, hbits, Coding.VarInt.tryFrom]
  split
  · simp only [Option.map_some, Option.some.injEq, mk.injEq, Coding.VarInt.mk.injEq]
    omega
  · simp only [Option.map_none, reduceCtorEq, false_iff]
    omega

theorem dir_new {n : Nat} {dir : StreamDir} {isServer : Bool} {id : StreamId}
    (h : new n dir isServer = some id) : id.dir = dir := by
  obtain ⟨-, hval⟩ := new_eq_some_iff.mp h
  unfold StreamId.dir
  rw [hval]
  simp only [testBit_two]
  have hserver := Bool.toNat_le isServer
  cases dir with
  | bi =>
      rw [if_neg]
      simp only [reduceCtorEq, decide_false, Bool.toNat_false]
      omega
  | uni =>
      rw [if_pos]
      simp only [decide_true, Bool.toNat_true]
      omega

theorem serverInitiated_new {n : Nat} {dir : StreamDir} {isServer : Bool} {id : StreamId}
    (h : new n dir isServer = some id) : id.serverInitiated = isServer := by
  obtain ⟨-, hval⟩ := new_eq_some_iff.mp h
  unfold serverInitiated
  rw [hval]
  simp only [testBit_one]
  cases isServer with
  | false => simp; omega
  | true => simp; omega

/-- Until the numbers come round again, different ones make different ids, as
do the directions and the sides. -/
theorem new_injective {n m : Nat} {dir dir' : StreamDir} {isServer isServer' : Bool}
    {id : StreamId} (hn : n < 2 ^ 62) (hm : m < 2 ^ 62) (h : new n dir isServer = some id)
    (h' : new m dir' isServer' = some id) : n = m ∧ dir = dir' ∧ isServer = isServer' := by
  have hdir := (dir_new h).symm.trans (dir_new h')
  have hserver := (serverInitiated_new h).symm.trans (serverInitiated_new h')
  obtain ⟨-, hval⟩ := new_eq_some_iff.mp h
  obtain ⟨-, hval'⟩ := new_eq_some_iff.mp h'
  subst hdir hserver
  exact ⟨by omega, rfl, rfl⟩

def encode (id : StreamId) (buf : Bytes) : Bytes := Proto.VarInt.encode id.val buf

end StreamId

/-- A decoder of the crate below, with its error in this one. -/
def liftEnd {α : Type} (d : Decoder VarIntUnexpectedEnd α) : Decoder Error α := fun r =>
  (d r).mapError fun
    | .err e => .err (Error.ofUnexpectedEnd e)
    | .panic => .panic

def StreamId.decode : Decoder Error StreamId := StreamId.mk <$> liftEnd Proto.VarInt.decode

/-- What is left of the message. -/
def takeRest : Decoder Error Bytes := fun r => .ok (r, [])

structure Stream where
  id : StreamId
  data : Bytes
  fin : Bool
deriving DecidableEq

structure ResetStream where
  id : StreamId
  code : VarInt
deriving DecidableEq

structure StopSending where
  id : StreamId
  code : VarInt
deriving DecidableEq

structure ConnectionClose where
  code : VarInt
  reason : String
deriving DecidableEq

def resetStreamType : UInt8 := 0x04
def stopSendingType : UInt8 := 0x05
def streamType : UInt8 := 0x08
def streamFinType : UInt8 := 0x09
def applicationCloseType : UInt8 := 0x1d

def Stream.encode (frame : Stream) (buf : Bytes) : Bytes :=
  let buf := buf ++ [if frame.fin then streamFinType else streamType]
  frame.id.encode buf ++ frame.data

def Stream.decode (fin : Bool) : Decoder Error Stream := do
  let id ← StreamId.decode
  let data ← takeRest
  pure { id, data, fin }

def ResetStream.encode (frame : ResetStream) (buf : Bytes) : Bytes :=
  Proto.VarInt.encode frame.code (frame.id.encode (buf ++ [resetStreamType]))

def ResetStream.decode : Decoder Error ResetStream := do
  let id ← StreamId.decode
  let code ← liftEnd Proto.VarInt.decode
  pure { id, code }

def StopSending.encode (frame : StopSending) (buf : Bytes) : Bytes :=
  Proto.VarInt.encode frame.code (frame.id.encode (buf ++ [stopSendingType]))

def StopSending.decode : Decoder Error StopSending := do
  let id ← StreamId.decode
  let code ← liftEnd Proto.VarInt.decode
  pure { id, code }

def ConnectionClose.encode (frame : ConnectionClose) (buf : Bytes) : Bytes :=
  Proto.VarInt.encode frame.code (buf ++ [applicationCloseType]) ++ Coding.Str.bytes frame.reason

def ConnectionClose.decode : Decoder Error ConnectionClose := do
  let code ← liftEnd Proto.VarInt.decode
  let data ← takeRest
  pure { code, reason := Coding.Str.fromUtf8Lossy data }

inductive Frame where
  | resetStream (frame : ResetStream)
  | stopSending (frame : StopSending)
  | connectionClose (frame : ConnectionClose)
  | stream (frame : Stream)
deriving DecidableEq

namespace Frame

def encode : Frame → Bytes
  | .resetStream frame => frame.encode []
  | .stopSending frame => frame.encode []
  | .stream frame => frame.encode []
  | .connectionClose frame => frame.encode []

/-- The decoder of what follows the type. -/
def decodeBody (frameType : UInt8) : Decoder Error Frame :=
  if frameType = resetStreamType then .resetStream <$> ResetStream.decode
  else if frameType = stopSendingType then .stopSending <$> StopSending.decode
  else if frameType = streamType then .stream <$> Stream.decode false
  else if frameType = streamFinType then .stream <$> Stream.decode true
  else if frameType = applicationCloseType then .connectionClose <$> ConnectionClose.decode
  else fail (.invalidFrameType frameType)

def decode (data : Bytes) : Except (Fault Error) Frame :=
  match data with
  | [] => .error (.err .short)
  | frameType :: data => Prod.fst <$> decodeBody frameType data

end Frame

theorem reads_liftEnd {α : Type} {d : Decoder VarIntUnexpectedEnd α} {bs : Bytes} {x : α}
    (h : Reads d bs x) : Reads (liftEnd d) bs x := by
  intro rest
  rw [liftEnd, h rest]
  rfl

theorem reads_streamId (id : StreamId) :
    Reads StreamId.decode (Coding.VarInt.wire id.val.val) id :=
  (reads_liftEnd (Proto.VarInt.reads_decode id.val)).map StreamId.mk

theorem decode_id_rest (id : StreamId) (data : Bytes) (fin : Bool) :
    Stream.decode fin (Coding.VarInt.wire id.val.val ++ data) = .ok (⟨id, data, fin⟩, []) :=
  bind_ok (reads_streamId id data)

theorem decode_id_code {α : Type} (id : StreamId) (code : VarInt) (f : StreamId → VarInt → α) :
    (do
        let id ← StreamId.decode
        let code ← liftEnd Proto.VarInt.decode
        pure (f id code) : Decoder Error α)
      (Coding.VarInt.wire id.val.val ++ Coding.VarInt.wire code.val) = .ok (f id code, []) := by
  have hcode := reads_liftEnd (Proto.VarInt.reads_decode code) []
  rw [List.append_nil] at hcode
  rw [bind_ok (reads_streamId id _), bind_ok hcode]
  rfl

/-- A frame is read back from its message. -/
theorem Frame.decode_encode (frame : Frame) : decode frame.encode = .ok frame := by
  cases frame with
  | resetStream frame =>
      obtain ⟨id, code⟩ := frame
      simp only [encode, ResetStream.encode, StreamId.encode, Proto.VarInt.encode_eq,
        List.nil_append, List.cons_append, decode]
      have hbody : decodeBody resetStreamType = .resetStream <$> ResetStream.decode := rfl
      have hread : ResetStream.decode
          (Coding.VarInt.wire id.val.val ++ Coding.VarInt.wire code.val) =
          .ok (⟨id, code⟩, []) := decode_id_code id code ResetStream.mk
      rw [hbody, map_ok _ hread]
      rfl
  | stopSending frame =>
      obtain ⟨id, code⟩ := frame
      simp only [encode, StopSending.encode, StreamId.encode, Proto.VarInt.encode_eq,
        List.nil_append, List.cons_append, decode]
      have hbody : decodeBody stopSendingType = .stopSending <$> StopSending.decode := rfl
      have hread : StopSending.decode
          (Coding.VarInt.wire id.val.val ++ Coding.VarInt.wire code.val) =
          .ok (⟨id, code⟩, []) := decode_id_code id code StopSending.mk
      rw [hbody, map_ok _ hread]
      rfl
  | connectionClose frame =>
      obtain ⟨code, reason⟩ := frame
      simp only [encode, ConnectionClose.encode, Proto.VarInt.encode_eq, List.nil_append,
        List.cons_append, decode]
      have hbody : decodeBody applicationCloseType = .connectionClose <$> ConnectionClose.decode :=
        rfl
      have hread : ConnectionClose.decode (Coding.VarInt.wire code.val ++ Coding.Str.bytes reason) =
          .ok (⟨code, reason⟩, []) := by
        refine (bind_ok (reads_liftEnd (Proto.VarInt.reads_decode code) _)).trans ?_
        exact congrArg (fun s => Except.ok (ConnectionClose.mk code s, []))
          (Coding.Str.fromUtf8Lossy_bytes reason)
      rw [hbody, map_ok _ hread]
      rfl
  | stream frame =>
      obtain ⟨id, data, fin⟩ := frame
      simp only [encode, Stream.encode, StreamId.encode, Proto.VarInt.encode_eq,
        List.nil_append, List.cons_append, decode]
      have hbody : decodeBody (if fin = true then streamFinType else streamType) =
          .stream <$> Stream.decode fin := by
        cases fin <;> rfl
      rw [hbody, map_ok _ (decode_id_rest id data fin)]
      rfl

end MoqTransport.Ws
