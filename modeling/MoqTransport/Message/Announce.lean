import MoqTransport.Message.Parts

/-!
The ANNOUNCE and SUBSCRIBE_NAMESPACE families. Three shapes repeat: a
namespace alone, a namespace with parameters, and a namespace with an error
code and a reason. Each shape has one codec and one pair of lemmas; the
messages instantiate it with their own fields.
-/

namespace MoqTransport.Message

open Streaming Coding

/-! A namespace and parameters. -/

def encodeOffer (ord : IterOrder) (namespace_ : Tuple) (params : Params) : Encode := do
  namespace_.encode
  Params.encode ord params

def decodeOffer {α : Type} (mk : Tuple → Params → α) : Decode α := do
  let namespace_ ← Tuple.decode
  let params ← Params.decode
  pure (mk namespace_ params)

def offerWire (ord : IterOrder) (namespace_ : Tuple) (params : Params) : Bytes :=
  namespace_.wire ++ Params.wire ord params

theorem emits_offer (ord : IterOrder) (namespace_ : Tuple) (params : Params) :
    Emits (encodeOffer ord namespace_ params) (namespace_.Ok ∧ params.Ok)
      (offerWire ord namespace_ params) :=
  (Tuple.emits_encode namespace_).bind (Params.emits_encode ord params)

theorem transfers_offer {α : Type} (mk : Tuple → Params → α) (ord : IterOrder)
    {namespace_ : Tuple} {params : Params} (h : namespace_.Ok ∧ params.Ok) :
    Transfers (decodeOffer mk) (offerWire ord namespace_ params) (mk namespace_ params) :=
  (Tuple.transfers_decode h.1).bind ((Params.transfers_decode ord h.2).bind_pure _)

theorem delimits_offer {α : Type} (mk : Tuple → Params → α) : Delimits (decodeOffer mk) :=
  Tuple.delimits_decode.bind fun _ => Params.delimits_decode.bind fun _ => Delimits.pure _

/-! A namespace, an error code and a reason. -/

def encodeRejection (namespace_ : Tuple) (code : Nat) (reason : String) : Encode := do
  namespace_.encode
  U64.encode code
  Str.encode reason

def decodeRejection {α : Type} (mk : Tuple → Nat → String → α) : Decode α := do
  let namespace_ ← Tuple.decode
  let code ← U64.decode
  let reason ← Str.decode
  pure (mk namespace_ code reason)

def rejectionWire (namespace_ : Tuple) (code : Nat) (reason : String) : Bytes :=
  namespace_.wire ++ (VarInt.wire code ++ Str.wire reason)

theorem emits_rejection (namespace_ : Tuple) (code : Nat) (reason : String) :
    Emits (encodeRejection namespace_ code reason)
      (namespace_.Ok ∧ fitsVarInt code ∧ Str.Ok reason)
      (rejectionWire namespace_ code reason) :=
  Emits.bind (Tuple.emits_encode namespace_)
    (Emits.bind (U64.emits_encode code) (Str.emits_encode reason))

theorem transfers_rejection {α : Type} (mk : Tuple → Nat → String → α)
    {namespace_ : Tuple} {code : Nat} {reason : String}
    (h : namespace_.Ok ∧ fitsVarInt code ∧ Str.Ok reason) :
    Transfers (decodeRejection mk) (rejectionWire namespace_ code reason)
      (mk namespace_ code reason) :=
  (Tuple.transfers_decode h.1).bind
    ((U64.transfers_decode h.2.1).bind ((Str.transfers_decode h.2.2).bind_pure _))

theorem delimits_rejection {α : Type} (mk : Tuple → Nat → String → α) :
    Delimits (decodeRejection mk) :=
  Tuple.delimits_decode.bind fun _ => U64.delimits_decode.bind fun _ =>
    Str.delimits_decode.bind fun _ => Delimits.pure _

/-- Sent by the publisher to announce the availability of a group of tracks. -/
structure Announce where
  namespace_ : Tuple
  params : Params
deriving DecidableEq

namespace Announce

def decode : Decode Announce := decodeOffer Announce.mk

def encode (ord : IterOrder) (m : Announce) : Encode := encodeOffer ord m.namespace_ m.params

def Ok (m : Announce) : Prop := m.namespace_.Ok ∧ m.params.Ok

def wire (ord : IterOrder) (m : Announce) : Bytes := offerWire ord m.namespace_ m.params

end Announce

/-- Sent by the publisher to terminate an Announce. -/
structure Unannounce where
  namespace_ : Tuple
deriving DecidableEq

namespace Unannounce

def decode : Decode Unannounce := Unannounce.mk <$> Tuple.decode

def encode (m : Unannounce) : Encode := m.namespace_.encode

end Unannounce

/-- Sent by the subscriber to accept an Announce. -/
structure AnnounceOk where
  namespace_ : Tuple
deriving DecidableEq

namespace AnnounceOk

def decode : Decode AnnounceOk := AnnounceOk.mk <$> Tuple.decode

def encode (m : AnnounceOk) : Encode := m.namespace_.encode

end AnnounceOk

/-- Sent by the subscriber to reject an Announce. -/
structure AnnounceError where
  namespace_ : Tuple
  errorCode : Nat
  reasonPhrase : String
deriving DecidableEq

namespace AnnounceError

def decode : Decode AnnounceError := decodeRejection AnnounceError.mk

def encode (m : AnnounceError) : Encode :=
  encodeRejection m.namespace_ m.errorCode m.reasonPhrase

def Ok (m : AnnounceError) : Prop :=
  m.namespace_.Ok ∧ fitsVarInt m.errorCode ∧ Str.Ok m.reasonPhrase

def wire (m : AnnounceError) : Bytes := rejectionWire m.namespace_ m.errorCode m.reasonPhrase

end AnnounceError

/-- Sent by the subscriber to reject an Announce after ANNOUNCE_OK. -/
structure AnnounceCancel where
  namespace_ : Tuple
  errorCode : Nat
  reasonPhrase : String
deriving DecidableEq

namespace AnnounceCancel

def decode : Decode AnnounceCancel := decodeRejection AnnounceCancel.mk

def encode (m : AnnounceCancel) : Encode :=
  encodeRejection m.namespace_ m.errorCode m.reasonPhrase

def Ok (m : AnnounceCancel) : Prop :=
  m.namespace_.Ok ∧ fitsVarInt m.errorCode ∧ Str.Ok m.reasonPhrase

def wire (m : AnnounceCancel) : Bytes := rejectionWire m.namespace_ m.errorCode m.reasonPhrase

end AnnounceCancel

structure SubscribeNamespace where
  namespacePrefix : Tuple
  params : Params
deriving DecidableEq

namespace SubscribeNamespace

def decode : Decode SubscribeNamespace := decodeOffer SubscribeNamespace.mk

def encode (ord : IterOrder) (m : SubscribeNamespace) : Encode :=
  encodeOffer ord m.namespacePrefix m.params

def Ok (m : SubscribeNamespace) : Prop := m.namespacePrefix.Ok ∧ m.params.Ok

def wire (ord : IterOrder) (m : SubscribeNamespace) : Bytes :=
  offerWire ord m.namespacePrefix m.params

end SubscribeNamespace

structure SubscribeNamespaceOk where
  namespacePrefix : Tuple
deriving DecidableEq

namespace SubscribeNamespaceOk

def decode : Decode SubscribeNamespaceOk := SubscribeNamespaceOk.mk <$> Tuple.decode

def encode (m : SubscribeNamespaceOk) : Encode := m.namespacePrefix.encode

end SubscribeNamespaceOk

structure SubscribeNamespaceError where
  namespacePrefix : Tuple
  code : Nat
  reason : String
deriving DecidableEq

namespace SubscribeNamespaceError

def decode : Decode SubscribeNamespaceError := decodeRejection SubscribeNamespaceError.mk

def encode (m : SubscribeNamespaceError) : Encode :=
  encodeRejection m.namespacePrefix m.code m.reason

def Ok (m : SubscribeNamespaceError) : Prop :=
  m.namespacePrefix.Ok ∧ fitsVarInt m.code ∧ Str.Ok m.reason

def wire (m : SubscribeNamespaceError) : Bytes := rejectionWire m.namespacePrefix m.code m.reason

end SubscribeNamespaceError

structure UnsubscribeNamespace where
  namespacePrefix : Tuple
deriving DecidableEq

namespace UnsubscribeNamespace

def decode : Decode UnsubscribeNamespace := UnsubscribeNamespace.mk <$> Tuple.decode

def encode (m : UnsubscribeNamespace) : Encode := m.namespacePrefix.encode

end UnsubscribeNamespace

end MoqTransport.Message
