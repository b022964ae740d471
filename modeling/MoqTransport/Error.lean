import MoqTransport.Coding.VarInt

/-!
The errors of the cache and of a session, with the codes and texts that reach
the peer in SUBSCRIBE_ERROR, SUBSCRIBE_DONE and ANNOUNCE_ERROR.
-/

namespace MoqTransport

open Coding

def Coding.DecodeError.text : DecodeError → String
  | .more _ => "fill buffer"
  | .invalidLength expected got =>
      "invalid payload length " ++ toString expected ++ " got " ++ toString got
  | .invalidString => "invalid string"
  | .invalidMessage id => "invalid message: " ++ toString id
  | .invalidRole role => "invalid role: " ++ toString role
  | .invalidSubscribeLocation => "invalid subscribe location"
  | .invalidFilterType => "invalid filter type"
  | .invalidGroupOrder => "invalid group order"
  | .invalidObjectStatus => "invalid object status"
  | .invalidTrackStatusCode => "invalid track status code"
  | .missingField => "missing field"
  | .invalidValue => "invalid value"
  | .boundsExceeded => "varint bounds exceeded"
  | .duplicateParameter => "duplicate parameter"
  | .missingParameter => "missing parameter"
  | .invalidParameter => "invalid parameter"

def Coding.EncodeError.text : EncodeError → String
  | .more _ => "short buffer"
  | .boundsExceeded => "varint too large"
  | .invalidValue => "invalid value"
  | .missingField => "missing field"

inductive ServeError where
  | done
  | cancel
  | closed (code : Nat)
  | notFound
  | duplicate
  | mode
  | size
  | internal (message : String)
deriving DecidableEq

namespace ServeError

def code : ServeError → Nat
  | .done => 0
  | .cancel => 1
  | .closed code => code
  | .notFound => 404
  | .duplicate => 409
  | .mode => 400
  | .size => 413
  | .internal _ => 500

def text : ServeError → String
  | .done => "done"
  | .cancel => "cancelled"
  | .closed code => "closed, code=" ++ toString code
  | .notFound => "not found"
  | .duplicate => "duplicate"
  | .mode => "multiple stream modes"
  | .size => "wrong size"
  | .internal message => "internal error: " ++ message

end ServeError

inductive SessionError where
  | closed
  | transport (message : String)
  | encode (e : EncodeError)
  | decode (e : DecodeError)
  | roleViolation
  | boundsExceeded
  | duplicate
  | internal
  | serve (e : ServeError)
  | wrongSize
  | datagramsNotSupported
deriving DecidableEq

namespace SessionError

def text : SessionError → String
  | .closed => "session closed"
  | .transport message => "transport error: " ++ message
  | .encode e => "encode error: " ++ e.text
  | .decode e => "decode error: " ++ e.text
  | .roleViolation => "role violation"
  | .boundsExceeded => "varint bounds exceeded"
  | .duplicate => "duplicate"
  | .internal => "internal error"
  | .serve e => "serve error: " ++ e.text
  | .wrongSize => "wrong size"
  | .datagramsNotSupported => "datagrams not supported"

end SessionError

/-- The conversion a failed `serve` applies before it closes its handle. -/
def ServeError.ofSession : SessionError → ServeError
  | .serve e => e
  | e => .internal e.text

end MoqTransport
