import Uplink.Gzip.Member
import Uplink.Options
import Uplink.Payload.Binary
import Uplink.Payload.Json

/-!
# Payloads on the wire

Options choose the form in which a payload leaves; the binary form may be wrapped in gzip. What
arrives is always a payload: bytes that cannot be read become its body.
-/

namespace Uplink

namespace Encoding

def encode : Encoding → Payload → List UInt8
  | .binary => Payload.Binary.encode
  | .json => Payload.JsonForm.encode

def decode : Encoding → List UInt8 → Except CodecError Payload
  | .binary => Payload.Binary.decode
  | .json => Payload.JsonForm.decode

end Encoding

namespace Options

/-- The bytes of a payload that leaves. Only the binary form is compressed. -/
def encodePayloadWith (z : Gzip.Packer) (o : Options) (p : Payload) : List UInt8 :=
  let encoded := o.encoding.encode p
  if o.gzip ∧ o.encoding = .binary then z.compress encoded else encoded

/-- The bytes in which the payload is looked for: what gzip data expands to, if they are that. -/
def unwrapWith (z : Gzip.Packer) (bs : List UInt8) : List UInt8 :=
  if Gzip.isGzip bs then (z.decompress bs).getD bs else bs

def decodePayloadWith (z : Gzip.Packer) (o : Options) (bs : List UInt8) : Payload :=
  match o.encoding.decode (unwrapWith z bs) with
  | .ok p => p
  | .error _ => .ofBody bs

theorem decodePayloadWith_of_ok {z : Gzip.Packer} {o : Options} {bs : List UInt8} {p : Payload}
    (h : o.encoding.decode (unwrapWith z bs) = .ok p) : o.decodePayloadWith z bs = p := by
  rw [decodePayloadWith, h]

theorem decodePayloadWith_of_error {z : Gzip.Packer} {o : Options} {bs : List UInt8}
    {fault : CodecError} (h : o.encoding.decode (unwrapWith z bs) = .error fault) :
    o.decodePayloadWith z bs = .ofBody bs := by
  rw [decodePayloadWith, h]

/-! The same with the packer of this library. -/

def encodePayload (o : Options) (p : Payload) : List UInt8 := o.encodePayloadWith .storing p

def unwrap (bs : List UInt8) : List UInt8 := unwrapWith .storing bs

def decodePayload (o : Options) (bs : List UInt8) : Payload := o.decodePayloadWith .storing bs

end Options

end Uplink
