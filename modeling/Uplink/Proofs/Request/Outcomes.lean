import Uplink.Proofs.Payload.Arrival
import Uplink.Request

/-!
# What answers tell

An answer has a code in it, and either everything that the handler gave or why the request was
refused. The module says what of this is read where the answer arrives, in either form of payloads.
-/

namespace Uplink.Request

variable {e : Encoding} {now : Time.Instant} {outcome : Outcome}

/-- The code that stands for an outcome. -/
def status : Outcome → Int64
  | .ok _ => 200
  | .error (.badRequest _) => 400
  | .error (.notFound _) => 404
  | .error (.internal _) => 500

/-- What an answer is made from: what the handler gave, or nothing but the time. -/
def source (now : Time.Instant) : Outcome → Payload
  | .ok own => own
  | .error _ => .stamped now

/-- What the payload of an answer that arrived in a form tells of an outcome, besides its code. -/
def Conveys (e : Encoding) (p : Payload) : Outcome → Prop
  | .ok own =>
    (∀ name, name ≠ "response.code" → p.metric? name = (own.metric? name).map e.carriedMetric) ∧
      p.timestamp = (e.carried own).timestamp ∧
      (e.BearsPosition own → p.position = (e.carried own).position) ∧ p.body = own.body
  | .error fault =>
    p.string? "response.exception.message" = some (Redaction.redact fault.message)

structure Tells (e : Encoding) (p : Payload) (outcome : Outcome) : Prop where
  code : (p.metric? "response.code").bind Metric.asLong? = some (status outcome)
  conveys : Conveys e p outcome

end Uplink.Request
