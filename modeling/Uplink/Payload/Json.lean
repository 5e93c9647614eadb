import Uplink.Json.Reader
import Uplink.Json.Writer
import Uplink.Payload.Basic
import Uplink.Payload.Error
import Uplink.Text.Utf8

/-!
# The JSON form of a payload

An object with up to four members, in this order: `body` as base64, `metrics` by name, `position`
and `sentOn` in milliseconds. Kinds of metrics are not written, so that reading gives long
integers, doubles and texts only. A number that is not finite is written as null in metrics and
left out in positions.

Reading is strict about metrics and lenient about positions, whose parts are left out when they
have the wrong form.
-/

namespace Uplink

open Number Time

namespace Payload.JsonForm

/-! ## Writing -/

def ofMetric : Metric → Json
  | .bool b => .bool b
  | .long v => .int v.toInt
  | .int v => .int v.toInt
  | .double x => .ofDouble x
  | .float x => .ofDouble x.toDouble
  | .string s => .string s
  | .bytes bs => .string (Base64.encode bs)

def member (name : String) (value : Option Json) : List (String × Json) :=
  (value.map fun v => (name, v)).toList

/-- A part of a position, if it is known and finite. -/
def finitePart (x : Option Double) : Option Json :=
  (x.filter Double.isFinite).map .double

def instantPart (i : Option Instant) : Option Json :=
  i.map fun i => .int i.millis

def intPart (v : Option Int32) : Option Json :=
  v.map fun v => .int v.toInt

/-- A position as an object, its parts in the order of their names. -/
def ofPosition (p : Position) : Json :=
  .object (member "altitude" (finitePart p.altitude) ++ member "heading" (finitePart p.heading) ++
    member "latitude" (finitePart p.latitude) ++ member "longitude" (finitePart p.longitude) ++
    member "precision" (finitePart p.precision) ++
    member "satellites" (intPart p.satellites) ++ member "speed" (finitePart p.speed) ++
    member "status" (intPart p.status) ++ member "timestamp" (instantPart p.timestamp))

def ofMetrics (metrics : SortedMap Metric) : Option Json :=
  if metrics.isEmpty then none
  else some (.object (metrics.entries.map fun (name, value) => (name, ofMetric value)))

def ofPayload (p : Payload) : Json :=
  .object (member "body" (p.body.map fun bs => .string (Base64.encode bs)) ++
    member "metrics" (ofMetrics p.metrics) ++ member "position" (p.position.map ofPosition) ++
    member "sentOn" (instantPart p.timestamp))

def encode (p : Payload) : List UInt8 := Utf8.bytes (ofPayload p).write

/-! ## Reading -/

def toMetric (name : String) (v : Json) : Except Malformation Metric :=
  match v with
  | .bool b => .ok (.bool b)
  | .string s => .ok (.string s)
  | v =>
    -- Whatever number is an integer of 64 bits is read as one.
    match v.asLong?, v.asDouble? with
    | some i, _ => .ok (.long i)
    | none, some x => .ok (.double x)
    | none, none => .error (.unsupportedMetric name)

/-- The instant of a whole number of milliseconds. -/
def toInstant? (v : Json) : Option Instant :=
  v.asLong?.bind fun i => Instant.ofMillis? i.toInt

def toPosition (v : Json) : Except Malformation Position :=
  match v.members? with
  | none => .error .positionNotObject
  | some members =>
    -- A part with a value of another kind is one that is not known.
    let part (name : String) := (members.get? name).bind Json.asDouble?
    .ok {
      latitude := part "latitude", longitude := part "longitude", altitude := part "altitude"
      precision := part "precision", heading := part "heading", speed := part "speed"
      timestamp := (members.get? "timestamp").bind toInstant?
      satellites := (members.get? "satellites").bind Json.asInt?
      status := (members.get? "status").bind Json.asInt? }

def toMetrics (v : Json) : Except Malformation (SortedMap Metric) :=
  match v.members? with
  | none => .error .metricsNotObject
  | some members =>
    (members.entries.mapM fun (name, v) => (toMetric name v).map fun m => (name, m)).map .ofList

def toSentOn (v : Json) : Except Malformation (Option Instant) :=
  match v.asLong? with
  | none => .error .sentOnNotInteger
  -- A number of milliseconds out of range is no time, and no fault either.
  | some i => .ok (Instant.ofMillis? i.toInt)

def toBody (v : Json) : Except Malformation (List UInt8) :=
  match v with
  | .string s => (Base64.decode (Utf8.bytes s)).mapError .bodyNotBase64
  | _ => .error .bodyNotString

def toPayload (members : SortedMap Json) : Except Malformation Payload := do
  -- The first fault in this order is the one that is told.
  let timestamp ← (members.get? "sentOn").mapM toSentOn
  let position ← (members.get? "position").mapM toPosition
  let metrics ← (members.get? "metrics").mapM toMetrics
  let body ← (members.get? "body").mapM toBody
  return { timestamp := timestamp.join, position, metrics := metrics.getD ∅, body }

def decode (bs : List UInt8) : Except CodecError Payload :=
  match (Utf8.ofBytes? bs).bind Json.read |>.bind Json.members? with
  | none => .error .json
  | some members => (toPayload members).mapError .malformed

end Payload.JsonForm

end Uplink
