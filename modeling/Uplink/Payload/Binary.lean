import Uplink.Payload.Basic
import Uplink.Payload.Error
import Uplink.Text.Utf8
import Uplink.Wire.Field

/-!
# The binary form of a payload

A payload is a message of fields. Metrics are messages of their own with a name, a declared kind
and one value in the slot of that kind; a position is a message of numbers. Unknown fields are
passed over, a later value of a field takes the place of an earlier one, and the parts of a
position may be spread over several messages.

| message  | fields |
|----------|--------|
| payload  | time 1 (ms), position 2, metric 5000 (repeated), body 5001 |
| metric   | name 1, kind 2, then one of double 3, float 4, long 5, int 6, bool 7, string 8, bytes 9 |
| position | latitude 1, longitude 2, altitude 3, precision 4, heading 5, speed 6, time 7 (ms), satellites 8, status 9 |
-/

namespace Uplink

open Number Time Wire

namespace Payload.Binary

/-! ## Writing -/

/-- A signed number as the varint that carries it. -/
def ofLong (v : Int64) : Nat := v.toUInt64.toNat

/-- A short signed number is carried with its sign extended to 64 bits. -/
def ofInt (v : Int32) : Nat := ofLong v.toInt64

/-- Milliseconds as a signed 64-bit number. -/
def ofMillis (i : Instant) : Nat := ofLong (Int64.ofInt i.millis)

def valueField : Metric → MetricKind × Field
  | .double x => (.double, .fixed64 3 x.bits.toNat)
  | .float x => (.float, .fixed32 4 x.bits.toNat)
  | .long v => (.int64, .varint 5 (ofLong v))
  | .int v => (.int32, .varint 6 (ofInt v))
  | .bool b => (.bool, .varint 7 (if b then 1 else 0))
  | .string s => (.string, .delimited 8 (Utf8.bytes s))
  | .bytes bs => (.bytes, .delimited 9 bs)

def metricFields (name : String) (value : Metric) : List Field :=
  let (kind, field) := valueField value
  [.delimited 1 (Utf8.bytes name), .varint 2 kind.code, field]

/-- A field that is only there if its value is. -/
def optional {α : Type} (field : α → Field) (value : Option α) : List Field :=
  (value.map field).toList

def doubleField (number : Nat) (x : Double) : Field := .fixed64 number x.bits.toNat

def positionFields (p : Position) : List Field :=
  -- The form has no way to leave the two coordinates out.
  doubleField 1 (p.latitude.getD .zero) :: doubleField 2 (p.longitude.getD .zero) ::
    optional (doubleField 3) p.altitude ++ optional (doubleField 4) p.precision ++
    optional (doubleField 5) p.heading ++ optional (doubleField 6) p.speed ++
    optional (fun i => .varint 7 (ofMillis i)) p.timestamp ++
    optional (fun v => .varint 8 (ofInt v)) p.satellites ++
    optional (fun v => .varint 9 (ofInt v)) p.status

def fields (p : Payload) : List Field :=
  optional (fun i => .varint 1 (ofMillis i)) p.timestamp ++
    optional (fun pos => .delimited 2 (Field.writeAll (positionFields pos))) p.position ++
    p.metrics.entries.map (fun (name, value) =>
      .delimited 5000 (Field.writeAll (metricFields name value))) ++
    optional (Field.delimited 5001) p.body

def encode (p : Payload) : List UInt8 := Field.writeAll (fields p)

/-! ## Reading -/

/-- The signed number that a varint carries. -/
def toLong (n : Nat) : Int64 := (UInt64.ofNat n).toInt64

/-- The short signed number in the low bits of a varint. -/
def toInt (n : Nat) : Int32 := (UInt32.ofNat n).toInt32

def toDouble (n : Nat) : Double := ⟨UInt64.ofNat n⟩

def toSingle (n : Nat) : Single := ⟨UInt32.ofNat n⟩

/-- A metric while its fields are read. A kind that was never declared is that of doubles. -/
structure RawMetric where
  name : String := ""
  kind : Int32 := 0
  double : Option Double := none
  float : Option Single := none
  long : Option Int64 := none
  int : Option Int32 := none
  bool : Option Bool := none
  string : Option String := none
  bytes : Option (List UInt8) := none

def RawMetric.add (m : RawMetric) : Field → Option RawMetric
  | .delimited 1 bs => (Utf8.ofBytes? bs).map fun s => { m with name := s }
  | .varint 2 n => some { m with kind := toInt n }
  | .fixed64 3 n => some { m with double := some (toDouble n) }
  | .fixed32 4 n => some { m with float := some (toSingle n) }
  | .varint 5 n => some { m with long := some (toLong n) }
  | .varint 6 n => some { m with int := some (toInt n) }
  | .varint 7 n => some { m with bool := some (n != 0) }
  | .delimited 8 bs => (Utf8.ofBytes? bs).map fun s => { m with string := some s }
  | .delimited 9 bs => some { m with bytes := some bs }
  -- A known field with another layout than its own is refused, and one that is not known dropped.
  | f => if f.number ≤ 9 then none else some m

structure RawPosition where
  latitude : Double := .zero
  longitude : Double := .zero
  altitude : Option Double := none
  precision : Option Double := none
  heading : Option Double := none
  speed : Option Double := none
  timestamp : Option Int64 := none
  satellites : Option Int32 := none
  status : Option Int32 := none

def RawPosition.add (p : RawPosition) : Field → Option RawPosition
  | .fixed64 1 n => some { p with latitude := toDouble n }
  | .fixed64 2 n => some { p with longitude := toDouble n }
  | .fixed64 3 n => some { p with altitude := some (toDouble n) }
  | .fixed64 4 n => some { p with precision := some (toDouble n) }
  | .fixed64 5 n => some { p with heading := some (toDouble n) }
  | .fixed64 6 n => some { p with speed := some (toDouble n) }
  | .varint 7 n => some { p with timestamp := some (toLong n) }
  | .varint 8 n => some { p with satellites := some (toInt n) }
  | .varint 9 n => some { p with status := some (toInt n) }
  | f => if f.number ≤ 9 then none else some p

structure RawPayload where
  timestamp : Option Int64 := none
  position : Option RawPosition := none
  metrics : List RawMetric := []
  body : Option (List UInt8) := none

def RawPayload.add (p : RawPayload) : Field → Option RawPayload
  | .varint 1 n => some { p with timestamp := some (toLong n) }
  | .delimited 2 bs => do
    -- Of two positions the second one changes what it has in the first one.
    let position ← (← Field.readAll 1 bs).foldlM RawPosition.add (p.position.getD {})
    some { p with position := some position }
  | .delimited 5000 bs => do
    let metric ← (← Field.readAll 1 bs).foldlM RawMetric.add {}
    some { p with metrics := p.metrics ++ [metric] }
  | .delimited 5001 bs => some { p with body := some bs }
  | f => if f.number ∈ [1, 2, 5000, 5001] then none else some p

def RawPayload.read (bs : List UInt8) : Option RawPayload := do
  (← Field.readAll 0 bs).foldlM RawPayload.add {}

def instant (millis : Int64) : Except Malformation Instant :=
  match Instant.ofMillis? millis.toInt with
  | some i => .ok i
  | none => .error (.timeOutOfRange millis.toInt)

/-- The value in the slot of a kind. -/
def RawMetric.value? (m : RawMetric) : MetricKind → Option Metric
  | .double => m.double.map .double
  | .float => m.float.map .float
  | .int64 => m.long.map .long
  | .int32 => m.int.map .int
  | .bool => m.bool.map .bool
  | .string => m.string.map .string
  | .bytes => m.bytes.map .bytes

/-- The metric that was read: the value in the slot that its declared kind selects. -/
def RawMetric.finish (m : RawMetric) : Except Malformation (String × Metric) :=
  match MetricKind.ofCode? m.kind.toInt with
  | none => .error (.unknownKind m.name m.kind.toInt)
  | some kind =>
    match m.value? kind with
    | some value => .ok (m.name, value)
    | none => .error (.missingValue m.name kind)

def RawPosition.finish (p : RawPosition) : Except Malformation Position := do
  let timestamp ← p.timestamp.mapM instant
  return {
    latitude := some p.latitude, longitude := some p.longitude
    altitude := p.altitude, precision := p.precision, heading := p.heading, speed := p.speed
    timestamp, satellites := p.satellites, status := p.status }

def RawPayload.finish (p : RawPayload) : Except Malformation Payload := do
  -- The first fault in this order is the one that is told.
  let timestamp ← p.timestamp.mapM instant
  let position ← p.position.mapM RawPosition.finish
  let metrics ← p.metrics.mapM RawMetric.finish
  return { timestamp, position, metrics := SortedMap.ofList metrics, body := p.body }

def decode (bs : List UInt8) : Except CodecError Payload :=
  match RawPayload.read bs with
  | none => .error .binary
  | some raw => raw.finish.mapError .malformed

end Payload.Binary

end Uplink
