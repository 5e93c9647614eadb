import Uplink.Json.Reader
import Uplink.Json.Writer
import Uplink.Payload.Basic
import Uplink.Time.Rfc3339

/-!
# Metrics and positions as JSON texts of their own

A metric is read as the first kind that fits: truth value, long integer, double, text, or bytes
written as an array of small integers. A position is an object with one member per known part, or
an array of all nine parts in order; time is RFC 3339 text. In an object unknown members are
passed over without looking at what they hold, and a known part may not stand twice.
-/

namespace Uplink

open Number Time

namespace Metric

def byte? : Json → Option UInt8
  | .int i => if 0 ≤ i ∧ i < 256 then some (UInt8.ofNat i.toNat) else none
  | _ => none

def ofJson? : Json → Option Metric
  | .bool b => some (.bool b)
  | .string s => some (.string s)
  | .array items => (items.mapM byte?).map .bytes
  | v =>
    match v.asLong? with
    | some i => some (.long i)
    | none => v.asDouble?.map .double

/-- A metric as a value, without its kind. -/
def toJson : Metric → Json
  | .bool b => .bool b
  | .long v => .int v.toInt
  | .int v => .int v.toInt
  | .double x => .ofDouble x
  | .float x => .ofDouble x.toDouble
  | .string s => .string s
  | .bytes bs => .array (bs.map fun b => .int b.toNat)

def read (text : String) : Option Metric := (Json.read text).bind ofJson?

end Metric

namespace Position

inductive Part where
  | latitude
  | longitude
  | altitude
  | precision
  | heading
  | speed
  | timestamp
  | satellites
  | status
deriving DecidableEq, Repr

namespace Part

def all : List Part :=
  [latitude, longitude, altitude, precision, heading, speed, timestamp, satellites, status]

def name : Part → String
  | latitude => "latitude"
  | longitude => "longitude"
  | altitude => "altitude"
  | precision => "precision"
  | heading => "heading"
  | speed => "speed"
  | timestamp => "timestamp"
  | satellites => "satellites"
  | status => "status"

def ofName? (name : String) : Option Part := all.find? fun part => part.name == name

end Part

def instant? : Json → Option Instant
  | .string s => Instant.read s
  | _ => none

/-- Set a part to what a value stands for. Null leaves it unknown. -/
def set? (p : Position) (part : Part) (v : Json) : Option Position :=
  match v with
  | .null => some p
  | v =>
    match part with
    | .latitude => v.asDouble?.map fun x => { p with latitude := some x }
    | .longitude => v.asDouble?.map fun x => { p with longitude := some x }
    | .altitude => v.asDouble?.map fun x => { p with altitude := some x }
    | .precision => v.asDouble?.map fun x => { p with precision := some x }
    | .heading => v.asDouble?.map fun x => { p with heading := some x }
    | .speed => v.asDouble?.map fun x => { p with speed := some x }
    | .timestamp => (instant? v).map fun i => { p with timestamp := some i }
    | .satellites => v.asInt?.map fun n => { p with satellites := some n }
    | .status => v.asInt?.map fun n => { p with status := some n }

/-- Read the members of an object into a position up to the end of the object. The number is fuel. -/
def readMembers : Nat → List Part → Position → List Char → Option (Position × List Char)
  | 0, _, _, _ => none
  | fuel + 1, free, p, cs => do
    let (name, cs) ← Json.readMembers.readName true cs
    let (p, free, cs) ← match Part.ofName? name with
      | none => do
        -- The value of a member that is no part is passed over, however deep it is.
        let (_, cs) ← Json.readValue false (Json.fuelFor cs) (Json.fuelFor cs) cs
        some (p, free, cs)
      | some part => do
        -- A part must not be set twice.
        if part ∉ free then none
        let (v, cs) ← Json.readValue true (Json.fuelFor cs) Json.maxDepth cs
        some (← p.set? part v, free.erase part, cs)
    match Json.skipSpace cs with
    | ',' :: cs => readMembers fuel free p cs
    | '\x7d' :: cs => some (p, cs)
    | _ => none

/-- The position of an array of all nine parts. -/
def ofItems? (items : List Json) : Option Position :=
  if items.length = Part.all.length then
    (Part.all.zip items).foldlM (fun p (part, v) => p.set? part v) {}
  else none

def read (text : String) : Option Position :=
  match Json.skipSpace text.toList with
  | '\x7b' :: cs => do
    let (p, rest) ← match Json.skipSpace cs with
      | '\x7d' :: cs => some ({}, cs)
      | cs => readMembers cs.length Part.all {} cs
    if (Json.skipSpace rest).isEmpty then some p else none
  | cs =>
    match Json.readChars cs with
    | some (.array items) => ofItems? items
    | _ => none

/-- The known parts of a position as an object, in order. -/
def toJson (p : Position) : Json :=
  let part {α : Type} (part : Part) (f : α → Json) (value : Option α) : List (String × Json) :=
    (value.map fun v => (part.name, f v)).toList
  .object (part .latitude .ofDouble p.latitude ++ part .longitude .ofDouble p.longitude ++
    part .altitude .ofDouble p.altitude ++ part .precision .ofDouble p.precision ++
    part .heading .ofDouble p.heading ++ part .speed .ofDouble p.speed ++
    part .timestamp (fun i => .string i.write) p.timestamp ++
    part .satellites (fun v => .int v.toInt) p.satellites ++
    part .status (fun v => .int v.toInt) p.status)

end Position

end Uplink
