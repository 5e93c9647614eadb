import Uplink.Number.Binary
import Uplink.SortedMap

/-!
# JSON values

Numbers without a point or an exponent are integers of at most 64 bits; all others are doubles.
The members of an object are kept as they were written, so a name may stand twice; whoever looks
at an object by name sees the last member of that name.
-/

namespace Uplink

open Number

inductive Json where
  | null
  | bool (value : Bool)
  | int (value : Int)
  | double (value : Double)
  | string (value : String)
  | array (items : List Json)
  | object (members : List (String × Json))
deriving Repr, Inhabited

namespace Json

/-- The least and the largest integer of a signed 64-bit number. -/
def longRange : Int × Int := (Int64.minValue.toInt, Int64.maxValue.toInt)

/-- The value of an integer that fits a signed 64-bit number. -/
def asLong? : Json → Option Int64
  | int i => if longRange.1 ≤ i ∧ i ≤ longRange.2 then some (Int64.ofInt i) else none
  | _ => none

/-- The value of an integer that fits a signed 32-bit number. -/
def asInt? : Json → Option Int32
  | int i =>
    if Int32.minValue.toInt ≤ i ∧ i ≤ Int32.maxValue.toInt then some (Int32.ofInt i) else none
  | _ => none

/-- The value of any number, an integer rounded to the nearest double. -/
def asDouble? : Json → Option Double
  | int i => some (.ofInt i)
  | double x => some x
  | _ => none

def members? : Json → Option (SortedMap Json)
  | object members => some (.ofList members)
  | _ => none

/-- A double as a value. A double that is not finite has no number in JSON. -/
def ofDouble (x : Double) : Json := if x.isFinite then double x else null

end Json

end Uplink
