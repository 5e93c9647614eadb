import Uplink.Text.Base64

/-!
# Why a payload cannot be read
-/

namespace Uplink

/-- The kinds of metric that the binary form declares. -/
inductive MetricKind where
  | double
  | float
  | int64
  | int32
  | bool
  | string
  | bytes
deriving DecidableEq, Repr

namespace MetricKind

def code : MetricKind → Nat
  | double => 0
  | float => 1
  | int64 => 2
  | int32 => 3
  | bool => 4
  | string => 5
  | bytes => 6

def ofCode? : Int → Option MetricKind
  | 0 => some double
  | 1 => some float
  | 2 => some int64
  | 3 => some int32
  | 4 => some bool
  | 5 => some string
  | 6 => some bytes
  | _ => none

@[simp] theorem ofCode?_code (k : MetricKind) : ofCode? k.code = some k := by
  cases k <;> rfl

def name : MetricKind → String
  | double => "Double"
  | float => "Float"
  | int64 => "Int64"
  | int32 => "Int32"
  | bool => "Bool"
  | string => "String"
  | bytes => "Bytes"

end MetricKind

/-- What is wrong with a payload whose outer form is sound. -/
inductive Malformation where
  | unknownKind (metric : String) (code : Int)
  | missingValue (metric : String) (kind : MetricKind)
  | timeOutOfRange (millis : Int)
  | sentOnNotInteger
  | positionNotObject
  | metricsNotObject
  | unsupportedMetric (metric : String)
  | bodyNotString
  | bodyNotBase64 (cause : Base64.Error)
  | described (text : String)
deriving DecidableEq, Repr

def Malformation.message : Malformation → String
  | .unknownKind metric code => s!"metric '{metric}' has unknown type {code}"
  | .missingValue metric kind => s!"metric '{metric}' declares {kind.name} but carries no such value"
  | .timeOutOfRange millis => s!"timestamp {millis} out of range"
  | .sentOnNotInteger => "sentOn is not an integer"
  | .positionNotObject => "position is not an object"
  | .metricsNotObject => "metrics is not an object"
  | .unsupportedMetric metric => s!"metric '{metric}' has unsupported JSON type"
  | .bodyNotString => "body is not a string"
  | .bodyNotBase64 cause => s!"body is not base64: {cause.message}"
  | .described text => text

/-- Why bytes are no payload: they are no gzip member, no binary message, no JSON object, or a
payload that is malformed. -/
inductive CodecError where
  | gzip
  | binary
  | json
  | malformed (cause : Malformation)
deriving DecidableEq, Repr

def CodecError.message : CodecError → String
  | .gzip => "gzip decode failed"
  | .binary => "Protobuf payload error"
  | .json => "JSON payload error"
  | .malformed cause => s!"Malformed binary payload: {cause.message}"

end Uplink
