import Uplink.Qos
import Uplink.Text.Levels

/-!
# Connection options

How the gateway names topics, writes payloads and announces itself. Options are replaced as a
whole; `validate` says which of them the coordinator can work with, and which fault it reports if
there are several.
-/

namespace Uplink

inductive Encoding where
  | binary
  | json
deriving DecidableEq, Repr, Inhabited

def Encoding.name : Encoding → String
  | .binary => "kura-protobuf"
  | .json => "simple-json"

def Encoding.ofName? (name : String) : Option Encoding :=
  if name = Encoding.binary.name then some .binary
  else if name = Encoding.json.name then some .json
  else none

/-- Everything about a connection that may be configured while it is up. -/
structure Options where
  /-- First level of every control topic. -/
  controlPrefix : String := "$EDC"
  separator : String := "/"
  /-- Placeholder for the account name. -/
  accountToken : String := "#account-name"
  /-- Placeholder for the client id. -/
  clientToken : String := "#client-id"
  /-- The level of a filter that stands for all further levels. -/
  wildcard : String := "#"
  encoding : Encoding := .binary
  gzip : Bool := true
  defaultSubscriptions : Bool := true
  republishOnPosition : Bool := false
  republishOnTamper : Bool := true
  lifecycleQos : Nat := 1
  lifecycleRetain : Bool := false
  lifecyclePriority : Nat := 0
  birthSuffix : String := "MQTT/BIRTH"
  disconnectSuffix : String := "MQTT/DC"
  /-- The application list is announced like a birth unless it has a suffix of its own. -/
  appListSuffix? : Option String := none
  /-- How long certificates are gathered before they are sent again. -/
  republishDelaySecs : Nat := 30
  /-- The longest wait for a tracked delivery. -/
  deliveryWaitMs : Nat := 1000
  /-- How long deliveries and requests may take to end on a disconnect. -/
  disconnectGraceSecs : Nat := 10
  /-- How many requests are handled at a time. -/
  dispatchWorkers : Nat := 2
deriving DecidableEq, Repr, Inhabited

inductive OptionsFault where
  | controlPrefixEmpty
  | separatorEmpty
  | controlPrefixSeparated (controlPrefix : String)
  | tokensEmpty
  | lifecycleQos (level : Nat)
  | suffixEmpty (option : String)
  | noWorkers
  | workersFixed (current wanted : Nat)
  | described (text : String)
deriving DecidableEq, Repr

def OptionsFault.message : OptionsFault → String
  | .controlPrefixEmpty => "control_prefix must not be empty"
  | .separatorEmpty => "topic_separator must not be empty"
  | .controlPrefixSeparated p => s!"control_prefix '{p}' must not contain the topic separator"
  | .tokensEmpty => "account and client id tokens must not be empty"
  | .lifecycleQos level => s!"lifecycle_qos must be 0, 1 or 2, got {level}"
  | .suffixEmpty option => s!"{option} must not be empty"
  | .noWorkers => "dispatch_workers must be at least 1"
  | .workersFixed current wanted =>
    s!"dispatch_workers cannot change from {current} to {wanted} after construction"
  | .described text => text

namespace Options

/-- The suffix under which the application list is announced. -/
def appListSuffix (o : Options) : String := o.appListSuffix?.getD o.birthSuffix

/-- The guarantee for certificates. -/
def lifecycleGuarantee (o : Options) : Qos := (Qos.ofLevel? o.lifecycleQos).getD .atLeastOnce

def republishDelayMs (o : Options) : Nat := o.republishDelaySecs * 1000

def disconnectGraceMs (o : Options) : Nat := o.disconnectGraceSecs * 1000

def fault? (o : Options) : Option OptionsFault :=
  if o.controlPrefix.isEmpty then some .controlPrefixEmpty
  else if o.separator.isEmpty then some .separatorEmpty
  else if (Levels.cut o.separator o.controlPrefix).isSome then
    some (.controlPrefixSeparated o.controlPrefix)
  else if o.accountToken.isEmpty || o.clientToken.isEmpty then some .tokensEmpty
  else if (Qos.ofLevel? o.lifecycleQos).isNone then some (.lifecycleQos o.lifecycleQos)
  else if o.birthSuffix.isEmpty then some (.suffixEmpty "birth_suffix")
  else if o.disconnectSuffix.isEmpty then some (.suffixEmpty "disconnect_suffix")
  else if o.appListSuffix.isEmpty then some (.suffixEmpty "app_list_suffix")
  else if o.dispatchWorkers = 0 then some .noWorkers
  else none

/-- Refuse options that the coordinator cannot work with. -/
def validate (o : Options) : Except OptionsFault Unit :=
  match o.fault? with
  | some fault => .error fault
  | none => .ok ()

end Options

end Uplink
