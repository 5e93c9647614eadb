import Uplink.Config.Basic
import Uplink.Text.Utf8
import Uplink.Toml.Reader

/-!
# Reading a configuration

A configuration is a TOML document with a table each for the options, the broker and the device.
Keys that are not known are passed over, and options that are not given keep their defaults. A
section may also be written as an array of its values in order.
-/

namespace Uplink

namespace Toml

def asString? : Toml → Option String
  | string s => some s
  | _ => none

def asBool? : Toml → Option Bool
  | boolean b => some b
  | _ => none

def asNat? (bound : Nat) : Toml → Option Nat
  | integer i => if 0 ≤ i.toInt ∧ i.toInt < bound then some i.toInt.toNat else none
  | _ => none

def isVoid : Toml → Bool
  | array items => items.isEmpty
  | table _ entries => entries.isEmpty
  | tables list => list.isEmpty
  | _ => false

/-- An encoding is its name, or a table of which its name is the only key. -/
def asEncoding? : Toml → Option Encoding
  | string s => Encoding.ofName? s
  | table _ [(name, value)] => if value.isVoid then Encoding.ofName? name else none
  | _ => none

/-- The values of a section by key. In an array the values stand in the order of the given keys,
and values after these have no meaning. -/
def section? (keys : List String) : Toml → Option Entries
  | table _ entries => some entries
  | array items => some (keys.zip items)
  | tables list => some (keys.zip (list.map (table .header)))
  | _ => none

/-- The value of a key that may be missing. -/
def optional {α : Type} (entries : Entries) (key : String) (read : Toml → Option α) (default : α) :
    Option α :=
  match get? entries key with
  | none => some default
  | some v => read v

end Toml

namespace Config

open Toml

def byteBound : Nat := UInt8.size

def wordBound : Nat := UInt64.size

def optionKeys : List String :=
  ["control_prefix", "topic_separator", "account_token", "client_id_token", "topic_wildcard",
   "payload_encoding", "encode_gzip", "enable_default_subscriptions",
   "republish_birth_on_gps_lock", "republish_birth_on_tamper", "lifecycle_qos",
   "lifecycle_retain", "lifecycle_priority", "birth_suffix", "disconnect_suffix",
   "app_list_suffix", "republish_delay_secs", "delivery_wait_ms", "disconnect_grace_secs",
   "dispatch_workers"]

def options? (v : Toml) : Option Options := do
  let entries ← section? optionKeys v
  let text (key : String) := optional entries key asString?
  let flag (key : String) := optional entries key asBool?
  let byte (key : String) := optional entries key (asNat? byteBound)
  let word (key : String) := optional entries key (asNat? wordBound)
  let d : Options := {}
  return {
    controlPrefix := ← text "control_prefix" d.controlPrefix
    separator := ← text "topic_separator" d.separator
    accountToken := ← text "account_token" d.accountToken
    clientToken := ← text "client_id_token" d.clientToken
    wildcard := ← text "topic_wildcard" d.wildcard
    encoding := ← optional entries "payload_encoding" asEncoding? d.encoding
    gzip := ← flag "encode_gzip" d.gzip
    defaultSubscriptions := ← flag "enable_default_subscriptions" d.defaultSubscriptions
    republishOnPosition := ← flag "republish_birth_on_gps_lock" d.republishOnPosition
    republishOnTamper := ← flag "republish_birth_on_tamper" d.republishOnTamper
    lifecycleQos := ← byte "lifecycle_qos" d.lifecycleQos
    lifecycleRetain := ← flag "lifecycle_retain" d.lifecycleRetain
    lifecyclePriority := ← byte "lifecycle_priority" d.lifecyclePriority
    birthSuffix := ← text "birth_suffix" d.birthSuffix
    disconnectSuffix := ← text "disconnect_suffix" d.disconnectSuffix
    appListSuffix? := ← optional entries "app_list_suffix" (fun v => (asString? v).map some) none
    republishDelaySecs := ← word "republish_delay_secs" d.republishDelaySecs
    deliveryWaitMs := ← word "delivery_wait_ms" d.deliveryWaitMs
    disconnectGraceSecs := ← word "disconnect_grace_secs" d.disconnectGraceSecs
    dispatchWorkers := ← word "dispatch_workers" d.dispatchWorkers }

def brokerKeys : List String :=
  ["broker_url", "client_id", "account_name", "username_env", "password_env", "keep_alive_secs",
   "clean_session"]

def broker? (v : Toml) : Option BrokerSection := do
  let entries ← section? brokerKeys v
  let text (key : String) := (get? entries key).bind asString?
  let name (key : String) := optional entries key (fun v => (asString? v).map some) none
  let isTable : Bool := match v with
    | table .. => true
    | _ => false
  -- In an array the two names of variables must not be missing, as values come after them.
  guard (isTable = true ∨ 5 ≤ entries.length)
  return {
    url := ← text "broker_url"
    clientId := ← text "client_id"
    account := ← text "account_name"
    usernameEnv := ← name "username_env"
    passwordEnv := ← name "password_env"
    keepAliveSecs := ← optional entries "keep_alive_secs" (asNat? wordBound) 30
    cleanSession := ← optional entries "clean_session" asBool? true }

def deviceKeys : List String :=
  ["display_name", "model_name", "model_id", "serial_number", "firmware_version", "os_name",
   "os_version", "connection_interface"]

def device? (v : Toml) : Option DeviceSection := do
  let entries ← section? deviceKeys v
  let name (key : String) := optional entries key (fun v => (asString? v).map some) none
  return {
    displayName := ← name "display_name"
    modelName := ← name "model_name"
    modelId := ← name "model_id"
    serialNumber := ← name "serial_number"
    firmwareVersion := ← name "firmware_version"
    osName := ← name "os_name"
    osVersion := ← name "os_version"
    connectionInterface := ← name "connection_interface" }

def ofEntries? (entries : Entries) : Option Config := do
  return {
    options := ← optional entries "cloud" options? {}
    -- The only section that must be there.
    broker := ← (get? entries "mqtt").bind broker?
    device := ← optional entries "device" device? {} }

def read (text : String) : Option Config := (Toml.read text).bind ofEntries?

/-- The configuration in the bytes of a file, if there is a file. -/
def load (file : Option (List UInt8)) : Except ConfigError Config := do
  match file.bind Utf8.ofBytes? with
  | none => throw .unreadable
  | some text =>
    match read text with
    | none => throw .syntactic
    | some config =>
      config.validate
      return config

end Config

end Uplink
