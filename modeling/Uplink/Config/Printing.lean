import Uplink.Config.Basic
import Uplink.Toml.Writer

/-!
# Showing a configuration

A configuration as the TOML document that says everything it consists of. Settings without a value
are left out.
-/

namespace Uplink.Config

open Toml

def text (key value : String) : String × Toml := (key, .string value)

def flag (key : String) (value : Bool) : String × Toml := (key, .boolean value)

def number (key : String) (value : Nat) : String × Toml := (key, .integer (Int64.ofNat value))

/-- A setting that may have no value. -/
def possible (key : String) (value : Option String) : Entries :=
  (value.map (text key)).toList

def optionEntries (o : Options) : Entries :=
  [text "control_prefix" o.controlPrefix, text "topic_separator" o.separator,
   text "account_token" o.accountToken, text "client_id_token" o.clientToken,
   text "topic_wildcard" o.wildcard, text "payload_encoding" o.encoding.name,
   flag "encode_gzip" o.gzip, flag "enable_default_subscriptions" o.defaultSubscriptions,
   flag "republish_birth_on_gps_lock" o.republishOnPosition,
   flag "republish_birth_on_tamper" o.republishOnTamper,
   number "lifecycle_qos" o.lifecycleQos, flag "lifecycle_retain" o.lifecycleRetain,
   number "lifecycle_priority" o.lifecyclePriority, text "birth_suffix" o.birthSuffix,
   text "disconnect_suffix" o.disconnectSuffix] ++
  possible "app_list_suffix" o.appListSuffix? ++
  [number "republish_delay_secs" o.republishDelaySecs, number "delivery_wait_ms" o.deliveryWaitMs,
   number "disconnect_grace_secs" o.disconnectGraceSecs,
   number "dispatch_workers" o.dispatchWorkers]

def brokerEntries (b : BrokerSection) : Entries :=
  [text "broker_url" b.url, text "client_id" b.clientId, text "account_name" b.account] ++
  possible "username_env" b.usernameEnv ++ possible "password_env" b.passwordEnv ++
  [number "keep_alive_secs" b.keepAliveSecs, flag "clean_session" b.cleanSession]

def deviceEntries (d : DeviceSection) : Entries :=
  possible "display_name" d.displayName ++ possible "model_name" d.modelName ++
  possible "model_id" d.modelId ++ possible "serial_number" d.serialNumber ++
  possible "firmware_version" d.firmwareVersion ++ possible "os_name" d.osName ++
  possible "os_version" d.osVersion ++ possible "connection_interface" d.connectionInterface

def write (c : Config) : String :=
  Toml.write [("cloud", optionEntries c.options), ("mqtt", brokerEntries c.broker),
    ("device", deviceEntries c.device)]

end Uplink.Config
