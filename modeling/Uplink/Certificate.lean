import Uplink.Device
import Uplink.Message

/-!
# Lifecycle certificates

Messages with which a gateway announces itself: a birth when it comes up, an application list when
its applications change, and a disconnect before it leaves.
-/

namespace Uplink

open Time

/-- The kinds of certificate, in the order in which they are sent. -/
inductive CertificateKind where
  | birth
  | appList
  | disconnect
deriving DecidableEq, Repr

namespace CertificateKind

def name : CertificateKind → String
  | birth => "birth"
  | appList => "app-list"
  | disconnect => "disconnect"

def suffix (o : Options) : CertificateKind → String
  | birth => o.birthSuffix
  | appList => o.appListSuffix
  | disconnect => o.disconnectSuffix

end CertificateKind

/-- The time of day, and how long the gateway has been up. -/
structure Clock where
  now : Instant
  uptimeMs : Int64

namespace Certificate

def text (value : Option String) : Metric := .string (value.getD notAvailable)

/-- How the gateway wants payloads compressed that are sent to it. -/
def acceptEncoding (o : Options) : String := if o.gzip then "gzip" else "identity"

def common (clock : Clock) (device : Device) : List (String × Metric) :=
  [("uptime", .long clock.uptimeMs), ("display_name", text device.profile.displayName)]

def applications (o : Options) (apps : List String) : List (String × Metric) :=
  [("application_ids", .string (Levels.join "," apps)),
   ("accept_encoding", .string (acceptEncoding o))]

def inventory (p : DeviceProfile) : List (String × Metric) :=
  [("model_name", text p.modelName), ("model_id", text p.modelId),
   ("part_number", text p.partNumber), ("serial_number", text p.serialNumber),
   ("firmware_version", text p.firmwareVersion), ("bios_version", text p.biosVersion),
   ("cpu_version", text p.cpuVersion), ("os", text p.osName), ("os_version", text p.osVersion),
   ("os_arch", text p.osArch), ("runtime_version", text p.runtimeVersion),
   ("connection_interface", text p.connectionInterface), ("connection_ip", text p.connectionIp)] ++
  (p.processors.map fun n => ("available_processors", Metric.int n)).toList ++
  (p.memoryKb.map fun n => ("total_memory", Metric.long n)).toList

def modemMetrics (m : Modem) : List (String × Metric) :=
  [("modem_imei", text m.imei), ("modem_iccid", text m.iccid), ("modem_imsi", text m.imsi),
   ("modem_firmware_version", text m.firmwareVersion),
   ("modem_rssi", (m.rssi.map Metric.int).getD (text none))]

def payload (clock : Clock) (o : Options) (device : Device) (apps : List String) :
    CertificateKind → Payload
  -- Only a birth says where the gateway is and what it consists of.
  | .birth =>
    { (Payload.stamped clock.now).addAll
        (common clock device ++ inventory device.profile ++ applications o apps ++
          [("payload_encoding", .string o.encoding.name)] ++
          modemMetrics (device.modem.getD {})) with
      position := device.position }
  | .appList => (Payload.stamped clock.now).addAll (common clock device ++ applications o apps)
  | .disconnect => (Payload.stamped clock.now).addAll (common clock device)

/-- The application and the application topic that a suffix names. -/
def target (o : Options) (suffix : String) : String × String :=
  (Levels.cut o.separator suffix).getD (suffix, "")

def build (clock : Clock) (o : Options) (device : Device) (apps : List String)
    (kind : CertificateKind) : Message :=
  let (app, topic) := target o (kind.suffix o)
  (Message.toApp app topic (payload clock o device apps kind)).control
    |>.withQos o.lifecycleGuarantee
    |>.retained o.lifecycleRetain
    |>.withPriority o.lifecyclePriority

end Certificate

end Uplink
