import Uplink.Payload.Basic

/-!
# The device

What a gateway knows about the machine it runs on: an inventory, a modem and a position. Parts that
are not known have no value.
-/

namespace Uplink

open Time

/-- What stands in a certificate for a value that is not known. -/
def notAvailable : String := "NA"

structure DeviceProfile where
  displayName : Option String := none
  modelName : Option String := none
  modelId : Option String := none
  partNumber : Option String := none
  serialNumber : Option String := none
  firmwareVersion : Option String := none
  biosVersion : Option String := none
  cpuVersion : Option String := none
  osName : Option String := none
  osVersion : Option String := none
  osArch : Option String := none
  runtimeVersion : Option String := none
  connectionInterface : Option String := none
  connectionIp : Option String := none
  processors : Option Int32 := none
  memoryKb : Option Int64 := none
  startedAt : Option Instant := none
deriving DecidableEq, Inhabited

structure Modem where
  imei : Option String := none
  iccid : Option String := none
  imsi : Option String := none
  rssi : Option Int32 := none
  firmwareVersion : Option String := none
deriving DecidableEq, Inhabited

structure Device where
  profile : DeviceProfile := {}
  modem : Option Modem := none
  position : Option Position := none
deriving DecidableEq, Inhabited

structure DeviceSection where
  displayName : Option String := none
  modelName : Option String := none
  modelId : Option String := none
  serialNumber : Option String := none
  firmwareVersion : Option String := none
  osName : Option String := none
  osVersion : Option String := none
  connectionInterface : Option String := none
deriving DecidableEq, Repr, Inhabited

/-- The machine that a program runs on. -/
structure Host where
  os : String
  arch : String
  processors : Option Int32
  now : Instant

def softwareVersion : String := "cloudlink 0.1.0"

/-- The profile of a configured device. What the configuration leaves open about the operating
system is that of the host. -/
def DeviceProfile.ofSection (host : Host) (s : DeviceSection) : DeviceProfile where
  displayName := s.displayName
  modelName := s.modelName
  modelId := s.modelId
  serialNumber := s.serialNumber
  firmwareVersion := s.firmwareVersion
  osName := some (s.osName.getD host.os)
  osVersion := s.osVersion
  osArch := some host.arch
  runtimeVersion := some softwareVersion
  connectionInterface := s.connectionInterface
  processors := host.processors
  startedAt := some host.now

end Uplink
